/-
Citadel.Protocol.Provisioning — from the key files to the registration.

`generate_keys.sh` makes two key pairs. One half of them goes into the
kernel module as `lsm_keys.h`. The other is put together in one file, sealed
by the program in `preparatory_enclave` behind the length of the private
key, and also goes into the module, as a blob that only the enclave can
open. The daemon reads the blob from the module's file and hands it in.

Four programs have to agree on the layout, and none of them checks it.
`provisioned_handshake` says when they do: exactly if the private key fits
the enclave's 1200 bytes. Then the enclave has the keys of the files, and a
challenge that the module encrypts, the enclave answers and the module
decrypts comes back as itself. With a longer key the enclave overruns its
buffer. (From 2371 bytes on the blob does not even fit the daemon's buffer,
and this is not considered.)

The program also leaves the keys, unsealed, in `/opt/abcd`.
-/
import Citadel.Enclave.SealedKeys
import Citadel.Lsm.Rsa
import Citadel.Protocol.Startup

namespace Citadel.Provisioning

open Bytes Enclave

/-! ## Key files -/

/-- What `openssl` writes in `generate_keys.sh`. -/
structure KeyFiles where
  enclavePriv : List UInt8
  enclavePaddedPub : Block keyPubPadLen
  lsmPriv : List UInt8
  lsmPaddedPub : Block keyPubPadLen

/-- `dd bs=24 skip=1`. -/
def strip (padded : Block keyPubPadLen) : Block keyPubLen :=
  ⟨padded.1.drop 24, by rw [List.length_drop, padded.2]; rfl⟩

/-- The file `enclave_keys`. -/
def KeyFiles.enclaveKeys (files : KeyFiles) : List UInt8 :=
  files.enclavePriv ++ (files.enclavePaddedPub.1 ++ ((strip files.enclavePaddedPub).1 ++
    (files.lsmPaddedPub.1 ++ (strip files.lsmPaddedPub).1)))

/-- The file `lsm_keys.h`. -/
def KeyFiles.lsmKeys (files : KeyFiles) : Rsa.LsmKeys :=
  ⟨files.lsmPriv, (strip files.enclavePaddedPub).1⟩

theorem KeyFiles.enclaveKeys_length (files : KeyFiles) :
    files.enclaveKeys.length = files.enclavePriv.length + 1128 := by
  simp only [enclaveKeys, List.length_append, files.enclavePaddedPub.2, files.lsmPaddedPub.2,
    (strip _).2]
  rfl

/-! ## `preparatory_enclave` -/

/-- What the program meets: everything but the writing of `/opt/abcd` has
to go well. -/
structure PrepareEnv where
  enclave : Bool
  plainText : Bool
  opened : Bool
  abcd : Bool
  sizeCall : Bool
  sealedBuf : Bool
  sealCall : Bool
  tempSealedBuf : Bool
  /-- `sgx_seal_data` succeeds, and with which randomness. -/
  seed : Option (List UInt8)
  saved : Bool

/-- `get_sealed_data_size`, without its error value. -/
def getSealedDataSize (S : Sealing sealedHeader) (plainLen : Nat) : Option Nat :=
  S.sealedSize sealMac.length plainLen

/-- `seal_data`. -/
def sealData (S : Sealing sealedHeader) (env : PrepareEnv) (plainBlob : List UInt8)
    (dataSize : Nat) : Option (List UInt8) :=
  match S.sealedSize sealMac.length plainBlob.length with
  | none => none
  | some size =>
    if dataSize < size then none
    else if !env.tempSealedBuf then none
    else if plainBlob.length = 0 then none
    else env.seed.map fun seed => S.wrap seed sealMac plainBlob

/-- What the program leaves behind. -/
structure Prepared where
  abcd : Option (List UInt8)
  sealed : Option (List UInt8)
  deriving DecidableEq

/-- `seal_and_save_data`. A file that cannot be opened has the size
`(size_t)-1`, and is not read in the end. -/
def sealAndSaveData (S : Sealing sealedHeader) (env : PrepareEnv) (datafile : List UInt8)
    (preamble : BitVec 16) : Prepared :=
  if !env.enclave then ⟨none, none⟩
  else if !env.opened then ⟨none, none⟩
  else if datafile.length = 0 then ⟨none, none⟩
  else if !env.plainText then ⟨none, none⟩
  else
    let plainText := (le16 preamble).1 ++ datafile
    let abcd := if env.abcd then some plainText else none
    -- the length goes into the enclave as a `uint32_t`
    let text := plainText.take (plainText.length % 2 ^ 32)
    if !env.sizeCall then ⟨abcd, none⟩
    else
      match getSealedDataSize S text.length with
      | none => ⟨abcd, none⟩
      | some size =>
        if !env.sealedBuf then ⟨abcd, none⟩
        else if !env.sealCall then ⟨abcd, none⟩
        else
          match sealData S env text size with
          | none => ⟨abcd, none⟩
          | some blob => ⟨abcd, if env.saved then some blob else none⟩

/-- Nothing that matters fails. -/
def PrepareEnv.works (env : PrepareEnv) : Bool :=
  env.enclave && env.plainText && env.opened && env.sizeCall && env.sealedBuf && env.sealCall &&
    env.tempSealedBuf && env.seed.isSome && env.saved

/-- What is sealed. -/
def KeyFiles.plainText (files : KeyFiles) : List UInt8 :=
  (le16 (BitVec.ofNat 16 files.enclavePriv.length)).1 ++ files.enclaveKeys

theorem KeyFiles.plainText_length (files : KeyFiles) :
    files.plainText.length = files.enclavePriv.length + 1130 := by
  rw [plainText, List.length_append, (le16 _).2, files.enclaveKeys_length]
  omega

/-- A program that works seals the file behind its preamble. -/
theorem sealAndSaveData_works (S : Sealing sealedHeader) {env : PrepareEnv}
    (hworks : env.works = true) {files : KeyFiles} (hlen : files.enclavePriv.length < 2 ^ 16) :
    ∃ seed, sealAndSaveData S env files.enclaveKeys (BitVec.ofNat 16 files.enclavePriv.length) =
      ⟨if env.abcd then some files.plainText else none,
        some (S.wrap seed sealMac files.plainText)⟩ := by
  simp only [PrepareEnv.works, Bool.and_eq_true] at hworks
  obtain ⟨⟨⟨⟨⟨⟨⟨⟨henclave, hplain⟩, hopened⟩, hsize⟩, hbuf⟩, hcall⟩, htemp⟩, hseed⟩, hsaved⟩ :=
    hworks
  obtain ⟨seed, hseed⟩ := Option.isSome_iff_exists.mp hseed
  have htext := files.plainText_length
  have hne : files.enclaveKeys.length ≠ 0 := by
    rw [files.enclaveKeys_length]
    omega
  have hne' : files.plainText.length ≠ 0 := by omega
  have htake : files.plainText.take (files.plainText.length % 2 ^ 32) = files.plainText := by
    rw [Nat.mod_eq_of_lt (by omega), List.take_length]
  have hmac : sealMac.length = 36 := by decide
  have hcalc : S.sealedSize sealMac.length files.plainText.length =
      some (sealedHeader + (sealMac.length + files.plainText.length)) := by
    refine S.sealedSize_of_lt ?_
    rw [hmac, sealedHeader]
    omega
  refine ⟨seed, ?_⟩
  have hfold : (le16 (BitVec.ofNat 16 files.enclavePriv.length)).1 ++ files.enclaveKeys =
      files.plainText := rfl
  simp only [sealAndSaveData, getSealedDataSize, sealData, henclave, hopened, hne, hplain, hfold,
    htake, hsize, hcalc, hbuf, hcall, htemp, hne', hseed, hsaved, Bool.not_true,
    Bool.false_eq_true, if_false, Nat.lt_irrefl, Option.map_some, if_true]

/-! ## `fetch_sealed_keys` -/

/-- What the daemon meets. -/
structure FetchEnv where
  opened : Bool
  /-- Whether the two reads that `fread` makes can copy. -/
  first : Bool
  second : Bool
  /-- What `buffer` holds before. -/
  buffer : Block sealMaxsize
  /-- The ECALL is made; if not, `retval` is what it was. -/
  ecall : Bool
  retval : Bool
  /-- The enclave's stack. -/
  stack : Block sealMaxsize

/-- `fread` of a whole buffer: one read into it, and if it came short one
into the buffer of the stream. -/
def freadSealed (env : FetchEnv) (sealed : List UInt8) : List UInt8 :=
  let reply := sealedKeysRead sealed 0 ⟨sealMaxsize, env.first⟩
  if reply.result ≤ 0 then []
  else if reply.copied.length = sealMaxsize then reply.copied
  else
    let rest := sealedKeysRead sealed reply.copied.length ⟨stdioBuffer, env.second⟩
    (reply.copied ++ rest.copied).take sealMaxsize

/-- `fetch_sealed_keys`, over the module's file with this blob. -/
def fetchSealedKeys (S : Sealing sealedHeader) (env : FetchEnv) (sealed : List UInt8)
    (k : KeyStore) : Option (KeyStore × Bool) :=
  if !env.opened then some (k, false)
  else
    let got := freadSealed env sealed
    if !env.ecall then some (k, env.retval)
    else processSealedKeys S env.stack k (got ++ env.buffer.1.drop got.length)

def FetchEnv.works (env : FetchEnv) : Bool := env.opened && env.first && env.ecall

/-- A blob that fits the buffer is read whole: the second read finds the
end of the file. -/
theorem freadSealed_eq {env : FetchEnv} (hfirst : env.first = true) {sealed : List UInt8}
    (hne : 0 < sealed.length) (hlen : sealed.length ≤ sealMaxsize) :
    freadSealed env sealed = sealed := by
  have hmin : min sealMaxsize (sealed.length - 0) = sealed.length := by omega
  have hread : sealedKeysRead sealed 0 ⟨sealMaxsize, env.first⟩ = ⟨sealed.length, sealed⟩ := by
    rw [sealedKeysRead, if_neg (by omega), copyOut, hfirst]
    simp only [Bool.not_true, Bool.false_eq_true, if_false, hmin, List.take_length]
  have hend : sealedKeysRead sealed sealed.length ⟨stdioBuffer, env.second⟩ = ⟨0, []⟩ := by
    rw [sealedKeysRead, if_pos (Nat.le_refl _)]
  have hpos : ¬ ((sealed.length : Int) ≤ 0) := by omega
  simp only [freadSealed, hread, hend, if_neg hpos, List.append_nil, List.take_of_length_le hlen,
    ite_self]

/-! ## The keys in the enclave -/

/-- The store after the keys of the files were copied into it. -/
structure Holds (files : KeyFiles) (k : KeyStore) : Prop where
  loaded : k.keysLoaded = true
  priv : k.privateKey = files.enclavePriv
  paddedPub : k.enclaveKeyPaddedPub = files.enclavePaddedPub
  pub : k.enclaveKeyPub = strip files.enclavePaddedPub
  lsmPaddedPub : k.lsmKeyPaddedPub = files.lsmPaddedPub
  lsmPub : k.lsmKeyPub = strip files.lsmPaddedPub

theorem load_plainText {files : KeyFiles} (hlen : files.enclavePriv.length < 2 ^ 16)
    (k : KeyStore) (rest : List UInt8) :
    k.load (files.plainText ++ rest) = (k.copyPriv files.enclavePriv).map fun priv =>
      ⟨true, files.enclavePriv.length, priv, files.enclavePaddedPub,
        strip files.enclavePaddedPub, files.lsmPaddedPub, strip files.lsmPaddedPub⟩ := by
  have hcount : (ofLe16 (le16 (BitVec.ofNat 16 files.enclavePriv.length))).toNat =
      files.enclavePriv.length := by
    rw [ofLe16_le16, BitVec.toNat_ofNat, Nat.mod_eq_of_lt hlen]
  have hsplit : files.plainText ++ rest =
      (le16 (BitVec.ofNat 16 files.enclavePriv.length)).1 ++ (files.enclavePriv ++
        (files.enclavePaddedPub.1 ++ ((strip files.enclavePaddedPub).1 ++
          (files.lsmPaddedPub.1 ++ ((strip files.lsmPaddedPub).1 ++ rest))))) := by
    simp only [KeyFiles.plainText, KeyFiles.enclaveKeys, List.append_assoc]
  -- a read behind the private key, whose length is only known to the file
  have hbehind : ∀ {n : Nat} (off : Nat) (tail : List UInt8),
      Bytes.read ((le16 (BitVec.ofNat 16 files.enclavePriv.length)).1 ++
          (files.enclavePriv ++ tail)) (2 + files.enclavePriv.length + off) n =
        Bytes.read tail off n := by
    intro n off tail
    rw [read_block _ _ (by omega), read_skip _ _ (by omega)]
    congr 1
    omega
  have hpriv : (Bytes.read (files.plainText ++ rest) 2 files.enclavePriv.length).map
      Subtype.val = some files.enclavePriv := by
    rw [hsplit, read_block _ _ (Nat.le_refl 2)]
    exact read_all _ rfl
  have hfirst : Bytes.read (files.plainText ++ rest) (2 + files.enclavePriv.length)
      keyPubPadLen = some files.enclavePaddedPub := by
    rw [hsplit]
    exact (hbehind 0 _).trans (read_front _ _)
  have hsecond : Bytes.read (files.plainText ++ rest) (2 + files.enclavePriv.length +
      keyPubPadLen) keyPubLen = some (strip files.enclavePaddedPub) := by
    rw [hsplit, hbehind, read_block _ _ (Nat.le_refl _), Nat.sub_self]
    exact read_front _ _
  have hthird : Bytes.read (files.plainText ++ rest) (2 + files.enclavePriv.length +
      (keyPubPadLen + keyPubLen)) keyPubPadLen = some files.lsmPaddedPub := by
    rw [hsplit, hbehind, read_block _ _ (by decide), read_block _ _ (by decide)]
    exact read_front _ _
  have hfourth : Bytes.read (files.plainText ++ rest) (2 + files.enclavePriv.length +
      (keyPubPadLen + (keyPubLen + keyPubPadLen))) keyPubLen =
        some (strip files.lsmPaddedPub) := by
    rw [hsplit, hbehind, read_block _ _ (by decide), read_block _ _ (by decide),
      read_block _ _ (by decide)]
    exact read_front _ _
  have hlenRead : Bytes.read (files.plainText ++ rest) 0 2 =
      some (le16 (BitVec.ofNat 16 files.enclavePriv.length)) := by
    rw [hsplit]
    exact read_front _ _
  simp only [KeyStore.load, hlenRead, Option.map_some, hcount, Option.bind_eq_bind,
    Option.bind_some, hpriv, hfirst, hsecond, hthird, hfourth]
  cases k.copyPriv files.enclavePriv <;> rfl

theorem copyPriv_some {k : KeyStore} {key : List UInt8} {priv : Block keyPrivLen}
    (h : k.copyPriv key = some priv) : priv.1.take key.length = key := by
  unfold KeyStore.copyPriv at h
  split at h
  · cases h
    exact List.take_left
  · cases h

/-- The daemon brings the keys in, or the enclave overruns its buffer. -/
theorem fetchSealedKeys_wrap (S : Sealing sealedHeader) {env : FetchEnv}
    (hworks : env.works = true) {files : KeyFiles} (hlen : files.enclavePriv.length ≤ 2370)
    (seed : List UInt8) (k : KeyStore) :
    fetchSealedKeys S env (S.wrap seed sealMac files.plainText) k =
      (k.copyPriv files.enclavePriv).map fun priv =>
        (⟨true, files.enclavePriv.length, priv, files.enclavePaddedPub,
          strip files.enclavePaddedPub, files.lsmPaddedPub, strip files.lsmPaddedPub⟩, true) := by
  simp only [FetchEnv.works, Bool.and_eq_true] at hworks
  obtain ⟨⟨hopened, hfirst⟩, hecall⟩ := hworks
  have htext := files.plainText_length
  have hmac : sealMac.length = 36 := by decide
  have hsealed : (S.wrap seed sealMac files.plainText).length =
      files.enclavePriv.length + 1726 := by
    rw [S.wrap_length, htext, hmac, sealedHeader]
    omega
  have hfread : freadSealed env (S.wrap seed sealMac files.plainText) =
      S.wrap seed sealMac files.plainText := by
    refine freadSealed_eq hfirst (by omega) ?_
    rw [hsealed, sealMaxsize]
    omega
  have hunseal : ∀ rest, S.unsealInto (S.wrap seed sealMac files.plainText ++ rest)
      sealMac.length sealMaxsize = some files.plainText := by
    intro rest
    refine S.unsealInto_wrap (Nat.le_refl _) (by omega) ?_ ?_ seed rest
    · rw [htext, sealMaxsize]
      omega
    · rw [htext, hmac]
      omega
  simp only [fetchSealedKeys, hopened, hecall, Bool.not_true, Bool.false_eq_true, if_false, hfread,
    processSealedKeys, hunseal, load_plainText (show files.enclavePriv.length < 2 ^ 16 by omega),
    Option.map_map]
  rfl

/-! ## The handshake -/

/-- What `rsa_encrypt` and `rsa_decrypt` of the enclave register first. -/
structure LtcEnv where
  hash : Bool
  prng : Bool

/-- `rsa_decrypt` of the enclave. -/
def rsaDecrypt (R : PkeCode) (env : LtcEnv) (key msg : List UInt8) : Option (List UInt8) :=
  if !env.hash then none else if !env.prng then none else R.decrypt key msg

/-- `rsa_encrypt` of the enclave. -/
def rsaEncrypt (R : PkeCode) (env : LtcEnv) (key seed msg : List UInt8) : Option (List UInt8) :=
  if !env.hash then none else if !env.prng then none else R.encrypt key seed msg

/-- What a challenge meets on its way there and back. -/
structure HandshakeEnv where
  encrypting : Rsa.RsaEnv
  challengeSeed : List UInt8
  opening : LtcEnv
  closing : LtcEnv
  responseSeed : List UInt8
  decrypting : Rsa.RsaEnv
  key : AesKey
  pid : Pid

/-- A challenge goes through `trm_rsa_encrypt`, `handle_kernel_challenge` and
`trm_rsa_decrypt`: the enclave afterwards, and what the module has. -/
def handshake (K : Rsa.Akcipher) (R : PkeCode) (keys : Rsa.LsmKeys) (k : KeyStore)
    (env : HandshakeEnv) (c : Challenge) (e : Enclave) : Option (Enclave × Option Challenge) := do
  let some cipher ← Rsa.trmRsaEncrypt K keys env.encrypting env.challengeSeed
    (c.encode challengePad) | some (e, none)
  let (e, response) := handleKernelChallenge (rsaDecrypt R env.opening k.privateKey)
    (rsaEncrypt R env.closing k.lsmKeyPaddedPub.1 env.responseSeed) e cipher env.key env.pid
  let some response := response | some (e, none)
  let some decrypted ← Rsa.trmRsaDecrypt K keys env.decrypting response | some (e, none)
  let answer ← Challenge.read decrypted
  some (e, some answer)

def LtcEnv.works (env : LtcEnv) : Bool := env.hash && env.prng

structure HandshakeEnv.Works (env : HandshakeEnv) : Prop where
  encrypting : env.encrypting.works = true
  cipher : env.encrypting.copy = true
  opening : env.opening.works = true
  closing : env.closing.works = true
  decrypting : env.decrypting.works = true
  plain : env.decrypting.copy = true

/-- The files hold the keys of two pairs: the kernel takes the stripped
public key, the enclave the padded one. -/
structure KeyFiles.Paired (files : KeyFiles) (K : Rsa.Akcipher) (R : PkeCode)
    (lsmRsa enclaveRsa : Pke rsaKeyLength rsaMaxPayload) : Prop where
  enclavePub : K.Public enclaveRsa (strip files.enclavePaddedPub).1
  enclaveSize : K.maxsize (strip files.enclavePaddedPub).1 = rsaKeyLength
  enclavePriv : R.Private enclaveRsa files.enclavePriv
  lsmPub : R.Public lsmRsa files.lsmPaddedPub.1
  lsmPriv : K.Private lsmRsa files.lsmPriv
  lsmSize : K.maxsize files.lsmPriv = rsaKeyLength

theorem encode_le_payload (c : Challenge) (padding : Block challengePadding) :
    (c.encode padding).length ≤ rsaMaxPayload := by
  rw [Challenge.encode_length]
  decide

theorem handshake_holds {K : Rsa.Akcipher} {R : PkeCode} {files : KeyFiles}
    {lsmRsa enclaveRsa : Pke rsaKeyLength rsaMaxPayload}
    (hpaired : files.Paired K R lsmRsa enclaveRsa) {k : KeyStore} (hk : Holds files k)
    {env : HandshakeEnv} (hworks : env.Works) {c : Challenge}
    (hsig : c.signature = challengeSignature) (e : Enclave) :
    handshake K R files.lsmKeys k env c e = some (⟨env.key, env.key⟩,
      some { c with name := writeName c.name, key := env.key, pid := env.pid }) := by
  have hopening := hworks.opening
  have hclosing := hworks.closing
  simp only [LtcEnv.works, Bool.and_eq_true] at hopening hclosing
  have hcipher : Rsa.trmRsaEncrypt K files.lsmKeys env.encrypting env.challengeSeed
      (c.encode challengePad) =
        some (some (enclaveRsa.encrypt env.challengeSeed (c.encode challengePad))) := by
    rw [Rsa.trmRsaEncrypt_eq hpaired.enclavePub hpaired.enclaveSize hworks.cipher
      (encode_le_payload _ _), hworks.encrypting, if_pos rfl]
  have hdec : rsaDecrypt R env.opening k.privateKey
      (enclaveRsa.encrypt env.challengeSeed (c.encode challengePad)) =
        some (c.encode challengePad) := by
    rw [rsaDecrypt, hopening.1, hopening.2, hk.priv, hpaired.enclavePriv]
    exact enclaveRsa.decrypt_encrypt _ _ (encode_le_payload _ _)
  have hanswer := handleKernelChallenge_answers hdec hsig
    (rsaEncrypt R env.closing k.lsmKeyPaddedPub.1 env.responseSeed) e env.key env.pid
  have henc : ∀ m : List UInt8, m.length ≤ rsaMaxPayload →
      rsaEncrypt R env.closing k.lsmKeyPaddedPub.1 env.responseSeed m =
        some (lsmRsa.encrypt env.responseSeed m) := by
    intro m hm
    rw [rsaEncrypt, hclosing.1, hclosing.2, hk.lsmPaddedPub]
    exact hpaired.lsmPub _ _ hm
  rw [henc _ (encode_le_payload _ _)] at hanswer
  have hdecrypted : ∀ answer : Challenge, Rsa.trmRsaDecrypt K files.lsmKeys env.decrypting
      (lsmRsa.encrypt env.responseSeed (answer.encode challengePad)) =
        some (some (answer.encode challengePad ++
          List.replicate (rsaKeyLength - (answer.encode challengePad).length) 0)) := by
    intro answer
    have hback := lsmRsa.decrypt_encrypt env.responseSeed _
      (encode_le_payload answer challengePad)
    rw [Rsa.trmRsaDecrypt_eq hpaired.lsmPriv hpaired.lsmSize hworks.plain, hworks.decrypting,
      if_pos rfl, Citadel.trmRsaDecrypt, hback, Option.map_some]
    · rw [lsmRsa.encrypt_length _ _ (encode_le_payload _ _)]
      decide
    · intro m hm
      rw [hback] at hm
      cases hm
      exact (encode_le_payload _ _).trans (by decide)
  simp only [handshake, hcipher, hanswer, hdecrypted, Option.bind_eq_bind, Option.bind_some,
    Challenge.read_encode]

/-- **Provisioning.** From key files that hold two pairs, with nothing
failing on the way: the preparatory program seals the keys (and leaves them
in `/opt/abcd`). If the private key has at most 1200 bytes, the daemon's
start brings exactly these keys into the enclave, whatever was there
before, and from then on every challenge of the module comes back from the
enclave as itself, with the key the enclave has drawn. If it has more, the
enclave overruns its buffer. -/
theorem provisioned_handshake (S : Sealing sealedHeader) {K : Rsa.Akcipher} {R : PkeCode}
    {files : KeyFiles} {lsmRsa enclaveRsa : Pke rsaKeyLength rsaMaxPayload}
    (hpaired : files.Paired K R lsmRsa enclaveRsa)
    (hlen : files.enclavePriv.length ≤ 2370) {prepare : PrepareEnv}
    (hprepare : prepare.works = true) {fetch : FetchEnv} (hfetch : fetch.works = true) :
    ∃ sealed, sealAndSaveData S prepare files.enclaveKeys
        (BitVec.ofNat 16 files.enclavePriv.length) =
          ⟨if prepare.abcd then some files.plainText else none, some sealed⟩ ∧
      ∀ k, (keyPrivLen < files.enclavePriv.length → fetchSealedKeys S fetch sealed k = none) ∧
        (files.enclavePriv.length ≤ keyPrivLen →
          ∃ k', fetchSealedKeys S fetch sealed k = some (k', true) ∧ Holds files k' ∧
            ∀ (env : HandshakeEnv) (c : Challenge) (e : Enclave), env.Works →
              c.signature = challengeSignature →
              handshake K R files.lsmKeys k' env c e = some (⟨env.key, env.key⟩,
                some { c with name := writeName c.name, key := env.key, pid := env.pid })) := by
  have hshort : files.enclavePriv.length < 2 ^ 16 := by omega
  obtain ⟨seed, hsealed⟩ := sealAndSaveData_works S hprepare hshort
  refine ⟨_, hsealed, ?_⟩
  intro k
  have hfetched := fetchSealedKeys_wrap S hfetch hlen seed k
  refine ⟨?_, ?_⟩
  · intro hlong
    rw [hfetched, KeyStore.copyPriv, dif_neg (Nat.not_le.mpr hlong)]
    rfl
  · intro hshort
    obtain ⟨priv, hpriv⟩ : ∃ priv, k.copyPriv files.enclavePriv = some priv :=
      ⟨_, dif_pos hshort⟩
    rw [hpriv] at hfetched
    have hholds : Holds files ⟨true, files.enclavePriv.length, priv, files.enclavePaddedPub,
        strip files.enclavePaddedPub, files.lsmPaddedPub, strip files.lsmPaddedPub⟩ :=
      ⟨rfl, copyPriv_some hpriv, rfl, rfl, rfl, rfl⟩
    exact ⟨_, hfetched, hholds, fun env c e hworks hsig =>
      handshake_holds hpaired hholds hworks hsig e⟩

/-- RSA without secrecy, with any bytes for a key. -/
def plainAkcipher : Rsa.Akcipher where
  encrypt := fun _ seed m => some (plainRsa.encrypt seed m)
  decrypt := fun _ c => plainRsa.decrypt c
  maxsize := fun _ => rsaKeyLength

/-- A private key of ones, and public keys of twos and threes. -/
def sampleFiles : KeyFiles := ⟨(fill 1190 1).1, fill _ 2, (fill 1190 4).1, fill _ 3⟩

theorem sampleFiles_paired :
    sampleFiles.Paired plainAkcipher plainAkcipher.toPkeCode plainRsa plainRsa :=
  ⟨fun _ _ _ => rfl, rfl, fun _ => rfl, fun _ _ _ => rfl, fun _ => rfl, rfl⟩

def calmPrepare : PrepareEnv := ⟨true, true, true, true, true, true, true, true, some [], true⟩

def calmFetch : FetchEnv := ⟨true, true, true, fill _ 0xAA, true, false, fill _ 0xBB⟩

theorem sampleFiles_provisioned :
    ∃ sealed, sealAndSaveData (.plain _ (by decide)) calmPrepare sampleFiles.enclaveKeys
        (BitVec.ofNat 16 sampleFiles.enclavePriv.length) =
          ⟨some sampleFiles.plainText, some sealed⟩ ∧
      ∃ k, fetchSealedKeys (.plain _ (by decide)) calmFetch sealed .initial = some (k, true) ∧
        k.privateKey = (fill 1190 1).1 := by
  have hlen : sampleFiles.enclavePriv.length = 1190 := (fill 1190 1).2
  obtain ⟨sealed, hsealed, hall⟩ := provisioned_handshake (.plain _ (by decide))
    sampleFiles_paired (by omega) (show calmPrepare.works = true by rfl)
    (show calmFetch.works = true by rfl)
  obtain ⟨k, hfetched, hholds, -⟩ := (hall .initial).2 (by rw [hlen, keyPrivLen]; omega)
  exact ⟨sealed, hsealed, k, hfetched, hholds.priv⟩

end Citadel.Provisioning
