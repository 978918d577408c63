/-
Citadel.Lsm.Aes — `lsm/src/crypto/aes.c`, with its buffers.

One function serves both directions. When decrypting it takes the IV off
the END of the data first and counts the length down, so every later
length means something else than on the way in. The kernel's `gcm(aes)`
reads the first `cryptlen` bytes of the source buffer and writes to the
front of the other one, the tag behind the cipher text.

`none` is an access outside a buffer, `.error` an error code. `alloc` is
whether the cipher handle, the request and the two scratch buffers could
be had.

The framing the rest of the development reasons with, `trmAesEncrypt` and
`trmAesDecrypt` of `Citadel.Lsm.PayloadIo`, is what these functions
compute (`aesEncrypt_framing`, `aesDecrypt_framing`).
-/
import Citadel.Lsm.PayloadIoTheorems

namespace Citadel.Aes

open Bytes

variable (A : Gcm)

/-- `AES_ENCRYPT` and `AES_DECRYPT`. -/
inductive Mode where
  | encrypt
  | decrypt
  deriving DecidableEq

/-- `-EBADMSG`. -/
def ebadmsg : Int := -74

/-- `crypto_aead_encrypt` and `crypto_aead_decrypt` on a request: the
destination buffer afterwards. -/
def cryptoAead (mode : Mode) (key : AesKey) (iv : Block ivLength) (src dst : List UInt8)
    (cryptlen : Nat) : Option (Except Int (List UInt8)) := do
  let input ← read src 0 cryptlen
  match mode with
  | .encrypt => (write dst 0 (A.encrypt key iv input.1)).map .ok
  | .decrypt =>
    if cryptlen < tagLength then some (.error einval)
    else
      match A.decrypt key iv input.1 with
      | none => some (.error ebadmsg)
      | some m => (write dst 0 m).map .ok

/-- `trm_aes_operation`: what is written to `out`, and `*outlen`. `random` is
the IV of an encryption. -/
def trmAesOperation (alloc : Bool) (key : AesKey) (random : Block ivLength) (data : List UInt8)
    (mode : Mode) : Option (Except Int (List UInt8 × Nat)) := do
  let iv ← match mode with
    | .encrypt => some random
    | .decrypt =>
      if data.length < ivLength then none else read data (data.length - ivLength) ivLength
  let datasize := match mode with
    | .encrypt => data.length
    | .decrypt => data.length - ivLength
  if !alloc then some (.error enomem)
  else do
    let input ← read data 0 datasize
    let plaindata := input.1 ++ List.replicate (tagLength + ivLength) 0
    let cipherdata := List.replicate (datasize + tagLength + ivLength) 0
    match ← cryptoAead A mode key iv plaindata cipherdata datasize with
    | .error err => some (.error err)
    | .ok cipherdata =>
      match mode with
      | .encrypt => do
        let out ← read cipherdata 0 (datasize + tagLength)
        some (.ok (out.1 ++ iv.1, datasize + tagLength + ivLength))
      | .decrypt => do
        let out ← read cipherdata 0 (datasize - tagLength)
        some (.ok (out.1, datasize - tagLength))

/-- `trm_aes_encrypt`. -/
def trmAesEncrypt (alloc : Bool) (key : AesKey) (random : Block ivLength) (data : List UInt8) :
    Option (Except Int (List UInt8 × Nat)) :=
  trmAesOperation A alloc key random data .encrypt

/-- `trm_aes_decrypt`; it draws no IV. -/
def trmAesDecrypt (alloc : Bool) (key : AesKey) (data : List UInt8) :
    Option (Except Int (List UInt8 × Nat)) :=
  trmAesOperation A alloc key (zeros _) data .decrypt

/-! ## The framing -/

/-- An encryption is cipher text, tag and IV. -/
theorem aesEncrypt_framing (key : AesKey) (random : Block ivLength) (data : List UInt8) :
    trmAesEncrypt A true key random data =
      some (.ok (Citadel.trmAesEncrypt A key random data,
        data.length + tagLength + ivLength)) := by
  have henc : (A.encrypt key random data).length = data.length + tagLength :=
    A.encrypt_length _ _ _
  obtain ⟨input, hinput, hval⟩ := Option.map_eq_some_iff.mp (read_all (x := data) [] rfl)
  rw [List.append_nil] at hinput
  have hcrypt : cryptoAead A .encrypt key random
      (data ++ List.replicate (tagLength + ivLength) 0)
      (List.replicate (data.length + tagLength + ivLength) 0) data.length =
      some (.ok (A.encrypt key random data ++ List.replicate
        (data.length + tagLength + ivLength - (A.encrypt key random data).length) 0)) := by
    obtain ⟨b, hb, hbval⟩ := Option.map_eq_some_iff.mp
      (read_all (x := data) (List.replicate (tagLength + ivLength) 0) rfl)
    simp only [cryptoAead, hb, hbval, Option.bind_eq_bind, Option.bind_some]
    rw [write_front _ (by omega)]
    rfl
  obtain ⟨out, hread, houtVal⟩ := Option.map_eq_some_iff.mp (read_all (List.replicate
    (data.length + tagLength + ivLength - (A.encrypt key random data).length) 0) henc)
  simp only [trmAesEncrypt, trmAesOperation, Bool.not_true, Bool.false_eq_true, if_false, hinput,
    hval, hcrypt, hread, houtVal, Option.bind_eq_bind, Option.bind_some, Citadel.trmAesEncrypt]

/-- What decrypts is longer than its plain text by the tag. -/
theorem decrypt_length {key : AesKey} {iv : Block ivLength} {c m : List UInt8}
    (h : A.decrypt key iv c = some m) : c.length = m.length + tagLength := by
  rw [A.encrypt_of_decrypt key iv c m h, A.encrypt_length]

/-- A decryption gives the plain text and its length, or an error and
nothing. -/
theorem aesDecrypt_framing (key : AesKey) (data : List UInt8) (h : ivLength ≤ data.length) :
    trmAesDecrypt A true key data = some ((Citadel.trmAesDecrypt A true key data).elim
      (.error (if data.length - ivLength < tagLength then einval else ebadmsg))
      (fun m => .ok (m, m.length))) := by
  obtain ⟨iv, hiv, -⟩ : ∃ b : Block ivLength, _ :=
    read_val (show data.length - ivLength + ivLength ≤ data.length by omega)
  have hlen : (data.take (data.length - ivLength)).length = data.length - ivLength := by simp
  obtain ⟨input, hinput, hval⟩ := Option.map_eq_some_iff.mp
    (read_all (data.drop (data.length - ivLength)) hlen)
  rw [List.take_append_drop] at hinput
  obtain ⟨b, hb, hbval⟩ := Option.map_eq_some_iff.mp
    (read_all (List.replicate (tagLength + ivLength) 0) hlen)
  simp only [trmAesDecrypt, trmAesOperation, if_neg (Nat.not_lt.mpr h), hiv, hinput, hval, hb,
    hbval, cryptoAead, Citadel.trmAesDecrypt, Bool.not_true, Bool.false_eq_true, if_false,
    if_true, Option.bind_eq_bind, Option.bind_some]
  cases hdec : A.decrypt key iv (data.take (data.length - ivLength)) with
  | none =>
    split
    · rfl
    · rfl
  | some m =>
    have hm : data.length - ivLength = m.length + tagLength := by
      rw [← hlen]
      exact decrypt_length A hdec
    rw [if_neg (by omega)]
    obtain ⟨out, hout, houtVal⟩ := Option.map_eq_some_iff.mp (read_all (List.replicate
      (data.length - ivLength + tagLength + ivLength - m.length) 0)
      (show m.length = data.length - ivLength - tagLength by omega))
    simp only [write_front m (show m.length ≤ data.length - ivLength + tagLength + ivLength by
      omega), Option.map_some, Option.bind_some, hout, houtVal, Option.elim_some]
    rw [show data.length - ivLength - tagLength = m.length by omega]

end Citadel.Aes
