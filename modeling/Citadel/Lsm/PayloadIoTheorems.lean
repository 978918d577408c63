/-
Citadel.Lsm.PayloadIoTheorems — what the two channels of the kernel module
do with an input, by what its framing decrypts to.

An input that does not authenticate leaves the state as it was, on either
channel: `process_received_update` looks at neither the result of the
decryption nor the signature, but the buffer it goes on with is all zeros,
so it inserts no record and ratchets the key by zeros. An input that
authenticates is as good as its plain text. For a header with records
behind it this is `processReceivedUpdate_encoded` (every record is
inserted, in order) and `xattrEnclaveInstallation_encoded` (the first
record decides, if it is the only one).
-/
import Citadel.Lsm.HexCodec
import Citadel.Lsm.PayloadIo
import Citadel.Lsm.TicketQueues

namespace Citadel

open Bytes SearchTree

/-! ## Framing -/

variable {A : Gcm}

theorem trmAesEncrypt_length (A : Gcm) (key : AesKey) (iv : Block ivLength) (m : List UInt8) :
    (trmAesEncrypt A key iv m).length = m.length + tagLength + ivLength := by
  simp [trmAesEncrypt, A.encrypt_length, iv.2]

/-- What a framed ciphertext splits into. -/
theorem trmAesDecrypt_framed (A : Gcm) (key : AesKey) (iv : Block ivLength) (c : List UInt8) :
    trmAesDecrypt A true key (c ++ iv.1) = A.decrypt key iv c := by
  have hread : Bytes.read (c ++ iv.1) c.length ivLength = some iv := by
    rw [read_skip _ _ (le_refl _), Nat.sub_self]
    simpa using read_front iv []
  simp [trmAesDecrypt, iv.2, hread]

theorem trmAesDecrypt_encrypt (A : Gcm) (key : AesKey) (iv : Block ivLength) (m : List UInt8) :
    trmAesDecrypt A true key (trmAesEncrypt A key iv m) = some m := by
  rw [trmAesEncrypt, trmAesDecrypt_framed, A.decrypt_encrypt]

/-- The input is a ciphertext under this key. -/
def authenticates (A : Gcm) (key : AesKey) (data : List UInt8) : Bool :=
  (trmAesDecrypt A true key data).isSome

theorem authenticates_encrypt (A : Gcm) (key : AesKey) (iv : Block ivLength) (m : List UInt8) :
    authenticates A key (trmAesEncrypt A key iv m) = true := by
  rw [authenticates, trmAesDecrypt_encrypt, Option.isSome_some]

theorem trmAesDecrypt_eq_none {key : AesKey} {data : List UInt8}
    (h : authenticates A key data = false) (alloc : Bool) :
    trmAesDecrypt A alloc key data = none := by
  cases alloc with
  | true => simpa [authenticates] using h
  | false => rfl

/-- A ciphertext made under another key does not authenticate. -/
theorem authenticates_other (hA : A.Ideal) {key key' : AesKey} (hk : key ≠ key')
    (iv : Block ivLength) (m : List UInt8) :
    authenticates A key' (trmAesEncrypt A key iv m) = false := by
  rw [authenticates, trmAesEncrypt, trmAesDecrypt_framed, hA _ _ _ _ hk, Option.isSome_none]

/-! ## Zeros -/

/-- The header of a buffer of zeros announces no record and a key update
that changes nothing. -/
theorem UpdateHeader.read_zeros {size : Nat} (h : updateHeaderSize ≤ size) :
    UpdateHeader.read (List.replicate size 0) = some ⟨zeros _, zeros _, 0⟩ := by
  unfold updateHeaderSize at h
  simp only [UpdateHeader.read, signatureLength, aesKeyLength,
    Bytes.read_zeros (show 0 + 8 ≤ size by omega), Bytes.read_zeros (show 8 + 16 ≤ size by omega),
    Bytes.read_zeros (show 8 + 16 + 1 ≤ size by omega)]
  rfl

theorem updateAesKey_zeros (s : Lsm) : updateAesKey s (zeros _) = s := by
  rw [updateAesKey, xor_zeros]

/-- On a buffer of zeros the loop makes no iteration and the ratchet adds
zeros. -/
theorem applyUpdate_zeros (env : Nat → InsertEnv) (s : Lsm) {size : Nat}
    (h : updateHeaderSize ≤ size) :
    applyUpdate env s (List.replicate size 0) = some (s, []) := by
  rw [applyUpdate, UpdateHeader.read_zeros h]
  change some (updateAesKey s (zeros _), []) = some (s, [])
  rw [updateAesKey_zeros]

/-- An update that is not decrypted changes nothing; with no memory for its
plain text the kernel faults. -/
theorem processReceivedUpdate_undecrypted {env : UpdateEnv} {s : Lsm} {update : List UInt8}
    (h : trmAesDecrypt A env.crypto s.aesKey update = none) :
    processReceivedUpdate A env s update =
      if s.registered ∧ ivLength + tagLength < update.length ∧ env.plain = false then none
      else some (s, []) := by
  unfold processReceivedUpdate
  rw [h, plainBuffer]
  cases s.registered with
  | false => simp
  | true =>
    by_cases hlen : update.length ≤ ivLength + tagLength
    · simp [hlen]
    · have hsize : updateHeaderSize ≤ update.length := by
        unfold updateHeaderSize
        unfold ivLength tagLength at hlen
        omega
      rw [applyUpdate_zeros _ _ hsize]
      cases env.plain with
      | false => simp [hlen]
      | true => simp [hlen]

/-- An update that comes back was either dropped or applied, and it is
applied only by a registered module with memory for the plain text. -/
theorem processReceivedUpdate_cases {env : UpdateEnv} {s s' : Lsm} {update : List UInt8}
    {log : List (UpdateRecord × Bool)}
    (h : processReceivedUpdate A env s update = some (s', log)) :
    (s' = s ∧ log = []) ∨
    (s.registered = true ∧ env.plain = true ∧ applyUpdate env.insert s
      (plainBuffer update.length (trmAesDecrypt A env.crypto s.aesKey update)) =
        some (s', log)) := by
  unfold processReceivedUpdate at h
  split at h
  · cases h
    exact .inl ⟨rfl, rfl⟩
  split at h
  · cases h
    exact .inl ⟨rfl, rfl⟩
  split at h
  · cases h
  · exact .inr ⟨by simp_all, by simp_all, h⟩

/-- A write that comes back was either dropped or handed on. -/
theorem updateReceive_cases {copy : CopyEnv} {env : UpdateEnv} {s s' : Lsm} {buf : List UInt8}
    {n : Int} {log : List (UpdateRecord × Bool)}
    (h : updateReceive A copy env s buf = some (s', n, log)) :
    (s' = s ∧ log = []) ∨
    (copy.rsaAvailable = true ∧ copy.data = true ∧ copy.copied = true ∧
      processReceivedUpdate A env s buf = some (s', log)) := by
  unfold updateReceive at h
  split at h
  · cases h
    exact .inl ⟨rfl, rfl⟩
  split at h
  · cases h
    exact .inl ⟨rfl, rfl⟩
  split at h
  · cases h
    exact .inl ⟨rfl, rfl⟩
  · obtain ⟨⟨s₁, log₁⟩, hproc, hout⟩ := Option.bind_eq_some_iff.mp h
    cases hout
    exact .inr ⟨by simp_all, by simp_all, by simp_all, hproc⟩

/-- What comes back from an update that is not decrypted is the state it
found. -/
theorem eq_of_processReceivedUpdate_undecrypted {env : UpdateEnv} {s s' : Lsm}
    {update : List UInt8} {log : List (UpdateRecord × Bool)}
    (h : trmAesDecrypt A env.crypto s.aesKey update = none)
    (hrun : processReceivedUpdate A env s update = some (s', log)) : s' = s ∧ log = [] := by
  rw [processReceivedUpdate_undecrypted h] at hrun
  split at hrun
  · cases hrun
  · simp only [Option.some.injEq, Prod.mk.injEq] at hrun
    exact ⟨hrun.1.symm, hrun.2.symm⟩

theorem xattrEnclaveInstallation_unauthentic (env : InstallEnv) {s : Lsm} (i : Nat)
    {value : List UInt8} (h : authenticates A s.aesKey value = false) :
    xattrEnclaveInstallation A env s i value = some (s, -1) := by
  unfold xattrEnclaveInstallation
  rw [trmAesDecrypt_eq_none h]
  simp only [ite_self]

/-- Whatever its length: garbage, a truncated message or a ciphertext made
under another key leaves the module as it was on both channels, and the
attribute reports an error. -/
theorem unauthentic_input_ignored (hA : A.Ideal) (s : Lsm) (input : List UInt8)
    (h : authenticates A s.aesKey input = false ∨
      ∃ key iv m, key ≠ s.aesKey ∧ input = trmAesEncrypt A key iv m) :
    (∀ env, env.plain = true → processReceivedUpdate A env s input = some (s, [])) ∧
      (∀ env s' log, processReceivedUpdate A env s input = some (s', log) → s' = s ∧ log = []) ∧
      ∀ env i, xattrEnclaveInstallation A env s i input = some (s, -1) := by
  have hauth : authenticates A s.aesKey input = false := by
    rcases h with h | ⟨key, iv, m, hk, rfl⟩
    · exact h
    · exact authenticates_other hA hk iv m
  refine ⟨?_, ?_, fun env i => xattrEnclaveInstallation_unauthentic env i hauth⟩
  · intro env hplain
    rw [processReceivedUpdate_undecrypted (trmAesDecrypt_eq_none hauth _),
      if_neg (by simp [hplain])]
  · intro env s' log hrun
    exact eq_of_processReceivedUpdate_undecrypted (trmAesDecrypt_eq_none hauth _) hrun

/-- A system in which nothing has happened. -/
def idleSystem : System :=
  ⟨Kernel.boot fun _ => initTaskTrm (zeros _) none, fun _ => ⟨2, false, .other⟩,
    fun _ => .alloc, fun _ => ⟨false, none⟩, 0⟩

/-- A registered module, a ciphertext under the key it had before its last
ratchet. -/
theorem oldTicket_ignored :
    let s : Lsm := ⟨idleSystem, zeros _, zeros _, fill _ 3, fill _ 1, true⟩
    xattrEnclaveInstallation (Aead.keyTag _ _) .ok s 0
      (trmAesEncrypt (Aead.keyTag _ _) (fill _ 1) (zeros _) sampleUpdate) = some (s, -1) := by
  intro s
  exact (unauthentic_input_ignored (Aead.keyTag_ideal _ _) s _
    (.inr ⟨fill _ 1, zeros _, sampleUpdate, by decide, rfl⟩)).2.2 _ 0

/-! ## Encoded messages -/

/-- The calls of `insert_ticket` for a list of records, from call `iter`
on. -/
def insertAll (env : Nat → InsertEnv) :
    Nat → Kernel → List UpdateRecord → Option (Kernel × List (UpdateRecord × Bool))
  | _, k, [] => some (k, [])
  | iter, k, rcrd :: rest => do
    let (k, success) ←
      insertTicket k (env iter).rebalance (env iter).allocs (env iter).now rcrd
    let (k, log) ← insertAll env (iter + 1) k rest
    some (k, (rcrd, success) :: log)

/-- Records with the padding each was sent with. -/
def encodeRecords (rs : List (UpdateRecord × Block 2)) : List UInt8 :=
  rs.flatMap fun r => r.1.encode r.2

/-- The loop reads the records that were written. -/
theorem insertRecords_encode (env : Nat → InsertEnv) (post : List UInt8)
    (rs : List (UpdateRecord × Block 2)) :
    ∀ (pre : List UInt8) (iter : Nat) (k : Kernel),
      pre.length = updateHeaderSize + iter * updateRecordSize →
      insertRecords env (pre ++ (encodeRecords rs ++ post)) rs.length iter k =
        insertAll env iter k (rs.map (·.1)) := by
  induction rs with
  | nil =>
    intro pre iter k hpre
    rfl
  | cons r rs ih =>
    intro pre iter k hpre
    have hcons : encodeRecords (r :: rs) = r.1.encode r.2 ++ encodeRecords rs := rfl
    have hread : UpdateRecord.read (pre ++ (encodeRecords (r :: rs) ++ post))
        (updateHeaderSize + iter * updateRecordSize) = some r.1 := by
      rw [← hpre, hcons, List.append_assoc]
      exact UpdateRecord.read_encode r.1 r.2 pre _
    have hnext : pre ++ (encodeRecords (r :: rs) ++ post) =
        (pre ++ r.1.encode r.2) ++ (encodeRecords rs ++ post) := by
      simp [hcons]
    have hlen : (pre ++ r.1.encode r.2).length =
        updateHeaderSize + (iter + 1) * updateRecordSize := by
      rw [List.length_append, hpre, UpdateRecord.encode_length]
      unfold updateRecordSize
      omega
    simp only [List.length_cons, insertRecords, hread, List.map_cons, insertAll]
    simp only [hnext, ih _ _ _ hlen]
    rfl

/-- From the header on, an encoded message gives its records to
`insert_ticket` and its key update to the ratchet. -/
theorem applyUpdate_encoded (env : Nat → InsertEnv) (s : Lsm) (hdr : UpdateHeader)
    (rs : List (UpdateRecord × Block 2)) (hcount : hdr.records.toNat = rs.length)
    (post : List UInt8) :
    applyUpdate env s (hdr.encode ++ (encodeRecords rs ++ post)) =
      (insertAll env 0 s.system.kernel (rs.map (·.1))).map
        fun out => (updateAesKey (s.setKernel out.1) hdr.keyUpdate, out.2) := by
  have hloop := insertRecords_encode env post rs hdr.encode 0 s.system.kernel
    (by rw [UpdateHeader.encode_length, Nat.zero_mul, Nat.add_zero])
  rw [applyUpdate, UpdateHeader.read_encode]
  simp only [Option.bind_eq_bind, Option.bind_some, hcount, hloop]
  cases insertAll env 0 s.system.kernel (rs.map (·.1)) with
  | none => rfl
  | some out => rfl

theorem applyInstall_encoded (env : InstallEnv) (s : Lsm) (i : Nat) (hdr : UpdateHeader)
    (r : UpdateRecord) (padding : Block 2) (post : List UInt8) :
    applyInstall env s i (hdr.encode ++ (r.encode padding ++ post)) =
      if hdr.signature ≠ challengeSignature ∨ hdr.records ≠ 1 then some (s, -1)
      else if r.operation.has opDeclassify then declassify env s i hdr
      else induct env s i hdr r := by
  have hread : UpdateRecord.read (hdr.encode ++ (r.encode padding ++ post)) updateHeaderSize =
      some r := by
    rw [← UpdateHeader.encode_length hdr]
    exact UpdateRecord.read_encode r padding hdr.encode post
  rw [applyInstall, UpdateHeader.read_encode]
  simp only [Option.bind_eq_bind, Option.bind_some, hread, ite_or]

/-! ## What a label message can do -/

/-- The identifier as the installation stores it. -/
theorem installIdentifier_eq (disk : Xattrs) (identifier : Identifier) :
    disk.installIdentifier identifier true =
      { disk with identifier := some (hexDigits identifier.1) } := by
  have hlen : (hexDigits identifier.1).length = 2 * identifierLength := by
    rw [length_hexDigits, identifier.2]
  have hpos : 0 < identifier.1.length := by rw [identifier.2]; decide
  rw [Xattrs.installIdentifier, toHexstring_eq hpos]
  simp only [if_true, List.take_left' hlen]

theorem setLabel_self (s : Lsm) (i : Nat) :
    s.setLabel i (s.system.data i) (s.system.disk i) = s := by
  simp [Lsm.setLabel]

/-- What the outcomes of a label message have in common: the key is
ratcheted if the message is accepted and only then, and the rest of the
statics and the ticket cache stay as they are. -/
structure Labelled (s : Lsm) (keyUpdate : AesKey) (s' : Lsm) (r : Int) : Prop where
  outcome : (r = 0 ∧ s'.aesKey = xor s.aesKey keyUpdate) ∨ (r = -1 ∧ s'.aesKey = s.aesKey)
  kernel : s'.system.kernel = s.system.kernel
  citadelPid : s'.system.citadelPid = s.system.citadelPid
  currentChallenge : s'.currentChallenge = s.currentChallenge
  ptokenAesKey : s'.ptokenAesKey = s.ptokenAesKey
  registered : s'.registered = s.registered

/-- All a declassification that comes back can do: there was nothing to
remove, it removed the attribute, or it could not. -/
theorem declassify_cases {env : InstallEnv} {s s' : Lsm} {i : Nat} {hdr : UpdateHeader} {r : Int}
    (h : declassify env s i hdr = some (s', r)) :
    (s' = updateAesKey s hdr.keyUpdate ∧ r = 0) ∨
    (s' = updateAesKey (s.setLabel i
        { s.system.data i with
          needsXattrUpdate := false, checkedDiskXattr := true, inRealm := false }
        { s.system.disk i with inRealm := false }) hdr.keyUpdate ∧ r = 0) ∨
    (s' = s.setLabel i
        { s.system.data i with needsXattrUpdate := false, checkedDiskXattr := false }
        (s.system.disk i) ∧ r = -1) := by
  simp only [declassify] at h
  split at h
  · cases h
  split at h
  · cases h
    exact .inl ⟨rfl, rfl⟩
  split at h
  · cases h
    exact .inr (.inl ⟨rfl, rfl⟩)
  · cases h
    exact .inr (.inr ⟨rfl, rfl⟩)

theorem declassify_labelled {env : InstallEnv} {s s' : Lsm} {i : Nat} {hdr : UpdateHeader}
    {r : Int} (h : declassify env s i hdr = some (s', r)) : Labelled s hdr.keyUpdate s' r := by
  rcases declassify_cases h with ⟨rfl, rfl⟩ | ⟨rfl, rfl⟩ | ⟨rfl, rfl⟩
  · exact ⟨.inl ⟨rfl, rfl⟩, rfl, rfl, rfl, rfl, rfl⟩
  · exact ⟨.inl ⟨rfl, rfl⟩, rfl, rfl, rfl, rfl, rfl⟩
  · exact ⟨.inr ⟨rfl, rfl⟩, rfl, rfl, rfl, rfl, rfl⟩

theorem induct_labelled {env : InstallEnv} {s s' : Lsm} {i : Nat} {hdr : UpdateHeader}
    {rcrd : UpdateRecord} {r : Int} (h : induct env s i hdr rcrd = some (s', r)) :
    Labelled s hdr.keyUpdate s' r := by
  simp only [induct] at h
  split at h
  · cases h
  cases hset : env.setIdentifier with
  | true =>
    rw [hset, if_pos rfl, Option.some.injEq, Prod.mk.injEq] at h
    obtain ⟨rfl, rfl⟩ := h
    exact ⟨.inl ⟨rfl, rfl⟩, rfl, rfl, rfl, rfl, rfl⟩
  | false =>
    rw [hset, if_neg Bool.false_ne_true, Option.some.injEq, Prod.mk.injEq] at h
    obtain ⟨rfl, rfl⟩ := h
    exact ⟨.inr ⟨rfl, rfl⟩, rfl, rfl, rfl, rfl, rfl⟩

/-- All an installation can do: reject, declassify or label. -/
theorem xattrEnclaveInstallation_cases {env : InstallEnv} {s s' : Lsm} {i : Nat}
    {value : List UInt8} {r : Int}
    (h : xattrEnclaveInstallation A env s i value = some (s', r)) :
    (s' = s ∧ r = -1) ∨ (∃ hdr, declassify env s i hdr = some (s', r)) ∨
      ∃ hdr rcrd, induct env s i hdr rcrd = some (s', r) := by
  unfold xattrEnclaveInstallation at h
  split at h
  · cases h; exact .inl ⟨rfl, rfl⟩
  split at h
  · cases h; exact .inl ⟨rfl, rfl⟩
  split at h
  · cases h; exact .inl ⟨rfl, rfl⟩
  split at h
  · cases h
  obtain ⟨hdr, -, h⟩ := Option.bind_eq_some_iff.mp h
  split at h
  · cases h; exact .inl ⟨rfl, rfl⟩
  split at h
  · cases h; exact .inl ⟨rfl, rfl⟩
  obtain ⟨rcrd, -, h⟩ := Option.bind_eq_some_iff.mp h
  split at h
  · exact .inr (.inl ⟨hdr, h⟩)
  · exact .inr (.inr ⟨hdr, rcrd, h⟩)

theorem xattrEnclaveInstallation_labelled {env : InstallEnv} {s s' : Lsm} {i : Nat}
    {value : List UInt8} {r : Int}
    (h : xattrEnclaveInstallation A env s i value = some (s', r)) :
    (s' = s ∧ r = -1) ∨ ∃ keyUpdate, Labelled s keyUpdate s' r := by
  rcases xattrEnclaveInstallation_cases h with hsame | ⟨hdr, hdeclassify⟩ | ⟨hdr, rcrd, hinduct⟩
  · exact .inl hsame
  · exact .inr ⟨_, declassify_labelled hdeclassify⟩
  · exact .inr ⟨_, induct_labelled hinduct⟩

/-! ## Authentic messages -/

/-- What is left of the buffer behind the plain text. -/
def spareBytes : List UInt8 := List.replicate (tagLength + ivLength) 0

/-- Under the key of the module a ciphertext is as good as its plain text. -/
theorem processReceivedUpdate_authentic (env : UpdateEnv) {s : Lsm} (hreg : s.registered = true)
    (hplain : env.plain = true) (hcrypto : env.crypto = true) (iv : Block ivLength)
    {m : List UInt8} (hm : m ≠ []) :
    processReceivedUpdate A env s (trmAesEncrypt A s.aesKey iv m) =
      applyUpdate env.insert s (m ++ spareBytes) := by
  have hlen := trmAesEncrypt_length A s.aesKey iv m
  have hpos : 0 < m.length := List.length_pos_iff.mpr hm
  rw [processReceivedUpdate, if_neg (by simp [hreg]), if_neg (by rw [hlen]; omega),
    if_neg (by simp [hplain]), hcrypto, trmAesDecrypt_encrypt, plainBuffer, hlen,
    show m.length + tagLength + ivLength - m.length = tagLength + ivLength by omega]
  rfl

theorem xattrEnclaveInstallation_authentic (env : InstallEnv) {s : Lsm}
    (hreg : s.registered = true) (hplain : env.plain = true) (hcrypto : env.crypto = true)
    (i : Nat) (iv : Block ivLength) {m : List UInt8} (hm : m ≠ []) :
    xattrEnclaveInstallation A env s i (trmAesEncrypt A s.aesKey iv m) =
      applyInstall env s i (m ++ spareBytes) := by
  have hlen := trmAesEncrypt_length A s.aesKey iv m
  have hpos : 0 < m.length := List.length_pos_iff.mpr hm
  rw [xattrEnclaveInstallation, if_neg (by simp [hreg]), if_neg (by rw [hlen]; omega),
    hcrypto, trmAesDecrypt_encrypt]
  simp only [hplain, Bool.not_true, Bool.false_eq_true, if_false, plainBuffer, hlen,
    show m.length + tagLength + ivLength - m.length = tagLength + ivLength by omega]
  rfl

end Citadel
