/-
Citadel.Protocol.Channels — which input of the kernel takes which message.

Four messages are encrypted under a session key: the tickets and the labels
of the enclave, and the sample updates and process tokens of the kernel
itself. None of them says which it is: the signature is one constant, no
data is authenticated beside the plain text, and both inputs of the kernel
read the same header. So an input takes whatever was made under its key of
the moment and reads well, by the bytes:

* a ticket and a label are one format, and each input takes both;
* a sample update has five records, so the update file takes it and the
  attribute does not;
* a process token is made under the registration key, so it is taken only
  while the session key equals that key. Its identifier then lies where
  the record count does: byte 4 says how many records follow, and at most
  one fits.

Everything else is ignored, on both inputs.
-/
import Citadel.Protocol.Lockstep

namespace Citadel

open Bytes Enclave

variable {A : Gcm}

/-! ## The kernel's own updates -/

/-- The five records of a sample update, with their padding. -/
def sampleRecords : List (UpdateRecord × Block 2) :=
  [1, 3, 5, 7, 9].map fun tmp : UInt8 => (⟨13, fill _ tmp, 0⟩, zeros 2)

theorem sampleUpdate_eq :
    sampleUpdate = (⟨challengeSignature, fill _ 6, 5⟩ : UpdateHeader).encode ++
      encodeRecords sampleRecords := by
  rw [sampleUpdate, encodeRecords, sampleRecords, List.flatMap_map]
  rfl

theorem processReceivedUpdate_sampleUpdate (env : UpdateEnv) {s : Lsm}
    (hreg : s.registered = true) (hplain : env.plain = true) (hcrypto : env.crypto = true)
    (iv : Block ivLength) :
    processReceivedUpdate A env s (trmAesEncrypt A s.aesKey iv sampleUpdate) =
      (insertAll env.insert 0 s.system.kernel (sampleRecords.map (·.1))).map
        fun out => (updateAesKey (s.setKernel out.1) (fill _ 6), out.2) := by
  rw [processReceivedUpdate_authentic env hreg hplain hcrypto iv (by rw [sampleUpdate_eq]; simp
    [UpdateHeader.encode]), sampleUpdate_eq, List.append_assoc, applyUpdate_encoded _ _ _ _ rfl]

/-- Five records are not one. -/
theorem xattrEnclaveInstallation_sampleUpdate (env : InstallEnv) {s : Lsm}
    (hreg : s.registered = true) (hplain : env.plain = true) (hcrypto : env.crypto = true)
    (i : Nat) (iv : Block ivLength) :
    xattrEnclaveInstallation A env s i (trmAesEncrypt A s.aesKey iv sampleUpdate) =
      some (s, -1) := by
  rw [xattrEnclaveInstallation_authentic env hreg hplain hcrypto i iv (by rw [sampleUpdate_eq]; simp
    [UpdateHeader.encode]), sampleUpdate_eq, List.append_assoc, applyInstall,
    UpdateHeader.read_encode]
  rfl

/-! ## Process tokens as messages -/

/-- The header that stands at the front of a process token. -/
def PtokenProtected.asHeader (t : PtokenProtected) : UpdateHeader where
  signature := t.signature
  keyUpdate := ⟨(le32 t.pid).1 ++ (t.ptoken.1 ++ t.processIdentifier.1.take 4), by
    simp [(le32 t.pid).2, t.ptoken.2, t.processIdentifier.2, ptokenLength, identifierLength,
      aesKeyLength]⟩
  records := t.processIdentifier.byte 4

/-- The record behind it: the rest of the identifier, and zeros. -/
def PtokenProtected.asRecord (t : PtokenProtected) : UpdateRecord where
  pid := ofLe32 ⟨(t.processIdentifier.1.drop 5).take 4, by
    simp [t.processIdentifier.2, identifierLength]⟩
  identifier := ⟨t.processIdentifier.1.drop 9 ++ List.replicate 9 0, by
    simp [t.processIdentifier.2, identifierLength]⟩
  operation := 0

/-- An identifier cut where the header and the record cut it. -/
theorem Identifier.cut (x : Identifier) :
    x.1 = x.1.take 4 ++ ([x.byte 4] ++ ((x.1.drop 5).take 4 ++ x.1.drop 9)) := by
  obtain ⟨l, hl⟩ := x
  match l, hl with
  | [_, _, _, _, _, _, _, _, _, _, _, _, _, _, _, _], _ => rfl

theorem PtokenProtected.encode_eq (t : PtokenProtected) :
    t.encode ++ spareBytes = t.asHeader.encode ++
      (((t.processIdentifier.1.drop 5).take 4) ++
        (t.asRecord.identifier.1 ++ List.replicate 19 0)) := by
  have hspare : spareBytes = List.replicate 9 0 ++ List.replicate 19 0 := rfl
  have hid := Identifier.cut t.processIdentifier
  rw [PtokenProtected.encode, hspare]
  nth_rewrite 1 [hid]
  simp [UpdateHeader.encode, PtokenProtected.asHeader, PtokenProtected.asRecord]

theorem PtokenProtected.encode_length (t : PtokenProtected) : t.encode.length = 36 := by
  simp [PtokenProtected.encode, t.signature.2, (le32 t.pid).2, t.ptoken.2, t.processIdentifier.2,
    signatureLength, ptokenLength, identifierLength]

theorem PtokenProtected.read_header (t : PtokenProtected) :
    UpdateHeader.read (t.encode ++ spareBytes) = some t.asHeader := by
  rw [t.encode_eq, UpdateHeader.read_encode]

theorem PtokenProtected.read_record (t : PtokenProtected) :
    UpdateRecord.read (t.encode ++ spareBytes) updateHeaderSize = some t.asRecord := by
  have hpid : ((t.processIdentifier.1.drop 5).take 4).length = 4 := by
    simp [t.processIdentifier.2, identifierLength]
  have hlen : t.asHeader.encode.length = updateHeaderSize := UpdateHeader.encode_length _
  have hp : ∀ rest, Bytes.read ((t.processIdentifier.1.drop 5).take 4 ++ rest) 0 4 =
      some ⟨_, hpid⟩ := fun rest => read_front ⟨_, hpid⟩ rest
  have hskip : ∀ (rest : List UInt8) (off n : Nat), 4 ≤ off →
      Bytes.read ((t.processIdentifier.1.drop 5).take 4 ++ rest) off n =
        Bytes.read rest (off - 4) n := fun rest off n h => read_block ⟨_, hpid⟩ rest h
  have hop : ∀ rest, Bytes.read (t.asRecord.identifier.1 ++ rest) 16 2 = Bytes.read rest 0 2 :=
    fun rest => read_block t.asRecord.identifier rest (le_refl _)
  have hzeros : Bytes.read (List.replicate 19 0) 0 2 = some (zeros 2) := read_zeros (by decide)
  have hcut : ∀ (off n : Nat), updateHeaderSize ≤ off →
      Bytes.read (t.encode ++ spareBytes) off n = Bytes.read
        (((t.processIdentifier.1.drop 5).take 4) ++
          (t.asRecord.identifier.1 ++ List.replicate 19 0)) (off - updateHeaderSize) n := by
    intro off n h
    rw [t.encode_eq, read_skip _ _ (by rw [hlen]; exact h), hlen]
  simp only [UpdateRecord.read, hcut _ _ (Nat.le_refl _), hcut _ _ (Nat.le_add_right _ _),
    Nat.sub_self, Nat.add_sub_cancel_left, hp, hskip _ _ _ (Nat.le_refl 4),
    hskip _ _ _ (show 4 ≤ 20 by decide), read_front, hop, hzeros, Option.bind_eq_bind,
    Option.bind_some]
  rfl

/-- A second record would end behind the buffer. -/
theorem PtokenProtected.read_second (t : PtokenProtected) :
    UpdateRecord.read (t.encode ++ spareBytes) (updateHeaderSize + updateRecordSize) = none := by
  have hlen : (t.encode ++ spareBytes).length = 64 := by
    rw [List.length_append, t.encode_length]
    rfl
  have hnone : Bytes.read (t.encode ++ spareBytes) (updateHeaderSize + updateRecordSize + 4)
      identifierLength = none := read_none (by rw [hlen]; decide)
  rw [UpdateRecord.read, hnone]
  cases Bytes.read (t.encode ++ spareBytes) (updateHeaderSize + updateRecordSize) 4 with
  | none => rfl
  | some b => rfl

/-- A token as an update, by the number of records its identifier
announces: none is inserted and the key moves, one is inserted, or the
loop runs out of the buffer. -/
def ptokenUpdate (env : Nat → InsertEnv) (s : Lsm) (t : PtokenProtected) :
    Nat → Option (Lsm × List (UpdateRecord × Bool))
  | 0 => some (updateAesKey s t.asHeader.keyUpdate, [])
  | 1 =>
    (insertTicket s.system.kernel (env 0).rebalance (env 0).allocs (env 0).now t.asRecord).map
      fun out => (updateAesKey (s.setKernel out.1) t.asHeader.keyUpdate, [(t.asRecord, out.2)])
  | _ + 2 => none

theorem applyUpdate_ptoken (env : Nat → InsertEnv) (s : Lsm) (t : PtokenProtected) :
    applyUpdate env s (t.encode ++ spareBytes) =
      ptokenUpdate env s t (t.processIdentifier.byte 4).toNat := by
  have hfirst : UpdateRecord.read (t.encode ++ spareBytes)
      (updateHeaderSize + 0 * updateRecordSize) = some t.asRecord := t.read_record
  have hsecond : UpdateRecord.read (t.encode ++ spareBytes)
      (updateHeaderSize + (0 + 1) * updateRecordSize) = none := by
    rw [Nat.zero_add, Nat.one_mul]
    exact t.read_second
  rw [applyUpdate, t.read_header]
  simp only [Option.bind_eq_bind, Option.bind_some, PtokenProtected.asHeader]
  generalize (t.processIdentifier.byte 4).toNat = n
  rcases n with _ | _ | n
  · rfl
  · simp only [insertRecords, hfirst, Option.bind_eq_bind, Option.bind_some, ptokenUpdate]
    cases insertTicket s.system.kernel (env 0).rebalance (env 0).allocs (env 0).now
      t.asRecord with
    | none => rfl
    | some out => rfl
  · simp only [insertRecords, hfirst, hsecond, Option.bind_eq_bind, Option.bind_some,
      Option.bind_none, ptokenUpdate]
    cases insertTicket s.system.kernel (env 0).rebalance (env 0).allocs (env 0).now
      t.asRecord with
    | none => rfl
    | some out => rfl

/-- A token as a label: taken if its identifier announces one record, as a
label that does not put the file in the realm. -/
theorem applyInstall_ptoken (env : InstallEnv) (s : Lsm) (i : Nat) (t : PtokenProtected)
    (hsig : t.signature = challengeSignature) :
    applyInstall env s i (t.encode ++ spareBytes) =
      if t.processIdentifier.byte 4 = 1 then induct env s i t.asHeader t.asRecord
      else some (s, -1) := by
  have hop : t.asRecord.operation.has opDeclassify = false := by
    change Operation.has 0 opDeclassify = false
    decide
  rw [applyInstall, t.read_header]
  simp only [Option.bind_eq_bind, Option.bind_some, t.read_record, hop, Bool.false_eq_true,
    if_false]
  rw [if_neg (not_not_intro (show t.asHeader.signature = challengeSignature from hsig)),
    show t.asHeader.records = t.processIdentifier.byte 4 from rfl]
  by_cases hone : t.processIdentifier.byte 4 = 1
  · rw [if_neg (not_not_intro hone), if_pos hone]
  · rw [if_pos hone, if_neg hone]

theorem PtokenProtected.encode_ne_nil (t : PtokenProtected) : t.encode ≠ [] := by
  intro h
  have hlen := congrArg List.length h
  rw [t.encode_length] at hlen
  cases hlen

theorem processReceivedUpdate_ptoken (env : UpdateEnv) {s : Lsm}
    (hreg : s.registered = true) (hplain : env.plain = true) (hcrypto : env.crypto = true)
    (iv : Block ivLength) (t : PtokenProtected) :
    processReceivedUpdate A env s (trmAesEncrypt A s.aesKey iv t.encode) =
      ptokenUpdate env.insert s t (t.processIdentifier.byte 4).toNat := by
  rw [processReceivedUpdate_authentic env hreg hplain hcrypto iv t.encode_ne_nil,
    applyUpdate_ptoken]

theorem xattrEnclaveInstallation_ptoken (env : InstallEnv) {s : Lsm}
    (hreg : s.registered = true) (hplain : env.plain = true) (hcrypto : env.crypto = true)
    (i : Nat) (iv : Block ivLength) (t : PtokenProtected)
    (hsig : t.signature = challengeSignature) :
    xattrEnclaveInstallation A env s i (trmAesEncrypt A s.aesKey iv t.encode) =
      if t.processIdentifier.byte 4 = 1 then induct env s i t.asHeader t.asRecord
      else some (s, -1) := by
  rw [xattrEnclaveInstallation_authentic env hreg hplain hcrypto i iv t.encode_ne_nil,
    applyInstall_ptoken _ _ _ _ hsig]

/-! ## Every message on every input -/

/-- Neither input does anything with it. -/
def Ignored (A : Gcm) (s : Lsm) (input : List UInt8) : Prop :=
  (∀ env : UpdateEnv, env.plain = true →
    processReceivedUpdate A env s input = some (s, [])) ∧
  ∀ (env : InstallEnv) (i : Nat), xattrEnclaveInstallation A env s i input = some (s, -1)

theorem ignored_of_unauthentic {s : Lsm} {input : List UInt8}
    (h : authenticates A s.aesKey input = false) : Ignored A s input := by
  refine ⟨?_, fun env i => xattrEnclaveInstallation_unauthentic env i h⟩
  intro env hplain
  rw [processReceivedUpdate_undecrypted (trmAesDecrypt_eq_none h _), if_neg (by simp [hplain])]

/-- What a registered module does with each of the four messages, on each
input, for every key they were made under. -/
theorem channels_take_authentic_messages (hA : A.Ideal) {s : Lsm} (hreg : s.registered = true)
    (env : UpdateEnv) (hplain : env.plain = true) (hcrypto : env.crypto = true)
    (inst : InstallEnv) (hplain' : inst.plain = true) (hcrypto' : inst.crypto = true) (i : Nat) :
    -- tickets and labels of the enclave
    (∀ (e : Enclave) (rnd : TicketRandom) (rcrd : UpdateRecord),
      (e.aesKey ≠ s.aesKey → Ignored A s (ticketMessage A e rnd rcrd)) ∧
      (e.aesKey = s.aesKey →
        processReceivedUpdate A env s (ticketMessage A e rnd rcrd) =
          (insertTicket s.system.kernel (env.insert 0).rebalance (env.insert 0).allocs
            (env.insert 0).now rcrd).map
            (fun out => (updateAesKey (s.setKernel out.1) rnd.keyUpdate, [(rcrd, out.2)])) ∧
        xattrEnclaveInstallation A inst s i (ticketMessage A e rnd rcrd) =
          if rcrd.operation.has opDeclassify then
            declassify inst s i ⟨challengeSignature, rnd.keyUpdate, 1⟩
          else induct inst s i ⟨challengeSignature, rnd.keyUpdate, 1⟩ rcrd)) ∧
    -- updates of the kernel
    (∀ (s₁ : Lsm) (iv : Block ivLength) (c : List UInt8), generateUpdate A s₁ iv = some c →
      xattrEnclaveInstallation A inst s i c = some (s, -1) ∧
      (s₁.aesKey ≠ s.aesKey → Ignored A s c) ∧
      (s₁.aesKey = s.aesKey → processReceivedUpdate A env s c =
        (insertAll env.insert 0 s.system.kernel (sampleRecords.map (·.1))).map
          fun out => (updateAesKey (s.setKernel out.1) (fill _ 6), out.2))) ∧
    -- process tokens of the kernel
    (∀ (s₁ : Lsm) (cur : Task) (iv : Block ivLength) (random : Block ptokenLength) (p : Ptoken),
      generatePtoken A s₁ cur iv random = some p →
      (s₁.ptokenAesKey ≠ s.aesKey → Ignored A s p.signedPtoken) ∧
      (s₁.ptokenAesKey = s.aesKey →
        ∀ t : PtokenProtected, t = ⟨challengeSignature, cur.pid, random, p.processIdentifier⟩ →
          ((p.processIdentifier.byte 4).toNat ≤ 1 →
            processReceivedUpdate A env s p.signedPtoken =
              ptokenUpdate env.insert s t (p.processIdentifier.byte 4).toNat) ∧
          xattrEnclaveInstallation A inst s i p.signedPtoken =
            if p.processIdentifier.byte 4 = 1 then induct inst s i t.asHeader t.asRecord
            else some (s, -1))) := by
  refine ⟨?_, ?_, ?_⟩
  · intro e rnd rcrd
    refine ⟨?_, ?_⟩
    · intro hk
      exact ignored_of_unauthentic
        (by rw [authenticates_ticketMessage hA]; exact decide_eq_false hk)
    · intro hk
      exact ⟨processReceivedUpdate_ticketMessage env hreg hplain hcrypto hk rnd rcrd,
        xattrEnclaveInstallation_ticketMessage inst hreg hplain' hcrypto' i hk rnd rcrd⟩
  · intro s₁ iv c hc
    unfold generateUpdate at hc
    split at hc
    · cases hc
      by_cases hk : s₁.aesKey = s.aesKey
      · rw [hk]
        exact ⟨xattrEnclaveInstallation_sampleUpdate inst hreg hplain' hcrypto' i iv,
          fun hne => absurd rfl hne,
          fun _ => processReceivedUpdate_sampleUpdate env hreg hplain hcrypto iv⟩
      · have hign := ignored_of_unauthentic (authenticates_other hA hk iv sampleUpdate)
        exact ⟨hign.2 inst i, fun _ => hign, fun heq => absurd heq hk⟩
    · cases hc
  · intro s₁ cur iv random p hp
    unfold generatePtoken at hp
    split at hp
    · cases hp
      refine ⟨?_, ?_⟩
      · intro hk
        exact ignored_of_unauthentic (authenticates_other hA hk iv _)
      · rintro hk t rfl
        rw [hk]
        exact ⟨fun _ => processReceivedUpdate_ptoken env hreg hplain hcrypto iv _,
          xattrEnclaveInstallation_ptoken inst hreg hplain' hcrypto' i iv _ rfl⟩
    · cases hp

/-- A module that is registered, with a token made before its key moved. -/
theorem oldToken_ignored :
    Ignored (Aead.keyTag _ _) ⟨idleSystem, zeros _, zeros _, fill _ 15, fill _ 9, true⟩
      (trmAesEncrypt (Aead.keyTag _ _) (fill _ 9) (zeros _)
        (⟨challengeSignature, 7, fill _ 2, zeros _⟩ : PtokenProtected).encode) :=
  (((channels_take_authentic_messages (Aead.keyTag_ideal _ _)
      (s := ⟨idleSystem, zeros _, zeros _, fill _ 15, fill _ 9, true⟩) rfl
      calmUpdate rfl rfl .ok rfl rfl 0).2.2
    ⟨idleSystem, zeros _, zeros _, fill _ 15, fill _ 9, true⟩ ⟨7, 0⟩ (zeros _) (fill _ 2) _
    rfl).1 (by decide))

/-- The events of a registration with the key of nines. -/
def registration : List ChannelEvent :=
  [.read true true (fill _ 5),
    .write .ok (responseTo (fill _ 5) (fill _ 9) 42)]

/-- The module after a registration, given to `f`. -/
def afterRegistration {β : Type} (f : Lsm → Option β) : Option β :=
  (channelRun plainRsa.decrypt (Aead.keyTag _ _) (Lsm.boot idleSystem) .empty registration).bind
    fun out => f out.1

/-- Right after a registration: a ticket puts a file into the realm, a
label inserts a ticket, the kernel's own update inserts five, and a
process token moves the key. -/
theorem channels_not_separated :
    (afterRegistration fun s =>
      (xattrEnclaveInstallation (Aead.keyTag _ _) .ok s 0
        (ticketMessage (Aead.keyTag _ _) ⟨fill _ 9, fill _ 9⟩ someRandom
          ⟨7, fill _ 8, opRegister⟩)).map fun out =>
        (out.2, (out.1.system.data 0).inRealm, out.1.aesKey)) = some (0, true, fill _ 15) ∧
    (afterRegistration fun s =>
      (processReceivedUpdate (Aead.keyTag _ _) calmUpdate s
        (ticketMessage (Aead.keyTag _ _) ⟨fill _ 9, fill _ 9⟩ someRandom
          (xattrRecord false true false (fill _ 4)))).map fun out => (out.2, out.1.aesKey)) =
      some ([(⟨0, fill _ 4, opRegister⟩, true)], fill _ 15) ∧
    (afterRegistration fun s =>
      (generateUpdate (Aead.keyTag _ _) s (zeros _)).bind fun c =>
      (processReceivedUpdate (Aead.keyTag _ _) calmUpdate s c).map fun out =>
        (out.2.map (·.2), out.1.aesKey)) =
      some ([true, true, true, true, true], fill _ 15) ∧
    (afterRegistration fun s =>
      (generatePtoken (Aead.keyTag _ _) s ⟨7, 0⟩ (zeros _) (fill _ 2)).bind fun p =>
      (processReceivedUpdate (Aead.keyTag _ _) calmUpdate s p.signedPtoken).map fun out =>
        decide (out.1.aesKey = s.aesKey)) = some false := by
  refine ⟨?_, ?_, ?_, ?_⟩ <;> decide +kernel

end Citadel
