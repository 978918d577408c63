/-
Citadel.Lsm.UpdateValidation — which plain texts `process_received_update`
takes for an update.

It should take those that start with the signature and hold as many
records as their header announces, and drop all others
(`validatedUpdate`). It takes every one: a wrong signature is printed and
the work goes on, and the count in the header drives the loop whatever the
length. Behind the plain text the buffer has the zeros it was allocated
with, as many as the tag and the IV took; a record there is read as such,
and one past them is a fault.

So a plain text that should be dropped is dropped only if its header, read
from the padded buffer, announces no record and a ratchet by zero
(`update_validated_iff`).
-/
import Citadel.Lsm.PayloadIoTheorems

namespace Citadel

open Bytes

variable {A : Gcm}

/-! ## What an update is -/

/-- The plain text starts with the signature and holds the records it
announces. -/
def wellFormedUpdate (plain : List UInt8) : Bool :=
  (UpdateHeader.read plain).elim false fun hdr =>
    decide (hdr.signature = challengeSignature) &&
      decide (updateHeaderSize + hdr.records.toNat * updateRecordSize ≤ plain.length)

/-- The records in a plain text, `count` of them from number `iter` on. -/
def containedRecords (plain : List UInt8) (iter count : Nat) : List UpdateRecord :=
  (List.range' iter count).filterMap fun j =>
    UpdateRecord.read plain (updateHeaderSize + j * updateRecordSize)

/-- Validate, then insert the records in their order and ratchet once. -/
def validatedUpdate (env : Nat → InsertEnv) (s : Lsm) (plain : List UInt8) :
    Option (Lsm × List (UpdateRecord × Bool)) :=
  if wellFormedUpdate plain then do
    let hdr ← UpdateHeader.read plain
    let (kernel, log) ←
      insertAll env 0 s.system.kernel (containedRecords plain 0 hdr.records.toNat)
    some (updateAesKey (s.setKernel kernel) hdr.keyUpdate, log)
  else some (s, [])

/-- The header in the padded buffer announces no record and a ratchet that
changes nothing. -/
def emptyUpdate (plain : List UInt8) : Bool :=
  (UpdateHeader.read (plain ++ spareBytes)).elim false fun hdr =>
    decide (hdr.records = 0) && decide (hdr.keyUpdate = zeros _)

/-! ## Reading in the longer buffer -/

theorem UpdateHeader.read_within (plain post : List UInt8) (h : updateHeaderSize ≤ plain.length) :
    UpdateHeader.read (plain ++ post) = UpdateHeader.read plain := by
  unfold updateHeaderSize at h
  unfold UpdateHeader.read signatureLength aesKeyLength
  rw [Bytes.read_within plain post (show 0 + 8 ≤ plain.length by omega),
    Bytes.read_within plain post (show 8 + 16 ≤ plain.length by omega),
    Bytes.read_within plain post (show 8 + 16 + 1 ≤ plain.length by omega)]

theorem UpdateHeader.read_isSome {buf : List UInt8} (h : updateHeaderSize ≤ buf.length) :
    ∃ hdr, UpdateHeader.read buf = some hdr := by
  unfold updateHeaderSize at h
  obtain ⟨signature, hsig⟩ := Bytes.read_isSome (n := 8) (show 0 + 8 ≤ buf.length by omega)
  obtain ⟨key, hkey⟩ := Bytes.read_isSome (n := 16) (show 8 + 16 ≤ buf.length by omega)
  obtain ⟨count, hcount⟩ := Bytes.read_isSome (n := 1) (show 8 + 16 + 1 ≤ buf.length by omega)
  refine ⟨⟨signature, key, count.byte 0⟩, ?_⟩
  unfold UpdateHeader.read signatureLength aesKeyLength
  rw [hsig, hkey, hcount]
  rfl

theorem UpdateHeader.length_of_read {buf : List UInt8} {hdr : UpdateHeader}
    (h : UpdateHeader.read buf = some hdr) : updateHeaderSize ≤ buf.length := by
  by_contra hshort
  have hnone : Bytes.read buf (signatureLength + aesKeyLength) 1 = none :=
    Bytes.read_none (by
      unfold updateHeaderSize at hshort
      unfold signatureLength aesKeyLength
      omega)
  unfold UpdateHeader.read at h
  rw [hnone] at h
  obtain ⟨_, -, h⟩ := Option.bind_eq_some_iff.mp h
  obtain ⟨_, -, h⟩ := Option.bind_eq_some_iff.mp h
  cases h

theorem UpdateRecord.read_within (plain post : List UInt8) {off : Nat}
    (h : off + updateRecordSize ≤ plain.length) :
    ∃ rcrd, UpdateRecord.read (plain ++ post) off = some rcrd ∧
      UpdateRecord.read plain off = some rcrd := by
  unfold updateRecordSize at h
  obtain ⟨pid, hpid⟩ := Bytes.read_isSome (n := 4) (show off + 4 ≤ plain.length by omega)
  obtain ⟨id, hid⟩ := Bytes.read_isSome (n := 16) (show off + 4 + 16 ≤ plain.length by omega)
  obtain ⟨op, hop⟩ := Bytes.read_isSome (n := 2) (show off + 20 + 2 ≤ plain.length by omega)
  refine ⟨⟨ofLe32 pid, id, ofLe16 op⟩, ?_, ?_⟩
  · unfold UpdateRecord.read identifierLength
    rw [Bytes.read_within plain post (by omega), Bytes.read_within plain post (by omega),
      Bytes.read_within plain post (by omega), hpid, hid, hop]
    rfl
  · unfold UpdateRecord.read identifierLength
    rw [hpid, hid, hop]
    rfl

/-- As long as the records lie in the plain text, the loop inserts them and
nothing else. -/
theorem insertRecords_contained (env : Nat → InsertEnv) (plain post : List UInt8) (count : Nat) :
    ∀ (iter : Nat) (k : Kernel),
      updateHeaderSize + (iter + count) * updateRecordSize ≤ plain.length →
      insertRecords env (plain ++ post) count iter k =
        insertAll env iter k (containedRecords plain iter count) := by
  induction count with
  | zero =>
    intro iter k hlen
    rfl
  | succ count ih =>
    intro iter k hlen
    have hroom : updateHeaderSize + iter * updateRecordSize + updateRecordSize ≤ plain.length := by
      unfold updateRecordSize at hlen ⊢
      omega
    obtain ⟨rcrd, hpadded, hplain⟩ := UpdateRecord.read_within plain post hroom
    have hrest : ∀ k, insertRecords env (plain ++ post) count (iter + 1) k =
        insertAll env (iter + 1) k (containedRecords plain (iter + 1) count) := by
      intro k
      refine ih (iter + 1) k ?_
      rw [show iter + 1 + count = iter + (count + 1) by omega]
      exact hlen
    have hcons : containedRecords plain iter (count + 1) =
        rcrd :: containedRecords plain (iter + 1) count := by
      simp [containedRecords, List.range'_succ, hplain]
    rw [hcons]
    simp only [insertRecords, hpadded, insertAll, hrest, Option.bind_eq_bind, Option.bind_some]

/-! ## The loop, whatever it reads -/

/-- One entry in the log for every record announced. -/
theorem insertRecords_log {env : Nat → InsertEnv} {plain : List UInt8} {count : Nat} :
    ∀ {iter : Nat} {k k' : Kernel} {log : List (UpdateRecord × Bool)},
      insertRecords env plain count iter k = some (k', log) → log.length = count := by
  induction count with
  | zero =>
    intro iter k k' log h
    cases h
    rfl
  | succ count ih =>
    intro iter k k' log h
    obtain ⟨rcrd, -, h⟩ := Option.bind_eq_some_iff.mp h
    obtain ⟨⟨k₁, success⟩, -, h⟩ := Option.bind_eq_some_iff.mp h
    obtain ⟨⟨k₂, rest⟩, hrest, h⟩ := Option.bind_eq_some_iff.mp h
    cases h
    rw [List.length_cons, ih hrest]

/-- An update does nothing exactly if it announces nothing. -/
theorem applyUpdate_nothing_iff {env : Nat → InsertEnv} {s : Lsm} {plain : List UInt8}
    {hdr : UpdateHeader} (hread : UpdateHeader.read plain = some hdr) :
    applyUpdate env s plain = some (s, []) ↔ hdr.records = 0 ∧ hdr.keyUpdate = zeros _ := by
  rw [applyUpdate, hread, Option.bind_eq_bind, Option.bind_some]
  constructor
  · intro h
    obtain ⟨⟨k, log⟩, hloop, h⟩ := Option.bind_eq_some_iff.mp h
    simp only [Option.some.injEq, Prod.mk.injEq] at h
    obtain ⟨hstate, rfl⟩ := h
    have hcount : hdr.records.toNat = 0 := (insertRecords_log hloop).symm
    have hkey : xor s.aesKey hdr.keyUpdate = s.aesKey := congrArg Lsm.aesKey hstate
    exact ⟨UInt8.toNat_inj.mp hcount, eq_zeros_of_xor hkey⟩
  · rintro ⟨hrecords, hkey⟩
    rw [hrecords, hkey]
    change some (updateAesKey s (zeros _), []) = some (s, [])
    rw [updateAesKey_zeros]

/-! ## Validation -/

theorem trmAesDecrypt_some {key : AesKey} {data m : List UInt8}
    (h : trmAesDecrypt A true key data = some m) :
    ∃ iv, data = trmAesEncrypt A key iv m := by
  obtain ⟨iv, hiv, hdec⟩ := Option.bind_eq_some_iff.mp h
  have hlong : data.length - ivLength + ivLength ≤ data.length := by
    by_contra hshort
    rw [read_none (by omega)] at hiv
    cases hiv
  obtain ⟨b, hb, hval⟩ := read_val hlong
  obtain rfl : b = iv := Option.some.inj (hb.symm.trans hiv)
  have htail : b.1 = data.drop (data.length - ivLength) := by
    rw [hval]
    exact List.take_of_length_le (by rw [List.length_drop]; omega)
  refine ⟨b, ?_⟩
  rw [trmAesEncrypt, ← A.encrypt_of_decrypt _ _ _ _ hdec, htail, List.take_append_drop]

/-- A well-formed update is applied as it should be. -/
theorem applyUpdate_wellFormed (env : Nat → InsertEnv) (s : Lsm) {plain : List UInt8}
    (h : wellFormedUpdate plain = true) (post : List UInt8) :
    applyUpdate env s (plain ++ post) = validatedUpdate env s plain := by
  rw [validatedUpdate, if_pos h]
  cases hread : UpdateHeader.read plain with
  | none => simp [wellFormedUpdate, hread] at h
  | some hdr =>
    simp only [wellFormedUpdate, hread, Option.elim_some, Bool.and_eq_true,
      decide_eq_true_eq] at h
    rw [applyUpdate, UpdateHeader.read_within plain post (UpdateHeader.length_of_read hread), hread,
      Option.bind_eq_bind, Option.bind_some,
      insertRecords_contained env plain post _ 0 _ (by rw [Nat.zero_add]; exact h.2)]
    rfl

/-- For every plain text under the key of the module: the receiver does
what it should exactly if the plain text is an update, or announces
nothing. -/
theorem update_validated_iff {env : UpdateEnv} (hplain : env.plain = true)
    (hcrypto : env.crypto = true) {s : Lsm} (hreg : s.registered = true)
    {update plain : List UInt8} (hdec : trmAesDecrypt A true s.aesKey update = some plain) :
    processReceivedUpdate A env s update = validatedUpdate env.insert s plain ↔
      (wellFormedUpdate plain || emptyUpdate plain) = true := by
  obtain ⟨iv, rfl⟩ := trmAesDecrypt_some hdec
  cases plain with
  | nil =>
    -- no plain text at all is too short to be looked at
    have hdropped : processReceivedUpdate A env s (trmAesEncrypt A s.aesKey iv []) =
        some (s, []) := by
      rw [processReceivedUpdate, if_neg (by simp [hreg]),
        if_pos (by rw [trmAesEncrypt_length]; decide)]
    exact iff_of_true hdropped rfl
  | cons b rest =>
    have hcode := processReceivedUpdate_authentic (A := A) env hreg hplain hcrypto iv
      (List.cons_ne_nil b rest)
    cases hwf : wellFormedUpdate (b :: rest) with
    | true =>
      rw [hcode, applyUpdate_wellFormed _ _ hwf, Bool.true_or]
      exact iff_of_true rfl rfl
    | false =>
      have hlen : updateHeaderSize ≤ (b :: rest ++ spareBytes).length := by
        rw [List.length_append, spareBytes, List.length_replicate]
        unfold updateHeaderSize tagLength ivLength
        omega
      obtain ⟨hdr, hread⟩ := UpdateHeader.read_isSome hlen
      rw [hcode, validatedUpdate, hwf, if_neg Bool.false_ne_true, applyUpdate_nothing_iff hread,
        Bool.false_or, emptyUpdate, hread, Option.elim_some, Bool.and_eq_true, decide_eq_true_eq,
        decide_eq_true_eq]

/-- Memory for everything, at time 100. -/
def roomyUpdate : UpdateEnv := ⟨true, true, fun _ => ⟨.none, .ok, 100⟩⟩

def registeredModule : Lsm := ⟨idleSystem, zeros _, zeros _, fill _ 3, fill _ 1, true⟩

theorem sampleUpdate_validated :
    processReceivedUpdate (Aead.keyTag _ _) roomyUpdate registeredModule
        (trmAesEncrypt (Aead.keyTag _ _) registeredModule.aesKey (zeros _) sampleUpdate) =
      validatedUpdate roomyUpdate.insert registeredModule sampleUpdate :=
  (update_validated_iff rfl rfl rfl (trmAesDecrypt_encrypt _ _ _ _)).mpr (by decide +kernel)

/-- The outcome of a plain text: the key and the log. -/
def updateOutcome (plain : List UInt8) : Option (AesKey × List (UpdateRecord × Bool)) :=
  (processReceivedUpdate (Aead.keyTag _ _) roomyUpdate registeredModule
    (trmAesEncrypt (Aead.keyTag _ _) registeredModule.aesKey (zeros _) plain)).map
      fun out => (out.1.aesKey, out.2)

/-- A ticket for pid 7 behind eight zeros where the signature should be; a
header that announces one record, and one that announces two, with nothing
behind. The first ticket is inserted, for the second a record is made of
the zeros of the buffer, the third is a read past it. -/
theorem updates_unvalidated :
    updateOutcome ((⟨zeros _, fill _ 1, 1⟩ : UpdateHeader).encode ++
        (⟨7, fill _ 9, opOpen⟩ : UpdateRecord).encode (zeros _)) =
      some (fill _ 2, [(⟨7, fill _ 9, opOpen⟩, true)]) ∧
    updateOutcome (⟨challengeSignature, fill _ 1, 1⟩ : UpdateHeader).encode =
      some (fill _ 2, [(⟨0, zeros _, 0⟩, true)]) ∧
    updateOutcome (⟨challengeSignature, fill _ 1, 2⟩ : UpdateHeader).encode = none := by
  decide +kernel

end Citadel
