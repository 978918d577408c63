/-
Citadel.Lsm.Installation — an install call whose attribute calls fail.

`xattr_enclave_installation` sets two flags of the blob before it calls the
VFS: `needs_xattr_update` to false, so that the callback of the VFS has
nothing to write, and `checked_disk_xattr` to true, so that it has nothing
to load. After a failure it resets one of them, to false, whatever it was,
and forgets the other: a label that was still to be written is never
written. After a success the flag in memory is set from the record, but
the attribute follows it only on some paths: the result of the second
write is ignored, nobody removes the attribute for a record without
registration, and a declassification of a file whose label is not loaded
does not look at the disk.

`install_all_or_nothing_iff` says for which states, records and results of
the VFS the call is what its caller takes it for.
-/
import Citadel.Lsm.Eviction

namespace Citadel

open Bytes

/-! ## What the caller relies on -/

/-- A call that fails changes nothing; after one that succeeds the
attribute says what the flag says. -/
structure AllOrNothing (s s' : Lsm) (i : Nat) (r : Int) : Prop where
  nothing : r ≠ 0 → s'.system.data i = s.system.data i ∧ s'.aesKey = s.aesKey
  all : r = 0 → (s'.system.disk i).inRealm = (s'.system.data i).inRealm

/-- The attribute calls of one installation, everything else succeeding. -/
def attributeCalls (removed setIdentifier setInRealm : Bool) : InstallEnv :=
  ⟨true, true, true, removed, setIdentifier, setInRealm, true⟩

/-- The two flags are as a failed call leaves them. -/
def InodeData.idle (data : InodeData) : Bool := !data.needsXattrUpdate && !data.checkedDiskXattr

/-- The calls succeed that have to, and no attribute is left over. -/
def installFits (env : InstallEnv) (data : InodeData) (disk : Xattrs) (r : UpdateRecord) : Bool :=
  if r.operation.has opDeclassify then
    if data.inRealm then env.removed || data.idle else !disk.inRealm
  else if env.setIdentifier then
    if r.operation.has opRegister then env.setInRealm || disk.inRealm else !disk.inRealm
  else data.idle

/-! ## The two halves -/

theorem InodeData.failed_eq_iff (data : InodeData) :
    { data with needsXattrUpdate := false, checkedDiskXattr := false } = data ↔
      data.idle = true := by
  rcases data with ⟨_, needs, checked, _, _, _⟩
  cases needs <;> cases checked <;> simp [InodeData.idle]

/-- A failure after the flags were set. -/
theorem allOrNothing_failed (s : Lsm) (i : Nat) (disk : Xattrs) :
    AllOrNothing s (s.setLabel i
      { s.system.data i with needsXattrUpdate := false, checkedDiskXattr := false } disk) i (-1) ↔
      (s.system.data i).idle = true := by
  rw [← InodeData.failed_eq_iff]
  constructor
  · rintro ⟨hnothing, -⟩
    simpa [Lsm.setLabel] using (hnothing (by decide)).1
  · intro heq
    exact ⟨fun _ => ⟨by simpa [Lsm.setLabel] using heq, rfl⟩, fun hzero => absurd hzero (by decide)⟩

theorem allOrNothing_done {s s' : Lsm} {i : Nat} :
    AllOrNothing s s' i 0 ↔ (s'.system.disk i).inRealm = (s'.system.data i).inRealm :=
  ⟨fun h => h.all rfl, fun h => ⟨fun hne => absurd rfl hne, fun _ => h⟩⟩

theorem declassify_allOrNothing_iff {env : InstallEnv} (hstray : env.stray = true) (s : Lsm)
    (i : Nat) (hdr : UpdateHeader) :
    ∃ s' res, declassify env s i hdr = some (s', res) ∧
      (AllOrNothing s s' i res ↔
        (if (s.system.data i).inRealm then env.removed || (s.system.data i).idle
          else !(s.system.disk i).inRealm) = true) := by
  rw [declassify, if_neg (by simp [hstray])]
  by_cases hrealm : (s.system.data i).inRealm = true
  · rw [if_neg (by simp [hrealm]), if_pos hrealm]
    cases env.removed with
    | true =>
      refine ⟨_, _, if_pos rfl, ?_⟩
      simp [allOrNothing_done, updateAesKey, Lsm.setLabel, Xattrs.removeInRealm]
    | false =>
      refine ⟨_, _, if_neg Bool.false_ne_true, ?_⟩
      rw [allOrNothing_failed, Bool.false_or]
  · refine ⟨_, _, if_pos (by simp [hrealm]), ?_⟩
    rw [allOrNothing_done, if_neg hrealm]
    simp [updateAesKey, hrealm]

theorem installIdentifier_inRealm (disk : Xattrs) (identifier : Identifier) (ok : Bool) :
    (disk.installIdentifier identifier ok).inRealm = disk.inRealm := by
  cases ok with
  | true => rw [installIdentifier_eq]
  | false =>
    unfold Xattrs.installIdentifier
    split <;> rfl

theorem induct_allOrNothing_iff {env : InstallEnv} (hhex : env.hex = true) (s : Lsm) (i : Nat)
    (hdr : UpdateHeader) (r : UpdateRecord) :
    ∃ s' res, induct env s i hdr r = some (s', res) ∧
      (AllOrNothing s s' i res ↔
        (if env.setIdentifier then
          if r.operation.has opRegister then env.setInRealm || (s.system.disk i).inRealm
          else !(s.system.disk i).inRealm
        else (s.system.data i).idle) = true) := by
  rw [induct, if_neg (by simp [hhex])]
  cases env.setIdentifier with
  | false =>
    refine ⟨_, _, if_neg Bool.false_ne_true, ?_⟩
    rw [allOrNothing_failed, if_neg Bool.false_ne_true]
  | true =>
    refine ⟨_, _, if_pos rfl, ?_⟩
    rw [allOrNothing_done, if_pos rfl]
    cases r.operation.has opRegister with
    | false => simp [updateAesKey, Lsm.setLabel, installIdentifier_inRealm]
    | true =>
      cases env.setInRealm with
      | false => simp [updateAesKey, Lsm.setLabel, Xattrs.setInRealm, installIdentifier_inRealm]
      | true => simp [updateAesKey, Lsm.setLabel, Xattrs.setInRealm]

/-! ## Installations -/

/-- For every inode state, every label message under the key of the module
and every outcome of the attribute calls. -/
theorem install_all_or_nothing_iff {A : Gcm} {s : Lsm} (hreg : s.registered = true) (i : Nat)
    (op : LabelOp) (removed setIdentifier setInRealm : Bool) :
    ∃ s' res, xattrEnclaveInstallation A (attributeCalls removed setIdentifier setInRealm) s i
        (op.message A s.aesKey) = some (s', res) ∧
      (AllOrNothing s s' i res ↔
        installFits (attributeCalls removed setIdentifier setInRealm) (s.system.data i)
          (s.system.disk i) op.record = true) := by
  rw [installation_of_message _ hreg rfl rfl i op, installFits]
  cases op.record.operation.has opDeclassify with
  | true =>
    rw [if_pos rfl, if_pos rfl]
    exact declassify_allOrNothing_iff rfl s i _
  | false =>
    rw [if_neg Bool.false_ne_true, if_neg Bool.false_ne_true]
    exact induct_allOrNothing_iff rfl s i _ op.record

theorem registration_all_or_nothing :
    ∃ s' res, xattrEnclaveInstallation (Aead.keyTag _ _) (attributeCalls true true true)
        unlabelledFile 0 ((ninesRecord opRegister).message (Aead.keyTag _ _) unlabelledFile.aesKey) =
          some (s', res) ∧ AllOrNothing unlabelledFile s' 0 res := by
  obtain ⟨s', res, hinstall, hiff⟩ := install_all_or_nothing_iff (A := Aead.keyTag _ _)
    (s := unlabelledFile) rfl 0 (ninesRecord opRegister) true true true
  exact ⟨s', res, hinstall, hiff.mpr (by decide)⟩

/-- A file that inherited its label, which is still to be written. -/
def pendingFile : Lsm :=
  unlabelledFile.setLabel 0
    { InodeData.alloc with inRealm := true, needsXattrUpdate := true, checkedDiskXattr := true }
    ⟨false, none⟩

/-- The flags and the attribute after an installation on inode 0, with its
result. -/
def installOutcome (env : InstallEnv) (s : Lsm) (op : LabelOp) : Option (InodeData × Bool × Int) :=
  (xattrEnclaveInstallation (Aead.keyTag _ _) env s 0 (op.message (Aead.keyTag _ _) s.aesKey)).map
    fun out => (out.1.system.data 0, (out.1.system.disk 0).inRealm, out.2)

/-- The identifier cannot be written: the call fails and the label that was
pending is pending no more. The second attribute cannot be written: the
call succeeds, the file is in the realm and its attribute is missing. -/
theorem install_half_done :
    installOutcome (attributeCalls true false false) pendingFile (ninesRecord opRegister) =
      some ({ pendingFile.system.data 0 with
        needsXattrUpdate := false, checkedDiskXattr := false }, false, -1) ∧
    (pendingFile.system.data 0).needsXattrUpdate = true ∧
    (installOutcome (attributeCalls true true false) unlabelledFile (ninesRecord opRegister)).map
      (fun out => (out.1.inRealm, out.2)) = some (true, false, 0) := by
  decide +kernel

end Citadel
