/-
Citadel.Lsm.Creation — the label of a file from its creation to its first
reload.

`trm_inode_init_security` puts the inherited label into the blob and marks
it as pending; `trm_d_instantiate` loads what is on disk and then writes
what is pending. The order is right because there is nothing to load yet:
a fresh inode has no attributes, so the load leaves the pending label
alone (`instantiate_fresh`). What is written is the flag, and the
identifier only if a tainted task gave one, with its terminator; the
loader reads both forms back (`written_reloads`).
-/
import Citadel.Lsm.Eviction

namespace Citadel

open Bytes

/-! ## Writing -/

/-- What the flush of a pending label stores on a fresh inode. -/
def InodeData.written (data : InodeData) : Xattrs :=
  ⟨data.inRealm, if data.anonymous then none else some (hexDigits data.identifier.1 ++ [0])⟩

theorem flushLabel_fresh (data : InodeData) (hrealm : data.inRealm = true)
    (hneeds : data.needsXattrUpdate = true) (hsock : data.isSocket = false) :
    flushLabel ⟨true, true⟩ ⟨false, none⟩ data =
      ({ data with needsXattrUpdate := false }, data.written) := by
  cases hanon : data.anonymous with
  | true => simp [flushLabel, InodeData.written, hrealm, hneeds, hsock, hanon, Xattrs.setInRealm]
  | false =>
    simp [flushLabel, InodeData.written, hrealm, hneeds, hsock, hanon, Xattrs.setInRealm,
      Xattrs.setIdentifier, toHexstring_identifier]

/-- The load that comes first finds nothing. -/
theorem fetchLabel_fresh {data : InodeData} (hchecked : data.checkedDiskXattr = false)
    (hsock : data.isSocket = false) :
    fetchLabel ⟨false, none⟩ data = some { data with checkedDiskXattr := true } := by
  simp [fetchLabel, hchecked, hsock]

/-! ## The two hooks -/

/-- The blob of a created file once its dentry is there. -/
def createdData (task : TaskData) (parent : InodeData) : InodeData :=
  { inheritLabel task parent .alloc with needsXattrUpdate := false, checkedDiskXattr := true }

@[simp] theorem createdData_inRealm (task : TaskData) (parent : InodeData) :
    (createdData task parent).inRealm = (parent.inRealm || task.inRealm) := by
  cases hp : parent.inRealm <;> cases ht : task.inRealm <;>
    simp [createdData, inheritLabel, InodeData.alloc, hp, ht]

@[simp] theorem createdData_anonymous (task : TaskData) (parent : InodeData) :
    (createdData task parent).anonymous = !task.inRealm := by
  cases hp : parent.inRealm <;> cases ht : task.inRealm <;>
    simp [createdData, inheritLabel, InodeData.alloc, hp, ht]

theorem createdData_identifier {task : TaskData} (htask : task.inRealm = true)
    (parent : InodeData) : (createdData task parent).identifier = task.identifier := by
  simp [createdData, inheritLabel, InodeData.alloc, htask]

theorem dentryHousekeeping_fresh {inode : Inode} (hpipe : inode.magic ≠ .pipefs)
    (task : TaskData) (parent : InodeData) :
    dentryHousekeeping task inode ⟨true, true⟩ ⟨false, none⟩ (inheritLabel task parent .alloc) =
      some (createdData task parent, (createdData task parent).written) := by
  have hfresh : (inheritLabel task parent .alloc).checkedDiskXattr = false ∧
      (inheritLabel task parent .alloc).isSocket = false := by
    unfold inheritLabel
    split
    · split <;> exact ⟨rfl, rfl⟩
    · exact ⟨rfl, rfl⟩
  rw [dentryHousekeeping, inodeHousekeeping_disk hpipe, fetchLabel_fresh hfresh.1 hfresh.2]
  cases hrealm : parent.inRealm || task.inRealm with
  | true =>
    -- the label is pending, and the flush writes it
    have hflush := flushLabel_fresh
      { inheritLabel task parent .alloc with checkedDiskXattr := true }
      (by simpa [createdData] using (createdData_inRealm task parent).trans hrealm)
      (by rw [inheritLabel, hrealm]; cases task.inRealm <;> rfl)
      hfresh.2
    rw [Option.bind_eq_bind, Option.bind_some, hflush]
    rfl
  | false =>
    obtain ⟨hp, ht⟩ := Bool.or_eq_false_iff.mp hrealm
    simp [inheritLabel, flushLabel, createdData, InodeData.written, InodeData.alloc, hp, ht]

theorem instantiate_fresh {s : Lsm} (cur : Task) {cur₀ : Task} {i : Nat} (dir : Nat)
    (hino : 2 ≤ (s.system.inode i).ino) (hpipe : (s.system.inode i).magic ≠ .pipefs)
    (hdata : s.system.data i = trmInodeAllocSecurity (s.system.task cur₀) (s.system.inode i))
    (hdisk : s.system.disk i = ⟨false, none⟩) :
    ∃ s', trmDInstantiate (trmInodeInitSecurity s cur i dir).1 cur ⟨true, true⟩ (some i) =
        some s' ∧
      s'.system.data i = createdData (s.system.task cur) (s.system.data dir) ∧
      s'.system.disk i = (createdData (s.system.task cur) (s.system.data dir)).written := by
  have halloc : s.system.data i = .alloc := by
    rw [hdata, trmInodeAllocSecurity, if_neg (by omega), inodeHousekeeping_disk hpipe]
  have hhouse := dentryHousekeeping_fresh hpipe (s.system.task cur) (s.system.data dir)
  refine ⟨(trmInodeInitSecurity s cur i dir).1.setLabel i
    (createdData (s.system.task cur) (s.system.data dir))
    (createdData (s.system.task cur) (s.system.data dir)).written, ?_, ?_, ?_⟩
  · simp only [trmDInstantiate, dentryHousekeepingBy, trmInodeInitSecurity, Lsm.setLabel,
      System.task, Function.update_self, halloc, inodeHousekeeping_disk hpipe, hdisk]
    rw [show s.system.kernel.cred cur.cred = s.system.task cur from rfl, hhouse]
    rfl
  · simp [Lsm.setLabel]
  · simp [Lsm.setLabel]

/-! ## The reload -/

/-- The loader gives back the blob that was written. -/
theorem written_reloads (task : TaskData) (parent : InodeData) :
    fetchLabel (createdData task parent).written .alloc = some (createdData task parent) := by
  cases ht : task.inRealm with
  | true =>
    have hstored : (createdData task parent).written.identifier =
        some (hexDigits task.identifier.1 ++ List.replicate 1 0) := by
      simp [InodeData.written, ht, createdData_identifier ht]
    rw [fetchLabel_named (le_refl 1) (by simp [InodeData.written, ht]) hstored]
    simp [createdData, inheritLabel, InodeData.alloc, ht]
  | false =>
    cases hp : parent.inRealm with
    | true =>
      simp [fetchLabel, getXattrIdentifier, createdData, inheritLabel, InodeData.written,
        InodeData.alloc, ht, hp]
    | false =>
      simp [fetchLabel, createdData, inheritLabel, InodeData.written, InodeData.alloc, ht, hp]

/-- A created file is in the realm exactly if its directory or its creator
is, has the creator's name exactly if the creator is tainted, and a reload
by whatever task gives the same label. -/
theorem created_file_keeps_label {s : Lsm} (cur : Task) {cur₀ : Task} {i : Nat} (dir : Nat)
    (hino : 2 ≤ (s.system.inode i).ino) (hpipe : (s.system.inode i).magic ≠ .pipefs)
    (hdata : s.system.data i = trmInodeAllocSecurity (s.system.task cur₀) (s.system.inode i))
    (hdisk : s.system.disk i = ⟨false, none⟩) :
    ∃ s', trmDInstantiate (trmInodeInitSecurity s cur i dir).1 cur ⟨true, true⟩ (some i) =
        some s' ∧
      (s'.system.data i).inRealm =
        ((s.system.data dir).inRealm || (s.system.task cur).inRealm) ∧
      (((s'.system.data i).identifier = (s.system.task cur).identifier ∧
          (s'.system.data i).anonymous = false) ↔ (s.system.task cur).inRealm = true) ∧
      ∀ (task : TaskData) (vfs : VfsResult), ∃ data',
        reload task (s.system.inode i) vfs (s'.system.disk i) =
          some (data', s'.system.disk i) ∧
        data'.inRealm = (s'.system.data i).inRealm ∧
        data'.anonymous = (s'.system.data i).anonymous ∧
        ((s'.system.data i).anonymous = false →
          data'.identifier = (s'.system.data i).identifier) := by
  obtain ⟨s', hrun, hdata', hdisk'⟩ := instantiate_fresh cur dir hino hpipe hdata hdisk
  refine ⟨s', hrun, ?_, ?_, ?_⟩
  · rw [hdata', createdData_inRealm]
  · rw [hdata', createdData_anonymous]
    constructor
    · rintro ⟨-, hanon⟩
      simpa using hanon
    · intro htask
      exact ⟨createdData_identifier htask _, by simp [htask]⟩
  · intro task vfs
    refine ⟨s'.system.data i, ?_, rfl, rfl, fun _ => rfl⟩
    rw [reload_eq hino hpipe, hdisk', written_reloads, hdata']
    rfl

/-- A tainted task creates a file below a directory outside the realm. -/
def creatingSystem : Lsm :=
  ⟨{ idleSystem with kernel := Kernel.boot fun _ =>
      { initTaskTrm (fill _ 9) none with inRealm := true } }, zeros _, zeros _, fill _ 3, fill _ 1,
    true⟩

theorem creatingSystem_keeps_label :
    ∃ s', trmDInstantiate (trmInodeInitSecurity creatingSystem ⟨7, 0⟩ 1 0).1 ⟨7, 0⟩ ⟨true, true⟩
        (some 1) = some s' ∧
      (s'.system.data 1).inRealm = true ∧ (s'.system.data 1).anonymous = false := by
  have halloc : creatingSystem.system.data 1 = trmInodeAllocSecurity
      (creatingSystem.system.task ⟨7, 0⟩) (creatingSystem.system.inode 1) := rfl
  obtain ⟨s', hrun, hrealm, hname, -⟩ :=
    created_file_keeps_label ⟨7, 0⟩ 0 (by decide) (by decide) halloc rfl
  exact ⟨s', hrun, hrealm, (hname.mpr rfl).2⟩

end Citadel
