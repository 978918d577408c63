/-
Citadel.Lsm.HookFaults — which hooks of the module can bring the kernel
down, over every run.

Two things can go wrong in a hook: the label of an inode cannot be read off
its disk, and a shared memory hook follows a NULL pointer. The first does
not happen if it did not at the start: nobody but the module writes the
attributes of labels, and both forms in which it does can be read
(`Moved.readable`). The second does, for a call without a segment and for a
guarded access by a credential without tickets. So these are all the
faults there are (`hooks_fault_iff`).

Label messages and the module's own files are not hooks in this sense: what
they do with their input is `Citadel.Lsm.UpdateValidation`'s and
`Citadel.Lsm.Installation`'s subject.
-/
import Citadel.Lsm.RealmFlow

namespace Citadel

open Bytes

variable {A : Gcm} {rsaDecrypt : List UInt8 → Option (List UInt8)}

/-! ## Reading labels -/

/-- The label is only read for inodes in the realm. -/
theorem fetchLabel_returns {disk : Xattrs} (h : disk.inRealm = true → disk.readable = true)
    (data : InodeData) : ∃ data', fetchLabel disk data = some data' := by
  unfold fetchLabel
  split
  swap
  · exact ⟨_, rfl⟩
  split
  swap
  · exact ⟨_, rfl⟩
  rename_i hrealm
  have hread := h hrealm
  unfold Xattrs.readable at hread
  cases hid : getXattrIdentifier disk with
  | none =>
    rw [hid] at hread
    cases hread
  | some found =>
    cases found with
    | none => exact ⟨_, rfl⟩
    | some identifier =>
      rw [hid] at hread
      obtain ⟨block, hblock⟩ : ∃ block, Bytes.read identifier 0 identifierLength = some block :=
        read_isSome (by simpa using hread)
      exact ⟨_, congrArg (Option.bind · _) hblock⟩

theorem dentryHousekeeping_returns {disk : Xattrs}
    (h : disk.inRealm = true → disk.readable = true) (task : TaskData) (inode : Inode)
    (vfs : VfsResult) (data : InodeData) :
    ∃ out, dentryHousekeeping task inode vfs disk data = some out := by
  obtain ⟨data', hdata'⟩ := fetchLabel_returns h (inodeHousekeeping task inode data)
  refine ⟨flushLabel vfs disk data', ?_⟩
  rw [dentryHousekeeping, hdata']
  rfl

theorem dentryHousekeepingBy_returns {s : Lsm} {i : Nat}
    (h : (s.system.disk i).inRealm = true → (s.system.disk i).readable = true) (cur : Task)
    (vfs : VfsResult) : ∃ s', dentryHousekeepingBy s cur i vfs = some s' := by
  obtain ⟨out, hout⟩ := dentryHousekeeping_returns h (s.system.task cur) (s.system.inode i) vfs
    (s.system.data i)
  refine ⟨s.setLabel i out.1 out.2, ?_⟩
  rw [dentryHousekeepingBy, hout]
  rfl

theorem housekeep_returns {s : System} (hwf : s.kernel.Wf) (cur : Task) (now : Int) :
    ∃ k, s.housekeep cur now = some { s with kernel := k } ∧ k.Wf ∧
      ∀ c, (k.cred c).inRealm = (s.kernel.cred c).inRealm := by
  obtain ⟨k, hrun, hwf', -, hcred⟩ := taskHousekeeping_wf hwf cur now
  refine ⟨k, ?_, hwf', fun c => (hcred c).1⟩
  rw [System.housekeep, hrun]
  rfl

/-! ## Hooks -/

theorem Hook.prepare_returns {hook : Hook} {s : System} (hwf : s.kernel.Wf) {i : Nat}
    (h : (s.disk i).inRealm = true → (s.disk i).readable = true) (cur : Task) (now : Int)
    (vfs : VfsResult) : ∃ d, hook.prepare s cur i now vfs = some d := by
  obtain ⟨k, hrun, -⟩ := taskHousekeeping_wf hwf cur now
  have hdentry : ∃ d, prepareDentry s cur i now vfs = some d := by
    obtain ⟨out, hout⟩ := dentryHousekeeping_returns h
      (System.task { s with kernel := k } cur) (s.inode i) vfs (s.data i)
    refine ⟨{ System.setData { s with kernel := k } i out.1 with
      disk := Function.update s.disk i out.2 }, ?_⟩
    rw [prepareDentry, hrun]
    exact congrArg (Option.bind · _) hout
  cases hook with
  | inodePermission =>
    refine ⟨System.setData { s with kernel := k } i
      (inodeHousekeeping (System.task { s with kernel := k } cur) (s.inode i) (s.data i)), ?_⟩
    rw [Hook.prepare, prepareInode, hrun]
    rfl
  | fileOpen => exact hdentry
  | filePermission => exact hdentry

theorem Hook.call_returns {hook : Hook} {s : System} (hwf : s.kernel.Wf) {i : Nat}
    (h : (s.disk i).inRealm = true → (s.disk i).readable = true) (cur : Task) (now : Int)
    (vfs : VfsResult) : ∃ out, hook.call s cur i now vfs = some out := by
  obtain ⟨d, hprep⟩ := hook.prepare_returns hwf h cur now vfs
  have hd : d.kernel.Ringed := by
    obtain ⟨k, hrun, hwf', -⟩ := taskHousekeeping_wf hwf cur now
    obtain rfl : k = d.kernel :=
      Option.some.inj (hrun.symm.trans (Hook.prepare_spec hprep).kernel)
    exact hwf'.ringed
  rw [hook.call_eq, hprep, Option.bind_some, decideAccess_eq hd]
  exact ⟨_, rfl⟩

theorem trmFileIoctl_returns {s : Lsm} (hwf : s.system.kernel.Wf) {i : Nat}
    (h : (s.system.disk i).inRealm = true → (s.system.disk i).readable = true) (cur : Task)
    (now : Int) (vfs : VfsResult) : ∃ s', trmFileIoctl s cur i now vfs = some (s', 0) := by
  obtain ⟨k, hhouse, -⟩ := housekeep_returns hwf cur now
  have h' : (Lsm.system { s with system := { s.system with kernel := k } } |>.disk i).inRealm = true →
      (s.system.disk i).readable = true := h
  obtain ⟨s', hs'⟩ := dentryHousekeepingBy_returns h' cur vfs
  refine ⟨s', ?_⟩
  rw [trmFileIoctl]
  refine (congrArg (Option.bind · _) hhouse).trans ?_
  exact congrArg (Option.bind · _) hs'

theorem AttributeHook.call_returns (hook : AttributeHook) {s : Lsm} {i : Nat}
    (h : (s.system.disk i).inRealm = true → (s.system.disk i).readable = true) (cur : Task)
    (vfs : VfsResult) : ∃ s', hook.call s cur i vfs = some (s', 0) := by
  obtain ⟨s', hs'⟩ := dentryHousekeepingBy_returns h cur vfs
  refine ⟨s', ?_⟩
  cases hook <;> exact congrArg (Option.map _) hs'

theorem trmSocketPostCreate_returns {s : System} (hwf : s.kernel.Wf) (cur : Task) (i : Nat)
    (now : Int) : ∃ s', trmSocketPostCreate s cur i now = some (s', 0) := by
  obtain ⟨k, hhouse, -⟩ := housekeep_returns hwf cur now
  rw [trmSocketPostCreate, hhouse]
  exact ⟨_, rfl⟩

theorem trmSocketSocketpair_returns {s : System} (hwf : s.kernel.Wf) (cur : Task) (a b : Nat)
    (now : Int) : ∃ s', trmSocketSocketpair s cur a b now = some (s', 0) := by
  obtain ⟨k, hhouse, -⟩ := housekeep_returns hwf cur now
  rw [trmSocketSocketpair, hhouse, Option.bind_eq_bind, Option.bind_some]
  split <;> exact ⟨_, rfl⟩

theorem SocketHook.call_returns (hook : SocketHook) {s : System} (hwf : s.kernel.Wf) (cur : Task)
    (i : Nat) (now : Int) : ∃ out, hook.call s cur i now = some out := by
  obtain ⟨k, hhouse, hwf', -⟩ := housekeep_returns hwf cur now
  rw [hook.call_eq, hhouse, Option.bind_some]
  split
  swap
  · exact ⟨_, rfl⟩
  cases hook.operation with
  | none => exact ⟨_, rfl⟩
  | some op =>
    have hrd : (hook.labels { s with kernel := k } cur i).kernel.Ringed := by
      rw [hook.labels_eq]
      exact hwf'.ringed
    exact ⟨_, canAccess_eq hrd cur i op⟩

/-- A call of user space on an attribute that is not a label message. -/
theorem setxattr_returns {s : XattrSystem} (h : ∀ i, (s.lsm.system.disk i).readable = true)
    {name : List UInt8} (hname : name ≠ xattrInstall) (cur : Task) (i : Nat) (value : List UInt8)
    (cap io : Int) (env : InstallEnv) (vfs : VfsResult) :
    ∃ out, xattrCall A s (.setxattr cur i name value cap io env vfs) = some out := by
  simp only [xattrCall, trmInodeSetxattr, if_neg hname]
  by_cases hroot : xattrRoot <+: name
  · rw [(strncmpEq_root name).mpr hroot]
    exact ⟨_, rfl⟩
  · have hroot' : strncmpEq xattrRoot.length name xattrRoot = false :=
      Bool.eq_false_iff.mpr fun heq => hroot ((strncmpEq_root name).mp heq)
    rw [hroot']
    simp only [Bool.not_false, if_true, Option.bind_eq_bind, Option.bind_some]
    split
    · exact ⟨_, rfl⟩
    split
    · exact ⟨_, rfl⟩
    obtain ⟨lsm, hlsm⟩ := dentryHousekeepingBy_returns (fun _ => h i) cur vfs
    rw [(put_other hroot (some value)).1, trmInodePostSetxattr, hlsm]
    exact ⟨_, rfl⟩

theorem removexattr_returns {s : XattrSystem} (h : ∀ i, (s.lsm.system.disk i).readable = true)
    (cur : Task) (i : Nat) (name : List UInt8) (cap io : Int) (vfs : VfsResult) :
    ∃ out, xattrCall A s (.removexattr cur i name cap io vfs) = some out := by
  obtain ⟨lsm, hlsm⟩ := dentryHousekeepingBy_returns (fun _ => h i) cur vfs
  have hremove : ∃ rc, trmInodeRemovexattr cap s.lsm cur i vfs name = some (lsm, rc) := by
    rw [trmInodeRemovexattr, hlsm, Option.bind_eq_bind, Option.bind_some]
    split <;> exact ⟨_, rfl⟩
  obtain ⟨rc, hrc⟩ := hremove
  simp only [xattrCall, hrc, Option.bind_eq_bind, Option.bind_some]
  split
  · exact ⟨_, rfl⟩
  split <;> exact ⟨_, rfl⟩

/-! ## Every event -/

/-- The event is a call of a hook, and not a label message. -/
def MonitorEvent.isHook : MonitorEvent → Bool
  | .xattr (.setxattr _ _ name _ _ _ _ _) => decide (name ≠ xattrInstall)
  | .challengeRead _ _ _ => false
  | .challengeWrite _ _ => false
  | .updateWrite _ _ _ => false
  | _ => true

/-- A shared memory hook without a segment, or a guarded access to one by a
credential without tickets. -/
def MonitorEvent.followsNull (m : Monitor) : MonitorEvent → Bool
  | .shm _ _ cur perm => perm.elim true fun j => m.ipc.guarded cur j && (m.ipc.ring cur).isEmpty
  | _ => false

theorem shm_faults_iff {m : Monitor} (hwf : m.system.kernel.Wf) (hook : ShmHook) (env : ShmEnv)
    (cur : Task) (perm : Option Nat) :
    hook.call m.ipc env cur perm = none ↔
      MonitorEvent.followsNull m (.shm hook env cur perm) = true := by
  rw [hook.call_eq]
  cases perm with
  | none => exact iff_of_true rfl rfl
  | some j =>
    have hrd : m.ipc.system.kernel.Ringed := hwf.ringed
    rw [shmCanAccess_eq hrd, MonitorEvent.followsNull, Option.elim_some, Bool.and_eq_true]
    split
    · rename_i hguarded
      split
      · rename_i hempty
        exact iff_of_true rfl ⟨hguarded, hempty⟩
      · rename_i hempty
        refine iff_of_false ?_ fun h => hempty h.2
        split <;> exact Option.some_ne_none _
    · rename_i hguarded
      exact iff_of_false (Option.some_ne_none _) fun h => hguarded h.1

theorem monitorStep_faults_iff {m : Monitor} (hwf : m.system.kernel.Wf)
    (hread : ∀ i, (m.system.disk i).readable = true) {e : MonitorEvent} (hhook : e.isHook = true) :
    monitorStep rsaDecrypt A m e = none ↔ e.followsNull m = true := by
  have hreturns : ∀ {out : Monitor × Int}, monitorStep rsaDecrypt A m e = some out →
      e.followsNull m = false → (monitorStep rsaDecrypt A m e = none ↔ e.followsNull m = true) := by
    intro out hout hserved
    rw [hout, hserved]
    exact iff_of_false (Option.some_ne_none _) Bool.false_ne_true
  cases e with
  | file hook cur i now vfs =>
    obtain ⟨out, hcall⟩ := hook.call_returns hwf (fun _ => hread i) cur now vfs
    exact hreturns (congrArg (Option.map _) hcall) rfl
  | ioctl cur i now vfs =>
    obtain ⟨s, hcall⟩ := trmFileIoctl_returns hwf (fun _ => hread i) cur now vfs
    exact hreturns (congrArg (Option.map _) hcall) rfl
  | allocInode cur i created => exact hreturns rfl rfl
  | initSecurity cur i dir => exact hreturns rfl rfl
  | instantiate cur i vfs =>
    cases i with
    | none => exact hreturns rfl rfl
    | some i =>
      obtain ⟨lsm, hlsm⟩ := dentryHousekeepingBy_returns (fun _ => hread i) cur vfs
      exact hreturns (congrArg (Option.map _) hlsm) rfl
  | attributeRead hook cur i vfs =>
    obtain ⟨s, hcall⟩ := hook.call_returns (fun _ => hread i) cur vfs
    exact hreturns (congrArg (Option.map _) hcall) rfl
  | xattr call =>
    cases call with
    | setxattr cur i name value cap io env vfs =>
      obtain ⟨out, hcall⟩ := setxattr_returns (A := A) (s := ⟨m.lsm, m.other⟩) hread
        (of_decide_eq_true hhook) cur i value cap io env vfs
      exact hreturns (congrArg (Option.map _) hcall) rfl
    | removexattr cur i name cap io vfs =>
      obtain ⟨out, hcall⟩ := removexattr_returns (A := A) (s := ⟨m.lsm, m.other⟩) hread cur i name
        cap io vfs
      exact hreturns (congrArg (Option.map _) hcall) rfl
  | plain hook cur now =>
    obtain ⟨k, hhouse, -⟩ := housekeep_returns hwf cur now
    have hcall : hook.call m.system cur now = some ({ m.system with kernel := k }, 0) := by
      rw [hook.call_eq, hhouse]
      rfl
    exact hreturns (congrArg (Option.map _) hcall) rfl
  | initTask c random previous => exact hreturns rfl rfl
  | socketCreate cur i now =>
    obtain ⟨s, hcall⟩ := trmSocketPostCreate_returns hwf cur i now
    exact hreturns (congrArg (Option.map _) hcall) rfl
  | socketPair cur a b now =>
    obtain ⟨s, hcall⟩ := trmSocketSocketpair_returns hwf cur a b now
    exact hreturns (congrArg (Option.map _) hcall) rfl
  | socket hook cur i now =>
    obtain ⟨out, hcall⟩ := hook.call_returns hwf cur i now
    exact hreturns (congrArg (Option.map _) hcall) rfl
  | shm hook env cur perm =>
    rw [← shm_faults_iff hwf]
    exact Option.map_eq_none_iff
  | shmAlloc j key => exact hreturns rfl rfl
  | shmFree j => exact hreturns rfl rfl
  | challengeRead rsaAvailable alloc random => cases hhook
  | challengeWrite copy buf => cases hhook
  | updateWrite copy env buf => cases hhook

/-- Over every run of the module from its load: labels that could be read
at the start can be read, and then a hook faults exactly if it is a shared
memory hook that follows a NULL pointer. -/
theorem hooks_fault_iff {m₀ m : Monitor} (hboot : m₀.system.Booted)
    (hread : ∀ i, (m₀.system.disk i).readable = true) {evs : List MonitorEvent}
    (hrun : monitorRun rsaDecrypt A m₀ evs = some m) :
    (∀ i, (m.system.disk i).readable = true) ∧
      ∀ e : MonitorEvent, e.isHook = true →
        (monitorStep rsaDecrypt A m e = none ↔ e.followsNull m = true) := by
  have hinv : m.system.kernel.Wf ∧ ∀ i, (m.system.disk i).readable = true := by
    refine Run.invariant (Q := fun _ => True)
      (P := fun m : Monitor => m.system.kernel.Wf ∧ ∀ i, (m.system.disk i).readable = true) ?_
      ⟨hboot.wf, hread⟩ (fun _ _ => trivial) hrun
    rintro m m' e ⟨hwf, hread⟩ - hnext
    have hmoved := monitorNext_moved hwf hnext
    exact ⟨hmoved.wf, fun i => hmoved.readable i (hread i)⟩
  exact ⟨hinv.2, fun e hhook => monitorStep_faults_iff hinv.1 hinv.2 hhook⟩

/-- A registered module with an unlabelled file, and segments with key 9. -/
def unlabelledMonitor : Monitor :=
  ⟨unlabelledFile, fun _ _ => none, .empty, fun _ => trmIpcAllocSecurity ⟨9, ⟨true, zeros _⟩⟩⟩

/-- The attribute call that hands in the registration of inode 0. -/
def registerZero : MonitorEvent :=
  .xattr (.setxattr ⟨7, 0⟩ 0 xattrInstall
    ((ninesRecord opRegister).message (Aead.keyTag _ _) unlabelledFile.aesKey) 0 0
    (attributeCalls true true true) ⟨true, true⟩)

/-- Inode 1 is created below inode 0 and gets its dentry. -/
def createOne : List MonitorEvent :=
  [.allocInode ⟨7, 0⟩ 1 (some ⟨3, false, .other⟩), .initSecurity ⟨7, 0⟩ 1 0,
    .instantiate ⟨7, 0⟩ (some 1) ⟨true, true⟩]

/-- The new file can be opened; `shmctl` for IPC_INFO has no segment. -/
theorem createOne_faults :
    ∃ m, monitorRun (fun _ => none) (Aead.keyTag _ _) unlabelledMonitor (registerZero :: createOne) =
        some m ∧
      monitorStep (fun _ => none) (Aead.keyTag _ _) m
        (.file .fileOpen ⟨7, 0⟩ 1 100 ⟨true, true⟩) ≠ none ∧
      monitorStep (fun _ => none) (Aead.keyTag _ _) m (.shm .shmctl calmShm ⟨7, 0⟩ none) = none := by
  obtain ⟨m, hrun⟩ := Option.isSome_iff_exists.mp (show (monitorRun (fun _ => none)
    (Aead.keyTag _ _) unlabelledMonitor (registerZero :: createOne)).isSome = true by decide +kernel)
  have hread : ∀ i, (unlabelledMonitor.system.disk i).readable = true := fun _ => rfl
  obtain ⟨-, hfaults⟩ := hooks_fault_iff ⟨_, rfl⟩ hread hrun
  refine ⟨m, hrun, ?_, (hfaults _ rfl).mpr rfl⟩
  rw [ne_eq, hfaults _ rfl]
  exact Bool.false_ne_true

end Citadel
