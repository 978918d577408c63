/-
Citadel.Lsm.UserXattrs — what user space can do to labels with `setxattr`
and `removexattr`: nothing.

A call goes through the VFS: the module's hook is asked, if it returns 0
the attribute is stored or removed, and after a store the module is told.
The attributes of an inode are a map from names to values; the two that
are the label are `System.disk`.

Three tests on the name decide: the exact install name, the root
`security.citadel`, and otherwise the capability module. What gets past
them does not start with the root (`strncmpEq_root`), so it is no label,
and the housekeeping that every one of these hooks also runs has nothing
to do once the label is loaded and flushed.
-/
import Citadel.Lsm.InodeHooks
import Citadel.Lsm.PayloadIoTheorems

namespace Citadel

open Bytes

/-! ## Attribute calls -/

/-- The module, and the attributes of each inode that are no label. -/
structure XattrSystem where
  lsm : Lsm
  other : Nat → List UInt8 → Option (List UInt8)

/-- The value of an attribute on disk. -/
def XattrSystem.get (s : XattrSystem) (i : Nat) (name : List UInt8) : Option (List UInt8) :=
  if name = xattrInRealm then if (s.lsm.system.disk i).inRealm then some [] else none
  else if name = xattrIdentifier then (s.lsm.system.disk i).identifier
  else s.other i name

/-- Store an attribute, or remove it. -/
def XattrSystem.put (s : XattrSystem) (i : Nat) (name : List UInt8) (value : Option (List UInt8)) :
    XattrSystem :=
  let disk := s.lsm.system.disk i
  if name = xattrInRealm then
    { s with lsm := s.lsm.setLabel i (s.lsm.system.data i) { disk with inRealm := value.isSome } }
  else if name = xattrIdentifier then
    { s with lsm := s.lsm.setLabel i (s.lsm.system.data i) { disk with identifier := value } }
  else { s with other := Function.update s.other i (Function.update (s.other i) name value) }

/-- A call from user space. `cap` is the answer of the capability module,
`io` that of the file system. -/
inductive XattrCall where
  | setxattr (cur : Task) (i : Nat) (name value : List UInt8) (cap io : Int) (env : InstallEnv)
      (vfs : VfsResult)
  | removexattr (cur : Task) (i : Nat) (name : List UInt8) (cap io : Int) (vfs : VfsResult)

def XattrCall.inode : XattrCall → Nat
  | .setxattr _ i _ _ _ _ _ _ => i
  | .removexattr _ i _ _ _ _ => i

def XattrCall.name : XattrCall → List UInt8
  | .setxattr _ _ name _ _ _ _ _ => name
  | .removexattr _ _ name _ _ _ => name

/-- The value, for the calls that have one. -/
def XattrCall.value : XattrCall → Option (List UInt8)
  | .setxattr _ _ _ value _ _ _ _ => some value
  | .removexattr _ _ _ _ _ _ => none

/-- One call, with whether the file system was made to change the attribute
it names; `none` is a memory fault. -/
def xattrCall (A : Gcm) (s : XattrSystem) : XattrCall → Option (XattrSystem × Int × Bool)
  | .setxattr cur i name value cap io env vfs => do
    let (lsm, rc) ← trmInodeSetxattr A env cap s.lsm i name value
    let s := { s with lsm := lsm }
    if rc ≠ 0 then some (s, rc, false)
    else if io ≠ 0 then some (s, io, false)
    else do
      let s := s.put i name (some value)
      let lsm ← trmInodePostSetxattr s.lsm cur i vfs
      some ({ s with lsm := lsm }, 0, true)
  | .removexattr cur i name cap io vfs => do
    let (lsm, rc) ← trmInodeRemovexattr cap s.lsm cur i vfs name
    let s := { s with lsm := lsm }
    if rc ≠ 0 then some (s, rc, false)
    else if io ≠ 0 then some (s, io, false)
    else some (s.put i name none, 0, true)

/-- The run keeps a log of the attributes it changed at the callers'
request. -/
def xattrStep (A : Gcm) (s : XattrSystem × List (Nat × List UInt8)) (c : XattrCall) :
    Option (XattrSystem × List (Nat × List UInt8)) := do
  let (s', _, changed) ← xattrCall A s.1 c
  some (s', if changed then s.2 ++ [(c.inode, c.name)] else s.2)

def xattrRun (A : Gcm) (s : XattrSystem) (calls : List XattrCall) :
    Option (XattrSystem × List (Nat × List UInt8)) := calls.foldlM (xattrStep A) (s, [])

/-! ## Names -/

theorem strncmpEq_root (name : List UInt8) :
    strncmpEq xattrRoot.length name xattrRoot = true ↔ xattrRoot <+: name := by
  have hroot : (xattrRoot ++ [0]).take xattrRoot.length = xattrRoot := List.take_left
  rw [strncmpEq, decide_eq_true_eq, hroot]
  constructor
  · intro h
    by_cases hlen : xattrRoot.length ≤ name.length
    · rw [List.take_append_of_le_length hlen] at h
      exact h ▸ List.take_prefix _ _
    · -- a shorter name would have to end the root with a terminator
      have hmem : (0 : UInt8) ∈ xattrRoot := by
        rw [List.take_of_length_le (by rw [List.length_append, List.length_singleton]; omega)] at h
        rw [← h]
        simp
      exact absurd hmem (by decide)
  · rintro ⟨rest, rfl⟩
    rw [List.append_assoc, List.take_left]

/-- What does not start with the root is no label. -/
theorem ne_label_of_not_root {name : List UInt8} (h : ¬ xattrRoot <+: name) :
    name ≠ xattrInRealm ∧ name ≠ xattrIdentifier := by
  refine ⟨fun heq => h ?_, fun heq => h ?_⟩
  · rw [heq]
    exact List.isPrefixOf_iff_prefix.mp (by decide)
  · rw [heq]
    exact List.isPrefixOf_iff_prefix.mp (by decide)

/-! ## One call -/

/-- The label has been fetched and nothing of it waits to be written. -/
structure System.Loaded (s : System) (i : Nat) : Prop where
  notPipe : (s.inode i).magic ≠ .pipefs
  checked : (s.data i).checkedDiskXattr = true
  flushed : (s.data i).needsXattrUpdate = false

/-- Then the housekeeping has nothing to do. -/
theorem dentryHousekeeping_loaded {s : Lsm} {i : Nat} (h : s.system.Loaded i) (cur : Task)
    (vfs : VfsResult) : dentryHousekeepingBy s cur i vfs = some s := by
  have hpipe : inodeHousekeeping (s.system.task cur) (s.system.inode i) (s.system.data i) =
      s.system.data i := by
    simp [inodeHousekeeping, h.notPipe]
  have hfetch : fetchLabel (s.system.disk i) (s.system.data i) = some (s.system.data i) := by
    simp [fetchLabel, h.checked]
  have hflush : flushLabel vfs (s.system.disk i) (s.system.data i) =
      (s.system.data i, s.system.disk i) := by
    simp [flushLabel, h.flushed]
  simp only [dentryHousekeepingBy, dentryHousekeeping, hpipe, hfetch, hflush,
    Option.bind_eq_bind, Option.bind_some, setLabel_self]

/-- A value that does not authenticate gets past the hook only under a
name outside the root. -/
theorem trmInodeSetxattr_unauthentic {A : Gcm} (env : InstallEnv) (cap : Int) {s : Lsm} (i : Nat)
    (name : List UInt8) {value : List UInt8} (h : authenticates A s.aesKey value = false) :
    ∃ rc, trmInodeSetxattr A env cap s i name value = some (s, rc) ∧
      (rc = 0 → ¬ xattrRoot <+: name) := by
  unfold trmInodeSetxattr
  split
  · unfold trmInodeSetxattrInstall
    rw [xattrEnclaveInstallation_unauthentic env i h]
    split
    · exact ⟨_, rfl, fun h => absurd h (by decide)⟩
    · exact ⟨_, rfl, fun h => absurd h (by decide)⟩
  · split
    · rename_i hroot
      refine ⟨cap, rfl, fun _ hpre => ?_⟩
      rw [(strncmpEq_root name).mpr hpre] at hroot
      cases hroot
    · exact ⟨_, rfl, fun h => absurd h (by decide)⟩

theorem trmInodeRemovexattr_loaded (cap : Int) {s : Lsm} {i : Nat} (h : s.system.Loaded i)
    (cur : Task) (vfs : VfsResult) (name : List UInt8) :
    ∃ rc, trmInodeRemovexattr cap s cur i vfs name = some (s, rc) ∧
      (rc = 0 → ¬ xattrRoot <+: name) := by
  simp only [trmInodeRemovexattr, dentryHousekeeping_loaded h, Option.bind_eq_bind,
    Option.bind_some]
  split
  · rename_i hroot
    refine ⟨cap, rfl, fun _ hpre => ?_⟩
    rw [(strncmpEq_root name).mpr hpre] at hroot
    cases hroot
  · exact ⟨_, rfl, fun h => absurd h (by decide)⟩

/-- Outside the root a store changes no attribute inside. -/
theorem put_other {s : XattrSystem} {i : Nat} {name : List UInt8} (h : ¬ xattrRoot <+: name)
    (value : Option (List UInt8)) :
    (s.put i name value).lsm = s.lsm ∧
      ∀ j n, xattrRoot <+: n → (s.put i name value).other j n = s.other j n := by
  obtain ⟨hrealm, hident⟩ := ne_label_of_not_root h
  rw [XattrSystem.put, if_neg hrealm, if_neg hident]
  refine ⟨rfl, fun j n hn => ?_⟩
  have hne : n ≠ name := fun heq => h (heq ▸ hn)
  by_cases hj : j = i
  · subst hj
    simp [hne]
  · simp [hj]

/-- What one call can do. -/
structure XattrSystem.Untouched (s s' : XattrSystem) : Prop where
  lsm : s'.lsm = s.lsm
  other : ∀ i name, xattrRoot <+: name → s'.other i name = s.other i name

theorem xattrCall_untouched {A : Gcm} {s : XattrSystem} {c : XattrCall}
    (hload : s.lsm.system.Loaded c.inode)
    (hauth : ∀ value ∈ c.value, authenticates A s.lsm.aesKey value = false) :
    ∃ s' r changed, xattrCall A s c = some (s', r, changed) ∧ s.Untouched s' ∧
      (changed = true → ¬ xattrRoot <+: c.name) := by
  cases c with
  | setxattr cur i name value cap io env vfs =>
    obtain ⟨rc, hhook, hname⟩ := trmInodeSetxattr_unauthentic env cap i name (hauth value rfl)
    simp only [xattrCall, hhook, Option.bind_eq_bind, Option.bind_some]
    split
    · exact ⟨s, rc, false, rfl, ⟨rfl, fun _ _ _ => rfl⟩, by simp⟩
    rename_i hrc
    split
    · exact ⟨s, io, false, rfl, ⟨rfl, fun _ _ _ => rfl⟩, by simp⟩
    obtain ⟨hlsm, hother⟩ := put_other (s := s) (i := i) (hname (not_not.mp hrc)) (some value)
    have hpost : trmInodePostSetxattr (s.put i name (some value)).lsm cur i vfs = some s.lsm := by
      rw [hlsm]
      exact dentryHousekeeping_loaded hload cur vfs
    rw [hpost]
    exact ⟨_, 0, true, rfl, ⟨rfl, hother⟩, fun _ => hname (not_not.mp hrc)⟩
  | removexattr cur i name cap io vfs =>
    replace hload : s.lsm.system.Loaded i := hload
    obtain ⟨rc, hhook, hname⟩ := trmInodeRemovexattr_loaded cap hload cur vfs name
    simp only [xattrCall, hhook, Option.bind_eq_bind, Option.bind_some]
    split
    · exact ⟨s, rc, false, rfl, ⟨rfl, fun _ _ _ => rfl⟩, by simp⟩
    rename_i hrc
    split
    · exact ⟨s, io, false, rfl, ⟨rfl, fun _ _ _ => rfl⟩, by simp⟩
    obtain ⟨hlsm, hother⟩ := put_other (s := s) (i := i) (hname (not_not.mp hrc)) none
    exact ⟨_, 0, true, rfl, ⟨hlsm, hother⟩, fun _ => hname (not_not.mp hrc)⟩

/-! ## Runs -/

/-- The induction, from any point of a run. -/
theorem xattrRun_untouched {A : Gcm} {calls : List XattrCall} :
    ∀ {s : XattrSystem} {log : List (Nat × List UInt8)},
      (∀ c ∈ calls, s.lsm.system.Loaded c.inode) →
      (∀ c ∈ calls, ∀ value ∈ c.value, authenticates A s.lsm.aesKey value = false) →
      (∀ e ∈ log, ¬ xattrRoot <+: e.2) →
      ∃ s' log', calls.foldlM (xattrStep A) (s, log) = some (s', log') ∧ s.Untouched s' ∧
        ∀ e ∈ log', ¬ xattrRoot <+: e.2 := by
  induction calls with
  | nil => exact fun _ _ hlog => ⟨_, _, rfl, ⟨rfl, fun _ _ _ => rfl⟩, hlog⟩
  | cons c calls ih =>
    intro s log hload hauth hlog
    obtain ⟨s₁, r, changed, hcall, hsame, hname⟩ :=
      xattrCall_untouched (hload c List.mem_cons_self) (hauth c List.mem_cons_self)
    have hlog₁ : ∀ e ∈ (if changed then log ++ [(c.inode, c.name)] else log),
        ¬ xattrRoot <+: e.2 := by
      intro e he
      cases changed with
      | false => exact hlog e he
      | true =>
        rcases List.mem_append.mp he with he | he
        · exact hlog e he
        · rw [List.mem_singleton.mp he]
          exact hname rfl
    obtain ⟨s', log', hrun, hsame', hlog'⟩ := ih (s := s₁)
      (fun d hd => hsame.lsm ▸ hload d (List.mem_cons_of_mem c hd))
      (fun d hd => hsame.lsm ▸ hauth d (List.mem_cons_of_mem c hd)) hlog₁
    refine ⟨s', log', ?_, ⟨hsame'.lsm.trans hsame.lsm, fun i name hn => ?_⟩, hlog'⟩
    · rw [List.foldlM_cons, xattrStep, hcall]
      exact hrun
    · rw [hsame'.other i name hn, hsame.other i name hn]

/-- Every sequence of attribute calls on loaded labels, with no value that
authenticates, comes to its end; it leaves every attribute under
`security.citadel` and every blob as they were, and stores or removes none
such at a caller's request. -/
theorem labels_not_editable {A : Gcm} {s : XattrSystem} {calls : List XattrCall}
    (hload : ∀ c ∈ calls, s.lsm.system.Loaded c.inode)
    (hauth : ∀ c ∈ calls, ∀ value ∈ c.value, authenticates A s.lsm.aesKey value = false) :
    ∃ s' log, xattrRun A s calls = some (s', log) ∧
      (∀ i name, xattrRoot <+: name → s'.get i name = s.get i name) ∧
      (∀ i, s'.lsm.system.data i = s.lsm.system.data i) ∧
      ∀ e ∈ log, ¬ xattrRoot <+: e.2 := by
  obtain ⟨s', log, hrun, hsame, hlog⟩ :=
    xattrRun_untouched hload hauth
      (show ∀ e ∈ ([] : List (Nat × List UInt8)), ¬ xattrRoot <+: e.2 by simp)
  refine ⟨s', log, hrun, fun i name hn => ?_, fun i => by rw [hsame.lsm], hlog⟩
  rw [XattrSystem.get, XattrSystem.get, hsame.lsm, hsame.other i name hn]

/-- The secret file, loaded, under a registered module. -/
def loadedSecret : XattrSystem :=
  ⟨⟨{ idleSystem with
      data := fun _ => ⟨true, false, true, false, false, fill _ 9⟩
      disk := fun _ => ⟨true, some (ascii "09090909090909090909090909090909")⟩ },
    zeros _, zeros _, fill _ 3, fill _ 1, true⟩, fun _ _ => none⟩

/-- A label set by hand, a forged install message, a label removed, and an
attribute that is none of the module's business. -/
def handWritten : List XattrCall :=
  [.setxattr ⟨8, 1⟩ 0 xattrInRealm [] 0 0 .ok ⟨true, true⟩,
    .setxattr ⟨8, 1⟩ 0 xattrInstall (List.replicate 80 7) 0 0 .ok ⟨true, true⟩,
    .removexattr ⟨8, 1⟩ 0 xattrIdentifier 0 0 ⟨true, true⟩,
    .setxattr ⟨8, 1⟩ 0 (ascii "user.note") [1] 0 0 .ok ⟨true, true⟩]

theorem handWritten_leaves_label :
    ∃ s' log, xattrRun (Aead.keyTag _ _) loadedSecret handWritten = some (s', log) ∧
      (s'.lsm.system.data 0).inRealm = true ∧
      s'.get 0 xattrIdentifier = some (ascii "09090909090909090909090909090909") := by
  obtain ⟨s', log, hrun, hget, hdata, -⟩ := labels_not_editable (A := Aead.keyTag _ _)
    (show ∀ c ∈ handWritten, loadedSecret.lsm.system.Loaded c.inode from
      fun c _ => ⟨fun h => Magic.noConfusion h, rfl, rfl⟩) (by decide +kernel)
  refine ⟨s', log, hrun, by rw [hdata]; rfl, ?_⟩
  rw [hget 0 xattrIdentifier (List.isPrefixOf_iff_prefix.mp (by decide))]
  rfl

end Citadel
