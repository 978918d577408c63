/-
Citadel.Lsm.RealmFlow — how the events of the module take things into the
realm, one event at a time.

Four kinds of things can be in the realm: the blob of an inode, the
attributes of an inode on disk, a credential and a shared memory segment
(`Place`). The code that sets one of these flags is spread over all the
hooks. `RealmPath` has the ways in which the flag passes from one thing to
another, `RealmRoot` those in which it comes from nowhere, and
`monitorStep_moved` says that there are no others: each hook has its lemma,
from what `dentry_housekeeping`, an installation or a ticketed access does
to the flags.
-/
import Citadel.Lsm.Installation
import Citadel.Lsm.Monitor
import Citadel.Lsm.Provenance

namespace Citadel

open Bytes

/-! ## Things in the realm -/

inductive Place where
  | blob (i : Nat)
  | disk (i : Nat)
  | cred (c : Nat)
  | segment (j : Nat)
  deriving DecidableEq

def Monitor.inRealm (m : Monitor) : Place → Bool
  | .blob i => (m.system.data i).inRealm
  | .disk i => (m.system.disk i).inRealm
  | .cred c => (m.system.kernel.cred c).inRealm
  | .segment j => (m.segment j).data.inRealm

/-- The value decrypts under the module's key to a message whose record
registers. -/
structure Registering (A : Gcm) (s : Lsm) (value : List UInt8) : Prop where
  registered : s.registered = true
  authentic : authenticates A s.aesKey value = true
  registers : ∃ rcrd, UpdateRecord.read
      (plainBuffer value.length (trmAesDecrypt A true s.aesKey value)) updateHeaderSize =
        some rcrd ∧ rcrd.operation.has opRegister = true

/-- The event is the attribute call that hands such a value in, on the
inode `i`. -/
def Registers (A : Gcm) (m : Monitor) (e : MonitorEvent) (i : Nat) : Prop :=
  ∃ cur value cap io env vfs,
    e = .xattr (.setxattr cur i xattrInstall value cap io env vfs) ∧ Registering A m.lsm value

/-- How something gets into the realm without another thing that is there. -/
inductive RealmRoot (A : Gcm) (m : Monitor) (e : MonitorEvent) : Place → Prop
  | blob {i : Nat} : Registers A m e i → RealmRoot A m e (.blob i)
  | disk {i : Nat} : Registers A m e i → RealmRoot A m e (.disk i)
  | freed {j : Nat} : e = .shmFree j → RealmRoot A m e (.segment j)

/-- The inode of which an event does the `dentry_housekeeping`. -/
def MonitorEvent.dentry : MonitorEvent → Option Nat
  | .file _ _ i _ _ => some i
  | .ioctl _ i _ _ => some i
  | .instantiate _ i _ => i
  | .attributeRead _ _ i _ => some i
  | .xattr call => some call.inode
  | _ => none

/-- How an event passes the realm on, from the first place to the second. -/
inductive RealmPath (m : Monitor) : MonitorEvent → Place → Place → Prop
  | fetched {e : MonitorEvent} {i : Nat} : e.dentry = some i → RealmPath m e (.disk i) (.blob i)
  | flushed {e : MonitorEvent} {i : Nat} : e.dentry = some i → RealmPath m e (.blob i) (.disk i)
  /-- With a ticket, into an inode that is in the realm or whose label is
  just being read. -/
  | opened {hook : Hook} {cur : Task} {i : Nat} {now : Int} {vfs : VfsResult} {d : System}
      {y : Place} : hook.prepare m.system cur i now vfs = some d →
      d.ticketed cur i opOpen = true → y = .blob i ∨ y = .disk i →
      RealmPath m (.file hook cur i now vfs) y (.cred cur.cred)
  | created {cur : Task} {i dir : Nat} {y : Place} : y = .blob dir ∨ y = .cred cur.cred →
      RealmPath m (.initSecurity cur i dir) y (.blob i)
  | copied {c c' : Nat} {random : Identifier} :
      RealmPath m (.initTask c random (some c')) (.cred c') (.cred c)
  | socketCreated {cur : Task} {i : Nat} {now : Int} :
      RealmPath m (.socketCreate cur i now) (.cred cur.cred) (.blob i)
  | paired {cur : Task} {a b : Nat} {now : Int} {x y : Place} :
      y = .cred cur.cred ∨ y = .blob a → x = .blob a ∨ x = .blob b →
      RealmPath m (.socketPair cur a b now) y x
  /-- A socket of sockfs gives the caller nothing. -/
  | socket {hook : SocketHook} {cur : Task} {i : Nat} {now : Int} {x y : Place} :
      y = .cred cur.cred ∨ y = .blob i →
      (x = .cred cur.cred ∧ (m.system.inode i).magic ≠ .sockfs) ∨ x = .blob i ∨
        (∃ new, hook = .accept new ∧ x = .blob new) →
      RealmPath m (.socket hook cur i now) y x
  | attached {hook : ShmHook} {env : ShmEnv} {cur : Task} {j : Nat} :
      m.ipc.ticketed cur j = true →
      RealmPath m (.shm hook env cur (some j)) (.segment j) (.cred cur.cred)
  | shared {hook : ShmHook} {env : ShmEnv} {cur : Task} {j : Nat} :
      m.ipc.ticketed cur j = true →
      RealmPath m (.shm hook env cur (some j)) (.cred cur.cred) (.segment j)

/-- Reading the identifier off the disk ends, and what it gives fills an
identifier. -/
def Xattrs.readable (disk : Xattrs) : Bool :=
  match getXattrIdentifier disk with
  | none => false
  | some none => true
  | some (some identifier) => decide (identifierLength ≤ identifier.length)

/-- What an event leaves behind: a sound cache, labels that can be read if
they could be before, and nothing in the realm that it did not put there
in one of these ways. -/
structure Moved (A : Gcm) (m m' : Monitor) (e : MonitorEvent) : Prop where
  wf : m'.system.kernel.Wf
  readable : ∀ i, (m.system.disk i).readable = true → (m'.system.disk i).readable = true
  passes : ∀ x, m'.inRealm x = true →
    m.inRealm x = true ∨ RealmRoot A m e x ∨ ∃ y, RealmPath m e y x ∧ m.inRealm y = true

variable {A : Gcm}

/-! ## Labels -/

/-- A flag after one entry of a table was written. -/
theorem update_from {α : Type} {f : Nat → α} (flag : α → Bool) {i : Nat} {a : α} {Q : Prop}
    (h : flag a = true → flag (f i) = true ∨ Q) {j : Nat}
    (hj : flag (Function.update f i a j) = true) : flag (f j) = true ∨ j = i ∧ Q := by
  by_cases hi : j = i
  · subst hi
    rw [Function.update_self] at hj
    exact (h hj).imp id fun hq => ⟨rfl, hq⟩
  · rw [Function.update_of_ne hi] at hj
    exact .inl hj

theorem update_keeps {α : Type} {f : Nat → α} (flag : α → Bool) {i : Nat} {a : α}
    (h : flag (f i) = true → flag a = true) {j : Nat} (hj : flag (f j) = true) :
    flag (Function.update f i a j) = true := by
  by_cases hi : j = i
  · subst hi
    rw [Function.update_self]
    exact h hj
  · rwa [Function.update_of_ne hi]

theorem readable_congr {disk disk' : Xattrs} (h : disk'.identifier = disk.identifier) :
    disk'.readable = disk.readable := by
  rw [Xattrs.readable, Xattrs.readable, getXattrIdentifier, getXattrIdentifier, h]

/-- Both forms in which the module stores an identifier can be read. -/
theorem readable_digits {disk : Xattrs} {identifier : Identifier} {k : Nat} (hk : k ≤ 1)
    (h : disk.identifier = some (hexDigits identifier.1 ++ List.replicate k 0)) :
    disk.readable = true := by
  rw [Xattrs.readable, getXattrIdentifier_digits hk h]
  simp [identifier.2]

theorem setInRealm_readable (disk : Xattrs) (ok : Bool) :
    (disk.setInRealm ok).readable = disk.readable := by
  cases ok <;> exact readable_congr rfl

theorem setIdentifier_readable {disk : Xattrs} (identifier : Identifier) (ok : Bool)
    (h : disk.readable = true) : (disk.setIdentifier identifier ok).readable = true := by
  rw [Xattrs.setIdentifier, toHexstring_eq (by rw [identifier.2]; decide)]
  cases ok with
  | false => exact h
  | true => exact readable_digits (k := 1) (Nat.le_refl 1) rfl

theorem installIdentifier_readable {disk : Xattrs} (identifier : Identifier) (ok : Bool)
    (h : disk.readable = true) : (disk.installIdentifier identifier ok).readable = true := by
  cases ok with
  | false =>
    unfold Xattrs.installIdentifier
    split <;> exact h
  | true =>
    rw [installIdentifier_eq]
    have hdigits : some (hexDigits identifier.1) =
        some (hexDigits identifier.1 ++ List.replicate 0 0) := by simp
    exact readable_digits (Nat.zero_le 1) hdigits

/-- What happens to the labels in a `dentry_housekeeping` of `i`. -/
structure Relabelled (s s' : System) (i : Nat) : Prop where
  readable : ∀ j, (s.disk j).readable = true → (s'.disk j).readable = true
  data : ∀ j, (s'.data j).inRealm = true →
    (s.data j).inRealm = true ∨ j = i ∧ (s.disk i).inRealm = true
  disk : ∀ j, (s'.disk j).inRealm = true →
    (s.disk j).inRealm = true ∨ j = i ∧ (s.data i).inRealm = true

theorem fetchLabel_from {disk : Xattrs} {data data' : InodeData}
    (h : fetchLabel disk data = some data') (hrealm : data'.inRealm = true) :
    data.inRealm = true ∨ disk.inRealm = true := by
  unfold fetchLabel at h
  split at h
  · split at h
    · exact .inr ‹_›
    · cases h
      exact .inl hrealm
  · cases h
    exact .inl hrealm

theorem flushLabel_from {vfs : VfsResult} {disk : Xattrs} {data : InodeData}
    (hrealm : (flushLabel vfs disk data).2.inRealm = true) :
    disk.inRealm = true ∨ data.inRealm = true := by
  unfold flushLabel at hrealm
  split at hrealm
  · exact .inr ‹_›
  · exact .inl hrealm

theorem flushLabel_readable {vfs : VfsResult} {disk : Xattrs} {data : InodeData}
    (h : disk.readable = true) : (flushLabel vfs disk data).2.readable = true := by
  have hrealm : (disk.setInRealm vfs.inRealm).readable = true := by rwa [setInRealm_readable]
  unfold flushLabel
  split
  · split
    · dsimp only
      split
      · exact hrealm
      · exact setIdentifier_readable _ _ hrealm
    · exact h
  · exact h

theorem dentryHousekeeping_from {task : TaskData} {inode : Inode} {vfs : VfsResult} {disk : Xattrs}
    {data : InodeData} {out : InodeData × Xattrs}
    (h : dentryHousekeeping task inode vfs disk data = some out) :
    (out.1.inRealm = true → data.inRealm = true ∨ disk.inRealm = true) ∧
      (out.2.inRealm = true → disk.inRealm = true ∨ data.inRealm = true) ∧
      (disk.readable = true → out.2.readable = true) := by
  obtain ⟨d, hfetch, hflush⟩ := Option.bind_eq_some_iff.mp h
  have hd : d.inRealm = true → data.inRealm = true ∨ disk.inRealm = true := by
    intro hrealm
    have hfrom := fetchLabel_from hfetch hrealm
    rwa [inodeHousekeeping_inRealm] at hfrom
  cases hflush
  refine ⟨?_, ?_, flushLabel_readable⟩
  · rw [flushLabel_inRealm]
    exact hd
  · intro hrealm
    rcases flushLabel_from hrealm with hdisk | hdata
    · exact .inl hdisk
    · exact (hd hdata).symm

/-- A label written for one inode. -/
theorem relabelled_update {s s' : System} {i : Nat} {data : InodeData} {disk : Xattrs}
    (hdata' : s'.data = Function.update s.data i data)
    (hdisk' : s'.disk = Function.update s.disk i disk)
    (hdata : data.inRealm = true → (s.data i).inRealm = true ∨ (s.disk i).inRealm = true)
    (hdisk : disk.inRealm = true → (s.disk i).inRealm = true ∨ (s.data i).inRealm = true)
    (hread : (s.disk i).readable = true → disk.readable = true) : Relabelled s s' i := by
  refine ⟨?_, ?_, ?_⟩
  · intro j hreadable
    rw [hdisk']
    exact update_keeps Xattrs.readable hread hreadable
  · intro j hrealm
    rw [hdata'] at hrealm
    exact update_from InodeData.inRealm hdata hrealm
  · intro j hrealm
    rw [hdisk'] at hrealm
    exact update_from Xattrs.inRealm hdisk hrealm

theorem dentryHousekeepingBy_relabelled {s s' : Lsm} {cur : Task} {i : Nat} {vfs : VfsResult}
    (h : dentryHousekeepingBy s cur i vfs = some s') :
    s'.system.kernel = s.system.kernel ∧ Relabelled s.system s'.system i := by
  obtain ⟨⟨data, disk⟩, hlabel, hs⟩ := Option.bind_eq_some_iff.mp h
  cases hs
  obtain ⟨hdata, hdisk, hread⟩ := dentryHousekeeping_from hlabel
  exact ⟨rfl, relabelled_update rfl rfl hdata hdisk hread⟩

theorem Hook.prepare_relabelled {hook : Hook} {s s₁ : System} {cur : Task} {i : Nat} {now : Int}
    {vfs : VfsResult} (h : hook.prepare s cur i now vfs = some s₁) : Relabelled s s₁ i := by
  have hdentry : prepareDentry s cur i now vfs = some s₁ → Relabelled s s₁ i := by
    intro h
    obtain ⟨k, -, hs⟩ := Option.bind_eq_some_iff.mp h
    obtain ⟨⟨data, disk⟩, hlabel, hs⟩ := Option.bind_eq_some_iff.mp hs
    cases hs
    obtain ⟨hdata, hdisk, hread⟩ := dentryHousekeeping_from hlabel
    exact relabelled_update rfl rfl hdata hdisk hread
  cases hook with
  | inodePermission =>
    obtain ⟨k, -, hs⟩ := Option.bind_eq_some_iff.mp h
    cases hs
    have hdisk := (Function.update_eq_self i s.disk).symm
    refine relabelled_update rfl hdisk ?_ .inl id
    rw [inodeHousekeeping_inRealm]
    exact .inl
  | fileOpen => exact hdentry h
  | filePermission => exact hdentry h

/-! ## Events on labels -/

/-- An event that does a `dentry_housekeeping` and moves no taint between
tasks and segments. -/
theorem Relabelled.moved {m m' : Monitor} {e : MonitorEvent} {i : Nat}
    (h : Relabelled m.system m'.system i) (hdentry : e.dentry = some i)
    (hwf : m'.system.kernel.Wf)
    (hcred : ∀ c, (m'.system.kernel.cred c).inRealm = (m.system.kernel.cred c).inRealm)
    (hsegment : m'.segment = m.segment) : Moved A m m' e := by
  refine ⟨hwf, h.readable, ?_⟩
  intro x hx
  cases x with
  | blob j =>
    rcases h.data j hx with hold | ⟨rfl, hfrom⟩
    · exact .inl hold
    · exact .inr (.inr ⟨.disk j, .fetched hdentry, hfrom⟩)
  | disk j =>
    rcases h.disk j hx with hold | ⟨rfl, hfrom⟩
    · exact .inl hold
    · exact .inr (.inr ⟨.blob j, .flushed hdentry, hfrom⟩)
  | cred c =>
    rw [Monitor.inRealm, hcred] at hx
    exact .inl hx
  | segment j =>
    rw [Monitor.inRealm, hsegment] at hx
    exact .inl hx

/-- An event that changes no flag. -/
theorem Moved.same {m m' : Monitor} {e : MonitorEvent} (hwf : m'.system.kernel.Wf)
    (hdata : m'.system.data = m.system.data) (hdisk : m'.system.disk = m.system.disk)
    (hcred : ∀ c, (m'.system.kernel.cred c).inRealm = (m.system.kernel.cred c).inRealm)
    (hsegment : m'.segment = m.segment) : Moved A m m' e := by
  refine ⟨hwf, by rw [hdisk]; exact fun _ h => h, ?_⟩
  intro x hx
  refine .inl ?_
  cases x with
  | blob i => rwa [Monitor.inRealm, hdata] at hx
  | disk i => rwa [Monitor.inRealm, hdisk] at hx
  | cred c => rwa [Monitor.inRealm, hcred] at hx
  | segment j => rwa [Monitor.inRealm, hsegment] at hx

theorem housekeep_spec {s s' : System} {cur : Task} {now : Int} (hwf : s.kernel.Wf)
    (h : s.housekeep cur now = some s') :
    ∃ k, s' = { s with kernel := k } ∧ k.Wf ∧
      ∀ c, (k.cred c).inRealm = (s.kernel.cred c).inRealm := by
  obtain ⟨k, hrun, hs⟩ := Option.bind_eq_some_iff.mp h
  cases hs
  obtain ⟨k', hrun', hwf', -, hcred⟩ := taskHousekeeping_wf hwf cur now
  obtain rfl : k' = k := Option.some.inj (hrun'.symm.trans hrun)
  exact ⟨k', rfl, hwf', fun c => (hcred c).1⟩

theorem file_moved {m : Monitor} (hwf : m.system.kernel.Wf) {hook : Hook} {cur : Task} {i : Nat}
    {now : Int} {vfs : VfsResult} {out : System × Int}
    (h : hook.call m.system cur i now vfs = some out) :
    Moved A m (m.setSystem out.1) (.file hook cur i now vfs) := by
  obtain ⟨d, hprep, hp, hwf', hdec, hstate⟩ := Hook.call_cases hwf h
  have hrel := hook.prepare_relabelled hprep
  obtain ⟨k, hrun, -, -, hcred⟩ := taskHousekeeping_wf hwf cur now
  obtain rfl : k = d.kernel := Option.some.inj (hrun.symm.trans hp.kernel)
  have hlabels : out.1.data = d.data ∧ out.1.disk = d.disk := by
    rcases hstate with hsame | htaint
    · rw [hsame]
      exact ⟨rfl, rfl⟩
    · rw [htaint]
      exact ⟨rfl, rfl⟩
  have hwfOut : out.1.kernel.Wf := by
    rcases hstate with hsame | htaint
    · rw [hsame]
      exact hwf'
    · rw [htaint]
      exact setCred_wf hwf' rfl
  have hread : ∀ j, (m.system.disk j).readable = true → (out.1.disk j).readable = true := by
    rw [hlabels.2]
    exact hrel.readable
  refine ⟨hwfOut, hread, ?_⟩
  intro x hx
  cases x with
  | blob j =>
    have hj : (d.data j).inRealm = true := by
      rw [← hlabels.1]
      exact hx
    rcases hrel.data j hj with hold | ⟨rfl, hfrom⟩
    · exact .inl hold
    · exact .inr (.inr ⟨.disk j, .fetched rfl, hfrom⟩)
  | disk j =>
    have hj : (d.disk j).inRealm = true := by
      rw [← hlabels.2]
      exact hx
    rcases hrel.disk j hj with hold | ⟨rfl, hfrom⟩
    · exact .inl hold
    · exact .inr (.inr ⟨.blob j, .flushed rfl, hfrom⟩)
  | cred c =>
    by_cases hold : (d.kernel.cred c).inRealm = true
    · rw [hcred c |>.1] at hold
      exact .inl hold
    · obtain ⟨rfl, hrealm, hticket⟩ :=
        decideAccess_taints hwf'.ringed hdec (Bool.eq_false_iff.mpr hold) hx
      rcases hrel.data i hrealm with hblob | ⟨-, hdisk⟩
      · exact .inr (.inr ⟨.blob i, .opened hprep hticket (.inl rfl), hblob⟩)
      · exact .inr (.inr ⟨.disk i, .opened hprep hticket (.inr rfl), hdisk⟩)
  | segment j => exact .inl hx

/-! ## The install attribute -/

/-- Flags of inodes in `s'` are from `s`, or there is a reason for them; what
could be read still can. -/
structure FlaggedBy (Q : Nat → Prop) (s s' : System) : Prop where
  readable : ∀ j, (s.disk j).readable = true → (s'.disk j).readable = true
  data : ∀ j, (s'.data j).inRealm = true → (s.data j).inRealm = true ∨ Q j
  disk : ∀ j, (s'.disk j).inRealm = true → (s.disk j).inRealm = true ∨ Q j

theorem FlaggedBy.refl (Q : Nat → Prop) (s : System) : FlaggedBy Q s s :=
  ⟨fun _ h => h, fun _ h => .inl h, fun _ h => .inl h⟩

theorem FlaggedBy.mono {Q Q' : Nat → Prop} {s s' : System} (h : FlaggedBy Q s s')
    (himp : ∀ j, Q j → Q' j) : FlaggedBy Q' s s' :=
  ⟨h.readable, fun j hj => (h.data j hj).imp id (himp j),
    fun j hj => (h.disk j hj).imp id (himp j)⟩

/-- A label written for one inode. -/
theorem flaggedBy_setLabel {s s' : Lsm} {i : Nat} {Q : Prop} {data : InodeData} {disk : Xattrs}
    (hs' : s'.system = (s.setLabel i data disk).system)
    (hdata : data.inRealm = true → (s.system.data i).inRealm = true ∨ Q)
    (hdisk : disk.inRealm = true → (s.system.disk i).inRealm = true ∨ Q)
    (hread : (s.system.disk i).readable = true → disk.readable = true) :
    FlaggedBy (fun j => j = i ∧ Q) s.system s'.system := by
  refine ⟨?_, ?_, ?_⟩
  · intro j hreadable
    rw [hs']
    exact update_keeps Xattrs.readable hread hreadable
  · intro j hrealm
    rw [hs'] at hrealm
    exact update_from InodeData.inRealm hdata hrealm
  · intro j hrealm
    rw [hs'] at hrealm
    exact update_from Xattrs.inRealm hdisk hrealm

theorem declassify_flags {env : InstallEnv} {s s' : Lsm} {i : Nat} {hdr : UpdateHeader} {r : Int}
    (h : declassify env s i hdr = some (s', r)) :
    s'.system.kernel = s.system.kernel ∧
      FlaggedBy (fun j => j = i ∧ False) s.system s'.system := by
  rcases declassify_cases h with ⟨rfl, -⟩ | ⟨rfl, -⟩ | ⟨rfl, -⟩
  · exact ⟨rfl, .refl _ _⟩
  · exact ⟨rfl, flaggedBy_setLabel rfl (fun h => nomatch h) (fun h => nomatch h)
      fun h => (readable_congr rfl).trans h⟩
  · exact ⟨rfl, flaggedBy_setLabel rfl .inl .inl id⟩

theorem induct_flags {env : InstallEnv} {s s' : Lsm} {i : Nat} {hdr : UpdateHeader}
    {rcrd : UpdateRecord} {r : Int} (h : induct env s i hdr rcrd = some (s', r)) :
    s'.system.kernel = s.system.kernel ∧
      FlaggedBy (fun j => j = i ∧ rcrd.operation.has opRegister = true) s.system s'.system := by
  have hdisk : (if rcrd.operation.has opRegister then
        ((s.system.disk i).installIdentifier rcrd.identifier env.setIdentifier).setInRealm
          env.setInRealm
      else (s.system.disk i).installIdentifier rcrd.identifier env.setIdentifier).inRealm = true →
        (s.system.disk i).inRealm = true ∨ rcrd.operation.has opRegister = true := by
    intro hrealm
    split at hrealm
    · exact .inr ‹_›
    · rw [installIdentifier_inRealm] at hrealm
      exact .inl hrealm
  have hread : (s.system.disk i).readable = true → (if rcrd.operation.has opRegister then
        ((s.system.disk i).installIdentifier rcrd.identifier env.setIdentifier).setInRealm
          env.setInRealm
      else (s.system.disk i).installIdentifier rcrd.identifier env.setIdentifier).readable =
        true := by
    intro hreadable
    have hinstalled := installIdentifier_readable rcrd.identifier env.setIdentifier hreadable
    split
    · rwa [setInRealm_readable]
    · exact hinstalled
  unfold induct at h
  dsimp only at h
  split at h
  · cases h
  split at h
  · cases h
    exact ⟨rfl, flaggedBy_setLabel rfl .inr hdisk hread⟩
  · cases h
    exact ⟨rfl, flaggedBy_setLabel rfl .inl hdisk hread⟩

theorem trmAesDecrypt_alloc {alloc : Bool} {key : AesKey} {data out : List UInt8}
    (h : trmAesDecrypt A alloc key data = some out) : trmAesDecrypt A true key data = some out := by
  cases alloc with
  | true => exact h
  | false => cases h

theorem xattrEnclaveInstallation_flags {env : InstallEnv} {s s' : Lsm} {i : Nat}
    {value : List UInt8} {r : Int} (h : xattrEnclaveInstallation A env s i value = some (s', r)) :
    s'.system.kernel = s.system.kernel ∧
      FlaggedBy (fun j => j = i ∧ Registering A s value) s.system s'.system := by
  unfold xattrEnclaveInstallation at h
  split at h
  · cases h
    exact ⟨rfl, .refl _ _⟩
  rename_i hregistered
  split at h
  · cases h
    exact ⟨rfl, .refl _ _⟩
  split at h
  · cases h
    exact ⟨rfl, .refl _ _⟩
  rename_i out hdec
  split at h
  · cases h
  obtain ⟨hdr, -, h⟩ := Option.bind_eq_some_iff.mp h
  split at h
  · cases h
    exact ⟨rfl, .refl _ _⟩
  split at h
  · cases h
    exact ⟨rfl, .refl _ _⟩
  obtain ⟨rcrd, hrcrd, h⟩ := Option.bind_eq_some_iff.mp h
  split at h
  · obtain ⟨hkernel, hflags⟩ := declassify_flags h
    exact ⟨hkernel, hflags.mono fun _ hj => hj.2.elim⟩
  · obtain ⟨hkernel, hflags⟩ := induct_flags h
    refine ⟨hkernel, hflags.mono ?_⟩
    rintro j ⟨rfl, hop⟩
    have hdec' := trmAesDecrypt_alloc hdec
    refine ⟨rfl, by simpa using hregistered, ?_, rcrd, ?_, hop⟩
    · rw [authenticates, hdec']
      rfl
    · rw [hdec']
      exact hrcrd

/-! ## Attribute calls -/

theorem trmInodeSetxattr_flags {env : InstallEnv} {cap : Int} {s : Lsm} {i : Nat}
    {name value : List UInt8} {out : Lsm × Int}
    (h : trmInodeSetxattr A env cap s i name value = some out) :
    (out.1 = s ∧ (out.2 = 0 → ¬ xattrRoot <+: name)) ∨
      name = xattrInstall ∧ out.2 ≠ 0 ∧ out.1.system.kernel = s.system.kernel ∧
        FlaggedBy (fun j => j = i ∧ Registering A s value) s.system out.1.system := by
  unfold trmInodeSetxattr at h
  split at h
  · rename_i hname
    refine .inr ⟨hname, ?_⟩
    unfold trmInodeSetxattrInstall at h
    split at h
    · obtain ⟨⟨s', r⟩, hinstall, h⟩ := Option.bind_eq_some_iff.mp h
      cases h
      refine ⟨?_, xattrEnclaveInstallation_flags hinstall⟩
      dsimp only
      split <;> decide
    · cases h
      exact ⟨(by decide : ecanceled ≠ 0), rfl, .refl _ _⟩
  · split at h
    · rename_i hroot
      cases h
      refine .inl ⟨rfl, fun _ hpre => ?_⟩
      rw [(strncmpEq_root name).mpr hpre] at hroot
      cases hroot
    · cases h
      exact .inl ⟨rfl, fun hzero => absurd hzero (by decide : eperm ≠ 0)⟩

/-- An event in which the inode is registered, or nothing happens to it. -/
theorem FlaggedBy.moved {m : Monitor} (hwf : m.system.kernel.Wf) {lsm : Lsm} {cur : Task} {i : Nat}
    {value : List UInt8} {cap io : Int} {env : InstallEnv} {vfs : VfsResult}
    (hkernel : lsm.system.kernel = m.system.kernel)
    (h : FlaggedBy (fun j => j = i ∧ Registering A m.lsm value) m.system lsm.system) :
    Moved A m { m with lsm := lsm }
      (.xattr (.setxattr cur i xattrInstall value cap io env vfs)) := by
  have hroot : Registering A m.lsm value →
      Registers A m (.xattr (.setxattr cur i xattrInstall value cap io env vfs)) i :=
    fun hreg => ⟨cur, value, cap, io, env, vfs, rfl, hreg⟩
  refine ⟨by rw [Monitor.system, hkernel]; exact hwf, h.readable, ?_⟩
  intro x hx
  cases x with
  | blob j =>
    rcases h.data j hx with hold | ⟨rfl, hreg⟩
    · exact .inl hold
    · exact .inr (.inl (.blob (hroot hreg)))
  | disk j =>
    rcases h.disk j hx with hold | ⟨rfl, hreg⟩
    · exact .inl hold
    · exact .inr (.inl (.disk (hroot hreg)))
  | cred c =>
    rw [Monitor.inRealm, Monitor.system, hkernel] at hx
    exact .inl hx
  | segment j => exact .inl hx

/-- A `dentry_housekeeping` of `i` in an event that does it, after that of
the task or without it. -/
theorem dentryHousekeepingBy_moved {m : Monitor} {k : Kernel} (hwf : k.Wf)
    (hcred : ∀ c, (k.cred c).inRealm = (m.system.kernel.cred c).inRealm) {lsm : Lsm} {cur : Task}
    {i : Nat} {vfs : VfsResult}
    (h : dentryHousekeepingBy { m.lsm with system := { m.system with kernel := k } } cur i vfs =
      some lsm)
    (other : Nat → List UInt8 → Option (List UInt8)) {e : MonitorEvent}
    (hdentry : e.dentry = some i) : Moved A m { m with lsm := lsm, other := other } e := by
  obtain ⟨hkernel, hrel⟩ := dentryHousekeepingBy_relabelled h
  have hrel' : Relabelled m.system ({ m with lsm := lsm, other := other } : Monitor).system i :=
    ⟨hrel.readable, hrel.data, hrel.disk⟩
  refine hrel'.moved hdentry ?_ ?_ rfl
  · rw [Monitor.system, hkernel]
    exact hwf
  · intro c
    rw [Monitor.system, hkernel]
    exact hcred c

theorem xattr_moved {m : Monitor} (hwf : m.system.kernel.Wf) {call : XattrCall}
    {out : XattrSystem × Int × Bool} (h : xattrCall A ⟨m.lsm, m.other⟩ call = some out) :
    Moved A m { m with lsm := out.1.lsm, other := out.1.other } (.xattr call) := by
  have hsame : ∀ other, Moved A m { m with other := other } (.xattr call) :=
    fun other => .same hwf rfl rfl (fun _ => rfl) rfl
  cases call with
  | setxattr cur i name value cap io env vfs =>
    obtain ⟨⟨lsm, rc⟩, hset, h⟩ := Option.bind_eq_some_iff.mp h
    dsimp only at h
    rcases trmInodeSetxattr_flags hset with ⟨rfl, hname⟩ | ⟨rfl, hrc, hkernel, hflags⟩
    · split at h
      · cases h
        exact hsame _
      rename_i hzero
      split at h
      · cases h
        exact hsame _
      obtain ⟨lsm', hpost, h⟩ := Option.bind_eq_some_iff.mp h
      cases h
      have hput : ((⟨m.lsm, m.other⟩ : XattrSystem).put i name (some value)).lsm = m.lsm :=
        (put_other (hname (not_not.mp hzero)) _).1
      rw [hput] at hpost
      exact dentryHousekeepingBy_moved hwf (fun _ => rfl) hpost _ rfl
    · rw [if_pos hrc] at h
      cases h
      exact hflags.moved hwf hkernel
  | removexattr cur i name cap io vfs =>
    obtain ⟨⟨lsm, rc⟩, hremove, h⟩ := Option.bind_eq_some_iff.mp h
    obtain ⟨lsm', hhouse, hremove⟩ := Option.bind_eq_some_iff.mp hremove
    have hmoved : ∀ other,
        Moved A m { m with lsm := lsm', other := other } (.xattr (.removexattr cur i name cap io vfs)) :=
      fun other => dentryHousekeepingBy_moved hwf (fun _ => rfl) hhouse other rfl
    split at hremove
    · rename_i hroot
      cases hremove
      have hname : ¬ xattrRoot <+: name := by
        intro hpre
        rw [(strncmpEq_root name).mpr hpre] at hroot
        cases hroot
      dsimp only at h
      split at h
      · cases h
        exact hmoved _
      split at h
      · cases h
        exact hmoved _
      cases h
      rw [(put_other hname none).1]
      exact hmoved _
    · cases hremove
      dsimp only at h
      rw [if_pos (by decide : eacces ≠ 0)] at h
      cases h
      exact hmoved _

theorem attributeRead_moved {m : Monitor} (hwf : m.system.kernel.Wf) {hook : AttributeHook}
    {cur : Task} {i : Nat} {vfs : VfsResult} {out : Lsm × Int}
    (h : hook.call m.lsm cur i vfs = some out) :
    Moved A m { m with lsm := out.1 } (.attributeRead hook cur i vfs) := by
  have hcall : ∃ lsm, dentryHousekeepingBy m.lsm cur i vfs = some lsm ∧ (lsm, 0) = out := by
    cases hook <;> exact Option.map_eq_some_iff.mp h
  obtain ⟨lsm, hhouse, rfl⟩ := hcall
  exact dentryHousekeepingBy_moved hwf (fun _ => rfl) hhouse _ rfl

theorem ioctl_moved {m : Monitor} (hwf : m.system.kernel.Wf) {cur : Task} {i : Nat} {now : Int}
    {vfs : VfsResult} {out : Lsm × Int} (h : trmFileIoctl m.lsm cur i now vfs = some out) :
    Moved A m { m with lsm := out.1 } (.ioctl cur i now vfs) := by
  obtain ⟨s, htask, h⟩ := Option.bind_eq_some_iff.mp h
  obtain ⟨lsm, hhouse, h⟩ := Option.bind_eq_some_iff.mp h
  cases h
  obtain ⟨k, rfl, hwf', hcred⟩ := housekeep_spec hwf htask
  exact dentryHousekeepingBy_moved hwf' hcred hhouse _ rfl

theorem instantiate_moved {m : Monitor} (hwf : m.system.kernel.Wf) {cur : Task} {i : Option Nat}
    {vfs : VfsResult} {lsm : Lsm} (h : trmDInstantiate m.lsm cur vfs i = some lsm) :
    Moved A m { m with lsm := lsm } (.instantiate cur i vfs) := by
  cases i with
  | none =>
    cases h
    exact .same hwf rfl rfl (fun _ => rfl) rfl
  | some i => exact dentryHousekeepingBy_moved hwf (fun _ => rfl) h _ rfl

/-! ## New inodes -/

theorem trmInodeAllocSecurity_inRealm (task : TaskData) (inode : Inode) :
    (trmInodeAllocSecurity task inode).inRealm = false := by
  unfold trmInodeAllocSecurity
  split
  · rfl
  · rw [inodeHousekeeping_inRealm]
    rfl

/-- Coming into memory takes an inode out of the realm, if anything. -/
theorem allocInode_moved {m : Monitor} (hwf : m.system.kernel.Wf) (cur : Task) (i : Nat)
    (created : Option Inode) :
    Moved A m (m.allocInode cur i created) (.allocInode cur i created) := by
  have hblob : ∀ inode j, ((Function.update m.system.data i
      (trmInodeAllocSecurity (m.system.task cur) inode)) j).inRealm = true →
        (m.system.data j).inRealm = true := by
    intro inode j hj
    have hfrom := update_from InodeData.inRealm (Q := False)
      (fun h => by rw [trmInodeAllocSecurity_inRealm] at h; cases h) hj
    exact hfrom.elim id fun h => h.2.elim
  refine ⟨?_, ?_, ?_⟩
  · cases created <;> exact hwf
  · cases created with
    | none => exact fun _ h => h
    | some inode => exact fun j hj => update_keeps Xattrs.readable (fun _ => rfl) hj
  · intro x hx
    refine .inl ?_
    cases created with
    | none =>
      cases x with
      | blob j => exact hblob _ j hx
      | disk j => exact hx
      | cred c => exact hx
      | segment j => exact hx
    | some inode =>
      cases x with
      | blob j => exact hblob _ j hx
      | disk j =>
        have hfrom := update_from Xattrs.inRealm (Q := False) (by simp) hx
        exact hfrom.elim id fun h => h.2.elim
      | cred c => exact hx
      | segment j => exact hx

theorem inheritLabel_from {task : TaskData} {parent data : InodeData}
    (h : (inheritLabel task parent data).inRealm = true) :
    data.inRealm = true ∨ parent.inRealm = true ∨ task.inRealm = true := by
  unfold inheritLabel at h
  split at h
  · rename_i hguard
    simp only [Bool.and_eq_true, Bool.or_eq_true] at hguard
    exact .inr hguard.1
  · exact .inl h

theorem initSecurity_moved {m : Monitor} (hwf : m.system.kernel.Wf) (cur : Task) (i dir : Nat) :
    Moved A m { m with lsm := (trmInodeInitSecurity m.lsm cur i dir).1 }
      (.initSecurity cur i dir) := by
  have hread : ∀ j, (m.system.disk j).readable = true →
      (Function.update m.system.disk i (m.system.disk i) j).readable = true :=
    fun j hj => update_keeps Xattrs.readable id hj
  refine ⟨hwf, hread, ?_⟩
  intro x hx
  cases x with
  | blob j =>
    have hfrom := update_from InodeData.inRealm
      (Q := (m.system.data dir).inRealm = true ∨ (m.system.task cur).inRealm = true)
      (fun h => by rw [inodeHousekeeping_inRealm] at h; exact inheritLabel_from h) hx
    rcases hfrom with hold | ⟨rfl, hdir | htask⟩
    · exact .inl hold
    · exact .inr (.inr ⟨.blob dir, .created (.inl rfl), hdir⟩)
    · exact .inr (.inr ⟨.cred cur.cred, .created (.inr rfl), htask⟩)
  | disk j =>
    have hdisk : Function.update m.system.disk i (m.system.disk i) = m.system.disk :=
      Function.update_eq_self i _
    refine .inl ?_
    rw [Monitor.inRealm, ← hdisk]
    exact hx
  | cred c => exact .inl hx
  | segment j => exact .inl hx

/-! ## Tasks -/

theorem housekeep_moved {m : Monitor} (hwf : m.system.kernel.Wf) {cur : Task} {now : Int}
    {s : System} (h : m.system.housekeep cur now = some s) (e : MonitorEvent) :
    Moved A m (m.setSystem s) e := by
  obtain ⟨k, rfl, hwf', hcred⟩ := housekeep_spec hwf h
  exact .same hwf' rfl rfl hcred rfl

theorem PlainHook.call_eq (hook : PlainHook) (s : System) (cur : Task) (now : Int) :
    hook.call s cur now = (s.housekeep cur now).map fun s => (s, 0) := by
  cases hook with
  | bprmCheckSecurity => rfl
  | taskPrctl => rfl
  | socketShutdown i => cases h : s.housekeep cur now <;> simp [PlainHook.call, trmSocketShutdown, h]

theorem initTask_moved {m : Monitor} (hwf : m.system.kernel.Wf) {c : Nat} {random : Identifier}
    {previous : Option Nat} {s : System}
    (h : lsmStep m.system (.initTask c random previous) = some s) :
    Moved A m (m.setSystem s) (.initTask c random previous) := by
  refine ⟨lsmStep_wf hwf h, by cases h; exact fun _ h => h, ?_⟩
  intro x hx
  cases x with
  | blob i =>
    cases h
    exact .inl hx
  | disk i =>
    cases h
    exact .inl hx
  | segment j => exact .inl hx
  | cred c' =>
    by_cases hold : (m.system.kernel.cred c').inRealm = true
    · exact .inl hold
    rcases lsmStep_taints hwf h (Bool.eq_false_iff.mpr hold) hx with
      ⟨_, _, _, _, _, _, hhook, _⟩ | ⟨random', p, hinit, hp⟩
    · cases hhook
    · cases hinit
      exact .inr (.inr ⟨.cred p, .copied, hp⟩)

/-! ## Sockets -/

theorem setData_from {s : System} {i : Nat} {d : InodeData} {j : Nat}
    (h : ((s.setData i d).data j).inRealm = true) : (s.data j).inRealm = true ∨ j = i :=
  (update_from InodeData.inRealm (Q := True) (fun _ => .inr trivial) h).imp id And.left

theorem System.tainted_from {s : System} {cur : Task} {i : Nat} (h : s.tainted cur i = true) :
    (s.data i).inRealm = true ∨ (s.task cur).inRealm = true := by
  rw [System.tainted, Bool.or_eq_true] at h
  exact h

/-- Both ends of the call are out of the realm. -/
theorem System.tainted_eq_false {s : System} {cur : Task} {i : Nat}
    (hdata : (s.data i).inRealm = false) (htask : (s.task cur).inRealm = false) :
    s.tainted cur i = false := by
  rw [System.tainted, hdata, htask]
  rfl

theorem socketCreate_moved {m : Monitor} (hwf : m.system.kernel.Wf) {cur : Task} {i : Nat}
    {now : Int} {out : System × Int} (h : trmSocketPostCreate m.system cur i now = some out) :
    Moved A m (m.setSystem out.1) (.socketCreate cur i now) := by
  obtain ⟨s, hhouse, h⟩ := Option.bind_eq_some_iff.mp h
  cases h
  obtain ⟨k, rfl, hwf', hcred⟩ := housekeep_spec hwf hhouse
  refine ⟨hwf', fun _ h => h, ?_⟩
  intro x hx
  cases x with
  | blob j =>
    by_cases htask : (k.cred cur.cred).inRealm = true
    · rcases setData_from hx with hold | rfl
      · exact .inl hold
      · exact .inr (.inr ⟨.cred cur.cred, .socketCreated, (hcred _).symm.trans htask⟩)
    · refine .inl ((update_from InodeData.inRealm (Q := False) ?_ hx).elim id fun h => h.2.elim)
      intro hnew
      rw [if_neg (show ¬ (System.task { m.system with kernel := k } cur).inRealm = true from htask)]
        at hnew
      exact .inl hnew
  | disk j => exact .inl hx
  | cred c => exact .inl ((hcred c).symm.trans hx)
  | segment j => exact .inl hx

theorem socketPair_moved {m : Monitor} (hwf : m.system.kernel.Wf) {cur : Task} {a b : Nat}
    {now : Int} {out : System × Int} (h : trmSocketSocketpair m.system cur a b now = some out) :
    Moved A m (m.setSystem out.1) (.socketPair cur a b now) := by
  obtain ⟨s, hhouse, h⟩ := Option.bind_eq_some_iff.mp h
  obtain ⟨k, rfl, hwf', hcred⟩ := housekeep_spec hwf hhouse
  split at h
  swap
  · cases h
    exact .same hwf' rfl rfl hcred rfl
  rename_i htaint
  cases h
  refine ⟨hwf', fun _ h => h, ?_⟩
  have hsource : ∀ x : Place, x = .blob a ∨ x = .blob b →
      ∃ y, RealmPath m (.socketPair cur a b now) y x ∧ m.inRealm y = true := by
    intro x hx
    rcases System.tainted_from htaint with hdata | htask
    · exact ⟨.blob a, .paired (.inr rfl) hx, hdata⟩
    · exact ⟨.cred cur.cred, .paired (.inl rfl) hx, (hcred _).symm.trans htask⟩
  intro x hx
  cases x with
  | blob j =>
    rcases setData_from hx with hmid | rfl
    · rcases setData_from hmid with hold | rfl
      · exact .inl hold
      · exact .inr (.inr (hsource _ (.inl rfl)))
    · exact .inr (.inr (hsource _ (.inr rfl)))
  | disk j => exact .inl hx
  | cred c => exact .inl ((hcred c).symm.trans hx)
  | segment j => exact .inl hx

theorem canAccess_state {s : System} (hrd : s.kernel.Ringed) {cur : Task} {i : Nat}
    {op : Operation} {out : System × Int} (h : canAccess s cur i op = some out) :
    out.1 = s ∨ out.1 = s.taint cur := by
  rw [canAccess_eq hrd, Option.some.injEq] at h
  subst h
  split
  · exact .inl rfl
  · split
    · split
      · exact .inr rfl
      · exact .inl rfl
    · exact .inl rfl

/-- What a hook asks `can_access` for; nothing for a local address. -/
def SocketHook.operation : SocketHook → Option Operation
  | .bind family => if family = afUnix then none else some opSocketExternal
  | .accept _ => some opSocket
  | .sendmsg => some opSocket
  | .recvmsg => some opSocket

theorem SocketHook.call_eq (hook : SocketHook) (s : System) (cur : Task) (i : Nat) (now : Int) :
    hook.call s cur i now = (s.housekeep cur now).bind fun s =>
      if s.tainted cur i then
        hook.operation.elim (some (hook.labels s cur i, 0)) (canAccess (hook.labels s cur i) cur i)
      else some (s, 0) := by
  cases hook with
  | bind family =>
    refine congrArg (Option.bind (s.housekeep cur now)) (funext fun s => ?_)
    by_cases htaint : s.tainted cur i = true
    · by_cases hfamily : family = afUnix <;>
        simp [SocketHook.labels, SocketHook.operation, htaint, hfamily]
    · simp [htaint]
  | accept new =>
    refine congrArg (Option.bind (s.housekeep cur now)) (funext fun s => ?_)
    by_cases htaint : s.tainted cur i = true <;>
      simp [SocketHook.labels, SocketHook.operation, htaint]
  | sendmsg =>
    refine congrArg (Option.bind (s.housekeep cur now)) (funext fun s => ?_)
    by_cases htaint : s.tainted cur i = true <;>
      simp [SocketHook.labels, SocketHook.operation, htaint]
  | recvmsg =>
    refine congrArg (Option.bind (s.housekeep cur now)) (funext fun s => ?_)
    by_cases htaint : s.tainted cur i = true <;>
      simp [SocketHook.labels, SocketHook.operation, htaint]

/-- A call: with neither side tainted it is the housekeeping, else labels
and perhaps taint for the caller. -/
theorem SocketHook.call_cases {hook : SocketHook} {s : System} (hwf : s.kernel.Wf) {cur : Task}
    {i : Nat} {now : Int} {out : System × Int} (h : hook.call s cur i now = some out) :
    ∃ s₁, s.housekeep cur now = some s₁ ∧
      (out = (s₁, 0) ∨
        s₁.tainted cur i = true ∧
          (out.1 = hook.labels s₁ cur i ∨ out.1 = (hook.labels s₁ cur i).taint cur)) := by
  rw [hook.call_eq] at h
  obtain ⟨s₁, hhouse, h⟩ := Option.bind_eq_some_iff.mp h
  refine ⟨s₁, hhouse, ?_⟩
  split at h
  swap
  · exact .inl (Option.some.inj h).symm
  rename_i htaint
  cases hop : hook.operation with
  | none =>
    rw [hop] at h
    cases h
    exact .inr ⟨htaint, .inl rfl⟩
  | some op =>
    rw [hop] at h
    obtain ⟨k, rfl, hwf', -⟩ := housekeep_spec hwf hhouse
    have hrd : (hook.labels { s with kernel := k } cur i).kernel.Ringed := by
      rw [hook.labels_eq]
      exact hwf'.ringed
    exact .inr ⟨htaint, canAccess_state hrd h⟩

theorem SocketHook.labels_from {hook : SocketHook} {s : System} {cur : Task} {i j : Nat}
    (h : ((hook.labels s cur i).data j).inRealm = true) :
    (s.data j).inRealm = true ∨ j = i ∨ hook = .accept j := by
  unfold SocketHook.labels at h
  split at h
  swap
  · exact .inl h
  split at h
  · rcases setData_from h with hmid | rfl
    · exact (setData_from hmid).imp id .inl
    · exact .inr (.inr rfl)
  · exact (setData_from h).imp id .inl

theorem socket_moved {m : Monitor} (hwf : m.system.kernel.Wf) {hook : SocketHook} {cur : Task}
    {i : Nat} {now : Int} {out : System × Int} (h : hook.call m.system cur i now = some out) :
    Moved A m (m.setSystem out.1) (.socket hook cur i now) := by
  obtain ⟨s, hhouse, hcases⟩ := SocketHook.call_cases hwf h
  obtain ⟨k, rfl, hwf', hcred⟩ := housekeep_spec hwf hhouse
  rcases hcases with rfl | ⟨htaint, hout⟩
  · exact .same hwf' rfl rfl hcred rfl
  have hsource : ∀ x : Place,
      (x = .cred cur.cred ∧ (m.system.inode i).magic ≠ .sockfs) ∨ x = .blob i ∨
        (∃ new, hook = .accept new ∧ x = .blob new) →
      ∃ y, RealmPath m (.socket hook cur i now) y x ∧ m.inRealm y = true := by
    intro x hx
    rcases System.tainted_from htaint with hdata | htask
    · exact ⟨.blob i, .socket (.inr rfl) hx, hdata⟩
    · exact ⟨.cred cur.cred, .socket (.inl rfl) hx, (hcred _).symm.trans htask⟩
  have hlabels := hook.labels_eq { m.system with kernel := k } cur i
  have hframe : out.1.data = (hook.labels { m.system with kernel := k } cur i).data ∧
      out.1.disk = m.system.disk ∧ out.1.kernel.Wf ∧
      ∀ c, (out.1.kernel.cred c).inRealm = true → (m.system.kernel.cred c).inRealm = true ∨
        c = cur.cred ∧ (m.system.inode i).magic ≠ .sockfs := by
    by_cases hlabelled : out.1 = hook.labels { m.system with kernel := k } cur i
    · rw [hlabelled, hlabels]
      exact ⟨rfl, rfl, hwf', fun c hc => .inl ((hcred c).symm.trans hc)⟩
    · have hsockfs : (m.system.inode i).magic ≠ .sockfs := by
        intro hsock
        rw [hook.call_sockfs cur now hsock, hhouse] at h
        exact hlabelled (congrArg Prod.fst (Option.some.inj h)).symm
      rw [hout.resolve_left hlabelled, hlabels]
      refine ⟨rfl, rfl, setCred_wf hwf' rfl, ?_⟩
      intro c hc
      have hfrom := update_from TaskData.inRealm (fun _ => .inr hsockfs) hc
      exact hfrom.imp (hcred c).symm.trans id
  obtain ⟨hdata, hdisk, hwfOut, hcreds⟩ := hframe
  have hread : ∀ j, (m.system.disk j).readable = true → (out.1.disk j).readable = true := by
    rw [hdisk]
    exact fun _ h => h
  refine ⟨hwfOut, hread, ?_⟩
  intro x hx
  cases x with
  | blob j =>
    have hj : ((hook.labels { m.system with kernel := k } cur i).data j).inRealm = true := by
      rw [← hdata]
      exact hx
    rcases SocketHook.labels_from hj with hold | rfl | haccept
    · exact .inl hold
    · exact .inr (.inr (hsource _ (.inr (.inl rfl))))
    · exact .inr (.inr (hsource _ (.inr (.inr ⟨j, haccept, rfl⟩))))
  | disk j =>
    refine .inl ?_
    rw [Monitor.inRealm, ← hdisk]
    exact hx
  | cred c =>
    rcases hcreds c hx with hold | ⟨rfl, hsockfs⟩
    · exact .inl hold
    · exact .inr (.inr (hsource _ (.inl ⟨rfl, hsockfs⟩)))
  | segment j => exact .inl hx

/-! ## Shared memory -/

theorem shm_moved {m : Monitor} (hwf : m.system.kernel.Wf) {hook : ShmHook} {env : ShmEnv}
    {cur : Task} {perm : Option Nat} {out : IpcSystem × Int}
    (h : hook.call m.ipc env cur perm = some out) :
    Moved A m (m.setIpc out.1) (.shm hook env cur perm) := by
  have hpass : ∀ x, out.1.tainted x = true → m.ipc.tainted x = true ∨
      ∃ j, perm = some j ∧ m.ipc.ticketed cur j = true ∧
        (x = .cred cur.cred ∧ m.ipc.tainted (.segment j) = true ∨
          x = .segment j ∧ m.ipc.tainted (.cred cur.cred) = true) := by
    intro x hx
    by_cases hold : m.ipc.tainted x = true
    · exact .inl hold
    · exact .inr (ShmHook.call_taints hwf h (Bool.eq_false_iff.mpr hold) hx)
  have hframe : out.1.system.data = m.system.data ∧ out.1.system.disk = m.system.disk ∧
      out.1.system.kernel.Wf := by
    obtain ⟨j, -, ⟨hsame, -⟩ | ⟨hsys, -⟩ | ⟨hsys, -⟩⟩ := ShmHook.call_cases h
    · rw [hsame]
      exact ⟨rfl, rfl, hwf⟩
    · rw [hsys]
      exact ⟨rfl, rfl, hwf⟩
    · rw [hsys]
      obtain ⟨d, hkernel, hhead, -⟩ := level_kernel m.ipc cur j
      rw [hkernel]
      exact ⟨rfl, rfl, setCred_wf hwf hhead⟩
  obtain ⟨hdata, hdisk, hwf'⟩ := hframe
  have hread : ∀ i, (m.system.disk i).readable = true → (out.1.system.disk i).readable = true := by
    rw [hdisk]
    exact fun _ h => h
  refine ⟨hwf', hread, ?_⟩
  intro x hx
  cases x with
  | blob j =>
    refine .inl ?_
    rw [Monitor.inRealm, ← hdata]
    exact hx
  | disk j =>
    refine .inl ?_
    rw [Monitor.inRealm, ← hdisk]
    exact hx
  | cred c =>
    rcases hpass (.cred c) hx with hold | ⟨j, rfl, hticket, ⟨hc, hseg⟩ | ⟨hc, -⟩⟩
    · exact .inl hold
    · cases hc
      exact .inr (.inr ⟨.segment j, .attached hticket, hseg⟩)
    · cases hc
  | segment j =>
    rcases hpass (.segment j) hx with hold | ⟨j', rfl, hticket, ⟨hc, -⟩ | ⟨hc, hcred⟩⟩
    · exact .inl hold
    · cases hc
    · cases hc
      exact .inr (.inr ⟨.cred cur.cred, .shared hticket, hcred⟩)

theorem setSegment_moved {m : Monitor} (hwf : m.system.kernel.Wf) {e : MonitorEvent} {j : Nat}
    {seg : Segment} (hroot : seg.data.inRealm = true → e = .shmFree j) :
    Moved A m (m.setSegment j seg) e := by
  refine ⟨hwf, fun _ h => h, ?_⟩
  intro x hx
  cases x with
  | blob i => exact .inl hx
  | disk i => exact .inl hx
  | cred c => exact .inl hx
  | segment i =>
    rcases update_from (fun seg : Segment => seg.data.inRealm) (fun h => .inr (hroot h)) hx with
      hold | ⟨rfl, hfree⟩
    · exact .inl hold
    · exact .inr (.inl (.freed hfree))

/-! ## Tickets and registration -/

theorem insertRecords_spec {env : Nat → InsertEnv} {plain : List UInt8} {count iter : Nat}
    {k : Kernel} (hwf : k.Wf) {out : Kernel × List (UpdateRecord × Bool)}
    (h : insertRecords env plain count iter k = some out) : out.1.Wf ∧ out.1.cred = k.cred := by
  induction count generalizing iter k out with
  | zero =>
    cases h
    exact ⟨hwf, rfl⟩
  | succ count ih =>
    obtain ⟨rcrd, -, h⟩ := Option.bind_eq_some_iff.mp h
    obtain ⟨⟨k₁, success⟩, hinsert, h⟩ := Option.bind_eq_some_iff.mp h
    obtain ⟨⟨k₂, log⟩, hrest, h⟩ := Option.bind_eq_some_iff.mp h
    cases h
    rcases insertTicket_allocs hwf (env iter).rebalance (env iter).allocs (env iter).now rcrd with
      ⟨hnone, -⟩ | ⟨k', hsome, hwf', hcred⟩
    · rw [hnone] at hinsert
      cases hinsert
    · rw [hsome] at hinsert
      cases hinsert
      obtain ⟨hwf₂, hcred₂⟩ := ih hwf' hrest
      exact ⟨hwf₂, hcred₂.trans hcred⟩

theorem updateReceive_spec {copy : CopyEnv} {env : UpdateEnv} {s : Lsm} {buf : List UInt8}
    {out : Lsm × Int × List (UpdateRecord × Bool)}
    (h : updateReceive A copy env s buf = some out) :
    ∃ k, out.1.system = { s.system with kernel := k } ∧
      (s.system.kernel.Wf → k.Wf ∧ k.cred = s.system.kernel.cred) := by
  obtain ⟨s', n, log⟩ := out
  rcases updateReceive_cases h with ⟨rfl, -⟩ | ⟨-, -, -, hprocess⟩
  · exact ⟨s'.system.kernel, rfl, fun hwf => ⟨hwf, rfl⟩⟩
  rcases processReceivedUpdate_cases hprocess with ⟨rfl, -⟩ | ⟨-, -, happly⟩
  · exact ⟨s'.system.kernel, rfl, fun hwf => ⟨hwf, rfl⟩⟩
  obtain ⟨hdr, -, happly⟩ := Option.bind_eq_some_iff.mp happly
  obtain ⟨⟨k, log'⟩, hinsert, happly⟩ := Option.bind_eq_some_iff.mp happly
  cases happly
  exact ⟨k, rfl, fun hwf => insertRecords_spec hwf hinsert⟩

theorem challengeReceive_spec {rsaDecrypt : List UInt8 → Option (List UInt8)} {copy : CopyEnv}
    {s : Lsm} {buf : List UInt8} {out : Lsm × Int × Bool}
    (h : challengeReceive rsaDecrypt copy s buf = some out) :
    ∃ pid, out.1.system = { s.system with citadelPid := pid } := by
  rcases challengeReceive_cases rsaDecrypt h with ⟨hsame, -⟩ | ⟨c, -, -, -, hreg, -⟩
  · rw [hsame]
    exact ⟨s.system.citadelPid, rfl⟩
  · rw [hreg]
    exact ⟨c.pid, rfl⟩

/-! ## Every event -/

variable {rsaDecrypt : List UInt8 → Option (List UInt8)}

theorem monitorStep_moved {m m' : Monitor} (hwf : m.system.kernel.Wf) {e : MonitorEvent} {r : Int}
    (h : monitorStep rsaDecrypt A m e = some (m', r)) : Moved A m m' e := by
  cases e with
  | file hook cur i now vfs =>
    obtain ⟨out, hcall, hm⟩ := Option.map_eq_some_iff.mp h
    cases hm
    exact file_moved hwf hcall
  | ioctl cur i now vfs =>
    obtain ⟨out, hcall, hm⟩ := Option.map_eq_some_iff.mp h
    cases hm
    exact ioctl_moved hwf hcall
  | allocInode cur i created =>
    cases h
    exact allocInode_moved hwf cur i created
  | initSecurity cur i dir =>
    cases h
    exact initSecurity_moved hwf cur i dir
  | instantiate cur i vfs =>
    obtain ⟨lsm, hcall, hm⟩ := Option.map_eq_some_iff.mp h
    cases hm
    exact instantiate_moved hwf hcall
  | attributeRead hook cur i vfs =>
    obtain ⟨out, hcall, hm⟩ := Option.map_eq_some_iff.mp h
    cases hm
    exact attributeRead_moved hwf hcall
  | xattr call =>
    obtain ⟨out, hcall, hm⟩ := Option.map_eq_some_iff.mp h
    cases hm
    exact xattr_moved hwf hcall
  | plain hook cur now =>
    obtain ⟨out, hcall, hm⟩ := Option.map_eq_some_iff.mp h
    cases hm
    rw [hook.call_eq] at hcall
    obtain ⟨s, hhouse, rfl⟩ := Option.map_eq_some_iff.mp hcall
    exact housekeep_moved hwf hhouse _
  | initTask c random previous =>
    cases h
    exact initTask_moved hwf rfl
  | socketCreate cur i now =>
    obtain ⟨out, hcall, hm⟩ := Option.map_eq_some_iff.mp h
    cases hm
    exact socketCreate_moved hwf hcall
  | socketPair cur a b now =>
    obtain ⟨out, hcall, hm⟩ := Option.map_eq_some_iff.mp h
    cases hm
    exact socketPair_moved hwf hcall
  | socket hook cur i now =>
    obtain ⟨out, hcall, hm⟩ := Option.map_eq_some_iff.mp h
    cases hm
    exact socket_moved hwf hcall
  | shm hook env cur perm =>
    obtain ⟨out, hcall, hm⟩ := Option.map_eq_some_iff.mp h
    cases hm
    exact shm_moved hwf hcall
  | shmAlloc j key =>
    cases h
    exact setSegment_moved hwf fun hnew => nomatch hnew
  | shmFree j =>
    cases h
    exact setSegment_moved hwf fun _ => rfl
  | challengeRead rsaAvailable alloc random =>
    cases h
    have hsystem : (challengeRead rsaAvailable m.lsm alloc random).1.system = m.lsm.system := by
      unfold challengeRead generateChallenge
      split
      · split <;> rfl
      · rfl
    refine .same ?_ ?_ ?_ ?_ rfl <;> rw [Monitor.system, hsystem]
    · exact hwf
    · rfl
    · rfl
    · exact fun _ => rfl
  | challengeWrite copy buf =>
    obtain ⟨out, hcall, hm⟩ := Option.map_eq_some_iff.mp h
    cases hm
    obtain ⟨pid, hsystem⟩ := challengeReceive_spec hcall
    refine .same ?_ ?_ ?_ ?_ rfl <;> rw [Monitor.system, hsystem]
    · exact hwf
    · rfl
    · rfl
    · exact fun _ => rfl
  | updateWrite copy env buf =>
    obtain ⟨out, hcall, hm⟩ := Option.map_eq_some_iff.mp h
    cases hm
    obtain ⟨k, hsystem, hkernel⟩ := updateReceive_spec hcall
    obtain ⟨hwf', hcred⟩ := hkernel hwf
    refine .same ?_ ?_ ?_ ?_ rfl <;> rw [Monitor.system, hsystem]
    · exact hwf'
    · rfl
    · rfl
    · intro c
      rw [hcred]
      rfl

theorem monitorNext_moved {m m' : Monitor} (hwf : m.system.kernel.Wf) {e : MonitorEvent}
    (h : monitorNext rsaDecrypt A m e = some m') : Moved A m m' e := by
  obtain ⟨⟨m₁, r⟩, hstep, hm⟩ := Option.map_eq_some_iff.mp h
  cases hm
  exact monitorStep_moved hwf hstep

theorem System.Booted.wf {s : System} (h : s.Booted) : s.kernel.Wf :=
  lsmRun_wf h (show lsmRun s [] = some s from rfl)

end Citadel
