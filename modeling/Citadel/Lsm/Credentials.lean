/-
Citadel.Lsm.Credentials — taint over the credential changes of a task.

The kernel replaces the credential of a task in two ways. It has a copy
prepared (`cred_prepare`: exec, setuid, fork), or it has a blank one
allocated and the old one transferred into it (`cred_alloc_blank` and
`cred_transfer`: a new session keyring for the parent); either way the new
credential is committed LATER, and hooks of the task run in between, on the
old one. The hook table of `lsm/src/citadel.c` has no entry for
`cred_transfer` and none for the commit.

`taint_survives_iff`: over every run, taint stays with the task and goes to
its children if and only if no commit replaces a tainted credential by an
untainted one. Both ways in which that happens are there
(`taint_lost_at_commit`): a blank credential never gets the taint, and a
copy made before the task was tainted does not have it. There is no third:
a credential in the making is tainted if and only if `cred_prepare` built
it when its task was tainted already (`pending_inRealm_iff`).
-/
import Citadel.Lsm.Confinement
import Citadel.Lsm.Provenance

namespace Citadel

open SearchTree Bytes

/-! ## Tasks -/

/-- A task, with the credential in the making if there is one. -/
structure Proc where
  pid : Pid
  cred : Nat
  pending : Option Nat
  deriving DecidableEq

/-- The module and the tasks `0 … tasks - 1`; credentials from `fresh` on
are not allocated yet. -/
structure CredSystem where
  ipc : IpcSystem
  tasks : Nat
  proc : Nat → Proc
  fresh : Nat

/-- The task as the hooks see it when it runs. -/
def CredSystem.current (s : CredSystem) (t : Nat) : Task := ⟨(s.proc t).pid, (s.proc t).cred⟩

def CredSystem.kernel (s : CredSystem) : Kernel := s.ipc.system.kernel

/-- One more credential, set up in `k`. -/
def CredSystem.newCred (s : CredSystem) (k : Kernel) : CredSystem :=
  { s with
    ipc := { s.ipc with system := { s.ipc.system with kernel := k } }
    fresh := s.fresh + 1 }

theorem newCred_tasks (s : CredSystem) (k : Kernel) : (s.newCred k).tasks = s.tasks := rfl

def CredSystem.tainted (s : CredSystem) (t : Nat) : Bool := (s.kernel.cred (s.proc t).cred).inRealm

/-! ## Events -/

inductive CredEvent where
  -- what the kernel does to credentials
  | prepare (t : Nat) (random : Identifier)
  | allocBlank (t : Nat) (random : Identifier)
  | transfer (t : Nat)
  | commit (t : Nat)
  | fork (t : Nat) (pid : Pid) (random : Identifier)
  | thread (t : Nat) (pid : Pid)
  -- the hooks in between, by the tasks, and what happens around them
  | access (hook : Hook) (t : Nat) (i : Nat) (now : Int) (vfs : VfsResult)
  | shm (hook : ShmHook) (env : ShmEnv) (t : Nat) (perm : Option Nat)
  | housekeeping (t : Nat) (now : Int)
  | insertTicket (rb : Rebalance Nat) (allocs : Allocs) (now : Int) (r : UpdateRecord)
  | labels (data : Nat → InodeData) (disk : Nat → Xattrs) (citadelPid : Pid)

/-- The task an event is about. -/
def CredEvent.actor : CredEvent → Option Nat
  | .prepare t _ | .allocBlank t _ | .transfer t | .commit t | .fork t _ _ | .thread t _
  | .access _ t _ _ _ | .shm _ _ t _ | .housekeeping t _ => some t
  | .insertTicket _ _ _ _ | .labels _ _ _ => none

/-- A new credential, built in `k`, is in the making for `t`. -/
def CredSystem.makePending (s : CredSystem) (t : Nat) (k : Kernel) : CredSystem :=
  { s.newCred k with
    proc := Function.update s.proc t { s.proc t with pending := some s.fresh } }

/-- `commit_creds`. -/
def CredSystem.commit (s : CredSystem) (t : Nat) : CredSystem :=
  match (s.proc t).pending with
  | none => s
  | some c => { s with proc := Function.update s.proc t ⟨(s.proc t).pid, c, none⟩ }

def CredSystem.addTask (s : CredSystem) (p : Proc) : CredSystem :=
  { s with tasks := s.tasks + 1, proc := Function.update s.proc s.tasks p }

def CredSystem.liftIpc (s : CredSystem) (e : IpcEvent) : Option CredSystem := do
  let ipc ← ipcStep s.ipc e
  some { s with ipc := ipc }

/-- One event; `none` is a memory fault. -/
def credAct (s : CredSystem) : CredEvent → Option CredSystem
  | .prepare t random =>
    some (s.makePending t (trmCredPrepare s.kernel s.fresh (s.proc t).cred random))
  | .allocBlank t random => some (s.makePending t (trmCredAllocBlank s.kernel s.fresh random))
  -- no hook is registered
  | .transfer _ => some s
  | .commit t => some (s.commit t)
  | .fork t pid random =>
    let s' := s.newCred (trmCredPrepare s.kernel s.fresh (s.proc t).cred random)
    some (s'.addTask ⟨pid, s.fresh, none⟩)
  | .thread t pid => some (s.addTask ⟨pid, (s.proc t).cred, none⟩)
  | .access hook t i now vfs => s.liftIpc (.lsm (.hook hook (s.current t) i now vfs))
  | .shm hook env t perm => s.liftIpc (.shm hook env (s.current t) perm)
  | .housekeeping t now => s.liftIpc (.lsm (.housekeeping (s.current t) now))
  | .insertTicket rb allocs now r => s.liftIpc (.lsm (.insertTicket rb allocs now r))
  | .labels data disk citadelPid => s.liftIpc (.lsm (.labels data disk citadelPid))

/-- One event, about a task that exists. -/
def credStep (s : CredSystem) (e : CredEvent) : Option CredSystem :=
  if e.actor.all (fun t => decide (t < s.tasks)) then credAct s e else none

def credRun (s : CredSystem) (evs : List CredEvent) : Option CredSystem := evs.foldlM credStep s

/-- The child of `t` comes into being. -/
def CredEvent.forks (t : Nat) : CredEvent → Bool
  | .fork t' _ _ => t' = t
  | .thread t' _ => t' = t
  | _ => false

/-- Unless the event commits an untainted credential over the tainted one
of a task. -/
def CredEvent.keepsTaint (s : CredSystem) : CredEvent → Bool
  | .commit t =>
    !(decide (t < s.tasks) && s.tainted t) ||
      (s.proc t).pending.all (fun c => (s.kernel.cred c).inRealm)
  | _ => true

/-! ## What every step keeps -/

/-- Sound rings, and every credential in use has been allocated. -/
structure CredSystem.Sound (s : CredSystem) : Prop where
  wf : s.kernel.Wf
  cred : ∀ t < s.tasks, (s.proc t).cred < s.fresh
  pending : ∀ t < s.tasks, ∀ c ∈ (s.proc t).pending, c < s.fresh

theorem setUp_spec {k : Kernel} (hwf : k.Wf) (c : Nat) (random : Identifier)
    (previous : Option TaskData) :
    (k.setCred c (initTaskTrm random previous)).Wf ∧
      ∀ m < c, (k.setCred c (initTaskTrm random previous)).cred m = k.cred m :=
  ⟨setCred_reset_wf hwf c (initTaskTrm_ticketHead random previous),
    fun _ hm => Function.update_of_ne (Nat.ne_of_lt hm) _ _⟩

section Steps

variable {s s' : CredSystem}

/-- A credential set up for nobody yet: a larger `fresh`. -/
theorem CredSystem.Sound.newCred (hs : s.Sound) (random : Identifier)
    (previous : Option TaskData) :
    (s.newCred (s.kernel.setCred s.fresh (initTaskTrm random previous))).Sound :=
  ⟨(setUp_spec hs.wf s.fresh random previous).1, fun t ht => Nat.lt_succ_of_lt (hs.cred t ht),
    fun t ht c hc => Nat.lt_succ_of_lt (hs.pending t ht c hc)⟩

theorem makePending_cred (s : CredSystem) (t u : Nat) (k : Kernel) :
    ((s.makePending t k).proc u).cred = (s.proc u).cred := by
  by_cases hut : u = t
  · subst hut
    simp [CredSystem.makePending]
  · simp [CredSystem.makePending, hut]

/-- Giving a task a credential in the making, -/
theorem CredSystem.Sound.makePending (hs : s.Sound) (t : Nat) (random : Identifier)
    (previous : Option TaskData) :
    (s.makePending t (s.kernel.setCred s.fresh (initTaskTrm random previous))).Sound := by
  have hnew := hs.newCred random previous
  refine ⟨hnew.wf, fun u hu => ?_, fun u hu c hc => ?_⟩
  · rw [makePending_cred]
    exact hnew.cred u hu
  · by_cases hut : u = t
    · subst hut
      obtain rfl : s.fresh = c := by simpa [CredSystem.makePending] using hc
      exact Nat.lt_succ_self _
    · exact Nat.lt_succ_of_lt (hs.pending u hu c (by simpa [CredSystem.makePending, hut] using hc))

/-- taints nobody and untaints nobody. -/
theorem makePending_tainted (hs : s.Sound) (t : Nat) (random : Identifier)
    (previous : Option TaskData) {u : Nat} (hu : u < s.tasks) :
    (s.makePending t (s.kernel.setCred s.fresh (initTaskTrm random previous))).tainted u =
      s.tainted u := by
  rw [CredSystem.tainted, makePending_cred]
  exact congrArg TaskData.inRealm ((setUp_spec hs.wf s.fresh random previous).2 _ (hs.cred u hu))

theorem CredSystem.Sound.commit (hs : s.Sound) (t : Nat) : (s.commit t).Sound := by
  unfold CredSystem.commit
  cases hp : (s.proc t).pending with
  | none => exact hs
  | some c =>
    refine ⟨hs.wf, fun u hu => ?_, fun u hu d hd => ?_⟩
    · by_cases hut : u = t
      · subst hut
        simpa using hs.pending u hu c hp
      · simpa [hut] using hs.cred u hu
    · by_cases hut : u = t
      · subst hut
        simp at hd
      · exact hs.pending u hu d (by simpa [hut] using hd)

/-- After a commit the task has the taint of the credential that was in the
making, and the others have theirs. -/
theorem commit_tainted (s : CredSystem) (t u : Nat) :
    (s.commit t).tainted u =
      if u = t then (s.proc t).pending.elim (s.tainted t) (fun c => (s.kernel.cred c).inRealm)
      else s.tainted u := by
  unfold CredSystem.commit
  cases hp : (s.proc t).pending with
  | none =>
    by_cases hut : u = t
    · simp [hut]
    · simp [hut]
  | some c =>
    by_cases hut : u = t
    · subst hut
      simp [CredSystem.tainted, CredSystem.kernel]
    · simp [CredSystem.tainted, CredSystem.kernel, hut]

/-- The condition on a commit says that it does not untaint its task. -/
theorem keepsTaint_commit_iff (s : CredSystem) (t : Nat) :
    (CredEvent.commit t).keepsTaint s = true ↔
      (t < s.tasks → s.tainted t = true → (s.commit t).tainted t = true) := by
  rw [commit_tainted, if_pos rfl]
  by_cases hbefore : t < s.tasks ∧ s.tainted t = true
  · obtain ⟨ht, htaint⟩ := hbefore
    cases hp : (s.proc t).pending with
    | none => simp [CredEvent.keepsTaint, hp, htaint]
    | some c => simp [CredEvent.keepsTaint, hp, ht, htaint]
  · refine iff_of_true ?_ (fun ht htaint => absurd ⟨ht, htaint⟩ hbefore)
    have hidle : (decide (t < s.tasks) && s.tainted t) = false := by simpa using hbefore
    rw [CredEvent.keepsTaint, hidle]
    rfl

theorem CredSystem.Sound.addTask (hs : s.Sound) (pid : Pid) {c : Nat} (hc : c < s.fresh) :
    (s.addTask ⟨pid, c, none⟩).Sound := by
  refine ⟨hs.wf, fun u hu => ?_, fun u hu d hd => ?_⟩
  · by_cases hut : u = s.tasks
    · subst hut
      simpa [CredSystem.addTask] using hc
    · have hlt : u < s.tasks := Nat.lt_of_le_of_ne (Nat.le_of_lt_succ hu) hut
      simpa [CredSystem.addTask, hut] using hs.cred u hlt
  · by_cases hut : u = s.tasks
    · subst hut
      simp [CredSystem.addTask] at hd
    · have hlt : u < s.tasks := Nat.lt_of_le_of_ne (Nat.le_of_lt_succ hu) hut
      exact hs.pending u hlt d (by simpa [CredSystem.addTask, hut] using hd)

theorem addTask_tainted (s : CredSystem) (p : Proc) (u : Nat) :
    (s.addTask p).tainted u =
      if u = s.tasks then (s.kernel.cred p.cred).inRealm else s.tainted u := by
  by_cases hut : u = s.tasks
  · simp [CredSystem.tainted, CredSystem.addTask, CredSystem.kernel, hut]
  · simp [CredSystem.tainted, CredSystem.addTask, CredSystem.kernel, hut]

/-- The task that makes a call of a hook. -/
def IpcEvent.caller : IpcEvent → Option Task
  | .shm _ _ cur _ => some cur
  | .lsm e => e.caller

/-- A call of a hook leaves the taint of every credential but the caller's
as it is. -/
theorem ipcStep_untouched {s s' : IpcSystem} {e : IpcEvent} {c : Nat}
    (hwf : s.system.kernel.Wf) (hset : e.setsUp c = false)
    (hcaller : ∀ cur, e.caller = some cur → cur.cred ≠ c) (h : ipcStep s e = some s') :
    (s'.system.kernel.cred c).inRealm = (s.system.kernel.cred c).inRealm := by
  cases hold : (s.system.kernel.cred c).inRealm with
  | true => exact ipcStep_taint hwf hset h hold
  | false =>
    by_contra hnew
    rw [Bool.not_eq_false] at hnew
    cases e with
    | shm hook env cur perm =>
      obtain ⟨⟨s₁, r⟩, hcall, hs⟩ := Option.bind_eq_some_iff.mp h
      cases hs
      obtain ⟨j, -, -, ⟨hx, -⟩ | ⟨hx, -⟩⟩ :=
        hook.call_taints (x := .cred c) hwf hcall hold hnew
      · exact hcaller cur rfl (Holder.cred.inj hx).symm
      · cases hx
    | lsm e =>
      obtain ⟨s₁, hlsm, hs⟩ := Option.bind_eq_some_iff.mp h
      cases hs
      obtain ⟨hook, cur, i, now, vfs, d, rfl, hc, -⟩ | ⟨random, c', rfl, -⟩ :=
        lsmStep_taints hwf hlsm hold hnew
      · exact hcaller cur rfl hc
      · simp [IpcEvent.setsUp, LsmEvent.setsUp] at hset

/-- A hook sets up no credential. -/
theorem liftIpc_spec (hs : s.Sound) {e : IpcEvent} (hset : ∀ c, e.setsUp c = false)
    (h : s.liftIpc e = some s') :
    s'.Sound ∧ s'.tasks = s.tasks ∧ ∀ t, s.tainted t = true → s'.tainted t = true := by
  obtain ⟨ipc, hstep, hs'⟩ := Option.bind_eq_some_iff.mp h
  cases hs'
  exact ⟨⟨ipcStep_wf hs.wf hstep, hs.cred, hs.pending⟩, rfl,
    fun t ht => ipcStep_taint hs.wf (hset _) hstep ht⟩

/-- An event that happens is about a task that exists. -/
theorem credStep_some {e : CredEvent} (h : credStep s e = some s') :
    (∀ t, e.actor = some t → t < s.tasks) ∧ credAct s e = some s' := by
  unfold credStep at h
  split at h
  · rename_i hall
    refine ⟨fun t ht => ?_, h⟩
    rw [ht] at hall
    simpa using hall
  · cases h

end Steps

/-- A step keeps the state sound and loses no task. If it commits no
untainted credential over a tainted one, it untaints no task. -/
theorem credStep_spec {s s' : CredSystem} {e : CredEvent} (hs : s.Sound)
    (h : credStep s e = some s') :
    s'.Sound ∧ s.tasks ≤ s'.tasks ∧
      (e.keepsTaint s = true → ∀ t < s.tasks, s.tainted t = true → s'.tainted t = true) := by
  obtain ⟨hactor, h⟩ := credStep_some h
  have hlift : ∀ e', (∀ c, e'.setsUp c = false) → s.liftIpc e' = some s' →
      s'.Sound ∧ s.tasks ≤ s'.tasks ∧
        (e.keepsTaint s = true → ∀ t < s.tasks, s.tainted t = true → s'.tainted t = true) := by
    intro e' hset hstep
    obtain ⟨hsound, htasks, htaint⟩ := liftIpc_spec hs hset hstep
    exact ⟨hsound, htasks.ge, fun _ t _ => htaint t⟩
  cases e with
  | prepare t random =>
    cases h
    exact ⟨hs.makePending t random _, le_rfl, fun _ u hu htaint =>
      (makePending_tainted hs t random _ hu).trans htaint⟩
  | allocBlank t random =>
    cases h
    exact ⟨hs.makePending t random none, le_rfl, fun _ u hu htaint =>
      (makePending_tainted hs t random none hu).trans htaint⟩
  | transfer t =>
    cases h
    exact ⟨hs, le_rfl, fun _ _ _ htaint => htaint⟩
  | commit t =>
    cases h
    refine ⟨hs.commit t, ?_, fun hkeep u hu htaint => ?_⟩
    · unfold CredSystem.commit
      cases (s.proc t).pending <;> exact le_rfl
    · by_cases hut : u = t
      · subst hut
        exact (keepsTaint_commit_iff s u).mp hkeep hu htaint
      · rw [commit_tainted, if_neg hut]
        exact htaint
  | fork t pid random =>
    cases h
    have hnew := hs.newCred random (some (s.kernel.cred (s.proc t).cred))
    refine ⟨hnew.addTask pid (Nat.lt_succ_self _), Nat.le_succ _, fun _ u hu htaint => ?_⟩
    rw [addTask_tainted, newCred_tasks, if_neg (Nat.ne_of_lt hu), CredSystem.tainted]
    exact (congrArg TaskData.inRealm ((setUp_spec hs.wf s.fresh random _).2 _
      (hs.cred u hu))).trans htaint
  | thread t pid =>
    cases h
    refine ⟨hs.addTask pid (hs.cred t (hactor t rfl)), Nat.le_succ _, fun _ u hu htaint => ?_⟩
    rw [addTask_tainted, if_neg (Nat.ne_of_lt hu)]
    exact htaint
  | access hook t i now vfs => exact hlift _ (fun _ => rfl) h
  | shm hook env t perm => exact hlift _ (fun _ => rfl) h
  | housekeeping t now => exact hlift _ (fun _ => rfl) h
  | insertTicket rb allocs now r => exact hlift _ (fun _ => rfl) h
  | labels data disk citadelPid => exact hlift _ (fun _ => rfl) h

/-- A child starts with the taint of its parent. -/
theorem credStep_child {s s' : CredSystem} {e : CredEvent} {t : Nat} (hfork : e.forks t = true)
    (h : credStep s e = some s') :
    s'.tasks = s.tasks + 1 ∧ s'.tainted s.tasks = s.tainted t := by
  replace h := (credStep_some h).2
  cases e <;> simp only [CredEvent.forks, decide_eq_true_eq, Bool.false_eq_true] at hfork
  case fork t' pid random =>
    subst hfork
    cases h
    refine ⟨rfl, ?_⟩
    rw [addTask_tainted, newCred_tasks, if_pos rfl]
    simp [CredSystem.kernel, CredSystem.newCred, trmCredPrepare, Kernel.setCred, initTaskTrm,
      CredSystem.tainted]
  case thread t' pid =>
    subst hfork
    cases h
    refine ⟨rfl, ?_⟩
    rw [addTask_tainted, if_pos rfl]
    rfl

/-! ## Runs -/

theorem credRun_sound {s s' : CredSystem} {evs : List CredEvent} (hs : s.Sound)
    (h : credRun s evs = some s') : s'.Sound :=
  Run.invariant (P := CredSystem.Sound) (Q := fun _ => True)
    (fun _ _ _ hs _ hstep => (credStep_spec hs hstep).1) hs (fun _ _ => trivial) h

/-- Taint stays along a run whose commits keep it. -/
theorem credRun_tainted {s s' : CredSystem} {evs : List CredEvent} (hs : s.Sound)
    (hkeep : Run.Along credStep (fun s e => e.keepsTaint s = true) s evs)
    (h : credRun s evs = some s') {t : Nat} (ht : t < s.tasks) (htaint : s.tainted t = true) :
    s'.tainted t = true := by
  have hinv := Run.Along.invariant
    (P := fun s => s.Sound ∧ t < s.tasks ∧ s.tainted t = true)
    (fun s s' e ⟨hs, ht, htaint⟩ hC hstep =>
      have hspec := credStep_spec hs hstep
      ⟨hspec.1, Nat.lt_of_lt_of_le ht hspec.2.1, hspec.2.2 hC t ht htaint⟩)
    hkeep ⟨hs, ht, htaint⟩ h
  exact hinv.2.2

/-- In every part of the run, tainted tasks stay tainted and the children
of tainted tasks are born so and stay so. -/
structure TaintKept (s : CredSystem) (evs : List CredEvent) : Prop where
  task : ∀ pre post rest s₁ s₂ t, evs = pre ++ (post ++ rest) → credRun s pre = some s₁ →
    credRun s₁ post = some s₂ → t < s₁.tasks → s₁.tainted t = true → s₂.tainted t = true
  child : ∀ pre e post rest s₁ s₂ t, evs = pre ++ ((e :: post) ++ rest) → e.forks t = true →
    credRun s pre = some s₁ → credRun s₁ (e :: post) = some s₂ → s₁.tainted t = true →
    s₂.tainted s₁.tasks = true

/-- Taint survives a run exactly when every commit of the run keeps it. -/
theorem taint_survives_iff {s : CredSystem} (hs : s.Sound) (evs : List CredEvent) :
    TaintKept s evs ↔ Run.Along credStep (fun s e => e.keepsTaint s = true) s evs := by
  constructor
  · intro h
    rw [Run.Along.iff_cut]
    intro pre e post s₁ hevs hpre
    cases e with
    | commit t =>
      refine (keepsTaint_commit_iff s₁ t).mpr fun ht htaint => ?_
      have hstep : credStep s₁ (.commit t) = some (s₁.commit t) := by
        simp [credStep, credAct, CredEvent.actor, ht]
      exact h.task pre [.commit t] post s₁ (s₁.commit t) t hevs hpre (by simp [credRun, hstep])
        ht htaint
    | _ => rfl
  · intro hkeep
    constructor
    · intro pre post rest s₁ s₂ t hevs hpre hpost ht htaint
      rw [hevs, Run.Along.append_iff] at hkeep
      have hpart := (Run.Along.append_iff.mp (hkeep.2 s₁ hpre)).1
      exact credRun_tainted (credRun_sound hs hpre) hpart hpost ht htaint
    · intro pre e post rest s₁ s₂ t hevs hfork hpre hpost htaint
      rw [hevs, Run.Along.append_iff] at hkeep
      have hpart := (Run.Along.append_iff.mp (hkeep.2 s₁ hpre)).1
      obtain ⟨s', hstep, hrest⟩ := Run.cons_some hpost
      obtain ⟨htasks, hchild⟩ := credStep_child hfork hstep
      exact credRun_tainted (credStep_spec (credRun_sound hs hpre) hstep).1 (hpart.2 s' hstep) hrest
        (by omega) (hchild.trans htaint)

/-! ## Credentials in the making -/

/-- `cred_prepare` built the credential `c` for `t` when `t` was tainted. -/
def MadeInRealm (s₀ : CredSystem) (evs : List CredEvent) (t c : Nat) : Prop :=
  ∃ pre random post s₁, evs = pre ++ .prepare t random :: post ∧ credRun s₀ pre = some s₁ ∧
    s₁.fresh = c ∧ s₁.tainted t = true

theorem credStep_fresh {s s' : CredSystem} {e : CredEvent} (h : credStep s e = some s') :
    s.fresh ≤ s'.fresh := by
  replace h := (credStep_some h).2
  have hlift : ∀ e', s.liftIpc e' = some s' → s.fresh ≤ s'.fresh := by
    intro e' hstep
    obtain ⟨ipc, -, hs'⟩ := Option.bind_eq_some_iff.mp hstep
    cases hs'
    exact le_rfl
  cases e with
  | prepare t random => cases h; exact Nat.le_succ _
  | allocBlank t random => cases h; exact Nat.le_succ _
  | transfer t => cases h; exact le_rfl
  | commit t =>
    cases h
    unfold CredSystem.commit
    cases (s.proc t).pending <;> exact le_rfl
  | fork t pid random => cases h; exact Nat.le_succ _
  | thread t pid => cases h; exact le_rfl
  | access hook t i now vfs => exact hlift _ h
  | shm hook env t perm => exact hlift _ h
  | housekeeping t now => exact hlift _ h
  | insertTicket rb allocs now r => exact hlift _ h
  | labels data disk citadelPid => exact hlift _ h

section Making

variable {s₀ s s' : CredSystem} {evs : List CredEvent} {e : CredEvent} {t c : Nat}

theorem MadeInRealm.lt_fresh (h : MadeInRealm s₀ evs t c) (hrun : credRun s₀ evs = some s) :
    c < s.fresh := by
  obtain ⟨pre, random, post, s₁, rfl, hpre, rfl, -⟩ := h
  obtain ⟨s₂, hpre', hrest⟩ := Run.append_some hrun
  obtain rfl : s₁ = s₂ := Option.some.inj (hpre.symm.trans hpre')
  obtain ⟨s₃, hstep, hpost⟩ := Run.cons_some hrest
  have hmade : s₁.fresh < s₃.fresh := by
    cases (credStep_some hstep).2
    exact Nat.lt_succ_self _
  exact Run.invariant (P := fun s => s₁.fresh < s.fresh) (Q := fun _ => True)
    (fun _ _ _ hlt _ hstep => Nat.lt_of_lt_of_le hlt (credStep_fresh hstep)) hmade
    (fun _ _ => trivial) hpost

/-- The last event built it, or it was there before. -/
theorem MadeInRealm.concat_iff (hrun : credRun s₀ evs = some s) :
    MadeInRealm s₀ (evs ++ [e]) t c ↔
      MadeInRealm s₀ evs t c ∨
        (∃ random, e = .prepare t random) ∧ s.fresh = c ∧ s.tainted t = true := by
  constructor
  · rintro ⟨pre, random, post, s₁, hevs, hpre, hfresh, htaint⟩
    rcases List.eq_nil_or_concat post with rfl | ⟨post, last, rfl⟩
    · obtain ⟨rfl, hlast⟩ := List.append_inj_left' hevs rfl, List.append_inj_right' hevs rfl
      obtain rfl : s₁ = s := Option.some.inj (hpre.symm.trans hrun)
      exact .inr ⟨⟨random, List.singleton_inj.mp hlast⟩, hfresh, htaint⟩
    · rw [List.concat_eq_append, ← List.cons_append, ← List.append_assoc] at hevs
      exact .inl ⟨pre, random, post, s₁, List.append_inj_left' hevs rfl, hpre, hfresh, htaint⟩
  · rintro (⟨pre, random, post, s₁, rfl, hmade⟩ | ⟨⟨random, rfl⟩, hfresh, htaint⟩)
    · exact ⟨pre, random, post ++ [e], s₁, by simp, hmade⟩
    · exact ⟨evs, random, [], s, rfl, hrun, hfresh, htaint⟩

/-- What is in the making is in the making for one task, nobody runs on it
yet, and it has the taint it was built with. -/
structure PendingMade (s₀ : CredSystem) (evs : List CredEvent) (s : CredSystem) : Prop where
  sound : s.Sound
  made : ∀ t < s.tasks, ∀ c ∈ (s.proc t).pending,
    ((s.kernel.cred c).inRealm = true ↔ MadeInRealm s₀ evs t c)
  unused : ∀ t < s.tasks, ∀ c ∈ (s.proc t).pending, ∀ u < s.tasks, (s.proc u).cred ≠ c
  own : ∀ t < s.tasks, ∀ c ∈ (s.proc t).pending, ∀ u < s.tasks, c ∈ (s.proc u).pending → u = t

/-- An event that puts nothing new in the making: what still is in the
making was so before, with the same taint. -/
theorem PendingMade.frame (h : PendingMade s₀ evs s) (hrun : credRun s₀ evs = some s)
    (hsound : s'.Sound)
    (hpending : ∀ t < s'.tasks, ∀ c ∈ (s'.proc t).pending, t < s.tasks ∧ c ∈ (s.proc t).pending ∧
      (s'.kernel.cred c).inRealm = (s.kernel.cred c).inRealm)
    (hunused : ∀ t < s'.tasks, ∀ c ∈ (s'.proc t).pending, ∀ u < s'.tasks, (s'.proc u).cred ≠ c) :
    PendingMade s₀ (evs ++ [e]) s' where
  sound := hsound
  made := by
    intro t ht c hc
    obtain ⟨ht', hc', hsame⟩ := hpending t ht c hc
    rw [hsame, h.made t ht' c hc', MadeInRealm.concat_iff hrun]
    refine ⟨.inl, fun hmade => hmade.resolve_right ?_⟩
    rintro ⟨-, hfresh, -⟩
    exact absurd (h.sound.pending t ht' c hc') (by omega)
  unused := hunused
  own := by
    intro t ht c hc u hu hcu
    obtain ⟨ht', hc', -⟩ := hpending t ht c hc
    obtain ⟨hu', hcu', -⟩ := hpending u hu c hcu
    exact h.own t ht' c hc' u hu' hcu'

/-- What is in the making afterwards: the new credential for `t`, and what
the others had. -/
theorem mem_makePending {k : Kernel} {u d : Nat} :
    d ∈ ((s.makePending t k).proc u).pending ↔
      u = t ∧ d = s.fresh ∨ u ≠ t ∧ d ∈ (s.proc u).pending := by
  by_cases hut : u = t
  · subst hut
    simp [CredSystem.makePending, eq_comm]
  · simp [CredSystem.makePending, hut]

/-- The new credential is in the realm if the one it is built from is. -/
theorem makePending_inRealm (s : CredSystem) (t : Nat) (random : Identifier)
    (previous : Option TaskData) :
    ((s.makePending t (s.kernel.setCred s.fresh (initTaskTrm random previous))).kernel.cred
      s.fresh).inRealm = previous.elim false TaskData.inRealm := by
  cases previous <;>
    simp [CredSystem.makePending, CredSystem.newCred, CredSystem.kernel, Kernel.setCred,
      initTaskTrm]

/-- An event that builds a credential for `t`, from `previous`. -/
theorem PendingMade.makePending (h : PendingMade s₀ evs s) (hrun : credRun s₀ evs = some s)
    (random : Identifier) (previous : Option TaskData)
    (hbuilt : previous.elim false TaskData.inRealm = true ↔
      (∃ random, e = .prepare t random) ∧ s.tainted t = true)
    (hother : ∀ u random, e = .prepare u random → u = t) :
    PendingMade s₀ (evs ++ [e])
      (s.makePending t (s.kernel.setCred s.fresh (initTaskTrm random previous))) := by
  -- what was in the making is none of the new ones
  have hold : ∀ {u}, u < s.tasks → s.fresh ∉ (s.proc u).pending :=
    fun hu hd => absurd (h.sound.pending _ hu _ hd) (Nat.lt_irrefl _)
  refine ⟨h.sound.makePending t random previous, fun u hu d hd => ?_, fun u hu d hd v hv => ?_,
    fun u hu d hd v hv hdv => ?_⟩
  · rw [MadeInRealm.concat_iff hrun]
    rcases mem_makePending.mp hd with ⟨rfl, rfl⟩ | ⟨hut, hd'⟩
    · rw [makePending_inRealm, hbuilt]
      constructor
      · rintro ⟨hprepare, htaint⟩
        exact .inr ⟨hprepare, rfl, htaint⟩
      · rintro (hmade | ⟨hprepare, -, htaint⟩)
        · exact absurd (hmade.lt_fresh hrun) (Nat.lt_irrefl _)
        · exact ⟨hprepare, htaint⟩
    · have hsame := (setUp_spec h.sound.wf s.fresh random previous).2 d
        (h.sound.pending u hu d hd')
      have hval : ((s.makePending t (s.kernel.setCred s.fresh
          (initTaskTrm random previous))).kernel.cred d).inRealm = (s.kernel.cred d).inRealm :=
        congrArg TaskData.inRealm hsame
      rw [hval, h.made u hu d hd']
      refine ⟨.inl, fun hmade => hmade.resolve_right ?_⟩
      rintro ⟨⟨random', hprepare⟩, -⟩
      exact hut (hother u random' hprepare)
  · rw [makePending_cred]
    rcases mem_makePending.mp hd with ⟨rfl, rfl⟩ | ⟨-, hd'⟩
    · exact Nat.ne_of_lt (h.sound.cred v hv)
    · exact h.unused u hu d hd' v hv
  · rcases mem_makePending.mp hd with ⟨rfl, rfl⟩ | ⟨-, hd'⟩
    · rcases mem_makePending.mp hdv with ⟨rfl, -⟩ | ⟨-, hdv'⟩
      · rfl
      · exact absurd hdv' (hold hv)
    · rcases mem_makePending.mp hdv with ⟨-, rfl⟩ | ⟨-, hdv'⟩
      · exact absurd hd' (hold hu)
      · exact h.own u hu d hd' v hv hdv'

/-- A hook that a task calls, on the credential it has. -/
theorem PendingMade.liftIpc (h : PendingMade s₀ evs s) (hrun : credRun s₀ evs = some s)
    {e' : IpcEvent} (hstep : s.liftIpc e' = some s') (hset : ∀ c, e'.setsUp c = false)
    (hcaller : ∀ cur, e'.caller = some cur → ∃ u < s.tasks, cur = s.current u) :
    PendingMade s₀ (evs ++ [e]) s' := by
  have hsound := (liftIpc_spec h.sound hset hstep).1
  obtain ⟨ipc, hipc, hs'⟩ := Option.bind_eq_some_iff.mp hstep
  cases hs'
  refine h.frame hrun hsound (fun u hu d hd => ⟨hu, hd, ?_⟩) h.unused
  refine ipcStep_untouched h.sound.wf (hset d) (fun cur hcur => ?_) hipc
  obtain ⟨v, hv, rfl⟩ := hcaller cur hcur
  exact h.unused u hu d hd v hv

theorem PendingMade.commit (h : PendingMade s₀ evs s) (hrun : credRun s₀ evs = some s)
    (t : Nat) : PendingMade s₀ (evs ++ [e]) (s.commit t) := by
  have hsound := h.sound.commit t
  unfold CredSystem.commit at hsound ⊢
  cases hp : (s.proc t).pending with
  | none => exact h.frame hrun h.sound (fun u hu d hd => ⟨hu, hd, rfl⟩) h.unused
  | some c =>
    rw [hp] at hsound
    -- the one that is committed is in the making no more
    have hold : ∀ {u d}, d ∈ (Function.update s.proc t ⟨(s.proc t).pid, c, none⟩ u).pending →
        u ≠ t ∧ d ∈ (s.proc u).pending := by
      intro u d hd
      by_cases hut : u = t
      · subst hut
        simp at hd
      · exact ⟨hut, by simpa [hut] using hd⟩
    refine h.frame hrun hsound (fun u hu d hd => ⟨hu, (hold hd).2, rfl⟩) fun u hu d hd v hv => ?_
    obtain ⟨hut, hd'⟩ := hold hd
    by_cases hvt : v = t
    · subst hvt
      rintro heq
      have hc : c = d := by simpa using heq
      exact hut (h.own v hv c hp u hu (hc ▸ hd'))
    · simpa [hvt] using h.unused u hu d hd' v hv

/-- A task that begins with nothing in the making, on a credential nobody
has in the making. -/
theorem PendingMade.addTask (h : PendingMade s₀ evs s) (hrun : credRun s₀ evs = some s)
    {k : CredSystem} (hk : k.Sound) (htasks : k.tasks = s.tasks) (hproc : k.proc = s.proc)
    (hcred : ∀ c < s.fresh, k.kernel.cred c = s.kernel.cred c) (pid : Pid) {m : Nat}
    (hm : m < k.fresh) (hunused : ∀ u < s.tasks, ∀ c ∈ (s.proc u).pending, m ≠ c) :
    PendingMade s₀ (evs ++ [e]) (k.addTask ⟨pid, m, none⟩) := by
  have hold : ∀ {u d}, u < s.tasks + 1 →
      d ∈ (Function.update s.proc s.tasks ⟨pid, m, none⟩ u).pending →
      u < s.tasks ∧ d ∈ (s.proc u).pending := by
    intro u d hu hd
    by_cases hut : u = s.tasks
    · subst hut
      simp at hd
    · exact ⟨by omega, by simpa [hut] using hd⟩
  refine h.frame hrun (hk.addTask pid hm) (fun u hu d hd => ?_) fun u hu d hd v hv => ?_
  · simp only [CredSystem.addTask, htasks, hproc] at hu hd
    obtain ⟨hu', hd'⟩ := hold hu hd
    exact ⟨hu', hd', congrArg TaskData.inRealm (hcred d (h.sound.pending u hu' d hd'))⟩
  · simp only [CredSystem.addTask, htasks, hproc] at hu hd hv ⊢
    obtain ⟨hu', hd'⟩ := hold hu hd
    by_cases hvt : v = s.tasks
    · subst hvt
      simpa using hunused u hu' d hd'
    · simpa [hvt] using h.unused u hu' d hd' v (by omega)

theorem PendingMade.step (h : PendingMade s₀ evs s) (hrun : credRun s₀ evs = some s)
    (hstep : credStep s e = some s') : PendingMade s₀ (evs ++ [e]) s' := by
  obtain ⟨hactor, hact⟩ := credStep_some hstep
  have hcalls : ∀ {u : Nat}, u < s.tasks → ∀ cur, some (s.current u) = some cur →
      ∃ v < s.tasks, cur = s.current v := by
    intro u hu cur hcur
    exact ⟨u, hu, (Option.some.inj hcur).symm⟩
  cases e with
  | prepare u random =>
    cases hact
    refine h.makePending hrun random _ ⟨fun htaint => ⟨⟨random, rfl⟩, htaint⟩, And.right⟩ ?_
    intro v random' heq
    exact (CredEvent.prepare.inj heq).1.symm
  | allocBlank u random =>
    cases hact
    refine h.makePending hrun random none ⟨fun hfalse => absurd hfalse Bool.false_ne_true, ?_⟩ ?_
    · rintro ⟨⟨random', heq⟩, -⟩
      cases heq
    · intro v random' heq
      cases heq
  | transfer u =>
    cases hact
    exact h.frame hrun h.sound (fun v hv d hd => ⟨hv, hd, rfl⟩) h.unused
  | commit u =>
    cases hact
    exact h.commit hrun u
  | fork u pid random =>
    cases hact
    refine h.addTask hrun (h.sound.newCred random (some (s.kernel.cred (s.proc u).cred))) rfl rfl
      (setUp_spec h.sound.wf s.fresh random _).2 pid (Nat.lt_succ_self _) fun v hv d hd => ?_
    exact (Nat.ne_of_lt (h.sound.pending v hv d hd)).symm
  | thread u pid =>
    cases hact
    exact h.addTask hrun h.sound rfl rfl (fun _ _ => rfl) pid (h.sound.cred u (hactor u rfl))
      fun v hv d hd => h.unused v hv d hd u (hactor u rfl)
  | access hook u i now vfs =>
    exact h.liftIpc hrun hact (fun _ => rfl) (hcalls (hactor u rfl))
  | shm hook env u perm => exact h.liftIpc hrun hact (fun _ => rfl) (hcalls (hactor u rfl))
  | housekeeping u now => exact h.liftIpc hrun hact (fun _ => rfl) (hcalls (hactor u rfl))
  | insertTicket rb allocs now r =>
    exact h.liftIpc hrun hact (fun _ => rfl) fun _ hcur => by cases hcur
  | labels data disk citadelPid =>
    exact h.liftIpc hrun hact (fun _ => rfl) fun _ hcur => by cases hcur

theorem pendingMade_run (hs : s₀.Sound) (hidle : ∀ t < s₀.tasks, (s₀.proc t).pending = none)
    (hrun : credRun s₀ evs = some s) : PendingMade s₀ evs s := by
  induction evs using List.reverseRecOn generalizing s with
  | nil =>
    cases hrun
    have hno : ∀ t < s₀.tasks, ∀ c, c ∉ (s₀.proc t).pending := by
      intro t ht c hc
      rw [hidle t ht] at hc
      cases hc
    exact ⟨hs, fun t ht c hc => absurd hc (hno t ht c), fun t ht c hc => absurd hc (hno t ht c),
      fun t ht c hc => absurd hc (hno t ht c)⟩
  | append_singleton evs e ih =>
    obtain ⟨s₁, hrun₁, hlast⟩ := Run.concat_some hrun
    exact (ih hrun₁).step hrun₁ hlast

/-- Over every run that begins with nothing in the making: a credential in
the making is in the realm exactly if `cred_prepare` built it after its
task had got there. No hook in between reaches it. -/
theorem pending_inRealm_iff (hs : s₀.Sound)
    (hidle : ∀ t < s₀.tasks, (s₀.proc t).pending = none) (hrun : credRun s₀ evs = some s)
    (ht : t < s.tasks) (hc : (s.proc t).pending = some c) :
    (s.kernel.cred c).inRealm = true ↔ MadeInRealm s₀ evs t c :=
  (pendingMade_run hs hidle hrun).made t ht c hc

/-- So a commit keeps the taint of its task exactly if it commits such a
one. -/
theorem keepsTaint_iff_madeInRealm (hs : s₀.Sound)
    (hidle : ∀ t < s₀.tasks, (s₀.proc t).pending = none) (hrun : credRun s₀ evs = some s)
    (ht : t < s.tasks) (htaint : s.tainted t = true) (hc : (s.proc t).pending = some c) :
    (CredEvent.commit t).keepsTaint s = true ↔ MadeInRealm s₀ evs t c := by
  rw [keepsTaint_commit_iff, commit_tainted, if_pos rfl, hc, Option.elim_some,
    pending_inRealm_iff hs hidle hrun ht hc]
  exact ⟨fun h => h ht htaint, fun h _ _ => h⟩

end Making

/-- Task 0 is pid 7 with a tainted credential, task 1 pid 8 with an
untainted one; file 2 is the secret file. -/
def twoTasks : CredSystem where
  ipc :=
    { freshSegment with
      system := { pipeAndFiles with
        kernel := Kernel.boot fun c =>
          { initTaskTrm (zeros _) none with inRealm := decide (c = 0) } } }
  tasks := 2
  proc := fun t => ⟨if t = 0 then 7 else 8, if t = 0 then 0 else 1, none⟩
  fresh := 2

theorem twoTasks_sound : twoTasks.Sound := by
  refine ⟨(Kernel.boot_keyed _).toWf, fun t _ => ?_, fun t _ c hc => by cases hc⟩
  change (if t = 0 then 0 else 1) < 2
  split <;> decide

/-- Task 0 forks, and changes its credential by a copy. -/
theorem copied_credential_keeps_taint :
    TaintKept twoTasks [.fork 0 9 (fill _ 1), .prepare 0 (fill _ 2), .commit 0] := by
  refine (taint_survives_iff twoTasks_sound _).mpr ⟨rfl, fun s hs => ⟨rfl, fun s' hs' => ⟨?_, ?_⟩⟩⟩
  · have hkeep : ((credStep twoTasks (.fork 0 9 (fill _ 1))).bind fun s =>
        (credStep s (.prepare 0 (fill _ 2))).map fun s' => (CredEvent.commit 0).keepsTaint s') =
        some true := by decide +kernel
    rw [hs, Option.bind_some, hs', Option.map_some, Option.some.injEq] at hkeep
    exact hkeep
  · intro _ _
    trivial

/-- Task 0 is tainted and is not after a blank credential has been
transferred to and committed. Task 1 has a copy prepared, then opens the
secret file with its ticket and is tainted, and is not after the commit. -/
theorem taint_lost_at_commit :
    (credRun twoTasks [.allocBlank 0 (fill _ 1), .transfer 0]).map (fun s => s.tainted 0) =
      some true ∧
    (credRun twoTasks [.allocBlank 0 (fill _ 1), .transfer 0, .commit 0]).map
      (fun s => s.tainted 0) = some false ∧
    (credRun twoTasks [.prepare 1 (fill _ 1), .insertTicket .none .ok 100 ⟨8, fill _ 9, opOpen⟩,
      .access .fileOpen 1 2 200 ⟨true, true⟩]).map (fun s => s.tainted 1) = some true ∧
    (credRun twoTasks [.prepare 1 (fill _ 1), .insertTicket .none .ok 100 ⟨8, fill _ 9, opOpen⟩,
      .access .fileOpen 1 2 200 ⟨true, true⟩, .commit 1]).map (fun s => s.tainted 1) =
      some false := by
  decide +kernel

end Citadel
