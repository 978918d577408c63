/-
Citadel.Lsm.SegmentTaint — taint between tasks and shared memory segments,
over whole runs.

A run interleaves the three shared memory hooks, by any tasks on any
segments, with any other activity of the module. What holds is about the
moment of an admission: `admission_levels_taint` says that a task other
than Citadel itself and the segment it has just been let into are both in
the realm or both outside it, and that a task let into a segment in the
realm stays in the realm.

What does NOT hold is the same of all inhabitants at all times. A task that
joins while everything is untainted stays untainted when a tainted task
joins later and taints the segment: no code visits the inhabitants that
`add_to_shmid` records (`untainted_inhabitants`).
-/
import Citadel.Lsm.Ipc
import Citadel.Lsm.SystemRun

namespace Citadel

open SearchTree Bytes

/-! ## Runs -/

inductive IpcEvent where
  | shm (hook : ShmHook) (env : ShmEnv) (cur : Task) (perm : Option Nat)
  | lsm (e : LsmEvent)

def ipcStep (s : IpcSystem) : IpcEvent → Option IpcSystem
  | .shm hook env cur perm => do
    let (s, _) ← hook.call s env cur perm
    some s
  | .lsm e => do
    let system ← lsmStep s.system e
    some { s with system := system }

def ipcRun (s : IpcSystem) (evs : List IpcEvent) : Option IpcSystem := evs.foldlM ipcStep s

/-- The event sets up this credential. -/
def IpcEvent.setsUp (c : Nat) : IpcEvent → Bool
  | .shm _ _ _ _ => false
  | .lsm e => e.setsUp c

/-! ## One call -/

/-- The record of an admission is all that changes. -/
theorem allowShmAccess_frame {s s' : IpcSystem} {env : ShmEnv} {cur : Task} {key : Key} {r : Int}
    (h : allowShmAccess s env cur key = (s', r)) :
    s'.system = s.system ∧ s'.segment = s.segment := by
  unfold allowShmAccess at h
  split at h
  · cases h
    exact ⟨rfl, rfl⟩
  · cases h
    exact ⟨rfl, rfl⟩

theorem ShmHook.call_eq (hook : ShmHook) (s : IpcSystem) (env : ShmEnv) (cur : Task)
    (perm : Option Nat) : hook.call s env cur perm = shmCanAccess s env cur perm := by
  cases hook <;> rfl

/-- What a call that returns has done: let the caller in while both are
untainted or because it is Citadel, let it in with a ticket, or refused. -/
theorem ShmHook.call_cases {hook : ShmHook} {s s' : IpcSystem} {env : ShmEnv} {cur : Task}
    {perm : Option Nat} {r : Int} (h : hook.call s env cur perm = some (s', r)) :
    ∃ j, perm = some j ∧
      ((s' = s ∧ r = eacces) ∨
       (s'.system = s.system ∧ s'.segment = s.segment ∧
        ((s.system.task cur).inRealm = false ∧ (s.segment j).data.inRealm = false ∨
          cur.pid = s.system.citadelPid)) ∨
       s'.system = (s.level cur j).system ∧ s'.segment = (s.level cur j).segment) := by
  rw [ShmHook.call_eq] at h
  cases perm with
  | none => cases h
  | some j =>
    refine ⟨j, rfl, ?_⟩
    simp only [shmCanAccess] at h
    split at h
    · rename_i hfree
      obtain ⟨hsys, hseg⟩ := allowShmAccess_frame (Option.some.inj h)
      simp only [Bool.and_eq_true, Bool.not_eq_true'] at hfree
      exact .inr (.inl ⟨hsys, hseg, .inl hfree⟩)
    · split at h
      · rename_i hcitadel
        obtain ⟨hsys, hseg⟩ := allowShmAccess_frame (Option.some.inj h)
        exact .inr (.inl ⟨hsys, hseg, .inr hcitadel⟩)
      · obtain ⟨head, -, h⟩ := Option.bind_eq_some_iff.mp h
        obtain ⟨found, -, h⟩ := Option.bind_eq_some_iff.mp h
        split at h
        · exact .inr (.inr (allowShmAccess_frame (Option.some.inj h)))
        · cases h
          exact .inl ⟨rfl, rfl⟩

/-- A ticketed access leaves task and segment with the same taint, the
union of what they had. -/
theorem level_taint (s : IpcSystem) (cur : Task) (j : Nat) :
    ((s.level cur j).system.task cur).inRealm =
        ((s.system.task cur).inRealm || (s.segment j).data.inRealm) ∧
      ((s.level cur j).segment j).data.inRealm =
        ((s.system.task cur).inRealm || (s.segment j).data.inRealm) := by
  unfold IpcSystem.level
  cases htask : (s.system.task cur).inRealm <;> cases hseg : (s.segment j).data.inRealm <;>
    simp [System.task, Kernel.setCred] at htask ⊢ <;> simp [htask, hseg]

/-- Its other effect on the credential is none. -/
theorem level_kernel (s : IpcSystem) (cur : Task) (j : Nat) :
    ∃ d : TaskData, (s.level cur j).system.kernel = s.system.kernel.setCred cur.cred d ∧
      d.ticketHead = (s.system.kernel.cred cur.cred).ticketHead ∧
      ((s.system.kernel.cred cur.cred).inRealm = true → d.inRealm = true) := by
  refine ⟨if (s.segment j).data.inRealm then { s.system.task cur with inRealm := true }
    else s.system.task cur, rfl, ?_, ?_⟩
  · split <;> rfl
  · intro htaint
    split
    · rfl
    · exact htaint

/-! ## Steps and runs -/

theorem ipcStep_wf {s s' : IpcSystem} {e : IpcEvent} (hwf : s.system.kernel.Wf)
    (h : ipcStep s e = some s') : s'.system.kernel.Wf := by
  cases e with
  | shm hook env cur perm =>
    obtain ⟨⟨s₁, r⟩, hcall, hs⟩ := Option.bind_eq_some_iff.mp h
    cases hs
    obtain ⟨j, -, ⟨rfl, -⟩ | ⟨hsys, -⟩ | ⟨hsys, -⟩⟩ := ShmHook.call_cases hcall
    · exact hwf
    · rw [hsys]
      exact hwf
    · obtain ⟨d, hk, hhead, -⟩ := level_kernel s cur j
      rw [hsys, hk]
      exact setCred_wf hwf hhead
  | lsm e =>
    obtain ⟨system, hstep, hs⟩ := Option.bind_eq_some_iff.mp h
    cases hs
    exact lsmStep_wf hwf hstep

/-- No event but a new set-up takes the taint off a credential. -/
theorem ipcStep_taint {s s' : IpcSystem} {e : IpcEvent} {c : Nat} (hwf : s.system.kernel.Wf)
    (hset : e.setsUp c = false) (h : ipcStep s e = some s')
    (htaint : (s.system.kernel.cred c).inRealm = true) :
    (s'.system.kernel.cred c).inRealm = true := by
  cases e with
  | shm hook env cur perm =>
    obtain ⟨⟨s₁, r⟩, hcall, hs⟩ := Option.bind_eq_some_iff.mp h
    cases hs
    obtain ⟨j, -, ⟨rfl, -⟩ | ⟨hsys, -⟩ | ⟨hsys, -⟩⟩ := ShmHook.call_cases hcall
    · exact htaint
    · rw [hsys]
      exact htaint
    · obtain ⟨d, hk, -, hd⟩ := level_kernel s cur j
      rw [hsys, hk]
      exact setCred_taint hd htaint
  | lsm e =>
    obtain ⟨system, hstep, hs⟩ := Option.bind_eq_some_iff.mp h
    cases hs
    exact lsmStep_taint hwf hset hstep htaint

theorem ipcRun_wf {s s' : IpcSystem} (hboot : s.system.Booted) {evs : List IpcEvent}
    (h : ipcRun s evs = some s') : s'.system.kernel.Wf := by
  obtain ⟨cred, hcred⟩ := hboot
  refine Run.invariant (P := fun s => s.system.kernel.Wf) (Q := fun _ => True)
    (fun s s' e hwf _ he => ipcStep_wf hwf he) ?_ (fun _ _ => trivial) h
  rw [hcred]
  exact (Kernel.boot_keyed cred).toWf

/-! ## Admissions -/

/-- In every run: a task other than Citadel's and the segment it is let
into are level afterwards, and a task let into a segment in the realm is in
the realm as long as its credential lives. -/
theorem admission_levels_taint {s₀ s s' s'' : IpcSystem} (hboot : s₀.system.Booted)
    {pre post : List IpcEvent} {hook : ShmHook} {env : ShmEnv} {cur : Task} {j : Nat}
    (hpre : ipcRun s₀ pre = some s) (hcitadel : cur.pid ≠ s.system.citadelPid)
    (hgrant : hook.call s env cur (some j) = some (s', 0)) (hpost : ipcRun s' post = some s'')
    (hlive : ∀ e ∈ post, e.setsUp cur.cred = false) :
    (s'.system.task cur).inRealm = (s'.segment j).data.inRealm ∧
      ((s'.segment j).data.inRealm = true → (s''.system.task cur).inRealm = true) := by
  have hlevel : (s'.system.task cur).inRealm = (s'.segment j).data.inRealm := by
    obtain ⟨i, hij, hcases⟩ := ShmHook.call_cases hgrant
    obtain rfl : j = i := Option.some.inj hij
    rcases hcases with ⟨-, hr⟩ | ⟨hsys, hseg, ⟨htask, hfree⟩ | hpid⟩ | ⟨hsys, hseg⟩
    · cases hr
    · rw [hsys, hseg, htask, hfree]
    · exact absurd hpid hcitadel
    · rw [hsys, hseg, (level_taint s cur j).1, (level_taint s cur j).2]
  refine ⟨hlevel, fun hrealm => ?_⟩
  have hstep : ipcStep s (.shm hook env cur (some j)) = some s' := by
    rw [ipcStep, hgrant]
    rfl
  have hwf : s'.system.kernel.Wf := ipcStep_wf (ipcRun_wf hboot hpre) hstep
  exact (Run.invariant
    (P := fun s => s.system.kernel.Wf ∧ (s.system.kernel.cred cur.cred).inRealm = true)
    (Q := fun e => e.setsUp cur.cred = false)
    (fun _ _ _ hs he h => ⟨ipcStep_wf hs.1 h, ipcStep_taint hs.1 he h hs.2⟩)
    ⟨hwf, hlevel.trans hrealm⟩ hlive hpost).2

/-- Credential 2 is tainted, pid 5 is Citadel, and all segments are fresh
with key 9. -/
def freshSegment : IpcSystem where
  system :=
    ⟨Kernel.boot fun c => { initTaskTrm (zeros _) none with inRealm := decide (c = 2) },
      fun _ => ⟨2, false, .other⟩, fun _ => .alloc, fun _ => ⟨false, none⟩, 5⟩
  pool := .empty
  segment := fun _ => trmIpcAllocSecurity ⟨9, ⟨true, zeros _⟩⟩

/-- No rebalancing and no failing allocation. -/
def calmShm : ShmEnv := ⟨.none, .ok⟩

/-- Pid 7 attaches the segment; pid 8, tainted, gets a ticket for it. -/
def firstAttached : List IpcEvent :=
  [.shm .shmat calmShm ⟨7, 1⟩ (some 0),
    .lsm (.insertTicket .none .ok 100 ⟨8, keyIdentifier 9, opShm⟩),
    .lsm (.housekeeping ⟨8, 2⟩ 200)]

theorem ticketed_attach_levels :
    ∃ s s', ipcRun freshSegment firstAttached = some s ∧
      ShmHook.shmat.call s calmShm ⟨8, 2⟩ (some 0) = some (s', 0) ∧
      (s'.system.task ⟨8, 2⟩).inRealm = (s'.segment 0).data.inRealm := by
  obtain ⟨s, hrun, hs⟩ := Option.bind_eq_some_iff.mp
    (show ((ipcRun freshSegment firstAttached).bind fun s =>
      (ShmHook.shmat.call s calmShm ⟨8, 2⟩ (some 0)).map fun out =>
        (out.2, s.system.citadelPid)) = some (0, 5) by decide +kernel)
  obtain ⟨⟨s', r⟩, hcall, hr⟩ := Option.map_eq_some_iff.mp hs
  simp only [Prod.mk.injEq] at hr
  obtain ⟨rfl, hpid⟩ := hr
  exact ⟨s, s', hrun, hcall, (admission_levels_taint ⟨_, rfl⟩ hrun (by rw [hpid]; decide) hcall
    (show ipcRun s' [] = some s' from rfl) (fun e he => by cases he)).1⟩

/-- Then pid 8 attaches and taints the segment, and Citadel attaches: all
three are recorded, pids 7 and 5 without taint. -/
theorem untainted_inhabitants :
    (ipcRun freshSegment (firstAttached ++
        [.shm .shmat calmShm ⟨8, 2⟩ (some 0), .shm .shmat calmShm ⟨5, 3⟩ (some 0)])).map
      (fun s => ((s.segment 0).data.inRealm,
        (shmidSearch s.pool 9).map (fun n => (s.pool.node n).pids),
        [(s.system.task ⟨7, 1⟩).inRealm, (s.system.task ⟨8, 2⟩).inRealm,
          (s.system.task ⟨5, 3⟩).inRealm])) =
      some (true, some [7, 8, 5], [false, true, false]) := by
  decide +kernel

end Citadel
