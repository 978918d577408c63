/-
Citadel.Lsm.SystemRun — runs of the whole module, and what they do to the
queues.

A run interleaves insertions, with whatever memory they get, calls of the
three access hooks, the bare housekeeping of the other hooks, credentials
being set up, and anything at all happening to labels and registration
(`LsmEvent.labels` replaces them wholesale: label installs,
declassification, eviction, a new Citadel).

Each event acts on the queues as `LsmEvent.act` says (`lsmStep_queues`), so a
property of the tickets over a run is a property of a fold over queues,
with no pointer in sight.
-/
import Citadel.Lib.Run
import Citadel.Lsm.AccessTheorems

namespace Citadel

open RingHeap SearchTree

/-! ## Runs -/

inductive LsmEvent where
  | insertTicket (rb : Rebalance Nat) (allocs : Allocs) (now : Int) (r : UpdateRecord)
  | hook (hook : Hook) (cur : Task) (i : Nat) (now : Int) (vfs : VfsResult)
  | housekeeping (cur : Task) (now : Int)
  | initTask (cred : Nat) (random : Identifier) (previous : Option Nat)
  | labels (data : Nat → InodeData) (disk : Nat → Xattrs) (citadelPid : Pid)

/-- One event; `none` is a memory fault. -/
def lsmStep (s : System) : LsmEvent → Option System
  | .insertTicket rb allocs now r => do
    let (k, _) ← insertTicket s.kernel rb allocs now r
    some { s with kernel := k }
  | .hook hook cur i now vfs => do
    let (s, _) ← hook.call s cur i now vfs
    some s
  | .housekeeping cur now => do
    let k ← taskHousekeeping s.kernel cur now
    some { s with kernel := k }
  | .initTask cred random previous =>
    some { s with kernel :=
      s.kernel.setCred cred (initTaskTrm random (previous.map s.kernel.cred)) }
  | .labels data disk citadelPid =>
    some { s with data := data, disk := disk, citadelPid := citadelPid }

def lsmRun (s : System) (evs : List LsmEvent) : Option System := evs.foldlM lsmStep s

/-- The module has just been loaded: no ticket anywhere. -/
def System.Booted (s : System) : Prop := ∃ cred, s.kernel = Kernel.boot cred

/-- A run that came to its end came to its last event. -/
theorem lsmRun_concat_some {s s' : System} {evs : List LsmEvent} {e : LsmEvent}
    (h : lsmRun s (evs ++ [e]) = some s') : ∃ s₁, lsmRun s evs = some s₁ ∧ lsmStep s₁ e = some s' :=
  Run.concat_some h

/-! ## What a run may assume -/

/-- The clock reading of an event. -/
def LsmEvent.time : LsmEvent → Option Int
  | .insertTicket _ _ now _ => some now
  | .hook _ _ _ now _ => some now
  | .housekeeping _ now => some now
  | .initTask _ _ _ => none
  | .labels _ _ _ => none

/-- The task that runs an event with its housekeeping. -/
def LsmEvent.caller : LsmEvent → Option Task
  | .hook _ cur _ _ _ => some cur
  | .housekeeping cur _ => some cur
  | _ => none

/-- The clock does not go backwards. -/
def ClockForward (evs : List LsmEvent) : Prop := (evs.filterMap LsmEvent.time).Pairwise (· ≤ ·)

/-- Every record of the run has a non-negative pid. -/
def RecordPidsNonneg (evs : List LsmEvent) : Prop :=
  ∀ rb allocs now r, LsmEvent.insertTicket rb allocs now r ∈ evs → 0 ≤ r.pid.toInt

/-- The pid has its node. -/
def Kernel.reserved (k : Kernel) (p : Pid) : Bool := (ticketSearch k p).isSome

/-- The tickets an event issues to `p`, where the pids in `reserved` have
their nodes. -/
def LsmEvent.ticketsFor (reserved : Pid → Bool) (p : Pid) : LsmEvent → List Ticket
  | .insertTicket _ allocs now r =>
    if r.pid = p then (r.received (reserved r.pid) allocs).elim [] (·.tickets now) else []
  | _ => []

/-- The tickets issued to `p` over a run, in order: those that
`insert_ticket` had the memory for. -/
def issued (p : Pid) : System → List LsmEvent → List Ticket
  | _, [] => []
  | s, e :: evs =>
    e.ticketsFor s.kernel.reserved p ++ (lsmStep s e).elim [] fun s' => issued p s' evs

theorem issued_concat (p : Pid) {evs : List LsmEvent} : ∀ {s s' : System},
    lsmRun s evs = some s' → ∀ e : LsmEvent,
      issued p s (evs ++ [e]) = issued p s evs ++ e.ticketsFor s'.kernel.reserved p := by
  induction evs with
  | nil =>
    intro s s' h e
    cases h
    rw [List.nil_append, issued, issued, List.nil_append]
    cases lsmStep s e with
    | none => exact List.append_nil _
    | some s' => exact List.append_nil _
  | cons d evs ih =>
    intro s s' h e
    obtain ⟨s₁, hstep, hrest⟩ := Run.cons_some h
    rw [List.cons_append, issued, issued, hstep, Option.elim_some, Option.elim_some, ih hrest,
      List.append_assoc]

/-! ## Events on queues -/

/-- What an event does to the queues, where the pids in `reserved` have
their nodes. -/
def LsmEvent.act (reserved : Pid → Bool) (q : Queues) : LsmEvent → Queues
  | .insertTicket _ allocs now r => (r.received (reserved r.pid) allocs).elim q (q.insert now)
  | .hook _ cur _ now _ => q.housekeep cur now
  | .housekeeping cur now => q.housekeep cur now
  | .initTask cred _ previous => q.reset cred (previous.elim false q.ptyHeld)
  | .labels _ _ _ => q

/-- A decision changes nothing but, at most, the taint of the caller. -/
theorem decideAccess_state {s s' : System} (hrd : s.kernel.Ringed) {cur : Task} {i : Nat}
    {r : Int} (h : decideAccess s cur i = some (s', r)) : s' = s ∨ s' = s.taint cur := by
  rw [decideAccess_eq hrd, Option.some.injEq] at h
  split at h
  · cases h; exact .inl rfl
  · split at h
    · split at h
      · cases h; exact .inr rfl
      · cases h; exact .inl rfl
    · cases h; exact .inl rfl

/-- A hook call that returns: the housekeeping, then the decision. -/
theorem Hook.call_cases {hook : Hook} {s s' : System} {cur : Task} {i : Nat} {now : Int}
    {vfs : VfsResult} {r : Int} (hwf : s.kernel.Wf)
    (h : hook.call s cur i now vfs = some (s', r)) :
    ∃ s₁, hook.prepare s cur i now vfs = some s₁ ∧ Prepared s s₁ cur i now ∧ s₁.kernel.Wf ∧
      decideAccess s₁ cur i = some (s', r) ∧ (s' = s₁ ∨ s' = s₁.taint cur) := by
  rw [Hook.call_eq] at h
  obtain ⟨s₁, hprep, hdec⟩ := Option.bind_eq_some_iff.mp h
  have hp := Hook.prepare_spec hprep
  obtain ⟨k, hrun, hk, -, -⟩ := taskHousekeeping_wf hwf cur now
  rw [hp.kernel, Option.some.injEq] at hrun
  rw [← hrun] at hk
  exact ⟨s₁, hprep, hp, hk, hdec, decideAccess_state hk.ringed hdec⟩

/-- Every event leaves a sound cache behind, whatever pids and times it
comes with. -/
theorem lsmStep_wf {s s' : System} {e : LsmEvent} (hwf : s.kernel.Wf)
    (h : lsmStep s e = some s') : s'.kernel.Wf := by
  cases e with
  | insertTicket rb allocs now r =>
    obtain ⟨⟨k, success⟩, hins, hs⟩ := Option.bind_eq_some_iff.mp h
    cases hs
    exact (insertTicket_some hwf hins).1
  | hook hook cur i now vfs =>
    obtain ⟨⟨s₂, r⟩, hcall, hs⟩ := Option.bind_eq_some_iff.mp h
    cases hs
    obtain ⟨s₁, -, -, hk, -, rfl | rfl⟩ := Hook.call_cases hwf hcall
    · exact hk
    · exact setCred_wf hk rfl
  | housekeeping cur now =>
    obtain ⟨k, hrun, hk, -⟩ := taskHousekeeping_wf hwf cur now
    simp only [lsmStep, hrun, Option.bind_eq_bind, Option.bind_some, Option.some.injEq] at h
    subst h
    exact hk
  | initTask cred random previous =>
    cases h
    exact setCred_reset_wf hwf cred (initTaskTrm_ticketHead random _)
  | labels data disk citadelPid =>
    cases h
    exact hwf

/-- The event sets up this credential. -/
def LsmEvent.setsUp (c : Nat) : LsmEvent → Bool
  | .initTask cred _ _ => cred = c
  | _ => false

theorem setCred_taint {k : Kernel} {c m : Nat} {d : TaskData}
    (hd : (k.cred c).inRealm = true → d.inRealm = true) (h : (k.cred m).inRealm = true) :
    ((k.setCred c d).cred m).inRealm = true := by
  by_cases hm : m = c
  · subst hm
    simpa [Kernel.setCred] using hd h
  · simpa [Kernel.setCred, hm] using h

/-- Nothing but a new set-up takes the taint off a credential. -/
theorem lsmStep_taint {s s' : System} {e : LsmEvent} {c : Nat} (hwf : s.kernel.Wf)
    (hset : e.setsUp c = false) (h : lsmStep s e = some s')
    (htaint : (s.kernel.cred c).inRealm = true) : (s'.kernel.cred c).inRealm = true := by
  cases e with
  | insertTicket rb allocs now r =>
    obtain ⟨⟨k, success⟩, hins, hs⟩ := Option.bind_eq_some_iff.mp h
    cases hs
    rwa [← (insertTicket_some hwf hins).2.1] at htaint
  | hook hook cur i now vfs =>
    obtain ⟨⟨s₂, r⟩, hcall, hs⟩ := Option.bind_eq_some_iff.mp h
    cases hs
    obtain ⟨s₁, -, hp, -, -, hs'⟩ := Hook.call_cases hwf hcall
    obtain ⟨k, hrun, -, -, hcred⟩ := taskHousekeeping_wf hwf cur now
    rw [hp.kernel, Option.some.injEq] at hrun
    rw [← (hcred c).1, ← hrun] at htaint
    rcases hs' with rfl | rfl
    · exact htaint
    · exact setCred_taint (fun _ => rfl) htaint
  | housekeeping cur now =>
    obtain ⟨k, hrun, -, -, hcred⟩ := taskHousekeeping_wf hwf cur now
    simp only [lsmStep, hrun, Option.bind_eq_bind, Option.bind_some, Option.some.injEq] at h
    subst h
    rwa [← (hcred c).1] at htaint
  | initTask cred random previous =>
    cases h
    have hne : c ≠ cred := fun heq => by simp [LsmEvent.setsUp, heq] at hset
    simpa [Kernel.setCred, hne] using htaint
  | labels data disk citadelPid =>
    cases h
    exact htaint

/-- No run from boot loses the soundness of the cache. -/
theorem lsmRun_wf {s s' : System} (hboot : s.Booted) {evs : List LsmEvent}
    (h : lsmRun s evs = some s') : s'.kernel.Wf := by
  obtain ⟨cred, hcred⟩ := hboot
  refine Run.invariant (P := fun s => s.kernel.Wf) (Q := fun _ => True)
    (fun s s' e hwf _ he => lsmStep_wf hwf he) ?_ (fun _ _ => trivial) h
  rw [hcred]
  exact (Kernel.boot_keyed cred).toWf

/-- The kernel after an event is keyed and its queues are what the event
makes of them. -/
theorem lsmStep_queues {s s' : System} {e : LsmEvent} (hk : s.kernel.Keyed)
    (hpid : RecordPidsNonneg [e]) (h : lsmStep s e = some s') :
    s'.kernel.Keyed ∧ s'.kernel.queues = e.act s.kernel.reserved s.kernel.queues := by
  cases e with
  | insertTicket rb allocs now r =>
    obtain ⟨⟨k, success⟩, hins, hs⟩ := Option.bind_eq_some_iff.mp h
    cases hs
    rcases insertTicket_receives hk rb allocs now
      (hpid rb allocs now r (List.mem_singleton.mpr rfl)) with ⟨hnone, -⟩ | ⟨k', hsome, hk', hq, -⟩
    · rw [hnone] at hins
      cases hins
    · rw [hsome] at hins
      cases hins
      exact ⟨hk', hq⟩
  | hook hook cur i now vfs =>
    obtain ⟨⟨s₂, r⟩, hcall, hs⟩ := Option.bind_eq_some_iff.mp h
    cases hs
    obtain ⟨s₁, -, hp, -, -, hs'⟩ := Hook.call_cases hk.toWf hcall
    obtain ⟨k, hrun, hk', hq⟩ := taskHousekeeping_refines hk cur now
    rw [hp.kernel, Option.some.injEq] at hrun
    rw [← hrun] at hk' hq
    rcases hs' with rfl | rfl
    · exact ⟨hk', hq⟩
    · have hsame : (s₁.taint cur).kernel.queues = s₁.kernel.queues := setCred_queues rfl rfl
      exact ⟨setCred_keyed hk' rfl, hsame.trans hq⟩
  | housekeeping cur now =>
    obtain ⟨k, hrun, hk', hq⟩ := taskHousekeeping_refines hk cur now
    simp only [lsmStep, hrun, Option.bind_eq_bind, Option.bind_some, Option.some.injEq] at h
    subst h
    exact ⟨hk', hq⟩
  | initTask cred random previous =>
    cases h
    obtain ⟨hk', hq⟩ := setCred_reset hk cred (initTaskTrm_ticketHead random
      (previous.map s.kernel.cred))
    refine ⟨hk', hq.trans ?_⟩
    cases previous <;> rfl
  | labels data disk citadelPid =>
    cases h
    exact ⟨hk, rfl⟩

end Citadel
