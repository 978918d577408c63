/-
Citadel.Lsm.ProcessLifetime — tickets and grants across the life of a
process.

The reservation tree is keyed by bare pid and outlives tasks: the bodies
of `trm_task_free` and `trm_cred_free` are comments that say what should
happen there. So a run has process creation and exit as events of its
own, and a process that runs under `p` is what happens between two
creations under `p`.

What was reserved for an earlier process under the pid is claimed by the
next one (`stale_rights_claimed`), unless nothing is left waiting for the
pid whenever a process is created under it (`rights_stay_with_process`).
-/
import Citadel.Lsm.TicketDelivery
import Citadel.Lsm.Task

namespace Citadel

open RingHeap SearchTree

/-! ## Runs with process creation and exit -/

inductive LifeEvent where
  | insert (rb : Rebalance Nat) (allocs : Allocs) (now : Int) (r : UpdateRecord)
  | check (cur : Task) (now : Int)
  | create (pid : Pid) (cred : Nat) (parent : Option Nat) (random : Identifier)
  | exit (pid : Pid) (cred : Nat)

/-- One event; `none` is a memory fault. -/
def lifeStep (k : Kernel) : LifeEvent → Option Kernel
  | .insert rb allocs now r => do
    let (k, _) ← insertTicket k rb allocs now r
    some k
  | .check cur now => checkTicketCache k cur now
  | .create _ cred none random => some (trmCredAllocBlank k cred random)
  | .create _ cred (some parent) random => some (trmCredPrepare k cred parent random)
  | .exit pid cred => some (trmCredFree (trmTaskFree k pid) cred)

def lifeRun (k : Kernel) (evs : List LifeEvent) : Option Kernel := evs.foldlM lifeStep k

theorem lifeRun_concat {k k' : Kernel} {evs : List LifeEvent} (h : lifeRun k evs = some k')
    (e : LifeEvent) : lifeRun k (evs ++ [e]) = lifeStep k' e := by
  unfold lifeRun at h ⊢
  rw [List.foldlM_append, h]
  simp

/-- The tickets an event inserts for `p`, if there is the memory. -/
def LifeEvent.ticketsFor (p : Pid) : LifeEvent → List Ticket
  | .insert _ _ now r => if r.pid = p then r.tickets now else []
  | _ => []

/-- The event grants a PTY to `p`. -/
def LifeEvent.grantsTo (p : Pid) : LifeEvent → Bool
  | .insert _ _ _ r => decide (r.pid = p) && r.operation.has opPtyAccess
  | _ => false

/-- The event does not create a process under `p`. -/
def LifeEvent.notCreate (p : Pid) : LifeEvent → Bool
  | .create pid _ _ _ => decide (pid ≠ p)
  | _ => true

/-- The events since the last creation of a process under `p`: the life so
far of the process that has this pid. -/
def sinceCreate (p : Pid) (evs : List LifeEvent) : List LifeEvent :=
  evs.rtakeWhile (·.notCreate p)

/-- Nothing waits for `p`: there is no reservation, or an empty one. -/
def nothingReserved (k : Kernel) (p : Pid) : Bool :=
  match ticketSearch k p with
  | none => true
  | some n => (k.node n).ticketHead.isNone && !(k.node n).grantedPty

/-- If the event creates a process, nothing waits for its pid. -/
def LifeEvent.clean (k : Kernel) : LifeEvent → Bool
  | .create pid _ _ _ => nothingReserved k pid
  | _ => true

/-- Along the run, whenever a process is created nothing waits for its
pid. -/
def cleanCreation (k : Kernel) : List LifeEvent → Bool
  | [] => true
  | e :: evs => e.clean k && (lifeStep k e).all (fun k' => cleanCreation k' evs)

/-- Up to any point of a clean run the run is clean, and so is the event
there. -/
theorem cleanCreation_split {k : Kernel} {pre : List LifeEvent} {e : LifeEvent}
    {post : List LifeEvent} (h : cleanCreation k (pre ++ e :: post) = true) :
    cleanCreation k pre = true ∧ ∀ k', lifeRun k pre = some k' → e.clean k' = true := by
  induction pre generalizing k with
  | nil =>
    refine ⟨rfl, fun k' hk => ?_⟩
    cases hk
    simp only [List.nil_append, cleanCreation, Bool.and_eq_true] at h
    exact h.1
  | cons d pre ih =>
    simp only [List.cons_append, cleanCreation, Bool.and_eq_true] at h ⊢
    cases hs : lifeStep k d with
    | none =>
      refine ⟨⟨h.1, rfl⟩, fun k' hk => ?_⟩
      simp [lifeRun, hs] at hk
    | some k₁ =>
      rw [hs] at h
      obtain ⟨hpre, he⟩ := ih (k := k₁) h.2
      refine ⟨⟨h.1, hpre⟩, fun k' hk => he k' ?_⟩
      simpa [lifeRun, hs] using hk

/-- Every record of the run has a non-negative pid. -/
def LifePidsNonneg (evs : List LifeEvent) : Prop :=
  ∀ rb allocs now r, LifeEvent.insert rb allocs now r ∈ evs → 0 ≤ r.pid.toInt

/-- Every insertion finds memory for its hexadecimal string. Without, it
writes through a null pointer. -/
def HexAllocated (evs : List LifeEvent) : Prop :=
  ∀ rb allocs now r, LifeEvent.insert rb allocs now r ∈ evs → allocs.hex = true

theorem nothingReserved_queues {k : Kernel} {p : Pid} (h : nothingReserved k p = true) :
    k.queues.pending p = [] ∧ k.queues.ptyPending p = false := by
  unfold nothingReserved at h
  simp only [Kernel.queues]
  cases hs : ticketSearch k p with
  | none => exact ⟨rfl, rfl⟩
  | some n =>
    rw [hs] at h
    simp only [Bool.and_eq_true, Option.isNone_iff_eq_none, Bool.not_eq_true'] at h
    refine ⟨?_, h.2⟩
    change k.heap.contents (k.headOf (.res n)) = []
    rw [show k.headOf (.res n) = none from h.1]
    rfl

/-! ## The run invariant -/

/-- What waits for a pid was inserted during the life of the process that
has it. -/
structure OwnOnly (evs : List LifeEvent) (k : Kernel) : Prop where
  keyed : k.Keyed
  pending : ∀ p, (k.queues.pending p).Sublist ((sinceCreate p evs).flatMap (·.ticketsFor p))
  pty : ∀ p, k.queues.ptyPending p = true → (sinceCreate p evs).any (·.grantsTo p) = true

/-- An event that creates no process adds itself to every life. -/
theorem sinceCreate_concat {e : LifeEvent} (h : ∀ p, e.notCreate p = true) (p : Pid)
    (evs : List LifeEvent) : sinceCreate p (evs ++ [e]) = sinceCreate p evs ++ [e] :=
  List.rtakeWhile_concat_pos _ _ _ (h p)

/-- A creation ends the life under its pid and adds itself to the others. -/
theorem OwnOnly.create {evs : List LifeEvent} {k k' : Kernel} (h : OwnOnly evs k) {pid : Pid}
    (cred : Nat) (parent : Option Nat) (random : Identifier)
    (hclean : nothingReserved k pid = true) (hk : k'.Keyed) {pty : Bool}
    (hq : k'.queues = k.queues.reset cred pty) :
    OwnOnly (evs ++ [.create pid cred parent random]) k' := by
  have hpending : k'.queues.pending = k.queues.pending := by rw [hq]; rfl
  have hpty : k'.queues.ptyPending = k.queues.ptyPending := by rw [hq]; rfl
  obtain ⟨hempty, hnopty⟩ := nothingReserved_queues hclean
  have hlife : ∀ p, p ≠ pid → sinceCreate p (evs ++ [.create pid cred parent random]) =
      sinceCreate p evs ++ [.create pid cred parent random] := fun p hp =>
    List.rtakeWhile_concat_pos _ _ _ (by simp [LifeEvent.notCreate, Ne.symm hp])
  refine ⟨hk, fun p => ?_, fun p => ?_⟩
  · by_cases hp : p = pid
    · subst hp
      rw [hpending, hempty]
      exact List.nil_sublist _
    · rw [hpending, hlife p hp, List.flatMap_append]
      exact (h.pending p).trans (List.sublist_append_left _ _)
  · intro hp
    by_cases hpp : p = pid
    · subst hpp
      rw [hpty, hnopty] at hp
      cases hp
    · rw [hpty] at hp
      rw [hlife p hpp, List.any_append, h.pty p hp, Bool.true_or]

/-- An insertion for `r.pid` adds to what that process was sent. -/
theorem OwnOnly.insert {evs : List LifeEvent} {k k' : Kernel} (h : OwnOnly evs k)
    (rb : Rebalance Nat) {allocs : Allocs} {reserved : Bool} (now : Int) {r r' : UpdateRecord}
    (hr : r.received reserved allocs = some r') (hk : k'.Keyed)
    (hq : k'.queues = k.queues.insert now r') :
    OwnOnly (evs ++ [.insert rb allocs now r]) k' := by
  have hlife := sinceCreate_concat (e := .insert rb allocs now r) (fun _ => rfl)
  have hpid := UpdateRecord.received_pid hr
  refine ⟨hk, fun p => ?_, fun p => ?_⟩
  · rw [hlife, List.flatMap_append, hq]
    by_cases hp : r.pid = p
    · simpa [Queues.insert, LifeEvent.ticketsFor, hpid, hp]
        using (h.pending p).append (UpdateRecord.received_tickets hr now)
    · simpa [Queues.insert, LifeEvent.ticketsFor, hpid, hp, Ne.symm hp] using h.pending p
  · rw [hlife, List.any_append, hq]
    intro hp
    rcases Bool.or_eq_true _ _ |>.mp hp with hp | hp
    · rw [h.pty p hp, Bool.true_or]
    · simp only [Bool.and_eq_true, decide_eq_true_eq, hpid] at hp
      simp [LifeEvent.grantsTo, hp.1, UpdateRecord.received_pty hr hp.2]

/-- A check only takes away from what is pending. -/
theorem OwnOnly.check {evs : List LifeEvent} {k k' : Kernel} (h : OwnOnly evs k) (cur : Task)
    (now : Int) (hk : k'.Keyed) (hq : k'.queues = (k.queues.claim cur).expire cur now) :
    OwnOnly (evs ++ [.check cur now]) k' := by
  have hlife := sinceCreate_concat (e := .check cur now) (fun _ => rfl)
  refine ⟨hk, fun p => ?_, fun p hp => ?_⟩
  · rw [hlife, List.flatMap_append, hq]
    simp only [Queues.expire, Queues.claim]
    split
    · exact List.nil_sublist _
    · exact (h.pending p).trans (List.sublist_append_left _ _)
  · rw [hq] at hp
    simp only [Queues.expire, Queues.claim, Bool.and_eq_true] at hp
    rw [hlife, List.any_append, h.pty p hp.1, Bool.true_or]

/-- An event that creates no process and changes no queue: the end of a
process, or an insertion without memory. -/
theorem OwnOnly.idle {evs : List LifeEvent} {k k' : Kernel} (h : OwnOnly evs k) {e : LifeEvent}
    (he : ∀ p, e.notCreate p = true) (hk : k'.Keyed) (hq : k'.queues = k.queues) :
    OwnOnly (evs ++ [e]) k' := by
  have hlife := sinceCreate_concat he
  refine ⟨hk, fun p => ?_, fun p hp => ?_⟩
  · rw [hlife, List.flatMap_append, hq]
    exact (h.pending p).trans (List.sublist_append_left _ _)
  · rw [hq] at hp
    rw [hlife, List.any_append, h.pty p hp, Bool.true_or]

/-- A step keeps the invariant, if a creation meets an empty reservation. -/
theorem OwnOnly.step {evs : List LifeEvent} {k k' : Kernel} {e : LifeEvent} (h : OwnOnly evs k)
    (hpid : LifePidsNonneg [e])
    (hclean : e.clean k = true) (hstep : lifeStep k e = some k') : OwnOnly (evs ++ [e]) k' := by
  cases e with
  | insert rb allocs now r =>
    obtain ⟨⟨k₁, success⟩, hins, hs⟩ := Option.bind_eq_some_iff.mp hstep
    cases hs
    rcases insertTicket_receives h.keyed rb allocs now
      (hpid rb allocs now r (List.mem_singleton.mpr rfl)) with ⟨hnone, -⟩ | ⟨k₂, hsome, hk, hq, -⟩
    · rw [hnone] at hins
      cases hins
    rw [hsome] at hins
    cases hins
    cases hr : r.received (ticketSearch k r.pid).isSome allocs with
    | none => exact h.idle (fun _ => rfl) hk (by rw [hq, hr, Option.elim_none])
    | some r' => exact h.insert rb now hr hk (by rw [hq, hr, Option.elim_some])
  | check cur now =>
    obtain ⟨k₁, hcheck, hk, hq, -⟩ := checkTicketCache_refines h.keyed cur now
    obtain rfl : k₁ = k' := by
      rw [lifeStep, hcheck] at hstep
      exact Option.some.inj hstep
    exact h.check cur now hk hq
  | create pid cred parent random =>
    cases parent with
    | none =>
      cases hstep
      obtain ⟨hk, hq⟩ := setCred_reset h.keyed cred (initTaskTrm_ticketHead random none)
      exact h.create cred none random hclean hk hq
    | some parent =>
      cases hstep
      obtain ⟨hk, hq⟩ := setCred_reset h.keyed cred
        (initTaskTrm_ticketHead random (some (k.cred parent)))
      exact h.create cred (some parent) random hclean hk hq
  | exit pid cred =>
    cases hstep
    exact h.idle (fun _ => rfl) h.keyed rfl

theorem lifeStep_total {k : Kernel} (hk : k.Keyed) (e : LifeEvent) (hpid : LifePidsNonneg [e])
    (hhex : HexAllocated [e]) : ∃ k', lifeStep k e = some k' := by
  cases e with
  | insert rb allocs now r =>
    have hmem : LifeEvent.insert rb allocs now r ∈ [.insert rb allocs now r] :=
      List.mem_singleton.mpr rfl
    rcases insertTicket_receives hk rb allocs now (hpid rb allocs now r hmem) with
      ⟨-, hfails⟩ | ⟨k', hins, -⟩
    · rw [hhex rb allocs now r hmem] at hfails
      cases hfails
    · exact ⟨k', by simp [lifeStep, hins]⟩
  | check cur now =>
    obtain ⟨k', hcheck, -⟩ := checkTicketCache_refines hk cur now
    exact ⟨k', hcheck⟩
  | create pid cred parent random => cases parent <;> exact ⟨_, rfl⟩
  | exit pid cred => exact ⟨_, rfl⟩

theorem lifeRun_inv (cred : Nat → TaskData) (evs : List LifeEvent) (hpid : LifePidsNonneg evs)
    (hhex : HexAllocated evs) (hclean : cleanCreation (Kernel.boot cred) evs = true) :
    ∃ k, lifeRun (Kernel.boot cred) evs = some k ∧ OwnOnly evs k := by
  induction evs using List.reverseRecOn with
  | nil =>
    exact ⟨_, rfl, Kernel.boot_keyed cred, fun p => List.Sublist.refl _, fun p hp => by cases hp⟩
  | append_singleton evs e ih =>
    obtain ⟨hfront, he⟩ := cleanCreation_split hclean
    obtain ⟨k, hrun, hinv⟩ := ih
      (fun rb a now r hm => hpid rb a now r (List.mem_append_left _ hm))
      (fun rb a now r hm => hhex rb a now r (List.mem_append_left _ hm)) hfront
    have hlast : LifePidsNonneg [e] :=
      fun rb a now r hm => hpid rb a now r (List.mem_append_right _ hm)
    obtain ⟨k', hstep⟩ := lifeStep_total hinv.keyed e hlast
      fun rb a now r hm => hhex rb a now r (List.mem_append_right _ hm)
    exact ⟨k', by rw [lifeRun_concat hrun, hstep], hinv.step hlast (he k hrun) hstep⟩

/-! ## Rights and processes -/

/-- Over every run in which nothing waits for a pid when a process is
created under it: what a check moves onto a credential, tickets and PTY
grant, was inserted during the life of the process that runs it. -/
theorem rights_stay_with_process (cred : Nat → TaskData) (evs : List LifeEvent)
    (hpid : LifePidsNonneg evs) (hhex : HexAllocated evs)
    (hclean : cleanCreation (Kernel.boot cred) evs = true)
    (pre : List LifeEvent) (cur : Task) (now : Int) (post : List LifeEvent)
    (heq : evs = pre ++ .check cur now :: post) :
    ∃ k k₁ k' moved, lifeRun (Kernel.boot cred) pre = some k ∧
      claimReservation k cur = some k₁ ∧ checkTicketCache k cur now = some k' ∧
      k₁.tickets (.task cur.cred) = k.tickets (.task cur.cred) ++ moved ∧
      moved.Sublist ((sinceCreate cur.pid pre).flatMap (·.ticketsFor cur.pid)) ∧
      ((k'.cred cur.cred).grantedPty = true → (k.cred cur.cred).grantedPty = true ∨
        (sinceCreate cur.pid pre).any (·.grantsTo cur.pid) = true) := by
  obtain ⟨k, hrun, hinv⟩ := lifeRun_inv cred pre
    (fun rb a now r hm => hpid rb a now r (by rw [heq]; exact List.mem_append_left _ hm))
    (fun rb a now r hm => hhex rb a now r (by rw [heq]; exact List.mem_append_left _ hm))
    (cleanCreation_split (heq ▸ hclean)).1
  obtain ⟨k₁, hclaim, -, hq₁, -⟩ := claimReservation_refines hinv.keyed cur
  obtain ⟨k', hcheck, -, -, hcred⟩ := checkTicketCache_refines hinv.keyed cur now
  refine ⟨k, k₁, k', _, hrun, hclaim, hcheck, (gained_claim hq₁).1, hinv.pending _, ?_⟩
  intro hp
  rw [hcred] at hp
  simp only [Queues.claim, decide_true, Bool.true_and, Bool.or_eq_true] at hp
  exact hp.imp id (hinv.pty _)

/-- A process with a ticket that it claims, its exit, a new process with a
ticket of its own. -/
def cleanReuse : List LifeEvent :=
  [.create 7 0 none (Bytes.fill _ 1), .insert .none .ok 5 ⟨7, Bytes.fill _ 8, opOpen⟩,
    .check ⟨7, 0⟩ 6, .exit 7 0, .create 7 1 none (Bytes.fill _ 2),
    .insert .none .ok 7 ⟨7, Bytes.fill _ 9, opOpen⟩]

theorem cleanReuse_claims_own :
    ∃ k k₁ moved, lifeRun (Kernel.boot fun _ => initTaskTrm (Bytes.zeros _) none) cleanReuse =
        some k ∧
      claimReservation k ⟨7, 1⟩ = some k₁ ∧
      k₁.tickets (.task 1) = k.tickets (.task 1) ++ moved ∧
      moved.Sublist [⟨Bytes.fill _ 9, opOpen, 7⟩] := by
  have hinserts : ∀ rb a now r, LifeEvent.insert rb a now r ∈ cleanReuse ++ [.check ⟨7, 1⟩ 8] →
      r.pid = 7 ∧ a = .ok := by
    intro rb a now r hm
    simp only [cleanReuse, List.cons_append, List.nil_append, List.mem_cons, reduceCtorEq,
      LifeEvent.insert.injEq, List.not_mem_nil, or_false, false_or] at hm
    rcases hm with ⟨-, rfl, -, rfl⟩ | ⟨-, rfl, -, rfl⟩ <;> exact ⟨rfl, rfl⟩
  have hpid : LifePidsNonneg (cleanReuse ++ [.check ⟨7, 1⟩ 8]) := by
    intro rb a now r hm
    rw [(hinserts rb a now r hm).1]
    decide
  have hhex : HexAllocated (cleanReuse ++ [.check ⟨7, 1⟩ 8]) := by
    intro rb a now r hm
    rw [(hinserts rb a now r hm).2]
    rfl
  obtain ⟨k, k₁, -, moved, hrun, hclaim, -, hheld, hsub, -⟩ :=
    rights_stay_with_process (fun _ => initTaskTrm (Bytes.zeros _) none) _ hpid hhex (by decide)
      cleanReuse ⟨7, 1⟩ 8 [] rfl
  exact ⟨k, k₁, moved, hrun, hclaim, hheld, hsub⟩

/-- A process with a ticket and a PTY grant, its exit before any check,
and a new process under the pid. -/
def staleReuse : List LifeEvent :=
  [.create 7 0 none (Bytes.fill _ 1), .insert .none .ok 5 ⟨7, Bytes.fill _ 9, opOpen⟩,
    .insert .none .ok 6 ⟨7, Bytes.fill _ 9, opPtyAccess⟩, .exit 7 0,
    .create 7 1 none (Bytes.fill _ 2)]

/-- Nothing is inserted during the life of the second process, yet its
first check moves the ticket and the grant of the first onto its
credential. -/
theorem stale_rights_claimed :
    (sinceCreate 7 staleReuse).flatMap (·.ticketsFor 7) = [] ∧
    (sinceCreate 7 staleReuse).any (·.grantsTo 7) = false ∧
    ((lifeRun (Kernel.boot fun _ => initTaskTrm (Bytes.zeros _) none) staleReuse).bind fun k =>
      (checkTicketCache k ⟨7, 1⟩ 8).map fun k' =>
        ((k.tickets (.task 1), (k.cred 1).grantedPty),
          (k'.tickets (.task 1), (k'.cred 1).grantedPty))) =
      some (([], false), ([⟨Bytes.fill _ 9, opOpen, 5⟩], true)) := by
  refine ⟨?_, ?_, ?_⟩ <;> decide

end Citadel
