/-
Citadel.Lsm.TicketDelivery — what reaches whom over a whole run of the
ticket cache.

A run is any interleaving of `insert_ticket`, with records of any
non-negative pid, and `check_ticket_cache`, by tasks of any pid; every
insertion comes with its own rebalancing of the tree. The run keeps a log
of what each check moved onto the caller's credential, READ OFF THE RINGS:
what the ring of the credential gained between the call and the end of
the claim.

The run invariant (`cacheRun_inv`) says that for each pid the log so far
and the queue together are the records inserted so far, cut at the last
check of that pid.
-/
import Citadel.Lsm.TicketQueues
import Mathlib.Data.List.DropRight

namespace Citadel

open RingHeap SearchTree

/-! ## Runs -/

inductive CacheEvent where
  | insert (rb : Rebalance Nat) (now : Int) (r : UpdateRecord)
  | check (cur : Task) (now : Int)

/-- One check in the log: who ran it and what it moved. -/
structure Delivery where
  cur : Task
  tickets : List Ticket

/-- What the ring of the caller's credential gains by the claim. -/
def gained (before after : Kernel) (cur : Task) : List Ticket :=
  (after.tickets (.task cur.cred)).drop (before.tickets (.task cur.cred)).length

/-- One event; `none` is a memory fault. -/
def cacheStep (s : Kernel × List Delivery) : CacheEvent → Option (Kernel × List Delivery)
  | .insert rb now r => do
    let (k, _) ← insertTicket s.1 rb .ok now r
    some (k, s.2)
  | .check cur now => do
    let claimed ← claimReservation s.1 cur
    let k ← checkTicketCache s.1 cur now
    some (k, s.2 ++ [⟨cur, gained s.1 claimed cur⟩])

def cacheRun (k : Kernel) (evs : List CacheEvent) : Option (Kernel × List Delivery) :=
  evs.foldlM cacheStep (k, [])

/-! ## What a run says about one pid -/

/-- The tickets an event inserts for `p`. -/
def CacheEvent.ticketsFor (p : Pid) : CacheEvent → List Ticket
  | .insert _ now r => if r.pid = p then r.tickets now else []
  | .check _ _ => []

/-- The event grants a PTY to `p`. -/
def CacheEvent.grantsTo (p : Pid) : CacheEvent → Bool
  | .insert _ _ r => decide (r.pid = p) && r.operation.has opPtyAccess
  | .check _ _ => false

/-- The event is not a check by `p`. -/
def CacheEvent.notCheckBy (p : Pid) : CacheEvent → Bool
  | .insert _ _ _ => true
  | .check cur _ => decide (cur.pid ≠ p)

/-- The tickets inserted for `p`, in order: one for each record that is
not a PTY grant and nothing else. -/
def inserted (p : Pid) (evs : List CacheEvent) : List Ticket := evs.flatMap (·.ticketsFor p)

/-- The events up to and with the last check by `p`. -/
def untilLastCheck (p : Pid) (evs : List CacheEvent) : List CacheEvent :=
  evs.rdropWhile (·.notCheckBy p)

/-- The events after the last check by `p`. -/
def sinceLastCheck (p : Pid) (evs : List CacheEvent) : List CacheEvent :=
  evs.rtakeWhile (·.notCheckBy p)

/-- What the checks of `p` moved, in order. -/
def movedTo (p : Pid) (log : List Delivery) : List Ticket :=
  (log.filter (fun d => decide (d.cur.pid = p))).flatMap (·.tickets)

/-- Every record of the run has a non-negative pid. -/
def PidsNonneg (evs : List CacheEvent) : Prop :=
  ∀ rb now r, CacheEvent.insert rb now r ∈ evs → 0 ≤ r.pid.toInt

theorem inserted_append (p : Pid) (evs evs' : List CacheEvent) :
    inserted p (evs ++ evs') = inserted p evs ++ inserted p evs' := List.flatMap_append

theorem movedTo_concat (p : Pid) (log : List Delivery) (d : Delivery) :
    movedTo p (log ++ [d]) = movedTo p log ++ (if d.cur.pid = p then d.tickets else []) := by
  unfold movedTo
  rw [List.filter_append, List.flatMap_append]
  by_cases hd : d.cur.pid = p <;> simp [hd]

/-! ## The run invariant -/

/-- After the events `evs`: for every pid, what its checks have moved is
what was inserted for it until the last of them, and what was inserted
since is waiting. -/
structure Delivered (evs : List CacheEvent) (k : Kernel) (log : List Delivery) : Prop where
  keyed : k.Keyed
  moved : ∀ p, movedTo p log = inserted p (untilLastCheck p evs)
  pending : ∀ p, k.queues.pending p = inserted p (sinceLastCheck p evs)
  pty : ∀ p, k.queues.ptyPending p = (sinceLastCheck p evs).any (·.grantsTo p)

/-- What `claim` moves is exactly what is pending for the caller's pid. -/
theorem gained_claim {k k₁ : Kernel} {cur : Task} (hq : k₁.queues = k.queues.claim cur) :
    k₁.tickets (.task cur.cred) = k.tickets (.task cur.cred) ++ k.queues.pending cur.pid ∧
      gained k k₁ cur = k.queues.pending cur.pid := by
  have hheld : k₁.tickets (.task cur.cred) =
      k.tickets (.task cur.cred) ++ k.queues.pending cur.pid := by
    have hc := congrFun (congrArg Queues.held hq) cur.cred
    simp only [Queues.claim, if_true] at hc
    exact hc
  exact ⟨hheld, by rw [gained, hheld, List.drop_left]⟩

/-- An insertion keeps the invariant. -/
theorem Delivered.insert {evs : List CacheEvent} {k k' : Kernel} {log : List Delivery}
    (h : Delivered evs k log) (rb : Rebalance Nat) (now : Int) (r : UpdateRecord)
    (hk : k'.Keyed) (hq : k'.queues = k.queues.insert now r) :
    Delivered (evs ++ [.insert rb now r]) k' log := by
  have huntil : ∀ p, untilLastCheck p (evs ++ [.insert rb now r]) = untilLastCheck p evs :=
    fun p => List.rdropWhile_concat_pos _ _ _ rfl
  have hsince : ∀ p, sinceLastCheck p (evs ++ [.insert rb now r]) =
      sinceLastCheck p evs ++ [.insert rb now r] :=
    fun p => List.rtakeWhile_concat_pos _ _ _ rfl
  refine ⟨hk, fun p => ?_, fun p => ?_, fun p => ?_⟩
  · rw [huntil, h.moved]
  · rw [hsince, inserted_append, ← h.pending, hq]
    by_cases hp : r.pid = p
    · simp [Queues.insert, inserted, CacheEvent.ticketsFor, hp]
    · simp [Queues.insert, inserted, CacheEvent.ticketsFor, hp, Ne.symm hp]
  · rw [hsince, List.any_append, ← h.pty, hq]
    by_cases hp : r.pid = p
    · simp [Queues.insert, CacheEvent.grantsTo, hp]
    · simp [Queues.insert, CacheEvent.grantsTo, hp, Ne.symm hp]

/-- A check keeps the invariant. -/
theorem Delivered.check {evs : List CacheEvent} {k k₁ k' : Kernel} {log : List Delivery}
    (h : Delivered evs k log) (cur : Task) (now : Int) (hk : k'.Keyed)
    (hq₁ : k₁.queues = k.queues.claim cur)
    (hq : k'.queues = (k.queues.claim cur).expire cur now) :
    Delivered (evs ++ [.check cur now]) k' (log ++ [⟨cur, gained k k₁ cur⟩]) := by
  have hpending : ∀ p, k'.queues.pending p = if p = cur.pid then [] else k.queues.pending p := by
    intro p
    rw [hq]
    rfl
  have hpty : ∀ p, k'.queues.ptyPending p = (k.queues.ptyPending p && decide (p ≠ cur.pid)) := by
    intro p
    rw [hq]
    rfl
  have hevent : ∀ p, inserted p [CacheEvent.check cur now] = [] := fun _ => rfl
  refine ⟨hk, fun p => ?_, fun p => ?_, fun p => ?_⟩ <;> by_cases hp : cur.pid = p
  · -- the caller's own pid: everything pending goes over, the cut moves to here
    have hcut : untilLastCheck p (evs ++ [.check cur now]) = evs ++ [.check cur now] :=
      List.rdropWhile_concat_neg _ _ _ (by simp [CacheEvent.notCheckBy, hp])
    rw [hcut, movedTo_concat, if_pos hp, (gained_claim hq₁).2, hp, h.moved, h.pending,
      ← inserted_append, untilLastCheck, sinceLastCheck, List.rdropWhile_append_rtakeWhile,
      inserted_append, hevent, List.append_nil]
  · have hcut : untilLastCheck p (evs ++ [.check cur now]) = untilLastCheck p evs :=
      List.rdropWhile_concat_pos _ _ _ (by simp [CacheEvent.notCheckBy, hp])
    rw [hcut, movedTo_concat, if_neg hp, List.append_nil, h.moved]
  · have hcut : sinceLastCheck p (evs ++ [.check cur now]) = [] :=
      List.rtakeWhile_concat_neg _ _ _ (by simp [CacheEvent.notCheckBy, hp])
    rw [hcut, hpending, if_pos hp.symm]
    rfl
  · have hcut : sinceLastCheck p (evs ++ [.check cur now]) =
        sinceLastCheck p evs ++ [.check cur now] :=
      List.rtakeWhile_concat_pos _ _ _ (by simp [CacheEvent.notCheckBy, hp])
    rw [hcut, hpending, if_neg (Ne.symm hp), inserted_append, hevent, List.append_nil, h.pending]
  · have hcut : sinceLastCheck p (evs ++ [.check cur now]) = [] :=
      List.rtakeWhile_concat_neg _ _ _ (by simp [CacheEvent.notCheckBy, hp])
    rw [hcut, hpty]
    simp [hp]
  · have hcut : sinceLastCheck p (evs ++ [.check cur now]) =
        sinceLastCheck p evs ++ [.check cur now] :=
      List.rtakeWhile_concat_pos _ _ _ (by simp [CacheEvent.notCheckBy, hp])
    rw [hcut, hpty, h.pty]
    simp [CacheEvent.grantsTo, Ne.symm hp]

theorem cacheRun_concat {k k' : Kernel} {log : List Delivery} {evs : List CacheEvent}
    (h : cacheRun k evs = some (k', log)) (e : CacheEvent) :
    cacheRun k (evs ++ [e]) = cacheStep (k', log) e := by
  unfold cacheRun at h ⊢
  rw [List.foldlM_append, h]
  simp

/-- No run faults, and every run ends as `Delivered` says. -/
theorem cacheRun_inv (cred : Nat → TaskData) (evs : List CacheEvent) (hpid : PidsNonneg evs) :
    ∃ k log, cacheRun (Kernel.boot cred) evs = some (k, log) ∧ Delivered evs k log := by
  -- the events are taken from the end: the cut at the last check moves with them
  induction evs using List.reverseRecOn with
  | nil =>
    refine ⟨_, _, rfl, Kernel.boot_keyed cred, fun p => rfl, fun p => rfl, fun p => rfl⟩
  | append_singleton evs e ih =>
    obtain ⟨k, log, hrun, hinv⟩ := ih (fun rb now r hm => hpid rb now r (by simp [hm]))
    rw [cacheRun_concat hrun]
    cases e with
    | insert rb now r =>
      obtain ⟨k', hins, hk, hq, -⟩ :=
        insertTicket_refines hinv.keyed rb now (hpid rb now r (by simp))
      exact ⟨k', log, by simp [cacheStep, hins], hinv.insert rb now r hk hq⟩
    | check cur now =>
      obtain ⟨k₁, hclaim, -, hq₁, -⟩ := claimReservation_refines hinv.keyed cur
      obtain ⟨k', hcheck, hk, hq, -⟩ := checkTicketCache_refines hinv.keyed cur now
      exact ⟨k', _, by simp [cacheStep, hclaim, hcheck], hinv.check cur now hk hq₁ hq⟩

/-! ## Delivery -/

/-- Over any run: no fault; for every pid, what its checks moved onto the
credential is, in order and each once, what was inserted for it before
the last of them; an insertion touches no credential; and a check by
`cur` appends to the ring of its credential the tickets inserted for
ITS pid since its last check, sets its PTY flag iff it was set or a grant
for its pid came since, and leaves every other credential alone. -/
theorem tickets_delivered_once_in_order (cred : Nat → TaskData) (evs : List CacheEvent)
    (hpid : PidsNonneg evs) :
    (∃ k log, cacheRun (Kernel.boot cred) evs = some (k, log) ∧
      ∀ p, movedTo p log = inserted p (untilLastCheck p evs)) ∧
    (∀ pre rb now r post, evs = pre ++ .insert rb now r :: post →
      ∃ k log k', cacheRun (Kernel.boot cred) pre = some (k, log) ∧
        insertTicket k rb .ok now r = some (k', true) ∧ k'.cred = k.cred ∧
        ∀ c, k'.tickets (.task c) = k.tickets (.task c)) ∧
    ∀ pre cur now post, evs = pre ++ .check cur now :: post →
      ∃ k log k₁ k', cacheRun (Kernel.boot cred) pre = some (k, log) ∧
        claimReservation k cur = some k₁ ∧ checkTicketCache k cur now = some k' ∧
        k₁.tickets (.task cur.cred) = k.tickets (.task cur.cred) ++
          inserted cur.pid (sinceLastCheck cur.pid pre) ∧
        (k'.cred cur.cred).grantedPty = ((k.cred cur.cred).grantedPty ||
          (sinceLastCheck cur.pid pre).any (·.grantsTo cur.pid)) ∧
        ∀ c, c ≠ cur.cred → k'.tickets (.task c) = k.tickets (.task c) ∧
          (k'.cred c).grantedPty = (k.cred c).grantedPty := by
  have hrun : ∀ pre post, evs = pre ++ post →
      ∃ k log, cacheRun (Kernel.boot cred) pre = some (k, log) ∧ Delivered pre k log :=
    fun pre post heq => cacheRun_inv cred pre
      (fun rb now r hm => hpid rb now r (by rw [heq]; exact List.mem_append_left _ hm))
  refine ⟨?_, ?_, ?_⟩
  · obtain ⟨k, log, hk, hinv⟩ := hrun evs [] (by simp)
    exact ⟨k, log, hk, hinv.moved⟩
  · intro pre rb now r post heq
    obtain ⟨k, log, hk, hinv⟩ := hrun pre _ heq
    obtain ⟨k', hins, -, hq, hcred⟩ := insertTicket_refines hinv.keyed rb now
      (hpid rb now r (by simp [heq]))
    exact ⟨k, log, k', hk, hins, hcred, fun c => congrFun (congrArg Queues.held hq) c⟩
  · intro pre cur now post heq
    obtain ⟨k, log, hk, hinv⟩ := hrun pre _ heq
    obtain ⟨k₁, hclaim, -, hq₁, -⟩ := claimReservation_refines hinv.keyed cur
    obtain ⟨k', hcheck, -, hq, hcred⟩ := checkTicketCache_refines hinv.keyed cur now
    refine ⟨k, log, k₁, k', hk, hclaim, hcheck, ?_, ?_, fun c hc => ⟨?_, ?_⟩⟩
    · rw [(gained_claim hq₁).1, hinv.pending]
    · rw [hcred, ← hinv.pty]
      simp [Queues.claim, Kernel.queues]
    · have hheld := congrFun (congrArg Queues.held hq) c
      simp only [Queues.expire, Queues.claim, if_neg hc] at hheld
      exact hheld
    · rw [hcred]
      simp [Queues.claim, Kernel.queues, hc]

/-- A ticket for 7, a PTY grant for 9, a ticket for 9, then checks by both. -/
def twoClaims : List CacheEvent :=
  [.insert .none 5 ⟨7, Bytes.fill _ 1, opOpen⟩, .insert .none 6 ⟨9, Bytes.fill _ 2, opPtyAccess⟩,
    .insert .none 6 ⟨9, Bytes.fill _ 3, opOpen⟩, .check ⟨9, 1⟩ 8, .check ⟨7, 0⟩ 9]

theorem twoClaims_delivered :
    ∃ k log, cacheRun (Kernel.boot fun _ => ⟨false, false, none, 1, Bytes.zeros _⟩) twoClaims =
        some (k, log) ∧
      movedTo 7 log = [⟨Bytes.fill _ 1, opOpen, 5⟩] ∧
      movedTo 9 log = [⟨Bytes.fill _ 3, opOpen, 6⟩] := by
  have hpid : PidsNonneg twoClaims := by
    intro rb now r hm
    simp only [twoClaims, List.mem_cons, CacheEvent.insert.injEq, reduceCtorEq,
      List.not_mem_nil, or_false] at hm
    rcases hm with ⟨-, -, rfl⟩ | ⟨-, -, rfl⟩ | ⟨-, -, rfl⟩ <;> decide
  obtain ⟨⟨k, log, hrun, hm⟩, -, -⟩ := tickets_delivered_once_in_order _ twoClaims hpid
  exact ⟨k, log, hrun, (hm 7).trans (by decide), (hm 9).trans (by decide)⟩

end Citadel
