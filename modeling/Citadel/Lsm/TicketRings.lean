/-
Citadel.Lsm.TicketRings — the ticket rings stay well formed over every run.

A run is any sequence of `insert_ticket` and `check_ticket_cache` calls, for
any pids, by any tasks, with any clock readings (the clock need not go
forward) and with any of the allocations failing. Beside the kernel it
keeps the list of the tickets that were handed to `kfree`, in order.

`Kernel.RingsSound` is about heads and links only: no list of addresses
occurs in it. It is derived from the family of rings that
`Citadel.Lsm.TicketCacheTheorems` keeps, and from `Released`, which needs
nothing about rings: a heap only ages.

That a check comes back at all is the other half. Its two loops over a
ring are walks with fuel and its reads, writes and frees are partial, so a
loop that does not stop, a use after free and a second `kfree` of a ticket
are all `none`. A failed allocation of the hexadecimal string that
`insert_ticket` prints is the one fault there is.
-/
import Citadel.Lib.Run
import Citadel.Lib.RingSafety
import Citadel.Lsm.TicketCacheTheorems

namespace Citadel

open RingHeap SearchTree

/-! ## §1 What a check frees -/

/-- The freeing loop as `check_ticket_cache` comes to it: the heap, the first
ticket and the count. `none` when nothing is to be freed. -/
def freeingLoop (k : Kernel) (cur : Task) (now : Int) : Option (Heap Ticket × Nat × Nat) :=
  match (k.cred cur.cred).ticketHead with
  | none => none
  | some initial => do
    let threshold := expiryThreshold now
    let (current, count) ← k.heap.walk (expiryGo threshold) k.heap.fresh initial 0
    let t ← k.heap.valOf current
    if t.timestamp ≤ threshold then some (k.heap, initial, count + 1)
    else if count > 0 then do
      let h ← k.heap.setPrev current (← k.heap.prevOf initial)
      let h ← h.setNext (← h.prevOf initial) current
      some (h, initial, count)
    else none

/-- The tickets the loop hands to `kfree`, in this order. -/
def kfreed (k : Kernel) (cur : Task) (now : Int) : List Nat :=
  match freeingLoop k cur now with
  | none => []
  | some (h, initial, count) => h.freed count initial

/-- The expiry pass leaves the heap alone, or with what the freeing loop
makes of it. -/
theorem removeOldTickets_heap {k k' : Kernel} {cur : Task} {now : Int}
    (hrun : removeOldTickets k cur now = some k') :
    (freeingLoop k cur now = none ∧ k'.heap = k.heap) ∨
    ∃ h initial count, freeingLoop k cur now = some (h, initial, count) ∧ Relinked k.heap h ∧
      h.freeRun count initial = some k'.heap := by
  unfold removeOldTickets at hrun
  unfold freeingLoop
  cases hhead : (k.cred cur.cred).ticketHead with
  | none =>
    rw [hhead] at hrun
    cases hrun
    exact .inl ⟨rfl, rfl⟩
  | some initial =>
    rw [hhead] at hrun
    obtain ⟨⟨current, count⟩, hwalk, hrun⟩ := Option.bind_eq_some_iff.mp hrun
    obtain ⟨t, ht, hrun⟩ := Option.bind_eq_some_iff.mp hrun
    simp only [hwalk, ht, Option.bind_eq_bind, Option.bind_some]
    by_cases hold : t.timestamp ≤ expiryThreshold now
    · rw [if_pos hold] at hrun ⊢
      obtain ⟨h, hfree, hk⟩ := Option.bind_eq_some_iff.mp hrun
      cases hk
      exact .inr ⟨_, _, _, rfl, Relinked.refl _, hfree⟩
    rw [if_neg hold] at hrun ⊢
    by_cases hcount : count > 0
    · rw [if_pos hcount] at hrun ⊢
      obtain ⟨h, hcut, hk⟩ := Option.bind_eq_some_iff.mp hrun
      cases hk
      obtain ⟨last, hlast, hcut⟩ := Option.bind_eq_some_iff.mp hcut
      obtain ⟨h₁, hprev, hcut⟩ := Option.bind_eq_some_iff.mp hcut
      obtain ⟨last', hlast', hcut⟩ := Option.bind_eq_some_iff.mp hcut
      obtain ⟨h₂, hnext, hfree⟩ := Option.bind_eq_some_iff.mp hcut
      have hrel := (relinked_setPrev hprev).trans (relinked_setNext hnext)
      refine .inr ⟨h₂, initial, count, ?_, hrel, hfree⟩
      simp only [hlast, hprev, hlast', hnext, Option.bind_some]
    · rw [if_neg hcount] at hrun ⊢
      cases hrun
      exact .inl ⟨rfl, rfl⟩

theorem removeOldTickets_released {k k' : Kernel} {cur : Task} {now : Int} {freed : List Nat}
    (hrun : removeOldTickets k cur now = some k') (hrel : Released k.heap freed) :
    Released k'.heap (freed ++ kfreed k cur now) := by
  unfold kfreed
  rcases removeOldTickets_heap hrun with ⟨hloop, hheap⟩ | ⟨h, initial, count, hloop, hlinks, hfree⟩
  · rw [hloop, List.append_nil, hheap]
    exact hrel
  · rw [hloop]
    exact (hrel.ages hlinks.ages).freeRun hfree

/-! ## §2 The other writes only age the heap -/

theorem spliceTickets_relinked {h h' : Heap Ticket} {resHead taskHead : Nat}
    (hrun : spliceTickets h resHead taskHead = some h') : Relinked h h' := by
  obtain ⟨current, -, hrun⟩ := Option.bind_eq_some_iff.mp hrun
  obtain ⟨last, -, hrun⟩ := Option.bind_eq_some_iff.mp hrun
  obtain ⟨h₁, h1, hrun⟩ := Option.bind_eq_some_iff.mp hrun
  obtain ⟨h₂, h2, hrun⟩ := Option.bind_eq_some_iff.mp hrun
  obtain ⟨last', -, hrun⟩ := Option.bind_eq_some_iff.mp hrun
  obtain ⟨h₃, h3, h4⟩ := Option.bind_eq_some_iff.mp hrun
  exact (relinked_setPrev h1).trans ((relinked_setNext h2).trans
    ((relinked_setNext h3).trans (relinked_setPrev h4)))

theorem claimTickets_relinked {k k' : Kernel} {cur : Task} {n? : Option Nat}
    (hrun : claimTickets k cur n? = some k') : Relinked k.heap k'.heap := by
  cases n? with
  | none =>
    cases hrun
    exact Relinked.refl _
  | some n =>
    unfold claimTickets at hrun
    cases hres : (k.node n).ticketHead with
    | none =>
      simp only [hres] at hrun
      cases hrun
      exact Relinked.refl _
    | some resHead =>
      simp only [hres] at hrun
      obtain ⟨count, -, hrun⟩ := Option.bind_eq_some_iff.mp hrun
      cases hhead : (k.cred cur.cred).ticketHead with
      | none =>
        simp only [hhead] at hrun
        cases hrun
        exact Relinked.refl _
      | some taskHead =>
        simp only [hhead] at hrun
        obtain ⟨h, hsplice, hrun⟩ := Option.bind_eq_some_iff.mp hrun
        cases hrun
        exact spliceTickets_relinked hsplice

theorem claimReservation_ages {k k' : Kernel} {cur : Task}
    (hrun : claimReservation k cur = some k') : Ages k.heap k'.heap := by
  have hages := (claimTickets_relinked hrun).ages
  rwa [(claimPty_spec k cur _).1] at hages

theorem appendTicket_relinked {h h' : Heap Ticket} {head p : Nat}
    (hrun : appendTicket h head p = some h') : Relinked h h' := by
  obtain ⟨last, -, hrun⟩ := Option.bind_eq_some_iff.mp hrun
  obtain ⟨h₁, h1, hrun⟩ := Option.bind_eq_some_iff.mp hrun
  obtain ⟨next, -, hrun⟩ := Option.bind_eq_some_iff.mp hrun
  obtain ⟨h₂, h2, hrun⟩ := Option.bind_eq_some_iff.mp hrun
  obtain ⟨h₃, h3, h4⟩ := Option.bind_eq_some_iff.mp hrun
  exact (relinked_setPrev h1).trans ((relinked_setNext h2).trans
    ((relinked_setPrev h3).trans (relinked_setNext h4)))

/-- A new cell, and links. -/
theorem hangTicket_relinked {k k' : Kernel} {n : Nat} {t : Ticket}
    (hrun : hangTicket k n t = some k') : Relinked (k.heap.alloc ⟨t, 0, 0⟩) k'.heap := by
  unfold hangTicket at hrun
  cases hhead : (k.node n).ticketHead with
  | none =>
    simp only [hhead] at hrun
    obtain ⟨h₁, h1, hrun⟩ := Option.bind_eq_some_iff.mp hrun
    obtain ⟨h₂, h2, hk⟩ := Option.bind_eq_some_iff.mp hrun
    cases hk
    exact (relinked_setNext h1).trans (relinked_setPrev h2)
  | some head =>
    simp only [hhead] at hrun
    obtain ⟨h, happend, hk⟩ := Option.bind_eq_some_iff.mp hrun
    cases hk
    exact appendTicket_relinked happend

/-- A new reservation is no ticket. -/
theorem reserve_heap {k : Kernel} (hwf : k.Wf) (rb : Rebalance Nat) (a : Allocs) (pid : Pid) :
    (reserve k rb a pid).1.heap = k.heap := by
  rw [reserve_allocs]
  split
  · rcases reserve_cases hwf rb pid with ⟨n, -, hrun⟩ | ⟨t, -, -, hrun⟩
    · rw [hrun]
    · rw [hrun]
      rfl
  · rfl

theorem insertTicket_ages {k k' : Kernel} (hwf : k.Wf) {rb : Rebalance Nat} {a : Allocs} {now : Int}
    {r : UpdateRecord} {success : Bool}
    (hrun : insertTicket k rb a now r = some (k', success)) : Ages k.heap k'.heap := by
  have hheap := reserve_heap hwf rb a r.pid
  unfold insertTicket at hrun
  cases hres : reserve k rb a r.pid with
  | mk k₁ n? =>
    rw [hres] at hrun hheap
    rw [← hheap]
    cases n? with
    | none =>
      cases hrun
      exact Ages.refl _
    | some n =>
      have hgrant := (grantPty_spec k₁ n r.operation).1
      unfold installTicket at hrun
      simp only at hrun hheap ⊢
      rw [← hgrant]
      split at hrun
      · cases hrun
        exact Ages.refl _
      split at hrun
      · cases hrun
      split at hrun
      · cases hrun
        exact Ages.refl _
      · obtain ⟨k₂, hhang, hk⟩ := Option.map_eq_some_iff.mp hrun
        cases hk
        exact (ages_alloc _ _).trans (hangTicket_relinked hhang).ages

/-! ## §3 Runs -/

inductive TicketCall where
  | insert (rb : Rebalance Nat) (a : Allocs) (now : Int) (r : UpdateRecord)
  | check (cur : Task) (now : Int)

/-- One call on the kernel and the list of freed tickets; `none` is a fault
or a loop that does not stop. -/
def ticketStep (s : Kernel × List Nat) : TicketCall → Option (Kernel × List Nat)
  | .insert rb a now r => do
    let (k, _) ← insertTicket s.1 rb a now r
    some (k, s.2)
  | .check cur now => do
    let claimed ← claimReservation s.1 cur
    let k ← checkTicketCache s.1 cur now
    some (k, s.2 ++ kfreed claimed cur now)

/-- A run of the module, from the state it is loaded with. -/
def ticketRun (cred : Nat → TaskData) (calls : List TicketCall) : Option (Kernel × List Nat) :=
  calls.foldlM ticketStep (Kernel.boot cred, [])

/-- What a run keeps. -/
structure TicketsKept (s : Kernel × List Nat) : Prop where
  wf : s.1.Wf
  released : Released s.1.heap s.2

theorem TicketsKept.boot (cred : Nat → TaskData) : TicketsKept (Kernel.boot cred, []) where
  wf := ⟨Kernel.boot_ringed cred, fun _ hn => absurd hn List.not_mem_nil⟩
  released := released_nil _

/-- An insertion that comes back keeps it. -/
theorem TicketsKept.insert {s : Kernel × List Nat} (hs : TicketsKept s) {rb : Rebalance Nat}
    {a : Allocs} {now : Int} {r : UpdateRecord} {k : Kernel} {success : Bool}
    (hrun : insertTicket s.1 rb a now r = some (k, success)) : TicketsKept (k, s.2) := by
  refine ⟨?_, hs.released.ages (insertTicket_ages hs.wf hrun)⟩
  rcases insertTicket_allocs hs.wf rb a now r with ⟨hnone, -⟩ | ⟨k', hsome, hwf, -⟩
  · rw [hnone] at hrun
    cases hrun
  · rw [hsome] at hrun
    cases hrun
    exact hwf

/-- A check comes back and keeps it. -/
theorem TicketsKept.check {s : Kernel × List Nat} (hs : TicketsKept s) (cur : Task) (now : Int) :
    ∃ s', ticketStep s (.check cur now) = some s' ∧ TicketsKept s' := by
  obtain ⟨claimed, hclaim, -⟩ := claimReservation_spec hs.wf.ringed cur
  obtain ⟨k, hcheck, hwf, -⟩ := checkTicketCache_wf hs.wf cur now
  have hexpiry : removeOldTickets claimed cur now = some k := by
    rw [checkTicketCache, hclaim] at hcheck
    exact hcheck
  refine ⟨(k, s.2 ++ kfreed claimed cur now), ?_, hwf, ?_⟩
  · simp only [ticketStep, hclaim, hcheck, Option.bind_eq_bind, Option.bind_some]
  · exact removeOldTickets_released hexpiry (hs.released.ages (claimReservation_ages hclaim))

theorem ticketStep_kept {s s' : Kernel × List Nat} {call : TicketCall} (hs : TicketsKept s)
    (hstep : ticketStep s call = some s') : TicketsKept s' := by
  cases call with
  | insert rb a now r =>
    obtain ⟨⟨k, success⟩, hrun, hs'⟩ := Option.bind_eq_some_iff.mp hstep
    cases hs'
    exact hs.insert hrun
  | check cur now =>
    obtain ⟨s₁, hcheck, hkept⟩ := hs.check cur now
    rw [hcheck] at hstep
    cases hstep
    exact hkept

theorem ticketRun_kept {cred : Nat → TaskData} {calls : List TicketCall} {s : Kernel × List Nat}
    (hrun : ticketRun cred calls = some s) : TicketsKept s :=
  Run.invariant (Q := fun _ => True) (fun _ _ _ hs _ hstep => ticketStep_kept hs hstep)
    (TicketsKept.boot cred) (fun _ _ => trivial) hrun

/-! ## §4 The rings are sound -/

/-- Every head is the head of a circular doubly linked ring, no ticket can be
reached from two owners, none that can be reached has been freed, and none
was freed twice. -/
structure Kernel.RingsSound (k : Kernel) (freed : List Nat) : Prop where
  circular : ∀ o a, k.headOf o = some a → Circular k.heap a
  apart : ∀ o o' a a' p, k.headOf o = some a → k.headOf o' = some a' →
    Reach k.heap a p → Reach k.heap a' p → o = o'
  unfreed : ∀ o a p, k.headOf o = some a → Reach k.heap a p → p ∉ freed
  once : freed.Nodup

theorem TicketsKept.sound {s : Kernel × List Nat} (hs : TicketsKept s) : s.1.RingsSound s.2 := by
  obtain ⟨ps, hr⟩ := hs.wf.ringed
  exact {
    circular := fun o a ha => hr.circular ha
    apart := fun o o' a a' p ha ha' hp hp' => hr.owner_eq ha ha' hp hp'
    unfreed := fun o a p ha hp => (hr.circular ha).notMem_freed hs.released hp
    once := hs.released.once }

/-- Whatever calls were made, at whatever times, the rings are sound, and
from there every further check comes back, and every further insertion
whose hexadecimal string can be allocated. -/
theorem ticket_rings_sound {cred : Nat → TaskData} {calls : List TicketCall}
    {s : Kernel × List Nat} (hrun : ticketRun cred calls = some s) :
    s.1.RingsSound s.2 ∧
    (∀ cur now, ∃ s', ticketStep s (.check cur now) = some s') ∧
    ∀ rb a now r, a.hex = true → ∃ s', ticketStep s (.insert rb a now r) = some s' := by
  have hkept := ticketRun_kept hrun
  refine ⟨hkept.sound, ?_, ?_⟩
  · intro cur now
    obtain ⟨s', hstep, -⟩ := hkept.check cur now
    exact ⟨s', hstep⟩
  · intro rb a now r hhex
    rcases insertTicket_allocs hkept.wf rb a now r with ⟨-, hfailed⟩ | ⟨k, hinsert, -⟩
    · rw [hhex] at hfailed
      cases hfailed
    · refine ⟨(k, s.2), ?_⟩
      simp only [ticketStep, hinsert, Option.bind_eq_bind, Option.bind_some]

/-- Two old tickets and a young one for 7, and a check, which frees the old
ones; then the clock goes back. -/
def backwardRun : List TicketCall :=
  [.insert .none .ok 1 ⟨7, Bytes.fill _ 1, opOpen⟩, .insert .none .ok 2 ⟨7, Bytes.fill _ 2, opOpen⟩,
    .insert .none .ok 20000000000 ⟨7, Bytes.fill _ 3, opOpen⟩, .check ⟨7, 0⟩ 20000000000,
    .insert .none .ok 5 ⟨7, Bytes.fill _ 4, opOpen⟩]

theorem backwardRun_sound :
    ∃ s, ticketRun (fun _ => ⟨false, false, none, 1, Bytes.zeros _⟩) backwardRun = some s ∧
      s.2 = [1, 2] ∧ s.1.RingsSound s.2 := by
  have hfreed : (ticketRun (fun _ => ⟨false, false, none, 1, Bytes.zeros _⟩) backwardRun).map
      Prod.snd = some [1, 2] := by decide
  obtain ⟨s, hrun, hs⟩ := Option.map_eq_some_iff.mp hfreed
  exact ⟨s, hrun, hs, (ticket_rings_sound hrun).1⟩

end Citadel
