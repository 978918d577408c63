/-
Citadel.Lsm.TicketQueues — the ticket cache as a map of queues.

What the cache is FOR, in its own terms (`Queues`): one queue of pending
tickets for each pid, one list of held tickets for each credential, and a
PTY flag on either side. Inserting appends to the queue of a pid;
claiming empties the queue of the caller's pid onto the end of what the
caller's credential holds; expiring cuts that list.

`Kernel.queues` reads the queues off the tree and the rings. The
refinement theorems say that `insert_ticket`, the claim and the whole of
`check_ticket_cache` compute exactly the queue operations; where an
allocation of `insert_ticket` fails, the operation is that of what arrives
of the record (`UpdateRecord.received`). They need the
tree to be a search tree, which the comparison by subtraction delivers as
long as every reserved pid is non-negative (`Kernel.Keyed`).
-/
import Citadel.Lsm.TicketCacheTheorems

namespace Citadel

open RingHeap SearchTree

/-! ## The queues -/

/-- Who waits for what, and who holds what. -/
@[ext] structure Queues where
  pending : Pid → List Ticket
  ptyPending : Pid → Bool
  held : Nat → List Ticket
  ptyHeld : Nat → Bool

/-- The tickets a record becomes: none if it is a PTY grant and nothing
else. -/
def UpdateRecord.tickets (r : UpdateRecord) (now : Int) : List Ticket :=
  if r.operation = opPtyAccess then [] else [⟨r.identifier, r.operation, now⟩]

def Queues.insert (q : Queues) (now : Int) (r : UpdateRecord) : Queues where
  pending := fun p => if p = r.pid then q.pending p ++ r.tickets now else q.pending p
  ptyPending := fun p =>
    q.ptyPending p || (decide (p = r.pid) && r.operation.has opPtyAccess)
  held := q.held
  ptyHeld := q.ptyHeld

def Queues.claim (q : Queues) (cur : Task) : Queues where
  pending := fun p => if p = cur.pid then [] else q.pending p
  ptyPending := fun p => q.ptyPending p && decide (p ≠ cur.pid)
  held := fun c => if c = cur.cred then q.held c ++ q.pending cur.pid else q.held c
  ptyHeld := fun c => q.ptyHeld c || (decide (c = cur.cred) && q.ptyPending cur.pid)

def Queues.expire (q : Queues) (cur : Task) (now : Int) : Queues :=
  { q with held := fun c =>
      if c = cur.cred then Citadel.expire (expiryThreshold now) (q.held c) else q.held c }

/-- The queues of a kernel. -/
def Kernel.queues (k : Kernel) : Queues where
  pending := fun p => (ticketSearch k p).elim [] (fun n => k.tickets (.res n))
  ptyPending := fun p => (ticketSearch k p).any (fun n => (k.node n).grantedPty)
  held := fun c => k.tickets (.task c)
  ptyHeld := fun c => (k.cred c).grantedPty

/-! ## The tree is keyed by pid -/

/-- The comparison by subtraction sees equality for what it is, -/
theorem comparePid_eq {p q : Pid} (h : comparePid p q = .eq) : p = q := by
  unfold comparePid at h
  simp only at h
  split at h
  · cases h
  · split at h
    · cases h
    · rename_i h1 h2
      have hd : (p - q).toInt = 0 := by
        rw [BitVec.slt_iff_toInt_lt] at h1 h2
        have h0 : (0 : BitVec 32).toInt = 0 := rfl
        omega
      have hzero : p - q = 0 := BitVec.eq_of_toInt_eq (by rw [hd]; rfl)
      bv_omega

/-- and, between pids that are not negative, order too. -/
theorem comparePid_nonneg {p q : Pid} (hp : 0 ≤ p.toInt) (hq : 0 ≤ q.toInt) :
    comparePid p q = compare p.toInt q.toInt := by
  have hd : (p - q).toInt = p.toInt - q.toInt := by
    have h1 := BitVec.toInt_lt (x := p)
    have h2 := BitVec.toInt_lt (x := q)
    rw [BitVec.toInt_sub]
    refine Int.bmod_eq_of_le ?_ ?_ <;> omega
  have h0 : (0 : BitVec 32).toInt = 0 := rfl
  unfold comparePid
  simp only [BitVec.slt_iff_toInt_lt, hd, h0]
  rcases lt_trichotomy p.toInt q.toInt with hlt | heq | hgt
  · rw [compare_lt_iff_lt.mpr hlt, if_pos (by omega)]
  · rw [compare_eq_iff_eq.mpr heq, if_neg (by omega), if_neg (by omega)]
  · rw [compare_gt_iff_gt.mpr hgt, if_neg (by omega), if_pos (by omega)]

/-- The pid of a node as a number. -/
def Kernel.key (k : Kernel) (n : Nat) : Int := (k.node n).pid.toInt

/-- The reserved pids are not negative and the tree is sorted by them. -/
structure Kernel.Keyed (k : Kernel) : Prop extends k.Wf where
  nonneg : ∀ n ∈ inorder k.reservations, 0 ≤ k.key n
  sorted : Sorted k.key k.reservations

theorem Kernel.boot_keyed (cred : Nat → TaskData) : (Kernel.boot cred).Keyed where
  ringed := Kernel.boot_ringed cred
  born := by simp [Kernel.boot, inorder]
  nonneg := by simp [Kernel.boot, inorder]
  sorted := List.Pairwise.nil

theorem Kernel.Keyed.compares {k : Kernel} (hk : k.Keyed) {p : Pid} (hp : 0 ≤ p.toInt) :
    Compares k.key (fun n => comparePid p (k.node n).pid) p.toInt k.reservations :=
  fun n hn => comparePid_nonneg hp (hk.nonneg n hn)

/-- The search finds the node of a pid, and only that. -/
theorem ticketSearch_iff {k : Kernel} (hk : k.Keyed) {p : Pid} {n : Nat} :
    ticketSearch k p = some n ↔ n ∈ inorder k.reservations ∧ (k.node n).pid = p := by
  constructor
  · intro h
    obtain ⟨hm, he⟩ := search_sound h
    exact ⟨hm, (comparePid_eq he).symm⟩
  · rintro ⟨hm, rfl⟩
    exact search_complete hk.sorted (hk.compares (hk.nonneg n hm)) hm

/-- A change that keeps the tree and the rings keeps it keyed. -/
theorem Kernel.Keyed.of_sameTree {k k' : Kernel} (hk : k.Keyed) (h : k.SameTree k')
    (hrd : k'.Ringed) : k'.Keyed := by
  have hkey : k'.key = k.key := funext fun n => congrArg BitVec.toInt (h.pid n)
  refine ⟨⟨hrd, ?_⟩, ?_, ?_⟩
  · rw [h.reservations, h.nodeFresh]
    exact hk.born
  · rw [h.reservations, hkey]
    exact hk.nonneg
  · rw [h.reservations, hkey]
    exact hk.sorted

/-! ## `insert_ticket` refines `Queues.insert` -/

/-- Linking a new pid into a keyed tree, and rebalancing, leaves it keyed. -/
theorem addNode_keyed {k : Kernel} (hk : k.Keyed) (rb : Rebalance Nat) {pid : Pid}
    (hp : 0 ≤ pid.toInt) {t : BinaryTree Nat}
    (ht : link (fun m => comparePid pid (k.node m).pid) k.nodeFresh k.reservations = some t) :
    (k.addNode pid (rb.tree t)).Keyed := by
  have hold : ∀ n ∈ inorder k.reservations, (k.addNode pid (rb.tree t)).key n = k.key n := by
    intro n hn
    rw [Kernel.key, addNode_node_of_lt k pid _ (hk.born n hn), Kernel.key]
  have hnew : (k.addNode pid (rb.tree t)).key k.nodeFresh = pid.toInt := by
    rw [Kernel.key, addNode_node_fresh]
  refine ⟨addNode_wf hk.toWf rb ht, ?_, ?_⟩
  · intro n hn
    rcases (mem_addNode rb ht).mp hn with rfl | hm
    · rw [hnew]
      exact hp
    · rw [hold n hm]
      exact hk.nonneg n hm
  · have hsorted : Sorted (k.addNode pid (rb.tree t)).key t := by
      refine link_sorted ?_ ?_ ht
      · exact hk.sorted.imp_of_mem fun ha hb hab => by rwa [hold _ ha, hold _ hb]
      · intro n hn
        rw [hnew, hold n hn]
        exact hk.compares hp n hn
    unfold Sorted at hsorted ⊢
    rwa [show (k.addNode pid (rb.tree t)).reservations = rb.tree t from rfl, rb.inorder_tree]

/-- A new node is found under its own pid and hides no other. -/
theorem addNode_search {k : Kernel} (hk : k.Keyed) (rb : Rebalance Nat) {pid : Pid}
    (hp : 0 ≤ pid.toInt) {t : BinaryTree Nat}
    (ht : link (fun m => comparePid pid (k.node m).pid) k.nodeFresh k.reservations = some t)
    (p : Pid) : ticketSearch (k.addNode pid (rb.tree t)) p =
      if p = pid then some k.nodeFresh else ticketSearch k p := by
  have hk' := addNode_keyed hk rb hp ht
  by_cases hpp : p = pid
  · rw [if_pos hpp, ticketSearch_iff hk', addNode_node_fresh]
    exact ⟨(mem_addNode rb ht).mpr (.inl rfl), hpp.symm⟩
  · rw [if_neg hpp]
    refine Option.ext fun n => ?_
    rw [ticketSearch_iff hk', ticketSearch_iff hk, mem_addNode rb ht]
    constructor
    · rintro ⟨rfl | hn, hpid⟩
      · rw [addNode_node_fresh] at hpid
        exact absurd hpid.symm hpp
      · rw [addNode_node_of_lt k pid _ (hk.born n hn)] at hpid
        exact ⟨hn, hpid⟩
    · rintro ⟨hn, hpid⟩
      rw [addNode_node_of_lt k pid _ (hk.born n hn)]
      exact ⟨.inr hn, hpid⟩

/-- An added reservation changes no queue. -/
theorem addNode_queues {k : Kernel} (hk : k.Keyed) (rb : Rebalance Nat) {pid : Pid}
    (hp : 0 ≤ pid.toInt) {t : BinaryTree Nat} (hs : ticketSearch k pid = none)
    (ht : link (fun m => comparePid pid (k.node m).pid) k.nodeFresh k.reservations = some t) :
    (k.addNode pid (rb.tree t)).queues = k.queues := by
  have hsearch := addNode_search hk rb hp ht
  have hempty : (k.addNode pid (rb.tree t)).tickets (.res k.nodeFresh) = [] := by
    rw [Kernel.tickets, addNode_headOf, Function.update_self]
    rfl
  have hold : ∀ {p n}, ticketSearch k p = some n →
      (k.addNode pid (rb.tree t)).tickets (.res n) = k.tickets (.res n) ∧
      (k.addNode pid (rb.tree t)).node n = k.node n := by
    intro p n hn
    have hlt := hk.born n ((ticketSearch_iff hk).mp hn).1
    refine ⟨addNode_tickets k pid _ _ ?_, addNode_node_of_lt k pid _ hlt⟩
    simpa using Nat.ne_of_lt hlt
  ext1
  · funext p
    simp only [Kernel.queues, hsearch]
    by_cases hpp : p = pid
    · rw [if_pos hpp, hpp, hs]
      exact hempty
    · rw [if_neg hpp]
      cases hn : ticketSearch k p with
      | none => rfl
      | some n => exact (hold hn).1
  · funext p
    simp only [Kernel.queues, hsearch]
    by_cases hpp : p = pid
    · rw [if_pos hpp, hpp, hs, Option.any_some, addNode_node_fresh, Option.any_none]
    · rw [if_neg hpp]
      cases hn : ticketSearch k p with
      | none => rfl
      | some n => rw [Option.any_some, Option.any_some, (hold hn).2]
  · funext c
    exact addNode_tickets k pid _ _ (by simp)
  · rfl

/-- Looking a pid up reserves it, and changes no queue. -/
theorem reserve_queues {k : Kernel} (hk : k.Keyed) (rb : Rebalance Nat) {pid : Pid}
    (hp : 0 ≤ pid.toInt) :
    ∃ k' n, reserve k rb .ok pid = (k', some n) ∧ k'.Keyed ∧ ticketSearch k' pid = some n ∧
      k'.queues = k.queues ∧ k'.cred = k.cred := by
  rcases reserve_cases hk.toWf rb pid with ⟨n, hs, hrun⟩ | ⟨t, hs, ht, hrun⟩
  · exact ⟨k, n, hrun, hk, hs, rfl, rfl⟩
  · refine ⟨_, _, hrun, addNode_keyed hk rb hp ht, ?_, addNode_queues hk rb hp hs ht, rfl⟩
    rw [addNode_search hk rb hp ht, if_pos rfl]

/-- Two pids are not found at one node. -/
theorem ticketSearch_inj {k : Kernel} {p q : Pid} {n : Nat} (hp : ticketSearch k p = some n)
    (hq : ticketSearch k q = some n) : p = q :=
  (comparePid_eq (search_sound hp).2).trans (comparePid_eq (search_sound hq).2).symm

/-- On the node of its pid a record is appended to the queue of that pid. -/
theorem installTicket_refines {k : Kernel} (hk : k.Keyed) (now : Int) {r : UpdateRecord} {n : Nat}
    (hs : ticketSearch k r.pid = some n) :
    ∃ k', installTicket k n .ok now r = some (k', true) ∧ k'.Keyed ∧
      k'.queues = k.queues.insert now r ∧ k'.cred = k.cred := by
  obtain ⟨k', hrun, hrd, htree, hpty, hcred, hother, hthis⟩ := installTicket_spec hk.ringed n now r
  refine ⟨k', hrun, hk.of_sameTree htree hrd, ?_, hcred⟩
  have hne : ∀ {p m}, ticketSearch k p = some m → (m = n ↔ p = r.pid) := by
    intro p m hm
    constructor
    · rintro rfl
      exact ticketSearch_inj hm hs
    · rintro rfl
      rwa [hs, Option.some.injEq, eq_comm] at hm
  have hnone : ∀ {p}, ticketSearch k p = none → p ≠ r.pid := by
    rintro p hm rfl
    rw [hs] at hm
    cases hm
  ext1
  · funext p
    simp only [Kernel.queues, Queues.insert, htree.search]
    cases hm : ticketSearch k p with
    | none =>
      rw [if_neg (hnone hm)]
      rfl
    | some m =>
      by_cases hpr : p = r.pid
      · obtain rfl := (hne hm).mpr hpr
        rw [if_pos hpr]
        exact hthis
      · rw [if_neg hpr]
        exact hother _ (by simpa using fun h => hpr ((hne hm).mp h))
  · funext p
    simp only [Kernel.queues, Queues.insert, htree.search]
    cases hm : ticketSearch k p with
    | none => simp [hnone hm]
    | some m => simp [hpty, hne hm]
  · funext c
    exact hother _ (by simp)
  · funext c
    simp only [Kernel.queues, Queues.insert, hcred]

/-- `insert_ticket` does not fault, reports success, and appends to the
queue of the record's pid. -/
theorem insertTicket_refines {k : Kernel} (hk : k.Keyed) (rb : Rebalance Nat) (now : Int)
    {r : UpdateRecord} (hp : 0 ≤ r.pid.toInt) :
    ∃ k', insertTicket k rb .ok now r = some (k', true) ∧ k'.Keyed ∧
      k'.queues = k.queues.insert now r ∧ k'.cred = k.cred := by
  obtain ⟨k₀, n, hres, hk₀, hs, hq₀, hc₀⟩ := reserve_queues hk rb hp
  obtain ⟨k', hrun, hk', hq, hcred⟩ := installTicket_refines hk₀ now hs
  refine ⟨k', ?_, hk', by rw [hq, hq₀], hcred.trans hc₀⟩
  rw [insertTicket, hres]
  exact hrun

/-! ## Allocations that fail -/

/-- What arrives of a record. With no memory for the ticket it is the PTY
right alone, which is granted before; without a node it is nothing.
`reserved` is whether the pid has its node already. -/
def UpdateRecord.received (r : UpdateRecord) (reserved : Bool) (a : Allocs) :
    Option UpdateRecord :=
  if reserved || a.node then
    if decide (r.operation = opPtyAccess) || a.ticket then some r
    else if r.operation.has opPtyAccess then some { r with operation := opPtyAccess }
    else none
  else none

theorem UpdateRecord.received_ok (r : UpdateRecord) (reserved : Bool) :
    r.received reserved .ok = some r := by
  simp [UpdateRecord.received, Allocs.ok]

/-- The whole record, or its PTY right. -/
theorem UpdateRecord.received_cases {r r' : UpdateRecord} {reserved : Bool} {a : Allocs}
    (h : r.received reserved a = some r') :
    r' = r ∨ r.operation.has opPtyAccess = true ∧ r' = { r with operation := opPtyAccess } := by
  unfold UpdateRecord.received at h
  split at h
  · split at h
    · exact .inl (Option.some.inj h).symm
    · split at h
      · rename_i hpty
        exact .inr ⟨hpty, (Option.some.inj h).symm⟩
      · cases h
  · cases h

theorem UpdateRecord.received_pid {r r' : UpdateRecord} {reserved : Bool} {a : Allocs}
    (h : r.received reserved a = some r') : r'.pid = r.pid := by
  rcases received_cases h with rfl | ⟨-, rfl⟩
  · rfl
  · rfl

/-- Nothing arrives without a node. -/
theorem UpdateRecord.received_node {r r' : UpdateRecord} {reserved : Bool} {a : Allocs}
    (h : r.received reserved a = some r') : (reserved || a.node) = true := by
  unfold UpdateRecord.received at h
  split at h
  · assumption
  · cases h

/-- Nothing arrives that was not sent: neither a ticket, -/
theorem UpdateRecord.received_tickets {r r' : UpdateRecord} {reserved : Bool} {a : Allocs}
    (h : r.received reserved a = some r') (now : Int) :
    (r'.tickets now).Sublist (r.tickets now) := by
  rcases received_cases h with rfl | ⟨-, rfl⟩
  · exact List.Sublist.refl _
  · rw [UpdateRecord.tickets, if_pos rfl]
    exact List.nil_sublist _

/-- nor a PTY right. -/
theorem UpdateRecord.received_pty {r r' : UpdateRecord} {reserved : Bool} {a : Allocs}
    (h : r.received reserved a = some r') (hpty : r'.operation.has opPtyAccess = true) :
    r.operation.has opPtyAccess = true := by
  rcases received_cases h with rfl | ⟨hhas, -⟩
  · exact hpty
  · exact hhas

/-- The same, with the allocations that may fail. -/
theorem installTicket_receives {k : Kernel} (hk : k.Keyed) (a : Allocs) (now : Int)
    {r : UpdateRecord} {n : Nat} (hs : ticketSearch k r.pid = some n) :
    (installTicket k n a now r = none ∧ a.hex = false) ∨
    ∃ k', installTicket k n a now r =
        some (k', decide (r.operation = opPtyAccess) || a.ticket) ∧ k'.Keyed ∧
      k'.queues = (r.received true a).elim k.queues (k.queues.insert now) ∧ k'.cred = k.cred := by
  obtain ⟨k', hrun, hk', hq, hcred⟩ := installTicket_refines hk now hs
  by_cases hop : r.operation = opPtyAccess
  · refine .inr ⟨k', ?_, hk', by simpa [UpdateRecord.received, hop] using hq, hcred⟩
    rw [installTicket, if_pos hop] at hrun ⊢
    simpa [hop] using hrun
  cases hhex : a.hex with
  | false => exact .inl ⟨by rw [installTicket, if_neg hop, if_pos (by simp [hhex])], rfl⟩
  | true =>
    cases hticket : a.ticket with
    | true =>
      refine .inr ⟨k', ?_, hk', by simpa [UpdateRecord.received, hticket] using hq, hcred⟩
      rw [installTicket, if_neg hop, if_neg (by simp [Allocs.ok]), if_neg (by simp [Allocs.ok])]
        at hrun
      rw [installTicket, if_neg hop, if_neg (by simp [hhex]), if_neg (by simp [hticket]), hrun,
        Bool.or_true]
    | false =>
      have hfails : installTicket k n a now r = some (grantPty k n r.operation, false) := by
        rw [installTicket, if_neg hop, if_neg (by simp [hhex]), if_pos (by simp [hticket])]
      rw [hfails]
      simp only [hop, decide_false, Bool.false_or]
      cases hpty : r.operation.has opPtyAccess with
      | false =>
        refine .inr ⟨k, by simp [grantPty, hpty], hk, ?_, rfl⟩
        simp [UpdateRecord.received, hop, hticket, hpty]
      | true =>
        -- the right alone, as a record of its own would bring it
        obtain ⟨k₁, hrun₁, hk₁, hq₁, hcred₁⟩ := installTicket_refines hk now
          (r := { r with operation := opPtyAccess }) hs
        rw [installTicket, if_pos rfl, Option.some.injEq, Prod.mk.injEq] at hrun₁
        have hgrant : grantPty k n r.operation = k₁ := by
          rw [← hrun₁.1, grantPty, if_pos hpty, grantPty,
            if_pos (show opPtyAccess.has opPtyAccess = true by decide)]
        refine .inr ⟨k₁, by rw [hgrant], hk₁, ?_, hcred₁⟩
        simp [UpdateRecord.received, hop, hticket, hpty, hq₁]

/-- `insert_ticket` with the allocations that may fail: only the
hexadecimal string makes it fault, and the queue of the pid gets what
arrives of the record. -/
theorem insertTicket_receives {k : Kernel} (hk : k.Keyed) (rb : Rebalance Nat) (a : Allocs)
    (now : Int) {r : UpdateRecord} (hp : 0 ≤ r.pid.toInt) :
    (insertTicket k rb a now r = none ∧ a.hex = false) ∨
    ∃ k', insertTicket k rb a now r = some (k', insertSucceeds k a r) ∧ k'.Keyed ∧
      k'.queues =
        (r.received (ticketSearch k r.pid).isSome a).elim k.queues (k.queues.insert now) ∧
      k'.cred = k.cred := by
  unfold insertTicket insertSucceeds
  rw [reserve_allocs]
  cases hnode : (ticketSearch k r.pid).isSome || a.node with
  | false =>
    refine .inr ⟨k, rfl, hk, ?_, rfl⟩
    rw [UpdateRecord.received, hnode]
    rfl
  | true =>
    obtain ⟨k₀, n, hres, hk₀, hs, hq₀, hc₀⟩ := reserve_queues hk rb hp
    have hreceived : r.received (ticketSearch k r.pid).isSome a = r.received true a := by
      rw [UpdateRecord.received, if_pos hnode, UpdateRecord.received, Bool.true_or, if_pos rfl]
    rw [if_pos rfl, hres, Bool.true_and, hreceived, ← hq₀, ← hc₀]
    exact installTicket_receives hk₀ a now hs

/-! ## `check_ticket_cache` refines `Queues.claim` and `Queues.expire` -/

/-- The claim, for a caller of any pid. -/
theorem claimReservation_refines {k : Kernel} (hk : k.Keyed) (cur : Task) :
    ∃ k', claimReservation k cur = some k' ∧ k'.Keyed ∧ k'.queues = k.queues.claim cur ∧
      ∀ c, k'.cred c = { k.cred c with
        ticketHead := k'.headOf (.task c), grantedPty := (k.queues.claim cur).ptyHeld c } := by
  obtain ⟨k', hrun, hrd, htree, hpty, hcred, hres, htask⟩ :=
    claimReservation_spec hk.ringed cur
  have hne : ∀ {p m}, ticketSearch k p = some m →
      (ticketSearch k cur.pid = some m ↔ p = cur.pid) := by
    intro p m hm
    constructor
    · exact fun hs => ticketSearch_inj hm hs
    · rintro rfl
      exact hm
  refine ⟨k', hrun, hk.of_sameTree htree hrd, ?_, hcred⟩
  ext1
  · funext p
    simp only [Kernel.queues, Queues.claim, htree.search]
    cases hm : ticketSearch k p with
    | none => simp
    | some m => simp [hres, hne hm]
  · funext p
    simp only [Kernel.queues, Queues.claim, htree.search]
    cases hm : ticketSearch k p with
    | none => simp
    | some m => simp [hpty, hne hm]
  · funext c
    simp only [Kernel.queues, Queues.claim, htask]
  · funext c
    simp only [Kernel.queues, Queues.claim, hcred]

/-- `check_ticket_cache` does not fault: it claims, then expires. Of the
credentials it touches only the ring and the PTY flag of the caller's. -/
theorem checkTicketCache_refines {k : Kernel} (hk : k.Keyed) (cur : Task) (now : Int) :
    ∃ k', checkTicketCache k cur now = some k' ∧ k'.Keyed ∧
      k'.queues = (k.queues.claim cur).expire cur now ∧
      ∀ c, k'.cred c = { k.cred c with
        ticketHead := k'.headOf (.task c), grantedPty := (k.queues.claim cur).ptyHeld c } := by
  obtain ⟨k₁, hrun₁, hk₁, hq₁, hcred₁⟩ := claimReservation_refines hk cur
  obtain ⟨h, head, hrun, hrd, hthis, hother⟩ := removeOldTickets_spec hk₁.ringed cur now
  have htree := setRing_sameTree k₁ h (.task cur.cred) head
  refine ⟨_, ?_, hk₁.of_sameTree htree hrd, ?_, fun c => ?_⟩
  · rw [checkTicketCache, hrun₁]
    exact hrun
  · rw [← hq₁]
    ext1
    · funext p
      simp only [Kernel.queues, Queues.expire, htree.search]
      congr 1
      funext n
      exact hother _ (by simp)
    · funext p
      simp only [Kernel.queues, Queues.expire, htree.search, setRing_pty]
    · funext c
      simp only [Kernel.queues, Queues.expire]
      by_cases hc : c = cur.cred
      · subst hc
        rw [if_pos rfl]
        exact hthis
      · rw [if_neg hc]
        exact hother _ (by simpa using hc)
    · funext c
      simp only [Kernel.queues, Queues.expire, setRing_cred]
  · rw [setRing_cred, hcred₁]

end Citadel
