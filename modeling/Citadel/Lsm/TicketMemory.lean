/-
Citadel.Lsm.TicketMemory — where the memory of every ticket goes.

`Citadel.Lsm.TicketRings` says that no ticket is freed twice or used after
it was freed. This module is the other side of the account: which tickets
are NEVER freed. Beside the kernel a run keeps what was handed to `kfree`
and what was lost, and every ticket ever allocated is exactly one of three
things: on the ring of one owner, freed, or lost.

A ticket is lost in two ways. A credential that is set up or freed takes
its `ticket_head` with it: `trm_cred_free` reports the tickets and frees
none. And the expiry pass that stops at an old ticket sets the head to
NULL and frees up to that ticket only, so what stands behind it is gone;
it stops there when the next ticket is no younger.
-/
import Citadel.Lib.Run
import Citadel.Lib.RingLedger
import Citadel.Lsm.TicketRings
import Citadel.Lsm.Task

namespace Citadel

open RingHeap SearchTree

/-! ## §1 The rings of a kernel -/

/-- The addresses on the ring of an owner, from its head. -/
def Kernel.ring (k : Kernel) (o : Owner) : List Nat := k.heap.addrs (k.headOf o)

/-- The ticket at `p` can be reached from some head. -/
def Kernel.Held (k : Kernel) (p : Nat) : Prop := ∃ o a, k.headOf o = some a ∧ Reach k.heap a p

theorem Kernel.ring_eq {k : Kernel} {ps : Owner → List Nat} (hr : Rings k.heap k.headOf ps) :
    k.ring = ps := by
  funext o
  rw [Kernel.ring, hr.head_eq o]
  exact addrs_ring (hr.ring o)

theorem Kernel.Ringed.rings {k : Kernel} (hrd : k.Ringed) : Rings k.heap k.headOf k.ring := by
  obtain ⟨ps, hr⟩ := hrd
  rwa [Kernel.ring_eq hr]

theorem Kernel.Ringed.held_iff {k : Kernel} (hrd : k.Ringed) {p : Nat} :
    k.Held p ↔ ∃ o, p ∈ k.ring o := by
  simp only [hrd.rings.mem_iff_reach, Kernel.Held]

/-! ## §2 What the expiry pass loses -/

/-- The tickets behind the one the expiry loop stops at, if that one is old:
the head is set to NULL and the freeing loop does not come to them. -/
def stranded (k : Kernel) (cur : Task) (now : Int) : List Nat :=
  let ring := k.ring (.task cur.cred)
  match ring.drop (climb (expiryGo (expiryThreshold now)) (k.heap.vals ring)) with
  | [] => []
  | p :: rest =>
    if (k.heap.valOf p).any (fun t => decide (t.timestamp ≤ expiryThreshold now)) then rest else []

/-- The same of the tickets alone: going over old tickets, the loop meets one
whose successor is no younger. -/
def overlooks (threshold : Int) : List Ticket → Bool
  | a :: b :: l => decide (a.timestamp ≤ threshold) &&
      (decide (b.timestamp ≤ a.timestamp) || overlooks threshold (b :: l))
  | _ => false

theorem expiryGo_eq_true {threshold : Int} {a b : Ticket} :
    expiryGo threshold a b = true ↔ a.timestamp ≤ threshold ∧ a.timestamp < b.timestamp := by
  simp [expiryGo]

/-- Where the loop stops, over a list of tickets. -/
theorem overlooks_iff (threshold : Int) : ∀ l : List Ticket, overlooks threshold l = true ↔
    ∃ t u rest, l.drop (climb (expiryGo threshold) l) = t :: u :: rest ∧ t.timestamp ≤ threshold
  | [] => by simp [overlooks]
  | [a] => by simp [overlooks, climb]
  | a :: b :: l => by
    rw [overlooks, climb, Bool.and_eq_true, Bool.or_eq_true, decide_eq_true_iff, decide_eq_true_iff]
    by_cases hgo : expiryGo threshold a b = true
    · obtain ⟨hold, hlt⟩ := expiryGo_eq_true.mp hgo
      rw [if_pos hgo, List.drop_succ_cons, ← overlooks_iff threshold (b :: l)]
      simp [hold, hlt]
    · -- the loop stops at `a`, so `b` is lost exactly if `a` is old
      rw [if_neg hgo, List.drop_zero]
      rw [expiryGo_eq_true, not_and, Int.not_lt] at hgo
      constructor
      · rintro ⟨hold, -⟩
        exact ⟨a, b, l, rfl, hold⟩
      · rintro ⟨t, u, rest, heq, hold⟩
        cases heq
        exact ⟨hold, .inl (hgo hold)⟩

/-- What is freed when the loop stops at `y`: what stands before it, and `y`
itself if it is old. -/
theorem kfreed_eq {k : Kernel} {cur : Task} {now : Int} {a y : Nat} {t xs ys : List Nat}
    {c : Cell Ticket} (hhead : (k.cred cur.cred).ticketHead = some a)
    (hring : IsRing k.heap (a :: t)) (hsplit : a :: t = xs ++ y :: ys)
    (hc : k.heap.cell y = some c)
    (hwalk : k.heap.walk (expiryGo (expiryThreshold now)) k.heap.fresh a 0 = some (y, xs.length)) :
    kfreed k cur now = if c.val.timestamp ≤ expiryThreshold now then xs ++ [y] else xs := by
  have hval : k.heap.valOf y = some c.val := by rw [Heap.valOf, hc, Option.map_some]
  unfold kfreed freeingLoop
  simp only [hhead, hwalk, hval, Option.bind_eq_bind, Option.bind_some]
  by_cases hold : c.val.timestamp ≤ expiryThreshold now
  · have hfront : a :: t = (xs ++ [y]) ++ ys := by simpa using hsplit
    have hfirst : ∀ b ∈ (xs ++ [y]).head?, b = a := by
      cases xs <;> simp_all
    simpa [hold] using freed_front (hfront ▸ hring) hfirst (fun _ _ => rfl)
  · cases xs with
    | nil => simp [hold]
    | cons b xs =>
      obtain ⟨rfl, rfl⟩ : a = b ∧ t = xs ++ y :: ys := by simpa using hsplit
      have hring : IsRing k.heap ((a :: xs) ++ y :: ys) := hring
      obtain ⟨-, -, hdisj⟩ := List.nodup_append'.mp hring.nodup
      have hys : y :: ys ≠ [] := List.cons_ne_nil y ys
      have hlastm : (y :: ys).getLast hys ∈ y :: ys := List.getLast_mem hys
      have hprev : k.heap.prevOf a = some ((y :: ys).getLast hys) := by
        have hclose := (hring.link_close (by simp)).2
        simpa using hclose
      have hay : a ≠ y := fun heq => hdisj List.mem_cons_self (heq ▸ List.mem_cons_self)
      have hlive := hring.live (List.mem_append_right (a :: xs) hlastm)
      -- the forward link that is written is not one of those the loop follows
      have hnext : ∀ x ∈ a :: xs, ((k.heap.putPrev y ((y :: ys).getLast hys)).putNext
          ((y :: ys).getLast hys) y).nextOf x = k.heap.nextOf x := by
        intro x hx
        have hxl : x ≠ (y :: ys).getLast hys := fun heq => hdisj hx (heq ▸ hlastm)
        exact (putNext_other hxl).trans (putPrev_nextOf _ _ _ _)
      have hfreed := freed_front hring (a := a) (by simp) hnext
      simpa [hold, hprev, setPrev_of_live, setNext_of_live, putPrev_other, hay, hc, hlive]
        using hfreed

/-- Where the loop stops on a ring, and what it strands there. -/
theorem expiry_split {k : Kernel} {cur : Task} (now : Int) {a : Nat} {t : List Nat}
    (hp : k.ring (.task cur.cred) = a :: t) (hring : IsRing k.heap (a :: t)) :
    ∃ xs y ys c, a :: t = xs ++ y :: ys ∧ k.heap.cell y = some c ∧
      k.heap.walk (expiryGo (expiryThreshold now)) k.heap.fresh a 0 = some (y, xs.length) ∧
      (k.heap.vals (a :: t)).drop (climb (expiryGo (expiryThreshold now)) (k.heap.vals (a :: t))) =
        c.val :: k.heap.vals ys ∧
      stranded k cur now = if c.val.timestamp ≤ expiryThreshold now then ys else [] := by
  obtain ⟨xs, y, ys, c, hsplit, hc, hwalk, hdrop⟩ :=
    walk_split (expiryGo_lt (expiryThreshold now)) hring
  refine ⟨xs, y, ys, c, hsplit, hc, hwalk, hdrop, ?_⟩
  have hclimb : climb (expiryGo (expiryThreshold now)) (k.heap.vals (a :: t)) = xs.length := by
    rw [walk_ring (expiryGo_lt (expiryThreshold now)) hring] at hwalk
    obtain ⟨b, -, heq⟩ := Option.map_eq_some_iff.mp hwalk
    exact congrArg Prod.snd heq
  have hrest : (a :: t).drop xs.length = y :: ys := by rw [hsplit, List.drop_left]
  have hval : k.heap.valOf y = some c.val := by rw [Heap.valOf, hc, Option.map_some]
  simp only [stranded, hp, hclimb, hrest, hval, Option.any_some, decide_eq_true_iff]

/-- The ring a pass meets, cut in three: what it frees, what it loses, what
it keeps. -/
theorem removeOldTickets_parts {k : Kernel} (hrd : k.Ringed) (cur : Task) (now : Int) :
    ∃ h' kept, removeOldTickets k cur now = some (k.setRing h' (.task cur.cred) kept.head?) ∧
      IsRing h' kept ∧
      k.ring (.task cur.cred) = kfreed k cur now ++ (stranded k cur now ++ kept) := by
  have hr := hrd.rings
  have hhead : (k.cred cur.cred).ticketHead = (k.ring (.task cur.cred)).head? :=
    hr.head_eq (.task cur.cred)
  have hring := hr.ring (.task cur.cred)
  have hsame : k.setRing k.heap (.task cur.cred) (k.ring (.task cur.cred)).head? = k := by
    rw [← hr.head_eq]
    exact setRing_same k k.heap (.task cur.cred)
  cases hp : k.ring (.task cur.cred) with
  | nil =>
    rw [hp, List.head?_nil] at hhead hsame
    exact ⟨k.heap, [], by simp [removeOldTickets, hhead, hsame], isRing_nil _,
      by simp [hhead, hp, kfreed, freeingLoop, stranded]⟩
  | cons a t =>
    rw [hp] at hring hhead hsame
    rw [List.head?_cons] at hhead
    obtain ⟨xs, y, ys, c, hsplit, hc, hwalk, -, hstranded⟩ := expiry_split now hp hring
    have hval : k.heap.valOf y = some c.val := by rw [Heap.valOf, hc, Option.map_some]
    rw [hstranded, kfreed_eq hhead hring hsplit hc hwalk]
    unfold removeOldTickets
    simp only [hhead, hwalk, hval, Option.bind_eq_bind, Option.bind_some]
    by_cases hold : c.val.timestamp ≤ expiryThreshold now
    · -- the pass stops at an old ticket: `ys` is lost
      obtain ⟨h', hrun, -⟩ := freeTickets_ring hring hsplit
      refine ⟨h', [], ?_, isRing_nil _, ?_⟩
      · rw [if_pos hold, hrun]
        rfl
      · rw [if_pos hold, if_pos hold, hsplit, List.append_nil, List.append_assoc,
          List.singleton_append]
    · rw [if_neg hold, if_neg hold, if_neg hold]
      cases xs with
      | nil => exact ⟨k.heap, a :: t, by rw [hsame]; rfl, hring, rfl⟩
      | cons b xs =>
        obtain ⟨rfl, rfl⟩ : a = b ∧ t = xs ++ y :: ys := by simpa using hsplit
        obtain ⟨h', hrun, hring', -⟩ := cutTickets_ring hring
        exact ⟨h', y :: ys, by simp [hrun, Kernel.setRing], hring', rfl⟩

/-- The pass strands something exactly if it overlooks something. -/
theorem stranded_eq_nil_iff {k : Kernel} (hrd : k.Ringed) (cur : Task) (now : Int) :
    stranded k cur now = [] ↔
      overlooks (expiryThreshold now) (k.tickets (.task cur.cred)) = false := by
  have hring := hrd.rings.ring (.task cur.cred)
  rw [Kernel.tickets_eq hrd.rings, ← Bool.not_eq_true, overlooks_iff]
  cases hp : k.ring (.task cur.cred) with
  | nil => simp [stranded, hp]
  | cons a t =>
    rw [hp] at hring
    obtain ⟨xs, y, ys, c, hsplit, -, -, hdrop, hstranded⟩ := expiry_split now hp hring
    rw [hstranded, hdrop]
    have hlen : (k.heap.vals ys).length = ys.length := by
      refine vals_length fun p hp => hring.live ?_
      rw [hsplit]
      exact List.mem_append_right xs (List.mem_cons_of_mem y hp)
    by_cases hold : c.val.timestamp ≤ expiryThreshold now
    · cases ys with
      | nil => simp
      | cons z zs =>
        obtain ⟨u, us, hvals⟩ := List.exists_cons_of_length_eq_add_one hlen
        simp [hold, hvals]
    · simp [hold]

/-- A pass takes out of the heap what it frees, and nothing besides. -/
theorem removeOldTickets_cells {k k' : Kernel} {cur : Task} {now : Int}
    (hrun : removeOldTickets k cur now = some k') : k'.heap.fresh = k.heap.fresh ∧
      ∀ x, (k'.heap.cell x).isSome ↔ (k.heap.cell x).isSome ∧ x ∉ kfreed k cur now := by
  unfold kfreed
  rcases removeOldTickets_heap hrun with ⟨hloop, hheap⟩ | ⟨h, initial, count, hloop, hrel, hfree⟩
  · rw [hloop, hheap]
    simp
  · obtain ⟨hfresh, -, -, hcells⟩ := freeRun_freed hfree
    rw [hloop]
    refine ⟨hfresh.trans hrel.fresh, fun x => ?_⟩
    rw [hcells x, ← hrel.live]
    by_cases hx : x ∈ h.freed count initial
    · simp [hx]
    · simp [hx]

/-! ## §3 The books of a kernel -/

/-- The account of a kernel: its rings with what was freed and lost, and no
ring at a reservation that was not handed out yet. -/
structure Kernel.Booked (k : Kernel) (freed lost : List Nat) : Prop where
  wf : k.Wf
  unborn : ∀ n, k.nodeFresh ≤ n → k.headOf (.res n) = none
  ledger : Ledger k.heap k.ring freed lost

theorem Kernel.boot_booked (cred : Nat → TaskData) : (Kernel.boot cred).Booked [] [] where
  wf := (TicketsKept.boot cred).wf
  unborn _ _ := rfl
  ledger := by
    have hring : (Kernel.boot cred).ring = fun _ => [] := by
      funext o
      cases o <;> rfl
    rw [hring]
    exact ledger_empty

section Booked

variable {k k' : Kernel} {freed lost : List Nat}

/-- What touches neither heap nor heads. -/
theorem Kernel.Booked.of_same (hb : k.Booked freed lost) (hwf : k'.Wf) (hheap : k'.heap = k.heap)
    (hhead : k'.headOf = k.headOf) (hfresh : k.nodeFresh ≤ k'.nodeFresh) :
    k'.Booked freed lost where
  wf := hwf
  unborn n hn := by
    rw [hhead]
    exact hb.unborn n (Nat.le_trans hfresh hn)
  ledger := by
    have hring : k'.ring = k.ring := by
      funext o
      rw [Kernel.ring, hheap, hhead, Kernel.ring]
    rw [hring, hheap]
    exact hb.ledger

/-- A write of flags. -/
theorem Kernel.Booked.of_sameTree (hb : k.Booked freed lost) (hheap : k'.heap = k.heap)
    (hhead : k'.headOf = k.headOf) (htree : k.SameTree k') : k'.Booked freed lost := by
  have hrd : k'.Ringed := by
    rw [Kernel.Ringed, hheap, hhead]
    exact hb.wf.ringed
  exact hb.of_same (hb.wf.of_sameTree hrd htree) hheap hhead htree.nodeFresh.ge

/-- Finding or adding a reservation. -/
theorem reserve_booked (hb : k.Booked freed lost) (rb : Rebalance Nat) (a : Allocs) (pid : Pid) :
    (reserve k rb a pid).1.Booked freed lost ∧
      ∀ n, (reserve k rb a pid).2 = some n → n < (reserve k rb a pid).1.nodeFresh := by
  rw [reserve_allocs]
  split
  · rcases reserve_cases hb.wf rb pid with ⟨n, hsearch, hrun⟩ | ⟨t, -, hlink, hrun⟩
    · rw [hrun]
      refine ⟨hb, fun m hm => ?_⟩
      cases hm
      exact hb.wf.born n (search_sound hsearch).1
    · rw [hrun]
      refine ⟨hb.of_same (addNode_wf hb.wf rb hlink) rfl ?_ (Nat.le_succ _), fun m hm => ?_⟩
      · rw [addNode_headOf, ← hb.unborn k.nodeFresh (Nat.le_refl _), Function.update_eq_self]
      · cases hm
        exact Nat.lt_succ_self _
  · exact ⟨hb, fun n hn => by cases hn⟩

theorem hangTicket_booked (hb : k.Booked freed lost) {n : Nat} (hn : n < k.nodeFresh) {t : Ticket}
    (hrun : hangTicket k n t = some k') : k'.Booked freed lost := by
  have hr := hb.wf.ringed.rings
  have hp := hr.fresh_notMem
  obtain ⟨h', hrun', hring, -, hlink⟩ := hangTicket_ring hr n t
  have hrel := hangTicket_relinked hrun
  obtain rfl := Option.some.inj (hrun'.symm.trans hrun)
  have hrings := setRing_rings ((hr.alloc ⟨t, 0, 0⟩).replace (.res n) hring
    (fun o ho x hx => hlink x (fun hm => hr.disjoint o _ ho hx hm) (fun heq => hp o (heq ▸ hx)))
    (fun o ho => List.disjoint_append_left.mpr
      ⟨hr.disjoint _ _ (Ne.symm ho), by simpa using hp o⟩))
  refine ⟨hb.wf.of_sameTree ⟨_, hrings⟩ (setRing_sameTree _ _ _ _), fun m hm => ?_, ?_⟩
  · have hmn : m ≠ n := by
      rintro rfl
      rw [setRing_nodeFresh] at hm
      exact absurd hn (Nat.not_lt.mpr hm)
    rw [setRing_headOf, Function.update_of_ne (by simpa using hmn)]
    rw [setRing_nodeFresh] at hm
    exact hb.unborn m hm
  · rw [Kernel.ring_eq hrings]
    exact hb.ledger.append (.res n) hrel

/-- Inserting a ticket loses nothing. -/
theorem insertTicket_booked (hb : k.Booked freed lost) {rb : Rebalance Nat} {a : Allocs} {now : Int}
    {r : UpdateRecord} {success : Bool}
    (hrun : insertTicket k rb a now r = some (k', success)) : k'.Booked freed lost := by
  obtain ⟨hb₁, hborn⟩ := reserve_booked hb rb a r.pid
  unfold insertTicket at hrun
  cases hres : reserve k rb a r.pid with
  | mk k₁ n? =>
    rw [hres] at hrun hb₁ hborn
    cases n? with
    | none =>
      cases hrun
      exact hb₁
    | some n =>
      obtain ⟨hheap, hhead, htree, -, -⟩ := grantPty_spec k₁ n r.operation
      have hb₂ := hb₁.of_sameTree hheap hhead htree
      have hn : n < (grantPty k₁ n r.operation).nodeFresh := by
        rw [htree.nodeFresh]
        exact hborn n rfl
      unfold installTicket at hrun
      simp only at hrun
      split at hrun
      · cases hrun
        exact hb₂
      split at hrun
      · cases hrun
      split at hrun
      · cases hrun
        exact hb₂
      · obtain ⟨k₂, hhang, hk⟩ := Option.map_eq_some_iff.mp hrun
        cases hk
        exact hangTicket_booked hb₂ hn hhang

theorem claimTickets_booked (hb : k.Booked freed lost) {cur : Task} {n : Nat}
    (hrun : claimTickets k cur (some n) = some k') : k'.Booked freed lost := by
  have hr := hb.wf.ringed.rings
  obtain ⟨h', hrun', hring, -, hlink⟩ := claimTickets_ring hr cur n
  have hrel := claimTickets_relinked hrun
  obtain rfl := Option.some.inj (hrun'.symm.trans hrun)
  have hne : Owner.task cur.cred ≠ .res n := by simp
  have hmove := hr.move hne hring (fun o ho ho' x hx =>
    hlink x (fun hm => hr.disjoint o _ ho hx hm) (fun hm => hr.disjoint o _ ho' hx hm))
  have hrings : Rings _ _ _ := setRing_rings (k := k.setRing h' (.task cur.cred) _) (by
    rw [setRing_headOf]
    exact hmove)
  have htree := (setRing_sameTree k h' (.task cur.cred)
    (k.ring (.task cur.cred) ++ k.ring (.res n)).head?).trans (setRing_sameTree _ h' (.res n) none)
  refine ⟨hb.wf.of_sameTree ⟨_, hrings⟩ htree, fun m hm => ?_, ?_⟩
  · rw [htree.nodeFresh] at hm
    rw [setRing_headOf, setRing_headOf]
    by_cases hmn : m = n
    · rw [hmn, Function.update_self]
    · rw [Function.update_of_ne (by simpa using hmn), Function.update_of_ne (by simp)]
      exact hb.unborn m hm
  · rw [Kernel.ring_eq hrings]
    exact hb.ledger.move hrel hne

/-- Claiming loses nothing. -/
theorem claimReservation_booked (hb : k.Booked freed lost) {cur : Task}
    (hrun : claimReservation k cur = some k') : k'.Booked freed lost := by
  unfold claimReservation at hrun
  generalize ticketSearch k cur.pid = n? at hrun
  obtain ⟨hheap, hhead, htree, -, -⟩ := claimPty_spec k cur n?
  have hb₁ := hb.of_sameTree hheap hhead htree
  cases n? with
  | none =>
    cases hrun
    exact hb₁
  | some n => exact claimTickets_booked hb₁ hrun

/-- The expiry pass enters what it frees and what it strands. -/
theorem removeOldTickets_booked (hb : k.Booked freed lost) {cur : Task} {now : Int}
    (hrun : removeOldTickets k cur now = some k') :
    k'.Booked (freed ++ kfreed k cur now) (lost ++ stranded k cur now) := by
  have hr := hb.wf.ringed.rings
  obtain ⟨hfresh, hcells⟩ := removeOldTickets_cells hrun
  obtain ⟨h', kept, hrun', hring, hparts⟩ := removeOldTickets_parts hb.wf.ringed cur now
  obtain ⟨h'', l, hrun'', -, -, -, hrest⟩ := removeOldTickets_ring hr cur now
  obtain rfl : h' = h'' := by
    have heq := congrArg Kernel.heap (Option.some.inj (hrun'.symm.trans hrun''))
    simpa using heq
  obtain rfl := Option.some.inj (hrun'.symm.trans hrun)
  have hout : ∀ o, o ≠ .task cur.cred → ∀ x ∈ k.ring o, x ∉ k.ring (.task cur.cred) :=
    fun o ho x hx hm => hr.disjoint o _ ho hx hm
  have hsub : ∀ x ∈ kept, x ∈ k.ring (.task cur.cred) := by
    intro x hx
    rw [hparts]
    exact List.mem_append_right _ (List.mem_append_right _ hx)
  have hrings := setRing_rings (hr.replace (.task cur.cred) hring
    (fun o ho x hx => (hrest x (hout o ho x hx)).2)
    (fun o ho x hx hm => hout o ho x hm (hsub x hx)))
  refine ⟨hb.wf.of_sameTree ⟨_, hrings⟩ (setRing_sameTree _ _ _ _), fun n hn => ?_, ?_⟩
  · rw [setRing_nodeFresh] at hn
    rw [setRing_headOf, Function.update_of_ne (by simp)]
    exact hb.unborn n hn
  · rw [Kernel.ring_eq hrings]
    exact hb.ledger.cut hr hparts hfresh hcells

/-- A credential that loses its head loses its ring. -/
theorem setCred_booked (hb : k.Booked freed lost) (c : Nat) {d : TaskData}
    (hd : d.ticketHead = none) :
    (k.setCred c d).Booked freed (lost ++ k.ring (.task c)) := by
  have hr := hb.wf.ringed.rings
  have hrings := hr.replace (.task c) (isRing_nil k.heap)
    (fun _ _ _ _ => ⟨rfl, rfl⟩) (fun _ _ => List.disjoint_nil_left _)
  rw [List.head?_nil, ← hd, ← setCred_headOf] at hrings
  refine ⟨setCred_reset_wf hb.wf c hd, fun n hn => ?_, ?_⟩
  · rw [setCred_headOf, Function.update_of_ne (by simp)]
    exact hb.unborn n hn
  · rw [Kernel.ring_eq (k := k.setCred c d) hrings, ← List.append_nil freed]
    exact hb.ledger.cut hr (by simp) rfl (by simp [Kernel.setCred])

end Booked

/-! ## §4 Runs -/

/-- What can happen to tickets: calls of the cache, and credentials and
processes that come and go. -/
inductive MemoryEvent where
  | call (call : TicketCall)
  | allocBlank (cred : Nat) (random : Identifier)
  | prepare (new old : Nat) (random : Identifier)
  | credFree (cred : Nat)
  | taskFree (pid : Pid)

/-- The kernel, the tickets handed to `kfree`, and the tickets lost. -/
structure TicketMemory where
  kernel : Kernel
  freed : List Nat
  lost : List Nat

/-- `trm_cred_free`, after which the framework frees the blob and with it
the head. -/
def releaseCred (k : Kernel) (cred : Nat) : Kernel :=
  (trmCredFree k cred).setCred cred { k.cred cred with ticketHead := none }

/-- The tickets an event loses. -/
def MemoryEvent.loses (k : Kernel) : MemoryEvent → List Nat
  | .call (.insert _ _ _ _) => []
  | .call (.check cur now) =>
    match claimReservation k cur with
    | none => []
    | some claimed => stranded claimed cur now
  | .allocBlank cred _ => k.ring (.task cred)
  | .prepare new _ _ => k.ring (.task new)
  | .credFree cred => k.ring (.task cred)
  | .taskFree _ => []

/-- One event; `none` is a fault. -/
def memoryStep (m : TicketMemory) (e : MemoryEvent) : Option TicketMemory :=
  let lost := m.lost ++ e.loses m.kernel
  match e with
  | .call call => (ticketStep (m.kernel, m.freed) call).map fun s => ⟨s.1, s.2, lost⟩
  | .allocBlank cred random => some ⟨trmCredAllocBlank m.kernel cred random, m.freed, lost⟩
  | .prepare new old random => some ⟨trmCredPrepare m.kernel new old random, m.freed, lost⟩
  | .credFree cred => some ⟨releaseCred m.kernel cred, m.freed, lost⟩
  | .taskFree pid => some ⟨trmTaskFree m.kernel pid, m.freed, lost⟩

/-- A run of the module, from the state it is loaded with. -/
def memoryRun (cred : Nat → TaskData) (evs : List MemoryEvent) : Option TicketMemory :=
  evs.foldlM memoryStep ⟨Kernel.boot cred, [], []⟩

structure TicketMemory.Accounted (m : TicketMemory) : Prop where
  booked : m.kernel.Booked m.freed m.lost
  released : Released m.kernel.heap m.freed

theorem TicketMemory.Accounted.boot (cred : Nat → TaskData) :
    TicketMemory.Accounted ⟨Kernel.boot cred, [], []⟩ :=
  ⟨Kernel.boot_booked cred, (TicketsKept.boot cred).released⟩

theorem memoryStep_accounted {m m' : TicketMemory} {e : MemoryEvent} (hm : m.Accounted)
    (hstep : memoryStep m e = some m') : m'.Accounted := by
  obtain ⟨hb, hrel⟩ := hm
  cases e with
  | call call =>
    obtain ⟨s, hcall, rfl⟩ := Option.map_eq_some_iff.mp hstep
    have hkept := ticketStep_kept (s := (m.kernel, m.freed)) ⟨hb.wf, hrel⟩ hcall
    refine ⟨?_, hkept.released⟩
    cases call with
    | insert rb a now r =>
      obtain ⟨⟨k, success⟩, hins, hs⟩ := Option.bind_eq_some_iff.mp hcall
      cases hs
      rw [MemoryEvent.loses, List.append_nil]
      exact insertTicket_booked hb hins
    | check cur now =>
      obtain ⟨claimed, hclaim, hcall⟩ := Option.bind_eq_some_iff.mp hcall
      obtain ⟨k, hcheck, hs⟩ := Option.bind_eq_some_iff.mp hcall
      cases hs
      have hremove : removeOldTickets claimed cur now = some k := by
        have hbind := hcheck
        rw [checkTicketCache, hclaim] at hbind
        exact hbind
      rw [MemoryEvent.loses, hclaim]
      exact removeOldTickets_booked (claimReservation_booked hb hclaim) hremove
  | allocBlank cred random =>
    cases hstep
    exact ⟨setCred_booked hb cred (initTaskTrm_ticketHead random none), hrel⟩
  | prepare new old random =>
    cases hstep
    exact ⟨setCred_booked hb new (initTaskTrm_ticketHead random _), hrel⟩
  | credFree cred =>
    cases hstep
    exact ⟨setCred_booked hb cred rfl, hrel⟩
  | taskFree pid =>
    cases hstep
    refine ⟨?_, hrel⟩
    rw [MemoryEvent.loses, List.append_nil]
    exact hb

theorem memoryRun_accounted {cred : Nat → TaskData} {evs : List MemoryEvent} {m : TicketMemory}
    (hrun : memoryRun cred evs = some m) : m.Accounted :=
  Run.invariant (Q := fun _ => True) (fun _ _ _ hm _ hstep => memoryStep_accounted hm hstep)
    (TicketMemory.Accounted.boot cred) (fun _ _ => trivial) hrun

/-! ## §5 Which runs lose tickets -/

/-- The tickets a check looks at: those held, and behind them those pending
for the caller's pid. -/
def Kernel.claimable (k : Kernel) (cur : Task) : List Ticket :=
  k.tickets (.task cur.cred) ++ (ticketSearch k cur.pid).elim [] fun n => k.tickets (.res n)

/-- An event loses tickets: a check that overlooks one, or the end of a
credential that holds some. -/
def MemoryEvent.leaks (k : Kernel) : MemoryEvent → Bool
  | .call (.insert _ _ _ _) => false
  | .call (.check cur now) => overlooks (expiryThreshold now) (k.claimable cur)
  | .allocBlank cred _ => !(k.tickets (.task cred)).isEmpty
  | .prepare new _ _ => !(k.tickets (.task new)).isEmpty
  | .credFree cred => !(k.tickets (.task cred)).isEmpty
  | .taskFree _ => false

theorem Kernel.Ringed.ring_eq_nil_iff {k : Kernel} (hrd : k.Ringed) (o : Owner) :
    k.ring o = [] ↔ (!(k.tickets o).isEmpty) = false := by
  have hlen : (k.tickets o).length = (k.ring o).length := by
    rw [Kernel.tickets_eq hrd.rings]
    exact vals_length fun p hp => (hrd.rings.ring o).live hp
  rw [Bool.not_eq_false', List.isEmpty_iff, ← List.length_eq_zero_iff, ← hlen,
    List.length_eq_zero_iff]

theorem loses_eq_nil_iff {k : Kernel} (hrd : k.Ringed) (e : MemoryEvent) :
    e.loses k = [] ↔ e.leaks k = false := by
  cases e with
  | call call =>
    cases call with
    | insert rb a now r => exact ⟨fun _ => rfl, fun _ => rfl⟩
    | check cur now =>
      obtain ⟨claimed, hclaim, hrd', -, -, -, -, htask⟩ := claimReservation_spec hrd cur
      have hclaimed : claimed.tickets (.task cur.cred) = k.claimable cur := by
        rw [htask, if_pos rfl, Kernel.claimable]
      rw [MemoryEvent.loses, hclaim, MemoryEvent.leaks, ← hclaimed]
      exact stranded_eq_nil_iff hrd' cur now
  | allocBlank cred random => exact hrd.ring_eq_nil_iff (.task cred)
  | prepare new old random => exact hrd.ring_eq_nil_iff (.task new)
  | credFree cred => exact hrd.ring_eq_nil_iff (.task cred)
  | taskFree pid => exact ⟨fun _ => rfl, fun _ => rfl⟩

/-- A step adds to the lost tickets what it loses. -/
theorem memoryStep_lost {m m' : TicketMemory} {e : MemoryEvent}
    (hstep : memoryStep m e = some m') : m'.lost = m.lost ++ e.loses m.kernel := by
  cases e with
  | call call =>
    obtain ⟨s, -, rfl⟩ := Option.map_eq_some_iff.mp hstep
    rfl
  | allocBlank cred random => cases hstep; rfl
  | prepare new old random => cases hstep; rfl
  | credFree cred => cases hstep; rfl
  | taskFree pid => cases hstep; rfl

/-- Nothing is lost exactly if no event leaks at the state it meets. -/
theorem lost_eq_nil_iff {cred : Nat → TaskData} {evs : List MemoryEvent} {m : TicketMemory}
    (hrun : memoryRun cred evs = some m) : m.lost = [] ↔
      Run.Along memoryStep (fun m e => e.leaks m.kernel = false) ⟨Kernel.boot cred, [], []⟩ evs := by
  refine Run.Along.iff_of_step (I := TicketMemory.Accounted) (G := fun m => m.lost = [])
    (fun _ _ _ hm _ hstep => memoryStep_accounted hm hstep) ?_ ?_
    (TicketMemory.Accounted.boot cred) rfl hrun
  · intro s s' e hs hnone hstep
    rw [memoryStep_lost hstep, hnone, List.nil_append]
    exact loses_eq_nil_iff hs.booked.wf.ringed e
  · intro s s' e hstep hnone
    rw [memoryStep_lost hstep] at hnone
    exact (List.append_eq_nil_iff.mp hnone).1

/-- Every ticket ever allocated is accounted for. Those handed to `kfree`
are the dead ones, each once. Those lost are the ones that are allocated
and that no reservation and no credential reaches; there are none exactly if
no check stopped at an old ticket before one that is no younger, and no
credential was set up or freed while it held tickets. -/
theorem tickets_accounted {cred : Nat → TaskData} {evs : List MemoryEvent} {m : TicketMemory}
    (hrun : memoryRun cred evs = some m) :
    m.freed.Nodup ∧
    (∀ p, 0 < p → p < m.kernel.heap.fresh → (p ∈ m.freed ↔ m.kernel.heap.cell p = none)) ∧
    m.lost.Nodup ∧
    (∀ p, p ∈ m.lost ↔ (m.kernel.heap.cell p).isSome ∧ ¬ m.kernel.Held p) ∧
    ((∀ p, (m.kernel.heap.cell p).isSome → m.kernel.Held p) ↔
      Run.Along memoryStep (fun m e => e.leaks m.kernel = false)
        ⟨Kernel.boot cred, [], []⟩ evs) := by
  obtain ⟨hb, hrel⟩ := memoryRun_accounted hrun
  have hlost : ∀ p, p ∈ m.lost ↔ (m.kernel.heap.cell p).isSome ∧ ¬ m.kernel.Held p := by
    intro p
    rw [hb.ledger.mem_lost_iff, hb.wf.ringed.held_iff]
  refine ⟨hrel.once, fun p hpos hborn => hb.ledger.mem_freed_iff hrel hpos hborn, hb.ledger.once,
    hlost, ?_⟩
  rw [← lost_eq_nil_iff hrun, List.eq_nil_iff_forall_not_mem]
  refine forall_congr' fun p => ?_
  rw [hlost p, not_and, not_not]

/-- The threads 7 and 8 share a credential. 8 claims its ticket first, so
the older ticket of 7 stands behind it, and the expiry pass that frees the
ticket of 8 loses the ticket of 7. Then 9 ends with a ticket. -/
def sharedCredential : List MemoryEvent :=
  [.call (.insert .none .ok 1 ⟨7, Bytes.fill _ 1, opOpen⟩),
    .call (.insert .none .ok 2 ⟨8, Bytes.fill _ 2, opOpen⟩),
    .call (.check ⟨8, 0⟩ 3), .call (.check ⟨7, 0⟩ 4), .call (.check ⟨7, 0⟩ 20000000000),
    .call (.insert .none .ok 20000000000 ⟨9, Bytes.fill _ 3, opOpen⟩),
    .call (.check ⟨9, 1⟩ 20000000000), .taskFree 9, .credFree 1]

theorem sharedCredential_loses :
    ∃ m, memoryRun (fun _ => ⟨false, false, none, 1, Bytes.zeros _⟩) sharedCredential = some m ∧
      m.freed = [2] ∧ m.lost = [1, 3] ∧ ¬ m.kernel.Held 1 ∧ ¬ m.kernel.Held 3 := by
  have hends : (memoryRun (fun _ => ⟨false, false, none, 1, Bytes.zeros _⟩) sharedCredential).map
      (fun m => (m.freed, m.lost)) = some ([2], [1, 3]) := by decide
  obtain ⟨m, hrun, hm⟩ := Option.map_eq_some_iff.mp hends
  obtain ⟨hfreed, hlost⟩ := Prod.mk.inj hm
  obtain ⟨-, -, -, hiff, -⟩ := tickets_accounted hrun
  have h1 : 1 ∈ m.lost := by simp [hlost]
  have h3 : 3 ∈ m.lost := by simp [hlost]
  exact ⟨m, hrun, hfreed, hlost, ((hiff 1).mp h1).2, ((hiff 3).mp h3).2⟩

end Citadel
