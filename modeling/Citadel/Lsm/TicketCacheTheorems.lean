/-
Citadel.Lsm.TicketCacheTheorems — what the ticket cache does to its rings.

The pointer level is settled here once. `Kernel.Ringed` says that the heads of
all reservation nodes and all credentials own disjoint rings;
`insertTicket_spec` and `checkTicketCache_spec` say that the two
operations never fault from there, keep it, and act on the ticket LISTS
the rings hold as an append, a concatenation and `expire`. They hold for
any pids, any timestamps and any rebalancing: nothing about the order of
the tree is used. Everything later is about lists.
-/
import Citadel.Lsm.TicketCache

namespace Citadel

open RingHeap SearchTree

/-! ## Owners of rings -/

/-- Who can hold a ring: a reservation node or a credential. -/
inductive Owner where
  | res (n : Nat)
  | task (c : Nat)
  deriving DecidableEq

def Kernel.headOf (k : Kernel) : Owner → Option Nat
  | .res n => (k.node n).ticketHead
  | .task c => (k.cred c).ticketHead

/-- The tickets on the ring of an owner, in ring order from its head. -/
def Kernel.tickets (k : Kernel) (o : Owner) : List Ticket := k.heap.contents (k.headOf o)

/-- All heads own disjoint rings. -/
def Kernel.Ringed (k : Kernel) : Prop := ∃ ps, Rings k.heap k.headOf ps

theorem Kernel.boot_ringed (cred : Nat → TaskData) : (Kernel.boot cred).Ringed := by
  have hhead : (Kernel.boot cred).headOf = fun _ => none := by
    funext o
    cases o <;> rfl
  refine ⟨fun _ => [], ?_⟩
  rw [hhead]
  exact rings_empty _

/-- Another heap, and in it another ring for the owner `o`. -/
def Kernel.setRing (k : Kernel) (h : Heap Ticket) (o : Owner) (head : Option Nat) : Kernel :=
  match o with
  | .res n => { k with heap := h }.setNode n { k.node n with ticketHead := head }
  | .task c => { k with heap := h }.setCred c { k.cred c with ticketHead := head }

section SetRing

variable (k : Kernel) (h : Heap Ticket) (o : Owner) (head : Option Nat)

@[simp] theorem setRing_heap : (k.setRing h o head).heap = h := by cases o <;> rfl

@[simp] theorem setRing_headOf :
    (k.setRing h o head).headOf = Function.update k.headOf o head := by
  funext x
  by_cases hx : x = o
  · subst hx
    cases x <;> simp [Kernel.headOf, Kernel.setRing, Kernel.setNode, Kernel.setCred]
  · rw [Function.update_of_ne hx]
    cases o <;> cases x <;>
      simp_all [Kernel.headOf, Kernel.setRing, Kernel.setNode, Kernel.setCred]

@[simp] theorem setRing_reservations :
    (k.setRing h o head).reservations = k.reservations := by cases o <;> rfl

@[simp] theorem setRing_nodeFresh : (k.setRing h o head).nodeFresh = k.nodeFresh := by
  cases o <;> rfl

/-- Of a node, only the ring can have changed. -/
theorem setRing_node (n : Nat) : (k.setRing h o head).node n =
    { k.node n with ticketHead := (k.setRing h o head).headOf (.res n) } := by
  cases o with
  | res m =>
    by_cases hn : n = m
    · subst hn; simp [Kernel.headOf, Kernel.setRing, Kernel.setNode]
    · simp [Kernel.headOf, Kernel.setRing, Kernel.setNode, hn]
  | task c => rfl

/-- Of a credential, only the ring can have changed. -/
theorem setRing_cred (c : Nat) : (k.setRing h o head).cred c =
    { k.cred c with ticketHead := (k.setRing h o head).headOf (.task c) } := by
  cases o with
  | res n => rfl
  | task m =>
    by_cases hc : c = m
    · subst hc; simp [Kernel.headOf, Kernel.setRing, Kernel.setCred]
    · simp [Kernel.headOf, Kernel.setRing, Kernel.setCred, hc]

@[simp] theorem setRing_pid (n : Nat) : ((k.setRing h o head).node n).pid = (k.node n).pid := by
  rw [setRing_node]

@[simp] theorem setRing_pty (n : Nat) :
    ((k.setRing h o head).node n).grantedPty = (k.node n).grantedPty := by
  rw [setRing_node]

/-- Putting the ring it has back changes only the heap. -/
theorem setRing_same : k.setRing h o (k.headOf o) = { k with heap := h } := by
  cases o <;> simp [Kernel.headOf, Kernel.setRing, Kernel.setNode, Kernel.setCred]

end SetRing

theorem Kernel.tickets_eq {k : Kernel} {ps : Owner → List Nat}
    (hr : Rings k.heap k.headOf ps) (o : Owner) : k.tickets o = k.heap.vals (ps o) :=
  hr.contents_eq o

theorem setRing_rings {k : Kernel} {h : Heap Ticket} {o : Owner} {head : Option Nat}
    {ps : Owner → List Nat} (hr : Rings h (Function.update k.headOf o head) ps) :
    Rings (k.setRing h o head).heap (k.setRing h o head).headOf ps := by
  rwa [setRing_heap, setRing_headOf]

/-! ## The pointer writes -/

/-- Appending a live cell that is on no ring extends the ring by it. -/
theorem appendTicket_ring {h : Heap Ticket} {ps : List Nat} {p : Nat} (hr : IsRing h ps)
    (hps : ps ≠ []) (hp : p ∉ ps) (hlive : (h.cell p).isSome) :
    ∃ h', appendTicket h (ps.head hps) p = some h' ∧ IsRing h' (ps ++ [p]) ∧
      (∀ x, h'.valOf x = h.valOf x) ∧
      ∀ x, x ∉ ps → x ≠ p → h'.nextOf x = h.nextOf x ∧ h'.prevOf x = h.prevOf x := by
  obtain ⟨hnext, hprev⟩ := hr.link_close hps
  have hheadm : ps.head hps ∈ ps := List.head_mem hps
  have hlastm : ps.getLast hps ∈ ps := List.getLast_mem hps
  have hhead := hr.live hheadm
  have hlast := hr.live hlastm
  have hne : ∀ x ∈ ps, x ≠ p := fun x hx hxp => hp (hxp ▸ hx)
  refine ⟨(((h.putPrev (ps.head hps) p).putNext p (ps.head hps)).putPrev p
    (ps.getLast hps)).putNext (ps.getLast hps) p, ?_, ?_, fun x => by simp, ?_⟩
  · simp [appendTicket, hprev, hnext, setPrev_of_live, setNext_of_live, hhead, hlast, hlive]
  · refine hr.join hps (List.cons_ne_nil p []) (List.nodup_singleton p)
      (List.isChain_singleton p) (by simpa using hp) ?_ ?_ ⟨?_, ?_⟩ ⟨?_, ?_⟩
    · intro x hx
      have hxl := ne_getLast_of_mem_dropLast hr.nodup hps hx
      have hxp := hne x (List.mem_of_mem_dropLast hx)
      simp [putNext_other, hxl, hxp]
    · intro x hx
      have hxh := ne_head_of_mem_tail hr.nodup hps hx
      have hxp := hne x (List.mem_of_mem_tail hx)
      simp [putPrev_other, hxh, hxp]
    · simp [putNext_same, hlast]
    · simp [putPrev_same, hlive]
    · have hpl := (hne _ hlastm).symm
      simp [putNext_same, putNext_other, hlive, hpl]
    · have hhp := hne _ hheadm
      simp [putPrev_same, putPrev_other, hhead, hhp]
  · intro x hx hxp
    have hxl : x ≠ ps.getLast hps := fun h => hx (h ▸ hlastm)
    have hxh : x ≠ ps.head hps := fun h => hx (h ▸ hheadm)
    simp [putNext_other, putPrev_other, hxl, hxh, hxp]

/-- The four writes of the splice join two disjoint rings. -/
theorem spliceTickets_ring {h : Heap Ticket} {ps qs : List Nat} (hp : IsRing h ps)
    (hq : IsRing h qs) (hps : ps ≠ []) (hqs : qs ≠ []) (hdisj : ps.Disjoint qs) :
    ∃ h', spliceTickets h (qs.head hqs) (ps.head hps) = some h' ∧ IsRing h' (ps ++ qs) ∧
      (∀ x, h'.valOf x = h.valOf x) ∧
      ∀ x, x ∉ ps → x ∉ qs → h'.nextOf x = h.nextOf x ∧ h'.prevOf x = h.prevOf x := by
  obtain ⟨-, hprevp⟩ := hp.link_close hps
  obtain ⟨-, hprevq⟩ := hq.link_close hqs
  have hph := List.head_mem hps
  have hpl := List.getLast_mem hps
  have hqh := List.head_mem hqs
  have hql := List.getLast_mem hqs
  have hne : ∀ x ∈ ps, ∀ y ∈ qs, x ≠ y := fun x hx y hy hxy => hdisj hx (hxy ▸ hy)
  refine ⟨(((h.putPrev (qs.head hqs) (ps.getLast hps)).putNext (qs.getLast hqs)
    (ps.head hps)).putNext (ps.getLast hps) (qs.head hqs)).putPrev (ps.head hps)
    (qs.getLast hqs), ?_, ?_, fun x => by simp, ?_⟩
  · simp [spliceTickets, hprevp, hprevq, setPrev_of_live, setNext_of_live, putPrev_other,
      hne _ hph _ hqh, hp.live hph, hp.live hpl, hq.live hqh, hq.live hql]
  · refine hp.join hps hqs hq.nodup (chain_frame qs hq.chain ?_ ?_) hdisj ?_ ?_ ⟨?_, ?_⟩ ⟨?_, ?_⟩
    · intro x hx
      have hxl := ne_getLast_of_mem_dropLast hq.nodup hqs hx
      have hxe := (hne _ hpl x (List.mem_of_mem_dropLast hx)).symm
      simp [putNext_other, hxl, hxe]
    · intro x hx
      have hxh := ne_head_of_mem_tail hq.nodup hqs hx
      have hxt := (hne _ hph x (List.mem_of_mem_tail hx)).symm
      simp [putPrev_other, hxh, hxt]
    · intro x hx
      have hxl := ne_getLast_of_mem_dropLast hp.nodup hps hx
      have hxc := hne x (List.mem_of_mem_dropLast hx) _ hql
      simp [putNext_other, hxl, hxc]
    · intro x hx
      have hxh := ne_head_of_mem_tail hp.nodup hps hx
      have hxr := hne x (List.mem_of_mem_tail hx) _ hqh
      simp [putPrev_other, hxh, hxr]
    · simp [putNext_same, hp.live hpl]
    · have hrt := (hne _ hph _ hqh).symm
      simp [putPrev_same, putPrev_other, hrt, hq.live hqh]
    · have hce := (hne _ hpl _ hql).symm
      simp [putNext_same, putNext_other, hce, hq.live hql]
    · simp [putPrev_same, hp.live hph]
  · intro x hxp hxq
    have h1 : x ≠ ps.getLast hps := fun h => hxp (h ▸ hpl)
    have h2 : x ≠ ps.head hps := fun h => hxp (h ▸ hph)
    have h3 : x ≠ qs.getLast hqs := fun h => hxq (h ▸ hql)
    have h4 : x ≠ qs.head hqs := fun h => hxq (h ▸ hqh)
    simp [putNext_other, putPrev_other, h1, h2, h3, h4]

/-! ## `insert_ticket` -/

/-- In both branches the ring of `n` grows by the new address at its end. -/
theorem hangTicket_ring {k : Kernel} {ps : Owner → List Nat} (hr : Rings k.heap k.headOf ps)
    (n : Nat) (t : Ticket) :
    ∃ h', hangTicket k n t =
        some (k.setRing h' (.res n) (ps (.res n) ++ [k.heap.fresh]).head?) ∧
      IsRing h' (ps (.res n) ++ [k.heap.fresh]) ∧
      (∀ x, h'.valOf x = (k.heap.alloc ⟨t, 0, 0⟩).valOf x) ∧
      ∀ x, x ∉ ps (.res n) → x ≠ k.heap.fresh →
        h'.nextOf x = (k.heap.alloc ⟨t, 0, 0⟩).nextOf x ∧
        h'.prevOf x = (k.heap.alloc ⟨t, 0, 0⟩).prevOf x := by
  have hlive : ((k.heap.alloc ⟨t, 0, 0⟩).cell k.heap.fresh).isSome := by simp [alloc_cell]
  have hhead : (k.node n).ticketHead = (ps (.res n)).head? := hr.head_eq (.res n)
  unfold hangTicket
  by_cases hps : ps (.res n) = []
  · rw [hps, List.nil_append]
    rw [hps, List.head?_nil] at hhead
    refine ⟨((k.heap.alloc ⟨t, 0, 0⟩).putNext k.heap.fresh k.heap.fresh).putPrev k.heap.fresh
      k.heap.fresh, ?_, ⟨List.nodup_singleton _, List.isChain_singleton _, ?_⟩, ?_, ?_⟩
    · simp [hhead, setNext_of_live, setPrev_of_live, hlive, Kernel.setRing]
    · simp [Link, putNext_same, putPrev_same, hlive]
    · simp
    · intro x _ hx
      simp [putNext_other, putPrev_other, hx]
  · obtain ⟨h', happ, hring, hv, hl⟩ :=
      appendTicket_ring ((hr.alloc ⟨t, 0, 0⟩).ring (.res n)) hps (hr.fresh_notMem _) hlive
    refine ⟨h', ?_, hring, hv, hl⟩
    rw [List.head?_append_of_ne_nil _ hps, ← hr.head_eq, setRing_same]
    rw [List.head?_eq_some_head hps] at hhead
    simp [hhead, happ]

/-- The tree and the pids of its nodes have not changed. -/
structure Kernel.SameTree (k k' : Kernel) : Prop where
  reservations : k'.reservations = k.reservations
  nodeFresh : k'.nodeFresh = k.nodeFresh
  pid : ∀ n, (k'.node n).pid = (k.node n).pid

theorem Kernel.SameTree.trans {k k₁ k₂ : Kernel} (h : k.SameTree k₁) (h' : k₁.SameTree k₂) :
    k.SameTree k₂ :=
  ⟨h'.reservations.trans h.reservations, h'.nodeFresh.trans h.nodeFresh,
    fun n => (h'.pid n).trans (h.pid n)⟩

theorem setRing_sameTree (k : Kernel) (h : Heap Ticket) (o : Owner) (head : Option Nat) :
    k.SameTree (k.setRing h o head) :=
  ⟨setRing_reservations k h o head, setRing_nodeFresh k h o head, setRing_pid k h o head⟩

theorem Kernel.SameTree.search {k k' : Kernel} (h : k.SameTree k') (pid : Pid) :
    ticketSearch k' pid = ticketSearch k pid := by
  unfold ticketSearch
  rw [h.reservations]
  exact search_congr fun n _ => by rw [h.pid n]

/-- The new ticket stands at the end of the ring of `n`. -/
theorem hangTicket_spec {k : Kernel} (hrd : k.Ringed) (n : Nat) (t : Ticket) :
    ∃ h head, hangTicket k n t = some (k.setRing h (.res n) head) ∧
      (k.setRing h (.res n) head).Ringed ∧
      (∀ o, o ≠ .res n → (k.setRing h (.res n) head).tickets o = k.tickets o) ∧
      (k.setRing h (.res n) head).tickets (.res n) = k.tickets (.res n) ++ [t] := by
  obtain ⟨ps, hr⟩ := hrd
  obtain ⟨h', hrun, hring, hval, hlink⟩ := hangTicket_ring hr n t
  have hp := hr.fresh_notMem
  have hne : ∀ o, ∀ x ∈ ps o, x ≠ k.heap.fresh := fun o x hx heq => hp o (heq ▸ hx)
  have hold : ∀ o, h'.vals (ps o) = k.heap.vals (ps o) := by
    intro o
    refine vals_congr fun x hx => ?_
    rw [hval, Heap.valOf, alloc_cell, if_neg (hne o x hx), Heap.valOf]
  have hnew : h'.vals [k.heap.fresh] = [t] := by
    have hv : h'.valOf k.heap.fresh = some t := by
      rw [hval, Heap.valOf, alloc_cell, if_pos rfl, Option.map_some]
    simp [Heap.vals, hv]
  have hrings := (hr.alloc ⟨t, 0, 0⟩).replace (.res n) hring
    (fun o ho x hx => hlink x (fun hm => hr.disjoint o _ ho hx hm) (hne o x hx))
    (fun o ho => List.disjoint_append_left.mpr
      ⟨hr.disjoint _ _ (Ne.symm ho), by simpa using hp o⟩)
  refine ⟨h', _, hrun, ?_⟩
  have hk := setRing_rings hrings
  refine ⟨⟨_, hk⟩, ?_, ?_⟩
  · intro o ho
    rw [Kernel.tickets_eq hk, Kernel.tickets_eq hr, Function.update_of_ne ho, setRing_heap, hold]
  · rw [Kernel.tickets_eq hk, Kernel.tickets_eq hr, Function.update_self, setRing_heap,
      vals_append, hold, hnew]

/-- The PTY flag touches no ring. -/
theorem grantPty_spec (k : Kernel) (n : Nat) (op : Operation) :
    (grantPty k n op).heap = k.heap ∧ (grantPty k n op).headOf = k.headOf ∧
      k.SameTree (grantPty k n op) ∧ (grantPty k n op).cred = k.cred ∧
      ∀ m, ((grantPty k n op).node m).grantedPty =
        ((k.node m).grantedPty || (decide (m = n) && op.has opPtyAccess)) := by
  unfold grantPty
  cases op.has opPtyAccess with
  | false => exact ⟨rfl, rfl, ⟨rfl, rfl, fun _ => rfl⟩, rfl, by simp⟩
  | true =>
    have hnode : ∀ m, ((k.setNode n { k.node n with grantedPty := true }).node m) =
        { k.node m with grantedPty := (k.node m).grantedPty || decide (m = n) } := by
      intro m
      by_cases hm : m = n
      · subst hm; simp [Kernel.setNode]
      · simp [Kernel.setNode, hm]
    refine ⟨rfl, ?_, ⟨rfl, rfl, fun m => by simp [hnode]⟩, rfl, fun m => by simp [hnode]⟩
    funext o
    cases o with
    | res m => simp [Kernel.headOf, hnode]
    | task c => rfl

/-- Installing a record on node `n` sets its PTY flag if asked to, and
puts the ticket at the end of its ring unless the record is a PTY grant
and nothing else. -/
theorem installTicket_spec {k : Kernel} (hrd : k.Ringed) (n : Nat) (now : Int)
    (r : UpdateRecord) :
    ∃ k', installTicket k n .ok now r = some (k', true) ∧ k'.Ringed ∧ k.SameTree k' ∧
      (∀ m, (k'.node m).grantedPty =
        ((k.node m).grantedPty || (decide (m = n) && r.operation.has opPtyAccess))) ∧
      k'.cred = k.cred ∧ (∀ o, o ≠ .res n → k'.tickets o = k.tickets o) ∧
      k'.tickets (.res n) = k.tickets (.res n) ++
        (if r.operation = opPtyAccess then [] else [⟨r.identifier, r.operation, now⟩]) := by
  obtain ⟨hheap, hheadOf, htree, hcred, hpty⟩ := grantPty_spec k n r.operation
  have htickets : (grantPty k n r.operation).tickets = k.tickets := by
    funext o
    rw [Kernel.tickets, hheap, hheadOf, Kernel.tickets]
  have hrd' : (grantPty k n r.operation).Ringed := by
    rw [Kernel.Ringed, hheap, hheadOf]
    exact hrd
  unfold installTicket
  by_cases hop : r.operation = opPtyAccess
  · refine ⟨_, if_pos hop, hrd', htree, hpty, hcred, fun o _ => by rw [htickets], ?_⟩
    rw [if_pos hop, List.append_nil, htickets]
  · obtain ⟨h, head, hrun, hrd₂, hother, hthis⟩ :=
      hangTicket_spec hrd' n ⟨r.identifier, r.operation, now⟩
    refine ⟨_, ?_, hrd₂, htree.trans (setRing_sameTree _ _ _ _), ?_, ?_, ?_, ?_⟩
    · simp [hop, Allocs.ok, hrun]
    · intro m
      rw [setRing_pty, hpty]
    · rw [← hcred]
      rfl
    · intro o ho
      rw [hother o ho, htickets]
    · rw [hthis, htickets, if_neg hop]

/-! ## The claim -/

theorem countGo_lt (a b : Ticket) (h : countGo a b = true) : a.timestamp < b.timestamp := by
  simpa [countGo] using h

/-- Moving the ring of node `n` behind the ring of the credential, at the
level of addresses. -/
theorem claimTickets_ring {k : Kernel} {ps : Owner → List Nat}
    (hr : Rings k.heap k.headOf ps) (cur : Task) (n : Nat) :
    ∃ h', claimTickets k cur (some n) =
        some ((k.setRing h' (.task cur.cred)
          (ps (.task cur.cred) ++ ps (.res n)).head?).setRing h' (.res n) none) ∧
      IsRing h' (ps (.task cur.cred) ++ ps (.res n)) ∧
      (∀ x, h'.valOf x = k.heap.valOf x) ∧
      ∀ x, x ∉ ps (.task cur.cred) → x ∉ ps (.res n) →
        h'.nextOf x = k.heap.nextOf x ∧ h'.prevOf x = k.heap.prevOf x := by
  have hres : (k.node n).ticketHead = (ps (.res n)).head? := hr.head_eq (.res n)
  have htask : (k.cred cur.cred).ticketHead = (ps (.task cur.cred)).head? :=
    hr.head_eq (.task cur.cred)
  unfold claimTickets
  cases hq : ps (.res n) with
  | nil =>
    rw [hq, List.head?_nil] at hres
    refine ⟨k.heap, ?_, ?_, fun _ => rfl, fun _ _ _ => ⟨rfl, rfl⟩⟩
    · have hsame : k.setRing k.heap (.res n) none = k := by
        rw [← hres]
        exact setRing_same k k.heap (.res n)
      rw [List.append_nil, ← hr.head_eq, setRing_same]
      simp [hres, hsame]
    · rw [List.append_nil]
      exact hr.ring _
  | cons q qs =>
    rw [hq, List.head?_cons] at hres
    have hringq : IsRing k.heap (q :: qs) := hq ▸ hr.ring (.res n)
    -- the counting loop comes to an end; its count is only printed
    obtain ⟨count, hcount⟩ := walk_stops countGo_lt hringq 1
    cases hp : ps (.task cur.cred) with
    | nil =>
      rw [hp, List.head?_nil] at htask
      refine ⟨k.heap, ?_, hringq, fun _ => rfl, fun _ _ _ => ⟨rfl, rfl⟩⟩
      simp [hres, htask, hcount, Kernel.setRing, Kernel.setCred, Kernel.setNode]
    | cons p ps' =>
      rw [hp, List.head?_cons] at htask
      have hdisj := hr.disjoint (.task cur.cred) (.res n) (by simp)
      rw [hp, hq] at hdisj
      obtain ⟨h', hsplice, hring, hv, hl⟩ := spliceTickets_ring
        (hp ▸ hr.ring (.task cur.cred)) hringq (by simp) (by simp) hdisj
      refine ⟨h', ?_, hring, hv, hl⟩
      have hsame : k.setRing h' (.task cur.cred) (some p) = { k with heap := h' } := by
        rw [← htask]
        exact setRing_same k h' (.task cur.cred)
      simp only [List.head_cons] at hsplice
      simp [hres, htask, hcount, hsplice, hsame]
      rfl

/-- The claim moves the pending list behind the held one. -/
theorem claimTickets_spec {k : Kernel} (hrd : k.Ringed) (cur : Task) (n : Nat) :
    ∃ h head, let k' := (k.setRing h (.task cur.cred) head).setRing h (.res n) none
      claimTickets k cur (some n) = some k' ∧ k'.Ringed ∧
      k'.tickets (.task cur.cred) = k.tickets (.task cur.cred) ++ k.tickets (.res n) ∧
      k'.tickets (.res n) = [] ∧
      ∀ o, o ≠ .task cur.cred → o ≠ .res n → k'.tickets o = k.tickets o := by
  obtain ⟨ps, hr⟩ := hrd
  obtain ⟨h', hrun, hring, hval, hlink⟩ := claimTickets_ring hr cur n
  have hold : ∀ o, h'.vals (ps o) = k.heap.vals (ps o) :=
    fun o => vals_congr fun x _ => hval x
  have hne : Owner.task cur.cred ≠ .res n := by simp
  have hmove := hr.move hne hring (fun o ho ho' x hx =>
    hlink x (fun hm => hr.disjoint o _ ho hx hm) (fun hm => hr.disjoint o _ ho' hx hm))
  have hk : Rings _ _ _ := setRing_rings (k := k.setRing h' (.task cur.cred) _) (by
    rw [setRing_headOf]; exact hmove)
  refine ⟨h', _, hrun, ⟨_, hk⟩, ?_, ?_, ?_⟩
  · rw [Kernel.tickets_eq hk, Kernel.tickets_eq hr, Kernel.tickets_eq hr, setRing_heap,
      Function.update_of_ne hne, Function.update_self, vals_append, hold, hold]
  · rw [Kernel.tickets_eq hk, Function.update_self, vals_nil]
  · intro o ho ho'
    rw [Kernel.tickets_eq hk, Kernel.tickets_eq hr, setRing_heap, Function.update_of_ne ho',
      Function.update_of_ne ho, hold]

/-- Claiming the PTY right moves a flag and touches no ring. -/
theorem claimPty_spec (k : Kernel) (cur : Task) (n? : Option Nat) :
    (claimPty k cur n?).heap = k.heap ∧ (claimPty k cur n?).headOf = k.headOf ∧
      k.SameTree (claimPty k cur n?) ∧
      (∀ m, ((claimPty k cur n?).node m).grantedPty =
        ((k.node m).grantedPty && decide (n? ≠ some m))) ∧
      ∀ c, (claimPty k cur n?).cred c = { k.cred c with
        grantedPty := (k.cred c).grantedPty ||
          (decide (c = cur.cred) && n?.any (fun n => (k.node n).grantedPty)) } := by
  cases n? with
  | none => exact ⟨rfl, rfl, ⟨rfl, rfl, fun _ => rfl⟩, by simp [claimPty], by simp [claimPty]⟩
  | some n =>
    cases hp : (k.node n).grantedPty with
    | false =>
      rw [show claimPty k cur (some n) = k by simp [claimPty, hp]]
      refine ⟨rfl, rfl, ⟨rfl, rfl, fun _ => rfl⟩, fun m => ?_, by simp [hp]⟩
      by_cases hm : m = n
      · subst hm; simp [hp]
      · simp [Ne.symm hm]
    | true =>
      rw [show claimPty k cur (some n) =
        (k.setNode n { k.node n with grantedPty := false }).setCred cur.cred
          { k.cred cur.cred with grantedPty := true } by simp [claimPty, hp]]
      refine ⟨rfl, ?_, ⟨rfl, rfl, fun m => ?_⟩, fun m => ?_, fun c => ?_⟩
      · funext o
        cases o with
        | res m => by_cases hm : m = n <;> simp [Kernel.headOf, Kernel.setNode, Kernel.setCred, hm]
        | task c =>
          by_cases hc : c = cur.cred <;> simp [Kernel.headOf, Kernel.setNode, Kernel.setCred, hc]
      · by_cases hm : m = n <;> simp [Kernel.setNode, Kernel.setCred, hm]
      · by_cases hm : m = n
        · simp [Kernel.setNode, Kernel.setCred, hm]
        · simp [Kernel.setNode, Kernel.setCred, hm, Ne.symm hm]
      · by_cases hc : c = cur.cred
        · subst hc; simp [Kernel.setNode, Kernel.setCred, hp]
        · simp [Kernel.setNode, Kernel.setCred, hc]

/-- The claim as a whole: what is pending at the node of the caller's pid,
if there is one, goes to the caller's credential. -/
theorem claimReservation_spec {k : Kernel} (hrd : k.Ringed) (cur : Task) :
    ∃ k', claimReservation k cur = some k' ∧ k'.Ringed ∧ k.SameTree k' ∧
      (∀ m, (k'.node m).grantedPty =
        ((k.node m).grantedPty && decide (ticketSearch k cur.pid ≠ some m))) ∧
      (∀ c, k'.cred c = { k.cred c with
        ticketHead := k'.headOf (.task c)
        grantedPty := (k.cred c).grantedPty || (decide (c = cur.cred) &&
          (ticketSearch k cur.pid).any (fun n => (k.node n).grantedPty)) }) ∧
      (∀ m, k'.tickets (.res m) =
        if ticketSearch k cur.pid = some m then [] else k.tickets (.res m)) ∧
      (∀ c, k'.tickets (.task c) = if c = cur.cred then k.tickets (.task c) ++
          (ticketSearch k cur.pid).elim [] (fun n => k.tickets (.res n))
        else k.tickets (.task c)) := by
  unfold claimReservation
  generalize ticketSearch k cur.pid = n?
  obtain ⟨hheap, hheadOf, htree, hpty, hcred⟩ := claimPty_spec k cur n?
  have htickets : (claimPty k cur n?).tickets = k.tickets := by
    funext o
    rw [Kernel.tickets, hheap, hheadOf, Kernel.tickets]
  have hrd' : (claimPty k cur n?).Ringed := by
    rw [Kernel.Ringed, hheap, hheadOf]
    exact hrd
  cases n? with
  | none =>
    refine ⟨_, rfl, hrd', htree, hpty, fun c => ?_, fun m => ?_, fun c => ?_⟩
    · rw [hcred, hheadOf]
      rfl
    · simp [htickets]
    · simp [htickets]
  | some n =>
    obtain ⟨h, head, hrun, hrd₂, htask, hres, hother⟩ := claimTickets_spec hrd' cur n
    refine ⟨_, hrun, hrd₂, (htree.trans (setRing_sameTree _ _ _ _)).trans
      (setRing_sameTree _ _ _ _), fun m => ?_, fun c => ?_, fun m => ?_, fun c => ?_⟩
    · rw [setRing_pty, setRing_pty, hpty]
    · rw [setRing_cred, setRing_cred, hcred]
    · by_cases hm : n = m
      · subst hm; simpa using hres
      · have hne : Owner.res m ≠ .res n := by simpa using Ne.symm hm
        simpa [hm, htickets] using hother (.res m) (by simp) hne
    · by_cases hc : c = cur.cred
      · subst hc; simpa [htickets] using htask
      · have hne : Owner.task c ≠ .task cur.cred := by simpa using hc
        simpa [hc, htickets] using hother (.task c) hne (by simp)

/-! ## The expiry -/

/-- What the expiry pass leaves of a list of tickets: it walks over old
tickets as long as the next one is younger, and drops EVERYTHING if the
ticket it stops at is itself old. -/
def expire (threshold : Int) (l : List Ticket) : List Ticket :=
  match l.drop (climb (expiryGo threshold) l) with
  | [] => []
  | t :: rest => if t.timestamp ≤ threshold then [] else t :: rest

/-- The pass only takes away. -/
theorem expire_sublist (threshold : Int) (l : List Ticket) :
    (expire threshold l).Sublist l := by
  unfold expire
  split
  · exact List.nil_sublist l
  · rename_i t rest hdrop
    split
    · exact List.nil_sublist l
    · rw [← hdrop]
      exact List.drop_sublist _ l

/-- If every ticket is younger than the one before, the pass drops the old
ones and no other. -/
theorem expire_eq_filter {threshold : Int} {l : List Ticket}
    (hl : l.Pairwise (fun t u => t.timestamp < u.timestamp)) :
    expire threshold l = l.filter (fun t => decide (threshold < t.timestamp)) := by
  induction l with
  | nil => rfl
  | cons a rest ih =>
    obtain ⟨hhead, htail⟩ := List.pairwise_cons.mp hl
    by_cases hold : a.timestamp ≤ threshold
    · rw [List.filter_cons_of_neg (by simpa using hold), ← ih htail]
      cases rest with
      | nil => simp [expire, climb, hold]
      | cons b t =>
        -- the next ticket is younger, so the loop steps over this one
        have hgo : expiryGo threshold a b = true := by
          simp [expiryGo, hold, hhead b List.mem_cons_self]
        simp [expire, climb, hgo]
    · have hall : (a :: rest).filter (fun t => decide (threshold < t.timestamp)) = a :: rest := by
        refine List.filter_eq_self.mpr fun t ht => ?_
        rcases List.mem_cons.mp ht with rfl | ht
        · simpa using hold
        · have hlt := hhead t ht
          simp only [decide_eq_true_eq]
          omega
      have hstop : climb (expiryGo threshold) (a :: rest) = 0 := by
        cases rest with
        | nil => rfl
        | cons b t => simp [climb, expiryGo, hold]
      rw [hall, expire, hstop, List.drop_zero]
      simp [hold]

theorem expiryGo_lt (threshold : Int) (a b : Ticket) (h : expiryGo threshold a b = true) :
    a.timestamp < b.timestamp := by
  simp only [expiryGo, Bool.and_eq_true, decide_eq_true_eq] at h
  exact h.2

/-- Relinking `y` to the end of the ring and freeing what stands before it
leaves the ring from `y` on. -/
theorem cutTickets_ring {h : Heap Ticket} {a y : Nat} {xs ys : List Nat}
    (hr : IsRing h (a :: xs ++ y :: ys)) :
    ∃ h', cutTickets h a y (xs.length + 1) = some h' ∧ IsRing h' (y :: ys) ∧
      ∀ x, x ∉ a :: xs → h'.valOf x = h.valOf x ∧
        (x ∉ y :: ys → h'.nextOf x = h.nextOf x ∧ h'.prevOf x = h.prevOf x) := by
  have hys : y :: ys ≠ [] := List.cons_ne_nil y ys
  obtain ⟨hnd, hndy, hdisj⟩ := List.nodup_append'.mp hr.nodup
  have hne : ∀ x ∈ a :: xs, ∀ z ∈ y :: ys, x ≠ z := fun x hx z hz hxz => hdisj hx (hxz ▸ hz)
  have hlastm : (y :: ys).getLast hys ∈ y :: ys := List.getLast_mem hys
  have hprev : h.prevOf a = some ((y :: ys).getLast hys) := by
    have := (hr.link_close (by simp)).2
    simpa using this
  have hy := hr.live (p := y) (by simp)
  have hlast := hr.live (List.mem_append_right (a :: xs) hlastm)
  have hay : a ≠ y := hne a (by simp) y (by simp)
  obtain ⟨h', hrun, hcells⟩ := freeRun_front hr (a := a) (by simp)
    ((h.putPrev y ((y :: ys).getLast hys)).putNext ((y :: ys).getLast hys) y) (by
      intro x hx
      have := hne x hx _ hlastm
      simp [putNext_other, this])
  -- outside the freed cells the heap is that of the two link writes
  have hcell : ∀ x, x ∉ a :: xs → h'.cell x = _ := fun x hx => by rw [hcells, if_neg hx]
  have hnext : ∀ x, x ∉ a :: xs → h'.nextOf x = _ :=
    fun x hx => congrArg (Option.map Cell.next) (hcell x hx)
  have hprev' : ∀ x, x ∉ a :: xs → h'.prevOf x = _ :=
    fun x hx => congrArg (Option.map Cell.prev) (hcell x hx)
  refine ⟨h', ?_, ?_, ?_⟩
  · simpa [cutTickets, hprev, setPrev_of_live, setNext_of_live, putPrev_other, hay, hy,
      hlast] using hrun
  · refine hr.dropFront hys ?_ ?_ ⟨?_, ?_⟩
    · intro x hx
      rw [hnext x (fun hm => hdisj hm (List.mem_of_mem_dropLast hx))]
      have hxl := ne_getLast_of_mem_dropLast hndy hys hx
      exact (putNext_other hxl).trans (putPrev_nextOf _ _ _ _)
    · intro x hx
      rw [hprev' x (fun hm => hdisj hm (List.mem_of_mem_tail hx))]
      have hxh : x ≠ y := ne_head_of_mem_tail hndy hys hx
      exact (putNext_prevOf _ _ _ _).trans (putPrev_other hxh)
    · rw [hnext _ (fun hm => hdisj hm hlastm)]
      exact putNext_same (by simpa using hlast)
    · rw [hprev' _ (fun hm => hdisj hm (List.head_mem hys))]
      exact (putNext_prevOf _ _ _ _).trans (putPrev_same hy)
  · intro x hx
    refine ⟨?_, fun hxy => ⟨?_, ?_⟩⟩
    · rw [Heap.valOf, hcell x hx]
      exact (putNext_valOf _ _ _ _).trans (putPrev_valOf _ _ _ _)
    · rw [hnext x hx]
      have hxl : x ≠ (y :: ys).getLast hys := fun h => hxy (h ▸ hlastm)
      exact (putNext_other hxl).trans (putPrev_nextOf _ _ _ _)
    · rw [hprev' x hx]
      exact (putNext_prevOf _ _ _ _).trans (putPrev_other (fun h => hxy (h ▸ List.mem_cons_self)))

/-- Freeing a ring up to and with `y` touches no cell outside it. -/
theorem freeTickets_ring {h : Heap Ticket} {a y : Nat} {t xs ys : List Nat}
    (hr : IsRing h (a :: t)) (hsplit : a :: t = xs ++ y :: ys) :
    ∃ h', h.freeRun (xs.length + 1) a = some h' ∧ ∀ x, x ∉ a :: t → h'.cell x = h.cell x := by
  have hfront : a :: t = (xs ++ [y]) ++ ys := by simpa using hsplit
  have hfirst : ∀ b ∈ (xs ++ [y]).head?, b = a := by
    cases xs <;> simp_all
  obtain ⟨h', hrun, hcells⟩ := freeRun_front (hfront ▸ hr) hfirst h (fun _ _ => rfl)
  rw [List.length_append, List.length_singleton] at hrun
  refine ⟨h', hrun, fun x hx => ?_⟩
  rw [hcells, if_neg fun hm => hx (hfront ▸ List.mem_append_left _ hm)]

/-- The expiry pass on the ring of a credential, at the level of
addresses: `l` is what it keeps. -/
theorem removeOldTickets_ring {k : Kernel} {ps : Owner → List Nat}
    (hr : Rings k.heap k.headOf ps) (cur : Task) (now : Int) :
    ∃ h' l, removeOldTickets k cur now = some (k.setRing h' (.task cur.cred) l.head?) ∧
      IsRing h' l ∧ l ⊆ ps (.task cur.cred) ∧
      h'.vals l = expire (expiryThreshold now) (k.heap.vals (ps (.task cur.cred))) ∧
      ∀ x, x ∉ ps (.task cur.cred) → h'.valOf x = k.heap.valOf x ∧
        h'.nextOf x = k.heap.nextOf x ∧ h'.prevOf x = k.heap.prevOf x := by
  have hhead : (k.cred cur.cred).ticketHead = (ps (.task cur.cred)).head? :=
    hr.head_eq (.task cur.cred)
  have hring := hr.ring (.task cur.cred)
  have hsame : k.setRing k.heap (.task cur.cred) (ps (.task cur.cred)).head? = k := by
    rw [← hr.head_eq]
    exact setRing_same k k.heap (.task cur.cred)
  unfold removeOldTickets
  cases hp : ps (.task cur.cred) with
  | nil =>
    rw [hp, List.head?_nil] at hhead hsame
    exact ⟨k.heap, [], by simp [hhead, hsame], isRing_nil _, by simp, rfl,
      fun _ _ => ⟨rfl, rfl, rfl⟩⟩
  | cons a t =>
    rw [hp] at hring hhead hsame
    rw [List.head?_cons] at hhead
    obtain ⟨xs, y, ys, c, hsplit, hc, hwalk, hdrop⟩ :=
      walk_split (expiryGo_lt (expiryThreshold now)) hring
    have hval : k.heap.valOf y = some c.val := by rw [Heap.valOf, hc, Option.map_some]
    simp only [hhead, hwalk, hval, Option.bind_eq_bind, Option.bind_some, expire, hdrop]
    by_cases hold : c.val.timestamp ≤ expiryThreshold now
    · -- the ticket the loop stops at is old: the whole ring is given up
      obtain ⟨h', hrun, hcells⟩ := freeTickets_ring hring hsplit
      refine ⟨h', [], ?_, isRing_nil _, by simp, by rw [if_pos hold]; rfl, ?_⟩
      · rw [if_pos hold, hrun]
        rfl
      · intro x hx
        simp [Heap.valOf, Heap.nextOf, Heap.prevOf, hcells x hx]
    · rw [if_neg hold, if_neg hold]
      cases xs with
      | nil =>
        obtain ⟨rfl, rfl⟩ : a = y ∧ t = ys := by simpa using hsplit
        exact ⟨k.heap, a :: t, by rw [hsame]; rfl, hring, fun _ h => h, vals_cons hc t,
          fun _ _ => ⟨rfl, rfl, rfl⟩⟩
      | cons b xs =>
        obtain ⟨rfl, rfl⟩ : a = b ∧ t = xs ++ y :: ys := by simpa using hsplit
        obtain ⟨h', hrun, hring', hrest⟩ := cutTickets_ring hring
        have hout : ∀ x ∈ y :: ys, x ∉ a :: xs :=
          fun x hx hm => (List.nodup_append'.mp hring.nodup).2.2 hm hx
        refine ⟨h', y :: ys, ?_, hring', ?_, ?_, ?_⟩
        · simp [hrun, Kernel.setRing]
        · exact fun x hx => List.mem_append_right (a :: xs) hx
        · rw [vals_congr fun x hx => (hrest x (hout x hx)).1, vals_cons hc]
        · intro x hx
          have hx' : x ∉ a :: xs ∧ x ∉ y :: ys := by
            simpa [not_or, and_assoc] using hx
          obtain ⟨hv, hl⟩ := hrest x hx'.1
          exact ⟨hv, hl hx'.2⟩

/-- The expiry pass does to the held list what `expire` says, and nothing
to any other. -/
theorem removeOldTickets_spec {k : Kernel} (hrd : k.Ringed) (cur : Task) (now : Int) :
    ∃ h head, removeOldTickets k cur now = some (k.setRing h (.task cur.cred) head) ∧
      (k.setRing h (.task cur.cred) head).Ringed ∧
      (k.setRing h (.task cur.cred) head).tickets (.task cur.cred) =
        expire (expiryThreshold now) (k.tickets (.task cur.cred)) ∧
      ∀ o, o ≠ .task cur.cred →
        (k.setRing h (.task cur.cred) head).tickets o = k.tickets o := by
  obtain ⟨ps, hr⟩ := hrd
  obtain ⟨h', l, hrun, hring, hsub, hvals, hrest⟩ := removeOldTickets_ring hr cur now
  have hout : ∀ o, o ≠ .task cur.cred → ∀ x ∈ ps o, x ∉ ps (.task cur.cred) :=
    fun o ho x hx hm => hr.disjoint o _ ho hx hm
  have hk := setRing_rings (hr.replace (.task cur.cred) hring
    (fun o ho x hx => (hrest x (hout o ho x hx)).2)
    (fun o ho x hx hm => hout o ho x hm (hsub hx)))
  refine ⟨h', _, hrun, ⟨_, hk⟩, ?_, ?_⟩
  · rw [Kernel.tickets_eq hk, Kernel.tickets_eq hr, Function.update_self, setRing_heap, hvals]
  · intro o ho
    rw [Kernel.tickets_eq hk, Kernel.tickets_eq hr, Function.update_of_ne ho, setRing_heap]
    exact vals_congr fun x hx => (hrest x (hout o ho x hx)).1

/-! ## Finding and adding reservations -/

/-- What holds of the cache whatever pids, timestamps and rebalancings it
has seen: the rings are sound and every node in the tree was allocated. -/
structure Kernel.Wf (k : Kernel) : Prop where
  ringed : k.Ringed
  born : ∀ n ∈ inorder k.reservations, n < k.nodeFresh

/-- The kernel with a new, empty reservation linked into its tree. -/
def Kernel.addNode (k : Kernel) (pid : Pid) (t : BinaryTree Nat) : Kernel :=
  { k.setNode k.nodeFresh ⟨pid, none, false⟩ with
    nodeFresh := k.nodeFresh + 1, reservations := t }

theorem addNode_node_of_lt (k : Kernel) (pid : Pid) (t : BinaryTree Nat) {n : Nat}
    (hn : n < k.nodeFresh) : (k.addNode pid t).node n = k.node n := by
  simp [Kernel.addNode, Kernel.setNode, Nat.ne_of_lt hn]

theorem addNode_node_fresh (k : Kernel) (pid : Pid) (t : BinaryTree Nat) :
    (k.addNode pid t).node k.nodeFresh = ⟨pid, none, false⟩ := by
  simp [Kernel.addNode, Kernel.setNode]

theorem addNode_headOf (k : Kernel) (pid : Pid) (t : BinaryTree Nat) :
    (k.addNode pid t).headOf = Function.update k.headOf (.res k.nodeFresh) none := by
  funext o
  cases o with
  | res m =>
    by_cases hm : m = k.nodeFresh
    · subst hm; simp [Kernel.headOf, Kernel.addNode, Kernel.setNode]
    · simp [Kernel.headOf, Kernel.addNode, Kernel.setNode, hm]
  | task c => simp [Kernel.headOf, Kernel.addNode, Kernel.setNode]

theorem addNode_ringed {k : Kernel} (hrd : k.Ringed) (pid : Pid) (t : BinaryTree Nat) :
    (k.addNode pid t).Ringed := by
  obtain ⟨ps, hr⟩ := hrd
  have hrings := hr.replace (.res k.nodeFresh) (isRing_nil k.heap)
    (fun _ _ _ _ => ⟨rfl, rfl⟩) (fun _ _ => List.disjoint_nil_left _)
  rw [List.head?_nil, ← addNode_headOf k pid t] at hrings
  exact ⟨_, hrings⟩

theorem addNode_tickets (k : Kernel) (pid : Pid) (t : BinaryTree Nat) (o : Owner)
    (ho : o ≠ .res k.nodeFresh) : (k.addNode pid t).tickets o = k.tickets o := by
  unfold Kernel.tickets
  rw [addNode_headOf, Function.update_of_ne ho]
  rfl

/-- The nodes in the tree after the insertion and the rebalancing. -/
theorem mem_addNode {k : Kernel} (rb : Rebalance Nat) {pid : Pid} {t : BinaryTree Nat}
    (ht : link (fun m => comparePid pid (k.node m).pid) k.nodeFresh k.reservations = some t)
    {n : Nat} : n ∈ inorder (k.addNode pid (rb.tree t)).reservations ↔
      n = k.nodeFresh ∨ n ∈ inorder k.reservations := by
  obtain ⟨l, r, h1, h2⟩ := link_inorder ht
  rw [show (k.addNode pid (rb.tree t)).reservations = rb.tree t from rfl, rb.inorder_tree, h1, h2]
  simp only [List.mem_append, List.mem_cons]
  tauto

theorem addNode_wf {k : Kernel} (hwf : k.Wf) (rb : Rebalance Nat) {pid : Pid}
    {t : BinaryTree Nat}
    (ht : link (fun m => comparePid pid (k.node m).pid) k.nodeFresh k.reservations = some t) :
    (k.addNode pid (rb.tree t)).Wf := by
  refine ⟨addNode_ringed hwf.ringed pid _, ?_⟩
  intro n hn
  rcases (mem_addNode rb ht).mp hn with rfl | hm
  · exact Nat.lt_succ_self _
  · exact Nat.lt_succ_of_lt (hwf.born n hm)

/-- A node with this pid is in the tree, or one is put there. -/
theorem reserve_cases {k : Kernel} (hwf : k.Wf) (rb : Rebalance Nat) (pid : Pid) :
    (∃ n, ticketSearch k pid = some n ∧ reserve k rb .ok pid = (k, some n)) ∨
    ∃ t, ticketSearch k pid = none ∧
      link (fun m => comparePid pid (k.node m).pid) k.nodeFresh k.reservations = some t ∧
      reserve k rb .ok pid = (k.addNode pid (rb.tree t), some k.nodeFresh) := by
  unfold reserve
  cases hs : ticketSearch k pid with
  | some n => exact .inl ⟨n, rfl, rfl⟩
  | none =>
    obtain ⟨t, ht⟩ := link_of_search_none (x := k.nodeFresh) hs
    have hlink : link (fun m => comparePid ((k.addNode pid k.reservations).node k.nodeFresh).pid
        ((k.addNode pid k.reservations).node m).pid) k.nodeFresh k.reservations = some t := by
      rw [← ht, addNode_node_fresh]
      refine link_congr fun m hm => ?_
      rw [addNode_node_of_lt k pid _ (hwf.born m hm)]
    have hins : insertReservation (k.addNode pid k.reservations) rb k.nodeFresh =
        (k.addNode pid (rb.tree t), false) := by
      unfold insertReservation
      rw [show (k.addNode pid k.reservations).reservations = k.reservations from rfl, hlink]
      rfl
    refine .inr ⟨t, rfl, ht, ?_⟩
    simp only [Allocs.ok, if_true]
    rw [show ({ k.setNode k.nodeFresh ⟨pid, none, false⟩ with
      nodeFresh := k.nodeFresh + 1 } : Kernel) = k.addNode pid k.reservations from rfl, hins]

theorem Kernel.Wf.of_sameTree {k k' : Kernel} (hwf : k.Wf) (hrd : k'.Ringed)
    (htree : k.SameTree k') : k'.Wf := by
  refine ⟨hrd, ?_⟩
  rw [htree.reservations, htree.nodeFresh]
  exact hwf.born

theorem installTicket_wf {k : Kernel} (hwf : k.Wf) (n : Nat) (now : Int) (r : UpdateRecord) :
    ∃ k', installTicket k n .ok now r = some (k', true) ∧ k'.Wf ∧ k'.cred = k.cred := by
  obtain ⟨k', hrun, hrd, htree, -, hcred, -, -⟩ := installTicket_spec hwf.ringed n now r
  exact ⟨k', hrun, hwf.of_sameTree hrd htree, hcred⟩

/-- Inserting a record, whatever its pid, does not fault. -/
theorem insertTicket_wf {k : Kernel} (hwf : k.Wf) (rb : Rebalance Nat) (now : Int)
    (r : UpdateRecord) :
    ∃ k', insertTicket k rb .ok now r = some (k', true) ∧ k'.Wf ∧ k'.cred = k.cred := by
  unfold insertTicket
  rcases reserve_cases hwf rb r.pid with ⟨n, -, hrun⟩ | ⟨t, -, ht, hrun⟩
  · rw [hrun]
    exact installTicket_wf hwf n now r
  · rw [hrun]
    exact installTicket_wf (addNode_wf hwf rb ht) k.nodeFresh now r

/-- What `insert_ticket` returns, by which of its allocations succeed. -/
def insertSucceeds (k : Kernel) (a : Allocs) (r : UpdateRecord) : Bool :=
  ((ticketSearch k r.pid).isSome || a.node) && (decide (r.operation = opPtyAccess) || a.ticket)

theorem reserve_allocs (k : Kernel) (rb : Rebalance Nat) (a : Allocs) (pid : Pid) :
    reserve k rb a pid =
      if (ticketSearch k pid).isSome || a.node then reserve k rb .ok pid else (k, none) := by
  unfold reserve
  cases ticketSearch k pid with
  | some n => rfl
  | none =>
    cases a.node with
    | true => rfl
    | false => rfl

/-- On a node, with the allocations that may fail: only the hexadecimal
string makes it fault. -/
theorem installTicket_allocs {k : Kernel} (hwf : k.Wf) (n : Nat) (a : Allocs) (now : Int)
    (r : UpdateRecord) :
    (installTicket k n a now r = none ∧ a.hex = false) ∨
    ∃ k', installTicket k n a now r =
        some (k', decide (r.operation = opPtyAccess) || a.ticket) ∧
      k'.Wf ∧ k'.cred = k.cred := by
  obtain ⟨k', hok, hwf', hcred⟩ := installTicket_wf hwf n now r
  unfold installTicket at hok ⊢
  by_cases hop : r.operation = opPtyAccess
  · rw [if_pos hop] at hok ⊢
    exact .inr ⟨k', by simpa [hop] using hok, hwf', hcred⟩
  rw [if_neg hop] at hok ⊢
  cases hhex : a.hex with
  | false => exact .inl ⟨rfl, rfl⟩
  | true =>
    cases hticket : a.ticket with
    | true => exact .inr ⟨k', by simpa [hop, Allocs.ok] using hok, hwf', hcred⟩
    | false =>
      obtain ⟨hheap, hheadOf, htree, hcred', -⟩ := grantPty_spec k n r.operation
      have hrd : (grantPty k n r.operation).Ringed := by
        rw [Kernel.Ringed, hheap, hheadOf]
        exact hwf.ringed
      exact .inr ⟨grantPty k n r.operation, by simp [hop], hwf.of_sameTree hrd htree, hcred'⟩

/-- The same for `insert_ticket`. -/
theorem insertTicket_allocs {k : Kernel} (hwf : k.Wf) (rb : Rebalance Nat) (a : Allocs)
    (now : Int) (r : UpdateRecord) :
    (insertTicket k rb a now r = none ∧ a.hex = false) ∨
    ∃ k', insertTicket k rb a now r = some (k', insertSucceeds k a r) ∧
      k'.Wf ∧ k'.cred = k.cred := by
  unfold insertTicket insertSucceeds
  rw [reserve_allocs]
  cases hnode : (ticketSearch k r.pid).isSome || a.node with
  | false => exact .inr ⟨k, rfl, hwf, rfl⟩
  | true =>
    rw [if_pos rfl, Bool.true_and]
    rcases reserve_cases hwf rb r.pid with ⟨n, -, hrun⟩ | ⟨t, -, ht, hrun⟩
    · rw [hrun]
      exact installTicket_allocs hwf n a now r
    · rw [hrun]
      exact installTicket_allocs (addNode_wf hwf rb ht) k.nodeFresh a now r

/-- An `insert_ticket` that came back, whatever memory it got: the cache is
sound, no credential has changed, and what it reports is what its
allocations decided. -/
theorem insertTicket_some {k k' : Kernel} (hwf : k.Wf) {rb : Rebalance Nat} {a : Allocs}
    {now : Int} {r : UpdateRecord} {success : Bool}
    (h : insertTicket k rb a now r = some (k', success)) :
    k'.Wf ∧ k'.cred = k.cred ∧ success = insertSucceeds k a r := by
  rcases insertTicket_allocs hwf rb a now r with ⟨hnone, -⟩ | ⟨k₁, hsome, hk, hcred⟩
  · rw [hnone] at h
    cases h
  · rw [hsome] at h
    cases h
    exact ⟨hk, hcred, rfl⟩

/-- The check, whatever tree and tickets it meets, does not fault; what the
caller holds afterwards has gone through the expiry; it moves no taint and
no identifier. -/
theorem checkTicketCache_wf {k : Kernel} (hwf : k.Wf) (cur : Task) (now : Int) :
    ∃ k', checkTicketCache k cur now = some k' ∧ k'.Wf ∧
      (∃ l, k'.tickets (.task cur.cred) = expire (expiryThreshold now) l) ∧
      ∀ c, (k'.cred c).inRealm = (k.cred c).inRealm ∧
        (k'.cred c).identifier = (k.cred c).identifier := by
  obtain ⟨k₁, hclaim, hrd₁, htree₁, -, hcred₁, -, -⟩ := claimReservation_spec hwf.ringed cur
  obtain ⟨h, head, hrun, hrd, hthis, -⟩ := removeOldTickets_spec hrd₁ cur now
  have htree := htree₁.trans (setRing_sameTree k₁ h (.task cur.cred) head)
  refine ⟨_, ?_, hwf.of_sameTree hrd htree, ⟨_, hthis⟩, fun c => ?_⟩
  · rw [checkTicketCache, hclaim]
    exact hrun
  · rw [setRing_cred, hcred₁]
    exact ⟨rfl, rfl⟩

end Citadel
