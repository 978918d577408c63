/-
Citadel.Lib.Ring — circular doubly linked rings in a heap of cells.

A heap maps addresses to cells; a cell carries a value and two links. A
read, a link write and a free are PARTIAL: `none` is a memory fault (a
null dereference, a use after free, a double free), so a program that
runs to `some` has touched live cells only.

`IsRing h ps` says that the addresses `ps`, in this order, form one
circular ring: consecutive addresses are linked in both directions and
the last is linked back to the first. The surgery on a ring is stated on
the links alone (`IsRing.join`, `IsRing.dropFront`): a program may do its
pointer writes in any order, only the links it ends with matter.

`Rings h head ps` is a FAMILY of rings, one for each owner, sharing no
address. The owners are an arbitrary type; an owner whose head is null
owns the empty ring.
-/
import Mathlib.Data.List.Chain
import Mathlib.Data.List.Nodup
import Mathlib.Data.Finset.Card
import Mathlib.Data.Finset.Range

namespace RingHeap

variable {α ι : Type}

/-! ## Cells and heaps -/

/-- A value with its forward and backward link. -/
structure Cell (α : Type) where
  val : α
  next : Nat
  prev : Nat
  deriving DecidableEq, Repr

/-- A heap. Address 0 is null; every address from `fresh` on is unborn.
A freed address reads as `none` and is never handed out again. -/
structure Heap (α : Type) where
  cell : Nat → Option (Cell α)
  fresh : Nat
  fresh_pos : 0 < fresh
  null : cell 0 = none
  unborn : ∀ p, fresh ≤ p → cell p = none

/-- The heap with no cell allocated. -/
def Heap.empty : Heap α where
  cell := fun _ => none
  fresh := 1
  fresh_pos := Nat.one_pos
  null := rfl
  unborn := fun _ _ => rfl

/-- Rewrite the cell at one address, if there is one. -/
def Heap.upd (h : Heap α) (p : Nat) (f : Cell α → Cell α) : Heap α where
  cell := fun x => if x = p then (h.cell x).map f else h.cell x
  fresh := h.fresh
  fresh_pos := h.fresh_pos
  null := by simp [h.null]
  unborn := fun x hx => by simp [h.unborn x hx]

def Heap.putNext (h : Heap α) (p q : Nat) : Heap α :=
  h.upd p (fun c => { c with next := q })

def Heap.putPrev (h : Heap α) (p q : Nat) : Heap α :=
  h.upd p (fun c => { c with prev := q })

/-- `p->next = q`, a fault when `p` is not live. -/
def Heap.setNext (h : Heap α) (p q : Nat) : Option (Heap α) :=
  if (h.cell p).isSome then some (h.putNext p q) else none

/-- `p->prev = q`, a fault when `p` is not live. -/
def Heap.setPrev (h : Heap α) (p q : Nat) : Option (Heap α) :=
  if (h.cell p).isSome then some (h.putPrev p q) else none

/-- A new cell at the next unborn address. -/
def Heap.alloc (h : Heap α) (c : Cell α) : Heap α where
  cell := fun x => if x = h.fresh then some c else h.cell x
  fresh := h.fresh + 1
  fresh_pos := Nat.succ_pos _
  null := by
    have := h.fresh_pos
    simp [h.null, show ¬ (0 = h.fresh) by omega]
  unborn := fun x hx => by
    simp [h.unborn x (by omega), show ¬ (x = h.fresh) by omega]

def Heap.drop (h : Heap α) (p : Nat) : Heap α where
  cell := fun x => if x = p then none else h.cell x
  fresh := h.fresh
  fresh_pos := h.fresh_pos
  null := by simp [h.null]
  unborn := fun x hx => by simp [h.unborn x hx]

/-- Release a cell, a fault when it is not live. -/
def Heap.free (h : Heap α) (p : Nat) : Option (Heap α) :=
  if (h.cell p).isSome then some (h.drop p) else none

def Heap.nextOf (h : Heap α) (p : Nat) : Option Nat := (h.cell p).map Cell.next

def Heap.prevOf (h : Heap α) (p : Nat) : Option Nat := (h.cell p).map Cell.prev

def Heap.valOf (h : Heap α) (p : Nat) : Option α := (h.cell p).map Cell.val

/-! ### What a write changes -/

section Writes

variable (h : Heap α) (p q x : Nat) (c : Cell α)

@[simp] theorem putNext_fresh : (h.putNext p q).fresh = h.fresh := rfl

@[simp] theorem putPrev_fresh : (h.putPrev p q).fresh = h.fresh := rfl

@[simp] theorem drop_fresh : (h.drop p).fresh = h.fresh := rfl

@[simp] theorem alloc_fresh : (h.alloc c).fresh = h.fresh + 1 := rfl

@[simp] theorem putNext_isSome :
    ((h.putNext p q).cell x).isSome = (h.cell x).isSome := by
  simp only [Heap.putNext, Heap.upd]
  split <;> simp

@[simp] theorem putPrev_isSome :
    ((h.putPrev p q).cell x).isSome = (h.cell x).isSome := by
  simp only [Heap.putPrev, Heap.upd]
  split <;> simp

theorem putNext_nextOf :
    (h.putNext p q).nextOf x = if x = p then (h.cell x).map (fun _ => q) else h.nextOf x := by
  simp only [Heap.putNext, Heap.upd, Heap.nextOf]
  split <;> simp [Function.comp_def]

@[simp] theorem putNext_prevOf : (h.putNext p q).prevOf x = h.prevOf x := by
  simp only [Heap.putNext, Heap.upd, Heap.prevOf]
  split <;> simp [Function.comp_def]

@[simp] theorem putNext_valOf : (h.putNext p q).valOf x = h.valOf x := by
  simp only [Heap.putNext, Heap.upd, Heap.valOf]
  split <;> simp [Function.comp_def]

theorem putPrev_prevOf :
    (h.putPrev p q).prevOf x = if x = p then (h.cell x).map (fun _ => q) else h.prevOf x := by
  simp only [Heap.putPrev, Heap.upd, Heap.prevOf]
  split <;> simp [Function.comp_def]

@[simp] theorem putPrev_nextOf : (h.putPrev p q).nextOf x = h.nextOf x := by
  simp only [Heap.putPrev, Heap.upd, Heap.nextOf]
  split <;> simp [Function.comp_def]

@[simp] theorem putPrev_valOf : (h.putPrev p q).valOf x = h.valOf x := by
  simp only [Heap.putPrev, Heap.upd, Heap.valOf]
  split <;> simp [Function.comp_def]

theorem alloc_cell : (h.alloc c).cell x = if x = h.fresh then some c else h.cell x := rfl

theorem drop_cell : (h.drop p).cell x = if x = p then none else h.cell x := rfl

variable {h p q x}

theorem setNext_of_live (hp : (h.cell p).isSome) : h.setNext p q = some (h.putNext p q) :=
  if_pos hp

theorem setPrev_of_live (hp : (h.cell p).isSome) : h.setPrev p q = some (h.putPrev p q) :=
  if_pos hp

theorem putNext_same (hp : (h.cell p).isSome) : (h.putNext p q).nextOf p = some q := by
  obtain ⟨c, hc⟩ := Option.isSome_iff_exists.mp hp
  simp [putNext_nextOf, hc]

theorem putNext_other (hx : x ≠ p) : (h.putNext p q).nextOf x = h.nextOf x := by
  rw [putNext_nextOf, if_neg hx]

theorem putPrev_same (hp : (h.cell p).isSome) : (h.putPrev p q).prevOf p = some q := by
  obtain ⟨c, hc⟩ := Option.isSome_iff_exists.mp hp
  simp [putPrev_prevOf, hc]

theorem putPrev_other (hx : x ≠ p) : (h.putPrev p q).prevOf x = h.prevOf x := by
  rw [putPrev_prevOf, if_neg hx]

theorem isSome_nextOf : (h.nextOf x).isSome = (h.cell x).isSome := by simp [Heap.nextOf]

/-- A live address has been born. -/
theorem lt_fresh_of_live (hx : (h.cell x).isSome) : x < h.fresh := by
  by_contra hge
  rw [h.unborn x (by omega)] at hx
  cases hx

end Writes

/-! ## Rings -/

/-- `p` points forward to `q` and `q` points back to `p`. -/
def Link (h : Heap α) (p q : Nat) : Prop :=
  h.nextOf p = some q ∧ h.prevOf q = some p

/-- The addresses `ps` form one circular ring, in this order. -/
structure IsRing (h : Heap α) (ps : List Nat) : Prop where
  nodup : ps.Nodup
  chain : ps.IsChain (Link h)
  close : ∀ z ∈ ps.getLast?, ∀ a ∈ ps.head?, Link h z a

theorem isRing_nil (h : Heap α) : IsRing h [] :=
  ⟨List.nodup_nil, List.isChain_nil, by simp⟩

/-- An address before the last is not the last. -/
theorem ne_getLast_of_mem_dropLast {l : List Nat} (hnd : l.Nodup) (hl : l ≠ []) {x : Nat}
    (hx : x ∈ l.dropLast) : x ≠ l.getLast hl := by
  rw [← List.dropLast_append_getLast hl] at hnd
  rintro rfl
  exact (List.nodup_append'.mp hnd).2.2 hx (by simp)

/-- An address after the first is not the first. -/
theorem ne_head_of_mem_tail {l : List Nat} (hnd : l.Nodup) (hl : l ≠ []) {x : Nat}
    (hx : x ∈ l.tail) : x ≠ l.head hl := by
  rw [← List.cons_head_tail hl] at hnd
  rintro rfl
  exact (List.nodup_cons.mp hnd).1 hx

theorem Link.live_left {h : Heap α} {p q : Nat} (hl : Link h p q) : (h.cell p).isSome := by
  rw [← isSome_nextOf, hl.1]; rfl

theorem Link.next_eq {h : Heap α} {p q : Nat} {c : Cell α} (hl : Link h p q)
    (hc : h.cell p = some c) : c.next = q := by
  have hnext := hl.1
  rw [Heap.nextOf, hc, Option.map_some, Option.some.injEq] at hnext
  exact hnext

/-- Inside the list, the successor of `p` is the next address. -/
theorem IsRing.link_mid {h : Heap α} {xs ys : List Nat} {p q : Nat}
    (hr : IsRing h (xs ++ p :: q :: ys)) : Link h p q :=
  (List.isChain_append_cons_cons.mp hr.chain).2.1

/-- At its end, the successor of `p` is the head. -/
theorem IsRing.link_last {h : Heap α} {xs : List Nat} {p a : Nat}
    (hr : IsRing h (xs ++ [p])) (ha : a ∈ (xs ++ [p]).head?) : Link h p a :=
  hr.close p (by simp) a ha

theorem IsRing.live {h : Heap α} {ps : List Nat} (hr : IsRing h ps) {p : Nat}
    (hp : p ∈ ps) : (h.cell p).isSome := by
  obtain ⟨xs, ys, rfl⟩ := List.append_of_mem hp
  cases ys with
  | nil =>
    cases ha : (xs ++ [p]).head? with
    | none => simp at ha
    | some a => exact (hr.link_last (Option.mem_def.mpr ha)).live_left
  | cons q ys => exact hr.link_mid.live_left

/-- The links that close a ring. -/
theorem IsRing.link_close {h : Heap α} {ps : List Nat} (hr : IsRing h ps) (hps : ps ≠ []) :
    Link h (ps.getLast hps) (ps.head hps) :=
  hr.close _ (List.getLast?_eq_some_getLast hps) _ (List.head?_eq_some_head hps)

theorem IsRing.lt_fresh {h : Heap α} {ps : List Nat} (hr : IsRing h ps) {p : Nat}
    (hp : p ∈ ps) : p < h.fresh :=
  lt_fresh_of_live (hr.live hp)

/-- No ring is longer than the number of addresses handed out, the fuel
every walk below is given. -/
theorem IsRing.length_le {h : Heap α} {ps : List Nat} (hr : IsRing h ps) :
    ps.length ≤ h.fresh := by
  have hsub : ps.toFinset ⊆ Finset.range h.fresh := by
    intro p hp
    exact Finset.mem_range.mpr (hr.lt_fresh (List.mem_toFinset.mp hp))
  have hcard := Finset.card_le_card hsub
  rwa [List.toFinset_card_of_nodup hr.nodup, Finset.card_range] at hcard

/-- A chain survives any change that leaves its inner links alone. -/
theorem chain_frame {h h' : Heap α} : ∀ (l : List Nat), l.IsChain (Link h) →
    (∀ p ∈ l.dropLast, h'.nextOf p = h.nextOf p) →
    (∀ q ∈ l.tail, h'.prevOf q = h.prevOf q) → l.IsChain (Link h')
  | [], _, _, _ => List.isChain_nil
  | [a], _, _, _ => List.isChain_singleton a
  | a :: b :: t, hc, hn, hp => by
      obtain ⟨hab, ht⟩ := List.isChain_cons_cons.mp hc
      refine List.isChain_cons_cons.mpr ⟨⟨?_, ?_⟩, ?_⟩
      · rw [hn a (by simp)]; exact hab.1
      · rw [hp b (by simp)]; exact hab.2
      · refine chain_frame (b :: t) ht (fun p hpm => hn p ?_) (fun q hqm => hp q ?_)
        · exact List.mem_cons_of_mem a hpm
        · exact List.mem_of_mem_tail hqm

theorem IsRing.frame {h h' : Heap α} {ps : List Nat} (hr : IsRing h ps)
    (hn : ∀ p ∈ ps, h'.nextOf p = h.nextOf p)
    (hp : ∀ p ∈ ps, h'.prevOf p = h.prevOf p) : IsRing h' ps := by
  refine ⟨hr.nodup, chain_frame ps hr.chain (fun p hm => hn p (List.mem_of_mem_dropLast hm))
    (fun q hm => hp q (List.mem_of_mem_tail hm)), ?_⟩
  intro z hz a ha
  obtain ⟨h1, h2⟩ := hr.close z hz a ha
  exact ⟨(hn z (List.mem_of_mem_getLast? hz)).trans h1,
    (hp a (List.mem_of_mem_head? ha)).trans h2⟩

/-- A ring and a chain are joined by relinking their four ends. With a
one-address chain this is an append, with a second ring a splice. -/
theorem IsRing.join {h h' : Heap α} {ps qs : List Nat} (hr : IsRing h ps)
    (hps : ps ≠ []) (hqs : qs ≠ []) (hnd : qs.Nodup) (hc : qs.IsChain (Link h'))
    (hdisj : ps.Disjoint qs)
    (hn : ∀ p ∈ ps.dropLast, h'.nextOf p = h.nextOf p)
    (hp : ∀ q ∈ ps.tail, h'.prevOf q = h.prevOf q)
    (hmid : Link h' (ps.getLast hps) (qs.head hqs))
    (hclose : Link h' (qs.getLast hqs) (ps.head hps)) : IsRing h' (ps ++ qs) := by
  refine ⟨List.Nodup.append hr.nodup hnd hdisj, ?_, ?_⟩
  · refine List.isChain_append.mpr ⟨chain_frame ps hr.chain hn hp, hc, ?_⟩
    intro z hz a ha
    rw [List.getLast?_eq_some_getLast hps, Option.mem_def, Option.some.injEq] at hz
    rw [List.head?_eq_some_head hqs, Option.mem_def, Option.some.injEq] at ha
    rw [← hz, ← ha]
    exact hmid
  · intro z hz a ha
    rw [List.getLast?_append_of_ne_nil ps hqs, List.getLast?_eq_some_getLast hqs,
      Option.mem_def, Option.some.injEq] at hz
    rw [List.head?_append_of_ne_nil ps hps, List.head?_eq_some_head hps,
      Option.mem_def, Option.some.injEq] at ha
    rw [← hz, ← ha]
    exact hclose

/-- Dropping a front part leaves a ring once the two ends of the rest are
linked to each other. -/
theorem IsRing.dropFront {h h' : Heap α} {xs ys : List Nat} (hr : IsRing h (xs ++ ys))
    (hys : ys ≠ []) (hn : ∀ p ∈ ys.dropLast, h'.nextOf p = h.nextOf p)
    (hp : ∀ q ∈ ys.tail, h'.prevOf q = h.prevOf q)
    (hclose : Link h' (ys.getLast hys) (ys.head hys)) : IsRing h' ys := by
  refine ⟨(List.nodup_append'.mp hr.nodup).2.1,
    chain_frame ys (List.isChain_append.mp hr.chain).2.1 hn hp, ?_⟩
  intro z hz a ha
  rw [List.getLast?_eq_some_getLast hys, Option.mem_def, Option.some.injEq] at hz
  rw [List.head?_eq_some_head hys, Option.mem_def, Option.some.injEq] at ha
  rw [← hz, ← ha]
  exact hclose

/-! ## Reading a ring -/

/-- The values at a list of addresses. -/
def Heap.vals (h : Heap α) (ps : List Nat) : List α := ps.filterMap h.valOf

@[simp] theorem vals_nil (h : Heap α) : h.vals [] = [] := rfl

theorem vals_append (h : Heap α) (ps qs : List Nat) :
    h.vals (ps ++ qs) = h.vals ps ++ h.vals qs := List.filterMap_append

theorem vals_cons {h : Heap α} {p : Nat} {c : Cell α} (hc : h.cell p = some c)
    (ps : List Nat) : h.vals (p :: ps) = c.val :: h.vals ps := by
  simp [Heap.vals, Heap.valOf, hc]

theorem vals_congr {h h' : Heap α} {ps : List Nat}
    (hv : ∀ p ∈ ps, h'.valOf p = h.valOf p) : h'.vals ps = h.vals ps :=
  List.filterMap_congr hv

theorem vals_length {h : Heap α} : ∀ {ps : List Nat}, (∀ p ∈ ps, (h.cell p).isSome) →
    (h.vals ps).length = ps.length
  | [], _ => rfl
  | p :: ps, hl => by
      obtain ⟨c, hc⟩ := Option.isSome_iff_exists.mp (hl p (by simp))
      rw [vals_cons hc, List.length_cons, List.length_cons,
        vals_length (fun q hq => hl q (by simp [hq]))]

/-- The addresses met from `p` on, up to the one that points back to
`start`. -/
def Heap.collect (h : Heap α) (start : Nat) : Nat → Nat → List Nat
  | 0, _ => []
  | fuel + 1, p =>
    match h.nextOf p with
    | none => [p]
    | some q => if q = start then [p] else p :: Heap.collect h start fuel q

/-- The addresses of the ring a head points to. -/
def Heap.addrs (h : Heap α) : Option Nat → List Nat
  | none => []
  | some a => h.collect a h.fresh a

/-- The values of the ring a head points to. -/
def Heap.contents (h : Heap α) (head : Option Nat) : List α := h.vals (h.addrs head)

theorem collect_ring {h : Heap α} {a : Nat} : ∀ (ys xs : List Nat) (p fuel : Nat),
    IsRing h (xs ++ p :: ys) → a ∈ (xs ++ p :: ys).head? → ys.length < fuel →
    h.collect a fuel p = p :: ys
  | [], xs, p, fuel, hr, ha, hf => by
      obtain ⟨f, rfl⟩ : ∃ f, fuel = f + 1 := ⟨fuel - 1, by omega⟩
      simp [Heap.collect, (hr.link_last ha).1]
  | q :: ys, xs, p, fuel, hr, ha, hf => by
      obtain ⟨f, rfl⟩ : ∃ f, fuel = f + 1 := ⟨fuel - 1, by omega⟩
      -- `q` is not the first address, so the walk goes on
      have hqa : q ≠ a := by
        rintro rfl
        have hnd := hr.nodup
        cases xs with
        | nil =>
          simp only [List.nil_append, List.head?_cons, Option.mem_def, Option.some.injEq] at ha
          subst ha
          simp at hnd
        | cons x xs =>
          simp only [List.cons_append, List.head?_cons, Option.mem_def, Option.some.injEq] at ha
          subst ha
          simp at hnd
      have hr' : IsRing h ((xs ++ [p]) ++ q :: ys) := by simpa using hr
      rw [Heap.collect, hr.link_mid.1]
      simp only [if_neg hqa]
      rw [collect_ring ys (xs ++ [p]) q f hr' (by simpa using ha) (by simpa using hf)]

/-- Reading from its head gives back the ring. -/
theorem addrs_ring {h : Heap α} {ps : List Nat} (hr : IsRing h ps) : h.addrs ps.head? = ps := by
  cases ps with
  | nil => rfl
  | cons a t =>
    have hlen := hr.length_le
    exact collect_ring t [] a h.fresh hr (by simp) hlen

/-! ## Walking a ring

`while (go(cur, cur->next)) cur = cur->next`, with no end marker: what
stops the walk is that every step climbs in some order, which it cannot
do all the way round. -/

/-- The walk, counting its steps. -/
def Heap.walk (h : Heap α) (go : α → α → Bool) : Nat → Nat → Nat → Option (Nat × Nat)
  | 0, _, _ => none
  | fuel + 1, cur, count => do
    let c ← h.cell cur
    let n ← h.cell c.next
    if go c.val n.val then Heap.walk h go fuel c.next (count + 1) else some (cur, count)

/-- How many steps the walk makes over a list of values. -/
def climb (go : α → α → Bool) : List α → Nat
  | a :: b :: t => if go a b then climb go (b :: t) + 1 else 0
  | _ => 0

theorem climb_lt (go : α → α → Bool) : ∀ (l : List α), l ≠ [] → climb go l < l.length
  | [a], _ => by simp [climb]
  | a :: b :: t, _ => by
      have := climb_lt go (b :: t) (by simp)
      simp only [climb, List.length_cons] at this ⊢
      split <;> omega

/-- From any address the walk can have reached, it stops inside the ring
where `climb` says, whatever the values are. -/
theorem walk_from {h : Heap α} {go : α → α → Bool} {f : α → Int}
    (hgo : ∀ a b, go a b = true → f a < f b) {a : Nat} {c₀ : Cell α} (hc₀ : h.cell a = some c₀) :
    ∀ (ys xs : List Nat) (p fuel count : Nat) (c : Cell α),
      IsRing h (xs ++ p :: ys) → a ∈ (xs ++ p :: ys).head? → h.cell p = some c →
      f c₀.val ≤ f c.val → ys.length < fuel →
      h.walk go fuel p count =
        (p :: ys)[climb go (h.vals (p :: ys))]?.map
          (fun b => (b, count + climb go (h.vals (p :: ys))))
  | [], xs, p, fuel, count, c, hr, ha, hc, hle, hf => by
      obtain ⟨f', rfl⟩ : ∃ f', fuel = f' + 1 := ⟨fuel - 1, by omega⟩
      have hnext : c.next = a := (hr.link_last ha).next_eq hc
      have hstop : go c.val c₀.val = false := by
        by_contra hg
        have := hgo c.val c₀.val (by simpa using hg)
        omega
      simp [Heap.walk, hc, hnext, hc₀, hstop, vals_cons hc, climb]
  | q :: ys, xs, p, fuel, count, c, hr, ha, hc, hle, hf => by
      obtain ⟨f', rfl⟩ : ∃ f', fuel = f' + 1 := ⟨fuel - 1, by omega⟩
      have hnext : c.next = q := hr.link_mid.next_eq hc
      obtain ⟨d, hd⟩ := Option.isSome_iff_exists.mp (hr.live (p := q) (by simp))
      have hr' : IsRing h ((xs ++ [p]) ++ q :: ys) := by simpa using hr
      simp only [Heap.walk, hc, hnext, hd, Option.bind_eq_bind, Option.bind_some]
      rw [vals_cons hc, vals_cons hd, climb]
      cases hg : go c.val d.val with
      | false => simp
      | true =>
        have hlt := hgo _ _ hg
        have ih := walk_from hgo hc₀ ys (xs ++ [p]) q f' (count + 1) d hr'
          (by simpa using ha) hd (by omega) (by simpa using hf)
        rw [vals_cons hd] at ih
        simp only [if_true, ih, List.getElem?_cons_succ]
        congr 1
        funext b
        simp only [Prod.mk.injEq, true_and]
        omega

/-- From its head, a walk that climbs stops inside the ring. -/
theorem walk_ring {h : Heap α} {go : α → α → Bool} {f : α → Int}
    (hgo : ∀ a b, go a b = true → f a < f b) {a : Nat} {t : List Nat}
    (hr : IsRing h (a :: t)) :
    h.walk go h.fresh a 0 =
      (a :: t)[climb go (h.vals (a :: t))]?.map (fun b => (b, climb go (h.vals (a :: t)))) := by
  obtain ⟨c, hc⟩ := Option.isSome_iff_exists.mp (hr.live (p := a) (by simp))
  have hlen := hr.length_le
  have := walk_from hgo hc t [] a h.fresh 0 c hr (by simp) hc (Int.le_refl _) hlen
  simpa using this

/-- Where the walk stops it cuts the ring, and the values, in two. -/
theorem walk_split {h : Heap α} {go : α → α → Bool} {f : α → Int}
    (hgo : ∀ a b, go a b = true → f a < f b) {a : Nat} {t : List Nat}
    (hr : IsRing h (a :: t)) :
    ∃ xs y ys c, a :: t = xs ++ y :: ys ∧ h.cell y = some c ∧
      h.walk go h.fresh a 0 = some (y, xs.length) ∧
      (h.vals (a :: t)).drop (climb go (h.vals (a :: t))) = c.val :: h.vals ys := by
  obtain ⟨c, hc⟩ := Option.isSome_iff_exists.mp (hr.live (p := a) (by simp))
  have hlen := vals_length (fun p hp => hr.live hp)
  have hlt := climb_lt go (h.vals (a :: t)) (by simp [vals_cons hc])
  have hwalk := walk_ring hgo hr
  generalize climb go (h.vals (a :: t)) = n at hlt hwalk ⊢
  rw [hlen] at hlt
  have hxs : ((a :: t).take n).length = n := by
    rw [List.length_take]
    omega
  have hsplit : a :: t = (a :: t).take n ++ (a :: t)[n] :: (a :: t).drop (n + 1) := by
    rw [← List.drop_eq_getElem_cons hlt, List.take_append_drop]
  obtain ⟨d, hd⟩ := Option.isSome_iff_exists.mp (hr.live (List.getElem_mem hlt))
  refine ⟨(a :: t).take n, (a :: t)[n], (a :: t).drop (n + 1), d, hsplit, hd, ?_, ?_⟩
  · rw [hwalk, List.getElem?_eq_getElem hlt, hxs, Option.map_some]
  · have hfront : (h.vals ((a :: t).take n)).length = n := by
      rw [vals_length fun p hp => hr.live (List.mem_of_mem_take hp), hxs]
    conv_lhs => rw [hsplit, vals_append]
    rw [List.drop_left' hfront, vals_cons hd]

/-- Whatever the values are, a walk from a head that climbs stops. -/
theorem walk_stops {h : Heap α} {go : α → α → Bool} {f : α → Int}
    (hgo : ∀ a b, go a b = true → f a < f b) {a : Nat} {t : List Nat}
    (hr : IsRing h (a :: t)) (count : Nat) : ∃ r, h.walk go h.fresh a count = some r := by
  obtain ⟨c, hc⟩ := Option.isSome_iff_exists.mp (hr.live (p := a) (by simp))
  have hlen := vals_length (fun p hp => hr.live hp)
  have hlt := climb_lt go (h.vals (a :: t)) (by simp [vals_cons hc])
  rw [hlen] at hlt
  rw [walk_from hgo hc t [] a h.fresh count c hr (by simp) hc (Int.le_refl _) hr.length_le,
    List.getElem?_eq_getElem hlt]
  exact ⟨_, rfl⟩

/-! ## Freeing a front part -/

/-- Free `n` cells, following the forward links from `p`. -/
def Heap.freeRun (h : Heap α) : Nat → Nat → Option (Heap α)
  | 0, _ => some h
  | n + 1, p => do
    let q ← h.nextOf p
    let h ← h.free p
    Heap.freeRun h n q

/-- Freeing along a chain frees exactly its cells, each once. -/
theorem freeRun_chain : ∀ (xs : List Nat) (h : Heap α) (p : Nat), xs.Nodup →
    xs.IsChain (fun a b => h.nextOf a = some b) → (∀ x ∈ xs, (h.cell x).isSome) →
    (∀ a ∈ xs.head?, a = p) →
    ∃ h', h.freeRun xs.length p = some h' ∧
      ∀ x, h'.cell x = if x ∈ xs then none else h.cell x
  | [], h, p, _, _, _, _ => ⟨h, rfl, by simp⟩
  | a :: t, h, p, hnd, hc, hl, hp => by
      obtain rfl : a = p := hp a (by simp)
      obtain ⟨hat, hndt⟩ := List.nodup_cons.mp hnd
      obtain ⟨c, hcell⟩ := Option.isSome_iff_exists.mp (hl a (by simp))
      have hsame : ∀ x ∈ t, (h.drop a).cell x = h.cell x := by
        intro x hx
        have hxa : x ≠ a := fun hxa => hat (hxa ▸ hx)
        rw [drop_cell, if_neg hxa]
      obtain ⟨h', hrun, hcells⟩ :=
        freeRun_chain t (h.drop a) c.next hndt
          ((List.isChain_cons.mp hc).2.imp_of_mem_imp (fun x y hx _ hxy => by
            simpa [Heap.nextOf, hsame x hx] using hxy))
          (fun x hx => by rw [hsame x hx]; exact hl x (by simp [hx]))
          (fun b hb => by
            have := (List.isChain_cons.mp hc).1 b hb
            simpa [Heap.nextOf, hcell] using this.symm)
      refine ⟨h', ?_, ?_⟩
      · simp [Heap.freeRun, Heap.nextOf, hcell, Heap.free, hrun]
      · intro x
        rw [hcells x, drop_cell]
        by_cases hxa : x = a
        · simp [hxa, hat]
        · simp [hxa]

/-- A front part of a ring is freed link by link. -/
theorem freeRun_front {h : Heap α} {a : Nat} {xs ys : List Nat} (hr : IsRing h (xs ++ ys))
    (ha : ∀ b ∈ xs.head?, b = a) (h₁ : Heap α)
    (hn : ∀ x ∈ xs, h₁.nextOf x = h.nextOf x) :
    ∃ h', h₁.freeRun xs.length a = some h' ∧
      ∀ x, h'.cell x = if x ∈ xs then none else h₁.cell x := by
  have hlive : ∀ x ∈ xs, (h₁.cell x).isSome := by
    intro x hx
    rw [← isSome_nextOf, hn x hx, isSome_nextOf]
    exact hr.live (List.mem_append_left _ hx)
  have hchain : xs.IsChain (fun a b => h₁.nextOf a = some b) :=
    (List.isChain_append.mp hr.chain).1.imp_of_mem_imp
      (fun x y hx _ hxy => (hn x hx).trans hxy.1)
  exact freeRun_chain xs h₁ a (List.nodup_append'.mp hr.nodup).1 hchain hlive ha

/-! ## Families of rings -/

/-- One ring for each owner; no two owners share an address. -/
structure Rings (h : Heap α) (head : ι → Option Nat) (ps : ι → List Nat) : Prop where
  head_eq : ∀ i, head i = (ps i).head?
  ring : ∀ i, IsRing h (ps i)
  disjoint : ∀ i j, i ≠ j → (ps i).Disjoint (ps j)

theorem rings_empty (h : Heap α) : Rings h (fun _ : ι => none) (fun _ => []) :=
  ⟨fun _ => rfl, fun _ => isRing_nil h, fun _ _ _ => List.disjoint_nil_left _⟩

/-- What the head of an owner reads is what the family gives it. -/
theorem Rings.contents_eq {h : Heap α} {head : ι → Option Nat} {ps : ι → List Nat}
    (hr : Rings h head ps) (i : ι) : h.contents (head i) = h.vals (ps i) := by
  rw [Heap.contents, hr.head_eq i, addrs_ring (hr.ring i)]

/-- A new cell is on no ring of the family. -/
theorem Rings.fresh_notMem {h : Heap α} {head : ι → Option Nat} {ps : ι → List Nat}
    (hr : Rings h head ps) (i : ι) : h.fresh ∉ ps i :=
  fun hm => Nat.lt_irrefl _ ((hr.ring i).lt_fresh hm)

/-- Allocating disturbs no ring. -/
theorem Rings.alloc {h : Heap α} {head : ι → Option Nat} {ps : ι → List Nat}
    (hr : Rings h head ps) (c : Cell α) : Rings (h.alloc c) head ps := by
  have hsame : ∀ i, ∀ p ∈ ps i, (h.alloc c).cell p = h.cell p := by
    intro i p hp
    have hne : p ≠ h.fresh := fun heq => hr.fresh_notMem i (heq ▸ hp)
    rw [alloc_cell, if_neg hne]
  refine ⟨hr.head_eq, fun i => (hr.ring i).frame ?_ ?_, hr.disjoint⟩
  · intro p hp
    rw [Heap.nextOf, Heap.nextOf, hsame i p hp]
  · intro p hp
    rw [Heap.prevOf, Heap.prevOf, hsame i p hp]

section Family

variable [DecidableEq ι] {h h' : Heap α} {head : ι → Option Nat} {ps : ι → List Nat}

/-- One owner's ring is replaced, the links of all others stay. -/
theorem Rings.replace (hr : Rings h head ps) (i : ι) {l : List Nat} (hring : IsRing h' l)
    (hlinks : ∀ j, j ≠ i → ∀ p ∈ ps j, h'.nextOf p = h.nextOf p ∧ h'.prevOf p = h.prevOf p)
    (hdisj : ∀ j, j ≠ i → l.Disjoint (ps j)) :
    Rings h' (Function.update head i l.head?) (Function.update ps i l) := by
  refine ⟨fun j => ?_, fun j => ?_, fun j m hjm => ?_⟩
  · by_cases hj : j = i
    · subst hj; simp
    · simp [hj, hr.head_eq j]
  · by_cases hj : j = i
    · subst hj; simpa using hring
    · rw [Function.update_of_ne hj]
      exact (hr.ring j).frame (fun p hp => (hlinks j hj p hp).1) (fun p hp => (hlinks j hj p hp).2)
  · by_cases hj : j = i
    · subst hj
      rw [Function.update_self, Function.update_of_ne (Ne.symm hjm)]
      exact hdisj m (Ne.symm hjm)
    · by_cases hm : m = i
      · subst hm
        rw [Function.update_self, Function.update_of_ne hj]
        exact (hdisj j hj).symm
      · rw [Function.update_of_ne hj, Function.update_of_ne hm]
        exact hr.disjoint j m hjm

/-- The ring of `j` is moved behind the ring of `i`. -/
theorem Rings.move (hr : Rings h head ps) {i j : ι} (hij : i ≠ j)
    (hring : IsRing h' (ps i ++ ps j))
    (hlinks : ∀ m, m ≠ i → m ≠ j → ∀ p ∈ ps m,
      h'.nextOf p = h.nextOf p ∧ h'.prevOf p = h.prevOf p) :
    Rings h' (Function.update (Function.update head i (ps i ++ ps j).head?) j none)
      (Function.update (Function.update ps i (ps i ++ ps j)) j []) := by
  -- first give up the ring of `j`, then replace that of `i`
  have hgone : Rings h (Function.update head j none) (Function.update ps j []) :=
    hr.replace j (isRing_nil h) (fun _ _ _ _ => ⟨rfl, rfl⟩) (fun _ _ => List.disjoint_nil_left _)
  have hmoved := hgone.replace i hring ?_ ?_
  · rwa [Function.update_comm (Ne.symm hij), Function.update_comm (Ne.symm hij)] at hmoved
  · intro m hm p hp
    by_cases hmj : m = j
    · subst hmj; simp at hp
    · exact hlinks m hm hmj p (by simpa [hmj] using hp)
  · intro m hm
    by_cases hmj : m = j
    · subst hmj; simp
    · rw [Function.update_of_ne hmj]
      exact List.disjoint_append_left.mpr
        ⟨hr.disjoint i m (Ne.symm hm), hr.disjoint j m (Ne.symm hmj)⟩

end Family

end RingHeap
