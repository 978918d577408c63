/-
Citadel.Lib.Chain — singly linked lists in a heap of cells.

A heap maps addresses to cells; a cell carries a value and one link, null
at the end. Reading, writing and releasing are PARTIAL: `none` is a memory
fault, so a program that comes back has touched live cells only and has
released none of them twice. The heap remembers what was released.

`IsSeg h p cs q` says that from `p` the cells `cs`, addresses with values,
are linked in this order and that the last is linked to `q`; `IsChain h p
cs` is the whole list, up to null. A chain is what a pointer determines
(`IsChain.unique`), so it has no address twice (`IsChain.nodup`) and no
more addresses than were handed out, which is the fuel of every loop.
-/
import Mathlib.Data.List.Nodup
import Mathlib.Data.Finset.Card
import Mathlib.Data.Finset.Range

namespace ChainHeap

variable {α : Type}

/-! ## Cells and heaps -/

structure Cell (α : Type) where
  val : α
  next : Nat
  deriving DecidableEq, Repr

/-- A heap. Address 0 is null; every address from `fresh` on is unborn. A
released address is never handed out again. -/
structure Heap (α : Type) where
  cell : Nat → Option (Cell α)
  fresh : Nat
  released : List Nat
  fresh_pos : 0 < fresh
  null : cell 0 = none
  unborn : ∀ p, fresh ≤ p → cell p = none

def Heap.empty : Heap α where
  cell := fun _ => none
  fresh := 1
  released := []
  fresh_pos := Nat.one_pos
  null := rfl
  unborn := fun _ _ => rfl

/-- Rewrite the cell at one address, if there is one. -/
def Heap.upd (h : Heap α) (p : Nat) (f : Cell α → Cell α) : Heap α where
  cell := fun x => if x = p then (h.cell x).map f else h.cell x
  fresh := h.fresh
  released := h.released
  fresh_pos := h.fresh_pos
  null := by simp [h.null]
  unborn := fun x hx => by simp [h.unborn x hx]

def Heap.putNext (h : Heap α) (p q : Nat) : Heap α := h.upd p fun c => { c with next := q }

def Heap.putVal (h : Heap α) (p : Nat) (f : α → α) : Heap α :=
  h.upd p fun c => { c with val := f c.val }

/-- `p->next = q`. -/
def Heap.setNext (h : Heap α) (p q : Nat) : Option (Heap α) :=
  if (h.cell p).isSome then some (h.putNext p q) else none

/-- A change of the value at `p`. -/
def Heap.setVal (h : Heap α) (p : Nat) (f : α → α) : Option (Heap α) :=
  if (h.cell p).isSome then some (h.putVal p f) else none

/-- A new cell at the next unborn address. -/
def Heap.alloc (h : Heap α) (c : Cell α) : Heap α where
  cell := fun x => if x = h.fresh then some c else h.cell x
  fresh := h.fresh + 1
  released := h.released
  fresh_pos := Nat.succ_pos _
  null := by
    have := h.fresh_pos
    simp [h.null, show ¬ (0 = h.fresh) by omega]
  unborn := fun x hx => by
    simp [h.unborn x (by omega), show ¬ (x = h.fresh) by omega]

def Heap.drop (h : Heap α) (p : Nat) : Heap α where
  cell := fun x => if x = p then none else h.cell x
  fresh := h.fresh
  released := p :: h.released
  fresh_pos := h.fresh_pos
  null := by simp [h.null]
  unborn := fun x hx => by simp [h.unborn x hx]

/-- Release a cell. -/
def Heap.free (h : Heap α) (p : Nat) : Option (Heap α) :=
  if (h.cell p).isSome then some (h.drop p) else none

/-! ### What a write changes -/

section Writes

variable {h : Heap α} {p q x : Nat}

theorem putNext_same {c : Cell α} (hc : h.cell p = some c) :
    (h.putNext p q).cell p = some { c with next := q } := by
  simp [Heap.putNext, Heap.upd, hc]

theorem putNext_other (hx : x ≠ p) : (h.putNext p q).cell x = h.cell x := if_neg hx

theorem putVal_same {f : α → α} {c : Cell α} (hc : h.cell p = some c) :
    (h.putVal p f).cell p = some { c with val := f c.val } := by
  simp [Heap.putVal, Heap.upd, hc]

theorem putVal_other {f : α → α} (hx : x ≠ p) : (h.putVal p f).cell x = h.cell x := if_neg hx

theorem alloc_same {c : Cell α} : (h.alloc c).cell h.fresh = some c := if_pos rfl

theorem alloc_other {c : Cell α} (hx : x ≠ h.fresh) : (h.alloc c).cell x = h.cell x := if_neg hx

theorem drop_same : (h.drop p).cell p = none := if_pos rfl

theorem drop_other (hx : x ≠ p) : (h.drop p).cell x = h.cell x := if_neg hx

@[simp] theorem putNext_fresh : (h.putNext p q).fresh = h.fresh := rfl

@[simp] theorem putVal_fresh {f : α → α} : (h.putVal p f).fresh = h.fresh := rfl

theorem setNext_of_live {c : Cell α} (hc : h.cell p = some c) :
    h.setNext p q = some (h.putNext p q) := if_pos (by rw [hc]; rfl)

theorem setVal_of_live {f : α → α} {c : Cell α} (hc : h.cell p = some c) :
    h.setVal p f = some (h.putVal p f) := if_pos (by rw [hc]; rfl)

theorem free_of_live {c : Cell α} (hc : h.cell p = some c) : h.free p = some (h.drop p) :=
  if_pos (by rw [hc]; rfl)

theorem ne_null_of_live {c : Cell α} (hc : h.cell p = some c) : p ≠ 0 := by
  rintro rfl
  rw [h.null] at hc
  cases hc

theorem lt_fresh_of_live {c : Cell α} (hc : h.cell p = some c) : p < h.fresh := by
  by_contra hge
  rw [h.unborn p (by omega)] at hc
  cases hc

end Writes

/-! ## Segments and chains -/

/-- From `p` the cells `cs` are linked, and the last is linked to `q`. -/
def IsSeg (h : Heap α) : Nat → List (Nat × α) → Nat → Prop
  | p, [], q => p = q
  | p, c :: cs, q => p = c.1 ∧ ∃ n, h.cell p = some ⟨c.2, n⟩ ∧ IsSeg h n cs q

def IsChain (h : Heap α) (p : Nat) (cs : List (Nat × α)) : Prop := IsSeg h p cs 0

def addrs (cs : List (Nat × α)) : List Nat := cs.map Prod.fst

@[simp] theorem addrs_nil : addrs ([] : List (Nat × α)) = [] := rfl

@[simp] theorem addrs_cons (c : Nat × α) (cs : List (Nat × α)) :
    addrs (c :: cs) = c.1 :: addrs cs := rfl

@[simp] theorem addrs_append (cs ds : List (Nat × α)) :
    addrs (cs ++ ds) = addrs cs ++ addrs ds := List.map_append

theorem mem_addrs {cs : List (Nat × α)} {c : Nat × α} (hc : c ∈ cs) : c.1 ∈ addrs cs :=
  List.mem_map_of_mem hc

theorem isSeg_append {h : Heap α} {p q : Nat} {xs ys : List (Nat × α)} :
    IsSeg h p (xs ++ ys) q ↔ ∃ r, IsSeg h p xs r ∧ IsSeg h r ys q := by
  induction xs generalizing p with
  | nil => simp [IsSeg]
  | cons c xs ih =>
    constructor
    · rintro ⟨hp, n, hn, hrest⟩
      obtain ⟨r, hxs, hys⟩ := ih.mp hrest
      exact ⟨r, ⟨hp, n, hn, hxs⟩, hys⟩
    · rintro ⟨r, ⟨hp, n, hn, hxs⟩, hys⟩
      exact ⟨hp, n, hn, ih.mpr ⟨r, hxs, hys⟩⟩

theorem IsSeg.live {h : Heap α} {p q : Nat} {cs : List (Nat × α)} (hseg : IsSeg h p cs q)
    {c : Nat × α} (hc : c ∈ cs) : ∃ n, h.cell c.1 = some ⟨c.2, n⟩ := by
  induction cs generalizing p with
  | nil => cases hc
  | cons d cs ih =>
    obtain ⟨rfl, n, hn, hrest⟩ := hseg
    rcases List.mem_cons.mp hc with rfl | hc
    · exact ⟨n, hn⟩
    · exact ih hrest hc

/-- A segment survives any change elsewhere. -/
theorem IsSeg.frame {h h' : Heap α} {p q : Nat} {cs : List (Nat × α)} (hseg : IsSeg h p cs q)
    (hsame : ∀ x ∈ addrs cs, h'.cell x = h.cell x) : IsSeg h' p cs q := by
  induction cs generalizing p with
  | nil => exact hseg
  | cons c cs ih =>
    obtain ⟨rfl, n, hn, hrest⟩ := hseg
    exact ⟨rfl, n, (hsame _ List.mem_cons_self).trans hn,
      ih hrest fun x hx => hsame x (List.mem_cons_of_mem _ hx)⟩

/-- The pointer determines the chain. -/
theorem IsChain.unique {h : Heap α} {p : Nat} {cs ds : List (Nat × α)} (hcs : IsChain h p cs)
    (hds : IsChain h p ds) : cs = ds := by
  induction cs generalizing p ds with
  | nil =>
    cases ds with
    | nil => rfl
    | cons d ds =>
      obtain ⟨-, n, hn, -⟩ := hds
      exact absurd hcs (ne_null_of_live hn)
  | cons c cs ih =>
    obtain ⟨hp, n, hn, hrest⟩ := hcs
    cases ds with
    | nil => exact absurd hds (ne_null_of_live hn)
    | cons d ds =>
      obtain ⟨hp', n', hn', hrest'⟩ := hds
      rw [hn, Option.some.injEq, Cell.mk.injEq] at hn'
      obtain ⟨hval, rfl⟩ := hn'
      rw [ih hrest hrest', Prod.ext (hp.symm.trans hp') hval]

/-- No address occurs twice: the rest of the chain from its second
occurrence would be the rest from its first. -/
theorem IsChain.nodup {h : Heap α} {p : Nat} {cs : List (Nat × α)} (hcs : IsChain h p cs) :
    (addrs cs).Nodup := by
  induction cs generalizing p with
  | nil => exact List.nodup_nil
  | cons c cs ih =>
    have hwhole := hcs
    obtain ⟨rfl, n, hn, hrest⟩ := hcs
    refine List.nodup_cons.mpr ⟨fun hmem => ?_, ih hrest⟩
    obtain ⟨d, hd, hdc⟩ := List.mem_map.mp hmem
    obtain ⟨xs, ys, rfl⟩ := List.append_of_mem hd
    obtain ⟨r, -, hr⟩ := isSeg_append.mp hrest
    obtain rfl : r = c.1 := hr.1.trans hdc
    have hlen := congrArg List.length (IsChain.unique hwhole hr)
    simp only [List.length_cons, List.length_append] at hlen
    omega

theorem IsChain.eq_null_iff {h : Heap α} {p : Nat} {cs : List (Nat × α)}
    (hcs : IsChain h p cs) : p = 0 ↔ cs = [] := by
  cases cs with
  | nil => exact iff_of_true hcs rfl
  | cons c cs =>
    obtain ⟨-, n, hn, -⟩ := hcs
    exact iff_of_false (ne_null_of_live hn) (List.cons_ne_nil c cs)

theorem IsSeg.lt_fresh {h : Heap α} {p q : Nat} {cs : List (Nat × α)} (hseg : IsSeg h p cs q)
    {x : Nat} (hx : x ∈ addrs cs) : x < h.fresh := by
  obtain ⟨c, hc, rfl⟩ := List.mem_map.mp hx
  obtain ⟨n, hn⟩ := hseg.live hc
  exact lt_fresh_of_live hn

/-- An entry has no next one exactly if it is the last. -/
theorem IsChain.next_eq_null_iff {h : Heap α} {p n : Nat} {xs ys : List (Nat × α)} {c : Nat × α}
    (hcs : IsChain h p (xs ++ c :: ys)) (hcell : h.cell c.1 = some ⟨c.2, n⟩) :
    n = 0 ↔ ys = [] := by
  obtain ⟨r, -, hr, m, hm, hrest⟩ := isSeg_append.mp hcs
  subst hr
  rw [hcell] at hm
  cases hm
  exact IsChain.eq_null_iff hrest

/-- The fuel of every loop over a chain. -/
theorem IsChain.length_lt {h : Heap α} {p : Nat} {cs : List (Nat × α)} (hcs : IsChain h p cs) :
    cs.length < h.fresh := by
  have hsub : (addrs cs).toFinset ⊆ (Finset.range h.fresh).erase 0 := by
    intro x hx
    obtain ⟨c, hc, rfl⟩ := List.mem_map.mp (List.mem_toFinset.mp hx)
    obtain ⟨n, hn⟩ := IsSeg.live hcs hc
    exact Finset.mem_erase.mpr ⟨ne_null_of_live hn, Finset.mem_range.mpr (lt_fresh_of_live hn)⟩
  have hcard := Finset.card_le_card hsub
  rw [List.toFinset_card_of_nodup hcs.nodup,
    Finset.card_erase_of_mem (Finset.mem_range.mpr h.fresh_pos), Finset.card_range, addrs,
    List.length_map] at hcard
  have hpos := h.fresh_pos
  omega

/-! ## Changing a chain -/

/-- Relinking the last cell of a segment. -/
theorem IsSeg.putNext_last {h : Heap α} {p q r : Nat} {xs : List (Nat × α)} {c : Nat × α}
    (hseg : IsSeg h p (xs ++ [c]) q) (hnd : (addrs (xs ++ [c])).Nodup) :
    IsSeg (h.putNext c.1 r) p (xs ++ [c]) r := by
  obtain ⟨s, hxs, hs, n, hn, -⟩ := isSeg_append.mp hseg
  subst hs
  have hnot : c.1 ∉ addrs xs := by
    rw [addrs_append, List.nodup_append'] at hnd
    exact fun hmem => hnd.2.2 hmem (by simp)
  refine isSeg_append.mpr ⟨c.1, hxs.frame fun x hx => ?_, rfl, r, putNext_same hn, rfl⟩
  exact putNext_other fun hxc => hnot (hxc ▸ hx)

/-- Relinking elsewhere. -/
theorem IsSeg.putNext_frame {h : Heap α} {p q x r : Nat} {cs : List (Nat × α)}
    (hseg : IsSeg h p cs q) (hx : x ∉ addrs cs) : IsSeg (h.putNext x r) p cs q :=
  hseg.frame fun _ hy => putNext_other fun hyx => hx (hyx ▸ hy)

theorem IsSeg.drop_frame {h : Heap α} {p q x : Nat} {cs : List (Nat × α)}
    (hseg : IsSeg h p cs q) (hx : x ∉ addrs cs) : IsSeg (h.drop x) p cs q :=
  hseg.frame fun _ hy => drop_other fun hyx => hx (hyx ▸ hy)

theorem IsSeg.alloc_frame {h : Heap α} {p q : Nat} {cs : List (Nat × α)} (d : Cell α)
    (hseg : IsSeg h p cs q) : IsSeg (h.alloc d) p cs q :=
  hseg.frame fun _ hy => alloc_other (Nat.ne_of_lt (hseg.lt_fresh hy))

/-- A new value in a cell of a chain. -/
theorem IsChain.putVal {h : Heap α} {p : Nat} {xs ys : List (Nat × α)} {c : Nat × α}
    {f : α → α} (hcs : IsChain h p (xs ++ c :: ys)) :
    IsChain (h.putVal c.1 f) p (xs ++ (c.1, f c.2) :: ys) := by
  have hnd := hcs.nodup
  rw [addrs_append, addrs_cons, List.nodup_append'] at hnd
  obtain ⟨-, hnd, hdisj⟩ := hnd
  obtain ⟨r, hxs, hr, n, hn, hys⟩ := isSeg_append.mp hcs
  subst hr
  refine isSeg_append.mpr ⟨c.1, hxs.frame fun x hx => ?_, rfl, n, putVal_same hn,
    hys.frame fun x hx => ?_⟩
  · exact putVal_other fun hxc => hdisj (hxc ▸ hx) List.mem_cons_self
  · exact putVal_other fun hxc => (List.nodup_cons.mp hnd).1 (hxc ▸ hx)

/-! ## Loops -/

/-- `while (p->next) p = p->next`. -/
def Heap.lastOf (h : Heap α) : Nat → Nat → Option Nat
  | 0, _ => none
  | fuel + 1, p => do
    let c ← h.cell p
    if c.next = 0 then some p else Heap.lastOf h fuel c.next

theorem lastOf_chain {h : Heap α} {p fuel : Nat} {xs : List (Nat × α)} {c : Nat × α}
    (hcs : IsChain h p (xs ++ [c])) (hfuel : xs.length < fuel) :
    h.lastOf fuel p = some c.1 := by
  induction xs generalizing p fuel with
  | nil =>
    obtain ⟨f, rfl⟩ : ∃ f, fuel = f + 1 := ⟨fuel - 1, by simp at hfuel; omega⟩
    obtain ⟨rfl, n, hn, hend⟩ := hcs
    obtain rfl : n = 0 := hend
    simp [Heap.lastOf, hn]
  | cons d xs ih =>
    obtain ⟨f, rfl⟩ : ∃ f, fuel = f + 1 := ⟨fuel - 1, by omega⟩
    obtain ⟨rfl, n, hn, hrest⟩ := hcs
    have hne : n ≠ 0 := fun hzero =>
      List.append_ne_nil_of_right_ne_nil xs (List.cons_ne_nil c [])
        ((IsChain.eq_null_iff hrest).mp hzero)
    simp only [Heap.lastOf, hn, Option.bind_eq_bind, Option.bind_some, if_neg hne]
    exact ih hrest (Nat.lt_of_succ_lt_succ hfuel)

end ChainHeap
