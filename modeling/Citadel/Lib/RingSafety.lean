/-
Citadel.Lib.RingSafety — rings seen from their heads, and what has been
freed.

`IsRing` (`Citadel.Lib.Ring`) describes a ring by the list of its addresses.
`Circular` says the same without a list, of everything that can be REACHED
from a head over links in either direction; a ring is circular
(`IsRing.circular`), and two rings without a common address have no
reachable address in common.

`Released h freed` says that the addresses in `freed` were each freed once
and are dead for good. It survives everything a program can do to a heap
(`Ages`): links are rewritten (`Relinked`), cells are added, cells are freed,
but no dead address comes back.
-/
import Citadel.Lib.Ring

namespace RingHeap

variable {α ι : Type}

/-! ## Reaching -/

/-- `q` can be reached from `p` over links in either direction. -/
inductive Reach (h : Heap α) (p : Nat) : Nat → Prop
  | here : Reach h p p
  | next {q r : Nat} : Reach h p q → h.nextOf q = some r → Reach h p r
  | prev {q r : Nat} : Reach h p q → h.prevOf q = some r → Reach h p r

/-- Where `n` forward links lead. -/
def Heap.follow (h : Heap α) : Nat → Nat → Option Nat
  | 0, p => some p
  | n + 1, p => (h.nextOf p).bind (Heap.follow h n)

/-- A circular doubly linked ring hangs off `p`: whatever can be reached is
live, the two links are inverse to each other, and the forward links alone
lead back to `p`. -/
structure Circular (h : Heap α) (p : Nat) : Prop where
  live : ∀ q, Reach h p q → (h.cell q).isSome
  next_prev : ∀ q r, Reach h p q → h.nextOf q = some r → h.prevOf r = some q
  prev_next : ∀ q r, Reach h p q → h.prevOf q = some r → h.nextOf r = some q
  round : ∀ q, Reach h p q → ∃ n, h.follow (n + 1) q = some p

section Rings

variable {h : Heap α} {ps : List Nat}

/-- The successor of an address on a ring is on it. -/
theorem IsRing.link_next (hr : IsRing h ps) {p : Nat} (hp : p ∈ ps) : ∃ q ∈ ps, Link h p q := by
  obtain ⟨xs, ys, rfl⟩ := List.append_of_mem hp
  cases ys with
  | nil =>
    have hne : xs ++ [p] ≠ [] := by simp
    have hlink := hr.link_close hne
    rw [List.getLast_append_singleton] at hlink
    exact ⟨_, List.head_mem hne, hlink⟩
  | cons q ys => exact ⟨q, by simp, hr.link_mid⟩

/-- And so is its predecessor. -/
theorem IsRing.link_prev (hr : IsRing h ps) {p : Nat} (hp : p ∈ ps) : ∃ q ∈ ps, Link h q p := by
  obtain ⟨xs, ys, rfl⟩ := List.append_of_mem hp
  cases xs using List.reverseRecOn with
  | nil =>
    have hne : p :: ys ≠ [] := by simp
    exact ⟨_, List.getLast_mem hne, hr.link_close hne⟩
  | append_singleton xs q =>
    rw [List.append_assoc, List.singleton_append] at hr
    exact ⟨q, by simp, hr.link_mid⟩

/-- Links do not leave a ring. -/
theorem IsRing.mem_of_reach (hr : IsRing h ps) {p q : Nat} (hp : p ∈ ps) (hq : Reach h p q) :
    q ∈ ps := by
  induction hq with
  | here => exact hp
  | next _ hnext ih =>
    obtain ⟨r, hr', hlink⟩ := hr.link_next ih
    rw [hlink.1, Option.some.injEq] at hnext
    exact hnext ▸ hr'
  | prev _ hprev ih =>
    obtain ⟨r, hr', hlink⟩ := hr.link_prev ih
    rw [hlink.2, Option.some.injEq] at hprev
    exact hprev ▸ hr'

/-- From the `i`-th last address, `i` links lead to the head. -/
theorem follow_ring {a : Nat} (ys : List Nat) : ∀ (xs : List Nat) (p : Nat),
    IsRing h (xs ++ p :: ys) → a ∈ (xs ++ p :: ys).head? →
    h.follow (ys.length + 1) p = some a := by
  induction ys with
  | nil =>
    intro xs p hr ha
    rw [Heap.follow, (hr.link_last ha).1]
    rfl
  | cons q ys ih =>
    intro xs p hr ha
    have hassoc : xs ++ p :: q :: ys = (xs ++ [p]) ++ q :: ys := by simp
    rw [List.length_cons, Heap.follow, hr.link_mid.1, Option.bind_some]
    rw [hassoc] at hr ha
    exact ih (xs ++ [p]) q hr ha

theorem IsRing.circular {a : Nat} {t : List Nat} (hr : IsRing h (a :: t)) : Circular h a where
  live q hq := hr.live (hr.mem_of_reach List.mem_cons_self hq)
  next_prev q r hq hnext := by
    obtain ⟨r', -, hlink⟩ := hr.link_next (hr.mem_of_reach List.mem_cons_self hq)
    rw [hlink.1, Option.some.injEq] at hnext
    exact hnext ▸ hlink.2
  prev_next q r hq hprev := by
    obtain ⟨r', -, hlink⟩ := hr.link_prev (hr.mem_of_reach List.mem_cons_self hq)
    rw [hlink.2, Option.some.injEq] at hprev
    exact hprev ▸ hlink.1
  round q hq := by
    obtain ⟨xs, ys, hsplit⟩ := List.append_of_mem (hr.mem_of_reach List.mem_cons_self hq)
    have hhead : a ∈ (xs ++ q :: ys).head? := by
      rw [← hsplit]
      rfl
    rw [hsplit] at hr
    exact ⟨ys.length, follow_ring ys xs q hr hhead⟩

end Rings

section Family

variable {h : Heap α} {head : ι → Option Nat} {ps : ι → List Nat}

/-- What the head of an owner reaches is on the owner's ring. -/
theorem Rings.mem_of_reach (hr : Rings h head ps) {i : ι} {a p : Nat} (ha : head i = some a)
    (hp : Reach h a p) : p ∈ ps i := by
  have hhead := hr.head_eq i
  rw [ha] at hhead
  exact (hr.ring i).mem_of_reach (List.mem_of_mem_head? hhead.symm) hp

theorem Rings.circular (hr : Rings h head ps) {i : ι} {a : Nat} (ha : head i = some a) :
    Circular h a := by
  have hhead := hr.head_eq i
  have hring := hr.ring i
  rw [ha] at hhead
  cases hps : ps i with
  | nil => rw [hps] at hhead; cases hhead
  | cons b t =>
    rw [hps] at hhead hring
    obtain rfl : a = b := Option.some.inj hhead
    exact hring.circular

/-- Different owners reach different addresses. -/
theorem Rings.owner_eq (hr : Rings h head ps) {i j : ι} {a b p : Nat} (ha : head i = some a)
    (hb : head j = some b) (hp : Reach h a p) (hq : Reach h b p) : i = j := by
  by_contra hij
  exact hr.disjoint i j hij (hr.mem_of_reach ha hp) (hr.mem_of_reach hb hq)

end Family

/-! ## Ageing -/

/-- `h'` is a later heap: no address is taken back, and none that is dead
comes to life. -/
structure Ages (h h' : Heap α) : Prop where
  born : h.fresh ≤ h'.fresh
  dead : ∀ p, p < h.fresh → h.cell p = none → h'.cell p = none

section Ages

variable {h h' h'' : Heap α} {p q : Nat}

theorem Ages.refl (h : Heap α) : Ages h h := ⟨Nat.le_refl _, fun _ _ hp => hp⟩

theorem Ages.trans (h₁ : Ages h h') (h₂ : Ages h' h'') : Ages h h'' :=
  ⟨Nat.le_trans h₁.born h₂.born, fun p hp hdead =>
    h₂.dead p (Nat.lt_of_lt_of_le hp h₁.born) (h₁.dead p hp hdead)⟩

theorem ages_alloc (h : Heap α) (c : Cell α) : Ages h (h.alloc c) := by
  refine ⟨Nat.le_succ _, fun x hx hdead => ?_⟩
  rw [alloc_cell, if_neg (Nat.ne_of_lt hx)]
  exact hdead

end Ages

/-! ## Relinking -/

/-- `h'` has the cells of `h`, with other links. -/
structure Relinked (h h' : Heap α) : Prop where
  fresh : h'.fresh = h.fresh
  live : ∀ x, (h'.cell x).isSome = (h.cell x).isSome

section Relinked

variable {h h' h'' : Heap α} {p q : Nat}

theorem Relinked.refl (h : Heap α) : Relinked h h := ⟨rfl, fun _ => rfl⟩

theorem Relinked.trans (h₁ : Relinked h h') (h₂ : Relinked h' h'') : Relinked h h'' :=
  ⟨h₂.fresh.trans h₁.fresh, fun x => (h₂.live x).trans (h₁.live x)⟩

/-- Relinking ages a heap. -/
theorem Relinked.ages (hrel : Relinked h h') : Ages h h' := by
  refine ⟨hrel.fresh.ge, fun p _ hdead => ?_⟩
  rw [← Option.not_isSome_iff_eq_none, hrel.live, hdead]
  exact Bool.false_ne_true

theorem relinked_setNext (hset : h.setNext p q = some h') : Relinked h h' := by
  rw [Heap.setNext] at hset
  split at hset
  · cases hset
    exact ⟨putNext_fresh h p q, putNext_isSome h p q⟩
  · cases hset

theorem relinked_setPrev (hset : h.setPrev p q = some h') : Relinked h h' := by
  rw [Heap.setPrev] at hset
  split at hset
  · cases hset
    exact ⟨putPrev_fresh h p q, putPrev_isSome h p q⟩
  · cases hset

end Relinked

/-! ## Freeing -/

/-- The addresses `freeRun` frees, in this order. -/
def Heap.freed (h : Heap α) : Nat → Nat → List Nat
  | 0, _ => []
  | n + 1, p =>
    match h.nextOf p with
    | none => []
    | some q => p :: Heap.freed (h.drop p) n q

/-- A run of frees that comes back has freed live cells only, no cell twice,
and nothing besides. -/
theorem freeRun_freed {n p : Nat} {h h' : Heap α} (hrun : h.freeRun n p = some h') :
    h'.fresh = h.fresh ∧ (h.freed n p).Nodup ∧ (∀ x ∈ h.freed n p, (h.cell x).isSome) ∧
      ∀ x, h'.cell x = if x ∈ h.freed n p then none else h.cell x := by
  induction n generalizing h p with
  | zero =>
    cases hrun
    exact ⟨rfl, List.nodup_nil, by simp [Heap.freed], by simp [Heap.freed]⟩
  | succ n ih =>
    obtain ⟨q, hq, hrest⟩ := Option.bind_eq_some_iff.mp hrun
    obtain ⟨h₁, hfree, hrest⟩ := Option.bind_eq_some_iff.mp hrest
    have hlive : (h.cell p).isSome := by
      rw [← isSome_nextOf, hq]
      rfl
    rw [Heap.free, if_pos hlive, Option.some.injEq] at hfree
    subst hfree
    obtain ⟨hfresh, hnd, hall, hcells⟩ := ih hrest
    have hfreed : h.freed (n + 1) p = p :: (h.drop p).freed n q := by rw [Heap.freed, hq]
    -- the rest of the run frees cells that are live after `p` is gone
    have hp : p ∉ (h.drop p).freed n q := by
      intro hmem
      have hgone := hall p hmem
      rw [drop_cell, if_pos rfl] at hgone
      cases hgone
    rw [hfreed]
    refine ⟨hfresh, List.nodup_cons.mpr ⟨hp, hnd⟩, ?_, ?_⟩
    · intro x hx
      rcases List.mem_cons.mp hx with rfl | hx
      · exact hlive
      · have hx' := hall x hx
        rw [drop_cell] at hx'
        split at hx'
        · cases hx'
        · exact hx'
    · intro x
      rw [hcells x, drop_cell]
      by_cases hxp : x = p
      · simp [hxp]
      · simp [hxp]

/-- The addresses in `freed` were freed, each once, and are dead for good. -/
structure Released (h : Heap α) (freed : List Nat) : Prop where
  once : freed.Nodup
  dead : ∀ p ∈ freed, p < h.fresh ∧ h.cell p = none

theorem released_nil (h : Heap α) : Released h [] := ⟨List.nodup_nil, by simp⟩

section Released

variable {h h' : Heap α} {freed : List Nat}

theorem Released.ages (hrel : Released h freed) (hages : Ages h h') : Released h' freed := by
  refine ⟨hrel.once, fun p hp => ?_⟩
  obtain ⟨hborn, hdead⟩ := hrel.dead p hp
  exact ⟨Nat.lt_of_lt_of_le hborn hages.born, hages.dead p hborn hdead⟩

/-- A run of frees adds what it frees. -/
theorem Released.freeRun (hrel : Released h freed) {n p : Nat}
    (hrun : h.freeRun n p = some h') : Released h' (freed ++ h.freed n p) := by
  obtain ⟨hfresh, hnd, hlive, hcells⟩ := freeRun_freed hrun
  refine ⟨List.nodup_append'.mpr ⟨hrel.once, hnd, ?_⟩, ?_⟩
  · intro x hx hx'
    have hx'' := hlive x hx'
    rw [(hrel.dead x hx).2] at hx''
    cases hx''
  · intro x hx
    rw [hfresh, hcells x]
    rcases List.mem_append.mp hx with hx | hx
    · obtain ⟨hborn, hdead⟩ := hrel.dead x hx
      refine ⟨hborn, ?_⟩
      split
      · rfl
      · exact hdead
    · exact ⟨lt_fresh_of_live (hlive x hx), if_pos hx⟩

/-- Nothing that a head reaches has been freed. -/
theorem Circular.notMem_freed {a : Nat} (hc : Circular h a) (hrel : Released h freed) {p : Nat}
    (hp : Reach h a p) : p ∉ freed := by
  intro hmem
  have hlive := hc.live p hp
  rw [(hrel.dead p hmem).2] at hlive
  cases hlive

end Released

end RingHeap
