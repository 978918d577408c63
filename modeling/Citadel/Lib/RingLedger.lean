/-
Citadel.Lib.RingLedger — where every cell of a heap of rings has gone.

`Ledger h ps freed lost` accounts for every address a heap has handed out:
what is live is on a ring of the family `ps` or in `lost`, and never in
both; what is dead was freed. The rules follow the surgery on rings
(`Citadel.Lib.Ring`): relinking moves addresses between rings, a new cell
goes on a ring, and a ring that is cut in three (`Ledger.cut`) has its
front freed and its middle LOST.
-/
import Citadel.Lib.RingSafety

namespace RingHeap

variable {α ι : Type}

/-! ## What a run of frees takes -/

/-- Along a chain, the addresses freed are those of the chain. -/
theorem freed_chain : ∀ (xs : List Nat) (h : Heap α) (p : Nat), xs.Nodup →
    xs.IsChain (fun a b => h.nextOf a = some b) → (∀ x ∈ xs, (h.cell x).isSome) →
    (∀ a ∈ xs.head?, a = p) → h.freed xs.length p = xs
  | [], _, _, _, _, _, _ => rfl
  | [a], h, p, _, _, hlive, hp => by
    obtain rfl : a = p := hp a rfl
    obtain ⟨q, hq⟩ := Option.isSome_iff_exists.mp
      ((isSome_nextOf (h := h)).trans (hlive a List.mem_cons_self))
    simp [Heap.freed, hq]
  | a :: b :: t, h, p, hnd, hchain, hlive, hp => by
    obtain rfl : a = p := hp a rfl
    obtain ⟨hnot, hndt⟩ := List.nodup_cons.mp hnd
    obtain ⟨hnext, hrest⟩ := List.isChain_cons_cons.mp hchain
    have hother : ∀ x ∈ b :: t, (h.drop a).cell x = h.cell x := by
      intro x hx
      have hxa : x ≠ a := fun heq => hnot (heq ▸ hx)
      rw [drop_cell, if_neg hxa]
    have ih := freed_chain (b :: t) (h.drop a) b hndt
      (hrest.imp_of_mem_imp fun x y hx _ hxy => by rwa [Heap.nextOf, hother x hx])
      (fun x hx => by
        rw [hother x hx]
        exact hlive x (List.mem_cons_of_mem a hx))
      (fun _ hb => Option.some.inj hb.symm)
    rw [List.length_cons, Heap.freed, hnext]
    exact congrArg (a :: ·) ih

/-- A front part of a ring, with its forward links as they were. -/
theorem freed_front {h h₁ : Heap α} {a : Nat} {xs ys : List Nat} (hr : IsRing h (xs ++ ys))
    (ha : ∀ b ∈ xs.head?, b = a) (hn : ∀ x ∈ xs, h₁.nextOf x = h.nextOf x) :
    h₁.freed xs.length a = xs := by
  refine freed_chain xs h₁ a (List.nodup_append'.mp hr.nodup).1 ?_ ?_ ha
  · exact (List.isChain_append.mp hr.chain).1.imp_of_mem_imp
      (fun x y hx _ hxy => (hn x hx).trans hxy.1)
  · intro x hx
    rw [← isSome_nextOf, hn x hx, isSome_nextOf]
    exact hr.live (List.mem_append_left _ hx)

/-! ## The ledger -/

/-- Every address handed out is on one ring, lost, or freed. -/
structure Ledger (h : Heap α) (ps : ι → List Nat) (freed lost : List Nat) : Prop where
  dead : ∀ p, 0 < p → p < h.fresh → h.cell p = none → p ∈ freed
  live : ∀ p, (h.cell p).isSome ↔ (∃ i, p ∈ ps i) ∨ p ∈ lost
  apart : ∀ i, (ps i).Disjoint lost
  once : lost.Nodup

theorem ledger_empty : Ledger (Heap.empty : Heap α) (fun _ : ι => []) [] [] where
  dead _ hpos hborn _ := absurd hborn (Nat.not_lt.mpr hpos)
  live p := by simp [Heap.empty]
  apart _ := List.disjoint_nil_left _
  once := List.nodup_nil

section Ledger

variable {h h' : Heap α} {ps : ι → List Nat} {freed lost : List Nat}

/-- Relinking that moves addresses between the rings, and only there. -/
theorem Ledger.regroup (hl : Ledger h ps freed lost) (hrel : Relinked h h') {qs : ι → List Nat}
    (hqs : ∀ p, (∃ i, p ∈ qs i) ↔ ∃ i, p ∈ ps i) : Ledger h' qs freed lost where
  dead p hpos hborn hdead := by
    refine hl.dead p hpos (hrel.fresh ▸ hborn) ?_
    rw [← Option.not_isSome_iff_eq_none, ← hrel.live, hdead]
    exact Bool.false_ne_true
  live p := by rw [hrel.live, hl.live, hqs]
  apart i p hp hlost := by
    obtain ⟨j, hj⟩ := (hqs p).mp ⟨i, hp⟩
    exact hl.apart j hj hlost
  once := hl.once

variable [DecidableEq ι] {head : ι → Option Nat}

/-- Who is on a ring after the ring of `i` has become `l`. -/
theorem exists_mem_update {i : ι} {l : List Nat} {p : Nat} :
    (∃ j, p ∈ Function.update ps i l j) ↔ p ∈ l ∨ ∃ j, j ≠ i ∧ p ∈ ps j := by
  constructor
  · rintro ⟨j, hj⟩
    by_cases hji : j = i
    · subst hji
      rw [Function.update_self] at hj
      exact .inl hj
    · rw [Function.update_of_ne hji] at hj
      exact .inr ⟨j, hji, hj⟩
  · rintro (hp | ⟨j, hji, hj⟩)
    · exact ⟨i, by rwa [Function.update_self]⟩
    · exact ⟨j, by rwa [Function.update_of_ne hji]⟩

/-- The same before: on the ring of `i` or on another. -/
theorem exists_mem_split (i : ι) {p : Nat} :
    (∃ j, p ∈ ps j) ↔ p ∈ ps i ∨ ∃ j, j ≠ i ∧ p ∈ ps j := by
  rw [← exists_mem_update, Function.update_eq_self]

/-- The ring of `j` goes behind the ring of `i`. -/
theorem Ledger.move (hl : Ledger h ps freed lost) (hrel : Relinked h h') {i j : ι} (hij : i ≠ j) :
    Ledger h' (Function.update (Function.update ps i (ps i ++ ps j)) j []) freed lost := by
  refine hl.regroup hrel fun p => ?_
  rw [exists_mem_update]
  constructor
  · rintro (hp | ⟨m, -, hm⟩)
    · cases hp
    · rcases exists_mem_update.mp ⟨m, hm⟩ with hp | ⟨m, -, hm⟩
      · rcases List.mem_append.mp hp with hp | hp
        · exact ⟨i, hp⟩
        · exact ⟨j, hp⟩
      · exact ⟨m, hm⟩
  · rintro ⟨m, hm⟩
    by_cases hmij : m = i ∨ m = j
    · refine .inr ⟨i, hij, ?_⟩
      rw [Function.update_self]
      rcases hmij with rfl | rfl
      · exact List.mem_append_left _ hm
      · exact List.mem_append_right _ hm
    · obtain ⟨hmi, hmj⟩ := not_or.mp hmij
      exact .inr ⟨m, hmj, by rwa [Function.update_of_ne hmi]⟩

/-- A new cell goes on the ring of `i`. -/
theorem Ledger.append (hl : Ledger h ps freed lost) (i : ι) {c : Cell α}
    (hrel : Relinked (h.alloc c) h') :
    Ledger h' (Function.update ps i (ps i ++ [h.fresh])) freed lost := by
  have hmem : ∀ p, (∃ j, p ∈ Function.update ps i (ps i ++ [h.fresh]) j) ↔
      p = h.fresh ∨ ∃ j, p ∈ ps j := by
    intro p
    rw [exists_mem_update, exists_mem_split i, List.mem_append, List.mem_singleton,
      or_comm (a := p ∈ ps i), or_assoc]
  -- no address from `fresh` on is live, so none is lost
  have hnew : h.fresh ∉ lost := by
    intro hlost
    have hlive := (hl.live h.fresh).mpr (.inr hlost)
    rw [h.unborn _ (Nat.le_refl _)] at hlive
    cases hlive
  have halloc : Ledger (h.alloc c) (Function.update ps i (ps i ++ [h.fresh])) freed lost := by
    refine ⟨fun p hpos hborn hdead => ?_, fun p => ?_, fun j p hp hlost => ?_, hl.once⟩
    · rw [alloc_cell] at hdead
      split at hdead
      · cases hdead
      · next hne =>
        exact hl.dead p hpos (Nat.lt_of_le_of_ne (Nat.lt_succ_iff.mp hborn) hne) hdead
    · rw [hmem, alloc_cell, or_assoc, ← hl.live]
      split
      · next heq => simp [heq]
      · next hne => simp [hne]
    · rcases (hmem p).mp ⟨j, hp⟩ with rfl | ⟨j, hj⟩
      · exact hnew hlost
      · exact hl.apart j hj hlost
  exact halloc.regroup hrel fun _ => Iff.rfl

/-- The ring of `i` is cut in three: the front is freed, the end is kept,
and what stands between them is lost. -/
theorem Ledger.cut (hl : Ledger h ps freed lost) (hr : Rings h head ps) {i : ι}
    {front rest kept : List Nat} (hsplit : ps i = front ++ (rest ++ kept))
    (hfresh : h'.fresh = h.fresh)
    (hcells : ∀ x, (h'.cell x).isSome ↔ (h.cell x).isSome ∧ x ∉ front) :
    Ledger h' (Function.update ps i kept) (freed ++ front) (lost ++ rest) := by
  obtain ⟨-, hnd, hfront⟩ := List.nodup_append'.mp (hsplit ▸ (hr.ring i).nodup)
  obtain ⟨hrest, -, hkept⟩ := List.nodup_append'.mp hnd
  have hmem : ∀ p, p ∈ ps i ↔ p ∈ front ∨ p ∈ rest ∨ p ∈ kept := by
    intro p
    rw [hsplit, List.mem_append, List.mem_append]
  have hother : ∀ p, (∃ j, j ≠ i ∧ p ∈ ps j) → p ∉ ps i :=
    fun p ⟨j, hji, hj⟩ hp => hr.disjoint j i hji hj hp
  refine ⟨fun p hpos hborn hdead => ?_, fun p => ?_, fun j p hp hlost => ?_, ?_⟩
  · rw [List.mem_append]
    by_cases hpf : p ∈ front
    · exact .inr hpf
    · refine .inl (hl.dead p hpos (hfresh ▸ hborn) ?_)
      refine Option.not_isSome_iff_eq_none.mp fun hlive => ?_
      have hlive' := (hcells p).mpr ⟨hlive, hpf⟩
      rw [hdead] at hlive'
      cases hlive'
  · rw [hcells, hl.live, exists_mem_update, exists_mem_split i, List.mem_append]
    constructor
    · rintro ⟨(hp | helse) | hlost, hpf⟩
      · rcases (hmem p).mp hp with hp | hp | hp
        · exact absurd hp hpf
        · exact .inr (.inr hp)
        · exact .inl (.inl hp)
      · exact .inl (.inr helse)
      · exact .inr (.inl hlost)
    · -- what is kept, elsewhere, lost or stranded is not on the front
      rintro ((hp | helse) | hlost | hp)
      · exact ⟨.inl (.inl ((hmem p).mpr (.inr (.inr hp)))),
          fun hpf => hfront hpf (List.mem_append_right _ hp)⟩
      · exact ⟨.inl (.inr helse), fun hpf => hother p helse ((hmem p).mpr (.inl hpf))⟩
      · exact ⟨.inr hlost, fun hpf => hl.apart i ((hmem p).mpr (.inl hpf)) hlost⟩
      · exact ⟨.inl (.inl ((hmem p).mpr (.inr (.inl hp)))),
          fun hpf => hfront hpf (List.mem_append_left _ hp)⟩
  · rcases exists_mem_update.mp ⟨j, hp⟩ with hp | hp
    · rcases List.mem_append.mp hlost with hlost | hpr
      · exact hl.apart i ((hmem p).mpr (.inr (.inr hp))) hlost
      · exact hkept hpr hp
    · rcases List.mem_append.mp hlost with hlost | hpr
      · obtain ⟨j, -, hj⟩ := hp
        exact hl.apart j hj hlost
      · exact hother p hp ((hmem p).mpr (.inr (.inl hpr)))
  · exact List.nodup_append'.mpr ⟨hl.once, hrest,
      fun p hlost hpr => hl.apart i ((hmem p).mpr (.inr (.inl hpr))) hlost⟩

end Ledger

/-! ## Seen from the heads -/

section Heads

variable {h : Heap α} {head : ι → Option Nat} {ps : ι → List Nat}

theorem reach_chain {a : Nat} : ∀ (l : List Nat) (b : Nat), Reach h a b →
    (b :: l).IsChain (Link h) → ∀ p ∈ b :: l, Reach h a p
  | [], b, hb, _, p, hp => by
    rw [List.mem_singleton.mp hp]
    exact hb
  | c :: l, b, hb, hchain, p, hp => by
    obtain ⟨hlink, hchain⟩ := List.isChain_cons_cons.mp hchain
    rcases List.mem_cons.mp hp with rfl | hp
    · exact hb
    · exact reach_chain l c (hb.next hlink.1) hchain p hp

/-- A ring is what its head reaches. -/
theorem Rings.mem_iff_reach (hr : Rings h head ps) {i : ι} {p : Nat} :
    p ∈ ps i ↔ ∃ a, head i = some a ∧ Reach h a p := by
  constructor
  · intro hp
    cases hps : ps i with
    | nil =>
      rw [hps] at hp
      cases hp
    | cons a t =>
      rw [hps] at hp
      refine ⟨a, by rw [hr.head_eq, hps, List.head?_cons], ?_⟩
      exact reach_chain t a .here (hps ▸ (hr.ring i).chain) p hp
  · rintro ⟨a, ha, hp⟩
    exact hr.mem_of_reach ha hp

end Heads

/-! ## Reading the ledger -/

section Reading

variable {h : Heap α} {ps : ι → List Nat} {freed lost : List Nat}

/-- What was freed is what is dead, of the addresses handed out. -/
theorem Ledger.mem_freed_iff (hl : Ledger h ps freed lost) (hrel : Released h freed) {p : Nat}
    (hpos : 0 < p) (hborn : p < h.fresh) : p ∈ freed ↔ h.cell p = none :=
  ⟨fun hp => (hrel.dead p hp).2, hl.dead p hpos hborn⟩

/-- What is lost is what is live and on no ring. -/
theorem Ledger.mem_lost_iff (hl : Ledger h ps freed lost) {p : Nat} :
    p ∈ lost ↔ (h.cell p).isSome ∧ ¬ ∃ i, p ∈ ps i := by
  rw [hl.live]
  constructor
  · exact fun hlost => ⟨.inr hlost, fun ⟨i, hi⟩ => hl.apart i hi hlost⟩
  · rintro ⟨hi | hlost, hnot⟩
    · exact absurd hi hnot
    · exact hlost

end Reading

end RingHeap
