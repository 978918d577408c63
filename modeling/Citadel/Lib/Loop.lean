/-
Citadel.Lib.Loop — a loop that makes one call to the outside in each turn.

The body takes the outcome of the call and goes on with a new state
(`.inl`) or leaves with a result (`.inr`). `run` is the loop over a finite
sequence of outcomes: `.inl` there means that the outcomes are used up and
the loop waits for one more. Over an infinite sequence the loop `Ends` or
turns forever.
-/
import Mathlib.Data.List.Basic

namespace Loop

variable {σ ω ρ : Type} {body : σ → ω → σ ⊕ ρ}

def run (body : σ → ω → σ ⊕ ρ) (s : σ) : List ω → σ ⊕ ρ
  | [] => .inl s
  | o :: os =>
    match body s o with
    | .inl s' => run body s' os
    | .inr r => .inr r

theorem run_cons_inl {s s' : σ} {o : ω} {os : List ω} (h : body s o = .inl s') :
    run body s (o :: os) = run body s' os := by rw [run, h]

theorem run_cons_inr {s : σ} {r : ρ} {o : ω} {os : List ω} (h : body s o = .inr r) :
    run body s (o :: os) = .inr r := by rw [run, h]

/-- What comes before the end of the loop does not end it. -/
theorem run_append_inl {s s' : σ} {os : List ω} (h : run body s os = .inl s') (post : List ω) :
    run body s (os ++ post) = run body s' post := by
  induction os generalizing s with
  | nil =>
    cases h
    rfl
  | cons o os ih =>
    cases hb : body s o with
    | inl s₁ =>
      rw [run_cons_inl hb] at h
      rw [List.cons_append, run_cons_inl hb]
      exact ih h
    | inr r =>
      rw [run_cons_inr hb] at h
      cases h

/-- A loop that has ended looks at no further outcome. -/
theorem run_append_inr {s : σ} {r : ρ} {os : List ω} (h : run body s os = .inr r)
    (post : List ω) : run body s (os ++ post) = .inr r := by
  induction os generalizing s with
  | nil => cases h
  | cons o os ih =>
    cases hb : body s o with
    | inl s₁ =>
      rw [run_cons_inl hb] at h
      rw [List.cons_append, run_cons_inl hb]
      exact ih h
    | inr r' =>
      rw [run_cons_inr hb] at h
      rw [List.cons_append, run_cons_inr hb]
      exact h

/-- The loop ends with the turn that ends it. -/
theorem run_inr_iff {s : σ} {r : ρ} {os : List ω} :
    run body s os = .inr r ↔ ∃ pre o post s', os = pre ++ o :: post ∧
      run body s pre = .inl s' ∧ body s' o = .inr r := by
  constructor
  · intro h
    induction os generalizing s with
    | nil => cases h
    | cons o os ih =>
      cases hb : body s o with
      | inl s₁ =>
        rw [run_cons_inl hb] at h
        obtain ⟨pre, o', post, s', rfl, hpre, hlast⟩ := ih h
        exact ⟨o :: pre, o', post, s', rfl, by rw [run_cons_inl hb, hpre], hlast⟩
      | inr r' =>
        rw [run_cons_inr hb] at h
        cases h
        exact ⟨[], o, os, s, rfl, rfl, hb⟩
  · rintro ⟨pre, o, post, s', rfl, hpre, hlast⟩
    rw [run_append_inl hpre, run_cons_inr hlast]

/-! ## Infinite sequences -/

/-- The first `k` outcomes. -/
def upTo (f : Nat → ω) (k : Nat) : List ω := (List.range k).map f

theorem upTo_succ (f : Nat → ω) (k : Nat) : upTo f (k + 1) = upTo f k ++ [f k] := by
  simp [upTo, List.range_succ]

theorem mem_upTo {f : Nat → ω} {k : Nat} {o : ω} : o ∈ upTo f k ↔ ∃ i < k, f i = o := by
  simp [upTo]

/-- The loop ends with `r` on an infinite sequence of outcomes. -/
def Ends (body : σ → ω → σ ⊕ ρ) (s : σ) (f : Nat → ω) (r : ρ) : Prop :=
  ∃ k, run body s (upTo f k) = .inr r

/-- What the first outcomes end with, more of them do not change. -/
theorem run_upTo_mono {s : σ} {f : Nat → ω} {r : ρ} {k m : Nat}
    (h : run body s (upTo f k) = .inr r) (hkm : k ≤ m) : run body s (upTo f m) = .inr r := by
  induction hkm with
  | refl => exact h
  | step _ ih =>
    rw [upTo_succ]
    exact run_append_inr ih _

theorem Ends.unique {s : σ} {f : Nat → ω} {r r' : ρ} (h : Ends body s f r)
    (h' : Ends body s f r') : r = r' := by
  obtain ⟨k, hk⟩ := h
  obtain ⟨m, hm⟩ := h'
  have hk' := run_upTo_mono hk (Nat.le_max_left k m)
  have hm' := run_upTo_mono hm (Nat.le_max_right k m)
  rw [hk'] at hm'
  exact Sum.inr.inj hm'

theorem ends_iff {s : σ} {f : Nat → ω} {r : ρ} :
    Ends body s f r ↔ ∃ k s', run body s (upTo f k) = .inl s' ∧ body s' (f k) = .inr r := by
  constructor
  · rintro ⟨k, hk⟩
    induction k with
    | zero => cases hk
    | succ k ih =>
      cases hrun : run body s (upTo f k) with
      | inl s' =>
        rw [upTo_succ, run_append_inl hrun] at hk
        cases hb : body s' (f k) with
        | inl s₁ =>
          rw [run_cons_inl hb] at hk
          cases hk
        | inr r' =>
          rw [run_cons_inr hb] at hk
          cases hk
          exact ⟨k, s', hrun, hb⟩
      | inr r' =>
        have hr := run_append_inr hrun [f k]
        rw [← upTo_succ, hk] at hr
        cases hr
        exact ih hrun
  · rintro ⟨k, s', hrun, hb⟩
    refine ⟨k + 1, ?_⟩
    rw [upTo_succ, run_append_inl hrun, run_cons_inr hb]

/-- A loop whose states are known in closed form: from `G k`, turn `k` goes
on to `G (k + 1)` exactly if `C k`. -/
theorem run_upTo_closed {f : Nat → ω} {G : Nat → σ} {C : Nat → Prop}
    (hgo : ∀ k, (∀ j < k, C j) → C k → body (G k) (f k) = .inl (G (k + 1)))
    (hend : ∀ k, (∀ j < k, C j) → ¬ C k → ∃ r, body (G k) (f k) = .inr r) (k : Nat) {s : σ} :
    run body (G 0) (upTo f k) = .inl s ↔ (∀ j < k, C j) ∧ s = G k := by
  induction k generalizing s with
  | zero => simp [upTo, run, eq_comm]
  | succ k ih =>
    rw [upTo_succ]
    by_cases hall : ∀ j < k, C j
    · rw [run_append_inl (ih.mpr ⟨hall, rfl⟩)]
      by_cases hk : C k
      · have hall' : ∀ j < k + 1, C j := by
          intro j hj
          rcases Nat.lt_succ_iff_lt_or_eq.mp hj with hlt | rfl
          · exact hall j hlt
          · exact hk
        rw [run_cons_inl (hgo k hall hk), run, Sum.inl.injEq, eq_comm]
        exact ⟨fun hs => ⟨hall', hs⟩, fun h => h.2⟩
      · obtain ⟨r, hr⟩ := hend k hall hk
        rw [run_cons_inr hr]
        exact iff_of_false (by simp) fun h => hk (h.1 k (Nat.lt_succ_self k))
    · have hnone : ¬ ∀ j < k + 1, C j := fun h => hall fun j hj => h j (Nat.lt_succ_of_lt hj)
      cases hrun : run body (G 0) (upTo f k) with
      | inl s' => exact absurd (ih.mp hrun).1 hall
      | inr r =>
        rw [run_append_inr hrun]
        exact iff_of_false (by simp) fun h => hnone h.1

theorem ends_closed {f : Nat → ω} {G : Nat → σ} {C : Nat → Prop}
    (hgo : ∀ k, (∀ j < k, C j) → C k → body (G k) (f k) = .inl (G (k + 1)))
    (hend : ∀ k, (∀ j < k, C j) → ¬ C k → ∃ r, body (G k) (f k) = .inr r) {r : ρ} :
    Ends body (G 0) f r ↔ ∃ k, (∀ j < k, C j) ∧ body (G k) (f k) = .inr r := by
  rw [ends_iff]
  constructor
  · rintro ⟨k, s, hrun, hr⟩
    obtain ⟨hall, rfl⟩ := (run_upTo_closed hgo hend k).mp hrun
    exact ⟨k, hall, hr⟩
  · rintro ⟨k, hall, hr⟩
    exact ⟨k, G k, (run_upTo_closed hgo hend k).mpr ⟨hall, rfl⟩, hr⟩

end Loop
