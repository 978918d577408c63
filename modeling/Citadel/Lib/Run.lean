/-
Citadel.Lib.Run — runs of a partial step function over a list of events.

A run is `evs.foldlM step s`; `none` is a step that does not return. The
rules: a run can be cut anywhere, what every step preserves holds at the
end of every run, and the same with a condition on the state each event
meets (`Along`).
-/
import Mathlib.Data.List.Basic

namespace Run

variable {σ ε : Type} {step : σ → ε → Option σ}

theorem cons_some {s s' : σ} {e : ε} {evs : List ε} (h : (e :: evs).foldlM step s = some s') :
    ∃ s₁, step s e = some s₁ ∧ evs.foldlM step s₁ = some s' := by
  rw [List.foldlM_cons] at h
  exact Option.bind_eq_some_iff.mp h

theorem append_some {s s' : σ} {pre post : List ε}
    (h : (pre ++ post).foldlM step s = some s') :
    ∃ s₁, pre.foldlM step s = some s₁ ∧ post.foldlM step s₁ = some s' := by
  rw [List.foldlM_append] at h
  exact Option.bind_eq_some_iff.mp h

theorem concat_some {s s' : σ} {evs : List ε} {e : ε}
    (h : (evs ++ [e]).foldlM step s = some s') :
    ∃ s₁, evs.foldlM step s = some s₁ ∧ step s₁ e = some s' := by
  obtain ⟨s₁, hs₁, hlast⟩ := append_some h
  exact ⟨s₁, hs₁, by simpa using hlast⟩

/-- Every event of the run meets a state that satisfies `C`. -/
def Along (step : σ → ε → Option σ) (C : σ → ε → Prop) : σ → List ε → Prop
  | _, [] => True
  | s, e :: evs => C s e ∧ ∀ s', step s e = some s' → Along step C s' evs

theorem Along.of_forall {C : σ → ε → Prop} {Q : ε → Prop} (hQ : ∀ s e, Q e → C s e) {s : σ}
    {evs : List ε} (h : ∀ e ∈ evs, Q e) : Along step C s evs := by
  induction evs generalizing s with
  | nil => trivial
  | cons e evs ih =>
    exact ⟨hQ s e (h e List.mem_cons_self), fun _ _ => ih fun d hd =>
      h d (List.mem_cons_of_mem e hd)⟩

theorem Along.and {C D : σ → ε → Prop} {s : σ} {evs : List ε} (hC : Along step C s evs)
    (hD : Along step D s evs) : Along step (fun s e => C s e ∧ D s e) s evs := by
  induction evs generalizing s with
  | nil => trivial
  | cons e evs ih =>
    exact ⟨⟨hC.1, hD.1⟩, fun s' hs' => ih (hC.2 s' hs') (hD.2 s' hs')⟩

/-- `Along`, said of every place a run can be cut at. -/
theorem Along.iff_cut {C : σ → ε → Prop} {s : σ} {evs : List ε} :
    Along step C s evs ↔
      ∀ pre e post s₁, evs = pre ++ e :: post → pre.foldlM step s = some s₁ → C s₁ e := by
  induction evs generalizing s with
  | nil => simp [Along]
  | cons d evs ih =>
    constructor
    · rintro ⟨hC, hrest⟩ pre e post s₁ hevs hrun
      cases pre with
      | nil =>
        cases hevs
        cases hrun
        exact hC
      | cons d' pre =>
        cases hevs
        obtain ⟨s', hs', hrun⟩ := cons_some hrun
        exact ih.mp (hrest s' hs') pre e post s₁ rfl hrun
    · intro h
      refine ⟨h [] d evs s rfl rfl, fun s' hs' => ih.mpr fun pre e post s₁ hevs hrun => ?_⟩
      refine h (d :: pre) e post s₁ (by rw [hevs]; rfl) ?_
      rw [List.foldlM_cons, hs']
      exact hrun

/-- What steps from states that satisfy `C` preserve holds at the end of a
run along `C`. -/
theorem Along.invariant {C : σ → ε → Prop} {P : σ → Prop}
    (hstep : ∀ s s' e, P s → C s e → step s e = some s' → P s') {s s' : σ} {evs : List ε}
    (hC : Along step C s evs) (hs : P s) (h : evs.foldlM step s = some s') : P s' := by
  induction evs generalizing s with
  | nil => cases h; exact hs
  | cons e evs ih =>
    obtain ⟨s₁, he, hrest⟩ := cons_some h
    exact ih (hC.2 s₁ he) (hstep s s₁ e hs hC.1 he) hrest

theorem invariant {P : σ → Prop} {Q : ε → Prop}
    (hstep : ∀ s s' e, P s → Q e → step s e = some s' → P s') {s s' : σ} {evs : List ε}
    (hs : P s) (hall : ∀ e ∈ evs, Q e) (h : evs.foldlM step s = some s') : P s' :=
  Along.invariant (C := fun _ e => Q e) hstep (Along.of_forall (fun _ _ hq => hq) hall) hs h

theorem Along.append_iff {C : σ → ε → Prop} {s : σ} {pre post : List ε} :
    Along step C s (pre ++ post) ↔
      Along step C s pre ∧ ∀ s₁, pre.foldlM step s = some s₁ → Along step C s₁ post := by
  induction pre generalizing s with
  | nil => simp [Along]
  | cons e pre ih =>
    simp only [List.cons_append, Along, ih, List.foldlM_cons]
    constructor
    · rintro ⟨hC, hrest⟩
      refine ⟨⟨hC, fun s' hs' => (hrest s' hs').1⟩, fun s₁ hs₁ => ?_⟩
      obtain ⟨s', hs', hpre⟩ := Option.bind_eq_some_iff.mp hs₁
      exact (hrest s' hs').2 s₁ hpre
    · rintro ⟨⟨hC, hpre⟩, hpost⟩
      refine ⟨hC, fun s' hs' => ⟨hpre s' hs', fun s₁ hs₁ => hpost s₁ ?_⟩⟩
      rw [hs']
      exact hs₁

/-- Two conditions that agree where the invariant holds. -/
theorem Along.congr {C D : σ → ε → Prop} {I : σ → Prop}
    (hinv : ∀ s s' e, I s → step s e = some s' → I s')
    (hiff : ∀ s e, I s → (C s e ↔ D s e)) {s : σ} {evs : List ε} (hI : I s) :
    Along step C s evs ↔ Along step D s evs := by
  induction evs generalizing s with
  | nil => exact Iff.rfl
  | cons e evs ih =>
    exact and_congr (hiff s e hI) (forall₂_congr fun s' hs' => ih (hinv s s' e hI hs'))

/-- Where each step keeps a state good exactly if it meets `C`, and a bad
state stays bad, a run ends in a good state exactly if it is along `C`. -/
theorem Along.iff_of_step {C : σ → ε → Prop} {I G : σ → Prop}
    (hinv : ∀ s s' e, I s → C s e → step s e = some s' → I s')
    (hgood : ∀ s s' e, I s → G s → step s e = some s' → (G s' ↔ C s e))
    (hbad : ∀ s s' e, step s e = some s' → G s' → G s) {s s' : σ} {evs : List ε} (hI : I s)
    (hG : G s) (h : evs.foldlM step s = some s') : G s' ↔ Along step C s evs := by
  have hback : ∀ {s s' : σ} {evs : List ε}, evs.foldlM step s = some s' → G s' → G s := by
    intro s s' evs hrun hG'
    induction evs generalizing s with
    | nil => cases hrun; exact hG'
    | cons e evs ih =>
      obtain ⟨s₁, he, hrest⟩ := cons_some hrun
      exact hbad s s₁ e he (ih hrest)
  induction evs generalizing s with
  | nil => cases h; exact ⟨fun _ => trivial, fun _ => hG⟩
  | cons e evs ih =>
    obtain ⟨s₁, he, hrest⟩ := cons_some h
    constructor
    · intro hG'
      have hC := (hgood s s₁ e hI hG he).mp (hback hrest hG')
      refine ⟨hC, fun s₂ hs₂ => ?_⟩
      obtain rfl : s₁ = s₂ := Option.some.inj (he.symm.trans hs₂)
      exact (ih (hinv s s₁ e hI hC he) ((hgood s s₁ e hI hG he).mpr hC) hrest).mp hG'
    · rintro ⟨hC, hrest'⟩
      exact (ih (hinv s s₁ e hI hC he) ((hgood s s₁ e hI hG he).mpr hC) hrest).mpr (hrest' s₁ he)

end Run
