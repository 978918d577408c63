/-
Citadel.Lib.Origin — where a property of things comes from, over runs of a
partial step function.

Things (`X`) have the property in a state or they do not (`holds`). An event
can give it to a thing outright (`root`), or carry it over from another
thing that has it (`path`). If that is all an event can do, whatever has the
property at the end of a run has it from a chain of such events that starts
at a root, or at something that had it at the beginning
(`Origin.of_run`).
-/
import Mathlib.Data.List.Induction
import Citadel.Lib.Run

namespace Run

variable {σ ε X : Type}

/-- How a thing came by the property over a run from `s₀`. -/
inductive Origin (step : σ → ε → Option σ) (holds : σ → X → Prop) (root : σ → ε → X → Prop)
    (path : σ → ε → X → X → Prop) (s₀ : σ) : List ε → X → Prop
  | start {evs : List ε} {x : X} : holds s₀ x → Origin step holds root path s₀ evs x
  | root {pre post : List ε} {s : σ} {e : ε} {x : X} :
      pre.foldlM step s₀ = some s → root s e x →
      Origin step holds root path s₀ (pre ++ e :: post) x
  | path {pre post : List ε} {s : σ} {e : ε} {x y : X} :
      pre.foldlM step s₀ = some s → path s e y x → Origin step holds root path s₀ pre y →
      Origin step holds root path s₀ (pre ++ e :: post) x

/-- All that an event can do for a thing. -/
def Passes (step : σ → ε → Option σ) (holds : σ → X → Prop) (root : σ → ε → X → Prop)
    (path : σ → ε → X → X → Prop) (s : σ) (e : ε) : Prop :=
  ∀ s' x, step s e = some s' → holds s' x →
    holds s x ∨ root s e x ∨ ∃ y, path s e y x ∧ holds s y

variable {step : σ → ε → Option σ} {holds : σ → X → Prop} {root : σ → ε → X → Prop}
  {path : σ → ε → X → X → Prop}

/-- What happens later does not change an origin. -/
theorem Origin.concat {s₀ : σ} {evs : List ε} {x : X}
    (h : Origin step holds root path s₀ evs x) (e : ε) :
    Origin step holds root path s₀ (evs ++ [e]) x := by
  cases h with
  | start hx => exact .start hx
  | root hrun hroot =>
    rw [List.append_assoc, List.cons_append]
    exact .root hrun hroot
  | path hrun hpath hy =>
    rw [List.append_assoc, List.cons_append]
    exact .path hrun hpath hy

/-- The rule: under an invariant `I`, and a condition `C` on what each event
meets, that make every event pass the property on as it should,
everything that has it has an origin. -/
theorem Origin.of_run {I : σ → Prop} {C : σ → ε → Prop}
    (hinv : ∀ s s' e, I s → C s e → step s e = some s' → I s')
    (hpass : ∀ s e, I s → C s e → Passes step holds root path s e) {s₀ s : σ} {evs : List ε}
    (hI : I s₀) (hC : Along step C s₀ evs) (hrun : evs.foldlM step s₀ = some s) {x : X}
    (hx : holds s x) : Origin step holds root path s₀ evs x := by
  induction evs using List.reverseRecOn generalizing s x with
  | nil =>
    cases hrun
    exact .start hx
  | append_singleton evs e ih =>
    obtain ⟨s₁, hrun₁, hlast⟩ := concat_some hrun
    obtain ⟨hC₁, hCe⟩ := Along.append_iff.mp hC
    have hI₁ : I s₁ := hC₁.invariant hinv hI hrun₁
    rcases hpass s₁ e hI₁ (hCe s₁ hrun₁).1 s x hlast hx with hbefore | hroot | ⟨y, hpath, hy⟩
    · exact (ih hC₁ hrun₁ hbefore).concat e
    · exact .root hrun₁ hroot
    · exact .path hrun₁ hpath (ih hC₁ hrun₁ hy)

end Run
