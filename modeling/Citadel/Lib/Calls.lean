/-
Citadel.Lib.Calls — computations that call out.

A computation is finished, or makes a call `c` and goes on with the answer,
of type `R c`. It is data, so what it calls can be talked about without
saying what the calls do, only which answers they can give (`gives`):

* `Reaches gives x hist c`: after the calls and answers `hist` the call `c`
  is made;
* `Holds gives P x Q hist`: whatever the answers, every call satisfies `P`
  and the end satisfies `Q`; it goes through `bind` like a weakest
  precondition (`holds_bind`).

A handler carries calls out on a state and may fault (`run`). `Makes h x s
hist c` says that it is asked for `c` on the way. Where its faults do not
depend on the answers, they can be told step by step (`Faults.bind`).
-/
import Mathlib.Data.List.Basic

/-- A computation that makes calls of type `C`. -/
inductive Calls (C : Type) (R : C → Type) (α : Type) where
  | done (a : α)
  | call (c : C) (k : R c → Calls C R α)

namespace Calls

variable {C : Type} {R : C → Type} {α β σ : Type}

protected def bind : Calls C R α → (α → Calls C R β) → Calls C R β
  | .done a, f => f a
  | .call c k, f => .call c fun r => (k r).bind f

instance : Monad (Calls C R) where
  pure := .done
  bind := Calls.bind

/-- Make one call. -/
def ask (c : C) : Calls C R (R c) := .call c .done

/-- Calls with their answers, the oldest first. -/
abbrev History (C : Type) (R : C → Type) : Type := List (Σ c : C, R c)

/-! ## What is called -/

/-- After the calls and answers `hist` the computation makes the call. -/
inductive Reaches (gives : (c : C) → R c → Prop) : Calls C R α → History C R → C → Prop
  | here (c : C) (k : R c → Calls C R α) : Reaches gives (.call c k) [] c
  | there (c : C) (k : R c → Calls C R α) (r : R c) {hist : History C R} {c' : C} :
      gives c r → Reaches gives (k r) hist c' → Reaches gives (.call c k) (⟨c, r⟩ :: hist) c'

/-- Whatever the answers, every call satisfies `P` and the end `Q`. -/
def Holds (gives : (c : C) → R c → Prop) (P : History C R → C → Prop) :
    Calls C R α → (History C R → α → Prop) → History C R → Prop
  | .done a, Q, hist => Q hist a
  | .call c k, Q, hist => P hist c ∧ ∀ r, gives c r → Holds gives P (k r) Q (hist ++ [⟨c, r⟩])

variable {gives : (c : C) → R c → Prop} {P : History C R → C → Prop}

@[simp] theorem holds_pure (a : α) (Q : History C R → α → Prop) (hist : History C R) :
    Holds gives P (pure a) Q hist ↔ Q hist a := Iff.rfl

@[simp] theorem holds_ask (c : C) (Q : History C R → R c → Prop) (hist : History C R) :
    Holds gives P (ask c) Q hist ↔ P hist c ∧ ∀ r, gives c r → Q (hist ++ [⟨c, r⟩]) r := Iff.rfl

@[simp] theorem holds_bind (x : Calls C R α) (f : α → Calls C R β)
    (Q : History C R → β → Prop) (hist : History C R) :
    Holds gives P (x >>= f) Q hist ↔
      Holds gives P x (fun hist a => Holds gives P (f a) Q hist) hist := by
  change Holds gives P (x.bind f) Q hist ↔ _
  induction x generalizing hist with
  | done a => rfl
  | call c k ih =>
    simp only [Calls.bind, Holds]
    exact and_congr_right fun _ => forall_congr' fun r => imp_congr_right fun _ => ih r _

theorem Holds.mono {x : Calls C R α} {Q Q' : History C R → α → Prop} {hist : History C R}
    (hx : Holds gives P x Q hist) (hq : ∀ hist a, Q hist a → Q' hist a) :
    Holds gives P x Q' hist := by
  induction x generalizing hist with
  | done a => exact hq _ _ hx
  | call c k ih => exact ⟨hx.1, fun r hr => ih r (hx.2 r hr)⟩

/-- Computations all of whose calls satisfy `P` can follow each other. -/
theorem Holds.seq {x : Calls C R α} {f : α → Calls C R β} {hist : History C R}
    (hx : Holds gives P x (fun _ _ => True) hist)
    (hf : ∀ a hist, Holds gives P (f a) (fun _ _ => True) hist) :
    Holds gives P (x >>= f) (fun _ _ => True) hist :=
  (holds_bind x f _ hist).mpr (hx.mono fun hist a _ => hf a hist)

theorem holds_iff_reaches (x : Calls C R α) (hist : History C R) :
    Holds gives P x (fun _ _ => True) hist ↔
      ∀ more c, Reaches gives x more c → P (hist ++ more) c := by
  induction x generalizing hist with
  | done a =>
    refine iff_of_true trivial ?_
    intro more c hreach
    cases hreach
  | call c k ih =>
    constructor
    · rintro ⟨hc, hk⟩ more c' hreach
      cases hreach with
      | here => simpa using hc
      | there _ _ r hr hreach =>
        have hrest := (ih r _).mp (hk r hr) _ _ hreach
        simpa using hrest
    · intro h
      refine ⟨by simpa using h [] c (.here c k), fun r hr => (ih r _).mpr ?_⟩
      intro more c' hreach
      have hlater := h _ _ (.there c k r hr hreach)
      simpa using hlater

/-! ## Handlers -/

/-- Carry the calls out; `none` is a fault. -/
def run (h : (c : C) → σ → Option (σ × R c)) : Calls C R α → σ → Option (σ × α)
  | .done a, s => some (s, a)
  | .call c k, s => (h c s).bind fun out => run h (k out.2) out.1

/-- Carried out by the handler, the computation makes the call after the
calls and answers `hist`. -/
inductive Makes (h : (c : C) → σ → Option (σ × R c)) :
    Calls C R α → σ → History C R → C → Prop
  | here (c : C) (k : R c → Calls C R α) (s : σ) : Makes h (.call c k) s [] c
  | there (c : C) (k : R c → Calls C R α) {s s' : σ} {r : R c} {hist : History C R} {c' : C} :
      h c s = some (s', r) → Makes h (k r) s' hist c' → Makes h (.call c k) s (⟨c, r⟩ :: hist) c'

variable {h : (c : C) → σ → Option (σ × R c)}

@[simp] theorem run_pure (a : α) (s : σ) : run h (pure a) s = some (s, a) := rfl

@[simp] theorem run_ask (c : C) (s : σ) : run h (ask c) s = h c s := by
  change (h c s).bind (fun out => some (out.1, out.2)) = h c s
  exact Option.bind_fun_some _

@[simp] theorem run_bind (x : Calls C R α) (f : α → Calls C R β) (s : σ) :
    run h (x >>= f) s = (run h x s).bind fun out => run h (f out.2) out.1 := by
  change run h (x.bind f) s = _
  induction x generalizing s with
  | done a => rfl
  | call c k ih =>
    simp only [Calls.bind, run, ih, Option.bind_assoc]

/-- What a handler is asked for, the computation can reach. -/
theorem Makes.reaches (hgives : ∀ c s out, h c s = some out → gives c out.2)
    {x : Calls C R α} {s : σ} {hist : History C R} {c : C} (hmakes : Makes h x s hist c) :
    Reaches gives x hist c := by
  induction hmakes with
  | here c k s => exact .here c k
  | there c k hr _ ih => exact .there c k _ (hgives c _ _ hr) ih

/-- What calls that satisfy `P` preserve, the computation preserves. -/
theorem Holds.invariant {I : σ → Prop} (hgives : ∀ c s out, h c s = some out → gives c out.2)
    (hstep : ∀ hist c s out, P hist c → I s → h c s = some out → I out.1)
    {x : Calls C R α} {Q : History C R → α → Prop} {hist : History C R}
    (hx : Holds gives P x Q hist) {s : σ} {out : σ × α} (hs : I s)
    (hrun : run h x s = some out) : I out.1 := by
  induction x generalizing hist s with
  | done a =>
    cases hrun
    exact hs
  | call c k ih =>
    obtain ⟨mid, hmid, hrest⟩ := Option.bind_eq_some_iff.mp hrun
    exact ih mid.2 (hx.2 mid.2 (hgives c s mid hmid)) (hstep hist c s mid hx.1 hs hmid) hrest

/-- A relation that every call made on the way respects holds between the
first state and the last. -/
theorem run_rel {T : σ → σ → Prop} (hrefl : ∀ s, T s s)
    (htrans : ∀ s₁ s₂ s₃, T s₁ s₂ → T s₂ s₃ → T s₁ s₃) {x : Calls C R α} {s : σ}
    {out : σ × α}
    (hcall : ∀ hist c s₁ out₁, Makes h x s hist c → h c s₁ = some out₁ → T s₁ out₁.1)
    (hrun : run h x s = some out) : T s out.1 := by
  induction x generalizing s with
  | done a =>
    cases hrun
    exact hrefl s
  | call c k ih =>
    obtain ⟨mid, hmid, hrest⟩ := Option.bind_eq_some_iff.mp hrun
    refine htrans _ _ _ (hcall [] c s mid (.here c k s) hmid) (ih mid.2 ?_ hrest)
    intro hist c' s₁ out₁ hmakes hout
    exact hcall _ c' s₁ out₁ (.there c k hmid hmakes) hout

/-- The answer the handler gives in every state. -/
def AlwaysGives (h : (c : C) → σ → Option (σ × R c)) (c : C) (r : R c) : Prop :=
  ∀ s, ∃ s', h c s = some (s', r)

theorem Reaches.makes {x : Calls C R α} {hist : History C R} {c : C}
    (hreach : Reaches (AlwaysGives h) x hist c) (s : σ) :
    Makes h x s hist c := by
  induction hreach generalizing s with
  | here c k => exact .here c k s
  | there c k r hr _ ih =>
    obtain ⟨s', hs'⟩ := hr s
    exact .there c k hs' (ih s')

/-- The computation faults exactly if `p`, whatever the state. -/
def Faults (h : (c : C) → σ → Option (σ × R c)) (x : Calls C R α) (p : Prop) : Prop :=
  ∀ s, run h x s = none ↔ p

theorem faults_pure (a : α) : Faults h (pure a) False := by
  intro s
  simp

theorem Faults.bind {x : Calls C R α} {f : α → Calls C R β} {p q : Prop} (hx : Faults h x p)
    (hf : ∀ a, Faults h (f a) q) : Faults h (x >>= f) (p ∨ q) := by
  intro s
  rw [run_bind]
  cases hs : run h x s with
  | none => exact iff_of_true rfl (.inl ((hx s).mp hs))
  | some out =>
    have hp : ¬ p := by
      rw [← hx s, hs]
      simp
    rw [Option.bind_some, hf out.2 out.1]
    exact ⟨.inr, fun h => h.resolve_left hp⟩

end Calls
