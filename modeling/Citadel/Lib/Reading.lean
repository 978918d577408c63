/-
Citadel.Lib.Reading — reading an open file in pieces.

A handler is called with the file position and answers with a result and
the bytes it copied out, by which the position advances. The reader calls
until a result is 0, and has the concatenation of the pieces.

What it has is `w` exactly if each piece is what `w` has at the position it
was read from and the 0 came at the end of `w` (`out_eq_iff`).
-/
import Citadel.Lib.Run

namespace Reading

variable {σ ρ α : Type}

/-- What a call of the handler returns and copies out. -/
structure Reply (α : Type) where
  result : Int
  copied : List α
  deriving DecidableEq

/-- A reader: the position of its file, what it has, and whether a result
was 0. -/
structure Reader (α : Type) where
  pos : Nat
  out : List α
  ended : Bool
  deriving DecidableEq

/-- A file that was just opened. -/
def Reader.start : Reader α := ⟨0, [], false⟩

def Reader.take (r : Reader α) (reply : Reply α) : Reader α :=
  ⟨r.pos + reply.copied.length, r.out ++ reply.copied, reply.result == 0⟩

/-- One call, of a reader that has not ended; `none` is a fault. -/
def serve (read : σ → Nat → ρ → Option (σ × Reply α)) (t : σ × Reader α) (call : ρ) :
    Option (σ × Reader α) :=
  if t.2.ended then none
  else (read t.1 t.2.pos call).map fun out => (out.1, t.2.take out.2)

theorem serve_some {read : σ → Nat → ρ → Option (σ × Reply α)} {t t' : σ × Reader α} {call : ρ}
    (h : serve read t call = some t') :
    t.2.ended = false ∧ ∃ out, read t.1 t.2.pos call = some out ∧ t' = (out.1, t.2.take out.2) := by
  unfold serve at h
  split at h
  · cases h
  · rename_i hended
    obtain ⟨out, hout, rfl⟩ := Option.map_eq_some_iff.mp h
    exact ⟨Bool.eq_false_iff.mpr hended, out, hout, rfl⟩

/-! ## Pieces of `w` -/

/-- So far the reader has the front of `w`, and all of it if it has ended. -/
structure Reader.Gives (w : List α) (r : Reader α) : Prop where
  pos : r.pos = r.out.length
  out : r.out = w.take r.pos
  ended : r.ended = true → r.pos = w.length

/-- The piece is what `w` has at `pos`, and 0 is the end of `w`. -/
structure Reply.Fits (w : List α) (pos : Nat) (reply : Reply α) : Prop where
  copied : reply.copied = (w.drop pos).take reply.copied.length
  ended : reply.result = 0 → pos + reply.copied.length = w.length

theorem start_gives (w : List α) : Reader.start.Gives w := ⟨rfl, rfl, nofun⟩

theorem Reader.Gives.take_iff {w : List α} {r : Reader α} (h : r.Gives w) (reply : Reply α) :
    (r.take reply).Gives w ↔ reply.Fits w r.pos := by
  constructor
  · rintro ⟨-, hout, hended⟩
    constructor
    · change r.out ++ reply.copied = w.take (r.pos + reply.copied.length) at hout
      rw [List.take_add, h.out] at hout
      exact List.append_cancel_left hout
    · intro hzero
      exact hended (beq_iff_eq.mpr hzero)
  · intro hfits
    refine ⟨?_, ?_, fun hzero => hfits.ended (beq_iff_eq.mp hzero)⟩
    · rw [Reader.take, List.length_append, h.pos]
    · change r.out ++ reply.copied = w.take (r.pos + reply.copied.length)
      rw [List.take_add, ← h.out, ← hfits.copied]

/-- What was wrong stays wrong. -/
theorem Reader.Gives.of_take {w : List α} {r : Reader α} {reply : Reply α}
    (hended : r.ended = false) (h : (r.take reply).Gives w) : r.Gives w := by
  have hpos : r.pos = r.out.length := by
    have hlen : r.pos + reply.copied.length = (r.out ++ reply.copied).length := h.pos
    rw [List.length_append] at hlen
    omega
  have hout : r.out ++ reply.copied = w.take (r.pos + reply.copied.length) := h.out
  refine ⟨hpos, ?_, fun h' => by rw [hended] at h'; cases h'⟩
  have hfront := congrArg (List.take r.pos) hout
  rw [hpos, List.take_left, List.take_take, Nat.min_eq_left (Nat.le_add_right _ _)] at hfront
  rw [hpos]
  exact hfront

/-! ## Whole readings -/

section Whole

variable {read : σ → Nat → ρ → Option (σ × Reply α)}

/-- The position is how much the reader has. -/
theorem run_pos {t t' : σ × Reader α} {calls : List ρ} (hpos : t.2.pos = t.2.out.length)
    (h : calls.foldlM (serve read) t = some t') : t'.2.pos = t'.2.out.length := by
  refine Run.invariant (P := fun t : σ × Reader α => t.2.pos = t.2.out.length)
    (Q := fun _ : ρ => True) ?_ hpos (fun _ _ => trivial) h
  intro t t' call hpos _ hstep
  obtain ⟨-, out, -, rfl⟩ := serve_some hstep
  rw [Reader.take, List.length_append, hpos]

/-- Each reply to the calls fits `w`. -/
def FitsAt (read : σ → Nat → ρ → Option (σ × Reply α)) (w : List α) (t : σ × Reader α)
    (call : ρ) : Prop :=
  ∀ out, read t.1 t.2.pos call = some out → out.2.Fits w t.2.pos

/-- A reader that has ended has `w` exactly if every piece fits. -/
theorem out_eq_iff {s : σ} {t : σ × Reader α} {calls : List ρ} (w : List α)
    (h : calls.foldlM (serve read) (s, .start) = some t) (hended : t.2.ended = true) :
    t.2.out = w ↔ Run.Along (serve read) (FitsAt read w) (s, .start) calls := by
  have hgives : t.2.out = w ↔ t.2.Gives w := by
    constructor
    · intro hout
      have hpos := run_pos (t := (s, Reader.start)) rfl h
      have hall : t.2.pos = w.length := hpos.trans (congrArg List.length hout)
      exact ⟨hpos, by rw [hall, List.take_length, hout], fun _ => hall⟩
    · intro hgives
      rw [hgives.out, hgives.ended hended, List.take_length]
  rw [hgives]
  refine Run.Along.iff_of_step (I := fun _ => True) (G := fun t : σ × Reader α => t.2.Gives w)
    (fun _ _ _ _ _ _ => trivial) ?_ ?_ trivial (start_gives w) h
  · intro t t' call _ hgives hstep
    obtain ⟨-, out, hout, rfl⟩ := serve_some hstep
    rw [hgives.take_iff]
    constructor
    · intro hfits out' hout'
      obtain rfl : out = out' := Option.some.inj (hout.symm.trans hout')
      exact hfits
    · intro hfits
      exact hfits out hout
  · intro t t' call hstep hgives
    obtain ⟨hopen, out, -, rfl⟩ := serve_some hstep
    exact hgives.of_take hopen

/-- If no call copies past the length of `w`, no position is behind it. -/
theorem serve_pos_le {len : Nat}
    (hread : ∀ s pos call out, pos ≤ len → read s pos call = some out →
      pos + out.2.copied.length ≤ len) {t t' : σ × Reader α} {call : ρ} (hpos : t.2.pos ≤ len)
    (h : serve read t call = some t') : t'.2.pos ≤ len := by
  obtain ⟨-, out, hout, rfl⟩ := serve_some h
  exact hread t.1 t.2.pos call out hpos hout

/-- A handler that copies at the start of the file only: the reader has
nothing, or one piece. -/
theorem out_single {P : List α → Prop}
    (hread : ∀ s pos call out, read s pos call = some out →
      out.2.copied = [] ∨ pos = 0 ∧ P out.2.copied) {s : σ} {t : σ × Reader α} {calls : List ρ}
    (h : calls.foldlM (serve read) (s, .start) = some t) : t.2.out = [] ∨ P t.2.out := by
  refine (Run.invariant
    (P := fun t : σ × Reader α => t.2.pos = t.2.out.length ∧ (t.2.out = [] ∨ P t.2.out))
    (Q := fun _ : ρ => True) ?_ ⟨rfl, .inl rfl⟩ (fun _ _ => trivial) h).2
  rintro t t' call ⟨hpos, hout⟩ _ hstep
  obtain ⟨-, out, hreply, rfl⟩ := serve_some hstep
  refine ⟨by rw [Reader.take, List.length_append, hpos], ?_⟩
  rcases hread t.1 t.2.pos call out hreply with hnone | ⟨hzero, hpiece⟩
  · change t.2.out ++ out.2.copied = [] ∨ P (t.2.out ++ out.2.copied)
    rw [hnone, List.append_nil]
    exact hout
  · have hempty : t.2.out = [] := List.eq_nil_of_length_eq_zero (hpos.symm.trans hzero)
    change _ ∨ P (t.2.out ++ out.2.copied)
    rw [hempty, List.nil_append]
    exact .inr hpiece

end Whole

end Reading
