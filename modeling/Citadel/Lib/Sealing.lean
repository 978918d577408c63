/-
Citadel.Lib.Sealing — sealing under one key, as an abstract scheme.

A blob is a header with the lengths, a text that is authenticated (the MAC
text) and one that is also encrypted. What lies behind a blob is not looked
at, so a blob can be unwrapped in a buffer that is larger than it. To
unseal it takes a buffer for each text, and both have to fit.

`plain` is a scheme without secrecy, to evaluate on.
-/
import Mathlib.Algebra.Group.Nat.Defs
import Citadel.Lib.Bytes

open Bytes

/-- Blobs with a header of `overhead` bytes; the first argument of `wrap` is
its randomness, the last two of `unsealInto` are the sizes of the buffers for
the MAC text and the text. `unwrap` says what a blob holds. -/
structure Sealing (overhead : Nat) where
  wrap : List UInt8 → List UInt8 → List UInt8 → List UInt8
  unwrap : List UInt8 → Option (List UInt8 × List UInt8)
  unsealInto : List UInt8 → Nat → Nat → Option (List UInt8)
  /-- What a blob with texts of these lengths takes. -/
  sealedSize : Nat → Nat → Option Nat
  wrap_length : ∀ seed mac text,
    (wrap seed mac text).length = overhead + (mac.length + text.length)
  unwrap_wrap : ∀ seed mac text rest, mac.length + text.length < 2 ^ 32 →
    unwrap (wrap seed mac text ++ rest) = some (mac, text)
  /-- Texts that fit are unsealed, -/
  unsealInto_of_fits : ∀ {data mac text macSize textSize}, unwrap data = some (mac, text) →
    mac.length ≤ macSize → 0 < text.length → text.length ≤ textSize →
      unsealInto data macSize textSize = some text
  /-- and no others. -/
  fits_of_unsealInto : ∀ {data text macSize textSize},
    unsealInto data macSize textSize = some text →
      ∃ mac, unwrap data = some (mac, text) ∧ mac.length ≤ macSize ∧ 0 < text.length ∧
        text.length ≤ textSize
  sealedSize_of_lt : ∀ {mac text}, overhead + (mac + text) < 2 ^ 32 - 1 →
    sealedSize mac text = some (overhead + (mac + text))

namespace Sealing

theorem unsealInto_wrap {overhead : Nat} (S : Sealing overhead) {mac text : List UInt8}
    {macSize textSize : Nat} (hmac : mac.length ≤ macSize) (htext : 0 < text.length)
    (hfits : text.length ≤ textSize) (hlen : mac.length + text.length < 2 ^ 32)
    (seed rest : List UInt8) :
    S.unsealInto (S.wrap seed mac text ++ rest) macSize textSize = some text :=
  S.unsealInto_of_fits (S.unwrap_wrap seed mac text rest hlen) hmac htext hfits

/-- The two lengths, zeros, the two texts. -/
def plainWrap (overhead : Nat) (mac text : List UInt8) : List UInt8 :=
  (le32 (BitVec.ofNat 32 mac.length)).1 ++ ((le32 (BitVec.ofNat 32 text.length)).1 ++
    ((zeros (overhead - 8)).1 ++ (mac ++ text)))

def plainUnwrap (overhead : Nat) (blob : List UInt8) : Option (List UInt8 × List UInt8) := do
  let macLen ← (read blob 0 4).map fun b => (ofLe32 b).toNat
  let textLen ← (read blob 4 4).map fun b => (ofLe32 b).toNat
  let body := blob.drop overhead
  if macLen + textLen ≤ body.length then
    some (body.take macLen, (body.drop macLen).take textLen)
  else none

def plainUnseal (overhead : Nat) (blob : List UInt8) (macSize textSize : Nat) :
    Option (List UInt8) := do
  let (mac, text) ← plainUnwrap overhead blob
  if mac.length ≤ macSize ∧ 0 < text.length ∧ text.length ≤ textSize then some text else none

theorem plainUnseal_eq_some {overhead : Nat} {blob text : List UInt8} {macSize textSize : Nat} :
    plainUnseal overhead blob macSize textSize = some text ↔
      ∃ mac, plainUnwrap overhead blob = some (mac, text) ∧ mac.length ≤ macSize ∧
        0 < text.length ∧ text.length ≤ textSize := by
  unfold plainUnseal
  cases plainUnwrap overhead blob with
  | none => simp
  | some content =>
    obtain ⟨mac, text'⟩ := content
    by_cases hfits : mac.length ≤ macSize ∧ 0 < text'.length ∧ text'.length ≤ textSize
    · simp only [Option.bind_eq_bind, Option.bind_some, if_pos hfits, Option.some.injEq,
        Prod.mk.injEq]
      constructor
      · rintro rfl
        exact ⟨mac, ⟨rfl, rfl⟩, hfits⟩
      · rintro ⟨_, ⟨-, htext⟩, -⟩
        exact htext
    · simp only [Option.bind_eq_bind, Option.bind_some, if_neg hfits, reduceCtorEq,
        Option.some.injEq, Prod.mk.injEq, false_iff]
      rintro ⟨_, ⟨rfl, rfl⟩, hyes⟩
      exact hfits hyes

theorem ofLe32_length {l : List UInt8} (h : l.length < 2 ^ 32) :
    (ofLe32 (le32 (BitVec.ofNat 32 l.length))).toNat = l.length := by
  rw [ofLe32_le32, BitVec.toNat_ofNat, Nat.mod_eq_of_lt h]

theorem plainWrap_drop {overhead : Nat} (hheader : 8 ≤ overhead) (mac text rest : List UInt8) :
    (plainWrap overhead mac text ++ rest).drop overhead = mac ++ (text ++ rest) := by
  have hfront : ((le32 (BitVec.ofNat 32 mac.length)).1 ++
      ((le32 (BitVec.ofNat 32 text.length)).1 ++ (zeros (overhead - 8)).1)).length = overhead := by
    simp only [List.length_append, (le32 _).2, (zeros _).2]
    omega
  have hsplit : plainWrap overhead mac text ++ rest = ((le32 (BitVec.ofNat 32 mac.length)).1 ++
      ((le32 (BitVec.ofNat 32 text.length)).1 ++ (zeros (overhead - 8)).1)) ++
        (mac ++ (text ++ rest)) := by
    simp only [plainWrap, List.append_assoc]
  rw [hsplit, List.drop_left' hfront]

theorem plainUnwrap_plainWrap {overhead : Nat} (hheader : 8 ≤ overhead)
    {mac text : List UInt8} (hlen : mac.length + text.length < 2 ^ 32) (rest : List UInt8) :
    plainUnwrap overhead (plainWrap overhead mac text ++ rest) = some (mac, text) := by
  have hfirst : read (plainWrap overhead mac text ++ rest) 0 4 =
      some (le32 (BitVec.ofNat 32 mac.length)) := by
    rw [plainWrap, List.append_assoc]
    exact read_front _ _
  have hsecond : read (plainWrap overhead mac text ++ rest) 4 4 =
      some (le32 (BitVec.ofNat 32 text.length)) := by
    rw [plainWrap, List.append_assoc, read_block _ _ (Nat.le_refl 4), List.append_assoc]
    exact read_front _ _
  have hmac := ofLe32_length (l := mac) (by omega)
  have htext := ofLe32_length (l := text) (by omega)
  simp [plainUnwrap, hfirst, hsecond, hmac, htext, plainWrap_drop hheader]

def plain (overhead : Nat) (hheader : 8 ≤ overhead) : Sealing overhead where
  wrap := fun _ => plainWrap overhead
  unwrap := plainUnwrap overhead
  unsealInto := plainUnseal overhead
  sealedSize := fun mac text => some (overhead + (mac + text))
  wrap_length := by
    intro _ mac text
    simp only [plainWrap, List.length_append, (le32 _).2, (zeros _).2]
    omega
  unwrap_wrap := fun _ _ _ rest hlen => plainUnwrap_plainWrap hheader hlen rest
  unsealInto_of_fits := fun hunwrap hmac hne htext =>
    plainUnseal_eq_some.mpr ⟨_, hunwrap, hmac, hne, htext⟩
  fits_of_unsealInto := plainUnseal_eq_some.mp
  sealedSize_of_lt := fun _ => rfl

end Sealing
