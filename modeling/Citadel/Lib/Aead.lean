/-
Citadel.Lib.Aead — authenticated encryption as an abstract scheme.

`encrypt` maps a key, an IV and a message to the ciphertext with its tag
behind it; `decrypt` inverts it or rejects. The three fields are what every
correct scheme gives: lengths, the round trip, and that what decrypts is
the encryption of what it decrypts to. `Ideal` adds that nothing encrypted under
one key decrypts under another.

`keyTag` is the textbook ideal scheme over byte-block keys: the tag IS the
key. It is a scheme to evaluate on, not one to use.
-/
import Citadel.Lib.Bytes

open Bytes

/-- An AEAD scheme with no associated data. -/
structure Aead (K : Type) (ivLen tagLen : Nat) where
  encrypt : K → Block ivLen → List UInt8 → List UInt8
  decrypt : K → Block ivLen → List UInt8 → Option (List UInt8)
  encrypt_length : ∀ k iv m, (encrypt k iv m).length = m.length + tagLen
  decrypt_encrypt : ∀ k iv m, decrypt k iv (encrypt k iv m) = some m
  encrypt_of_decrypt : ∀ k iv c m, decrypt k iv c = some m → c = encrypt k iv m

namespace Aead

variable {K : Type} {ivLen tagLen : Nat}

/-- Nothing encrypted under one key decrypts under another. -/
def Ideal (A : Aead K ivLen tagLen) : Prop :=
  ∀ k k' iv m, k ≠ k' → A.decrypt k' iv (A.encrypt k iv m) = none

/-- The scheme whose tag is the key. -/
def keyTag (ivLen tagLen : Nat) : Aead (Block tagLen) ivLen tagLen where
  encrypt := fun k _ m => m ++ k.1
  decrypt := fun k _ c =>
    if c.drop (c.length - tagLen) = k.1 then some (c.take (c.length - tagLen)) else none
  encrypt_length := fun k _ m => by simp [k.2]
  decrypt_encrypt := fun k _ m => by simp [k.2]
  encrypt_of_decrypt := fun k _ c m h => by
    split at h
    · rename_i hk
      obtain rfl : c.take (c.length - tagLen) = m := by simpa using h
      rw [← hk, List.take_append_drop]
    · cases h

theorem keyTag_ideal (ivLen tagLen : Nat) : (keyTag ivLen tagLen).Ideal := by
  intro k k' iv m hk
  have hne : k.1 ≠ k'.1 := fun h => hk (Subtype.ext h)
  simp [keyTag, k.2, hne]

end Aead
