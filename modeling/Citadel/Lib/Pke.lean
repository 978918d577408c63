/-
Citadel.Lib.Pke — public-key encryption to one key pair, as an abstract
scheme: `encrypt` is what anyone can do, `decrypt` what the owner of the
private key can.

`plain` is a scheme without secrecy, to evaluate on. A `PkeCode` is an
implementation, in which a key is a string of bytes; `Public` and `Private`
say that such a string is a key of the pair.
-/
import Citadel.Lib.Bytes

/-- Ciphertexts of `len` bytes for messages of at most `cap`; the first
argument of `encrypt` is its randomness. -/
structure Pke (len cap : Nat) where
  encrypt : List UInt8 → List UInt8 → List UInt8
  decrypt : List UInt8 → Option (List UInt8)
  encrypt_length : ∀ seed m, m.length ≤ cap → (encrypt seed m).length = len
  decrypt_encrypt : ∀ seed m, m.length ≤ cap → decrypt (encrypt seed m) = some m

namespace Pke

/-- A length byte, the message, zeros. -/
def frame (len : Nat) (m : List UInt8) : List UInt8 :=
  UInt8.ofNat m.length :: (m ++ List.replicate (len - 1 - m.length) 0)

def unframe : List UInt8 → Option (List UInt8)
  | [] => none
  | n :: rest => some (rest.take n.toNat)

def plain (len cap : Nat) (hcap : cap < len) (hbyte : cap < 256) : Pke len cap where
  encrypt := fun _ m => frame len m
  decrypt := unframe
  encrypt_length := by
    intro _ m hm
    simp only [frame, List.length_cons, List.length_append, List.length_replicate]
    omega
  decrypt_encrypt := by
    intro _ m hm
    have hn : (UInt8.ofNat m.length).toNat = m.length :=
      UInt8.toNat_ofNat_of_lt' (show m.length < 256 by omega)
    simp only [frame, unframe, hn, List.take_left']

end Pke

/-- Code that takes its keys as bytes, which it may refuse. -/
structure PkeCode where
  encrypt : List UInt8 → List UInt8 → List UInt8 → Option (List UInt8)
  decrypt : List UInt8 → List UInt8 → Option (List UInt8)

namespace PkeCode

variable {len cap : Nat}

/-- With `key` the code encrypts as the scheme does. -/
def Public (R : PkeCode) (P : Pke len cap) (key : List UInt8) : Prop :=
  ∀ seed m, m.length ≤ cap → R.encrypt key seed m = some (P.encrypt seed m)

/-- With `key` the code decrypts as the scheme does. -/
def Private (R : PkeCode) (P : Pke len cap) (key : List UInt8) : Prop :=
  ∀ c, R.decrypt key c = P.decrypt c

end PkeCode
