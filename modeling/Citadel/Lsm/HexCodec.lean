/-
Citadel.Lsm.HexCodec — the hexadecimal form is lossless.

`hexstring_to_bytes` undoes `to_hexstring` on every byte string
(`hexstringToBytes_hexDigits`). The decoder does not check its digits: it
computes `(c % 32 + 9) % 25`, which happens to be the value of every
character the encoder writes. That, and that no digit is the terminator,
are checked over the 256 bytes; the rest is induction.
-/
import Citadel.Lsm.Inode

namespace Citadel

open Bytes

/-- The digits `to_hexstring` writes, without the terminator. -/
def hexDigits (bytes : List UInt8) : List UInt8 :=
  bytes.flatMap (fun b : UInt8 => [hexDigit (b >>> 4), hexDigit (b &&& 0x0F)])

theorem forall_byte {P : UInt8 → Prop} (h : ∀ i : Fin 256, P (UInt8.ofNat i.1)) (b : UInt8) :
    P b := by
  have hb := h ⟨b.toNat, b.toNat_lt⟩
  rwa [UInt8.ofNat_toNat] at hb

/-- The two digits of a byte give it back. -/
theorem hexValue_hexDigit (b : UInt8) :
    UInt8.ofInt (hexValue (hexDigit (b >>> 4)) * 16 + hexValue (hexDigit (b &&& 0x0F))) = b :=
  forall_byte (P := fun b => UInt8.ofInt
    (hexValue (hexDigit (b >>> 4)) * 16 + hexValue (hexDigit (b &&& 0x0F))) = b)
    (by decide +kernel) b

theorem hexDigit_ne_zero (b : UInt8) : hexDigit (b >>> 4) ≠ 0 ∧ hexDigit (b &&& 0x0F) ≠ 0 :=
  forall_byte (P := fun b => hexDigit (b >>> 4) ≠ 0 ∧ hexDigit (b &&& 0x0F) ≠ 0)
    (by decide +kernel) b

@[simp] theorem hexDigits_nil : hexDigits [] = [] := rfl

@[simp] theorem hexDigits_cons (b : UInt8) (bytes : List UInt8) :
    hexDigits (b :: bytes) = hexDigit (b >>> 4) :: hexDigit (b &&& 0x0F) :: hexDigits bytes := rfl

@[simp] theorem length_hexDigits (bytes : List UInt8) :
    (hexDigits bytes).length = 2 * bytes.length := by
  induction bytes with
  | nil => rfl
  | cons b bytes ih =>
    simp only [hexDigits_cons, List.length_cons, ih]
    omega

/-- What holds of the two digits of every byte holds of every digit. -/
theorem forall_mem_hexDigits {P : UInt8 → Prop}
    (h : ∀ b : UInt8, P (hexDigit (b >>> 4)) ∧ P (hexDigit (b &&& 0x0F))) {bytes : List UInt8} :
    ∀ c ∈ hexDigits bytes, P c := by
  induction bytes with
  | nil => simp
  | cons b bytes ih =>
    intro c hc
    rw [hexDigits_cons, List.mem_cons, List.mem_cons] at hc
    rcases hc with rfl | rfl | hc
    · exact (h b).1
    · exact (h b).2
    · exact ih c hc

theorem hexDigits_ne_zero {bytes : List UInt8} : ∀ c ∈ hexDigits bytes, c ≠ 0 :=
  forall_mem_hexDigits hexDigit_ne_zero

theorem hexPairs_hexDigits (bytes : List UInt8) : hexPairs (hexDigits bytes) = bytes := by
  induction bytes with
  | nil => rfl
  | cons b bytes ih =>
    rw [hexDigits_cons, hexPairs, ih, hexValue_hexDigit]

theorem hexstringToBytes_hexDigits (bytes : List UInt8) :
    hexstringToBytes (hexDigits bytes) = some bytes := by
  have heven : ¬ (hexDigits bytes).length % 2 ≠ 0 := by
    rw [length_hexDigits]
    omega
  rw [hexstringToBytes, if_neg heven, hexPairs_hexDigits]

theorem toHexstring_eq {bytes : List UInt8} (h : 0 < bytes.length) :
    toHexstring bytes = some (hexDigits bytes ++ [0]) := if_neg (by omega)

theorem toHexstring_identifier (identifier : Identifier) :
    toHexstring identifier.1 = some (hexDigits identifier.1 ++ [0]) :=
  toHexstring_eq (by rw [identifier.2]; decide)

/-- A buffer that holds the digits and is zero behind them is read up to
the digits' end. -/
theorem cstring_hexDigits (bytes : List UInt8) (n : Nat) :
    cstring (hexDigits bytes ++ List.replicate (n + 1) 0) = some (hexDigits bytes) := by
  have hzero : (hexDigits bytes ++ List.replicate (n + 1) 0).contains 0 = true := by
    simp [List.replicate_succ]
  have hdigits : ∀ c ∈ hexDigits bytes, (c != 0) = true := by
    intro c hc
    simpa using hexDigits_ne_zero c hc
  rw [cstring, if_pos hzero, List.takeWhile_append_of_pos hdigits]
  simp [List.replicate_succ]

theorem cstring_terminated (bytes : List UInt8) :
    cstring (hexDigits bytes ++ [0]) = some (hexDigits bytes) := cstring_hexDigits bytes 0

/-- The kernel reads an identifier back, stored with or without its
terminator. -/
theorem getXattrIdentifier_digits {disk : Xattrs} {identifier : Identifier} {k : Nat}
    (hk : k ≤ 1) (h : disk.identifier = some (hexDigits identifier.1 ++ List.replicate k 0)) :
    getXattrIdentifier disk = some (some identifier.1) := by
  have hlen : (hexDigits identifier.1 ++ List.replicate k 0).length = 2 * identifierLength + k := by
    rw [List.length_append, length_hexDigits, identifier.2, List.length_replicate]
  have hfits : 0 < 2 * identifierLength + k ∧
      2 * identifierLength + k ≤ encodedIdentifierLength := by
    unfold encodedIdentifierLength identifierLength
    omega
  have hpad : k + (encodedIdentifierLength - (2 * identifierLength + k)) = 0 + 1 := by
    unfold encodedIdentifierLength
    omega
  rw [getXattrIdentifier, h]
  simp only [hlen, if_pos hfits, List.append_assoc, List.replicate_append_replicate, hpad,
    cstring_hexDigits, Option.bind_eq_bind, Option.bind_some, hexstringToBytes_hexDigits]

end Citadel
