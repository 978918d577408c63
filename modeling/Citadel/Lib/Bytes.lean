/-
Citadel.Lib.Bytes — fixed-length byte blocks, reads from and writes to a
byte buffer, and little-endian words.

A `Block n` is a byte list of length `n`. A read of `n` bytes at an offset
is partial, and so is a write: `none` is an access past the end of the
buffer.
-/
import Mathlib.Data.List.Basic

namespace Bytes

/-- `n` bytes. -/
abbrev Block (n : Nat) := { l : List UInt8 // l.length = n }

/-- `n` times the same byte, the block `memset` leaves. -/
def fill (n : Nat) (b : UInt8) : Block n := ⟨List.replicate n b, by simp⟩

def zeros (n : Nat) : Block n := fill n 0

/-- Bytewise exclusive or. -/
def xor {n : Nat} (a b : Block n) : Block n :=
  ⟨List.zipWith (· ^^^ ·) a.1 b.1, by simp [a.2, b.2]⟩

theorem xor_zeros {n : Nat} (a : Block n) : xor a (zeros n) = a := by
  refine Subtype.ext (List.ext_getElem (by simp [xor, zeros, fill, a.2]) ?_)
  intro i _ _
  simp [xor, zeros, fill]

theorem eq_zeros_of_xor {n : Nat} {a b : Block n} (h : xor a b = a) : b = zeros n := by
  refine Subtype.ext (List.ext_getElem (by simp [zeros, fill, b.2]) ?_)
  intro i hb hz
  have ha : i < a.1.length := by rw [a.2]; simpa [zeros, fill] using hz
  have hbyte : a.1[i] ^^^ b.1[i] = a.1[i] := by
    have hval : (xor a b).1 = a.1 := congrArg Subtype.val h
    have hget : (xor a b).1[i]? = a.1[i]? := by rw [hval]
    simpa [xor, List.getElem?_zipWith, ha, hb] using hget
  have hcancel : a.1[i] ^^^ (a.1[i] ^^^ b.1[i]) = 0 := by rw [hbyte, UInt8.xor_self]
  rw [← UInt8.xor_assoc, UInt8.xor_self, UInt8.zero_xor] at hcancel
  simpa [zeros, fill] using hcancel

theorem xor_comm {n : Nat} (a b : Block n) : xor a b = xor b a := by
  refine Subtype.ext (List.ext_getElem (by simp [xor, a.2, b.2]) ?_)
  intro i _ _
  simp only [xor, List.getElem_zipWith]
  exact UInt8.xor_comm _ _

theorem xor_assoc {n : Nat} (a b c : Block n) : xor (xor a b) c = xor a (xor b c) := by
  refine Subtype.ext (List.ext_getElem (by simp [xor, a.2, b.2, c.2]) ?_)
  intro i _ _
  simp [xor, UInt8.xor_assoc]

theorem xor_self {n : Nat} (a : Block n) : xor a a = zeros n := by
  refine Subtype.ext (List.ext_getElem (by simp [xor, zeros, fill, a.2]) ?_)
  intro i _ _
  simp [xor, zeros, fill]

theorem xor_cancel_left {n : Nat} (a b : Block n) : xor a (xor a b) = b := by
  rw [← xor_assoc, xor_self, xor_comm, xor_zeros]

theorem xor_eq_iff {n : Nat} {a b c : Block n} : xor a b = c ↔ b = xor c a := by
  rw [xor_comm c]
  refine ⟨fun h => ?_, fun h => ?_⟩
  · rw [← h, xor_cancel_left]
  · rw [h, xor_cancel_left]

theorem xor_eq_zeros_iff {n : Nat} {a b : Block n} : xor a b = zeros n ↔ a = b := by
  rw [xor_eq_iff, xor_comm, xor_zeros]
  exact eq_comm

/-- The characters of an ASCII literal, without a terminator. -/
def ascii (s : String) : List UInt8 := s.toList.map (fun c => c.toNat.toUInt8)

/-- `strncmp(a, b, n) == 0`, for strings given without their terminators. -/
def strncmpEq (n : Nat) (a b : List UInt8) : Bool := decide ((a ++ [0]).take n = (b ++ [0]).take n)

/-! ## Reads -/

/-- The `n` bytes at `off`, a fault past the end. -/
def read (buf : List UInt8) (off n : Nat) : Option (Block n) :=
  if h : off + n ≤ buf.length then
    some ⟨(buf.drop off).take n, by simp; omega⟩
  else none

theorem read_isSome {buf : List UInt8} {off n : Nat} (h : off + n ≤ buf.length) :
    ∃ b, read buf off n = some b := ⟨_, dif_pos h⟩

theorem read_val {buf : List UInt8} {off n : Nat} (h : off + n ≤ buf.length) :
    ∃ b : Block n, read buf off n = some b ∧ b.1 = (buf.drop off).take n := ⟨_, dif_pos h, rfl⟩

theorem read_none {buf : List UInt8} {off n : Nat} (h : buf.length < off + n) :
    read buf off n = none := dif_neg (by omega)

/-- A read behind a first part of the buffer is a read of the rest. -/
theorem read_skip (pre post : List UInt8) {off n : Nat} (h : pre.length ≤ off) :
    read (pre ++ post) off n = read post (off - pre.length) n := by
  unfold read
  split
  · rename_i hle
    rw [dif_pos (by rw [List.length_append] at hle; omega)]
    simp only [List.drop_append, List.drop_eq_nil_of_le h, List.nil_append]
  · rename_i hlt
    rw [dif_neg (by rw [List.length_append] at hlt; omega)]

/-- A read inside a first part of the buffer is a read of it. -/
theorem read_within (pre post : List UInt8) {off n : Nat} (h : off + n ≤ pre.length) :
    read (pre ++ post) off n = read pre off n := by
  have hlong : off + n ≤ (pre ++ post).length := by
    rw [List.length_append]
    omega
  rw [read, read, dif_pos h, dif_pos hlong]
  have hin : n ≤ (pre.drop off).length := by
    rw [List.length_drop]
    omega
  simp only [Option.some.injEq, Subtype.mk.injEq]
  rw [List.drop_append_of_le_length (by omega), List.take_append_of_le_length hin]

theorem read_front {n : Nat} (b : Block n) (post : List UInt8) :
    read (b.1 ++ post) 0 n = some b := by
  obtain ⟨l, hl⟩ := b
  rw [read, dif_pos (by simp [hl])]
  simp only [Option.some.injEq]
  refine Subtype.ext ?_
  simp [List.take_left' hl]

/-- `read_front`, for a part whose length is known otherwise. -/
theorem read_all {n : Nat} {x : List UInt8} (post : List UInt8) (h : x.length = n) :
    (read (x ++ post) 0 n).map Subtype.val = some x := by
  rw [read_front ⟨x, h⟩ post]
  rfl

/-- `read_skip` over a block, whose length its type knows. -/
theorem read_block {m : Nat} (b : Block m) (post : List UInt8) {off n : Nat} (h : m ≤ off) :
    read (b.1 ++ post) off n = read post (off - m) n := by
  rw [read_skip _ _ (by rw [b.2]; exact h), b.2]

theorem read_zeros {m off n : Nat} (h : off + n ≤ m) :
    read (List.replicate m 0) off n = some (zeros n) := by
  rw [read, dif_pos (by simpa using h)]
  simp only [Option.some.injEq]
  refine Subtype.ext ?_
  simp only [List.drop_replicate, List.take_replicate, zeros, fill]
  congr 1
  omega

/-! ## Writes -/

/-- `memcpy` of `src` to offset `off`. -/
def write (buf : List UInt8) (off : Nat) (src : List UInt8) : Option (List UInt8) :=
  if off + src.length ≤ buf.length then
    some (buf.take off ++ (src ++ buf.drop (off + src.length)))
  else none

/-- A buffer keeps its length. -/
theorem write_length {buf src buf' : List UInt8} {off : Nat}
    (h : write buf off src = some buf') : buf'.length = buf.length := by
  rw [write] at h
  split at h
  · rename_i hle
    cases h
    simp only [List.length_append, List.length_take, List.length_drop]
    omega
  · cases h

/-- A write that comes back was within the buffer. -/
theorem write_le {buf src buf' : List UInt8} {off : Nat} (h : write buf off src = some buf') :
    off + src.length ≤ buf.length := by
  rw [write] at h
  split at h
  · assumption
  · cases h

/-- A write replaces the part of its length. -/
theorem write_mid (pre mid src post : List UInt8) {off : Nat} (hoff : off = pre.length)
    (hmid : mid.length = src.length) :
    write (pre ++ (mid ++ post)) off src = some (pre ++ (src ++ post)) := by
  subst hoff
  have hle : pre.length + src.length ≤ (pre ++ (mid ++ post)).length := by
    simp only [List.length_append]
    omega
  have hdrop : (pre ++ (mid ++ post)).drop (pre.length + src.length) = post := by
    rw [List.drop_append, List.drop_eq_nil_of_le (Nat.le_add_right _ _), List.nil_append,
      Nat.add_sub_cancel_left, ← hmid, List.drop_left]
  rw [write, if_pos hle, List.take_left, hdrop]

/-- A write to the front of a zeroed buffer. -/
theorem write_front (m : List UInt8) {n : Nat} (h : m.length ≤ n) :
    write (List.replicate n 0) 0 m = some (m ++ List.replicate (n - m.length) 0) := by
  have hsplit : List.replicate n (0 : UInt8) =
      [] ++ (List.replicate m.length 0 ++ List.replicate (n - m.length) 0) := by
    rw [List.nil_append, List.replicate_append_replicate, Nat.add_sub_cancel' h]
  rw [hsplit]
  exact write_mid [] _ m _ rfl List.length_replicate

/-! ## Little-endian words -/

def le16 (x : BitVec 16) : Block 2 :=
  ⟨[⟨x.extractLsb' 0 8⟩, ⟨x.extractLsb' 8 8⟩], rfl⟩

def le32 (x : BitVec 32) : Block 4 :=
  ⟨[⟨x.extractLsb' 0 8⟩, ⟨x.extractLsb' 8 8⟩, ⟨x.extractLsb' 16 8⟩, ⟨x.extractLsb' 24 8⟩], rfl⟩

/-- The byte at index `i`. -/
def Block.byte {n : Nat} (b : Block n) (i : Nat) : UInt8 := b.1.getD i 0

def ofLe16 (b : Block 2) : BitVec 16 :=
  (b.byte 1).toBitVec ++ (b.byte 0).toBitVec

def ofLe32 (b : Block 4) : BitVec 32 :=
  (b.byte 3).toBitVec ++ ((b.byte 2).toBitVec ++ ((b.byte 1).toBitVec ++ (b.byte 0).toBitVec))

theorem ofLe16_le16 (x : BitVec 16) : ofLe16 (le16 x) = x := by
  change x.extractLsb' 8 8 ++ x.extractLsb' 0 8 = x
  ext i hi
  simp only [BitVec.getElem_append, BitVec.getElem_extractLsb']
  split
  · simp [BitVec.getLsbD_eq_getElem hi]
  · rw [show 8 + (i - 8) = i by omega, BitVec.getLsbD_eq_getElem hi]

theorem ofLe32_le32 (x : BitVec 32) : ofLe32 (le32 x) = x := by
  change x.extractLsb' 24 8 ++ (x.extractLsb' 16 8 ++ (x.extractLsb' 8 8 ++ x.extractLsb' 0 8)) = x
  ext i hi
  simp only [BitVec.getElem_append, BitVec.getElem_extractLsb']
  split
  · split
    · split
      · simp [BitVec.getLsbD_eq_getElem hi]
      · rw [show 8 + (i - 8) = i by omega, BitVec.getLsbD_eq_getElem hi]
    · rw [show 16 + (i - (8 + 8)) = i by omega, BitVec.getLsbD_eq_getElem hi]
  · rw [show 24 + (i - (8 + (8 + 8))) = i by omega, BitVec.getLsbD_eq_getElem hi]

end Bytes
