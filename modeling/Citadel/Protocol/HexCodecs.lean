/-
Citadel.Protocol.HexCodecs — the hexadecimal codec in its buffers: one
encoder and three copies of the decoder.

`to_hexstring` and `hexstring_to_bytes` are embedded here at the level of
their loops: memory as the allocator returns it, one index or two, every
read and write checked. Lengths and indices of the decoder are `size_t`,
but the encoder takes its length as an UNSIGNED INT and computes the size of
its buffer in 32 bits: from 2^31 bytes on `2*len+1` wraps and the loop
leaves the buffer. Below, the loops do what `Citadel.Lsm.HexCodec` has about
whole strings (`toHexstringAt_eq`, `hexToBytes_eq`).

Whether plain `char` is signed is up to each build. It matters to the
decoder's `(c % 32 + 9) % 25` from 128 on, so it is an argument here, and
the three copies may differ in it.

  §1  the encoder,
  §2  the decoder and its copies,
  §3  digits,
  §4  the two round trips.
-/
import Mathlib.Algebra.Group.Nat.Defs
import Citadel.Daemon.IdentifierCache
import Citadel.Libcitadel.Cache
import Citadel.Lsm.HexCodec

namespace Citadel

open Bytes

/-- What `kmalloc` or `malloc` returns for each size. -/
abbrev Allocator := (n : Nat) → Block n

/-! ## §1 `to_hexstring` -/

/-- The loop, with the number of turns left and the index. -/
def encodeLoop (buf : List UInt8) : Nat → Nat → List UInt8 → Option (List UInt8)
  | 0, _, out => some out
  | n + 1, i, out => do
    let b ← buf[i]?
    let out ← write out (i * 2) [hexDigit (b >>> 4)]
    let out ← write out (i * 2 + 1) [hexDigit (b &&& 0x0F)]
    encodeLoop buf n (i + 1) out

/-- `to_hexstring`: the inner `none` is NULL. `2*len+1` and `len*2` are
unsigned int, the index is a `size_t`. -/
def toHexstringAt (kmalloc : Allocator) (buf : List UInt8) (len : BitVec 32) :
    Option (Option (List UInt8)) :=
  if len = 0 then some none
  else do
    let out ← encodeLoop buf len.toNat 0 (kmalloc (2 * len + 1).toNat).1
    let out ← write out (len * 2).toNat [0]
    some (some out)

theorem exists_pair {l : List UInt8} {n : Nat} (h : l.length = (n + 1) * 2) :
    ∃ a b rest, l = a :: b :: rest ∧ rest.length = n * 2 := by
  match l with
  | [] => simp at h
  | [_] => simp at h; omega
  | a :: b :: rest => exact ⟨a, b, rest, rfl, by simp at h; omega⟩

/-- The loop writes the digits of the bytes it reads. -/
theorem encodeLoop_eq (bs : List UInt8) : ∀ (pre post done memory tail : List UInt8),
    done.length = pre.length * 2 → memory.length = bs.length * 2 →
    encodeLoop (pre ++ (bs ++ post)) bs.length pre.length (done ++ (memory ++ tail)) =
      some (done ++ (hexDigits bs ++ tail)) := by
  induction bs with
  | nil =>
    intro pre post done memory tail _ hmemory
    obtain rfl := List.eq_nil_of_length_eq_zero hmemory
    rfl
  | cons b bs ih =>
    intro pre post done memory tail hdone hmemory
    obtain ⟨x, y, rest, rfl, hlen⟩ := exists_pair hmemory
    have hread : (pre ++ (b :: bs ++ post))[pre.length]? = some b := by simp
    have hfirst := write_mid done [x] [hexDigit (b >>> 4)] (y :: (rest ++ tail)) hdone.symm rfl
    have hoff : pre.length * 2 + 1 = (done ++ [hexDigit (b >>> 4)]).length := by simp [hdone]
    have hsecond := write_mid (done ++ [hexDigit (b >>> 4)]) [y] [hexDigit (b &&& 0x0F)]
      (rest ++ tail) hoff rfl
    have hrest := ih (pre ++ [b]) post (done ++ [hexDigit (b >>> 4), hexDigit (b &&& 0x0F)]) rest
      tail (by simp [hdone]; omega) hlen
    simp only [List.append_assoc, List.cons_append, List.nil_append, List.length_append,
      List.length_cons, List.length_nil] at hread hfirst hsecond hrest
    simp only [List.length_cons, encodeLoop, List.cons_append, hread, hfirst, hsecond,
      Option.bind_eq_bind, Option.bind_some]
    exact hrest

/-- A loop that comes back has stayed in its buffer. -/
theorem encodeLoop_bound {buf : List UInt8} {n i : Nat} {out out' : List UInt8}
    (h : encodeLoop buf n i out = some out') (hn : 0 < n) : (i + n) * 2 ≤ out.length := by
  induction n generalizing i out with
  | zero => exact absurd hn (Nat.lt_irrefl 0)
  | succ n ih =>
    obtain ⟨b, -, h⟩ := Option.bind_eq_some_iff.mp h
    obtain ⟨out₁, hfirst, h⟩ := Option.bind_eq_some_iff.mp h
    obtain ⟨out₂, hsecond, h⟩ := Option.bind_eq_some_iff.mp h
    have hfits := write_le hsecond
    have hlen₁ := write_length hfirst
    have hlen₂ := write_length hsecond
    rw [List.length_singleton] at hfits
    by_cases hlast : n = 0
    · subst hlast
      omega
    · have hrest := ih h (Nat.pos_of_ne_zero hlast)
      omega

theorem toHexstringAt_short {kmalloc : Allocator} {buf : List UInt8} {len : BitVec 32}
    (hpos : len ≠ 0) (hlen : len.toNat ≤ buf.length) (hshort : len.toNat < 2 ^ 31) :
    toHexstringAt kmalloc buf len = some (some (hexDigits (buf.take len.toNat) ++ [0])) := by
  have hsize : (2 * len + 1).toNat = len.toNat * 2 + 1 := by bv_omega
  have hend : (len * 2).toNat = len.toNat * 2 := by bv_omega
  have htake : (buf.take len.toNat).length = len.toNat := by
    rw [List.length_take]
    omega
  have hdigits : (hexDigits (buf.take len.toNat)).length = len.toNat * 2 := by
    rw [length_hexDigits, htake, Nat.mul_comm]
  -- the last byte of the buffer is left for the terminator
  obtain ⟨memory, z, hmemory, hsplit⟩ : ∃ memory z, memory.length = len.toNat * 2 ∧
      (kmalloc (2 * len + 1).toNat).1 = memory ++ [z] := by
    have hfull : (kmalloc (2 * len + 1).toNat).1.length = len.toNat * 2 + 1 := by
      rw [(kmalloc _).2, hsize]
    have hne : (kmalloc (2 * len + 1).toNat).1 ≠ [] := List.ne_nil_of_length_eq_add_one hfull
    refine ⟨_, _, ?_, (List.dropLast_append_getLast hne).symm⟩
    rw [List.length_dropLast, hfull, Nat.add_sub_cancel]
  have hloop := encodeLoop_eq (buf.take len.toNat) [] (buf.drop len.toNat) [] memory [z] rfl
    (by rw [hmemory, htake])
  have hterm := write_mid (hexDigits (buf.take len.toNat)) [z] [0] [] (hend.trans hdigits.symm) rfl
  simp only [List.nil_append, List.take_append_drop, htake, List.length_nil] at hloop
  rw [List.append_nil, List.append_nil] at hterm
  simp only [toHexstringAt, if_neg hpos, hsplit, hloop, hterm, Option.bind_eq_bind,
    Option.bind_some]

/-- The size wraps, and the loop runs into what lies behind the buffer. -/
theorem toHexstringAt_long {kmalloc : Allocator} {buf : List UInt8} {len : BitVec 32}
    (hlong : 2 ^ 31 ≤ len.toNat) : toHexstringAt kmalloc buf len = none := by
  have hpos : len ≠ 0 := by
    rintro rfl
    exact absurd hlong (by decide)
  have hsize : (2 * len + 1).toNat < len.toNat * 2 := by bv_omega
  rw [toHexstringAt, if_neg hpos]
  cases hloop : encodeLoop buf len.toNat 0 (kmalloc (2 * len + 1).toNat).1 with
  | none => rfl
  | some out =>
    have hbound := encodeLoop_bound hloop (by omega)
    rw [(kmalloc _).2] at hbound
    omega

/-- What comes back is of a string shorter than 2^31 bytes. -/
theorem toHexstringAt_some {kmalloc : Allocator} {buf hex : List UInt8} {len : BitVec 32}
    (hlen : len.toNat ≤ buf.length) (h : toHexstringAt kmalloc buf len = some (some hex)) :
    len.toNat < 2 ^ 31 ∧ hex = hexDigits (buf.take len.toNat) ++ [0] := by
  by_cases hlong : 2 ^ 31 ≤ len.toNat
  · rw [toHexstringAt_long hlong] at h
    cases h
  by_cases hpos : len = 0
  · rw [toHexstringAt, if_pos hpos] at h
    cases h
  rw [toHexstringAt_short hpos hlen (Nat.lt_of_not_le hlong)] at h
  cases h
  exact ⟨Nat.lt_of_not_le hlong, rfl⟩

theorem ofNat_length_le (buf : List UInt8) : (BitVec.ofNat 32 buf.length).toNat ≤ buf.length := by
  rw [BitVec.toNat_ofNat]
  exact Nat.mod_le _ _

/-- The loop of `to_hexstring` writes the digits of every string that is
short enough, and of no other. -/
theorem toHexstringAt_iff (kmalloc : Allocator) {buf : List UInt8} (hbuf : buf ≠ []) :
    toHexstringAt kmalloc buf (BitVec.ofNat 32 buf.length) = some (some (hexDigits buf ++ [0])) ↔
      buf.length < 2 ^ 31 := by
  constructor
  · intro h
    obtain ⟨hshort, hhex⟩ := toHexstringAt_some (ofNat_length_le buf) h
    have hlen := congrArg List.length hhex
    simp only [List.length_append, length_hexDigits, List.length_take] at hlen
    omega
  · intro hshort
    have hlen : (BitVec.ofNat 32 buf.length).toNat = buf.length := by
      rw [BitVec.toNat_ofNat]
      omega
    have hpos : BitVec.ofNat 32 buf.length ≠ 0 := by
      intro hzero
      rw [hzero] at hlen
      exact hbuf (List.eq_nil_of_length_eq_zero hlen.symm)
    rw [toHexstringAt_short hpos (by omega) (by omega), hlen, List.take_length]

/-- On such strings it is the function on whole strings. -/
theorem toHexstringAt_eq (kmalloc : Allocator) {buf : List UInt8} (hshort : buf.length < 2 ^ 31) :
    toHexstringAt kmalloc buf (BitVec.ofNat 32 buf.length) = some (toHexstring buf) := by
  by_cases hbuf : buf = []
  · subst hbuf
    rfl
  · rw [(toHexstringAt_iff kmalloc hbuf).mpr hshort,
      toHexstring_eq (List.length_pos_iff.mpr hbuf)]

/-! ## §2 The decoder and its copies -/

/-- A plain `char` as an `int`. -/
def charValue (signed : Bool) (c : UInt8) : Int := if signed then c.toInt8.toInt else c.toNat

/-- `(c % 32 + 9) % 25`, with C's remainder. -/
def digitValue (signed : Bool) (c : UInt8) : Int := ((charValue signed c).tmod 32 + 9).tmod 25

/-- The loop, with the number of turns left and its two counters. -/
def decodeLoop (signed : Bool) (hexstring : List UInt8) :
    Nat → Nat → Nat → List UInt8 → Option (List UInt8)
  | 0, _, _, identifier => some identifier
  | n + 1, i, j, identifier => do
    let a ← hexstring[i]?
    let b ← hexstring[i + 1]?
    let byte := UInt8.ofInt (digitValue signed a * 16 + digitValue signed b)
    let identifier ← write identifier j [byte]
    decodeLoop signed hexstring n (i + 2) (j + 1) identifier

/-- The body the three decoders share, on a buffer with a terminator
somewhere; the inner `none` is NULL. -/
def hexToBytes (signed : Bool) (alloc : Allocator) (hexstring : List UInt8) :
    Option (Option (List UInt8)) := do
  let string ← cstring hexstring
  let len := string.length
  let finalLen := len / 2
  if len % 2 ≠ 0 then some none
  else do
    let identifier ← decodeLoop signed hexstring finalLen 0 0 (alloc finalLen).1
    some (some identifier)

/-- `hexstring_to_bytes` of the kernel module. -/
def hexstringToBytesAt (signed : Bool) (kmalloc : Allocator) (hexstring : List UInt8) :
    Option (Option (List UInt8)) := hexToBytes signed kmalloc hexstring

/-- `_hex_identifier_to_bytes` of the daemon. -/
def Daemon.hexIdentifierToBytesAt (signed : Bool) (malloc : Allocator) (hexstring : List UInt8) :
    Option (Option (List UInt8)) := hexToBytes signed malloc hexstring

/-- `_hex_identifier_to_bytes` of libcitadel. -/
def Libcitadel.hexIdentifierToBytesAt (signed : Bool) (malloc : Allocator)
    (hexstring : List UInt8) : Option (Option (List UInt8)) := hexToBytes signed malloc hexstring

/-- What the loop makes of a string, two digits at a time. -/
def digitPairs (signed : Bool) : List UInt8 → List UInt8
  | a :: b :: rest =>
    UInt8.ofInt (digitValue signed a * 16 + digitValue signed b) :: digitPairs signed rest
  | _ => []

theorem digitPairs_signed : ∀ t : List UInt8, digitPairs true t = hexPairs t
  | [] => rfl
  | [_] => rfl
  | _ :: _ :: rest => congrArg (List.cons _) (digitPairs_signed rest)

theorem length_digitPairs (signed : Bool) : ∀ t : List UInt8,
    (digitPairs signed t).length = t.length / 2
  | [] => rfl
  | [_] => by simp [digitPairs]
  | a :: b :: rest => by
    rw [digitPairs, List.length_cons, length_digitPairs signed rest, List.length_cons,
      List.length_cons]
    omega

theorem decodeLoop_eq (signed : Bool) (n : Nat) : ∀ (pre t post done memory : List UInt8),
    t.length = n * 2 → memory.length = n →
    decodeLoop signed (pre ++ (t ++ post)) n pre.length done.length (done ++ memory) =
      some (done ++ digitPairs signed t) := by
  induction n with
  | zero =>
    intro pre t post done memory ht hmemory
    obtain rfl := List.eq_nil_of_length_eq_zero ht
    obtain rfl := List.eq_nil_of_length_eq_zero hmemory
    rfl
  | succ n ih =>
    intro pre t post done memory ht hmemory
    obtain ⟨x, rest, rfl⟩ := List.exists_of_length_succ memory hmemory
    obtain ⟨a, b, t, rfl, hlen⟩ := exists_pair ht
    have hfirst : (pre ++ (a :: b :: t ++ post))[pre.length]? = some a := by simp
    have hsecond : (pre ++ (a :: b :: t ++ post))[pre.length + 1]? = some b := by simp
    have hwrite := write_mid done [x]
      [UInt8.ofInt (digitValue signed a * 16 + digitValue signed b)] rest rfl rfl
    have hrest := ih (pre ++ [a, b]) t post
      (done ++ [UInt8.ofInt (digitValue signed a * 16 + digitValue signed b)]) rest
      hlen (by simpa using hmemory)
    simp only [List.append_assoc, List.cons_append, List.nil_append, List.length_append,
      List.length_cons, List.length_nil] at hfirst hsecond hwrite hrest
    simp only [decodeLoop, List.cons_append, hfirst, hsecond, hwrite, Option.bind_eq_bind,
      Option.bind_some]
    exact hrest

/-- A string that does not contain the terminator ends at it. -/
theorem cstring_append {t : List UInt8} (ht : ∀ c ∈ t, c ≠ 0) (rest : List UInt8) :
    cstring (t ++ 0 :: rest) = some t := by
  have hzero : (t ++ 0 :: rest).contains 0 = true := by simp
  have hpass : ∀ c ∈ t, (c != 0) = true := fun c hc => bne_iff_ne.mpr (ht c hc)
  rw [cstring, if_pos hzero, List.takeWhile_append_of_pos hpass]
  simp

/-- On a terminated string the decoder returns the pairs of an even number of
characters and rejects an odd number. -/
theorem hexToBytes_terminated (signed : Bool) (alloc : Allocator) {t : List UInt8}
    (ht : ∀ c ∈ t, c ≠ 0) (rest : List UInt8) :
    hexToBytes signed alloc (t ++ 0 :: rest) =
      some (if t.length % 2 ≠ 0 then none else some (digitPairs signed t)) := by
  simp only [hexToBytes, cstring_append ht, Option.bind_eq_bind, Option.bind_some]
  by_cases hodd : t.length % 2 ≠ 0
  · rw [if_pos hodd, if_pos hodd]
  · have hloop := decodeLoop_eq signed (t.length / 2) [] t (0 :: rest) []
      (alloc (t.length / 2)).1 (by omega) (alloc _).2
    simp only [List.nil_append, List.length_nil] at hloop
    rw [if_neg hodd, if_neg hodd, hloop, Option.bind_some]

/-- With signed characters the three are the functions on whole strings. -/
theorem hexToBytes_eq (alloc : Allocator) {t : List UInt8} (ht : ∀ c ∈ t, c ≠ 0)
    (rest : List UInt8) :
    hexstringToBytesAt true alloc (t ++ 0 :: rest) = some (hexstringToBytes t) ∧
    Daemon.hexIdentifierToBytesAt true alloc (t ++ 0 :: rest) =
      some (Daemon.hexIdentifierToBytes t) ∧
    Libcitadel.hexIdentifierToBytesAt true alloc (t ++ 0 :: rest) =
      some (Libcitadel.hexIdentifierToBytes t) := by
  have hall : hexToBytes true alloc (t ++ 0 :: rest) = some (hexstringToBytes t) := by
    rw [hexToBytes_terminated true alloc ht, digitPairs_signed, hexstringToBytes]
  exact ⟨hall, hall, hall⟩

/-! ## §3 Digits -/

/-- ASCII characters have one value, signed or not. -/
theorem charValue_ascii (signed : Bool) {c : UInt8} (hc : c < 128) :
    charValue signed c = c.toNat := by
  cases signed with
  | false => rfl
  | true =>
    exact forall_byte (P := fun c => c < 128 → charValue true c = c.toNat)
      (by decide +kernel) c hc

theorem digitPairs_ascii (signed signed' : Bool) : ∀ {t : List UInt8}, (∀ c ∈ t, c < 128) →
    digitPairs signed t = digitPairs signed' t
  | [], _ => rfl
  | [_], _ => rfl
  | a :: b :: rest, ht => by
    have ha := ht a (by simp)
    have hb := ht b (by simp)
    have hrest := digitPairs_ascii signed signed' (t := rest) fun c hc => ht c (by simp [hc])
    simp only [digitPairs, digitValue, charValue_ascii _ ha, charValue_ascii _ hb, hrest]

/-- A hexadecimal digit, in either case. -/
def IsHexDigit (c : UInt8) : Prop :=
  (48 ≤ c ∧ c ≤ 57) ∨ (65 ≤ c ∧ c ≤ 70) ∨ (97 ≤ c ∧ c ≤ 102)

instance (c : UInt8) : Decidable (IsHexDigit c) :=
  inferInstanceAs (Decidable (_ ∨ _ ∨ _))

/-- `toupper`. -/
def toUpper (c : UInt8) : UInt8 := if 97 ≤ c ∧ c ≤ 122 then c - 32 else c

theorem IsHexDigit.ascii {c : UInt8} (hc : IsHexDigit c) : c ≠ 0 ∧ c < 128 :=
  forall_byte (P := fun c => IsHexDigit c → c ≠ 0 ∧ c < 128) (by decide +kernel) c hc

/-- A digit has a value below 16, and the encoder's digit for it is the same
in upper case. -/
theorem hexDigit_digitValue {c : UInt8} (hc : IsHexDigit c) :
    ∃ v : Fin 16, digitValue true c = (v.1 : Int) ∧ hexDigit (UInt8.ofNat v.1) = toUpper c :=
  forall_byte (P := fun c => IsHexDigit c → ∃ v : Fin 16, digitValue true c = (v.1 : Int) ∧
    hexDigit (UInt8.ofNat v.1) = toUpper c) (by decide +kernel) c hc

/-- Two digits are the two halves of a byte. -/
theorem halves (v w : Fin 16) :
    UInt8.ofInt ((v.1 : Int) * 16 + (w.1 : Int)) >>> 4 = UInt8.ofNat v.1 ∧
      UInt8.ofInt ((v.1 : Int) * 16 + (w.1 : Int)) &&& 0x0F = UInt8.ofNat w.1 := by
  revert v w
  decide +kernel

/-- Encoding what was decoded gives the digits in upper case. -/
theorem hexDigits_digitPairs : ∀ {s : List UInt8}, s.length % 2 = 0 → (∀ c ∈ s, IsHexDigit c) →
    hexDigits (digitPairs true s) = s.map toUpper
  | [], _, _ => rfl
  | [_], heven, _ => by simp at heven
  | a :: b :: rest, heven, hs => by
    obtain ⟨v, hv, hdigit⟩ := hexDigit_digitValue (hs a (by simp))
    obtain ⟨w, hw, hdigit'⟩ := hexDigit_digitValue (hs b (by simp))
    obtain ⟨hhigh, hlow⟩ := halves v w
    have hrest := hexDigits_digitPairs (s := rest) (by simp at heven; omega)
      fun c hc => hs c (by simp [hc])
    rw [digitPairs, hexDigits_cons, hv, hw, hhigh, hlow, hdigit, hdigit', hrest]
    rfl

theorem hexDigits_ascii {bytes : List UInt8} : ∀ c ∈ hexDigits bytes, c < 128 :=
  forall_mem_hexDigits (P := fun c => c < 128)
    (forall_byte (P := fun b => hexDigit (b >>> 4) < 128 ∧ hexDigit (b &&& 0x0F) < 128)
      (by decide +kernel))

/-! ## §4 The two round trips -/

/-- `hexstring_to_bytes(to_hexstring(b))`; `strlen(NULL)` is a fault. -/
def decodeEncoded (signed : Bool) (kmalloc : Allocator) (b : List UInt8) :
    Option (Option (List UInt8)) := do
  let hex ← toHexstringAt kmalloc b (BitVec.ofNat 32 b.length)
  let hex ← hex
  hexstringToBytesAt signed kmalloc hex

/-- `to_hexstring(hexstring_to_bytes(s))`, with half the length of `s`. -/
def encodeDecoded (signed : Bool) (kmalloc : Allocator) (s : List UInt8) :
    Option (Option (List UInt8)) := do
  let bytes ← hexstringToBytesAt signed kmalloc (s ++ [0])
  let bytes ← bytes
  toHexstringAt kmalloc bytes (BitVec.ofNat 32 (s.length / 2))

/-- All three decoders return the same, however each is built. -/
def AllDecode (hexstring : List UInt8) (result : Option (List UInt8)) : Prop :=
  ∀ signed alloc, hexstringToBytesAt signed alloc hexstring = some result ∧
    Daemon.hexIdentifierToBytesAt signed alloc hexstring = some result ∧
    Libcitadel.hexIdentifierToBytesAt signed alloc hexstring = some result

theorem hexToBytes_digits (signed : Bool) (alloc : Allocator) (bytes : List UInt8) :
    hexToBytes signed alloc (hexDigits bytes ++ [0]) = some (some bytes) := by
  have heven : ¬ (hexDigits bytes).length % 2 ≠ 0 := by
    rw [length_hexDigits]
    omega
  rw [hexToBytes_terminated signed alloc hexDigits_ne_zero, if_neg heven,
    digitPairs_ascii signed true hexDigits_ascii, digitPairs_signed, hexPairs_hexDigits]

theorem decodeEncoded_iff (signed : Bool) (kmalloc : Allocator) {b : List UInt8} (hb : b ≠ []) :
    decodeEncoded signed kmalloc b = some (some b) ↔ b.length < 2 ^ 31 := by
  constructor
  · intro h
    obtain ⟨hex, hhex, h⟩ := Option.bind_eq_some_iff.mp h
    obtain ⟨hex, rfl, h⟩ := Option.bind_eq_some_iff.mp h
    obtain ⟨hshort, rfl⟩ := toHexstringAt_some (ofNat_length_le b) hhex
    have hback := (hexToBytes_digits signed kmalloc _).symm.trans h
    -- only a string that was taken whole comes back
    have hlen := congrArg List.length (Option.some.inj (Option.some.inj hback))
    rw [List.length_take] at hlen
    omega
  · intro hshort
    simp only [decodeEncoded, (toHexstringAt_iff kmalloc hb).mpr hshort, Option.bind_eq_bind,
      Option.bind_some]
    exact hexToBytes_digits signed kmalloc b

theorem encodeDecoded_iff (signed : Bool) (kmalloc : Allocator) {s : List UInt8} (hs : s ≠ [])
    (heven : s.length % 2 = 0) (hdigits : ∀ c ∈ s, IsHexDigit c) :
    encodeDecoded signed kmalloc s = some (some (s.map toUpper ++ [0])) ↔ s.length < 2 ^ 32 := by
  have hlen := length_digitPairs true s
  have hpos := List.length_pos_iff.mpr hs
  have hbytes : digitPairs true s ≠ [] := List.length_pos_iff.mp (by omega)
  have hdecode : hexstringToBytesAt signed kmalloc (s ++ [0]) =
      some (some (digitPairs true s)) := by
    rw [hexstringToBytesAt, hexToBytes_terminated signed kmalloc fun c hc => (hdigits c hc).ascii.1,
      if_neg (by omega), digitPairs_ascii signed true fun c hc => (hdigits c hc).ascii.2]
  simp only [encodeDecoded, hdecode, Option.bind_eq_bind, Option.bind_some]
  rw [← hlen, ← hexDigits_digitPairs heven hdigits, toHexstringAt_iff kmalloc hbytes, hlen]
  omega

/-- The codec is a bijection on strings whose hexadecimal form has a size in
32 bits, and on no others; the decoders agree on ASCII and reject odd
lengths. -/
theorem hex_codec_iff (signed : Bool) (kmalloc : Allocator) :
    (∀ b, b ≠ [] → (decodeEncoded signed kmalloc b = some (some b) ↔ b.length < 2 ^ 31)) ∧
    (∀ s, s ≠ [] → s.length % 2 = 0 → (∀ c ∈ s, IsHexDigit c) →
      (encodeDecoded signed kmalloc s = some (some (s.map toUpper ++ [0])) ↔
        s.length < 2 ^ 32)) ∧
    (∀ t rest, (∀ c ∈ t, c ≠ 0 ∧ c < 128) → t.length % 2 = 0 →
      ∃ bytes, AllDecode (t ++ 0 :: rest) (some bytes)) ∧
    ∀ t rest, (∀ c ∈ t, c ≠ 0) → t.length % 2 = 1 → AllDecode (t ++ 0 :: rest) none := by
  refine ⟨fun b hb => decodeEncoded_iff signed kmalloc hb,
    fun s hs heven hdigits => encodeDecoded_iff signed kmalloc hs heven hdigits, ?_, ?_⟩
  · intro t rest ht heven
    refine ⟨digitPairs true t, fun signed alloc => ?_⟩
    have hall := hexToBytes_terminated signed alloc (fun c hc => (ht c hc).1) rest
    rw [if_neg (by omega), digitPairs_ascii signed true fun c hc => (ht c hc).2] at hall
    exact ⟨hall, hall, hall⟩
  · intro t rest ht hodd signed alloc
    have hall := hexToBytes_terminated signed alloc ht rest
    rw [if_pos (by omega)] at hall
    exact ⟨hall, hall, hall⟩

/-- Two bytes, and four digits in both cases. -/
theorem short_strings_codec :
    decodeEncoded true (fun n => zeros n) [0xAB, 0x0F] = some (some [0xAB, 0x0F]) ∧
    encodeDecoded true (fun n => zeros n) [97, 66, 48, 102] =
      some (some [65, 66, 48, 70, 0]) ∧
    ∃ bytes, AllDecode [97, 66, 48, 102, 0] (some bytes) := by
  obtain ⟨hdecode, hencode, hagree, -⟩ := hex_codec_iff true fun n => zeros n
  refine ⟨(hdecode _ (by simp)).mpr (by simp), ?_, ?_⟩
  · exact (hencode [97, 66, 48, 102] (by simp) rfl (by decide +kernel)).mpr (by simp)
  · exact hagree [97, 66, 48, 102] [] (by decide +kernel) rfl

/-- For 2^31 bytes `kmalloc` is asked for one, and the loop leaves it. -/
theorem long_string_overruns :
    List.replicate (2 ^ 31) (0 : UInt8) ≠ [] ∧ 2 * BitVec.ofNat 32 (2 ^ 31) + 1 = 1#32 ∧
      decodeEncoded true (fun n => zeros n) (List.replicate (2 ^ 31) 0) = none := by
  have hlen : (BitVec.ofNat 32 (2 ^ 31)).toNat = 2 ^ 31 := by
    rw [BitVec.toNat_ofNat]
    rfl
  refine ⟨fun hnil => ?_, by decide, ?_⟩
  · have hzero := congrArg List.length hnil
    rw [List.length_replicate] at hzero
    exact absurd hzero (by decide)
  · rw [decodeEncoded, List.length_replicate, toHexstringAt_long (Nat.le_of_eq hlen.symm)]
    rfl

end Citadel
