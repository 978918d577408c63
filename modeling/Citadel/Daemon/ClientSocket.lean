/-
Citadel.Daemon.ClientSocket — how the daemon reads a request,
`handle_client_socket` of `citadeld/socket.cpp`.

The answer of `read` goes into a `size_t`. So -1 is the largest number
there is: it is added to the count of what was received, and an error is
taken for bytes, since the test `rv < 0` behind it cannot hold. At the end
of the stream no branch applies, and the loop turns without counting an
attempt.

  §1  the loop, over the outcomes of `read`;
  §2  where it stands after outcomes that do not end it;
  §3  what it ends with;
  §4  on which sequences it ends and counts correctly (`client_served_iff`).
-/
import Mathlib.Algebra.Group.Nat.Defs
import Citadel.Daemon.Socket
import Citadel.Lib.Loop
import Citadel.Libcitadel.Ipc

namespace Citadel.Daemon

open Bytes Enclave
open Libcitadel (ReadResult Delivery)

/-! ## §1 The loop -/

/-- `ipc_timeout`. -/
def ipcTimeout : Nat := 100 * 1000

/-- The answer of `read`, in the variable it is stored in. -/
def readRv : ReadResult → BitVec 64
  | .again => -1
  | .data bytes => BitVec.ofNat 64 bytes.1.length
  | .error => -1

/-- What a read puts into the buffer. -/
def readBytes : ReadResult → List UInt8
  | .again => []
  | .data bytes => bytes.1
  | .error => []

/-- `errno` after the read is `EWOULDBLOCK` or `EAGAIN`. -/
def blocked : ReadResult → Bool
  | .again => true
  | .data _ => false
  | .error => false

/-- The variables of the loop. -/
structure Reader where
  attempts : Nat
  received : BitVec 64
  deriving DecidableEq

/-- The call of `send_response`: what the last read put into the buffer, and
`message_len`. -/
structure Passed where
  bytes : List UInt8
  messageLen : BitVec 64
  deriving DecidableEq

/-- One turn. The guard of the loop always holds: the turn after which it
would not leaves by `break`. -/
def readerBody (s : Reader) (outcome : ReadResult) : Reader ⊕ Option Passed :=
  let rv := readRv outcome
  let received := s.received + (if 0 < rv then rv else 0)
  if rv = -1 ∧ blocked outcome then
    if s.attempts + 1 ≥ ipcTimeout then .inr none
    else .inl ⟨s.attempts + 1, received⟩
  else if 0 < rv then .inr (some ⟨readBytes outcome, received⟩)
  else if rv < 0 then .inr none
  else .inl ⟨s.attempts, received⟩

def startReader : Reader := ⟨0, 0⟩

section

variable {σ : Type} (A : Aead AesKey ivLength tagLength) (calls : HostCalls σ)
  (xattr : σ → List UInt8 → Option (List UInt8))

/-- `handle_client_socket`: the new state and the reply, if one is sent.
`buffer` is the array before the first read; `send_response` gets its first
`message_len` bytes. A length beyond the array is a wrapped count: it is no
valid size, so nobody is asked, and `write` refuses it. -/
def handleClientSocket (env : MessageEnv) (s : DaemonState σ) (pid : Pid)
    (buffer : Block opExtendedRequestSize) (reads : List ReadResult) :
    Option (DaemonState σ × Option (List UInt8)) :=
  match Loop.run readerBody startReader reads with
  | .inr (some passed) =>
    if passed.messageLen.toNat ≤ opExtendedRequestSize then do
      let buffer ← write buffer.1 0 passed.bytes
      let message ← read buffer 0 passed.messageLen.toNat
      let (s, reply) ← sendResponse A calls xattr env s pid message.1
      some (s, some reply)
    else some (s, none)
  | _ => some (s, none)

end

/-! ## §2 Waiting -/

/-- Would-block and end of file: outcomes that do not end the loop by
themselves. -/
def Quiet : ReadResult → Prop
  | .again => True
  | .data bytes => bytes.1 = []
  | .error => False

/-- How often `read` would have blocked. -/
def blocks (outcomes : List ReadResult) : Nat := outcomes.countP blocked

theorem length_lt_size (bytes : Delivery) : bytes.1.length < 2 ^ 64 := by
  have hfits := bytes.2
  have hsize : opExtendedRequestSize < 2 ^ 64 := by decide
  omega

theorem readRv_data_pos {bytes : Delivery} (h : bytes.1 ≠ []) : 0 < readRv (.data bytes) := by
  have hpos : 0 < bytes.1.length := List.length_pos_iff.mpr h
  rw [BitVec.lt_def, readRv, BitVec.toNat_ofNat, Nat.mod_eq_of_lt (length_lt_size bytes)]
  exact hpos

theorem minus_one_pos : (0 : BitVec 64) < -1 := by decide

theorem readerBody_again (s : Reader) :
    readerBody s .again = if s.attempts + 1 ≥ ipcTimeout then .inr none
      else .inl ⟨s.attempts + 1, s.received + -1⟩ := by
  simp only [readerBody, readRv, blocked, and_self, if_true, minus_one_pos]

/-- An error is taken for bytes. -/
theorem readerBody_error (s : Reader) :
    readerBody s .error = .inr (some ⟨[], s.received + -1⟩) := by
  simp only [readerBody, readRv, blocked, Bool.false_eq_true, and_false, if_false,
    minus_one_pos, if_true, readBytes]

/-- The end of the stream is taken for nothing. -/
theorem readerBody_eof (s : Reader) {bytes : Delivery} (h : bytes.1 = []) :
    readerBody s (.data bytes) = .inl s := by
  have hrv : readRv (.data bytes) = 0 := by simp [readRv, h]
  simp [readerBody, hrv, blocked]

theorem readerBody_data (s : Reader) {bytes : Delivery} (h : bytes.1 ≠ []) :
    readerBody s (.data bytes) =
      .inr (some ⟨bytes.1, s.received + BitVec.ofNat 64 bytes.1.length⟩) := by
  have hpos := readRv_data_pos h
  simp only [readerBody, blocked, Bool.false_eq_true, and_false, if_false, hpos,
    if_true]
  rfl

/-- The quiet outcome that ends the loop is the last attempt. -/
theorem readerBody_quiet {s : Reader} {o : ReadResult} {r : Option Passed} (hq : Quiet o)
    (h : readerBody s o = .inr r) : r = none ∧ o = .again ∧ s.attempts + 1 ≥ ipcTimeout := by
  cases o with
  | again =>
    rw [readerBody_again] at h
    split at h
    · rename_i hlast
      cases h
      exact ⟨rfl, rfl, hlast⟩
    · cases h
  | data bytes =>
    rw [readerBody_eof s hq] at h
    cases h
  | error => exact hq.elim

theorem blocks_cons_again (os : List ReadResult) : blocks (.again :: os) = blocks os + 1 :=
  List.countP_cons_of_pos rfl

theorem blocks_cons_data (bytes : Delivery) (os : List ReadResult) :
    blocks (.data bytes :: os) = blocks os :=
  List.countP_cons_of_neg (by simp [blocked])

/-- The loop waits for more exactly as long as all was quiet and it has
attempts left. It has then counted one byte less for each attempt. -/
theorem run_inl_iff {s s' : Reader} {os : List ReadResult} (hs : s.attempts < ipcTimeout) :
    Loop.run readerBody s os = .inl s' ↔ (∀ o ∈ os, Quiet o) ∧
      s.attempts + blocks os < ipcTimeout ∧
      s' = ⟨s.attempts + blocks os, s.received - BitVec.ofNat 64 (blocks os)⟩ := by
  induction os generalizing s with
  | nil =>
    simp [Loop.run, blocks, hs, eq_comm]
  | cons o os ih =>
    cases o with
    | again =>
      have hb := readerBody_again s
      by_cases hlast : s.attempts + 1 ≥ ipcTimeout
      · rw [if_pos hlast] at hb
        rw [Loop.run_cons_inr hb, blocks_cons_again]
        refine iff_of_false (by simp) ?_
        rintro ⟨-, hlt, -⟩
        omega
      · rw [if_neg hlast] at hb
        have hcount : s.received + -1 - BitVec.ofNat 64 (blocks os) =
            s.received - BitVec.ofNat 64 (blocks os + 1) := by
          rw [BitVec.ofNat_add]
          grind
        rw [Loop.run_cons_inl hb, ih (Nat.lt_of_not_le hlast), blocks_cons_again, hcount,
          List.forall_mem_cons]
        simp only [Quiet, true_and, Nat.add_assoc, Nat.add_comm 1]
    | data bytes =>
      by_cases hend : bytes.1 = []
      · rw [Loop.run_cons_inl (readerBody_eof s hend), ih hs, blocks_cons_data,
          List.forall_mem_cons]
        simp [Quiet, hend]
      · rw [Loop.run_cons_inr (readerBody_data s hend)]
        refine iff_of_false (by simp) ?_
        rintro ⟨hq, -, -⟩
        exact hend (hq _ List.mem_cons_self)
    | error =>
      rw [Loop.run_cons_inr (readerBody_error s)]
      refine iff_of_false (by simp) ?_
      rintro ⟨hq, -, -⟩
      exact hq _ List.mem_cons_self

/-! ## §3 The end -/

/-- `message_len` is what was read, and no more than the buffer holds. -/
def Passed.Right (p : Passed) : Prop :=
  p.messageLen.toNat = p.bytes.length ∧ p.messageLen.toNat ≤ opExtendedRequestSize

/-- The count after `b` attempts, and `n` more. -/
theorem received_toNat {b : Nat} (hb : b < ipcTimeout) (n : BitVec 64) :
    (0 - BitVec.ofNat 64 b + n).toNat = (2 ^ 64 - b + n.toNat) % 2 ^ 64 := by
  have htime : ipcTimeout = 100000 := rfl
  have hsmall : b < 2 ^ 64 := by omega
  have hzero : (0 : BitVec 64).toNat = 0 := rfl
  rw [BitVec.toNat_add, BitVec.toNat_sub, BitVec.toNat_ofNat, Nat.mod_eq_of_lt hsmall, hzero]
  omega

/-- The first outcome that is not quiet is passed on with the right length
exactly if it is data and no attempt went before it. -/
theorem passed_right_iff {b : Nat} (hb : b < ipcTimeout) {o : ReadResult} (ho : ¬ Quiet o) :
    ∃ p, readerBody ⟨b, 0 - BitVec.ofNat 64 b⟩ o = .inr (some p) ∧
      (p.Right ↔ b = 0 ∧ ∃ bytes, o = .data bytes) := by
  have htime : ipcTimeout = 100000 := rfl
  cases o with
  | again => exact (ho trivial).elim
  | data bytes =>
    refine ⟨_, readerBody_data _ ho, ?_⟩
    have hfits := bytes.2
    have hsize : opExtendedRequestSize = 4188 := rfl
    have hlen : (BitVec.ofNat 64 bytes.1.length).toNat = bytes.1.length := by
      rw [BitVec.toNat_ofNat, Nat.mod_eq_of_lt (length_lt_size bytes)]
    have hpassed := received_toNat hb (BitVec.ofNat 64 bytes.1.length)
    rw [hlen] at hpassed
    simp only [Passed.Right, hpassed]
    constructor
    · rintro ⟨hright, -⟩
      exact ⟨by omega, bytes, rfl⟩
    · rintro ⟨hzero, -⟩
      omega
  | error =>
    refine ⟨_, readerBody_error _, iff_of_false ?_ ?_⟩
    · rintro ⟨hright, -⟩
      have hpassed := received_toNat hb (-1)
      have hmax : (-1 : BitVec 64).toNat = 2 ^ 64 - 1 := by decide
      rw [hmax] at hpassed
      simp only [hpassed, List.length_nil] at hright
      omega
    · rintro ⟨-, bytes, hdata⟩
      cases hdata

section

variable {σ : Type} (A : Aead AesKey ivLength tagLength) (calls : HostCalls σ)
  (xattr : σ → List UInt8 → Option (List UInt8))

/-- With the right length, what is answered is the message that was read,
whatever stood in the buffer. -/
theorem handleClientSocket_of_right (env : MessageEnv) (s : DaemonState σ) (pid : Pid)
    (buffer : Block opExtendedRequestSize) {reads : List ReadResult} {p : Passed}
    (hrun : Loop.run readerBody startReader reads = .inr (some p)) (hp : p.Right) :
    handleClientSocket A calls xattr env s pid buffer reads =
      (sendResponse A calls xattr env s pid p.bytes).map fun r => (r.1, some r.2) := by
  obtain ⟨hlen, hfits⟩ := hp
  have hwrite : write buffer.1 0 p.bytes =
      some (p.bytes ++ buffer.1.drop (0 + p.bytes.length)) := by
    rw [write, if_pos (by rw [buffer.2]; omega)]
    rfl
  have hread : read (p.bytes ++ buffer.1.drop (0 + p.bytes.length)) 0 p.messageLen.toNat =
      some ⟨p.bytes, hlen.symm⟩ := read_front ⟨p.bytes, hlen.symm⟩ _
  rw [handleClientSocket, hrun]
  simp only [if_pos hfits, hwrite, hread, Option.bind_eq_bind, Option.bind_some]
  cases sendResponse A calls xattr env s pid p.bytes <;> rfl

end

/-! ## §4 Sequences of outcomes -/

/-- All was quiet, and attempts are left. -/
def Waits (outcomes : List ReadResult) : Prop :=
  (∀ o ∈ outcomes, Quiet o) ∧ blocks outcomes < ipcTimeout

theorem run_startReader_inl_iff {s : Reader} {os : List ReadResult} :
    Loop.run readerBody startReader os = .inl s ↔
      Waits os ∧ s = ⟨blocks os, 0 - BitVec.ofNat 64 (blocks os)⟩ := by
  rw [run_inl_iff (show startReader.attempts < ipcTimeout by decide), Waits, and_assoc]
  simp only [startReader, Nat.zero_add]

/-- What `read` answers on one connection. A finite sequence leaves the loop
waiting in a `read` if it has not ended. -/
inductive ReadSequence where
  | finite (outcomes : List ReadResult)
  | infinite (outcomes : Nat → ReadResult)

/-- The reader ends, as far as it has outcomes, and what it passes on it has
counted correctly. -/
def ReadSequence.Served : ReadSequence → Prop
  | .finite os => ∀ p, Loop.run readerBody startReader os = .inr (some p) → p.Right
  | .infinite f => (∃ r, Loop.Ends readerBody startReader f r) ∧
      ∀ p, Loop.Ends readerBody startReader f (some p) → p.Right

/-- The first outcome other than would-block and end of file is data, and
there was no would-block before it, or `ipc_timeout` of them; an infinite
sequence has one or the other. -/
def ReadSequence.Prompt : ReadSequence → Prop
  | .finite os => ∀ pre o post, os = pre ++ o :: post → Waits pre → ¬ Quiet o →
      blocks pre = 0 ∧ ∃ bytes, o = .data bytes
  | .infinite f => ∃ k, (∀ i < k, Quiet (f i)) ∧
      (blocks (Loop.upTo f k) = ipcTimeout ∨
        (blocks (Loop.upTo f k) = 0 ∧ ¬ Quiet (f k) ∧ ∃ bytes, f k = .data bytes))

theorem finite_served_iff (os : List ReadResult) :
    (ReadSequence.finite os).Served ↔ (ReadSequence.finite os).Prompt := by
  constructor
  · intro h pre o post hos hwaits ho
    obtain ⟨p, hbody, hright⟩ := passed_right_iff hwaits.2 ho
    have hrun := run_startReader_inl_iff.mpr ⟨hwaits, rfl⟩
    exact hright.mp (h p (Loop.run_inr_iff.mpr ⟨pre, o, post, _, hos, hrun, hbody⟩))
  · intro h p hrun
    obtain ⟨pre, o, post, s, hos, hpre, hbody⟩ := Loop.run_inr_iff.mp hrun
    obtain ⟨hwaits, rfl⟩ := run_startReader_inl_iff.mp hpre
    by_cases ho : Quiet o
    · cases (readerBody_quiet ho hbody).1
    · obtain ⟨p', hbody', hright⟩ := passed_right_iff hwaits.2 ho
      rw [hbody] at hbody'
      cases hbody'
      exact hright.mpr (h pre o post hos hwaits ho)

/-- A sequence that has been quiet for `ipc_timeout` attempts ends with
nothing passed on. -/
theorem ends_of_timeout {f : Nat → ReadResult} {k : Nat} (hquiet : ∀ i < k, Quiet (f i))
    (hblocks : blocks (Loop.upTo f k) = ipcTimeout) :
    Loop.Ends readerBody startReader f none := by
  cases hrun : Loop.run readerBody startReader (Loop.upTo f k) with
  | inl s =>
    obtain ⟨hwaits, -⟩ := run_startReader_inl_iff.mp hrun
    exact absurd hwaits.2 (by omega)
  | inr r =>
    obtain ⟨pre, o, post, s, hos, -, hbody⟩ := Loop.run_inr_iff.mp hrun
    have ho : o ∈ Loop.upTo f k := by simp [hos]
    obtain ⟨i, hi, rfl⟩ := Loop.mem_upTo.mp ho
    cases (readerBody_quiet (hquiet i hi) hbody).1
    exact ⟨k, hrun⟩

theorem infinite_served_iff (f : Nat → ReadResult) :
    (ReadSequence.infinite f).Served ↔ (ReadSequence.infinite f).Prompt := by
  constructor
  · rintro ⟨⟨r, hends⟩, hpassed⟩
    obtain ⟨k, s, hrun, hbody⟩ := Loop.ends_iff.mp hends
    obtain ⟨hwaits, rfl⟩ := run_startReader_inl_iff.mp hrun
    have hquiet : ∀ i < k, Quiet (f i) := fun i hi => hwaits.1 _ (Loop.mem_upTo.mpr ⟨i, hi, rfl⟩)
    by_cases ho : Quiet (f k)
    · obtain ⟨-, hagain, hlast⟩ := readerBody_quiet ho hbody
      have hcount : blocks (Loop.upTo f (k + 1)) = blocks (Loop.upTo f k) + 1 := by
        rw [Loop.upTo_succ, hagain, blocks, List.countP_append]
        rfl
      refine ⟨k + 1, fun i hi => ?_, .inl ?_⟩
      · rcases Nat.lt_succ_iff_lt_or_eq.mp hi with hlt | rfl
        · exact hquiet i hlt
        · exact ho
      · have hleft := hwaits.2
        simp only at hlast
        omega
    · obtain ⟨p, hbody', hright⟩ := passed_right_iff hwaits.2 ho
      rw [hbody] at hbody'
      cases hbody'
      obtain ⟨hzero, bytes, hdata⟩ := hright.mp (hpassed p hends)
      exact ⟨k, hquiet, .inr ⟨hzero, ho, bytes, hdata⟩⟩
  · rintro ⟨k, hquiet, hblocks | ⟨hzero, ho, hdata⟩⟩
    · have hends := ends_of_timeout hquiet hblocks
      refine ⟨⟨none, hends⟩, fun p hp => ?_⟩
      cases hends.unique hp
    · have hwaits : Waits (Loop.upTo f k) := by
        refine ⟨fun o hmem => ?_, by rw [hzero]; decide⟩
        obtain ⟨i, hi, rfl⟩ := Loop.mem_upTo.mp hmem
        exact hquiet i hi
      obtain ⟨p, hbody, hright⟩ := passed_right_iff hwaits.2 ho
      have hends : Loop.Ends readerBody startReader f (some p) :=
        Loop.ends_iff.mpr ⟨k, _, run_startReader_inl_iff.mpr ⟨hwaits, rfl⟩, hbody⟩
      refine ⟨⟨some p, hends⟩, fun p' hp' => ?_⟩
      cases hends.unique hp'
      exact hright.mpr ⟨hzero, hdata⟩

theorem client_served_iff (sequence : ReadSequence) : sequence.Served ↔ sequence.Prompt := by
  cases sequence with
  | finite os => exact finite_served_iff os
  | infinite f => exact infinite_served_iff f

/-- One would-block before the request, and it is one byte short. An error,
and the length is 2⁶⁴ - 1. The end of the stream, and the loop never ends. -/
theorem reader_miscounts_and_hangs :
    ¬ (ReadSequence.finite [.again, .data ⟨[1, 2, 3], by decide⟩]).Served ∧
    ¬ (ReadSequence.finite [.error]).Served ∧
    ¬ (ReadSequence.infinite fun _ => .data ⟨[], by decide⟩).Served := by
  refine ⟨?_, ?_, ?_⟩
  · intro h
    have hright := h ⟨[1, 2, 3], 2⟩ rfl
    exact absurd hright.1 (by decide)
  · intro h
    have hright := h ⟨[], -1⟩ rfl
    exact absurd hright.1 (by decide)
  · rintro ⟨⟨r, hends⟩, -⟩
    obtain ⟨k, s, -, hbody⟩ := Loop.ends_iff.mp hends
    rw [readerBody_eof s rfl] at hbody
    cases hbody

end Citadel.Daemon
