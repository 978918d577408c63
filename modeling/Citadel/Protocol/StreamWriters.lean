/-
Citadel.Protocol.StreamWriters — the two loops that write a message to a
socket: `ipc_send` of `libcitadel/src/ipc.c` and the end of `send_response`
of `citadeld/socket.cpp`.

Both call `write` until it has taken as many bytes as the message has, and
both call it with the whole message each time. After a write that took a
part, the next one starts at the front again.

The control flow depends on the length and on what the writes take, not on
the bytes, so the loops run over counts; `wire` is what the peer gets of a
message. Then

  §1  the loops;
  §2  which counts bring any message across (`wire_probe`);
  §3  when `ipc_send` returns true (`ipcSend_true_iff`);
  §4  when the loop of `send_response` ends, and how;
  §5  on which outcomes every message arrives once
      (`delivers_once_iff`).
-/
import Mathlib.Algebra.GroupWithZero.Nat
import Citadel.Daemon.ClientSocket

namespace Citadel.Stream

open Bytes
open Daemon (ipcTimeout)

/-! ## §1 The loops -/

/-- The most one `write` transfers on Linux; it fits an `int`. -/
def maxRwCount : Nat := 0x7ffff000

/-- The answer of a `write` of `len` bytes: some were taken, the call would
have blocked, or it failed otherwise. -/
inductive WriteOutcome (len : Nat) where
  | took (count : Nat) (within : count ≤ len) (limit : count ≤ maxRwCount)
  | again
  | error

namespace WriteOutcome

variable {len : Nat}

/-- `rv`. -/
def rv : WriteOutcome len → Int
  | .took count _ _ => count
  | .again => -1
  | .error => -1

/-- `errno` after the write is `EWOULDBLOCK` or `EAGAIN`. -/
def blocked : WriteOutcome len → Bool
  | .took _ _ _ => false
  | .again => true
  | .error => false

/-- `(rv > 0 ? rv : 0)`, the bytes the peer gets. -/
def count (o : WriteOutcome len) : Nat := if 0 < o.rv then o.rv.toNat else 0

end WriteOutcome

/-- The variables of either loop, with what each write so far has taken. -/
structure Writer where
  attempts : Nat
  sent : BitVec 64
  counts : List Nat

def startWriter : Writer := ⟨0, 0, []⟩

/-- What the peer gets: each write starts at the front of the message. -/
def wire (message : List UInt8) (counts : List Nat) : List UInt8 :=
  counts.flatMap fun count => message.take count

/-- One turn of `ipc_send`: what it returns, and what was taken. -/
def ipcSendBody (len : BitVec 64) (s : Writer) (o : WriteOutcome len.toNat) :
    Writer ⊕ (Bool × List Nat) :=
  let sent := s.sent + BitVec.ofNat 64 o.count
  let counts := s.counts ++ [o.count]
  if sent < len ∨ (o.rv = -1 ∧ o.blocked) then
    if s.attempts + 1 ≥ Libcitadel.ipcTimeout then .inr (false, counts)
    else .inl ⟨s.attempts + 1, sent, counts⟩
  else if sent = len then .inr (true, counts)
  else .inr (false, counts)

/-- How the loop of `send_response` is left. -/
inductive SendEnd where
  | timedOut
  | allSent
  | failed
  deriving DecidableEq

/-- One turn of the loop of `send_response`. Only a write that fails counts
as an attempt. -/
def sendResponseBody (len : BitVec 64) (s : Writer) (o : WriteOutcome len.toNat) :
    Writer ⊕ (SendEnd × List Nat) :=
  let sent := s.sent + BitVec.ofNat 64 o.count
  let counts := s.counts ++ [o.count]
  if o.rv = -1 ∧ (sent < len ∨ o.blocked) then
    if s.attempts + 1 ≥ ipcTimeout then .inr (.timedOut, counts)
    else .inl ⟨s.attempts + 1, sent, counts⟩
  else if sent = len then .inr (.allSent, counts)
  else if o.rv < 0 then .inr (.failed, counts)
  else .inl ⟨s.attempts, sent, counts⟩

/-! ## §2 What arrives -/

theorem wire_cons (message : List UInt8) (count : Nat) (counts : List Nat) :
    wire message (count :: counts) = message.take count ++ wire message counts := rfl

/-- Writes that take nothing, and one that takes everything. -/
theorem wire_of_whole {message : List UInt8} {counts : List Nat} {count : Nat}
    (hzero : ∀ c ∈ counts, c = 0) (hall : message.length ≤ count) :
    wire message (counts ++ [count]) = message := by
  induction counts with
  | nil => simp [wire, List.take_of_length_le hall]
  | cons c counts ih =>
    obtain ⟨rfl, hrest⟩ := List.forall_mem_cons.mp hzero
    rw [List.cons_append, wire_cons, List.take_zero, List.nil_append]
    exact ih hrest

/-- A message whose first byte does not occur again. -/
def probe (n : Nat) : List UInt8 := 0 :: List.replicate n 1

/-- A byte behind the first of `probe` is never the first of a write. -/
theorem wire_probe_head (n : Nat) (counts : List Nat) (rest : List UInt8) :
    wire (probe n) counts ≠ 1 :: rest := by
  induction counts with
  | nil => exact List.cons_ne_nil 1 rest |>.symm
  | cons c counts ih =>
    cases c with
    | zero => exact ih
    | succ c =>
      intro h
      rw [wire_cons, probe, List.take_succ_cons, List.cons_append] at h
      cases h

/-- What brings `probe` across is a first write that takes all of it. -/
theorem wire_probe {n : Nat} {zeros counts : List Nat} {c : Nat} (hzero : ∀ d ∈ zeros, d = 0)
    (hpos : 0 < c) (h : wire (probe n) (zeros ++ c :: counts) = probe n) : n + 1 ≤ c := by
  induction zeros with
  | nil =>
    by_contra hlt
    rw [List.nil_append, wire_cons] at h
    have hcut := List.take_append_drop c (probe n)
    nth_rewrite 3 [← hcut] at h
    have hrest : wire (probe n) counts = (probe n).drop c := List.append_cancel_left h
    obtain ⟨c, rfl⟩ : ∃ d, c = d + 1 := ⟨c - 1, by omega⟩
    obtain ⟨m, hm⟩ : ∃ m, n - c = m + 1 := ⟨n - c - 1, by omega⟩
    rw [probe, List.drop_succ_cons, List.drop_replicate, hm, List.replicate_succ] at hrest
    exact wire_probe_head n counts _ hrest
  | cons d zeros ih =>
    obtain ⟨rfl, hrest⟩ := List.forall_mem_cons.mp hzero
    exact ih hrest h

/-! ## §3 `ipc_send` -/

section

variable {len : BitVec 64} (f : Nat → WriteOutcome len.toNat)

/-- What the first `k` writes took. -/
def counted (k : Nat) : List Nat := (Loop.upTo f k).map WriteOutcome.count

/-- `sent` after `k` writes. -/
def sentAfter (k : Nat) : BitVec 64 := BitVec.ofNat 64 (counted f k).sum

theorem counted_succ (k : Nat) : counted f (k + 1) = counted f k ++ [(f k).count] := by
  rw [counted, Loop.upTo_succ, List.map_append]
  rfl

theorem sentAfter_zero : sentAfter f 0 = 0 := rfl

theorem sentAfter_succ (k : Nat) :
    sentAfter f (k + 1) = sentAfter f k + BitVec.ofNat 64 (f k).count := by
  rw [sentAfter, counted_succ, List.sum_append, List.sum_singleton, BitVec.ofNat_add]
  rfl

theorem count_of_rv {n : Nat} {o : WriteOutcome n} (h : o.rv = -1) : o.count = 0 := by
  simp [WriteOutcome.count, h]

/-- A write that fails leaves the count. -/
theorem sentAfter_of_rv {k : Nat} (h : (f k).rv = -1) : sentAfter f (k + 1) = sentAfter f k := by
  rw [sentAfter_succ, count_of_rv h]
  exact BitVec.add_zero _

/-- The variables of `ipc_send` after `k` writes that did not end it. -/
def ipcSendAt (k : Nat) : Writer := ⟨k, sentAfter f k, counted f k⟩

/-- Turn `k` of `ipc_send` goes on: every such turn is an attempt. -/
def IpcSendGoesOn (k : Nat) : Prop := k + 1 < Libcitadel.ipcTimeout ∧ sentAfter f (k + 1) < len

variable {f}

theorem sentAfter_lt (hlen : 0 < len) {k : Nat} (h : ∀ j < k, IpcSendGoesOn f j) :
    sentAfter f k < len := by
  cases k with
  | zero => exact hlen
  | succ k => exact (h k (Nat.lt_succ_self k)).2

/-- In the state after `k` writes, turn `k`. -/
theorem ipcSendBody_eq (hlen : 0 < len) {k : Nat} (h : ∀ j < k, IpcSendGoesOn f j) :
    ipcSendBody len (ipcSendAt f k) (f k) =
      if sentAfter f (k + 1) < len then
        if k + 1 ≥ Libcitadel.ipcTimeout then .inr (false, counted f (k + 1))
        else .inl (ipcSendAt f (k + 1))
      else if sentAfter f (k + 1) = len then .inr (true, counted f (k + 1))
      else .inr (false, counted f (k + 1)) := by
  have hblocked : (sentAfter f (k + 1) < len ∨ ((f k).rv = -1 ∧ (f k).blocked)) ↔
      sentAfter f (k + 1) < len := by
    constructor
    · rintro (hlt | ⟨hrv, -⟩)
      · exact hlt
      · rw [sentAfter_of_rv f hrv]
        exact sentAfter_lt hlen h
    · exact .inl
  simp only [ipcSendBody, ipcSendAt, ← sentAfter_succ, ← counted_succ, hblocked]

theorem ipcSend_ends_iff (hlen : 0 < len) {r : Bool × List Nat} :
    Loop.Ends (ipcSendBody len) startWriter f r ↔ ∃ k, (∀ j < k, IpcSendGoesOn f j) ∧
      ipcSendBody len (ipcSendAt f k) (f k) = .inr r := by
  have hstart : startWriter = ipcSendAt f 0 := rfl
  rw [hstart]
  refine Loop.ends_closed (G := ipcSendAt f) (C := IpcSendGoesOn f) ?_ ?_
  · intro k hall hk
    rw [ipcSendBody_eq hlen hall, if_pos hk.2, if_neg (Nat.not_le.mpr hk.1)]
  · intro k hall hk
    rw [ipcSendBody_eq hlen hall]
    split
    · rename_i hlt
      rw [if_pos (Nat.not_lt.mp fun htime => hk ⟨htime, hlt⟩)]
      exact ⟨_, rfl⟩
    · split <;> exact ⟨_, rfl⟩

variable (len f) in
/-- Within `ipc_timeout` writes the counts add up to the length, and no
earlier sum reaches it. -/
def ClientAddsUp : Prop :=
  ∃ k < Libcitadel.ipcTimeout, (∀ j ≤ k, sentAfter f j < len) ∧ sentAfter f (k + 1) = len

/-- `ipc_send` returns true exactly if the counts add up. -/
theorem ipcSend_true_iff (hlen : 0 < len) {counts : List Nat} :
    Loop.Ends (ipcSendBody len) startWriter f (true, counts) ↔
      ∃ k < Libcitadel.ipcTimeout, (∀ j ≤ k, sentAfter f j < len) ∧ sentAfter f (k + 1) = len ∧
        counts = counted f (k + 1) := by
  rw [ipcSend_ends_iff hlen]
  constructor
  · rintro ⟨k, hall, hbody⟩
    rw [ipcSendBody_eq hlen hall] at hbody
    split at hbody
    · split at hbody <;> cases hbody
    · split at hbody
      · rename_i hsent
        cases hbody
        refine ⟨k, ?_, fun j hj => sentAfter_lt hlen fun i hi => hall i (by omega), hsent, rfl⟩
        cases k with
        | zero => decide
        | succ k => exact (hall k (Nat.lt_succ_self k)).1
      · cases hbody
  · rintro ⟨k, htime, hlt, hsent, rfl⟩
    have hall : ∀ j < k, IpcSendGoesOn f j := fun j hj => ⟨by omega, hlt (j + 1) hj⟩
    refine ⟨k, hall, ?_⟩
    rw [ipcSendBody_eq hlen hall, if_neg (by rw [hsent]; exact BitVec.lt_irrefl len),
      if_pos hsent]

/-- A write as `Libcitadel.ipcSend` has it, without `errno`. -/
def WriteOutcome.taken {n : Nat} : WriteOutcome n → Option Nat
  | .took count _ _ => some count
  | .again => none
  | .error => none

theorem taken_getD {n : Nat} (o : WriteOutcome n) : o.taken.getD 0 = o.count := by
  cases o with
  | took count within limit =>
    rcases Nat.eq_zero_or_pos count with rfl | hpos
    · rfl
    · have hrv : 0 < (WriteOutcome.took count within limit).rv := Int.natCast_pos.mpr hpos
      rw [WriteOutcome.count, if_pos hrv]
      rfl
  | again => rfl
  | error => rfl

theorem count_le_maxRwCount {n : Nat} (o : WriteOutcome n) : o.count ≤ maxRwCount := by
  rw [← taken_getD]
  cases o with
  | took count within limit => exact limit
  | again => exact Nat.zero_le _
  | error => exact Nat.zero_le _

section Numbers

variable {s : Writer}

/-- For messages that exist the count does not wrap. -/
theorem sent_add_toNat (hfits : len.toNat + maxRwCount < 2 ^ 64) (hs : s.sent < len)
    (o : WriteOutcome len.toNat) :
    (s.sent + BitVec.ofNat 64 o.count).toNat = s.sent.toNat + o.count := by
  have hcount := count_le_maxRwCount o
  have hlt := BitVec.lt_def.mp hs
  rw [BitVec.toNat_add, BitVec.toNat_ofNat, Nat.mod_eq_of_lt (a := o.count) (by omega),
    Nat.mod_eq_of_lt (by omega)]

/-- One turn of `ipc_send`, in numbers. -/
theorem ipcSendBody_nat (hfits : len.toNat + maxRwCount < 2 ^ 64) (hs : s.sent < len)
    (o : WriteOutcome len.toNat) :
    ipcSendBody len s o =
      if s.sent.toNat + o.count < len.toNat then
        if s.attempts + 1 ≥ Libcitadel.ipcTimeout then .inr (false, s.counts ++ [o.count])
        else .inl ⟨s.attempts + 1, s.sent + BitVec.ofNat 64 o.count, s.counts ++ [o.count]⟩
      else .inr (s.sent.toNat + o.count == len.toNat, s.counts ++ [o.count]) := by
  have hsent := sent_add_toNat hfits hs o
  have hblocked : (s.sent + BitVec.ofNat 64 o.count < len ∨ (o.rv = -1 ∧ o.blocked)) ↔
      s.sent.toNat + o.count < len.toNat := by
    rw [BitVec.lt_def, hsent]
    constructor
    · rintro (hlt | ⟨hrv, -⟩)
      · exact hlt
      · rw [count_of_rv hrv]
        exact BitVec.lt_def.mp hs
    · exact .inl
  have heq : s.sent + BitVec.ofNat 64 o.count = len ↔ s.sent.toNat + o.count = len.toNat := by
    rw [← BitVec.toNat_inj, hsent]
  rw [ipcSendBody]
  by_cases hmore : s.sent.toNat + o.count < len.toNat
  · rw [if_pos (hblocked.mpr hmore), if_pos hmore]
  · rw [if_neg fun hb => hmore (hblocked.mp hb), if_neg hmore]
    by_cases hall : s.sent.toNat + o.count = len.toNat
    · rw [if_pos (heq.mpr hall), beq_iff_eq.mpr hall]
    · rw [if_neg fun hb => hall (heq.mp hb), beq_eq_false_iff_ne.mpr hall]

end Numbers

/-- For messages that exist, the count does not wrap and the model of
`ipc_transaction` has what this loop sends. -/
theorem ipcSend_of_run (message : Block len.toNat) (hfits : len.toNat + maxRwCount < 2 ^ 64)
    {os : List (WriteOutcome len.toNat)} {s : Writer} {r : Bool × List Nat}
    (hs : s.sent < len) (h : Loop.run (ipcSendBody len) s os = .inr r) :
    ∃ sent, Libcitadel.ipcSend message.1 s.sent.toNat s.attempts (os.map WriteOutcome.taken) =
      (r.1, sent) ∧ wire message.1 r.2 = wire message.1 s.counts ++ sent := by
  induction os generalizing s with
  | nil => cases h
  | cons o os ih =>
    have hbody := ipcSendBody_nat hfits hs o
    have hsent := sent_add_toNat hfits hs o
    have hwire : wire message.1 (s.counts ++ [o.count]) =
        wire message.1 s.counts ++ message.1.take o.count := by
      simp [wire]
    rw [List.map_cons, Libcitadel.ipcSend, taken_getD]
    simp only [message.2]
    by_cases hmore : s.sent.toNat + o.count < len.toNat
    · rw [if_pos hmore] at hbody ⊢
      by_cases hlast : s.attempts + 1 ≥ Libcitadel.ipcTimeout
      · rw [if_pos hlast] at hbody ⊢
        rw [Loop.run_cons_inr hbody] at h
        cases h
        exact ⟨_, rfl, hwire⟩
      · rw [if_neg hlast] at hbody ⊢
        rw [Loop.run_cons_inl hbody] at h
        obtain ⟨sent, hrest, hall⟩ := ih (by rw [BitVec.lt_def, hsent]; exact hmore) h
        simp only [hsent] at hrest
        rw [hrest]
        exact ⟨_, rfl, by rw [hall, hwire, List.append_assoc]⟩
    · rw [if_neg hmore] at hbody ⊢
      rw [Loop.run_cons_inr hbody] at h
      cases h
      exact ⟨_, rfl, hwire⟩

/-! ## §4 `send_response` -/

variable (f) in
/-- How many of the first `k` writes failed. -/
def failures (k : Nat) : Nat := (Loop.upTo f k).countP fun o => o.rv = -1

variable (f) in
/-- Turn `k` of `send_response` goes on: after a write that fails, if
attempts are left and it would have blocked or not all is sent; after
another, unless exactly all is sent. -/
def SendGoesOn (k : Nat) : Prop :=
  if (f k).rv = -1 then
    failures f (k + 1) < ipcTimeout ∧ (sentAfter f (k + 1) < len ∨ (f k).blocked)
  else sentAfter f (k + 1) ≠ len

theorem failures_succ (k : Nat) :
    failures f (k + 1) = failures f k + if (f k).rv = -1 then 1 else 0 := by
  rw [failures, Loop.upTo_succ, List.countP_append]
  by_cases hrv : (f k).rv = -1 <;> simp [failures, hrv]

variable (f) in
/-- The variables of the loop of `send_response` after `k` writes that did
not end it. -/
def sendAt (k : Nat) : Writer := ⟨failures f k, sentAfter f k, counted f k⟩

/-- In the state after `k` writes, turn `k`. -/
theorem sendResponseBody_eq (k : Nat) :
    sendResponseBody len (sendAt f k) (f k) =
      if (f k).rv = -1 ∧ (sentAfter f (k + 1) < len ∨ (f k).blocked) then
        if failures f (k + 1) ≥ ipcTimeout then .inr (.timedOut, counted f (k + 1))
        else .inl (sendAt f (k + 1))
      else if sentAfter f (k + 1) = len then .inr (.allSent, counted f (k + 1))
      else if (f k).rv < 0 then .inr (.failed, counted f (k + 1))
      else .inl (sendAt f (k + 1)) := by
  have hneg : (-1 : Int) < 0 := by decide
  by_cases hrv : (f k).rv = -1
  · simp only [sendResponseBody, sendAt, ← sentAfter_succ, ← counted_succ, failures_succ, hrv,
      hneg, if_true]
  · simp only [sendResponseBody, sendAt, ← sentAfter_succ, ← counted_succ, failures_succ, hrv,
      false_and, if_false, Nat.add_zero]

theorem rv_cases {n : Nat} (o : WriteOutcome n) : o.rv = -1 ∨ 0 ≤ o.rv := by
  cases o with
  | took count within limit => exact .inr (Int.natCast_nonneg count)
  | again => exact .inl rfl
  | error => exact .inl rfl

theorem send_ends_iff {r : SendEnd × List Nat} :
    Loop.Ends (sendResponseBody len) startWriter f r ↔ ∃ k, (∀ j < k, SendGoesOn f j) ∧
      sendResponseBody len (sendAt f k) (f k) = .inr r := by
  have hstart : startWriter = sendAt f 0 := rfl
  rw [hstart]
  refine Loop.ends_closed (G := sendAt f) (C := SendGoesOn f) ?_ ?_
  · intro k _ hk
    rw [sendResponseBody_eq]
    by_cases hrv : (f k).rv = -1
    · rw [SendGoesOn, if_pos hrv] at hk
      rw [if_pos ⟨hrv, hk.2⟩, if_neg (Nat.not_le.mpr hk.1)]
    · rw [SendGoesOn, if_neg hrv] at hk
      have hpos := (rv_cases (f k)).resolve_left hrv
      rw [if_neg fun h => hrv h.1, if_neg hk, if_neg (Int.not_lt.mpr hpos)]
  · intro k _ hk
    rw [sendResponseBody_eq]
    by_cases hrv : (f k).rv = -1
    · rw [SendGoesOn, if_pos hrv] at hk
      split
      · rename_i hretry
        rw [if_pos (Nat.not_lt.mp fun htime => hk ⟨htime, hretry.2⟩)]
        exact ⟨_, rfl⟩
      · split
        · exact ⟨_, rfl⟩
        · rw [if_pos (by omega)]
          exact ⟨_, rfl⟩
    · rw [SendGoesOn, if_neg hrv, not_not] at hk
      rw [if_neg fun h => hrv h.1, if_pos hk]
      exact ⟨_, rfl⟩

/-- Before the loop ends, the count is not the length. -/
theorem sentAfter_ne (hlen : 0 < len) {k : Nat} (h : ∀ j < k, SendGoesOn f j) :
    sentAfter f k ≠ len := by
  induction k with
  | zero =>
    intro hzero
    rw [sentAfter_zero] at hzero
    exact BitVec.lt_irrefl len (hzero ▸ hlen)
  | succ k ih =>
    have hk := h k (Nat.lt_succ_self k)
    by_cases hrv : (f k).rv = -1
    · rw [sentAfter_of_rv f hrv]
      exact ih fun j hj => h j (Nat.lt_succ_of_lt hj)
    · rwa [SendGoesOn, if_neg hrv] at hk

variable (len f) in
/-- At some turn that the loop of `send_response` comes to, the counts add
up to the length, modulo 2⁶⁴. -/
def DaemonAddsUp : Prop := ∃ k, (∀ j < k, SendGoesOn f j) ∧ sentAfter f (k + 1) = len

/-- The loop stops because all was sent exactly if the counts add up. -/
theorem send_allSent_iff (hlen : 0 < len) {counts : List Nat} :
    Loop.Ends (sendResponseBody len) startWriter f (.allSent, counts) ↔
      ∃ k, (∀ j < k, SendGoesOn f j) ∧ sentAfter f (k + 1) = len ∧
        counts = counted f (k + 1) := by
  rw [send_ends_iff]
  constructor
  · rintro ⟨k, hall, hbody⟩
    rw [sendResponseBody_eq] at hbody
    split at hbody
    · split at hbody <;> cases hbody
    · split at hbody
      · rename_i hsent
        cases hbody
        exact ⟨k, hall, hsent, rfl⟩
      · split at hbody <;> cases hbody
  · rintro ⟨k, hall, hsent, rfl⟩
    have hrv : (f k).rv ≠ -1 := by
      intro hrv
      rw [sentAfter_of_rv f hrv] at hsent
      exact sentAfter_ne hlen hall hsent
    refine ⟨k, hall, ?_⟩
    rw [sendResponseBody_eq, if_neg fun h => hrv h.1, if_pos hsent]

/-- Writes that all take something end the loop only by adding up. -/
theorem send_end_of_progress (hprogress : ∀ k, 0 < (f k).count) {r : SendEnd × List Nat}
    (h : Loop.Ends (sendResponseBody len) startWriter f r) : r.1 = .allSent := by
  obtain ⟨k, -, hbody⟩ := send_ends_iff.mp h
  have hrv : (f k).rv ≠ -1 := fun hrv => absurd (count_of_rv hrv) (Nat.ne_of_gt (hprogress k))
  have hpos := (rv_cases (f k)).resolve_left hrv
  rw [sendResponseBody_eq, if_neg fun h => hrv h.1] at hbody
  split at hbody
  · cases hbody
    rfl
  · rw [if_neg (Int.not_lt.mpr hpos)] at hbody
    cases hbody

/-! ## §5 Once and in order -/

variable (len f) in
/-- On these outcomes every message of this length arrives exactly once when
either loop says so, and the loop of `send_response` stops if every write
takes something. -/
structure DeliversOnce : Prop where
  client : ∀ (message : Block len.toNat) (counts : List Nat),
    Loop.Ends (ipcSendBody len) startWriter f (true, counts) → wire message.1 counts = message.1
  daemon : ∀ (message : Block len.toNat) (counts : List Nat),
    Loop.Ends (sendResponseBody len) startWriter f (.allSent, counts) →
      wire message.1 counts = message.1
  stops : (∀ k, 0 < (f k).count) → ∃ r, Loop.Ends (sendResponseBody len) startWriter f r

variable (len f) in
/-- The first write that takes anything takes the whole message. -/
def FirstWriteWhole : Prop :=
  ∀ k, (∀ j < k, (f j).count = 0) → 0 < (f k).count → (f k).count = len.toNat

theorem sentAfter_of_zeros {k : Nat} (h : ∀ j < k, (f j).count = 0) : sentAfter f k = 0 := by
  induction k with
  | zero => rfl
  | succ k ih =>
    rw [sentAfter_succ, ih fun j hj => h j (Nat.lt_succ_of_lt hj), h k (Nat.lt_succ_self k)]
    rfl

theorem counted_zeros {k : Nat} (h : ∀ j < k, (f j).count = 0) : ∀ c ∈ counted f k, c = 0 := by
  intro c hc
  obtain ⟨o, ho, rfl⟩ := List.mem_map.mp hc
  obtain ⟨j, hj, rfl⟩ := Loop.mem_upTo.mp ho
  exact h j hj

/-- With a whole first write, the count becomes the length by that write and
by no other. -/
theorem wire_of_firstWriteWhole (hwhole : FirstWriteWhole len f) {k : Nat}
    (hne : ∀ j ≤ k, sentAfter f j ≠ len) (hsent : sentAfter f (k + 1) = len)
    (message : Block len.toNat) : wire message.1 (counted f (k + 1)) = message.1 := by
  -- a write before turn `k` that took something would have made the count the length
  have hjump : ∀ j, (∀ i < j, (f i).count = 0) → 0 < (f j).count → sentAfter f (j + 1) = len := by
    intro j hzeros hpos
    rw [sentAfter_succ, sentAfter_of_zeros hzeros, hwhole j hzeros hpos]
    simp
  have hzeros : ∀ j ≤ k, ∀ i < j, (f i).count = 0 := by
    intro j
    induction j with
    | zero =>
      intro _ i hi
      omega
    | succ j ih =>
      intro hj i hi
      rcases Nat.lt_succ_iff_lt_or_eq.mp hi with hlt | rfl
      · exact ih (by omega) i hlt
      · by_contra hpos
        exact hne (i + 1) hj (hjump i (ih (by omega)) (Nat.pos_of_ne_zero hpos))
  have hpos : 0 < (f k).count := by
    by_contra hnone
    have hk : (f k).count = 0 := by omega
    have hstay : sentAfter f (k + 1) = sentAfter f k := by
      rw [sentAfter_succ, hk]
      exact BitVec.add_zero _
    exact hne k (Nat.le_refl k) (hstay.symm.trans hsent)
  rw [counted_succ]
  refine wire_of_whole (counted_zeros (hzeros k (Nat.le_refl k))) ?_
  rw [hwhole k (hzeros k (Nat.le_refl k)) hpos, message.2]

theorem count_le {n : Nat} (o : WriteOutcome n) : o.count ≤ n := by
  cases o with
  | took count within limit =>
    rw [WriteOutcome.count]
    split
    · exact within
    · exact Nat.zero_le n
  | again => exact Nat.zero_le n
  | error => exact Nat.zero_le n

theorem counted_split {m k : Nat} (h : m < k) :
    ∃ rest, counted f k = counted f m ++ (f m).count :: rest := by
  induction k with
  | zero => omega
  | succ k ih =>
    rw [counted_succ]
    rcases Nat.lt_succ_iff_lt_or_eq.mp h with hlt | rfl
    · obtain ⟨rest, hrest⟩ := ih hlt
      exact ⟨rest ++ [(f k).count], by rw [hrest, List.append_assoc]; rfl⟩
    · exact ⟨[], rfl⟩

/-- After a first write that took a part, some message does not arrive. -/
theorem not_wire_of_partial {m : Nat} (hzeros : ∀ j < m, (f j).count = 0)
    (hpos : 0 < (f m).count) (hpart : (f m).count ≠ len.toNat) (k : Nat) :
    ¬ ∀ message : Block len.toNat, wire message.1 (counted f k) = message.1 := by
  intro h
  have hle := count_le (f m)
  obtain ⟨n, hn⟩ : ∃ n, len.toNat = n + 1 := ⟨len.toNat - 1, by omega⟩
  have hprobe : wire (probe n) (counted f k) = probe n :=
    h ⟨probe n, by rw [hn]; simp [probe]⟩
  rcases Nat.lt_or_ge m k with hlt | hge
  · obtain ⟨rest, hrest⟩ := counted_split (f := f) hlt
    rw [hrest] at hprobe
    have hwhole := wire_probe (counted_zeros hzeros) hpos hprobe
    omega
  · have hnone : wire (probe n) (counted f k) = [] := by
      rw [wire, List.flatMap_eq_nil_iff]
      intro c hc
      rw [counted_zeros (fun j hj => hzeros j (by omega)) c hc, List.take_zero]
    rw [hnone] at hprobe
    cases hprobe

/-- A message of no bytes always arrives. -/
theorem wire_of_empty {n : Nat} (message : Block n) (hn : n = 0) (counts : List Nat) :
    wire message.1 counts = message.1 := by
  have hnil : message.1 = [] := List.length_eq_zero_iff.mp (by rw [message.2, hn])
  rw [hnil, wire, List.flatMap_eq_nil_iff]
  intro c _
  exact List.take_nil

variable (len f) in
/-- Either the first write that takes anything takes everything; or some
write takes nothing, and in neither loop the counts add up. -/
def WholeOrNever : Prop :=
  FirstWriteWhole len f ∨
    (∃ k, (f k).count = 0) ∧ ¬ ClientAddsUp len f ∧ ¬ DaemonAddsUp len f

theorem deliversOnce_of_firstWriteWhole (hlen : 0 < len) (hwhole : FirstWriteWhole len f) :
    DeliversOnce len f where
  client := by
    intro message counts hends
    obtain ⟨k, -, hlt, hsent, rfl⟩ := (ipcSend_true_iff hlen).mp hends
    refine wire_of_firstWriteWhole hwhole (fun j hj heq => ?_) hsent message
    exact Nat.ne_of_lt (BitVec.lt_def.mp (hlt j hj)) (congrArg BitVec.toNat heq)
  daemon := by
    intro message counts hends
    obtain ⟨k, hall, hsent, rfl⟩ := (send_allSent_iff hlen).mp hends
    exact wire_of_firstWriteWhole hwhole
      (fun j hj => sentAfter_ne hlen fun i hi => hall i (by omega)) hsent message
  stops := by
    intro hprogress
    have hfirst : (f 0).count = len.toNat :=
      hwhole 0 (fun j hj => absurd hj (Nat.not_lt_zero j)) (hprogress 0)
    have hsent : sentAfter f 1 = len := by
      rw [sentAfter_succ, hfirst]
      simp [sentAfter_zero]
    exact ⟨_, (send_allSent_iff hlen).mpr
      ⟨0, fun j hj => absurd hj (Nat.not_lt_zero j), hsent, rfl⟩⟩

/-- Nothing to send: no write can take anything. -/
theorem deliversOnce_of_empty (hzero : len.toNat = 0) :
    DeliversOnce len f ∧ FirstWriteWhole len f := by
  have hnone : ∀ k, (f k).count = 0 := fun k => Nat.le_zero.mp (hzero ▸ count_le (f k))
  refine ⟨⟨fun message counts _ => wire_of_empty message hzero counts,
    fun message counts _ => wire_of_empty message hzero counts, fun hprogress => ?_⟩,
    fun k _ hk => ?_⟩
  · exact absurd (hnone 0) (Nat.ne_of_gt (hprogress 0))
  · exact absurd (hnone k) (Nat.ne_of_gt hk)

/-- Where neither loop ends with success nothing is promised. -/
theorem deliversOnce_of_never (hlen : 0 < len) {i : Nat} (hi : (f i).count = 0)
    (hclient : ¬ ClientAddsUp len f) (hdaemon : ¬ DaemonAddsUp len f) : DeliversOnce len f where
  client := by
    intro message counts hends
    obtain ⟨k, htime, hlt, hsent, -⟩ := (ipcSend_true_iff hlen).mp hends
    exact absurd ⟨k, htime, hlt, hsent⟩ hclient
  daemon := by
    intro message counts hends
    obtain ⟨k, hall, hsent, -⟩ := (send_allSent_iff hlen).mp hends
    exact absurd ⟨k, hall, hsent⟩ hdaemon
  stops := by
    intro hprogress
    exact absurd hi (Nat.ne_of_gt (hprogress i))

/-- After a first write that took a part, neither loop may end with success,
and so not every write may take something. -/
theorem DeliversOnce.never (h : DeliversOnce len f) (hlen : 0 < len) {m : Nat}
    (hzeros : ∀ j < m, (f j).count = 0) (hm : 0 < (f m).count)
    (hpart : (f m).count ≠ len.toNat) :
    (∃ k, (f k).count = 0) ∧ ¬ ClientAddsUp len f ∧ ¬ DaemonAddsUp len f := by
  have hnot := not_wire_of_partial hzeros hm hpart
  refine ⟨?_, ?_, ?_⟩
  · by_contra hprogress
    have hall : ∀ k, 0 < (f k).count :=
      fun k => Nat.pos_of_ne_zero fun hk => hprogress ⟨k, hk⟩
    obtain ⟨⟨how, counts⟩, hends⟩ := h.stops hall
    obtain rfl : how = .allSent := send_end_of_progress hall hends
    obtain ⟨k, -, -, rfl⟩ := (send_allSent_iff hlen).mp hends
    exact hnot (k + 1) fun message => h.daemon message _ hends
  · rintro ⟨k, htime, hlt, hsent⟩
    exact hnot (k + 1) fun message =>
      h.client message _ ((ipcSend_true_iff hlen).mpr ⟨k, htime, hlt, hsent, rfl⟩)
  · rintro ⟨k, hall, hsent⟩
    exact hnot (k + 1) fun message =>
      h.daemon message _ ((send_allSent_iff hlen).mpr ⟨k, hall, hsent, rfl⟩)

theorem delivers_once_iff (len : BitVec 64) (f : Nat → WriteOutcome len.toNat) :
    DeliversOnce len f ↔ WholeOrNever len f := by
  rcases Nat.eq_zero_or_pos len.toNat with hzero | hpos
  · obtain ⟨honce, hwhole⟩ := deliversOnce_of_empty (f := f) hzero
    exact iff_of_true honce (.inl hwhole)
  have hlen : 0 < len := by
    rw [BitVec.lt_def]
    exact hpos
  constructor
  · intro h
    by_cases hwhole : FirstWriteWhole len f
    · exact .inl hwhole
    · simp only [FirstWriteWhole, not_forall] at hwhole
      obtain ⟨m, hzeros, hm, hpart⟩ := hwhole
      exact .inr (h.never hlen hzeros hm hpart)
  · rintro (hwhole | ⟨⟨i, hi⟩, hclient, hdaemon⟩)
    · exact deliversOnce_of_firstWriteWhole hlen hwhole
    · exact deliversOnce_of_never hlen hi hclient hdaemon

end

/-- Two bytes of three, and then one. -/
def twoThenOne (k : Nat) : WriteOutcome (3 : BitVec 64).toNat :=
  if k = 0 then .took 2 (by decide) (by decide) else .took 1 (by decide) (by decide)

/-- Two bytes of three, for ever. -/
def alwaysTwo (_ : Nat) : WriteOutcome (3 : BitVec 64).toNat := .took 2 (by decide) (by decide)

theorem counted_alwaysTwo (k : Nat) : (counted alwaysTwo k).sum = 2 * k := by
  induction k with
  | zero => rfl
  | succ k ih =>
    rw [counted_succ, List.sum_append, ih]
    rfl

/-- Of the message 1 2 3 the peer gets 1 2 1, and both loops report success.
Two bytes at a time never make three, and the loop of `send_response` does
not end. -/
theorem restarts_and_never_stops :
    Loop.Ends (ipcSendBody 3) startWriter twoThenOne (true, [2, 1]) ∧
    Loop.Ends (sendResponseBody 3) startWriter twoThenOne (.allSent, [2, 1]) ∧
    wire [1, 2, 3] [2, 1] = [1, 2, 1] ∧
    (∀ k, 0 < (alwaysTwo k).count) ∧
    ∀ r, ¬ Loop.Ends (sendResponseBody 3) startWriter alwaysTwo r := by
  refine ⟨⟨2, rfl⟩, ⟨2, rfl⟩, rfl, fun _ => Nat.two_pos, ?_⟩
  rintro ⟨how, counts⟩ hends
  have hprogress : ∀ k, 0 < (alwaysTwo k).count := fun _ => Nat.two_pos
  obtain rfl : how = .allSent := send_end_of_progress hprogress hends
  obtain ⟨k, -, hsent, -⟩ := (send_allSent_iff (by decide)).mp hends
  have hthree := congrArg BitVec.toNat hsent
  rw [sentAfter, counted_alwaysTwo, BitVec.toNat_ofNat] at hthree
  have hnum : BitVec.toNat (3 : BitVec 64) = 3 := rfl
  omega

end Citadel.Stream
