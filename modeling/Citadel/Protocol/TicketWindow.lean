/-
Citadel.Protocol.TicketWindow — how long the client believes in a ticket,
and how long the kernel honours it.

The kernel compares nanoseconds: a ticket of time `s` is dead once
`s ≤ now - 15 s`. The client stamps its entry when the answer is back,
after `s`, and compares whole seconds. For descriptors it adds one second
to the age; for path names it does not.

That second is just what the truncation and the way of the answer can
cost, up to a second each, less the one that the strict comparison gives
back: a descriptor's entry is never believed when the ticket is dead
(`entryInDate_live`). A path's entry is believed to the end of the 15th
second after the one it was stamped in, so it outlives the ticket exactly
if the ticket is from an earlier second than the entry
(`client_believes_live_iff`).

The entries of path names stand in the order of their times, because each
is appended with the time of its appending (`pathRun_believed`).
-/
import Mathlib.Algebra.Group.Nat.Defs
import Citadel.Libcitadel.Cache
import Citadel.Lsm.TicketCache

namespace Citadel.Libcitadel

open Bytes

/-! ## Clocks -/

/-- A second, in nanoseconds. -/
def second : Nat := 1000000000

/-- `tv_sec` at a time in nanoseconds. -/
def tvSec (t : Nat) : Seconds := BitVec.ofNat 64 (t / second)

/-- Times are 64-bit signed numbers of nanoseconds, and so are their
differences. -/
def clockRange : Nat := 2 ^ 63

/-- By the kernel's test the ticket of time `s` has not expired. -/
def TicketLive (s now : Nat) : Prop := expiryThreshold now < s

/-- The age the client computes. -/
theorem age_eq {t now : Nat} (hle : t ≤ now) (hrange : now < t + clockRange) :
    (tvSec now - tvSec t).toNat = now / second - t / second := by
  have hdiv : t / second ≤ now / second := Nat.div_le_div_right hle
  have hage : now / second - t / second < 2 ^ 64 := by
    unfold clockRange at hrange
    unfold second
    omega
  unfold tvSec
  rw [BitVec.toNat_sub, BitVec.toNat_ofNat, BitVec.toNat_ofNat]
  omega

/-! ## Path names -/

/-- Later entries are not older. -/
def AgeOrdered (now : Seconds) (group : List CacheItem) : Prop :=
  group.Pairwise fun a b => (now - b.time).toNat ≤ (now - a.time).toNat

/-- What survives the cleanup of an ordered group is young. -/
theorem survivor_young {now : Seconds} {group : List CacheItem} (hord : AgeOrdered now group)
    {item : CacheItem} (h : item ∈ cleanupCacheGroup now group) :
    (now - item.time).toNat < ticketExpiry.toNat := by
  unfold cleanupCacheGroup at h
  induction group with
  | nil => cases h
  | cons head group ih =>
    obtain ⟨hhead, htail⟩ := List.pairwise_cons.mp hord
    rw [List.dropWhile_cons] at h
    split at h
    · exact ih htail h
    · -- the first young entry; the others are younger still
      rename_i hyoung
      simp only [CacheItem.expired, Bool.not_eq_true', Bool.not_eq_false,
        decide_eq_true_eq] at hyoung
      rcases List.mem_cons.mp h with rfl | hmem
      · exact hyoung
      · exact Nat.lt_of_le_of_lt (hhead item hmem) hyoung

theorem single_survives {now : Seconds} {item : CacheItem}
    (h : (now - item.time).toNat < ticketExpiry.toNat) :
    item ∈ cleanupCacheGroup now [item] := by
  have hyoung : item.expired now = false := by
    rw [CacheItem.expired, decide_eq_true h, Bool.not_true]
  rw [cleanupCacheGroup, List.dropWhile_cons, hyoung, if_neg Bool.false_ne_true]
  exact List.mem_singleton_self item

/-- The library takes the entry of a path name for valid. -/
def BelievedPath (now : Seconds) (item : CacheItem) : Prop :=
  ∃ group, AgeOrdered now group ∧ item ∈ cleanupCacheGroup now group

theorem believedPath_iff {now : Seconds} {item : CacheItem} :
    BelievedPath now item ↔ (now - item.time).toNat < ticketExpiry.toNat := by
  constructor
  · rintro ⟨group, hord, hmem⟩
    exact survivor_young hord hmem
  · intro h
    exact ⟨[item], List.pairwise_singleton _ _, single_survives h⟩

/-! ## The order of the entries -/

/-- The times ascend, up to `c`. -/
def Stamped (c : Nat) (group : List CacheItem) : Prop :=
  group.Pairwise (fun a b => a.time.toNat ≤ b.time.toNat) ∧ ∀ a ∈ group, a.time.toNat ≤ c

theorem Stamped.ageOrdered {c : Nat} {group : List CacheItem} (h : Stamped c group)
    {now : Seconds} (hnow : c ≤ now.toNat) : AgeOrdered now group := by
  obtain ⟨hord, hle⟩ := h
  refine hord.imp_of_mem fun {a b} ha hb hab => ?_
  have hla := hle a ha
  have hlb := hle b hb
  rw [BitVec.toNat_sub, BitVec.toNat_sub]
  omega

theorem Stamped.cleanup {c : Nat} {group : List CacheItem} (h : Stamped c group) (now : Seconds) :
    Stamped c (cleanupCacheGroup now group) := by
  have hsub : (cleanupCacheGroup now group).Sublist group := List.dropWhile_sublist _
  exact ⟨h.1.sublist hsub, fun a ha => h.2 a (hsub.subset ha)⟩

theorem Stamped.append {c c' : Nat} {group : List CacheItem} (h : Stamped c group) (hc : c ≤ c')
    {entry : CacheItem} (hentry : entry.time.toNat = c') : Stamped c' (group ++ [entry]) := by
  refine ⟨List.pairwise_append.mpr ⟨h.1, List.pairwise_singleton _ _, ?_⟩, ?_⟩
  · intro a ha b hb
    obtain rfl : b = entry := by simpa using hb
    have := h.2 a ha
    omega
  · intro a ha
    rcases List.mem_append.mp ha with ha | ha
    · have := h.2 a ha
      omega
    · obtain rfl : a = entry := by simpa using ha
      omega

/-- A call about a path. -/
structure PathCall where
  wanted : Operation
  operation : Operation
  translate : Bool
  env : CallEnv
  path : List UInt8

def pathStep (cache : Cache) (call : PathCall) : Cache :=
  (askAboutPath call.wanted call.operation call.translate call.env cache call.path).cache

def pathRun (cache : Cache) (calls : List PathCall) : Cache := calls.foldl pathStep cache

theorem pathStep_stamped {c : Nat} {cache : Cache} (h : Stamped c cache.fileNames)
    (call : PathCall) (hc : c ≤ call.env.later.toNat) :
    Stamped call.env.later.toNat (pathStep cache call).fileNames := by
  have hmono : ∀ {group}, Stamped c group → Stamped call.env.later.toNat group :=
    fun hg => ⟨hg.1, fun a ha => Nat.le_trans (hg.2 a ha) hc⟩
  unfold pathStep askAboutPath
  split
  · exact hmono h
  · dsimp only
    split
    · exact hmono (h.cleanup _)
    · split
      · exact (h.cleanup _).append hc rfl
      · exact hmono (h.cleanup _)

/-- Over every run of calls at times that do not go back. -/
theorem pathRun_stamped {calls : List PathCall} : ∀ {c : Nat} {cache : Cache},
    Stamped c cache.fileNames →
    (c :: calls.map (·.env.later.toNat)).Pairwise (· ≤ ·) →
    ∃ c', Stamped c' (pathRun cache calls).fileNames ∧
      ∀ now, c ≤ now → (∀ call ∈ calls, call.env.later.toNat ≤ now) → c' ≤ now := by
  induction calls with
  | nil =>
    intro c cache h _
    exact ⟨c, h, fun now hnow _ => hnow⟩
  | cons call calls ih =>
    intro c cache h hclock
    obtain ⟨hfirst, hrest⟩ := List.pairwise_cons.mp hclock
    have hc : c ≤ call.env.later.toNat := hfirst _ (by simp)
    obtain ⟨c', hstamped, hbound⟩ := ih (pathStep_stamped h call hc) hrest
    refine ⟨c', hstamped, fun now _ hcalls => ?_⟩
    exact hbound now (hcalls call (by simp)) fun call' hmem => hcalls call' (by simp [hmem])

/-- Whatever a lookup leaves in the cache of a process is believed in this
sense. -/
theorem pathRun_believed {calls : List PathCall}
    (hclock : (calls.map (·.env.later.toNat)).Pairwise (· ≤ ·)) {now : Seconds}
    (hnow : ∀ call ∈ calls, call.env.later.toNat ≤ now.toNat) {item : CacheItem}
    (h : item ∈ cleanupCacheGroup now (pathRun .init calls).fileNames) :
    BelievedPath now item := by
  have hempty : Stamped 0 Cache.init.fileNames := ⟨List.Pairwise.nil, by simp [Cache.init]⟩
  have hstart : (0 :: calls.map (·.env.later.toNat)).Pairwise (· ≤ ·) :=
    List.pairwise_cons.mpr ⟨fun c _ => Nat.zero_le c, hclock⟩
  obtain ⟨c, hstamped, hbound⟩ := pathRun_stamped hempty hstart
  exact ⟨_, hstamped.ageOrdered (hbound now.toNat (Nat.zero_le _) hnow), h⟩

/-! ## The two windows -/

/-- The margin of descriptors is enough. -/
theorem entryInDate_live {s t now : Nat} (hts : t ≤ s + second) (hle : t ≤ now)
    (hrange : now < t + clockRange) {item : CacheItem} (htime : item.time = tvSec t)
    (h : entryInDate (tvSec now) item = true) : TicketLive s now := by
  have hage := age_eq hle hrange
  simp only [entryInDate, htime, decide_eq_true_eq] at h
  rw [BitVec.toNat_add, hage] at h
  unfold TicketLive expiryThreshold ticketExpiry
  unfold ticketExpiry at h
  unfold second at h hts
  unfold clockRange at hrange
  simp at h
  omega

/-- The last nanosecond at which an entry of time `t` is believed. -/
def lastBelieved (t : Nat) : Nat := (t / second + 15) * second - 1

/-- A path's entry of time `t` is never believed longer than the ticket of
time `s` lives exactly if both are from one second. -/
theorem believedPath_live_iff {s t : Nat} (hst : s ≤ t) :
    (∀ now, t ≤ now → now < t + clockRange → ∀ item : CacheItem, item.time = tvSec t →
      BelievedPath (tvSec now) item → TicketLive s now) ↔ s / second = t / second := by
  constructor
  · intro h
    have hle : t ≤ lastBelieved t := by
      unfold lastBelieved second
      omega
    have hrange : lastBelieved t < t + clockRange := by
      unfold lastBelieved second clockRange
      omega
    have hbelieved : BelievedPath (tvSec (lastBelieved t)) ⟨[], tvSec t, 0, 0, 0, .fileOpenFd⟩ := by
      rw [believedPath_iff, age_eq hle hrange]
      unfold lastBelieved second ticketExpiry
      simp
      omega
    have hlive := h _ hle hrange _ rfl hbelieved
    unfold TicketLive expiryThreshold lastBelieved ticketExpiry second at hlive
    unfold second
    omega
  · intro hsame now hle hrange item htime hbelieved
    rw [believedPath_iff, htime, age_eq hle hrange] at hbelieved
    unfold TicketLive expiryThreshold
    unfold ticketExpiry at hbelieved ⊢
    unfold second at hbelieved hsame
    simp at hbelieved
    omega

/-- For every ticket time and every entry stamped within a second of it:
whatever the client believes at whatever time is live exactly if the two
are from one second of the clock. -/
theorem client_believes_live_iff {s t : Nat} (hst : s ≤ t) (hts : t ≤ s + second) :
    (∀ now, t ≤ now → now < t + clockRange → ∀ item : CacheItem, item.time = tvSec t →
      BelievedPath (tvSec now) item ∨ entryInDate (tvSec now) item = true → TicketLive s now) ↔
      s / second = t / second := by
  rw [← believedPath_live_iff hst]
  constructor
  · intro h now hle hrange item htime hbelieved
    exact h now hle hrange item htime (.inl hbelieved)
  · intro h now hle hrange item htime hvalid
    rcases hvalid with hpath | hfd
    · exact h now hle hrange item htime hpath
    · exact entryInDate_live hts hle hrange htime hfd

/-- The entry of the path "/f", stamped at `t`. -/
def entryAt (t : Nat) : CacheItem := ⟨ascii "/f", tvSec t, opOpen, 0, 0, .fileOpenFd⟩

/-- A ticket from 1.2 s and its entry from 1.9 s, at 15.8 s. -/
theorem same_second_live : TicketLive 1200000000 15800000000 := by
  refine (client_believes_live_iff (t := 1900000000) (by decide) (by decide)).mpr (by decide)
    15800000000 (by decide) (by decide) (entryAt 1900000000) rfl (.inl ?_)
  rw [believedPath_iff]
  decide

/-- A ticket from 0.5 s and its entry from 1.4 s, at 15.9 s: the client
takes the entry for valid and the kernel has dropped the ticket. -/
theorem path_outlives_ticket :
    BelievedPath (tvSec 15900000000) (entryAt 1400000000) ∧
      ¬ TicketLive 500000000 15900000000 := by
  rw [believedPath_iff]
  constructor
  · decide
  · unfold TicketLive expiryThreshold ticketExpiry
    decide

end Citadel.Libcitadel
