/-
Citadel.Protocol.RecentApprovals — which path calls are answered from the
cache.

A process calls `citadel_file_open_ext` and `citadel_file_claim_force`
again and again. Each approval of the enclave leaves an entry; a lookup
first drops the expired entries at the front of the group and then compares
as many bytes as the query has.

  §1  the calls and what each can do (`FileCall.run_cases`);
  §2  comparing terminated strings (`terminated_take_iff`);
  §3  the group is what is left of the log of approvals: dropped entries
      are expired for good (`Remembers`), since the entries stand in the
      order of their times;
  §4  so a call is answered from the cache exactly if an approval for the
      same path is recent (`hit_iff_recent_approval`).
-/
import Mathlib.Data.List.TakeWhile
import Citadel.Protocol.TicketWindow

namespace Citadel.Libcitadel

open Bytes

/-! ## §1 Calls -/

inductive FileOp where
  | openExt
  | claimForce
  deriving DecidableEq

/-- The operation an entry must have. -/
def FileOp.wanted : FileOp → Operation
  | .openExt => opOpen
  | .claimForce => opClaim

/-- The operation asked for, and recorded in the entry. -/
def FileOp.operation : FileOp → Operation
  | .openExt => opOpen
  | .claimForce => opClaim ||| opOpen

def FileOp.translate : FileOp → Bool
  | .openExt => true
  | .claimForce => false

/-- A call on a string, which has no NUL inside. -/
structure FileCall where
  op : FileOp
  env : CallEnv
  string : List UInt8
  noNul : 0 ∉ string

/-- The bytes passed, `strlen + 1` of them. -/
def FileCall.path (call : FileCall) : List UInt8 := call.string ++ [0]

def FileCall.run (cache : Cache) (call : FileCall) : Outcome :=
  match call.op with
  | .openExt => citadelFileOpenExt call.env cache call.path
  | .claimForce => citadelFileClaimForce call.env cache call.path

theorem FileCall.run_eq (cache : Cache) (call : FileCall) :
    call.run cache = askAboutPath call.op.wanted call.op.operation call.op.translate call.env cache
      call.path := by
  rw [FileCall.run]
  cases call.op <;> rfl

/-- The call was answered from the cache. -/
def Outcome.fromCache (out : Outcome) : Bool := out.answer && out.asked.isNone

/-- The enclave was asked, and said yes. -/
def Outcome.approved (out : Outcome) : Bool := out.answer && out.asked.isSome

/-- The entry of an approved call. -/
def FileCall.entry (call : FileCall) : CacheItem :=
  { createCacheEntry call.env.memory call.env.later with
    op := call.op.operation
    data := call.path }

/-- What a call can do: return at once, hit, be refused, be approved. -/
theorem FileCall.run_cases (cache : Cache) (call : FileCall) :
    (call.run cache = ⟨cache, false, none⟩ ∧
      (call.path.length > maxMetadataSize ∨ call.path.length < 2)) ∨
    ¬ (call.path.length > maxMetadataSize ∨ call.path.length < 2) ∧
      ((call.run cache = ⟨(cacheHit call.env.now cache call.path call.op.wanted).1, true, none⟩ ∧
          (cacheHit call.env.now cache call.path call.op.wanted).2 = true) ∨
        (cacheHit call.env.now cache call.path call.op.wanted).2 = false ∧
          ∃ request,
            call.run cache =
              ⟨(cacheHit call.env.now cache call.path call.op.wanted).1, false, some request⟩ ∨
            call.run cache =
              ⟨{ cache with fileNames :=
                  cleanupCacheGroup call.env.now cache.fileNames ++ [call.entry] }, true,
                some request⟩) := by
  rw [FileCall.run_eq]
  by_cases hsize : call.path.length > maxMetadataSize ∨ call.path.length < 2
  · exact .inl ⟨askAboutPath_refused hsize, hsize⟩
  · refine .inr ⟨hsize, ?_⟩
    cases hhit : (cacheHit call.env.now cache call.path call.op.wanted).2 with
    | true => exact .inl ⟨askAboutPath_hit hsize hhit, rfl⟩
    | false =>
      refine .inr ⟨rfl, .extended call.op.operation call.path call.op.translate, ?_⟩
      rw [askAboutPath, if_neg hsize]
      dsimp only
      rw [hhit, if_neg Bool.false_ne_true]
      split
      · exact .inr rfl
      · exact .inl rfl

/-! ## §2 Terminated strings -/

/-- Comparing as many bytes as the query has, terminator included, is
comparing the strings. -/
theorem terminated_take_iff {s t : List UInt8} (hs : 0 ∉ s) (ht : 0 ∉ t) :
    (t ++ [0]).take (s ++ [0]).length = s ++ [0] ↔ t = s := by
  constructor
  · intro h
    induction s generalizing t with
    | nil =>
      cases t with
      | nil => rfl
      | cons b t =>
        obtain rfl : b = 0 := by simpa using h
        exact absurd List.mem_cons_self ht
    | cons a s ih =>
      cases t with
      | nil =>
        rw [List.nil_append, List.cons_append, List.length_cons, List.take_succ_cons,
          List.cons.injEq] at h
        obtain ⟨rfl, -⟩ := h
        exact absurd List.mem_cons_self hs
      | cons b t =>
        rw [List.cons_append, List.cons_append, List.length_cons, List.take_succ_cons,
          List.cons.injEq] at h
        rw [h.1, ih (fun hmem => hs (List.mem_cons_of_mem a hmem))
          (fun hmem => ht (List.mem_cons_of_mem b hmem)) h.2]
  · rintro rfl
    exact List.take_length

/-! ## §3 The log of approvals -/

def fileRun (cache : Cache) (calls : List FileCall) : Cache :=
  calls.foldl (fun cache call => (call.run cache).cache) cache

/-- The calls that the enclave approved. -/
def approvals (cache : Cache) : List FileCall → List FileCall
  | [] => []
  | call :: calls =>
    (if (call.run cache).approved then [call] else []) ++ approvals (call.run cache).cache calls

/-- The clock never goes back: each call looks at it at the lookup and when
it makes an entry. -/
def ClockRuns (calls : List FileCall) : Prop :=
  (calls.flatMap fun call => [call.env.now.toNat, call.env.later.toNat]).Pairwise (· ≤ ·)

/-- What a cleanup leaves of an ordered group is what is young. -/
theorem mem_cleanup_iff {now : Seconds} {group : List CacheItem} (hord : AgeOrdered now group)
    {item : CacheItem} : item ∈ cleanupCacheGroup now group ↔
      item ∈ group ∧ (now - item.time).toNat < ticketExpiry.toNat := by
  constructor
  · intro hmem
    exact ⟨(List.dropWhile_sublist _).subset hmem, survivor_young hord hmem⟩
  · rintro ⟨hmem, hyoung⟩
    rw [cleanupCacheGroup]
    rw [← List.takeWhile_append_dropWhile (p := CacheItem.expired now) (l := group)] at hmem
    rcases List.mem_append.mp hmem with hold | hleft
    · have hexpired := List.mem_takeWhile_imp hold
      rw [CacheItem.expired, decide_eq_true hyoung] at hexpired
      cases hexpired
    · exact hleft

/-- The group is the end of the log; what came before is expired at `c` and
after. -/
def Remembers (log group : List CacheItem) (c : Nat) : Prop :=
  Stamped c group ∧ ∃ dropped, log = dropped ++ group ∧
    ∀ item ∈ dropped, item.time.toNat + ticketExpiry.toNat ≤ c

theorem Remembers.mono {log group : List CacheItem} {c c' : Nat} (h : Remembers log group c)
    (hc : c ≤ c') : Remembers log group c' := by
  obtain ⟨⟨hord, hle⟩, dropped, hlog, hold⟩ := h
  exact ⟨⟨hord, fun a ha => Nat.le_trans (hle a ha) hc⟩, dropped, hlog,
    fun item hitem => Nat.le_trans (hold item hitem) hc⟩

/-- A cleanup drops entries that are expired for good. -/
theorem Remembers.cleanup {log group : List CacheItem} {now : Seconds}
    (h : Remembers log group now.toNat) :
    Remembers log (cleanupCacheGroup now group) now.toNat := by
  obtain ⟨hstamped, dropped, hlog, hold⟩ := h
  refine ⟨hstamped.cleanup now, dropped ++ group.takeWhile (CacheItem.expired now), ?_, ?_⟩
  · rw [List.append_assoc, cleanupCacheGroup, List.takeWhile_append_dropWhile, hlog]
  · intro item hitem
    rcases List.mem_append.mp hitem with hitem | hitem
    · exact hold item hitem
    · have hexpired := List.mem_takeWhile_imp hitem
      have hle := hstamped.2 item ((List.takeWhile_sublist _).subset hitem)
      simp only [CacheItem.expired, Bool.not_eq_true', decide_eq_false_iff_not] at hexpired
      rw [BitVec.toNat_sub] at hexpired
      have hlt := now.isLt
      omega

theorem Remembers.append {log group : List CacheItem} {c c' : Nat} (h : Remembers log group c)
    (hc : c ≤ c') {entry : CacheItem} (hentry : entry.time.toNat = c') :
    Remembers (log ++ [entry]) (group ++ [entry]) c' := by
  obtain ⟨hstamped, dropped, hlog, hold⟩ := h
  exact ⟨hstamped.append hc hentry, dropped, by rw [hlog, List.append_assoc],
    fun item hitem => Nat.le_trans (hold item hitem) hc⟩

/-- One call. -/
theorem FileCall.run_remembers {log : List CacheItem} {cache : Cache} {c : Nat}
    (h : Remembers log cache.fileNames c) (call : FileCall) (hnow : c ≤ call.env.now.toNat)
    (hlater : call.env.now.toNat ≤ call.env.later.toNat) :
    Remembers (log ++ if (call.run cache).approved then [call.entry] else [])
      (call.run cache).cache.fileNames call.env.later.toNat := by
  have hclean := (h.mono hnow).cleanup
  rcases call.run_cases cache with ⟨hrun, -⟩ | ⟨-, ⟨hrun, -⟩ | ⟨-, request, hrun | hrun⟩⟩
  · rw [hrun]
    simpa [Outcome.approved] using (h.mono hnow).mono hlater
  · rw [hrun]
    simpa [Outcome.approved, cacheHit] using hclean.mono hlater
  · rw [hrun]
    simpa [Outcome.approved, cacheHit] using hclean.mono hlater
  · have hentry : call.entry.time.toNat = call.env.later.toNat := rfl
    rw [hrun]
    simpa [Outcome.approved] using hclean.append hlater hentry

theorem ClockRuns.cons {call : FileCall} {calls : List FileCall} (h : ClockRuns (call :: calls)) :
    call.env.now.toNat ≤ call.env.later.toNat ∧
      (∀ next ∈ calls, call.env.later.toNat ≤ next.env.now.toNat) ∧ ClockRuns calls := by
  rw [ClockRuns, List.flatMap_cons, List.cons_append, List.cons_append, List.nil_append,
    List.pairwise_cons, List.pairwise_cons] at h
  obtain ⟨hnow, hlater, hrest⟩ := h
  refine ⟨hnow _ List.mem_cons_self, ?_, hrest⟩
  intro next hnext
  exact hlater _ (List.mem_flatMap.mpr ⟨next, hnext, List.mem_cons_self⟩)

/-- A run: the group is the end of the log, of which all that is young is
left. -/
theorem fileRun_remembers {log : List CacheItem} {cache : Cache} {c : Nat} {pre : List FileCall}
    {call : FileCall} (h : Remembers log cache.fileNames c)
    (hc : ∀ next ∈ pre ++ [call], c ≤ next.env.now.toNat) (hclock : ClockRuns (pre ++ [call])) :
    Remembers (log ++ (approvals cache pre).map FileCall.entry) (fileRun cache pre).fileNames
      call.env.now.toNat := by
  induction pre generalizing log cache c with
  | nil =>
    rw [approvals, List.map_nil, List.append_nil]
    exact h.mono (hc call List.mem_cons_self)
  | cons first pre ih =>
    obtain ⟨hlater, hnext, hrest⟩ := hclock.cons
    have hstep := first.run_remembers h (hc first List.mem_cons_self) hlater
    have hrun := ih hstep hnext hrest
    have hlog : ((if (first.run cache).approved then [first] else []).map FileCall.entry) =
        if (first.run cache).approved then [first.entry] else [] := by
      split <;> rfl
    rwa [approvals, List.map_append, hlog, ← List.append_assoc]

/-! ## §4 Hits -/

/-- The entry answers the call. -/
theorem entry_matches_iff (call earlier : FileCall) :
    (earlier.entry.data.take call.path.length == call.path &&
      earlier.entry.op.has call.op.wanted) = true ↔
      earlier.string = call.string ∧ earlier.op.operation.has call.op.wanted = true := by
  rw [Bool.and_eq_true, beq_iff_eq]
  exact and_congr (terminated_take_iff call.noNul earlier.noNul) Iff.rfl

/-- A log entry is in the cleaned group exactly if it is young. -/
theorem Remembers.mem_cleanup_iff {log group : List CacheItem} {now : Seconds}
    (h : Remembers log group now.toNat) (item : CacheItem) :
    item ∈ cleanupCacheGroup now group ↔
      item ∈ log ∧ now.toNat - item.time.toNat < ticketExpiry.toNat := by
  obtain ⟨hstamped, dropped, rfl, hold⟩ := h
  have hage : ∀ entry ∈ group,
      (now - entry.time).toNat = now.toNat - entry.time.toNat := by
    intro entry hentry
    have hle := hstamped.2 entry hentry
    rw [BitVec.toNat_sub]
    have hlt := now.isLt
    omega
  rw [Libcitadel.mem_cleanup_iff (hstamped.ageOrdered (Nat.le_refl _))]
  constructor
  · rintro ⟨hmem, hyoung⟩
    rw [hage item hmem] at hyoung
    exact ⟨List.mem_append_right _ hmem, hyoung⟩
  · rintro ⟨hmem, hyoung⟩
    rcases List.mem_append.mp hmem with hmem | hmem
    · have := hold item hmem
      omega
    · exact ⟨hmem, by rwa [hage item hmem]⟩

/-- A call that the size does not stop is answered from the cache exactly
if the lookup finds something. -/
theorem FileCall.fromCache_iff (cache : Cache) (call : FileCall) :
    (call.run cache).fromCache = true ↔
      ¬ (call.path.length > maxMetadataSize ∨ call.path.length < 2) ∧
        (cacheHit call.env.now cache call.path call.op.wanted).2 = true := by
  rcases call.run_cases cache with ⟨hrun, hsize⟩ | ⟨hsize, ⟨hrun, hhit⟩ |
    ⟨hmiss, request, hrun | hrun⟩⟩
  · rw [hrun]
    exact ⟨nofun, fun h => absurd hsize h.1⟩
  · rw [hrun]
    exact ⟨fun _ => ⟨hsize, hhit⟩, fun _ => rfl⟩
  · rw [hrun, hmiss]
    exact ⟨nofun, nofun⟩
  · rw [hrun, hmiss]
    exact ⟨nofun, nofun⟩

/-- Only strings of a proper size are ever approved. -/
theorem approved_size {cache : Cache} {call : FileCall} (h : (call.run cache).approved = true) :
    ¬ (call.path.length > maxMetadataSize ∨ call.path.length < 2) := by
  rcases call.run_cases cache with ⟨hrun, -⟩ | ⟨hsize, -⟩
  · rw [hrun] at h
    cases h
  · exact hsize

theorem approvals_size {cache : Cache} {calls : List FileCall} {call : FileCall}
    (h : call ∈ approvals cache calls) :
    ¬ (call.path.length > maxMetadataSize ∨ call.path.length < 2) := by
  induction calls generalizing cache with
  | nil => cases h
  | cons first calls ih =>
    rcases List.mem_append.mp h with hfirst | hrest
    · split at hfirst
      · rename_i happroved
        obtain rfl := List.mem_singleton.mp hfirst
        exact approved_size happroved
      · cases hfirst
    · exact ih hrest

/-- A process that has not forked makes the calls `pre` and then `call`. It
is answered from the cache exactly if an approved call for the same string
recorded an operation that shares a bit with the one now needed, fewer than
15 seconds before. -/
theorem hit_iff_recent_approval (pre : List FileCall) (call : FileCall)
    (hclock : ClockRuns (pre ++ [call])) :
    (call.run (fileRun .init pre)).fromCache = true ↔
      ∃ earlier ∈ approvals .init pre, earlier.string = call.string ∧
        earlier.op.operation.has call.op.wanted = true ∧
        call.env.now.toNat - earlier.env.later.toNat < 15 := by
  have hinit : Remembers [] Cache.init.fileNames 0 :=
    ⟨⟨List.Pairwise.nil, by intro a ha; cases ha⟩, [], rfl, by intro a ha; cases ha⟩
  have hrun := fileRun_remembers hinit (fun next _ => Nat.zero_le _) hclock
  rw [List.nil_append] at hrun
  rw [FileCall.fromCache_iff]
  constructor
  · rintro ⟨-, hhit⟩
    obtain ⟨item, hitem, hmatch⟩ := List.any_eq_true.mp hhit
    obtain ⟨hlog, hyoung⟩ := (hrun.mem_cleanup_iff item).mp hitem
    obtain ⟨earlier, hearlier, rfl⟩ := List.mem_map.mp hlog
    obtain ⟨hstring, hop⟩ := (entry_matches_iff call earlier).mp hmatch
    exact ⟨earlier, hearlier, hstring, hop, hyoung⟩
  · rintro ⟨earlier, hearlier, hstring, hop, hyoung⟩
    have hpath : earlier.path = call.path := congrArg (· ++ [0]) hstring
    refine ⟨hpath ▸ approvals_size hearlier, List.any_eq_true.mpr ⟨earlier.entry, ?_, ?_⟩⟩
    · exact (hrun.mem_cleanup_iff earlier.entry).mpr
        ⟨List.mem_map.mpr ⟨earlier, hearlier, rfl⟩, hyoung⟩
    · exact (entry_matches_iff call earlier).mpr ⟨hstring, hop⟩

/-- A call with the clock at `now` and then `later`, and the enclave's
answer. -/
def callAt (op : FileOp) (now later : Seconds) (answer : Bool) (string : List UInt8)
    (noNul : 0 ∉ string) : FileCall :=
  ⟨op, ⟨now, later, ⟨[], 0, 0, 0, 0, .socket⟩, fun _ => answer⟩, string, noNul⟩

/-- `/a` is claimed, and then opening `/ab` refused. -/
def claimThenRefusal : List FileCall :=
  [callAt .claimForce 1 2 true (ascii "/a") (by decide),
    callAt .openExt 3 4 false (ascii "/ab") (by decide)]

/-- 14 seconds after the claim `/a` is opened. -/
def openClaimed : FileCall := callAt .openExt 16 16 false (ascii "/a") (by decide)

theorem openClaimed_recent :
    ClockRuns (claimThenRefusal ++ [openClaimed]) ∧
      (openClaimed.run (fileRun .init claimThenRefusal)).fromCache = true ∧
      ∃ earlier ∈ approvals .init claimThenRefusal, earlier.string = openClaimed.string ∧
        earlier.op.operation.has openClaimed.op.wanted = true ∧
        openClaimed.env.now.toNat - earlier.env.later.toNat < 15 := by
  have hclock : ClockRuns (claimThenRefusal ++ [openClaimed]) := by
    unfold ClockRuns
    decide
  have hhit : (openClaimed.run (fileRun .init claimThenRefusal)).fromCache = true := by decide
  exact ⟨hclock, hhit, (hit_iff_recent_approval claimThenRefusal openClaimed hclock).mp hhit⟩

end Citadel.Libcitadel
