/-
Citadel.Libcitadel.Fork — what a forked child still believes.

`init_pid` calls `cache_on_fork` in a child ("need to invalidate
expectation cache"). The entries stay where they are; their times are set
to zero, and an operation that is exactly `CITADEL_OP_NOP` becomes
`CITADEL_OP_PARENT`. That is an invalidation only where a lookup looks at
the time, and only when zero is long ago:

* a file name is believed during the first 15 seconds of the clock;
* a descriptor is believed during the first 14, and at all times if its
  operation has the NOP bit and another;
* shared memory is believed at all times.

`child_trusts_nothing_iff` says that this is all, for every content of the
cache and every call. An entry makes a call answer yes if the call does so
without asking the enclave and, with an empty cache, would not have done
(a descriptor without a label is waved through in any case).
-/
import Citadel.Libcitadel.Cache

namespace Citadel.Libcitadel

open Bytes

/-! ## Calls -/

/-- The calls that consult the cache. -/
inductive CacheCall where
  | fileOpenExt (path : List UInt8)
  | fileClaimForce (path : List UInt8)
  | shmAccess (key : BitVec 32) (isShmid : Bool)
  | validateFd (fd : BitVec 32) (xattr identifier : Option (List UInt8))
      (op : Option Operation) (execute : Option Update)

def CacheCall.run (env : CallEnv) (cache : Cache) : CacheCall → Option Outcome
  | .fileOpenExt path => some (citadelFileOpenExt env cache path)
  | .fileClaimForce path => some (citadelFileClaimForce env cache path)
  | .shmAccess key isShmid => some (citadelShmAccess env cache key isShmid)
  | .validateFd fd xattr identifier op execute =>
    (citadelValidateFd env cache fd xattr identifier op execute).map Prod.fst

/-- The call answers yes and has not asked. -/
def CacheCall.waves (env : CallEnv) (cache : Cache) (call : CacheCall) : Bool :=
  (call.run env cache).any fun out => out.answer && out.asked.isNone

/-- In the child of a process with this cache, the call answers yes on the
word of an entry. -/
def CacheCall.TrustsParent (env : CallEnv) (cache : Cache) (call : CacheCall) : Prop :=
  call.waves env (cacheOnFork cache) = true ∧ call.waves env .init = false

/-! ## Which entries are believed -/

/-- A file name, in the first seconds of the clock. -/
def nameBelieved (now : Seconds) (cache : Cache) (op : Operation) (path : List UInt8) : Bool :=
  decide (2 ≤ path.length ∧ path.length ≤ maxMetadataSize) &&
    (decide (now.toNat < ticketExpiry.toNat) &&
      cache.fileNames.any fun item => item.data.take path.length == path && item.op.has op)

/-- The test `citadel_validate_fd` makes on an entry. -/
def CacheItem.isFor (fd : BitVec 32) (op : Option Operation) (id : Identifier)
    (item : CacheItem) : Bool :=
  decide (item.fd = fd ∧ (op = none ∨ op = some item.op)) &&
    decide (id.1 = item.data.take identifierLength)

/-- The first entry of the parent for the descriptor. -/
def inheritedFd (cache : Cache) (fd : BitVec 32) (op : Option Operation)
    (xattr identifier : Option (List UInt8)) : Option CacheItem := do
  let known ← fdIdentifier xattr identifier
  let id ← known.1.bind fun raw => Bytes.read raw 0 identifierLength
  cache.fd.find? fun item => (prepareEntryForChild item).isFor fd op id

/-- The calls that rely on the parent's approvals. -/
def CacheCall.believes (now : Seconds) (cache : Cache) : CacheCall → Bool
  | .fileOpenExt path => nameBelieved now cache opOpen path
  | .fileClaimForce path => nameBelieved now cache opClaim path
  | .shmAccess key isShmid =>
    cache.shm.any fun item => if isShmid then key == item.shmid else key == item.fd
  | .validateFd fd xattr identifier op _ =>
    (inheritedFd cache fd op xattr identifier).any fun item =>
      decide ((now + 1).toNat < ticketExpiry.toNat) ||
        (item.op.has opNop && decide (item.op ≠ opNop))

/-! ## The entries of a child -/

theorem prepareEntryForChild_expired (now : Seconds) (item : CacheItem) :
    (prepareEntryForChild item).expired now = !decide (now.toNat < ticketExpiry.toNat) := by
  have hzero : now - (prepareEntryForChild item).time = now := BitVec.sub_zero now
  rw [CacheItem.expired, hzero]

/-- All times are equal, so the cleanup drops all of a child's names or
none. -/
theorem cleanupCacheGroup_child (now : Seconds) (group : List CacheItem) :
    cleanupCacheGroup now (group.map prepareEntryForChild) =
      if now.toNat < ticketExpiry.toNat then group.map prepareEntryForChild else [] := by
  unfold cleanupCacheGroup
  induction group with
  | nil => split <;> rfl
  | cons item group ih =>
    rw [List.map_cons, List.dropWhile_cons, prepareEntryForChild_expired]
    by_cases hnow : now.toNat < ticketExpiry.toNat
    · simp [hnow]
    · rw [if_neg hnow] at ih ⊢
      simp [hnow, ih]

/-- The change of the operation is not seen by the bits of the calls about
files. -/
theorem prepareEntryForChild_has (item : CacheItem) {op : Operation}
    (hnop : opNop.has op = false) (hparent : opParent.has op = false) :
    (prepareEntryForChild item).op.has op = item.op.has op := by
  rw [prepareEntryForChild]
  dsimp only
  split
  · rename_i h
    rw [h, hnop, hparent]
  · rfl

theorem prepareEntryForChild_nop (item : CacheItem) :
    (prepareEntryForChild item).op.has opNop =
      (item.op.has opNop && decide (item.op ≠ opNop)) := by
  rw [prepareEntryForChild]
  dsimp only
  split
  · rename_i h
    rw [h]
    decide
  · rename_i h
    rw [decide_eq_true h, Bool.and_true]

theorem prepareEntryForChild_inDate (now : Seconds) (item : CacheItem) :
    entryInDate now (prepareEntryForChild item) =
      decide ((now + 1).toNat < ticketExpiry.toNat) := by
  have hzero : now - (prepareEntryForChild item).time = now := BitVec.sub_zero now
  rw [entryInDate, hzero]

/-! ## Names -/

/-- A call about a path answers yes without asking exactly on a hit. -/
theorem askAboutPath_waves (wanted operation : Operation) (translate : Bool) (env : CallEnv)
    (cache : Cache) (path : List UInt8) :
    ((askAboutPath wanted operation translate env cache path).answer &&
      (askAboutPath wanted operation translate env cache path).asked.isNone) =
      (decide (2 ≤ path.length ∧ path.length ≤ maxMetadataSize) &&
        (cacheHit env.now cache path wanted).2) := by
  by_cases hsize : path.length > maxMetadataSize ∨ path.length < 2
  · have hrange : ¬ (2 ≤ path.length ∧ path.length ≤ maxMetadataSize) := by omega
    rw [askAboutPath_refused hsize, decide_eq_false hrange]
    rfl
  · have hrange : 2 ≤ path.length ∧ path.length ≤ maxMetadataSize := by omega
    rw [decide_eq_true hrange, Bool.true_and]
    cases hhit : (cacheHit env.now cache path wanted).2 with
    | true => rw [askAboutPath_hit hsize hhit]; rfl
    | false => rw [askAboutPath_miss hsize hhit, Option.isNone_some, Bool.and_false]

theorem cacheHit_child (now : Seconds) (cache : Cache) (path : List UInt8) {op : Operation}
    (hnop : opNop.has op = false) (hparent : opParent.has op = false) :
    (cacheHit now (cacheOnFork cache) path op).2 =
      (decide (now.toNat < ticketExpiry.toNat) &&
        cache.fileNames.any fun item => item.data.take path.length == path && item.op.has op) := by
  simp only [cacheHit, cacheOnFork, cleanupCacheGroup_child]
  by_cases hnow : now.toNat < ticketExpiry.toNat
  · rw [if_pos hnow, decide_eq_true hnow, Bool.true_and, List.any_map]
    congr 1
    funext item
    rw [Function.comp_apply, prepareEntryForChild_has item hnop hparent]
    rfl
  · rw [if_neg hnow, decide_eq_false hnow]
    rfl

/-! ## Descriptors -/

/-- The scan stops at the first entry for the descriptor. -/
theorem scanFd_find {raw : List UInt8} {id : Identifier}
    (hid : Bytes.read raw 0 identifierLength = some id) (fd : BitVec 32) (op : Option Operation)
    (prev group : List CacheItem) :
    (scanFd fd op (some raw) prev group).map (Option.map FoundFd.head) =
      some (group.find? (CacheItem.isFor fd op id)) := by
  induction group generalizing prev with
  | nil => rfl
  | cons head next ih =>
    rw [scanFd, List.find?_cons, CacheItem.isFor]
    by_cases hfd : head.fd = fd ∧ (op = none ∨ op = some head.op)
    · rw [if_pos hfd, decide_eq_true hfd, Bool.true_and]
      simp only [Option.bind_eq_bind, Option.bind_some, hid]
      by_cases hdata : id.1 = head.data.take identifierLength
      · rw [if_pos hdata, decide_eq_true hdata]
        rfl
      · rw [if_neg hdata, decide_eq_false hdata]
        exact ih _
    · rw [if_neg hfd, decide_eq_false hfd]
      exact ih _

/-- Without an identifier to compare, the scan finds nothing, if it comes to
an end. -/
theorem scanFd_unread {raw : Option (List UInt8)}
    (hid : (raw.bind fun r => Bytes.read r 0 identifierLength) = none) (fd : BitVec 32)
    (op : Option Operation) (prev group : List CacheItem) :
    scanFd fd op raw prev group = none ∨ scanFd fd op raw prev group = some none := by
  induction group generalizing prev with
  | nil => exact .inr rfl
  | cons head next ih =>
    rw [scanFd]
    split
    · left
      cases raw with
      | none => rfl
      | some r =>
        rw [Option.bind_some] at hid
        simp only [Option.bind_eq_bind, Option.bind_some, hid, Option.bind_none]
    · exact ih _

theorem Update.call_asked (u : Update) (env : CallEnv) (cache : Cache) (fd : BitVec 32)
    (id : Identifier) (op : Operation) (add : Bool) :
    (u.call env cache fd id op add).asked = some (.plain op id) := by
  cases u with
  | fileOpenFd =>
    simp only [Update.call, citadelFileOpenFd, askAboutFd]
    split <;> rfl
  | socket =>
    simp only [Update.call, citadelSocket, askAboutFd]
    split <;> rfl

/-- A descriptor that is not tainted has no identifier. -/
theorem fdIdentifier_untainted {xattr identifier raw : Option (List UInt8)}
    (h : fdIdentifier xattr identifier = some (raw, false)) : raw = none := by
  unfold fdIdentifier getFdIdentifier at h
  split at h
  · cases h
  split at h
  · cases h
    rfl
  · split at h
    · obtain ⟨_, -, h⟩ := Option.bind_eq_some_iff.mp h
      cases h
    · split at h
      · obtain ⟨_, -, h⟩ := Option.bind_eq_some_iff.mp h
        cases h
      · cases h

theorem useFd_waves (env : CallEnv) (cache : Cache) (fd : BitVec 32) (found : FoundFd) :
    ((useFd env cache fd found).answer && (useFd env cache fd found).asked.isNone) =
      (entryInDate env.now found.head || found.head.op.has opNop) := by
  have hasked := Update.call_asked found.head.update env cache fd found.identifier
    found.head.op false
  unfold useFd
  cases hdate : entryInDate env.now found.head || found.head.op.has opNop with
  | true => rfl
  | false =>
    rw [if_neg Bool.false_ne_true]
    dsimp only
    split
    · rw [hasked]
      exact Bool.and_false _
    · rw [hasked]
      rfl

/-- Whoever asks does not answer yes without asking. -/
theorem executeFd_waves (env : CallEnv) (cache : Cache) (fd : BitVec 32)
    (identifier : Option (List UInt8)) (op : Option Operation) (execute : Option Update) :
    ((executeFd env cache fd identifier op execute).any fun out =>
      out.answer && out.asked.isNone) = false := by
  unfold executeFd
  split
  · rename_i op execute
    cases identifier with
    | none => rfl
    | some raw =>
      rw [Option.bind_eq_bind, Option.bind_some]
      cases Bytes.read raw 0 identifierLength with
      | none => rfl
      | some id =>
        simp only [Option.bind_eq_bind, Option.bind_some, Option.any_some, Update.call_asked,
          Option.isNone_some, Bool.and_false]
  · rfl

/-- A descriptor without a label is waved through. -/
theorem validateFd_untainted {xattr identifier raw : Option (List UInt8)}
    (hknown : fdIdentifier xattr identifier = some (raw, false)) (env : CallEnv) (cache : Cache)
    (fd : BitVec 32) (op : Option Operation) (execute : Option Update) :
    (CacheCall.validateFd fd xattr identifier op execute).waves env cache = true := by
  simp [CacheCall.waves, CacheCall.run, citadelValidateFd, hknown]

/-- One with an identifier is waved through on the word of the first entry
for it. -/
theorem validateFd_known {xattr identifier : Option (List UInt8)} {raw : List UInt8}
    {id : Identifier} (hknown : fdIdentifier xattr identifier = some (some raw, true))
    (hid : Bytes.read raw 0 identifierLength = some id) (env : CallEnv) (cache : Cache)
    (fd : BitVec 32) (op : Option Operation) (execute : Option Update) :
    (CacheCall.validateFd fd xattr identifier op execute).waves env cache =
      (cache.fd.find? (CacheItem.isFor fd op id)).any fun item =>
        entryInDate env.now item || item.op.has opNop := by
  obtain ⟨found, hscan, hfind⟩ := Option.map_eq_some_iff.mp
    (scanFd_find hid fd op [] cache.fd)
  rw [← hfind]
  simp only [CacheCall.waves, CacheCall.run, citadelValidateFd, hknown, hscan,
    Option.bind_eq_bind, Option.bind_some]
  cases found with
  | none =>
    have hwaves := executeFd_waves env cache fd (some raw) op execute
    cases hexec : executeFd env cache fd (some raw) op execute with
    | none => rfl
    | some out =>
      rw [hexec] at hwaves
      exact hwaves
  | some found => exact useFd_waves env cache fd found

/-- One whose identifier cannot be read is not. -/
theorem validateFd_unread {xattr identifier raw : Option (List UInt8)}
    (hknown : fdIdentifier xattr identifier = some (raw, true))
    (hid : (raw.bind fun r => Bytes.read r 0 identifierLength) = none) (env : CallEnv)
    (cache : Cache) (fd : BitVec 32) (op : Option Operation) (execute : Option Update) :
    (CacheCall.validateFd fd xattr identifier op execute).waves env cache = false := by
  simp only [CacheCall.waves, CacheCall.run, citadelValidateFd, hknown, Option.bind_eq_bind,
    Option.bind_some]
  rcases scanFd_unread hid fd op [] cache.fd with hscan | hscan
  · simp [hscan]
  · have hwaves := executeFd_waves env cache fd raw op execute
    cases hexec : executeFd env cache fd raw op execute with
    | none => simp [hscan]
    | some out =>
      rw [hexec] at hwaves
      simpa [hscan, hexec] using hwaves

/-! ## The child -/

theorem fileCall_trusts (wanted operation : Operation) (translate : Bool) (env : CallEnv)
    (cache : Cache) (path : List UInt8) (hnop : opNop.has wanted = false)
    (hparent : opParent.has wanted = false) (call : CacheCall)
    (hrun : ∀ cache, call.run env cache =
      some (askAboutPath wanted operation translate env cache path)) :
    call.TrustsParent env cache ↔ nameBelieved env.now cache wanted path = true := by
  have hwaves : ∀ cache, call.waves env cache =
      (decide (2 ≤ path.length ∧ path.length ≤ maxMetadataSize) &&
        (cacheHit env.now cache path wanted).2) := by
    intro cache
    rw [CacheCall.waves, hrun, Option.any_some, askAboutPath_waves]
  have hempty : call.waves env .init = false := by
    rw [hwaves]
    exact Bool.and_false _
  rw [CacheCall.TrustsParent, hempty, hwaves, cacheHit_child env.now cache path hnop hparent]
  exact and_iff_left rfl

theorem shmCall_waves (env : CallEnv) (cache : Cache) (key : BitVec 32) (isShmid : Bool) :
    (CacheCall.shmAccess key isShmid).waves env cache = shmCacheHit cache key isShmid := by
  rw [CacheCall.waves, CacheCall.run, Option.any_some, citadelShmAccess]
  cases shmCacheHit cache key isShmid with
  | true => rfl
  | false =>
    rw [if_neg Bool.false_ne_true]
    split
    · rfl
    · dsimp only
      split <;> rfl

theorem shmCacheHit_child (cache : Cache) (key : BitVec 32) (isShmid : Bool) :
    shmCacheHit (cacheOnFork cache) key isShmid =
      cache.shm.any fun item => if isShmid then key == item.shmid else key == item.fd := by
  rw [shmCacheHit, cacheOnFork, List.any_map]
  congr 1
  funext item
  cases isShmid <;> simp [prepareEntryForChild]

theorem validateFd_trusts (env : CallEnv) (cache : Cache) (fd : BitVec 32)
    (xattr identifier : Option (List UInt8)) (op : Option Operation) (execute : Option Update) :
    (CacheCall.validateFd fd xattr identifier op execute).TrustsParent env cache ↔
      (CacheCall.validateFd fd xattr identifier op execute).believes env.now cache = true := by
  rw [CacheCall.TrustsParent]
  cases hknown : fdIdentifier xattr identifier with
  | none => simp [CacheCall.waves, CacheCall.run, citadelValidateFd, CacheCall.believes,
      inheritedFd, hknown]
  | some known =>
    obtain ⟨raw, taint⟩ := known
    cases taint with
    | false =>
      obtain rfl := fdIdentifier_untainted hknown
      simp [validateFd_untainted hknown, CacheCall.believes, inheritedFd, hknown]
    | true =>
      cases hid : raw.bind fun r => Bytes.read r 0 identifierLength with
      | none =>
        have hnone : inheritedFd cache fd op xattr identifier = none := by
          simp only [inheritedFd, hknown, Option.bind_eq_bind, Option.bind_some, hid,
            Option.bind_none]
        simp [validateFd_unread hknown hid, CacheCall.believes, hnone]
      | some id =>
        obtain ⟨r, rfl, hread⟩ := Option.bind_eq_some_iff.mp hid
        have hchild : inheritedFd cache fd op xattr identifier =
            cache.fd.find? fun item => (prepareEntryForChild item).isFor fd op id := by
          simp only [inheritedFd, hknown, Option.bind_eq_bind, Option.bind_some, hid]
        rw [validateFd_known hknown hread, validateFd_known hknown hread, CacheCall.believes,
          hchild, cacheOnFork, List.find?_map]
        simp only [Option.any_map, Function.comp_def, prepareEntryForChild_inDate,
          prepareEntryForChild_nop]
        exact and_iff_left rfl

/-- **A child trusts none of its parent's approvals if and only if the call
is none of those that believe an inherited entry.** -/
theorem child_trusts_nothing_iff (env : CallEnv) (cache : Cache) (call : CacheCall) :
    ¬ call.TrustsParent env cache ↔ call.believes env.now cache = false := by
  rw [← Bool.not_eq_true, not_iff_not]
  cases call with
  | fileOpenExt path =>
    exact fileCall_trusts opOpen opOpen true env cache path (by decide) (by decide) _
      (fun _ => rfl)
  | fileClaimForce path =>
    exact fileCall_trusts opClaim (opClaim ||| opOpen) false env cache path (by decide)
      (by decide) _ (fun _ => rfl)
  | shmAccess key isShmid =>
    rw [CacheCall.TrustsParent, shmCall_waves, shmCall_waves, shmCacheHit_child]
    exact and_iff_left rfl
  | validateFd fd xattr identifier op execute =>
    exact validateFd_trusts env cache fd xattr identifier op execute

/-! ## A parent's approvals in its child -/

/-- What a parent may have in its cache: the name `/f`, descriptor 3 to be
opened, descriptor 4 under an operation with the NOP bit, and the segment
with key 9. -/
def parentCache : Cache :=
  ⟨[⟨ascii "/f", 990, opOpen, 0, 0, .fileOpenFd⟩],
    [⟨List.replicate 16 9, 990, opOpen, 3, 0, .fileOpenFd⟩,
      ⟨List.replicate 16 9, 990, opNop ||| opOpen, 4, 0, .fileOpenFd⟩],
    [⟨[], 990, 0, 9, 0, .fileOpenFd⟩]⟩

/-- A call at the given time, with an enclave that refuses everything. -/
def refusedAt (now : Seconds) : CallEnv :=
  ⟨now, now, ⟨[], 0, 0, 0, 0, .fileOpenFd⟩, fun _ => false⟩

/-- The child is let into the segment and uses descriptor 4 at any time,
and uses `/f` and descriptor 3 when the clock is young; with an empty cache
none of it. -/
theorem inherited_approvals :
    let nines := some (List.replicate 16 9)
    let late := [CacheCall.shmAccess 9 false, .validateFd 4 none nines none none]
    let early := [CacheCall.fileOpenExt (ascii "/f"), .validateFd 3 none nines none none]
    (late.map fun call => (call.waves (refusedAt 1000) (cacheOnFork parentCache),
        call.waves (refusedAt 1000) .init)) = [(true, false), (true, false)] ∧
      (early.map fun call => (call.waves (refusedAt 3) (cacheOnFork parentCache),
        call.waves (refusedAt 3) .init)) = [(true, false), (true, false)] := by
  decide +kernel

end Citadel.Libcitadel
