/-
Citadel.Libcitadel.Shm — shared memory behind the shim: `c_shmget`,
`c_shmat` and `c_shmctl` (`libcitadel/src/shim.c`, `shm.c`).

The group of shared memory has one entry for each key. `c_shmget` looks for
the key, or asks; `c_shmat` and `c_shmctl` look for the segment's id in the
same entries. After `shmget` the first entry of the key is given what it
returned, also if that is -1, in place of what it had.

So the gate of `c_shmat` knows the last result of each key and nothing else
(`shmat_gate_iff`). It is open for just the ids that an approved `c_shmget`
has returned exactly if each key's last result is an id and no id was lost
to a later one (`approved_segments_iff`).
-/
import Citadel.Libcitadel.Cache

namespace Citadel.Libcitadel

open Bytes

/-! ## Calls -/

/-- `declare_shmid_from_key`, on the group. -/
def declareShmidFromKey (key shmid : BitVec 32) : List CacheItem → List CacheItem
  | [] => []
  | head :: next =>
    if key = head.fd then { head with shmid := shmid } :: next
    else head :: declareShmidFromKey key shmid next

/-- What `c_shmget` leaves and returns, and whether it came as far as
`shmget`. -/
structure ShmgetOutcome where
  cache : Cache
  result : BitVec 32
  approved : Bool

/-- `c_shmget`, where `shmget` returns `shmid`. -/
def cShmget (env : CallEnv) (cache : Cache) (key shmid : BitVec 32) : ShmgetOutcome :=
  let access := citadelShmAccess env cache key false
  -- `-EPERM` is -1
  if !access.answer then ⟨access.cache, -1, false⟩
  else
    ⟨{ access.cache with shm := declareShmidFromKey key shmid access.cache.shm }, shmid, true⟩

/-- `c_shmat`, where `shmat` returns `address`. -/
def cShmat (env : CallEnv) (cache : Cache) (shmid : BitVec 32) (address : BitVec 64) :
    BitVec 64 :=
  if !(citadelShmAccess env cache shmid true).answer then -1 else address

/-- `c_shmctl`, where `shmctl` returns `result`. -/
def cShmctl (env : CallEnv) (cache : Cache) (shmid result : BitVec 32) : BitVec 32 :=
  if !(citadelShmAccess env cache shmid true).answer then -1 else result

/-- With an id the enclave is never asked: the answer is whether an entry
has it. -/
theorem citadelShmAccess_shmid (env : CallEnv) (cache : Cache) (shmid : BitVec 32) :
    citadelShmAccess env cache shmid true =
      ⟨cache, cache.shm.any fun item => shmid == item.shmid, none⟩ := by
  have hhit : shmCacheHit cache shmid true = cache.shm.any fun item => shmid == item.shmid := by
    simp [shmCacheHit]
  rw [citadelShmAccess, hhit]
  cases cache.shm.any fun item => shmid == item.shmid <;> rfl

/-! ## Runs -/

/-- A call of `c_shmget`. -/
structure ShmgetCall where
  env : CallEnv
  key : BitVec 32
  shmid : BitVec 32

/-- The cache, and the keys and results of the approved calls, the last one
first. -/
structure ShmState where
  cache : Cache
  granted : List (BitVec 32 × BitVec 32)

def ShmState.init : ShmState := ⟨.init, []⟩

def shmStep (s : ShmState) (call : ShmgetCall) : ShmState :=
  let out := cShmget call.env s.cache call.key call.shmid
  ⟨out.cache, if out.approved then (call.key, out.result) :: s.granted else s.granted⟩

def shmRun (calls : List ShmgetCall) : ShmState := calls.foldl shmStep .init

/-- One entry for each key that was approved, with the key's last result. -/
structure ShmState.Declared (s : ShmState) : Prop where
  nodup : (s.cache.shm.map CacheItem.fd).Nodup
  last : ∀ key shmid, (∃ item ∈ s.cache.shm, item.fd = key ∧ item.shmid = shmid) ↔
    s.granted.lookup key = some shmid

/-! ### Entries of a key -/

theorem declareShmidFromKey_keys (key shmid : BitVec 32) (group : List CacheItem) :
    (declareShmidFromKey key shmid group).map CacheItem.fd = group.map CacheItem.fd := by
  induction group with
  | nil => rfl
  | cons head next ih =>
    rw [declareShmidFromKey]
    split
    · rfl
    · rw [List.map_cons, List.map_cons, ih]

/-- The entries afterwards: the key's has the new id, the others are as they
were. -/
theorem declareShmidFromKey_entries {key shmid : BitVec 32} {group : List CacheItem}
    (hnodup : (group.map CacheItem.fd).Nodup) (hkey : key ∈ group.map CacheItem.fd)
    (key' shmid' : BitVec 32) :
    (∃ item ∈ declareShmidFromKey key shmid group, item.fd = key' ∧ item.shmid = shmid') ↔
      if key' = key then shmid = shmid'
      else ∃ item ∈ group, item.fd = key' ∧ item.shmid = shmid' := by
  induction group with
  | nil => cases hkey
  | cons head next ih =>
    rw [List.map_cons, List.nodup_cons] at hnodup
    obtain ⟨hhead, hnext⟩ := hnodup
    rw [declareShmidFromKey]
    by_cases hfirst : key = head.fd
    · -- the key has no other entry
      have hnone : key' = key → ¬ ∃ item ∈ next, item.fd = key' ∧ item.shmid = shmid' := by
        rintro rfl ⟨item, hitem, hfd, -⟩
        exact hhead (List.mem_map.mpr ⟨item, hitem, hfd.trans hfirst⟩)
      simp only [if_pos hfirst, List.mem_cons, exists_eq_or_imp]
      by_cases hkey' : key' = key
      · rw [if_pos hkey']
        constructor
        · rintro (⟨-, h⟩ | h)
          · exact h
          · exact absurd h (hnone hkey')
        · intro h
          exact .inl ⟨(hkey'.trans hfirst).symm, h⟩
      · have hother : head.fd ≠ key' := fun h => hkey' (h.symm.trans hfirst.symm)
        simp only [hother, false_and, false_or, if_neg hkey']
    · have hin : key ∈ next.map CacheItem.fd := (List.mem_cons.mp hkey).resolve_left hfirst
      simp only [if_neg hfirst, List.mem_cons, exists_eq_or_imp, ih hnext hin]
      by_cases hkey' : key' = key
      · have hother : head.fd ≠ key' := fun h => hfirst (h.trans hkey').symm
        simp only [hother, false_and, false_or, if_pos hkey']
      · simp only [if_neg hkey']

/-! ### One call -/

/-- An approved call finds the key in the group, or puts it there. -/
theorem citadelShmAccess_key {env : CallEnv} {cache : Cache} {key : BitVec 32}
    (hnodup : (cache.shm.map CacheItem.fd).Nodup)
    (happroved : (citadelShmAccess env cache key false).answer = true) :
    ((citadelShmAccess env cache key false).cache.shm.map CacheItem.fd).Nodup ∧
      key ∈ (citadelShmAccess env cache key false).cache.shm.map CacheItem.fd ∧
      ∀ key' shmid, key' ≠ key →
        ((∃ item ∈ (citadelShmAccess env cache key false).cache.shm,
            item.fd = key' ∧ item.shmid = shmid) ↔
          ∃ item ∈ cache.shm, item.fd = key' ∧ item.shmid = shmid) := by
  have hhit : shmCacheHit cache key false = true ↔ key ∈ cache.shm.map CacheItem.fd := by
    simp only [shmCacheHit, Bool.not_false, Bool.true_and, Bool.false_and, Bool.or_false,
      List.any_eq_true, beq_iff_eq, List.mem_map]
    exact ⟨fun ⟨item, hitem, h⟩ => ⟨item, hitem, h.symm⟩,
      fun ⟨item, hitem, h⟩ => ⟨item, hitem, h.symm⟩⟩
  unfold citadelShmAccess at happroved ⊢
  by_cases hin : shmCacheHit cache key false = true
  · simp only [hin, if_true]
    exact ⟨hnodup, hhit.mp hin, fun _ _ _ => trivial⟩
  · have hout : key ∉ cache.shm.map CacheItem.fd := fun h => hin (hhit.mpr h)
    simp only [if_neg hin, Bool.false_eq_true, if_false] at happroved ⊢
    split at happroved
    · rename_i hask
      simp only [if_pos hask, List.map_append, List.map_cons, List.map_nil]
      refine ⟨?_, List.mem_append_right _ List.mem_cons_self, ?_⟩
      · rw [← List.concat_eq_append]
        exact List.Nodup.concat hout hnodup
      · intro key' shmid hne
        simp only [List.mem_append, List.mem_singleton]
        constructor
        · rintro ⟨item, hitem | rfl, hfd, hshmid⟩
          · exact ⟨item, hitem, hfd, hshmid⟩
          · exact absurd hfd.symm hne
        · rintro ⟨item, hitem, h⟩
          exact ⟨item, .inl hitem, h⟩
    · cases happroved

/-- A call that is refused leaves the cache. -/
theorem citadelShmAccess_refused {env : CallEnv} {cache : Cache} {key : BitVec 32}
    (hrefused : (citadelShmAccess env cache key false).answer = false) :
    (citadelShmAccess env cache key false).cache = cache := by
  unfold citadelShmAccess at hrefused ⊢
  split at hrefused
  · cases hrefused
  · rename_i hmiss
    simp only [Bool.false_eq_true, if_false] at hrefused ⊢
    split at hrefused
    · cases hrefused
    · rename_i hask
      rw [if_neg hmiss, if_neg hask]

theorem shmStep_declared {s : ShmState} (h : s.Declared) (call : ShmgetCall) :
    (shmStep s call).Declared := by
  cases hanswer : (citadelShmAccess call.env s.cache call.key false).answer with
  | false =>
    have hstep : shmStep s call = s := by
      simp only [shmStep, cShmget, hanswer, Bool.not_false, if_true,
        citadelShmAccess_refused hanswer, Bool.false_eq_true, if_false]
    rw [hstep]
    exact h
  | true =>
    obtain ⟨hnodup, hkey, hothers⟩ := citadelShmAccess_key h.nodup hanswer
    simp only [shmStep, cShmget, hanswer, Bool.not_true, Bool.false_eq_true, if_false, if_true]
    constructor
    · rw [declareShmidFromKey_keys]
      exact hnodup
    · intro key shmid
      rw [declareShmidFromKey_entries hnodup hkey]
      by_cases hk : key = call.key
      · rw [if_pos hk, hk, List.lookup_cons_self, Option.some.injEq]
      · have hbeq : (key == call.key) = false := beq_eq_false_iff_ne.mpr hk
        rw [if_neg hk, hothers key shmid hk, h.last, List.lookup_cons, hbeq]

theorem shmRun_declared (calls : List ShmgetCall) : (shmRun calls).Declared := by
  have hinit : ShmState.init.Declared := by
    refine ⟨List.nodup_nil, fun key shmid => ⟨?_, nofun⟩⟩
    rintro ⟨item, hitem, -⟩
    cases hitem
  unfold shmRun
  generalize ShmState.init = s at hinit
  induction calls generalizing s with
  | nil => exact hinit
  | cons call calls ih => exact ih (shmStep s call) (shmStep_declared hinit call)

/-! ## The gate -/

/-- The gate of `c_shmat` and `c_shmctl` is open for the last result of each
key. -/
theorem shmat_gate_iff (env : CallEnv) (calls : List ShmgetCall) (shmid : BitVec 32) :
    (citadelShmAccess env (shmRun calls).cache shmid true).answer = true ↔
      ∃ key, (shmRun calls).granted.lookup key = some shmid := by
  simp only [citadelShmAccess_shmid, List.any_eq_true, beq_iff_eq, ← (shmRun_declared calls).last]
  constructor
  · rintro ⟨item, hitem, rfl⟩
    exact ⟨item.fd, item, hitem, rfl, rfl⟩
  · rintro ⟨key, item, hitem, -, rfl⟩
    exact ⟨item, hitem, rfl⟩

/-- What `shmget` returns for a segment, and not for an error. -/
def ValidShmid (shmid : BitVec 32) : Prop := 0 ≤ shmid.toInt

/-- Each key's last result is the id of a segment, and each id returned is
still the last result of a key. -/
structure LastResultsStand (granted : List (BitVec 32 × BitVec 32)) : Prop where
  valid : ∀ key shmid, granted.lookup key = some shmid → ValidShmid shmid
  kept : ∀ key shmid, (key, shmid) ∈ granted → ValidShmid shmid →
    ∃ key', granted.lookup key' = some shmid

/-- After every sequence of calls the gate is open for exactly the segments
that approved calls have returned if and only if no key's last result is an
error and no segment was lost to a later result. -/
theorem approved_segments_iff (env : CallEnv) (calls : List ShmgetCall) :
    (∀ shmid, (citadelShmAccess env (shmRun calls).cache shmid true).answer = true ↔
      ValidShmid shmid ∧ ∃ key, (key, shmid) ∈ (shmRun calls).granted) ↔
      LastResultsStand (shmRun calls).granted := by
  simp only [shmat_gate_iff]
  generalize (shmRun calls).granted = granted
  constructor
  · intro h
    constructor
    · intro key shmid hlast
      exact ((h shmid).mp ⟨key, hlast⟩).1
    · intro key shmid hmem hvalid
      exact (h shmid).mpr ⟨hvalid, key, hmem⟩
  · intro h shmid
    constructor
    · rintro ⟨key, hlast⟩
      obtain ⟨before, after, hsplit, -⟩ := List.lookup_eq_some_iff.mp hlast
      refine ⟨h.valid key shmid hlast, key, ?_⟩
      rw [hsplit]
      exact List.mem_append_right _ List.mem_cons_self
    · rintro ⟨hvalid, key, hmem⟩
      exact h.kept key shmid hmem hvalid

/-- The enclave approves everything. -/
def approvingEnv : CallEnv := ⟨0, 0, ⟨[], 0, 0, 0, 0, .socket⟩, fun _ => true⟩

/-- Two segments under `IPC_PRIVATE`, which is 0. -/
def twoPrivate : List ShmgetCall := [⟨approvingEnv, 0, 7⟩, ⟨approvingEnv, 0, 8⟩]

/-- A segment, and a second `shmget` for its key that fails. -/
def thenFailed : List ShmgetCall := [⟨approvingEnv, 1, 7⟩, ⟨approvingEnv, 1, -1⟩]

/-- **A later result replaces a segment.** The first private segment cannot
be attached any more; and after a failed `shmget` the gate is open for -1
and closed for the segment. -/
theorem segment_lost :
    (0, 7) ∈ (shmRun twoPrivate).granted ∧
      (citadelShmAccess approvingEnv (shmRun twoPrivate).cache 7 true).answer = false ∧
      (∀ address, cShmat approvingEnv (shmRun twoPrivate).cache 7 address = -1) ∧
      (∀ result, cShmctl approvingEnv (shmRun twoPrivate).cache 7 result = -1) ∧
      (1, 7) ∈ (shmRun thenFailed).granted ∧
      (citadelShmAccess approvingEnv (shmRun thenFailed).cache 7 true).answer = false ∧
      (citadelShmAccess approvingEnv (shmRun thenFailed).cache (-1) true).answer = true ∧
      ¬ ValidShmid (-1) := by
  have hlost : (citadelShmAccess approvingEnv (shmRun twoPrivate).cache 7 true).answer = false := by
    decide
  refine ⟨by decide, hlost, ?_, ?_, by decide, by decide, by decide, by unfold ValidShmid; decide⟩
  · intro address
    rw [cShmat, hlost]
    rfl
  · intro result
    rw [cShmctl, hlost]
    rfl

end Citadel.Libcitadel
