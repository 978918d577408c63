/-
Citadel.Libcitadel.FdCalls — runs of calls on the descriptor group, over
its pointers.

`citadel_declare_fd`, `citadel_validate_fd` and `cache_on_fork` as they
work on the linked list. Each of them does to the list what its
counterpart in `Citadel.Libcitadel.Cache` does to the entries, and faults
only where that does, on an identifier (`fdStep_spec`). So in every run
the group is a list that comes to an end. A declaration appends an entry if
the descriptor has a label, a validation appends one or moves the entry it
refreshed to the end or leaves the list as it is, and a fork leaves every
entry where it is (`fd_group_entries_kept`).
-/
import Citadel.Lib.Run
import Citadel.Libcitadel.FdList
import Citadel.Libcitadel.Fork

namespace Citadel.Libcitadel

open Bytes ChainHeap

/-! ## Calls -/

/-- The result of a call, and what it asked the enclave. -/
structure FdOutcome where
  group : FdGroup
  answer : Bool
  asked : Option Request

/-- `askAboutFd` over the pointers. -/
def askAboutFdAt (self : Update) (env : CallEnv) (g : FdGroup) (fd : BitVec 32)
    (identifier : Identifier) (operation : Operation) (addCache : Bool) : Option FdOutcome :=
  let request := Request.plain operation identifier
  if env.ask request then
    if addCache then do
      let g ← newEntryAt g env.memory env.later fun item =>
        { item with op := operation, fd := fd, data := identifier.1, update := self }
      some ⟨g, true, some request⟩
    else some ⟨g, true, some request⟩
  else some ⟨g, false, some request⟩

/-- `_citadel_file_open_fd` or `_citadel_socket`. -/
def Update.callAt (u : Update) : CallEnv → FdGroup → BitVec 32 → Identifier → Operation →
    Bool → Option FdOutcome :=
  askAboutFdAt u

def updateCacheTimestamp (now : Seconds) (item : CacheItem) : CacheItem := { item with time := now }

/-- `useFd` over the pointers: only an entry with another behind it is
moved. -/
def useFdAt (env : CallEnv) (g : FdGroup) (fd : BitVec 32) (found : FoundAt) :
    Option FdOutcome := do
  let head ← g.heap.cell found.head
  if entryInDate env.now head.val || head.val.op.has opNop then some ⟨g, true, none⟩
  else do
    let renewed ← head.val.update.callAt env g fd found.identifier head.val.op false
    if !renewed.answer then some renewed
    else do
      let heap ← renewed.group.heap.setVal found.head (updateCacheTimestamp env.later)
      let g := { renewed.group with heap := heap }
      let head ← heap.cell found.head
      if head.next ≠ 0 then do
        let g ← moveCacheItemToEnd g found.head found.prev
        some ⟨g, true, renewed.asked⟩
      else some ⟨g, true, renewed.asked⟩

/-- `executeFd` over the pointers. -/
def executeFdAt (env : CallEnv) (g : FdGroup) (fd : BitVec 32)
    (identifier : Option (List UInt8)) (op : Option Operation) (execute : Option Update) :
    Option FdOutcome :=
  match op, execute with
  | some op, some execute => do
    let raw ← identifier
    let id ← Bytes.read raw 0 identifierLength
    execute.callAt env g fd id op true
  | _, _ => some ⟨g, false, none⟩

/-- `citadel_validate_fd`. -/
def citadelValidateFdAt (env : CallEnv) (g : FdGroup) (fd : BitVec 32)
    (xattr identifier : Option (List UInt8)) (op : Option Operation)
    (execute : Option Update) : Option (FdOutcome × Bool) := do
  let (identifier, taint) ← fdIdentifier xattr identifier
  if !taint then some (⟨g, true, none⟩, false)
  else
    let out ← match ← scanFdAt g.heap fd op identifier g.heap.fresh 0 g.head with
      | some found => useFdAt env g fd found
      | none => executeFdAt env g fd identifier op execute
    some (out, true)

/-- `citadel_declare_fd`. -/
def citadelDeclareFdAt (memory : CacheItem) (now : Seconds) (parentIdentifier : Identifier)
    (g : FdGroup) (fd : BitVec 32) (xattr : Option (List UInt8)) (op : Operation) :
    Option FdGroup := do
  let (identifier, tainted) ← getFdIdentifier xattr
  match identifier with
  | none => some g
  | some identifier =>
    if tainted then do
      let data ← if op.has opParent then some parentIdentifier
        else Bytes.read identifier 0 identifierLength
      newEntryAt g memory now fun item =>
        { item with op := op, fd := fd, data := data.1, update := .fileOpenFd }
    else some g

/-! ## What a call does -/

/-- A call that works on the descriptor group, with what happens during
it. -/
inductive FdEvent where
  | declare (memory : CacheItem) (now : Seconds) (parentIdentifier : Identifier)
      (fd : BitVec 32) (xattr : Option (List UInt8)) (op : Operation)
  | validate (env : CallEnv) (fd : BitVec 32) (xattr identifier : Option (List UInt8))
      (op : Option Operation) (execute : Option Update)
  | fork

/-- What a call does to the entries of the group. A declaration appends an
entry for its descriptor and operation exactly if the descriptor has a
label. A validation appends one if it was given a request to execute and the
enclave approves; it moves one to the end that is out of date, if the enclave
approves that, with a new time and the descriptor, operation and identifier
it had; else it leaves the entries as they are. In a child every entry stays
where it was. -/
inductive FdEffect (cs : List (Nat × CacheItem)) : FdEvent → List (Nat × CacheItem) → Prop
  | undeclared {memory : CacheItem} {now : Seconds} {parentIdentifier : Identifier}
      {fd : BitVec 32} {xattr : Option (List UInt8)} {op : Operation}
      (plain : ∀ raw, getFdIdentifier xattr ≠ some (some raw, true)) :
      FdEffect cs (.declare memory now parentIdentifier fd xattr op) cs
  | declared {memory : CacheItem} {now : Seconds} {parentIdentifier : Identifier}
      {fd : BitVec 32} {xattr : Option (List UInt8)} {op : Operation} {raw : List UInt8}
      (labelled : getFdIdentifier xattr = some (some raw, true)) (entry : Nat × CacheItem)
      (fresh : entry.1 ∉ addrs cs) (sameFd : entry.2.fd = fd) (sameOp : entry.2.op = op) :
      FdEffect cs (.declare memory now parentIdentifier fd xattr op) (cs ++ [entry])
  | unchanged {env : CallEnv} {fd : BitVec 32} {xattr identifier : Option (List UInt8)}
      {op : Option Operation} {execute : Option Update} :
      FdEffect cs (.validate env fd xattr identifier op execute) cs
  | executed {env : CallEnv} {fd : BitVec 32} {xattr identifier : Option (List UInt8)}
      {op : Operation} {execute : Update} {id : Identifier}
      (approved : env.ask (.plain op id) = true) (entry : Nat × CacheItem)
      (fresh : entry.1 ∉ addrs cs) (sameFd : entry.2.fd = fd) (sameOp : entry.2.op = op) :
      FdEffect cs (.validate env fd xattr identifier (some op) (some execute)) (cs ++ [entry])
  | refreshed {env : CallEnv} {xattr identifier : Option (List UInt8)} {op : Option Operation}
      {execute : Option Update} {id : Identifier} (pre post : List (Nat × CacheItem)) (q : Nat)
      (item item' : CacheItem) (found : cs = pre ++ (q, item) :: post)
      (wanted : op = none ∨ op = some item.op) (expired : entryInDate env.now item = false)
      (approved : env.ask (.plain item.op id) = true) (fd : item'.fd = item.fd)
      (sameOp : item'.op = item.op) (data : item'.data = item.data)
      (time : item'.time = env.later) :
      FdEffect cs (.validate env item.fd xattr identifier op execute)
        (pre ++ (post ++ [(q, item')]))
  | forked : FdEffect cs .fork (cs.map forChild)

/-- A call over the entries and one over the pointers have done the same. -/
structure SameOutcome (ev : FdEvent) (cs : List (Nat × CacheItem)) (out : Outcome)
    (at' : FdOutcome) : Prop where
  answer : at'.answer = out.answer
  asked : at'.asked = out.asked
  entries : ∃ cs', at'.group.Is cs' ∧ out.cache.fd = values cs' ∧ FdEffect cs ev cs'

/-- Both calls fault, or both come back and `R` relates what they return. -/
def Together {A B : Type} (R : A → B → Prop) (a : Option A) (b : Option B) : Prop :=
  (a = none ∧ b = none) ∨ ∃ x y, a = some x ∧ b = some y ∧ R x y

section

variable {g : FdGroup} {cache : Cache} {cs : List (Nat × CacheItem)}

theorem call_eq (u : Update) (env : CallEnv) (fd : BitVec 32) (id : Identifier) (op : Operation)
    (add : Bool) : u.call env cache fd id op add = askAboutFd u env cache fd id op add := by
  cases u <;> rfl

/-- A request that a validation was given to execute appends at most one
entry. -/
theorem callAt_spec (hcs : g.Is cs) (hcache : cache.fd = values cs) (u : Update) (env : CallEnv)
    (fd : BitVec 32) (id : Identifier) (op : Operation)
    (xattr identifier : Option (List UInt8)) :
    ∃ out, u.callAt env g fd id op true = some out ∧
      SameOutcome (.validate env fd xattr identifier (some op) (some u)) cs
        (u.call env cache fd id op true) out := by
  rw [call_eq, Update.callAt, askAboutFdAt, askAboutFd]
  by_cases hask : env.ask (.plain op id)
  · rw [if_pos hask, if_pos hask]
    obtain ⟨hfresh, g', hnew, hg'⟩ := newEntryAt_spec hcs env.memory env.later fun item =>
      { item with op := op, fd := fd, data := id.1, update := u }
    rw [if_pos rfl, hnew]
    refine ⟨_, rfl, rfl, rfl, _, hg', ?_, .executed hask _ hfresh rfl rfl⟩
    simp only [if_true, hcache, values_append]
    rfl
  · rw [if_neg hask, if_neg hask]
    exact ⟨_, rfl, rfl, rfl, cs, hcs, hcache, .unchanged⟩

/-- Without a new entry the request leaves the group itself alone. -/
theorem callAt_false (u : Update) (env : CallEnv) (fd : BitVec 32) (id : Identifier)
    (op : Operation) : u.callAt env g fd id op false =
      some ⟨g, env.ask (.plain op id), some (.plain op id)⟩ := by
  rw [Update.callAt, askAboutFdAt]
  cases env.ask (.plain op id) <;> rfl

theorem call_false (u : Update) (env : CallEnv) (fd : BitVec 32) (id : Identifier)
    (op : Operation) : u.call env cache fd id op false =
      ⟨cache, env.ask (.plain op id), some (.plain op id)⟩ := by
  rw [call_eq, askAboutFd]
  cases env.ask (.plain op id) <;> rfl

/-- An entry that is found is in date, or refused, or moves to the end. -/
theorem useFdAt_spec {us vs : List (Nat × CacheItem)} {c : Nat × CacheItem}
    (hcs : g.Is (us ++ c :: vs)) (hcache : cache.fd = values (us ++ c :: vs)) (env : CallEnv)
    {op : Option Operation} (hop : op = none ∨ op = some c.2.op) (id : Identifier)
    (xattr identifier : Option (List UInt8)) (execute : Option Update) :
    ∃ out, useFdAt env g c.2.fd ⟨lastAddr us, c.1, id⟩ = some out ∧
      SameOutcome (.validate env c.2.fd xattr identifier op execute) (us ++ c :: vs)
        (useFd env cache c.2.fd ⟨values us, c.2, values vs, id⟩) out := by
  obtain ⟨heap, head⟩ := g
  obtain ⟨n, hcell⟩ : ∃ n, heap.cell c.1 = some ⟨c.2, n⟩ := IsSeg.live hcs (by simp)
  simp only [useFdAt, useFd, hcell, Option.bind_eq_bind, Option.bind_some, callAt_false,
    call_false]
  by_cases hdate : entryInDate env.now c.2 || c.2.op.has opNop
  · rw [if_pos hdate, if_pos hdate]
    exact ⟨_, rfl, rfl, rfl, _, hcs, hcache, .unchanged⟩
  rw [if_neg hdate, if_neg hdate]
  have hexpired : entryInDate env.now c.2 = false :=
    Bool.eq_false_iff.mpr fun h => hdate (Bool.or_eq_true_iff.mpr (.inl h))
  cases hask : env.ask (.plain c.2.op id) with
  | false =>
    simp only [Bool.not_false, if_true]
    exact ⟨_, rfl, rfl, rfl, _, hcs, hcache, .unchanged⟩
  | true =>
    have hstamped : FdGroup.Is ⟨heap.putVal c.1 (updateCacheTimestamp env.later), head⟩
        (us ++ (c.1, updateCacheTimestamp env.later c.2) :: vs) := IsChain.putVal hcs
    have hcell' := putVal_same (f := updateCacheTimestamp env.later) hcell
    have heffect : FdEffect (us ++ c :: vs) (.validate env c.2.fd xattr identifier op execute)
        (us ++ (vs ++ [(c.1, updateCacheTimestamp env.later c.2)])) :=
      .refreshed us vs c.1 c.2 _ rfl hop hexpired hask rfl rfl rfl rfl
    have hnext := IsChain.next_eq_null_iff hcs hcell
    simp only [Bool.not_true, Bool.false_eq_true, if_false, setVal_of_live hcell,
      Option.bind_some, hcell']
    by_cases hlast : vs = []
    · rw [if_neg (not_not.mpr (hnext.mpr hlast))]
      subst hlast
      refine ⟨_, rfl, rfl, rfl, _, hstamped, ?_, heffect⟩
      simp [values, updateCacheTimestamp]
    · obtain ⟨g', hmove, hg'⟩ := moveCacheItemToEnd_spec hstamped hlast
      rw [if_pos fun hnull => hlast (hnext.mp hnull), hmove]
      refine ⟨_, rfl, rfl, rfl, _, hg', ?_, heffect⟩
      simp [values, updateCacheTimestamp]

theorem executeFdAt_spec (hcs : g.Is cs) (hcache : cache.fd = values cs) (env : CallEnv)
    (fd : BitVec 32) (identifier : Option (List UInt8)) (op : Option Operation)
    (execute : Option Update) (xattr given : Option (List UInt8)) :
    Together (SameOutcome (.validate env fd xattr given op execute) cs)
      (executeFd env cache fd identifier op execute)
      (executeFdAt env g fd identifier op execute) := by
  have hskip : ∀ {op execute}, SameOutcome (.validate env fd xattr given op execute) cs
      ⟨cache, false, none⟩ ⟨g, false, none⟩ := ⟨rfl, rfl, cs, hcs, hcache, .unchanged⟩
  cases op with
  | none => exact .inr ⟨_, _, rfl, rfl, hskip⟩
  | some op =>
    cases execute with
    | none => exact .inr ⟨_, _, rfl, rfl, hskip⟩
    | some execute =>
      cases identifier with
      | none => exact .inl ⟨rfl, rfl⟩
      | some raw =>
        simp only [executeFd, executeFdAt, Option.bind_eq_bind, Option.bind_some]
        cases Bytes.read raw 0 identifierLength with
        | none => exact .inl ⟨rfl, rfl⟩
        | some id =>
          obtain ⟨out, hout, hsame⟩ := callAt_spec hcs hcache execute env fd id op xattr given
          exact .inr ⟨_, out, rfl, hout, hsame⟩

/-- `citadel_validate_fd` over the pointers and over the entries. -/
theorem citadelValidateFdAt_spec (hcs : g.Is cs) (hcache : cache.fd = values cs) (env : CallEnv)
    (fd : BitVec 32) (xattr identifier : Option (List UInt8)) (op : Option Operation)
    (execute : Option Update) :
    Together (fun out at' =>
        SameOutcome (.validate env fd xattr identifier op execute) cs out.1 at'.1 ∧ at'.2 = out.2)
      (citadelValidateFd env cache fd xattr identifier op execute)
      (citadelValidateFdAt env g fd xattr identifier op execute) := by
  unfold citadelValidateFd citadelValidateFdAt
  cases fdIdentifier xattr identifier with
  | none => exact .inl ⟨rfl, rfl⟩
  | some known =>
    obtain ⟨raw, taint⟩ := known
    simp only [Option.bind_eq_bind, Option.bind_some]
    cases taint with
    | false =>
      exact .inr ⟨_, _, rfl, rfl, ⟨rfl, rfl, cs, hcs, hcache, .unchanged⟩, rfl⟩
    | true =>
      simp only [Bool.not_true, Bool.false_eq_true, if_false]
      rw [hcache]
      rcases scanFdAt_spec fd op raw [] hcs (IsChain.length_lt hcs) with
        ⟨hlist, hptr⟩ | ⟨hlist, hptr⟩ | ⟨us, c, vs, id, hsplit, hfd, hop, hlist, hptr⟩
      · left
        exact ⟨by rw [show scanFd fd op raw [] (values cs) = none from hlist]; rfl,
          by rw [show scanFdAt g.heap fd op raw g.heap.fresh 0 g.head = none from hptr]; rfl⟩
      · rw [show scanFd fd op raw [] (values cs) = some none from hlist,
          show scanFdAt g.heap fd op raw g.heap.fresh 0 g.head = some none from hptr]
        simp only [Option.bind_some]
        rcases executeFdAt_spec hcs hcache env fd raw op execute xattr identifier with
          ⟨hout, hat⟩ | ⟨out, at', hout, hat, hsame⟩
        · exact .inl ⟨by rw [hout]; rfl, by rw [hat]; rfl⟩
        · exact .inr ⟨_, _, by rw [hout]; rfl, by rw [hat]; rfl, hsame, rfl⟩
      · rw [show scanFd fd op raw [] (values cs) = _ from hlist,
          show scanFdAt g.heap fd op raw g.heap.fresh 0 g.head = _ from hptr]
        rw [List.nil_append] at hsplit
        subst hsplit hfd
        obtain ⟨out, hout, hsame⟩ := useFdAt_spec hcs hcache env hop id xattr identifier execute
        simp only [Option.bind_some, hout]
        exact .inr ⟨_, _, rfl, rfl, hsame, rfl⟩

/-- `citadel_declare_fd` appends at most one entry. -/
theorem citadelDeclareFdAt_spec (hcs : g.Is cs) (hcache : cache.fd = values cs)
    (memory : CacheItem) (now : Seconds) (parentIdentifier : Identifier) (fd : BitVec 32)
    (xattr : Option (List UInt8)) (op : Operation) :
    Together (fun (cache' : Cache) (g' : FdGroup) =>
        ∃ cs', g'.Is cs' ∧ cache'.fd = values cs' ∧
          FdEffect cs (.declare memory now parentIdentifier fd xattr op) cs')
      (citadelDeclareFd memory now parentIdentifier cache fd xattr op)
      (citadelDeclareFdAt memory now parentIdentifier g fd xattr op) := by
  unfold citadelDeclareFd citadelDeclareFdAt
  cases hknown : getFdIdentifier xattr with
  | none => exact .inl ⟨rfl, rfl⟩
  | some known =>
    obtain ⟨identifier, tainted⟩ := known
    simp only [Option.bind_eq_bind, Option.bind_some]
    cases identifier with
    | none => exact .inr ⟨_, _, rfl, rfl, cs, hcs, hcache, .undeclared (by simp [hknown])⟩
    | some raw =>
      cases tainted with
      | false => exact .inr ⟨_, _, rfl, rfl, cs, hcs, hcache, .undeclared (by simp [hknown])⟩
      | true =>
        have hadd := fun data : Identifier => newEntryAt_spec hcs memory now fun item =>
          { item with op := op, fd := fd, data := data.1, update := .fileOpenFd }
        by_cases hop : op.has opParent
        · obtain ⟨hfresh, g', hnew, hg'⟩ := hadd parentIdentifier
          simp only [if_true, if_pos hop, hnew]
          refine .inr ⟨_, _, rfl, rfl, _, hg', ?_, .declared hknown _ hfresh rfl rfl⟩
          rw [values_append, hcache]
          rfl
        · simp only [if_true, if_neg hop]
          cases Bytes.read raw 0 identifierLength with
          | none => exact .inl ⟨rfl, rfl⟩
          | some data =>
            obtain ⟨hfresh, g', hnew, hg'⟩ := hadd data
            simp only [Option.bind_some, hnew]
            refine .inr ⟨_, _, rfl, rfl, _, hg', ?_, .declared hknown _ hfresh rfl rfl⟩
            rw [values_append, hcache]
            rfl

end

/-! ## Runs -/

/-- The call over the pointers. -/
def fdStep (g : FdGroup) : FdEvent → Option FdGroup
  | .declare memory now parentIdentifier fd xattr op =>
    citadelDeclareFdAt memory now parentIdentifier g fd xattr op
  | .validate env fd xattr identifier op execute =>
    (citadelValidateFdAt env g fd xattr identifier op execute).map (·.1.group)
  | .fork => cacheOnForkAt g

/-- The call over the entries. -/
def fdListStep (cache : Cache) : FdEvent → Option Cache
  | .declare memory now parentIdentifier fd xattr op =>
    citadelDeclareFd memory now parentIdentifier cache fd xattr op
  | .validate env fd xattr identifier op execute =>
    (citadelValidateFd env cache fd xattr identifier op execute).map (·.1.cache)
  | .fork => some (cacheOnFork cache)

/-- The group stands for the descriptor entries of the cache. -/
theorem fdStep_spec {g : FdGroup} {cs : List (Nat × CacheItem)} (hcs : g.Is cs) (cache : Cache)
    (hcache : cache.fd = values cs) (ev : FdEvent) :
    Together (fun (cache' : Cache) (g' : FdGroup) =>
        ∃ cs', g'.Is cs' ∧ cache'.fd = values cs' ∧ FdEffect cs ev cs')
      (fdListStep cache ev) (fdStep g ev) := by
  cases ev with
  | declare memory now parentIdentifier fd xattr op =>
    exact citadelDeclareFdAt_spec hcs hcache memory now parentIdentifier fd xattr op
  | validate env fd xattr identifier op execute =>
    rw [fdListStep, fdStep]
    rcases citadelValidateFdAt_spec hcs hcache env fd xattr identifier op execute with
      ⟨hlist, hptr⟩ | ⟨out, at', hlist, hptr, hsame, -⟩
    · exact .inl ⟨by rw [hlist]; rfl, by rw [hptr]; rfl⟩
    · exact .inr ⟨_, _, by rw [hlist]; rfl, by rw [hptr]; rfl, hsame.entries⟩
  | fork =>
    obtain ⟨g', hfork, hg'⟩ := cacheOnForkAt_spec hcs
    refine .inr ⟨_, g', rfl, hfork, _, hg', ?_, .forked⟩
    simp [cacheOnFork, hcache, values, forChild, Function.comp_def]

/-- The descriptor has no label, or one with an identifier of 16 bytes at
least. -/
def wholeIdentifier (known : Option (Option (List UInt8) × Bool)) : Bool :=
  known.any fun k => !k.2 || k.1.any fun raw => decide (identifierLength ≤ raw.length)

/-- The identifier the call works with is whole. -/
def FdEvent.whole : FdEvent → Bool
  | .declare _ _ _ _ xattr _ => wholeIdentifier (getFdIdentifier xattr)
  | .validate _ _ xattr identifier _ _ => wholeIdentifier (fdIdentifier xattr identifier)
  | .fork => true

theorem wholeIdentifier_cases {known : Option (Option (List UInt8) × Bool)}
    (h : wholeIdentifier known = true) :
    (∃ raw, known = some (raw, false)) ∨
      ∃ raw id, known = some (some raw, true) ∧
        Bytes.read raw 0 identifierLength = some id := by
  cases known with
  | none => cases h
  | some k =>
    obtain ⟨identifier, taint⟩ := k
    cases taint with
    | false => exact .inl ⟨identifier, rfl⟩
    | true =>
      cases identifier with
      | none => cases h
      | some raw =>
        have hlen : identifierLength ≤ raw.length := by simpa [wholeIdentifier] using h
        obtain ⟨id, hid⟩ := read_isSome (show 0 + identifierLength ≤ raw.length by omega)
        exact .inr ⟨raw, id, rfl, hid⟩

/-- Over the entries, only an identifier can make a call fault. -/
theorem fdListStep_isSome (cache : Cache) {ev : FdEvent} (h : ev.whole = true) :
    ∃ cache', fdListStep cache ev = some cache' := by
  cases ev with
  | declare memory now parentIdentifier fd xattr op =>
    rw [fdListStep, citadelDeclareFd]
    rcases wholeIdentifier_cases h with ⟨raw, hknown⟩ | ⟨raw, id, hknown, hid⟩
    · cases raw <;> exact ⟨_, by rw [hknown]; rfl⟩
    · by_cases hop : op.has opParent <;>
        exact ⟨_, by simp only [hknown, hid, hop, Option.bind_eq_bind, Option.bind_some, if_true,
          Bool.false_eq_true, if_false]; rfl⟩
  | validate env fd xattr identifier op execute =>
    rw [fdListStep, citadelValidateFd]
    rcases wholeIdentifier_cases h with ⟨raw, hknown⟩ | ⟨raw, id, hknown, hid⟩
    · exact ⟨_, by rw [hknown]; rfl⟩
    · obtain ⟨found, hscan, -⟩ := Option.map_eq_some_iff.mp (scanFd_find hid fd op [] cache.fd)
      simp only [hknown, hscan, Option.bind_eq_bind, Option.bind_some, Bool.not_true,
        Bool.false_eq_true, if_false]
      cases found with
      | some found => exact ⟨_, rfl⟩
      | none =>
        cases op with
        | none => exact ⟨_, rfl⟩
        | some op =>
          cases execute with
          | none => exact ⟨_, rfl⟩
          | some execute =>
            exact ⟨_, by simp only [executeFd, hid, Option.bind_eq_bind, Option.bind_some]; rfl⟩
  | fork => exact ⟨_, rfl⟩

/-- In every run the group is a chain from its head to null. -/
theorem fdRun_is {evs : List FdEvent} {g : FdGroup}
    (hrun : evs.foldlM fdStep FdGroup.init = some g) : ∃ cs, g.Is cs := by
  refine Run.invariant (P := fun g => ∃ cs, g.Is cs) (Q := fun _ => True) ?_ ⟨[], init_is⟩
    (fun _ _ => trivial) hrun
  rintro g g' ev ⟨cs, hcs⟩ - hstep
  rcases fdStep_spec hcs ⟨[], values cs, []⟩ rfl ev with
    ⟨-, hnone⟩ | ⟨cache', g'', -, hsome, cs', hcs', -, -⟩
  · rw [hnone] at hstep
    cases hstep
  · rw [hsome] at hstep
    cases hstep
    exact ⟨cs', hcs'⟩

/-- The descriptor group loses, duplicates and loops no entry: whatever was
called before, it is a list without repetition; the next call leaves the
entries alone, appends one, or moves the refreshed one to the end, as
`FdEffect` says for each kind of call; and it comes back unless the
identifier it was to compare is too short. -/
theorem fd_group_entries_kept {evs : List FdEvent} {g : FdGroup}
    (hrun : evs.foldlM fdStep FdGroup.init = some g) :
    ∃ cs, g.Is cs ∧ (addrs cs).Nodup ∧
      ∀ ev : FdEvent, (ev.whole = true → ∃ g', fdStep g ev = some g') ∧
        ∀ g', fdStep g ev = some g' → ∃ cs', g'.Is cs' ∧ FdEffect cs ev cs' := by
  obtain ⟨cs, hcs⟩ := fdRun_is hrun
  refine ⟨cs, hcs, IsChain.nodup hcs, fun ev => ?_⟩
  rcases fdStep_spec hcs ⟨[], values cs, []⟩ rfl ev with
    ⟨hlist, hnone⟩ | ⟨cache', g'', -, hsome, cs', hcs', -, heffect⟩
  · refine ⟨fun hwhole => ?_, fun g' hg' => ?_⟩
    · obtain ⟨cache', hcache'⟩ := fdListStep_isSome ⟨[], values cs, []⟩ hwhole
      rw [hlist] at hcache'
      cases hcache'
    · rw [hnone] at hg'
      cases hg'
  · refine ⟨fun _ => ⟨g'', hsome⟩, fun g' hg' => ?_⟩
    rw [hsome] at hg'
    cases hg'
    exact ⟨cs', hcs', heffect⟩

/-- A label of zeros, as an attribute. -/
def zeroLabel : Option (List UInt8) := some (List.replicate 32 0x30)

/-- Descriptors 3 and 4 are declared at 100 and 3 is validated at 200, when
its entry is out of date. -/
def refreshingRun : List FdEvent :=
  [.declare (entryFor 0) 100 (zeros _) 3 zeroLabel opOpen,
   .declare (entryFor 0) 100 (zeros _) 4 zeroLabel opOpen,
   .validate ⟨200, 200, entryFor 0, fun _ => true⟩ 3 zeroLabel none none none]

/-- The refreshed entry has moved behind the other. -/
theorem refreshingRun_entries :
    ∃ g, refreshingRun.foldlM fdStep FdGroup.init = some g ∧ g.head = 2 ∧
      ∃ cs, g.Is cs ∧ (addrs cs).Nodup ∧
        ∀ ev : FdEvent, (ev.whole = true → ∃ g', fdStep g ev = some g') ∧
          ∀ g', fdStep g ev = some g' → ∃ cs', g'.Is cs' ∧ FdEffect cs ev cs' := by
  have hhead : (refreshingRun.foldlM fdStep FdGroup.init).map FdGroup.head = some 2 := by decide
  obtain ⟨g, hrun, hg⟩ := Option.map_eq_some_iff.mp hhead
  exact ⟨g, hrun, hg, fd_group_entries_kept hrun⟩

end Citadel.Libcitadel
