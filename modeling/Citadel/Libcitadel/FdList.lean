/-
Citadel.Libcitadel.FdList — the descriptor group of the cache as the linked
list it is (`libcitadel/src/cache.c`).

`Citadel.Libcitadel.Cache` has the groups as lists of entries. Here the
entries are cells with a `next` pointer, and the functions do their pointer
reads and writes in the order of the source. An entry and the identifier it
points to are allocated and released together and are one cell. `none` is
an access to a cell that is not live, or a loop that does not come to an
end.

  §1  removing a descriptor, and when that works
      (`remove_fd_forgets_iff`);
  §2  a new entry goes to the end (`newEntryAt_spec`);
  §3  an entry that is not last is moved there
      (`moveCacheItemToEnd_spec`);
  §4  the search of `citadel_validate_fd` (`scanFdAt_spec`);
  §5  `cache_on_fork`.

Each function is shown to do to the list what its counterpart over lists
does.
-/
import Citadel.Lib.Chain
import Citadel.Libcitadel.Cache

namespace Citadel.Libcitadel

open Bytes ChainHeap

/-- `cache_groups[LIBCITADEL_CACHE_FD]` and the cells it leads to. -/
structure FdGroup where
  heap : Heap CacheItem
  head : Nat

def FdGroup.init : FdGroup := ⟨Heap.empty, 0⟩

/-- The entries of the group, with their addresses. -/
def FdGroup.Is (g : FdGroup) (cs : List (Nat × CacheItem)) : Prop := IsChain g.heap g.head cs

theorem init_is : FdGroup.init.Is [] := rfl

/-! ## §1 `citadel_remove_fd` -/

/-- The loop: `prev` goes on to `head` even if `head` was just released. -/
def removeLoop (fd : BitVec 32) : Nat → Heap CacheItem → Nat → Nat → Option (Heap CacheItem)
  | 0, _, _, _ => none
  | fuel + 1, heap, prev, head =>
    if head = 0 then some heap
    else do
      let item ← heap.cell head
      let heap ←
        if item.val.fd = fd then do
          let heap ← heap.setNext prev item.next
          heap.free head
        else some heap
      let item ← heap.cell head
      removeLoop fd fuel heap head item.next

/-- `citadel_remove_fd`; the first entry is looked at last. -/
def citadelRemoveFd (g : FdGroup) (fd : BitVec 32) : Option FdGroup :=
  if g.head = 0 ∨ fd = -1 then some g
  else do
    let first ← g.heap.cell g.head
    let heap ← removeLoop fd g.heap.fresh g.heap g.head first.next
    let head ← heap.cell g.head
    if head.val.fd = fd then do
      let heap ← heap.free g.head
      some ⟨heap, head.next⟩
    else some ⟨heap, g.head⟩

/-- Without the descriptor the loop changes nothing. -/
theorem removeLoop_absent {fd : BitVec 32} {heap : Heap CacheItem} {prev head fuel : Nat}
    {cs : List (Nat × CacheItem)} (hcs : IsChain heap head cs) (hfuel : cs.length < fuel)
    (habsent : ∀ c ∈ cs, c.2.fd ≠ fd) : removeLoop fd fuel heap prev head = some heap := by
  induction cs generalizing prev head fuel with
  | nil =>
    obtain ⟨n, rfl⟩ : ∃ n, fuel = n + 1 := ⟨fuel - 1, by simp at hfuel; omega⟩
    rw [removeLoop, if_pos (show head = 0 from hcs)]
  | cons c cs ih =>
    obtain ⟨n, rfl⟩ : ∃ n, fuel = n + 1 := ⟨fuel - 1, by omega⟩
    obtain ⟨hc, hrest⟩ := List.forall_mem_cons.mp habsent
    obtain ⟨rfl, next, hcell, hchain⟩ := hcs
    rw [removeLoop, if_neg (ne_null_of_live hcell)]
    simp only [hcell, Option.bind_eq_bind, Option.bind_some, if_neg hc]
    exact ih hchain (Nat.lt_of_succ_lt_succ hfuel) hrest

/-- The first entry with the descriptor is released and then read. -/
theorem removeLoop_present {fd : BitVec 32} {heap : Heap CacheItem} {prev head fuel : Nat}
    {cs : List (Nat × CacheItem)} (hcs : IsChain heap head cs) {d : Nat × CacheItem}
    (hd : d ∈ cs) (hfd : d.2.fd = fd) : removeLoop fd fuel heap prev head = none := by
  induction cs generalizing prev head fuel with
  | nil => cases hd
  | cons c cs ih =>
    cases fuel with
    | zero => rfl
    | succ n =>
      obtain ⟨rfl, next, hcell, hchain⟩ := hcs
      rw [removeLoop, if_neg (ne_null_of_live hcell)]
      by_cases hc : c.2.fd = fd
      · simp only [hcell, Option.bind_eq_bind, Option.bind_some, if_pos hc]
        cases hset : heap.setNext prev next with
        | none => rfl
        | some heap' =>
          cases hfree : heap'.free c.1 with
          | none => simp only [Option.bind_some, hfree, Option.bind_none]
          | some heap'' =>
            rw [Heap.free] at hfree
            split at hfree
            · cases hfree
              simp only [Option.bind_some, Heap.free, *, if_true, drop_same, Option.bind_none]
            · cases hfree
      · simp only [hcell, Option.bind_eq_bind, Option.bind_some, if_neg hc]
        refine ih hchain ?_
        rcases List.mem_cons.mp hd with rfl | hmem
        · exact absurd hfd hc
        · exact hmem

/-- What `citadel_remove_fd` is for: the other entries are left in their
order, and those for the descriptor are released once and out of reach.
That none of them is touched after its release is in the call coming
back. -/
structure Forgets (g : FdGroup) (cs : List (Nat × CacheItem)) (fd : BitVec 32)
    (g' : FdGroup) : Prop where
  kept : g'.Is (cs.filter fun c => c.2.fd ≠ fd)
  releasedOnce : ∀ c ∈ cs, g'.heap.released.count c.1 =
    g.heap.released.count c.1 + if c.2.fd = fd then 1 else 0
  gone : ∀ c ∈ cs, c.2.fd = fd → g'.heap.cell c.1 = none

/-- A list without the descriptor is left as it is. -/
theorem Forgets.of_absent {g : FdGroup} {cs : List (Nat × CacheItem)} (hcs : g.Is cs)
    {fd : BitVec 32} (habsent : ∀ c ∈ cs, c.2.fd ≠ fd) : Forgets g cs fd g where
  kept := by
    have hall : cs.filter (fun c => c.2.fd ≠ fd) = cs :=
      List.filter_eq_self.mpr fun c hc => by simpa using habsent c hc
    rw [hall]
    exact hcs
  releasedOnce c hc := by simp [habsent c hc]
  gone c hc hfd := absurd hfd (habsent c hc)

/-- Releasing the first entry and starting at the second, with no other entry
for the descriptor. -/
theorem Forgets.of_head {heap : Heap CacheItem} {c : Nat × CacheItem}
    {cs : List (Nat × CacheItem)} {next : Nat} {fd : BitVec 32}
    (hchain : IsChain heap next cs) (hnew : c.1 ∉ addrs cs) (hc : c.2.fd = fd)
    (habsent : ∀ d ∈ cs, d.2.fd ≠ fd) :
    Forgets ⟨heap, c.1⟩ (c :: cs) fd ⟨heap.drop c.1, next⟩ where
  kept := by
    have hrest : cs.filter (fun d => d.2.fd ≠ fd) = cs :=
      List.filter_eq_self.mpr fun d hd => by simpa using habsent d hd
    rw [List.filter_cons_of_neg (by simpa using hc), hrest]
    exact IsSeg.drop_frame hchain hnew
  releasedOnce d hd := by
    rcases List.mem_cons.mp hd with rfl | hmem
    · simp [Heap.drop, hc]
    · have hne : c.1 ≠ d.1 := fun heq => hnew (heq ▸ mem_addrs hmem)
      simp [Heap.drop, hne, habsent d hmem]
  gone d hd hdfd := by
    rcases List.mem_cons.mp hd with rfl | hmem
    · exact drop_same
    · exact absurd hdfd (habsent d hmem)

/-- Only the first entry can be removed. -/
theorem citadelRemoveFd_tail_absent {g : FdGroup} {cs : List (Nat × CacheItem)} (hcs : g.Is cs)
    {fd : BitVec 32} (hfd : fd ≠ -1) (habsent : ∀ c ∈ cs.tail, c.2.fd ≠ fd) :
    ∃ g', citadelRemoveFd g fd = some g' ∧ Forgets g cs fd g' := by
  have hlen := IsChain.length_lt hcs
  cases cs with
  | nil =>
    refine ⟨g, ?_, Forgets.of_absent hcs habsent⟩
    rw [citadelRemoveFd, if_pos (.inl hcs)]
  | cons c cs =>
    have hnew := (List.nodup_cons.mp (IsChain.nodup hcs)).1
    obtain ⟨heap, head⟩ := g
    obtain ⟨hhead, next, hcell, hchain⟩ := hcs
    simp only at hhead hcell hlen
    subst hhead
    have hloop : removeLoop fd heap.fresh heap c.1 next = some heap :=
      removeLoop_absent hchain (by simp at hlen; omega) habsent
    rw [citadelRemoveFd, if_neg (not_or.mpr ⟨ne_null_of_live hcell, hfd⟩)]
    simp only [hcell, hloop, Option.bind_eq_bind, Option.bind_some]
    by_cases hc : c.2.fd = fd
    · rw [if_pos hc, free_of_live hcell]
      exact ⟨_, rfl, Forgets.of_head hchain hnew hc habsent⟩
    · rw [if_neg hc]
      refine ⟨_, rfl, Forgets.of_absent ?_ (List.forall_mem_cons.mpr ⟨hc, habsent⟩)⟩
      exact ⟨rfl, next, hcell, hchain⟩

/-- Closing a descriptor forgets it exactly if no entry behind the first is
for it. -/
theorem remove_fd_forgets_iff {g : FdGroup} {cs : List (Nat × CacheItem)} (hcs : g.Is cs)
    {fd : BitVec 32} (hfd : fd ≠ -1) :
    (∃ g', citadelRemoveFd g fd = some g' ∧ Forgets g cs fd g') ↔
      ∀ c ∈ cs.tail, c.2.fd ≠ fd := by
  constructor
  · rintro ⟨g', hremove, -⟩ d hd hdfd
    cases cs with
    | nil => cases hd
    | cons c cs =>
      obtain ⟨heap, head⟩ := g
      obtain ⟨hhead, next, hcell, hchain⟩ := hcs
      simp only at hhead hcell
      subst hhead
      rw [citadelRemoveFd, if_neg (not_or.mpr ⟨ne_null_of_live hcell, hfd⟩)] at hremove
      simp only [hcell, removeLoop_present hchain hd hdfd, Option.bind_eq_bind, Option.bind_some,
        Option.bind_none, reduceCtorEq] at hremove
  · exact citadelRemoveFd_tail_absent hcs hfd

/-- An entry for a descriptor. -/
def entryFor (fd : BitVec 32) : CacheItem := ⟨List.replicate 16 7, 100, opOpen, fd, 0, .fileOpenFd⟩

/-- Two entries, for the descriptors 3 and 4. -/
def threeAndFour : FdGroup :=
  ⟨(Heap.empty.alloc ⟨entryFor 3, 2⟩).alloc ⟨entryFor 4, 0⟩, 1⟩

theorem threeAndFour_is : threeAndFour.Is [(1, entryFor 3), (2, entryFor 4)] :=
  ⟨rfl, 2, rfl, rfl, 0, rfl, rfl⟩

/-- The first of them can be closed. -/
theorem three_forgotten :
    ∃ g', citadelRemoveFd threeAndFour 3 = some g' ∧
      Forgets threeAndFour [(1, entryFor 3), (2, entryFor 4)] 3 g' :=
  (remove_fd_forgets_iff threeAndFour_is (by decide)).mpr (by decide)

/-- Closing the second is a use after free. -/
theorem four_used_after_free :
    threeAndFour.Is [(1, entryFor 3), (2, entryFor 4)] ∧ citadelRemoveFd threeAndFour 4 = none :=
  ⟨threeAndFour_is, by decide⟩

/-! ## §2 A new entry -/

/-- `create_cache_entry`, in `memory` as `malloc` returns it: the group and
the address of the entry. -/
def createCacheEntryAt (g : FdGroup) (memory : CacheItem) (now : Seconds) :
    Option (FdGroup × Nat) :=
  let item := g.heap.fresh
  let heap := g.heap.alloc ⟨createCacheEntry memory now, 0⟩
  if g.head = 0 then some (⟨heap, item⟩, item)
  else do
    let current ← heap.lastOf heap.fresh g.head
    let heap ← heap.setNext current item
    some (⟨heap, g.head⟩, item)

/-- An entry that its caller fills in. -/
def newEntryAt (g : FdGroup) (memory : CacheItem) (now : Seconds)
    (fill : CacheItem → CacheItem) : Option FdGroup := do
  let (g, entry) ← createCacheEntryAt g memory now
  let heap ← g.heap.setVal entry fill
  some { g with heap := heap }

theorem createCacheEntryAt_spec {g : FdGroup} {cs : List (Nat × CacheItem)} (hcs : g.Is cs)
    (memory : CacheItem) (now : Seconds) :
    ∃ g', createCacheEntryAt g memory now = some (g', g.heap.fresh) ∧
      g'.Is (cs ++ [(g.heap.fresh, createCacheEntry memory now)]) := by
  obtain ⟨heap, head⟩ := g
  simp only [FdGroup.Is] at hcs ⊢
  have hlen := IsChain.length_lt hcs
  have hold : IsChain (heap.alloc ⟨createCacheEntry memory now, 0⟩) head cs :=
    IsSeg.alloc_frame _ hcs
  have hnew : (heap.alloc ⟨createCacheEntry memory now, 0⟩).cell heap.fresh =
      some ⟨createCacheEntry memory now, 0⟩ := alloc_same
  rcases List.eq_nil_or_concat cs with rfl | ⟨xs, c, rfl⟩
  · have hnull : head = 0 := hcs
    rw [createCacheEntryAt, if_pos hnull]
    exact ⟨_, rfl, rfl, 0, hnew, rfl⟩
  · rw [List.concat_eq_append] at *
    have hne : head ≠ 0 := fun hnull =>
      List.append_ne_nil_of_right_ne_nil xs (List.cons_ne_nil c [])
        ((IsChain.eq_null_iff hcs).mp hnull)
    have hfresh : heap.fresh ∉ addrs (xs ++ [c]) := fun hmem =>
      Nat.lt_irrefl _ (IsSeg.lt_fresh hcs hmem)
    have hlast := lastOf_chain hold
      (show xs.length < (heap.alloc ⟨createCacheEntry memory now, 0⟩).fresh by
        simp only [List.length_append, List.length_cons, List.length_nil] at hlen
        show xs.length < heap.fresh + 1
        omega)
    obtain ⟨n, hlive⟩ := IsSeg.live hold (c := c) (by simp)
    rw [createCacheEntryAt, if_neg hne]
    simp only [hlast, setNext_of_live hlive, Option.bind_eq_bind, Option.bind_some]
    refine ⟨_, rfl, isSeg_append.mpr
      ⟨heap.fresh, IsSeg.putNext_last hold (IsChain.nodup hcs), rfl, 0, ?_, rfl⟩⟩
    have hne : heap.fresh ≠ c.1 := by
      intro heq
      rw [heq] at hfresh
      exact hfresh (mem_addrs (by simp))
    rw [putNext_other hne, hnew]

/-- The entry stands behind all others, at an address of its own. -/
theorem newEntryAt_spec {g : FdGroup} {cs : List (Nat × CacheItem)} (hcs : g.Is cs)
    (memory : CacheItem) (now : Seconds) (fill : CacheItem → CacheItem) :
    g.heap.fresh ∉ addrs cs ∧ ∃ g', newEntryAt g memory now fill = some g' ∧
      g'.Is (cs ++ [(g.heap.fresh, fill (createCacheEntry memory now))]) := by
  refine ⟨fun hmem => Nat.lt_irrefl _ (IsSeg.lt_fresh hcs hmem), ?_⟩
  obtain ⟨g₁, hcreate, hg₁⟩ := createCacheEntryAt_spec hcs memory now
  obtain ⟨n, hlive⟩ := IsSeg.live hg₁ (c := (g.heap.fresh, createCacheEntry memory now)) (by simp)
  simp only [newEntryAt, hcreate, setVal_of_live hlive, Option.bind_eq_bind, Option.bind_some]
  exact ⟨_, rfl, IsChain.putVal (c := (g.heap.fresh, createCacheEntry memory now)) hg₁⟩

/-! ## §3 `move_cache_item_to_end` -/

def popGroupHead (g : FdGroup) : Option FdGroup :=
  if g.head = 0 then some g
  else do
    let old ← g.heap.cell g.head
    some { g with head := old.next }

/-- `move_cache_item_to_end`; the walk to the end starts at the item
itself. -/
def moveCacheItemToEnd (g : FdGroup) (item prev : Nat) : Option FdGroup := do
  let c ← g.heap.cell item
  if prev = 0 ∧ c.next = 0 then some g
  else do
    let g ←
      if prev = 0 then popGroupHead g
      else do
        let heap ← g.heap.setNext prev c.next
        some { g with heap := heap }
    let current ← g.heap.lastOf g.heap.fresh item
    let heap ← g.heap.setNext current item
    let heap ← heap.setNext item 0
    some { g with heap := heap }

/-- `prev` after the entries `cs`: the address of the last. -/
def lastAddr (cs : List (Nat × CacheItem)) : Nat := (addrs cs).getLastD 0

theorem lastAddr_append (xs : List (Nat × CacheItem)) (c : Nat × CacheItem) :
    lastAddr (xs ++ [c]) = c.1 := by
  simp [lastAddr]

/-- The walk and the two writes at the end: the item, taken out, is linked
behind the last cell. -/
theorem relink_last {heap : Heap CacheItem} {p n : Nat} {xs ys : List (Nat × CacheItem)}
    {c : Nat × CacheItem} (hxs : IsSeg heap p xs n) (hitem : heap.cell c.1 = some ⟨c.2, n⟩)
    (hys : IsChain heap n ys) (hne : ys ≠ []) (hnd : (addrs (xs ++ c :: ys)).Nodup) :
    ∃ current, heap.lastOf heap.fresh c.1 = some current ∧
      ∃ heap₁, heap.setNext current c.1 = some heap₁ ∧
        ∃ heap₂, heap₁.setNext c.1 0 = some heap₂ ∧
          IsChain heap₂ p (xs ++ (ys ++ [c])) := by
  obtain ⟨zs, l, rfl⟩ : ∃ zs l, ys = zs ++ [l] := by
    rcases List.eq_nil_or_concat ys with rfl | ⟨zs, l, rfl⟩
    · exact absurd rfl hne
    · exact ⟨zs, l, List.concat_eq_append⟩
  have hwhole : IsChain heap c.1 ((c :: zs) ++ [l]) := ⟨rfl, n, hitem, hys⟩
  have hlen := IsChain.length_lt hwhole
  have hlast : heap.lastOf heap.fresh c.1 = some l.1 :=
    lastOf_chain hwhole (by
      simp only [List.length_append, List.length_cons, List.length_nil] at hlen ⊢
      omega)
  rw [addrs_append, addrs_cons, List.nodup_append', List.nodup_cons] at hnd
  obtain ⟨-, ⟨hc, hndys⟩, hdisj⟩ := hnd
  have hxc : c.1 ∉ addrs xs := fun hmem => hdisj hmem List.mem_cons_self
  have hxl : l.1 ∉ addrs xs := fun hmem =>
    hdisj hmem (List.mem_cons_of_mem _ (mem_addrs (by simp)))
  have hcl : c.1 ≠ l.1 := by
    intro heq
    rw [heq] at hc
    exact hc (mem_addrs (by simp))
  obtain ⟨m, hlive⟩ := IsSeg.live hys (c := l) (by simp)
  have hitem₁ : (heap.putNext l.1 c.1).cell c.1 = some ⟨c.2, n⟩ := by
    rw [putNext_other hcl, hitem]
  refine ⟨l.1, hlast, _, setNext_of_live hlive, _, setNext_of_live hitem₁, ?_⟩
  refine isSeg_append.mpr ⟨n, ?_, isSeg_append.mpr ⟨c.1, ?_, rfl, 0, putNext_same hitem₁, rfl⟩⟩
  · exact IsSeg.putNext_frame (IsSeg.putNext_frame hxs hxl) hxc
  · exact IsSeg.putNext_frame (IsSeg.putNext_last hys hndys) hc

/-- An entry that is not last moves to the end, and the others keep their
order. -/
theorem moveCacheItemToEnd_spec {g : FdGroup} {xs ys : List (Nat × CacheItem)}
    {c : Nat × CacheItem} (hcs : g.Is (xs ++ c :: ys)) (hne : ys ≠ []) :
    ∃ g', moveCacheItemToEnd g c.1 (lastAddr xs) = some g' ∧ g'.Is (xs ++ (ys ++ [c])) := by
  obtain ⟨heap, head⟩ := g
  have hnd := IsChain.nodup hcs
  obtain ⟨r, hxs, hr, n, hitem, hys⟩ := isSeg_append.mp hcs
  subst hr
  simp only at hitem hxs hys
  have hn : n ≠ 0 := fun hnull => hne ((IsChain.eq_null_iff hys).mp hnull)
  rcases List.eq_nil_or_concat xs with rfl | ⟨zs, d, rfl⟩
  · obtain rfl : head = c.1 := hxs
    have hnone : IsSeg heap n [] n := rfl
    obtain ⟨current, hlast, heap₁, hset₁, heap₂, hset₂, hchain⟩ :=
      relink_last hnone hitem hys hne hnd
    have hpop : popGroupHead ⟨heap, c.1⟩ = some ⟨heap, n⟩ := by
      rw [popGroupHead, if_neg (ne_null_of_live hitem)]
      simp only [hitem, Option.bind_eq_bind, Option.bind_some]
    simp only [moveCacheItemToEnd, lastAddr, addrs_nil, List.getLastD_nil, hitem, hn, and_false,
      if_false, if_true, hpop, hlast, hset₁, hset₂, Option.bind_eq_bind, Option.bind_some]
    exact ⟨_, rfl, hchain⟩
  · rw [List.concat_eq_append] at *
    have hd : d.1 ∉ addrs (c :: ys) := fun hmem => by
      rw [addrs_append, List.nodup_append'] at hnd
      exact hnd.2.2 (mem_addrs (by simp)) hmem
    rw [addrs_cons, List.mem_cons, not_or] at hd
    obtain ⟨m, hlive⟩ := IsSeg.live hxs (c := d) (by simp)
    have hndxs : (addrs (zs ++ [d])).Nodup := by
      rw [addrs_append (zs ++ [d])] at hnd
      exact (List.nodup_append'.mp hnd).1
    obtain ⟨current, hlast, heap₁, hset₁, heap₂, hset₂, hchain⟩ :=
      relink_last (IsSeg.putNext_last (r := n) hxs hndxs)
        (by rw [putNext_other (Ne.symm hd.1), hitem])
        (IsSeg.putNext_frame hys hd.2) hne hnd
    simp only [moveCacheItemToEnd, lastAddr_append, ne_null_of_live hlive, hitem, false_and,
      if_false, setNext_of_live hlive, hlast, hset₁, hset₂, Option.bind_eq_bind,
      Option.bind_some]
    exact ⟨_, rfl, hchain⟩

/-! ## §4 The search -/

/-- Where `citadel_validate_fd` finds an entry: the pointers `prev` and
`head`, and the identifier compared. -/
structure FoundAt where
  prev : Nat
  head : Nat
  identifier : Identifier

/-- The loop of `citadel_validate_fd` over the pointers. -/
def scanFdAt (heap : Heap CacheItem) (fd : BitVec 32) (op : Option Operation)
    (identifier : Option (List UInt8)) : Nat → Nat → Nat → Option (Option FoundAt)
  | 0, _, _ => none
  | fuel + 1, prev, head =>
    if head = 0 then some none
    else do
      let c ← heap.cell head
      if c.val.fd = fd ∧ (op = none ∨ op = some c.val.op) then do
        let raw ← identifier
        let id ← Bytes.read raw 0 identifierLength
        if id.1 = c.val.data.take identifierLength then some (some ⟨prev, head, id⟩)
        else scanFdAt heap fd op identifier fuel head c.next
      else scanFdAt heap fd op identifier fuel head c.next

/-- The entries without their addresses. -/
def values (cs : List (Nat × CacheItem)) : List CacheItem := cs.map Prod.snd

theorem values_append (cs ds : List (Nat × CacheItem)) :
    values (cs ++ ds) = values cs ++ values ds := List.map_append

/-- The two searches fault together, find nothing together, or find the
same entry. -/
theorem scanFdAt_spec {heap : Heap CacheItem} (fd : BitVec 32) (op : Option Operation)
    (identifier : Option (List UInt8)) (xs : List (Nat × CacheItem))
    {ys : List (Nat × CacheItem)} {p fuel : Nat} (hys : IsChain heap p ys)
    (hfuel : ys.length < fuel) :
    (scanFd fd op identifier (values xs) (values ys) = none ∧
      scanFdAt heap fd op identifier fuel (lastAddr xs) p = none) ∨
    (scanFd fd op identifier (values xs) (values ys) = some none ∧
      scanFdAt heap fd op identifier fuel (lastAddr xs) p = some none) ∨
    ∃ us c vs id, xs ++ ys = us ++ c :: vs ∧ c.2.fd = fd ∧ (op = none ∨ op = some c.2.op) ∧
      scanFd fd op identifier (values xs) (values ys) =
        some (some ⟨values us, c.2, values vs, id⟩) ∧
      scanFdAt heap fd op identifier fuel (lastAddr xs) p =
        some (some ⟨lastAddr us, c.1, id⟩) := by
  induction ys generalizing xs p fuel with
  | nil =>
    obtain ⟨n, rfl⟩ : ∃ n, fuel = n + 1 := ⟨fuel - 1, by simp at hfuel; omega⟩
    refine .inr (.inl ⟨rfl, ?_⟩)
    rw [scanFdAt, if_pos (show p = 0 from hys)]
  | cons c ys ih =>
    obtain ⟨n, rfl⟩ : ∃ n, fuel = n + 1 := ⟨fuel - 1, by omega⟩
    obtain ⟨rfl, next, hcell, hrest⟩ := hys
    -- the search goes on behind an entry that does not match
    have hgo := ih (xs ++ [c]) hrest (Nat.lt_of_succ_lt_succ hfuel)
    rw [values_append, lastAddr_append, List.append_assoc, List.singleton_append] at hgo
    have hnull := ne_null_of_live hcell
    by_cases hfor : c.2.fd = fd ∧ (op = none ∨ op = some c.2.op)
    · cases identifier with
      | none =>
        refine .inl ⟨?_, ?_⟩
        · simp only [values, List.map_cons, scanFd, if_pos hfor, Option.bind_eq_bind,
            Option.bind_none]
        · simp only [scanFdAt, if_neg hnull, hcell, if_pos hfor, Option.bind_eq_bind,
            Option.bind_some, Option.bind_none]
      | some raw =>
        cases hread : Bytes.read raw 0 identifierLength with
        | none =>
          refine .inl ⟨?_, ?_⟩
          · simp only [values, List.map_cons, scanFd, if_pos hfor, Option.bind_eq_bind,
              Option.bind_some, hread, Option.bind_none]
          · simp only [scanFdAt, if_neg hnull, hcell, if_pos hfor, Option.bind_eq_bind,
              Option.bind_some, hread, Option.bind_none]
        | some id =>
          simp only [values, List.map_cons, scanFd, scanFdAt, if_neg hnull, hcell, if_pos hfor,
            Option.bind_eq_bind, Option.bind_some, hread]
          by_cases hid : id.1 = c.2.data.take identifierLength
          · rw [if_pos hid, if_pos hid]
            exact .inr (.inr ⟨xs, c, ys, id, rfl, hfor.1, hfor.2, rfl, rfl⟩)
          · rw [if_neg hid, if_neg hid]
            exact hgo
    · simp only [values, List.map_cons, scanFd, scanFdAt, if_neg hnull, hcell, if_neg hfor,
        Option.bind_eq_bind, Option.bind_some]
      exact hgo

/-! ## §5 `cache_on_fork` -/

/-- The loop of `cache_on_fork` behind an entry that is prepared. -/
def forkLoop : Nat → Heap CacheItem → Nat → Option (Heap CacheItem)
  | 0, _, _ => none
  | fuel + 1, heap, head => do
    let c ← heap.cell head
    if c.next = 0 then some heap
    else do
      let heap ← heap.setVal c.next prepareEntryForChild
      forkLoop fuel heap c.next

/-- `cache_on_fork`, for the descriptor group. -/
def cacheOnForkAt (g : FdGroup) : Option FdGroup :=
  if g.head = 0 then some g
  else do
    let heap ← g.heap.setVal g.head prepareEntryForChild
    let heap ← forkLoop heap.fresh heap g.head
    some { g with heap := heap }

/-- An entry of a child, where it stood. -/
def forChild (c : Nat × CacheItem) : Nat × CacheItem := (c.1, prepareEntryForChild c.2)

theorem forkLoop_spec {fuel : Nat} {heap : Heap CacheItem} {p : Nat}
    {xs ys : List (Nat × CacheItem)} {c : Nat × CacheItem}
    (hcs : IsChain heap p (xs ++ c :: ys)) (hfuel : ys.length < fuel) :
    ∃ heap', forkLoop fuel heap c.1 = some heap' ∧
      IsChain heap' p (xs ++ c :: ys.map forChild) := by
  induction ys generalizing fuel heap xs c with
  | nil =>
    obtain ⟨n, rfl⟩ : ∃ n, fuel = n + 1 := ⟨fuel - 1, by simp at hfuel; omega⟩
    obtain ⟨r, -, hr, next, hcell, hend⟩ := isSeg_append.mp hcs
    subst hr
    obtain rfl : next = 0 := hend
    refine ⟨heap, ?_, hcs⟩
    simp only [forkLoop, hcell, if_true, Option.bind_eq_bind, Option.bind_some]
  | cons d ys ih =>
    obtain ⟨n, rfl⟩ : ∃ n, fuel = n + 1 := ⟨fuel - 1, by omega⟩
    obtain ⟨r, -, hr, next, hcell, hd, m, hcell', -⟩ := isSeg_append.mp hcs
    subst hr hd
    have hstep : IsChain (heap.putVal d.1 prepareEntryForChild) p
        ((xs ++ [c]) ++ forChild d :: ys) := by
      refine IsChain.putVal (c := d) ?_
      simpa using hcs
    obtain ⟨heap', hloop, hchain⟩ := ih hstep (Nat.lt_of_succ_lt_succ hfuel)
    refine ⟨heap', ?_, by simpa using hchain⟩
    simp only [forkLoop, hcell, ne_null_of_live hcell', if_false, setVal_of_live hcell',
      Option.bind_eq_bind, Option.bind_some]
    exact hloop

theorem cacheOnForkAt_spec {g : FdGroup} {cs : List (Nat × CacheItem)} (hcs : g.Is cs) :
    ∃ g', cacheOnForkAt g = some g' ∧ g'.Is (cs.map forChild) := by
  obtain ⟨heap, head⟩ := g
  have hlen := IsChain.length_lt hcs
  cases cs with
  | nil =>
    rw [cacheOnForkAt, if_pos (show head = 0 from hcs)]
    exact ⟨_, rfl, hcs⟩
  | cons c cs =>
    have hfirst : IsChain (heap.putVal c.1 prepareEntryForChild) head ([] ++ forChild c :: cs) :=
      IsChain.putVal (show IsChain heap head ([] ++ c :: cs) from hcs)
    have hfuel : cs.length < (heap.putVal c.1 prepareEntryForChild).fresh := by
      simp only [List.length_cons] at hlen
      rw [putVal_fresh]
      omega
    obtain ⟨heap', hloop, hchain⟩ := forkLoop_spec hfirst hfuel
    obtain ⟨hhead, next, hcell, hrest⟩ := hcs
    simp only at hhead hcell
    subst hhead
    rw [cacheOnForkAt, if_neg (ne_null_of_live hcell)]
    simp only [setVal_of_live hcell, Option.bind_eq_bind, Option.bind_some]
    rw [show forkLoop _ _ c.1 = some heap' from hloop]
    exact ⟨_, rfl, hchain⟩

end Citadel.Libcitadel
