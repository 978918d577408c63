/-
Citadel.Libcitadel.Cache — what a process has been allowed lately
(`libcitadel/src/cache.c`), and the calls that look there before they ask
the enclave (`file.c`, `shm.c`, `socket.c`).

The cache has three groups: file names, file descriptors and shared
memory. They age differently. File names are cleaned up at each lookup: the
entries at the front that are too old are dropped, up to the first that is
not. A descriptor's entry is checked when it is found, one second earlier,
unless it carries `CITADEL_OP_NOP`. Shared memory entries are not checked.

`data` is what stands in memory from the pointer on, as far as a comparison
reads. A clock value is `tv_sec`; differences are taken in `uint64_t`.
`ask` is the enclave's answer to a request, by way of `ipc_transaction`;
every call says whether it asked. `none` is a memory fault. Allocations are
taken to succeed.
-/
import Citadel.Lsm.Inode

namespace Citadel.Libcitadel

open Bytes

/-! ## Entries -/

/-- `tv_sec` of `CLOCK_MONOTONIC_RAW`. -/
abbrev Seconds := BitVec 64

/-- The functions an entry can name for its renewal. -/
inductive Update where
  | fileOpenFd | socket
  deriving DecidableEq

/-- `libcitadel_cache_item_t`; `fd` is also the key of shared memory. -/
structure CacheItem where
  data : List UInt8
  time : Seconds
  op : Operation
  fd : BitVec 32
  shmid : BitVec 32
  update : Update
  deriving DecidableEq

/-- `cache_groups`. -/
structure Cache where
  fileNames : List CacheItem
  fd : List CacheItem
  shm : List CacheItem
  deriving DecidableEq

/-- `init_cache`. -/
def Cache.init : Cache := ⟨[], [], []⟩

/-- The loop condition of `cleanup_cache_group`. -/
def CacheItem.expired (now : Seconds) (item : CacheItem) : Bool :=
  !decide ((now - item.time).toNat < ticketExpiry.toNat)

def cleanupCacheGroup (now : Seconds) (group : List CacheItem) : List CacheItem :=
  group.dropWhile (CacheItem.expired now)

def entryInDate (now : Seconds) (item : CacheItem) : Bool :=
  decide ((now - item.time + 1).toNat < ticketExpiry.toNat)

/-- `create_cache_entry`, in `memory` as `malloc` returns it. -/
def createCacheEntry (memory : CacheItem) (now : Seconds) : CacheItem :=
  { memory with op := 0, time := now }

def prepareEntryForChild (item : CacheItem) : CacheItem :=
  { item with time := 0, op := if item.op = opNop then opParent else item.op }

def cacheOnFork (cache : Cache) : Cache :=
  ⟨cache.fileNames.map prepareEntryForChild, cache.fd.map prepareEntryForChild,
    cache.shm.map prepareEntryForChild⟩

/-! ## Calls -/

/-- What the library asks the enclave for: an operation on an identifier,
or on a path. -/
inductive Request where
  | plain (operation : Operation) (subject : Identifier)
  | extended (operation : Operation) (path : List UInt8) (translate : Bool)
  deriving DecidableEq

/-- What happens during a call: the clock at the lookup and at the end, the
memory of a new entry, and the enclave. -/
structure CallEnv where
  now : Seconds
  later : Seconds
  memory : CacheItem
  ask : Request → Bool

/-- The result of a call, and what it asked the enclave. -/
structure Outcome where
  cache : Cache
  answer : Bool
  asked : Option Request

/-! ## Descriptors -/

/-- libcitadel's copy of the hexadecimal decoder. -/
def hexIdentifierToBytes (hexstring : List UInt8) : Option (List UInt8) :=
  hexstringToBytes hexstring

/-- `get_fd_identifier`, with what it leaves in `*tainted`. -/
def getFdIdentifier (xattr : Option (List UInt8)) : Option (Option (List UInt8) × Bool) :=
  match getxattr xattr encodedIdentifierLength with
  | none => some (none, false)
  | some value =>
    if value.length = encodedIdentifierLength then do
      let hexstring ← cstring value
      some (hexIdentifierToBytes hexstring, true)
    else if value.length = encodedIdentifierLength - 1 then do
      -- the last byte of the buffer was set to zero beforehand
      let hexstring ← cstring (value ++ [0])
      some (hexIdentifierToBytes hexstring, true)
    else some (none, true)

/-- The functions that ask about a descriptor differ in the renewal they
leave in the entry. -/
def askAboutFd (self : Update) (env : CallEnv) (cache : Cache) (fd : BitVec 32)
    (identifier : Identifier) (operation : Operation) (addCache : Bool) : Outcome :=
  let request := Request.plain operation identifier
  if env.ask request then
    let entry := { createCacheEntry env.memory env.later with
      op := operation
      fd := fd
      data := identifier.1
      update := self }
    ⟨if addCache then { cache with fd := cache.fd ++ [entry] } else cache, true, some request⟩
  else ⟨cache, false, some request⟩

/-- `_citadel_file_open_fd`. -/
def citadelFileOpenFd := askAboutFd .fileOpenFd

/-- `_citadel_socket`. -/
def citadelSocket := askAboutFd .socket

def Update.call : Update → CallEnv → Cache → BitVec 32 → Identifier → Operation → Bool → Outcome
  | .fileOpenFd => citadelFileOpenFd
  | .socket => citadelSocket

/-- The entry `citadel_validate_fd` finds, with the entries before and
behind it. -/
structure FoundFd where
  prev : List CacheItem
  head : CacheItem
  next : List CacheItem
  identifier : Identifier

/-- The loop of `citadel_validate_fd`. The identifier is not looked at
before an entry for the descriptor is met. -/
def scanFd (fd : BitVec 32) (op : Option Operation) (identifier : Option (List UInt8))
    (prev : List CacheItem) : List CacheItem → Option (Option FoundFd)
  | [] => some none
  | head :: next =>
    if head.fd = fd ∧ (op = none ∨ op = some head.op) then do
      let raw ← identifier
      let id ← Bytes.read raw 0 identifierLength
      if id.1 = head.data.take identifierLength then some (some ⟨prev, head, next, id⟩)
      else scanFd fd op identifier (prev ++ [head]) next
    else scanFd fd op identifier (prev ++ [head]) next

/-- The entry is in date, or need not be, or is renewed: it moves to the
end with a new time. -/
def useFd (env : CallEnv) (cache : Cache) (fd : BitVec 32) (found : FoundFd) : Outcome :=
  if entryInDate env.now found.head || found.head.op.has opNop then ⟨cache, true, none⟩
  else
    let renewed := found.head.update.call env cache fd found.identifier found.head.op false
    if !renewed.answer then renewed
    else
      let entry := { found.head with time := env.later }
      ⟨{ cache with fd := found.prev ++ (found.next ++ [entry]) }, true, renewed.asked⟩

/-- No entry: the enclave is asked if the caller said how. -/
def executeFd (env : CallEnv) (cache : Cache) (fd : BitVec 32)
    (identifier : Option (List UInt8)) (op : Option Operation) (execute : Option Update) :
    Option Outcome :=
  match op, execute with
  | some op, some execute => do
    let raw ← identifier
    let id ← Bytes.read raw 0 identifierLength
    some (execute.call env cache fd id op true)
  | _, _ => some ⟨cache, false, none⟩

/-- The identifier `citadel_validate_fd` works with, given or fetched, and
whether the descriptor is tainted. -/
def fdIdentifier (xattr identifier : Option (List UInt8)) :
    Option (Option (List UInt8) × Bool) :=
  if identifier.isSome then some (identifier, true) else getFdIdentifier xattr

/-- `citadel_validate_fd` on a descriptor with the given attribute, with
what it leaves in `*tainted`. -/
def citadelValidateFd (env : CallEnv) (cache : Cache) (fd : BitVec 32)
    (xattr identifier : Option (List UInt8)) (op : Option Operation)
    (execute : Option Update) : Option (Outcome × Bool) := do
  let (identifier, taint) ← fdIdentifier xattr identifier
  if !taint then some (⟨cache, true, none⟩, false)
  else
    let out ← match ← scanFd fd op identifier [] cache.fd with
      | some found => some (useFd env cache fd found)
      | none => executeFd env cache fd identifier op execute
    some (out, true)

/-! ## Files -/

/-- `cache_hit`, with the group as the lookup leaves it. An entry shorter
than the path is a miss. In the source the `memcmp` over the length of the
path then reaches behind the entry's data; unlike in `scanFd`, that read is
left out and is no fault: what the shim stores ends with the terminator, at
which it differs from every longer path. -/
def cacheHit (now : Seconds) (cache : Cache) (path : List UInt8) (op : Operation) :
    Cache × Bool :=
  let group := cleanupCacheGroup now cache.fileNames
  ({ cache with fileNames := group },
    group.any fun head => head.data.take path.length == path && head.op.has op)

/-- A call about a path: a lookup for the operation `wanted`, and a request
that leaves an entry with the operation it asked for. -/
def askAboutPath (wanted operation : Operation) (translate : Bool) (env : CallEnv)
    (cache : Cache) (path : List UInt8) : Outcome :=
  if path.length > maxMetadataSize ∨ path.length < 2 then ⟨cache, false, none⟩
  else
    let (cache, hit) := cacheHit env.now cache path wanted
    if hit then ⟨cache, true, none⟩
    else
      let request := Request.extended operation path translate
      if env.ask request then
        let entry := { createCacheEntry env.memory env.later with op := operation, data := path }
        ⟨{ cache with fileNames := cache.fileNames ++ [entry] }, true, some request⟩
      else ⟨cache, false, some request⟩

theorem askAboutPath_refused {wanted operation : Operation} {translate : Bool} {env : CallEnv}
    {cache : Cache} {path : List UInt8}
    (hsize : path.length > maxMetadataSize ∨ path.length < 2) :
    askAboutPath wanted operation translate env cache path = ⟨cache, false, none⟩ := if_pos hsize

theorem askAboutPath_hit {wanted operation : Operation} {translate : Bool} {env : CallEnv}
    {cache : Cache} {path : List UInt8}
    (hsize : ¬ (path.length > maxMetadataSize ∨ path.length < 2))
    (hhit : (cacheHit env.now cache path wanted).2 = true) :
    askAboutPath wanted operation translate env cache path =
      ⟨(cacheHit env.now cache path wanted).1, true, none⟩ := by
  rw [askAboutPath, if_neg hsize]
  dsimp only
  rw [hhit, if_pos rfl]

/-- Without a hit the enclave is asked. -/
theorem askAboutPath_miss {wanted operation : Operation} {translate : Bool} {env : CallEnv}
    {cache : Cache} {path : List UInt8}
    (hsize : ¬ (path.length > maxMetadataSize ∨ path.length < 2))
    (hmiss : (cacheHit env.now cache path wanted).2 = false) :
    (askAboutPath wanted operation translate env cache path).asked =
      some (.extended operation path translate) := by
  rw [askAboutPath, if_neg hsize]
  dsimp only
  rw [hmiss, if_neg Bool.false_ne_true]
  split <;> rfl

/-- `_citadel_file_claim`. -/
def fileClaim := askAboutPath opClaim (opClaim ||| opOpen) false

/-- `citadel_file_open_ext`; `*from_cache` is set exactly if the answer is
true and nothing was asked. -/
def citadelFileOpenExt := askAboutPath opOpen opOpen true

/-- `sizeof(_CITADEL_XATTR_IDENTIFIER)`: of the attribute's NAME. -/
def sizeofXattrIdentifier : Nat := (ascii "security.citadel.identifier").length + 1

/-- `citadel_file_claim` on a file with the given attribute. -/
def citadelFileClaim (env : CallEnv) (cache : Cache) (xattr : Option (List UInt8))
    (path : List UInt8) : Outcome :=
  if xattr.map List.length = some sizeofXattrIdentifier then ⟨cache, true, none⟩
  else fileClaim env cache path

/-- `citadel_file_claim_force`: the attribute is only reported. -/
def citadelFileClaimForce := fileClaim

/-- `citadel_declare_fd` on a descriptor with the given attribute. -/
def citadelDeclareFd (memory : CacheItem) (now : Seconds) (parentIdentifier : Identifier)
    (cache : Cache) (fd : BitVec 32) (xattr : Option (List UInt8)) (op : Operation) :
    Option Cache := do
  let (identifier, tainted) ← getFdIdentifier xattr
  match identifier with
  | none => some cache
  | some identifier =>
    if tainted then do
      let data ← if op.has opParent then some parentIdentifier
        else Bytes.read identifier 0 identifierLength
      let entry := { createCacheEntry memory now with
        op := op
        fd := fd
        data := data.1
        update := .fileOpenFd }
      some { cache with fd := cache.fd ++ [entry] }
    else some cache

/-! ## Shared memory -/

/-- `shm_cache_hit`. -/
def shmCacheHit (cache : Cache) (key : BitVec 32) (isShmid : Bool) : Bool :=
  cache.shm.any fun head => (!isShmid && key == head.fd) || (isShmid && key == head.shmid)

/-- The key in front of a zeroed subject. -/
def shmSubject (key : BitVec 32) : Identifier :=
  ⟨(le32 key).1 ++ List.replicate 12 0, by simp [(le32 key).2, identifierLength]⟩

def citadelShmAccess (env : CallEnv) (cache : Cache) (key : BitVec 32) (isShmid : Bool) :
    Outcome :=
  if shmCacheHit cache key isShmid then ⟨cache, true, none⟩
  else if isShmid then ⟨cache, false, none⟩
  else
    let request := Request.plain opShm (shmSubject key)
    if env.ask request then
      -- `shmid` is left as `malloc` returned it
      let entry := { createCacheEntry env.memory env.later with op := 0, fd := key, data := [] }
      ⟨{ cache with shm := cache.shm ++ [entry] }, true, some request⟩
    else ⟨cache, false, some request⟩

end Citadel.Libcitadel
