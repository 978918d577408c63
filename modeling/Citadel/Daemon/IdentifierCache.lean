/-
Citadel.Daemon.IdentifierCache — how the daemon finds the identifier of a
path (`citadeld/identifier_cache.cpp`).

A message that asks for it has the path in its metadata. The daemon looks
the path up, first in a cache of its own and then at the file, and writes
the identifier over the front of the metadata. A claim removes its path
from the cache.

The cache is keyed by the string. An entry's time is not the time its value
was read: every constructor and every assignment of `IdentifierCacheEntry`
takes the clock, and the table may copy any of its entries when another one
comes in or goes. The clock and the stamps of the copies are arguments.
`none` is a memory fault, as everywhere.
-/
import Citadel.Lsm.Inode

namespace Citadel.Daemon

open Bytes

/-! ## Attributes -/

/-- The daemon's copy of the hexadecimal decoder. -/
def hexIdentifierToBytes (hexstring : List UInt8) : Option (List UInt8) :=
  hexstringToBytes hexstring

/-- `get_identifier_for_path` on a file with the given attribute; the inner
`none` is NULL. The buffer has room for a terminator and starts zeroed, but
only a value without one is taken. -/
def getIdentifierForPath (xattr : Option (List UInt8)) : Option (Option (List UInt8)) :=
  match getxattr xattr (2 * identifierLength + 1) with
  | none => some none
  | some value =>
    if value.length = 2 * identifierLength then do
      let hexstring ← cstring (value ++ [0])
      some (hexIdentifierToBytes hexstring)
    else some none

/-! ## The cache -/

/-- `_CITADEL_CACHE_EXPIRY`, in seconds. -/
def cacheExpiry : Nat := 15

/-- A value and the time of its last copy, in microseconds. -/
structure IdentifierCacheEntry where
  value : Identifier
  time : Int
  deriving DecidableEq

/-- The age is unsigned: an entry from the future has expired. -/
def IdentifierCacheEntry.expired (entry : IdentifierCacheEntry) (now : Int) : Bool :=
  decide (cacheExpiry * 1000000 < (BitVec.ofInt 64 (now - entry.time)).toNat)

/-- `identifierCache`. -/
abbrev IdentifierCache := List UInt8 → Option IdentifierCacheEntry

def IdentifierCache.empty : IdentifierCache := fun _ => none

/-- What one message takes from the clock: the two readings of a lookup,
the stamp of a new entry, and those of the entries that are copied for it
or when one is erased. -/
structure CacheEnv where
  found : Int
  again : Int
  stored : Int
  moved : List UInt8 → Option Int
  erased : List UInt8 → Option Int

/-- The clock stands still and nothing is copied. -/
def CacheEnv.calm : CacheEnv := ⟨0, 0, 0, fun _ => none, fun _ => none⟩

/-- A copy is stamped anew. -/
def IdentifierCacheEntry.copied (entry : IdentifierCacheEntry) (stamp : Option Int) :
    IdentifierCacheEntry :=
  { entry with time := stamp.getD entry.time }

def IdentifierCache.erase (env : CacheEnv) (cache : IdentifierCache) (s : List UInt8) :
    IdentifierCache := fun t =>
  if t = s then none else (cache t).map fun entry => entry.copied (env.erased t)

/-- `insert` does not replace. -/
def IdentifierCache.insert (env : CacheEnv) (cache : IdentifierCache) (s : List UInt8)
    (identifier : Identifier) : IdentifierCache :=
  match cache s with
  | some _ => cache
  | none => fun t =>
    if t = s then some ⟨identifier, env.stored⟩
    else (cache t).map fun entry => entry.copied (env.moved t)

/-! ## Messages -/

/-- The identifier written over the front of the metadata. -/
def writeIdentifier (metadata : Block maxMetadataSize) (identifier : Identifier) :
    Block maxMetadataSize :=
  ⟨identifier.1 ++ metadata.1.drop identifierLength, by
    rw [List.length_append, List.length_drop, identifier.2, metadata.2]
    rfl⟩

/-- The extension after a translation, which may have found nothing. -/
def translated (x : OpExtension) : Option Identifier → OpExtension
  | none => { x with translateSuccess := false }
  | some identifier =>
    { x with translateSuccess := true, metadata := writeIdentifier x.metadata identifier }

/-- `metadata_path_to_identifier`, on the attributes by path. -/
def metadataPathToIdentifier (env : CacheEnv) (xattr : List UInt8 → Option (List UInt8))
    (cache : IdentifierCache) (x : OpExtension) : Option (IdentifierCache × OpExtension) := do
  let s ← cstring x.metadata.1
  match (cache s).filter (fun entry => !entry.expired env.found) with
  | some entry => some (cache, translated x (some entry.value))
  | none =>
    -- not in the cache or expired; the clock is read a second time
    let cache := if (cache s).any (fun entry => entry.expired env.again) then cache.erase env s
      else cache
    match getIdentifierForPath (xattr s) with
    | none => none
    | some none => some (cache, translated x none)
    | some (some bytes) => do
      let identifier ← read bytes 0 identifierLength
      some (cache.insert env s identifier, translated x (some identifier))

/-- What is not there is not erased. -/
def IdentifierCache.clear (env : CacheEnv) (cache : IdentifierCache) (s : List UInt8) :
    IdentifierCache :=
  if (cache s).isSome then cache.erase env s else cache

def clearEntryFromCache (env : CacheEnv) (cache : IdentifierCache)
    (metadata : Block maxMetadataSize) : Option IdentifierCache := do
  let s ← cstring metadata.1
  some (cache.clear env s)

/-- The extension written back into its message. `translate` stays as it
is. -/
def writeExtension (message : List UInt8) (x : OpExtension) : List UInt8 :=
  message.take (opRequestSize + 1) ++ ((if x.translateSuccess then 1 else 0) :: x.metadata.1)

/-- `cache_passthrough`: the cache, the message and the result. -/
def cachePassthrough (env : CacheEnv) (xattr : List UInt8 → Option (List UInt8))
    (cache : IdentifierCache) (message : List UInt8) :
    Option (IdentifierCache × List UInt8 × Bool) :=
  if message.length = opRequestSize then some (cache, message, true)
  else if message.length = opExtendedRequestSize then do
    let request ← OpRequest.read message
    let x ← OpExtension.read message
    -- invoke cache lookup if required, clear entry on claim
    if request.operation.has opClaim then
      (clearEntryFromCache env cache x.metadata).map fun cache => (cache, message, true)
    else if x.translate then
      (metadataPathToIdentifier env xattr cache x).map fun out =>
        (out.1, writeExtension message out.2, true)
    else some (cache, message, true)
  else some (cache, message, false)

end Citadel.Daemon
