/-
Citadel.Lsm.Ipc — the shared memory hooks (`lsm/src/lsm_functions/ipc.c`).

A segment has security data of its own. A task is let in while it and the
segment are both outside the realm, or with a ticket for the key of the
segment; with a ticket the taint flows BOTH ways, unlike for inodes. Every
admission is recorded under the key (`Citadel.Lsm.ShmTracking`).

Unlike the hooks for files these do no housekeeping: the tickets are those
the credential has at the moment, and a credential without any is a NULL
pointer that the scan follows. `none` is a memory fault. The security
blobs are allocated by the framework, so the test for a missing one only
concerns a NULL `perm` (`shmctl` for IPC_INFO), whose key is then read.
-/
import Citadel.Lsm.Access
import Citadel.Lsm.ShmTracking

namespace Citadel

open SearchTree Bytes

/-- `citadel_ipc_data_t`. -/
structure IpcData where
  inRealm : Bool
  identifier : Identifier
  deriving DecidableEq

/-- What the hooks read of a `struct kern_ipc_perm`. -/
structure Segment where
  key : Key
  data : IpcData
  deriving DecidableEq

/-- The key, padded to an identifier. -/
def keyIdentifier (key : Key) : Identifier :=
  ⟨(le32 key).1 ++ List.replicate 12 0, by simp [(le32 key).2, identifierLength]⟩

def trmIpcAllocSecurity (isp : Segment) : Segment :=
  { isp with data := ⟨false, keyIdentifier isp.key⟩ }

def trmIpcFreeSecurity (isp : Segment) : Segment := { isp with data := ⟨true, zeros _⟩ }

/-- The module with its segments and their inhabitants. -/
structure IpcSystem where
  system : System
  pool : ShmPool
  segment : Nat → Segment

/-- `-EIO`. -/
def eio : Int := -5

/-- What an admission meets outside the module: the rebalancing of the
tree and the allocations. -/
structure ShmEnv where
  rb : Rebalance Nat
  allocs : ShmAllocs

def allowShmAccess (s : IpcSystem) (env : ShmEnv) (cur : Task) (key : Key) : IpcSystem × Int :=
  if cur.pid.toInt < 2 then (s, 0)
  else
    let (pool, added) := addToShmid s.pool env.rb env.allocs key cur.pid
    ({ s with pool := pool }, if added then 0 else eio)

/-- A ticketed access: the taint goes to the task, then to the segment. -/
def IpcSystem.level (s : IpcSystem) (cur : Task) (j : Nat) : IpcSystem :=
  let seg := s.segment j
  let task := s.system.task cur
  let task := if seg.data.inRealm then { task with inRealm := true } else task
  let data := if task.inRealm then { seg.data with inRealm := true } else seg.data
  { s with
    system := { s.system with kernel := s.system.kernel.setCred cur.cred task }
    segment := Function.update s.segment j { seg with data := data } }

def shmCanAccess (s : IpcSystem) (env : ShmEnv) (cur : Task) (perm : Option Nat) :
    Option (IpcSystem × Int) :=
  match perm with
  | none => none
  | some j =>
    let seg := s.segment j
    let task := s.system.task cur
    -- if untainted, allow untainted processes to join
    if !task.inRealm && !seg.data.inRealm then some (allowShmAccess s env cur seg.key)
    else if cur.pid = s.system.citadelPid then some (allowShmAccess s env cur seg.key)
    else do
      let head ← task.ticketHead
      let h := s.system.kernel.heap
      let found ← scanTickets h seg.data.identifier opShm (h.fresh + 1) head 0
      if found then some (allowShmAccess (s.level cur j) env cur seg.key)
      else some (s, eacces)

/-! ## The three hooks -/

inductive ShmHook where
  | associate
  | shmctl
  | shmat
  deriving DecidableEq

def trmShmAssociate : IpcSystem → ShmEnv → Task → Option Nat → Option (IpcSystem × Int) :=
  shmCanAccess

def trmShmShmctl : IpcSystem → ShmEnv → Task → Option Nat → Option (IpcSystem × Int) :=
  shmCanAccess

def trmShmShmat : IpcSystem → ShmEnv → Task → Option Nat → Option (IpcSystem × Int) :=
  shmCanAccess

def ShmHook.call (hook : ShmHook) (s : IpcSystem) (env : ShmEnv) (cur : Task)
    (perm : Option Nat) : Option (IpcSystem × Int) :=
  match hook with
  | .associate => trmShmAssociate s env cur perm
  | .shmctl => trmShmShmctl s env cur perm
  | .shmat => trmShmShmat s env cur perm

end Citadel
