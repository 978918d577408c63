/-
Citadel.Lsm.Monitor — the whole module as one machine: every hook of the
table in `lsm/src/citadel.c` and the writes to its files, on one state.

The hooks are those of the other modules of this directory, put side by
side; the ones that appear here for the first time only do housekeeping.
Left out are the hooks that change nothing and allow everything
(`trm_inode_link`, `trm_task_kill`, the four that free something, and the
two that list or serve attributes).

An event comes with what the kernel decides: which task runs, which inode
or segment it is about, the clock, the random bytes, and the results of
attribute writes and allocations. The result of a step is what the hook
returns.
-/
import Citadel.Lsm.Registration
import Citadel.Lsm.SegmentTaint
import Citadel.Lsm.Socket
import Citadel.Lsm.UserXattrs

namespace Citadel

open Bytes

/-! ## State -/

/-- Everything the module keeps, and the attributes of the inodes that are
none of its business. -/
structure Monitor where
  lsm : Lsm
  other : Nat → List UInt8 → Option (List UInt8)
  pool : ShmPool
  segment : Nat → Segment

namespace Monitor

def system (m : Monitor) : System := m.lsm.system

def setSystem (m : Monitor) (s : System) : Monitor := { m with lsm := { m.lsm with system := s } }

def ipc (m : Monitor) : IpcSystem := ⟨m.system, m.pool, m.segment⟩

def setIpc (m : Monitor) (s : IpcSystem) : Monitor :=
  { m.setSystem s.system with pool := s.pool, segment := s.segment }

def setSegment (m : Monitor) (j : Nat) (seg : Segment) : Monitor :=
  { m with segment := Function.update m.segment j seg }

end Monitor

/-! ## Hooks that only do housekeeping -/

def trmBprmCheckSecurity (s : System) (cur : Task) (now : Int) : Option (System × Int) :=
  (s.housekeep cur now).map fun s => (s, 0)

def trmTaskPrctl (s : System) (cur : Task) (now : Int) : Option (System × Int) :=
  (s.housekeep cur now).map fun s => (s, 0)

def trmFileIoctl (s : Lsm) (cur : Task) (i : Nat) (now : Int) (vfs : VfsResult) :
    Option (Lsm × Int) := do
  let system ← s.system.housekeep cur now
  let s ← dentryHousekeepingBy { s with system := system } cur i vfs
  some (s, 0)

def trmInodeGetxattr (s : Lsm) (cur : Task) (i : Nat) (vfs : VfsResult) : Option (Lsm × Int) :=
  (dentryHousekeepingBy s cur i vfs).map fun s => (s, 0)

def trmInodeListxattr (s : Lsm) (cur : Task) (i : Nat) (vfs : VfsResult) : Option (Lsm × Int) :=
  (dentryHousekeepingBy s cur i vfs).map fun s => (s, 0)

/-! ## Events -/

/-- The hooks of which all there is to them is `task_housekeeping`. -/
inductive PlainHook where
  | bprmCheckSecurity
  | taskPrctl
  | socketShutdown (i : Nat)

inductive AttributeHook where
  | getxattr
  | listxattr

inductive MonitorEvent where
  -- files
  | file (hook : Hook) (cur : Task) (i : Nat) (now : Int) (vfs : VfsResult)
  | ioctl (cur : Task) (i : Nat) (now : Int) (vfs : VfsResult)
  /-- An inode comes into memory: a new one, or one that was evicted. -/
  | allocInode (cur : Task) (i : Nat) (created : Option Inode)
  | initSecurity (cur : Task) (i dir : Nat)
  | instantiate (cur : Task) (i : Option Nat) (vfs : VfsResult)
  | attributeRead (hook : AttributeHook) (cur : Task) (i : Nat) (vfs : VfsResult)
  | xattr (call : XattrCall)
  -- tasks
  | plain (hook : PlainHook) (cur : Task) (now : Int)
  | initTask (cred : Nat) (random : Identifier) (previous : Option Nat)
  -- sockets
  | socketCreate (cur : Task) (i : Nat) (now : Int)
  | socketPair (cur : Task) (a b : Nat) (now : Int)
  | socket (hook : SocketHook) (cur : Task) (i : Nat) (now : Int)
  -- shared memory
  | shm (hook : ShmHook) (env : ShmEnv) (cur : Task) (perm : Option Nat)
  | shmAlloc (j : Nat) (key : Key)
  | shmFree (j : Nat)
  -- the module's own files
  | challengeRead (rsaAvailable alloc : Bool) (random : Block challengeLength)
  | challengeWrite (copy : CopyEnv) (buf : List UInt8)
  | updateWrite (copy : CopyEnv) (env : UpdateEnv) (buf : List UInt8)

def PlainHook.call (hook : PlainHook) (s : System) (cur : Task) (now : Int) :
    Option (System × Int) :=
  match hook with
  | .bprmCheckSecurity => trmBprmCheckSecurity s cur now
  | .taskPrctl => trmTaskPrctl s cur now
  | .socketShutdown i => trmSocketShutdown s cur i now

def AttributeHook.call (hook : AttributeHook) (s : Lsm) (cur : Task) (i : Nat) (vfs : VfsResult) :
    Option (Lsm × Int) :=
  match hook with
  | .getxattr => trmInodeGetxattr s cur i vfs
  | .listxattr => trmInodeListxattr s cur i vfs

/-- `trm_inode_alloc_security`, on an inode that the file system has just
made or read. A new one has no attributes. -/
def Monitor.allocInode (m : Monitor) (cur : Task) (i : Nat) (created : Option Inode) : Monitor :=
  match created with
  | none =>
    m.setSystem (m.system.setData i (trmInodeAllocSecurity (m.system.task cur) (m.system.inode i)))
  | some inode =>
    { m.setSystem
        { m.system.setData i (trmInodeAllocSecurity (m.system.task cur) inode) with
          inode := Function.update m.system.inode i inode
          disk := Function.update m.system.disk i ⟨false, none⟩ } with
      other := Function.update m.other i fun _ => none }

/-- One event; `none` is a memory fault. -/
def monitorStep (rsaDecrypt : List UInt8 → Option (List UInt8)) (A : Gcm) (m : Monitor) :
    MonitorEvent → Option (Monitor × Int)
  | .file hook cur i now vfs =>
    (hook.call m.system cur i now vfs).map fun out => (m.setSystem out.1, out.2)
  | .ioctl cur i now vfs =>
    (trmFileIoctl m.lsm cur i now vfs).map fun out => ({ m with lsm := out.1 }, out.2)
  | .allocInode cur i created => some (m.allocInode cur i created, 0)
  | .initSecurity cur i dir =>
    let out := trmInodeInitSecurity m.lsm cur i dir
    some ({ m with lsm := out.1 }, out.2)
  | .instantiate cur i vfs =>
    (trmDInstantiate m.lsm cur vfs i).map fun lsm => ({ m with lsm := lsm }, 0)
  | .attributeRead hook cur i vfs =>
    (hook.call m.lsm cur i vfs).map fun out => ({ m with lsm := out.1 }, out.2)
  | .xattr call =>
    (xattrCall A ⟨m.lsm, m.other⟩ call).map fun out =>
      ({ m with lsm := out.1.lsm, other := out.1.other }, out.2.1)
  | .plain hook cur now =>
    (hook.call m.system cur now).map fun out => (m.setSystem out.1, out.2)
  | .initTask cred random previous =>
    (lsmStep m.system (.initTask cred random previous)).map fun s => (m.setSystem s, 0)
  | .socketCreate cur i now =>
    (trmSocketPostCreate m.system cur i now).map fun out => (m.setSystem out.1, out.2)
  | .socketPair cur a b now =>
    (trmSocketSocketpair m.system cur a b now).map fun out => (m.setSystem out.1, out.2)
  | .socket hook cur i now =>
    (hook.call m.system cur i now).map fun out => (m.setSystem out.1, out.2)
  | .shm hook env cur perm =>
    (hook.call m.ipc env cur perm).map fun out => (m.setIpc out.1, out.2)
  | .shmAlloc j key =>
    some (m.setSegment j (trmIpcAllocSecurity { m.segment j with key := key }), 0)
  | .shmFree j => some (m.setSegment j (trmIpcFreeSecurity (m.segment j)), 0)
  | .challengeRead rsaAvailable alloc random =>
    some ({ m with lsm := (challengeRead rsaAvailable m.lsm alloc random).1 }, 0)
  | .challengeWrite copy buf =>
    (challengeReceive rsaDecrypt copy m.lsm buf).map fun out => ({ m with lsm := out.1 }, out.2.1)
  | .updateWrite copy env buf =>
    (updateReceive A copy env m.lsm buf).map fun out => ({ m with lsm := out.1 }, out.2.1)

/-- The state after an event. -/
def monitorNext (rsaDecrypt : List UInt8 → Option (List UInt8)) (A : Gcm) (m : Monitor)
    (e : MonitorEvent) : Option Monitor :=
  (monitorStep rsaDecrypt A m e).map Prod.fst

def monitorRun (rsaDecrypt : List UInt8 → Option (List UInt8)) (A : Gcm) (m : Monitor)
    (evs : List MonitorEvent) : Option Monitor := evs.foldlM (monitorNext rsaDecrypt A) m

end Citadel
