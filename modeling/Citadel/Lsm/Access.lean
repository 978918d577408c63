/-
Citadel.Lsm.Access — the access decision, `can_access` of
`lsm/src/common.c`, and the hooks that ask for it: `trm_inode_permission`,
`trm_file_open` and `trm_file_permission`.

A `System` is the ticket cache with the credentials, the inodes with their
blobs and attributes, and the pid Citadel registered with. A hook call
does the housekeeping of the caller, then that of the inode, and then asks
`can_access` if the inode or the caller is in the realm. The ticket scan
walks the ring of the caller's credential with no end marker; its fuel is
the number of addresses handed out.
-/
import Citadel.Lsm.Inode
import Citadel.Lsm.Task

namespace Citadel

open RingHeap

/-! ## The system -/

structure System where
  kernel : Kernel
  inode : Nat → Inode
  data : Nat → InodeData
  disk : Nat → Xattrs
  citadelPid : Pid

/-- `citadel_cred(current_cred())`. -/
def System.task (s : System) (cur : Task) : TaskData := s.kernel.cred cur.cred

def System.setData (s : System) (i : Nat) (d : InodeData) : System :=
  { s with data := Function.update s.data i d }

/-! ## The ticket scan -/

/-- The ticket names the object and allows part of the operation. -/
def Ticket.permits (t : Ticket) (identifier : Identifier) (op : Operation) : Bool :=
  decide (t.identifier = identifier) && t.operation.has op

/-- The loop of `can_access`: go on while the tickets get younger. -/
def scanTickets (h : Heap Ticket) (identifier : Identifier) (op : Operation) :
    Nat → Nat → Int → Option Bool
  | 0, _, _ => none
  | fuel + 1, current, tracker => do
    let c ← h.cell current
    if c.val.timestamp > tracker then
      if c.val.permits identifier op then some true
      else scanTickets h identifier op fuel c.next c.val.timestamp
    else some false

/-! ## `can_access` -/

/-- `-EACCES`. -/
def eacces : Int := -13

def ptyCheck (inode : Inode) (task : TaskData) : Bool :=
  decide (inode.magic = .devpts) && task.grantedPty

/-- The key of public Citadel resources. -/
def publicIdentifier : Identifier := Bytes.fill _ 0xFF

/-- The second half of `can_access`: let's see if the process has the
correct ticket. -/
def ticketAccess (s : System) (cur : Task) (i : Nat) (op : Operation) : Option (System × Int) :=
  let data := s.data i
  let task := s.task cur
  match task.ticketHead with
  | none => some (s, eacces)
  | some head =>
    if data.anonymous then some (s, eacces)
    else do
      let h := s.kernel.heap
      let found ← scanTickets h data.identifier op (h.fresh + 1) head 0
      if found then
        -- the taint of the inode goes to the task; the other direction is commented out
        if data.inRealm then
          some ({ s with kernel := s.kernel.setCred cur.cred { task with inRealm := true } }, 0)
        else some (s, 0)
      else some (s, eacces)

def canAccess (s : System) (cur : Task) (i : Nat) (op : Operation) : Option (System × Int) :=
  let inode := s.inode i
  let data := s.data i
  let task := s.task cur
  if inode.ino < 2 then some (s, 0)
  else if !data.inRealm && !task.inRealm then some (s, 0)
  else if inode.isDir then some (s, 0)
  else if inode.magic = .sockfs then some (s, 0)
  else if inode.magic = .sysfs then some (s, 0)
  else if inode.magic = .securityfs then some (s, 0)
  else if inode.magic = .tmpfs then some (s, 0)
  else if inode.magic = .pipefs ∧ data.identifier = task.identifier then some (s, 0)
  else if data.identifier = publicIdentifier then some (s, 0)
  else if cur.pid = s.citadelPid then some (s, 0)
  else if ptyCheck inode task then some (s, 0)
  else ticketAccess s cur i op

/-! ## Hooks -/

/-- The end of the three hooks: a file that is not under protection does
not concern them. -/
def decideAccess (s : System) (cur : Task) (i : Nat) : Option (System × Int) :=
  if (s.data i).inRealm || (s.task cur).inRealm then canAccess s cur i opOpen else some (s, 0)

/-- The housekeeping of `trm_inode_permission`. -/
def prepareInode (s : System) (cur : Task) (i : Nat) (now : Int) : Option System := do
  let k ← taskHousekeeping s.kernel cur now
  let s := { s with kernel := k }
  some (s.setData i (inodeHousekeeping (s.task cur) (s.inode i) (s.data i)))

def trmInodePermission (s : System) (cur : Task) (i : Nat) (now : Int) :
    Option (System × Int) := do
  let s ← prepareInode s cur i now
  decideAccess s cur i

/-- The housekeeping of the file hooks. -/
def prepareDentry (s : System) (cur : Task) (i : Nat) (now : Int) (vfs : VfsResult) :
    Option System := do
  let k ← taskHousekeeping s.kernel cur now
  let s := { s with kernel := k }
  let (data, disk) ← dentryHousekeeping (s.task cur) (s.inode i) vfs (s.disk i) (s.data i)
  some { s.setData i data with disk := Function.update s.disk i disk }

/-- `trm_file_open` and `trm_file_permission` have the same body. -/
def fileHook (s : System) (cur : Task) (i : Nat) (now : Int) (vfs : VfsResult) :
    Option (System × Int) := do
  let s ← prepareDentry s cur i now vfs
  decideAccess s cur i

def trmFileOpen : System → Task → Nat → Int → VfsResult → Option (System × Int) := fileHook

def trmFilePermission : System → Task → Nat → Int → VfsResult → Option (System × Int) :=
  fileHook

/-- The three hooks. -/
inductive Hook where
  | inodePermission
  | fileOpen
  | filePermission
  deriving DecidableEq

/-- The housekeeping of a hook, up to its decision. -/
def Hook.prepare (hook : Hook) (s : System) (cur : Task) (i : Nat) (now : Int)
    (vfs : VfsResult) : Option System :=
  match hook with
  | .inodePermission => prepareInode s cur i now
  | .fileOpen => prepareDentry s cur i now vfs
  | .filePermission => prepareDentry s cur i now vfs

def Hook.call (hook : Hook) (s : System) (cur : Task) (i : Nat) (now : Int) (vfs : VfsResult) :
    Option (System × Int) :=
  match hook with
  | .inodePermission => trmInodePermission s cur i now
  | .fileOpen => trmFileOpen s cur i now vfs
  | .filePermission => trmFilePermission s cur i now vfs

end Citadel
