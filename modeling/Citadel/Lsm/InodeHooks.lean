/-
Citadel.Lsm.InodeHooks — the inode hooks about security data and extended
attributes (`lsm/src/lsm_functions/inode.c`): the allocation of the blob,
the label a created inode inherits, the attributes of sockets and of shared
memory that the module itself serves, and the checks on attribute calls.

Attribute names are given without their terminator. `cap` is what the
capability module answers (`cap_inode_setxattr`, `cap_inode_removexattr`),
an argument like everything that comes from outside.
-/
import Citadel.Lsm.PayloadIo
import Citadel.Lsm.ShmTracking

namespace Citadel

open Bytes

/-! ## Names -/

/-- `_CITADEL_XATTR_ROOT`. -/
def xattrRoot : List UInt8 := ascii "security.citadel"

def xattrInRealm : List UInt8 := ascii "security.citadel.in_realm"

def xattrIdentifier : List UInt8 := ascii "security.citadel.identifier"

def xattrInstall : List UInt8 := ascii "security.citadel.install"

/-- The names as `getsecurity` sees them, with the name space cut off. -/
def xattrNsTagInRealm : List UInt8 := ascii "citadel.in_realm"

def xattrNsTagIdentifier : List UInt8 := ascii "citadel.identifier"

def xattrNsTagShm : List UInt8 := ascii "citadel.shm"

/-! ## The blob -/

/-- A blob as the framework allocates it. -/
def InodeData.blank : InodeData := ⟨false, false, false, false, false, zeros _⟩

/-- `trm_inode_alloc_security`, called by `task`. -/
def trmInodeAllocSecurity (task : TaskData) (inode : Inode) : InodeData :=
  if inode.ino < 2 then .blank else inodeHousekeeping task inode .alloc

/-- `-EOPNOTSUPP`. -/
def eopnotsupp : Int := -95

/-- Hierarchical subsumption: what is created below a directory in the
realm, or by a tainted task, is in the realm. Only the task gives a name. -/
def inheritLabel (task : TaskData) (parent data : InodeData) : InodeData :=
  if (parent.inRealm || task.inRealm) && !data.inRealm then
    let data := { data with inRealm := true, needsXattrUpdate := true }
    if task.inRealm then { data with anonymous := false, identifier := task.identifier }
    else data
  else data

/-- `trm_inode_init_security` for the inode `i` in the directory `dir`. -/
def trmInodeInitSecurity (s : Lsm) (cur : Task) (i dir : Nat) : Lsm × Int :=
  let task := s.system.task cur
  let data := inheritLabel task (s.system.data dir) (s.system.data i)
  (s.setLabel i (inodeHousekeeping task (s.system.inode i) data) (s.system.disk i), eopnotsupp)

/-! ## Attributes served by the module -/

/-- Returns the C function's value and what it leaves in `*buffer`. -/
def trmInodeGetsecurity (pool : ShmPool) (inode : Inode) (data : InodeData) (name : List UInt8)
    (alloc : Bool) (allocs : InhabitantsAllocs) : Option (Int × Option (List UInt8)) :=
  if inode.magic = .securityfs then
    -- the size of the name counts its terminator, and so the dot
    if strncmpEq (xattrNsTagShm.length + 1) name (xattrNsTagShm ++ ascii ".") then
      getShmidInhabitants pool (name.drop (xattrNsTagShm.length + 1)) alloc allocs
    else some (eopnotsupp, none)
  else if inode.magic ≠ .sockfs then some (eopnotsupp, none)
  else if data.inRealm && data.isSocket then
    if strncmpEq (xattrNsTagInRealm.length + 1) name xattrNsTagInRealm then some (0, none)
    else if strncmpEq (xattrNsTagIdentifier.length + 1) name xattrNsTagIdentifier then
      if alloc then
        match toHexstring data.identifier.1 with
        | none => some (enomem, none)
        | some hex =>
          if allocs.hex then some (encodedIdentifierLength, some hex) else none
      else some (encodedIdentifierLength, none)
    else some (eopnotsupp, none)
  else some (eopnotsupp, none)

/-! ## Attribute calls -/

/-- `dentry_housekeeping` by the task `cur`. -/
def dentryHousekeepingBy (s : Lsm) (cur : Task) (i : Nat) (vfs : VfsResult) : Option Lsm := do
  let (data, disk) ← dentryHousekeeping (s.system.task cur) (s.system.inode i) vfs
    (s.system.disk i) (s.system.data i)
  some (s.setLabel i data disk)

/-- `trm_d_instantiate`; a negative dentry has no inode. -/
def trmDInstantiate (s : Lsm) (cur : Task) (vfs : VfsResult) : Option Nat → Option Lsm
  | none => some s
  | some i => dentryHousekeepingBy s cur i vfs

/-- `-EPERM`. -/
def eperm : Int := -1

def trmInodeSetxattr (A : Gcm) (env : InstallEnv) (cap : Int) (s : Lsm) (i : Nat)
    (name value : List UInt8) : Option (Lsm × Int) :=
  if name = xattrInstall then trmInodeSetxattrInstall A env s i value
  else if !strncmpEq xattrRoot.length name xattrRoot then some (s, cap)
  -- no-one can set this xattr apart from the kernel
  else some (s, eperm)

def trmInodePostSetxattr (s : Lsm) (cur : Task) (i : Nat) (vfs : VfsResult) : Option Lsm :=
  dentryHousekeepingBy s cur i vfs

def trmInodeRemovexattr (cap : Int) (s : Lsm) (cur : Task) (i : Nat) (vfs : VfsResult)
    (name : List UInt8) : Option (Lsm × Int) := do
  let s ← dentryHousekeepingBy s cur i vfs
  if !strncmpEq xattrRoot.length name xattrRoot then some (s, cap)
  -- no one is allowed to remove a Citadel security label
  else some (s, eacces)

end Citadel
