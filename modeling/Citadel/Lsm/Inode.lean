/-
Citadel.Lsm.Inode — the security data of an inode, its extended attributes
on disk, and the housekeeping that keeps the two together
(`lsm/src/common.c`).

The label of an inode lives twice: in the security blob (`InodeData`) and
in the attributes `security.citadel.in_realm` and
`security.citadel.identifier` (`Xattrs`), the identifier in hexadecimal.
Reading the label is partial: `none` is a read outside a buffer, which an
attribute that is not a terminated string, or is shorter than an
identifier, provokes. Whether the VFS carries out a write is a parameter
(`VfsResult`).

Security blobs are allocated by the framework together with the inode, so
the tests for a missing blob are left out; small allocations of the
housekeeping are taken to succeed.
-/
import Citadel.Lsm.TicketCache

namespace Citadel

open Bytes

/-! ## The hexadecimal form of an identifier -/

/-- `"0123456789ABCDEF"[x]`. -/
def hexDigit (x : UInt8) : UInt8 := if x < 10 then 48 + x else 55 + x

/-- `to_hexstring`, with its terminator; `none` is NULL. -/
def toHexstring (buf : List UInt8) : Option (List UInt8) :=
  if buf.length = 0 then none
  else some (buf.flatMap (fun b : UInt8 => [hexDigit (b >>> 4), hexDigit (b &&& 0x0F)]) ++ [0])

/-- `(c % 32 + 9) % 25`, on a signed `char` and with C's remainder. -/
def hexValue (c : UInt8) : Int := (c.toInt8.toInt.tmod 32 + 9).tmod 25

/-- The loop of `hexstring_to_bytes`, two digits at a time. -/
def hexPairs : List UInt8 → List UInt8
  | a :: b :: rest => UInt8.ofInt (hexValue a * 16 + hexValue b) :: hexPairs rest
  | _ => []

/-- `hexstring_to_bytes` on the characters before the terminator; `none` is
NULL. -/
def hexstringToBytes (hexstring : List UInt8) : Option (List UInt8) :=
  if hexstring.length % 2 ≠ 0 then none else some (hexPairs hexstring)

/-- The string in a buffer, a fault when it is not terminated. -/
def cstring (buf : List UInt8) : Option (List UInt8) :=
  if buf.contains 0 then some (buf.takeWhile (· != 0)) else none

/-- `-EINVAL`. -/
def einval : Int := -22

/-- `-ENOMEM`. -/
def enomem : Int := -12

/-! ## Attributes -/

/-- The two attributes of an inode on disk. The value of the first is
never read. -/
structure Xattrs where
  inRealm : Bool
  identifier : Option (List UInt8)
  deriving DecidableEq

/-- `_CITADEL_ENCODED_IDENTIFIER_LENGTH`. -/
def encodedIdentifierLength : Nat := 2 * identifierLength + 1

/-- `get_xattr_identifier`: the inner `none` is NULL. A value that does not
fit the buffer is refused by the VFS. -/
def getXattrIdentifier (disk : Xattrs) : Option (Option (List UInt8)) :=
  match disk.identifier with
  | none => some none
  | some value =>
    if 0 < value.length ∧ value.length ≤ encodedIdentifierLength then do
      let hexstring ← cstring
        (value ++ List.replicate (encodedIdentifierLength - value.length) 0)
      some (hexstringToBytes hexstring)
    else some none

/-- Which of the attribute writes of one call the VFS carries out. -/
structure VfsResult where
  inRealm : Bool
  identifier : Bool

def Xattrs.setInRealm (disk : Xattrs) (ok : Bool) : Xattrs :=
  if ok then { disk with inRealm := true } else disk

/-- `__internal_set_identifier`: the hexadecimal form with its terminator. -/
def Xattrs.setIdentifier (disk : Xattrs) (identifier : Identifier) (ok : Bool) : Xattrs :=
  match toHexstring identifier.1 with
  | none => disk
  | some hex => if ok then { disk with identifier := some hex } else disk

/-! ## Inodes -/

/-- The file systems the module tells apart by their magic number. -/
inductive Magic where
  | pipefs | sockfs | sysfs | securityfs | tmpfs | devpts | other
  deriving DecidableEq

/-- What the hooks read of a `struct inode`. -/
structure Inode where
  ino : Nat
  isDir : Bool
  magic : Magic
  deriving DecidableEq

/-- `citadel_inode_data_t`. -/
structure InodeData where
  inRealm : Bool
  needsXattrUpdate : Bool
  checkedDiskXattr : Bool
  isSocket : Bool
  anonymous : Bool
  identifier : Identifier
  deriving DecidableEq

/-- What `trm_inode_alloc_security` leaves in a zeroed blob. -/
def InodeData.alloc : InodeData := ⟨false, false, false, false, true, zeros _⟩

/-! ## Housekeeping -/

/-- An unnamed pipe takes the identifier of the first tainted task to
touch it. -/
def inodeHousekeeping (task : TaskData) (inode : Inode) (data : InodeData) : InodeData :=
  if inode.ino < 2 then data
  else if inode.magic = .pipefs then
    if data.anonymous && task.inRealm then
      { data with
        identifier := task.identifier
        anonymous := false
        checkedDiskXattr := true
        needsXattrUpdate := false }
    else data
  else data

/-- Fetch the label from disk, once. -/
def fetchLabel (disk : Xattrs) (data : InodeData) : Option InodeData :=
  if !data.checkedDiskXattr && !data.isSocket then
    let data := { data with checkedDiskXattr := true }
    if disk.inRealm then do
      let data := { data with inRealm := true }
      match ← getXattrIdentifier disk with
      | none => some data
      | some identifier => do
        let identifier ← Bytes.read identifier 0 identifierLength
        some { data with identifier := identifier, anonymous := false }
    else some data
  else some data

/-- Write a pending label back. -/
def flushLabel (vfs : VfsResult) (disk : Xattrs) (data : InodeData) : InodeData × Xattrs :=
  if data.inRealm then
    if data.needsXattrUpdate && !data.isSocket then
      let disk := disk.setInRealm vfs.inRealm
      ({ data with needsXattrUpdate := false },
        if data.anonymous then disk else disk.setIdentifier data.identifier vfs.identifier)
    else (data, disk)
  else (data, disk)

def dentryHousekeeping (task : TaskData) (inode : Inode) (vfs : VfsResult) (disk : Xattrs)
    (data : InodeData) : Option (InodeData × Xattrs) := do
  let data := inodeHousekeeping task inode data
  let data ← fetchLabel disk data
  some (flushLabel vfs disk data)

end Citadel
