/-
Citadel.Lsm.PayloadIo — the kernel's end of the two channels to the
enclave: registration, the update file and the install attribute
(`lsm/src/communication/payload_io.c` and `file_io.c`), with the framing of
`lsm/src/crypto/aes.c`.

AES-GCM is a parameter `A`; so is RSA, of which the module only uses the
decryption with its own key. A ciphertext on the wire is what the cipher
gives, tag included, with the IV at its END.

Functions are partial as everywhere in the kernel: `none` is a memory
fault, a read or write outside a buffer or through a null pointer. What
the kernel decides from outside (allocations, the result of attribute
writes, the clock, random bytes) is an argument. `insert_ticket` reports
failure by its result, which `process_received_update` prints and
forgets; the model returns these results, call by call.

Two paths free, and one of them prints, a pointer that nothing has set
(`challenge` on a wrong length, `identifier_hex` when declassifying).
Whether the kernel survives it is an argument as well (`stray`). The leaks
are left out.
-/
import Citadel.Lib.Aead
import Citadel.Lsm.Access

namespace Citadel

open Bytes SearchTree

/-- The cipher of both ends, `gcm(aes)` with a 16-byte key. -/
abbrev Gcm := Aead AesKey ivLength tagLength

/-! ## State -/

/-- The statics of `payload_io.c` over the rest of the module's state;
`enclave_pid` is the system's `citadelPid`. -/
structure Lsm where
  system : System
  currentChallenge : Block challengeLength
  registeredName : Block asmNameLength
  aesKey : AesKey
  ptokenAesKey : AesKey
  registered : Bool

/-- Statics start as zeros. -/
def Lsm.boot (system : System) : Lsm where
  system := { system with citadelPid := 0 }
  currentChallenge := zeros _
  registeredName := zeros _
  aesKey := zeros _
  ptokenAesKey := zeros _
  registered := false

def Lsm.setKernel (s : Lsm) (k : Kernel) : Lsm :=
  { s with system := { s.system with kernel := k } }

/-! ## Framing -/

/-- `trm_aes_encrypt` with a random IV. -/
def trmAesEncrypt (A : Gcm) (key : AesKey) (iv : Block ivLength) (data : List UInt8) :
    List UInt8 :=
  A.encrypt key iv data ++ iv.1

/-- `trm_aes_decrypt`: what it writes to the output buffer, `none` when it
reports an error. `alloc` is whether the cipher handle, the request and
the scratch buffers could be had. -/
def trmAesDecrypt (A : Gcm) (alloc : Bool) (key : AesKey) (data : List UInt8) :
    Option (List UInt8) :=
  if alloc then do
    let iv ← Bytes.read data (data.length - ivLength) ivLength
    A.decrypt key iv (data.take (data.length - ivLength))
  else none

/-- A zeroed buffer of the given size after the output was written to it. -/
def plainBuffer (size : Nat) : Option (List UInt8) → List UInt8
  | none => List.replicate size 0
  | some out => out ++ List.replicate (size - out.length) 0

/-! ## Registration -/

/-- `generate_challenge` up to the encryption: the new challenge replaces
the current one whatever becomes of it. `alloc` is the allocation of the
structure. -/
def generateChallenge (s : Lsm) (alloc : Bool) (random : Block challengeLength) :
    Lsm × Option Challenge :=
  if alloc then
    ({ s with currentChallenge := random },
      some ⟨challengeSignature, random, zeros _, zeros _, 0⟩)
  else (s, none)

/-- `trm_rsa_decrypt`: the output has the length of the modulus whatever
the length of the message, and zeros behind it. -/
def trmRsaDecrypt (rsaDecrypt : List UInt8 → Option (List UInt8)) (data : List UInt8) :
    Option (List UInt8) :=
  (rsaDecrypt data).map fun msg => msg ++ List.replicate (rsaKeyLength - msg.length) 0

/-- `process_challenge_response`. Returns whether the response was
accepted, which the source only prints. `stray` is what becomes of freeing
`challenge` where nothing has set it. -/
def processChallengeResponse (rsaDecrypt : List UInt8 → Option (List UInt8)) (stray : Bool)
    (s : Lsm) (response : List UInt8) : Option (Lsm × Bool) :=
  if response.length ≠ rsaKeyLength then
    -- out through `bail`, which frees a pointer that was never written
    if stray then some (s, false) else none
  else
    match trmRsaDecrypt rsaDecrypt response with
    | none => some (s, false)
    | some decrypted => do
      let challenge ← Challenge.read decrypted
      if challenge.signature ≠ challengeSignature then some (s, false)
      else if challenge.challenge ≠ s.currentChallenge then some (s, false)
      else some ({ s with
        system := { s.system with citadelPid := challenge.pid }
        registeredName := challenge.name
        aesKey := challenge.key
        ptokenAesKey := challenge.key
        registered := true }, true)

/-- `-EFAULT`. -/
def efault : Int := -14

/-- `CHALLENGE_MAX_SIZE`. -/
def challengeMaxSize : Nat := 256

/-- What a write to one of the module's files takes from outside: RSA
self-test passed, buffer allocated, bytes copied from the caller. `stray`
is for the challenge file only: whether what lies on the stack can be
freed. -/
structure CopyEnv where
  rsaAvailable : Bool
  data : Bool
  copied : Bool
  stray : Bool

/-- Everything succeeds. -/
def CopyEnv.ok : CopyEnv := ⟨true, true, true, true⟩

/-- The bytes arrive. -/
def CopyEnv.works (copy : CopyEnv) : Bool := copy.rsaAvailable && copy.data && copy.copied

/-- `challenge_receive`: the result of the write, and whether a response
was accepted. -/
def challengeReceive (rsaDecrypt : List UInt8 → Option (List UInt8)) (env : CopyEnv) (s : Lsm)
    (buf : List UInt8) : Option (Lsm × Int × Bool) :=
  if buf.length = 0 ∨ challengeMaxSize < buf.length then some (s, enomem, false)
  else if !env.rsaAvailable then some (s, buf.length, false)
  else if !env.data then some (s, enomem, false)
  else if !env.copied then some (s, efault, false)
  else do
    let (s, accepted) ← processChallengeResponse rsaDecrypt env.stray s buf
    some (s, buf.length, accepted)

/-- `challenge_read`: every read call makes a new challenge. -/
def challengeRead (rsaAvailable : Bool) (s : Lsm) (alloc : Bool)
    (random : Block challengeLength) : Lsm × Option Challenge :=
  if rsaAvailable then generateChallenge s alloc random else (s, none)

/-! ## The update file -/

def updateAesKey (s : Lsm) (key : AesKey) : Lsm := { s with aesKey := xor s.aesKey key }

/-- What one call of `insert_ticket` takes from outside. -/
structure InsertEnv where
  rebalance : Rebalance Nat
  allocs : Allocs
  now : Int

/-- The loop over the records, from record `iter` on; with each record
what `insert_ticket` returned. -/
def insertRecords (env : Nat → InsertEnv) (plain : List UInt8) :
    Nat → Nat → Kernel → Option (Kernel × List (UpdateRecord × Bool))
  | 0, _, k => some (k, [])
  | count + 1, iter, k => do
    let rcrd ← UpdateRecord.read plain (updateHeaderSize + iter * updateRecordSize)
    let (k, success) ←
      insertTicket k (env iter).rebalance (env iter).allocs (env iter).now rcrd
    let (k, log) ← insertRecords env plain count (iter + 1) k
    some (k, (rcrd, success) :: log)

/-- What one `process_received_update` takes from outside: whether `plain`
and the buffers of the cipher can be allocated, and its insertions. -/
structure UpdateEnv where
  plain : Bool
  crypto : Bool
  insert : Nat → InsertEnv

/-- `process_received_update` from the header on. A wrong signature is only
printed. -/
def applyUpdate (env : Nat → InsertEnv) (s : Lsm) (plain : List UInt8) :
    Option (Lsm × List (UpdateRecord × Bool)) := do
  let hdr ← UpdateHeader.read plain
  let (kernel, log) ← insertRecords env plain hdr.records.toNat 0 s.system.kernel
  some (updateAesKey (s.setKernel kernel) hdr.keyUpdate, log)

def processReceivedUpdate (A : Gcm) (env : UpdateEnv) (s : Lsm) (update : List UInt8) :
    Option (Lsm × List (UpdateRecord × Bool)) :=
  if !s.registered then some (s, [])
  else if update.length ≤ ivLength + tagLength then some (s, [])
  -- nobody looks at the pointer before the header is read through it
  else if !env.plain then none
  -- the result of the decryption is not looked at
  else applyUpdate env.insert s
    (plainBuffer update.length (trmAesDecrypt A env.crypto s.aesKey update))

/-- `update_receive`: the write reports what was written, not what became
of it. -/
def updateReceive (A : Gcm) (copy : CopyEnv) (env : UpdateEnv) (s : Lsm) (buf : List UInt8) :
    Option (Lsm × Int × List (UpdateRecord × Bool)) :=
  if !copy.rsaAvailable then some (s, buf.length, [])
  else if !copy.data then some (s, enomem, [])
  else if !copy.copied then some (s, efault, [])
  else do
    let (s, log) ← processReceivedUpdate A env s buf
    some (s, buf.length, log)

/-! ## The install attribute -/

/-- What one `xattr_enclave_installation` takes from outside: the
allocations of the plain text, of the cipher and of the hexadecimal
string, the results of the three attribute calls, and whether what lies on
the stack can be printed and freed. -/
structure InstallEnv where
  plain : Bool
  crypto : Bool
  hex : Bool
  removed : Bool
  setIdentifier : Bool
  setInRealm : Bool
  stray : Bool

/-- Everything succeeds. -/
def InstallEnv.ok : InstallEnv := ⟨true, true, true, true, true, true, true⟩

def Xattrs.removeInRealm (disk : Xattrs) (ok : Bool) : Xattrs :=
  if ok then { disk with inRealm := false } else disk

/-- The identifier as this writer stores it: the digits, no terminator. -/
def Xattrs.installIdentifier (disk : Xattrs) (identifier : Identifier) (ok : Bool) : Xattrs :=
  match toHexstring identifier.1 with
  | none => disk
  | some hex =>
    if ok then { disk with identifier := some (hex.take (2 * identifierLength)) } else disk

/-- The blob and the attributes of one inode. -/
def Lsm.setLabel (s : Lsm) (i : Nat) (data : InodeData) (disk : Xattrs) : Lsm :=
  { s with system := { s.system with
      data := Function.update s.system.data i data
      disk := Function.update s.system.disk i disk } }

/-- The declassifying half of `xattr_enclave_installation`. -/
def declassify (env : InstallEnv) (s : Lsm) (i : Nat) (hdr : UpdateHeader) :
    Option (Lsm × Int) :=
  let data := s.system.data i
  let disk := s.system.disk i
  -- all three exits free `identifier_hex`, which only the other half sets,
  -- and the second prints it first
  if !env.stray then none
  -- already unclassified
  else if !data.inRealm then some (updateAesKey s hdr.keyUpdate, 0)
  else
    let data := { data with needsXattrUpdate := false, checkedDiskXattr := true }
    if env.removed then
      some (updateAesKey (s.setLabel i { data with inRealm := false } (disk.removeInRealm true))
        hdr.keyUpdate, 0)
    else some (s.setLabel i { data with checkedDiskXattr := false } disk, -1)

/-- The labelling half. The two flags are set before the attributes are
written, so the housekeeping of `trm_inode_post_setxattr`, which the VFS
calls back, has nothing to do. -/
def induct (env : InstallEnv) (s : Lsm) (i : Nat) (hdr : UpdateHeader) (rcrd : UpdateRecord) :
    Option (Lsm × Int) :=
  let data := { s.system.data i with needsXattrUpdate := false, checkedDiskXattr := true }
  if !env.hex then none
  else
    let disk := (s.system.disk i).installIdentifier rcrd.identifier env.setIdentifier
    let disk := if rcrd.operation.has opRegister then disk.setInRealm env.setInRealm else disk
    if env.setIdentifier then
      some (updateAesKey (s.setLabel i
        { data with
          inRealm := rcrd.operation.has opRegister
          identifier := rcrd.identifier
          anonymous := false } disk) hdr.keyUpdate, 0)
    else some (s.setLabel i { data with checkedDiskXattr := false } disk, -1)

/-- `xattr_enclave_installation` from the header on. -/
def applyInstall (env : InstallEnv) (s : Lsm) (i : Nat) (plain : List UInt8) :
    Option (Lsm × Int) := do
  let hdr ← UpdateHeader.read plain
  if hdr.signature ≠ challengeSignature then some (s, -1)
  else if hdr.records ≠ 1 then some (s, -1)
  else
    let rcrd ← UpdateRecord.read plain updateHeaderSize
    if rcrd.operation.has opDeclassify then declassify env s i hdr
    else induct env s i hdr rcrd

/-- `xattr_enclave_installation` on the inode `i`. -/
def xattrEnclaveInstallation (A : Gcm) (env : InstallEnv) (s : Lsm) (i : Nat)
    (value : List UInt8) : Option (Lsm × Int) :=
  if !s.registered then some (s, -1)
  else if value.length ≤ ivLength + tagLength then some (s, -1)
  else
    match trmAesDecrypt A env.crypto s.aesKey value with
    | none => some (s, -1)
    | some out =>
      -- the plain text is copied through the pointer unchecked
      if !env.plain then none
      else applyInstall env s i (plainBuffer value.length (some out))

def xattrAcceptedSignal : Int := 359

def xattrRejectedSignal : Int := 360

/-- `-ECANCELED`. -/
def ecanceled : Int := -125

/-- `trm_inode_setxattr` on the name `security.citadel.install`. -/
def trmInodeSetxattrInstall (A : Gcm) (env : InstallEnv) (s : Lsm) (i : Nat)
    (value : List UInt8) : Option (Lsm × Int) :=
  if s.registered then do
    let (s, r) ← xattrEnclaveInstallation A env s i value
    some (s, if r ≠ 0 then -xattrRejectedSignal else -xattrAcceptedSignal)
  else some (s, ecanceled)

/-! ## What the module sends -/

/-- The record `tmp` of `generate_update`, all in a zeroed buffer. -/
def sampleRecord (tmp : UInt8) : List UInt8 :=
  (⟨13, fill _ tmp, 0⟩ : UpdateRecord).encode (zeros 2)

/-- The plain text of `generate_update`. -/
def sampleUpdate : List UInt8 :=
  (⟨challengeSignature, fill _ 6, 5⟩ : UpdateHeader).encode ++
    [1, 3, 5, 7, 9].flatMap sampleRecord

/-- `generate_update`, its allocations succeeding. -/
def generateUpdate (A : Gcm) (s : Lsm) (iv : Block ivLength) : Option (List UInt8) :=
  if s.registered then some (trmAesEncrypt A s.aesKey iv sampleUpdate) else none

/-- `citadel_ptoken_t`. -/
structure Ptoken where
  signature : Block signatureLength
  citadelPid : Pid
  ptoken : Block ptokenLength
  processIdentifier : Identifier
  signedPtoken : List UInt8

/-- `generate_ptoken` for the task `cur`, its allocations succeeding. -/
def generatePtoken (A : Gcm) (s : Lsm) (cur : Task) (iv : Block ivLength)
    (random : Block ptokenLength) : Option Ptoken :=
  if s.registered then
    let identifier := (s.system.task cur).identifier
    let toEncrypt : PtokenProtected := ⟨challengeSignature, cur.pid, random, identifier⟩
    some ⟨challengeSignature, s.system.citadelPid, random, identifier,
      trmAesEncrypt A s.ptokenAesKey iv toEncrypt.encode⟩
  else none

end Citadel
