/-
Citadel.Shared — the definitions of `_citadel_shared.h` that the kernel
module and the enclave have in common: lengths, operation bits, the
signature constant and the layout of the messages.

Structures are laid out as the x86-64 ABI lays them out: a header is 25
bytes with no padding, a record is `pid` at 0, `identifier` at 4,
`operation` at 20 and two bytes of padding up to 24. The padding is
whatever stood on the sender's stack; no reader looks at it.
-/
import Citadel.Lib.Bytes

namespace Citadel

open Bytes

/-! ## Lengths and constants -/

def identifierLength : Nat := 16

def signatureLength : Nat := 8

def aesKeyLength : Nat := 16

def ivLength : Nat := 12

def tagLength : Nat := 16

/-- `_CITADEL_TICKET_EXPIRY`, in seconds. -/
def ticketExpiry : Int := 15

/-- `pid_t` and the wire's `int32_t`. -/
abbrev Pid := BitVec 32

/-- `citadel_operation_t`. -/
abbrev Operation := BitVec 16

abbrev Identifier := Block identifierLength

abbrev AesKey := Block aesKeyLength

/-- `challenge_signature`, the one signature constant of all messages. -/
def challengeSignature : Block signatureLength :=
  ⟨[0x80, 0x70, 0x60, 0x50, 0x40, 0x30, 0x20, 0x10], rfl⟩

/-! ## Operations -/

def opNop : Operation := 0x0001
def opPtyAccess : Operation := 0x0002
def opRegister : Operation := 0x0004
def opParent : Operation := 0x0008
def opClaim : Operation := 0x0010
def opOpen : Operation := 0x0040
def opSocketInternal : Operation := 0x0100
def opSocketExternal : Operation := 0x0200
def opSocket : Operation := opSocketInternal ||| opSocketExternal
def opShm : Operation := 0x0400
def opDeclassify : Operation := 0x0800

/-- The operation has a bit in common with the mask. -/
def Operation.has (op mask : Operation) : Bool := op &&& mask != 0

/-! ## Attributes seen from user space -/

/-- `getxattr` and `fgetxattr` into a buffer of `size` bytes; `none` is -1,
for a missing attribute or one that does not fit. -/
def getxattr (value : Option (List UInt8)) (size : Nat) : Option (List UInt8) :=
  value.filter (fun v => v.length ≤ size)

/-! ## Update messages -/

/-- `citadel_update_header_t`. -/
structure UpdateHeader where
  signature : Block signatureLength
  keyUpdate : AesKey
  records : UInt8
  deriving DecidableEq

/-- `citadel_update_record_t`. -/
structure UpdateRecord where
  pid : Pid
  identifier : Identifier
  operation : Operation
  deriving DecidableEq

def updateHeaderSize : Nat := 25

def updateRecordSize : Nat := 24

def UpdateHeader.encode (hdr : UpdateHeader) : List UInt8 :=
  hdr.signature.1 ++ (hdr.keyUpdate.1 ++ [hdr.records])

def UpdateRecord.encode (rcrd : UpdateRecord) (padding : Block 2) : List UInt8 :=
  (le32 rcrd.pid).1 ++ (rcrd.identifier.1 ++ ((le16 rcrd.operation).1 ++ padding.1))

/-- The header at the front of a buffer. -/
def UpdateHeader.read (buf : List UInt8) : Option UpdateHeader := do
  let signature ← Bytes.read buf 0 signatureLength
  let keyUpdate ← Bytes.read buf signatureLength aesKeyLength
  let records ← Bytes.read buf (signatureLength + aesKeyLength) 1
  pure ⟨signature, keyUpdate, records.byte 0⟩

/-- The fields of the record at `off`; the padding is not read. -/
def UpdateRecord.read (buf : List UInt8) (off : Nat) : Option UpdateRecord := do
  let pid ← Bytes.read buf off 4
  let identifier ← Bytes.read buf (off + 4) identifierLength
  let operation ← Bytes.read buf (off + 20) 2
  pure ⟨ofLe32 pid, identifier, ofLe16 operation⟩

theorem UpdateHeader.encode_length (hdr : UpdateHeader) :
    hdr.encode.length = updateHeaderSize := by
  simp [UpdateHeader.encode, hdr.signature.2, hdr.keyUpdate.2, updateHeaderSize,
    signatureLength, aesKeyLength]

theorem UpdateRecord.encode_length (rcrd : UpdateRecord) (padding : Block 2) :
    (rcrd.encode padding).length = updateRecordSize := by
  simp [UpdateRecord.encode, (le32 rcrd.pid).2, (le16 rcrd.operation).2, rcrd.identifier.2,
    padding.2, updateRecordSize, identifierLength]

/-- A header reads back from the front of any buffer it starts. -/
theorem UpdateHeader.read_encode (hdr : UpdateHeader) (post : List UInt8) :
    UpdateHeader.read (hdr.encode ++ post) = some hdr := by
  have hrecords : Bytes.read (hdr.records :: post) 0 1 = some ⟨[hdr.records], rfl⟩ :=
    read_front (⟨[hdr.records], rfl⟩ : Block 1) post
  unfold UpdateHeader.read UpdateHeader.encode
  simp [read_front, read_block, hrecords, Block.byte]

/-- A record reads back at the length of what stands before it. -/
theorem UpdateRecord.read_encode (rcrd : UpdateRecord) (padding : Block 2)
    (pre post : List UInt8) :
    UpdateRecord.read (pre ++ (rcrd.encode padding ++ post)) pre.length = some rcrd := by
  have hop : ∀ rest, Bytes.read (rcrd.identifier.1 ++ rest) 16 2 = Bytes.read rest 0 2 :=
    fun rest => read_block rcrd.identifier rest (Nat.le_refl _)
  unfold UpdateRecord.read UpdateRecord.encode
  simp [read_skip, read_front, read_block, hop, ofLe32_le32, ofLe16_le16]

/-! ## Registration -/

def challengeLength : Nat := 32

def asmNameLength : Nat := 40

/-- `_CITADEL_RSA_KEY_LENGTH`, the length of an RSA ciphertext. -/
def rsaKeyLength : Nat := 256

/-- `citadel_challenge_t` without its padding: a challenge and its response
have one layout. -/
structure Challenge where
  signature : Block signatureLength
  challenge : Block challengeLength
  name : Block asmNameLength
  key : AesKey
  pid : Pid
  deriving DecidableEq

/-- The padding field and the two bytes that align the structure. -/
def challengePadding : Nat := 116

def challengeSize : Nat := 216

def Challenge.encode (c : Challenge) (padding : Block challengePadding) : List UInt8 :=
  c.signature.1 ++ (c.challenge.1 ++ (c.name.1 ++ (c.key.1 ++ ((le32 c.pid).1 ++ padding.1))))

def Challenge.read (buf : List UInt8) : Option Challenge := do
  let signature ← Bytes.read buf 0 signatureLength
  let challenge ← Bytes.read buf signatureLength challengeLength
  let name ← Bytes.read buf (signatureLength + challengeLength) asmNameLength
  let key ← Bytes.read buf (signatureLength + (challengeLength + asmNameLength)) aesKeyLength
  let pid ← Bytes.read buf
    (signatureLength + (challengeLength + (asmNameLength + aesKeyLength))) 4
  pure ⟨signature, challenge, name, key, ofLe32 pid⟩

theorem Challenge.encode_length (c : Challenge) (padding : Block challengePadding) :
    (c.encode padding).length = challengeSize := by
  simp [Challenge.encode, c.signature.2, c.challenge.2, c.name.2, c.key.2, (le32 c.pid).2,
    padding.2, signatureLength, challengeLength, asmNameLength, aesKeyLength, challengePadding,
    challengeSize]

theorem Challenge.read_encode (c : Challenge) (padding : Block challengePadding)
    (post : List UInt8) : Challenge.read (c.encode padding ++ post) = some c := by
  unfold Challenge.read Challenge.encode
  simp [read_front, read_block, ofLe32_le32]

/-! ## Process tokens -/

def ptokenLength : Nat := 8

/-- `citadel_ptoken_protected_t`, the part of a process token that is
encrypted. -/
structure PtokenProtected where
  signature : Block signatureLength
  pid : Pid
  ptoken : Block ptokenLength
  processIdentifier : Identifier
  deriving DecidableEq

def PtokenProtected.encode (p : PtokenProtected) : List UInt8 :=
  p.signature.1 ++ ((le32 p.pid).1 ++ (p.ptoken.1 ++ p.processIdentifier.1))

def ptokenProtectedSize : Nat := 36

def PtokenProtected.read (buf : List UInt8) : Option PtokenProtected := do
  let signature ← Bytes.read buf 0 signatureLength
  let pid ← Bytes.read buf signatureLength 4
  let ptoken ← Bytes.read buf (signatureLength + 4) ptokenLength
  let processIdentifier ← Bytes.read buf (signatureLength + (4 + ptokenLength)) identifierLength
  pure ⟨signature, ofLe32 pid, ptoken, processIdentifier⟩

theorem PtokenProtected.read_encode (p : PtokenProtected) :
    PtokenProtected.read p.encode = some p := by
  have hlast : Bytes.read p.processIdentifier.1 0 identifierLength = some p.processIdentifier := by
    simpa using read_front p.processIdentifier []
  unfold PtokenProtected.read PtokenProtected.encode
  simp [read_front, read_block, ofLe32_le32, hlast]

/-! ## Requests -/

/-- `_CITADEL_PROCESS_SIGNED_PTOKEN_LENGTH`: an encrypted process token. -/
def signedPtokenLength : Nat := 64

def maxMetadataSize : Nat := 4096

/-- `struct citadel_op_request`. -/
structure OpRequest where
  signature : Block signatureLength
  operation : Operation
  subject : Identifier
  signedPtoken : Block signedPtokenLength
  deriving DecidableEq

/-- What `struct citadel_op_extended_request` has behind the request. -/
structure OpExtension where
  translate : Bool
  translateSuccess : Bool
  metadata : Block maxMetadataSize
  deriving DecidableEq

def opRequestSize : Nat := 90

def opExtendedRequestSize : Nat := 4188

def OpRequest.encode (r : OpRequest) : List UInt8 :=
  r.signature.1 ++ ((le16 r.operation).1 ++ (r.subject.1 ++ r.signedPtoken.1))

def OpRequest.read (buf : List UInt8) : Option OpRequest := do
  let signature ← Bytes.read buf 0 signatureLength
  let operation ← Bytes.read buf signatureLength 2
  let subject ← Bytes.read buf (signatureLength + 2) identifierLength
  let signedPtoken ← Bytes.read buf (signatureLength + (2 + identifierLength)) signedPtokenLength
  pure ⟨signature, ofLe16 operation, subject, signedPtoken⟩

/-- The extension of a request, in a buffer of the extended size. -/
def OpExtension.read (buf : List UInt8) : Option OpExtension := do
  let translate ← Bytes.read buf opRequestSize 1
  let translateSuccess ← Bytes.read buf (opRequestSize + 1) 1
  let metadata ← Bytes.read buf (opRequestSize + 2) maxMetadataSize
  pure ⟨translate.byte 0 != 0, translateSuccess.byte 0 != 0, metadata⟩

theorem OpRequest.read_encode (r : OpRequest) (post : List UInt8) :
    OpRequest.read (r.encode ++ post) = some r := by
  unfold OpRequest.read OpRequest.encode
  simp [read_front, read_block, ofLe16_le16]

theorem OpRequest.encode_length (r : OpRequest) : r.encode.length = opRequestSize := by
  simp [OpRequest.encode, r.signature.2, (le16 r.operation).2, r.subject.2, r.signedPtoken.2,
    signatureLength, identifierLength, signedPtokenLength, opRequestSize]

/-- The extension on the wire, behind the request. -/
def OpExtension.encode (x : OpExtension) : List UInt8 :=
  (if x.translate then 1 else 0) :: (if x.translateSuccess then 1 else 0) :: x.metadata.1

theorem OpExtension.read_encode (r : OpRequest) (x : OpExtension) :
    OpExtension.read (r.encode ++ x.encode) = some x := by
  have hbyte : ∀ (b : UInt8) (post : List UInt8), Bytes.read (b :: post) 0 1 = some ⟨[b], rfl⟩ :=
    fun b post => read_front ⟨[b], rfl⟩ post
  have hskip : ∀ (b : UInt8) (post : List UInt8) (off n : Nat),
      Bytes.read (b :: post) (off + 1) n = Bytes.read post off n :=
    fun b post off n => read_block (⟨[b], rfl⟩ : Block 1) post (Nat.le_add_left 1 off)
  have hmetadata := read_front x.metadata []
  rw [List.append_nil] at hmetadata
  unfold OpExtension.read
  rw [read_skip _ _ (Nat.le_of_eq r.encode_length), read_skip _ _ (by rw [r.encode_length]; omega),
    read_skip _ _ (by rw [r.encode_length]; omega), r.encode_length, OpExtension.encode]
  simp only [Nat.sub_self, Nat.add_sub_cancel_left, hbyte, hskip, hmetadata]
  obtain ⟨translate, translateSuccess, metadata⟩ := x
  cases translate <;> cases translateSuccess <;> rfl

/-- The fields that requests and replies begin with. -/
theorem read_front_isSome {buf : List UInt8} (h : 26 ≤ buf.length) :
    ∃ signature operation subject,
      Bytes.read buf 0 signatureLength = some signature ∧
      Bytes.read buf signatureLength 2 = some operation ∧
      Bytes.read buf (signatureLength + 2) identifierLength = some subject := by
  obtain ⟨signature, h₁⟩ := Bytes.read_isSome (show 0 + signatureLength ≤ buf.length by
    unfold signatureLength; omega)
  obtain ⟨operation, h₂⟩ := Bytes.read_isSome (show signatureLength + 2 ≤ buf.length by
    unfold signatureLength; omega)
  obtain ⟨subject, h₃⟩ := Bytes.read_isSome
    (show signatureLength + 2 + identifierLength ≤ buf.length by
      unfold signatureLength identifierLength; omega)
  exact ⟨signature, operation, subject, h₁, h₂, h₃⟩

theorem OpRequest.read_isSome {buf : List UInt8} (h : opRequestSize ≤ buf.length) :
    ∃ r, OpRequest.read buf = some r := by
  unfold opRequestSize at h
  obtain ⟨signature, operation, subject, h₁, h₂, h₃⟩ :=
    read_front_isSome (show 26 ≤ buf.length by omega)
  obtain ⟨signedPtoken, h₄⟩ := Bytes.read_isSome
    (show signatureLength + (2 + identifierLength) + signedPtokenLength ≤ buf.length by
      unfold signatureLength identifierLength signedPtokenLength; omega)
  exact ⟨⟨signature, ofLe16 operation, subject, signedPtoken⟩, by
    simp [OpRequest.read, h₁, h₂, h₃, h₄]⟩

/-! ## Answers -/

/-- `citadel_response_t`. -/
abbrev Response := UInt8

def opInvalid : Response := 0
def opForged : Response := 1
def opApproved : Response := 2
def opError : Response := 5

/-- `struct citadel_op_reply` without its padding, which makes a reply as
long as its request. -/
structure OpReply where
  signature : Block signatureLength
  operation : Operation
  subject : Identifier
  ptoken : Block ptokenLength
  result : Response
  deriving DecidableEq

/-- Where the padding starts. -/
def opReplyFields : Nat := 35

def OpReply.read (buf : List UInt8) : Option OpReply := do
  let signature ← Bytes.read buf 0 signatureLength
  let operation ← Bytes.read buf signatureLength 2
  let subject ← Bytes.read buf (signatureLength + 2) identifierLength
  let ptoken ← Bytes.read buf (signatureLength + (2 + identifierLength)) ptokenLength
  let result ← Bytes.read buf (signatureLength + (2 + (identifierLength + ptokenLength))) 1
  pure ⟨signature, ofLe16 operation, subject, ptoken, result.byte 0⟩

/-- The fields are read from the first bytes. -/
theorem OpReply.read_within (pre post : List UInt8) (h : opReplyFields ≤ pre.length) :
    OpReply.read (pre ++ post) = OpReply.read pre := by
  unfold opReplyFields at h
  unfold OpReply.read
  rw [Bytes.read_within pre post (by unfold signatureLength; omega),
    Bytes.read_within pre post (by unfold signatureLength; omega),
    Bytes.read_within pre post (by unfold signatureLength identifierLength; omega),
    Bytes.read_within pre post (by unfold signatureLength identifierLength ptokenLength; omega),
    Bytes.read_within pre post (by unfold signatureLength identifierLength ptokenLength; omega)]

theorem OpReply.read_isSome {buf : List UInt8} (h : opReplyFields ≤ buf.length) :
    ∃ r, OpReply.read buf = some r := by
  unfold opReplyFields at h
  obtain ⟨signature, operation, subject, h₁, h₂, h₃⟩ :=
    read_front_isSome (show 26 ≤ buf.length by omega)
  obtain ⟨ptoken, h₄⟩ := Bytes.read_isSome
    (show signatureLength + (2 + identifierLength) + ptokenLength ≤ buf.length by
      unfold signatureLength identifierLength ptokenLength; omega)
  obtain ⟨result, h₅⟩ := Bytes.read_isSome
    (show signatureLength + (2 + (identifierLength + ptokenLength)) + 1 ≤ buf.length by
      unfold signatureLength identifierLength ptokenLength; omega)
  exact ⟨⟨signature, ofLe16 operation, subject, ptoken, result.byte 0⟩, by
    simp [OpReply.read, h₁, h₂, h₃, h₄, h₅]⟩

end Citadel
