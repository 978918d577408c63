/-
Citadel.Enclave.UserspaceIo — requests of processes,
`enclave_core/userspace_io.cpp`.

`handle_request` finds out who asks: it decrypts the process token of the
request, compares the pid in it with the pid the socket reports, and only
then asks the policy. `core_handle_request` turns an approval into tickets
and labels. `protect_socket` labels the socket itself. The policy and the
two OCALLs are functions on the state `σ` of the world (`HostCalls`).

`none` is a memory fault: a path read through a null pointer or past the
end of the metadata, or an OCALL that does not come back. Every message
that is built draws its own random bytes, `rand n` for the `n`-th.
-/
import Citadel.Enclave.Aes
import Citadel.Enclave.LsmCommunication
import Citadel.Lsm.Inode

namespace Citadel.Enclave

open Bytes

/-- What the enclave calls: the policy, and the daemon's two OCALLs. -/
structure HostCalls (σ : Type) where
  asmHandleRequest : σ → Pid → OpRequest → Option (Block maxMetadataSize) → σ × Response
  installTicket : σ → List UInt8 → Option (σ × Int)
  installXattr : σ → List UInt8 → List UInt8 → Option (σ × Int)

/-- World, enclave and result so far. -/
structure Progress (σ : Type) where
  world : σ
  enclave : Enclave
  result : Response

variable {σ : Type} (A : Aead AesKey ivLength tagLength) (calls : HostCalls σ)
  (rand : Nat → TicketRandom × Identifier)

/-! ## Tickets and labels -/

/-- The metadata as the path it is passed on as. -/
def metadataPath (metadata : Option (Block maxMetadataSize)) : Option (List UInt8) := do
  let m ← metadata
  cstring m.1

/-- A call of `generate_ticket` whose failure is an error. -/
def ticketStep (n : Nat) (pid : Pid) (identifier : Identifier) (operation : Operation)
    (p : Progress σ) : Option (Progress σ) := do
  let (w, e, ok) ← generateTicket A calls.installTicket p.world p.enclave (rand n).1 pid
    identifier operation
  some ⟨w, e, if ok then p.result else opError⟩

/-- A call of `generate_xattr_ticket` whose failure is an error, with the
identifier it writes for the caller. The caller's array is not
initialised; after a failure nobody reads it. -/
def labelStep (n : Nat) (metadata : Option (Block maxMetadataSize)) (taint declassify : Bool)
    (p : Progress σ) : Option (Progress σ × Identifier) := do
  let path ← metadataPath metadata
  let (w, e, id, ok) ← generateXattrTicket A calls.installXattr p.world p.enclave (rand n).1
    (rand n).2 path (if declassify then none else some (zeros _)) taint declassify
  some (⟨w, e, if ok then p.result else opError⟩, id.getD (zeros _))

/-- Create file, and claim access for free. -/
def claimStep (pid : Pid) (request : OpRequest) (metadata : Option (Block maxMetadataSize))
    (p : Progress σ) : Option (Progress σ) := do
  let (p, id) ← labelStep A calls rand 0 metadata true false p
  if p.result ≠ opError ∧ request.operation.has opOpen then
    ticketStep A calls rand 1 pid id opOpen p
  else some p

/-- Open file. One whose path the daemon could not translate is inducted. -/
def openStep (pid : Pid) (request : OpRequest) (metadata : Option (Block maxMetadataSize))
    (translated translateSuccess : Bool) (p : Progress σ) : Option (Progress σ) := do
  let (p, identifier) ←
    if translated && !translateSuccess then labelStep A calls rand 2 metadata true false p
    else if translated then do
      let m ← metadata
      let identifier ← read m.1 0 identifierLength
      some (p, identifier)
    else some (p, request.subject)
  if p.result ≠ opError then ticketStep A calls rand 3 pid identifier request.operation p
  else some p

/-- `core_handle_request`. A claim takes the open bit with it. -/
def coreHandleRequest (pid : Pid) (request : OpRequest)
    (metadata : Option (Block maxMetadataSize)) (translated translateSuccess : Bool)
    (p : Progress σ) : Option (Progress σ) :=
  if p.result ≠ opApproved then some p
  else do
    let claims := request.operation.has opClaim
    let op := if claims then request.operation &&& ~~~opOpen else request.operation
    let p ← if claims then claimStep A calls rand pid request metadata p else some p
    let p ← if op.has opOpen then
        openStep A calls rand pid request metadata translated translateSuccess p
      else some p
    let p ← if op.has (opPtyAccess ||| opSocket) then
        ticketStep A calls rand 4 pid request.subject request.operation p
      else some p
    let p ← if op.has opShm then
        ticketStep A calls rand 5 pid request.subject request.operation p
      else some p
    if op.has opDeclassify then do
      let (p, _) ← labelStep A calls rand 6 metadata false true p
      some p
    else some p

/-! ## `handle_request` -/

/-- The request in a message of one of the two sizes, with its extension if
it has one. -/
def readRequest (data : List UInt8) : Option (OpRequest × Option OpExtension) :=
  if data.length = opRequestSize then do
    let request ← OpRequest.read data
    some (request, none)
  else if data.length = opExtendedRequestSize then do
    let request ← OpRequest.read data
    let extension ← OpExtension.read data
    some (request, some extension)
  else none

/-- What is left to do once the caller is known: the policy decides, and
its approval is put into effect. -/
def serveRequest (w : σ) (e : Enclave) (pid : Pid) (request : OpRequest)
    (extension : Option OpExtension) : Option (Progress σ) :=
  let metadata := extension.map (·.metadata)
  let (w, result) := calls.asmHandleRequest w pid request metadata
  coreHandleRequest A calls rand pid request metadata
    (extension.elim false (·.translate)) (extension.elim false (·.translateSuccess))
    ⟨w, e, result⟩

/-- `handle_request`: what it returns, and the process token if it writes
one to the caller's buffer of `ptokenLen` bytes. -/
def handleRequest (w : σ) (e : Enclave) (data : List UInt8) (pid : Pid) (ptokenLen : Nat) :
    Option (Progress σ × Option (Block ptokenLength)) :=
  if ptokenLen ≠ ptokenLength then some (⟨w, e, opError⟩, none)
  else
    match readRequest data with
    | none => some (⟨w, e, opInvalid⟩, none)
    | some (request, extension) =>
      if request.signature ≠ challengeSignature then some (⟨w, e, opInvalid⟩, none)
      else do
        -- `aes_decrypt` always reports success
        let (decrypted, outlen) ← Crypto.aesDecrypt A e.ptokenAesKey request.signedPtoken.1
        if outlen ≠ ptokenProtectedSize then some (⟨w, e, opInvalid⟩, none)
        else do
          let ptokenPayload ← PtokenProtected.read decrypted
          if ptokenPayload.signature ≠ challengeSignature then some (⟨w, e, opInvalid⟩, none)
          else if pid ≠ ptokenPayload.pid then some (⟨w, e, opForged⟩, none)
          else do
            let p ← serveRequest A calls rand w e pid request extension
            some (p, some ptokenPayload.ptoken)

/-! ## The socket of the daemon -/

/-- `_CITADEL_IPC_FILE`. -/
def citadelIpcFile : List UInt8 := ascii "/run/citadel.socket"

/-- `protect_socket`, which drops what the generator reports. -/
def protectSocket (installXattr : σ → List UInt8 → List UInt8 → Option (σ × Int)) (w : σ)
    (e : Enclave) (rnd : TicketRandom) (random : Identifier) : Option (σ × Enclave) :=
  (generateXattrTicketInternal A installXattr w e rnd random citadelIpcFile).map fun out =>
    (out.1, out.2.1)

end Citadel.Enclave
