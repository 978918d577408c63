/-
Citadel.Enclave.LsmCommunication — the enclave's end of the channels to the
kernel module, `enclave_core/lsm_communication.cpp`, with the framing of
`enclave_core/crypto/aes.cpp`.

An OCALL leaves the enclave and comes back with an integer. What happens
outside is a parameter: a function on the state `σ` of the world that may
not come back (`none`). Random bytes are arguments, and so are the two
bytes of stack behind a record that are sent as its padding.

`aes_encrypt` writes 12 bytes more than the ciphertext buffer of either
generator holds. The model has the bytes it writes and not the frame it
writes them into, which is in `Citadel.Enclave.Buffers`.
-/
import Citadel.Lib.Aead
import Citadel.Shared

namespace Citadel

open Bytes

/-- The two session keys of the enclave. -/
structure Enclave where
  aesKey : AesKey
  ptokenAesKey : AesKey
  deriving DecidableEq

namespace Enclave

/-- `aes_encrypt`: cipher text, tag, IV. -/
def aesEncrypt (A : Aead AesKey ivLength tagLength) (key : AesKey) (iv : Block ivLength)
    (msg : List UInt8) : List UInt8 :=
  A.encrypt key iv msg ++ iv.1

/-! ## Registration -/

/-- `"citadel.basic.so"` with its terminator. -/
def asmName : List UInt8 :=
  [0x63, 0x69, 0x74, 0x61, 0x64, 0x65, 0x6c, 0x2e, 0x62, 0x61, 0x73, 0x69, 0x63, 0x2e, 0x73,
    0x6f, 0]

/-- The name copied over the front of the name field. -/
def writeName (name : Block asmNameLength) : Block asmNameLength :=
  ⟨asmName ++ name.1.drop 17, by
    rw [List.length_append, List.length_drop, name.2]
    rfl⟩

/-- `handle_kernel_challenge`. The response is the challenge's own
structure with name, key and pid filled in; `none` is an error status. The
keys are set before the response is encrypted. -/
def handleKernelChallenge (rsaDecrypt rsaEncrypt : List UInt8 → Option (List UInt8))
    (e : Enclave) (challengeData : List UInt8) (random : AesKey) (pid : Pid) :
    Enclave × Option (List UInt8) :=
  match rsaDecrypt challengeData with
  | none => (e, none)
  | some decrypted =>
    if decrypted.length ≠ challengeSize then (e, none)
    else
      match Challenge.read decrypted, Bytes.read decrypted 100 challengePadding with
      | some challenge, some padding =>
        if challenge.signature ≠ challengeSignature then (e, none)
        else
          let response : Challenge :=
            { challenge with name := writeName challenge.name, key := random, pid := pid }
          (⟨random, random⟩, rsaEncrypt (response.encode padding))
      | _, _ => (e, none)

/-! ## Tickets -/

def updateAesKey (e : Enclave) (key : AesKey) : Enclave :=
  { e with aesKey := xor e.aesKey key }

/-- What building one message takes from `sgx_read_rand` and from the
stack. -/
structure TicketRandom where
  keyUpdate : AesKey
  iv : Block ivLength
  padding : Block 2

/-- The header with a single record that both generators build. -/
def ticketData (keyUpdate : AesKey) (rcrd : UpdateRecord) (padding : Block 2) : List UInt8 :=
  (⟨challengeSignature, keyUpdate, 1⟩ : UpdateHeader).encode ++ rcrd.encode padding

/-- `ticketData` on the wire. -/
def ticketMessage (A : Aead AesKey ivLength tagLength) (e : Enclave) (rnd : TicketRandom)
    (rcrd : UpdateRecord) : List UInt8 :=
  aesEncrypt A e.aesKey rnd.iv (ticketData rnd.keyUpdate rcrd rnd.padding)

/-- `generate_ticket` over the OCALL `install_ticket`. -/
def generateTicket {σ : Type} (A : Aead AesKey ivLength tagLength)
    (installTicket : σ → List UInt8 → Option (σ × Int)) (w : σ) (e : Enclave)
    (rnd : TicketRandom) (pid : Pid) (metadata : Identifier) (operation : Operation) :
    Option (σ × Enclave × Bool) := do
  let (w, installRet) ← installTicket w (ticketMessage A e rnd ⟨pid, metadata, operation⟩)
  if installRet = 0 then some (w, e, false)
  else some (w, e.updateAesKey rnd.keyUpdate, true)

/-! ## Labels -/

/-- `_CITADEL_XATTR_ACCEPTED_SIGNAL`. -/
def acceptedSignal : Int := 359

/-- The record `_generate_xattr_ticket` sends. -/
def xattrRecord (internal taint declassify : Bool) (random : Identifier) : UpdateRecord where
  pid := 0
  operation := if declassify then opDeclassify else if taint then opRegister else opNop
  identifier := if internal && !declassify then fill _ 0xFF else random

/-- `_generate_xattr_ticket` over the OCALL `install_xattr`; `identifier`
is the caller's buffer, `none` when it passes NULL. -/
def generateXattrTicketCore {σ π : Type} (A : Aead AesKey ivLength tagLength)
    (installXattr : σ → π → List UInt8 → Option (σ × Int)) (w : σ) (e : Enclave)
    (rnd : TicketRandom) (random : Identifier) (path : π) (internal : Bool)
    (identifier : Option Identifier) (taint declassify : Bool) :
    Option (σ × Enclave × Option Identifier × Bool) := do
  let rcrd := xattrRecord internal taint declassify random
  let (w, installRet) ← installXattr w path (ticketMessage A e rnd rcrd)
  if installRet = acceptedSignal then
    some (w, e.updateAesKey rnd.keyUpdate,
      if declassify then identifier else identifier.map fun _ => rcrd.identifier, true)
  else some (w, e, identifier, false)

def generateXattrTicket {σ π : Type} (A : Aead AesKey ivLength tagLength)
    (installXattr : σ → π → List UInt8 → Option (σ × Int)) (w : σ) (e : Enclave)
    (rnd : TicketRandom) (random : Identifier) (path : π) (identifier : Option Identifier)
    (taint declassify : Bool) : Option (σ × Enclave × Option Identifier × Bool) :=
  generateXattrTicketCore A installXattr w e rnd random path false identifier taint declassify

def generateXattrTicketInternal {σ π : Type} (A : Aead AesKey ivLength tagLength)
    (installXattr : σ → π → List UInt8 → Option (σ × Int)) (w : σ) (e : Enclave)
    (rnd : TicketRandom) (random : Identifier) (path : π) :
    Option (σ × Enclave × Option Identifier × Bool) :=
  generateXattrTicketCore A installXattr w e rnd random path true none true false

end Enclave

end Citadel
