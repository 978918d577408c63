/-
Citadel.Daemon.Socket — a client's message, from the socket to the reply
(`citadeld/socket.cpp`).

`send_response` gives the message to the identifier cache and then to the
enclave, and sends it back with a token and a result written into it. One
thread does this, one client after the other. The pid is what the socket
reports of the client.
-/
import Citadel.Daemon.IdentifierCache
import Citadel.Enclave.UserspaceIo

namespace Citadel.Daemon

open Bytes Enclave

variable {σ : Type}

/-- The world the enclave's calls act on, the enclave and the cache. -/
structure DaemonState (σ : Type) where
  world : σ
  enclave : Enclave
  cache : IdentifierCache

/-- What one message takes from outside: the clock, the random bytes of the
enclave and the bytes on the stack where the token is to be written. -/
structure MessageEnv where
  cache : CacheEnv
  rand : Nat → TicketRandom × Identifier
  ptoken : Block ptokenLength

/-- Token and result at their places in the reply; as many bytes as came in
are sent. -/
def writeReply (message : List UInt8) (ptoken : Block ptokenLength) (result : Response) :
    List UInt8 :=
  (message.take 26 ++ (ptoken.1 ++ result :: message.drop opReplyFields)).take message.length

variable (A : Aead AesKey ivLength tagLength) (calls : HostCalls σ)
  (xattr : σ → List UInt8 → Option (List UInt8))

/-- `send_response` up to the sending: the new state and the reply. -/
def sendResponse (env : MessageEnv) (s : DaemonState σ) (pid : Pid) (message : List UInt8) :
    Option (DaemonState σ × List UInt8) := do
  let validSize := message.length = opRequestSize ∨ message.length = opExtendedRequestSize
  let ecallRet := if validSize then opError else opInvalid
  let (cache, message, cacheStage) ←
    if validSize then cachePassthrough env.cache (xattr s.world) s.cache message
    else some (s.cache, message, false)
  if cacheStage then do
    let (p, ptoken) ← handleRequest A calls env.rand s.world s.enclave message pid ptokenLength
    some (⟨p.world, p.enclave, cache⟩, writeReply message (ptoken.getD env.ptoken) p.result)
  else some ({ s with cache := cache }, writeReply message env.ptoken ecallRet)

end Citadel.Daemon
