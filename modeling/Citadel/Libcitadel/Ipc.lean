/-
Citadel.Libcitadel.Ipc — the client library's conversation with the daemon
(`libcitadel/src/ipc.c`), and what an approval is worth.

A transaction opens a socket, sends the request, waits for bytes and reads
the reply from a buffer. The code departs from that plan in two places:

* the buffer is `static` and ONE read fills it, whatever its length; what
  the read does not overwrite is the reply of an earlier transaction;
* a reply is refused when its process token AND its signature are wrong,
  so one of the two is enough.

So an approval need not come from the bytes received
(`approved_authentic_iff`): exactly the transactions that `deceives`
describes are approved without an authentic reply of their own. A reply
that arrives whole, with token and signature both right or both wrong,
never deceives, whatever the buffer held before (`whole_not_deceiving`).

The kernel's answers to `write`, `read` and the question for the peer's
credentials are arguments. `none` is a fault, which does not occur
(`ipcTransaction_verdict`).
-/
import Citadel.Lib.Run
import Citadel.Shared

namespace Citadel.Libcitadel

open Bytes

/-! ## Sending -/

/-- `ipc_timeout`. -/
def ipcTimeout : Nat := 100 * 1000

/-- `ipc_send`, and what it puts on the wire. Each `write` answers the
number of bytes it took, `none` for -1, and each starts at the front of the
data again. Where the list ends, the remaining attempts fail. -/
def ipcSend (data : List UInt8) (sent attempts : Nat) : List (Option Nat) → Bool × List UInt8
  | [] => (false, [])
  | rv :: rest =>
    let sent := sent + rv.getD 0
    let wire := data.take (rv.getD 0)
    if sent < data.length then
      if attempts + 1 ≥ ipcTimeout then (false, wire)
      else
        let more := ipcSend data sent (attempts + 1) rest
        (more.1, wire ++ more.2)
    else (sent == data.length, wire)

/-! ## Receiving -/

/-- The `static` buffer. -/
abbrev IpcBuffer := Block opExtendedRequestSize

/-- What one `read` of a whole buffer can bring. -/
abbrev Delivery := { l : List UInt8 // l.length ≤ opExtendedRequestSize }

/-- The answer of a `read` on the non-blocking socket: nothing yet, bytes
(none at the end of the stream), or an error. -/
inductive ReadResult where
  | again
  | data (bytes : Delivery)
  | error

/-- The buffer after a read into it. -/
def IpcBuffer.fill (buffer : IpcBuffer) (bytes : Delivery) : IpcBuffer :=
  ⟨bytes.1 ++ buffer.1.drop bytes.1.length, by
    have hfits := bytes.2
    rw [List.length_append, List.length_drop, buffer.2]
    omega⟩

/-- `ipc_recv`. -/
def ipcRecv (buffer : IpcBuffer) (attempts : Nat) : List ReadResult → IpcBuffer × Bool
  | [] => (buffer, false)
  | .again :: rest =>
    if attempts + 1 ≥ ipcTimeout then (buffer, false) else ipcRecv buffer (attempts + 1) rest
  | .data bytes :: _ => if bytes.1 = [] then (buffer, false) else (buffer.fill bytes, true)
  | .error :: _ => (buffer, false)

/-- The bytes `ipc_recv` receives. -/
def received (attempts : Nat) : List ReadResult → Option Delivery
  | [] => none
  | .again :: rest =>
    if attempts + 1 ≥ ipcTimeout then none else received (attempts + 1) rest
  | .data bytes :: _ => if bytes.1 = [] then none else some bytes
  | .error :: _ => none

theorem ipcRecv_none {buffer : IpcBuffer} {attempts : Nat} {reads : List ReadResult}
    (h : received attempts reads = none) : ipcRecv buffer attempts reads = (buffer, false) := by
  induction reads generalizing attempts with
  | nil => rfl
  | cons r rest ih =>
    cases r with
    | again =>
      simp only [received, ipcRecv] at h ⊢
      split at h
      · rename_i hout
        rw [if_pos hout]
      · rename_i hin
        rw [if_neg hin]
        exact ih h
    | data bytes =>
      simp only [received, ipcRecv] at h ⊢
      split at h
      · rename_i hend
        rw [if_pos hend]
      · cases h
    | error => rfl

theorem ipcRecv_some {buffer : IpcBuffer} {attempts : Nat} {reads : List ReadResult}
    {bytes : Delivery} (h : received attempts reads = some bytes) :
    ipcRecv buffer attempts reads = (buffer.fill bytes, true) := by
  induction reads generalizing attempts with
  | nil => cases h
  | cons r rest ih =>
    cases r with
    | again =>
      simp only [received, ipcRecv] at h ⊢
      split at h
      · cases h
      · rename_i hin
        rw [if_neg hin]
        exact ih h
    | data bytes' =>
      simp only [received, ipcRecv] at h ⊢
      split at h
      · cases h
      · rename_i hsome
        cases h
        rw [if_neg hsome]
    | error => cases h

/-! ## Transactions -/

/-- What `init.c` knows of the process. -/
structure Client where
  citadelPid : Pid
  ptoken : Block ptokenLength

/-- A call of `ipc_transaction`: the request, and what happens meanwhile. -/
structure Transaction where
  request : List UInt8
  socket : Bool
  writes : List (Option Nat)
  reads : List ReadResult
  peerPid : Pid

/-- `ipc_transaction`. -/
def ipcTransaction (c : Client) (buffer : IpcBuffer) (t : Transaction) :
    Option (IpcBuffer × Bool) :=
  if !t.socket then some (buffer, false)
  else if t.request.length ≠ opRequestSize ∧ t.request.length ≠ opExtendedRequestSize then
    some (buffer, false)
  else if !(ipcSend t.request 0 0 t.writes).1 then some (buffer, false)
  else
    let (buffer, ok) := ipcRecv buffer 0 t.reads
    if !ok then some (buffer, false)
    else if t.peerPid ≠ c.citadelPid then some (buffer, false)
    else do
      -- a reply and an extended reply begin with the same fields
      let reply ← OpReply.read buffer.1
      if reply.ptoken ≠ c.ptoken ∧ reply.signature ≠ challengeSignature then
        some (buffer, false)
      else some (buffer, reply.result == opApproved)

/-- One transaction after the other, in one process. -/
def ipcTransactions (c : Client) (buffer : IpcBuffer) (ts : List Transaction) :
    Option IpcBuffer :=
  ts.foldlM (fun buffer t => (ipcTransaction c buffer t).map Prod.fst) buffer

/-- The request goes out and the peer is Citadel: the bytes received will
be looked at. -/
def Transaction.reaches (c : Client) (t : Transaction) : Bool :=
  t.socket &&
    (decide (t.request.length = opRequestSize ∨ t.request.length = opExtendedRequestSize) &&
      ((ipcSend t.request 0 0 t.writes).1 && t.peerPid == c.citadelPid))

/-- The check of `ipc_transaction`. -/
def passes (c : Client) (r : OpReply) : Bool :=
  r.ptoken == c.ptoken || r.signature == challengeSignature

theorem fill_reply (buffer : IpcBuffer) (bytes : Delivery) :
    ∃ reply, OpReply.read (buffer.fill bytes).1 = some reply :=
  OpReply.read_isSome (by rw [(buffer.fill bytes).2]; decide)

/-- A transaction returns, and this is its verdict. -/
theorem ipcTransaction_verdict (c : Client) (buffer : IpcBuffer) (t : Transaction) :
    (ipcTransaction c buffer t).map Prod.snd =
      some (t.reaches c && (received 0 t.reads).any fun bytes =>
        (OpReply.read (buffer.fill bytes).1).any fun reply =>
          passes c reply && reply.result == opApproved) := by
  unfold ipcTransaction Transaction.reaches
  by_cases hsocket : t.socket = true
  · by_cases hsize : t.request.length = opRequestSize ∨ t.request.length = opExtendedRequestSize
    · have hsize' : ¬ (t.request.length ≠ opRequestSize ∧
          t.request.length ≠ opExtendedRequestSize) := by omega
      by_cases hsent : (ipcSend t.request 0 0 t.writes).1 = true
      · cases hrecv : received 0 t.reads with
        | none => simp [hsocket, hsize', hsent, ipcRecv_none hrecv]
        | some bytes =>
          obtain ⟨reply, hreply⟩ := fill_reply buffer bytes
          by_cases hpeer : t.peerPid = c.citadelPid
          · by_cases hcheck : reply.ptoken ≠ c.ptoken ∧ reply.signature ≠ challengeSignature
            · have hpasses : passes c reply = false := by
                simp only [passes, Bool.or_eq_false_iff, beq_eq_false_iff_ne]
                exact hcheck
              simp [hsocket, hsize, hsize', hsent, ipcRecv_some hrecv, hpeer, hreply, hcheck,
                hpasses]
            · have hpasses : passes c reply = true := by
                simp only [passes, Bool.or_eq_true, beq_iff_eq]
                by_contra hnone
                exact hcheck (not_or.mp hnone)
              simp [hsocket, hsize, hsize', hsent, ipcRecv_some hrecv, hpeer, hreply, hcheck,
                hpasses]
          · simp [hsocket, hsize', hsent, ipcRecv_some hrecv, hpeer]
      · simp [hsocket, hsize', hsent]
    · have hsize' : t.request.length ≠ opRequestSize ∧
          t.request.length ≠ opExtendedRequestSize := by omega
      simp [hsocket, hsize']
  · simp [hsocket]

/-! ## Authentic replies -/

/-- The bytes received are a complete reply, signed, for this process, and
an approval. -/
def Transaction.authentic (c : Client) (t : Transaction) : Bool :=
  (received 0 t.reads).any fun bytes =>
    bytes.1.length == t.request.length &&
      (OpReply.read bytes.1).any fun reply =>
        reply.signature == challengeSignature && reply.ptoken == c.ptoken &&
          reply.result == opApproved

/-- The bytes received and what they leave of the buffer read as an
approval, in which one of signature and token is wrong and the other right,
or both are right and the bytes received are not the whole reply. -/
def Transaction.deceives (c : Client) (buffer : IpcBuffer) (t : Transaction) : Bool :=
  t.reaches c && (received 0 t.reads).any fun bytes =>
    (OpReply.read (buffer.fill bytes).1).any fun reply =>
      reply.result == opApproved &&
        if reply.signature == challengeSignature && reply.ptoken == c.ptoken then
          bytes.1.length != t.request.length
        else reply.signature == challengeSignature || reply.ptoken == c.ptoken

/-- Every approval of a run of transactions rests on an authentic reply
received in the same transaction. -/
def OnlyAuthentic (c : Client) (buffer : IpcBuffer) (ts : List Transaction) : Prop :=
  ∀ pre t post buffer' buffer'', ts = pre ++ t :: post →
    ipcTransactions c buffer pre = some buffer' →
    ipcTransaction c buffer' t = some (buffer'', true) → t.authentic c = true

/-- A reply that fills the bytes received is read from them alone. -/
theorem fill_read (buffer : IpcBuffer) {bytes : Delivery} (h : opReplyFields ≤ bytes.1.length) :
    OpReply.read (buffer.fill bytes).1 = OpReply.read bytes.1 :=
  OpReply.read_within _ _ h

theorem Transaction.reaches_size {c : Client} {t : Transaction} (h : t.reaches c = true) :
    opReplyFields ≤ t.request.length := by
  simp only [Transaction.reaches, Bool.and_eq_true, decide_eq_true_eq] at h
  rcases h.2.1 with h | h
  · rw [h]
    decide
  · rw [h]
    decide

/-- The transactions that are approved without an authentic reply of their
own. -/
theorem Transaction.deceives_eq (c : Client) (buffer : IpcBuffer) (t : Transaction) :
    (ipcTransaction c buffer t).map (fun out => out.2 && !t.authentic c) =
      some (t.deceives c buffer) := by
  have hverdict := ipcTransaction_verdict c buffer t
  obtain ⟨⟨buffer', ok⟩, hout, hok⟩ := Option.map_eq_some_iff.mp hverdict
  rw [hout, Option.map_some, Option.some.injEq]
  change ok = _ at hok
  subst hok
  unfold Transaction.deceives Transaction.authentic
  cases hreach : t.reaches c with
  | false => simp
  | true =>
    cases hrecv : received 0 t.reads with
    | none => simp
    | some bytes =>
      obtain ⟨reply, hreply⟩ := fill_reply buffer bytes
      simp only [Option.any_some, hreply, passes, Bool.true_and]
      by_cases hlen : bytes.1.length = t.request.length
      · have hown : OpReply.read bytes.1 = some reply := by
          rw [← fill_read buffer (hlen ▸ Transaction.reaches_size hreach), hreply]
        simp only [hown, hlen, Option.any_some, BEq.rfl, Bool.true_and, bne_self_eq_false]
        cases reply.signature == challengeSignature <;> cases reply.ptoken == c.ptoken <;>
          cases reply.result == opApproved <;> rfl
      · have hother : (bytes.1.length == t.request.length) = false := by simpa using hlen
        simp only [hother, bne, Bool.false_and, Bool.not_false]
        cases reply.signature == challengeSignature <;> cases reply.ptoken == c.ptoken <;>
          cases reply.result == opApproved <;> rfl

/-- A whole reply with signature and token both right or both wrong does
not deceive, whatever is in the buffer. -/
theorem whole_not_deceiving (c : Client) (buffer : IpcBuffer) {t : Transaction}
    {bytes : Delivery} {reply : OpReply} (hrecv : received 0 t.reads = some bytes)
    (hwhole : bytes.1.length = t.request.length) (hreply : OpReply.read bytes.1 = some reply)
    (hboth : (reply.signature == challengeSignature) = (reply.ptoken == c.ptoken)) :
    t.deceives c buffer = false := by
  unfold Transaction.deceives
  cases hreach : t.reaches c with
  | false => rfl
  | true =>
    have hfill : OpReply.read (buffer.fill bytes).1 = some reply := by
      rw [fill_read buffer (hwhole ▸ Transaction.reaches_size hreach), hreply]
    simp only [hrecv, Option.any_some, hfill, hboth, hwhole, Bool.true_and, bne_self_eq_false]
    cases reply.ptoken == c.ptoken <;> simp

/-- **Every approval of a run of transactions rests on an authentic reply
of its own if and only if no transaction deceives**, given what the
transactions before it left in the buffer. -/
theorem approved_authentic_iff (c : Client) (buffer : IpcBuffer) (ts : List Transaction) :
    OnlyAuthentic c buffer ts ↔
      Run.Along (fun buffer t => (ipcTransaction c buffer t).map Prod.fst)
        (fun buffer t => t.deceives c buffer = false) buffer ts := by
  rw [Run.Along.iff_cut]
  constructor
  · intro h pre t post s hts hpre
    have heq := t.deceives_eq c s
    obtain ⟨⟨s', ok⟩, hout, hdec⟩ := Option.map_eq_some_iff.mp heq
    rw [← hdec]
    cases ok with
    | false => rfl
    | true =>
      rw [h pre t post s s' hts hpre hout]
      rfl
  · intro h pre t post s s' hts hpre hout
    have heq := t.deceives_eq c s
    rw [hout, h pre t post s hts hpre] at heq
    simpa using heq

/-! ## A stale reply and half a check -/

/-- A process with token 7 7 … 7 under a Citadel with pid 5. -/
def sevensClient : Client := ⟨5, fill _ 7⟩

/-- A plain reply with the given signature, token and result. -/
def plainReply (signature : Block signatureLength) (ptoken : Block ptokenLength)
    (result : Response) : Delivery :=
  ⟨signature.1 ++ (List.replicate 18 0 ++ (ptoken.1 ++ (result :: List.replicate 55 0))), by
    simp [signature.2, ptoken.2, signatureLength, ptokenLength, opExtendedRequestSize]⟩

/-- A plain request that Citadel answers with one read. -/
def answeredWith (bytes : Delivery) : Transaction :=
  ⟨List.replicate opRequestSize 0, true, [some opRequestSize], [.again, .data bytes], 5⟩

/-- An authentic reply is approved; in the next transaction one byte
arrives and the old reply is approved again. And a reply to another process
is approved because its signature is right. -/
theorem stale_and_foreign_approved :
    let honest := answeredWith (plainReply challengeSignature (fill _ 7) opApproved)
    let short := answeredWith ⟨[0x80], by decide⟩
    let foreign := answeredWith (plainReply challengeSignature (fill _ 8) opApproved)
    (ipcTransaction sevensClient (zeros _) honest).map Prod.snd = some true ∧
      ((ipcTransactions sevensClient (zeros _) [honest]).bind fun buffer =>
        (ipcTransaction sevensClient buffer short).map Prod.snd) = some true ∧
      (ipcTransaction sevensClient (zeros _) foreign).map Prod.snd = some true ∧
      [honest, short, foreign].map (Transaction.authentic sevensClient) = [true, false, false] := by
  decide +kernel

end Citadel.Libcitadel
