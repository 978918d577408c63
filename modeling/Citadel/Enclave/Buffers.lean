/-
Citadel.Enclave.Buffers — the buffers around `enclave_core/crypto/aes.cpp`.

Four functions of the enclave call `aes_encrypt` or `aes_decrypt`. Each
passes a message, and in `*outlen` the size of the array the result goes
to, which neither function reads. Here a call is what the caller passes,
with lengths in `size_t`.

  `CryptoSite.call`    what each of the four passes;
  `processUpdates`     the one caller the other modules leave out;
  `run_eq_some_iff`    a call stays inside its message and the working
                       buffer exactly if the subtraction does not wrap and
                       the bytes fit;
  `buffers_respected_iff` which calls also stay inside the caller's array.
-/
import Mathlib.Algebra.Group.Nat.Defs
import Citadel.Enclave.UserspaceIo

namespace Citadel.Enclave

open Bytes

/-! ## A call of `aes.cpp` -/

inductive Direction where
  | encrypt
  | decrypt
  deriving DecidableEq

/-- What a caller passes: the message and the size of the array for the
result. -/
structure CryptoCall where
  direction : Direction
  msg : List UInt8
  outlen : Nat

namespace CryptoCall

/-- `len`. -/
def len (c : CryptoCall) : BitVec 64 := BitVec.ofNat 64 c.msg.length

/-- `encMessageLen` or `decMessageLen`: how many bytes are copied out. -/
def lenOut (c : CryptoCall) : BitVec 64 :=
  match c.direction with
  | .encrypt => BitVec.ofNat 64 (tagLength + ivLength) + c.len
  | .decrypt => c.len - BitVec.ofNat 64 (tagLength + ivLength)

/-- The bytes of `p_dst` that are used. Encryption puts the tag behind the
cipher text and the IV behind the tag; what decryption puts there is what
it copies out. -/
def placed (c : CryptoCall) : Nat :=
  match c.direction with
  | .encrypt => c.msg.length + (tagLength + ivLength)
  | .decrypt => c.lenOut.toNat

/-- No buffer is overrun. -/
structure WithinBuffers (c : CryptoCall) : Prop where
  noWrap : c.direction = .decrypt → c.lenOut.toNat + (tagLength + ivLength) = c.msg.length
  fits : c.placed ≤ Crypto.bufLen
  copied : c.lenOut.toNat ≤ c.outlen

/-- The call made: what it copies out, and how much. -/
def run (A : Aead AesKey ivLength tagLength) (key : AesKey) (iv : Block ivLength)
    (c : CryptoCall) : Option (List UInt8 × Nat) :=
  match c.direction with
  | .encrypt => Crypto.aesEncrypt A key iv c.msg
  | .decrypt => Crypto.aesDecrypt A key c.msg

end CryptoCall

/-! ## The callers -/

/-- `char data[sizeof(citadel_update_header_t) + sizeof(citadel_update_record_t)]`. -/
def ticketDataSize : Nat := updateHeaderSize + updateRecordSize

theorem ticketData_length (keyUpdate : AesKey) (rcrd : UpdateRecord) (padding : Block 2) :
    (ticketData keyUpdate rcrd padding).length = ticketDataSize := by
  rw [ticketData, List.length_append, UpdateHeader.encode_length, UpdateRecord.encode_length]
  rfl

/-- The call both generators make. Their array has room for a tag. -/
def ticketEncryption (keyUpdate : AesKey) (rcrd : UpdateRecord) (padding : Block 2) : CryptoCall :=
  ⟨.encrypt, ticketData keyUpdate rcrd padding, ticketDataSize + 16⟩

/-- A place in the enclave that calls `aes.cpp`, with what it works on. The
ECALL of `process_updates` passes any length. -/
inductive CryptoSite where
  | generateTicket (keyUpdate : AesKey) (pid : Pid) (metadata : Identifier)
      (operation : Operation) (padding : Block 2)
  | generateXattrTicket (keyUpdate : AesKey) (internal taint declassify : Bool)
      (random : Identifier) (padding : Block 2)
  | handleRequest (request : OpRequest)
  | processUpdates (updateLength : BitVec 64) (updateData : Block updateLength.toNat)

/-- What the caller passes. -/
def CryptoSite.call : CryptoSite → CryptoCall
  | .generateTicket keyUpdate pid metadata operation padding =>
    ticketEncryption keyUpdate ⟨pid, metadata, operation⟩ padding
  | .generateXattrTicket keyUpdate internal taint declassify random padding =>
    ticketEncryption keyUpdate (xattrRecord internal taint declassify random) padding
  | .handleRequest request =>
    ⟨.decrypt, request.signedPtoken.1, ptokenProtectedSize + ivLength + tagLength⟩
  | .processUpdates updateLength updateData => ⟨.decrypt, updateData.1, updateLength.toNat⟩

/-- What the generators send is what this call copies out. -/
theorem ticketEncryption_run (A : Aead AesKey ivLength tagLength) (e : Enclave) (rnd : TicketRandom)
    (rcrd : UpdateRecord) :
    ((ticketEncryption rnd.keyUpdate rcrd rnd.padding).run A e.aesKey rnd.iv).map Prod.fst =
      some (ticketMessage A e rnd rcrd) := by
  rw [CryptoCall.run, ticketEncryption, Crypto.aesEncrypt_eq]
  · rfl
  · rw [ticketData_length]
    decide

/-- `process_updates`; `plain` is the array on its stack before the
decryption. It takes no record out of the update. -/
def processUpdates (A : Aead AesKey ivLength tagLength) (e : Enclave) (updateLength : BitVec 64)
    (updateData plain : Block updateLength.toNat) : Option Int := do
  let (out, _) ← Crypto.aesDecrypt A e.aesKey updateData.1
  let plain ← write plain.1 0 out
  let signature ← read plain 0 signatureLength
  if signature ≠ challengeSignature then some (-1) else some 0

/-! ## Inside the working buffer -/

section

variable (A : Aead AesKey ivLength tagLength) (key : AesKey)

/-- The last read of `encryptMessage` is of all it has written. -/
theorem aesEncrypt_none (iv : Block ivLength) {msg : List UInt8}
    (h : Crypto.bufLen < msg.length + (tagLength + ivLength)) :
    Crypto.aesEncrypt A key iv msg = none := by
  have hwrite : write (List.replicate Crypto.bufLen 0) (msg.length + tagLength) iv.1 = none := by
    rw [write, if_neg]
    rw [List.length_replicate, iv.2]
    omega
  simp only [Crypto.aesEncrypt, Crypto.encryptMessage, hwrite, Option.bind_eq_bind,
    Option.bind_none]

/-- A message with tag and IV decrypts into the working buffer, or not at
all. -/
theorem aesDecrypt_of_fits {msg : List UInt8} (hlong : tagLength + ivLength ≤ msg.length)
    (hfits : msg.length ≤ tagLength + ivLength + Crypto.bufLen) :
    ∃ out, Crypto.aesDecrypt A key msg = some (out, msg.length - (tagLength + ivLength)) ∧
      out.length = msg.length - (tagLength + ivLength) := by
  have hiv : (msg.drop (msg.length - ivLength)).length = ivLength := by
    rw [List.length_drop]
    omega
  have hc : (msg.take (msg.length - ivLength)).length = msg.length - ivLength := by
    rw [List.length_take]
    omega
  have hcut : (msg.length - ivLength) - tagLength = msg.length - (tagLength + ivLength) := by
    omega
  have heq := Crypto.aesDecrypt_eq A key (msg.take (msg.length - ivLength)) ⟨_, hiv⟩
    (by rw [hc]; omega) (by rw [hc]; omega)
  rw [List.take_append_drop, hc, hcut] at heq
  refine ⟨_, heq, ?_⟩
  cases hdec : A.decrypt key ⟨_, hiv⟩ (msg.take (msg.length - ivLength)) with
  | none => simp
  | some m =>
    have hm := congrArg List.length (A.encrypt_of_decrypt key _ _ m hdec)
    rw [A.encrypt_length, hc] at hm
    simp only [Option.getD_some]
    omega

/-- More than the working buffer holds cannot be copied out of it. -/
theorem decryptMessage_none {msg : List UInt8} {lenOut : Nat} (h : Crypto.bufLen < lenOut) :
    Crypto.decryptMessage A key msg lenOut = none := by
  have hread : ∀ pDst : List UInt8, pDst.length = Crypto.bufLen → read pDst 0 lenOut = none :=
    fun pDst hlen => read_none (by omega)
  rw [Option.eq_none_iff_forall_ne_some]
  intro out hout
  simp only [Crypto.decryptMessage, Option.bind_eq_bind, Option.bind_eq_some_iff] at hout
  obtain ⟨src, -, iv, -, tag, -, hout⟩ := hout
  cases hdec : A.decrypt key iv (src.1 ++ tag.1) with
  | none =>
    simp only [hdec, Option.bind_some, hread _ List.length_replicate, Option.map_none,
      reduceCtorEq] at hout
  | some m =>
    simp only [hdec, Option.bind_eq_some_iff] at hout
    obtain ⟨pDst, hwrite, hout⟩ := hout
    have hbuf : pDst.length = Crypto.bufLen := by
      rw [write_length hwrite, List.length_replicate]
    simp only [hread pDst hbuf, Option.map_none, reduceCtorEq] at hout

theorem aesDecrypt_none {msg : List UInt8}
    (h : ¬ (tagLength + ivLength ≤ msg.length ∧
      msg.length ≤ tagLength + ivLength + Crypto.bufLen)) :
    Crypto.aesDecrypt A key msg = none := by
  by_cases hshort : msg.length < tagLength + ivLength
  · rw [Crypto.aesDecrypt, if_pos hshort]
  · have hlong : Crypto.bufLen < msg.length - (tagLength + ivLength) := by omega
    rw [Crypto.aesDecrypt, if_neg hshort]
    simp only [decryptMessage_none A key hlong, Option.bind_eq_bind, Option.bind_none]

end

/-! ## Calls that come back -/

/-- Unsigned subtraction of tag and IV, from a length that has them and
from one that has not. -/
theorem sub_overhead_toNat {n : Nat} (h : n < 2 ^ 64) :
    (BitVec.ofNat 64 n - BitVec.ofNat 64 (tagLength + ivLength)).toNat =
      if tagLength + ivLength ≤ n then n - (tagLength + ivLength)
      else 2 ^ 64 + n - (tagLength + ivLength) := by
  have hover : tagLength + ivLength = 28 := rfl
  rw [hover, BitVec.toNat_sub, BitVec.toNat_ofNat, BitVec.toNat_ofNat, Nat.mod_eq_of_lt h]
  split <;> omega

/-- The call comes back exactly if the subtraction does not wrap and the
bytes fit the working buffer. -/
theorem run_eq_some_iff (A : Aead AesKey ivLength tagLength) (key : AesKey)
    (iv : Block ivLength) {c : CryptoCall} (hlen : c.msg.length < 2 ^ 64) :
    (∃ out, c.run A key iv = some (out, c.lenOut.toNat)) ↔
      (c.direction = .decrypt → c.lenOut.toNat + (tagLength + ivLength) = c.msg.length) ∧
        c.placed ≤ Crypto.bufLen := by
  obtain ⟨direction, msg, outlen⟩ := c
  have hover : tagLength + ivLength = 28 := rfl
  have hbuf : Crypto.bufLen = 2048 := rfl
  cases direction with
  | encrypt =>
    have hadd : (BitVec.ofNat 64 (tagLength + ivLength) + BitVec.ofNat 64 msg.length).toNat =
        (tagLength + ivLength + msg.length) % 2 ^ 64 := by simp [BitVec.toNat_add]
    simp only [CryptoCall.run, CryptoCall.lenOut, CryptoCall.len, CryptoCall.placed, hadd,
      reduceCtorEq, false_implies, true_and]
    by_cases hfits : msg.length + (tagLength + ivLength) ≤ Crypto.bufLen
    · have hsmall : tagLength + ivLength + msg.length < 2 ^ 64 := by omega
      rw [Nat.mod_eq_of_lt hsmall, Crypto.aesEncrypt_eq A key iv hfits]
      exact ⟨fun _ => hfits, fun _ => ⟨_, rfl⟩⟩
    · rw [aesEncrypt_none A key iv (Nat.lt_of_not_le hfits)]
      simp [hfits]
  | decrypt =>
    simp only [CryptoCall.run, CryptoCall.lenOut, CryptoCall.len, CryptoCall.placed,
      sub_overhead_toNat hlen, forall_const]
    by_cases hsized : tagLength + ivLength ≤ msg.length ∧
        msg.length ≤ tagLength + ivLength + Crypto.bufLen
    · obtain ⟨out, hout, -⟩ := aesDecrypt_of_fits A key hsized.1 hsized.2
      rw [if_pos hsized.1, hout]
      exact ⟨fun _ => ⟨by omega, by omega⟩, fun _ => ⟨out, rfl⟩⟩
    · rw [aesDecrypt_none A key hsized]
      constructor
      · rintro ⟨out, hout⟩
        cases hout
      · intro hfits
        split at hfits <;> omega

/-- `process_updates` comes back exactly if the update is long enough for
tag and IV and what is left fits the working buffer. -/
theorem processUpdates_isSome_iff (A : Aead AesKey ivLength tagLength) (e : Enclave)
    (updateLength : BitVec 64) (updateData plain : Block updateLength.toNat) :
    (processUpdates A e updateLength updateData plain).isSome ↔
      tagLength + ivLength ≤ updateLength.toNat ∧
        updateLength.toNat ≤ tagLength + ivLength + Crypto.bufLen := by
  have hover : tagLength + ivLength = 28 := rfl
  have hsig : signatureLength = 8 := rfl
  constructor
  · intro hsome
    by_contra hsized
    rw [← updateData.2] at hsized
    simp only [processUpdates, aesDecrypt_none A e.aesKey hsized, Option.bind_eq_bind,
      Option.bind_none, Option.isSome_none, Bool.false_eq_true] at hsome
  · intro hsized
    rw [← updateData.2] at hsized
    obtain ⟨out, hout, hlen⟩ := aesDecrypt_of_fits A e.aesKey hsized.1 hsized.2
    have hwrite : write plain.1 0 out = some ([] ++ (out ++ plain.1.drop (0 + out.length))) := by
      rw [write, if_pos]
      · rfl
      · rw [plain.2, hlen, updateData.2]
        omega
    -- the signature may lie behind what was decrypted, never behind the array
    obtain ⟨signature, hread⟩ := read_isSome
      (show 0 + signatureLength ≤ ([] ++ (out ++ plain.1.drop (0 + out.length))).length by
        rw [write_length hwrite, plain.2, ← updateData.2]
        omega)
    simp only [processUpdates, hout, hwrite, hread, Option.bind_eq_bind, Option.bind_some]
    split <;> rfl

/-! ## Inside the caller's array -/

/-- The calls that overrun nothing: that of `handle_request`, and that of
`process_updates` if the update is long enough and not too long. -/
def CryptoSite.WellSized : CryptoSite → Prop
  | .generateTicket .. => False
  | .generateXattrTicket .. => False
  | .handleRequest _ => True
  | .processUpdates updateLength _ => tagLength + ivLength ≤ updateLength.toNat ∧
      updateLength.toNat ≤ tagLength + ivLength + Crypto.bufLen

/-- A ticket is copied out with its IV, into an array with no room for it. -/
theorem ticketEncryption_not_withinBuffers (keyUpdate : AesKey) (rcrd : UpdateRecord)
    (padding : Block 2) : ¬ (ticketEncryption keyUpdate rcrd padding).WithinBuffers := by
  intro h
  have hcopied := h.copied
  simp only [ticketEncryption, CryptoCall.lenOut, CryptoCall.len, ticketData_length] at hcopied
  exact absurd hcopied (by decide)

theorem decrypt_withinBuffers_iff {msg : List UInt8} (hlen : msg.length < 2 ^ 64) :
    (⟨.decrypt, msg, msg.length⟩ : CryptoCall).WithinBuffers ↔
      tagLength + ivLength ≤ msg.length ∧
        msg.length ≤ tagLength + ivLength + Crypto.bufLen := by
  have hover : tagLength + ivLength = 28 := rfl
  have hbuf : Crypto.bufLen = 2048 := rfl
  generalize hc : (⟨.decrypt, msg, msg.length⟩ : CryptoCall) = c
  have hout : c.lenOut.toNat = if tagLength + ivLength ≤ msg.length then
      msg.length - (tagLength + ivLength)
      else 2 ^ 64 + msg.length - (tagLength + ivLength) := by
    rw [← hc]
    exact sub_overhead_toNat hlen
  have hmsg : c.msg.length = msg.length := by rw [← hc]
  have hplaced : c.placed = c.lenOut.toNat := by rw [← hc]; rfl
  have houtlen : c.outlen = msg.length := by rw [← hc]
  constructor
  · intro h
    have hwrap := h.noWrap (by rw [← hc])
    have hfits := h.fits
    omega
  · intro h
    rw [if_pos h.1] at hout
    exact ⟨fun _ => by omega, by omega, by omega⟩

theorem processUpdates_withinBuffers_iff (updateLength : BitVec 64)
    (updateData : Block updateLength.toNat) :
    (CryptoSite.processUpdates updateLength updateData).call.WithinBuffers ↔
      tagLength + ivLength ≤ updateLength.toNat ∧
        updateLength.toNat ≤ tagLength + ivLength + Crypto.bufLen := by
  have h := decrypt_withinBuffers_iff
    (show updateData.1.length < 2 ^ 64 by rw [updateData.2]; exact updateLength.isLt)
  rwa [updateData.2] at h

theorem buffers_respected_iff (site : CryptoSite) :
    site.call.WithinBuffers ↔ site.WellSized := by
  cases site with
  | generateTicket keyUpdate pid metadata operation padding =>
    exact iff_of_false (ticketEncryption_not_withinBuffers _ _ _) id
  | generateXattrTicket keyUpdate internal taint declassify random padding =>
    exact iff_of_false (ticketEncryption_not_withinBuffers _ _ _) id
  | handleRequest request =>
    refine iff_of_true ?_ trivial
    have hlen : request.signedPtoken.1.length = 64 := request.signedPtoken.2
    have h := (decrypt_withinBuffers_iff (show request.signedPtoken.1.length < 2 ^ 64 by omega)).2
      (by rw [hlen]; decide)
    rwa [hlen] at h
  | processUpdates updateLength updateData =>
    exact processUpdates_withinBuffers_iff updateLength updateData

/-- A ticket; an update shorter than tag and IV; one a byte longer than the
working buffer allows. -/
theorem buffers_overrun :
    ¬ (CryptoSite.generateTicket (zeros _) 1 (zeros _) opOpen (zeros _)).call.WithinBuffers ∧
    ¬ (CryptoSite.processUpdates 27 (zeros _)).call.WithinBuffers ∧
    ¬ (CryptoSite.processUpdates 2077 (zeros _)).call.WithinBuffers := by
  refine ⟨ticketEncryption_not_withinBuffers _ _ _, ?_, ?_⟩
  · rw [processUpdates_withinBuffers_iff]
    decide
  · rw [processUpdates_withinBuffers_iff]
    decide

end Citadel.Enclave
