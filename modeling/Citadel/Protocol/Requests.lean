/-
Citadel.Protocol.Requests — who a request comes from.

The enclave trusts the process token in a request: a ciphertext, under the
key of the registration, of the pid it was made for. `aes_decrypt` reports
success whatever it is given, so what keeps a forger out is the signature
constant INSIDE the token: a ciphertext that does not authenticate leaves
zeros, and zeros have no signature.

The key of the registration is also the first session key, so tickets,
labels and updates may be sealed under it too. They are longer than a
token, and the token field of a request has the length of one.

That nobody without the key seals anything is the assumption (`Unforged`):
what authenticates under the key was made by one of the producers. Then a
request is served only if its token was made for the pid that asks
(`requests_not_forged`); nothing else reaches the policy, changes a key or
is answered with a token. A genuine request is served
(`genuine_request_served`).
-/
import Citadel.Enclave.UserspaceIo
import Citadel.Protocol.Channels

namespace Citadel

open Bytes Enclave

variable {A : Gcm}

/-! ## What is sealed -/

/-- A ciphertext under a session key, by the call that made it:
`generate_ptoken`, `generate_update`, or one of the enclave's generators. -/
inductive Sealed where
  | ptoken (s : Lsm) (cur : Task) (iv : Block ivLength) (random : Block ptokenLength)
  | update (s : Lsm) (iv : Block ivLength)
  | ticket (e : Enclave) (rnd : TicketRandom) (rcrd : UpdateRecord)

def Sealed.key : Sealed → AesKey
  | .ptoken s _ _ _ => s.ptokenAesKey
  | .update s _ => s.aesKey
  | .ticket e _ _ => e.aesKey

/-- The bytes, if the call made any. -/
def Sealed.message (A : Gcm) : Sealed → Option (List UInt8)
  | .ptoken s cur iv random => (generatePtoken A s cur iv random).map (·.signedPtoken)
  | .update s iv => generateUpdate A s iv
  | .ticket e rnd rcrd => some (ticketMessage A e rnd rcrd)

/-- The bytes authenticate under `key` only if they were sealed under it. -/
def Unforged (A : Gcm) (key : AesKey) (made : List Sealed) (data : List UInt8) : Prop :=
  authenticates A key data = true → ∃ x ∈ made, x.key = key ∧ x.message A = some data

/-- The message is a request with the token of a task of this pid. -/
structure Genuine (A : Gcm) (key : AesKey) (made : List Sealed) (data : List UInt8) (pid : Pid)
    (request : OpRequest) (extension : Option OpExtension) (token : Ptoken) : Prop where
  reads : readRequest data = some (request, extension)
  signature : request.signature = challengeSignature
  sealed : ∃ s cur iv random, Sealed.ptoken s cur iv random ∈ made ∧ s.ptokenAesKey = key ∧
    cur.pid = pid ∧ generatePtoken A s cur iv random = some token
  field : request.signedPtoken.1 = token.signedPtoken

/-! ## The token field -/

theorem generatePtoken_eq {s : Lsm} {cur : Task} {iv : Block ivLength}
    {random : Block ptokenLength} {p : Ptoken} (h : generatePtoken A s cur iv random = some p) :
    p.ptoken = random ∧ p.signedPtoken = trmAesEncrypt A s.ptokenAesKey iv
      (⟨challengeSignature, cur.pid, random, p.processIdentifier⟩ : PtokenProtected).encode := by
  unfold generatePtoken at h
  split at h
  · cases h
    exact ⟨rfl, rfl⟩
  · cases h

/-- Only process tokens have the length of the field. -/
theorem Sealed.ptoken_of_length {x : Sealed} {data : List UInt8} (h : x.message A = some data)
    (hlen : data.length = signedPtokenLength) :
    ∃ s cur iv random p, x = .ptoken s cur iv random ∧
      generatePtoken A s cur iv random = some p ∧ p.signedPtoken = data := by
  cases x with
  | ptoken s cur iv random =>
    obtain ⟨p, hp, hdata⟩ := Option.map_eq_some_iff.mp h
    exact ⟨s, cur, iv, random, p, rfl, hp, hdata⟩
  | update s iv =>
    have hsample : sampleUpdate.length = 145 := rfl
    simp only [Sealed.message, generateUpdate] at h
    split at h
    · cases h
      rw [trmAesEncrypt_length, hsample] at hlen
      cases hlen
    · cases h
  | ticket e rnd rcrd =>
    cases h
    rw [ticketMessage, aesEncrypt_eq_trmAesEncrypt, trmAesEncrypt_length, ticketData,
      List.length_append, UpdateHeader.encode_length, UpdateRecord.encode_length] at hlen
    cases hlen

/-- The enclave's decryption of the field: the plain text or zeros, and
never an error. -/
theorem aesDecrypt_field (key : AesKey) (field : Block signedPtokenLength) :
    Crypto.aesDecrypt A key field.1 = some
      ((trmAesDecrypt A true key field.1).getD (List.replicate ptokenProtectedSize 0),
        ptokenProtectedSize) := by
  obtain ⟨l, hl⟩ := field
  have hiv : (l.drop 52).length = ivLength := by rw [List.length_drop, hl]; rfl
  have hc : (l.take 52).length = 52 := by rw [List.length_take, hl]; rfl
  have hsplit : l = l.take 52 ++ (⟨l.drop 52, hiv⟩ : Block ivLength).1 :=
    (List.take_append_drop 52 l).symm
  have hfits : (l.take 52).length - tagLength ≤ Crypto.bufLen := by rw [hc]; decide
  have hdec := Crypto.aesDecrypt_eq A key (l.take 52) ⟨l.drop 52, hiv⟩ (by rw [hc]; decide) hfits
  rw [← trmAesDecrypt_framed, ← hsplit, hc] at hdec
  exact hdec

theorem PtokenProtected.read_zeros :
    PtokenProtected.read (List.replicate ptokenProtectedSize 0) =
      some ⟨zeros _, 0, zeros _, zeros _⟩ := by
  decide

/-! ## Requests -/

variable {σ : Type} (calls : HostCalls σ) (rand : Nat → TicketRandom × Identifier)

/-- A request whose token does not authenticate is invalid. -/
theorem handleRequest_unauthentic (w : σ) (e : Enclave) {data : List UInt8} (pid : Pid)
    {request : OpRequest} {extension : Option OpExtension}
    (hread : readRequest data = some (request, extension))
    (hsig : request.signature = challengeSignature)
    (hauth : authenticates A e.ptokenAesKey request.signedPtoken.1 = false) :
    handleRequest A calls rand w e data pid ptokenLength = some (⟨w, e, opInvalid⟩, none) := by
  have hzero : (zeros signatureLength : Block signatureLength) ≠ challengeSignature := by decide
  simp only [handleRequest, hread, aesDecrypt_field, trmAesDecrypt_eq_none hauth,
    Option.getD_none, PtokenProtected.read_zeros, Option.bind_eq_bind, Option.bind_some,
    ne_eq, not_true_eq_false, if_false, hsig, hzero, not_false_eq_true, if_true]

/-- A request with a token that was sealed for `t`: served if `t` is for the
pid that asks, a forgery otherwise. -/
theorem handleRequest_token (w : σ) (e : Enclave) {data : List UInt8} (pid : Pid)
    {request : OpRequest} {extension : Option OpExtension}
    (hread : readRequest data = some (request, extension))
    (hsig : request.signature = challengeSignature) {iv : Block ivLength} {t : PtokenProtected}
    (htok : request.signedPtoken.1 = trmAesEncrypt A e.ptokenAesKey iv t.encode)
    (ht : t.signature = challengeSignature) :
    handleRequest A calls rand w e data pid ptokenLength =
      if pid = t.pid then
        (serveRequest A calls rand w e pid request extension).map (·, some t.ptoken)
      else some (⟨w, e, opForged⟩, none) := by
  have hdec : Crypto.aesDecrypt A e.ptokenAesKey request.signedPtoken.1 =
      some (t.encode, ptokenProtectedSize) := by
    rw [aesDecrypt_field, htok, trmAesDecrypt_encrypt, Option.getD_some]
  simp only [handleRequest, hread, hdec, PtokenProtected.read_encode, Option.bind_eq_bind,
    Option.bind_some, ne_eq, not_true_eq_false, if_false, hsig, ht]
  by_cases hpid : pid = t.pid
  · rw [if_neg (not_not_intro hpid), if_pos hpid, Option.map_eq_bind]
    rfl
  · rw [if_pos hpid, if_neg hpid]

/-- For every message and every pid, and for every world, policy and
behaviour of the host: if what clients send is unforged, a message that is
not a request with a token of this pid is answered with invalid or forged,
without a token, and leaves the world and the keys as they were. -/
theorem requests_not_forged (made : List Sealed) (w : σ) (e : Enclave) (data : List UInt8)
    (pid : Pid)
    (hsealed : ∀ request extension, readRequest data = some (request, extension) →
      Unforged A e.ptokenAesKey made request.signedPtoken.1) :
    (∃ request extension token,
      Genuine A e.ptokenAesKey made data pid request extension token) ∨
    ∃ code, (code = opInvalid ∨ code = opForged) ∧
      handleRequest A calls rand w e data pid ptokenLength = some (⟨w, e, code⟩, none) := by
  cases hread : readRequest data with
  | none => exact .inr ⟨opInvalid, .inl rfl, by simp [handleRequest, hread]⟩
  | some out =>
    obtain ⟨request, extension⟩ := out
    by_cases hsig : request.signature = challengeSignature
    · cases hauth : authenticates A e.ptokenAesKey request.signedPtoken.1 with
      | false =>
        exact .inr ⟨opInvalid, .inl rfl,
          handleRequest_unauthentic calls rand w e pid hread hsig hauth⟩
      | true =>
        -- the field is a token some task was given
        obtain ⟨x, hx, hkey, hmsg⟩ := hsealed request extension hread hauth
        obtain ⟨s, cur, iv, random, p, rfl, hp, hfield⟩ :=
          Sealed.ptoken_of_length hmsg request.signedPtoken.2
        obtain ⟨-, hseal⟩ := generatePtoken_eq hp
        rw [hfield, show s.ptokenAesKey = e.ptokenAesKey from hkey] at hseal
        by_cases hpid : pid = cur.pid
        · exact .inl ⟨request, extension, p, hread, hsig,
            ⟨s, cur, iv, random, hx, hkey, hpid.symm, hp⟩, hfield.symm⟩
        · refine .inr ⟨opForged, .inr rfl, ?_⟩
          rw [handleRequest_token calls rand w e pid hread hsig hseal rfl, if_neg hpid]
    · exact .inr ⟨opInvalid, .inl rfl, by simp [handleRequest, hread, hsig]⟩

/-- And a request that is one is served, and answered with its token. -/
theorem genuine_request_served {made : List Sealed} (w : σ) (e : Enclave) {data : List UInt8}
    {pid : Pid} {request : OpRequest} {extension : Option OpExtension} {token : Ptoken}
    (h : Genuine A e.ptokenAesKey made data pid request extension token) :
    handleRequest A calls rand w e data pid ptokenLength =
      (serveRequest A calls rand w e pid request extension).map (·, some token.ptoken) := by
  obtain ⟨s, cur, iv, random, -, hkey, hpid, hp⟩ := h.sealed
  obtain ⟨htoken, hseal⟩ := generatePtoken_eq hp
  rw [← h.field, hkey] at hseal
  rw [handleRequest_token calls rand w e pid h.reads h.signature hseal rfl, if_pos hpid.symm,
    htoken]

/-! ## A message to evaluate -/

/-- A world that counts what the enclave asks of it. -/
def countingCalls : HostCalls Nat where
  asmHandleRequest := fun w _ _ _ => (w + 1, opApproved)
  installTicket := fun w _ => some (w + 1, 1)
  installXattr := fun w _ _ => some (w + 1, acceptedSignal)

/-- The token of pid 7, under the key of nines. -/
def sevensToken : Sealed :=
  .ptoken ninesHost.lsm ⟨7, 0⟩ (zeros _) (fill _ 2)

/-- A request to open `subject` with that token. -/
def sevensRequest : OpRequest where
  signature := challengeSignature
  operation := opOpen
  subject := fill _ 4
  signedPtoken := ⟨trmAesEncrypt (Aead.keyTag _ _) (fill _ 9) (zeros _)
    (⟨challengeSignature, 7, fill _ 2, zeros _⟩ : PtokenProtected).encode, by decide⟩

/-- Pid 8 gets nowhere with the token of pid 7. -/
theorem sevensRequest_forged_for_eight :
    ∃ code, (code = opInvalid ∨ code = opForged) ∧
      handleRequest (Aead.keyTag _ _) countingCalls (fun _ => (someRandom, zeros _)) 0
        ⟨fill _ 15, fill _ 9⟩ sevensRequest.encode 8 ptokenLength =
          some (⟨0, ⟨fill _ 15, fill _ 9⟩, code⟩, none) := by
  have hread : readRequest sevensRequest.encode = some (sevensRequest, none) := by
    have h := OpRequest.read_encode sevensRequest []
    rw [List.append_nil] at h
    simp [readRequest, sevensRequest.encode_length, h]
  have hmade : Unforged (Aead.keyTag _ _) (fill _ 9) [sevensToken] sevensRequest.signedPtoken.1 :=
    fun _ => ⟨sevensToken, List.mem_singleton.mpr rfl, rfl, by decide⟩
  rcases requests_not_forged (A := Aead.keyTag _ _) countingCalls
    (fun _ => (someRandom, zeros _)) [sevensToken] 0 ⟨fill _ 15, fill _ 9⟩ sevensRequest.encode 8
    (fun request extension h => by
      rw [hread] at h
      cases h
      exact hmade) with ⟨r, x, token, hg⟩ | h
  · obtain ⟨s, cur, iv, random, hm, -, hpid, -⟩ := hg.sealed
    obtain ⟨-, rfl, -⟩ := Sealed.ptoken.inj (List.mem_singleton.mp hm)
    cases hpid
  · exact h

end Citadel
