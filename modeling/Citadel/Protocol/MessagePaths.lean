/-
Citadel.Protocol.MessagePaths — the paths in a client's message.

A message of the extended size has 4096 bytes of metadata, a plain one has
none. Three operations take them for a path: a claim, a declassification
and the open of a path. Nobody checks that there are any, or that they
are terminated: the daemon measures a path it is to look up, and the
enclave measures one it is to label. A translation also writes over the
front of the path, and with that may write over its only terminator.

`passRequest_eq_none_iff` says where the daemon faults, and
`paths_present_iff` for which messages no path is missing, whatever the
policy answers.
-/
import Citadel.Daemon.Translation
import Citadel.Enclave.RequestCalls
import Citadel.Protocol.Requests

namespace Citadel.Daemon

open Bytes Enclave Calls

/-! ## What the enclave needs -/

/-- The calls lead to a label. -/
def needsLabel (request : OpRequest) (extension : Option OpExtension) : Bool :=
  request.operation.has opClaim || request.operation.has opDeclassify ||
    request.operation.has opOpen && inducts extension

/-- The path a call is given is there and terminated. -/
def Pathed : Generator → Prop
  | .ticket _ _ _ _ => True
  | .label _ metadata _ _ => (metadataPath metadata).isSome = true

/-- The OCALLs come back. -/
structure Returning {σ : Type} (calls : HostCalls σ) : Prop where
  ticket : ∀ w message, (calls.installTicket w message).isSome = true
  xattr : ∀ w path message, (calls.installXattr w path message).isSome = true

/-- Then a generator faults exactly if it is given no path. -/
theorem generators_eq_none_iff {σ : Type} (A : Aead AesKey ivLength tagLength)
    {calls : HostCalls σ} (rand : Nat → TicketRandom × Identifier) (hcalls : Returning calls)
    (c : Generator) (s : σ × Enclave) : generators A calls rand c s = none ↔ ¬ Pathed c := by
  cases c with
  | ticket site pid identifier operation =>
    obtain ⟨out, hout⟩ := Option.isSome_iff_exists.mp (hcalls.ticket s.1
      (ticketMessage A s.2 (rand site.number).1 ⟨pid, identifier, operation⟩))
    refine iff_of_false ?_ (not_not_intro trivial)
    simp only [generators, generateTicket, hout, Option.bind_eq_bind, Option.bind_some]
    split <;> simp
  | label site metadata taint declassify =>
    simp only [generators, Pathed]
    cases metadataPath metadata with
    | none => simp
    | some path =>
      obtain ⟨out, hout⟩ := Option.isSome_iff_exists.mp (hcalls.xattr s.1 path
        (ticketMessage A s.2 (rand site.number).1
          (xattrRecord false taint declassify (rand site.number).2)))
      refine iff_of_false ?_ (by simp)
      simp only [generateXattrTicket, generateXattrTicketCore, hout, Option.bind_eq_bind,
        Option.bind_some]
      split <;> simp

/-! ## When the enclave faults -/

section Faults

variable {τ : Type} {h : (c : Generator) → τ → Option (τ × c.Answer)}
  (hh : ∀ c s, h c s = none ↔ ¬ Pathed c) (pid : Pid) (request : OpRequest)
  (extension : Option OpExtension) (result : Response)

theorem faults_whenSet {p : Prop} {x : Response → RequestCalls Response} (bit : Bool)
    (hx : ∀ result, Faults h (x result) p) : Faults h (whenSet bit x result) (bit = true ∧ p) := by
  cases bit with
  | true => simpa [whenSet] using hx result
  | false => simpa [whenSet] using faults_pure result

include hh

theorem faults_ticketCall (site : Site) (identifier : Identifier) (operation : Operation) :
    Faults h (ticketCall site pid identifier operation result) False := by
  have hask : Faults h (ask (Generator.ticket site pid identifier operation)) False := by
    intro s
    rw [run_ask, hh]
    simp [Pathed]
  have hcall := hask.bind fun ok => faults_pure (if ok then result else opError)
  rwa [or_self] at hcall

theorem faults_labelCall (site : Site) (metadata : Option (Block maxMetadataSize))
    (taint declassify : Bool) :
    Faults h (labelCall site metadata taint declassify result)
      (metadataPath metadata = none) := by
  have hask : Faults h (ask (Generator.label site metadata taint declassify))
      (metadataPath metadata = none) := by
    intro s
    rw [run_ask, hh]
    simp [Pathed]
  have hcall := hask.bind fun answer =>
    faults_pure (if answer.1 then result else opError, answer.2)
  rwa [or_false] at hcall

/-- A ticket that may be left out. -/
theorem faults_ticket_ite {c : Prop} [Decidable c] (site : Site) (identifier : Identifier)
    (operation : Operation) :
    Faults h (if c then ticketCall site pid identifier operation result else pure result)
      False := by
  split
  · exact faults_ticketCall hh pid result site identifier operation
  · exact faults_pure result

theorem faults_claimCalls :
    Faults h (claimCalls pid request extension result)
      (metadataPath (metadataOf extension) = none) := by
  have hcall := (faults_labelCall hh result .claimLabel (metadataOf extension) true false).bind
    fun out => faults_ticket_ite hh pid out.1 .claimTicket out.2 opOpen
      (c := out.1 ≠ opError ∧ request.operation.has opOpen = true)
  rwa [or_false] at hcall

theorem faults_openCalls :
    Faults h (openCalls pid request extension result)
      (inducts extension = true ∧ metadataPath (metadataOf extension) = none) := by
  have hobject : Faults h (openObject request extension result)
      (inducts extension = true ∧ metadataPath (metadataOf extension) = none) := by
    rw [openObject_eq]
    cases inducts extension with
    | true =>
      simpa using faults_labelCall hh result .openLabel (metadataOf extension) true false
    | false => simpa using faults_pure (result, namedObject request extension)
  have hcall := hobject.bind fun out =>
    faults_ticket_ite hh pid out.1 .openTicket out.2 request.operation (c := out.1 ≠ opError)
  rwa [or_false] at hcall

theorem faults_declassifyCalls :
    Faults h (declassifyCalls extension result) (metadataPath (metadataOf extension) = none) := by
  have hcall := (faults_labelCall hh result .declassify (metadataOf extension) false true).bind
    fun out => faults_pure out.1
  rwa [or_false] at hcall

/-- The enclave faults exactly on an approved request that leads to a label
and has no path for it. -/
theorem faults_coreCalls :
    Faults h (coreCalls pid request extension result)
      (result = opApproved ∧ needsLabel request extension = true ∧
        metadataPath (metadataOf extension) = none) := by
  have hticket := fun site result =>
    faults_ticketCall hh pid result site request.subject request.operation
  have hsteps := (faults_whenSet result (request.operation.has opClaim)
      (faults_claimCalls hh pid request extension)).bind fun result =>
    (faults_whenSet result ((remaining request.operation).has opOpen)
      (faults_openCalls hh pid request extension)).bind fun result =>
    (faults_whenSet result ((remaining request.operation).has (opPtyAccess ||| opSocket))
      (hticket .ptyOrSocket)).bind fun result =>
    (faults_whenSet result ((remaining request.operation).has opShm)
      (hticket .shm)).bind fun result =>
    faults_whenSet result ((remaining request.operation).has opDeclassify)
      (faults_declassifyCalls hh extension)
  intro s
  unfold coreCalls
  split
  · rename_i hresult
    exact iff_of_false (by simp) fun hfault => hresult hfault.1
  · rename_i hresult
    refine (hsteps s).trans ?_
    rw [remaining_open, show (remaining request.operation).has opDeclassify =
      request.operation.has opDeclassify from remaining_has rfl]
    simp only [needsLabel, not_not.mp hresult, Bool.or_eq_true, Bool.and_eq_true,
      Bool.not_eq_true', and_false, false_or, true_and]
    cases request.operation.has opClaim with
    | true => simp
    | false => tauto

end Faults

/-! ## What the enclave is given -/

/-- With a path for its label, a request leads to no call without one. -/
theorem everyCall_pathed {request : OpRequest} {extension : Option OpExtension}
    (hpath : needsLabel request extension = true →
      (metadataPath (metadataOf extension)).isSome = true) (pid : Pid) :
    EveryCall Pathed pid request extension where
  claimLabel := fun hclaim => hpath (by simp [needsLabel, hclaim])
  claimTicket := fun _ _ => trivial
  openLabel := fun _ hopen hinducts => hpath (by simp [needsLabel, hopen, hinducts])
  openTicket := fun _ _ _ _ => trivial
  ptyOrSocket := trivial
  shm := trivial
  declassify := fun hdeclassify => hpath (by simp [needsLabel, hdeclassify])

/-! ## Messages -/

/-- The metadata `cache_passthrough` measures. -/
def measuredPath (request : OpRequest) (extension : Option OpExtension) :
    Option (Block maxMetadataSize) :=
  extension.bind fun x =>
    if request.operation.has opClaim || x.translate then some x.metadata else none

variable {env : CacheEnv} {xattr : List UInt8 → Option (List UInt8)} {cache : IdentifierCache}
  {request : OpRequest} {extension : Option OpExtension}

/-- It faults on a path that is not terminated, and where the attribute of
the file is no label a translation can copy. -/
theorem passRequest_eq_none_iff :
    passRequest env xattr cache request extension = none ↔
      ∃ m, measuredPath request extension = some m ∧
        (cstring m.1 = none ∨ request.operation.has opClaim = false ∧
          ∃ s, cstring m.1 = some s ∧ foundIdentifier env cache s (xattr s) = none) := by
  cases extension with
  | none => simp [passRequest, measuredPath]
  | some x =>
    cases hclaim : request.operation.has opClaim with
    | true =>
      simp only [passRequest, hclaim, if_true, measuredPath, Option.bind_some, Bool.true_or,
        clearEntryFromCache]
      cases hs : cstring x.metadata.1 with
      | none => simp [hs]
      | some s => simp [hs]
    | false =>
      cases htranslate : x.translate with
      | false => simp [passRequest, measuredPath, hclaim, htranslate]
      | true =>
        simp only [passRequest, hclaim, htranslate, if_true, measuredPath, Option.bind_some,
          Bool.or_true, Bool.false_eq_true, if_false]
        cases hs : cstring x.metadata.1 with
        | none => simp [hs]
        | some s => simp [hs]

/-- A message, given to the daemon, whose paths are all there. -/
structure PathsPresent (A : Gcm) (e : Enclave) (env : CacheEnv)
    (xattr : List UInt8 → Option (List UInt8)) (cache : IdentifierCache) (pid : Pid)
    (message : List UInt8) (request : OpRequest) (extension : Option OpExtension) : Prop where
  /-- What the daemon measures is terminated. -/
  measured : ∀ m, measuredPath request extension = some m → (cstring m.1).isSome = true
  /-- What the enclave hands over is there and terminated. -/
  handed : ∀ cache' message' ok,
    cachePassthrough env xattr cache message = some (cache', message', ok) →
    ∀ (σ : Type) (calls : HostCalls σ) (rand : Nat → TicketRandom × Identifier) (w : σ) hist c,
      RequestMakes A calls rand w e message' pid hist c → Pathed c
  /-- The enclave does not crash. -/
  returns : ∀ cache' message' ok,
    cachePassthrough env xattr cache message = some (cache', message', ok) →
    ∀ (σ : Type) (calls : HostCalls σ) (rand : Nat → TicketRandom × Identifier) (w : σ),
      Returning calls → (handleRequest A calls rand w e message' pid ptokenLength).isSome = true
  /-- A path that is missing is answered with an error. -/
  answered : (request.operation.has (opClaim ||| opDeclassify) ||
      request.operation.has opOpen && extension.elim false (·.translate)) = true →
    metadataPath (metadataOf extension) = none →
    ∀ (σ : Type) (calls : HostCalls σ) (rand : Nat → TicketRandom × Identifier) (w : σ)
      (ptoken : Block ptokenLength), Returning calls →
      ∃ s reply r, sendResponse A calls (fun _ => xattr) ⟨env, rand, ptoken⟩ ⟨w, e, cache⟩ pid
        message = some (s, reply) ∧ OpReply.read reply = some r ∧ r.result ≠ opApproved

/-- The message has the paths it needs, before and after a translation. -/
structure HasPaths (env : CacheEnv) (xattr : List UInt8 → Option (List UInt8))
    (cache : IdentifierCache) (request : OpRequest) (extension : Option OpExtension) : Prop where
  before : (request.operation.has (opClaim ||| opDeclassify) ||
    extension.elim false (·.translate)) = true → (metadataPath (metadataOf extension)).isSome = true
  after : request.operation.has opClaim = false → request.operation.has opDeclassify = true →
    ∀ x s identifier, extension = some x → x.translate = true → cstring x.metadata.1 = some s →
      foundIdentifier env cache s (xattr s) = some (some identifier) →
      (cstring (writeIdentifier x.metadata identifier).1).isSome = true

/-! ## The enclave's end -/

section Enclave

variable {A : Gcm} {e : Enclave} {message message' : List UInt8} {pid : Pid}
  {token : PtokenProtected} {extension' : Option OpExtension} {cache' : IdentifierCache}

/-- The daemon leaves the request and its token alone. -/
theorem authentic_passed (h : Authentic A e message pid request extension token)
    (hreads : readRequest message' = some (request, extension')) :
    Authentic A e message' pid request extension' token :=
  { h with reads := hreads }

theorem handleRequest_eq_none_iff {σ : Type} {calls : HostCalls σ} (hcalls : Returning calls)
    (rand : Nat → TicketRandom × Identifier) (w : σ)
    (h : Authentic A e message pid request extension token) :
    handleRequest A calls rand w e message pid ptokenLength = none ↔
      (calls.asmHandleRequest w pid request (metadataOf extension)).2 = opApproved ∧
        needsLabel request extension = true ∧ metadataPath (metadataOf extension) = none := by
  rw [handleRequest_authentic A calls rand h, serveRequest_eq, carryOut]
  simp only [Option.map_eq_none_iff]
  exact faults_coreCalls (generators_eq_none_iff A rand hcalls) pid request extension _ _

/-- A message with its paths has them in the enclave too. -/
theorem HasPaths.passed (h : HasPaths env xattr cache request extension)
    (hpass : passRequest env xattr cache request extension = some (cache', extension'))
    (hneeds : needsLabel request extension' = true) :
    (metadataPath (metadataOf extension')).isSome = true := by
  simp only [needsLabel, Bool.or_eq_true, Bool.and_eq_true] at hneeds
  have hbefore := h.before
  simp only [has_or, Bool.or_eq_true] at hbefore
  rcases passRequest_cases hpass with ⟨hplain, -, rfl⟩ | ⟨x, s, rfl, hclaim, -, -, rfl⟩ |
    ⟨x, s, found, rfl, hclaim, htranslate, hs, hfound, -, rfl⟩
  · refine hbefore (.inl (hneeds.resolve_right ?_))
    rintro ⟨-, hinducts⟩
    cases extension' with
    | none => cases hinducts
    | some x => simp [inducts, hplain.2] at hinducts
  · exact hbefore (.inl (.inl hclaim))
  · cases found with
    | none => exact hbefore (.inr htranslate)
    | some identifier =>
      -- a path that has been translated is not inducted
      simp only [inducts, translated, Option.elim_some, Bool.not_true, Bool.and_false,
        Bool.false_eq_true, and_false, or_false] at hneeds
      exact h.after hclaim (hneeds.resolve_left (by simp [hclaim])) x s identifier rfl htranslate
        hs hfound

theorem acceptingCalls_returning : Returning acceptingCalls :=
  ⟨fun _ _ => rfl, fun _ _ _ => rfl⟩

/-- An enclave that comes back had a path for its label: the policy may
have approved. -/
theorem PathsPresent.passed (h : Authentic A e message pid request extension token)
    (hpaths : PathsPresent A e env xattr cache pid message request extension)
    (hpass : passRequest env xattr cache request extension = some (cache', extension'))
    (hneeds : needsLabel request extension' = true) :
    (metadataPath (metadataOf extension')).isSome = true := by
  obtain ⟨message', hmessage', hreads⟩ := cachePassthrough_of_passRequest h.reads hpass
  let rand : Nat → TicketRandom × Identifier := fun _ => (⟨zeros _, zeros _, zeros _⟩, zeros _)
  have hsome := hpaths.returns _ _ _ hmessage' Unit acceptingCalls rand () acceptingCalls_returning
  by_contra hnone
  have hfault := (handleRequest_eq_none_iff acceptingCalls_returning rand ()
    (authentic_passed h hreads)).mpr ⟨rfl, hneeds, by simpa using hnone⟩
  rw [hfault] at hsome
  cases hsome

/-- A message that is handled without a missing path has its paths. -/
theorem PathsPresent.hasPaths (h : Authentic A e message pid request extension token)
    (hpaths : PathsPresent A e env xattr cache pid message request extension) :
    HasPaths env xattr cache request extension := by
  refine ⟨fun hneeds => ?_, fun hclaim hdeclassify x s identifier hx htranslate hs hfound => ?_⟩
  · simp only [has_or, Bool.or_eq_true] at hneeds
    cases extension with
    | none =>
      have hoperation := hneeds.resolve_right Bool.false_ne_true
      refine hpaths.passed h rfl ?_
      simp [needsLabel, hoperation]
    | some x =>
      by_cases hmeasured : (request.operation.has opClaim || x.translate) = true
      · exact hpaths.measured x.metadata
          (by rw [measuredPath, Option.bind_some, if_pos hmeasured])
      · rw [Bool.or_eq_true, not_or] at hmeasured
        have hdeclassify := (hneeds.resolve_right hmeasured.2).resolve_left hmeasured.1
        have hpass : passRequest env xattr cache request (some x) = some (cache, some x) := by
          rw [passRequest, if_neg hmeasured.1, if_neg hmeasured.2]
        exact hpaths.passed h hpass (by simp [needsLabel, hdeclassify])
  · subst hx
    exact hpaths.passed h (passRequest_found hclaim htranslate hs hfound)
      (by simp [needsLabel, hdeclassify])

/-- And one that has them is. -/
theorem HasPaths.pathsPresent (h : Authentic A e message pid request extension token)
    (hhas : HasPaths env xattr cache request extension) :
    PathsPresent A e env xattr cache pid message request extension := by
  have hbefore := hhas.before
  simp only [has_or, Bool.or_eq_true] at hbefore
  refine ⟨?_, ?_, ?_, ?_⟩
  · intro m hm
    simp only [measuredPath, Option.bind_eq_some_iff, Option.ite_none_right_eq_some,
      Bool.or_eq_true, Option.some.injEq] at hm
    obtain ⟨x, rfl, hmeasured, rfl⟩ := hm
    exact hbefore (hmeasured.imp .inl id)
  · intro cache' message' ok hmessage' σ calls rand w hist c hmakes
    obtain ⟨-, extension', hpass, hreads⟩ := cachePassthrough_some h.reads hmessage'
    obtain ⟨r, x, t, hauthentic, hmakes⟩ := hmakes
    cases hreads.symm.trans hauthentic.reads
    have hreach := hmakes.reaches (generators_gives A calls rand)
    exact (holds_iff_reaches _ []).mp ((everyCall_pathed (hhas.passed hpass) pid).holds _)
      hist c hreach
  · intro cache' message' ok hmessage' σ calls rand w hcalls
    obtain ⟨-, extension', hpass, hreads⟩ := cachePassthrough_some h.reads hmessage'
    rw [Option.isSome_iff_ne_none, ne_eq,
      handleRequest_eq_none_iff hcalls rand w (authentic_passed h hreads)]
    rintro ⟨-, hneeds, hnone⟩
    have hsome := hhas.passed hpass hneeds
    rw [hnone] at hsome
    cases hsome
  · intro hneeds hnone
    rw [has_or, Bool.or_eq_true, Bool.or_eq_true, Bool.and_eq_true] at hneeds
    have hsome := hbefore (hneeds.imp id And.right)
    rw [hnone] at hsome
    cases hsome

/-- **Paths of messages.** A message with a valid token is handled without
a missing path, whatever the policy, exactly if it has its paths: a claim,
a declassification and a path to translate have a terminated one, and a
path that is translated and declassified is terminated behind the
identifier too. -/
theorem paths_present_iff (env : CacheEnv) (xattr : List UInt8 → Option (List UInt8))
    (cache : IdentifierCache) (h : Authentic A e message pid request extension token) :
    PathsPresent A e env xattr cache pid message request extension ↔
      HasPaths env xattr cache request extension := by
  constructor
  · intro hpaths
    exact hpaths.hasPaths h
  · intro hhas
    exact hhas.pathsPresent h

/-- A token the kernel sealed for the pid makes a request authentic. -/
theorem authentic_of_sealed (hreads : readRequest message = some (request, extension))
    (hsig : request.signature = challengeSignature) (iv : Block ivLength)
    (hfield : request.signedPtoken.1 = trmAesEncrypt A e.ptokenAesKey iv token.encode)
    (htoken : token.signature = challengeSignature) (hpid : pid = token.pid) :
    Authentic A e message pid request extension token := by
  refine ⟨hreads, hsig, ⟨token.encode, ?_, PtokenProtected.read_encode token⟩, htoken, hpid⟩
  rw [aesDecrypt_field, hfield, trmAesDecrypt_encrypt, Option.getD_some]

end Enclave

/-! ## Messages to evaluate -/

/-- The token in `sevensRequest`. -/
def sevensProtected : PtokenProtected := ⟨challengeSignature, 7, fill _ 2, zeros _⟩

/-- `sevensRequest` with another mask. -/
def sevensAsk (operation : Operation) : OpRequest := { sevensRequest with operation := operation }

theorem sevensAsk_authentic (operation : Operation) :
    Authentic (Aead.keyTag _ _) ⟨fill _ 15, fill _ 9⟩ (sevensAsk operation).encode 7
      (sevensAsk operation) none sevensProtected := by
  have hread : readRequest (sevensAsk operation).encode = some (sevensAsk operation, none) := by
    have h := OpRequest.read_encode (sevensAsk operation) []
    rw [List.append_nil] at h
    simp [readRequest, (sevensAsk operation).encode_length, h]
  exact authentic_of_sealed hread rfl (zeros _) rfl rfl rfl

/-- The path `a`, to be translated. -/
def pathOfA : OpExtension := ⟨true, false, nameMetadata 97⟩

/-- `a` is translated and declassified. It is terminated, and the zeros
behind it terminate the identifier that is written over it. -/
theorem declassifyOfA_paths_present :
    Authentic (Aead.keyTag _ _) ⟨fill _ 15, fill _ 9⟩
      ((sevensAsk opDeclassify).encode ++ pathOfA.encode) 7 (sevensAsk opDeclassify)
      (some pathOfA) sevensProtected ∧
    PathsPresent (Aead.keyTag _ _) ⟨fill _ 15, fill _ 9⟩ .calm
      (fun _ => some (hexDigits (List.replicate 16 1))) .empty 7
      ((sevensAsk opDeclassify).encode ++ pathOfA.encode) (sevensAsk opDeclassify)
      (some pathOfA) := by
  have hauthentic : Authentic (Aead.keyTag _ _) ⟨fill _ 15, fill _ 9⟩
      ((sevensAsk opDeclassify).encode ++ pathOfA.encode) 7 (sevensAsk opDeclassify)
      (some pathOfA) sevensProtected :=
    authentic_of_sealed (readRequest_encode _ _) rfl (zeros _) rfl rfl rfl
  refine ⟨hauthentic, (paths_present_iff _ _ _ hauthentic).mpr ⟨?_, ?_⟩⟩
  · intro _
    exact Option.isSome_of_eq_some (cstring_nameMetadata (c := 97) (by decide))
  · intro _ _ x s identifier hx _ _ _
    cases hx
    have hzero : (0 : UInt8) ∈ (writeIdentifier (nameMetadata 97) identifier).1 :=
      List.mem_append_right _ (by decide)
    rw [pathOfA, cstring, if_pos (List.contains_iff_mem.mpr hzero)]
    rfl

/-- A plain claim crashes the enclave. -/
theorem plain_claim_crashes :
    Authentic (Aead.keyTag _ _) ⟨fill _ 15, fill _ 9⟩ (sevensAsk opClaim).encode 7
      (sevensAsk opClaim) none sevensProtected ∧
    sendResponse (Aead.keyTag _ _) acceptingCalls (fun _ _ => none)
      ⟨.calm, fun _ => (⟨zeros _, zeros _, zeros _⟩, zeros _), zeros _⟩
      ⟨(), ⟨fill _ 15, fill _ 9⟩, .empty⟩ 7 (sevensAsk opClaim).encode = none ∧
    ¬ PathsPresent (Aead.keyTag _ _) ⟨fill _ 15, fill _ 9⟩ .calm (fun _ => none)
      .empty 7 (sevensAsk opClaim).encode (sevensAsk opClaim) none := by
  have hauthentic := sevensAsk_authentic opClaim
  refine ⟨hauthentic, ?_, fun hpaths => ?_⟩
  · have hlen : (sevensAsk opClaim).encode.length = opRequestSize := OpRequest.encode_length _
    have hfault := (handleRequest_eq_none_iff acceptingCalls_returning
      (fun _ => (⟨zeros _, zeros _, zeros _⟩, zeros _)) () hauthentic).mpr
        ⟨rfl, by decide, rfl⟩
    simp only [sendResponse, cachePassthrough, hlen, true_or, if_true, Option.bind_eq_bind,
      Option.bind_some, hfault, Option.bind_none]
  · exact absurd (hpaths.passed hauthentic rfl (by decide)) (by decide)

end Citadel.Daemon
