/-
Citadel.Enclave.TicketScope — which objects tickets are for.

A request names one object to open (a label it claims, the file of its
path, or its subject) and one for everything else (its subject). Its mask
may have any bits, so one request can ask for both. `core_handle_request`
then passes the whole mask on with either object: an open of a path
together with a socket opens the subject too. `tickets_in_scope_iff` says
which approved requests that happens to (`mixes`).
-/
import Citadel.Enclave.RequestCalls

namespace Citadel.Enclave

open Bytes Calls

/-! ## Scope -/

/-- A label with this identifier has been installed. -/
def Labelled (hist : History Generator Generator.Answer) (identifier : Identifier) : Prop :=
  ∃ site metadata taint,
    (⟨.label site metadata taint false, (true, identifier)⟩ : Σ c : Generator, c.Answer) ∈ hist

/-- The object to open gets its label from the request itself. -/
def makesObject (request : OpRequest) (extension : Option OpExtension) : Bool :=
  request.operation.has opClaim || inducts extension

/-- The object the request designates for an open, after some calls. -/
def Designates (request : OpRequest) (extension : Option OpExtension)
    (hist : History Generator Generator.Answer) (identifier : Identifier) : Prop :=
  if makesObject request extension then Labelled hist identifier
  else identifier = namedObject request extension

/-- A ticket is for the requester, opens only what is designated for it,
and is for a socket or shared memory only on the subject. -/
def InScope (pid : Pid) (request : OpRequest) (extension : Option OpExtension)
    (hist : History Generator Generator.Answer) : Generator → Prop
  | .ticket _ pid' identifier operation =>
    pid' = pid ∧ (operation.has opOpen → Designates request extension hist identifier) ∧
      (operation.has (opSocket ||| opShm) → identifier = request.subject)
  | .label _ _ _ _ => True

/-- What is asked for on the subject. -/
def opOnSubject : Operation := opPtyAccess ||| opSocket ||| opShm

/-- The request opens one object and asks for another in one mask. A label
that is to be made needs a path. -/
def mixes (request : OpRequest) (extension : Option OpExtension) : Bool :=
  request.operation.has opOpen && request.operation.has opOnSubject &&
    if makesObject request extension then (metadataPath (metadataOf extension)).isSome
    else namedObject request extension != request.subject

/-! ## One call after the other -/

variable {pid : Pid} {request : OpRequest} {extension : Option OpExtension}
  {hist : History Generator Generator.Answer}

/-- A label that has to be made was made, so there was a path for it. -/
def Made (request : OpRequest) (extension : Option OpExtension) : Prop :=
  makesObject request extension = true → (metadataPath (metadataOf extension)).isSome = true

theorem labelled_concat (site : Site) (metadata : Option (Block maxMetadataSize)) (taint : Bool)
    (identifier : Identifier) :
    Labelled (hist ++ [⟨.label site metadata taint false, (true, identifier)⟩]) identifier :=
  ⟨site, metadata, taint, List.mem_append_right _ (List.mem_singleton.mpr rfl)⟩

theorem designates_concat (hmakes : makesObject request extension = true) (site : Site)
    (metadata : Option (Block maxMetadataSize)) (taint : Bool) (identifier : Identifier) :
    Designates request extension
      (hist ++ [⟨.label site metadata taint false, (true, identifier)⟩]) identifier := by
  rw [Designates, if_pos hmakes]
  exact labelled_concat site metadata taint identifier

/-- Where nothing is mixed, the object to open is the subject. -/
theorem designates_iff_subject (hmixes : mixes request extension = false)
    (hopen : request.operation.has opOpen = true)
    (hsubject : request.operation.has opOnSubject = true) (hmade : Made request extension)
    (identifier : Identifier) :
    Designates request extension hist identifier ↔ identifier = request.subject := by
  rw [mixes, hopen, hsubject, Bool.true_and, Bool.true_and] at hmixes
  unfold Designates
  cases hmakes : makesObject request extension with
  | true =>
    rw [hmakes, if_pos rfl, hmade hmakes] at hmixes
    cases hmixes
  | false =>
    rw [hmakes, if_neg Bool.false_ne_true, bne_eq_false_iff_eq] at hmixes
    rw [if_neg Bool.false_ne_true, hmixes]

theorem holds_claimCalls (hclaim : request.operation.has opClaim = true) (result : Response) :
    Holds Generator.Gives (InScope pid request extension) (claimCalls pid request extension result)
      (fun _ _ => Made request extension) hist := by
  simp only [claimCalls, labelCall, holds_bind, holds_ask, holds_pure]
  refine ⟨trivial, fun answer hanswer => ?_⟩
  have hmade : Made request extension := fun _ => hanswer
  obtain ⟨ok, identifier⟩ := answer
  cases ok with
  | false => simpa using hmade
  | true =>
    simp only [if_true]
    split
    · simp only [ticketCall, holds_bind, holds_ask, holds_pure]
      refine ⟨⟨rfl, fun _ => ?_, fun hsocket => absurd hsocket (by decide)⟩, fun _ _ => hmade⟩
      exact designates_concat (by rw [makesObject, hclaim, Bool.true_or]) _ _ _ identifier
    · exact hmade

/-- The open of an object that is the designated one. -/
theorem holds_openTicket (hopen : request.operation.has opOpen = true)
    (hmixes : mixes request extension = false) (hmade : Made request extension)
    {identifier : Identifier} (hdesignates : Designates request extension hist identifier)
    (result : Response) :
    Holds Generator.Gives (InScope pid request extension)
      (if result ≠ opError then ticketCall .openTicket pid identifier request.operation result
        else pure result)
      (fun _ _ => Made request extension) hist := by
  split
  · simp only [ticketCall, holds_bind, holds_ask, holds_pure]
    refine ⟨⟨rfl, fun _ => hdesignates, fun hsocket => ?_⟩, fun _ _ => hmade⟩
    have hsubject : request.operation.has opOnSubject = true := by
      rw [opOnSubject, BitVec.or_assoc, has_or, hsocket, Bool.or_true]
    exact (designates_iff_subject hmixes hopen hsubject hmade identifier).mp hdesignates
  · exact hmade

theorem holds_openCalls (hclaim : request.operation.has opClaim = false)
    (hopen : request.operation.has opOpen = true) (hmixes : mixes request extension = false)
    (result : Response) :
    Holds Generator.Gives (InScope pid request extension) (openCalls pid request extension result)
      (fun _ _ => Made request extension) hist := by
  have hmakes : makesObject request extension = inducts extension := by
    rw [makesObject, hclaim, Bool.false_or]
  simp only [openCalls, holds_bind, openObject_eq]
  cases hinducts : inducts extension with
  | false =>
    rw [hinducts] at hmakes
    have hmade : Made request extension := fun h => absurd (hmakes.symm.trans h) (by decide)
    refine holds_openTicket hopen hmixes hmade ?_ result
    rw [Designates, if_neg (by rw [hmakes]; decide)]
  | true =>
    rw [hinducts] at hmakes
    simp only [if_true, labelCall, holds_bind, holds_ask, holds_pure]
    refine ⟨trivial, fun answer hanswer => ?_⟩
    have hmade : Made request extension := fun _ => hanswer
    obtain ⟨ok, identifier⟩ := answer
    cases ok with
    | false => exact hmade
    | true =>
      exact holds_openTicket hopen hmixes hmade (designates_concat hmakes _ _ _ identifier) result

theorem inScope_subject (site : Site) :
    InScope pid request extension hist (.ticket site pid request.subject request.operation) ↔
      (request.operation.has opOpen = true →
        Designates request extension hist request.subject) := by
  simp [InScope]

/-! ## Whole requests -/

/-- What is issued on the subject is in scope where nothing is mixed. -/
theorem holds_onSubject (hmixes : mixes request extension = false) {bit : Bool}
    (hbit : bit = true → request.operation.has opOnSubject = true)
    (hmade : request.operation.has opOpen = true → Made request extension) (site : Site)
    (result : Response) :
    Holds Generator.Gives (InScope pid request extension)
      (whenSet bit (ticketCall site pid request.subject request.operation) result)
      (fun _ _ => True) hist := by
  rw [holds_whenSet]
  refine ⟨fun hset => ?_, fun _ => trivial⟩
  simp only [ticketCall, holds_bind, holds_ask, holds_pure]
  refine ⟨(inScope_subject site).mpr fun hopen => ?_, fun _ _ => trivial⟩
  exact (designates_iff_subject hmixes hopen (hbit hset) (hmade hopen) _).mpr rfl

theorem onSubject_of_pty {op : Operation}
    (h : (remaining op).has (opPtyAccess ||| opSocket) = true) : op.has opOnSubject = true := by
  rw [remaining_has rfl] at h
  rw [opOnSubject, has_or, h, Bool.true_or]

theorem onSubject_of_shm {op : Operation} (h : (remaining op).has opShm = true) :
    op.has opOnSubject = true := by
  rw [remaining_has rfl] at h
  rw [opOnSubject, has_or, h, Bool.or_true]

theorem holds_approvedCalls (hmixes : mixes request extension = false) (result : Response) :
    Holds Generator.Gives (InScope pid request extension)
      (approvedCalls pid request extension result) (fun _ _ => True) hist := by
  simp only [approvedCalls, holds_bind]
  have hclaims : Holds Generator.Gives (InScope pid request extension)
      (whenSet (request.operation.has opClaim) (claimCalls pid request extension) result)
      (fun _ _ => request.operation.has opClaim = true → Made request extension) hist := by
    rw [holds_whenSet]
    refine ⟨fun hclaim => ?_, fun hclaim h => absurd (hclaim.symm.trans h) (by decide)⟩
    exact (holds_claimCalls hclaim result).mono fun _ _ hmade _ => hmade
  refine hclaims.mono fun hist result hclaimed => ?_
  have hopens : Holds Generator.Gives (InScope pid request extension)
      (whenSet ((remaining request.operation).has opOpen) (openCalls pid request extension) result)
      (fun _ _ => request.operation.has opOpen = true → Made request extension) hist := by
    rw [holds_whenSet, remaining_open]
    constructor
    · intro hset
      rw [Bool.and_eq_true, Bool.not_eq_true'] at hset
      exact (holds_openCalls hset.1 hset.2 hmixes result).mono fun _ _ hmade _ => hmade
    · intro hset hopen
      rw [hopen, Bool.and_true, Bool.not_eq_false'] at hset
      exact hclaimed hset
  refine hopens.mono fun hist result hmade => ?_
  refine (holds_onSubject hmixes onSubject_of_pty hmade _ result).mono fun hist result _ => ?_
  refine (holds_onSubject hmixes onSubject_of_shm hmade _ result).mono fun hist result _ => ?_
  rw [holds_whenSet]
  refine ⟨fun _ => ?_, fun _ => trivial⟩
  simp only [declassifyCalls, labelCall, holds_bind, holds_ask, holds_pure]
  exact ⟨trivial, fun _ _ => trivial⟩

/-- What is issued on the subject opens it too. -/
theorem designates_of_onSubject {gives : (c : Generator) → c.Answer → Prop}
    (hopen : request.operation.has opOpen = true)
    (hsubject : request.operation.has opOnSubject = true)
    {Q : History Generator Generator.Answer → Response → Prop} {result : Response}
    (h : Holds gives (InScope pid request extension)
      (whenSet ((remaining request.operation).has (opPtyAccess ||| opSocket))
        (ticketCall .ptyOrSocket pid request.subject request.operation) result)
      (fun hist result => Holds gives (InScope pid request extension)
        (whenSet ((remaining request.operation).has opShm)
          (ticketCall .shm pid request.subject request.operation) result) Q hist) hist) :
    Designates request extension hist request.subject := by
  rw [holds_whenSet] at h
  cases hpty : (remaining request.operation).has (opPtyAccess ||| opSocket) with
  | true =>
    have hticket := h.1 hpty
    simp only [ticketCall, holds_bind, holds_ask] at hticket
    exact (inScope_subject _).mp hticket.1 hopen
  | false =>
    have hshm : (remaining request.operation).has opShm = true := by
      rw [remaining_has rfl] at hpty ⊢
      rwa [opOnSubject, has_or, hpty, Bool.false_or] at hsubject
    have hticket := ((holds_whenSet _ _ _).mp (h.2 hpty)).1 hshm
    simp only [ticketCall, holds_bind, holds_ask] at hticket
    exact (inScope_subject _).mp hticket.1 hopen

theorem exists_identifier_ne (identifier : Identifier) :
    ∃ other : Identifier, other ≠ identifier := by
  by_cases hzero : identifier = zeros _
  · refine ⟨fill _ 1, ?_⟩
    rw [hzero]
    decide
  · exact ⟨zeros _, fun h => hzero h.symm⟩

/-- The label just made is the only object that is designated. -/
theorem designates_made (hmakes : makesObject request extension = true) {site site' : Site}
    {metadata : Option (Block maxMetadataSize)} {taint ok : Bool} {made identifier : Identifier}
    {operation : Operation}
    (h : Designates request extension
      [⟨.label site metadata taint false, (true, made)⟩,
        ⟨.ticket site' pid made operation, ok⟩] identifier) : identifier = made := by
  rw [Designates, if_pos hmakes] at h
  obtain ⟨_, _, _, hmem⟩ := h
  rcases List.mem_cons.mp hmem with hlabel | hticket
  · cases hlabel
    rfl
  · cases List.mem_singleton.mp hticket

/-- A request that mixes is given a ticket out of scope where everything
works and the label that is made is not the subject. -/
theorem not_holds_approvedCalls (pid : Pid) (gives : (c : Generator) → c.Answer → Prop)
    {made : Identifier} (hmade : made ≠ request.subject)
    (hlabel : ∀ site metadata taint, (metadataPath metadata).isSome = true →
      gives (.label site metadata taint false) (true, made))
    (hticket : ∀ site pid identifier operation, gives (.ticket site pid identifier operation) true)
    (hmixes : mixes request extension = true) :
    ¬ Holds gives (InScope pid request extension)
      (approvedCalls pid request extension opApproved) (fun _ _ => True) [] := by
  intro h
  simp only [mixes, Bool.and_eq_true] at hmixes
  obtain ⟨⟨hopen, hsubject⟩, hobject⟩ := hmixes
  simp only [approvedCalls, holds_bind] at h
  -- up to the tickets on the subject
  have hdesignates := h.mono fun hist result h => Holds.mono h fun hist result h =>
    designates_of_onSubject hopen hsubject h
  rw [holds_whenSet] at hdesignates
  cases hclaim : request.operation.has opClaim with
  | true =>
    have hmakes : makesObject request extension = true := by
      rw [makesObject, hclaim, Bool.true_or]
    rw [hmakes, if_pos rfl] at hobject
    have hclaimed := hdesignates.1 hclaim
    simp only [claimCalls, labelCall, holds_bind, holds_ask, holds_pure] at hclaimed
    have hlabelled := hclaimed.2 (true, made) (hlabel _ _ _ hobject)
    rw [if_pos rfl, if_pos ⟨by decide, hopen⟩] at hlabelled
    simp only [ticketCall, holds_bind, holds_ask, holds_pure] at hlabelled
    have hskip := ((holds_whenSet _ _ _).mp (hlabelled.2 true (hticket _ _ _ _))).2
      (by rw [remaining_open, hclaim]; rfl)
    exact hmade (designates_made hmakes hskip).symm
  | false =>
    have hopens := ((holds_whenSet _ _ _).mp (hdesignates.2 hclaim)).1
      (by rw [remaining_open, hclaim, hopen]; rfl)
    have hmakes : makesObject request extension = inducts extension := by
      rw [makesObject, hclaim, Bool.false_or]
    simp only [openCalls, holds_bind, openObject_eq] at hopens
    cases hinducts : inducts extension with
    | true =>
      rw [hinducts] at hmakes
      rw [hmakes, if_pos rfl] at hobject
      rw [hinducts, if_pos rfl] at hopens
      simp only [labelCall, holds_bind, holds_ask, holds_pure] at hopens
      have hlabelled := hopens.2 (true, made) (hlabel _ _ _ hobject)
      rw [if_pos rfl, if_pos (by decide)] at hlabelled
      simp only [ticketCall, holds_bind, holds_ask, holds_pure] at hlabelled
      exact hmade (designates_made hmakes (hlabelled.2 true (hticket _ _ _ _))).symm
    | false =>
      rw [hinducts] at hmakes
      rw [hmakes, if_neg Bool.false_ne_true] at hobject
      rw [hinducts, if_neg Bool.false_ne_true] at hopens
      simp only [holds_pure] at hopens
      rw [if_pos (by decide)] at hopens
      simp only [ticketCall, holds_bind, holds_ask, holds_pure] at hopens
      have hnamed := hopens.2 true (hticket _ _ _ _)
      rw [Designates, if_neg (by rw [hmakes]; decide)] at hnamed
      exact absurd hnamed.symm (by simpa using hobject)

/-- Every call the request leads to is in scope, whatever the OCALLs do and
whatever is drawn. -/
def TicketsInScope (A : Aead AesKey ivLength tagLength) (pid : Pid) (request : OpRequest)
    (extension : Option OpExtension) (asmResult : Response) : Prop :=
  ∀ (σ : Type) (calls : HostCalls σ) (rand : Nat → TicketRandom × Identifier) (w : σ)
    (e : Enclave) (hist : History Generator Generator.Answer) (c : Generator),
    Makes (generators A calls rand) (coreCalls pid request extension asmResult) (w, e) hist c →
      InScope pid request extension hist c

/-- **Tickets and their objects.** Whatever the policy answers: every ticket
a request leads to is in scope, unless the request is approved and mixes. -/
theorem tickets_in_scope_iff (A : Aead AesKey ivLength tagLength) (pid : Pid)
    (request : OpRequest) (extension : Option OpExtension) (asmResult : Response) :
    TicketsInScope A pid request extension asmResult ↔
      ¬ (asmResult = opApproved ∧ mixes request extension = true) := by
  constructor
  · rintro hscope ⟨rfl, hmixes⟩
    obtain ⟨made, hmade⟩ := exists_identifier_ne request.subject
    let rand : Nat → TicketRandom × Identifier := fun _ => (⟨zeros _, zeros _, zeros _⟩, made)
    refine not_holds_approvedCalls pid (AlwaysGives (generators A acceptingCalls rand)) hmade
      (fun site _ taint hpath => acceptingCalls_label A rand site hpath taint)
      (acceptingCalls_ticket A rand) hmixes ?_
    rw [holds_iff_reaches]
    intro hist c hreach
    exact hscope Unit acceptingCalls rand () ⟨zeros _, zeros _⟩ hist c (hreach.makes _)
  · intro hmixes σ calls rand w e hist c hmakes
    have hreach := hmakes.reaches (generators_gives A calls rand)
    refine (holds_iff_reaches (coreCalls pid request extension asmResult) []).mp ?_ hist c hreach
    unfold coreCalls
    split
    · trivial
    · rename_i happroved
      exact holds_approvedCalls (by simpa [not_not.mp happroved] using hmixes) _

/-- An open of a file, and an external socket. -/
def mixedRequest : OpRequest where
  signature := challengeSignature
  operation := opOpen ||| opSocketExternal
  subject := fill _ 1
  signedPtoken := fill _ 0

/-- The file has been translated to the identifier of twos. -/
def mixedExtension : OpExtension where
  translate := true
  translateSuccess := true
  metadata := fill _ 2

/-- The first ticket of that request is for a socket on the file. -/
theorem socket_ticket_on_file :
    Makes (generators (Aead.keyTag _ _) acceptingCalls fun _ =>
        (⟨zeros _, zeros _, zeros _⟩, zeros _))
      (coreCalls 7 mixedRequest (some mixedExtension) opApproved) ((), ⟨zeros _, zeros _⟩) []
      (.ticket .openTicket 7 (fill _ 2) (opOpen ||| opSocketExternal)) ∧
    ¬ InScope 7 mixedRequest (some mixedExtension) []
      (.ticket .openTicket 7 (fill _ 2) (opOpen ||| opSocketExternal)) := by
  constructor
  · exact Makes.here _ _ _
  · rintro ⟨-, -, hsubject⟩
    exact absurd (hsubject (by decide)) (by decide)

end Citadel.Enclave
