/-
Citadel.Enclave.RequestCalls — what `core_handle_request` calls.

`core_handle_request` of `Citadel.Enclave.UserspaceIo` with its calls of
`generate_ticket` and `generate_xattr_ticket` left open (`coreCalls`): a
computation of `Citadel.Lib.Calls` that says which calls are made, in
which order and with which arguments, after whatever the calls before
returned. Carried out by the two generators it is `coreHandleRequest`
(`coreHandleRequest_eq`).
-/
import Citadel.Enclave.UserspaceIo
import Citadel.Lib.Calls

namespace Citadel.Enclave

open Bytes Calls

/-! ## The calls -/

/-- The places a generator is called from. -/
inductive Site where
  | claimLabel | claimTicket | openLabel | openTicket | ptyOrSocket | shm | declassify
  deriving DecidableEq

/-- Which random bytes a call draws. -/
def Site.number : Site → Nat
  | .claimLabel => 0
  | .claimTicket => 1
  | .openLabel => 2
  | .openTicket => 3
  | .ptyOrSocket => 4
  | .shm => 5
  | .declassify => 6

/-- A call of `generate_ticket` or `generate_xattr_ticket`. -/
inductive Generator where
  | ticket (site : Site) (pid : Pid) (identifier : Identifier) (operation : Operation)
  | label (site : Site) (metadata : Option (Block maxMetadataSize)) (taint declassify : Bool)
  deriving DecidableEq

/-- Whether it worked; of a label also the identifier. -/
abbrev Generator.Answer : Generator → Type
  | .ticket _ _ _ _ => Bool
  | .label _ _ _ _ => Bool × Identifier

abbrev RequestCalls : Type → Type := Calls Generator Generator.Answer

def ticketCall (site : Site) (pid : Pid) (identifier : Identifier) (operation : Operation)
    (result : Response) : RequestCalls Response := do
  let ok ← Calls.ask (Generator.ticket site pid identifier operation)
  pure (if ok then result else opError)

def labelCall (site : Site) (metadata : Option (Block maxMetadataSize)) (taint declassify : Bool)
    (result : Response) : RequestCalls (Response × Identifier) := do
  let answer ← Calls.ask (Generator.label site metadata taint declassify)
  pure (if answer.1 then result else opError, answer.2)

/-- The metadata of a request, if it has any. -/
def metadataOf (extension : Option OpExtension) : Option (Block maxMetadataSize) :=
  extension.map (·.metadata)

/-- The identifier a translation puts in front of the metadata. -/
def identifierOf (metadata : Block maxMetadataSize) : Identifier :=
  ⟨metadata.1.take identifierLength, by
    rw [List.length_take, metadata.2]
    rfl⟩

def claimCalls (pid : Pid) (request : OpRequest) (extension : Option OpExtension)
    (result : Response) : RequestCalls Response := do
  let (result, id) ← labelCall .claimLabel (metadataOf extension) true false result
  if result ≠ opError ∧ request.operation.has opOpen then
    ticketCall .claimTicket pid id opOpen result
  else pure result

/-- The object of an open that is not part of a claim. -/
def openObject (request : OpRequest) (extension : Option OpExtension) (result : Response) :
    RequestCalls (Response × Identifier) :=
  match extension with
  | none => pure (result, request.subject)
  | some x =>
    if x.translate && !x.translateSuccess then
      labelCall .openLabel (some x.metadata) true false result
    else pure (result, if x.translate then identifierOf x.metadata else request.subject)

/-- The file of the path has no identifier yet. -/
def inducts (extension : Option OpExtension) : Bool :=
  extension.elim false fun x => x.translate && !x.translateSuccess

/-- The object to open when it has its label already: what the path was
translated to, or the subject. -/
def namedObject (request : OpRequest) (extension : Option OpExtension) : Identifier :=
  extension.elim request.subject fun x =>
    if x.translate then identifierOf x.metadata else request.subject

theorem openObject_eq (request : OpRequest) (extension : Option OpExtension) (result : Response) :
    openObject request extension result =
      if inducts extension then labelCall .openLabel (metadataOf extension) true false result
      else pure (result, namedObject request extension) := by
  cases extension with
  | none => rfl
  | some x => rfl

def openCalls (pid : Pid) (request : OpRequest) (extension : Option OpExtension)
    (result : Response) : RequestCalls Response := do
  let (result, identifier) ← openObject request extension result
  if result ≠ opError then ticketCall .openTicket pid identifier request.operation result
  else pure result

/-- The mask once a claim has taken the open bit. -/
def remaining (operation : Operation) : Operation :=
  if operation.has opClaim then operation &&& ~~~opOpen else operation

/-- Make the calls if the bit is set. -/
def whenSet (bit : Bool) (calls : Response → RequestCalls Response) (result : Response) :
    RequestCalls Response :=
  if bit then calls result else pure result

def declassifyCalls (extension : Option OpExtension) (result : Response) :
    RequestCalls Response := do
  let (result, _) ← labelCall .declassify (metadataOf extension) false true result
  pure result

/-- What follows an approval. -/
def approvedCalls (pid : Pid) (request : OpRequest) (extension : Option OpExtension)
    (result : Response) : RequestCalls Response := do
  let op := remaining request.operation
  let result ← whenSet (request.operation.has opClaim) (claimCalls pid request extension) result
  let result ← whenSet (op.has opOpen) (openCalls pid request extension) result
  let result ← whenSet (op.has (opPtyAccess ||| opSocket))
    (ticketCall .ptyOrSocket pid request.subject request.operation) result
  let result ← whenSet (op.has opShm)
    (ticketCall .shm pid request.subject request.operation) result
  whenSet (op.has opDeclassify) (declassifyCalls extension) result

/-- `core_handle_request`, by its calls. -/
def coreCalls (pid : Pid) (request : OpRequest) (extension : Option OpExtension)
    (asmResult : Response) : RequestCalls Response :=
  if asmResult ≠ opApproved then pure asmResult else approvedCalls pid request extension asmResult

theorem has_or (op a b : Operation) : op.has (a ||| b) = (op.has a || op.has b) := by
  have hzero : op &&& (a ||| b) = 0#16 ↔ op &&& a = 0#16 ∧ op &&& b = 0#16 := by
    rw [BitVec.and_or_distrib_left, BitVec.or_eq_zero_iff]
  rw [Bool.eq_iff_iff]
  simp only [Operation.has, bne_iff_ne, Bool.or_eq_true]
  exact (not_congr hzero).trans not_and_or

/-- A bare claim is one label. -/
theorem coreCalls_claim {request : OpRequest} (h : request.operation = opClaim) (pid : Pid)
    (extension : Option OpExtension) :
    coreCalls pid request extension opApproved =
      .call (.label .claimLabel (metadataOf extension) true false) fun answer =>
        .done (if answer.1 then opApproved else opError) := by
  unfold coreCalls approvedCalls claimCalls
  simp only [ne_eq, not_true_eq_false, if_false, h, show opClaim.has opOpen = false by decide,
    show opClaim.has opClaim = true by decide, Bool.false_eq_true, and_false,
    show (remaining opClaim).has opOpen = false by decide,
    show (remaining opClaim).has (opPtyAccess ||| opSocket) = false by decide,
    show (remaining opClaim).has opShm = false by decide,
    show (remaining opClaim).has opDeclassify = false by decide]
  rfl

/-- A claim takes the open bit and no other. -/
theorem remaining_has {op mask : Operation} (hmask : ~~~opOpen &&& mask = mask) :
    (remaining op).has mask = op.has mask := by
  unfold remaining Operation.has
  split
  · rw [BitVec.and_assoc, hmask]
  · rfl

theorem remaining_open (op : Operation) :
    (remaining op).has opOpen = (!op.has opClaim && op.has opOpen) := by
  unfold remaining
  cases hclaim : op.has opClaim with
  | true =>
    rw [if_pos rfl, Operation.has, BitVec.and_assoc, show ~~~opOpen &&& opOpen = 0#16 from rfl,
      BitVec.and_zero]
    rfl
  | false => rfl

section Holds

variable {gives : (c : Generator) → c.Answer → Prop}
  {P : History Generator Generator.Answer → Generator → Prop}
  {Q : History Generator Generator.Answer → Response → Prop}
  {hist : History Generator Generator.Answer}

theorem holds_whenSet (bit : Bool) (x : Response → RequestCalls Response) (result : Response) :
    Holds gives P (whenSet bit x result) Q hist ↔
      (bit = true → Holds gives P (x result) Q hist) ∧ (bit = false → Q hist result) := by
  cases bit with
  | true => simp [whenSet]
  | false => simp [whenSet]

theorem holds_whenSet_of {bit : Bool} {x : Response → RequestCalls Response} {result : Response}
    (hx : bit = true → Holds gives P (x result) (fun _ _ => True) hist) :
    Holds gives P (whenSet bit x result) (fun _ _ => True) hist :=
  (holds_whenSet bit x result).mpr ⟨hx, fun _ => trivial⟩

theorem holds_ticketCall {site : Site} {pid : Pid} {identifier : Identifier}
    {operation : Operation} (h : P hist (.ticket site pid identifier operation))
    (result : Response) :
    Holds gives P (ticketCall site pid identifier operation result) (fun _ _ => True) hist :=
  ⟨h, fun _ _ => trivial⟩

/-- A ticket that may be left out. -/
theorem holds_ticket_ite {c : Prop} [Decidable c] {site : Site} {pid : Pid}
    {identifier : Identifier} {operation : Operation}
    (h : P hist (.ticket site pid identifier operation)) (result : Response) :
    Holds gives P (if c then ticketCall site pid identifier operation result else pure result)
      (fun _ _ => True) hist := by
  split
  · exact holds_ticketCall h result
  · trivial

theorem holds_labelCall {site : Site} {metadata : Option (Block maxMetadataSize)}
    {taint declassify : Bool} (h : P hist (.label site metadata taint declassify))
    (result : Response) :
    Holds gives P (labelCall site metadata taint declassify result) (fun _ _ => True) hist :=
  ⟨h, fun _ _ => trivial⟩

end Holds

/-- `P`, of every call a request can lead to. -/
structure EveryCall (P : Generator → Prop) (pid : Pid) (request : OpRequest)
    (extension : Option OpExtension) : Prop where
  claimLabel : request.operation.has opClaim = true →
    P (.label .claimLabel (metadataOf extension) true false)
  claimTicket : request.operation.has opClaim = true →
    ∀ identifier, P (.ticket .claimTicket pid identifier opOpen)
  openLabel : request.operation.has opClaim = false → request.operation.has opOpen = true →
    inducts extension = true → P (.label .openLabel (metadataOf extension) true false)
  openTicket : request.operation.has opClaim = false → request.operation.has opOpen = true →
    ∀ identifier, (inducts extension = false → identifier = namedObject request extension) →
      P (.ticket .openTicket pid identifier request.operation)
  ptyOrSocket : P (.ticket .ptyOrSocket pid request.subject request.operation)
  shm : P (.ticket .shm pid request.subject request.operation)
  declassify : request.operation.has opDeclassify = true →
    P (.label .declassify (metadataOf extension) false true)

theorem EveryCall.holds {P : Generator → Prop} {pid : Pid} {request : OpRequest}
    {extension : Option OpExtension} (h : EveryCall P pid request extension)
    {gives : (c : Generator) → c.Answer → Prop} {hist : History Generator Generator.Answer}
    (result : Response) :
    Holds gives (fun _ => P) (coreCalls pid request extension result) (fun _ _ => True) hist := by
  unfold coreCalls
  split
  · trivial
  · refine Holds.seq (holds_whenSet_of fun hclaim => ?_) fun result hist =>
      Holds.seq (holds_whenSet_of fun hopen => ?_) fun result hist =>
      Holds.seq (holds_whenSet_of fun _ => holds_ticketCall h.ptyOrSocket _) fun result hist =>
      Holds.seq (holds_whenSet_of fun _ => holds_ticketCall h.shm _) fun result hist =>
      holds_whenSet_of fun hdeclassify => ?_
    · exact Holds.seq (holds_labelCall (h.claimLabel hclaim) _) fun out _ =>
        holds_ticket_ite (h.claimTicket hclaim out.2) _
    · rw [remaining_open, Bool.and_eq_true, Bool.not_eq_true'] at hopen
      unfold openCalls
      rw [openObject_eq]
      cases hinducts : inducts extension with
      | true =>
        refine Holds.seq (holds_labelCall (h.openLabel hopen.1 hopen.2 hinducts) _) fun out _ =>
          holds_ticket_ite (h.openTicket hopen.1 hopen.2 out.2 fun hnot => ?_) _
        rw [hinducts] at hnot
        cases hnot
      | false => exact holds_ticket_ite (h.openTicket hopen.1 hopen.2 _ fun _ => rfl) _
    · rw [remaining_has rfl] at hdeclassify
      exact Holds.seq (holds_labelCall (h.declassify hdeclassify) _) fun _ _ => trivial

/-! ## Carried out -/

variable {σ : Type} (A : Aead AesKey ivLength tagLength) (calls : HostCalls σ)
  (rand : Nat → TicketRandom × Identifier)

/-- The two generators, on the world and the enclave. -/
def generators : (c : Generator) → σ × Enclave → Option ((σ × Enclave) × c.Answer)
  | .ticket site pid identifier operation, s =>
    (generateTicket A calls.installTicket s.1 s.2 (rand site.number).1 pid identifier
      operation).map fun out => ((out.1, out.2.1), out.2.2)
  | .label site metadata taint declassify, s =>
    (metadataPath metadata).bind fun path =>
      (generateXattrTicket A calls.installXattr s.1 s.2 (rand site.number).1 (rand site.number).2
        path (if declassify then none else some (zeros _)) taint declassify).map fun out =>
          ((out.1, out.2.1), out.2.2.2, out.2.2.1.getD (zeros _))

/-- A part of the handling, as a step on what there is so far. -/
def carryOut (x : Response → RequestCalls Response) (p : Progress σ) : Option (Progress σ) :=
  ((x p.result).run (generators A calls rand) (p.world, p.enclave)).map fun out =>
    ⟨out.1.1, out.1.2, out.2⟩

theorem carryOut_bind (x y : Response → RequestCalls Response) (p : Progress σ) :
    carryOut A calls rand (fun result => x result >>= y) p =
      (carryOut A calls rand x p).bind (carryOut A calls rand y) := by
  simp only [carryOut, Calls.run_bind]
  cases (x p.result).run (generators A calls rand) (p.world, p.enclave) <;> rfl

theorem carryOut_whenSet (bit : Bool) (x : Response → RequestCalls Response) (p : Progress σ) :
    carryOut A calls rand (whenSet bit x) p =
      if bit then carryOut A calls rand x p else some p := by
  cases bit <;> rfl

theorem carryOut_ticketCall (site : Site) (pid : Pid) (identifier : Identifier)
    (operation : Operation) (p : Progress σ) :
    carryOut A calls rand (ticketCall site pid identifier operation) p =
      ticketStep A calls rand site.number pid identifier operation p := by
  simp only [carryOut, ticketCall, Calls.run_bind, Calls.run_ask, generators, ticketStep]
  cases generateTicket A calls.installTicket p.world p.enclave (rand site.number).1 pid identifier
    operation with
  | none => rfl
  | some out => rfl

theorem run_labelCall (site : Site) (metadata : Option (Block maxMetadataSize))
    (taint declassify : Bool) (p : Progress σ) :
    ((labelCall site metadata taint declassify p.result).run (generators A calls rand)
      (p.world, p.enclave)).map (fun out => ((⟨out.1.1, out.1.2, out.2.1⟩ : Progress σ), out.2.2)) =
        labelStep A calls rand site.number metadata taint declassify p := by
  simp only [labelCall, Calls.run_bind, Calls.run_ask, generators, labelStep]
  cases metadataPath metadata with
  | none => rfl
  | some path =>
    simp only [Option.bind_some, Option.bind_eq_bind]
    cases generateXattrTicket A calls.installXattr p.world p.enclave (rand site.number).1
      (rand site.number).2 path (if declassify then none else some (zeros _)) taint declassify with
    | none => rfl
    | some out => rfl

theorem carryOut_claimCalls (pid : Pid) (request : OpRequest) (extension : Option OpExtension)
    (p : Progress σ) :
    carryOut A calls rand (claimCalls pid request extension) p =
      claimStep A calls rand pid request (metadataOf extension) p := by
  have hlabel := run_labelCall A calls rand .claimLabel (metadataOf extension) true false p
  rw [claimStep, show 0 = Site.claimLabel.number from rfl, ← hlabel]
  simp only [carryOut, claimCalls, Calls.run_bind]
  cases (labelCall .claimLabel (metadataOf extension) true false p.result).run
    (generators A calls rand) (p.world, p.enclave) with
  | none => rfl
  | some out =>
    simp only [Option.bind_some, Option.map_some, Option.bind_eq_bind]
    split
    · exact carryOut_ticketCall A calls rand .claimTicket pid out.2.2 opOpen
        ⟨out.1.1, out.1.2, out.2.1⟩
    · rfl

theorem read_identifierOf (metadata : Block maxMetadataSize) :
    Bytes.read metadata.1 0 identifierLength = some (identifierOf metadata) := by
  rw [Bytes.read, dif_pos (by rw [metadata.2]; decide)]
  rfl

theorem carryOut_openCalls (pid : Pid) (request : OpRequest) (extension : Option OpExtension)
    (p : Progress σ) :
    carryOut A calls rand (openCalls pid request extension) p =
      openStep A calls rand pid request (metadataOf extension)
        (extension.elim false (·.translate)) (extension.elim false (·.translateSuccess)) p := by
  -- the second half, once the object is known
  have hticket : ∀ (p : Progress σ) (identifier : Identifier),
      ((if p.result ≠ opError then ticketCall .openTicket pid identifier request.operation p.result
        else pure p.result).run (generators A calls rand) (p.world, p.enclave)).map
          (fun out => (⟨out.1.1, out.1.2, out.2⟩ : Progress σ)) =
        if p.result ≠ opError then
          ticketStep A calls rand 3 pid identifier request.operation p
        else some p := by
    intro p identifier
    split
    · exact carryOut_ticketCall A calls rand .openTicket pid identifier request.operation p
    · rfl
  rw [openStep]
  simp only [carryOut, openCalls, Calls.run_bind]
  cases extension with
  | none => exact hticket p request.subject
  | some x =>
    cases htranslate : x.translate with
    | false =>
      simp only [openObject, htranslate, Option.elim_some]
      exact hticket p request.subject
    | true =>
      cases hsuccess : x.translateSuccess with
      | false =>
        have hlabel := run_labelCall A calls rand .openLabel (some x.metadata) true false p
        simp only [openObject, htranslate, hsuccess, Option.elim_some, metadataOf,
          Option.map_some, Bool.not_false, Bool.and_self, if_true,
          show 2 = Site.openLabel.number from rfl, ← hlabel]
        cases (labelCall .openLabel (some x.metadata) true false p.result).run
          (generators A calls rand) (p.world, p.enclave) with
        | none => rfl
        | some out => exact hticket ⟨out.1.1, out.1.2, out.2.1⟩ out.2.2
      | true =>
        simp only [openObject, htranslate, hsuccess, Option.elim_some, metadataOf,
          Option.map_some, read_identifierOf]
        exact hticket p (identifierOf x.metadata)

theorem carryOut_declassifyCalls (extension : Option OpExtension) (p : Progress σ) :
    carryOut A calls rand (declassifyCalls extension) p =
      (labelStep A calls rand 6 (metadataOf extension) false true p).map Prod.fst := by
  have hlabel := run_labelCall A calls rand .declassify (metadataOf extension) false true p
  rw [show 6 = Site.declassify.number from rfl, ← hlabel]
  simp only [carryOut, declassifyCalls, Calls.run_bind]
  cases (labelCall .declassify (metadataOf extension) false true p.result).run
    (generators A calls rand) (p.world, p.enclave) <;> rfl

/-- A step that may be left out, and what follows it. -/
theorem ite_some_bind {α β : Type} {c : Prop} [Decidable c] {x : Option α} {a : α}
    {k l : α → Option β} (hkl : ∀ a, k a = l a) :
    (if c then x >>= k else some a >>= k) = (if c then x else some a).bind l := by
  obtain rfl : k = l := funext hkl
  split <;> rfl

/-- The calls, carried out, are `core_handle_request`. -/
theorem coreHandleRequest_eq (pid : Pid) (request : OpRequest) (extension : Option OpExtension)
    (p : Progress σ) :
    coreHandleRequest A calls rand pid request (metadataOf extension)
        (extension.elim false (·.translate)) (extension.elim false (·.translateSuccess)) p =
      carryOut A calls rand (coreCalls pid request extension) p := by
  unfold coreHandleRequest
  split
  case isTrue hresult =>
    rw [carryOut, coreCalls, if_pos hresult]
    rfl
  case isFalse hresult =>
    rw [show carryOut A calls rand (coreCalls pid request extension) p =
      carryOut A calls rand (approvedCalls pid request extension) p by
        rw [carryOut, carryOut, coreCalls, if_neg hresult]]
    unfold approvedCalls
    simp only [carryOut_bind, carryOut_whenSet, carryOut_claimCalls, carryOut_openCalls,
      carryOut_ticketCall, carryOut_declassifyCalls]
    -- one step of the source after the other
    refine ite_some_bind fun p => ite_some_bind fun p => ite_some_bind fun p =>
      ite_some_bind fun p => ?_
    refine if_congr Iff.rfl ?_ rfl
    cases labelStep A calls rand 6 (metadataOf extension) false true p <;> rfl

/-! ## Messages -/

/-- The message is a request with a process token of this pid. -/
structure Authentic (e : Enclave) (data : List UInt8) (pid : Pid) (request : OpRequest)
    (extension : Option OpExtension) (token : PtokenProtected) : Prop where
  reads : readRequest data = some (request, extension)
  signature : request.signature = challengeSignature
  decrypts : ∃ plain, Crypto.aesDecrypt A e.ptokenAesKey request.signedPtoken.1 =
    some (plain, ptokenProtectedSize) ∧ PtokenProtected.read plain = some token
  tokenSignature : token.signature = challengeSignature
  tokenPid : pid = token.pid

theorem handleRequest_authentic {e : Enclave} {data : List UInt8} {pid : Pid}
    {request : OpRequest} {extension : Option OpExtension} {token : PtokenProtected}
    (h : Authentic A e data pid request extension token) (w : σ) :
    handleRequest A calls rand w e data pid ptokenLength =
      (serveRequest A calls rand w e pid request extension).map (·, some token.ptoken) := by
  obtain ⟨plain, hplain, htoken⟩ := h.decrypts
  simp only [handleRequest, h.reads, hplain, htoken, h.signature, h.tokenSignature,
    Option.bind_eq_bind, Option.bind_some, ne_eq, not_true_eq_false, if_false]
  rw [if_neg (not_not_intro h.tokenPid)]
  cases serveRequest A calls rand w e pid request extension with
  | none => rfl
  | some p => rfl

/-- A request without the signature is refused at the door. -/
theorem handleRequest_unsigned {e : Enclave} {data : List UInt8} {request : OpRequest}
    {extension : Option OpExtension} (hreads : readRequest data = some (request, extension))
    (hsig : request.signature ≠ challengeSignature) (w : σ) (pid : Pid) :
    handleRequest A calls rand w e data pid ptokenLength = some (⟨w, e, opInvalid⟩, none) := by
  simp [handleRequest, hreads, hsig]

/-- A request that is answered was refused at the door, or it is authentic
and served. -/
theorem handleRequest_cases {e : Enclave} {data : List UInt8} {pid : Pid} {request : OpRequest}
    {extension : Option OpExtension} {w : σ} {p : Progress σ}
    {ptoken : Option (Block ptokenLength)}
    (hreads : readRequest data = some (request, extension))
    (h : handleRequest A calls rand w e data pid ptokenLength = some (p, ptoken)) :
    (p.world = w ∧ p.enclave = e) ∨
      ∃ token, Authentic A e data pid request extension token ∧
        serveRequest A calls rand w e pid request extension = some p := by
  simp only [handleRequest, ne_eq, not_true_eq_false, if_false, hreads] at h
  split at h
  · cases h
    exact .inl ⟨rfl, rfl⟩
  · rename_i hsig
    obtain ⟨⟨plain, outlen⟩, hplain, h⟩ := Option.bind_eq_some_iff.mp h
    split at h
    · cases h
      exact .inl ⟨rfl, rfl⟩
    · rename_i hlen
      obtain ⟨token, htoken, h⟩ := Option.bind_eq_some_iff.mp h
      split at h
      · cases h
        exact .inl ⟨rfl, rfl⟩
      · rename_i htokenSig
        split at h
        · cases h
          exact .inl ⟨rfl, rfl⟩
        · rename_i hpid
          obtain ⟨served, hserved, hsome⟩ := Option.bind_eq_some_iff.mp h
          cases hsome
          rw [not_not] at hsig hlen htokenSig hpid
          refine .inr ⟨token, ⟨hreads, hsig, ⟨plain, ?_, htoken⟩, htokenSig, hpid⟩, hserved⟩
          rw [hplain, show outlen = ptokenProtectedSize from hlen]

/-- `handle_request` makes the call for the message: the caller is known,
and the calls are those of `core_handle_request` after the policy. -/
def RequestMakes (w : σ) (e : Enclave) (data : List UInt8) (pid : Pid)
    (hist : History Generator Generator.Answer) (c : Generator) : Prop :=
  ∃ request extension token, Authentic A e data pid request extension token ∧
    Makes (generators A calls rand)
      (coreCalls pid request extension
        (calls.asmHandleRequest w pid request (metadataOf extension)).2)
      ((calls.asmHandleRequest w pid request (metadataOf extension)).1, e) hist c

theorem serveRequest_eq (w : σ) (e : Enclave) (pid : Pid) (request : OpRequest)
    (extension : Option OpExtension) :
    serveRequest A calls rand w e pid request extension =
      carryOut A calls rand (coreCalls pid request extension)
        ⟨(calls.asmHandleRequest w pid request (metadataOf extension)).1, e,
          (calls.asmHandleRequest w pid request (metadataOf extension)).2⟩ := by
  rw [← coreHandleRequest_eq]
  rfl

/-- A bare claim that is approved is served by its label. -/
theorem serveRequest_claim {w w₁ w₂ : σ} {e e' : Enclave} {pid : Pid} {request : OpRequest}
    {extension : Option OpExtension} {identifier : Identifier}
    (hop : request.operation = opClaim)
    (hpolicy : calls.asmHandleRequest w pid request (metadataOf extension) = (w₁, opApproved))
    (hcall : generators A calls rand (.label .claimLabel (metadataOf extension) true false)
      (w₁, e) = some ((w₂, e'), (true, identifier))) :
    serveRequest A calls rand w e pid request extension = some ⟨w₂, e', opApproved⟩ := by
  rw [serveRequest_eq, carryOut, hpolicy, coreCalls_claim hop, Calls.run, hcall]
  rfl

/-! ## What the generators can answer -/

/-- The answers a call can give, whatever the world is like: a label is
installed only where there is a path. -/
def Generator.Gives : (c : Generator) → c.Answer → Prop
  | .ticket _ _ _ _, _ => True
  | .label _ metadata _ _, _ => (metadataPath metadata).isSome = true

theorem generators_gives {σ : Type} (A : Aead AesKey ivLength tagLength) (calls : HostCalls σ)
    (rand : Nat → TicketRandom × Identifier) (c : Generator) (s : σ × Enclave)
    (out : (σ × Enclave) × c.Answer) (hout : generators A calls rand c s = some out) :
    c.Gives out.2 := by
  cases c with
  | ticket site pid identifier operation => trivial
  | label site metadata taint declassify =>
    simp only [generators, Option.bind_eq_some_iff] at hout
    obtain ⟨path, hpath, -⟩ := hout
    exact Option.isSome_iff_exists.mpr ⟨path, hpath⟩

/-- A world in which every installation works. -/
def acceptingCalls : HostCalls Unit where
  asmHandleRequest := fun w _ _ _ => (w, opApproved)
  installTicket := fun w _ => some (w, 1)
  installXattr := fun w _ _ => some (w, acceptedSignal)

theorem acceptingCalls_ticket (A : Aead AesKey ivLength tagLength)
    (rand : Nat → TicketRandom × Identifier) (site : Site) (pid : Pid) (identifier : Identifier)
    (operation : Operation) :
    AlwaysGives (generators A acceptingCalls rand) (.ticket site pid identifier operation) true :=
  fun _ => ⟨_, rfl⟩

theorem acceptingCalls_label (A : Aead AesKey ivLength tagLength)
    (rand : Nat → TicketRandom × Identifier) (site : Site)
    {metadata : Option (Block maxMetadataSize)} (hpath : (metadataPath metadata).isSome = true)
    (taint : Bool) :
    AlwaysGives (generators A acceptingCalls rand) (.label site metadata taint false)
      (true, (rand site.number).2) := by
  intro s
  obtain ⟨path, hpath⟩ := Option.isSome_iff_exists.mp hpath
  refine ⟨?_, ?_⟩
  rotate_left
  · simp only [generators, hpath, Option.bind_some]
    rfl

end Citadel.Enclave
