/-
Citadel.Protocol.Deployment — the daemon with its enclave and the kernel
module below it, as one system.

A run interleaves messages of clients, which are any bytes from any pid,
with the hooks of the kernel, changes of labels, and writes by others to
the module's two inputs; the daemon has its own socket labelled when it
starts. The socket reports a pid for each message
(`ClientMessage`); what others write does not authenticate under the
session key of the moment (`Foreign`). Policy, path names, clocks,
allocations and the rest of the outside are those of the message. The keys
of the two ends need not be in step.

All that a message does to the kernel is a run of the module in which
every ticket is a call that `core_handle_request` makes for it
(`message_projects`). So an access that was allowed can be followed back:
through the ring of the credential, the queue of the pid and the update
file, to a request with a process token of that pid that the policy
approved, less than 15 seconds before (`access_traces_to_request`).
-/
import Citadel.Lsm.Provenance
import Citadel.Protocol.HostLabels

namespace Citadel

open Bytes Enclave Calls Daemon

variable {A : Gcm}

/-! ## Messages and other events -/

/-- A message of a client, with everything that is outside of daemon and
enclave while it is served. -/
structure ClientMessage where
  names : List UInt8 → Option Nat
  policy : Host → Pid → OpRequest → Option (Block maxMetadataSize) → Response
  copy : Host → CopyEnv
  update : Host → UpdateEnv
  install : Host → InstallEnv
  env : MessageEnv
  pid : Pid
  data : List UInt8
  /-- `SO_PEERCRED` reports no negative pid. -/
  nonneg : 0 ≤ pid.toInt

def ClientMessage.calls (A : Gcm) (m : ClientMessage) : HostCalls Host :=
  hostCalls A m.names m.policy m.copy m.update m.install

/-- The event inserts a ticket by itself. -/
def LsmEvent.inserts : LsmEvent → Bool
  | .insertTicket _ _ _ _ => true
  | _ => false

/-- What is outside while `protect_socket` runs. -/
structure SocketEnv where
  names : List UInt8 → Option Nat
  install : InstallEnv
  rnd : TicketRandom
  random : Identifier

inductive DeployEvent where
  | message (m : ClientMessage)
  -- from `main`, after the registration
  | protectSocket (env : SocketEnv)
  | kernel (e : LsmEvent) (h : e.inserts = false)
  | update (copy : CopyEnv) (env : UpdateEnv) (data : List UInt8)
  | install (env : InstallEnv) (i : Nat) (value : List UInt8)

abbrev Deployment := DaemonState Host

def Deployment.system (d : Deployment) : System := d.world.lsm.system

def Deployment.setLsm (d : Deployment) (lsm : Lsm) : Deployment :=
  { d with world := { d.world with lsm := lsm } }

/-- One event; `none` is a memory fault. -/
def deployStep (A : Gcm) (d : Deployment) : DeployEvent → Option Deployment
  | .message m =>
    daemonStep A (m.calls A) hostLabels m.names d (.message m.env m.pid m.data)
  | .protectSocket env =>
    (protectSocket A (fun h path data => Daemon.installXattr A env.install h (env.names path) data)
      d.world d.enclave env.rnd env.random).map fun out =>
        { d with world := out.1, enclave := out.2 }
  | .kernel e _ =>
    (lsmStep d.system e).map fun s => d.setLsm { d.world.lsm with system := s }
  | .update copy env data =>
    (updateReceive A copy env d.world.lsm data).map fun out => d.setLsm out.1
  | .install env i value =>
    (trmInodeSetxattrInstall A env d.world.lsm i value).map fun out => d.setLsm out.1

def deployRun (A : Gcm) (d : Deployment) (evs : List DeployEvent) : Option Deployment :=
  evs.foldlM (deployStep A) d

theorem deployRun_singleton {d d' : Deployment} {e : DeployEvent}
    (h : deployStep A d e = some d') : deployRun A d [e] = some d' := by
  simp [deployRun, h]

/-- What others write to the inputs does not authenticate. -/
def Foreign (A : Gcm) (d : Deployment) : DeployEvent → Prop
  | .update _ _ data => authenticates A d.world.lsm.aesKey data = false
  | .install _ _ value => authenticates A d.world.lsm.aesKey value = false
  | _ => True

/-! ## The OCALLs in the kernel -/

/-- A label message writes the data and the attributes of an inode, and
nothing else of the system. -/
theorem xattrEnclaveInstallation_system {env : InstallEnv} {s s' : Lsm} {i : Nat}
    {value : List UInt8} {r : Int}
    (h : xattrEnclaveInstallation A env s i value = some (s', r)) :
    s'.system = { s.system with data := s'.system.data, disk := s'.system.disk } := by
  rcases xattrEnclaveInstallation_cases h with ⟨rfl, -⟩ | ⟨hdr, hdecl⟩ | ⟨hdr, rcrd, hind⟩
  · rfl
  · rcases declassify_cases hdecl with ⟨rfl, -⟩ | ⟨rfl, -⟩ | ⟨rfl, -⟩ <;> rfl
  · simp only [induct] at hind
    split at hind
    · cases hind
    · split at hind <;> cases hind <;> rfl

/-- An update of the enclave that is taken was sealed under the module's
key, and the module had what it needs to read it. -/
theorem processReceivedUpdate_taken (hA : A.Ideal) {env : UpdateEnv} {s s' : Lsm}
    {e : Enclave} {rnd : TicketRandom} {rcrd : UpdateRecord} {log : List (UpdateRecord × Bool)}
    (hrun : processReceivedUpdate A env s (ticketMessage A e rnd rcrd) = some (s', log)) :
    s' = s ∨ (s.registered = true ∧ env.plain = true ∧ env.crypto = true ∧
      e.aesKey = s.aesKey) := by
  by_cases hdec : trmAesDecrypt A env.crypto s.aesKey (ticketMessage A e rnd rcrd) = none
  · exact .inl (eq_of_processReceivedUpdate_undecrypted hdec hrun).1
  have hcrypto : env.crypto = true := by
    cases hc : env.crypto with
    | true => rfl
    | false =>
      rw [hc] at hdec
      exact absurd rfl hdec
  have hkey : e.aesKey = s.aesKey := by
    by_contra hk
    exact hdec (trmAesDecrypt_eq_none
      (by rw [authenticates_ticketMessage hA]; exact decide_eq_false hk) _)
  rcases processReceivedUpdate_cases hrun with ⟨hs, -⟩ | ⟨hreg, hplain, -⟩
  · exact .inl hs
  · exact .inr ⟨hreg, hplain, hcrypto, hkey⟩

/-- `install_ticket` with a message of the enclave: the module inserts its
record, or does nothing. -/
theorem installTicket_lsmStep (hA : A.Ideal) {copy : CopyEnv} {env : UpdateEnv} {h : Host}
    {e : Enclave} {rnd : TicketRandom} {rcrd : UpdateRecord} {out : Host × Int}
    (hinstall : Daemon.installTicket A copy env h (ticketMessage A e rnd rcrd) = some out) :
    out.1.lsm.system = h.lsm.system ∨
      lsmStep h.lsm.system (.insertTicket (env.insert 0).rebalance (env.insert 0).allocs
        (env.insert 0).now rcrd) = some out.1.lsm.system := by
  obtain ⟨⟨lsm, n, log⟩, hrecv, hout⟩ := Option.bind_eq_some_iff.mp hinstall
  cases hout
  rcases updateReceive_cases hrecv with ⟨rfl, -⟩ | ⟨-, -, -, hproc⟩
  · exact .inl rfl
  rcases processReceivedUpdate_taken hA hproc with rfl | ⟨hreg, hplain, hcrypto, hkey⟩
  · exact .inl rfl
  rw [processReceivedUpdate_ticketMessage env hreg hplain hcrypto hkey] at hproc
  obtain ⟨⟨k, success⟩, hins, hstate⟩ := Option.map_eq_some_iff.mp hproc
  cases hstate
  right
  rw [lsmStep, hins]
  rfl

/-- `install_xattr`: the module changes labels, if anything. -/
theorem installXattr_lsmStep {env : InstallEnv} {h : Host} {path : Option Nat}
    {ticketData : List UInt8} {out : Host × Int}
    (hinstall : installXattr A env h path ticketData = some out) :
    lsmStep h.lsm.system (.labels out.1.lsm.system.data out.1.lsm.system.disk
      h.lsm.system.citadelPid) = some out.1.lsm.system := by
  rcases installXattr_cases hinstall with hsame | ⟨i, r, -, htaken⟩
  · rw [hsame]
    rfl
  · rw [lsmStep, xattrEnclaveInstallation_system htaken]

/-! ## A message in the kernel -/

/-- The tickets and labels of a message, as events of the module. `Made`
is what is known of an insertion. -/
def Projects (Made : Int → UpdateRecord → Prop) (s s' : System) : Prop :=
  ∃ evs, lsmRun s evs = some s' ∧ (∀ e ∈ evs, e.caller = none) ∧
    ∀ rb a now r, LsmEvent.insertTicket rb a now r ∈ evs → Made now r

theorem Projects.refl (Made : Int → UpdateRecord → Prop) (s : System) : Projects Made s s :=
  ⟨[], rfl, by simp, by simp⟩

theorem Projects.trans {Made : Int → UpdateRecord → Prop} {s₁ s₂ s₃ : System}
    (h : Projects Made s₁ s₂) (h' : Projects Made s₂ s₃) : Projects Made s₁ s₃ := by
  obtain ⟨evs, hrun, hcaller, hmade⟩ := h
  obtain ⟨evs', hrun', hcaller', hmade'⟩ := h'
  refine ⟨evs ++ evs', ?_, ?_, ?_⟩
  · rw [lsmRun, List.foldlM_append]
    exact Option.bind_eq_some_iff.mpr ⟨s₂, hrun, hrun'⟩
  · intro e he
    exact (List.mem_append.mp he).elim (hcaller e) (hcaller' e)
  · intro rb a now r he
    exact (List.mem_append.mp he).elim (hmade rb a now r) (hmade' rb a now r)

theorem Projects.of_step {Made : Int → UpdateRecord → Prop} {s s' : System} {e : LsmEvent}
    (hstep : lsmStep s e = some s') (hcaller : e.caller = none)
    (hmade : ∀ rb a now r, e = .insertTicket rb a now r → Made now r) : Projects Made s s' := by
  refine ⟨[e], ?_, ?_, ?_⟩
  · simp [lsmRun, hstep]
  · simpa using hcaller
  · intro rb a now r he
    exact hmade rb a now r (List.mem_singleton.mp he).symm

/-- What a generator leaves of the world is what its OCALL leaves. -/
theorem generateTicket_world {σ : Type} {install : σ → List UInt8 → Option (σ × Int)} {w w' : σ}
    {e e' : Enclave} {rnd : TicketRandom} {pid : Pid} {identifier : Identifier}
    {operation : Operation} {ok : Bool}
    (h : generateTicket A install w e rnd pid identifier operation = some (w', e', ok)) :
    ∃ ret, install w (ticketMessage A e rnd ⟨pid, identifier, operation⟩) = some (w', ret) := by
  obtain ⟨⟨w₁, ret⟩, hinstall, hres⟩ := Option.bind_eq_some_iff.mp h
  dsimp only at hres
  split at hres
  · cases hres
    exact ⟨ret, hinstall⟩
  · cases hres
    exact ⟨ret, hinstall⟩

theorem generateXattrTicketCore_world {σ π : Type}
    {install : σ → π → List UInt8 → Option (σ × Int)} {w w' : σ} {e e' : Enclave}
    {rnd : TicketRandom} {random : Identifier} {path : π} {internal : Bool}
    {identifier id : Option Identifier} {taint declassify ok : Bool}
    (h : generateXattrTicketCore A install w e rnd random path internal identifier taint
      declassify = some (w', e', id, ok)) :
    ∃ ret, install w path (ticketMessage A e rnd (xattrRecord internal taint declassify random)) =
      some (w', ret) := by
  obtain ⟨⟨w₁, ret⟩, hinstall, hres⟩ := Option.bind_eq_some_iff.mp h
  dsimp only at hres
  split at hres
  · cases hres
    exact ⟨ret, hinstall⟩
  · cases hres
    exact ⟨ret, hinstall⟩

/-- What `protect_socket` leaves of the world is what its OCALL leaves. -/
theorem protectSocket_world {d d' : Deployment} {env : SocketEnv}
    (h : deployStep A d (.protectSocket env) = some d') :
    ∃ ret, Daemon.installXattr A env.install d.world (env.names citadelIpcFile)
      (ticketMessage A d.enclave env.rnd (xattrRecord true true false env.random)) =
        some (d'.world, ret) := by
  obtain ⟨⟨w, e⟩, hprotect, rfl⟩ := Option.map_eq_some_iff.mp h
  obtain ⟨⟨w', e', id, ok⟩, hcore, hout⟩ := Option.map_eq_some_iff.mp hprotect
  cases hout
  exact generateXattrTicketCore_world hcore

/-- One call of a generator. -/
theorem generators_projects (hA : A.Ideal) (m : ClientMessage) {c : Generator}
    {s : Host × Enclave} {out : (Host × Enclave) × c.Answer}
    (hout : generators A (m.calls A) m.env.rand c s = some out) :
    Projects (fun now r => (∃ site, c = .ticket site r.pid r.identifier r.operation) ∧
      ∃ h, now = ((m.update h).insert 0).now) s.1.lsm.system out.1.1.lsm.system := by
  cases c with
  | ticket site pid identifier operation =>
    obtain ⟨⟨h', e', ok⟩, hgen, rfl⟩ := Option.map_eq_some_iff.mp hout
    obtain ⟨ret, hinstall⟩ := generateTicket_world hgen
    rcases installTicket_lsmStep hA hinstall with hsame | hstep
    · rw [← hsame]
      exact Projects.refl _ _
    · refine Projects.of_step hstep rfl ?_
      rintro rb a now r heq
      cases heq
      exact ⟨⟨site, rfl⟩, s.1, rfl⟩
  | label site metadata taint declassify =>
    obtain ⟨path, -, hmap⟩ := Option.bind_eq_some_iff.mp hout
    obtain ⟨⟨h', e', id, ok⟩, hgen, rfl⟩ := Option.map_eq_some_iff.mp hmap
    obtain ⟨ret, hinstall⟩ := generateXattrTicketCore_world hgen
    refine Projects.of_step (installXattr_lsmStep hinstall) rfl ?_
    rintro rb a now r heq
    cases heq

theorem Projects.mono {Made Made' : Int → UpdateRecord → Prop} {s s' : System}
    (h : Projects Made s s') (himp : ∀ now r, Made now r → Made' now r) :
    Projects Made' s s' := by
  obtain ⟨evs, hrun, hcaller, hmade⟩ := h
  exact ⟨evs, hrun, hcaller, fun rb a now r he => himp now r (hmade rb a now r he)⟩

/-- The call is no ticket for another pid. -/
def OwnTicket (pid : Pid) : Generator → Prop
  | .ticket _ pid' _ _ => pid' = pid
  | .label _ _ _ _ => True

theorem everyCall_ownTicket (pid : Pid) (request : OpRequest) (extension : Option OpExtension) :
    EveryCall (OwnTicket pid) pid request extension where
  claimLabel := fun _ => trivial
  claimTicket := fun _ _ => rfl
  openLabel := fun _ _ _ => trivial
  openTicket := fun _ _ _ _ => rfl
  ptyOrSocket := rfl
  shm := rfl
  declassify := fun _ => trivial

/-- While the message is served in `d`, a ticket with this stamp is issued
to its sender. -/
def Issues (A : Gcm) (d : Deployment) (m : ClientMessage) (now : Int) (r : UpdateRecord) : Prop :=
  r.pid = m.pid ∧
    (∃ hist site, MessageMakes A (m.calls A) hostLabels m.names d m.env m.pid m.data hist
      (.ticket site m.pid r.identifier r.operation)) ∧
    ∃ h, now = ((m.update h).insert 0).now

/-- What a message does to the host is done by the calls that are made for
it: a relation that they all respect holds between before and after. -/
theorem message_rel {T : Host → Host → Prop} (hrefl : ∀ h, T h h)
    (htrans : ∀ h₁ h₂ h₃, T h₁ h₂ → T h₂ h₃ → T h₁ h₃) {d d' : Deployment} {m : ClientMessage}
    (hcall : ∀ cache data request extension token,
      cachePassthrough m.env.cache (pathXattr hostLabels m.names d.world) d.cache m.data =
        some (cache, data, true) →
      Authentic A d.enclave data m.pid request extension token → ∀ hist c s out,
      Makes (generators A (m.calls A) m.env.rand)
        (coreCalls m.pid request extension (m.policy d.world m.pid request (metadataOf extension)))
        (d.world, d.enclave) hist c →
      generators A (m.calls A) m.env.rand c s = some out → T s.1 out.1.1)
    (hstep : deployStep A d (.message m) = some d') : T d.world d'.world := by
  obtain ⟨⟨d₁, reply⟩, hsend, rfl⟩ := Option.map_eq_some_iff.mp hstep
  rcases sendResponse_cases hsend with
    ⟨-, rfl⟩ | ⟨request, extension, extension', data', p, token, hreads, hpass, hreads', hhandle,
      hworld⟩
  · exact hrefl _
  rw [hworld]
  rcases handleRequest_cases A (m.calls A) m.env.rand hreads' hhandle with
    ⟨hsame, -⟩ | ⟨t, hauth, hserve⟩
  · rw [hsame]
    exact hrefl _
  rw [serveRequest_eq] at hserve
  obtain ⟨out, hrun, rfl⟩ := Option.map_eq_some_iff.mp hserve
  obtain ⟨data'', hpass', hreads''⟩ := cachePassthrough_of_passRequest hreads hpass
  have hauth' : Authentic A d.enclave data'' m.pid request extension' t :=
    { hauth with reads := hreads'' }
  refine Calls.run_rel (T := fun s₁ s₂ => T s₁.1 s₂.1) (fun _ => hrefl _)
    (fun _ _ _ => htrans _ _ _) ?_ hrun
  intro hist c s₁ out₁ hmakes hout
  exact hcall _ data'' request extension' t hpass' hauth' hist c s₁ out₁ hmakes hout

/-- All that a message does to the kernel is issue its tickets and change
labels. -/
theorem message_projects (hA : A.Ideal) {d d' : Deployment} {m : ClientMessage}
    (hstep : deployStep A d (.message m) = some d') :
    Projects (Issues A d m) d.system d'.system := by
  refine message_rel (T := fun h h' => Projects (Issues A d m) h.lsm.system h'.lsm.system)
    (fun _ => Projects.refl _ _) (fun _ _ _ => Projects.trans) ?_ hstep
  intro cache data request extension token hpass hauth hist c s out hmakes hout
  refine (generators_projects hA m hout).mono ?_
  rintro now r ⟨⟨site, rfl⟩, hstamp⟩
  have hholds : ∀ result, Holds (fun _ _ => True) (fun _ => OwnTicket m.pid)
      (coreCalls m.pid request extension result) (fun _ _ => True) [] :=
    fun result => (everyCall_ownTicket m.pid request extension).holds result
  have hpid : r.pid = m.pid :=
    (holds_iff_reaches _ []).mp (hholds _) hist _ (hmakes.reaches fun _ _ _ _ => trivial)
  refine ⟨hpid, ⟨hist, site, cache, data, hpass, request, extension, token, hauth, ?_⟩, hstamp⟩
  rw [← hpid]
  rw [← hpid] at hmakes
  exact hmakes

/-- The message is a request with a process token of its sender, and the
policy approves it. -/
def Approves (A : Gcm) (d : Deployment) (m : ClientMessage) : Prop :=
  ∃ cache data request extension token,
    cachePassthrough m.env.cache (pathXattr hostLabels m.names d.world) d.cache m.data =
      some (cache, data, true) ∧
    Authentic A d.enclave data m.pid request extension token ∧
    m.policy d.world m.pid request (metadataOf extension) = opApproved

/-- Without an approval no call is made. -/
theorem approved_of_makes
    {h : (c : Generator) → Host × Enclave → Option ((Host × Enclave) × c.Answer)}
    {pid : Pid} {request : OpRequest} {extension : Option OpExtension} {result : Response}
    {s : Host × Enclave} {hist : Calls.History Generator Generator.Answer} {c : Generator}
    (hmakes : Makes h (coreCalls pid request extension result) s hist c) : result = opApproved := by
  by_contra hrefused
  rw [coreCalls, if_pos hrefused] at hmakes
  cases hmakes

theorem Issues.approves {d : Deployment} {m : ClientMessage} {now : Int} {r : UpdateRecord}
    (h : Issues A d m now r) : Approves A d m := by
  obtain ⟨-, ⟨hist, site, cache, data, hpass, request, extension, token, hauth, hmakes⟩, -⟩ := h
  exact ⟨cache, data, request, extension, token, hpass, hauth, approved_of_makes hmakes⟩

/-! ## An approved open in the kernel -/

/-- A bare open of a file with a label is one ticket. -/
theorem coreCalls_bareOpen {request : OpRequest} {extension : Option OpExtension}
    (h : request.operation = opOpen) (hinducts : inducts extension = false) (pid : Pid) :
    coreCalls pid request extension opApproved =
      .call (.ticket .openTicket pid (namedObject request extension) opOpen) fun ok =>
        .done (if ok then opApproved else opError) := by
  unfold coreCalls approvedCalls openCalls
  simp only [ne_eq, not_true_eq_false, if_false, h, openObject_eq, hinducts,
    show opOpen.has opClaim = false by decide, Bool.false_eq_true,
    show (remaining opOpen).has opOpen = true by decide,
    show (remaining opOpen).has (opPtyAccess ||| opSocket) = false by decide,
    show (remaining opOpen).has opShm = false by decide,
    show (remaining opOpen).has opDeclassify = false by decide]
  rfl

/-- The module takes what the enclave sends while the message is served. -/
structure Takes (d : Deployment) (m : ClientMessage) : Prop where
  rsaAvailable : (m.copy d.world).rsaAvailable = true
  data : (m.copy d.world).data = true
  copied : (m.copy d.world).copied = true
  registered : d.world.lsm.registered = true
  plain : (m.update d.world).plain = true
  crypto : (m.update d.world).crypto = true
  memory : ((m.update d.world).insert 0).allocs = .ok
  sameKey : d.enclave.aesKey = d.world.lsm.aesKey

/-- The stamp of the ticket. -/
def ClientMessage.stamp (m : ClientMessage) (d : Deployment) : Int :=
  ((m.update d.world).insert 0).now

/-- In step, the module inserts the ticket before `install_ticket` comes
back. -/
theorem generators_ticket_inserted {d : Deployment} {m : ClientMessage}
    (hwf : d.system.kernel.Wf) (htakes : Takes d m) (rand : Nat → TicketRandom × Identifier)
    (site : Site) (identifier : Identifier) (operation : Operation) :
    ∃ w, generators A (m.calls A) rand (.ticket site m.pid identifier operation)
        (d.world, d.enclave) =
          some ((w, d.enclave.updateAesKey (rand site.number).1.keyUpdate), true) ∧
      lsmStep d.system (.insertTicket ((m.update d.world).insert 0).rebalance .ok (m.stamp d)
        ⟨m.pid, identifier, operation⟩) = some w.lsm.system := by
  obtain ⟨k, hins, -, -⟩ := insertTicket_wf hwf ((m.update d.world).insert 0).rebalance
    (m.stamp d) ⟨m.pid, identifier, operation⟩
  have hproc := processReceivedUpdate_ticketMessage (A := A) (m.update d.world)
    htakes.registered htakes.plain htakes.crypto htakes.sameKey (rand site.number).1
    ⟨m.pid, identifier, operation⟩
  rw [htakes.memory, show ((m.update d.world).insert 0).now = m.stamp d from rfl,
    show d.world.lsm.system.kernel = d.system.kernel from rfl, hins, Option.map_some] at hproc
  let w : Host := ⟨updateAesKey (d.world.lsm.setKernel k) (rand site.number).1.keyUpdate,
    [(⟨m.pid, identifier, operation⟩, true)]⟩
  have hinstall : (m.calls A).installTicket d.world (ticketMessage A d.enclave
      (rand site.number).1 ⟨m.pid, identifier, operation⟩) = some (w, 1) := by
    change Daemon.installTicket A (m.copy d.world) (m.update d.world) d.world _ = _
    simp only [Daemon.installTicket, updateReceive, htakes.rsaAvailable, htakes.data,
      htakes.copied, hproc, Option.bind_eq_bind, Option.bind_some, Bool.not_true,
      Bool.false_eq_true, if_false]
    rw [if_neg]
    exact fun hnil => ticketMessage_ne_nil _ _ _ (List.length_eq_zero_iff.mp hnil)
  refine ⟨w, ?_, ?_⟩
  · rw [generators, generateTicket, hinstall]
    rfl
  · rw [lsmStep, hins]
    rfl

/-- An approved open of a path whose label the daemon knows, in step: the
module inserts the ticket. -/
theorem message_open_inserts {d : Deployment} {m : ClientMessage} (hwf : d.system.kernel.Wf)
    (htakes : Takes d m) {request : OpRequest} {x : OpExtension} {token : PtokenProtected}
    (hauth : Authentic A d.enclave m.data m.pid request (some x) token)
    (hop : request.operation = opOpen) (htranslate : x.translate = true) {path : List UInt8}
    (hpath : cstring x.metadata.1 = some path) {object : Identifier}
    (hfound : foundIdentifier m.env.cache d.cache path
      (pathXattr hostLabels m.names d.world path) = some (some object))
    (hpolicy : m.policy d.world m.pid request (some (writeIdentifier x.metadata object)) =
      opApproved) :
    ∃ d', deployStep A d (.message m) = some d' ∧
      lsmStep d.system (.insertTicket ((m.update d.world).insert 0).rebalance .ok (m.stamp d)
        ⟨m.pid, object, opOpen⟩) = some d'.system := by
  obtain ⟨w, hcall, hinsert⟩ := generators_ticket_inserted (A := A) hwf htakes m.env.rand
    .openTicket object opOpen
  let e := d.enclave.updateAesKey (m.env.rand Site.openTicket.number).1.keyUpdate
  have hpass : passRequest m.env.cache (pathXattr hostLabels m.names d.world) d.cache request
      (some x) = some (cacheAfter m.env.cache d.cache path (some object),
        some (translated x (some object))) :=
    passRequest_found (by rw [hop]; decide) htranslate hpath hfound
  have hhandle : ∀ message', readRequest message' =
      some (request, some (translated x (some object))) →
      handleRequest A (m.calls A) m.env.rand d.world d.enclave message' m.pid ptokenLength =
        some (⟨w, e, opApproved⟩, some token.ptoken) := by
    intro message' hreads'
    have happroved : ((m.calls A).asmHandleRequest d.world m.pid request
        (metadataOf (some (translated x (some object))))) = (d.world, opApproved) :=
      congrArg (fun result => (d.world, result)) hpolicy
    rw [handleRequest_authentic A _ m.env.rand { hauth with reads := hreads' }, serveRequest_eq,
      carryOut, happroved, coreCalls_bareOpen hop (by simp [inducts, translated]),
      namedObject_translated request object htranslate, Calls.run, hcall]
    rfl
  obtain ⟨reply, hsend⟩ := sendResponse_of_pass hauth.reads hpass hhandle
  exact ⟨_, daemonStep_of_sendResponse hsend, hinsert⟩

/-! ## Where the tickets come from -/

/-- A ticket for `p` that one of the messages was given. -/
def Requested (A : Gcm) (d₀ : Deployment) (evs : List DeployEvent) (p : Pid) (t : Ticket) :
    Prop :=
  ∃ pre m post d, evs = pre ++ .message m :: post ∧ deployRun A d₀ pre = some d ∧
    Issues A d m t.timestamp ⟨p, t.identifier, t.operation⟩

/-- A ticket that a pid was given before it ran on the credential. -/
def Claimed (A : Gcm) (d₀ : Deployment) (evs : List DeployEvent) (c : Nat) (t : Ticket) : Prop :=
  ∃ pre e h post p, evs = pre ++ .kernel e h :: post ∧ e.caller = some ⟨p, c⟩ ∧
    Requested A d₀ pre p t

theorem Requested.concat {d₀ : Deployment} {evs : List DeployEvent} {p : Pid} {t : Ticket}
    (h : Requested A d₀ evs p t) (e : DeployEvent) : Requested A d₀ (evs ++ [e]) p t := by
  obtain ⟨pre, m, post, d, rfl, hrun, hissues⟩ := h
  exact ⟨pre, m, post ++ [e], d, by simp, hrun, hissues⟩

theorem Claimed.concat {d₀ : Deployment} {evs : List DeployEvent} {c : Nat} {t : Ticket}
    (h : Claimed A d₀ evs c t) (e : DeployEvent) : Claimed A d₀ (evs ++ [e]) c t := by
  obtain ⟨pre, e', h', post, p, rfl, hcaller, hrequested⟩ := h
  exact ⟨pre, e', h', post ++ [e], p, by simp, hcaller, hrequested⟩

/-- What others write does not reach the system. -/
theorem foreign_update {copy : CopyEnv} {env : UpdateEnv} {d d' : Deployment}
    {data : List UInt8} (hforeign : Foreign A d (.update copy env data))
    (hstep : deployStep A d (.update copy env data) = some d') : d'.system = d.system := by
  obtain ⟨⟨s, n, log⟩, hrecv, rfl⟩ := Option.map_eq_some_iff.mp hstep
  rcases updateReceive_cases hrecv with ⟨rfl, -⟩ | ⟨-, -, -, hproc⟩
  · rfl
  · obtain ⟨rfl, -⟩ := eq_of_processReceivedUpdate_undecrypted
      (trmAesDecrypt_eq_none hforeign _) hproc
    rfl

theorem foreign_install {env : InstallEnv} {d d' : Deployment} {i : Nat} {value : List UInt8}
    (hforeign : Foreign A d (.install env i value))
    (hstep : deployStep A d (.install env i value) = some d') : d'.system = d.system := by
  obtain ⟨⟨s, r⟩, hinstall, rfl⟩ := Option.map_eq_some_iff.mp hstep
  unfold trmInodeSetxattrInstall at hinstall
  rw [xattrEnclaveInstallation_unauthentic env i hforeign] at hinstall
  split at hinstall <;> cases hinstall <;> rfl

/-- What a run keeps: the cache is keyed, and its tickets were asked for. -/
def AskedFor (A : Gcm) (d₀ : Deployment) (evs : List DeployEvent) (s : System) : Prop :=
  s.kernel.Keyed ∧ QueuesFrom (Requested A d₀ evs) (Claimed A d₀ evs) s.kernel.queues

/-- One event of the module, with what is known of it in the run. -/
theorem AskedFor.lsmStep {d₀ : Deployment} {evs evs' : List DeployEvent} {s s' : System}
    {e : LsmEvent} (h : AskedFor A d₀ evs s) (hstep : lsmStep s e = some s')
    (hpid : RecordPidsNonneg [e])
    (hW : ∀ p t, Requested A d₀ evs p t → Requested A d₀ evs' p t)
    (hG : ∀ c t, Claimed A d₀ evs c t → Claimed A d₀ evs' c t)
    (hissue : ∀ p, ∀ t ∈ e.ticketsFor s.kernel.reserved p, Requested A d₀ evs' p t)
    (hclaim : ∀ cur, e.caller = some cur → ∀ t, Requested A d₀ evs cur.pid t →
      Claimed A d₀ evs' cur.cred t) : AskedFor A d₀ evs' s' := by
  obtain ⟨hkeyed, hq⟩ := lsmStep_queues h.1 hpid hstep
  refine ⟨hkeyed, ?_⟩
  rw [hq]
  exact h.2.act s.kernel.reserved e hW hG hissue hclaim

/-- The tickets of a record, one by one. -/
theorem requested_of_ticketsFor {d₀ : Deployment} {evs : List DeployEvent}
    {reserved : Pid → Bool} {e : LsmEvent}
    (h : ∀ rb a now r, e = .insertTicket rb a now r →
      Requested A d₀ evs r.pid ⟨r.identifier, r.operation, now⟩) :
    ∀ p, ∀ t ∈ e.ticketsFor reserved p, Requested A d₀ evs p t := by
  intro p t ht
  cases e with
  | insertTicket rb allocs now r =>
    rw [LsmEvent.ticketsFor] at ht
    split at ht
    · rename_i hp
      subst hp
      cases hr : r.received (reserved r.pid) allocs with
      | none =>
        rw [hr] at ht
        cases ht
      | some r' =>
        rw [hr] at ht
        replace ht := (UpdateRecord.received_tickets hr now).subset ht
        rw [UpdateRecord.tickets] at ht
        split at ht
        · cases ht
        · rw [List.mem_singleton.mp ht]
          exact h rb allocs now r rfl
    · cases ht
  | hook hook cur i now vfs => cases ht
  | housekeeping cur now => cases ht
  | initTask cred random previous => cases ht
  | labels data disk citadelPid => cases ht

theorem AskedFor.message (hA : A.Ideal) {d₀ d d' : Deployment} {evs : List DeployEvent}
    {m : ClientMessage} (hrun : deployRun A d₀ evs = some d) (h : AskedFor A d₀ evs d.system)
    (hstep : deployStep A d (.message m) = some d') :
    AskedFor A d₀ (evs ++ [.message m]) d'.system := by
  obtain ⟨levs, hlsm, hcaller, hmade⟩ := message_projects hA hstep
  have hstart : AskedFor A d₀ (evs ++ [.message m]) d.system :=
    ⟨h.1, h.2.mono (fun _ _ hr => hr.concat _) fun _ _ hc => hc.concat _⟩
  refine Run.invariant (P := AskedFor A d₀ (evs ++ [.message m])) (Q := (· ∈ levs)) ?_ hstart
    (fun _ => id) hlsm
  intro s s' e hs he hstep
  refine hs.lsmStep hstep ?_ (fun _ _ => id) (fun _ _ => id) ?_ ?_
  · intro rb a now r hr
    rw [← List.mem_singleton.mp hr] at he
    rw [(hmade rb a now r he).1]
    exact m.nonneg
  · refine requested_of_ticketsFor fun rb a now r heq => ?_
    subst heq
    exact ⟨evs, m, [], d, rfl, hrun, hmade rb a now r he⟩
  · intro cur hcur
    rw [hcaller e he] at hcur
    cases hcur

theorem AskedFor.kernel {d₀ d d' : Deployment} {evs : List DeployEvent} {e : LsmEvent}
    {hins : e.inserts = false} (h : AskedFor A d₀ evs d.system)
    (hstep : deployStep A d (.kernel e hins) = some d') :
    AskedFor A d₀ (evs ++ [.kernel e hins]) d'.system := by
  obtain ⟨s, hlsm, rfl⟩ := Option.map_eq_some_iff.mp hstep
  have hno : ∀ rb a now r, e ≠ .insertTicket rb a now r := by
    rintro rb a now r rfl
    cases hins
  refine h.lsmStep hlsm ?_ (fun _ _ hr => hr.concat _) (fun _ _ hc => hc.concat _) ?_ ?_
  · intro rb a now r hr
    exact absurd (List.mem_singleton.mp hr).symm (hno rb a now r)
  · exact requested_of_ticketsFor fun rb a now r heq => absurd heq (hno rb a now r)
  · intro cur hcur t ht
    exact ⟨evs, e, hins, [], cur.pid, rfl, hcur, ht⟩

/-- The label of the socket is no ticket. -/
theorem AskedFor.protectSocket {d₀ d d' : Deployment} {evs : List DeployEvent} {env : SocketEnv}
    (h : AskedFor A d₀ evs d.system) (hstep : deployStep A d (.protectSocket env) = some d') :
    AskedFor A d₀ (evs ++ [.protectSocket env]) d'.system := by
  obtain ⟨ret, hinstall⟩ := protectSocket_world hstep
  refine h.lsmStep (installXattr_lsmStep hinstall) ?_ (fun _ _ hr => hr.concat _)
    (fun _ _ hc => hc.concat _) ?_ ?_
  · intro rb a now r hr
    cases List.mem_singleton.mp hr
  · intro p t ht
    cases ht
  · intro cur hcur
    cases hcur

theorem askedFor_run (hA : A.Ideal) {d₀ d : Deployment} (hboot : d₀.system.Booted)
    {evs : List DeployEvent} (hforeign : Run.Along (deployStep A) (Foreign A) d₀ evs)
    (hrun : deployRun A d₀ evs = some d) : AskedFor A d₀ evs d.system := by
  induction evs using List.reverseRecOn generalizing d with
  | nil =>
    cases hrun
    exact QueuesFrom.boot hboot _ _
  | append_singleton evs e ih =>
    obtain ⟨d₁, hrun₁, hlast⟩ := Run.concat_some hrun
    obtain ⟨hforeign₁, hforeign₂⟩ := Run.Along.append_iff.mp hforeign
    have h := ih hforeign₁ hrun₁
    have hlater : AskedFor A d₀ (evs ++ [e]) d₁.system :=
      ⟨h.1, h.2.mono (fun _ _ hr => hr.concat _) fun _ _ hc => hc.concat _⟩
    cases e with
    | message m => exact h.message hA hrun₁ hlast
    | protectSocket env => exact h.protectSocket hlast
    | kernel e hins => exact h.kernel hlast
    | update copy env data =>
      rw [foreign_update (hforeign₂ d₁ hrun₁).1 hlast]
      exact hlater
    | install env i value =>
      rw [foreign_install (hforeign₂ d₁ hrun₁).1 hlast]
      exact hlater

/-- Over every run of daemon, enclave and kernel module from boot, in
which others write nothing that authenticates: if a file hook lets a pid
above 1 into a protected inode outside the exempt classes, then one of the
messages of the run was a request that the policy approved, it was given a
ticket for the identifier of that inode less than 15 seconds ago, and its
sender is the caller or a process that has since run on the caller's
credential. -/
theorem access_traces_to_request (hA : A.Ideal) {d₀ d : Deployment} (hboot : d₀.system.Booted)
    {evs : List DeployEvent} (hforeign : Run.Along (deployStep A) (Foreign A) d₀ evs)
    (hrun : deployRun A d₀ evs = some d) {hook : Hook} {cur : Task} {i : Nat} {now : Int}
    {vfs : VfsResult} {s₁ s' : System} (hpid : 1 < cur.pid.toInt)
    (hprep : hook.prepare d.system cur i now vfs = some s₁)
    (hgrant : hook.call d.system cur i now vfs = some (s', 0))
    (hprotected : s₁.unprotected cur i = false) (hexempt : s₁.exempt cur i = false)
    (hpipe : s₁.ownPipe cur i = false) :
    ∃ pre m post d₁, ∃ t : Ticket,
      evs = pre ++ .message m :: post ∧ deployRun A d₀ pre = some d₁ ∧ Approves A d₁ m ∧
      Issues A d₁ m t.timestamp ⟨m.pid, t.identifier, t.operation⟩ ∧
      t.identifier = (s₁.data i).identifier ∧ t.operation.has opOpen = true ∧
      t.timestamp > now - 15 * 1000000000 ∧
      (m.pid = cur.pid ∨
        ∃ e h, DeployEvent.kernel e h ∈ post ∧ e.caller = some ⟨m.pid, cur.cred⟩) := by
  obtain ⟨hkeyed, hfrom⟩ := askedFor_run hA hboot hforeign hrun
  obtain ⟨t, ht, hpermits, hlive⟩ :=
    granted_from_purse hkeyed hpid hprep hgrant hprotected hexempt hpipe
  rw [Ticket.permits, Bool.and_eq_true, decide_eq_true_eq] at hpermits
  obtain ⟨hid, hop⟩ := hpermits
  rcases List.mem_append.mp ht with hheld | hpending
  · obtain ⟨pre, e, h, post, p, rfl, hcaller, pre', m, post', d₁, rfl, hrun₁, hissues⟩ :=
      hfrom.held _ t hheld
    have hm : p = m.pid := hissues.1
    subst hm
    refine ⟨pre', m, post' ++ .kernel e h :: post, d₁, t, by simp, hrun₁, hissues.approves,
      hissues, hid, hop, hlive, .inr ⟨e, h, by simp, hcaller⟩⟩
  · obtain ⟨pre, m, post, d₁, rfl, hrun₁, hissues⟩ := hfrom.pending _ t hpending
    have hm : cur.pid = m.pid := hissues.1
    rw [hm] at hissues
    exact ⟨pre, m, post, d₁, t, rfl, hrun₁, hissues.approves, hissues, hid, hop, hlive,
      .inl hm.symm⟩

/-- Pid 7 opens `b`, everything is approved and nothing fails. -/
def openMessage : ClientMessage where
  names := twoNames
  policy := fun _ _ _ _ => opApproved
  copy := fun _ => .ok
  update := fun _ => calmUpdate
  install := fun _ => .ok
  env := calmMessage
  pid := 7
  data := openOfB
  nonneg := by decide

theorem openMessage_inserts :
    ∃ d, deployStep (Aead.keyTag _ _) labelledDaemon (.message openMessage) = some d ∧
      lsmStep labelledHost.lsm.system (.insertTicket .none .ok 100 ⟨7, fill _ 1, opOpen⟩) =
        some d.system := by
  have hauth : Authentic (Aead.keyTag _ _) labelledDaemon.enclave openOfB 7 (sevensAsk opOpen)
      (some ⟨true, false, nameMetadata 98⟩) sevensProtected :=
    authentic_of_sealed (readRequest_encode _ _) rfl (zeros _) rfl rfl rfl
  have hfound : foundIdentifier calmMessage.cache .empty [98]
      (pathXattr hostLabels twoNames labelledHost [98]) = some (some (fill _ 1)) := by decide
  exact message_open_inserts (d := labelledDaemon) (m := openMessage)
    (Kernel.boot_keyed _).toWf ⟨rfl, rfl, rfl, rfl, rfl, rfl, rfl, rfl⟩ hauth rfl rfl
    (cstring_nameMetadata (c := 98) (by decide)) hfound rfl

theorem openMessage_traced :
    ∃ d s' d₁ m, deployRun (Aead.keyTag _ _) labelledDaemon [.message openMessage] = some d ∧
      Hook.fileOpen.call d.system ⟨7, 0⟩ 3 200 ⟨true, true⟩ = some (s', 0) ∧
      DeployEvent.message m ∈ [DeployEvent.message openMessage] ∧
      Approves (Aead.keyTag _ _) d₁ m := by
  obtain ⟨d, hstep, hinsert⟩ := openMessage_inserts
  have hrun := deployRun_singleton hstep
  have hforeign : Run.Along (deployStep (Aead.keyTag _ _)) (Foreign (Aead.keyTag _ _))
      labelledDaemon [.message openMessage] := ⟨trivial, fun _ _ => trivial⟩
  have hseen : ((lsmStep labelledHost.lsm.system
      (.insertTicket .none .ok 100 ⟨7, fill _ 1, opOpen⟩)).bind fun s =>
      (Hook.fileOpen.prepare s ⟨7, 0⟩ 3 200 ⟨true, true⟩).bind fun s₁ =>
        (Hook.fileOpen.call s ⟨7, 0⟩ 3 200 ⟨true, true⟩).map fun out =>
          ((s₁.unprotected ⟨7, 0⟩ 3, s₁.exempt ⟨7, 0⟩ 3, s₁.ownPipe ⟨7, 0⟩ 3), out.2)) =
      some ((false, false, false), 0) := by decide +kernel
  rw [hinsert, Option.bind_some] at hseen
  obtain ⟨s₁, hprep, hcall⟩ := Option.bind_eq_some_iff.mp hseen
  obtain ⟨⟨s', r⟩, hcall, hout⟩ := Option.map_eq_some_iff.mp hcall
  simp only [Prod.mk.injEq] at hout
  obtain ⟨⟨hprotected, hexempt, hpipe⟩, rfl⟩ := hout
  obtain ⟨pre, m, post, d₁, t, hevs, -, happroves, -⟩ :=
    access_traces_to_request (Aead.keyTag_ideal _ _) ⟨_, rfl⟩ hforeign hrun (by decide)
      hprep hcall hprotected hexempt hpipe
  refine ⟨d, s', d₁, m, hrun, hcall, ?_, happroves⟩
  rw [hevs]
  simp

end Citadel
