/-
Citadel.Protocol.RealmRequests — the realm and the requests that made it,
over daemon, enclave and the whole kernel module.

`Citadel.Lsm.RealmOrigin` follows the realm back to messages of the
enclave. Here the daemon is there as well, and the enclave makes a message
that registers an inode on two kinds of requests, a claim and an open of a
path the daemon could not translate, and one of its own accord: `main` has
the daemon's socket registered when it starts. The module's own files are
written to by anybody, and enclave and module can be registered again;
only what others hand in as a label does not authenticate under the key of
the moment (`ForeignLabel`).

So whatever is in the realm, inode, credential or segment, is there
because a process asked for it with its token and the policy approved, or
because of the socket (`realm_traces_to_request`).
-/
import Citadel.Lsm.RealmOrigin
import Citadel.Protocol.Deployment

namespace Citadel

open Bytes Enclave Calls Daemon

variable {A : Gcm} {rsaDecrypt : List UInt8 → Option (List UInt8)}

/-! ## The machine -/

/-- The daemon, and what the module keeps besides the state the daemon
sees. -/
structure Machine where
  daemon : Deployment
  other : Nat → List UInt8 → Option (List UInt8)
  pool : ShmPool
  segment : Nat → Segment

namespace Machine

def monitor (w : Machine) : Monitor := ⟨w.daemon.world.lsm, w.other, w.pool, w.segment⟩

def setMonitor (w : Machine) (m : Monitor) : Machine :=
  ⟨w.daemon.setLsm m.lsm, m.other, m.pool, m.segment⟩

end Machine

inductive MachineEvent where
  | message (m : ClientMessage)
  | protectSocket (env : SocketEnv)
  -- the enclave's side of a registration; the module's is on its own file
  | challenge (rsaDecrypt rsaEncrypt : List UInt8 → Option (List UInt8)) (data : List UInt8)
      (random : AesKey) (pid : Pid)
  | monitor (e : MonitorEvent)

/-- One event; `none` is a memory fault. -/
def machineStep (rsaDecrypt : List UInt8 → Option (List UInt8)) (A : Gcm) (w : Machine) :
    MachineEvent → Option Machine
  | .message m => (deployStep A w.daemon (.message m)).map fun d => { w with daemon := d }
  | .protectSocket env =>
    (deployStep A w.daemon (.protectSocket env)).map fun d => { w with daemon := d }
  | .challenge rsaDecrypt rsaEncrypt data random pid =>
    let (e, _) := handleKernelChallenge rsaDecrypt rsaEncrypt w.daemon.enclave data random pid
    some { w with daemon := { w.daemon with enclave := e } }
  | .monitor e => (monitorNext rsaDecrypt A w.monitor e).map w.setMonitor

def machineRun (rsaDecrypt : List UInt8 → Option (List UInt8)) (A : Gcm) (w : Machine)
    (evs : List MachineEvent) : Option Machine := evs.foldlM (machineStep rsaDecrypt A) w

/-- What others hand in as a label does not authenticate. -/
def ForeignLabel (A : Gcm) (w : Machine) : MachineEvent → Prop
  | .monitor (.xattr (.setxattr _ _ _ value _ _ _ _)) =>
    authenticates A w.daemon.world.lsm.aesKey value = false
  | _ => True

/-- The message is a request with a process token of its sender that the
policy approves, to claim the inode or to open it by a path that the
daemon could not translate. -/
def AsksFor (A : Gcm) (d : Deployment) (m : ClientMessage) (i : Nat) : Prop :=
  ∃ cache data request extension token path,
    cachePassthrough m.env.cache (pathXattr hostLabels m.names d.world) d.cache m.data =
      some (cache, data, true) ∧
    Authentic A d.enclave data m.pid request extension token ∧
    m.policy d.world m.pid request (metadataOf extension) = opApproved ∧
    (request.operation.has opClaim = true ∨
      request.operation.has opOpen = true ∧ inducts extension = true) ∧
    metadataPath (metadataOf extension) = some path ∧ m.names path = some i

/-- How something gets into the realm without another thing that is there. -/
inductive RequestRoot (A : Gcm) (w : Machine) : MachineEvent → Place → Prop
  | asked {m : ClientMessage} {i : Nat} {x : Place} : AsksFor A w.daemon m i →
      x = .blob i ∨ x = .disk i → RequestRoot A w (.message m) x
  /-- The socket of the daemon. -/
  | socket {env : SocketEnv} {i : Nat} {x : Place} : env.names citadelIpcFile = some i →
      x = .blob i ∨ x = .disk i → RequestRoot A w (.protectSocket env) x
  | freed {j : Nat} : RequestRoot A w (.monitor (.shmFree j)) (.segment j)

/-- Flags are passed on by the module alone. -/
inductive MachinePath (w : Machine) : MachineEvent → Place → Place → Prop
  | monitor {e : MonitorEvent} {x y : Place} : RealmPath w.monitor e y x →
      MachinePath w (.monitor e) y x

/-! ## A message -/

/-- What the calls of a message do to the module: no flag but for inodes
with `Q`, and a sound cache stays sound. -/
structure Served (Q : Nat → Prop) (s s' : System) : Prop where
  flags : FlaggedBy Q s s'
  kernel : s.kernel.Wf → s'.kernel.Wf ∧ s'.kernel.cred = s.kernel.cred

theorem Served.refl (Q : Nat → Prop) (s : System) : Served Q s s := ⟨.refl Q s, fun h => ⟨h, rfl⟩⟩

theorem Served.trans {Q : Nat → Prop} {s₁ s₂ s₃ : System} (h : Served Q s₁ s₂)
    (h' : Served Q s₂ s₃) : Served Q s₁ s₃ := by
  refine ⟨⟨?_, ?_, ?_⟩, ?_⟩
  · intro j hj
    exact h'.flags.readable j (h.flags.readable j hj)
  · intro j hj
    exact (h'.flags.data j hj).elim (h.flags.data j) .inr
  · intro j hj
    exact (h'.flags.disk j hj).elim (h.flags.disk j) .inr
  · intro hwf
    obtain ⟨hwf₂, hcred₂⟩ := h.kernel hwf
    obtain ⟨hwf₃, hcred₃⟩ := h'.kernel hwf₂
    exact ⟨hwf₃, hcred₃.trans hcred₂⟩

theorem Served.mono {Q Q' : Nat → Prop} {s s' : System} (h : Served Q s s')
    (himp : ∀ j, Q j → Q' j) : Served Q' s s' := ⟨h.flags.mono himp, h.kernel⟩

theorem installTicket_served {copy : CopyEnv} {env : UpdateEnv} {h : Host} {ticket : List UInt8}
    {out : Host × Int} (hinstall : Daemon.installTicket A copy env h ticket = some out)
    (Q : Nat → Prop) : Served Q h.lsm.system out.1.lsm.system := by
  obtain ⟨⟨lsm, n, log⟩, hreceive, hout⟩ := Option.bind_eq_some_iff.mp hinstall
  cases hout
  obtain ⟨k, hsystem, hkernel⟩ := updateReceive_spec hreceive
  dsimp only at hsystem ⊢
  rw [hsystem]
  exact ⟨⟨fun _ hj => hj, fun _ hj => .inl hj, fun _ hj => .inl hj⟩, hkernel⟩

/-- A label message of the enclave flags the inode of its path, if its
record registers. -/
theorem installXattr_served (hA : A.Ideal) {env : InstallEnv} {h : Host} {path : Option Nat}
    {e : Enclave} {rnd : TicketRandom} {rcrd : UpdateRecord} {out : Host × Int}
    (hinstall : installXattr A env h path (ticketMessage A e rnd rcrd) = some out) :
    Served (fun j => path = some j ∧ rcrd.operation.has opDeclassify = false) h.lsm.system
      out.1.lsm.system := by
  rcases installXattr_cases hinstall with hlsm | ⟨i, r, rfl, hinstallation⟩
  · rw [hlsm]
    exact .refl _ _
  rcases xattrEnclaveInstallation_taken hA hinstallation with hsame | ⟨hreg, hplain, hcrypto, hkey⟩
  · rw [hsame]
    exact .refl _ _
  rw [xattrEnclaveInstallation_ticketMessage env hreg hplain hcrypto i hkey] at hinstallation
  split at hinstallation
  · obtain ⟨hkernel, hflags⟩ := declassify_flags hinstallation
    refine ⟨hflags.mono fun _ hj => hj.2.elim, fun hwf => ?_⟩
    rw [hkernel]
    exact ⟨hwf, rfl⟩
  · rename_i hdeclassify
    obtain ⟨hkernel, hflags⟩ := induct_flags hinstallation
    refine ⟨hflags.mono ?_, fun hwf => ?_⟩
    · rintro j ⟨rfl, -⟩
      exact ⟨rfl, Bool.eq_false_iff.mpr hdeclassify⟩
    · rw [hkernel]
      exact ⟨hwf, rfl⟩

/-- The inode that a call labels. -/
def Generator.Flags (names : List UInt8 → Option Nat) (i : Nat) : Generator → Prop
  | .ticket _ _ _ _ => False
  | .label _ metadata _ declassify =>
    declassify = false ∧ ∃ path, metadataPath metadata = some path ∧ names path = some i

theorem generators_served (hA : A.Ideal) (m : ClientMessage) {c : Generator} {s : Host × Enclave}
    {out : (Host × Enclave) × c.Answer}
    (hout : generators A (m.calls A) m.env.rand c s = some out) :
    Served (fun i => Generator.Flags m.names i c) s.1.lsm.system out.1.1.lsm.system := by
  cases c with
  | ticket site pid identifier operation =>
    obtain ⟨⟨h', e', ok⟩, hgen, rfl⟩ := Option.map_eq_some_iff.mp hout
    obtain ⟨ret, hinstall⟩ := generateTicket_world hgen
    exact installTicket_served hinstall _
  | label site metadata taint declassify =>
    obtain ⟨path, hpath, hmap⟩ := Option.bind_eq_some_iff.mp hout
    obtain ⟨⟨h', e', id, ok⟩, hgen, rfl⟩ := Option.map_eq_some_iff.mp hmap
    obtain ⟨ret, hinstall⟩ := generateXattrTicketCore_world hgen
    refine (installXattr_served hA hinstall).mono ?_
    rintro i ⟨hname, hoperation⟩
    refine ⟨?_, path, hpath, hname⟩
    cases declassify with
    | false => rfl
    | true => exact absurd hoperation (by decide : ¬ opDeclassify.has opDeclassify = false)

/-- The calls of a request that label something. -/
theorem everyCall_flags (names : List UInt8 → Option Nat) (pid : Pid) (request : OpRequest)
    (extension : Option OpExtension) :
    EveryCall (fun c => ∀ i, Generator.Flags names i c →
      (request.operation.has opClaim = true ∨
        request.operation.has opOpen = true ∧ inducts extension = true) ∧
      ∃ path, metadataPath (metadataOf extension) = some path ∧ names path = some i)
      pid request extension where
  claimLabel := fun hclaim _ hflags => ⟨.inl hclaim, hflags.2⟩
  claimTicket := fun _ _ _ hflags => hflags.elim
  openLabel := fun _ hopen hinducts _ hflags => ⟨.inr ⟨hopen, hinducts⟩, hflags.2⟩
  openTicket := fun _ _ _ _ _ hflags => hflags.elim
  ptyOrSocket := fun _ hflags => hflags.elim
  shm := fun _ hflags => hflags.elim
  declassify := fun _ _ hflags => nomatch hflags.1

theorem message_served (hA : A.Ideal) {d d' : Deployment} {m : ClientMessage}
    (hstep : deployStep A d (.message m) = some d') :
    Served (AsksFor A d m) d.system d'.system := by
  refine message_rel (T := fun h h' => Served (AsksFor A d m) h.lsm.system h'.lsm.system)
    (fun _ => Served.refl _ _) (fun _ _ _ => Served.trans) ?_ hstep
  intro cache data request extension token hpass hauth hist c s out hmakes hout
  refine (generators_served hA m hout).mono ?_
  intro i hflags
  have hholds : ∀ result, Holds (fun _ _ => True) _ (coreCalls m.pid request extension result)
      (fun _ _ => True) [] :=
    fun result => (everyCall_flags m.names m.pid request extension).holds result
  obtain ⟨hkind, path, hpath, hname⟩ :=
    (holds_iff_reaches _ []).mp (hholds _) hist c (hmakes.reaches fun _ _ _ _ => trivial) i hflags
  exact ⟨cache, data, request, extension, token, path, hpass, hauth, approved_of_makes hmakes,
    hkind, hpath, hname⟩

theorem protectSocket_served (hA : A.Ideal) {d d' : Deployment} {env : SocketEnv}
    (hstep : deployStep A d (.protectSocket env) = some d') :
    Served (fun i => env.names citadelIpcFile = some i) d.system d'.system := by
  obtain ⟨ret, hinstall⟩ := protectSocket_world hstep
  exact (installXattr_served hA hinstall).mono fun _ hi => hi.1

/-! ## Every event -/

theorem machineStep_wf (hA : A.Ideal) {w w' : Machine} {e : MachineEvent}
    (hwf : w.daemon.system.kernel.Wf) (h : machineStep rsaDecrypt A w e = some w') :
    w'.daemon.system.kernel.Wf := by
  cases e with
  | message m =>
    obtain ⟨d, hstep, rfl⟩ := Option.map_eq_some_iff.mp h
    exact ((message_served hA hstep).kernel hwf).1
  | protectSocket env =>
    obtain ⟨d, hstep, rfl⟩ := Option.map_eq_some_iff.mp h
    exact ((protectSocket_served hA hstep).kernel hwf).1
  | challenge rsaDecrypt rsaEncrypt data random pid =>
    cases h
    exact hwf
  | monitor e =>
    obtain ⟨m, hnext, rfl⟩ := Option.map_eq_some_iff.mp h
    exact (monitorNext_moved (m := w.monitor) hwf hnext).wf

/-- What the daemon has the module do brings inodes with `Q` into the realm
and nothing else. -/
theorem Served.passes {Q : Nat → Prop} {w : Machine} {d : Deployment}
    (h : Served Q w.daemon.system d.system) (hwf : w.daemon.system.kernel.Wf) {x : Place}
    (hx : ({ w with daemon := d } : Machine).monitor.inRealm x = true) :
    w.monitor.inRealm x = true ∨ ∃ i, Q i ∧ (x = .blob i ∨ x = .disk i) := by
  cases x with
  | blob i => exact (h.flags.data i hx).imp id fun hi => ⟨i, hi, .inl rfl⟩
  | disk i => exact (h.flags.disk i hx).imp id fun hi => ⟨i, hi, .inr rfl⟩
  | cred c =>
    have hcred : (d.system.kernel.cred c).inRealm = true := hx
    rw [(h.kernel hwf).2] at hcred
    exact .inl hcred
  | segment j => exact .inl hx

/-- A label that does not authenticate registers nothing. -/
theorem ForeignLabel.unregistering {w : Machine} {e : MonitorEvent}
    (h : ForeignLabel A w (.monitor e)) : Unregistering A w.monitor e := by
  rintro i ⟨cur, value, cap, io, env, vfs, rfl, hvalue⟩
  have hauth : authenticates A w.daemon.world.lsm.aesKey value = true := hvalue.authentic
  rw [show authenticates A w.daemon.world.lsm.aesKey value = false from h] at hauth
  cases hauth

theorem machineStep_passes (hA : A.Ideal) {w : Machine} {e : MachineEvent}
    (hwf : w.daemon.system.kernel.Wf) (hforeign : ForeignLabel A w e) :
    Run.Passes (machineStep rsaDecrypt A) (fun w x => w.monitor.inRealm x = true)
      (RequestRoot A) MachinePath w e := by
  intro w' x h hx
  cases e with
  | message m =>
    obtain ⟨d, hstep, rfl⟩ := Option.map_eq_some_iff.mp h
    rcases (message_served hA hstep).passes hwf hx with hold | ⟨i, hasks, hplace⟩
    · exact .inl hold
    · exact .inr (.inl (.asked hasks hplace))
  | protectSocket env =>
    obtain ⟨d, hstep, rfl⟩ := Option.map_eq_some_iff.mp h
    rcases (protectSocket_served hA hstep).passes hwf hx with hold | ⟨i, hname, hplace⟩
    · exact .inl hold
    · exact .inr (.inl (.socket hname hplace))
  | challenge rsaDecrypt rsaEncrypt data random pid =>
    cases h
    exact .inl hx
  | monitor e =>
    obtain ⟨m, hnext, rfl⟩ := Option.map_eq_some_iff.mp h
    rcases (monitorNext_moved (m := w.monitor) hwf hnext).passes x hx with
      hold | hroot | ⟨y, hpath, hy⟩
    · exact .inl hold
    · cases hroot with
      | blob hregisters => exact absurd hregisters (hforeign.unregistering _)
      | disk hregisters => exact absurd hregisters (hforeign.unregistering _)
      | freed he =>
        subst he
        exact .inr (.inl .freed)
    · exact .inr (.inr ⟨y, .monitor hpath, hy⟩)

/-- Over every run of daemon, enclave and kernel module from boot, in which
nobody else hands in a label that authenticates: whatever is in the realm
got there by a chain of events of the module that starts at a message of a
client, which asked for the inode with its token and the policy's
approval; or at the daemon's socket, which it has labelled itself; or at a
freed segment, or at what was in the realm before. -/
theorem realm_traces_to_request (hA : A.Ideal) {w₀ w : Machine}
    (hboot : w₀.daemon.system.Booted) {evs : List MachineEvent}
    (hforeign : Run.Along (machineStep rsaDecrypt A) (ForeignLabel A) w₀ evs)
    (hrun : machineRun rsaDecrypt A w₀ evs = some w) {x : Place}
    (hx : w.monitor.inRealm x = true) :
    Run.Origin (machineStep rsaDecrypt A) (fun w x => w.monitor.inRealm x = true) (RequestRoot A)
      MachinePath w₀ evs x := by
  refine Run.Origin.of_run (I := fun w => w.daemon.system.kernel.Wf) ?_ ?_ hboot.wf hforeign hrun hx
  · intro w w' e hwf _ hstep
    exact machineStep_wf hA hwf hstep
  · intro w e hwf hlabel
    exact machineStep_passes hA hwf hlabel

/-- No file has a label. -/
def unclaimedMachine : Machine :=
  ⟨⟨ninesHost, ⟨fill _ 9, fill _ 9⟩, .empty⟩, fun _ _ => none, .empty,
    fun _ => trmIpcAllocSecurity ⟨9, ⟨true, zeros _⟩⟩⟩

/-- The socket is inode 9. -/
def socketEnv : SocketEnv :=
  ⟨fun path => if path = citadelIpcFile then some 9 else none, .ok, ⟨fill _ 1, zeros _, zeros _⟩,
    zeros _⟩

/-- The daemon has its socket labelled, pid 7 claims `a`, and pid 8 creates
a file below it. -/
def claimAndCreate : List MachineEvent :=
  [.protectSocket socketEnv, .message { openMessage with data := claimOfA },
    .monitor (.allocInode ⟨8, 1⟩ 1 (some ⟨5, false, .other⟩)),
    .monitor (.initSecurity ⟨8, 1⟩ 1 3),
    .monitor (.instantiate ⟨8, 1⟩ (some 1) ⟨true, true⟩)]

theorem claimAndCreate_traced :
    ∃ w, machineRun (fun _ => none) (Aead.keyTag _ _) unclaimedMachine claimAndCreate = some w ∧
      Run.Origin (machineStep (fun _ => none) (Aead.keyTag _ _))
        (fun w x => w.monitor.inRealm x = true) (RequestRoot (Aead.keyTag _ _)) MachinePath
        unclaimedMachine claimAndCreate (.disk 1) ∧
      Run.Origin (machineStep (fun _ => none) (Aead.keyTag _ _))
        (fun w x => w.monitor.inRealm x = true) (RequestRoot (Aead.keyTag _ _)) MachinePath
        unclaimedMachine claimAndCreate (.blob 9) := by
  have hseen : (machineRun (fun _ => none) (Aead.keyTag _ _) unclaimedMachine claimAndCreate).map
      (fun w => (w.monitor.inRealm (.disk 1), w.monitor.inRealm (.blob 9))) =
        some (true, true) := by decide +kernel
  obtain ⟨w, hrun, hx⟩ := Option.map_eq_some_iff.mp hseen
  obtain ⟨hfile, hsocket⟩ := Prod.mk.inj hx
  have hforeign : Run.Along (machineStep (fun _ => none) (Aead.keyTag _ _))
      (ForeignLabel (Aead.keyTag _ _)) unclaimedMachine claimAndCreate :=
    ⟨trivial, fun _ _ => ⟨trivial, fun _ _ => ⟨trivial, fun _ _ => ⟨trivial, fun _ _ =>
      ⟨trivial, fun _ _ => trivial⟩⟩⟩⟩⟩
  exact ⟨w, hrun, realm_traces_to_request (Aead.keyTag_ideal _ _) ⟨_, rfl⟩ hforeign hrun hfile,
    realm_traces_to_request (Aead.keyTag_ideal _ _) ⟨_, rfl⟩ hforeign hrun hsocket⟩

end Citadel
