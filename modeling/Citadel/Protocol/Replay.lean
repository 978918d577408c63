/-
Citadel.Protocol.Replay — messages that come late, twice or not at all.

There is no counter and no nonce in what the enclave sends: a message is
old when the key it was sealed under is no longer the kernel's. Keys move
by exclusive or with an update that the message itself carries, so the
question is always which updates cancel out (`net`).

* The host keeps every message and plays any of them back, on either
  input, at any time: nothing changes, as long as none of them meets the
  key it was sealed under (`replays_harmless`).
* In step, a ticket played back meets its key exactly if the updates
  accepted since, its own included, cancel out (`replay_taken_iff`). It is
  then inserted a second time, and the ends are out of step.
* Out of step, the kernel takes nothing. Tickets are reported as installed
  all the same, and the enclave's key moves on alone, until by chance the
  updates of the tickets make up for the difference (`in_step_iff`).
-/
import Citadel.Lib.Run
import Citadel.Protocol.Channels

namespace Citadel

open Bytes Enclave

variable {A : Gcm}

/-! ## Sums of updates -/

/-- The exclusive or of the updates. -/
def net (updates : List AesKey) : AesKey := ratchet (zeros _) updates

theorem ratchet_eq_xor (key : AesKey) (updates : List AesKey) :
    ratchet key updates = xor key (net updates) := by
  induction updates using List.reverseRecOn with
  | nil => exact (xor_zeros key).symm
  | append_singleton updates u ih =>
    rw [net, ratchet_concat, ratchet_concat, ih, Bytes.xor_assoc]
    rfl

theorem net_cons (u : AesKey) (updates : List AesKey) :
    net (u :: updates) = xor u (net updates) := by
  rw [← ratchet_eq_xor, net, ratchet, List.foldl_cons, Bytes.xor_comm, xor_zeros]
  rfl

theorem ratchet_append (key : AesKey) (us vs : List AesKey) :
    ratchet key (us ++ vs) = ratchet (ratchet key us) vs := List.foldl_append

/-- A key comes back when the updates cancel out. -/
theorem ratchet_eq_self_iff (key : AesKey) (updates : List AesKey) :
    ratchet key updates = key ↔ net updates = zeros _ := by
  rw [ratchet_eq_xor]
  refine ⟨eq_zeros_of_xor, fun h => ?_⟩
  rw [h, xor_zeros]

/-! ## Playing messages back -/

/-- The message of a call. -/
def EnclaveCall.message (A : Gcm) (e : Enclave) : EnclaveCall → List UInt8
  | .ticket rnd pid metadata operation _ _ => ticketMessage A e rnd ⟨pid, metadata, operation⟩
  | .xattr rnd random _ _ taint declassify _ =>
    ticketMessage A e rnd (xattrRecord false taint declassify random)
  | .xattrInternal rnd random _ _ => ticketMessage A e rnd (xattrRecord true true false random)

/-- Both ends, and what the host has seen on the way: each message with
the key it was sealed under. -/
structure Wire where
  parties : Parties
  sent : List (AesKey × List UInt8)

/-- The host makes the calls the enclave asks for, and writes messages
that it has seen to the update file or the install attribute. -/
inductive WireEvent where
  | call (c : EnclaveCall)
  | update (n : Nat) (copy : CopyEnv) (env : UpdateEnv)
  | install (n : Nat) (env : InstallEnv) (i : Nat)

def Wire.setLsm (w : Wire) (s : Lsm) : Wire :=
  { w with parties := { w.parties with host := { w.parties.host with lsm := s } } }

/-- One event; `none` is a memory fault. -/
def wireStep (A : Gcm) (w : Wire) : WireEvent → Option Wire
  | .call c =>
    (c.step A w.parties).map fun out =>
      ⟨out.1, w.sent ++ [(w.parties.enclave.aesKey, c.message A w.parties.enclave)]⟩
  | .update n copy env =>
    match w.sent[n]? with
    | none => some w
    | some m => (updateReceive A copy env w.parties.host.lsm m.2).map fun out => w.setLsm out.1
  | .install n env i =>
    match w.sent[n]? with
    | none => some w
    | some m =>
      (trmInodeSetxattrInstall A env w.parties.host.lsm i m.2).map fun out => w.setLsm out.1

def wireRun (A : Gcm) (w : Wire) (evs : List WireEvent) : Option Wire := evs.foldlM (wireStep A) w

/-- The message that is played back, if the event is one of those. -/
def WireEvent.replays : WireEvent → Option Nat
  | .call _ => none
  | .update n _ _ => some n
  | .install n _ _ => some n

def WireEvent.call? : WireEvent → Option EnclaveCall
  | .call c => some c
  | _ => none

/-- What is played back was not sealed under the kernel's key of the
moment. -/
def Stale (w : Wire) (e : WireEvent) : Prop :=
  ∀ n ∈ e.replays, ∀ m ∈ w.sent[n]?, m.1 ≠ w.parties.host.lsm.aesKey

/-- What the host has seen was sealed by the enclave. -/
def Wire.Recorded (A : Gcm) (w : Wire) : Prop :=
  ∀ m ∈ w.sent, ∃ e rnd rcrd, e.aesKey = m.1 ∧ m.2 = ticketMessage A e rnd rcrd

theorem EnclaveCall.message_eq (A : Gcm) (e : Enclave) (c : EnclaveCall) :
    ∃ rnd rcrd, c.message A e = ticketMessage A e rnd rcrd := by
  cases c with
  | ticket rnd pid metadata operation copy env => exact ⟨rnd, _, rfl⟩
  | xattr rnd random path identifier taint declassify env => exact ⟨rnd, _, rfl⟩
  | xattrInternal rnd random path env => exact ⟨rnd, _, rfl⟩

/-- A stale message does not authenticate. -/
theorem stale_unauthentic (hA : A.Ideal) {w : Wire} (hw : w.Recorded A) {n : Nat}
    {m : AesKey × List UInt8} (hm : w.sent[n]? = some m)
    (hstale : m.1 ≠ w.parties.host.lsm.aesKey) :
    authenticates A w.parties.host.lsm.aesKey m.2 = false := by
  obtain ⟨e, rnd, rcrd, hkey, hmsg⟩ := hw m (List.mem_of_getElem? hm)
  rw [hmsg, authenticates_ticketMessage hA, hkey]
  exact decide_eq_false hstale

/-- Played back, it changes nothing. -/
theorem wireStep_stale (hA : A.Ideal) {w w' : Wire} (hw : w.Recorded A) {e : WireEvent}
    (hcall : e.call? = none) (hstale : Stale w e) (hstep : wireStep A w e = some w') : w' = w := by
  cases e with
  | call c => cases hcall
  | update n copy env =>
    simp only [wireStep] at hstep
    split at hstep
    · exact (Option.some.inj hstep).symm
    · rename_i m hm
      have hno := stale_unauthentic hA hw hm (hstale n rfl m hm)
      obtain ⟨⟨s, len, log⟩, hrecv, rfl⟩ := Option.map_eq_some_iff.mp hstep
      rcases updateReceive_cases hrecv with ⟨rfl, -⟩ | ⟨-, -, -, hproc⟩
      · rfl
      · rw [(eq_of_processReceivedUpdate_undecrypted (trmAesDecrypt_eq_none hno _) hproc).1]
        rfl
  | install n env i =>
    simp only [wireStep] at hstep
    split at hstep
    · exact (Option.some.inj hstep).symm
    · rename_i m hm
      have hno := stale_unauthentic hA hw hm (hstale n rfl m hm)
      obtain ⟨⟨s, r⟩, hinstall, rfl⟩ := Option.map_eq_some_iff.mp hstep
      unfold trmInodeSetxattrInstall at hinstall
      rw [xattrEnclaveInstallation_unauthentic env i hno] at hinstall
      split at hinstall <;> cases hinstall <;> rfl

/-- A call in the middle of everything else. -/
theorem wireStep_call {w w' : Wire} (hw : w.Recorded A) {c : EnclaveCall}
    (hstep : wireStep A w (.call c) = some w') :
    w'.Recorded A ∧ ∃ ok, c.step A w.parties = some (w'.parties, ok) := by
  obtain ⟨⟨p, ok⟩, hcall, rfl⟩ := Option.map_eq_some_iff.mp hstep
  refine ⟨fun m hm => ?_, ok, hcall⟩
  rcases List.mem_append.mp hm with hold | hnew
  · exact hw m hold
  · obtain ⟨rnd, rcrd, hmsg⟩ := c.message_eq A w.parties.enclave
    rw [List.mem_singleton.mp hnew]
    exact ⟨w.parties.enclave, rnd, rcrd, rfl, hmsg⟩

/-- **Stale messages are harmless.** However the host mixes the calls of
the enclave with messages played back, on either input: if each of those
meets another key than the one it was sealed under, both ends are at the
end what the calls alone make of them. -/
theorem replays_harmless (hA : A.Ideal) {evs : List WireEvent} :
    ∀ {w w' : Wire}, w.Recorded A → Run.Along (wireStep A) Stale w evs →
      wireRun A w evs = some w' →
      ∃ oks, EnclaveCall.run A w.parties (evs.filterMap WireEvent.call?) =
        some (w'.parties, oks) := by
  induction evs with
  | nil =>
    intro w w' _ _ hrun
    cases hrun
    exact ⟨[], rfl⟩
  | cons e evs ih =>
    intro w w' hw hstale hrun
    obtain ⟨w₁, hstep, hrest⟩ := Run.cons_some hrun
    cases hcall : e.call? with
    | none =>
      have hsame := wireStep_stale hA hw hcall hstale.1 hstep
      subst hsame
      rw [List.filterMap_cons_none hcall]
      exact ih hw (hstale.2 _ hstep) hrest
    | some c =>
      have he : e = .call c := by
        cases e with
        | call c' => exact congrArg WireEvent.call (Option.some.inj hcall)
        | update n copy env => cases hcall
        | install n env i => cases hcall
      subst he
      obtain ⟨hw₁, ok, hone⟩ := wireStep_call hw hstep
      obtain ⟨oks, hoks⟩ := ih hw₁ (hstale.2 _ hstep) hrest
      refine ⟨ok :: oks, ?_⟩
      rw [List.filterMap_cons_some hcall]
      simp [EnclaveCall.run, hone, hoks]

/-- Both ends in step, with the key of nines. -/
def ninesParties : Parties := ⟨ninesHost, ⟨fill _ 9, fill _ 9⟩⟩

/-- The ticket with nothing in its way. -/
def sixesTicket : EnclaveCall := sixesTicketIn .ok calmUpdate

/-- A ticket, and its message once more. -/
theorem sixesTicket_replay_harmless :
    ∃ w oks, wireRun (Aead.keyTag _ _) ⟨ninesParties, []⟩
        [.call sixesTicket, .update 0 .ok calmUpdate] = some w ∧
      EnclaveCall.run (Aead.keyTag _ _) ninesParties [sixesTicket] = some (w.parties, oks) := by
  have hkeys : ∀ w, wireStep (Aead.keyTag _ _) ⟨ninesParties, []⟩ (.call sixesTicket) = some w →
      w.sent.map Prod.fst = [fill _ 9] ∧ w.parties.host.lsm.aesKey = fill _ 15 := by
    intro w hw
    have hseen : (wireStep (Aead.keyTag _ _) ⟨ninesParties, []⟩ (.call sixesTicket)).map
        (fun w => (w.sent.map Prod.fst, w.parties.host.lsm.aesKey)) =
          some ([fill _ 9], fill _ 15) := by decide +kernel
    rw [hw, Option.map_some, Option.some.injEq, Prod.mk.injEq] at hseen
    exact hseen
  have hstale : Run.Along (wireStep (Aead.keyTag _ _)) Stale ⟨ninesParties, []⟩
      [.call sixesTicket, .update 0 .ok calmUpdate] := by
    refine ⟨fun n hn => (nomatch hn), fun w hw => ⟨fun n hn m hm => ?_, fun _ _ => trivial⟩⟩
    obtain ⟨hsent, hkey⟩ := hkeys w hw
    have hm' : m.1 ∈ w.sent.map Prod.fst :=
      List.mem_map_of_mem (List.mem_of_getElem? (Option.mem_def.mp hm))
    rw [hsent, List.mem_singleton] at hm'
    rw [hm', hkey]
    decide
  obtain ⟨w, hrun⟩ := Option.isSome_iff_exists.mp
    (show (wireRun (Aead.keyTag _ _) ⟨ninesParties, []⟩
      [.call sixesTicket, .update 0 .ok calmUpdate]).isSome = true
      by decide +kernel)
  have hrecorded : Wire.Recorded (Aead.keyTag _ _) ⟨ninesParties, []⟩ :=
    fun m hm => absurd hm List.not_mem_nil
  obtain ⟨oks, hoks⟩ := replays_harmless (Aead.keyTag_ideal _ _) hrecorded hstale hrun
  exact ⟨w, oks, hrun, hoks⟩

/-! ## When a message is not stale -/

/-- **When a ticket can be played back.** In step, a ticket is sent and
any calls follow, all of them delivered. Then its message, again on the
way, is ignored by both inputs exactly if the updates accepted since, its
own included, do not cancel out. If they do, the update file inserts the
record again and moves the kernel's key, and not the enclave's. -/
theorem replay_taken_iff (hA : A.Ideal) {key : AesKey} {updates : List AesKey} {p₀ p : Parties}
    (hinv : Lockstep key updates p₀) (rnd : TicketRandom) (pid : Pid) (metadata : Identifier)
    (operation : Operation) (copy : CopyEnv) (env : UpdateEnv) (calls : List EnclaveCall)
    {oks : List Bool}
    (hdel : ∀ c ∈ EnclaveCall.ticket rnd pid metadata operation copy env :: calls,
      c.delivered = true)
    (hrun : EnclaveCall.run A p₀ (.ticket rnd pid metadata operation copy env :: calls) =
      some (p, oks)) :
    (Ignored A p.host.lsm (ticketMessage A p₀.enclave rnd ⟨pid, metadata, operation⟩) ↔
      net (EnclaveCall.accepted (.ticket rnd pid metadata operation copy env :: calls) oks) ≠
        zeros _) ∧
    (net (EnclaveCall.accepted (.ticket rnd pid metadata operation copy env :: calls) oks) =
        zeros _ →
      ∀ env' : UpdateEnv, env'.plain = true → env'.crypto = true →
        processReceivedUpdate A env' p.host.lsm
            (ticketMessage A p₀.enclave rnd ⟨pid, metadata, operation⟩) =
          (insertTicket p.host.lsm.system.kernel (env'.insert 0).rebalance
            (env'.insert 0).allocs (env'.insert 0).now ⟨pid, metadata, operation⟩).map
            fun out => (updateAesKey (p.host.lsm.setKernel out.1) rnd.keyUpdate,
              [(⟨pid, metadata, operation⟩, out.2)])) := by
  have hinv' := EnclaveCall.run_lockstep hdel hinv hrun
  -- the keys then and now
  have hkey : p₀.enclave.aesKey = p.host.lsm.aesKey ↔
      net (EnclaveCall.accepted (.ticket rnd pid metadata operation copy env :: calls) oks) =
        zeros _ := by
    rw [hinv'.lsmKey, ratchet_append, ← hinv.enclaveKey, ← ratchet_eq_self_iff p₀.enclave.aesKey]
    exact eq_comm
  have htaken : ∀ hsame : p₀.enclave.aesKey = p.host.lsm.aesKey, ∀ env' : UpdateEnv,
      env'.plain = true → env'.crypto = true → _ := fun hsame env' hplain hcrypto =>
    processReceivedUpdate_ticketMessage (A := A) env' hinv'.registered hplain hcrypto hsame rnd
      ⟨pid, metadata, operation⟩
  refine ⟨⟨fun hignored hcancel => ?_, fun hne => ?_⟩, fun hcancel => htaken (hkey.mpr hcancel)⟩
  · have hinsert := htaken (hkey.mpr hcancel) calmUpdate rfl rfl
    obtain ⟨k, hins, -, -⟩ := insertTicket_wf hinv'.wf .none 100 ⟨pid, metadata, operation⟩
    rw [hignored.1 calmUpdate rfl] at hinsert
    simp [calmUpdate, hins] at hinsert
  · refine ignored_of_unauthentic ?_
    rw [authenticates_ticketMessage hA]
    exact decide_eq_false fun h => hne (hkey.mp h)

theorem ninesParties_lockstep : Lockstep (fill _ 9) [] ninesParties :=
  ⟨rfl, (Kernel.boot_keyed _).toWf, rfl, rfl, rfl, rfl⟩

/-- Two tickets with one update: the first can be played back. -/
theorem sixesTicket_taken_again :
    ∃ p oks, EnclaveCall.run (Aead.keyTag _ _) ninesParties [sixesTicket, sixesTicket] =
        some (p, oks) ∧
      ¬ Ignored (Aead.keyTag _ _) p.host.lsm
        (ticketMessage (Aead.keyTag _ _) ninesParties.enclave someRandom
          ⟨7, fill _ 8, opOpen⟩) := by
  obtain ⟨⟨p, oks⟩, hrun, hoks⟩ := Option.map_eq_some_iff.mp
    (show (EnclaveCall.run (Aead.keyTag _ _) ninesParties [sixesTicket, sixesTicket]).map
      Prod.snd = some [true, true] by decide +kernel)
  have hdel : ∀ c ∈ [sixesTicket, sixesTicket], c.delivered = true := by decide
  obtain ⟨hiff, -⟩ := replay_taken_iff (Aead.keyTag_ideal _ _) ninesParties_lockstep someRandom 7
    (fill _ 8) opOpen .ok calmUpdate [sixesTicket] hdel hrun
  refine ⟨p, oks, hrun, fun hignored => hiff.mp hignored ?_⟩
  rw [show oks = [true, true] from hoks]
  decide

/-! ## Out of step -/

/-- The difference of the two session keys. -/
def Parties.drift (p : Parties) : AesKey := xor p.enclave.aesKey p.host.lsm.aesKey

/-- The update of a ticket; those of labels move nothing when the ends are
out of step. -/
def EnclaveCall.ticketUpdate : EnclaveCall → Option AesKey
  | .ticket rnd _ _ _ _ _ => some rnd.keyUpdate
  | _ => none

theorem Parties.drift_eq_zeros_iff (p : Parties) :
    p.drift = zeros _ ↔ p.enclave.aesKey = p.host.lsm.aesKey := xor_eq_zeros_iff

/-- The enclave after a call that the kernel did not take. -/
def EnclaveCall.alone (e : Enclave) (c : EnclaveCall) : Enclave :=
  c.ticketUpdate.elim e e.updateAesKey

/-- A label for a kernel with another key. -/
theorem generateXattrTicketCore_apart (hA : A.Ideal) {p : Parties}
    (hapart : p.enclave.aesKey ≠ p.host.lsm.aesKey) (rnd : TicketRandom) (random : Identifier)
    (path : Option Nat) (internal : Bool) (identifier : Option Identifier)
    (taint declassify : Bool) (env : InstallEnv) :
    ∃ h', generateXattrTicketCore A (Daemon.installXattr A env) p.host p.enclave rnd random path
        internal identifier taint declassify = some (h', p.enclave, identifier, false) ∧
      h'.lsm = p.host.lsm := by
  cases path with
  | none =>
    refine ⟨p.host, ?_, rfl⟩
    simp [generateXattrTicketCore, Daemon.installXattr, Daemon.enoent, acceptedSignal]
  | some i =>
    have hno : authenticates A p.host.lsm.aesKey (ticketMessage A p.enclave rnd
        (xattrRecord internal taint declassify random)) = false := by
      rw [authenticates_ticketMessage hA]
      exact decide_eq_false hapart
    have hignored := xattrEnclaveInstallation_unauthentic (A := A) env i hno
    refine ⟨p.host, ?_, rfl⟩
    simp only [generateXattrTicketCore, Daemon.installXattr, trmInodeSetxattrInstall, hignored]
    cases p.host.lsm.registered with
    | true => simp [xattrRejectedSignal, acceptedSignal]
    | false => simp [ecanceled, acceptedSignal]

/-- **Out of step, the kernel takes nothing**, and the enclave is told that
it took the tickets. -/
theorem EnclaveCall.step_apart (hA : A.Ideal) {p p' : Parties}
    (hapart : p.enclave.aesKey ≠ p.host.lsm.aesKey) {c : EnclaveCall} {ok : Bool}
    (hstep : c.step A p = some (p', ok)) :
    ok = c.ticketUpdate.isSome ∧ p'.host.lsm = p.host.lsm ∧ p'.enclave = c.alone p.enclave := by
  cases c with
  | ticket rnd pid metadata operation copy env =>
    obtain ⟨rfl, henclave, n, hrecv⟩ := ticket_step hstep
    have hno : authenticates A p.host.lsm.aesKey (ticketMessage A p.enclave rnd
        ⟨pid, metadata, operation⟩) = false := by
      rw [authenticates_ticketMessage hA]
      exact decide_eq_false hapart
    refine ⟨rfl, ?_, henclave⟩
    rcases updateReceive_cases hrecv with ⟨hsame, -⟩ | ⟨-, -, -, hproc⟩
    · exact hsame
    · exact (eq_of_processReceivedUpdate_undecrypted (trmAesDecrypt_eq_none hno _) hproc).1
  | xattr rnd random path identifier taint declassify env =>
    obtain ⟨h', hcore, hlsm⟩ := generateXattrTicketCore_apart hA hapart rnd random path false
      identifier taint declassify env
    rw [EnclaveCall.step, generateXattrTicket, hcore] at hstep
    cases hstep
    exact ⟨rfl, hlsm, rfl⟩
  | xattrInternal rnd random path env =>
    obtain ⟨h', hcore, hlsm⟩ := generateXattrTicketCore_apart hA hapart rnd random path true none
      true false env
    rw [EnclaveCall.step, generateXattrTicketInternal, hcore] at hstep
    cases hstep
    exact ⟨rfl, hlsm, rfl⟩

/-- The difference after it. -/
theorem drift_apart {p p' : Parties} {c : EnclaveCall} (hlsm : p'.host.lsm = p.host.lsm)
    (henclave : p'.enclave = c.alone p.enclave) :
    p'.drift = c.ticketUpdate.elim p.drift (xor p.drift) := by
  rw [Parties.drift, hlsm, henclave, EnclaveCall.alone]
  cases hu : c.ticketUpdate with
  | none => rfl
  | some u =>
    change xor (xor p.enclave.aesKey u) p.host.lsm.aesKey = xor (xor _ _) u
    rw [Bytes.xor_assoc, Bytes.xor_comm u, ← Bytes.xor_assoc]

/-- The updates of the tickets among the calls. -/
def ticketUpdates (calls : List EnclaveCall) : List AesKey :=
  calls.filterMap EnclaveCall.ticketUpdate

theorem net_ticketUpdates_cons (c : EnclaveCall) (calls : List EnclaveCall) (δ : AesKey) :
    net (ticketUpdates (c :: calls)) = δ ↔
      net (ticketUpdates calls) = c.ticketUpdate.elim δ (xor δ) := by
  cases hu : c.ticketUpdate with
  | none => rw [ticketUpdates, List.filterMap_cons_none hu]; rfl
  | some u =>
    rw [ticketUpdates, List.filterMap_cons_some hu, net_cons]
    exact xor_eq_iff

/-- In step, the ends stay in step. -/
theorem run_in_step {p p' : Parties} {calls : List EnclaveCall} {oks : List Bool}
    (hreg : p.host.lsm.registered = true) (hwf : p.host.lsm.system.kernel.Wf)
    (hptoken : p.enclave.ptokenAesKey = p.host.lsm.ptokenAesKey)
    (hdel : ∀ c ∈ calls, c.delivered = true) (hsame : p.enclave.aesKey = p.host.lsm.aesKey)
    (hrun : EnclaveCall.run A p calls = some (p', oks)) :
    p'.enclave.aesKey = p'.host.lsm.aesKey := by
  have hkey : p.host.lsm.aesKey =
      ratchet p.host.lsm.ptokenAesKey [xor p.host.lsm.ptokenAesKey p.host.lsm.aesKey] := by
    exact (xor_cancel_left _ _).symm
  have hinv : Lockstep p.host.lsm.ptokenAesKey
      [xor p.host.lsm.ptokenAesKey p.host.lsm.aesKey] p :=
    ⟨hreg, hwf, hsame.trans hkey, hkey, hptoken, rfl⟩
  exact (EnclaveCall.run_lockstep hdel hinv hrun).sameKey

/-- **Out of step.** From any state of a registered module and an enclave
of the same registration, over every sequence of calls that are delivered
and come back: the session keys are equal at the end exactly if the
updates of the tickets up to some point make up the difference there was.
If they are not, the kernel has taken nothing, and the enclave has been
told of every ticket that it was installed. -/
theorem in_step_iff (hA : A.Ideal) {calls : List EnclaveCall} :
    ∀ {p p' : Parties} {oks : List Bool}, p.host.lsm.registered = true →
      p.host.lsm.system.kernel.Wf → p.enclave.ptokenAesKey = p.host.lsm.ptokenAesKey →
      (∀ c ∈ calls, c.delivered = true) → EnclaveCall.run A p calls = some (p', oks) →
      (p'.enclave.aesKey = p'.host.lsm.aesKey ↔
        ∃ pre, pre <+: calls ∧ net (ticketUpdates pre) = p.drift) ∧
      (p'.enclave.aesKey ≠ p'.host.lsm.aesKey →
        p'.host.lsm = p.host.lsm ∧ oks = calls.map (·.ticketUpdate.isSome)) := by
  induction calls with
  | nil =>
    intro p p' oks _ _ _ _ hrun
    cases hrun
    refine ⟨?_, fun _ => ⟨rfl, rfl⟩⟩
    rw [← p.drift_eq_zeros_iff]
    refine ⟨fun h => ⟨[], List.prefix_rfl, h.symm⟩, ?_⟩
    rintro ⟨pre, hpre, hnet⟩
    rw [List.prefix_nil.mp hpre] at hnet
    exact hnet.symm
  | cons c calls ih =>
    intro p p' oks hreg hwf hptoken hdel hrun
    by_cases hsame : p.enclave.aesKey = p.host.lsm.aesKey
    · have hend := run_in_step hreg hwf hptoken hdel hsame hrun
      refine ⟨⟨fun _ => ⟨[], List.nil_prefix, ?_⟩, fun _ => hend⟩, fun hne => absurd hend hne⟩
      exact (p.drift_eq_zeros_iff.mpr hsame).symm
    · obtain ⟨p₁, ok, oks', hstep, hrest, rfl⟩ := EnclaveCall.run_cons_some hrun
      obtain ⟨-, hdel'⟩ := List.forall_mem_cons.mp hdel
      obtain ⟨rfl, hlsm, henclave⟩ := EnclaveCall.step_apart hA hsame hstep
      have hptoken₁ : p₁.enclave.ptokenAesKey = p₁.host.lsm.ptokenAesKey := by
        rw [hlsm, henclave, ← hptoken, EnclaveCall.alone]
        cases c.ticketUpdate <;> rfl
      obtain ⟨hiff, hlost⟩ := ih (hlsm ▸ hreg) (hlsm ▸ hwf) hptoken₁ hdel' hrest
      refine ⟨hiff.trans ?_, fun hne => ?_⟩
      · rw [drift_apart hlsm henclave]
        refine ⟨fun ⟨pre, hpre, hnet⟩ => ⟨c :: pre, List.cons_prefix_cons.mpr ⟨rfl, hpre⟩,
          (net_ticketUpdates_cons c pre _).mpr hnet⟩, ?_⟩
        rintro ⟨pre, hpre, hnet⟩
        cases pre with
        | nil => exact absurd (p.drift_eq_zeros_iff.mp hnet.symm) hsame
        | cons c' pre =>
          obtain ⟨rfl, hpre'⟩ := List.cons_prefix_cons.mp hpre
          exact ⟨pre, hpre', (net_ticketUpdates_cons c' pre _).mp hnet⟩
      · obtain ⟨hlsm', hoks⟩ := hlost hne
        exact ⟨hlsm'.trans hlsm, by rw [hoks]; rfl⟩

/-- The enclave has the key of ones, so the difference is of eights, which
two tickets make up for. -/
theorem eights_in_step_again :
    ∃ p oks, EnclaveCall.run (Aead.keyTag _ _) ⟨ninesHost, ⟨fill _ 1, fill _ 9⟩⟩
        [sixesTicket, .ticket ⟨fill _ 14, zeros _, zeros _⟩ 7 (fill _ 8) opOpen .ok calmUpdate] =
          some (p, oks) ∧
      p.enclave.aesKey = p.host.lsm.aesKey := by
  obtain ⟨⟨p, oks⟩, hrun⟩ := Option.isSome_iff_exists.mp
    (show (EnclaveCall.run (Aead.keyTag _ _) ⟨ninesHost, ⟨fill _ 1, fill _ 9⟩⟩
      [sixesTicket, .ticket ⟨fill _ 14, zeros _, zeros _⟩ 7 (fill _ 8) opOpen .ok
        calmUpdate]).isSome = true by decide +kernel)
  refine ⟨p, oks, hrun, ((in_step_iff (Aead.keyTag_ideal _ _) rfl
    (Kernel.boot_keyed _).toWf rfl (by decide) hrun).1).mpr ⟨_, List.prefix_rfl, ?_⟩⟩
  decide

end Citadel
