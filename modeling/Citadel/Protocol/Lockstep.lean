/-
Citadel.Protocol.Lockstep — the session keys of enclave and kernel from a
registration on, over every sequence of the enclave's own calls.

Each end ratchets its key by itself: the kernel when it has processed a
message, the enclave when its OCALL comes back with the right number. The
joint state is the pair of both ends. A registration leaves one key in
four places (`registration_lockstep`). After that the two kinds of calls
differ:

* a label is answered. The kernel takes it or not, for whatever reason,
  and the enclave learns which: both session keys move or neither does;
* a ticket is not. The enclave moves its key in any case, and the kernel
  only if it could copy the bytes and decrypt them (`delivered`).

So the ends stay in step over a run exactly if every ticket of it is
delivered (`keys_in_lockstep_iff`). The invariant counts the accepted
updates, so that the keys are known and not only equal. What the memory of
`insert_ticket` is like does not matter, since the ratchet does not look
at its result.

Calls that never come back are another matter (`survives`): the kernel
reads and writes through some pointers without looking at them.
-/
import Citadel.Lsm.Registration
import Citadel.Protocol.Exchange

namespace Citadel

open Bytes Enclave

variable {A : Gcm}

/-! ## Registration -/

/-- The response of the enclave decrypts to the challenge with the new key
in it, and the enclave holds this key twice. -/
theorem handleKernelChallenge_response (lsmRsa : Pke rsaKeyLength rsaMaxPayload)
    {rsaDecrypt : List UInt8 → Option (List UInt8)} {e e' : Enclave}
    {challengeData seed response : List UInt8} {key : AesKey} {pid : Pid}
    (h : handleKernelChallenge rsaDecrypt (fun m => some (lsmRsa.encrypt seed m)) e
      challengeData key pid = (e', some response)) :
    e' = ⟨key, key⟩ ∧ ∃ c, responsePayload lsmRsa.decrypt response = some c ∧ c.key = key := by
  unfold handleKernelChallenge at h
  split at h
  · cases h
  split at h
  · cases h
  split at h
  · rename_i challenge padding _ _
    split at h
    · cases h
    simp only [Prod.mk.injEq, Option.some.injEq] at h
    obtain ⟨rfl, rfl⟩ := h
    have hread : ∀ c : Challenge, responsePayload lsmRsa.decrypt
        (lsmRsa.encrypt seed (c.encode padding)) = some c := by
      intro c
      have hcap : (c.encode padding).length ≤ rsaMaxPayload := by
        rw [Challenge.encode_length]
        decide
      rw [responsePayload, if_pos (lsmRsa.encrypt_length _ _ hcap), trmRsaDecrypt,
        lsmRsa.decrypt_encrypt _ _ hcap]
      exact Challenge.read_encode _ _ _
    exact ⟨rfl, _, hread _, rfl⟩
  · cases h

/-! ## The joint state -/

/-- Both ends. -/
structure Parties where
  host : Daemon.Host
  enclave : Enclave

/-- A call in the enclave, with the outside of both ends. -/
inductive EnclaveCall where
  | ticket (rnd : TicketRandom) (pid : Pid) (metadata : Identifier) (operation : Operation)
      (copy : CopyEnv) (env : UpdateEnv)
  | xattr (rnd : TicketRandom) (random : Identifier) (path : Option Nat)
      (identifier : Option Identifier) (taint declassify : Bool) (env : InstallEnv)
  | xattrInternal (rnd : TicketRandom) (random : Identifier) (path : Option Nat)
      (env : InstallEnv)

namespace EnclaveCall

def keyUpdate : EnclaveCall → AesKey
  | ticket rnd _ _ _ _ _ => rnd.keyUpdate
  | xattr rnd _ _ _ _ _ _ => rnd.keyUpdate
  | xattrInternal rnd _ _ _ => rnd.keyUpdate

/-- The kernel gets to see the message: of a ticket the bytes are copied
and the cipher has its buffers. A label that is not seen is refused. -/
def delivered : EnclaveCall → Bool
  | ticket _ _ _ _ copy env => copy.works && env.crypto
  | xattr _ _ _ _ _ _ _ => true
  | xattrInternal _ _ _ _ => true

/-- The kernel gets the memory it does not check for, and lives through
the pointer that a declassification does not set. -/
def survives : EnclaveCall → Bool
  | ticket _ _ _ _ _ env => env.plain && (env.insert 0).allocs.hex
  | xattr _ _ _ _ _ declassify env => env.plain && if declassify then env.stray else env.hex
  | xattrInternal _ _ _ env => env.plain && env.hex

/-- The call, its message delivered once and unchanged, and what it
returns. -/
def step (A : Gcm) (p : Parties) : EnclaveCall → Option (Parties × Bool)
  | ticket rnd pid metadata operation copy env =>
    (generateTicket A (Daemon.installTicket A copy env) p.host p.enclave rnd pid
      metadata operation).map fun out => (⟨out.1, out.2.1⟩, out.2.2)
  | xattr rnd random path identifier taint declassify env =>
    (generateXattrTicket A (Daemon.installXattr A env) p.host p.enclave rnd random path
      identifier taint declassify).map fun out => (⟨out.1, out.2.1⟩, out.2.2.2)
  | xattrInternal rnd random path env =>
    (generateXattrTicketInternal A (Daemon.installXattr A env) p.host p.enclave rnd random
      path).map fun out => (⟨out.1, out.2.1⟩, out.2.2.2)

def run (A : Gcm) : Parties → List EnclaveCall → Option (Parties × List Bool)
  | p, [] => some (p, [])
  | p, c :: cs => do
    let (p, ok) ← c.step A p
    let (p, oks) ← run A p cs
    some (p, ok :: oks)

/-- The key updates of the calls that returned true. -/
def accepted : List EnclaveCall → List Bool → List AesKey
  | c :: cs, ok :: oks => if ok then c.keyUpdate :: accepted cs oks else accepted cs oks
  | _, _ => []

end EnclaveCall

/-- The key after a sequence of updates. -/
def ratchet (key : AesKey) (updates : List AesKey) : AesKey := updates.foldl Bytes.xor key

theorem ratchet_concat (key update : AesKey) (updates : List AesKey) :
    ratchet key (updates ++ [update]) = Bytes.xor (ratchet key updates) update := by
  rw [ratchet, List.foldl_append, List.foldl_cons, List.foldl_nil, ratchet]

/-- The invariant: `updates` are the key updates accepted so far. -/
structure Lockstep (key : AesKey) (updates : List AesKey) (p : Parties) : Prop where
  registered : p.host.lsm.registered = true
  wf : p.host.lsm.system.kernel.Wf
  enclaveKey : p.enclave.aesKey = ratchet key updates
  lsmKey : p.host.lsm.aesKey = ratchet key updates
  enclavePtoken : p.enclave.ptokenAesKey = key
  lsmPtoken : p.host.lsm.ptokenAesKey = key

theorem Lockstep.sameKey {key : AesKey} {updates : List AesKey} {p : Parties}
    (h : Lockstep key updates p) : p.enclave.aesKey = p.host.lsm.aesKey :=
  h.enclaveKey.trans h.lsmKey.symm

/-- An accepted registration puts both ends in step. -/
theorem registration_lockstep (lsmRsa : Pke rsaKeyLength rsaMaxPayload)
    {rsaDecrypt : List UInt8 → Option (List UInt8)} {e₀ e : Enclave}
    {challengeData seed response : List UInt8} {key : AesKey} {pid : Pid} {stray : Bool}
    {s₀ s : Lsm} (hwf : s₀.system.kernel.Wf)
    (hhandle : handleKernelChallenge rsaDecrypt (fun m => some (lsmRsa.encrypt seed m)) e₀
      challengeData key pid = (e, some response))
    (haccept : processChallengeResponse lsmRsa.decrypt stray s₀ response = some (s, true))
    (log : List (UpdateRecord × Bool)) : Lockstep key [] ⟨⟨s, log⟩, e⟩ := by
  obtain ⟨rfl, c, hpay, rfl⟩ := handleKernelChallenge_response lsmRsa hhandle
  rcases processChallengeResponse_cases lsmRsa.decrypt haccept with
    ⟨-, -, hrej⟩ | ⟨c', hpay', -, -, rfl, -⟩
  · cases hrej
  · obtain rfl : c' = c := Option.some.inj (hpay'.symm.trans hpay)
    exact ⟨rfl, hwf, rfl, rfl, rfl, rfl⟩

/-! ## One call -/

/-- A label message moves both keys or neither, and the call says which. -/
def BothOrNeither (rnd : TicketRandom) (p p' : Parties) (ok : Bool) : Prop :=
  (ok = true ∧ p'.host.lsm.aesKey = xor p.host.lsm.aesKey rnd.keyUpdate ∧
    p'.enclave = p.enclave.updateAesKey rnd.keyUpdate) ∨
  (ok = false ∧ p'.host.lsm.aesKey = p.host.lsm.aesKey ∧ p'.enclave = p.enclave)

/-- What one call does to both ends. A ticket decrypts, its record is the
one `insert_ticket` is called with, and both keys move. -/
def Exchanged (A : Gcm) (p : Parties) : EnclaveCall → Parties → Bool → Prop
  | .ticket rnd pid metadata operation _ env, p', ok =>
    ok = true ∧
    trmAesDecrypt A env.crypto p.host.lsm.aesKey
        (ticketMessage A p.enclave rnd ⟨pid, metadata, operation⟩) =
      some (ticketData rnd.keyUpdate ⟨pid, metadata, operation⟩ rnd.padding) ∧
    ∃ k success,
      insertTicket p.host.lsm.system.kernel (env.insert 0).rebalance (env.insert 0).allocs
        (env.insert 0).now ⟨pid, metadata, operation⟩ = some (k, success) ∧
      p'.host = ⟨updateAesKey (p.host.lsm.setKernel k) rnd.keyUpdate,
        [(⟨pid, metadata, operation⟩, success)]⟩ ∧
      p'.enclave = p.enclave.updateAesKey rnd.keyUpdate
  | .xattr rnd _ _ _ _ _ _, p', ok => BothOrNeither rnd p p' ok
  | .xattrInternal rnd _ _ _, p', ok => BothOrNeither rnd p p' ok

theorem ticketMessage_long (e : Enclave) (rnd : TicketRandom) (rcrd : UpdateRecord) :
    ¬ (ticketMessage A e rnd rcrd).length ≤ ivLength + tagLength := by
  have hpos := List.length_pos_iff.mpr (ticketData_ne_nil rnd.keyUpdate rcrd rnd.padding)
  rw [ticketMessage, aesEncrypt_eq_trmAesEncrypt, trmAesEncrypt_length]
  omega

/-- A ticket call that comes back, from both ends. -/
theorem ticket_step {p p' : Parties} {rnd : TicketRandom} {pid : Pid} {metadata : Identifier}
    {operation : Operation} {copy : CopyEnv} {env : UpdateEnv} {ok : Bool}
    (hstep : (EnclaveCall.ticket rnd pid metadata operation copy env).step A p = some (p', ok)) :
    ok = true ∧ p'.enclave = p.enclave.updateAesKey rnd.keyUpdate ∧
      ∃ n, updateReceive A copy env p.host.lsm
          (ticketMessage A p.enclave rnd ⟨pid, metadata, operation⟩) =
        some (p'.host.lsm, n, p'.host.log) := by
  obtain ⟨⟨h', e', ok'⟩, hrun, hout⟩ := Option.map_eq_some_iff.mp hstep
  cases hout
  exact generateTicket_returns_true hrun

/-- Delivered, a ticket moves both ends. -/
theorem ticket_lockstep {key : AesKey} {updates : List AesKey} {p p' : Parties}
    (hinv : Lockstep key updates p) {rnd : TicketRandom} {pid : Pid} {metadata : Identifier}
    {operation : Operation} {copy : CopyEnv} {env : UpdateEnv} {ok : Bool}
    (hdel : (EnclaveCall.ticket rnd pid metadata operation copy env).delivered = true)
    (hstep : (EnclaveCall.ticket rnd pid metadata operation copy env).step A p = some (p', ok)) :
    Lockstep key (updates ++ [rnd.keyUpdate]) p' ∧
      Exchanged A p (.ticket rnd pid metadata operation copy env) p' ok := by
  obtain ⟨rfl, henclave, n, hrecv⟩ := ticket_step hstep
  simp only [EnclaveCall.delivered, CopyEnv.works, Bool.and_eq_true] at hdel
  obtain ⟨⟨⟨hrsa, hdata⟩, hcopied⟩, hcrypto⟩ := hdel
  rw [updateReceive, if_neg (by simp [hrsa]), if_neg (by simp [hdata]),
    if_neg (by simp [hcopied])] at hrecv
  obtain ⟨⟨s', log⟩, hproc, hout⟩ := Option.bind_eq_some_iff.mp hrecv
  simp only [Option.some.injEq, Prod.mk.injEq] at hout
  -- it came back, so there was memory for the plain text
  have hplain : env.plain = true := by
    by_contra hno
    rw [processReceivedUpdate, if_neg (by simp [hinv.registered]),
      if_neg (ticketMessage_long _ _ _), if_pos (by simp [hno])] at hproc
    cases hproc
  rw [processReceivedUpdate_ticketMessage env hinv.registered hplain hcrypto hinv.sameKey] at hproc
  obtain ⟨⟨k, success⟩, hins, hstate⟩ := Option.map_eq_some_iff.mp hproc
  simp only [Prod.mk.injEq] at hstate
  have hhost : p'.host = ⟨updateAesKey (p.host.lsm.setKernel k) rnd.keyUpdate,
      [(⟨pid, metadata, operation⟩, success)]⟩ := by
    rw [hstate.1, hstate.2, hout.1, hout.2.2]
  refine ⟨⟨?_, ?_, ?_, ?_, ?_, ?_⟩, rfl, ?_, k, success, hins, hhost, henclave⟩
  · rw [hhost]
    exact hinv.registered
  · rw [hhost]
    rcases insertTicket_allocs hinv.wf (env.insert 0).rebalance (env.insert 0).allocs
      (env.insert 0).now ⟨pid, metadata, operation⟩ with ⟨hnone, -⟩ | ⟨k', hsome, hwf, -⟩
    · rw [hnone] at hins
      cases hins
    · rw [hsome] at hins
      cases hins
      exact hwf
  · rw [ratchet_concat, ← hinv.enclaveKey, henclave]
    rfl
  · rw [ratchet_concat, ← hinv.lsmKey, hhost]
    rfl
  · rw [henclave]
    exact hinv.enclavePtoken
  · rw [hhost]
    exact hinv.lsmPtoken
  · rw [ticketMessage, aesEncrypt_eq_trmAesEncrypt, hinv.sameKey, hcrypto, trmAesDecrypt_encrypt]

/-- A ticket whose record reached `insert_ticket` had been delivered. -/
theorem delivered_of_exchanged {p p' : Parties} {c : EnclaveCall} {ok : Bool}
    (hstep : c.step A p = some (p', ok)) (hex : Exchanged A p c p' ok) : c.delivered = true := by
  cases c with
  | ticket rnd pid metadata operation copy env =>
    obtain ⟨-, -, n, hrecv⟩ := ticket_step hstep
    obtain ⟨-, hdec, k, success, -, hhost, -⟩ := hex
    have hlog : p'.host.log ≠ [] := by simp [hhost]
    have hcrypto : env.crypto = true := by
      by_contra hno
      rw [trmAesDecrypt, if_neg hno] at hdec
      cases hdec
    rcases updateReceive_cases hrecv with ⟨-, hnil⟩ | ⟨hrsa, hdata, hcopied, -⟩
    · exact absurd hnil hlog
    · simp [EnclaveCall.delivered, CopyEnv.works, hrsa, hdata, hcopied, hcrypto]
  | xattr rnd random path identifier taint declassify env => rfl
  | xattrInternal rnd random path env => rfl

/-- Without a registration or a buffer nothing is taken. -/
theorem xattrEnclaveInstallation_untaken {env : InstallEnv} {s s' : Lsm} {i : Nat}
    {value : List UInt8} {r : Int}
    (hno : ¬ (s.registered = true ∧ env.plain = true ∧ env.crypto = true))
    (h : xattrEnclaveInstallation A env s i value = some (s', r)) : s' = s ∧ r = -1 := by
  unfold xattrEnclaveInstallation at h
  split at h
  · cases h; exact ⟨rfl, rfl⟩
  split at h
  · cases h; exact ⟨rfl, rfl⟩
  split at h
  · cases h; exact ⟨rfl, rfl⟩
  rename_i hreg _ _ out hdec
  split at h
  · cases h
  · rename_i hplain
    have hcrypto : env.crypto = true := by
      by_contra hoff
      rw [trmAesDecrypt, if_neg hoff] at hdec
      cases hdec
    exact absurd ⟨by simpa using hreg, by simpa using hplain, hcrypto⟩ hno

/-- What a label message of the enclave did, if it came back. -/
theorem xattrEnclaveInstallation_label {env : InstallEnv} {s s' : Lsm} {i : Nat} {e : Enclave}
    (hkey : e.aesKey = s.aesKey) {rnd : TicketRandom} {rcrd : UpdateRecord} {r : Int}
    (h : xattrEnclaveInstallation A env s i (ticketMessage A e rnd rcrd) = some (s', r)) :
    Labelled s rnd.keyUpdate s' r := by
  by_cases htaken : s.registered = true ∧ env.plain = true ∧ env.crypto = true
  · obtain ⟨hreg, hplain, hcrypto⟩ := htaken
    rw [xattrEnclaveInstallation_ticketMessage env hreg hplain hcrypto i hkey] at h
    split at h
    · exact declassify_labelled h
    · exact induct_labelled h
  · -- refused, or lost through a pointer that is null
    have hout := xattrEnclaveInstallation_untaken htaken h
    rw [hout.1, hout.2]
    exact ⟨.inr ⟨rfl, rfl⟩, rfl, rfl, rfl, rfl, rfl⟩

/-- The number that the daemon hands to the enclave says what the hook
did. -/
theorem answer_accepted_iff (r : Int) :
    (if (if r ≠ 0 then -xattrRejectedSignal else -xattrAcceptedSignal) < 0 then
        -(if r ≠ 0 then -xattrRejectedSignal else -xattrAcceptedSignal)
      else 0) = acceptedSignal ↔ r = 0 := by
  by_cases hr : r = 0
  · simp [hr, xattrAcceptedSignal, acceptedSignal]
  · simp [hr, xattrRejectedSignal, acceptedSignal]

/-- `_generate_xattr_ticket`, for both of its callers. -/
theorem generateXattrTicketCore_lockstep {key : AesKey} {updates : List AesKey} {p : Parties}
    (hinv : Lockstep key updates p) {rnd : TicketRandom} {random : Identifier}
    {path : Option Nat} {internal : Bool} {identifier : Option Identifier}
    {taint declassify : Bool} {env : InstallEnv} {h' : Daemon.Host} {e' : Enclave}
    {out : Option Identifier} {ok : Bool}
    (hcore : generateXattrTicketCore A (Daemon.installXattr A env) p.host p.enclave rnd random path
      internal identifier taint declassify = some (h', e', out, ok)) :
    Lockstep key (if ok then updates ++ [rnd.keyUpdate] else updates) ⟨h', e'⟩ ∧
      BothOrNeither rnd p ⟨h', e'⟩ ok := by
  obtain ⟨⟨w, ret⟩, hinstall, hcore⟩ := Option.bind_eq_some_iff.mp hcore
  cases path with
  | none =>
    cases hinstall
    dsimp only at hcore
    rw [if_neg (show ¬ Daemon.enoent = acceptedSignal by decide)] at hcore
    cases hcore
    exact ⟨hinv, .inr ⟨rfl, rfl, rfl⟩⟩
  | some i =>
    obtain ⟨⟨s', rc⟩, hhook, hret⟩ := Option.bind_eq_some_iff.mp hinstall
    rw [trmInodeSetxattrInstall, if_pos hinv.registered] at hhook
    obtain ⟨⟨s₁, r⟩, hlabel, hrc⟩ := Option.bind_eq_some_iff.mp hhook
    cases hret
    cases hrc
    dsimp only at hcore
    have hlab := xattrEnclaveInstallation_label hinv.sameKey hlabel
    have hwf : s'.system.kernel.Wf := by
      rw [hlab.kernel]
      exact hinv.wf
    have hreg := hlab.registered.trans hinv.registered
    have hptoken := hlab.ptokenAesKey.trans hinv.lsmPtoken
    rcases hlab.outcome with ⟨rfl, hkey⟩ | ⟨rfl, hkey⟩
    · -- accepted: both move
      rw [if_pos ((answer_accepted_iff 0).mpr rfl)] at hcore
      cases hcore
      refine ⟨⟨hreg, hwf, ?_, ?_, hinv.enclavePtoken, hptoken⟩, .inl ⟨rfl, hkey, rfl⟩⟩
      · rw [if_pos rfl, ratchet_concat, ← hinv.enclaveKey]
        rfl
      · rw [if_pos rfl, ratchet_concat, ← hinv.lsmKey]
        exact hkey
    · -- refused: neither does
      rw [if_neg fun h => absurd ((answer_accepted_iff (-1)).mp h) (by decide)] at hcore
      cases hcore
      exact ⟨⟨hreg, hwf, hinv.enclaveKey, hkey.trans hinv.lsmKey, hinv.enclavePtoken, hptoken⟩,
        .inr ⟨rfl, hkey, rfl⟩⟩

/-- A call that is delivered and comes back keeps the ends in step. -/
theorem EnclaveCall.step_lockstep {key : AesKey} {updates : List AesKey} {p p' : Parties}
    (hinv : Lockstep key updates p) {c : EnclaveCall} {ok : Bool} (hdel : c.delivered = true)
    (hstep : c.step A p = some (p', ok)) :
    Lockstep key (if ok then updates ++ [c.keyUpdate] else updates) p' ∧ Exchanged A p c p' ok := by
  cases c with
  | ticket rnd pid metadata operation copy env =>
    obtain ⟨hinv', hex⟩ := ticket_lockstep hinv hdel hstep
    rw [hex.1]
    exact ⟨hinv', rfl, hex.2⟩
  | xattr rnd random path identifier taint declassify env =>
    obtain ⟨⟨h', e', out, ok'⟩, hcore, hout⟩ := Option.map_eq_some_iff.mp hstep
    cases hout
    exact generateXattrTicketCore_lockstep hinv hcore
  | xattrInternal rnd random path env =>
    obtain ⟨⟨h', e', out, ok'⟩, hcore, hout⟩ := Option.map_eq_some_iff.mp hstep
    cases hout
    exact generateXattrTicketCore_lockstep hinv hcore

/-! ## Calls that come back -/

theorem xattrRecord_has_declassify (internal taint declassify : Bool) (random : Identifier) :
    (xattrRecord internal taint declassify random).operation.has opDeclassify = declassify := by
  simp only [xattrRecord]
  cases declassify <;> cases taint <;> decide

theorem xattrEnclaveInstallation_returns {env : InstallEnv} {s : Lsm} {e : Enclave}
    (hkey : e.aesKey = s.aesKey) (i : Nat) (rnd : TicketRandom) (rcrd : UpdateRecord)
    (hplain : env.plain = true)
    (hrest : (if rcrd.operation.has opDeclassify then env.stray else env.hex) = true) :
    ∃ out, xattrEnclaveInstallation A env s i (ticketMessage A e rnd rcrd) = some out := by
  cases hreg : s.registered with
  | false => exact ⟨_, by rw [xattrEnclaveInstallation, if_pos (by simp [hreg])]⟩
  | true =>
    cases hcrypto : env.crypto with
    | false =>
      refine ⟨_, by rw [xattrEnclaveInstallation, if_neg (by simp [hreg]),
        if_neg (ticketMessage_long _ _ _), hcrypto]; rfl⟩
    | true =>
      rw [xattrEnclaveInstallation_ticketMessage env hreg hplain hcrypto i hkey]
      split at hrest
      · rename_i hdec
        rw [if_pos hdec, declassify, if_neg (by simp [hrest])]
        split
        · exact ⟨_, rfl⟩
        · dsimp only
          split <;> exact ⟨_, rfl⟩
      · rename_i hdec
        rw [if_neg hdec, induct, if_neg (by simp [hrest])]
        dsimp only
        split <;> exact ⟨_, rfl⟩

theorem generateXattrTicketCore_returns {p : Parties}
    (hkey : p.enclave.aesKey = p.host.lsm.aesKey) (rnd : TicketRandom) (random : Identifier)
    (path : Option Nat) (internal : Bool) (identifier : Option Identifier)
    (taint declassify : Bool) {env : InstallEnv} (hplain : env.plain = true)
    (hrest : (if declassify then env.stray else env.hex) = true) :
    ∃ out, generateXattrTicketCore A (Daemon.installXattr A env) p.host p.enclave rnd random path
      internal identifier taint declassify = some out := by
  have hinstall : ∃ out, Daemon.installXattr A env p.host path (ticketMessage A p.enclave rnd
      (xattrRecord internal taint declassify random)) = some out := by
    cases path with
    | none => exact ⟨_, rfl⟩
    | some i =>
      obtain ⟨out, hlabel⟩ := xattrEnclaveInstallation_returns (A := A) hkey i rnd
        (xattrRecord internal taint declassify random) hplain
        (by rw [xattrRecord_has_declassify]; exact hrest)
      rw [Daemon.installXattr, trmInodeSetxattrInstall]
      split
      · rw [hlabel]
        exact ⟨_, rfl⟩
      · exact ⟨_, rfl⟩
  obtain ⟨⟨w, ret⟩, hinstall⟩ := hinstall
  rw [generateXattrTicketCore]
  dsimp only
  rw [hinstall, Option.bind_eq_bind, Option.bind_some]
  dsimp only
  split <;> exact ⟨_, rfl⟩

/-- In step, what survives comes back. -/
theorem EnclaveCall.step_returns {key : AesKey} {updates : List AesKey} {p : Parties}
    (hinv : Lockstep key updates p) {c : EnclaveCall} (hsurv : c.survives = true) :
    ∃ p' ok, c.step A p = some (p', ok) := by
  cases c with
  | ticket rnd pid metadata operation copy env =>
    simp only [EnclaveCall.survives, Bool.and_eq_true] at hsurv
    obtain ⟨hplain, hhex⟩ := hsurv
    have hproc : ∃ out, processReceivedUpdate A env p.host.lsm
        (ticketMessage A p.enclave rnd ⟨pid, metadata, operation⟩) = some out := by
      cases hcrypto : env.crypto with
      | false =>
        rw [processReceivedUpdate_undecrypted (by rw [hcrypto]; rfl), if_neg (by simp [hplain])]
        exact ⟨_, rfl⟩
      | true =>
        rw [processReceivedUpdate_ticketMessage env hinv.registered hplain hcrypto hinv.sameKey]
        rcases insertTicket_allocs hinv.wf (env.insert 0).rebalance (env.insert 0).allocs
          (env.insert 0).now ⟨pid, metadata, operation⟩ with ⟨-, hnohex⟩ | ⟨k, hins, -, -⟩
        · rw [hhex] at hnohex
          cases hnohex
        · rw [hins]
          exact ⟨_, rfl⟩
    obtain ⟨⟨s', log⟩, hproc⟩ := hproc
    have hrecv : ∃ n s'' log', updateReceive A copy env p.host.lsm
        (ticketMessage A p.enclave rnd ⟨pid, metadata, operation⟩) = some (s'', n, log') := by
      unfold updateReceive
      rw [hproc]
      split
      · exact ⟨_, _, _, rfl⟩
      split
      · exact ⟨_, _, _, rfl⟩
      split <;> exact ⟨_, _, _, rfl⟩
    obtain ⟨n, s'', log', hrecv⟩ := hrecv
    refine ⟨⟨⟨s'', log'⟩, p.enclave.updateAesKey rnd.keyUpdate⟩, true, ?_⟩
    simp [EnclaveCall.step, generateTicket, Daemon.installTicket, hrecv, ticketMessage_ne_nil]
  | xattr rnd random path identifier taint declassify env =>
    simp only [EnclaveCall.survives, Bool.and_eq_true] at hsurv
    obtain ⟨out, hcore⟩ := generateXattrTicketCore_returns (A := A) hinv.sameKey rnd random path
      false identifier taint declassify hsurv.1 hsurv.2
    exact ⟨_, _, by rw [EnclaveCall.step, generateXattrTicket, hcore]; rfl⟩
  | xattrInternal rnd random path env =>
    simp only [EnclaveCall.survives, Bool.and_eq_true] at hsurv
    obtain ⟨out, hcore⟩ := generateXattrTicketCore_returns (A := A) hinv.sameKey rnd random path
      true none true false hsurv.1 hsurv.2
    exact ⟨_, _, by rw [EnclaveCall.step, generateXattrTicketInternal, hcore]; rfl⟩

/-! ## Every sequence of calls -/

namespace EnclaveCall

theorem run_cons_some {p p' : Parties} {c : EnclaveCall} {cs : List EnclaveCall}
    {oks : List Bool} (h : EnclaveCall.run A p (c :: cs) = some (p', oks)) :
    ∃ p₁ ok oks', c.step A p = some (p₁, ok) ∧ EnclaveCall.run A p₁ cs = some (p', oks') ∧
      oks = ok :: oks' := by
  obtain ⟨⟨p₁, ok⟩, hstep, h⟩ := Option.bind_eq_some_iff.mp h
  obtain ⟨⟨p₂, oks'⟩, hrun, h⟩ := Option.bind_eq_some_iff.mp h
  cases h
  exact ⟨p₁, ok, oks', hstep, hrun, rfl⟩

/-- A run that comes back came back from its first calls. -/
theorem run_append_some {pre post : List EnclaveCall} : ∀ {p p' : Parties} {oks : List Bool},
    EnclaveCall.run A p (pre ++ post) = some (p', oks) →
      ∃ p₁ oks₁ oks₂, EnclaveCall.run A p pre = some (p₁, oks₁) ∧
        EnclaveCall.run A p₁ post = some (p', oks₂) := by
  induction pre with
  | nil =>
    intro p p' oks h
    exact ⟨p, [], oks, rfl, h⟩
  | cons c pre ih =>
    intro p p' oks h
    obtain ⟨p₁, ok, oks', hstep, hrest, -⟩ := run_cons_some h
    obtain ⟨p₂, oks₁, oks₂, hpre, hpost⟩ := ih hrest
    exact ⟨p₂, ok :: oks₁, oks₂, by simp [run, hstep, hpre], hpost⟩

/-- What one more call adds to the accepted updates. -/
theorem lockstep_cons {key : AesKey} {updates : List AesKey} {c : EnclaveCall}
    {cs : List EnclaveCall} {ok : Bool} {oks : List Bool} {p : Parties}
    (h : Lockstep key ((if ok then updates ++ [c.keyUpdate] else updates) ++ accepted cs oks) p) :
    Lockstep key (updates ++ accepted (c :: cs) (ok :: oks)) p := by
  cases ok with
  | true => simpa [accepted] using h
  | false => simpa [accepted] using h

theorem run_lockstep {key : AesKey} {calls : List EnclaveCall}
    (hdel : ∀ c ∈ calls, c.delivered = true) :
    ∀ {updates : List AesKey} {p p' : Parties} {oks : List Bool}, Lockstep key updates p →
      EnclaveCall.run A p calls = some (p', oks) →
      Lockstep key (updates ++ EnclaveCall.accepted calls oks) p' := by
  induction calls with
  | nil =>
    intro updates p p' oks hinv hrun
    cases hrun
    simpa [accepted] using hinv
  | cons c cs ih =>
    intro updates p p' oks hinv hrun
    obtain ⟨p₁, ok, oks', hstep, hrest, rfl⟩ := run_cons_some hrun
    obtain ⟨hinv₁, -⟩ := step_lockstep hinv (hdel c List.mem_cons_self) hstep
    exact lockstep_cons (ih (fun c hc => hdel c (List.mem_cons_of_mem _ hc)) hinv₁ hrest)

theorem run_returns {key : AesKey} {calls : List EnclaveCall}
    (hdel : ∀ c ∈ calls, c.delivered = true) (hsurv : ∀ c ∈ calls, c.survives = true) :
    ∀ {updates : List AesKey} {p : Parties}, Lockstep key updates p →
      ∃ p' oks, EnclaveCall.run A p calls = some (p', oks) := by
  induction calls with
  | nil =>
    intro updates p _
    exact ⟨p, [], rfl⟩
  | cons c cs ih =>
    intro updates p hinv
    obtain ⟨p₁, ok, hstep⟩ := step_returns (A := A) hinv (hsurv c List.mem_cons_self)
    obtain ⟨hinv₁, -⟩ := step_lockstep hinv (hdel c List.mem_cons_self) hstep
    obtain ⟨p', oks, hrun⟩ := ih (fun c hc => hdel c (List.mem_cons_of_mem _ hc))
      (fun c hc => hsurv c (List.mem_cons_of_mem _ hc)) hinv₁
    exact ⟨p', ok :: oks, by simp [run, hstep, hrun]⟩

end EnclaveCall

/-- Wherever the run is, both session keys are the registration key
ratcheted by the updates accepted so far, both ptoken keys are the
registration key, and the next call of it moves both ends or neither. -/
def StaysInStep (A : Gcm) (key : AesKey) (p₀ : Parties) (calls : List EnclaveCall) : Prop :=
  ∀ pre post p oks, calls = pre ++ post → EnclaveCall.run A p₀ pre = some (p, oks) →
    Lockstep key (EnclaveCall.accepted pre oks) p ∧
    ∀ c p' ok, post.head? = some c → c.step A p = some (p', ok) → Exchanged A p c p' ok

/-- From an accepted registration on, over every sequence of ticket and
label calls. A sequence that is delivered and survives comes back; and one
that comes back stays in step exactly if all of its tickets were
delivered. -/
theorem keys_in_lockstep_iff (lsmRsa : Pke rsaKeyLength rsaMaxPayload)
    {rsaDecrypt : List UInt8 → Option (List UInt8)} {e₀ e : Enclave}
    {challengeData seed response : List UInt8} {key : AesKey} {pid : Pid} {stray : Bool}
    {s₀ s : Lsm} (hwf : s₀.system.kernel.Wf)
    (hhandle : handleKernelChallenge rsaDecrypt (fun m => some (lsmRsa.encrypt seed m)) e₀
      challengeData key pid = (e, some response))
    (haccept : processChallengeResponse lsmRsa.decrypt stray s₀ response = some (s, true))
    (log : List (UpdateRecord × Bool)) (calls : List EnclaveCall) :
    ((∀ c ∈ calls, c.delivered = true) → (∀ c ∈ calls, c.survives = true) →
      ∃ p oks, EnclaveCall.run A ⟨⟨s, log⟩, e⟩ calls = some (p, oks)) ∧
    ∀ p oks, EnclaveCall.run A ⟨⟨s, log⟩, e⟩ calls = some (p, oks) →
      (StaysInStep A key ⟨⟨s, log⟩, e⟩ calls ↔ ∀ c ∈ calls, c.delivered = true) := by
  have hstart := registration_lockstep lsmRsa hwf hhandle haccept log
  refine ⟨fun hdel hsurv => EnclaveCall.run_returns hdel hsurv hstart, ?_⟩
  intro p oks hrun
  constructor
  · intro hstays c hc
    obtain ⟨pre, post, rfl⟩ := List.append_of_mem hc
    obtain ⟨p₁, oks₁, oks₂, hpre, hpost⟩ := EnclaveCall.run_append_some hrun
    obtain ⟨p₂, ok, -, hstep, -⟩ := EnclaveCall.run_cons_some hpost
    exact delivered_of_exchanged hstep
      ((hstays pre (c :: post) p₁ oks₁ rfl hpre).2 c p₂ ok rfl hstep)
  · rintro hdel pre post p₁ oks₁ rfl hpre
    have hinv := EnclaveCall.run_lockstep
      (fun c hc => hdel c (List.mem_append_left _ hc)) hstart hpre
    rw [List.nil_append] at hinv
    refine ⟨hinv, fun c p₂ ok hhead hstep => ?_⟩
    have hc : c ∈ post := List.mem_of_mem_head? hhead
    exact (EnclaveCall.step_lockstep hinv (hdel c (List.mem_append_right _ hc)) hstep).2

/-- A challenge on its way to the enclave, the module that issued it, and
both ends after the registration with the key of nines. -/
def sentChallenge : List UInt8 :=
  plainRsa.encrypt []
    ((⟨challengeSignature, fill _ 5, zeros _, zeros _, 0⟩ : Challenge).encode (fill _ 1))

def challenger : Lsm := (generateChallenge (Lsm.boot idleSystem) true (fill _ 5)).1

def answered : Enclave × Option (List UInt8) :=
  handleKernelChallenge plainRsa.decrypt (fun m => some (plainRsa.encrypt [] m))
    ⟨zeros _, zeros _⟩ sentChallenge (fill _ 9) 42

/-- A ticket for pid 7 in the given circumstances; its update is of sixes. -/
def sixesTicketIn (copy : CopyEnv) (env : UpdateEnv) : EnclaveCall :=
  .ticket someRandom 7 (fill _ 8) opOpen copy env

def ticketAndLabel : List EnclaveCall :=
  [sixesTicketIn .ok calmUpdate, .xattr someRandom (fill _ 4) (some 0) none true false .ok]

theorem registered_keys_in_lockstep :
    ∃ s p oks, EnclaveCall.run (Aead.keyTag _ _) ⟨⟨s, []⟩, answered.1⟩ ticketAndLabel =
        some (p, oks) ∧
      Lockstep (fill _ 9) (EnclaveCall.accepted ticketAndLabel oks) p := by
  obtain ⟨response, hresponse, haccept⟩ := Option.bind_eq_some_iff.mp
    (show (answered.2.bind fun response =>
      (processChallengeResponse plainRsa.decrypt true challenger response).map (·.2)) = some true by
      decide +kernel)
  obtain ⟨⟨s, accepted⟩, haccept, rfl⟩ := Option.map_eq_some_iff.mp haccept
  have hhandle : answered = (answered.1, some response) := by rw [← hresponse]
  have hdel : ∀ c ∈ ticketAndLabel, c.delivered = true := by decide
  obtain ⟨hreturns, hiff⟩ := keys_in_lockstep_iff (A := Aead.keyTag _ _) plainRsa
    (Kernel.boot_keyed _).toWf hhandle haccept [] ticketAndLabel
  obtain ⟨p, oks, hrun⟩ := hreturns hdel (by decide)
  exact ⟨s, p, oks, hrun, ((hiff p oks hrun).mpr hdel ticketAndLabel [] p oks
    (List.append_nil _).symm hrun).1⟩

/-- What the calls of a run reported, the two keys after it and the
kernel's last insertions. -/
structure RunReport where
  oks : List Bool
  enclaveKey : AesKey
  lsmKey : AesKey
  log : List (UpdateRecord × Bool)
  deriving DecidableEq

/-- The report of these calls after the registration. -/
def runReport (calls : List EnclaveCall) : Option RunReport :=
  answered.2.bind fun response =>
    (processChallengeResponse plainRsa.decrypt true challenger response).bind fun out =>
      (EnclaveCall.run (Aead.keyTag _ _) ⟨⟨out.1, []⟩, answered.1⟩ calls).map fun last =>
        ⟨last.2, last.1.enclave.aesKey, last.1.host.lsm.aesKey, last.1.host.log⟩

/-- With no buffer for the cipher, or none for the bytes, the enclave
ratchets alone. The next ticket finds another key in the kernel, is not
inserted, and is reported as installed like the first. -/
theorem ticket_lost_keys_apart :
    runReport [sixesTicketIn .ok { calmUpdate with crypto := false }] =
      some ⟨[true], fill _ 15, fill _ 9, []⟩ ∧
    runReport [sixesTicketIn { CopyEnv.ok with data := false } calmUpdate] =
      some ⟨[true], fill _ 15, fill _ 9, []⟩ ∧
    runReport [sixesTicketIn .ok { calmUpdate with crypto := false },
        .ticket ⟨fill _ 3, zeros _, zeros _⟩ 7 (fill _ 8) opOpen .ok calmUpdate] =
      some ⟨[true, true], fill _ 12, fill _ 9, []⟩ := by
  refine ⟨?_, ?_, ?_⟩ <;> decide +kernel

end Citadel
