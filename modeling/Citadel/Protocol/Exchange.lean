/-
Citadel.Protocol.Exchange — one call of `generate_ticket`, through the
daemon, into the kernel and back.

The two ends frame alike, so under equal keys the kernel reads the record
the enclave wrote (`processReceivedUpdate_ticketMessage`), on the update
file as on the install attribute. What comes back is another matter:
`fwrite` has reported one item before the kernel has seen the message, so
the enclave ratchets its key whatever became of it
(`generateTicket_returns_true`). Reported success is therefore real
exactly when nothing went wrong on the kernel's side
(`ticket_success_real_iff`).
-/
import Citadel.Daemon.LsmIo
import Citadel.Enclave.LsmCommunication
import Citadel.Lsm.PayloadIoTheorems

namespace Citadel

open Bytes Enclave

variable {A : Gcm}

/-! ## The message in the kernel -/

/-- The two framings are one. -/
theorem aesEncrypt_eq_trmAesEncrypt (A : Gcm) (key : AesKey) (iv : Block ivLength)
    (m : List UInt8) : aesEncrypt A key iv m = trmAesEncrypt A key iv m := rfl

theorem ticketData_ne_nil (keyUpdate : AesKey) (rcrd : UpdateRecord) (padding : Block 2) :
    ticketData keyUpdate rcrd padding ≠ [] := by
  intro h
  have hlen := congrArg List.length h
  simp [ticketData, UpdateHeader.encode_length, updateHeaderSize] at hlen

theorem ticketMessage_ne_nil (e : Enclave) (rnd : TicketRandom) (rcrd : UpdateRecord) :
    ticketMessage A e rnd rcrd ≠ [] := by
  intro h
  have hlen := congrArg List.length h
  rw [ticketMessage, aesEncrypt_eq_trmAesEncrypt, trmAesEncrypt_length] at hlen
  simp [tagLength] at hlen

/-- Under the kernel's key the single record reaches `insert_ticket` and
the key is ratcheted, whatever `insert_ticket` says. -/
theorem processReceivedUpdate_ticketMessage (env : UpdateEnv) {s : Lsm}
    (hreg : s.registered = true) (hplain : env.plain = true) (hcrypto : env.crypto = true)
    {e : Enclave} (hkey : e.aesKey = s.aesKey) (rnd : TicketRandom) (rcrd : UpdateRecord) :
    processReceivedUpdate A env s (ticketMessage A e rnd rcrd) =
      (insertTicket s.system.kernel (env.insert 0).rebalance (env.insert 0).allocs
        (env.insert 0).now rcrd).map
        fun out => (updateAesKey (s.setKernel out.1) rnd.keyUpdate, [(rcrd, out.2)]) := by
  have hencoded : ticketData rnd.keyUpdate rcrd rnd.padding ++ spareBytes =
      (⟨challengeSignature, rnd.keyUpdate, 1⟩ : UpdateHeader).encode ++
        (encodeRecords [(rcrd, rnd.padding)] ++ spareBytes) := by
    simp [ticketData, encodeRecords]
  rw [ticketMessage, aesEncrypt_eq_trmAesEncrypt, hkey,
    processReceivedUpdate_authentic env hreg hplain hcrypto rnd.iv (ticketData_ne_nil _ _ _),
    hencoded, applyUpdate_encoded _ _ _ _ rfl]
  simp only [List.map_cons, List.map_nil, insertAll]
  cases insertTicket s.system.kernel (env.insert 0).rebalance (env.insert 0).allocs
    (env.insert 0).now rcrd with
  | none => rfl
  | some out => rfl

/-- The install attribute takes the same message, and acts on its record. -/
theorem xattrEnclaveInstallation_ticketMessage (env : InstallEnv) {s : Lsm}
    (hreg : s.registered = true) (hplain : env.plain = true) (hcrypto : env.crypto = true)
    (i : Nat) {e : Enclave} (hkey : e.aesKey = s.aesKey) (rnd : TicketRandom)
    (rcrd : UpdateRecord) :
    xattrEnclaveInstallation A env s i (ticketMessage A e rnd rcrd) =
      if rcrd.operation.has opDeclassify then
        declassify env s i ⟨challengeSignature, rnd.keyUpdate, 1⟩
      else induct env s i ⟨challengeSignature, rnd.keyUpdate, 1⟩ rcrd := by
  rw [ticketMessage, aesEncrypt_eq_trmAesEncrypt, hkey,
    xattrEnclaveInstallation_authentic env hreg hplain hcrypto i rnd.iv
      (ticketData_ne_nil _ _ _), ticketData, List.append_assoc, applyInstall_encoded,
    if_neg (by simp)]

/-- Under any other key neither channel takes it. -/
theorem authenticates_ticketMessage (hA : A.Ideal) (e : Enclave) (rnd : TicketRandom)
    (rcrd : UpdateRecord) (key : AesKey) :
    authenticates A key (ticketMessage A e rnd rcrd) = decide (e.aesKey = key) := by
  rw [ticketMessage, aesEncrypt_eq_trmAesEncrypt]
  by_cases hk : e.aesKey = key
  · rw [← hk, authenticates_encrypt]
    simp
  · rw [authenticates_other hA hk]
    simp [hk]

/-! ## What the enclave is told -/

/-- `install_ticket` reports one item whatever the kernel did, so the call
returns true and ratchets the key whenever it returns. -/
theorem generateTicket_returns_true {copy : CopyEnv} {env : UpdateEnv} {h h' : Daemon.Host}
    {e e' : Enclave} {rnd : TicketRandom} {pid : Pid} {metadata : Identifier}
    {operation : Operation} {ok : Bool}
    (hrun : generateTicket A (Daemon.installTicket A copy env) h e rnd pid metadata operation =
      some (h', e', ok)) :
    ok = true ∧ e' = e.updateAesKey rnd.keyUpdate ∧
      ∃ n, updateReceive A copy env h.lsm (ticketMessage A e rnd ⟨pid, metadata, operation⟩) =
        some (h'.lsm, n, h'.log) := by
  obtain ⟨⟨w, ret⟩, hinstall, hout⟩ := Option.bind_eq_some_iff.mp hrun
  obtain ⟨⟨lsm, n, log⟩, hrecv, hret⟩ := Option.bind_eq_some_iff.mp hinstall
  simp only [List.length_eq_zero_iff, if_neg (ticketMessage_ne_nil e rnd _), Option.some.injEq,
    Prod.mk.injEq] at hret
  obtain ⟨rfl, rfl⟩ := hret
  simp only [show ¬ ((1 : Int) = 0) by decide, if_false, Option.some.injEq, Prod.mk.injEq] at hout
  obtain ⟨rfl, rfl, rfl⟩ := hout
  exact ⟨rfl, rfl, n, hrecv⟩

/-! ## When success is real -/

/-- In this exchange `insert_ticket` was called with the record, said yes
and left the kernel as it is, and the kernel's key was ratcheted by the
message's update. -/
def Inserted (env : UpdateEnv) (rnd : TicketRandom) (rcrd : UpdateRecord)
    (h h' : Daemon.Host) : Prop :=
  h'.log = [(rcrd, true)] ∧ h'.lsm.aesKey = xor h.lsm.aesKey rnd.keyUpdate ∧
    insertTicket h.lsm.system.kernel (env.insert 0).rebalance (env.insert 0).allocs
      (env.insert 0).now rcrd = some (h'.lsm.system.kernel, true)

/-- A ticket reported as installed was inserted; of one that was not the
caller is told, and its key stays. -/
def SuccessReal (env : UpdateEnv) (rnd : TicketRandom) (rcrd : UpdateRecord)
    (h h' : Daemon.Host) (e e' : Enclave) (ok : Bool) : Prop :=
  (ok = true ∧ e'.aesKey = xor e.aesKey rnd.keyUpdate → Inserted env rnd rcrd h h') ∧
    (¬ Inserted env rnd rcrd h h' → ok = false ∧ e'.aesKey = e.aesKey)

/-- Nothing goes wrong on the kernel's side: RSA is up, the module is
registered, the keys are equal and what is allocated on the way can be. -/
structure KernelTakes (copy : CopyEnv) (env : UpdateEnv) (s : Lsm) (e : Enclave)
    (rcrd : UpdateRecord) : Prop where
  rsaAvailable : copy.rsaAvailable = true
  data : copy.data = true
  copied : copy.copied = true
  registered : s.registered = true
  plain : env.plain = true
  crypto : env.crypto = true
  sameKey : e.aesKey = s.aesKey
  insert : insertSucceeds s.system.kernel (env.insert 0).allocs rcrd = true

/-- An update that inserts something got through all checks. -/
theorem processReceivedUpdate_inserts (hA : A.Ideal) {env : UpdateEnv} {s s' : Lsm}
    {e : Enclave} {rnd : TicketRandom} {rcrd : UpdateRecord} {log : List (UpdateRecord × Bool)}
    (hrun : processReceivedUpdate A env s (ticketMessage A e rnd rcrd) = some (s', log))
    (hlog : log ≠ []) :
    s.registered = true ∧ env.plain = true ∧ env.crypto = true ∧ e.aesKey = s.aesKey := by
  have hdec : trmAesDecrypt A env.crypto s.aesKey (ticketMessage A e rnd rcrd) ≠ none :=
    fun hnone => hlog (eq_of_processReceivedUpdate_undecrypted hnone hrun).2
  have hcrypto : env.crypto = true := by
    cases hc : env.crypto with
    | true => rfl
    | false =>
      rw [hc] at hdec
      exact absurd rfl hdec
  have hkey : e.aesKey = s.aesKey := by
    by_contra hk
    exact hdec (trmAesDecrypt_eq_none
      (by rw [authenticates_ticketMessage hA]; exact decide_eq_false hk) _)
  rcases processReceivedUpdate_cases hrun with ⟨-, hnil⟩ | ⟨hreg, hplain, -⟩
  · exact absurd hnil hlog
  · exact ⟨hreg, hplain, hcrypto, hkey⟩

/-- The kernel has inserted the ticket exactly if nothing went wrong. -/
theorem inserted_iff (hA : A.Ideal) {copy : CopyEnv} {env : UpdateEnv} {h h' : Daemon.Host}
    (hwf : h.lsm.system.kernel.Wf) {e : Enclave} {rnd : TicketRandom} {rcrd : UpdateRecord}
    {n : Int} (hrecv : updateReceive A copy env h.lsm (ticketMessage A e rnd rcrd) =
      some (h'.lsm, n, h'.log)) :
    Inserted env rnd rcrd h h' ↔ KernelTakes copy env h.lsm e rcrd := by
  constructor
  · rintro ⟨hlog, -, hins⟩
    have hne : h'.log ≠ [] := by rw [hlog]; exact List.cons_ne_nil _ _
    rcases updateReceive_cases hrecv with ⟨-, hnil⟩ | ⟨hrsa, hdata, hcopied, hproc⟩
    · exact absurd hnil hne
    obtain ⟨hreg, hplain, hcrypto, hkey⟩ := processReceivedUpdate_inserts hA hproc hne
    exact ⟨hrsa, hdata, hcopied, hreg, hplain, hcrypto, hkey, (insertTicket_some hwf hins).2.2.symm⟩
  · intro hk
    rw [updateReceive, if_neg (by simp [hk.rsaAvailable]), if_neg (by simp [hk.data]),
      if_neg (by simp [hk.copied]), processReceivedUpdate_ticketMessage env hk.registered hk.plain
        hk.crypto hk.sameKey] at hrecv
    obtain ⟨⟨s', log⟩, hmap, hout⟩ := Option.bind_eq_some_iff.mp hrecv
    obtain ⟨⟨k', success⟩, hins, hstate⟩ := Option.map_eq_some_iff.mp hmap
    simp only [Option.some.injEq, Prod.mk.injEq] at hout hstate
    have hsuccess : success = true := (insertTicket_some hwf hins).2.2.trans hk.insert
    rw [hsuccess] at hins hstate
    refine ⟨?_, ?_, ?_⟩
    · rw [← hout.2.2, ← hstate.2]
    · rw [← hout.1, ← hstate.1]
      rfl
    · rw [hins, ← hout.1, ← hstate.1]
      rfl

/-- For every state of the two ends and every environment in which the call
comes back: its reported success is real exactly when nothing went wrong
on the kernel's side. -/
theorem ticket_success_real_iff (hA : A.Ideal) {copy : CopyEnv} {env : UpdateEnv}
    {h h' : Daemon.Host} (hwf : h.lsm.system.kernel.Wf) {e e' : Enclave} {rnd : TicketRandom}
    {pid : Pid} {metadata : Identifier} {operation : Operation} {ok : Bool}
    (hrun : generateTicket A (Daemon.installTicket A copy env) h e rnd pid metadata operation =
      some (h', e', ok)) :
    SuccessReal env rnd ⟨pid, metadata, operation⟩ h h' e e' ok ↔
      KernelTakes copy env h.lsm e ⟨pid, metadata, operation⟩ := by
  obtain ⟨rfl, rfl, n, hrecv⟩ := generateTicket_returns_true hrun
  rw [← inserted_iff hA hwf hrecv]
  constructor
  · rintro ⟨hreal, -⟩
    exact hreal ⟨rfl, rfl⟩
  · intro hins
    exact ⟨fun _ => hins, fun hnot => absurd hins hnot⟩

/-- The environment in which nothing fails. -/
def calmUpdate : UpdateEnv := ⟨true, true, fun _ => ⟨.none, .ok, 100⟩⟩

/-- A module registered with the key of nines. -/
def ninesHost : Daemon.Host :=
  ⟨⟨idleSystem, zeros _, zeros _, fill _ 9, fill _ 9, true⟩, []⟩

def someRandom : TicketRandom := ⟨fill _ 6, zeros _, zeros _⟩

theorem registeredTicket_success_real :
    ∃ h' e' ok, generateTicket (Aead.keyTag _ _)
        (Daemon.installTicket (Aead.keyTag _ _) .ok calmUpdate) ninesHost
        ⟨fill _ 9, fill _ 9⟩ someRandom 7 (fill _ 8) opOpen = some (h', e', ok) ∧
      SuccessReal calmUpdate someRandom ⟨7, fill _ 8, opOpen⟩ ninesHost h' ⟨fill _ 9, fill _ 9⟩
        e' ok := by
  obtain ⟨⟨h', e', ok⟩, hrun, -⟩ := Option.map_eq_some_iff.mp
    (show ((generateTicket (Aead.keyTag _ _)
        (Daemon.installTicket (Aead.keyTag _ _) .ok calmUpdate) ninesHost
        ⟨fill _ 9, fill _ 9⟩ someRandom 7 (fill _ 8) opOpen).map fun out => out.2.2) =
      some true by decide)
  exact ⟨h', e', ok, hrun, (ticket_success_real_iff (Aead.keyTag_ideal _ _)
    (Kernel.boot_keyed _).toWf hrun).mpr ⟨rfl, rfl, rfl, rfl, rfl, rfl, rfl, by decide⟩⟩

/-- What one call reports, the two keys after it and the kernel's
insertions. -/
structure TicketReport where
  ok : Bool
  enclaveKey : AesKey
  lsmKey : AesKey
  log : List (UpdateRecord × Bool)
  deriving DecidableEq

def ticketReport (copy : CopyEnv) (env : UpdateEnv) (h : Daemon.Host) (key : AesKey) :
    Option TicketReport :=
  (generateTicket (Aead.keyTag _ _) (Daemon.installTicket (Aead.keyTag _ _) copy env) h
    ⟨key, fill _ 9⟩ someRandom 7 (fill _ 8) opOpen).map fun out =>
    ⟨out.2.2, out.2.1.aesKey, out.1.lsm.aesKey, out.1.log⟩

/-- The enclave is told of success and ratchets its key: by a module that
is not registered, by one whose RSA is not up yet, by one that holds
another key, and by one with no memory for the ticket. None of them has
inserted it; the last has ratcheted its own key all the same. -/
theorem lost_ticket_reported_installed :
    ticketReport .ok calmUpdate ⟨Lsm.boot idleSystem, []⟩ (fill _ 9) =
      some ⟨true, fill _ 15, zeros _, []⟩ ∧
    ticketReport { CopyEnv.ok with rsaAvailable := false } calmUpdate ninesHost (fill _ 9) =
      some ⟨true, fill _ 15, fill _ 9, []⟩ ∧
    ticketReport .ok calmUpdate ninesHost (fill _ 1) =
      some ⟨true, fill _ 7, fill _ 9, []⟩ ∧
    ticketReport .ok
        { calmUpdate with insert := fun _ => ⟨.none, ⟨true, true, false⟩, 0⟩ } ninesHost
        (fill _ 9) =
      some ⟨true, fill _ 15, fill _ 15, [(⟨7, fill _ 8, opOpen⟩, false)]⟩ := by
  refine ⟨?_, ?_, ?_, ?_⟩ <;> decide

end Citadel
