/-
Citadel.Protocol.Startup — the daemon's start: what it thinks of its
registration, what the kernel module thinks of it, and what becomes of
requests that come in before.

`perform_registration` reads a challenge, lets the enclave answer it and
writes the answer. It believes the enclave: neither `fread` nor `fwrite` is
asked how it went, and the write of the answer has no way to say that the
module rejected it. In between, the challenge file is open to everybody,
and every read call replaces the one challenge there is. So the report is
true if and only if the challenge survived until the write
(`registration_real_iff`); if it did not, the enclave has its new keys all
the same.

The socket is served from before the registration on, while the enclave's
keys are zeros that everybody knows. Whatever is asked for then, and
whatever the enclave approves, the module takes nothing before it is
registered (`unregistered_takes_nothing`).
-/
import Citadel.Lsm.FileIo
import Citadel.Protocol.Deployment

namespace Citadel

open Bytes Enclave Calls Daemon

variable {A : Gcm}

/-! ## `perform_registration` -/

/-- What a read buffer of `stdio` asks the kernel for at once. -/
def stdioBuffer : Nat := 4096

/-- What the function takes from outside. -/
structure RegistrationEnv where
  /-- The challenge file opens. -/
  opened : Bool
  /-- The one `read` that `fread` makes. -/
  call : ChallengeCall
  /-- What `challenge_buffer` holds if the kernel copies nothing. -/
  garbage : Block rsaKeyLength
  key : AesKey
  seed : List UInt8
  pid : Pid
  /-- The challenge file opens for the response. -/
  reopened : Bool
  copy : CopyEnv
  buffered : call.count = stdioBuffer

/-- Both sides afterwards: `reported` is what the function returns,
`accepted` whether the module took the response. -/
structure Registered where
  lsm : Lsm
  enclave : Enclave
  reported : Bool
  accepted : Bool

/-- `send_registration`, with whether the module took it. -/
def sendRegistration (lsmRsa : Pke rsaKeyLength rsaMaxPayload) (env : RegistrationEnv) (s : Lsm)
    (data : List UInt8) : Option (Lsm × Bool) :=
  -- `fwrite` on the null pointer that `fopen` returned
  if !env.reopened then none
  else (challengeReceive lsmRsa.decrypt env.copy s data).map fun out => (out.1, out.2.2)

/-- `perform_registration`; `others` is what happens on the module's files
between the read and the write. The response buffer is zeroed on the way
out of an ECALL that fails. -/
def performRegistration (lsmRsa enclaveRsa : Pke rsaKeyLength rsaMaxPayload) (A : Gcm)
    (env : RegistrationEnv) (others : List ChannelEvent) (s : Lsm) (e : Enclave) :
    Option Registered :=
  if !env.opened then some ⟨s, e, false, false⟩
  else do
    let (s₁, reply) ← challengeReadAt enclaveRsa s 0 env.call
    let challenge := if reply.copied = [] then env.garbage.1 else reply.copied
    let (e', response) := handleKernelChallenge enclaveRsa.decrypt
      (fun m => some (lsmRsa.encrypt env.seed m)) e challenge env.key env.pid
    let (s₂, _) ← channelRun lsmRsa.decrypt A s₁ .empty others
    let (s₃, accepted) ← sendRegistration lsmRsa env s₂ (response.getD (zeros rsaKeyLength).1)
    some ⟨s₃, e', response.isSome, accepted⟩

/-! ## The challenge in between -/

/-- The module's challenge after the events. -/
def currentAfter (challenge : Block challengeLength) : List ChannelEvent → Block challengeLength
  | [] => challenge
  | .read true true random :: evs => currentAfter random evs
  | _ :: evs => currentAfter challenge evs

theorem channelStep_current {rsaDecrypt : List UInt8 → Option (List UInt8)} {s s' : Lsm}
    {h h' : History} {e : ChannelEvent}
    (hstep : channelStep rsaDecrypt A s h e = some (s', h')) :
    s'.currentChallenge = currentAfter s.currentChallenge [e] := by
  cases e with
  | read rsaAvailable alloc random =>
    cases hstep
    cases rsaAvailable <;> cases alloc <;> rfl
  | write copy buf =>
    obtain ⟨out, hrecv, hout⟩ := Option.map_eq_some_iff.mp hstep
    cases hout
    rcases challengeReceive_cases rsaDecrypt hrecv with ⟨hsame, -⟩ | ⟨c, -, -, -, hreg, -⟩
    · rw [hsame]
      rfl
    · rw [hreg]
      rfl
  | update copy env buf =>
    obtain ⟨out, hrecv, hout⟩ := Option.map_eq_some_iff.mp hstep
    cases hout
    exact updateReceive_challenge A hrecv
  | install env i value =>
    obtain ⟨out, hinst, hout⟩ := Option.map_eq_some_iff.mp hstep
    cases hout
    exact trmInodeSetxattrInstall_challenge A hinst

theorem currentAfter_cons (challenge : Block challengeLength) (e : ChannelEvent)
    (evs : List ChannelEvent) :
    currentAfter challenge (e :: evs) = currentAfter (currentAfter challenge [e]) evs := by
  cases e with
  | read rsaAvailable alloc random => cases rsaAvailable <;> cases alloc <;> rfl
  | write copy buf => rfl
  | update copy env buf => rfl
  | install env i value => rfl

theorem channelRun_current {rsaDecrypt : List UInt8 → Option (List UInt8)}
    {evs : List ChannelEvent} {s s' : Lsm} {h h' : History}
    (hrun : channelRun rsaDecrypt A s h evs = some (s', h')) :
    s'.currentChallenge = currentAfter s.currentChallenge evs := by
  induction evs generalizing s h with
  | nil =>
    cases hrun
    rfl
  | cons e evs ih =>
    obtain ⟨⟨s₁, h₁⟩, hstep, hrest⟩ := Option.bind_eq_some_iff.mp hrun
    rw [currentAfter_cons, ← channelStep_current hstep]
    exact ih hrest

/-! ## The response -/

/-- What the enclave makes of the challenge of a call. -/
def RegistrationEnv.answer (env : RegistrationEnv) : Challenge :=
  { env.call.challenge with name := writeName (zeros _), key := env.key, pid := env.pid }

/-- A challenge that decrypts is answered, and the enclave has its keys. -/
theorem handleKernelChallenge_answers {rsaDecrypt : List UInt8 → Option (List UInt8)}
    {data : List UInt8} {c : Challenge} {padding : Block challengePadding}
    (hdec : rsaDecrypt data = some (c.encode padding)) (hsig : c.signature = challengeSignature)
    (rsaEncrypt : List UInt8 → Option (List UInt8)) (e : Enclave) (key : AesKey) (pid : Pid) :
    handleKernelChallenge rsaDecrypt rsaEncrypt e data key pid =
      (⟨key, key⟩, rsaEncrypt (({ c with name := writeName c.name, key := key, pid := pid } :
        Challenge).encode padding)) := by
  have hread : Challenge.read (c.encode padding) = some c := by
    simpa using Challenge.read_encode c padding []
  have hpad : Bytes.read (c.encode padding) 100 challengePadding = some padding := by
    have hlast := read_front padding []
    rw [List.append_nil] at hlast
    rw [Challenge.encode, read_block _ _ (by decide), read_block _ _ (by decide),
      read_block _ _ (by decide), read_block _ _ (by decide), read_block _ _ (by decide)]
    exact hlast
  rw [handleKernelChallenge, hdec]
  simp only [Challenge.encode_length, ne_eq, not_true_eq_false, if_false, hread, hpad, hsig]

/-- The challenge that was read is answered. -/
theorem handleKernelChallenge_issued (lsmRsa enclaveRsa : Pke rsaKeyLength rsaMaxPayload)
    (env : RegistrationEnv) (e : Enclave) :
    handleKernelChallenge enclaveRsa.decrypt (fun m => some (lsmRsa.encrypt env.seed m)) e
        (env.call.ciphertext enclaveRsa) env.key env.pid =
      (⟨env.key, env.key⟩, some (lsmRsa.encrypt env.seed (env.answer.encode challengePad))) :=
  handleKernelChallenge_answers (enclaveRsa.decrypt_encrypt _ _ (encode_le env.call)) rfl _ _ _ _

/-- A response made for a challenge is taken by the module that has it. -/
theorem responsePayload_encrypt (lsmRsa : Pke rsaKeyLength rsaMaxPayload) (seed : List UInt8)
    (c : Challenge) (padding : Block challengePadding) :
    responsePayload lsmRsa.decrypt (lsmRsa.encrypt seed (c.encode padding)) = some c := by
  have hcap : (c.encode padding).length ≤ rsaMaxPayload := by
    rw [Challenge.encode_length]
    decide
  rw [responsePayload, if_pos (lsmRsa.encrypt_length _ _ hcap), trmRsaDecrypt,
    lsmRsa.decrypt_encrypt _ _ hcap]
  exact Challenge.read_encode _ _ _

/-- A write of 256 bytes that comes back is accepted exactly if nothing
fails and it carries the challenge, and otherwise changes nothing. -/
theorem sendRegistration_cases {lsmRsa : Pke rsaKeyLength rsaMaxPayload} {env : RegistrationEnv}
    {s : Lsm} {data : List UInt8} (hlen : data.length = rsaKeyLength) {out : Lsm × Bool}
    (h : sendRegistration lsmRsa env s data = some out) :
    (out.2 = true ↔ env.copy.works = true ∧ carries lsmRsa.decrypt s data = true) ∧
      (out.2 = false → out.1 = s) ∧
      (out.2 = true →
        ∃ c, responsePayload lsmRsa.decrypt data = some c ∧ out.1 = s.register c) := by
  have hfits : ¬ (data.length = 0 ∨ challengeMaxSize < data.length) := by
    rw [hlen]
    decide
  unfold sendRegistration at h
  split at h
  · cases h
  rw [challengeReceive, if_neg hfits] at h
  unfold CopyEnv.works
  cases hrsa : env.copy.rsaAvailable <;> cases hdata : env.copy.data <;>
    cases hcopied : env.copy.copied <;>
    simp only [hrsa, hdata, hcopied, Bool.not_true, Bool.not_false, Bool.false_eq_true,
      if_false, if_true, Option.map_some, Option.some.injEq] at h
  case true.true.true =>
    rcases processChallengeResponse_sized lsmRsa.decrypt hlen env.copy.stray s with
      ⟨hcar, hrun⟩ | ⟨c, hc, -, hcar, hrun⟩
    · rw [hrun] at h
      cases h
      simp [hcar]
    · rw [hrun] at h
      cases h
      simp [hcar, hc]
  all_goals
    subst h
    simp

/-! ## The report -/

/-- The daemon gets the challenge that the module made for it. -/
def RegistrationEnv.delivered (env : RegistrationEnv) : Bool :=
  env.call.issues && env.call.copied

/-- The bytes do not decrypt to something of the size of a challenge. -/
def NoChallenge (P : Pke rsaKeyLength rsaMaxPayload) (data : List UInt8) : Prop :=
  ∀ m, P.decrypt data = some m → m.length ≠ challengeSize

theorem handleKernelChallenge_none {P : Pke rsaKeyLength rsaMaxPayload} {data : List UInt8}
    (h : NoChallenge P data) (rsaEncrypt : List UInt8 → Option (List UInt8)) (e : Enclave)
    (key : AesKey) (pid : Pid) :
    handleKernelChallenge P.decrypt rsaEncrypt e data key pid = (e, none) := by
  unfold handleKernelChallenge
  cases hdec : P.decrypt data with
  | none => rfl
  | some m => exact if_pos (h m hdec)

/-- The read leaves the ciphertext in the buffer, or what was there. -/
theorem challengeReadAt_buffer {P : Pke rsaKeyLength rsaMaxPayload} {s : Lsm}
    {env : RegistrationEnv} {out : Lsm × Reading.Reply UInt8}
    (h : challengeReadAt P s 0 env.call = some out) :
    (if out.2.copied = [] then env.garbage.1 else out.2.copied) =
        (if env.delivered then env.call.ciphertext P else env.garbage.1) ∧
      (env.delivered = true → out.1.currentChallenge = env.call.random) := by
  have hlen := ciphertext_length P env.call
  unfold RegistrationEnv.delivered
  by_cases hissues : env.call.issues = true
  · rw [challengeReadAt_issued P s 0 hissues] at h
    cases h
    cases hcopied : env.call.copied with
    | false => simp [copyFrom, copyOut, hcopied, hlen, env.buffered, rsaKeyLength, stdioBuffer]
    | true =>
      have htake : (env.call.ciphertext P).take 256 = env.call.ciphertext P :=
        List.take_of_length_le (by rw [hlen]; decide)
      have hne : env.call.ciphertext P ≠ [] := by
        intro hnil
        rw [hnil] at hlen
        cases hlen
      simp [copyFrom, copyOut, hcopied, hlen, env.buffered, rsaKeyLength, stdioBuffer, hissues,
        htake, hne]
  · rcases challengeReadAt_cases h with ⟨-, -, hnone, -⟩ | ⟨-, -, rfl⟩ | ⟨hyes, -⟩
    · simp [hnone, hissues]
    · simp [hissues]
    · exact absurd hyes hissues

/-- **When the report is true.** The daemon reads a challenge, the files
are used in between, and it writes the enclave's response. It reports
success if and only if it got a challenge. The module is registered by it
if and only if, moreover, the write gets through and no other challenge was
drawn in between; otherwise the write changes nothing. The enclave changes
its keys in either case. -/
theorem registration_real_iff (lsmRsa enclaveRsa : Pke rsaKeyLength rsaMaxPayload)
    {env : RegistrationEnv} (hopened : env.opened = true)
    (hgarbage : NoChallenge enclaveRsa env.garbage.1)
    (hzeros : ∀ s, carries lsmRsa.decrypt s (zeros rsaKeyLength).1 = false)
    {others : List ChannelEvent} {s : Lsm} {e : Enclave} {out : Registered}
    (hrun : performRegistration lsmRsa enclaveRsa A env others s e = some out) :
    (out.reported = true ↔ env.delivered = true) ∧
    (out.accepted = true ↔ env.delivered = true ∧ env.copy.works = true ∧
      currentAfter env.call.random others = env.call.random) ∧
    (out.enclave = if env.delivered then ⟨env.key, env.key⟩ else e) ∧
    ∃ s₁ reply s₂ h, challengeReadAt enclaveRsa s 0 env.call = some (s₁, reply) ∧
      channelRun lsmRsa.decrypt A s₁ .empty others = some (s₂, h) ∧
      out.lsm = if out.accepted then s₂.register env.answer else s₂ := by
  rw [performRegistration, hopened, Bool.not_true, if_neg Bool.false_ne_true] at hrun
  obtain ⟨⟨s₁, reply⟩, hread, hrun⟩ := Option.bind_eq_some_iff.mp hrun
  obtain ⟨hbuffer, hcurrent⟩ := challengeReadAt_buffer hread
  dsimp only at hrun hbuffer
  rw [hbuffer] at hrun
  cases hdelivered : env.delivered with
  | false =>
    rw [hdelivered, if_neg Bool.false_ne_true, handleKernelChallenge_none hgarbage] at hrun
    obtain ⟨⟨s₂, h⟩, hothers, hrun⟩ := Option.bind_eq_some_iff.mp hrun
    obtain ⟨⟨s₃, accepted⟩, hsend, hout⟩ := Option.bind_eq_some_iff.mp hrun
    cases hout
    obtain ⟨hiff, hsame, -⟩ := sendRegistration_cases (zeros rsaKeyLength).2 hsend
    have haccepted : accepted = false := by simpa [hzeros s₂] using hiff
    refine ⟨by simp, by simp [haccepted], by simp, s₁, reply, s₂, h, hread, hothers, ?_⟩
    simpa [haccepted] using hsame haccepted
  | true =>
    rw [hdelivered, if_pos rfl, handleKernelChallenge_issued] at hrun
    obtain ⟨⟨s₂, h⟩, hothers, hrun⟩ := Option.bind_eq_some_iff.mp hrun
    obtain ⟨⟨s₃, accepted⟩, hsend, hout⟩ := Option.bind_eq_some_iff.mp hrun
    cases hout
    have hpayload := responsePayload_encrypt lsmRsa env.seed env.answer challengePad
    have hlen : (lsmRsa.encrypt env.seed (env.answer.encode challengePad)).length =
        rsaKeyLength :=
      lsmRsa.encrypt_length _ _ (by rw [Challenge.encode_length]; decide)
    have hcarries : carries lsmRsa.decrypt s₂
        (lsmRsa.encrypt env.seed (env.answer.encode challengePad)) = true ↔
          currentAfter env.call.random others = env.call.random := by
      rw [carries, hpayload, channelRun_current hothers, hcurrent hdelivered]
      simp [RegistrationEnv.answer, ChallengeCall.challenge, eq_comm]
    obtain ⟨hiff, hsame, hreg⟩ := sendRegistration_cases hlen hsend
    rw [hcarries] at hiff
    refine ⟨by simp, by simpa using hiff, by simp, s₁, reply, s₂, h, hread, hothers, ?_⟩
    cases accepted with
    | false => exact hsame rfl
    | true =>
      obtain ⟨c, hc, hlsm⟩ := hreg rfl
      obtain rfl : c = env.answer := Option.some.inj (hc.symm.trans hpayload)
      exact hlsm

/-- A registration in which nothing fails; the challenge is of fives. -/
def calmRegistration : RegistrationEnv where
  opened := true
  call := ⟨⟨stdioBuffer, true⟩, true, true, true, fill _ 5, [], 0⟩
  garbage := zeros _
  key := fill _ 9
  seed := []
  pid := 42
  reopened := true
  copy := .ok
  buffered := rfl

/-- Somebody else reads the file before the response is written: the daemon
reports a registration that the module rejected. -/
theorem registration_reported_and_lost :
    ∃ out, performRegistration plainRsa plainRsa (Aead.keyTag _ _) calmRegistration
        [.read true true (fill _ 6)] (Lsm.boot idleSystem) ⟨zeros _, zeros _⟩ = some out ∧
      out.reported = true ∧ out.accepted = false := by
  obtain ⟨out, hrun⟩ := Option.isSome_iff_exists.mp
    (show (performRegistration plainRsa plainRsa (Aead.keyTag _ _) calmRegistration
      [.read true true (fill _ 6)] (Lsm.boot idleSystem) ⟨zeros _, zeros _⟩).isSome = true by
      decide +kernel)
  have hzeros : ∀ s, carries plainRsa.decrypt s (zeros rsaKeyLength).1 = false := by
    intro s
    have hpayload : responsePayload plainRsa.decrypt (zeros rsaKeyLength).1 =
        some ⟨zeros _, zeros _, zeros _, zeros _, 0⟩ := by decide +kernel
    rw [carries, hpayload]
    simp [show zeros signatureLength ≠ challengeSignature by decide]
  have hgarbage : NoChallenge plainRsa calmRegistration.garbage.1 := by
    intro m hm
    have hnil : plainRsa.decrypt (zeros rsaKeyLength).1 = some [] := by decide +kernel
    obtain rfl : [] = m := Option.some.inj (hnil.symm.trans hm)
    decide
  obtain ⟨hreported, haccepted, -⟩ :=
    registration_real_iff plainRsa plainRsa rfl hgarbage hzeros hrun
  exact ⟨out, hrun, hreported.mpr rfl, Bool.eq_false_iff.mpr fun h =>
    absurd (haccepted.mp h).2.2 (by decide)⟩

/-! ## Before the registration -/

theorem updateReceive_unregistered {copy : CopyEnv} {env : UpdateEnv} {s : Lsm}
    {buf : List UInt8} {out : Lsm × Int × List (UpdateRecord × Bool)}
    (hreg : s.registered = false) (h : updateReceive A copy env s buf = some out) : out.1 = s := by
  rcases updateReceive_cases h with ⟨hs, -⟩ | ⟨-, -, -, hproc⟩
  · exact hs
  rcases processReceivedUpdate_cases hproc with ⟨hs, -⟩ | ⟨hyes, -⟩
  · exact hs
  · rw [hreg] at hyes
    cases hyes

theorem xattrEnclaveInstallation_unregistered {env : InstallEnv} {s : Lsm} {i : Nat}
    {value : List UInt8} {out : Lsm × Int} (hreg : s.registered = false)
    (h : xattrEnclaveInstallation A env s i value = some out) : out.1 = s := by
  rw [xattrEnclaveInstallation, hreg] at h
  cases h
  rfl

theorem installXattr_unregistered {env : InstallEnv} {h : Host} {path : Option Nat}
    {ticketData : List UInt8} {out : Host × Int} (hreg : h.lsm.registered = false)
    (hinstall : Daemon.installXattr A env h path ticketData = some out) : out.1.lsm = h.lsm := by
  rcases installXattr_cases hinstall with hsame | ⟨i, r, -, htaken⟩
  · exact hsame
  · exact xattrEnclaveInstallation_unregistered hreg htaken

/-- One call of a generator. -/
theorem generators_unregistered {m : ClientMessage} {c : Generator} {s : Host × Enclave}
    {out : (Host × Enclave) × c.Answer} (hreg : s.1.lsm.registered = false)
    (hout : generators A (m.calls A) m.env.rand c s = some out) : out.1.1.lsm = s.1.lsm := by
  cases c with
  | ticket site pid identifier operation =>
    obtain ⟨made, hmade, rfl⟩ := Option.map_eq_some_iff.mp hout
    obtain ⟨⟨w, ret⟩, hinstall, hsome⟩ := Option.bind_eq_some_iff.mp hmade
    obtain ⟨⟨lsm, n, log⟩, hrecv, hw⟩ := Option.bind_eq_some_iff.mp hinstall
    cases hw
    have hsame : lsm = s.1.lsm := updateReceive_unregistered hreg hrecv
    dsimp only at hsome
    split at hsome <;> cases hsome <;> exact hsame
  | label site metadata taint declassify =>
    obtain ⟨path, -, hout⟩ := Option.bind_eq_some_iff.mp hout
    obtain ⟨made, hmade, rfl⟩ := Option.map_eq_some_iff.mp hout
    obtain ⟨⟨w, ret⟩, hinstall, hsome⟩ := Option.bind_eq_some_iff.mp hmade
    have hsame : w.lsm = s.1.lsm := installXattr_unregistered hreg hinstall
    dsimp only at hsome
    split at hsome <;> cases hsome <;> exact hsame

/-- A message, whatever the enclave makes of it. -/
theorem message_unregistered {d d' : Deployment} {m : ClientMessage}
    (hreg : d.world.lsm.registered = false) (hstep : deployStep A d (.message m) = some d') :
    d'.world.lsm = d.world.lsm := by
  obtain ⟨⟨d₁, reply⟩, hsend, rfl⟩ := Option.map_eq_some_iff.mp hstep
  rcases sendResponse_cases hsend with
    ⟨-, rfl⟩ | ⟨request, extension, extension', data', p, token, -, -, hreads', hhandle, hworld⟩
  · rfl
  rw [hworld]
  rcases handleRequest_cases A (m.calls A) m.env.rand hreads' hhandle with
    ⟨hsame, -⟩ | ⟨t, -, hserve⟩
  · rw [hsame]
  rw [serveRequest_eq] at hserve
  obtain ⟨out, hrun, rfl⟩ := Option.map_eq_some_iff.mp hserve
  refine Calls.run_rel (T := fun s₁ s₂ : Host × Enclave => s₁.1.lsm.registered = false →
    s₂.1.lsm = s₁.1.lsm) (fun _ _ => rfl) ?_ ?_ hrun hreg
  · intro s₁ s₂ s₃ h₁₂ h₂₃ hs₁
    have hs₂ := h₁₂ hs₁
    rw [h₂₃ (by rw [hs₂]; exact hs₁), hs₂]
  · intro hist c s₁ out₁ _ hout hs₁
    exact generators_unregistered hs₁ hout

/-- The event of the kernel, if it is one. -/
def DeployEvent.kernel? : DeployEvent → Option LsmEvent
  | .kernel e _ => some e
  | _ => none

theorem deployStep_unregistered {d d' : Deployment} {e : DeployEvent}
    (hreg : d.world.lsm.registered = false) (hstep : deployStep A d e = some d') :
    d'.world.lsm = { d.world.lsm with system := d'.system } ∧
      lsmRun d.system e.kernel?.toList = some d'.system := by
  have hsame : d'.world.lsm = d.world.lsm → e.kernel? = none →
      d'.world.lsm = { d.world.lsm with system := d'.system } ∧
        lsmRun d.system e.kernel?.toList = some d'.system := by
    intro hlsm hnone
    rw [hnone, Deployment.system, Deployment.system, hlsm]
    exact ⟨rfl, rfl⟩
  cases e with
  | message m => exact hsame (message_unregistered hreg hstep) rfl
  | protectSocket env =>
    obtain ⟨ret, hinstall⟩ := protectSocket_world hstep
    exact hsame (installXattr_unregistered hreg hinstall) rfl
  | kernel e h =>
    obtain ⟨s, hs, rfl⟩ := Option.map_eq_some_iff.mp hstep
    refine ⟨rfl, ?_⟩
    simp only [DeployEvent.kernel?, Option.toList_some, lsmRun, List.foldlM_cons,
      List.foldlM_nil, hs]
    rfl
  | update copy env data =>
    obtain ⟨out, hout, rfl⟩ := Option.map_eq_some_iff.mp hstep
    exact hsame (updateReceive_unregistered hreg hout) rfl
  | install env i value =>
    obtain ⟨out, hout, rfl⟩ := Option.map_eq_some_iff.mp hstep
    rw [trmInodeSetxattrInstall, if_neg (by rw [hreg]; exact Bool.false_ne_true)] at hout
    cases hout
    exact hsame rfl rfl

/-- **Nothing before the registration.** On a module that is not
registered, every run of messages, hooks and writes to its inputs, and of
what the daemon does for its own socket, ends as the hooks alone do: no
ticket, no PTY and no label comes of anything that the enclave approved or
that others wrote, whatever its keys are. -/
theorem unregistered_takes_nothing {evs : List DeployEvent} {d₀ d : Deployment}
    (hreg : d₀.world.lsm.registered = false) (hrun : deployRun A d₀ evs = some d) :
    d.world.lsm = { d₀.world.lsm with system := d.system } ∧
      lsmRun d₀.system (evs.filterMap DeployEvent.kernel?) = some d.system := by
  induction evs generalizing d₀ with
  | nil =>
    cases hrun
    exact ⟨rfl, rfl⟩
  | cons e evs ih =>
    obtain ⟨d₁, hstep, hrest⟩ := Run.cons_some hrun
    obtain ⟨hlsm, hkernel⟩ := deployStep_unregistered hreg hstep
    obtain ⟨hlsm', hkernel'⟩ := ih (by rw [hlsm]; exact hreg) hrest
    refine ⟨by rw [hlsm', hlsm], ?_⟩
    have hcons : (e :: evs).filterMap DeployEvent.kernel? =
        e.kernel?.toList ++ evs.filterMap DeployEvent.kernel? := by
      rw [List.filterMap_cons]
      cases e.kernel? <;> rfl
    rw [hcons, lsmRun, List.foldlM_append]
    exact Option.bind_eq_some_iff.mpr ⟨_, hkernel, hkernel'⟩

/-- The enclave has keys, and the module has not heard of them. -/
def unregisteredDaemon : Deployment :=
  { labelledDaemon with
    world := { labelledHost with lsm := { labelledHost.lsm with registered := false } } }

/-- An open that the enclave approves leaves the module as it was. -/
theorem openMessage_takes_nothing :
    ∃ d, deployRun (Aead.keyTag _ _) unregisteredDaemon [.message openMessage] = some d ∧
      d.system = unregisteredDaemon.system := by
  obtain ⟨d, hstep⟩ := Option.isSome_iff_exists.mp
    (show (deployStep (Aead.keyTag _ _) unregisteredDaemon (.message openMessage)).isSome = true by
      decide +kernel)
  have hrun := deployRun_singleton hstep
  obtain ⟨-, hkernel⟩ := unregistered_takes_nothing rfl hrun
  exact ⟨d, hrun, (Option.some.inj hkernel).symm⟩

end Citadel
