/-
Citadel.Lsm.Registration — agreement of the registrations the kernel
module accepts with the challenges it issued, over every run of its files.

The module keeps one challenge in a static buffer. `challenge_read`
overwrites it; `process_challenge_response` compares with it and leaves it
as it is. So the buffer matches something in two states in which nothing
is outstanding: before the first read, when it is all zeros, and after an
acceptance. A `History` records what was issued and what was consumed, and
whether a challenge is outstanding. Runs in which no response with the
current challenge arrives while nothing is outstanding (`timely`) agree,
injectively (`accepted_challenge_outstanding`); without this they do not
(`challenge_accepted_unissued_and_twice`).

RSA is an arbitrary decryption function: nothing here depends on who can
make a response. That challenges do not repeat is a hypothesis, on the
kernel's random bytes.
-/
import Citadel.Lib.Pke
import Citadel.Lsm.PayloadIoTheorems

namespace Citadel

open Bytes

variable (rsaDecrypt : List UInt8 → Option (List UInt8)) (A : Gcm)

/-! ## Responses -/

/-- The structure a response decrypts to. -/
def responsePayload (response : List UInt8) : Option Challenge :=
  if response.length = rsaKeyLength then
    (trmRsaDecrypt rsaDecrypt response).bind Challenge.read
  else none

/-- The response has the signature and the module's current challenge. -/
def carries (s : Lsm) (response : List UInt8) : Bool :=
  match responsePayload rsaDecrypt response with
  | none => false
  | some c => decide (c.signature = challengeSignature ∧ c.challenge = s.currentChallenge)

/-- What an accepted response sets. -/
def Lsm.register (s : Lsm) (c : Challenge) : Lsm :=
  { s with
    system := { s.system with citadelPid := c.pid }
    registeredName := c.name
    aesKey := c.key
    ptokenAesKey := c.key
    registered := true }

/-- The buffer `trm_rsa_decrypt` returns is long enough for the structure. -/
theorem Challenge.read_trmRsaDecrypt {rsaDecrypt : List UInt8 → Option (List UInt8)}
    {response decrypted : List UInt8}
    (h : trmRsaDecrypt rsaDecrypt response = some decrypted) :
    ∃ c, Challenge.read decrypted = some c := by
  obtain ⟨msg, -, rfl⟩ := Option.map_eq_some_iff.mp h
  have hlen : 256 ≤ (msg ++ List.replicate (rsaKeyLength - msg.length) 0).length := by
    rw [List.length_append, List.length_replicate, rsaKeyLength]
    omega
  generalize msg ++ List.replicate (rsaKeyLength - msg.length) 0 = buf at hlen
  obtain ⟨signature, h₁⟩ := read_isSome (show 0 + signatureLength ≤ buf.length by
    unfold signatureLength; omega)
  obtain ⟨challenge, h₂⟩ := read_isSome (show signatureLength + challengeLength ≤ buf.length by
    unfold signatureLength challengeLength; omega)
  obtain ⟨name, h₃⟩ := read_isSome
    (show signatureLength + challengeLength + asmNameLength ≤ buf.length by
      unfold signatureLength challengeLength asmNameLength; omega)
  obtain ⟨key, h₄⟩ := read_isSome
    (show signatureLength + (challengeLength + asmNameLength) + aesKeyLength ≤ buf.length by
      unfold signatureLength challengeLength asmNameLength aesKeyLength; omega)
  obtain ⟨pid, h₅⟩ := read_isSome
    (show signatureLength + (challengeLength + (asmNameLength + aesKeyLength)) + 4 ≤ buf.length by
      unfold signatureLength challengeLength asmNameLength aesKeyLength; omega)
  exact ⟨⟨signature, challenge, name, key, ofLe32 pid⟩, by
    simp [Challenge.read, h₁, h₂, h₃, h₄, h₅]⟩

/-- A response of the right length comes back. It is accepted if it carries
the current challenge, and otherwise changes nothing. -/
theorem processChallengeResponse_sized {response : List UInt8}
    (hlen : response.length = rsaKeyLength) (stray : Bool) (s : Lsm) :
    (carries rsaDecrypt s response = false ∧
      processChallengeResponse rsaDecrypt stray s response = some (s, false)) ∨
    ∃ c, responsePayload rsaDecrypt response = some c ∧ c.challenge = s.currentChallenge ∧
      carries rsaDecrypt s response = true ∧
      processChallengeResponse rsaDecrypt stray s response = some (s.register c, true) := by
  unfold processChallengeResponse carries responsePayload
  rw [if_neg (not_not_intro hlen), if_pos hlen]
  cases hdec : trmRsaDecrypt rsaDecrypt response with
  | none => exact .inl ⟨rfl, rfl⟩
  | some decrypted =>
    obtain ⟨c, hc⟩ := Challenge.read_trmRsaDecrypt hdec
    simp only [Option.bind_eq_bind, Option.bind_some, hc]
    by_cases hsig : c.signature = challengeSignature
    · by_cases hchal : c.challenge = s.currentChallenge
      · exact .inr ⟨c, rfl, hchal, by simp [hsig, hchal], by simp [hsig, hchal, Lsm.register]⟩
      · exact .inl ⟨by simp [hchal], by simp [hsig, hchal]⟩
    · exact .inl ⟨by simp [hsig], by simp [hsig]⟩

/-- Any other length is rejected, if the pointer can be freed. -/
theorem processChallengeResponse_missized {response : List UInt8}
    (hlen : response.length ≠ rsaKeyLength) (stray : Bool) (s : Lsm) :
    carries rsaDecrypt s response = false ∧
      processChallengeResponse rsaDecrypt stray s response =
        if stray then some (s, false) else none := by
  unfold processChallengeResponse carries responsePayload
  rw [if_pos hlen, if_neg hlen]
  exact ⟨rfl, rfl⟩

/-- What a response that comes back did. -/
theorem processChallengeResponse_cases {stray accepted : Bool} {s s' : Lsm}
    {response : List UInt8}
    (h : processChallengeResponse rsaDecrypt stray s response = some (s', accepted)) :
    (carries rsaDecrypt s response = false ∧ s' = s ∧ accepted = false) ∨
    ∃ c, responsePayload rsaDecrypt response = some c ∧ c.challenge = s.currentChallenge ∧
      carries rsaDecrypt s response = true ∧ s' = s.register c ∧ accepted = true := by
  by_cases hlen : response.length = rsaKeyLength
  · rcases processChallengeResponse_sized rsaDecrypt hlen stray s with
      ⟨hcar, hrun⟩ | ⟨c, hc, hchal, hcar, hrun⟩
    · rw [hrun] at h
      cases h
      exact .inl ⟨hcar, rfl, rfl⟩
    · rw [hrun] at h
      cases h
      exact .inr ⟨c, hc, hchal, hcar, rfl, rfl⟩
  · obtain ⟨hcar, hrun⟩ := processChallengeResponse_missized rsaDecrypt hlen stray s
    rw [hrun] at h
    split at h
    · cases h
      exact .inl ⟨hcar, rfl, rfl⟩
    · cases h

/-- A write to the challenge file likewise; with nothing carried it
changes nothing. -/
theorem challengeReceive_cases {copy : CopyEnv} {s s' : Lsm} {buf : List UInt8} {n : Int}
    {accepted : Bool} (h : challengeReceive rsaDecrypt copy s buf = some (s', n, accepted)) :
    (s' = s ∧ accepted = false) ∨
    ∃ c, responsePayload rsaDecrypt buf = some c ∧ c.challenge = s.currentChallenge ∧
      carries rsaDecrypt s buf = true ∧ s' = s.register c ∧ accepted = true := by
  unfold challengeReceive at h
  split at h
  · cases h
    exact .inl ⟨rfl, rfl⟩
  split at h
  · cases h
    exact .inl ⟨rfl, rfl⟩
  split at h
  · cases h
    exact .inl ⟨rfl, rfl⟩
  split at h
  · cases h
    exact .inl ⟨rfl, rfl⟩
  obtain ⟨⟨s₁, accepted₁⟩, hproc, hout⟩ := Option.bind_eq_some_iff.mp h
  cases hout
  rcases processChallengeResponse_cases rsaDecrypt hproc with ⟨-, hsame⟩ | haccepted
  · exact .inl hsame
  · exact .inr haccepted

/-- A write of the right length comes back. -/
theorem challengeReceive_returns {buf : List UInt8} (hlen : buf.length = rsaKeyLength)
    (copy : CopyEnv) (s : Lsm) :
    ∃ s' n accepted, challengeReceive rsaDecrypt copy s buf = some (s', n, accepted) := by
  unfold challengeReceive
  split
  · exact ⟨_, _, _, rfl⟩
  split
  · exact ⟨_, _, _, rfl⟩
  split
  · exact ⟨_, _, _, rfl⟩
  split
  · exact ⟨_, _, _, rfl⟩
  rcases processChallengeResponse_sized rsaDecrypt hlen copy.stray s with
    ⟨-, hrun⟩ | ⟨c, -, -, -, hrun⟩
  · rw [hrun]
    exact ⟨_, _, _, rfl⟩
  · rw [hrun]
    exact ⟨_, _, _, rfl⟩

theorem length_of_responsePayload {response : List UInt8} {c : Challenge}
    (h : responsePayload rsaDecrypt response = some c) : response.length = rsaKeyLength := by
  unfold responsePayload at h
  split at h
  · assumption
  · cases h

/-! ## Runs -/

/-- One operation on the module's files, by anybody and with any bytes. -/
inductive ChannelEvent where
  | read (rsaAvailable alloc : Bool) (random : Block challengeLength)
  | write (copy : CopyEnv) (buf : List UInt8)
  | update (copy : CopyEnv) (env : UpdateEnv) (buf : List UInt8)
  | install (env : InstallEnv) (i : Nat) (value : List UInt8)

/-- The challenges issued and consumed so far; `pending` is whether one was
issued and none accepted since. -/
structure History where
  issued : List (Block challengeLength)
  consumed : List (Block challengeLength)
  pending : Bool
  deriving DecidableEq

def History.empty : History := ⟨[], [], false⟩

def History.issue (h : History) : Option Challenge → History
  | none => h
  | some c => { h with issued := h.issued ++ [c.challenge], pending := true }

def History.consume (h : History) (accepted : Bool) (c : Block challengeLength) : History :=
  if accepted then { h with consumed := h.consumed ++ [c], pending := false } else h

def channelStep (s : Lsm) (h : History) : ChannelEvent → Option (Lsm × History)
  | .read rsaAvailable alloc random =>
    let out := challengeRead rsaAvailable s alloc random
    some (out.1, h.issue out.2)
  | .write copy buf =>
    (challengeReceive rsaDecrypt copy s buf).map
      fun out => (out.1, h.consume out.2.2 s.currentChallenge)
  | .update copy env buf => (updateReceive A copy env s buf).map fun out => (out.1, h)
  | .install env i value => (trmInodeSetxattrInstall A env s i value).map fun out => (out.1, h)

def channelRun : Lsm → History → List ChannelEvent → Option (Lsm × History)
  | s, h, [] => some (s, h)
  | s, h, e :: es => (channelStep rsaDecrypt A s h e).bind fun out => channelRun out.1 out.2 es

/-- The event is no response with the current challenge while nothing is
outstanding. -/
def inTime (s : Lsm) (h : History) : ChannelEvent → Bool
  | .write _ buf => !carries rsaDecrypt s buf || h.pending
  | _ => true

/-- Every event of the run comes in time. -/
def timely : Lsm → History → List ChannelEvent → Bool
  | _, _, [] => true
  | s, h, e :: es =>
    inTime rsaDecrypt s h e &&
      match channelStep rsaDecrypt A s h e with
      | none => true
      | some out => timely out.1 out.2 es

/-- The random bytes the challenge reads of a run draw. -/
def drawn (evs : List ChannelEvent) : List (Block challengeLength) :=
  evs.flatMap fun
    | .read _ _ random => [random]
    | _ => []

theorem channelRun_append (s : Lsm) (h : History) (es fs : List ChannelEvent) :
    channelRun rsaDecrypt A s h (es ++ fs) =
      (channelRun rsaDecrypt A s h es).bind fun out => channelRun rsaDecrypt A out.1 out.2 fs := by
  induction es generalizing s h with
  | nil => rfl
  | cons e es ih =>
    simp only [List.cons_append, channelRun]
    cases channelStep rsaDecrypt A s h e with
    | none => rfl
    | some out => exact ih out.1 out.2

/-- A timely run is timely from every state it comes through. -/
theorem timely_append {s : Lsm} {h : History} {es fs : List ChannelEvent}
    (ht : timely rsaDecrypt A s h (es ++ fs) = true) :
    timely rsaDecrypt A s h es = true ∧
      ∀ s' h', channelRun rsaDecrypt A s h es = some (s', h') →
        timely rsaDecrypt A s' h' fs = true := by
  induction es generalizing s h with
  | nil =>
    refine ⟨rfl, ?_⟩
    intro s' h' hrun
    obtain ⟨rfl, rfl⟩ := Prod.mk.inj (Option.some.inj hrun)
    exact ht
  | cons e es ih =>
    simp only [List.cons_append, timely, channelRun, Bool.and_eq_true] at ht ⊢
    obtain ⟨he, ht⟩ := ht
    cases hstep : channelStep rsaDecrypt A s h e with
    | none => exact ⟨⟨he, rfl⟩, fun s' h' hrun => by cases hrun⟩
    | some out =>
      rw [hstep] at ht
      obtain ⟨h₁, h₂⟩ := ih ht
      exact ⟨⟨he, h₁⟩, h₂⟩

/-! ## The other channels -/

/-- Neither an update nor an installed label touches the challenge. -/
theorem updateReceive_challenge {copy : CopyEnv} {env : UpdateEnv} {s : Lsm} {buf : List UInt8}
    {out : Lsm × Int × List (UpdateRecord × Bool)}
    (h : updateReceive A copy env s buf = some out) :
    out.1.currentChallenge = s.currentChallenge := by
  rcases updateReceive_cases h with ⟨hs, -⟩ | ⟨-, -, -, hproc⟩
  · rw [hs]
  rcases processReceivedUpdate_cases hproc with ⟨hs, -⟩ | ⟨-, -, happly⟩
  · rw [hs]
  obtain ⟨hdr, -, happly⟩ := Option.bind_eq_some_iff.mp happly
  obtain ⟨⟨k, log⟩, -, hout⟩ := Option.bind_eq_some_iff.mp happly
  simp only [Option.some.injEq, Prod.mk.injEq] at hout
  rw [← hout.1]
  rfl

theorem trmInodeSetxattrInstall_challenge {env : InstallEnv} {s : Lsm} {i : Nat}
    {value : List UInt8} {out : Lsm × Int}
    (h : trmInodeSetxattrInstall A env s i value = some out) :
    out.1.currentChallenge = s.currentChallenge := by
  unfold trmInodeSetxattrInstall at h
  split at h
  · obtain ⟨⟨s', r⟩, hinst, hout⟩ := Option.bind_eq_some_iff.mp h
    cases hout
    rcases xattrEnclaveInstallation_labelled hinst with ⟨rfl, -⟩ | ⟨_, hlab⟩
    · rfl
    · exact hlab.currentChallenge
  · cases h
    rfl

/-! ## Agreement -/

/-- The invariant: no challenge consumed twice, none that was not issued,
and while one is outstanding it is the one in the buffer, issued and not
consumed. -/
structure Agreed (s : Lsm) (h : History) : Prop where
  once : h.consumed.Nodup
  issued : ∀ c ∈ h.consumed, c ∈ h.issued
  pending : h.pending = true → s.currentChallenge ∈ h.issued ∧ s.currentChallenge ∉ h.consumed

theorem Agreed.of_challenge {s s' : Lsm} {h : History} (hinv : Agreed s h)
    (hc : s'.currentChallenge = s.currentChallenge) : Agreed s' h :=
  ⟨hinv.once, hinv.issued, by rw [hc]; exact hinv.pending⟩

variable {rsaDecrypt A}

/-- A read issues a challenge that was never seen before. -/
theorem agreed_read {s : Lsm} {h : History} (hinv : Agreed s h) (rsaAvailable alloc : Bool)
    {random : Block challengeLength} (hnew : random ∉ h.issued) :
    Agreed (challengeRead rsaAvailable s alloc random).1
      (h.issue (challengeRead rsaAvailable s alloc random).2) := by
  unfold challengeRead generateChallenge
  split
  · split
    · refine ⟨hinv.once, ?_, ?_⟩
      · intro c hc
        exact List.mem_append_left _ (hinv.issued c hc)
      · intro _
        exact ⟨List.mem_append_right _ (List.mem_singleton_self _),
          fun hc => hnew (hinv.issued _ hc)⟩
    · exact hinv
  · exact hinv

/-- A response that comes in time consumes the outstanding challenge, or
nothing. -/
theorem agreed_write {s s' : Lsm} {h : History} (hinv : Agreed s h) {copy : CopyEnv}
    {buf : List UInt8} {n : Int} {accepted : Bool}
    (hrun : challengeReceive rsaDecrypt copy s buf = some (s', n, accepted))
    (htime : inTime rsaDecrypt s h (.write copy buf) = true) :
    Agreed s' (h.consume accepted s.currentChallenge) := by
  rcases challengeReceive_cases rsaDecrypt hrun with ⟨rfl, rfl⟩ | ⟨c, -, -, hcar, rfl, rfl⟩
  · exact hinv
  · have hpend : h.pending = true := by simpa [inTime, hcar] using htime
    obtain ⟨hissued, hnew⟩ := hinv.pending hpend
    refine ⟨?_, ?_, ?_⟩
    · exact List.nodup_append.mpr ⟨hinv.once, List.nodup_singleton _, by
        intro a ha b hb heq
        rw [List.mem_singleton.mp hb] at heq
        exact hnew (heq ▸ ha)⟩
    · intro c' hc'
      rcases List.mem_append.mp hc' with hc' | hc'
      · exact hinv.issued c' hc'
      · rw [List.mem_singleton.mp hc']
        exact hissued
    · intro hp
      cases hp

/-- One event keeps the invariant if it comes in time and draws nothing
old. -/
theorem channelStep_agreed {s s' : Lsm} {h h' : History} {e : ChannelEvent} (hinv : Agreed s h)
    (hnew : ∀ c ∈ drawn [e], c ∉ h.issued) (htime : inTime rsaDecrypt s h e = true)
    (hstep : channelStep rsaDecrypt A s h e = some (s', h')) : Agreed s' h' := by
  cases e with
  | read rsaAvailable alloc random =>
    cases hstep
    exact agreed_read hinv rsaAvailable alloc (hnew random (by simp [drawn]))
  | write copy buf =>
    obtain ⟨⟨s₁, n, accepted⟩, hrun, hout⟩ := Option.map_eq_some_iff.mp hstep
    cases hout
    exact agreed_write hinv hrun htime
  | update copy env buf =>
    obtain ⟨out, hrun, hout⟩ := Option.map_eq_some_iff.mp hstep
    cases hout
    exact hinv.of_challenge (updateReceive_challenge A hrun)
  | install env i value =>
    obtain ⟨out, hrun, hout⟩ := Option.map_eq_some_iff.mp hstep
    cases hout
    exact hinv.of_challenge (trmInodeSetxattrInstall_challenge A hrun)

/-- An event issues what it draws, or nothing; consumed challenges stay
consumed. -/
theorem channelStep_history {s s' : Lsm} {h h' : History} {e : ChannelEvent}
    (hstep : channelStep rsaDecrypt A s h e = some (s', h')) :
    h'.issued.Sublist (h.issued ++ drawn [e]) ∧ ∀ c ∈ h.consumed, c ∈ h'.consumed := by
  cases e with
  | read rsaAvailable alloc random =>
    cases hstep
    unfold challengeRead generateChallenge
    split
    · split
      · exact ⟨by simp [History.issue, drawn], fun c hc => hc⟩
      · exact ⟨List.sublist_append_left _ _, fun c hc => hc⟩
    · exact ⟨List.sublist_append_left _ _, fun c hc => hc⟩
  | write copy buf =>
    obtain ⟨⟨s₁, n, accepted⟩, -, hout⟩ := Option.map_eq_some_iff.mp hstep
    cases hout
    cases accepted with
    | false => exact ⟨List.sublist_append_left _ _, fun c hc => hc⟩
    | true => exact ⟨List.sublist_append_left _ _, fun c hc => List.mem_append_left _ hc⟩
  | update copy env buf =>
    obtain ⟨out, -, hout⟩ := Option.map_eq_some_iff.mp hstep
    cases hout
    exact ⟨List.sublist_append_left _ _, fun c hc => hc⟩
  | install env i value =>
    obtain ⟨out, -, hout⟩ := Option.map_eq_some_iff.mp hstep
    cases hout
    exact ⟨List.sublist_append_left _ _, fun c hc => hc⟩

theorem drawn_append (es fs : List ChannelEvent) : drawn (es ++ fs) = drawn es ++ drawn fs :=
  List.flatMap_append

/-- What is consumed stays consumed. -/
theorem channelRun_consumed {evs : List ChannelEvent} {s s' : Lsm} {h h' : History}
    (hrun : channelRun rsaDecrypt A s h evs = some (s', h')) :
    ∀ c ∈ h.consumed, c ∈ h'.consumed := by
  induction evs generalizing s h with
  | nil =>
    obtain ⟨rfl, rfl⟩ := Prod.mk.inj (Option.some.inj hrun)
    exact fun c hc => hc
  | cons e evs ih =>
    obtain ⟨⟨s₁, h₁⟩, hstep, hrest⟩ := Option.bind_eq_some_iff.mp hrun
    intro c hc
    exact ih hrest c ((channelStep_history hstep).2 c hc)

theorem channelRun_agreed {evs : List ChannelEvent} {s s' : Lsm} {h h' : History}
    (hinv : Agreed s h) (hfresh : (h.issued ++ drawn evs).Nodup)
    (htimely : timely rsaDecrypt A s h evs = true)
    (hrun : channelRun rsaDecrypt A s h evs = some (s', h')) :
    Agreed s' h' := by
  induction evs generalizing s h with
  | nil =>
    obtain ⟨rfl, rfl⟩ := Prod.mk.inj (Option.some.inj hrun)
    exact hinv
  | cons e evs ih =>
    obtain ⟨⟨s₁, h₁⟩, hstep, hrest⟩ := Option.bind_eq_some_iff.mp hrun
    simp only [timely, hstep, Bool.and_eq_true] at htimely
    have hissued := (channelStep_history hstep).1
    have hsplit : drawn (e :: evs) = drawn [e] ++ drawn evs := drawn_append [e] evs
    rw [hsplit, ← List.append_assoc] at hfresh
    -- what the event draws is new, and what the rest draws stays new
    have hnew : ∀ c ∈ drawn [e], c ∉ h.issued := by
      intro c hc hold
      exact (List.nodup_append.mp (List.nodup_append.mp hfresh).1).2.2 c hold c hc rfl
    have hfresh₁ : (h₁.issued ++ drawn evs).Nodup :=
      hfresh.sublist (hissued.append (List.Sublist.refl _))
    exact ih (channelStep_agreed hinv hnew htimely.1 hstep) hfresh₁ htimely.2 hrest

theorem boot_agreed (system : System) : Agreed (Lsm.boot system) .empty :=
  ⟨List.nodup_nil, fun _ hc => absurd hc List.not_mem_nil, fun hp => absurd hp Bool.false_ne_true⟩

/-- A timely response that is accepted answers the outstanding challenge. -/
theorem Agreed.accepted {s s' : Lsm} {h : History} {copy : CopyEnv} {buf : List UInt8} {n : Int}
    (hinv : Agreed s h) (htime : inTime rsaDecrypt s h (.write copy buf) = true)
    (hrecv : challengeReceive rsaDecrypt copy s buf = some (s', n, true)) :
    ∃ c, responsePayload rsaDecrypt buf = some c ∧ c.challenge = s.currentChallenge ∧
      c.challenge ∈ h.issued ∧ c.challenge ∉ h.consumed := by
  rcases challengeReceive_cases rsaDecrypt hrecv with ⟨-, hrej⟩ | ⟨c, hpay, hcur, hcar, -⟩
  · cases hrej
  · have hpend : h.pending = true := by simpa [inTime, hcar] using htime
    refine ⟨c, hpay, hcur, ?_⟩
    rw [hcur]
    exact hinv.pending hpend

/-- Over every run from boot whose challenges are all different and whose
responses with the current challenge all come while one is outstanding:
an accepted response answers a challenge that was issued before and not
consumed before, and the same response delivered again is rejected and
changes nothing. -/
theorem accepted_challenge_outstanding (system : System) (evs : List ChannelEvent)
    (hfresh : (drawn evs).Nodup)
    (htimely : timely rsaDecrypt A (Lsm.boot system) .empty evs = true) :
    (∀ pre copy buf post s h s' n, evs = pre ++ .write copy buf :: post →
      channelRun rsaDecrypt A (Lsm.boot system) .empty pre = some (s, h) →
      challengeReceive rsaDecrypt copy s buf = some (s', n, true) →
      ∃ c, responsePayload rsaDecrypt buf = some c ∧
        c.challenge ∈ h.issued ∧ c.challenge ∉ h.consumed) ∧
    ∀ pre copy buf mid copy' post s h s' n s₂ h₂,
      evs = (pre ++ .write copy buf :: mid) ++ .write copy' buf :: post →
      channelRun rsaDecrypt A (Lsm.boot system) .empty pre = some (s, h) →
      challengeReceive rsaDecrypt copy s buf = some (s', n, true) →
      channelRun rsaDecrypt A (Lsm.boot system) .empty (pre ++ .write copy buf :: mid) =
        some (s₂, h₂) →
      ∃ n', challengeReceive rsaDecrypt copy' s₂ buf = some (s₂, n', false) := by
  -- the invariant holds wherever the run stops, and what is left is timely
  have hat : ∀ pre post s h, evs = pre ++ post →
      channelRun rsaDecrypt A (Lsm.boot system) .empty pre = some (s, h) →
      Agreed s h ∧ timely rsaDecrypt A s h post = true := by
    intro pre post s h heq hrun
    rw [heq, drawn_append] at hfresh
    rw [heq] at htimely
    obtain ⟨hpre, hpost⟩ := timely_append rsaDecrypt A htimely
    exact ⟨channelRun_agreed (boot_agreed system) (List.nodup_append.mp hfresh).1 hpre hrun,
      hpost s h hrun⟩
  -- a response that is accepted answers the outstanding challenge
  have hacc : ∀ pre copy buf post s h s' n, evs = pre ++ .write copy buf :: post →
      channelRun rsaDecrypt A (Lsm.boot system) .empty pre = some (s, h) →
      challengeReceive rsaDecrypt copy s buf = some (s', n, true) →
      ∃ c, responsePayload rsaDecrypt buf = some c ∧ c.challenge = s.currentChallenge ∧
        c.challenge ∈ h.issued ∧ c.challenge ∉ h.consumed := by
    intro pre copy buf post s h s' n heq hrun hrecv
    obtain ⟨hinv, ht⟩ := hat pre _ s h heq hrun
    exact hinv.accepted (Bool.and_eq_true _ _ ▸ ht).1 hrecv
  refine ⟨?_, ?_⟩
  · intro pre copy buf post s h s' n heq hrun hrecv
    obtain ⟨c, hpay, -, hissued, hnew⟩ := hacc pre copy buf post s h s' n heq hrun hrecv
    exact ⟨c, hpay, hissued, hnew⟩
  · intro pre copy buf mid copy' post s h s' n s₂ h₂ heq hrun hrecv hrun₂
    obtain ⟨c, hpay, hcur, -, -⟩ := hacc pre copy buf (mid ++ .write copy' buf :: post) s h s' n
      (by rw [heq, List.append_assoc, List.cons_append]) hrun hrecv
    obtain ⟨s₃, n', accepted, hagain⟩ :=
      challengeReceive_returns rsaDecrypt (length_of_responsePayload rsaDecrypt hpay) copy' s₂
    rcases challengeReceive_cases rsaDecrypt hagain with ⟨rfl, rfl⟩ | ⟨_, -, -, -, rfl, rfl⟩
    · exact ⟨n', hagain⟩
    · -- a second acceptance would answer a consumed challenge
      exfalso
      obtain ⟨c', hpay', -, -, hnew⟩ := hacc _ copy' buf post s₂ h₂ _ n' heq hrun₂ hagain
      obtain rfl : c' = c := Option.some.inj (hpay'.symm.trans hpay)
      have hstep : channelStep rsaDecrypt A s h (.write copy buf) =
          some (s', h.consume true s.currentChallenge) := by
        rw [channelStep, hrecv]
        rfl
      rw [channelRun_append, hrun, Option.bind_some, channelRun, hstep, Option.bind_some] at hrun₂
      refine hnew (channelRun_consumed hrun₂ _ ?_)
      rw [hcur]
      exact List.mem_append_right _ (List.mem_singleton_self _)

/-! ## Runs to evaluate -/

/-- The longest message PKCS#1 v1.5 padding leaves room for. -/
def rsaMaxPayload : Nat := 245

/-- An RSA without secrecy. -/
def plainRsa : Pke rsaKeyLength rsaMaxPayload := Pke.plain _ _ (by decide) (by decide)

/-- The response anyone can make to a challenge they know. -/
def responseTo (challenge : Block challengeLength) (key : AesKey) (pid : Pid) : List UInt8 :=
  plainRsa.encrypt []
    ((⟨challengeSignature, challenge, zeros _, key, pid⟩ : Challenge).encode (fill _ 1))

/-- A challenge is read and answered. -/
theorem issued_challenge_accepted :
    ∃ s h s' n, channelRun plainRsa.decrypt (Aead.keyTag _ _) (Lsm.boot idleSystem) .empty
        [.read true true (fill _ 5)] = some (s, h) ∧
      challengeReceive plainRsa.decrypt .ok s
        (responseTo (fill _ 5) (fill _ 9) 42) = some (s', n, true) ∧
      ∃ c, responsePayload plainRsa.decrypt (responseTo (fill _ 5) (fill _ 9) 42) = some c ∧
        c.challenge ∈ h.issued ∧ c.challenge ∉ h.consumed := by
  obtain ⟨⟨s, h⟩, hrun, hrecv⟩ := Option.bind_eq_some_iff.mp
    (show ((channelRun plainRsa.decrypt (Aead.keyTag _ _) (Lsm.boot idleSystem) .empty
        [.read true true (fill _ 5)]).bind fun out =>
      (challengeReceive plainRsa.decrypt .ok out.1
        (responseTo (fill _ 5) (fill _ 9) 42)).map fun r => r.2.2) = some true by decide +kernel)
  obtain ⟨⟨s', n, accepted⟩, hrecv, rfl⟩ := Option.map_eq_some_iff.mp hrecv
  exact ⟨s, h, s', n, hrun, hrecv, (accepted_challenge_outstanding idleSystem
    [.read true true (fill _ 5),
      .write .ok (responseTo (fill _ 5) (fill _ 9) 42)]
    (by decide) (by decide +kernel)).1 _ _ _ [] s h s' n rfl hrun hrecv⟩

/-- A challenge, its answer, an update that ratchets the key. -/
def registeredRun : List ChannelEvent :=
  [.read true true (fill _ 5),
    .write .ok (responseTo (fill _ 5) (fill _ 9) 42),
    .update .ok ⟨true, true, fun _ => ⟨.none, .ok, 0⟩⟩
      (trmAesEncrypt (Aead.keyTag _ _) (fill _ 9) (zeros _)
        (⟨challengeSignature, fill _ 6, 0⟩ : UpdateHeader).encode)]

/-- With nothing issued, a response to the challenge of all zeros registers
anyone. And the response that was accepted is accepted again: the
ratcheted key is back at its first value and the challenge consumed
twice. -/
theorem challenge_accepted_unissued_and_twice :
    ((channelRun plainRsa.decrypt (Aead.keyTag _ _) (Lsm.boot idleSystem) .empty
        [.write .ok (responseTo (zeros _) (fill _ 7) 666)]).map fun out =>
      (out.2, out.1.registered, out.1.aesKey, out.1.system.citadelPid)) =
      some (⟨[], [zeros _], false⟩, true, fill _ 7, 666) ∧
    ((channelRun plainRsa.decrypt (Aead.keyTag _ _) (Lsm.boot idleSystem) .empty
        registeredRun).map fun out => (out.2, out.1.aesKey)) =
      some (⟨[fill _ 5], [fill _ 5], false⟩, fill _ 15) ∧
    ((channelRun plainRsa.decrypt (Aead.keyTag _ _) (Lsm.boot idleSystem) .empty
        (registeredRun ++ [.write .ok (responseTo (fill _ 5) (fill _ 9) 42)])).map
      fun out => (out.2, out.1.aesKey)) =
      some (⟨[fill _ 5], [fill _ 5, fill _ 5], false⟩, fill _ 9) := by
  refine ⟨?_, ?_, ?_⟩ <;> decide +kernel

end Citadel
