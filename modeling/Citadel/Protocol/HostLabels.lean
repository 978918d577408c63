/-
Citadel.Protocol.HostLabels — the labels of files over the daemon's
requests.

`Citadel.Protocol.CacheCoherence` asks of the world that a file with an
identifier keeps it unless it is claimed. Here the world is the kernel
module behind the daemon's two OCALLs, and it does (`host_keepsLabels`):

* a ticket goes to the update file, which writes no attribute;
* a label is written to the file of its path and to no other;
* a declassification leaves the identifier attribute where it is;
* an open makes a label only for a file the daemon found none on.

The session keys may be out of step. Then nothing the enclave sends is
taken, if nothing sealed under another key decrypts (`Ideal`). In step, an
approved claim does label its file (`host_claim_gives`); a file with two
names shows what the cache makes of that.
-/
import Citadel.Protocol.CacheCoherence
import Citadel.Protocol.Exchange
import Citadel.Protocol.LabelFormat
import Citadel.Protocol.MessagePaths
import Citadel.Lsm.Eviction

namespace Citadel.Daemon

open Bytes Enclave Calls

variable {A : Gcm}

/-! ## Attributes behind the OCALLs -/

/-- The identifier attribute of a file. -/
def hostLabels (h : Host) (f : Nat) : Option (List UInt8) := (h.lsm.system.disk f).identifier

theorem installTicket_hostLabels {copy : CopyEnv} {env : UpdateEnv} {h : Host}
    {ticketData : List UInt8} {out : Host × Int}
    (hinstall : installTicket A copy env h ticketData = some out) :
    hostLabels out.1 = hostLabels h := by
  obtain ⟨⟨lsm, written, log⟩, hreceive, hout⟩ := Option.bind_eq_some_iff.mp hinstall
  cases hout
  rcases updateReceive_cases hreceive with ⟨rfl, -⟩ | ⟨-, -, -, hprocess⟩
  · rfl
  · rcases processReceivedUpdate_cases hprocess with ⟨rfl, -⟩ | ⟨-, -, happly⟩
    · rfl
    · obtain ⟨hdr, -, happly⟩ := Option.bind_eq_some_iff.mp happly
      obtain ⟨inserted, -, hsome⟩ := Option.bind_eq_some_iff.mp happly
      cases hsome
      rfl

/-- A declassification leaves every identifier. -/
theorem declassify_identifier {env : InstallEnv} {s s' : Lsm} {i : Nat} {hdr : UpdateHeader}
    {r : Int} (h : declassify env s i hdr = some (s', r)) (j : Nat) :
    (s'.system.disk j).identifier = (s.system.disk j).identifier := by
  rcases declassify_cases h with ⟨rfl, -⟩ | ⟨rfl, -⟩ | ⟨rfl, -⟩
  · rfl
  · by_cases hj : j = i
    · simp [updateAesKey, Lsm.setLabel, hj]
    · simp [updateAesKey, Lsm.setLabel, hj]
  · simp [Lsm.setLabel]

/-- A label is written to its inode only. -/
theorem induct_disk {env : InstallEnv} {s s' : Lsm} {i : Nat} {hdr : UpdateHeader}
    {rcrd : UpdateRecord} {r : Int} (h : induct env s i hdr rcrd = some (s', r)) {j : Nat}
    (hj : j ≠ i) : s'.system.disk j = s.system.disk j := by
  simp only [induct] at h
  split at h
  · cases h
  · split at h <;> cases h <;> simp [updateAesKey, Lsm.setLabel, hj]

theorem xattrEnclaveInstallation_identifier {env : InstallEnv} {s s' : Lsm} {i : Nat}
    {value : List UInt8} {r : Int}
    (h : xattrEnclaveInstallation A env s i value = some (s', r)) {j : Nat} (hj : j ≠ i) :
    (s'.system.disk j).identifier = (s.system.disk j).identifier := by
  rcases xattrEnclaveInstallation_cases h with ⟨rfl, -⟩ | ⟨hdr, hdeclassify⟩ |
    ⟨hdr, rcrd, hinduct⟩
  · rfl
  · exact declassify_identifier hdeclassify j
  · rw [induct_disk hinduct hj]

/-- What `install_xattr` does to the kernel module, if anything. -/
theorem installXattr_cases {env : InstallEnv} {h : Host} {path : Option Nat}
    {ticketData : List UInt8} {out : Host × Int}
    (hinstall : installXattr A env h path ticketData = some out) :
    out.1.lsm = h.lsm ∨ ∃ i r, path = some i ∧
      xattrEnclaveInstallation A env h.lsm i ticketData = some (out.1.lsm, r) := by
  unfold installXattr at hinstall
  cases path with
  | none =>
    cases hinstall
    exact .inl rfl
  | some i =>
    obtain ⟨⟨lsm, rc⟩, hset, hout⟩ := Option.bind_eq_some_iff.mp hinstall
    cases hout
    unfold trmInodeSetxattrInstall at hset
    split at hset
    · obtain ⟨⟨s, r⟩, hinstallation, hsome⟩ := Option.bind_eq_some_iff.mp hset
      cases hsome
      exact .inr ⟨i, r, rfl, hinstallation⟩
    · cases hset
      exact .inl rfl

theorem installXattr_hostLabels {env : InstallEnv} {h : Host} {path : Option Nat}
    {ticketData : List UInt8} {out : Host × Int}
    (hinstall : installXattr A env h path ticketData = some out) {f : Nat} (hf : path ≠ some f) :
    hostLabels out.1 f = hostLabels h f := by
  unfold hostLabels
  rcases installXattr_cases hinstall with hlsm | ⟨i, r, rfl, hinstallation⟩
  · rw [hlsm]
  · exact xattrEnclaveInstallation_identifier hinstallation fun heq => hf (by rw [heq])

/-- A message that is taken was sealed under the module's key, and the
module had what it needs to read it. -/
theorem xattrEnclaveInstallation_taken (hA : A.Ideal) {env : InstallEnv} {s s' : Lsm} {i : Nat}
    {e : Enclave} {rnd : TicketRandom} {rcrd : UpdateRecord} {r : Int}
    (h : xattrEnclaveInstallation A env s i (ticketMessage A e rnd rcrd) = some (s', r)) :
    s' = s ∨ (s.registered = true ∧ env.plain = true ∧ env.crypto = true ∧
      e.aesKey = s.aesKey) := by
  cases hauth : authenticates A s.aesKey (ticketMessage A e rnd rcrd) with
  | false =>
    rw [xattrEnclaveInstallation_unauthentic env i hauth] at h
    cases h
    exact .inl rfl
  | true =>
    rw [authenticates_ticketMessage hA, decide_eq_true_eq] at hauth
    unfold xattrEnclaveInstallation at h
    split at h
    · cases h
      exact .inl rfl
    · rename_i hreg
      split at h
      · cases h
        exact .inl rfl
      · cases hcrypto : env.crypto with
        | false =>
          simp only [trmAesDecrypt, hcrypto, Bool.false_eq_true, if_false] at h
          cases h
          exact .inl rfl
        | true =>
          split at h
          · cases h
            exact .inl rfl
          · split at h
            · cases h
            · rename_i hplain
              exact .inr ⟨by simpa using hreg, by simpa using hplain, rfl, hauth⟩

theorem installXattr_declassify (hA : A.Ideal) {env : InstallEnv} {h : Host} {path : Option Nat}
    {e : Enclave} {rnd : TicketRandom} {rcrd : UpdateRecord} {out : Host × Int}
    (hrcrd : rcrd.operation.has opDeclassify = true)
    (hinstall : installXattr A env h path (ticketMessage A e rnd rcrd) = some out) (f : Nat) :
    hostLabels out.1 f = hostLabels h f := by
  unfold hostLabels
  rcases installXattr_cases hinstall with hlsm | ⟨i, r, rfl, hinstallation⟩
  · rw [hlsm]
  · rcases xattrEnclaveInstallation_taken hA hinstallation with hsame |
      ⟨hreg, hplain, hcrypto, hkey⟩
    · rw [hsame]
    · rw [xattrEnclaveInstallation_ticketMessage env hreg hplain hcrypto i hkey, if_pos hrcrd]
        at hinstallation
      exact declassify_identifier hinstallation f

/-- The identifier of a file that the module has labelled. -/
theorem identifierAt_label {h : Host} {i : Nat} {identifier : Identifier}
    (hlabel : hostLabels h i = some (hexDigits identifier.1)) :
    identifierAt hostLabels h i = some identifier := by
  have hread : getIdentifierForPath (some (hexDigits identifier.1 ++ List.replicate 0 0)) =
      some (some identifier.1) := getIdentifierForPath_label (Nat.zero_le 1)
  rw [List.replicate_zero, List.append_nil] at hread
  have hall := read_front identifier []
  rw [List.append_nil] at hall
  rw [identifierAt, hlabel, fileIdentifier, hread, Option.bind_some, Option.elim_some, hall]
  rfl

/-- In step, and where every attribute can be written, a label is on its
file when `install_xattr` comes back. -/
theorem installXattr_label {h : Host} (hreg : h.lsm.registered = true) {e : Enclave}
    (hkey : e.aesKey = h.lsm.aesKey) (i : Nat) (rnd : TicketRandom) {rcrd : UpdateRecord}
    (hrcrd : rcrd.operation.has opDeclassify = false) :
    ∃ h', installXattr A .ok h (some i) (ticketMessage A e rnd rcrd) =
      some (h', acceptedSignal) ∧ hostLabels h' i = some (hexDigits rcrd.identifier.1) := by
  have hinduct := induct_ok h.lsm i ⟨challengeSignature, rnd.keyUpdate, 1⟩ hrcrd
  have hinstall := xattrEnclaveInstallation_ticketMessage (A := A) .ok hreg rfl rfl i hkey rnd rcrd
  rw [if_neg (by simp [hrcrd]), hinduct] at hinstall
  refine ⟨⟨_, h.log⟩, ?_, induct_identifier hinduct⟩
  simp only [installXattr, trmInodeSetxattrInstall, hreg, if_true, hinstall, Option.bind_eq_bind,
    Option.bind_some]
  rfl

/-! ## The daemon's world -/

/-- The kernel module behind the OCALLs, under any policy that leaves it
alone. What the module allocates may be different for every message. -/
def hostCalls (A : Gcm) (names : List UInt8 → Option Nat)
    (policy : Host → Pid → OpRequest → Option (Block maxMetadataSize) → Response)
    (copy : Host → CopyEnv) (update : Host → UpdateEnv) (install : Host → InstallEnv) :
    HostCalls Host where
  asmHandleRequest := fun h pid request metadata => (h, policy h pid request metadata)
  installTicket := fun h ticketData => installTicket A (copy h) (update h) h ticketData
  installXattr := fun h path ticketData => installXattr A (install h) h (names path) ticketData

section Host

variable {names : List UInt8 → Option Nat}
  {policy : Host → Pid → OpRequest → Option (Block maxMetadataSize) → Response}
  {copy : Host → CopyEnv} {update : Host → UpdateEnv} {install : Host → InstallEnv}

/-- The call does not label the file. -/
def SparesFile (names : List UInt8 → Option Nat) (f : Nat) : Generator → Prop
  | .ticket _ _ _ _ => True
  | .label _ metadata _ declassify =>
    declassify = true ∨ ∀ path, metadataPath metadata = some path → names path ≠ some f

/-- One call. -/
theorem generators_hostLabels (hA : A.Ideal) {rand : Nat → TicketRandom × Identifier} {f : Nat}
    {c : Generator} (hc : SparesFile names f c) {s : Host × Enclave}
    {out : (Host × Enclave) × c.Answer}
    (hout : generators A (hostCalls A names policy copy update install) rand c s = some out) :
    hostLabels out.1.1 f = hostLabels s.1 f := by
  cases c with
  | ticket site pid identifier operation =>
    obtain ⟨made, hmade, rfl⟩ := Option.map_eq_some_iff.mp hout
    obtain ⟨⟨w, ret⟩, hinstalled, hsome⟩ := Option.bind_eq_some_iff.mp hmade
    have hlabels := installTicket_hostLabels hinstalled
    dsimp only at hsome
    split at hsome <;> cases hsome <;> exact congrFun hlabels f
  | label site metadata taint declassify =>
    obtain ⟨path, hpath, hout⟩ := Option.bind_eq_some_iff.mp hout
    obtain ⟨made, hmade, rfl⟩ := Option.map_eq_some_iff.mp hout
    obtain ⟨⟨w, ret⟩, hinstalled, hsome⟩ := Option.bind_eq_some_iff.mp hmade
    have hlabels : hostLabels w f = hostLabels s.1 f := by
      rcases hc with rfl | hother
      · exact installXattr_declassify hA (show opDeclassify.has opDeclassify = true by decide)
          hinstalled f
      · exact installXattr_hostLabels hinstalled (hother path hpath)
    dsimp only at hsome
    split at hsome <;> cases hsome <;> exact hlabels

/-- A request spares a file it does not claim, if the daemon read an
identifier on it. -/
theorem everyCall_sparesFile {env : CacheEnv} {cache cache' : IdentifierCache} {h : Host}
    {request : OpRequest} {extension extension' : Option OpExtension} {f : Nat}
    {identifier : Identifier}
    (hpass : passRequest env (pathXattr hostLabels names h) cache request extension =
      some (cache', extension'))
    (hclaims : request.operation.has opClaim = true → ∀ x path, extension = some x →
      cstring x.metadata.1 = some path → names path ≠ some f)
    (hid : identifierAt hostLabels h f = some identifier) (pid : Pid) :
    EveryCall (SparesFile names f) pid request extension' := by
  refine ⟨fun hclaim => .inr fun path hpath => ?_, fun _ _ => trivial,
    fun hclaim _ hinducts => .inr fun path hpath hname => ?_, fun _ _ _ _ => trivial, trivial,
    trivial, fun _ => .inl rfl⟩
  · rcases passRequest_cases hpass with ⟨hplain, -, rfl⟩ | ⟨x, s, rfl, -, hs, -, rfl⟩ |
      ⟨x, s, found, -, hnot, -⟩
    · cases extension' with
      | none => cases hpath
      | some x =>
        rw [hplain.1] at hclaim
        cases hclaim
    · exact hclaims hclaim x path rfl hpath
    · rw [hnot] at hclaim
      cases hclaim
  · rcases passRequest_cases hpass with ⟨hplain, -, rfl⟩ | ⟨x, s, rfl, hnot, -⟩ |
      ⟨x, s, found, rfl, -, htranslate, hs, hfound, -, rfl⟩
    · cases extension' with
      | none => cases hinducts
      | some x => simp [inducts, hplain.2] at hinducts
    · rw [hclaim] at hnot
      cases hnot
    · -- inducted: the lookup read the attribute of the file and found none
      cases found with
      | some found => simp [inducts, translated] at hinducts
      | none =>
        cases hs.symm.trans hpath
        unfold foundIdentifier at hfound
        split at hfound
        · cases hfound
        · rw [pathXattr, hname, Option.bind_some] at hfound
          rw [identifierAt, hfound] at hid
          cases hid

/-- **The kernel module keeps labels.** Whatever message the daemon is
sent: a file it can read an identifier on keeps it, unless the message
claims the file. -/
theorem host_keepsLabels (hA : A.Ideal) (s : DaemonState Host) (env : MessageEnv) (pid : Pid)
    (data : List UInt8) :
    KeepsLabels A (hostCalls A names policy copy update install) hostLabels names s
      (.message env pid data) := by
  intro s' hstep f identifier hid
  by_cases hclaims : DaemonEvent.Claims names f (.message env pid data : DaemonEvent Host)
  · exact .inl hclaims
  refine .inr ?_
  obtain ⟨⟨s'', reply⟩, hsend, heq⟩ := Option.map_eq_some_iff.mp hstep
  cases heq
  rcases sendResponse_cases hsend with ⟨-, rfl⟩ |
    ⟨request, extension, extension', message', p, token, hreads, hpass, hreads', hhandle, hworld⟩
  · exact hid
  have hspares := everyCall_sparesFile hpass (fun hclaim x path hx hpath hname => hclaims
    ⟨path, by simp [claimPath, hreads, hx, hclaim, hpath], hname⟩) hid pid
  rcases handleRequest_cases _ _ _ hreads' hhandle with ⟨hsame, -⟩ | ⟨ptoken, -, hserve⟩
  · rw [hworld, hsame]
    exact hid
  · rw [serveRequest_eq] at hserve
    obtain ⟨out, hrun, rfl⟩ := Option.map_eq_some_iff.mp hserve
    have hheld : Holds Generator.Gives (fun _ => SparesFile names f) _ (fun _ _ => True) [] :=
      hspares.holds (policy s.world pid request (metadataOf extension'))
    have hlabels := hheld.invariant (I := fun w => hostLabels w.1 f = hostLabels s.world f)
      (generators_gives A _ env.rand)
      (fun _ c w out hc hw hout => (generators_hostLabels hA hc hout).trans hw) rfl hrun
    rw [hworld, identifierAt, hlabels]
    exact hid

/-- In step, and where every attribute can be written, the generator of
labels does label the file of its path. -/
theorem generators_label_installed {s : Host × Enclave} (hreg : s.1.lsm.registered = true)
    (hkey : s.2.aesKey = s.1.lsm.aesKey) (hinstall : install s.1 = .ok)
    {metadata : Option (Block maxMetadataSize)} {path : List UInt8} {i : Nat}
    (hpath : metadataPath metadata = some path) (hname : names path = some i)
    (rand : Nat → TicketRandom × Identifier) (site : Site) :
    ∃ w, generators A (hostCalls A names policy copy update install) rand
        (.label site metadata true false) s =
          some ((w, s.2.updateAesKey (rand site.number).1.keyUpdate),
            (true, (rand site.number).2)) ∧
      hostLabels w i = some (hexDigits (rand site.number).2.1) := by
  have hregister : (xattrRecord false true false (rand site.number).2).operation.has
      opDeclassify = false := show opRegister.has opDeclassify = false by decide
  obtain ⟨w, hinstalled, hlabel⟩ := installXattr_label (A := A) hreg hkey i
    (rand site.number).1 hregister
  have hcalls : (hostCalls A names policy copy update install).installXattr s.1 path =
      installXattr A .ok s.1 (some i) := by
    rw [← hinstall, ← hname]
    rfl
  refine ⟨w, ?_, hlabel⟩
  simp only [generators, hpath, Option.bind_some, generateXattrTicket, generateXattrTicketCore,
    hcalls, hinstalled, Option.bind_eq_bind]
  rfl

/-- An approved claim, in step and where every attribute can be written,
leaves the identifier it drew on the file of its path. -/
theorem host_claim_gives {s : DaemonState Host} {env : MessageEnv} {pid : Pid}
    {data path : List UInt8} {request : OpRequest} {x : OpExtension} {token : PtokenProtected}
    {i : Nat} (hauth : Authentic A s.enclave data pid request (some x) token)
    (hop : request.operation = opClaim)
    (hpolicy : policy s.world pid request (some x.metadata) = opApproved)
    (hreg : s.world.lsm.registered = true) (hkey : s.enclave.aesKey = s.world.lsm.aesKey)
    (hinstall : install s.world = .ok) (hpath : cstring x.metadata.1 = some path)
    (hname : names path = some i) :
    ∃ w e, daemonStep A (hostCalls A names policy copy update install) hostLabels names s
        (.message env pid data) = some ⟨w, e, s.cache.clear env.cache path⟩ ∧
      e.ptokenAesKey = s.enclave.ptokenAesKey ∧
      identifierAt hostLabels w i = some (env.rand Site.claimLabel.number).2 := by
  let e := s.enclave.updateAesKey (env.rand Site.claimLabel.number).1.keyUpdate
  have hmetadata : metadataPath (metadataOf (some x)) = some path := hpath
  obtain ⟨w, hcall, hlabel⟩ := generators_label_installed (A := A) (s := (s.world, s.enclave))
    hreg hkey hinstall hmetadata hname env.rand .claimLabel
  have happroved : (hostCalls A names policy copy update install).asmHandleRequest s.world pid
      request (metadataOf (some x)) = (s.world, opApproved) :=
    congrArg (fun result => (s.world, result)) hpolicy
  have hserve := serveRequest_claim A _ env.rand hop happroved hcall
  have hpass : passRequest env.cache (pathXattr hostLabels names s.world) s.cache request
      (some x) = some (s.cache.clear env.cache path, some x) := by
    rw [passRequest, if_pos (by rw [hop]; decide), clearEntryFromCache, hpath]
    rfl
  have hhandle : ∀ message', readRequest message' = some (request, some x) →
      handleRequest A (hostCalls A names policy copy update install) env.rand s.world s.enclave
        message' pid ptokenLength = some (⟨w, e, opApproved⟩, some token.ptoken) := by
    intro message' hreads'
    rw [handleRequest_authentic A _ env.rand (authentic_passed hauth hreads'), hserve]
    rfl
  obtain ⟨reply, hsend⟩ := sendResponse_of_pass hauth.reads hpass hhandle
  exact ⟨w, e, daemonStep_of_sendResponse hsend, rfl, identifierAt_label hlabel⟩

end Host

/-! ## A file with two names -/

/-- Inode 3 is `a`, and `b`. -/
def twoNames (s : List UInt8) : Option Nat :=
  if s = ascii "a" ∨ s = ascii "b" then some 3 else none

/-- The module of nines. Files are labelled with ones. -/
def labelledHost : Host :=
  { ninesHost with
    lsm := { ninesHost.lsm with
      system := { idleSystem with
        disk := fun _ => ⟨true, some (hexDigits (List.replicate 16 1))⟩ } } }

/-- Everything is approved, nothing fails. -/
def agreeingCalls : HostCalls Host :=
  hostCalls (Aead.keyTag _ _) twoNames (fun _ _ _ _ => opApproved) (fun _ => .ok)
    (fun _ => calmUpdate) (fun _ => .ok)

/-- The clock stands still and the identifier drawn is that of twos. -/
def calmMessage : MessageEnv :=
  ⟨.calm, fun _ => (someRandom, fill _ 2), zeros _⟩

def labelledDaemon : DaemonState Host := ⟨labelledHost, ⟨fill _ 9, fill _ 9⟩, .empty⟩

/-- Pid 7 claims `a`. -/
def claimOfA : List UInt8 :=
  (sevensAsk opClaim).encode ++ (⟨false, false, nameMetadata 97⟩ : OpExtension).encode

/-- Pid 7 opens `b`. -/
def openOfB : List UInt8 :=
  (sevensAsk opOpen).encode ++ (⟨true, false, nameMetadata 98⟩ : OpExtension).encode

/-- Someone asks for `b` without the signature. -/
def unsignedOpenOfB : List UInt8 :=
  ({ sevensAsk opOpen with signature := zeros _ } : OpRequest).encode ++
    (⟨true, false, nameMetadata 98⟩ : OpExtension).encode

theorem claimOfA_claims :
    DaemonEvent.Claims twoNames 3 (.message calmMessage 7 claimOfA : DaemonEvent Host) := by
  refine ⟨[97], ?_, by decide⟩
  rw [claimPath, claimOfA, readRequest_encode]
  exact cstring_nameMetadata (c := 97) (by decide)

theorem claimOfA_gives (cache : IdentifierCache) :
    ∃ w e, daemonStep (Aead.keyTag _ _) agreeingCalls hostLabels twoNames
        { labelledDaemon with cache := cache } (.message calmMessage 7 claimOfA) =
          some ⟨w, e, cache.clear calmMessage.cache [97]⟩ ∧
      e.ptokenAesKey = fill _ 9 ∧ identifierAt hostLabels w 3 = some (fill _ 2) :=
  host_claim_gives (s := { labelledDaemon with cache := cache })
    (authentic_of_sealed (readRequest_encode _ _) rfl (zeros _) rfl rfl rfl) rfl rfl rfl rfl rfl
    (cstring_nameMetadata (c := 97) (by decide)) (by decide)

/-- What is cached of `b` before the claim. -/
def cachedB : IdentifierCache :=
  IdentifierCache.insert calmMessage.cache .empty [98] (fill _ 1)

/-- The daemon looks `b` up before the enclave sees the message. -/
theorem unsignedOpenOfB_caches :
    daemonStep (Aead.keyTag _ _) agreeingCalls hostLabels twoNames labelledDaemon
      (.message calmMessage 7 unsignedOpenOfB) = some { labelledDaemon with cache := cachedB } := by
  have hread : fileIdentifier (pathXattr hostLabels twoNames labelledHost [98]) =
      some (some (fill _ 1)) := by decide
  have hpass : passRequest calmMessage.cache (pathXattr hostLabels twoNames labelledHost) .empty
      { sevensAsk opOpen with signature := zeros _ } (some ⟨true, false, nameMetadata 98⟩) =
        some (cachedB, some (translated ⟨true, false, nameMetadata 98⟩ (some (fill _ 1)))) := by
    rw [passRequest, if_neg (by decide), if_pos rfl, cstring_nameMetadata (c := 98) (by decide),
      Option.bind_some, foundIdentifier]
    change ((fileIdentifier _).map _) = _
    rw [hread]
    rfl
  have hreads : readRequest unsignedOpenOfB = some ({ sevensAsk opOpen with signature := zeros _ },
      some ⟨true, false, nameMetadata 98⟩) := readRequest_encode _ _
  obtain ⟨reply, hsend⟩ : ∃ reply, sendResponse (Aead.keyTag _ _) agreeingCalls
      (pathXattr hostLabels twoNames) calmMessage labelledDaemon 7 unsignedOpenOfB =
        some (⟨labelledHost, ⟨fill _ 9, fill _ 9⟩, cachedB⟩, reply) :=
    sendResponse_of_pass hreads hpass fun message' hreads' =>
      handleRequest_unsigned _ _ _ hreads' (by decide) labelledHost 7
  exact daemonStep_of_sendResponse hsend

/-- **A claim is not visible under another name.** `b` is cached before
`a` is claimed; it is the same file, and still opened as what it was. -/
theorem stale_under_other_name :
    ∃ s, [.message calmMessage 7 unsignedOpenOfB, .message calmMessage 7 claimOfA].foldlM
        (daemonStep (Aead.keyTag _ _) agreeingCalls hostLabels twoNames) labelledDaemon = some s ∧
      Run.Along (daemonStep (Aead.keyTag _ _) agreeingCalls hostLabels twoNames)
        (KeepsLabels (Aead.keyTag _ _) agreeingCalls hostLabels twoNames) labelledDaemon
        [.message calmMessage 7 unsignedOpenOfB, .message calmMessage 7 claimOfA] ∧
      Gave hostLabels twoNames (.message calmMessage 7 claimOfA) s 3 (fill _ 2) ∧
      MessageMakes (Aead.keyTag _ _) agreeingCalls hostLabels twoNames s calmMessage 7 openOfB []
        (.ticket .openTicket 7 (fill _ 1) opOpen) := by
  have hkeeps : ∀ s data, KeepsLabels (Aead.keyTag _ _) agreeingCalls hostLabels twoNames s
      (.message calmMessage 7 data) :=
    fun s data => host_keepsLabels (Aead.keyTag_ideal _ _) s calmMessage 7 data
  obtain ⟨w, e, hclaim, hkey, hid⟩ := claimOfA_gives cachedB
  have hsteps : [.message calmMessage 7 unsignedOpenOfB, .message calmMessage 7 claimOfA].foldlM
      (daemonStep (Aead.keyTag _ _) agreeingCalls hostLabels twoNames) labelledDaemon =
        some ⟨w, e, cachedB.clear calmMessage.cache [97]⟩ := by
    rw [List.foldlM_cons, unsignedOpenOfB_caches, Option.bind_eq_bind, Option.bind_some,
      List.foldlM_cons, hclaim]
    rfl
  refine ⟨_, hsteps, ⟨hkeeps _ _, fun _ _ => ⟨hkeeps _ _, fun _ _ => trivial⟩⟩,
    ⟨claimOfA_claims, hid⟩, ?_⟩
  have hauthentic : Authentic (Aead.keyTag _ _) e openOfB 7 (sevensAsk opOpen)
      (some ⟨true, false, nameMetadata 98⟩) sevensProtected :=
    authentic_of_sealed (readRequest_encode _ _) rfl (zeros _) (by rw [hkey]; rfl) rfl rfl
  have hfound : foundIdentifier calmMessage.cache (cachedB.clear calmMessage.cache [97]) [98]
      (pathXattr hostLabels twoNames w [98]) = some (some (fill _ 1)) := rfl
  exact messageMakes_open (s := ⟨w, e, cachedB.clear calmMessage.cache [97]⟩) hauthentic
    (by decide) (by decide) rfl (cstring_nameMetadata (c := 98) (by decide)) hfound rfl

/-- Without the lookup of `b` the claim is visible: the next open of either
name is for the identifier of twos. -/
theorem claimOfA_visible :
    ∃ s, [.message calmMessage 7 claimOfA].foldlM
        (daemonStep (Aead.keyTag _ _) agreeingCalls hostLabels twoNames) labelledDaemon = some s ∧
      OpensAs (Aead.keyTag _ _) agreeingCalls hostLabels twoNames s 3 (fill _ 2) := by
  obtain ⟨w, e, hclaim, -, hid⟩ := claimOfA_gives .empty
  have hstep : ([] ++ [DaemonEvent.message calmMessage 7 claimOfA]).foldlM
      (daemonStep (Aead.keyTag _ _) agreeingCalls hostLabels twoNames) labelledDaemon =
        some ⟨w, e, IdentifierCache.empty.clear calmMessage.cache [97]⟩ := by
    rw [List.nil_append, List.foldlM_cons]
    change Option.bind (daemonStep _ _ _ _ { labelledDaemon with cache := .empty } _) _ = _
    rw [hclaim]
    rfl
  refine ⟨_, hstep, claim_visible_to_open rfl hstep (List.foldlM_nil ..)
    ⟨host_keepsLabels (Aead.keyTag_ideal _ _) _ _ _ _, fun _ _ => trivial⟩
    ⟨?_, fun _ _ => trivial⟩ ⟨claimOfA_claims, hid⟩ (List.forall_mem_nil _)⟩
  intro p hp q entry hentry
  cases hentry

end Citadel.Daemon
