/-
Citadel.Protocol.CacheCoherence — which identifier an open is given.

The daemon keeps the identifiers it has read by the string they were asked
for under. A claim removes its own string before the enclave writes the
new label, and the daemon serves one message at a time; so a string that
was claimed is read again. But a file has many names, and what is cached
under another one stays: for 15 seconds at least, since a copy of an entry
counts as new, an open under that name is given a ticket for the old
identifier.

* `CoherentWith`: what is cached is what the file of the string has. Every
  step keeps it, a claim only if no other name of the file is cached
  (`SoleName`).
* `claim_visible_to_open`: along runs whose claims meet that, the opens
  after a claim are for the claimed identifier.

Files and their attributes are an arbitrary `labels` on the state of the
world, path strings name files by `names`; the daemon and the enclave are
`sendResponse`.
-/
import Citadel.Daemon.Translation
import Citadel.Enclave.RequestCalls
import Citadel.Lib.Run

namespace Citadel.Daemon

open Bytes Enclave Calls

/-! ## Runs of the daemon -/

/-- A client's message, or anything else that happens. -/
inductive DaemonEvent (σ : Type) where
  | message (env : MessageEnv) (pid : Pid) (data : List UInt8)
  | elsewhere (world : σ)

section Runs

variable {σ F : Type} (A : Aead AesKey ivLength tagLength) (calls : HostCalls σ)
  (labels : σ → F → Option (List UInt8)) (names : List UInt8 → Option F)

/-- The attribute of the file a path names. -/
def pathXattr (w : σ) (s : List UInt8) : Option (List UInt8) := (names s).bind (labels w)

def daemonStep (s : DaemonState σ) : DaemonEvent σ → Option (DaemonState σ)
  | .message env pid data =>
    (sendResponse A calls (pathXattr labels names) env s pid data).map Prod.fst
  | .elsewhere world => some { s with world := world }

variable {A calls labels names} in
theorem daemonStep_of_sendResponse {env : MessageEnv} {s s' : DaemonState σ} {pid : Pid}
    {data reply : List UInt8}
    (h : sendResponse A calls (pathXattr labels names) env s pid data = some (s', reply)) :
    daemonStep A calls labels names s (.message env pid data) = some s' :=
  congrArg (Option.map Prod.fst) h

/-- The identifier a file has, as the daemon reads it. -/
def identifierAt (w : σ) (f : F) : Option Identifier := (fileIdentifier (labels w f)).join

/-- The path a message claims. -/
def claimPath (data : List UInt8) : Option (List UInt8) :=
  (readRequest data).bind fun out => out.2.bind fun x =>
    if out.1.operation.has opClaim then cstring x.metadata.1 else none

/-- The event is a claim of the file. -/
def DaemonEvent.Claims (f : F) : DaemonEvent σ → Prop
  | .message _ _ data => ∃ s, claimPath data = some s ∧ names s = some f
  | .elsewhere _ => False

/-- A file with an identifier keeps it, unless it is claimed. -/
def KeepsLabels (s : DaemonState σ) (ev : DaemonEvent σ) : Prop :=
  ∀ s', daemonStep A calls labels names s ev = some s' → ∀ f identifier,
    identifierAt labels s.world f = some identifier →
      ev.Claims names f ∨ identifierAt labels s'.world f = some identifier

/-- What is claimed is not cached under another name. -/
def SoleName (s : DaemonState σ) : DaemonEvent σ → Prop
  | .message _ _ data => ∀ p, claimPath data = some p → ∀ q entry, s.cache q = some entry →
      names q = names p → q = p
  | .elsewhere _ => True

/-- Handling the message, the enclave makes the call. -/
def MessageMakes (s : DaemonState σ) (env : MessageEnv) (pid : Pid) (data : List UInt8)
    (hist : Calls.History Generator Generator.Answer) (c : Generator) : Prop :=
  ∃ cache' data', cachePassthrough env.cache (pathXattr labels names s.world) s.cache data =
    some (cache', data', true) ∧ RequestMakes A calls env.rand s.world s.enclave data' pid hist c

end Runs

/-! ## The cache -/

/-- Every entry comes from one with the same value. -/
def IdentifierCache.From (cache' cache : IdentifierCache) : Prop :=
  ∀ q entry', cache' q = some entry' → ∃ entry, cache q = some entry ∧ entry.value = entry'.value

theorem IdentifierCache.from_refl (cache : IdentifierCache) : cache.From cache :=
  fun _ entry h => ⟨entry, h, rfl⟩

theorem IdentifierCache.erase_some {env : CacheEnv} {cache : IdentifierCache} {s q : List UInt8}
    {entry' : IdentifierCacheEntry} (h : cache.erase env s q = some entry') :
    q ≠ s ∧ ∃ entry, cache q = some entry ∧ entry.value = entry'.value := by
  unfold IdentifierCache.erase at h
  split at h
  · cases h
  · rename_i hq
    obtain ⟨entry, hentry, rfl⟩ := Option.map_eq_some_iff.mp h
    exact ⟨hq, entry, hentry, rfl⟩

theorem IdentifierCache.clear_some {env : CacheEnv} {cache : IdentifierCache} {s q : List UInt8}
    {entry' : IdentifierCacheEntry} (h : cache.clear env s q = some entry') :
    q ≠ s ∧ ∃ entry, cache q = some entry ∧ entry.value = entry'.value := by
  unfold IdentifierCache.clear at h
  split at h
  · exact erase_some h
  · rename_i habsent
    refine ⟨?_, entry', h, rfl⟩
    rintro rfl
    exact habsent (by rw [h]; rfl)

/-- An insertion brings at most its own entry. -/
theorem IdentifierCache.insert_some {env : CacheEnv} {cache : IdentifierCache}
    {s q : List UInt8} {identifier : Identifier} {entry' : IdentifierCacheEntry}
    (h : cache.insert env s identifier q = some entry') :
    (∃ entry, cache q = some entry ∧ entry.value = entry'.value) ∨
      q = s ∧ entry'.value = identifier := by
  cases hs : cache s with
  | some old =>
    simp only [IdentifierCache.insert, hs] at h
    exact .inl ⟨entry', h, rfl⟩
  | none =>
    simp only [IdentifierCache.insert, hs] at h
    split at h
    · rename_i hq
      cases h
      exact .inr ⟨hq, rfl⟩
    · obtain ⟨entry, hentry, rfl⟩ := Option.map_eq_some_iff.mp h
      exact .inl ⟨entry, hentry, rfl⟩

/-- After a lookup an entry is an old one, or what was read from the file. -/
theorem cacheAfter_some {env : CacheEnv} {cache : IdentifierCache} {s q : List UInt8}
    {xattr : Option (List UInt8)} {found : Option Identifier} {entry' : IdentifierCacheEntry}
    (hfound : foundIdentifier env cache s xattr = some found)
    (h : cacheAfter env cache s found q = some entry') :
    (∃ entry, cache q = some entry ∧ entry.value = entry'.value) ∨
      q = s ∧ fileIdentifier xattr = some (some entry'.value) := by
  unfold foundIdentifier at hfound
  unfold cacheAfter at h
  cases hfresh : cache.fresh s env.found with
  | some value =>
    rw [hfresh] at h
    exact .inl ⟨entry', h, rfl⟩
  | none =>
    rw [hfresh] at h hfound
    have hsub : (if (cache s).any (fun entry => entry.expired env.again) then cache.erase env s
        else cache).From cache := by
      split
      · exact fun _ _ h => (IdentifierCache.erase_some h).2
      · exact cache.from_refl
    cases found with
    | none => exact .inl (hsub q entry' h)
    | some identifier =>
      rcases IdentifierCache.insert_some h with ⟨entry, hentry, hvalue⟩ | ⟨hq, hvalue⟩
      · obtain ⟨old, hold, heq⟩ := hsub q entry hentry
        exact .inl ⟨old, hold, heq.trans hvalue⟩
      · exact .inr ⟨hq, by rw [hvalue]; exact hfound⟩

/-! ## Coherence -/

section Coherence

variable {σ F : Type} {A : Aead AesKey ivLength tagLength} {calls : HostCalls σ}
  {labels : σ → F → Option (List UInt8)} {names : List UInt8 → Option F}

/-- What is cached for a string is what its file has. -/
def CoherentWith (labels : σ → F → Option (List UInt8)) (names : List UInt8 → Option F) (w : σ)
    (cache : IdentifierCache) : Prop :=
  ∀ q entry, cache q = some entry →
    ∃ f, names q = some f ∧ identifierAt labels w f = some entry.value

theorem identifierAt_of_read {w : σ} {s : List UInt8} {identifier : Identifier}
    (h : fileIdentifier (pathXattr labels names w s) = some (some identifier)) :
    ∃ f, names s = some f ∧ identifierAt labels w f = some identifier := by
  unfold pathXattr at h
  cases hname : names s with
  | none =>
    rw [hname, Option.bind_none] at h
    cases h
  | some f =>
    rw [hname, Option.bind_some] at h
    exact ⟨f, rfl, by rw [identifierAt, h]; rfl⟩

/-- Before the enclave acts: what the daemon does to the cache fits the
files as they are. -/
theorem CoherentWith.passRequest {w : σ} {cache cache' : IdentifierCache} {env : CacheEnv}
    {request : OpRequest} {extension extension' : Option OpExtension}
    (h : CoherentWith labels names w cache)
    (hpass : passRequest env (pathXattr labels names w) cache request extension =
      some (cache', extension')) : CoherentWith labels names w cache' := by
  rcases passRequest_cases hpass with ⟨-, rfl, -⟩ | ⟨x, s, -, -, -, rfl, -⟩ |
    ⟨x, s, found, -, -, -, -, hfound, rfl, -⟩
  · exact h
  · intro q entry' hentry'
    obtain ⟨-, entry, hentry, hvalue⟩ := IdentifierCache.clear_some hentry'
    rw [← hvalue]
    exact h q entry hentry
  · intro q entry' hentry'
    rcases cacheAfter_some hfound hentry' with ⟨entry, hentry, hvalue⟩ | ⟨rfl, hread⟩
    · rw [← hvalue]
      exact h q entry hentry
    · exact identifierAt_of_read hread

theorem claimPath_some {data p : List UInt8} (h : claimPath data = some p) :
    ∃ request x, readRequest data = some (request, some x) ∧
      request.operation.has opClaim = true ∧ cstring x.metadata.1 = some p := by
  obtain ⟨⟨request, extension⟩, hreads, h⟩ := Option.bind_eq_some_iff.mp h
  obtain ⟨x, rfl, hx⟩ := Option.bind_eq_some_iff.mp h
  rw [Option.ite_none_right_eq_some] at hx
  exact ⟨request, x, hreads, hx.1, hx.2⟩

/-- After a claim its file is not cached, whatever its name. -/
theorem claimed_uncached {env : MessageEnv} {s s' : DaemonState σ} {pid : Pid}
    {data reply p q : List UInt8} {entry : IdentifierCacheEntry}
    (hsole : SoleName names s (.message env pid data)) (hp : claimPath data = some p)
    (hsend : sendResponse A calls (pathXattr labels names) env s pid data = some (s', reply))
    (hentry : s'.cache q = some entry) : names q ≠ names p := by
  intro hnames
  obtain ⟨request, x, hreads, hclaim, hs⟩ := claimPath_some hp
  rcases sendResponse_cases hsend with ⟨hnone, -⟩ |
    ⟨request', extension, extension', _, _, _, hreads', hpass, -⟩
  · rw [hreads] at hnone
    cases hnone
  · cases hreads.symm.trans hreads'
    rcases passRequest_cases hpass with ⟨hplain, -, -⟩ | ⟨y, p', hy, -, hs', hcache, -⟩ |
      ⟨y, p', found, -, hnot, -⟩
    · rw [hplain.1] at hclaim
      cases hclaim
    · cases hy
      cases hs.symm.trans hs'
      rw [hcache] at hentry
      obtain ⟨hne, old, hold, -⟩ := IdentifierCache.clear_some hentry
      exact hne (hsole p hp q old hold hnames)
    · rw [hnot] at hclaim
      cases hclaim

/-- One step. -/
theorem daemonStep_coherent {s s' : DaemonState σ} {ev : DaemonEvent σ}
    (hkeeps : KeepsLabels A calls labels names s ev) (hsole : SoleName names s ev)
    (h : CoherentWith labels names s.world s.cache)
    (hstep : daemonStep A calls labels names s ev = some s') :
    CoherentWith labels names s'.world s'.cache := by
  have hkept := hkeeps s' hstep
  cases ev with
  | elsewhere world =>
    cases hstep
    intro q entry hentry
    obtain ⟨f, hname, hid⟩ := h q entry hentry
    exact ⟨f, hname, (hkept f _ hid).resolve_left False.elim⟩
  | message env pid data =>
    obtain ⟨⟨s'', reply⟩, hsend, heq⟩ := Option.map_eq_some_iff.mp hstep
    cases heq
    have hpassed : CoherentWith labels names s.world s''.cache := by
      rcases sendResponse_cases hsend with ⟨-, rfl⟩ |
        ⟨request, extension, extension', _, _, _, -, hpass, -⟩
      · exact h
      · exact h.passRequest hpass
    intro q entry hentry
    obtain ⟨f, hname, hid⟩ := hpassed q entry hentry
    rcases hkept f _ hid with ⟨p, hp, hnp⟩ | hsame
    · exact absurd (hname.trans hnp.symm) (claimed_uncached hsole hp hsend hentry)
    · exact ⟨f, hname, hsame⟩

/-- Whole runs. -/
theorem daemonRun_coherent {s s' : DaemonState σ} {evs : List (DaemonEvent σ)}
    (hrun : Run.Along (daemonStep A calls labels names)
      (fun s ev => KeepsLabels A calls labels names s ev ∧ SoleName names s ev) s evs)
    (h : CoherentWith labels names s.world s.cache)
    (hevs : evs.foldlM (daemonStep A calls labels names) s = some s') :
    CoherentWith labels names s'.world s'.cache :=
  hrun.invariant (P := fun s => CoherentWith labels names s.world s.cache)
    (fun _ _ _ h hcond hstep => daemonStep_coherent hcond.1 hcond.2 h hstep) h hevs

/-- An identifier lasts until the file is claimed again. -/
theorem daemonRun_keeps {s s' : DaemonState σ} {evs : List (DaemonEvent σ)} {f : F}
    {identifier : Identifier}
    (hrun : Run.Along (daemonStep A calls labels names)
      (fun s ev => KeepsLabels A calls labels names s ev) s evs)
    (hlast : ∀ ev ∈ evs, ¬ ev.Claims names f)
    (h : identifierAt labels s.world f = some identifier)
    (hevs : evs.foldlM (daemonStep A calls labels names) s = some s') :
    identifierAt labels s'.world f = some identifier := by
  induction evs generalizing s with
  | nil =>
    cases hevs
    exact h
  | cons ev evs ih =>
    obtain ⟨s₁, hstep, hrest⟩ := Run.cons_some hevs
    have hkept := (hrun.1 s₁ hstep f identifier h).resolve_left (hlast ev List.mem_cons_self)
    exact ih (hrun.2 s₁ hstep) (fun e he => hlast e (List.mem_cons_of_mem ev he)) hkept hrest

end Coherence

/-! ## Opens -/

/-- The call opens the object, if it opens one. -/
def OpensOnly (object : Identifier) : Generator → Prop
  | .ticket .openTicket _ identifier _ => identifier = object
  | _ => True

/-- The open of an object that has its label is for that object. -/
theorem everyCall_opensOnly {request : OpRequest} {extension : Option OpExtension}
    (hinducts : inducts extension = false) (pid : Pid) :
    EveryCall (OpensOnly (namedObject request extension)) pid request extension where
  claimLabel := fun _ => trivial
  claimTicket := fun _ _ => trivial
  openLabel := fun _ _ _ => trivial
  openTicket := fun _ _ _ hnamed => hnamed hinducts
  ptyOrSocket := trivial
  shm := trivial
  declassify := fun _ => trivial

/-- It is the first call of an approved open. -/
theorem coreCalls_open {request : OpRequest} {extension : Option OpExtension}
    (hclaim : request.operation.has opClaim = false)
    (hopen : request.operation.has opOpen = true) (hinducts : inducts extension = false)
    (pid : Pid) :
    ∃ k, coreCalls pid request extension opApproved =
      .call (.ticket .openTicket pid (namedObject request extension) request.operation) k := by
  have hbit : (remaining request.operation).has opOpen = true := by
    rw [remaining_open, hclaim, hopen]
    rfl
  unfold coreCalls approvedCalls openCalls
  simp only [ne_eq, not_true_eq_false, if_false, hclaim, hbit, openObject_eq, hinducts]
  exact ⟨_, rfl⟩

theorem identifierOf_writeIdentifier (metadata : Block maxMetadataSize) (identifier : Identifier) :
    identifierOf (writeIdentifier metadata identifier) = identifier := by
  refine Subtype.ext ?_
  change (identifier.1 ++ metadata.1.drop identifierLength).take identifierLength = identifier.1
  exact List.take_left' identifier.2

section Opens

variable {σ F : Type} {A : Aead AesKey ivLength tagLength} {calls : HostCalls σ}
  {labels : σ → F → Option (List UInt8)} {names : List UInt8 → Option F}

/-- The tickets of translated opens of the file, under any of its names,
are for the identifier; and an open that is approved is given one. -/
def OpensAs (A : Aead AesKey ivLength tagLength) (calls : HostCalls σ)
    (labels : σ → F → Option (List UInt8)) (names : List UInt8 → Option F) (s : DaemonState σ)
    (f : F) (identifier : Identifier) : Prop :=
  ∀ env pid data request x p, readRequest data = some (request, some x) →
    request.operation.has opOpen = true → request.operation.has opClaim = false →
    x.translate = true → cstring x.metadata.1 = some p → names p = some f →
    (∀ hist pid' object operation,
      MessageMakes A calls labels names s env pid data hist
        (.ticket .openTicket pid' object operation) → object = identifier) ∧
    ∀ token, Authentic A s.enclave data pid request (some x) token →
      (calls.asmHandleRequest s.world pid request
        (some (writeIdentifier x.metadata identifier))).2 = opApproved →
      MessageMakes A calls labels names s env pid data []
        (.ticket .openTicket pid identifier request.operation)

theorem foundIdentifier_coherent {s : DaemonState σ} {f : F} {identifier : Identifier}
    {p : List UInt8} (h : CoherentWith labels names s.world s.cache)
    (hid : identifierAt labels s.world f = some identifier) (hp : names p = some f)
    (env : CacheEnv) :
    foundIdentifier env s.cache p (pathXattr labels names s.world p) =
      some (some identifier) := by
  unfold foundIdentifier
  cases hfresh : s.cache.fresh p env.found with
  | some value =>
    obtain ⟨entry, hfilter, rfl⟩ := Option.map_eq_some_iff.mp hfresh
    obtain ⟨hentry, -⟩ := Option.filter_eq_some_iff.mp hfilter
    obtain ⟨g, hg, hvalue⟩ := h p entry hentry
    cases hp.symm.trans hg
    rw [hid] at hvalue
    exact congrArg (fun v => some v) hvalue.symm
  | none =>
    have hread : fileIdentifier (labels s.world f) = some (some identifier) := by
      unfold identifierAt at hid
      cases hfile : fileIdentifier (labels s.world f) with
      | none =>
        rw [hfile] at hid
        cases hid
      | some found =>
        rw [hfile] at hid
        exact congrArg some hid
    simpa [pathXattr, hp] using hread

theorem namedObject_translated (request : OpRequest) {x : OpExtension} (object : Identifier)
    (htranslate : x.translate = true) :
    namedObject request (some (translated x (some object))) = object := by
  simp [namedObject, translated, htranslate, identifierOf_writeIdentifier]

/-- An approved open is for what the lookup found. -/
theorem messageMakes_open {s : DaemonState σ} {env : MessageEnv} {pid : Pid} {data p : List UInt8}
    {request : OpRequest} {x : OpExtension} {object : Identifier} {token : PtokenProtected}
    (hauthentic : Authentic A s.enclave data pid request (some x) token)
    (hopen : request.operation.has opOpen = true)
    (hclaim : request.operation.has opClaim = false) (htranslate : x.translate = true)
    (hp : cstring x.metadata.1 = some p)
    (hfound : foundIdentifier env.cache s.cache p (pathXattr labels names s.world p) =
      some (some object))
    (hpolicy : (calls.asmHandleRequest s.world pid request
      (some (writeIdentifier x.metadata object))).2 = opApproved) :
    MessageMakes A calls labels names s env pid data []
      (.ticket .openTicket pid object request.operation) := by
  obtain ⟨data', hmessage, hreads'⟩ := cachePassthrough_of_passRequest hauthentic.reads
    (passRequest_found hclaim htranslate hp hfound)
  refine ⟨_, data', hmessage, request, _, token, { hauthentic with reads := hreads' }, ?_⟩
  have hinducts : inducts (some (translated x (some object))) = false := by
    simp [inducts, translated]
  obtain ⟨k, hk⟩ := coreCalls_open hclaim hopen hinducts pid
  rw [show metadataOf (some (translated x (some object))) =
    some (writeIdentifier x.metadata object) from rfl, hpolicy, hk,
    namedObject_translated request object htranslate]
  exact .here _ _ _

theorem opensAs_of_coherent {s : DaemonState σ} {f : F} {identifier : Identifier}
    (h : CoherentWith labels names s.world s.cache)
    (hid : identifierAt labels s.world f = some identifier) :
    OpensAs A calls labels names s f identifier := by
  intro env pid data request x p hreads hopen hclaim htranslate hp hname
  have hfound := foundIdentifier_coherent h hid hname env.cache
  refine ⟨?_, fun token hauthentic hpolicy =>
    messageMakes_open hauthentic hopen hclaim htranslate hp hfound hpolicy⟩
  rintro hist pid' object operation ⟨cache', data', hmessage, hmakes⟩
  obtain ⟨-, extension', hpass, hreads'⟩ := cachePassthrough_some hreads hmessage
  obtain ⟨request', y, token, hauthentic, hmakes⟩ := hmakes
  cases hreads'.symm.trans hauthentic.reads
  cases (passRequest_found hclaim htranslate hp hfound).symm.trans hpass
  have hreach := hmakes.reaches (generators_gives A calls env.rand)
  have hopened : object = namedObject request _ :=
    (holds_iff_reaches _ []).mp
      ((everyCall_opensOnly (by simp [inducts, translated]) pid).holds _) hist _ hreach
  exact hopened.trans (namedObject_translated request identifier htranslate)

/-- The event is a claim that left the file with the identifier. -/
structure Gave (labels : σ → F → Option (List UInt8)) (names : List UInt8 → Option F)
    (claim : DaemonEvent σ) (s : DaemonState σ) (f : F) (identifier : Identifier) : Prop where
  claims : claim.Claims names f
  given : identifierAt labels s.world f = some identifier

/-- **Claims are visible to opens.** Files are relabelled by claims only,
and no file is claimed while another of its names is cached. Then, from an
empty cache on: once a claim has given a file an identifier, translated
opens of it are for that identifier, until it is claimed again. -/
theorem claim_visible_to_open {init s₁ s₂ : DaemonState σ} {pre mid : List (DaemonEvent σ)}
    {claim : DaemonEvent σ} {f : F} {identifier : Identifier}
    (hinit : init.cache = .empty)
    (hclaim : (pre ++ [claim]).foldlM (daemonStep A calls labels names) init = some s₁)
    (hmid : mid.foldlM (daemonStep A calls labels names) s₁ = some s₂)
    (hkeeps : Run.Along (daemonStep A calls labels names)
      (KeepsLabels A calls labels names) init (pre ++ [claim] ++ mid))
    (hsole : Run.Along (daemonStep A calls labels names)
      (fun s ev => SoleName names s ev) init (pre ++ [claim] ++ mid))
    (hgave : Gave labels names claim s₁ f identifier)
    (hlast : ∀ ev ∈ mid, ¬ ev.Claims names f) :
    OpensAs A calls labels names s₂ f identifier := by
  have hcoherent : CoherentWith labels names init.world init.cache := by
    rw [hinit]
    intro q entry hentry
    cases hentry
  have hrun : (pre ++ [claim] ++ mid).foldlM (daemonStep A calls labels names) init = some s₂ := by
    rw [List.foldlM_append, hclaim]
    exact hmid
  have hkept := daemonRun_keeps ((Run.Along.append_iff.mp hkeeps).2 s₁ hclaim) hlast
    hgave.given hmid
  exact opensAs_of_coherent (daemonRun_coherent (hkeeps.and hsole) hcoherent hrun) hkept

end Opens

end Citadel.Daemon
