/-
Citadel.Libcitadel.Init — how a process introduces itself
(`libcitadel/src/init.c` and `c_fork` of `shim.c`), and whether the answer
of `citadel_init` can be believed.

`citadel_init` takes a process for registered if `own_pid`, a static, is
its pid. `init_pid` sets `own_pid` before the token is fetched and before
the enclave is asked, and a fork copies it.

  §1  the functions, on the statics of a process;
  §2  processes: forks, exits and calls, with what each process really got;
  §3  every call of a run tells the truth, and tries again after a failure,
      exactly if no process calls again after a failed call of its own, nor
      for the first time with its pid inherited (`init_truthful_iff`).

The seed of `init_rand` is left out: nothing draws from it. Allocations
succeed. `none` is a fault, which does not occur (`citadelInit_spec`).
-/
import Citadel.Lib.Run
import Citadel.Libcitadel.Cache

namespace Citadel.Libcitadel

open Bytes

/-! ## §1 Statics -/

/-- A buffer of `_CITADEL_PTOKEN_PAYLOAD_SIZE` bytes, as `citadel_ptoken_t`. -/
structure PtokenPayload where
  signature : Block signatureLength
  citadelPid : Pid
  ptoken : Block ptokenLength
  processIdentifier : Identifier
  signedPtoken : Block signedPtokenLength
  deriving DecidableEq

/-- The statics of `init.c` and `cache.c`. -/
structure Statics where
  citadelPid : Pid
  ownPid : Pid
  parentPid : Pid
  identifier : Identifier
  parentIdentifier : Identifier
  ptoken : Option (Block ptokenLength)
  signedPtoken : Option (Block signedPtokenLength)
  cache : Cache
  deriving DecidableEq

/-- As a program starts. -/
def Statics.init : Statics := ⟨0, 0, 0, zeros _, zeros _, none, none, .init⟩

/-- What a call meets: the kernel's file, which may not open and may have
nothing to read, the bytes of `subject`, which nobody sets, and the answer
of the transaction. -/
structure InitEnv where
  file : Option (Option PtokenPayload)
  subject : Identifier
  transaction : OpRequest → Bool

/-- `ipc_declare_self`. -/
def ipcDeclareSelf (env : InitEnv) (s : Statics) : Option Bool := do
  let signedPtoken ← s.signedPtoken
  some (env.transaction ⟨challengeSignature, opRegister, env.subject, signedPtoken⟩)

/-- `fetch_kernel_ptoken`. -/
def fetchKernelPtoken (env : InitEnv) (s : Statics) : Statics × Bool :=
  match env.file with
  | none => (s, false)
  | some none => (s, false)
  | some (some payload) =>
    if payload.signature ≠ challengeSignature then (s, false)
    else
      ({ s with
          ptoken := some payload.ptoken
          signedPtoken := some payload.signedPtoken
          citadelPid := payload.citadelPid
          identifier := payload.processIdentifier }, true)

/-- What `init_pid` leaves, returns and says of `is_child`. -/
structure InitPid where
  statics : Statics
  result : Bool
  isChild : Bool

def initPid (pid ppid : Pid) (s : Statics) : InitPid :=
  if pid = s.ownPid then ⟨s, false, false⟩
  else
    -- a suspect fork is reported, and goes on
    let suspect := 0 < s.ownPid.toInt ∧ s.ownPid ≠ pid ∧ s.ownPid ≠ ppid
    let isChild := decide (¬ suspect ∧ s.ownPid = ppid)
    let s := if isChild then
        { s with cache := cacheOnFork s.cache, parentIdentifier := s.identifier }
      else s
    ⟨{ s with ownPid := pid, parentPid := ppid }, true, isChild⟩

/-- How far a call of `citadel_init` came. -/
inductive Attempt where
  | notTried
  | noPtoken
  | refused
  | approved
  deriving DecidableEq

/-- What `citadel_init` leaves and returns, and how far it came. -/
structure InitOutcome where
  statics : Statics
  answer : Bool
  attempt : Attempt
  deriving DecidableEq

def citadelInit (env : InitEnv) (pid ppid : Pid) (s : Statics) : Option InitOutcome :=
  let start := initPid pid ppid s
  if !start.result then some ⟨start.statics, true, .notTried⟩
  else
    let s := if start.isChild then start.statics else { start.statics with cache := .init }
    let fetched := fetchKernelPtoken env s
    if fetched.2 then do
      let registered ← ipcDeclareSelf env fetched.1
      some ⟨fetched.1, registered, if registered then .approved else .refused⟩
    else some ⟨fetched.1, false, .noPtoken⟩

/-- The answer to each attempt. -/
def Attempt.answer : Attempt → Bool
  | .notTried => true
  | .noPtoken => false
  | .refused => false
  | .approved => true

theorem initPid_fresh {pid : Pid} (ppid : Pid) {s : Statics} (h : pid ≠ s.ownPid) :
    (initPid pid ppid s).result = true ∧ (initPid pid ppid s).statics.ownPid = pid := by
  rw [initPid, if_neg h]
  exact ⟨rfl, rfl⟩

/-- Fetching the token touches neither the pid nor the cache. -/
theorem fetchKernelPtoken_keeps (env : InitEnv) (s : Statics) :
    (fetchKernelPtoken env s).1.ownPid = s.ownPid ∧
      (fetchKernelPtoken env s).1.cache = s.cache := by
  unfold fetchKernelPtoken
  split
  · exact ⟨rfl, rfl⟩
  · exact ⟨rfl, rfl⟩
  · split <;> exact ⟨rfl, rfl⟩

theorem fetchKernelPtoken_signed {env : InitEnv} {s : Statics}
    (h : (fetchKernelPtoken env s).2 = true) :
    ∃ signedPtoken, (fetchKernelPtoken env s).1.signedPtoken = some signedPtoken := by
  unfold fetchKernelPtoken at h ⊢
  split at h
  · cases h
  · cases h
  · split at h
    · cases h
    · rename_i payload _ hsignature
      rw [if_neg hsignature]
      exact ⟨payload.signedPtoken, rfl⟩

/-- A call returns. It tries exactly if `own_pid` is not its pid, sets
`own_pid` in any case, and answers by how far it came. -/
theorem citadelInit_spec (env : InitEnv) (pid ppid : Pid) (s : Statics) :
    ∃ out, citadelInit env pid ppid s = some out ∧ out.statics.ownPid = pid ∧
      out.answer = out.attempt.answer ∧ (out.attempt = .notTried ↔ s.ownPid = pid) := by
  rw [citadelInit]
  dsimp only
  by_cases hown : pid = s.ownPid
  · have hpid : initPid pid ppid s = ⟨s, false, false⟩ := by rw [initPid, if_pos hown]
    rw [hpid]
    exact ⟨_, rfl, hown.symm, rfl, fun _ => hown.symm, fun _ => rfl⟩
  · obtain ⟨hresult, hstatics⟩ := initPid_fresh ppid hown
    rw [hresult]
    generalize hs : (if (initPid pid ppid s).isChild = true then (initPid pid ppid s).statics
      else { (initPid pid ppid s).statics with cache := .init }) = s'
    have hown' : s'.ownPid = pid := by
      rw [← hs]
      split <;> exact hstatics
    have hnot : ∀ {a : Attempt}, a ≠ .notTried → (a = .notTried ↔ s.ownPid = pid) :=
      fun ha => ⟨fun h => absurd h ha, fun h => absurd h.symm hown⟩
    have hkept : (fetchKernelPtoken env s').1.ownPid = pid := by
      rw [(fetchKernelPtoken_keeps env s').1, hown']
    cases hfetch : (fetchKernelPtoken env s').2 with
    | false => exact ⟨_, rfl, hkept, rfl, hnot nofun⟩
    | true =>
      obtain ⟨signedPtoken, hsigned⟩ := fetchKernelPtoken_signed hfetch
      simp only [Bool.not_true, Bool.false_eq_true, if_false, if_true, ipcDeclareSelf, hsigned,
        Option.bind_eq_bind, Option.bind_some]
      cases env.transaction ⟨challengeSignature, opRegister, env.subject, signedPtoken⟩ with
      | false => exact ⟨_, rfl, hkept, rfl, hnot nofun⟩
      | true => exact ⟨_, rfl, hkept, rfl, hnot nofun⟩

/-- What a call leaves of the cache: all of it if it does not try, and else
the entries as a child has them, or nothing. -/
theorem citadelInit_cache {env : InitEnv} {pid ppid : Pid} {s : Statics} {out : InitOutcome}
    (h : citadelInit env pid ppid s = some out) :
    (out.attempt = .notTried ∧ out.statics.cache = s.cache) ∨
      out.attempt ≠ .notTried ∧
        (out.statics.cache = cacheOnFork s.cache ∨ out.statics.cache = .init) := by
  rw [citadelInit] at h
  dsimp only at h
  by_cases hown : pid = s.ownPid
  · rw [initPid, if_pos hown] at h
    cases h
    exact .inl ⟨rfl, rfl⟩
  · rw [(initPid_fresh ppid hown).1] at h
    generalize hs : (if (initPid pid ppid s).isChild = true then (initPid pid ppid s).statics
      else { (initPid pid ppid s).statics with cache := .init }) = s' at h
    have hcache : s'.cache = cacheOnFork s.cache ∨ s'.cache = .init := by
      rw [← hs]
      split
      · rename_i hchild
        rw [initPid, if_neg hown] at hchild ⊢
        dsimp only at hchild ⊢
        rw [if_pos hchild]
        exact .inl rfl
      · exact .inr rfl
    rw [← (fetchKernelPtoken_keeps env s').2] at hcache
    rw [Bool.not_true, if_neg Bool.false_ne_true] at h
    split at h
    · obtain ⟨registered, -, h⟩ := Option.bind_eq_some_iff.mp h
      cases h
      refine .inr ⟨?_, hcache⟩
      cases registered <;> exact nofun
    · cases h
      exact .inr ⟨nofun, hcache⟩

/-! ## §2 Processes -/

/-- A process: its parent, its statics and, beside them, what it got since
it was forked and the answer of its last call. -/
structure Member where
  ppid : Pid
  statics : Statics
  ptoken : Bool
  registered : Bool
  last : Option Bool
  deriving DecidableEq

/-- A call of `citadel_init`, as seen from outside: whether the last call of
the process failed, whether this one went to the kernel, what it answered,
and what the process has got by then. -/
structure InitCall where
  afterFailure : Bool
  tried : Bool
  answer : Bool
  ptoken : Bool
  registered : Bool
  deriving DecidableEq

/-- The answer is true only if the process has a token of its own and its
registration was approved; after a failed call the next one tries again. -/
def InitCall.Truthful (call : InitCall) : Prop :=
  (call.answer = true → call.ptoken = true ∧ call.registered = true) ∧
    (call.afterFailure = true → call.tried = true)

/-- The processes that are alive, and the calls so far. -/
structure ProcessTree where
  members : Pid → Option Member
  calls : List InitCall

inductive TreeEvent where
  | fork (parent child : Pid)
  | exit (pid reaper : Pid)
  | citadelInit (pid : Pid) (env : InitEnv)

/-- The child has a copy of the statics, and has got nothing yet. -/
def Member.child (parent : Pid) (m : Member) : Member := ⟨parent, m.statics, false, false, none⟩

/-- The orphans of `pid` are given to another process. -/
def Member.reparent (pid reaper : Pid) (m : Member) : Member :=
  if m.ppid = pid then { m with ppid := reaper } else m

/-- The process after a call. -/
def Member.after (m : Member) (out : InitOutcome) : Member :=
  ⟨m.ppid, out.statics, m.ptoken || out.attempt == .refused || out.attempt == .approved,
    m.registered || out.attempt == .approved, some out.answer⟩

/-- The call seen from outside. -/
def Member.observed (m : Member) (out : InitOutcome) : InitCall :=
  ⟨m.last == some false, out.attempt != .notTried, out.answer, (m.after out).ptoken,
    (m.after out).registered⟩

/-- One event; `none` where it cannot happen. A child's pid is not in use. -/
def treeStep (t : ProcessTree) : TreeEvent → Option ProcessTree
  | .fork parent child => do
    let m ← t.members parent
    if (t.members child).isSome then none
    else some { t with members := Function.update t.members child (some (m.child parent)) }
  | .exit pid reaper =>
    some { t with members := fun q =>
      if q = pid then none else (t.members q).map (Member.reparent pid reaper) }
  | .citadelInit pid env => do
    let m ← t.members pid
    let out ← citadelInit env pid m.ppid m.statics
    some ⟨Function.update t.members pid (some (m.after out)), t.calls ++ [m.observed out]⟩

/-- `c_fork`: the child calls `citadel_init`. -/
def cFork (parent child : Pid) (env : InitEnv) : List TreeEvent :=
  [.fork parent child, .citadelInit child env]

/-- A program that has just started. -/
def ProcessTree.start (pid ppid : Pid) : ProcessTree :=
  ⟨Function.update (fun _ => none) pid (some ⟨ppid, .init, false, false, none⟩), []⟩

/-! ## §3 Truth -/

/-- A call that comes after a success of the same process, or as its first
with another pid in `own_pid`. -/
def InitOnce (t : ProcessTree) : TreeEvent → Prop
  | .citadelInit pid _ => ∀ m, t.members pid = some m →
    m.last ≠ some false ∧ (m.last = none → m.statics.ownPid ≠ pid)
  | _ => True

/-- A process that has called has its pid in `own_pid`; one that was told
yes is registered; one that has not called has got nothing. -/
structure Member.Sound (pid : Pid) (m : Member) : Prop where
  called : m.last ≠ none → m.statics.ownPid = pid
  told : m.last = some true → m.ptoken = true ∧ m.registered = true
  uncalled : m.last = none → m.ptoken = false

def ProcessTree.Sound (t : ProcessTree) : Prop :=
  ∀ pid m, t.members pid = some m → m.Sound pid

def ProcessTree.Truthful (t : ProcessTree) : Prop := ∀ call ∈ t.calls, call.Truthful

/-- A call that tries tells the truth. -/
theorem Member.observed_tried (m : Member) {out : InitOutcome}
    (hanswer : out.answer = out.attempt.answer) (htried : out.attempt ≠ .notTried) :
    (m.observed out).Truthful := by
  refine ⟨fun htrue => ?_, fun _ => bne_iff_ne.mpr htried⟩
  change out.answer = true at htrue
  rw [hanswer] at htrue
  cases hattempt : out.attempt with
  | notTried => exact absurd hattempt htried
  | noPtoken => rw [hattempt] at htrue; cases htrue
  | refused => rw [hattempt] at htrue; cases htrue
  | approved => simp [Member.observed, Member.after, hattempt]

/-- A call that does not try is believed for what the process has. -/
theorem Member.observed_notTried (m : Member) {out : InitOutcome}
    (hanswer : out.answer = out.attempt.answer) (htried : out.attempt = .notTried) :
    m.observed out = ⟨m.last == some false, false, true, m.ptoken, m.registered⟩ := by
  have hrefused : (Attempt.notTried == Attempt.refused) = false := rfl
  have happroved : (Attempt.notTried == Attempt.approved) = false := rfl
  simp [Member.observed, Member.after, hanswer, htried, Attempt.answer, hrefused, happroved]

/-- A call on a sound process tells the truth exactly if it is the first,
with another pid in `own_pid`, or comes after a success. -/
theorem Member.Sound.truthful_iff {pid : Pid} {m : Member} (h : m.Sound pid) {out : InitOutcome}
    (hanswer : out.answer = out.attempt.answer)
    (htried : out.attempt = .notTried ↔ m.statics.ownPid = pid) :
    (m.observed out).Truthful ↔
      m.last ≠ some false ∧ (m.last = none → m.statics.ownPid ≠ pid) := by
  cases hlast : m.last with
  | none =>
    by_cases hown : m.statics.ownPid = pid
    · -- the pid was inherited, and the process has no token
      rw [m.observed_notTried hanswer (htried.mpr hown)]
      simp [InitCall.Truthful, hown, h.uncalled hlast]
    · simpa [hown] using m.observed_tried hanswer (fun hnot => hown (htried.mp hnot))
  | some answer =>
    have hown : m.statics.ownPid = pid := h.called (by rw [hlast]; exact nofun)
    rw [m.observed_notTried hanswer (htried.mpr hown), hlast]
    cases answer with
    | false => simp [InitCall.Truthful]
    | true => simp [InitCall.Truthful, h.told hlast]

/-- After a call that told the truth the process is sound. -/
theorem Member.after_sound {pid : Pid} {m : Member} {out : InitOutcome}
    (hown : out.statics.ownPid = pid) (htruth : (m.observed out).Truthful) :
    (m.after out).Sound pid where
  called := fun _ => hown
  told := fun htold => htruth.1 (Option.some.inj htold)
  uncalled := nofun

/-- A process that has not called is sound, whatever its statics. -/
theorem Member.fresh_sound (pid ppid : Pid) (s : Statics) :
    Member.Sound pid ⟨ppid, s, false, false, none⟩ where
  called := fun h => absurd rfl h
  told := nofun
  uncalled := fun _ => rfl

theorem Member.Sound.reparent {pid : Pid} {m : Member} (h : m.Sound pid) (q reaper : Pid) :
    (m.reparent q reaper).Sound pid := by
  unfold Member.reparent
  split
  · exact ⟨h.called, h.told, h.uncalled⟩
  · exact h

/-- A sound process in place of one, or beside the others. -/
theorem ProcessTree.Sound.update {t : ProcessTree} (ht : t.Sound) {pid : Pid} {m : Member}
    (hm : m.Sound pid) (calls : List InitCall) :
    ProcessTree.Sound ⟨Function.update t.members pid (some m), calls⟩ := by
  intro q mq hq
  dsimp only at hq
  by_cases hpid : q = pid
  · subst hpid
    rw [Function.update_self] at hq
    cases hq
    exact hm
  · rw [Function.update_of_ne hpid] at hq
    exact ht q mq hq

/-- What a call does to the tree. -/
theorem treeStep_citadelInit {t t' : ProcessTree} {pid : Pid} {env : InitEnv}
    (h : treeStep t (.citadelInit pid env) = some t') :
    ∃ m out, t.members pid = some m ∧ out.statics.ownPid = pid ∧
      out.answer = out.attempt.answer ∧
      (out.attempt = .notTried ↔ m.statics.ownPid = pid) ∧
      t' = ⟨Function.update t.members pid (some (m.after out)), t.calls ++ [m.observed out]⟩ := by
  obtain ⟨m, hm, h⟩ := Option.bind_eq_some_iff.mp h
  obtain ⟨out, hout, h⟩ := Option.bind_eq_some_iff.mp h
  obtain ⟨out', hout', hown, hanswer, htried⟩ := citadelInit_spec env pid m.ppid m.statics
  obtain rfl : out = out' := Option.some.inj (hout.symm.trans hout')
  exact ⟨m, out, hm, hown, hanswer, htried, (Option.some.inj h).symm⟩

/-- Forks and exits leave the calls as they are. -/
theorem treeStep_calls {t t' : ProcessTree} {e : TreeEvent} (h : treeStep t e = some t') :
    ∃ more, t'.calls = t.calls ++ more := by
  cases e with
  | fork parent child =>
    obtain ⟨m, -, h⟩ := Option.bind_eq_some_iff.mp h
    split at h
    · cases h
    · cases h
      exact ⟨[], (List.append_nil _).symm⟩
  | exit pid reaper =>
    cases h
    exact ⟨[], (List.append_nil _).symm⟩
  | citadelInit pid env =>
    obtain ⟨m, out, -, -, -, -, rfl⟩ := treeStep_citadelInit h
    exact ⟨[m.observed out], rfl⟩

/-- One event keeps the processes sound. -/
theorem treeStep_sound {t t' : ProcessTree} {e : TreeEvent} (ht : t.Sound) (hC : InitOnce t e)
    (h : treeStep t e = some t') : t'.Sound := by
  cases e with
  | fork parent child =>
    obtain ⟨m, -, h⟩ := Option.bind_eq_some_iff.mp h
    split at h
    · cases h
    · cases h
      exact ht.update (Member.fresh_sound child parent m.statics) t.calls
  | exit pid reaper =>
    cases h
    intro q mq hq
    dsimp only at hq
    split at hq
    · cases hq
    · obtain ⟨m, hm, rfl⟩ := Option.map_eq_some_iff.mp hq
      exact (ht q m hm).reparent pid reaper
  | citadelInit pid env =>
    obtain ⟨m, out, hm, hown, hanswer, htried, rfl⟩ := treeStep_citadelInit h
    have htruth := ((ht pid m hm).truthful_iff hanswer htried).mpr (hC m hm)
    exact ht.update (Member.after_sound hown htruth) _

/-- One event adds nothing untrue exactly if it is allowed. -/
theorem treeStep_truthful {t t' : ProcessTree} {e : TreeEvent} (ht : t.Sound)
    (htrue : t.Truthful) (h : treeStep t e = some t') : t'.Truthful ↔ InitOnce t e := by
  cases e with
  | fork parent child =>
    obtain ⟨m, -, h⟩ := Option.bind_eq_some_iff.mp h
    split at h
    · cases h
    · cases h
      exact ⟨fun _ => trivial, fun _ => htrue⟩
  | exit pid reaper =>
    cases h
    exact ⟨fun _ => trivial, fun _ => htrue⟩
  | citadelInit pid env =>
    obtain ⟨m, out, hm, -, hanswer, htried, rfl⟩ := treeStep_citadelInit h
    have hiff := (ht pid m hm).truthful_iff hanswer htried
    constructor
    · intro hall m' hm'
      obtain rfl : m = m' := Option.some.inj (hm.symm.trans hm')
      exact hiff.mp (hall _ (List.mem_append_right _ List.mem_cons_self))
    · intro hC call hcall
      rcases List.mem_append.mp hcall with hcall | hcall
      · exact htrue call hcall
      · obtain rfl := List.mem_singleton.mp hcall
        exact hiff.mpr (hC m hm)

theorem start_sound (pid ppid : Pid) : (ProcessTree.start pid ppid).Sound := by
  have hempty : ProcessTree.Sound ⟨fun _ => none, []⟩ := by
    intro q m hq
    cases hq
  exact hempty.update (Member.fresh_sound pid ppid .init) []

/-- In every run of forks, exits and calls, all calls tell the truth and try
again after a failure exactly if no process calls again after a failed call
of its own, nor for the first time with its pid in the `own_pid` it has
inherited. -/
theorem init_truthful_iff (pid ppid : Pid) (events : List TreeEvent) (t : ProcessTree)
    (hrun : events.foldlM treeStep (.start pid ppid) = some t) :
    (∀ call ∈ t.calls, call.Truthful) ↔
      Run.Along treeStep InitOnce (.start pid ppid) events := by
  refine Run.Along.iff_of_step (I := ProcessTree.Sound) (G := ProcessTree.Truthful)
    (fun t t' e ht hC h => treeStep_sound ht hC h)
    (fun t t' e ht htrue h => treeStep_truthful ht htrue h) ?_ (start_sound pid ppid) ?_ hrun
  · intro t t' e h htrue' call hcall
    obtain ⟨more, hmore⟩ := treeStep_calls h
    exact htrue' call (by rw [hmore]; exact List.mem_append_left _ hcall)
  · intro call hcall
    cases hcall

/-- The kernel has a token for everyone, and the enclave answers `yes`. -/
def tokenEnv (yes : Bool) : InitEnv :=
  ⟨some (some ⟨challengeSignature, 1, zeros _, zeros _, zeros _⟩), zeros _, fun _ => yes⟩

/-- A parent and its child introduce themselves; the parent asks twice. -/
def parentAndChild : List TreeEvent :=
  .citadelInit 5 (tokenEnv true) :: .citadelInit 5 (tokenEnv true) :: cFork 5 6 (tokenEnv true)

theorem parentAndChild_calls :
    ∃ t, parentAndChild.foldlM treeStep (.start 5 4) = some t ∧
      t.calls = [⟨false, true, true, true, true⟩, ⟨false, false, true, true, true⟩,
        ⟨false, true, true, true, true⟩] := by
  refine ⟨_, rfl, ?_⟩
  decide

theorem parentAndChild_truthful :
    ∃ t, parentAndChild.foldlM treeStep (.start 5 4) = some t ∧
      ((∀ call ∈ t.calls, call.Truthful) ↔
        Run.Along treeStep InitOnce (.start 5 4) parentAndChild) ∧
      ∀ call ∈ t.calls, call.Truthful := by
  obtain ⟨t, hrun, hcalls⟩ := parentAndChild_calls
  refine ⟨t, hrun, init_truthful_iff 5 4 parentAndChild t hrun, ?_⟩
  rw [hcalls]
  unfold InitCall.Truthful
  decide

/-- The first call finds no file; the second one does not look for it. -/
def calledAgain : List TreeEvent :=
  [.citadelInit 5 ⟨none, zeros _, fun _ => false⟩, .citadelInit 5 ⟨none, zeros _, fun _ => false⟩]

/-- **A failed call is taken for a registration.** The second call answers
true without a token, and without having tried. -/
theorem calledAgain_untrue :
    ∃ t, calledAgain.foldlM treeStep (.start 5 4) = some t ∧
      t.calls = [⟨false, true, false, false, false⟩, ⟨true, false, true, false, false⟩] ∧
      ¬ ∀ call ∈ t.calls, call.Truthful := by
  have hcalls : (calledAgain.foldlM treeStep (.start 5 4)).map ProcessTree.calls =
      some [⟨false, true, false, false, false⟩, ⟨true, false, true, false, false⟩] := by decide
  obtain ⟨t, hrun, hcalls⟩ := Option.map_eq_some_iff.mp hcalls
  refine ⟨t, hrun, hcalls, ?_⟩
  rw [hcalls]
  unfold InitCall.Truthful
  decide

end Citadel.Libcitadel
