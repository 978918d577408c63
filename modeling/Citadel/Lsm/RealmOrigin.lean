/-
Citadel.Lsm.RealmOrigin — what brings things into the realm, over every run
of the whole module.

Whatever is in the realm has been brought there by a chain of events, each
of which passes the flag on from one thing to another: a label is read from
disk or written to it, a file is created by a tainted task or below a
tainted directory, a ticketed access to a file or segment taints the task
(for segments also the other way), a credential is copied, a tainted task
touches a socket, a socket is copied. The chain starts at something that
was in the realm from the beginning or at a message of the enclave that
registers an inode, and nowhere else (`realm_has_origin`). A segment is
also marked when it is freed.

So until the enclave has labelled something the module is inert: nothing is
in the realm and no access is refused (`inert_until_registered`).
-/
import Citadel.Lib.Origin
import Citadel.Lsm.HookFaults

namespace Citadel

open Bytes

variable {A : Gcm} {rsaDecrypt : List UInt8 → Option (List UInt8)}

/-! ## Origins -/

/-- Over every run of the module from its start: whatever is in the realm
has an origin, a chain of events that passed the flag on, back to a
registration by the enclave, a freed segment, or something that was there
at the start. -/
theorem realm_has_origin {m₀ m : Monitor} (hboot : m₀.system.Booted) {evs : List MonitorEvent}
    (hrun : monitorRun rsaDecrypt A m₀ evs = some m) {x : Place} (hx : m.inRealm x = true) :
    Run.Origin (monitorNext rsaDecrypt A) (fun m x => m.inRealm x = true) (RealmRoot A) RealmPath
      m₀ evs x := by
  have hall : Run.Along (monitorNext rsaDecrypt A) (fun _ _ => True) m₀ evs :=
    .of_forall (fun _ _ h => h) fun _ _ => trivial
  refine Run.Origin.of_run (I := fun m => m.system.kernel.Wf) ?_ ?_ hboot.wf hall hrun hx
  · intro m m' e hwf _ hnext
    exact (monitorNext_moved hwf hnext).wf
  · intro m e hwf _ m' x hnext hx
    exact (monitorNext_moved hwf hnext).passes x hx

/-- The new file is labelled on disk. -/
theorem createOne_has_origin :
    ∃ m, monitorRun (fun _ => none) (Aead.keyTag _ _) unlabelledMonitor (registerZero :: createOne) =
        some m ∧
      Run.Origin (monitorNext (fun _ => none) (Aead.keyTag _ _)) (fun m x => m.inRealm x = true)
        (RealmRoot (Aead.keyTag _ _)) RealmPath unlabelledMonitor (registerZero :: createOne)
        (.disk 1) := by
  have hdisk : (monitorRun (fun _ => none) (Aead.keyTag _ _) unlabelledMonitor
      (registerZero :: createOne)).map (·.inRealm (.disk 1)) = some true := by decide +kernel
  obtain ⟨m, hrun, hx⟩ := Option.map_eq_some_iff.mp hdisk
  exact ⟨m, hrun, realm_has_origin ⟨_, rfl⟩ hrun hx⟩

/-! ## Before the first registration -/

/-- The segments that are freed after an event. -/
def MonitorEvent.frees (f : Nat → Bool) : MonitorEvent → Nat → Bool
  | .shmFree j => Function.update f j true
  | .shmAlloc j _ => Function.update f j false
  | _ => f

def freed (evs : List MonitorEvent) : Nat → Bool := evs.foldl MonitorEvent.frees fun _ => false

theorem freed_concat (evs : List MonitorEvent) (e : MonitorEvent) :
    freed (evs ++ [e]) = e.frees (freed evs) := by
  rw [freed, List.foldl_append]
  rfl

/-- The event is not a call about a segment that is freed. -/
def MonitorEvent.live (f : Nat → Bool) : MonitorEvent → Bool
  | .shm _ _ _ (some j) => !f j
  | _ => true

/-- The kernel makes no such call, from when the segments `f` are freed. -/
def segmentsLive (f : Nat → Bool) : List MonitorEvent → Bool
  | [] => true
  | e :: evs => e.live f && segmentsLive (e.frees f) evs

theorem segmentsLive_concat (f : Nat → Bool) (evs : List MonitorEvent) (e : MonitorEvent) :
    segmentsLive f (evs ++ [e]) =
      (segmentsLive f evs && e.live (evs.foldl MonitorEvent.frees f)) := by
  induction evs generalizing f with
  | nil => simp [segmentsLive]
  | cons e' evs ih => simp only [List.cons_append, segmentsLive, List.foldl_cons, ih, Bool.and_assoc]

/-- The event hands in no registration that the module takes. -/
def Unregistering (A : Gcm) (m : Monitor) (e : MonitorEvent) : Prop := ∀ i, ¬ Registers A m e i

/-- Nothing is in the realm but the segments `f`. -/
def Monitor.Inert (m : Monitor) (f : Nat → Bool) : Prop :=
  ∀ x, m.inRealm x = true → ∃ j, x = .segment j ∧ f j = true

theorem Monitor.Inert.blob {m : Monitor} {f : Nat → Bool} (h : m.Inert f) (i : Nat) :
    (m.system.data i).inRealm = false := by
  refine Bool.eq_false_iff.mpr fun hrealm => ?_
  obtain ⟨j, hj, -⟩ := h (.blob i) hrealm
  cases hj

theorem Monitor.Inert.disk {m : Monitor} {f : Nat → Bool} (h : m.Inert f) (i : Nat) :
    (m.system.disk i).inRealm = false := by
  refine Bool.eq_false_iff.mpr fun hrealm => ?_
  obtain ⟨j, hj, -⟩ := h (.disk i) hrealm
  cases hj

/-- There is no label to be read. -/
theorem Monitor.Inert.unread {m : Monitor} {f : Nat → Bool} (h : m.Inert f) (i : Nat) :
    (m.lsm.system.disk i).inRealm = true → (m.lsm.system.disk i).readable = true := by
  intro hrealm
  rw [show (m.lsm.system.disk i).inRealm = false from h.disk i] at hrealm
  cases hrealm

theorem Monitor.Inert.cred {m : Monitor} {f : Nat → Bool} (h : m.Inert f) (c : Nat) :
    (m.system.kernel.cred c).inRealm = false := by
  refine Bool.eq_false_iff.mpr fun hrealm => ?_
  obtain ⟨j, hj, -⟩ := h (.cred c) hrealm
  cases hj

theorem Monitor.Inert.segment {m : Monitor} {f : Nat → Bool} (h : m.Inert f) {j : Nat}
    (hj : f j = false) : (m.segment j).data.inRealm = false := by
  refine Bool.eq_false_iff.mpr fun hrealm => ?_
  obtain ⟨j', hj', hfreed⟩ := h (.segment j) hrealm
  cases hj'
  rw [hj] at hfreed
  cases hfreed

/-- Only a call on a freed segment takes the realm anywhere. -/
theorem Monitor.Inert.no_path {m : Monitor} {f : Nat → Bool} (h : m.Inert f) {e : MonitorEvent}
    (hlive : e.live f = true) {x y : Place} (hpath : RealmPath m e y x) :
    m.inRealm y = false := by
  cases hpath with
  | fetched _ => exact h.disk _
  | flushed _ => exact h.blob _
  | opened _ _ hy =>
    rcases hy with rfl | rfl
    · exact h.blob _
    · exact h.disk _
  | created hy =>
    rcases hy with rfl | rfl
    · exact h.blob _
    · exact h.cred _
  | copied => exact h.cred _
  | socketCreated => exact h.cred _
  | paired hy _ =>
    rcases hy with rfl | rfl
    · exact h.cred _
    · exact h.blob _
  | socket hy _ =>
    rcases hy with rfl | rfl
    · exact h.cred _
    · exact h.blob _
  | attached _ => exact h.segment (by simpa [MonitorEvent.live] using hlive)
  | shared _ => exact h.cred _

theorem Monitor.Inert.step {m m' : Monitor} {f : Nat → Bool} (h : m.Inert f) {e : MonitorEvent}
    (hwf : m.system.kernel.Wf) (hreg : Unregistering A m e) (hlive : e.live f = true)
    (hnext : monitorNext rsaDecrypt A m e = some m') : m'.Inert (e.frees f) := by
  intro x hx
  rcases (monitorNext_moved hwf hnext).passes x hx with hold | hroot | ⟨y, hpath, hy⟩
  · obtain ⟨j, rfl, hj⟩ := h x hold
    refine ⟨j, rfl, ?_⟩
    cases e with
    | shmFree i =>
      by_cases hi : j = i
      · subst hi
        exact Function.update_self ..
      · exact (Function.update_of_ne hi _ _).trans hj
    | shmAlloc i key =>
      by_cases hi : j = i
      · -- the new segment is out of the realm
        subst hi
        cases hnext
        simp [Monitor.inRealm, Monitor.setSegment, trmIpcAllocSecurity] at hx
      · exact (Function.update_of_ne hi _ _).trans hj
    | _ => exact hj
  · cases hroot with
    | blob hregisters => exact absurd hregisters (hreg _)
    | disk hregisters => exact absurd hregisters (hreg _)
    | freed he =>
      subst he
      exact ⟨_, rfl, Function.update_self ..⟩
  · rw [h.no_path hlive hpath] at hy
    cases hy

theorem inert_run {m₀ m : Monitor} (hwf : m₀.system.kernel.Wf)
    (hclean : ∀ x, m₀.inRealm x = false) {evs : List MonitorEvent}
    (hreg : Run.Along (monitorNext rsaDecrypt A) (Unregistering A) m₀ evs)
    (hlive : segmentsLive (fun _ => false) evs = true)
    (hrun : monitorRun rsaDecrypt A m₀ evs = some m) :
    m.system.kernel.Wf ∧ m.Inert (freed evs) := by
  induction evs using List.reverseRecOn generalizing m with
  | nil =>
    cases hrun
    refine ⟨hwf, ?_⟩
    intro x hx
    rw [hclean] at hx
    cases hx
  | append_singleton evs e ih =>
    obtain ⟨m₁, hrun₁, hlast⟩ := Run.concat_some hrun
    obtain ⟨hreg₁, hregLast⟩ := Run.Along.append_iff.mp hreg
    rw [segmentsLive_concat, Bool.and_eq_true] at hlive
    obtain ⟨hwf₁, hinert₁⟩ := ih hreg₁ hlive.1 hrun₁
    refine ⟨(monitorNext_moved hwf₁ hlast).wf, ?_⟩
    rw [freed_concat]
    exact hinert₁.step hwf₁ (hregLast m₁ hrun₁).1 hlive.2 hlast

/-! ## Open gates -/

/-- The hook may refuse an access, or do nothing but housekeeping; there is
a segment where it is about one. -/
def MonitorEvent.asks : MonitorEvent → Bool
  | .file _ _ _ _ _ => true
  | .ioctl _ _ _ _ => true
  | .attributeRead _ _ _ _ => true
  | .plain _ _ _ => true
  | .socketCreate _ _ _ => true
  | .socketPair _ _ _ _ => true
  | .socket _ _ _ _ => true
  | .shm _ _ _ (some _) => true
  | _ => false

section Open

variable {m : Monitor} {f : Nat → Bool}

theorem Monitor.Inert.file (h : m.Inert f) (hwf : m.system.kernel.Wf) (hook : Hook) (cur : Task)
    (i : Nat) (now : Int) (vfs : VfsResult) :
    ∃ s, hook.call m.system cur i now vfs = some (s, 0) := by
  obtain ⟨d, hprep⟩ := hook.prepare_returns hwf (h.unread i) cur now vfs
  have hdata : (d.data i).inRealm = false := by
    refine Bool.eq_false_iff.mpr fun hrealm => ?_
    rcases hook.prepare_relabelled hprep |>.data i hrealm with hold | ⟨-, hdisk⟩
    · rw [h.blob] at hold
      cases hold
    · rw [h.disk] at hdisk
      cases hdisk
  have htask : (d.task cur).inRealm = false := by
    obtain ⟨k, hrun, -, -, hcred⟩ := taskHousekeeping_wf hwf cur now
    obtain rfl : k = d.kernel :=
      Option.some.inj (hrun.symm.trans (Hook.prepare_spec hprep).kernel)
    exact (hcred cur.cred).1.trans (h.cred _)
  refine ⟨d, ?_⟩
  rw [hook.call_eq, hprep, Option.bind_some, decideAccess, hdata, htask]
  rfl

theorem Monitor.Inert.untainted (h : m.Inert f) {k : Kernel}
    (hcred : ∀ c, (k.cred c).inRealm = (m.system.kernel.cred c).inRealm) (cur : Task) (i : Nat) :
    System.tainted { m.system with kernel := k } cur i = false :=
  System.tainted_eq_false (h.blob i) ((hcred cur.cred).trans (h.cred _))

theorem allowShmAccess_result (s : IpcSystem) (env : ShmEnv) (cur : Task) (key : Key) :
    (allowShmAccess s env cur key).2 = 0 ∨ (allowShmAccess s env cur key).2 = eio := by
  unfold allowShmAccess
  split
  · exact .inl rfl
  · dsimp only
    split
    · exact .inl rfl
    · exact .inr rfl

theorem Monitor.Inert.shm (h : m.Inert f) {j : Nat} (hj : f j = false) (hook : ShmHook)
    (env : ShmEnv) (cur : Task) :
    ∃ s r, hook.call m.ipc env cur (some j) = some (s, r) ∧ (r = 0 ∨ r = eio) := by
  have hcall : hook.call m.ipc env cur (some j) =
      some (allowShmAccess m.ipc env cur (m.segment j).key) := by
    have htask : (m.ipc.system.task cur).inRealm = false := h.cred _
    have hseg : (m.ipc.segment j).data.inRealm = false := h.segment hj
    rw [hook.call_eq, shmCanAccess, htask, hseg]
    rfl
  exact ⟨_, _, hcall, allowShmAccess_result m.ipc env cur (m.segment j).key⟩

/-- With nothing in the realm every hook returns, and lets the caller do
what it wants. -/
theorem Monitor.Inert.open (h : m.Inert f) (hwf : m.system.kernel.Wf) {e : MonitorEvent}
    (hasks : e.asks = true) (hlive : e.live f = true) :
    ∃ m' r, monitorStep rsaDecrypt A m e = some (m', r) ∧ (r = 0 ∨ r = eio) := by
  cases e with
  | file hook cur i now vfs =>
    obtain ⟨s, hcall⟩ := h.file hwf hook cur i now vfs
    exact ⟨_, _, congrArg (Option.map _) hcall, .inl rfl⟩
  | ioctl cur i now vfs =>
    obtain ⟨s, hcall⟩ := trmFileIoctl_returns hwf (h.unread i) cur now vfs
    exact ⟨_, _, congrArg (Option.map _) hcall, .inl rfl⟩
  | attributeRead hook cur i vfs =>
    obtain ⟨s, hcall⟩ := hook.call_returns (h.unread i) cur vfs
    exact ⟨_, _, congrArg (Option.map _) hcall, .inl rfl⟩
  | plain hook cur now =>
    obtain ⟨k, hhouse, -⟩ := housekeep_returns hwf cur now
    have hcall : hook.call m.system cur now = some ({ m.system with kernel := k }, 0) := by
      rw [hook.call_eq, hhouse]
      rfl
    exact ⟨_, _, congrArg (Option.map _) hcall, .inl rfl⟩
  | socketCreate cur i now =>
    obtain ⟨s, hcall⟩ := trmSocketPostCreate_returns hwf cur i now
    exact ⟨_, _, congrArg (Option.map _) hcall, .inl rfl⟩
  | socketPair cur a b now =>
    obtain ⟨k, hhouse, -, hcred⟩ := housekeep_returns hwf cur now
    have hcall : trmSocketSocketpair m.system cur a b now =
        some ({ m.system with kernel := k }, 0) := by
      rw [trmSocketSocketpair, hhouse]
      exact if_neg (Bool.eq_false_iff.mp (h.untainted hcred cur a))
    exact ⟨_, _, congrArg (Option.map _) hcall, .inl rfl⟩
  | socket hook cur i now =>
    obtain ⟨k, hhouse, -, hcred⟩ := housekeep_returns hwf cur now
    have hcall : hook.call m.system cur i now = some ({ m.system with kernel := k }, 0) := by
      rw [hook.call_eq, hhouse, Option.bind_some]
      exact if_neg (Bool.eq_false_iff.mp (h.untainted hcred cur i))
    exact ⟨_, _, congrArg (Option.map _) hcall, .inl rfl⟩
  | shm hook env cur perm =>
    cases perm with
    | none => cases hasks
    | some j =>
      obtain ⟨s, r, hcall, hr⟩ := h.shm (by simpa [MonitorEvent.live] using hlive) hook env cur
      exact ⟨_, _, congrArg (Option.map _) hcall, hr⟩
  | allocInode cur i created => cases hasks
  | initSecurity cur i dir => cases hasks
  | instantiate cur i vfs => cases hasks
  | xattr call => cases hasks
  | initTask c random previous => cases hasks
  | shmAlloc j key => cases hasks
  | shmFree j => cases hasks
  | challengeRead rsaAvailable alloc random => cases hasks
  | challengeWrite copy buf => cases hasks
  | updateWrite copy env buf => cases hasks

end Open

/-- From a start with nothing in the realm and as long as the enclave has
registered nothing, whatever else happens (tickets and challenges
included): nothing but freed segments is in the realm, and every access
is let through. `-EIO` is a failed allocation for a segment. -/
theorem inert_until_registered {m₀ m : Monitor} (hboot : m₀.system.Booted)
    (hclean : ∀ x, m₀.inRealm x = false) {evs : List MonitorEvent}
    (hreg : Run.Along (monitorNext rsaDecrypt A) (Unregistering A) m₀ evs)
    (hlive : segmentsLive (fun _ => false) evs = true)
    (hrun : monitorRun rsaDecrypt A m₀ evs = some m) :
    (∀ x, m.inRealm x = true → ∃ j, x = .segment j ∧ freed evs j = true) ∧
      ∀ e : MonitorEvent, e.asks = true → e.live (freed evs) = true →
        ∃ m' r, monitorStep rsaDecrypt A m e = some (m', r) ∧ (r = 0 ∨ r = eio) := by
  obtain ⟨hwf, hinert⟩ := inert_run hboot.wf hclean hreg hlive hrun
  exact ⟨hinert, fun e hasks he => hinert.open hwf hasks he⟩

/-- The same module before it knows a key. -/
def unkeyedMonitor : Monitor :=
  { unlabelledMonitor with lsm := { unlabelledFile with registered := false } }

/-- The registration is ignored, a file is created, a segment is used and
freed. -/
def beforeRegistration : List MonitorEvent :=
  registerZero :: (createOne ++ [.shm .shmat calmShm ⟨7, 0⟩ (some 0), .shmFree 0])

theorem unkeyedMonitor_inert :
    ∃ m, monitorRun (fun _ => none) (Aead.keyTag _ _) unkeyedMonitor beforeRegistration = some m ∧
      m.inRealm (.segment 0) = true ∧
      ∃ m' r, monitorStep (fun _ => none) (Aead.keyTag _ _) m
        (.file .fileOpen ⟨7, 0⟩ 0 100 ⟨true, true⟩) = some (m', r) ∧ (r = 0 ∨ r = eio) := by
  have hsegment : (monitorRun (fun _ => none) (Aead.keyTag _ _) unkeyedMonitor
      beforeRegistration).map (·.inRealm (.segment 0)) = some true := by decide +kernel
  obtain ⟨m, hrun, hx⟩ := Option.map_eq_some_iff.mp hsegment
  have hreg : Run.Along (monitorNext (fun _ => none) (Aead.keyTag _ _))
      (Unregistering (Aead.keyTag _ _)) unkeyedMonitor beforeRegistration := by
    refine ⟨?_, fun m' _ => .of_forall (Q := fun e => ∀ call, e ≠ .xattr call) ?_ ?_⟩
    · rintro i ⟨cur, value, cap, io, env, vfs, -, hvalue⟩
      cases hvalue.registered
    · rintro m e he i ⟨cur, value, cap, io, env, vfs, heq, -⟩
      exact he _ heq
    · simp [createOne]
  have hclean : ∀ x, unkeyedMonitor.inRealm x = false := by
    intro x
    cases x <;> rfl
  exact ⟨m, hrun, hx, (inert_until_registered ⟨_, rfl⟩ hclean hreg (by decide +kernel) hrun).2 _ rfl
    rfl⟩

end Citadel
