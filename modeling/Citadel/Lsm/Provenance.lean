/-
Citadel.Lsm.Provenance — where rights and taint come from.

Over every run of the module, what a credential has can be followed back
to the event that brought it, with what was the case at that moment:

* a ticket on the ring of a credential waited for a pid, and a task with
  that pid ran on the credential (`QueuesFrom.act`, for whatever is known
  of the tickets that are issued);
* a PTY grant came the same way, or was copied from the credential this
  one was set up from (`PtyFrom`);
* a credential in the realm was let into an inode in the realm with a
  ticket, or into a segment in the realm, or was set up from one that is
  in the realm (`TaintFrom`). A segment gets there by a ticketed access of
  such a credential and in no other way.

An origin is a place in the run, with the state the run had come to there.
Nothing is said about what happened to the ticket or the flag since.
-/
import Citadel.Lsm.LiveTickets
import Citadel.Lsm.ShmGate

namespace Citadel

open SearchTree

/-! ## Tickets -/

/-- Every ticket that waits for a pid satisfies `W`, every ticket on a
ring `G`. -/
structure QueuesFrom (W : Pid → Ticket → Prop) (G : Nat → Ticket → Prop) (q : Queues) :
    Prop where
  pending : ∀ p, ∀ t ∈ q.pending p, W p t
  held : ∀ c, ∀ t ∈ q.held c, G c t

section Step

variable {W W' : Pid → Ticket → Prop} {G G' : Nat → Ticket → Prop} {q : Queues}

theorem QueuesFrom.mono (h : QueuesFrom W G q) (hW : ∀ p t, W p t → W' p t)
    (hG : ∀ c t, G c t → G' c t) : QueuesFrom W' G' q where
  pending := fun p t ht => hW p t (h.pending p t ht)
  held := fun c t ht => hG c t (h.held c t ht)

theorem QueuesFrom.insert (h : QueuesFrom W G q) {now : Int} {r : UpdateRecord}
    (hnew : ∀ t ∈ r.tickets now, W r.pid t) : QueuesFrom W G (q.insert now r) where
  pending := by
    intro p t ht
    simp only [Queues.insert] at ht
    split at ht
    · rename_i hp
      subst hp
      exact (List.mem_append.mp ht).elim (h.pending _ t) (hnew t)
    · exact h.pending p t ht
  held := h.held

/-- The claim moves what waits for the caller's pid to its credential; the
expiry adds nothing. -/
theorem QueuesFrom.housekeep (h : QueuesFrom W G q) {cur : Task}
    (hclaim : ∀ t, W cur.pid t → G cur.cred t) (now : Int) :
    QueuesFrom W G (q.housekeep cur now) := by
  unfold Queues.housekeep
  split
  · refine ⟨fun p t ht => ?_, fun c t ht => ?_⟩
    · simp only [Queues.expire, Queues.claim] at ht
      split at ht
      · cases ht
      · exact h.pending p t ht
    · simp only [Queues.expire, Queues.claim] at ht
      split at ht
      · rename_i hc
        subst hc
        rcases List.mem_append.mp ((expire_sublist _ _).subset ht) with hold | hnew
        · exact h.held _ t hold
        · exact hclaim t (h.pending _ t hnew)
      · exact h.held c t ht
  · exact h

theorem QueuesFrom.reset (h : QueuesFrom W G q) (c : Nat) (pty : Bool) :
    QueuesFrom W G (q.reset c pty) where
  pending := h.pending
  held := by
    intro m t ht
    by_cases hm : m = c
    · subst hm
      simp [Queues.reset] at ht
    · simp only [Queues.reset, Function.update_of_ne hm] at ht
      exact h.held m t ht

/-- An event, with what is known afterwards: of the tickets it issues, and
of those its caller claims. -/
theorem QueuesFrom.act (h : QueuesFrom W G q) (reserved : Pid → Bool) (e : LsmEvent)
    (hW : ∀ p t, W p t → W' p t) (hG : ∀ c t, G c t → G' c t)
    (hissue : ∀ p, ∀ t ∈ e.ticketsFor reserved p, W' p t)
    (hclaim : ∀ cur, e.caller = some cur → ∀ t, W cur.pid t → G' cur.cred t) :
    QueuesFrom W' G' (e.act reserved q) := by
  cases e with
  | insertTicket rb allocs now r =>
    rw [LsmEvent.act]
    cases hr : r.received (reserved r.pid) allocs with
    | none => exact h.mono hW hG
    | some r' =>
      have hpid := UpdateRecord.received_pid hr
      refine (h.mono hW hG).insert fun t ht => hissue r'.pid t ?_
      simpa [LsmEvent.ticketsFor, hpid, hr] using ht
  | hook hook cur i now vfs =>
    have h' : QueuesFrom W G' q := h.mono (fun _ _ => id) hG
    exact (h'.housekeep (hclaim cur rfl) now).mono hW fun _ _ => id
  | housekeeping cur now =>
    have h' : QueuesFrom W G' q := h.mono (fun _ _ => id) hG
    exact (h'.housekeep (hclaim cur rfl) now).mono hW fun _ _ => id
  | initTask cred random previous => exact (h.mono hW hG).reset _ _
  | labels data disk citadelPid => exact h.mono hW hG

end Step

theorem QueuesFrom.boot {s : System} (hboot : s.Booted) (W : Pid → Ticket → Prop)
    (G : Nat → Ticket → Prop) : s.kernel.Keyed ∧ QueuesFrom W G s.kernel.queues := by
  obtain ⟨cred, hcred⟩ := hboot
  rw [hcred]
  refine ⟨Kernel.boot_keyed cred, ?_, ?_⟩
  · intro p t ht
    cases ht
  · intro c t ht
    cases ht

/-- A protected inode, outside the exempt classes, that a pid above 1 was
let into: the ticket for it was on the ring of the caller before the
housekeeping, or waited for its pid, and was alive. -/
theorem granted_from_purse {s s₁ s' : System} (hk : s.kernel.Keyed) {hook : Hook} {cur : Task}
    {i : Nat} {now : Int} {vfs : VfsResult} (hpid : 1 < cur.pid.toInt)
    (hprep : hook.prepare s cur i now vfs = some s₁)
    (hcall : hook.call s cur i now vfs = some (s', 0))
    (hprotected : s₁.unprotected cur i = false) (hexempt : s₁.exempt cur i = false)
    (hpipe : s₁.ownPipe cur i = false) :
    ∃ t ∈ s.kernel.queues.purse cur.pid cur.cred,
      t.permits (s₁.data i).identifier opOpen = true ∧ expiryThreshold now < t.timestamp := by
  obtain ⟨k, hhouse, hkeyed, hq⟩ := taskHousekeeping_refines hk cur now
  have hs₁ : s₁.kernel = k := by
    rw [(Hook.prepare_spec hprep).kernel, Option.some.injEq] at hhouse
    exact hhouse
  rw [Hook.call_eq, hprep, Option.bind_some,
    decideAccess_eq (by rw [hs₁]; exact hkeyed.ringed), hprotected, hexempt, hpipe] at hcall
  simp only [Bool.or_false, Bool.false_eq_true, if_false, Option.some.injEq] at hcall
  split at hcall
  · rename_i hticket
    have hring : s₁.kernel.tickets (.task cur.cred) =
        expire (expiryThreshold now) (s.kernel.queues.purse cur.pid cur.cred) := by
      rw [hs₁, show k.tickets (.task cur.cred) = k.queues.held cur.cred from rfl, hq]
      simp [Queues.housekeep, hpid, Queues.claim, Queues.expire, Queues.purse]
    rw [System.ticketed, Bool.and_eq_true, hring] at hticket
    obtain ⟨t, ht, hpermits, hlive⟩ := scanList_expire hticket.2
    exact ⟨t, (expire_sublist _ _).subset ht, hpermits, hlive⟩
  · cases hcall

/-! ## PTY grants -/

/-- After the events `pre`, the run goes on with an event of this task. -/
def RunsAfter (cur : Task) (pre evs : List LsmEvent) : Prop :=
  ∃ e post, evs = pre ++ e :: post ∧ e.caller = some cur

theorem RunsAfter.concat {cur : Task} {pre evs : List LsmEvent} (h : RunsAfter cur pre evs)
    (e : LsmEvent) : RunsAfter cur pre (evs ++ [e]) := by
  obtain ⟨e', post, rfl, hcaller⟩ := h
  exact ⟨e', post ++ [e], by simp, hcaller⟩

theorem RunsAfter.last {cur : Task} {e : LsmEvent} (h : e.caller = some cur)
    (evs : List LsmEvent) : RunsAfter cur evs (evs ++ [e]) :=
  ⟨e, [], rfl, h⟩

/-- A PTY record was inserted for `p`, and found the node of the pid or
memory for one. -/
def PtyIssued (s₀ : System) (p : Pid) (evs : List LsmEvent) : Prop :=
  ∃ pre post s rb allocs now r, evs = pre ++ .insertTicket rb allocs now r :: post ∧
    lsmRun s₀ pre = some s ∧ r.pid = p ∧ r.operation.has opPtyAccess = true ∧
    (s.kernel.reserved p || allocs.node) = true

theorem PtyIssued.concat {s₀ : System} {p : Pid} {evs : List LsmEvent} (h : PtyIssued s₀ p evs)
    (e : LsmEvent) : PtyIssued s₀ p (evs ++ [e]) := by
  obtain ⟨pre, post, s, rb, allocs, now, r, rfl, hins⟩ := h
  exact ⟨pre, post ++ [e], s, rb, allocs, now, r, by simp, hins⟩

/-- How a credential comes by a PTY grant. -/
inductive PtyFrom (s₀ : System) : List LsmEvent → Nat → Prop
  | loaded {evs : List LsmEvent} {c : Nat} :
      (s₀.kernel.cred c).grantedPty = true → PtyFrom s₀ evs c
  | granted {evs pre : List LsmEvent} {c : Nat} {p : Pid} :
      PtyIssued s₀ p pre → RunsAfter ⟨p, c⟩ pre evs → PtyFrom s₀ evs c
  /-- The credential it was set up from had one at that moment. -/
  | copied {pre post : List LsmEvent} {s : System} {c c' : Nat} {random : Identifier} :
      lsmRun s₀ pre = some s → (s.kernel.cred c').grantedPty = true → PtyFrom s₀ pre c' →
      PtyFrom s₀ (pre ++ .initTask c random (some c') :: post) c

theorem PtyFrom.concat {s₀ : System} {evs : List LsmEvent} {c : Nat} (h : PtyFrom s₀ evs c)
    (e : LsmEvent) : PtyFrom s₀ (evs ++ [e]) c := by
  cases h with
  | loaded h₀ => exact .loaded h₀
  | granted hissued hruns => exact .granted hissued (hruns.concat e)
  | copied hrun hpty hfrom =>
    rw [List.append_assoc, List.cons_append]
    exact .copied hrun hpty hfrom

/-- Every grant has an origin: those that wait, an insertion; those of a
credential, one of the three. -/
structure GrantsFrom (s₀ : System) (evs : List LsmEvent) (q : Queues) : Prop where
  pending : ∀ p, q.ptyPending p = true → PtyIssued s₀ p evs
  held : ∀ c, q.ptyHeld c = true → PtyFrom s₀ evs c

section Step

variable {s₀ s : System} {evs : List LsmEvent} {q : Queues}

theorem GrantsFrom.concat (h : GrantsFrom s₀ evs q) (e : LsmEvent) :
    GrantsFrom s₀ (evs ++ [e]) q where
  pending := fun p hp => (h.pending p hp).concat e
  held := fun c hc => (h.held c hc).concat e

theorem GrantsFrom.insert (h : GrantsFrom s₀ evs q) (hrun : lsmRun s₀ evs = some s)
    (rb : Rebalance Nat) {allocs : Allocs} (now : Int) {r r' : UpdateRecord}
    (hr : r.received (s.kernel.reserved r.pid) allocs = some r') :
    GrantsFrom s₀ (evs ++ [.insertTicket rb allocs now r]) (q.insert now r') where
  pending := by
    intro p hp
    simp only [Queues.insert, Bool.or_eq_true, Bool.and_eq_true, decide_eq_true_eq] at hp
    rcases hp with hold | ⟨rfl, hop⟩
    · exact (h.concat _).pending p hold
    · rw [UpdateRecord.received_pid hr]
      exact ⟨evs, [], s, rb, allocs, now, r, rfl, hrun, rfl, UpdateRecord.received_pty hr hop,
        UpdateRecord.received_node hr⟩
  held := (h.concat _).held

theorem GrantsFrom.housekeep (h : GrantsFrom s₀ evs q) {e : LsmEvent} {cur : Task}
    (hcaller : e.caller = some cur) (now : Int) :
    GrantsFrom s₀ (evs ++ [e]) (q.housekeep cur now) := by
  unfold Queues.housekeep
  split
  · refine ⟨fun p hp => ?_, fun c hc => ?_⟩
    · simp only [Queues.expire, Queues.claim, Bool.and_eq_true] at hp
      exact (h.concat e).pending p hp.1
    · simp only [Queues.expire, Queues.claim, Bool.or_eq_true, Bool.and_eq_true,
        decide_eq_true_eq] at hc
      rcases hc with hold | ⟨rfl, hnew⟩
      · exact (h.concat e).held c hold
      · exact .granted (h.pending cur.pid hnew) (RunsAfter.last hcaller evs)
  · exact h.concat e

theorem GrantsFrom.reset (h : GrantsFrom s₀ evs s.kernel.queues) (hrun : lsmRun s₀ evs = some s)
    (c : Nat) (random : Identifier) (previous : Option Nat) :
    GrantsFrom s₀ (evs ++ [.initTask c random previous])
      (s.kernel.queues.reset c (previous.elim false s.kernel.queues.ptyHeld)) where
  pending := (h.concat _).pending
  held := by
    intro m hm
    by_cases hc : m = c
    · subst hc
      cases previous with
      | none => simp [Queues.reset] at hm
      | some c' =>
        have hc' : s.kernel.queues.ptyHeld c' = true := by simpa [Queues.reset] using hm
        exact .copied hrun hc' (h.held c' hc')
    · simp only [Queues.reset, Function.update_of_ne hc] at hm
      exact (h.concat _).held m hm

theorem GrantsFrom.act (h : GrantsFrom s₀ evs s.kernel.queues) (hrun : lsmRun s₀ evs = some s)
    (e : LsmEvent) :
    GrantsFrom s₀ (evs ++ [e]) (e.act s.kernel.reserved s.kernel.queues) := by
  cases e with
  | insertTicket rb allocs now r =>
    rw [LsmEvent.act]
    cases hr : r.received (s.kernel.reserved r.pid) allocs with
    | none => exact h.concat _
    | some r' => exact h.insert hrun rb now hr
  | hook hook cur i now vfs => exact h.housekeep rfl now
  | housekeeping cur now => exact h.housekeep rfl now
  | initTask cred random previous => exact h.reset hrun cred random previous
  | labels data disk citadelPid => exact h.concat _

end Step

theorem grantsFrom_run {s₀ s : System} (hboot : s₀.Booted) {evs : List LsmEvent}
    (hrun : lsmRun s₀ evs = some s) (hpids : RecordPidsNonneg evs) :
    s.kernel.Keyed ∧ GrantsFrom s₀ evs s.kernel.queues := by
  induction evs using List.reverseRecOn generalizing s with
  | nil =>
    cases hrun
    obtain ⟨cred, hcred⟩ := hboot
    refine ⟨by rw [hcred]; exact Kernel.boot_keyed cred, ?_, fun c hc => .loaded hc⟩
    intro p hp
    rw [hcred] at hp
    cases hp
  | append_singleton evs e ih =>
    obtain ⟨s₁, hrun₁, hlast⟩ := lsmRun_concat_some hrun
    obtain ⟨hkeyed, hgrants⟩ :=
      ih hrun₁ fun rb a now r hm => hpids rb a now r (List.mem_append_left _ hm)
    obtain ⟨hkeyed', hq⟩ := lsmStep_queues hkeyed
      (fun rb a now r hm => hpids rb a now r (List.mem_append_right _ hm)) hlast
    rw [hq]
    exact ⟨hkeyed', hgrants.act hrun₁ e⟩

/-- Whenever a credential has a PTY grant, there was an insertion of a PTY
record for a pid that ran on it afterwards, or the credential it was set
up from had one at that moment, or it was there when the module was
loaded. -/
theorem pty_grant_has_origin {s₀ s : System} (hboot : s₀.Booted) {evs : List LsmEvent}
    (hrun : lsmRun s₀ evs = some s) (hpids : RecordPidsNonneg evs) {c : Nat}
    (hpty : (s.kernel.cred c).grantedPty = true) : PtyFrom s₀ evs c :=
  (grantsFrom_run hboot hrun hpids).2.held c hpty

/-- A PTY for pid 7, which claims it on credential 0; credential 1 is set
up from that one. -/
def ptyCopied : List LsmEvent :=
  [.insertTicket .none .ok 100 ⟨7, Bytes.fill _ 9, opPtyAccess⟩, .housekeeping ⟨7, 0⟩ 200,
    .initTask 1 (Bytes.fill _ 1) (some 0)]

theorem ptyCopied_has_origin :
    ∃ s, lsmRun secretFile ptyCopied = some s ∧ PtyFrom secretFile ptyCopied 1 := by
  obtain ⟨s, hrun, hpty⟩ := Option.map_eq_some_iff.mp
    (show (lsmRun secretFile ptyCopied).map (fun s => (s.kernel.cred 1).grantedPty) = some true
      by decide)
  have hpids : RecordPidsNonneg ptyCopied := by
    intro rb a now r hm
    simp only [ptyCopied, List.mem_cons, LsmEvent.insertTicket.injEq, reduceCtorEq, or_false,
      List.not_mem_nil] at hm
    obtain ⟨-, -, -, rfl⟩ := hm
    decide
  exact ⟨s, hrun, pty_grant_has_origin ⟨_, rfl⟩ hrun hpids hpty⟩

/-! ## Taint -/

/-- What can be in the realm besides an inode. -/
inductive Holder where
  | cred (c : Nat)
  | segment (j : Nat)
  deriving DecidableEq

def IpcSystem.tainted (s : IpcSystem) : Holder → Bool
  | .cred c => (s.system.kernel.cred c).inRealm
  | .segment j => (s.segment j).data.inRealm

/-- The caller has a ticket for the segment that the scan gets to. -/
def IpcSystem.ticketed (s : IpcSystem) (cur : Task) (j : Nat) : Bool :=
  scanList (s.segment j).data.identifier opShm 0 (s.ring cur)

/-- How a credential or a segment comes into the realm. Where it comes from
another, that one was in the realm at the moment. -/
inductive TaintFrom (s₀ : IpcSystem) : List IpcEvent → Holder → Prop
  | loaded {evs : List IpcEvent} {x : Holder} : s₀.tainted x = true → TaintFrom s₀ evs x
  /-- A ticketed access to an inode that is in the realm at the decision. -/
  | inode {pre post : List IpcEvent} {s : IpcSystem} {d : System} {hook : Hook} {cur : Task}
      {i : Nat} {now : Int} {vfs : VfsResult} :
      ipcRun s₀ pre = some s → hook.prepare s.system cur i now vfs = some d →
      (d.data i).inRealm = true → d.ticketed cur i opOpen = true →
      TaintFrom s₀ (pre ++ .lsm (.hook hook cur i now vfs) :: post) (.cred cur.cred)
  | copied {pre post : List IpcEvent} {s : IpcSystem} {c c' : Nat} {random : Identifier} :
      ipcRun s₀ pre = some s → s.tainted (.cred c') = true → TaintFrom s₀ pre (.cred c') →
      TaintFrom s₀ (pre ++ .lsm (.initTask c random (some c')) :: post) (.cred c)
  /-- A ticketed access to a segment: from the segment to the caller, -/
  | attached {pre post : List IpcEvent} {s : IpcSystem} {hook : ShmHook} {env : ShmEnv}
      {cur : Task} {j : Nat} :
      ipcRun s₀ pre = some s → s.ticketed cur j = true → s.tainted (.segment j) = true →
      TaintFrom s₀ pre (.segment j) →
      TaintFrom s₀ (pre ++ .shm hook env cur (some j) :: post) (.cred cur.cred)
  /-- and from the caller to the segment. -/
  | shared {pre post : List IpcEvent} {s : IpcSystem} {hook : ShmHook} {env : ShmEnv}
      {cur : Task} {j : Nat} :
      ipcRun s₀ pre = some s → s.ticketed cur j = true → s.tainted (.cred cur.cred) = true →
      TaintFrom s₀ pre (.cred cur.cred) →
      TaintFrom s₀ (pre ++ .shm hook env cur (some j) :: post) (.segment j)

theorem TaintFrom.concat {s₀ : IpcSystem} {evs : List IpcEvent} {x : Holder}
    (h : TaintFrom s₀ evs x) (e : IpcEvent) : TaintFrom s₀ (evs ++ [e]) x := by
  cases h with
  | loaded h₀ => exact .loaded h₀
  | inode hrun hprep hrealm hticket =>
    rw [List.append_assoc, List.cons_append]
    exact .inode hrun hprep hrealm hticket
  | copied hrun htaint hfrom =>
    rw [List.append_assoc, List.cons_append]
    exact .copied hrun htaint hfrom
  | attached hrun hticket htaint hfrom =>
    rw [List.append_assoc, List.cons_append]
    exact .attached hrun hticket htaint hfrom
  | shared hrun hticket htaint hfrom =>
    rw [List.append_assoc, List.cons_append]
    exact .shared hrun hticket htaint hfrom

/-- A decision that brings a credential into the realm. -/
theorem decideAccess_taints {s s' : System} (hrd : s.kernel.Ringed) {cur : Task} {i c : Nat}
    {r : Int} (h : decideAccess s cur i = some (s', r)) (hold : (s.kernel.cred c).inRealm = false)
    (hnew : (s'.kernel.cred c).inRealm = true) :
    cur.cred = c ∧ (s.data i).inRealm = true ∧ s.ticketed cur i opOpen = true := by
  have hne : s' ≠ s := by
    rintro rfl
    rw [hold] at hnew
    cases hnew
  rw [decideAccess_eq hrd, Option.some.injEq] at h
  split at h
  · cases h
    exact absurd rfl hne
  · split at h
    · rename_i hticket
      split at h
      · rename_i hrealm
        cases h
        refine ⟨?_, hrealm, hticket⟩
        by_contra hc
        rw [System.taint, Kernel.setCred] at hnew
        simp [Function.update_of_ne (Ne.symm hc), hold] at hnew
      · cases h
        exact absurd rfl hne
    · cases h
      exact absurd rfl hne

/-- An event of the module that brings a credential into the realm. -/
theorem lsmStep_taints {s s' : System} {e : LsmEvent} {c : Nat} (hwf : s.kernel.Wf)
    (hstep : lsmStep s e = some s') (hold : (s.kernel.cred c).inRealm = false)
    (hnew : (s'.kernel.cred c).inRealm = true) :
    (∃ hook cur i now vfs d, e = .hook hook cur i now vfs ∧ cur.cred = c ∧
      hook.prepare s cur i now vfs = some d ∧ (d.data i).inRealm = true ∧
      d.ticketed cur i opOpen = true) ∨
    ∃ random c', e = .initTask c random (some c') ∧ (s.kernel.cred c').inRealm = true := by
  cases e with
  | insertTicket rb allocs now r =>
    obtain ⟨⟨k, success⟩, hins, hs⟩ := Option.bind_eq_some_iff.mp hstep
    cases hs
    rw [(insertTicket_some hwf hins).2.1, hold] at hnew
    cases hnew
  | hook hook cur i now vfs =>
    obtain ⟨⟨s₂, r⟩, hcall, hs⟩ := Option.bind_eq_some_iff.mp hstep
    cases hs
    obtain ⟨d, hprep, hp, hwf', hdec, -⟩ := Hook.call_cases hwf hcall
    obtain ⟨k, hrun, -, -, hcred⟩ := taskHousekeeping_wf hwf cur now
    rw [hp.kernel, Option.some.injEq] at hrun
    have hold' : (d.kernel.cred c).inRealm = false := by rw [hrun, (hcred c).1, hold]
    obtain ⟨hc, hrealm, hticket⟩ := decideAccess_taints hwf'.ringed hdec hold' hnew
    exact .inl ⟨hook, cur, i, now, vfs, d, rfl, hc, hprep, hrealm, hticket⟩
  | housekeeping cur now =>
    obtain ⟨k, hrun, -, -, hcred⟩ := taskHousekeeping_wf hwf cur now
    simp only [lsmStep, hrun, Option.bind_eq_bind, Option.bind_some, Option.some.injEq] at hstep
    subst hstep
    rw [(hcred c).1, hold] at hnew
    cases hnew
  | initTask cred random previous =>
    cases hstep
    by_cases hc : c = cred
    · subst hc
      cases previous with
      | none => simp [Kernel.setCred, initTaskTrm] at hnew
      | some c' =>
        refine .inr ⟨random, c', rfl, ?_⟩
        simpa [Kernel.setCred, initTaskTrm] using hnew
    · simp [Kernel.setCred, hc, hold] at hnew
  | labels data disk citadelPid =>
    cases hstep
    rw [hold] at hnew
    cases hnew

theorem IpcSystem.tainted_congr {s s' : IpcSystem} (hsys : s'.system = s.system)
    (hseg : s'.segment = s.segment) : s'.tainted = s.tainted := by
  funext x
  cases x with
  | cred c => rw [IpcSystem.tainted, IpcSystem.tainted, hsys]
  | segment j => rw [IpcSystem.tainted, IpcSystem.tainted, hseg]

/-- A ticketed access taints no third party. -/
theorem level_taints {s : IpcSystem} {cur : Task} {j : Nat} {x : Holder}
    (hold : s.tainted x = false) (hnew : (s.level cur j).tainted x = true) :
    x = .cred cur.cred ∧ s.tainted (.segment j) = true ∨
      x = .segment j ∧ s.tainted (.cred cur.cred) = true := by
  obtain ⟨htask, hsegment⟩ := level_taint s cur j
  cases x with
  | cred c =>
    by_cases hc : c = cur.cred
    · subst hc
      have hunion : ((s.system.task cur).inRealm || (s.segment j).data.inRealm) = true :=
        htask.symm.trans hnew
      have hclear : (s.system.task cur).inRealm = false := hold
      rw [hclear, Bool.false_or] at hunion
      exact .inl ⟨rfl, hunion⟩
    · obtain ⟨d, hkernel, -⟩ := level_kernel s cur j
      rw [IpcSystem.tainted, hkernel, Kernel.setCred] at hnew
      simp only [Function.update_of_ne hc] at hnew
      exact absurd (hold.symm.trans hnew) Bool.false_ne_true
  | segment k =>
    by_cases hk : k = j
    · subst hk
      have hunion : ((s.system.task cur).inRealm || (s.segment k).data.inRealm) = true :=
        hsegment.symm.trans hnew
      have hclear : (s.segment k).data.inRealm = false := hold
      rw [hclear, Bool.or_false] at hunion
      exact .inr ⟨rfl, hunion⟩
    · simp only [IpcSystem.tainted, IpcSystem.level, Function.update_of_ne hk] at hnew
      exact absurd (hold.symm.trans hnew) Bool.false_ne_true

/-- A call of a shared memory hook that brings something into the realm. -/
theorem ShmHook.call_taints {hook : ShmHook} {s s' : IpcSystem} {env : ShmEnv} {cur : Task}
    {perm : Option Nat} {r : Int} (hwf : s.system.kernel.Wf) {x : Holder}
    (hcall : hook.call s env cur perm = some (s', r)) (hold : s.tainted x = false)
    (hnew : s'.tainted x = true) :
    ∃ j, perm = some j ∧ s.ticketed cur j = true ∧
      (x = .cred cur.cred ∧ s.tainted (.segment j) = true ∨
        x = .segment j ∧ s.tainted (.cred cur.cred) = true) := by
  rw [ShmHook.call_eq] at hcall
  -- without a ticket nothing changes but the record of inhabitants
  have hchanged : ¬ (s'.system = s.system ∧ s'.segment = s.segment) := by
    rintro ⟨hsys, hseg⟩
    rw [IpcSystem.tainted_congr hsys hseg, hold] at hnew
    cases hnew
  cases perm with
  | none => cases hcall
  | some j =>
    rw [shmCanAccess_eq hwf.ringed] at hcall
    split at hcall
    · split at hcall
      · cases hcall
      · split at hcall
        · rename_i hticket
          obtain ⟨hsys, hseg⟩ := allowShmAccess_frame (Option.some.inj hcall)
          rw [IpcSystem.tainted_congr hsys hseg] at hnew
          exact ⟨j, rfl, hticket, level_taints hold hnew⟩
        · cases hcall
          exact absurd ⟨rfl, rfl⟩ hchanged
    · exact absurd (allowShmAccess_frame (Option.some.inj hcall)) hchanged

/-- What an event brings into the realm has an origin, if all that was
there before has one. -/
theorem TaintFrom.step {s₀ s s' : IpcSystem} {evs : List IpcEvent} {e : IpcEvent}
    (hrun : ipcRun s₀ evs = some s) (hwf : s.system.kernel.Wf)
    (h : ∀ x, s.tainted x = true → TaintFrom s₀ evs x) (hstep : ipcStep s e = some s')
    {x : Holder} (hx : s'.tainted x = true) : TaintFrom s₀ (evs ++ [e]) x := by
  by_cases hbefore : s.tainted x = true
  · exact (h x hbefore).concat e
  have hold : s.tainted x = false := Bool.eq_false_iff.mpr hbefore
  cases e with
  | shm hook env cur perm =>
    obtain ⟨⟨s₁, r⟩, hcall, hs⟩ := Option.bind_eq_some_iff.mp hstep
    cases hs
    obtain ⟨j, rfl, hticket, ⟨rfl, hfrom⟩ | ⟨rfl, hfrom⟩⟩ := hook.call_taints hwf hcall hold hx
    · exact .attached hrun hticket hfrom (h _ hfrom)
    · exact .shared hrun hticket hfrom (h _ hfrom)
  | lsm e =>
    obtain ⟨s₁, hlsm, hs⟩ := Option.bind_eq_some_iff.mp hstep
    cases hs
    cases x with
    | segment j => exact absurd hx hbefore
    | cred c =>
      obtain ⟨hook, cur, i, now, vfs, d, rfl, rfl, hprep, hrealm, hticket⟩ |
        ⟨random, c', rfl, hfrom⟩ := lsmStep_taints hwf hlsm hold hx
      · exact .inode hrun hprep hrealm hticket
      · exact .copied hrun hfrom (h (.cred c') hfrom)

/-- Over every run from the loaded module: whatever is in the realm at the
end, credential or segment, has come there by a chain of ticketed accesses
and copies of credentials that starts at an inode of the realm or at
something that was in the realm from the start. -/
theorem taint_has_origin {s₀ s : IpcSystem} (hboot : s₀.system.Booted) {evs : List IpcEvent}
    (hrun : ipcRun s₀ evs = some s) {x : Holder} (hx : s.tainted x = true) :
    TaintFrom s₀ evs x := by
  induction evs using List.reverseRecOn generalizing s x with
  | nil =>
    cases hrun
    exact .loaded hx
  | append_singleton evs e ih =>
    obtain ⟨s₁, hrun₁, hlast⟩ := Run.concat_some hrun
    exact TaintFrom.step hrun₁ (ipcRun_wf hboot hrun₁) (fun _ hx => ih hrun₁ hx) hlast hx

/-- The secret file, and fresh segments with key 9. -/
def secretShared : IpcSystem := { freshSegment with system := secretFile }

/-- Pid 7 opens the secret file and attaches the segment, then pid 8
attaches it, each with a ticket. -/
def taintPassedOn : List IpcEvent :=
  [.lsm secretTicket, .lsm (.hook .fileOpen ⟨7, 0⟩ 0 200 ⟨true, true⟩),
    .lsm (.insertTicket .none .ok 300 ⟨7, keyIdentifier 9, opShm⟩),
    .lsm (.housekeeping ⟨7, 0⟩ 400),
    .shm .shmat calmShm ⟨7, 0⟩ (some 0),
    .lsm (.insertTicket .none .ok 500 ⟨8, keyIdentifier 9, opShm⟩),
    .lsm (.housekeeping ⟨8, 1⟩ 600),
    .shm .shmat calmShm ⟨8, 1⟩ (some 0)]

theorem taintPassedOn_has_origin :
    ∃ s, ipcRun secretShared taintPassedOn = some s ∧
      TaintFrom secretShared taintPassedOn (.cred 1) := by
  obtain ⟨s, hrun, htaint⟩ := Option.map_eq_some_iff.mp
    (show (ipcRun secretShared taintPassedOn).map (fun s => s.tainted (.cred 1)) = some true
      by decide +kernel)
  exact ⟨s, hrun, taint_has_origin ⟨_, rfl⟩ hrun htaint⟩

end Citadel
