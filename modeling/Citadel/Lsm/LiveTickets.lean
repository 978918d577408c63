/-
Citadel.Lsm.LiveTickets — tickets and time: no access without a ticket
that is still alive, and what it takes for a live ticket to be honoured.

Both rest on the same picture of the ring after the housekeeping of the
call. The expiry leaves a ring whose FIRST ticket is alive, or none at
all; the scan only ever steps to a younger ticket. So whatever it finds is
alive, in whatever order the rest of the ring is. It need not find
everything: a ticket that is not younger than the one before stops the
scan, and stops the expiry loop too.
-/
import Citadel.Lsm.SystemRun

namespace Citadel

open RingHeap

/-! ## What the scan finds is alive -/

/-- The scan does not go back in time: what it finds is at least as young
as the first ticket. -/
theorem scanList_young {identifier : Identifier} {op : Operation} {l : List Ticket} :
    ∀ {tracker : Int}, scanList identifier op tracker l = true →
      ∃ t ∈ l, t.permits identifier op = true ∧ tracker < t.timestamp ∧
        ∀ a ∈ l.head?, a.timestamp ≤ t.timestamp := by
  induction l with
  | nil => intro tracker h; simp [scanList] at h
  | cons a rest ih =>
    intro tracker h
    unfold scanList at h
    split at h
    · rename_i hyoung
      rcases Bool.or_eq_true _ _ |>.mp h with ha | hrest
      · exact ⟨a, List.mem_cons_self, ha, hyoung, by simp⟩
      · obtain ⟨t, ht, hp, hlt, -⟩ := ih hrest
        refine ⟨t, List.mem_cons_of_mem a ht, hp, by omega, ?_⟩
        intro b hb
        obtain rfl : a = b := by simpa using hb
        omega
    · cases h

/-- The first ticket the expiry leaves is alive. -/
theorem expire_head {threshold : Int} {l : List Ticket} :
    ∀ a ∈ (expire threshold l).head?, threshold < a.timestamp := by
  unfold expire
  split
  · intro a ha
    cases ha
  · split
    · intro a ha
      cases ha
    · rename_i t rest _ hyoung
      intro a ha
      obtain rfl : t = a := by simpa using ha
      omega

/-- A permitting ticket found after the expiry is alive. -/
theorem scanList_expire {identifier : Identifier} {op : Operation} {threshold : Int}
    {l : List Ticket} (h : scanList identifier op 0 (expire threshold l) = true) :
    ∃ t ∈ expire threshold l, t.permits identifier op = true ∧ threshold < t.timestamp := by
  obtain ⟨t, ht, hp, -, hle⟩ := scanList_young h
  cases hhead : (expire threshold l).head? with
  | none =>
    rw [List.head?_eq_none_iff.mp hhead] at ht
    cases ht
  | some a =>
    have hale := hle a hhead
    have ha := expire_head a hhead
    exact ⟨t, ht, hp, by omega⟩

/-! ## No access without a live ticket -/

/-- In every state a run can reach, for every call of a file hook by a
pid above 1: the housekeeping of the task and the decision come to an
end, as does a scan of any ring with any timestamps; and if the call
allows access to an inode that is then in the realm and in no exempt
class, the ring holds at that moment a ticket for that identifier and
operation younger than 15 seconds, and the caller is tainted
afterwards. -/
theorem no_access_without_live_ticket {s₀ s : System} (hboot : s₀.Booted)
    {evs : List LsmEvent} (hrun : lsmRun s₀ evs = some s) (hook : Hook) (cur : Task) (i : Nat)
    (now : Int) (vfs : VfsResult) (hpid : 1 < cur.pid.toInt) :
    (∀ (h : Heap Ticket) ps a identifier op, IsRing h ps → ps.head? = some a →
      ∃ found, ∀ fuel, h.fresh < fuel → scanTickets h identifier op fuel a 0 = some found) ∧
    (∃ k, taskHousekeeping s.kernel cur now = some k) ∧
    (∀ s₁, hook.prepare s cur i now vfs = some s₁ →
      ∃ s' r, hook.call s cur i now vfs = some (s', r) ∧ decideAccess s₁ cur i = some (s', r)) ∧
    ∀ s', hook.call s cur i now vfs = some (s', 0) →
      ∃ s₁, hook.prepare s cur i now vfs = some s₁ ∧ decideAccess s₁ cur i = some (s', 0) ∧
        (2 ≤ (s₁.inode i).ino → (s₁.data i).inRealm = true → s₁.exempt cur i = false →
          s₁.ownPipe cur i = false →
          (∃ t ∈ s₁.kernel.tickets (.task cur.cred),
            t.timestamp > now - 15 * 1000000000 ∧ t.identifier = (s₁.data i).identifier ∧
            t.operation &&& opOpen ≠ 0) ∧
          (s'.task cur).inRealm = true) := by
  have hwf := lsmRun_wf hboot hrun
  obtain ⟨k, hk, hkwf, hexp, -⟩ := taskHousekeeping_wf hwf cur now
  refine ⟨?_, ⟨k, hk⟩, ?_, ?_⟩
  · intro h ps a identifier op hr ha
    exact ⟨_, fun fuel hfuel => scanTickets_ring hr ha identifier op hfuel⟩
  · intro s₁ hprep
    have hp := Hook.prepare_spec hprep
    have hs₁ : s₁.kernel = k := by rw [hp.kernel, Option.some.injEq] at hk; exact hk
    have hdec := decideAccess_eq (s := s₁) (by rw [hs₁]; exact hkwf.ringed) cur i
    rw [Hook.call_eq, hprep, Option.bind_some]
    exact ⟨_, _, hdec, hdec⟩
  · intro s' hcall
    obtain ⟨s₁, hprep, hp, hwf₁, hdec, -⟩ := Hook.call_cases hwf hcall
    refine ⟨s₁, hprep, hdec, ?_⟩
    intro hino hrealm hexempt hpipe
    have hprot : s₁.unprotected cur i = false :=
      System.unprotected_eq_false hino (.inl hrealm)
    rw [decideAccess_eq hwf₁.ringed, hprot, hexempt, hpipe, hrealm] at hdec
    simp only [Bool.or_false, Bool.false_eq_true, if_false, if_true, Option.some.injEq] at hdec
    -- the verdict was reached by the ticket scan
    split at hdec
    · rename_i hticket
      obtain ⟨rfl, -⟩ := Prod.mk.injEq _ _ _ _ ▸ hdec
      obtain ⟨l, hl⟩ := hexp hpid
      have hs₁ : s₁.kernel = k := by rw [hp.kernel, Option.some.injEq] at hk; exact hk
      simp only [System.ticketed, Bool.and_eq_true, hs₁, hl] at hticket
      obtain ⟨t, ht, hperm, hlive⟩ := scanList_expire hticket.2
      simp only [Ticket.permits, Operation.has, Bool.and_eq_true, decide_eq_true_eq,
        bne_iff_ne] at hperm
      refine ⟨⟨t, ?_, hlive, hperm.1, hperm.2⟩, ?_⟩
      · rw [hs₁, hl]
        exact ht
      · simp [System.taint, System.task, Kernel.setCred]
    · cases hdec

/-- Every inode is a file with this label, and Citadel is pid 2. -/
def labelledFile (data : InodeData) : System where
  kernel := Kernel.boot fun c => ⟨false, false, none, 1, Bytes.fill _ (UInt8.ofNat c)⟩
  inode := fun _ => ⟨10, false, .other⟩
  data := fun _ => data
  disk := fun _ => ⟨false, none⟩
  citadelPid := 2

/-- A file in the realm, with identifier 9 9 … 9. -/
def secretFile : System := labelledFile ⟨true, false, true, false, false, Bytes.fill _ 9⟩

/-- One ticket for pid 7 and the secret file, stamped 100. -/
def secretTicket : LsmEvent := .insertTicket .none .ok 100 ⟨7, Bytes.fill _ 9, opOpen⟩

theorem secretFile_opened_with_live_ticket :
    ∃ s s', lsmRun secretFile [secretTicket] = some s ∧
      Hook.fileOpen.call s ⟨7, 0⟩ 0 200 ⟨true, true⟩ = some (s', 0) ∧
      (∃ t : Ticket, t.timestamp > 200 - 15 * 1000000000 ∧ t.operation &&& opOpen ≠ 0) ∧
      (s'.task ⟨7, 0⟩).inRealm = true := by
  obtain ⟨s, hrun, hs⟩ := Option.bind_eq_some_iff.mp (show ((lsmRun secretFile [secretTicket]).bind
    fun s => (Hook.fileOpen.call s ⟨7, 0⟩ 0 200 ⟨true, true⟩).map Prod.snd) = some 0 by decide)
  obtain ⟨⟨s', r⟩, hcall, hr⟩ := Option.map_eq_some_iff.mp hs
  obtain rfl : r = 0 := hr
  obtain ⟨s₁, hprep, -, hlive⟩ := (no_access_without_live_ticket ⟨_, rfl⟩ hrun .fileOpen ⟨7, 0⟩ 0
    200 ⟨true, true⟩ (by decide)).2.2.2 s' hcall
  -- the four conditions are read off the state the housekeeping leaves
  have hcond : ((lsmRun secretFile [secretTicket]).bind fun s =>
      (Hook.fileOpen.prepare s ⟨7, 0⟩ 0 200 ⟨true, true⟩).map fun s₁ =>
        (decide (2 ≤ (s₁.inode 0).ino), (s₁.data 0).inRealm, s₁.exempt ⟨7, 0⟩ 0,
          s₁.ownPipe ⟨7, 0⟩ 0)) = some (true, true, false, false) := by decide
  simp only [hrun, hprep, Option.bind_some, Option.map_some, Option.some.injEq, Prod.mk.injEq,
    decide_eq_true_eq] at hcond
  obtain ⟨hino, hrealm, hexempt, hpipe⟩ := hcond
  obtain ⟨⟨t, -, hyoung, -, hop⟩, htaint⟩ := hlive hino hrealm hexempt hpipe
  exact ⟨s, s', hrun, hcall, ⟨t, hyoung, hop⟩, htaint⟩

/-! ## When a live ticket is honoured -/

/-- What `p` holds on credential `c` or is waiting for it. -/
def Queues.purse (q : Queues) (p : Pid) (c : Nat) : List Ticket := q.held c ++ q.pending p

/-- `p` runs on the credential `c`, on no other, and alone; the credential
is not set up anew. -/
structure KeepsCred (p : Pid) (c : Nat) (evs : List LsmEvent) : Prop where
  cred : ∀ e ∈ evs, ∀ cur ∈ e.caller, cur.pid = p → cur.cred = c
  alone : ∀ e ∈ evs, ∀ cur ∈ e.caller, cur.cred = c → cur.pid = p
  kept : ∀ random previous, LsmEvent.initTask c random previous ∉ evs

theorem KeepsCred.of_append {p : Pid} {c : Nat} {evs evs' : List LsmEvent}
    (h : KeepsCred p c (evs ++ evs')) : KeepsCred p c evs ∧ KeepsCred p c evs' :=
  ⟨⟨fun e he => h.cred e (List.mem_append_left _ he),
      fun e he => h.alone e (List.mem_append_left _ he),
      fun r pr hm => h.kept r pr (List.mem_append_left _ hm)⟩,
    ⟨fun e he => h.cred e (List.mem_append_right _ he),
      fun e he => h.alone e (List.mem_append_right _ he),
      fun r pr hm => h.kept r pr (List.mem_append_right _ hm)⟩⟩

/-- The housekeeping of a task, seen by `p`: its own claims and expires,
that of others does not concern it. -/
theorem purse_housekeep {p : Pid} {c : Nat} (q : Queues) {cur : Task} (now : Int)
    (hcred : cur.pid = p → cur.cred = c) (halone : cur.cred = c → cur.pid = p) :
    (q.housekeep cur now).purse p c =
      if cur.pid = p ∧ 1 < p.toInt then expire (expiryThreshold now) (q.purse p c)
      else q.purse p c := by
  unfold Queues.housekeep Queues.purse
  by_cases hp : cur.pid = p
  · subst hp
    by_cases hpid : 1 < cur.pid.toInt
    · simp [hpid, Queues.claim, Queues.expire, hcred rfl]
    · simp [hpid]
  · have hc : c ≠ cur.cred := fun h => hp (halone h.symm)
    have hp' : p ≠ cur.pid := Ne.symm hp
    split
    · simp [hp, hp', hc, Queues.claim, Queues.expire]
    · simp [hp]

/-- What an event does to the purse of `p`: it adds what it issues, or it
is a check by `p` and expires. -/
theorem purse_act {p : Pid} {c : Nat} (reserved : Pid → Bool) (q : Queues) {e : LsmEvent}
    (h : KeepsCred p c [e]) :
    (e.act reserved q).purse p c = q.purse p c ++ e.ticketsFor reserved p ∨
    ∃ now, e.time = some now ∧ e.ticketsFor reserved p = [] ∧
      (e.act reserved q).purse p c = expire (expiryThreshold now) (q.purse p c) := by
  have hmem : e ∈ [e] := List.mem_singleton.mpr rfl
  cases e with
  | insertTicket rb allocs now r =>
    refine .inl ?_
    simp only [LsmEvent.act, LsmEvent.ticketsFor]
    cases hr : r.received (reserved r.pid) allocs with
    | none => simp
    | some r' =>
      simp only [Option.elim_some, Queues.insert, Queues.purse, UpdateRecord.received_pid hr]
      by_cases hp : r.pid = p
      · simp [hp]
      · simp [hp, Ne.symm hp]
  | hook hook cur i now vfs =>
    have hkeep := purse_housekeep q now (h.cred _ hmem cur rfl) (h.alone _ hmem cur rfl)
    split at hkeep
    · exact .inr ⟨now, rfl, rfl, hkeep⟩
    · exact .inl (hkeep.trans (List.append_nil _).symm)
  | housekeeping cur now =>
    have hkeep := purse_housekeep q now (h.cred _ hmem cur rfl) (h.alone _ hmem cur rfl)
    split at hkeep
    · exact .inr ⟨now, rfl, rfl, hkeep⟩
    · exact .inl (hkeep.trans (List.append_nil _).symm)
  | initTask cred random previous =>
    have hne : c ≠ cred := by
      rintro rfl
      exact h.kept random previous hmem
    refine .inl ?_
    simp [LsmEvent.act, Queues.reset, Queues.purse, LsmEvent.ticketsFor, hne]
  | labels data disk citadelPid => exact .inl (List.append_nil _).symm

/-- The purse of `p` over a run in which every ticket issued to it is
younger than the one before: it is a part of what was issued, in order,
and lacks no ticket that is still alive at every reading of the clock. -/
structure PurseKept (p : Pid) (c : Nat) (s₀ : System) (evs : List LsmEvent) (s : System) :
    Prop where
  keyed : s.kernel.Keyed
  sublist : (s.kernel.queues.purse p c).Sublist (issued p s₀ evs)
  alive : ∀ t ∈ issued p s₀ evs,
    (∀ now ∈ evs.filterMap LsmEvent.time, expiryThreshold now < t.timestamp) →
      t ∈ s.kernel.queues.purse p c

theorem PurseKept.step {p : Pid} {c : Nat} {evs : List LsmEvent} {e : LsmEvent}
    {s₀ s s' : System} (h : PurseKept p c s₀ evs s) (hrun : lsmRun s₀ evs = some s)
    (hpid : RecordPidsNonneg [e]) (hkeep : KeepsCred p c [e])
    (hstamps : (issued p s₀ evs).Pairwise (fun t u => t.timestamp < u.timestamp))
    (hstep : lsmStep s e = some s') : PurseKept p c s₀ (evs ++ [e]) s' := by
  obtain ⟨hk, hq⟩ := lsmStep_queues h.keyed hpid hstep
  have hissued := issued_concat p hrun e
  have hearlier : ∀ {t : Ticket}, (∀ now ∈ (evs ++ [e]).filterMap LsmEvent.time,
      expiryThreshold now < t.timestamp) → ∀ now ∈ evs.filterMap LsmEvent.time,
      expiryThreshold now < t.timestamp := by
    intro t ht now hnow
    refine ht now ?_
    rw [List.filterMap_append]
    exact List.mem_append_left _ hnow
  rcases purse_act s.kernel.reserved s.kernel.queues hkeep with
    hadd | ⟨now, htime, hnone, hexp⟩
  · rw [← hq] at hadd
    refine ⟨hk, ?_, fun t ht halive => ?_⟩
    · rw [hadd, hissued]
      exact h.sublist.append_right _
    · rw [hissued, List.mem_append] at ht
      rw [hadd, List.mem_append]
      exact ht.imp (fun ht => h.alive t ht (hearlier halive)) id
  · rw [← hq] at hexp
    rw [hnone, List.append_nil] at hissued
    refine ⟨hk, ?_, fun t ht halive => ?_⟩
    · rw [hexp, hissued]
      exact (expire_sublist _ _).trans h.sublist
    · rw [hissued] at ht
      -- among tickets in strict order of age the expiry is a filter
      rw [hexp, expire_eq_filter (hstamps.sublist h.sublist), List.mem_filter]
      refine ⟨h.alive t ht (hearlier halive), ?_⟩
      rw [decide_eq_true_eq]
      refine halive now ?_
      simp [htime]

theorem purseKept_run {s₀ s : System} (hboot : s₀.Booted) {evs : List LsmEvent}
    (hrun : lsmRun s₀ evs = some s) (hpids : RecordPidsNonneg evs) {p : Pid} {c : Nat}
    (hkeep : KeepsCred p c evs)
    (hstamps : (issued p s₀ evs).Pairwise (fun t u => t.timestamp < u.timestamp)) :
    PurseKept p c s₀ evs s := by
  induction evs using List.reverseRecOn generalizing s with
  | nil =>
    cases hrun
    obtain ⟨cred, hcred⟩ := hboot
    refine ⟨by rw [hcred]; exact Kernel.boot_keyed cred, ?_, fun t ht => by cases ht⟩
    rw [hcred]
    exact List.Sublist.refl []
  | append_singleton evs e ih =>
    obtain ⟨s₁, hrun₁, hlast⟩ := lsmRun_concat_some hrun
    have hfront : (issued p s₀ evs).Pairwise (fun t u => t.timestamp < u.timestamp) := by
      rw [issued_concat p hrun₁] at hstamps
      exact (List.pairwise_append.mp hstamps).1
    have hinv := ih hrun₁ (fun rb a now r hm => hpids rb a now r (List.mem_append_left _ hm))
      hkeep.of_append.1 hfront
    exact hinv.step hrun₁ (fun rb a now r hm => hpids rb a now r (List.mem_append_right _ hm))
      hkeep.of_append.2 hfront hlast

/-- Over every run with a clock that does not go backwards, in which `p`,
above 1, runs alone on one credential and each ticket installed for it is
stamped later than the one before (and later than 0): a ticket that is
not expired when `p` calls a file hook is on its ring at the decision, so
`can_access` allows every operation it has a bit in common with on every
inode with its identifier. -/
theorem live_ticket_honoured {s₀ s : System} (hboot : s₀.Booted) {evs : List LsmEvent}
    (hrun : lsmRun s₀ evs = some s) (hpids : RecordPidsNonneg evs) {p : Pid} {c : Nat}
    (hp : 1 < p.toInt) (hkeep : KeepsCred p c evs)
    (hstamps : (issued p s₀ evs).Pairwise (fun t u => t.timestamp < u.timestamp))
    (hpos : ∀ t ∈ issued p s₀ evs, 0 < t.timestamp) (hook : Hook) (i : Nat) (now : Int)
    (vfs : VfsResult) (hclock : ClockForward (evs ++ [.hook hook ⟨p, c⟩ i now vfs]))
    {t : Ticket} (ht : t ∈ issued p s₀ evs) (hlive : t.timestamp > now - 15 * 1000000000)
    {s₁ : System} (hprep : hook.prepare s ⟨p, c⟩ i now vfs = some s₁) :
    t ∈ s₁.kernel.tickets (.task c) ∧
      ((s₁.data i).anonymous = false → (s₁.data i).identifier = t.identifier →
        ∀ o, t.operation &&& o ≠ 0 → ∃ s', canAccess s₁ ⟨p, c⟩ i o = some (s', 0)) := by
  have hinv := purseKept_run hboot hrun hpids hkeep hstamps
  have hsorted := hstamps.sublist hinv.sublist
  -- what the housekeeping of this call leaves on the ring
  obtain ⟨k, hk, hkeyed, hq⟩ := taskHousekeeping_refines hinv.keyed ⟨p, c⟩ now
  have hs₁ : s₁.kernel = k := by
    rw [(Hook.prepare_spec hprep).kernel, Option.some.injEq] at hk
    exact hk
  have hring : s₁.kernel.tickets (.task c) =
      (s.kernel.queues.purse p c).filter
        (fun t => decide (expiryThreshold now < t.timestamp)) := by
    rw [← expire_eq_filter hsorted, hs₁, show k.tickets (.task c) = k.queues.held c from rfl, hq]
    simp [Queues.housekeep, hp, Queues.claim, Queues.expire, Queues.purse]
  have hold : t ∈ s.kernel.queues.purse p c := by
    refine hinv.alive t ht fun now' hnow' => ?_
    have hle : now' ≤ now := by
      unfold ClockForward at hclock
      rw [List.filterMap_append, List.pairwise_append] at hclock
      exact hclock.2.2 now' hnow' now (by simp [LsmEvent.time])
    unfold expiryThreshold ticketExpiry
    omega
  have hmem : t ∈ s₁.kernel.tickets (.task c) := by
    rw [hring, List.mem_filter]
    exact ⟨hold, decide_eq_true (show expiryThreshold now < t.timestamp from hlive)⟩
  refine ⟨hmem, fun hanon hid o ho => ?_⟩
  have hsub : (s₁.kernel.tickets (.task c)).Sublist (issued p s₀ evs) := by
    rw [hring]
    exact List.filter_sublist.trans hinv.sublist
  have hscan : s₁.ticketed ⟨p, c⟩ i o = true := by
    unfold System.ticketed
    rw [hanon, scanList_complete (hstamps.sublist hsub) (fun u hu => hpos u (hsub.subset hu))
      ⟨t, hmem, by simpa [Ticket.permits, hid, Operation.has] using ho⟩]
    rfl
  rw [canAccess_eq (by rw [hs₁]; exact hkeyed.ringed), hscan]
  simp only [if_true]
  split <;> exact ⟨_, rfl⟩

/-- The secret ticket between an older and a newer one, and behind a record
that `insert_ticket` had no memory for. -/
def secretTicketAmong : List LsmEvent :=
  [.insertTicket .none .ok 50 ⟨7, Bytes.fill _ 8, opOpen⟩,
    .insertTicket .none ⟨true, true, false⟩ 50 ⟨7, Bytes.fill _ 9, opOpen⟩, secretTicket,
    .insertTicket .none .ok 150 ⟨7, Bytes.fill _ 8, opOpen⟩]

/-- The older ticket has expired at the open, the secret one has not. -/
theorem secretTicket_honoured :
    ∃ s s₁ s', lsmRun secretFile secretTicketAmong = some s ∧
      Hook.fileOpen.prepare s ⟨7, 0⟩ 0 15000000060 ⟨true, true⟩ = some s₁ ∧
      canAccess s₁ ⟨7, 0⟩ 0 opOpen = some (s', 0) := by
  obtain ⟨s, hrun, hs⟩ := Option.bind_eq_some_iff.mp (show
    ((lsmRun secretFile secretTicketAmong).bind fun s =>
      (Hook.fileOpen.prepare s ⟨7, 0⟩ 0 15000000060 ⟨true, true⟩).map fun s₁ =>
        ((s₁.data 0).anonymous, (s₁.data 0).identifier)) = some (false, Bytes.fill _ 9) by decide)
  obtain ⟨s₁, hprep, hdata⟩ := Option.map_eq_some_iff.mp hs
  obtain ⟨hanon, hid⟩ := Prod.mk.inj hdata
  have hkeep : KeepsCred 7 0 secretTicketAmong :=
    ⟨by simp [secretTicketAmong, secretTicket, LsmEvent.caller],
      by simp [secretTicketAmong, secretTicket, LsmEvent.caller],
      by simp [secretTicketAmong, secretTicket]⟩
  have hpids : RecordPidsNonneg secretTicketAmong := by
    intro rb a now r hm
    simp only [secretTicketAmong, secretTicket, List.mem_cons, LsmEvent.insertTicket.injEq,
      List.not_mem_nil, or_false] at hm
    rcases hm with ⟨-, -, -, rfl⟩ | ⟨-, -, -, rfl⟩ | ⟨-, -, -, rfl⟩ | ⟨-, -, -, rfl⟩ <;> decide
  obtain ⟨s', hs'⟩ := (live_ticket_honoured ⟨_, rfl⟩ hrun hpids (by decide) hkeep (by decide)
    (by decide) .fileOpen 0 15000000060 ⟨true, true⟩ (by unfold ClockForward; decide)
    (t := ⟨Bytes.fill _ 9, opOpen, 100⟩) (by decide) (by decide) hprep).2 hanon hid opOpen
    (by decide)
  exact ⟨s, s₁, s', hrun, hprep, hs'⟩

/-- Two tickets of pid 7 with one stamp, the second for the secret file. -/
def sameStamp : List LsmEvent :=
  [.insertTicket .none .ok 100 ⟨7, Bytes.fill _ 8, opOpen⟩,
    .insertTicket .none .ok 100 ⟨7, Bytes.fill _ 9, opOpen⟩]

/-- The same with a third ticket, issued when the first two expire. -/
def sameStampExpired : List LsmEvent :=
  sameStamp ++ [.insertTicket .none .ok 15000000100 ⟨7, Bytes.fill _ 9, opOpen⟩]

/-- With equal stamps the scan stops before the ticket for the file: the
open is refused 100 ns after it was issued. And when the tickets with one
stamp have expired, the expiry drops the live one with them. -/
theorem sameStamp_refused :
    KeepsCred 7 0 sameStampExpired ∧
    ClockForward (sameStamp ++ [.hook .fileOpen ⟨7, 0⟩ 0 200 ⟨true, true⟩]) ∧
    ⟨Bytes.fill _ 9, opOpen, 100⟩ ∈ issued 7 secretFile sameStamp ∧
    ((lsmRun secretFile sameStamp).bind fun s =>
      (Hook.fileOpen.prepare s ⟨7, 0⟩ 0 200 ⟨true, true⟩).bind fun s₁ =>
        (canAccess s₁ ⟨7, 0⟩ 0 opOpen).map fun out =>
          ((s₁.data 0).anonymous, (s₁.data 0).identifier, out.2)) =
      some (false, Bytes.fill _ 9, eacces) ∧
    ⟨Bytes.fill _ 9, opOpen, 15000000100⟩ ∈ issued 7 secretFile sameStampExpired ∧
    ((lsmRun secretFile sameStampExpired).bind fun s =>
      (Hook.fileOpen.prepare s ⟨7, 0⟩ 0 15000000100 ⟨true, true⟩).map fun s₁ =>
        s₁.kernel.tickets (.task 0)) = some [] := by
  refine ⟨⟨?_, ?_, ?_⟩, ?_, ?_, ?_, ?_, ?_⟩
  · simp [sameStampExpired, sameStamp, LsmEvent.caller]
  · simp [sameStampExpired, sameStamp, LsmEvent.caller]
  · simp [sameStampExpired, sameStamp]
  · unfold ClockForward
    decide
  all_goals decide

end Citadel
