/-
Citadel.Protocol.ApprovedOpen — what is approved is let in.

The way from an approval to an access goes through all three programs. The
daemon reads the label of the path from the attribute, in hexadecimal, and
puts the identifier into the message; the enclave seals a ticket for it;
the module queues the ticket by pid, moves it to the credential at the
next hook of that pid, and compares it with the identifier it has itself
read from the attribute. `approved_open_granted` says that the two ends
meet: an approved open is granted for 15 seconds, whatever other tasks do
in the meantime and whatever else the process is given tickets for.

The conditions are those under which nothing goes wrong on the way (keys
in step, memory, `Takes`), that the tickets of the process, those it still
has and those it gets in the meantime, are in strict order of age, and
that it runs on one credential of its own (`Between`). With two tickets of
one stamp the scan stops before the second. The first hook after the
labelling has to be a hook for files: `trm_inode_permission` does not read
the attribute.
-/
import Citadel.Protocol.Deployment

namespace Citadel

open Bytes Enclave Daemon SearchTree

variable {A : Gcm}

/-! ## Files with a label -/

/-- The inode is no pipe and has the identifier, in its blob or else on
disk and to be read. -/
structure System.Carries (s : System) (i : Nat) (identifier : Identifier) : Prop where
  file : (s.inode i).magic ≠ .pipefs
  label : ((s.data i).checkedDiskXattr = true ∧ (s.data i).anonymous = false ∧
      (s.data i).identifier = identifier) ∨
    ((s.data i).checkedDiskXattr = false ∧ (s.data i).isSocket = false ∧
      (s.disk i).inRealm = true ∧ getXattrIdentifier (s.disk i) = some (some identifier.1))

/-- The housekeeping of a file that is no pipe leaves its data alone. -/
theorem inodeHousekeeping_file {task : TaskData} {inode : Inode} (data : InodeData)
    (h : inode.magic ≠ .pipefs) : inodeHousekeeping task inode data = data := by
  simp [inodeHousekeeping, h]

/-- Writing a label back does not change it. -/
theorem flushLabel_label (vfs : VfsResult) (disk : Xattrs) (data : InodeData) :
    (flushLabel vfs disk data).1.checkedDiskXattr = data.checkedDiskXattr ∧
      (flushLabel vfs disk data).1.anonymous = data.anonymous ∧
      (flushLabel vfs disk data).1.identifier = data.identifier := by
  unfold flushLabel
  split
  · split <;> exact ⟨rfl, rfl, rfl⟩
  · exact ⟨rfl, rfl, rfl⟩

/-- After the housekeeping of a file hook the label is in the blob. -/
theorem dentryHousekeeping_label {s : System} {i : Nat} {identifier : Identifier}
    (h : s.Carries i identifier) (task : TaskData) (vfs : VfsResult) :
    ∃ data disk, dentryHousekeeping task (s.inode i) vfs (s.disk i) (s.data i) =
        some (data, disk) ∧
      data.checkedDiskXattr = true ∧ data.anonymous = false ∧ data.identifier = identifier := by
  have hfetch : ∃ data, fetchLabel (s.disk i) (s.data i) = some data ∧
      data.checkedDiskXattr = true ∧ data.anonymous = false ∧ data.identifier = identifier := by
    rcases h.label with ⟨hchecked, hanon, hid⟩ | ⟨hchecked, hsocket, hrealm, hdisk⟩
    · exact ⟨s.data i, by simp [fetchLabel, hchecked], hchecked, hanon, hid⟩
    · have hread : Bytes.read identifier.1 0 identifierLength = some identifier := by
        simpa using Bytes.read_front identifier []
      refine ⟨{ s.data i with
        inRealm := true, checkedDiskXattr := true, anonymous := false, identifier := identifier },
        ?_, rfl, rfl, rfl⟩
      simp [fetchLabel, hchecked, hsocket, hrealm, hdisk, hread]
  obtain ⟨data, hfetch, hchecked, hanon, hid⟩ := hfetch
  obtain ⟨hflush, hflush', hflush''⟩ := flushLabel_label vfs (s.disk i) data
  refine ⟨(flushLabel vfs (s.disk i) data).1, (flushLabel vfs (s.disk i) data).2, ?_,
    hflush.trans hchecked, hflush'.trans hanon, hflush''.trans hid⟩
  rw [dentryHousekeeping, inodeHousekeeping_file _ h.file, hfetch]
  rfl

/-- The housekeeping of a file hook on any inode. -/
theorem prepareDentry_carries {s s₁ : System} {i j : Nat} {identifier : Identifier} {cur : Task}
    {now : Int} {vfs : VfsResult} (h : s.Carries i identifier)
    (hprep : prepareDentry s cur j now vfs = some s₁) : s₁.Carries i identifier := by
  obtain ⟨k, -, hprep⟩ := Option.bind_eq_some_iff.mp hprep
  obtain ⟨⟨data, disk⟩, hhouse, hs₁⟩ := Option.bind_eq_some_iff.mp hprep
  cases hs₁
  by_cases hij : i = j
  · subst hij
    obtain ⟨data', disk', hhouse', hlabel⟩ :=
      dentryHousekeeping_label h ((System.task { s with kernel := k }) cur) vfs
    rw [hhouse', Option.some.injEq, Prod.mk.injEq] at hhouse
    obtain ⟨rfl, rfl⟩ := hhouse
    refine ⟨h.file, .inl ?_⟩
    simpa [System.setData] using hlabel
  · refine ⟨h.file, ?_⟩
    simpa [System.setData, Function.update_of_ne hij] using h.label

/-- and of the inode hook. -/
theorem prepareInode_carries {s s₁ : System} {i j : Nat} {identifier : Identifier} {cur : Task}
    {now : Int} (h : s.Carries i identifier) (hprep : prepareInode s cur j now = some s₁) :
    s₁.Carries i identifier := by
  obtain ⟨k, -, hs₁⟩ := Option.bind_eq_some_iff.mp hprep
  cases hs₁
  refine ⟨h.file, ?_⟩
  by_cases hij : i = j
  · subst hij
    simpa [System.setData, inodeHousekeeping_file _ h.file] using h.label
  · simpa [System.setData, Function.update_of_ne hij] using h.label

theorem Hook.prepare_carries {hook : Hook} {s s₁ : System} {i j : Nat} {identifier : Identifier}
    {cur : Task} {now : Int} {vfs : VfsResult} (h : s.Carries i identifier)
    (hprep : hook.prepare s cur j now vfs = some s₁) : s₁.Carries i identifier := by
  cases hook with
  | inodePermission => exact prepareInode_carries h hprep
  | fileOpen => exact prepareDentry_carries h hprep
  | filePermission => exact prepareDentry_carries h hprep

/-- The event leaves the label of the inode as it is, if it replaces
labels. -/
def LsmEvent.Spares (i : Nat) (s : System) : LsmEvent → Prop
  | .labels data disk _ => data i = s.data i ∧ disk i = s.disk i
  | _ => True

theorem System.Carries.congr {s s' : System} {i : Nat} {identifier : Identifier}
    (h : s.Carries i identifier) (hinode : s'.inode = s.inode) (hdata : s'.data i = s.data i)
    (hdisk : s'.disk i = s.disk i) : s'.Carries i identifier := by
  refine ⟨?_, ?_⟩
  · rw [hinode]
    exact h.file
  · rw [hdata, hdisk]
    exact h.label

theorem lsmStep_carries {s s' : System} {e : LsmEvent} {i : Nat} {identifier : Identifier}
    (hwf : s.kernel.Wf) (h : s.Carries i identifier) (hspares : e.Spares i s)
    (hstep : lsmStep s e = some s') : s'.Carries i identifier := by
  cases e with
  | insertTicket rb allocs now r =>
    obtain ⟨out, -, hs'⟩ := Option.bind_eq_some_iff.mp hstep
    cases hs'
    exact h.congr rfl rfl rfl
  | hook hook cur j now vfs =>
    obtain ⟨⟨s₂, r⟩, hcall, hs'⟩ := Option.bind_eq_some_iff.mp hstep
    cases hs'
    obtain ⟨s₁, hprep, -, -, -, rfl | rfl⟩ := Hook.call_cases hwf hcall
    · exact Hook.prepare_carries h hprep
    · exact (Hook.prepare_carries h hprep).congr rfl rfl rfl
  | housekeeping cur now =>
    obtain ⟨k, -, hs'⟩ := Option.bind_eq_some_iff.mp hstep
    cases hs'
    exact h.congr rfl rfl rfl
  | initTask cred random previous =>
    cases hstep
    exact h.congr rfl rfl rfl
  | labels data disk citadelPid =>
    cases hstep
    exact h.congr rfl hspares.1 hspares.2

/-! ## A ticket that waits or is held -/

/-- The ticket is among what `p` has on credential `c` or waits for. That,
with what is still to be issued to `p` over the events to come, is in
order of age. -/
structure Ready (p : Pid) (c : Nat) (t : Ticket) (s : System) (evs : List LsmEvent) : Prop where
  keyed : s.kernel.Keyed
  ordered : (s.kernel.queues.purse p c ++ issued p s evs).Pairwise
    fun t u => t.timestamp < u.timestamp
  positive : ∀ u ∈ s.kernel.queues.purse p c ++ issued p s evs, 0 < u.timestamp
  mem : t ∈ s.kernel.queues.purse p c

theorem Ready.of_sublist {p : Pid} {c : Nat} {t : Ticket} {s s' : System}
    {evs evs' : List LsmEvent} (h : Ready p c t s evs) (hkeyed : s'.kernel.Keyed)
    (hsub : (s'.kernel.queues.purse p c ++ issued p s' evs').Sublist
      (s.kernel.queues.purse p c ++ issued p s evs))
    (hmem : t ∈ s'.kernel.queues.purse p c) : Ready p c t s' evs' :=
  ⟨hkeyed, h.ordered.sublist hsub, fun u hu => h.positive u (hsub.subset hu), hmem⟩

theorem Ready.purse_ordered {p : Pid} {c : Nat} {t : Ticket} {s : System} {evs : List LsmEvent}
    (h : Ready p c t s evs) :
    (s.kernel.queues.purse p c).Pairwise fun t u => t.timestamp < u.timestamp :=
  (List.pairwise_append.mp h.ordered).1

/-- An event at a time when the ticket is alive leaves it where it is. -/
theorem Ready.step {p : Pid} {c : Nat} {t : Ticket} {s s' : System} {e : LsmEvent}
    {evs : List LsmEvent} (h : Ready p c t s (e :: evs)) (hpid : RecordPidsNonneg [e])
    (hkeep : KeepsCred p c [e]) (htime : ∀ now ∈ e.time, expiryThreshold now < t.timestamp)
    (hstep : lsmStep s e = some s') : Ready p c t s' evs := by
  obtain ⟨hkeyed, hq⟩ := lsmStep_queues h.keyed hpid hstep
  -- what the event issues goes from the events to come into the purse
  have hissued : issued p s (e :: evs) = e.ticketsFor s.kernel.reserved p ++ issued p s' evs := by
    rw [issued, hstep, Option.elim_some]
  rcases purse_act s.kernel.reserved s.kernel.queues hkeep with
    hadd | ⟨now, hnow, hnone, hexpire⟩
  · rw [← hq] at hadd
    refine h.of_sublist hkeyed ?_ ?_
    · rw [hadd, hissued, List.append_assoc]
    · rw [hadd]
      exact List.mem_append_left _ h.mem
  · rw [← hq, expire_eq_filter h.purse_ordered] at hexpire
    refine h.of_sublist hkeyed ?_ ?_
    · rw [hexpire, hissued, hnone, List.nil_append]
      exact List.filter_sublist.append_right _
    · rw [hexpire, List.mem_filter, decide_eq_true_eq]
      exact ⟨h.mem, htime now hnow⟩

/-- What a hook of `p` then finds. -/
theorem Ready.scan {p : Pid} {c : Nat} {t : Ticket} {s s₁ : System} (h : Ready p c t s [])
    (hp : 1 < p.toInt) {i : Nat} {now : Int} (hlive : expiryThreshold now < t.timestamp)
    (hprep : Prepared s s₁ ⟨p, c⟩ i now) {identifier : Identifier} {op : Operation}
    (hpermits : t.permits identifier op = true) :
    scanList identifier op 0 (s₁.kernel.tickets (.task c)) = true := by
  obtain ⟨k, hhouse, hkeyed, hq⟩ := taskHousekeeping_refines h.keyed ⟨p, c⟩ now
  have hs₁ : s₁.kernel = k := by
    rw [hprep.kernel, Option.some.injEq] at hhouse
    exact hhouse
  have hring : s₁.kernel.tickets (.task c) = (s.kernel.queues.purse p c).filter
      fun t => decide (expiryThreshold now < t.timestamp) := by
    rw [← expire_eq_filter h.purse_ordered, hs₁,
      show k.tickets (.task c) = k.queues.held c from rfl, hq]
    simp [Queues.housekeep, hp, Queues.claim, Queues.expire, Queues.purse]
  rw [hring]
  refine scanList_complete (h.purse_ordered.sublist List.filter_sublist) ?_ ⟨t, ?_, hpermits⟩
  · intro u hu
    exact h.positive u (List.mem_append_left _ (List.mem_filter.mp hu).1)
  · rw [List.mem_filter, decide_eq_true_eq]
    exact ⟨h.mem, hlive⟩

/-- The ticket just inserted, behind what `p` had and before what it is
still to get. -/
theorem Ready.of_insert {p : Pid} {c : Nat} {s s' : System} {evs : List LsmEvent}
    {rb : Rebalance Nat} {now : Int} {identifier : Identifier} {operation : Operation}
    (hkeyed : s.kernel.Keyed) (hp : 0 ≤ p.toInt) (hop : operation ≠ opPtyAccess)
    (hordered : (s.kernel.queues.purse p c).Pairwise fun t u => t.timestamp < u.timestamp)
    (hearlier : ∀ t ∈ s.kernel.queues.purse p c, 0 < t.timestamp ∧ t.timestamp < now)
    (hnow : 0 < now)
    (hstep : lsmStep s (.insertTicket rb .ok now ⟨p, identifier, operation⟩) = some s')
    (hlater : ((⟨identifier, operation, now⟩ : Ticket) :: issued p s' evs).Pairwise
      fun t u => t.timestamp < u.timestamp) :
    Ready p c ⟨identifier, operation, now⟩ s' evs := by
  have hpid : RecordPidsNonneg [.insertTicket rb .ok now ⟨p, identifier, operation⟩] := by
    intro rb' a' now' r hr
    cases List.mem_singleton.mp hr
    exact hp
  obtain ⟨hkeyed', hq⟩ := lsmStep_queues hkeyed hpid hstep
  have hpurse : s'.kernel.queues.purse p c =
      s.kernel.queues.purse p c ++ [⟨identifier, operation, now⟩] := by
    rw [hq]
    simp [LsmEvent.act, UpdateRecord.received_ok, Queues.purse, Queues.insert,
      UpdateRecord.tickets, hop]
  have hafter : ∀ u ∈ issued p s' evs, now < u.timestamp := (List.pairwise_cons.mp hlater).1
  refine ⟨hkeyed', ?_, ?_, ?_⟩
  · rw [hpurse, List.append_assoc, List.pairwise_append]
    refine ⟨hordered, hlater, fun t ht u hu => ?_⟩
    have hbefore := (hearlier t ht).2
    rcases List.mem_append.mp hu with hnew | hlate
    · rw [List.mem_singleton.mp hnew]
      exact hbefore
    · exact hbefore.trans (hafter u hlate)
  · rw [hpurse]
    intro u hu
    rcases List.mem_append.mp hu with hpresent | hlate
    · rcases List.mem_append.mp hpresent with hold | hnew
      · exact (hearlier u hold).1
      · rw [List.mem_singleton.mp hnew]
        exact hnow
    · exact hnow.trans (hafter u hlate)
  · rw [hpurse]
    simp

/-! ## From the approval to the access -/

/-- The events between the ticket and the access: every task may run, `p`
only on `c` and alone there, and get further tickets, each with a later
stamp; labels of other files may change. The clock stays below the end of
the ticket's life. -/
structure Between (p : Pid) (c i : Nat) (t : Ticket) (s : System) (evs : List LsmEvent) :
    Prop where
  cred : KeepsCred p c evs
  pids : RecordPidsNonneg evs
  later : (t :: issued p s evs).Pairwise fun t u => t.timestamp < u.timestamp
  clock : ∀ now ∈ evs.filterMap LsmEvent.time, now < t.timestamp + 15 * 1000000000
  spares : Run.Along lsmStep (fun s e => e.Spares i s) s evs

/-- Ticket and label are still there at the end. -/
theorem ready_run {p : Pid} {c i : Nat} {t : Ticket} {identifier : Identifier} {s s' : System}
    {evs : List LsmEvent} (hcred : KeepsCred p c evs) (hpids : RecordPidsNonneg evs)
    (hclock : ∀ now ∈ evs.filterMap LsmEvent.time, now < t.timestamp + 15 * 1000000000)
    (hspares : Run.Along lsmStep (fun s e => e.Spares i s) s evs)
    (hready : Ready p c t s evs) (hcarries : s.Carries i identifier)
    (hrun : lsmRun s evs = some s') : Ready p c t s' [] ∧ s'.Carries i identifier := by
  induction evs generalizing s with
  | nil =>
    cases hrun
    exact ⟨hready, hcarries⟩
  | cons e evs ih =>
    obtain ⟨s₁, hstep, hrest⟩ := Run.cons_some hrun
    obtain ⟨hcred₁, hcred₂⟩ := (show KeepsCred p c ([e] ++ evs) from hcred).of_append
    have hready₁ : Ready p c t s₁ evs := by
      refine hready.step (fun rb a now r hr => ?_) hcred₁ (fun now hnow => ?_) hstep
      · exact hpids rb a now r (List.mem_singleton.mp hr ▸ List.mem_cons_self)
      · have hlimit := hclock now (List.mem_filterMap.mpr ⟨e, List.mem_cons_self, hnow⟩)
        unfold expiryThreshold ticketExpiry
        omega
    refine ih hcred₂ (fun rb a now r hr => hpids rb a now r (List.mem_cons_of_mem e hr))
      (fun now hnow => ?_) (hspares.2 s₁ hstep) hready₁
      (lsmStep_carries hready.keyed.toWf hcarries hspares.1 hstep) hrest
    obtain ⟨d, hd, htime⟩ := List.mem_filterMap.mp hnow
    exact hclock now (List.mem_filterMap.mpr ⟨d, List.mem_cons_of_mem e hd, htime⟩)

/-- A file hook of `p` lets it in. -/
theorem Ready.granted {p : Pid} {c i : Nat} {t : Ticket} {s : System} (h : Ready p c t s [])
    (hp : 1 < p.toInt) (hcarries : s.Carries i t.identifier) (hop : t.operation.has opOpen = true)
    {now : Int} (hlive : now < t.timestamp + 15 * 1000000000) {hook : Hook}
    (hhook : hook ≠ .inodePermission) (vfs : VfsResult) :
    ∃ s', hook.call s ⟨p, c⟩ i now vfs = some (s', 0) := by
  -- all file hooks have one body
  have hbody : hook.prepare s ⟨p, c⟩ i now vfs = prepareDentry s ⟨p, c⟩ i now vfs := by
    cases hook with
    | inodePermission => exact absurd rfl hhook
    | fileOpen => rfl
    | filePermission => rfl
  obtain ⟨k, hhouse, hkeyed, -⟩ := taskHousekeeping_refines h.keyed ⟨p, c⟩ now
  obtain ⟨data, disk, hdentry, -, hanon, hid⟩ :=
    dentryHousekeeping_label hcarries (System.task { s with kernel := k } ⟨p, c⟩) vfs
  obtain ⟨s₁, hprep, hkernel, hdata⟩ : ∃ s₁, prepareDentry s ⟨p, c⟩ i now vfs = some s₁ ∧
      s₁.kernel = k ∧ s₁.data i = data := by
    refine ⟨{ System.setData { s with kernel := k } i data with
      disk := Function.update s.disk i disk }, ?_, rfl, by simp [System.setData]⟩
    simp only [prepareDentry, hhouse, Option.bind_eq_bind, Option.bind_some, hdentry]
  have hscan : scanList t.identifier opOpen 0 (s₁.kernel.tickets (.task c)) = true := by
    refine h.scan hp ?_ (prepareDentry_spec hprep) ?_
    · unfold expiryThreshold ticketExpiry
      omega
    · simp [Ticket.permits, hop]
  have hticket : s₁.ticketed ⟨p, c⟩ i opOpen = true := by
    simp only [System.ticketed, hdata, hanon, hid, Bool.not_false, Bool.true_and]
    exact hscan
  rw [Hook.call_eq, hbody, hprep, Option.bind_some,
    decideAccess_eq (by rw [hkernel]; exact hkeyed.ringed), hticket]
  split
  · exact ⟨_, rfl⟩
  · exact ⟨_, rfl⟩

/-- **What is approved is let in.** A process above pid 1 asks to open a
path. The daemon finds an identifier for it and the policy approves. Then
for 15 seconds from the insertion of the ticket, after any events of the
module in between, a file hook lets the process into every inode that has
that identifier. The tickets the process has before are stamped in order
and earlier than this one, those it gets in between in order and later. -/
theorem approved_open_granted {d : Deployment} {m : ClientMessage}
    (hkeyed : d.system.kernel.Keyed) (htakes : Takes d m) {request : OpRequest} {x : OpExtension}
    {token : PtokenProtected} (hauth : Authentic A d.enclave m.data m.pid request (some x) token)
    (hop : request.operation = opOpen) (htranslate : x.translate = true) {path : List UInt8}
    (hpath : cstring x.metadata.1 = some path) {object : Identifier}
    (hfound : foundIdentifier m.env.cache d.cache path
      (pathXattr hostLabels m.names d.world path) = some (some object))
    (hpolicy : m.policy d.world m.pid request (some (writeIdentifier x.metadata object)) =
      opApproved)
    {c i : Nat} (hpid : 1 < m.pid.toInt)
    (hordered : (d.system.kernel.queues.purse m.pid c).Pairwise
      fun t u => t.timestamp < u.timestamp)
    (hearlier : ∀ t ∈ d.system.kernel.queues.purse m.pid c,
      0 < t.timestamp ∧ t.timestamp < m.stamp d)
    (hclock : 0 < m.stamp d) (hlabel : d.system.Carries i object) :
    ∃ d', deployStep A d (.message m) = some d' ∧
      ∀ evs s, lsmRun d'.system evs = some s →
        Between m.pid c i ⟨object, opOpen, m.stamp d⟩ d'.system evs →
        ∀ hook now vfs, hook ≠ Hook.inodePermission → now < m.stamp d + 15 * 1000000000 →
          ∃ s', hook.call s ⟨m.pid, c⟩ i now vfs = some (s', 0) := by
  obtain ⟨d', hstep, hinsert⟩ :=
    message_open_inserts hkeyed.toWf htakes hauth hop htranslate hpath hfound hpolicy
  have hcarries : d'.system.Carries i object := lsmStep_carries hkeyed.toWf hlabel
    (by trivial) hinsert
  refine ⟨d', hstep, fun evs s hrun hbetween hook now vfs hhook hnow => ?_⟩
  have hready : Ready m.pid c ⟨object, opOpen, m.stamp d⟩ d'.system evs :=
    Ready.of_insert hkeyed m.nonneg (by decide) hordered hearlier hclock hinsert hbetween.later
  obtain ⟨hready', hcarries'⟩ := ready_run hbetween.cred hbetween.pids hbetween.clock
    hbetween.spares hready hcarries hrun
  exact hready'.granted hpid hcarries' (show opOpen.has opOpen = true by decide) hnow hhook vfs

/-- Pid 7 is given a further ticket, and another task runs. -/
def meanwhile : List LsmEvent :=
  [.insertTicket .none .ok 150 ⟨7, fill _ 2, opOpen⟩, .housekeeping ⟨8, 1⟩ 180]

theorem openMessage_granted :
    ∃ d s s', deployStep (Aead.keyTag _ _) labelledDaemon (.message openMessage) = some d ∧
      lsmRun d.system meanwhile = some s ∧
      Hook.fileOpen.call s ⟨7, 0⟩ 3 200 ⟨true, true⟩ = some (s', 0) := by
  have hauth : Authentic (Aead.keyTag _ _) labelledDaemon.enclave openOfB 7 (sevensAsk opOpen)
      (some ⟨true, false, nameMetadata 98⟩) sevensProtected :=
    authentic_of_sealed (readRequest_encode _ _) rfl (zeros _) rfl rfl rfl
  have hfound : foundIdentifier calmMessage.cache .empty [98]
      (pathXattr hostLabels twoNames labelledHost [98]) = some (some (fill _ 1)) := by decide
  have hempty : labelledHost.lsm.system.kernel.queues.purse 7 0 = [] := rfl
  have hordered : (labelledHost.lsm.system.kernel.queues.purse 7 0).Pairwise
      fun t u => t.timestamp < u.timestamp := by
    rw [hempty]
    exact List.Pairwise.nil
  have hearlier : ∀ t ∈ labelledHost.lsm.system.kernel.queues.purse 7 0,
      0 < t.timestamp ∧ t.timestamp < 100 := by
    rw [hempty]
    intro t ht
    cases ht
  have hlabel : labelledHost.lsm.system.Carries 3 (fill _ 1) :=
    ⟨by decide, .inr ⟨rfl, rfl, rfl, by decide⟩⟩
  obtain ⟨d, hstep, hgranted⟩ := approved_open_granted (d := labelledDaemon) (m := openMessage)
    (c := 0) (Kernel.boot_keyed _) ⟨rfl, rfl, rfl, rfl, rfl, rfl, rfl, rfl⟩ hauth rfl rfl
    (cstring_nameMetadata (c := 98) (by decide)) hfound rfl (by decide)
    hordered hearlier (by decide) hlabel
  obtain ⟨d', hstep', hinsert⟩ := openMessage_inserts
  obtain rfl : d = d' := Option.some.inj (hstep.symm.trans hstep')
  -- the run in between, and the stamp of the ticket it issues
  have hseen : ((lsmStep labelledHost.lsm.system
      (.insertTicket .none .ok 100 ⟨7, fill _ 1, opOpen⟩)).bind fun s =>
      (lsmRun s meanwhile).map fun _ => issued 7 s meanwhile) =
      some [⟨fill _ 2, opOpen, 150⟩] := by decide +kernel
  rw [hinsert, Option.bind_some] at hseen
  obtain ⟨s, hrun, hissued⟩ := Option.map_eq_some_iff.mp hseen
  have hbetween : Between 7 0 3 ⟨fill _ 1, opOpen, 100⟩ d.system meanwhile := by
    refine ⟨⟨?_, ?_, ?_⟩, fun rb a now r hr => ?_, ?_, by decide, ?_⟩
    · simp [meanwhile, LsmEvent.caller]
    · simp [meanwhile, LsmEvent.caller]
    · simp [meanwhile]
    · simp only [meanwhile, List.mem_cons, LsmEvent.insertTicket.injEq, reduceCtorEq, or_false,
        List.not_mem_nil] at hr
      obtain ⟨-, -, -, rfl⟩ := hr
      decide
    · rw [hissued]
      decide
    · exact ⟨trivial, fun _ _ => ⟨trivial, fun _ _ => trivial⟩⟩
  obtain ⟨s', hcall⟩ := hgranted meanwhile s hrun hbetween .fileOpen 200 ⟨true, true⟩ (by decide)
    (by decide)
  exact ⟨d, s, s', hstep, hrun, hcall⟩

end Citadel
