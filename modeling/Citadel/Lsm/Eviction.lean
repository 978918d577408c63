/-
Citadel.Lsm.Eviction — what an inode forgets when it leaves memory.

The label of a file is in its blob and in its attributes. The enclave's
records write both, each kind a different part:

* a registration writes the identifier and the `in_realm` attribute and
  sets all three fields of the blob;
* any other label record writes the identifier and CLEARS `in_realm` in
  the blob, but does not remove the attribute;
* a declassification removes the attribute and clears the flag, but leaves
  the identifier in the blob.

The loader reads the identifier only behind the attribute. So after an
eviction `can_access` decides as before exactly when the state is settled
(`eviction_invisible_iff`): flag and attribute agree and a file outside
the realm has no identifier in memory. Registrations lead there, the two
other kinds away from it (`relabel_settled`).

A label message acts on blob and attributes as `relabel` says
(`installStep_relabel`), for every key, IV and padding; the rest of the
module does not see it.
-/
import Citadel.Lsm.AccessTheorems
import Citadel.Lsm.InodeHooks
import Citadel.Lsm.PayloadIoTheorems

namespace Citadel

open Bytes RingHeap

/-! ## Label messages -/

/-- A record the enclave sends for an inode, with what goes into its
message. -/
structure LabelOp where
  iv : Block ivLength
  keyUpdate : AesKey
  record : UpdateRecord
  padding : Block 2

/-- The message, under the key both ends have at the time. -/
def LabelOp.message (A : Gcm) (key : AesKey) (op : LabelOp) : List UInt8 :=
  trmAesEncrypt A key op.iv
    ((⟨challengeSignature, op.keyUpdate, 1⟩ : UpdateHeader).encode ++ op.record.encode op.padding)

def installStep (A : Gcm) (i : Nat) (s : Lsm) (op : LabelOp) : Option Lsm := do
  let (s, _) ← xattrEnclaveInstallation A .ok s i (op.message A s.aesKey)
  some s

def installRun (A : Gcm) (i : Nat) (s : Lsm) (ops : List LabelOp) : Option Lsm :=
  ops.foldlM (installStep A i) s

/-- What a record does to the blob and the attributes. -/
def relabel (l : InodeData × Xattrs) (r : UpdateRecord) : InodeData × Xattrs :=
  if r.operation.has opDeclassify then
    if l.1.inRealm then
      ({ l.1 with needsXattrUpdate := false, checkedDiskXattr := true, inRealm := false },
        { l.2 with inRealm := false })
    else l
  else
    ({ l.1 with
        needsXattrUpdate := false
        checkedDiskXattr := true
        inRealm := r.operation.has opRegister
        identifier := r.identifier
        anonymous := false },
      ⟨l.2.inRealm || r.operation.has opRegister, some (hexDigits r.identifier.1)⟩)

theorem declassify_ok (s : Lsm) (i : Nat) (hdr : UpdateHeader) {r : UpdateRecord}
    (h : r.operation.has opDeclassify = true) :
    declassify .ok s i hdr =
      some (updateAesKey (s.setLabel i (relabel (s.system.data i, s.system.disk i) r).1
        (relabel (s.system.data i, s.system.disk i) r).2) hdr.keyUpdate, 0) := by
  rw [relabel, if_pos h]
  by_cases hrealm : (s.system.data i).inRealm = true
  · simp [declassify, hrealm, InstallEnv.ok, Xattrs.removeInRealm]
  · simp [declassify, hrealm, InstallEnv.ok, setLabel_self]

theorem induct_ok (s : Lsm) (i : Nat) (hdr : UpdateHeader) {r : UpdateRecord}
    (h : r.operation.has opDeclassify = false) :
    induct .ok s i hdr r =
      some (updateAesKey (s.setLabel i (relabel (s.system.data i, s.system.disk i) r).1
        (relabel (s.system.data i, s.system.disk i) r).2) hdr.keyUpdate, 0) := by
  rw [relabel, if_neg (by simp [h])]
  cases hregister : r.operation.has opRegister with
  | true => simp [induct, InstallEnv.ok, hregister, installIdentifier_eq, Xattrs.setInRealm]
  | false => simp [induct, InstallEnv.ok, hregister, installIdentifier_eq]

/-- A label message under the key of the module is the record it carries. -/
theorem installation_of_message {A : Gcm} (env : InstallEnv) {s : Lsm}
    (hreg : s.registered = true) (hplain : env.plain = true) (hcrypto : env.crypto = true)
    (i : Nat) (op : LabelOp) :
    xattrEnclaveInstallation A env s i (op.message A s.aesKey) =
      if op.record.operation.has opDeclassify then
        declassify env s i ⟨challengeSignature, op.keyUpdate, 1⟩
      else induct env s i ⟨challengeSignature, op.keyUpdate, 1⟩ op.record := by
  have hne : (⟨challengeSignature, op.keyUpdate, 1⟩ : UpdateHeader).encode ++
      op.record.encode op.padding ≠ [] := by
    simp [UpdateHeader.encode, challengeSignature]
  rw [LabelOp.message, xattrEnclaveInstallation_authentic env hreg hplain hcrypto i op.iv hne,
    List.append_assoc, applyInstall_encoded, if_neg (by simp)]

/-- Where everything succeeds it acts as `relabel` says. -/
theorem installStep_relabel {A : Gcm} {s : Lsm} (hreg : s.registered = true) (i : Nat)
    (op : LabelOp) :
    installStep A i s op =
      some (updateAesKey (s.setLabel i (relabel (s.system.data i, s.system.disk i) op.record).1
        (relabel (s.system.data i, s.system.disk i) op.record).2) op.keyUpdate) := by
  rw [installStep, installation_of_message .ok hreg rfl rfl]
  cases hdec : op.record.operation.has opDeclassify with
  | true =>
    rw [if_pos rfl, declassify_ok s i _ hdec]
    rfl
  | false =>
    rw [if_neg Bool.false_ne_true, induct_ok s i _ hdec]
    rfl

/-! ## Eviction and reload -/

theorem fetchLabel_needsXattrUpdate {disk : Xattrs} {data data' : InodeData}
    (h : fetchLabel disk data = some data') :
    data'.needsXattrUpdate = data.needsXattrUpdate := by
  unfold fetchLabel at h
  split at h
  · split at h
    · obtain ⟨identifier, -, h⟩ := Option.bind_eq_some_iff.mp h
      split at h
      · cases h
        rfl
      · obtain ⟨block, -, h⟩ := Option.bind_eq_some_iff.mp h
        cases h
        rfl
    · cases h
      rfl
  · cases h
    rfl

theorem inodeHousekeeping_disk {inode : Inode} (hpipe : inode.magic ≠ .pipefs) (task : TaskData)
    (data : InodeData) : inodeHousekeeping task inode data = data := by
  simp [inodeHousekeeping, hpipe]

/-- The blob is set up anew and the label fetched. -/
def reload (task : TaskData) (inode : Inode) (vfs : VfsResult) (disk : Xattrs) :
    Option (InodeData × Xattrs) :=
  dentryHousekeeping task inode vfs disk (trmInodeAllocSecurity task inode)

/-- For a disk inode that is the fetch and nothing else. -/
theorem reload_eq {inode : Inode} (hino : 2 ≤ inode.ino) (hpipe : inode.magic ≠ .pipefs)
    (task : TaskData) (vfs : VfsResult) (disk : Xattrs) :
    reload task inode vfs disk = (fetchLabel disk .alloc).map (fun data => (data, disk)) := by
  have hflush : ∀ data, fetchLabel disk .alloc = some data →
      flushLabel vfs disk data = (data, disk) := by
    intro data hdata
    have hneeds := fetchLabel_needsXattrUpdate hdata
    simp [flushLabel, hneeds, InodeData.alloc]
  rw [reload, trmInodeAllocSecurity, if_neg (by omega), dentryHousekeeping]
  simp only [inodeHousekeeping_disk hpipe]
  cases hfetch : fetchLabel disk .alloc with
  | none => rfl
  | some data => simp only [Option.bind_eq_bind, Option.bind_some, hflush data hfetch,
      Option.map_some]

/-- What a fresh blob takes from the attributes. -/
theorem fetchLabel_alloc {disk : Xattrs} {data : InodeData}
    (h : fetchLabel disk .alloc = some data) :
    data.inRealm = disk.inRealm ∧ (disk.inRealm = false → data.anonymous = true) ∧
      (data.anonymous = true → data.identifier = zeros _) := by
  simp only [fetchLabel, InodeData.alloc, Bool.not_false, Bool.and_self, if_true] at h
  split at h
  · rename_i hrealm
    obtain ⟨identifier, -, h⟩ := Option.bind_eq_some_iff.mp h
    split at h
    · cases h
      exact ⟨hrealm.symm, by simp [hrealm], fun _ => rfl⟩
    · obtain ⟨block, -, h⟩ := Option.bind_eq_some_iff.mp h
      cases h
      exact ⟨hrealm.symm, by simp [hrealm], by simp⟩
  · rename_i hrealm
    cases h
    exact ⟨by simpa using hrealm, fun _ => rfl, fun _ => rfl⟩

theorem fetchLabel_named {disk : Xattrs} {identifier : Identifier} {k : Nat} (hk : k ≤ 1)
    (hrealm : disk.inRealm = true)
    (h : disk.identifier = some (hexDigits identifier.1 ++ List.replicate k 0)) :
    fetchLabel disk .alloc = some { InodeData.alloc with
      checkedDiskXattr := true, inRealm := true, identifier := identifier, anonymous := false } := by
  have hread : read identifier.1 0 identifierLength = some identifier := by
    have := read_front identifier []
    rwa [List.append_nil] at this
  have hdigits : getXattrIdentifier disk = some (some identifier.1) :=
    getXattrIdentifier_digits hk h
  simp only [fetchLabel, InodeData.alloc, Bool.not_false, Bool.and_self, if_true, hrealm,
    hdigits, Option.bind_eq_bind, Option.bind_some, hread]

/-- The invariant of blob and attributes over label messages. -/
structure Consistent (data : InodeData) (disk : Xattrs) : Prop where
  onDisk : data.inRealm = true → disk.inRealm = true
  readable : disk.inRealm = true → ∃ d, fetchLabel disk .alloc = some d ∧
    d.identifier = data.identifier ∧ d.anonymous = data.anonymous
  unnamed : data.anonymous = true → data.identifier = zeros _

theorem Consistent.of_load {data : InodeData} {disk : Xattrs}
    (h : fetchLabel disk .alloc = some data) : Consistent data disk := by
  obtain ⟨hrealm, -, hname⟩ := fetchLabel_alloc h
  exact ⟨fun hd => hrealm ▸ hd, fun _ => ⟨data, h, rfl, rfl⟩, hname⟩

theorem Consistent.relabel {data : InodeData} {disk : Xattrs} (h : Consistent data disk)
    (r : UpdateRecord) :
    Consistent (relabel (data, disk) r).1 (relabel (data, disk) r).2 := by
  unfold Citadel.relabel
  split
  · split
    · exact ⟨by simp, by simp, h.unnamed⟩
    · exact h
  · refine ⟨fun hrealm => ?_, fun hrealm => ?_, by simp⟩
    · simpa using .inr hrealm
    · have hstored : (some (hexDigits r.identifier.1) : Option (List UInt8)) =
          some (hexDigits r.identifier.1 ++ List.replicate 0 0) := by
        rw [List.replicate_zero, List.append_nil]
      exact ⟨_, fetchLabel_named (Nat.zero_le 1) hrealm hstored, rfl, rfl⟩

/-! ## Verdicts -/

/-- What `can_access` returns. -/
def System.verdict (s : System) (cur : Task) (i : Nat) (op : Operation) : Option Int :=
  (canAccess s cur i op).map Prod.snd

/-- One of the ways in applies. -/
def System.lets (s : System) (cur : Task) (i : Nat) (op : Operation) : Bool :=
  s.unprotected cur i || (s.exempt cur i || s.ownPipe cur i) || s.ticketed cur i op

theorem verdict_eq {s : System} (hrd : s.kernel.Ringed) (cur : Task) (i : Nat) (op : Operation) :
    s.verdict cur i op = some (if s.lets cur i op then 0 else eacces) := by
  rw [System.verdict, canAccess_eq hrd, Option.map_some, System.lets]
  congr 1
  cases s.unprotected cur i || (s.exempt cur i || s.ownPipe cur i) with
  | true => rfl
  | false => cases s.ticketed cur i op <;> rfl

/-- The system around the inode, with other tasks and another blob. -/
def System.around (s : System) (k : Kernel) (citadelPid : Pid) (i : Nat) (data : InodeData) :
    System :=
  { s with kernel := k, citadelPid := citadelPid, data := Function.update s.data i data }

/-- The inode is of a class that is open to all, whatever its label. -/
def Inode.openToAll (inode : Inode) : Bool :=
  inode.isDir || decide (inode.magic = .sockfs ∨ inode.magic = .sysfs ∨
    inode.magic = .securityfs ∨ inode.magic = .tmpfs)

/-- All that is looked at of a blob: three fields. -/
theorem lets_around (s : System) (k : Kernel) (citadelPid : Pid) (i : Nat) (data : InodeData)
    (cur : Task) (op : Operation) :
    (s.around k citadelPid i data).lets cur i op =
      (decide ((s.inode i).ino < 2) || !data.inRealm && !(k.cred cur.cred).inRealm ||
        ((s.inode i).openToAll || decide (data.identifier = publicIdentifier) ||
            decide (cur.pid = citadelPid) || ptyCheck (s.inode i) (k.cred cur.cred) ||
          decide ((s.inode i).magic = .pipefs) &&
            decide (data.identifier = (k.cred cur.cred).identifier)) ||
        !data.anonymous && scanList data.identifier op 0 (k.tickets (.task cur.cred))) := by
  simp only [System.lets, System.around, System.unprotected, System.exempt, System.ownPipe,
    System.ticketed, System.task, Function.update_self]
  rfl

/-- Whatever the tasks and their tickets: the two blobs get the same
verdicts. -/
def SameVerdicts (s : System) (i : Nat) (data data' : InodeData) : Prop :=
  ∀ k : Kernel, k.Wf → ∀ citadelPid cur op,
    (s.around k citadelPid i data).verdict cur i op =
      (s.around k citadelPid i data').verdict cur i op

theorem sameVerdicts_of_lets {s : System} {i : Nat} {data data' : InodeData}
    (h : ∀ k citadelPid cur op, (s.around k citadelPid i data).lets cur i op =
      (s.around k citadelPid i data').lets cur i op) : SameVerdicts s i data data' := by
  intro k hwf citadelPid cur op
  rw [verdict_eq hwf.ringed, verdict_eq hwf.ringed, h]

theorem sameVerdicts_of_eq {s : System} {i : Nat} {data data' : InodeData}
    (hrealm : data.inRealm = data'.inRealm) (hid : data.identifier = data'.identifier)
    (hanon : data.anonymous = data'.anonymous) : SameVerdicts s i data data' := by
  refine sameVerdicts_of_lets fun k citadelPid cur op => ?_
  rw [lets_around, lets_around, hrealm, hid, hanon]

theorem sameVerdicts_of_open {s : System} {i : Nat} (h : (s.inode i).openToAll = true)
    (data data' : InodeData) : SameVerdicts s i data data' := by
  refine sameVerdicts_of_lets fun k citadelPid cur op => ?_
  simp only [lets_around, h, Bool.true_or, Bool.or_true]

theorem sameVerdicts_of_public {s : System} {i : Nat} {data data' : InodeData}
    (h : data.identifier = publicIdentifier) (h' : data'.identifier = publicIdentifier) :
    SameVerdicts s i data data' := by
  refine sameVerdicts_of_lets fun k citadelPid cur op => ?_
  simp only [lets_around, h, h', decide_true, Bool.true_or, Bool.or_true]

/-- One task that gets in with the first blob and not with the second. -/
theorem differs_of_lets {s : System} {i : Nat} {data data' : InodeData} {k : Kernel}
    (hwf : k.Wf) (citadelPid : Pid) (cur : Task) (op : Operation)
    (hin : (s.around k citadelPid i data).lets cur i op = true)
    (hout : (s.around k citadelPid i data').lets cur i op = false) :
    ¬ SameVerdicts s i data data' := by
  intro h
  have hsame := h k hwf citadelPid cur op
  rw [verdict_eq hwf.ringed, verdict_eq hwf.ringed, hin, hout] at hsame
  revert hsame
  decide

/-! ## Tasks that tell labels apart -/

/-- Credential 0 of a task without tickets. -/
def plainTask (tainted : Bool) : Kernel :=
  Kernel.boot fun _ => { initTaskTrm (zeros _) none with inRealm := tainted }

theorem plainTask_wf (tainted : Bool) : (plainTask tainted).Wf := (Kernel.boot_keyed _).toWf

/-- Credential 0 of a tainted task with one ticket. -/
def ticketHolder (t : Ticket) : Kernel :=
  let k := plainTask true
  { k with heap := k.heap.alloc ⟨t, k.heap.fresh, k.heap.fresh⟩ }.setCred 0
    { k.cred 0 with ticketHead := some k.heap.fresh }

theorem ticketHolder_wf (t : Ticket) : (ticketHolder t).Wf := by
  refine ⟨?_, (plainTask_wf true).born⟩
  obtain ⟨ps, hr⟩ := (plainTask_wf true).ringed
  have hring : IsRing (ticketHolder t).heap [1] := by
    refine ⟨by simp, by simp, ?_⟩
    simp [Link, Heap.nextOf, Heap.prevOf, ticketHolder, Kernel.setCred, plainTask, Kernel.boot,
      Heap.empty, Heap.alloc]
  have hrings := (hr.alloc ⟨t, 1, 1⟩).replace (.task 0) hring (fun _ _ _ _ => ⟨rfl, rfl⟩) ?_
  · refine ⟨Function.update ps (.task 0) [1], ?_⟩
    rw [show (ticketHolder t).headOf = Function.update (plainTask true).headOf (.task 0) (some 1)
      from setCred_headOf _ 0 _]
    exact hrings
  · intro o _
    have hnotMem := hr.fresh_notMem o
    simpa [plainTask, Kernel.boot, Heap.empty] using hnotMem

theorem ticketHolder_tickets (t : Ticket) : (ticketHolder t).tickets (.task 0) = [t] := by
  rfl

/-- Outside the open classes the two ways of losing a label show. -/
theorem differs_of_realm {s : System} {i : Nat} {data data' : InodeData}
    (hino : 2 ≤ (s.inode i).ino) (hpipe : (s.inode i).magic ≠ .pipefs)
    (hopen : (s.inode i).openToAll = false) (hout : data.inRealm = false)
    (hin : data'.inRealm = true) (hid : data'.identifier ≠ publicIdentifier) :
    ¬ SameVerdicts s i data data' := by
  refine differs_of_lets (plainTask_wf false) 5 ⟨7, 0⟩ opOpen ?_ ?_
  · rw [lets_around, hout]
    simp [plainTask, Kernel.boot]
  · rw [lets_around, hin, hopen, decide_eq_false hid, decide_eq_false (by omega),
      decide_eq_false hpipe, show (plainTask false).tickets (.task 0) = [] from rfl]
    simp [plainTask, Kernel.boot, ptyCheck, initTaskTrm, scanList]

theorem differs_of_name {s : System} {i : Nat} {data data' : InodeData}
    (hino : 2 ≤ (s.inode i).ino) (hpipe : (s.inode i).magic ≠ .pipefs)
    (hopen : (s.inode i).openToAll = false) (hname : data.anonymous = false)
    (hanon : data'.anonymous = true) (hid : data'.identifier ≠ publicIdentifier) :
    ¬ SameVerdicts s i data data' := by
  refine differs_of_lets (ticketHolder_wf ⟨data.identifier, opOpen, 1⟩) 5 ⟨7, 0⟩ opOpen ?_ ?_
  · rw [lets_around, ticketHolder_tickets, hname]
    simp [scanList, Ticket.permits, show opOpen.has opOpen = true by decide]
  · rw [lets_around, hanon, hopen, decide_eq_false hid, decide_eq_false (by omega),
      decide_eq_false hpipe]
    simp [ticketHolder, plainTask, Kernel.boot, Kernel.setCred, ptyCheck, initTaskTrm]

/-! ## When an eviction is invisible -/

/-- Flag and attribute agree, and outside the realm there is no identifier
in memory; or the file is public and its attribute is there. -/
def settled (data : InodeData) (disk : Xattrs) : Bool :=
  decide (data.inRealm = disk.inRealm) && (data.inRealm || data.anonymous) ||
    disk.inRealm && decide (data.identifier = publicIdentifier)

theorem sameVerdicts_iff {s : System} {i : Nat} {data data' : InodeData} {disk : Xattrs}
    (hino : 2 ≤ (s.inode i).ino) (hpipe : (s.inode i).magic ≠ .pipefs)
    (h : Consistent data disk) (hload : fetchLabel disk .alloc = some data') :
    SameVerdicts s i data data' ↔ ((s.inode i).openToAll || settled data disk) = true := by
  obtain ⟨hrealm', hanon', hname'⟩ := fetchLabel_alloc hload
  cases hopen : (s.inode i).openToAll with
  | true => exact ⟨fun _ => rfl, fun _ => sameVerdicts_of_open hopen data data'⟩
  | false =>
    rw [Bool.false_or]
    cases hdisk : disk.inRealm with
    | true =>
      obtain ⟨d, hd, hid, hanon⟩ := h.readable hdisk
      obtain rfl : d = data' := Option.some.inj (hd.symm.trans hload)
      cases hrealm : data.inRealm with
      | true =>
        refine ⟨fun _ => by simp [settled, hdisk, hrealm], fun _ => ?_⟩
        exact sameVerdicts_of_eq (by rw [hrealm, hrealm', hdisk]) hid.symm hanon.symm
      | false =>
        by_cases hpublic : data.identifier = publicIdentifier
        · refine ⟨fun _ => by simp [settled, hdisk, hpublic], fun _ => ?_⟩
          exact sameVerdicts_of_public hpublic (hid.trans hpublic)
        · refine ⟨fun hsame => absurd hsame ?_, fun hset => ?_⟩
          · exact differs_of_realm hino hpipe hopen hrealm (hrealm'.trans hdisk)
              (fun heq => hpublic (hid.symm.trans heq))
          · simp [settled, hdisk, hrealm, hpublic] at hset
    | false =>
      have hrealm : data.inRealm = false := by
        by_contra htrue
        have := h.onDisk (by simpa using htrue)
        rw [hdisk] at this
        cases this
      have hzeros : (zeros identifierLength : Identifier) ≠ publicIdentifier := by decide
      cases hanon : data.anonymous with
      | true =>
        refine ⟨fun _ => by simp [settled, hdisk, hrealm, hanon], fun _ => ?_⟩
        exact sameVerdicts_of_eq (by rw [hrealm, hrealm', hdisk])
          (by rw [h.unnamed hanon, hname' (hanon' hdisk)]) (by rw [hanon, hanon' hdisk])
      | false =>
        refine ⟨fun hsame => absurd hsame ?_, fun hset => ?_⟩
        · exact differs_of_name hino hpipe hopen hanon (hanon' hdisk)
            (by rw [hname' (hanon' hdisk)]; exact hzeros)
        · simp [settled, hdisk, hrealm, hanon] at hset

/-- What each kind of record leaves behind. -/
theorem relabel_settled (data : InodeData) (disk : Xattrs) (r : UpdateRecord) :
    settled (relabel (data, disk) r).1 (relabel (data, disk) r).2 =
      if r.operation.has opDeclassify then
        if data.inRealm then data.anonymous else settled data disk
      else r.operation.has opRegister ||
        disk.inRealm && decide (r.identifier = publicIdentifier) := by
  unfold relabel
  cases r.operation.has opDeclassify with
  | true =>
    cases hrealm : data.inRealm with
    | true => simp [settled]
    | false => simp
  | false =>
    cases r.operation.has opRegister with
    | true => simp [settled]
    | false => simp [settled]

theorem installRun_consistent {A : Gcm} {i : Nat} (ops : List LabelOp) {s : Lsm}
    (hreg : s.registered = true) (h : Consistent (s.system.data i) (s.system.disk i)) :
    ∃ s', installRun A i s ops = some s' ∧ s'.system.inode = s.system.inode ∧
      Consistent (s'.system.data i) (s'.system.disk i) := by
  induction ops generalizing s with
  | nil => exact ⟨s, rfl, rfl, h⟩
  | cons op ops ih =>
    have hnext : Consistent (relabel (s.system.data i, s.system.disk i) op.record).1
        (relabel (s.system.data i, s.system.disk i) op.record).2 := h.relabel op.record
    obtain ⟨s', hrun, hinode, hcons⟩ := ih
      (s := updateAesKey (s.setLabel i (relabel (s.system.data i, s.system.disk i) op.record).1
        (relabel (s.system.data i, s.system.disk i) op.record).2) op.keyUpdate)
      hreg (by simpa [updateAesKey, Lsm.setLabel] using hnext)
    refine ⟨s', ?_, hinode, hcons⟩
    rw [installRun, List.foldlM_cons, installStep_relabel hreg]
    exact hrun

/-- For every disk inode with a loaded label and every sequence of label
messages: the inode can be reloaded, and no task sees a difference exactly
if its class is open to all or the label was settled before the eviction. -/
theorem eviction_invisible_iff {A : Gcm} {s : Lsm} {i : Nat} (hreg : s.registered = true)
    (hino : 2 ≤ (s.system.inode i).ino) (hpipe : (s.system.inode i).magic ≠ .pipefs)
    {task₀ : TaskData} {vfs₀ : VfsResult} {disk₀ : Xattrs}
    (hload : reload task₀ (s.system.inode i) vfs₀ disk₀ =
      some (s.system.data i, s.system.disk i))
    (ops : List LabelOp) (task : TaskData) (vfs : VfsResult) :
    ∃ s' data', installRun A i s ops = some s' ∧
      reload task (s'.system.inode i) vfs (s'.system.disk i) = some (data', s'.system.disk i) ∧
      (SameVerdicts s'.system i (s'.system.data i) data' ↔
        ((s'.system.inode i).openToAll || settled (s'.system.data i) (s'.system.disk i)) =
          true) := by
  rw [reload_eq hino hpipe] at hload
  obtain ⟨data₀, hfetch, hpair⟩ := Option.map_eq_some_iff.mp hload
  obtain ⟨hdata, hdisk⟩ := Prod.mk.inj hpair
  rw [hdata, hdisk] at hfetch
  obtain ⟨s', hrun, hinode, hcons⟩ := installRun_consistent (A := A) ops hreg
    (Consistent.of_load hfetch)
  have hino' : 2 ≤ (s'.system.inode i).ino := by rw [hinode]; exact hino
  have hpipe' : (s'.system.inode i).magic ≠ .pipefs := by rw [hinode]; exact hpipe
  have hreload : ∃ data', fetchLabel (s'.system.disk i) .alloc = some data' := by
    cases hrealm : (s'.system.disk i).inRealm with
    | true =>
      obtain ⟨d, hd, -⟩ := hcons.readable hrealm
      exact ⟨d, hd⟩
    | false =>
      exact ⟨{ InodeData.alloc with checkedDiskXattr := true },
        by simp [fetchLabel, InodeData.alloc, hrealm]⟩
  obtain ⟨data', hdata'⟩ := hreload
  refine ⟨s', data', hrun, ?_, sameVerdicts_iff hino' hpipe' hcons hdata'⟩
  rw [reload_eq hino' hpipe', hdata']
  rfl

/-- A registered module and a file without a label, in memory. -/
def unlabelledFile : Lsm :=
  ⟨{ idleSystem with data := fun _ => { InodeData.alloc with checkedDiskXattr := true } },
    zeros _, zeros _, fill _ 3, fill _ 1, true⟩

/-- The record of an operation for identifier 9 9 … 9. -/
def ninesRecord (op : Operation) : LabelOp := ⟨zeros _, fill _ 1, ⟨7, fill _ 9, op⟩, zeros _⟩

theorem registered_file_evicted :
    ∃ s' data', installRun (Aead.keyTag _ _) 0 unlabelledFile [ninesRecord opRegister] = some s' ∧
      SameVerdicts s'.system 0 (s'.system.data 0) data' := by
  obtain ⟨s', data', hrun, -, hiff⟩ := eviction_invisible_iff (A := Aead.keyTag _ _)
    (s := unlabelledFile) (i := 0) rfl (by decide) (by decide)
    (show reload (initTaskTrm (zeros _) none) (unlabelledFile.system.inode 0) ⟨true, true⟩
      ⟨false, none⟩ = some (unlabelledFile.system.data 0, unlabelledFile.system.disk 0) by decide)
    [ninesRecord opRegister] (initTaskTrm (zeros _) none) ⟨true, true⟩
  refine ⟨s', data', hrun, hiff.mpr ?_⟩
  have hsettled : (installRun (Aead.keyTag _ _) 0 unlabelledFile [ninesRecord opRegister]).map
      (fun s => settled (s.system.data 0) (s.system.disk 0)) = some true := by decide +kernel
  rw [hrun, Option.map_some, Option.some.injEq] at hsettled
  rw [hsettled, Bool.or_true]

/-- The verdicts for pid 7 before and after an eviction. -/
def evictedVerdicts (ops : List LabelOp) (k : Kernel) : Option (Option Int × Option Int) := do
  let s ← installRun (Aead.keyTag _ _) 0 unlabelledFile ops
  let (data, _) ← reload (initTaskTrm (zeros _) none) (s.system.inode 0) ⟨true, true⟩
    (s.system.disk 0)
  some ((s.system.around k 5 0 (s.system.data 0)).verdict ⟨7, 0⟩ 0 opOpen,
    (s.system.around k 5 0 data).verdict ⟨7, 0⟩ 0 opOpen)

/-- A file labelled without registration, one registered and relabelled
without, and one registered and declassified. The first and the third are
closed to the holder of a ticket after the eviction, the second to
everybody. -/
theorem labels_lost_on_eviction :
    evictedVerdicts [ninesRecord opOpen] (ticketHolder ⟨fill _ 9, opOpen, 1⟩) =
      some (some 0, some eacces) ∧
    evictedVerdicts [ninesRecord opRegister, ninesRecord opOpen] (plainTask false) =
      some (some 0, some eacces) ∧
    evictedVerdicts [ninesRecord opRegister, ninesRecord opDeclassify]
      (ticketHolder ⟨fill _ 9, opOpen, 1⟩) = some (some 0, some eacces) := by
  decide +kernel

end Citadel
