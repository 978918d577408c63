/-
Citadel.Lsm.ShmGate — when the shared memory hooks fail closed.

`shm_can_access` is a copy of the scan of `can_access` without what comes
before it there: no test for a credential without tickets, and no
housekeeping of the task, which is where tickets expire. And the test for
a missing segment is answered with the key of the missing segment.

So a call faults on a NULL segment and on a guarded access by a credential
without tickets, and it honours tickets of any age
(`shm_gate_fails_closed_iff`). Nothing else goes wrong: the scan itself
ends on every ring, and an access it does not allow is refused.
-/
import Citadel.Lsm.AccessTheorems
import Citadel.Lsm.SegmentTaint

namespace Citadel

open Bytes SearchTree

/-! ## The gate -/

/-- Task or segment is in the realm, and the caller is not Citadel. -/
def IpcSystem.guarded (s : IpcSystem) (cur : Task) (j : Nat) : Bool :=
  ((s.system.task cur).inRealm || (s.segment j).data.inRealm) &&
    decide (cur.pid ≠ s.system.citadelPid)

/-- The tickets of the caller. -/
def IpcSystem.ring (s : IpcSystem) (cur : Task) : List Ticket :=
  s.system.kernel.tickets (.task cur.cred)

/-- The caller has a ticket for the segment that has not expired. -/
def IpcSystem.holdsLive (s : IpcSystem) (cur : Task) (j : Nat) (now : Int) : Bool :=
  (s.ring cur).any fun t =>
    t.permits (s.segment j).data.identifier opShm && decide (expiryThreshold now < t.timestamp)

/-- The call came to a verdict, and a guarded access without a live ticket
was refused. -/
def FailsClosed (s : IpcSystem) (cur : Task) (perm : Option Nat) (now : Int)
    (out : Option (IpcSystem × Int)) : Prop :=
  ∃ s' r, out = some (s', r) ∧
    ∀ j, perm = some j → s.guarded cur j = true → s.holdsLive cur j now = false → r = eacces

/-- There is a segment, and if the access is guarded there are tickets and
one the scan would find does not stand alone with its age. -/
def IpcSystem.gateSound (s : IpcSystem) (cur : Task) (perm : Option Nat) (now : Int) : Bool :=
  perm.elim false fun j =>
    !s.guarded cur j ||
      !(s.ring cur).isEmpty &&
        (!scanList (s.segment j).data.identifier opShm 0 (s.ring cur) || s.holdsLive cur j now)

/-! ## One call -/

/-- `shm_can_access` on a segment, as a table. -/
theorem shmCanAccess_eq {s : IpcSystem} (hrd : s.system.kernel.Ringed) (env : ShmEnv)
    (cur : Task) (j : Nat) :
    shmCanAccess s env cur (some j) =
      if s.guarded cur j then
        if (s.ring cur).isEmpty then none
        else if scanList (s.segment j).data.identifier opShm 0 (s.ring cur) then
          some (allowShmAccess (s.level cur j) env cur (s.segment j).key)
        else some (s, eacces)
      else some (allowShmAccess s env cur (s.segment j).key) := by
  simp only [shmCanAccess]
  cases htask : (s.system.task cur).inRealm || (s.segment j).data.inRealm with
  | false =>
    obtain ⟨ht, hseg⟩ := Bool.or_eq_false_iff.mp htask
    simp [IpcSystem.guarded, ht, hseg]
  | true =>
    have hrealm : (!(s.system.task cur).inRealm && !(s.segment j).data.inRealm) = false := by
      rw [← Bool.not_or, htask, Bool.not_true]
    by_cases hpid : cur.pid = s.system.citadelPid
    · simp [IpcSystem.guarded, hrealm, hpid]
    · simp only [IpcSystem.guarded, hrealm, hpid, htask, ne_eq, not_false_eq_true, decide_true,
        Bool.and_self, if_true, if_false, Bool.false_eq_true]
      have hempty := Kernel.tickets_isEmpty hrd (.task cur.cred)
      cases hhead : (s.system.task cur).ticketHead with
      | none =>
        have hnone : s.system.kernel.headOf (.task cur.cred) = none := hhead
        rw [hnone, Option.isNone_none] at hempty
        rw [IpcSystem.ring, hempty]
        rfl
      | some head =>
        have hsome : s.system.kernel.headOf (.task cur.cred) = some head := hhead
        have hscan := scanTickets_owner hrd hsome (s.segment j).data.identifier opShm
        rw [hsome, Option.isNone_some] at hempty
        simp only [IpcSystem.ring, hempty, hscan, Option.bind_eq_bind, Option.bind_some,
          Bool.false_eq_true, if_false]
        exact if_congr Iff.rfl rfl rfl

/-- An admission returns 0 or `-EIO`. -/
theorem allowShmAccess_ne_eacces (s : IpcSystem) (env : ShmEnv) (cur : Task) (key : Key) :
    (allowShmAccess s env cur key).2 ≠ eacces := by
  unfold allowShmAccess
  split
  · exact (show (0 : Int) ≠ eacces by decide)
  · dsimp only
    split <;> decide

/-- In every state the system can reach, for every call the kernel may
make and every reading of the clock: the gate fails closed exactly if it
is sound there. -/
theorem shm_gate_fails_closed_iff {s₀ s : IpcSystem} (hboot : s₀.system.Booted)
    {evs : List IpcEvent} (hrun : ipcRun s₀ evs = some s) (hook : ShmHook) (env : ShmEnv)
    (cur : Task) (perm : Option Nat) (now : Int) :
    FailsClosed s cur perm now (hook.call s env cur perm) ↔ s.gateSound cur perm now = true := by
  rw [ShmHook.call_eq]
  cases perm with
  | none =>
    -- the key of the missing segment is read
    refine ⟨?_, fun h => Bool.noConfusion h⟩
    rintro ⟨s', r, hcall, -⟩
    cases hcall
  | some j =>
    rw [shmCanAccess_eq (ipcRun_wf hboot hrun).ringed, IpcSystem.gateSound, Option.elim_some]
    cases hguard : s.guarded cur j with
    | false =>
      refine iff_of_true ⟨_, _, if_neg Bool.false_ne_true, ?_⟩ rfl
      intro i hi hguarded
      obtain rfl : j = i := Option.some.inj hi
      rw [hguard] at hguarded
      cases hguarded
    | true =>
      rw [if_pos rfl, Bool.not_true, Bool.false_or]
      cases hempty : (s.ring cur).isEmpty with
      | true =>
        refine iff_of_false ?_ (by simp)
        rintro ⟨s', r, hcall, -⟩
        cases hcall
      | false =>
        rw [if_neg Bool.false_ne_true, Bool.not_false, Bool.true_and]
        cases hscan : scanList (s.segment j).data.identifier opShm 0 (s.ring cur) with
        | false =>
          refine iff_of_true ⟨_, _, if_neg Bool.false_ne_true, ?_⟩ rfl
          intro i hi hguarded hdead
          rfl
        | true =>
          rw [if_pos rfl, Bool.not_true, Bool.false_or]
          constructor
          · rintro ⟨s', r, hcall, hrefused⟩
            by_contra hdead
            have hr := hrefused j rfl hguard (by simpa using hdead)
            have hcode := congrArg Prod.snd (Option.some.inj hcall)
            exact allowShmAccess_ne_eacces (s.level cur j) env cur _ (hcode.trans hr)
          · intro hlive
            refine ⟨_, _, rfl, ?_⟩
            intro i hi hguarded hdead
            obtain rfl : j = i := Option.some.inj hi
            rw [hlive] at hdead
            cases hdead

/-- Pid 8, tainted, with a ticket from time 100 for the segment with key 9. -/
theorem live_ticket_fails_closed :
    ∃ s, ipcRun freshSegment firstAttached = some s ∧
      FailsClosed s ⟨8, 2⟩ (some 0) 300 (ShmHook.shmat.call s calmShm ⟨8, 2⟩ (some 0)) := by
  obtain ⟨s, hrun, hsound⟩ := Option.map_eq_some_iff.mp
    (show (ipcRun freshSegment firstAttached).map (·.gateSound ⟨8, 2⟩ (some 0) 300) = some true by
      decide +kernel)
  exact ⟨s, hrun, (shm_gate_fails_closed_iff ⟨_, rfl⟩ hrun .shmat calmShm ⟨8, 2⟩ (some 0)
    300).mpr hsound⟩

/-- The same ticket a minute later, when no hook for files has run in
between; the same access without a ticket; `shmctl` without a segment. -/
theorem shm_gate_open :
    ((ipcRun freshSegment firstAttached).bind fun s =>
      (ShmHook.shmat.call s calmShm ⟨8, 2⟩ (some 0)).map fun out =>
        (s.guarded ⟨8, 2⟩ 0, s.holdsLive ⟨8, 2⟩ 0 60000000000, out.2)) =
      some (true, false, 0) ∧
    (ShmHook.shmat.call freshSegment calmShm ⟨8, 2⟩ (some 0)).isNone = true ∧
    (ShmHook.shmctl.call freshSegment calmShm ⟨7, 1⟩ none).isNone = true := by
  decide +kernel

end Citadel
