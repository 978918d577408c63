/-
Citadel.Lsm.Task — the life of a credential: `init_task_trm` and the hooks
around it (`lsm/src/lsm_functions/task.c`), and the housekeeping every
hook starts with, `task_housekeeping` of `lsm/src/common.c`.
-/
import Citadel.Lsm.TicketQueues

namespace Citadel

open RingHeap SearchTree

/-! ## Credentials -/

/-- `init_task_trm`; `random` is what `get_random_bytes` delivers. -/
def initTaskTrm (random : Identifier) (previous : Option TaskData) : TaskData :=
  let data : TaskData :=
    { inRealm := false, grantedPty := false, ticketHead := none, pid := 1, identifier := random }
  match previous with
  | none => data
  | some previous => { data with inRealm := previous.inRealm, grantedPty := previous.grantedPty }

def trmCredAllocBlank (k : Kernel) (cred : Nat) (random : Identifier) : Kernel :=
  k.setCred cred (initTaskTrm random none)

def trmCredPrepare (k : Kernel) (new old : Nat) (random : Identifier) : Kernel :=
  k.setCred new (initTaskTrm random (some (k.cred old)))

/-- The body of `trm_task_free` is a comment. -/
def trmTaskFree (k : Kernel) (_pid : Pid) : Kernel := k

/-- `trm_cred_free` only prints. -/
def trmCredFree (k : Kernel) (_cred : Nat) : Kernel := k

theorem initTaskTrm_ticketHead (random : Identifier) (previous : Option TaskData) :
    (initTaskTrm random previous).ticketHead = none := by
  cases previous <;> rfl

/-! ## Housekeeping -/

def taskHousekeeping (k : Kernel) (cur : Task) (now : Int) : Option Kernel :=
  if 1 < cur.pid.toInt then
    let d := k.cred cur.cred
    let k := if d.pid = 1 then k.setCred cur.cred { d with pid := cur.pid } else k
    checkTicketCache k cur now
  else some k

/-! ## Writing a credential -/

theorem setCred_headOf (k : Kernel) (c : Nat) (d : TaskData) :
    (k.setCred c d).headOf = Function.update k.headOf (.task c) d.ticketHead := by
  funext o
  cases o with
  | res n => simp [Kernel.headOf, Kernel.setCred]
  | task m =>
    by_cases hm : m = c
    · subst hm; simp [Kernel.headOf, Kernel.setCred]
    · simp [Kernel.headOf, Kernel.setCred, hm]

theorem setCred_sameTree (k : Kernel) (c : Nat) (d : TaskData) : k.SameTree (k.setCred c d) :=
  ⟨rfl, rfl, fun _ => rfl⟩

/-- A write that leaves the ring head alone leaves every ring alone. -/
theorem setCred_keeps_rings {k : Kernel} {c : Nat} {d : TaskData}
    (hd : d.ticketHead = (k.cred c).ticketHead) :
    (k.setCred c d).headOf = k.headOf ∧ (k.setCred c d).tickets = k.tickets := by
  have hhead : (k.setCred c d).headOf = k.headOf := by
    rw [setCred_headOf, hd]
    exact Function.update_eq_self _ _
  refine ⟨hhead, ?_⟩
  unfold Kernel.tickets
  rw [hhead]
  rfl

theorem setCred_wf {k : Kernel} (hwf : k.Wf) {c : Nat} {d : TaskData}
    (hd : d.ticketHead = (k.cred c).ticketHead) : (k.setCred c d).Wf := by
  refine ⟨?_, hwf.born⟩
  rw [Kernel.Ringed, (setCred_keeps_rings hd).1]
  exact hwf.ringed

theorem setCred_keyed {k : Kernel} (hk : k.Keyed) {c : Nat} {d : TaskData}
    (hd : d.ticketHead = (k.cred c).ticketHead) : (k.setCred c d).Keyed :=
  hk.of_sameTree (setCred_sameTree k c d) (setCred_wf hk.toWf hd).ringed

/-- A write of flags other than the PTY flag changes no queue. -/
theorem setCred_queues {k : Kernel} {c : Nat} {d : TaskData}
    (hd : d.ticketHead = (k.cred c).ticketHead) (hp : d.grantedPty = (k.cred c).grantedPty) :
    (k.setCred c d).queues = k.queues := by
  have htickets := (setCred_keeps_rings hd).2
  have hsearch := (setCred_sameTree k c d).search
  ext1
  · funext p
    simp only [Kernel.queues, hsearch, htickets]
  · funext p
    simp only [Kernel.queues, hsearch]
    rfl
  · funext m
    simp only [Kernel.queues, htickets]
  · funext m
    by_cases hm : m = c
    · subst hm; simp [Kernel.queues, Kernel.setCred, hp]
    · simp [Kernel.queues, Kernel.setCred, hm]

/-! ## What the queues see of it -/

/-- A credential is set up anew: it holds nothing. -/
def Queues.reset (q : Queues) (c : Nat) (pty : Bool) : Queues :=
  { q with held := Function.update q.held c [], ptyHeld := Function.update q.ptyHeld c pty }

/-- Pids up to 1 claim nothing. -/
def Queues.housekeep (q : Queues) (cur : Task) (now : Int) : Queues :=
  if 1 < cur.pid.toInt then (q.claim cur).expire cur now else q

theorem setCred_reset_wf {k : Kernel} (hwf : k.Wf) (c : Nat) {d : TaskData}
    (hd : d.ticketHead = none) : (k.setCred c d).Wf := by
  obtain ⟨ps, hr⟩ := hwf.ringed
  have hrings := hr.replace (.task c) (isRing_nil k.heap)
    (fun _ _ _ _ => ⟨rfl, rfl⟩) (fun _ _ => List.disjoint_nil_left _)
  rw [List.head?_nil, ← hd, ← setCred_headOf] at hrings
  exact ⟨⟨_, hrings⟩, hwf.born⟩

/-- Setting a credential up without tickets abandons the ring it had. -/
theorem setCred_reset {k : Kernel} (hk : k.Keyed) (c : Nat) {d : TaskData}
    (hd : d.ticketHead = none) :
    (k.setCred c d).Keyed ∧ (k.setCred c d).queues = k.queues.reset c d.grantedPty := by
  have hhead := setCred_headOf k c d
  rw [hd] at hhead
  have hother : ∀ o, o ≠ .task c → (k.setCred c d).tickets o = k.tickets o := by
    intro o ho
    unfold Kernel.tickets
    rw [hhead, Function.update_of_ne ho]
    rfl
  have hsearch := (setCred_sameTree k c d).search
  constructor
  · exact hk.of_sameTree (setCred_sameTree k c d) (setCred_reset_wf hk.toWf c hd).ringed
  · ext1
    · funext p
      simp only [Kernel.queues, Queues.reset, hsearch]
      rfl
    · funext p
      simp only [Kernel.queues, Queues.reset, hsearch]
      rfl
    · funext m
      by_cases hm : m = c
      · subst hm
        simp only [Kernel.queues, Queues.reset, Function.update_self]
        rw [Kernel.tickets, hhead, Function.update_self]
        rfl
      · simp only [Kernel.queues, Queues.reset, Function.update_of_ne hm]
        exact hother _ (by simpa using hm)
    · funext m
      by_cases hm : m = c
      · subst hm; simp [Kernel.queues, Queues.reset, Kernel.setCred]
      · simp [Kernel.queues, Queues.reset, Kernel.setCred, hm]

/-- The pid a fresh credential is given is on no ring and in no queue. -/
theorem setCred_pid (k : Kernel) (cur : Task) :
    let k₀ := if (k.cred cur.cred).pid = 1 then
      k.setCred cur.cred { k.cred cur.cred with pid := cur.pid } else k
    (k.Wf → k₀.Wf) ∧ (k.Keyed → k₀.Keyed) ∧ k₀.queues = k.queues ∧
      ∀ c, (k₀.cred c).inRealm = (k.cred c).inRealm ∧
        (k₀.cred c).identifier = (k.cred c).identifier := by
  intro k₀
  by_cases hpid : (k.cred cur.cred).pid = 1
  · have hk₀ : k₀ = k.setCred cur.cred { k.cred cur.cred with pid := cur.pid } := if_pos hpid
    rw [hk₀]
    refine ⟨fun h => setCred_wf h rfl, fun h => setCred_keyed h rfl, setCred_queues rfl rfl,
      fun c => ?_⟩
    by_cases hc : c = cur.cred
    · subst hc; simp [Kernel.setCred]
    · simp [Kernel.setCred, hc]
  · have hk₀ : k₀ = k := if_neg hpid
    rw [hk₀]
    exact ⟨id, id, rfl, fun _ => ⟨rfl, rfl⟩⟩

/-- The housekeeping never faults, and moves no taint and no identifier.
For a pid above 1 it leaves the caller with tickets that have gone through
the expiry. -/
theorem taskHousekeeping_wf {k : Kernel} (hwf : k.Wf) (cur : Task) (now : Int) :
    ∃ k', taskHousekeeping k cur now = some k' ∧ k'.Wf ∧
      (1 < cur.pid.toInt →
        ∃ l, k'.tickets (.task cur.cred) = expire (expiryThreshold now) l) ∧
      ∀ c, (k'.cred c).inRealm = (k.cred c).inRealm ∧
        (k'.cred c).identifier = (k.cred c).identifier := by
  unfold taskHousekeeping
  by_cases hpid : 1 < cur.pid.toInt
  · obtain ⟨hwf₀, -, -, hsame⟩ := setCred_pid k cur
    obtain ⟨k', hrun, hwf', hl, hcred⟩ := checkTicketCache_wf (hwf₀ hwf) cur now
    simp only [if_pos hpid]
    refine ⟨k', hrun, hwf', fun _ => hl, fun c => ?_⟩
    rw [(hcred c).1, (hcred c).2]
    exact hsame c
  · simp only [if_neg hpid]
    exact ⟨k, rfl, hwf, fun h => absurd h hpid, fun _ => ⟨rfl, rfl⟩⟩

/-- On a keyed cache, the housekeeping does to the queues what
`Queues.housekeep` says. -/
theorem taskHousekeeping_refines {k : Kernel} (hk : k.Keyed) (cur : Task) (now : Int) :
    ∃ k', taskHousekeeping k cur now = some k' ∧ k'.Keyed ∧
      k'.queues = k.queues.housekeep cur now := by
  unfold taskHousekeeping Queues.housekeep
  by_cases hpid : 1 < cur.pid.toInt
  · obtain ⟨-, hk₀, hq₀, -⟩ := setCred_pid k cur
    obtain ⟨k', hrun, hk', hq, -⟩ := checkTicketCache_refines (hk₀ hk) cur now
    simp only [if_pos hpid]
    exact ⟨k', hrun, hk', by rw [hq, hq₀]⟩
  · simp only [if_neg hpid]
    exact ⟨k, rfl, hk, rfl⟩

end Citadel
