/-
Citadel.Lsm.Confinement — whether taint is remembered.

A task in the realm carries data from the realm wherever it is let in, so
an inode it was let into should taint, or refuse, whoever comes later.
`can_access` taints the task that reads a tainted inode; the line that
would taint the inode a tainted task touches is commented out there. So
an unnamed pipe, which its tainted owner is always let into, and a file
that carries an identifier but is not in the realm both forget
(`taint_forgotten`).

What remains true: an inode that a tainted task was let into, and that was
in the realm at that moment, is a regular one and no pipe, confines
(`realm_inode_confines`). That an inode stays in the realm, whatever hooks
run in between, is the run invariant.
-/
import Citadel.Lsm.LiveTickets

namespace Citadel

/-- A tainted caller outside the exempt classes is let in, by the inode
number, as owner of a pipe or by a ticket, and the inode will not remember
it: it is a reserved one, a pipe, or not in the realm. -/
def System.forgets (s : System) (cur : Task) (i : Nat) : Bool :=
  (s.task cur).inRealm && !s.exempt cur i &&
  (decide ((s.inode i).ino < 2) || s.ownPipe cur i ||
    (s.ticketed cur i opOpen &&
      (!(s.data i).inRealm || decide ((s.inode i).magic = .pipefs))))

/-- The event replaces labels: an install, a declassification, an
eviction. -/
def LsmEvent.relabels : LsmEvent → Bool
  | .labels _ _ _ => true
  | _ => false

/-! ## The realm does not shrink -/

/-- The inode is in the realm, a regular one and no pipe. -/
structure System.Remembers (s : System) (i : Nat) : Prop where
  realm : (s.data i).inRealm = true
  ino : 2 ≤ (s.inode i).ino
  notPipe : (s.inode i).magic ≠ .pipefs

theorem Prepared.remembers {s s₁ : System} {cur : Task} {j : Nat} {now : Int}
    (hp : Prepared s s₁ cur j now) {i : Nat} (h : s.Remembers i) : s₁.Remembers i := by
  refine ⟨?_, by rw [hp.inode]; exact h.ino, by rw [hp.inode]; exact h.notPipe⟩
  by_cases hij : i = j
  · subst hij
    exact hp.realm h.realm
  · rw [hp.data i hij]
    exact h.realm

/-- No event but a relabelling takes an inode out of the realm. -/
theorem lsmStep_remembers {s s' : System} {e : LsmEvent} {i : Nat} (hwf : s.kernel.Wf)
    (h : s.Remembers i) (hlabel : e.relabels = false) (hstep : lsmStep s e = some s') :
    s'.Remembers i := by
  cases e with
  | insertTicket rb now r =>
    obtain ⟨⟨k, b⟩, -, hs⟩ := Option.bind_eq_some_iff.mp hstep
    cases hs
    exact ⟨h.realm, h.ino, h.notPipe⟩
  | hook hook cur j now vfs =>
    obtain ⟨⟨s₂, r⟩, hcall, hs⟩ := Option.bind_eq_some_iff.mp hstep
    cases hs
    obtain ⟨s₁, -, hp, -, -, rfl | rfl⟩ := Hook.call_cases hwf hcall
    · exact hp.remembers h
    · have h₁ := hp.remembers h
      exact ⟨h₁.realm, h₁.ino, h₁.notPipe⟩
  | housekeeping cur now =>
    obtain ⟨k, -, hs⟩ := Option.bind_eq_some_iff.mp hstep
    cases hs
    exact ⟨h.realm, h.ino, h.notPipe⟩
  | initTask cred random previous =>
    cases hstep
    exact ⟨h.realm, h.ino, h.notPipe⟩
  | labels data disk citadelPid => cases hlabel

theorem lsmRun_remembers {s s' : System} {evs : List LsmEvent} {i : Nat} (hwf : s.kernel.Wf)
    (h : s.Remembers i) (hlabel : ∀ e ∈ evs, e.relabels = false)
    (hrun : lsmRun s evs = some s') : s'.kernel.Wf ∧ s'.Remembers i :=
  Run.invariant (P := fun s => s.kernel.Wf ∧ s.Remembers i)
    (Q := fun e => e.relabels = false)
    (fun _ _ _ hs he hstep => ⟨lsmStep_wf hs.1 hstep, lsmStep_remembers hs.1 hs.2 he hstep⟩)
    ⟨hwf, h⟩ hlabel hrun

/-! ## Confinement -/

/-- A tainted caller that is let in without the inode forgetting is let
into one that remembers. -/
theorem remembers_of_granted {s s' : System} (hwf : s.kernel.Wf) {cur : Task} {i : Nat}
    (hgrant : decideAccess s cur i = some (s', 0)) (htaint : (s.task cur).inRealm = true)
    (hexempt : s.exempt cur i = false) (hforget : s.forgets cur i = false) :
    s.Remembers i := by
  rw [decideAccess_eq hwf.ringed, hexempt] at hgrant
  simp only [System.forgets, htaint, hexempt, Bool.true_and, Bool.not_false, Bool.or_eq_false_iff,
    decide_eq_false_iff_not, Nat.not_lt] at hforget
  obtain ⟨⟨hino, hpipe⟩, hticket⟩ := hforget
  have hprot : s.unprotected cur i = false := System.unprotected_eq_false hino (.inr htaint)
  simp only [hprot, hpipe, Bool.or_false, Bool.false_eq_true, if_false, Option.some.injEq] at hgrant
  split at hgrant
  · rename_i hyes
    rw [hyes, Bool.true_and, Bool.or_eq_false_iff] at hticket
    exact ⟨by simpa using hticket.1, hino, by simpa using hticket.2⟩
  · cases hgrant

/-- An untainted caller outside the exempt classes is refused by an inode
that remembers, or leaves tainted. -/
theorem refused_or_tainted {s s' : System} (hwf : s.kernel.Wf) {cur : Task} {i : Nat} {r : Int}
    (h : s.Remembers i) (hexempt : s.exempt cur i = false)
    (hdec : decideAccess s cur i = some (s', r)) : r ≠ 0 ∨ (s'.task cur).inRealm = true := by
  have hprot : s.unprotected cur i = false := System.unprotected_eq_false h.ino (.inl h.realm)
  have hpipe : s.ownPipe cur i = false := by
    simp [System.ownPipe, h.notPipe]
  rw [decideAccess_eq hwf.ringed, hprot, hexempt, hpipe, h.realm] at hdec
  simp only [Bool.or_false, Bool.false_eq_true, if_false, if_true, Option.some.injEq] at hdec
  split at hdec
  · cases hdec
    exact .inr (by simp [System.taint, System.task, Kernel.setCred])
  · cases hdec
    exact .inl (by decide)

/-- Over every run without a relabelling: once a tainted task outside the
exempt classes has been let into an inode that does not forget, every later
access to that inode by a task outside the exempt classes is refused or
leaves that task tainted. -/
theorem realm_inode_confines {s₀ s₁ d s₂ s₃ d' s₄ : System} (hboot : s₀.Booted)
    {pre mid : List LsmEvent} {hook hook' : Hook} {cur cur' : Task} {i : Nat} {now now' : Int}
    {vfs vfs' : VfsResult} {r : Int} (hpre : lsmRun s₀ pre = some s₁)
    (htaint : (s₁.task cur).inRealm = true)
    (hprep : hook.prepare s₁ cur i now vfs = some d)
    (hgrant : hook.call s₁ cur i now vfs = some (s₂, 0))
    (hexempt : d.exempt cur i = false) (hforget : d.forgets cur i = false)
    (hmid : lsmRun s₂ mid = some s₃) (hlabel : ∀ e ∈ mid, e.relabels = false)
    (hprep' : hook'.prepare s₃ cur' i now' vfs' = some d')
    (hlater : hook'.call s₃ cur' i now' vfs' = some (s₄, r))
    (hexempt' : d'.exempt cur' i = false) :
    r ≠ 0 ∨ (s₄.task cur').inRealm = true := by
  have hwf₁ := lsmRun_wf hboot hpre
  -- the first access is decided on an inode that remembers
  obtain ⟨d₀, hd₀, hp, hwfd, hdec, hs₂⟩ := Hook.call_cases hwf₁ hgrant
  obtain rfl : d₀ = d := by rw [hprep, Option.some.injEq] at hd₀; exact hd₀.symm
  have htaintd : (d₀.task cur).inRealm = true := by
    obtain ⟨k, hk, -, -, hcred⟩ := taskHousekeeping_wf hwf₁ cur now
    rw [hp.kernel, Option.some.injEq] at hk
    rw [System.task, hk, (hcred _).1]
    exact htaint
  have hrem := remembers_of_granted hwfd hdec htaintd hexempt hforget
  have hwf₂ : s₂.kernel.Wf ∧ s₂.Remembers i := by
    rcases hs₂ with rfl | rfl
    · exact ⟨hwfd, hrem⟩
    · exact ⟨setCred_wf hwfd rfl, hrem.realm, hrem.ino, hrem.notPipe⟩
  -- it still does at the later one
  obtain ⟨hwf₃, hrem₃⟩ := lsmRun_remembers hwf₂.1 hwf₂.2 hlabel hmid
  obtain ⟨d₁, hd₁, hp', hwfd', hdec', -⟩ := Hook.call_cases hwf₃ hlater
  obtain rfl : d₁ = d' := by rw [hprep', Option.some.injEq] at hd₁; exact hd₁.symm
  exact refused_or_tainted hwfd' (hp'.remembers hrem₃) hexempt' hdec'

/-- A pipe at 0, a labelled file outside the realm at 1, the secret file
everywhere else. -/
def pipeAndFiles : System :=
  { secretFile with
    inode := fun i => ⟨10 + i, false, if i = 0 then .pipefs else .other⟩
    data := fun i =>
      if i = 0 then .alloc
      else if i = 1 then ⟨false, false, true, false, false, Bytes.fill _ 5⟩
      else secretFile.data i }

/-- Pid 7 opens the secret file with its ticket, and is tainted. -/
def openSecret : List LsmEvent :=
  [secretTicket, .hook .fileOpen ⟨7, 0⟩ 2 200 ⟨true, true⟩]

/-- What is seen of an access: the taint of the caller, whether it is
exempt, the verdict, and the taint afterwards. -/
def observe (s : System) (cur : Task) (i : Nat) (now : Int) :
    Option (System × (Bool × Bool × Int × Bool)) := do
  let d ← Hook.filePermission.prepare s cur i now ⟨true, true⟩
  let (s', r) ← Hook.filePermission.call s cur i now ⟨true, true⟩
  some (s', (s.task cur).inRealm, d.exempt cur i, r, (s'.task cur).inRealm)

theorem secretFile_confines :
    ∃ s₁ s₂ s₄ r, lsmRun pipeAndFiles openSecret = some s₁ ∧
      Hook.filePermission.call s₁ ⟨7, 0⟩ 2 300 ⟨true, true⟩ = some (s₂, 0) ∧
      Hook.filePermission.call s₂ ⟨8, 1⟩ 2 400 ⟨true, true⟩ = some (s₄, r) ∧
      (r ≠ 0 ∨ (s₄.task ⟨8, 1⟩).inRealm = true) := by
  obtain ⟨s₁, hrun, h⟩ := Option.bind_eq_some_iff.mp
    (show ((lsmRun pipeAndFiles openSecret).bind fun s₁ =>
      (Hook.filePermission.prepare s₁ ⟨7, 0⟩ 2 300 ⟨true, true⟩).bind fun d =>
      (Hook.filePermission.call s₁ ⟨7, 0⟩ 2 300 ⟨true, true⟩).bind fun out =>
      (Hook.filePermission.prepare out.1 ⟨8, 1⟩ 2 400 ⟨true, true⟩).bind fun d' =>
      (Hook.filePermission.call out.1 ⟨8, 1⟩ 2 400 ⟨true, true⟩).map fun _ =>
        ((s₁.task ⟨7, 0⟩).inRealm, d.exempt ⟨7, 0⟩ 2, d.forgets ⟨7, 0⟩ 2, out.2,
          d'.exempt ⟨8, 1⟩ 2)) = some (true, false, false, 0, false) by decide)
  obtain ⟨d, hprep, h⟩ := Option.bind_eq_some_iff.mp h
  obtain ⟨⟨s₂, r₀⟩, hcall, h⟩ := Option.bind_eq_some_iff.mp h
  obtain ⟨d', hprep', h⟩ := Option.bind_eq_some_iff.mp h
  obtain ⟨⟨s₄, r⟩, hlater, h⟩ := Option.map_eq_some_iff.mp h
  simp only [Prod.mk.injEq] at h
  obtain ⟨htaint, hexempt, hforget, rfl, hexempt'⟩ := h
  exact ⟨s₁, s₂, s₄, r, hrun, hcall, hlater,
    realm_inode_confines ⟨_, rfl⟩ hrun htaint hprep hcall hexempt hforget
      (show lsmRun s₂ [] = some s₂ from rfl) (fun e he => by cases he) hprep' hlater hexempt'⟩

/-- Pid 7, tainted, is let into its pipe and, with a ticket, into the
labelled file. Pid 8, untainted and exempt from nothing, is then let into
both and stays untainted. -/
theorem taint_forgotten :
    ((lsmRun pipeAndFiles openSecret).bind fun s₁ =>
      (observe s₁ ⟨7, 0⟩ 0 300).bind fun first =>
      (observe first.1 ⟨8, 1⟩ 0 400).map fun later => (first.2, later.2)) =
      some ((true, false, 0, true), (false, false, 0, false)) ∧
    ((lsmRun pipeAndFiles (openSecret ++
        [.insertTicket .none .ok 250 ⟨7, Bytes.fill _ 5, opOpen⟩])).bind fun s₁ =>
      (observe s₁ ⟨7, 0⟩ 1 300).bind fun first =>
      (observe first.1 ⟨8, 1⟩ 1 400).map fun later => (first.2, later.2)) =
      some ((true, false, 0, true), (false, false, 0, false)) := by
  constructor <;> decide

end Citadel
