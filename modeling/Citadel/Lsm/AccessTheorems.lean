/-
Citadel.Lsm.AccessTheorems — what one access decision comes to.

Three things are brought from pointers to lists or tables here. The ticket
scan is `scanList` on the tickets the ring holds, and it ends on EVERY
ring (`scanTickets_ring`). `can_access` is a table of four lines
(`canAccess_eq`). A hook is its housekeeping followed by the decision
(`Hook.call_eq`), and the housekeeping changes the queues and the touched
inode and nothing else (`Hook.prepare_spec`).
-/
import Citadel.Lsm.Access

namespace Citadel

open RingHeap

/-! ## The scan on lists -/

/-- The scan of `can_access` over the tickets of a ring: it stops at the
first ticket that is not younger than the one before. -/
def scanList (identifier : Identifier) (op : Operation) : Int → List Ticket → Bool
  | _, [] => false
  | tracker, t :: rest =>
    if t.timestamp > tracker then
      t.permits identifier op || scanList identifier op t.timestamp rest
    else false

/-- Where the scan goes on, the head is not younger than the ticket it is
at. -/
theorem head_not_younger {h : Heap Ticket} {a p : Nat} {c₀ c : Cell Ticket} {tracker : Int}
    (hc₀ : h.cell a = some c₀) (hc : h.cell p = some c)
    (hle : p = a ∨ c₀.val.timestamp ≤ tracker) (hyoung : c.val.timestamp > tracker) :
    c₀.val.timestamp ≤ c.val.timestamp := by
  rcases hle with rfl | hle
  · rw [hc, Option.some.injEq] at hc₀
    rw [hc₀]
  · omega

/-- From any place the scan can have reached. `a` is the head, which is
not younger than what has been seen since. -/
theorem scanTickets_from {h : Heap Ticket} {identifier : Identifier} {op : Operation} {a : Nat}
    {c₀ : Cell Ticket} (hc₀ : h.cell a = some c₀) (ys : List Nat) :
    ∀ (xs : List Nat) (p fuel : Nat) (tracker : Int) (c : Cell Ticket),
      IsRing h (xs ++ p :: ys) → a ∈ (xs ++ p :: ys).head? → h.cell p = some c →
      (p = a ∨ c₀.val.timestamp ≤ tracker) → ys.length + 1 < fuel →
      scanTickets h identifier op fuel p tracker =
        some (scanList identifier op tracker (h.vals (p :: ys))) := by
  induction ys with
  | nil =>
    intro xs p fuel tracker c hr ha hc hle hf
    obtain ⟨f, rfl⟩ : ∃ f, fuel = f + 2 := ⟨fuel - 2, by simp at hf; omega⟩
    have hnext : c.next = a := (hr.link_last ha).next_eq hc
    simp only [scanTickets, hc, Option.bind_eq_bind, Option.bind_some, vals_cons hc, scanList,
      vals_nil]
    split
    · rename_i hyoung
      cases c.val.permits identifier op with
      | true => rfl
      | false =>
        -- back at the head, which is not younger than the last ticket
        have hstop : ¬ c₀.val.timestamp > c.val.timestamp :=
          not_lt_of_ge (head_not_younger hc₀ hc hle hyoung)
        simp [hnext, hc₀, hstop]
    · rfl
  | cons q ys ih =>
    intro xs p fuel tracker c hr ha hc hle hf
    obtain ⟨f, rfl⟩ : ∃ f, fuel = f + 1 := ⟨fuel - 1, by simp at hf; omega⟩
    have hnext : c.next = q := hr.link_mid.next_eq hc
    obtain ⟨d, hd⟩ := Option.isSome_iff_exists.mp (hr.live (p := q) (by simp))
    have hr' : IsRing h ((xs ++ [p]) ++ q :: ys) := by simpa using hr
    rw [vals_cons hc]
    simp only [scanTickets, hc, Option.bind_eq_bind, Option.bind_some, scanList]
    split
    · rename_i hyoung
      cases c.val.permits identifier op with
      | true => rfl
      | false =>
        have hle' := head_not_younger hc₀ hc hle hyoung
        have hrest := ih (xs ++ [p]) q f c.val.timestamp d hr' (by simpa using ha) hd
          (.inr hle') (by simpa using hf)
        simpa [hnext] using hrest
    · rfl

/-- On every ring, whatever its timestamps, the scan ends and sees what
`scanList` sees. -/
theorem scanTickets_ring {h : Heap Ticket} {ps : List Nat} {a : Nat} (hr : IsRing h ps)
    (ha : ps.head? = some a) (identifier : Identifier) (op : Operation) {fuel : Nat}
    (hfuel : h.fresh < fuel) :
    scanTickets h identifier op fuel a 0 = some (scanList identifier op 0 (h.vals ps)) := by
  cases ps with
  | nil => simp at ha
  | cons p t =>
    obtain rfl : p = a := by simpa using ha
    obtain ⟨c, hc⟩ := Option.isSome_iff_exists.mp (hr.live (p := p) (by simp))
    have hlen := hr.length_le
    exact scanTickets_from hc t [] p _ 0 c hr (by simp) hc (.inl rfl)
      (by simp only [List.length_cons] at hlen; omega)

/-- The scan from the head of an owner. -/
theorem scanTickets_owner {k : Kernel} (hrd : k.Ringed) {o : Owner} {head : Nat}
    (hhead : k.headOf o = some head) (identifier : Identifier) (op : Operation) :
    scanTickets k.heap identifier op (k.heap.fresh + 1) head 0 =
      some (scanList identifier op 0 (k.tickets o)) := by
  obtain ⟨ps, hr⟩ := hrd
  rw [Kernel.tickets_eq hr]
  exact scanTickets_ring (hr.ring _) ((hr.head_eq o).symm.trans hhead) _ op (Nat.lt_succ_self _)

/-- No head, no tickets. -/
theorem Kernel.tickets_isEmpty {k : Kernel} (hrd : k.Ringed) (o : Owner) :
    (k.tickets o).isEmpty = (k.headOf o).isNone := by
  obtain ⟨ps, hr⟩ := hrd
  rw [Kernel.tickets_eq hr, hr.head_eq o]
  cases hps : ps o with
  | nil => rfl
  | cons p rest =>
    have hring := hr.ring o
    rw [hps] at hring
    obtain ⟨c, hc⟩ := Option.isSome_iff_exists.mp (hring.live (p := p) (by simp))
    rw [vals_cons hc]
    rfl

/-- If every ticket is younger than the one before, the scan misses none. -/
theorem scanList_complete {identifier : Identifier} {op : Operation} {l : List Ticket} :
    ∀ {tracker : Int}, l.Pairwise (fun t u => t.timestamp < u.timestamp) →
      (∀ t ∈ l, tracker < t.timestamp) → (∃ t ∈ l, t.permits identifier op = true) →
      scanList identifier op tracker l = true := by
  induction l with
  | nil => rintro tracker - - ⟨t, ht, -⟩; cases ht
  | cons t rest ih =>
    rintro tracker hs hlt ⟨u, hu, hpu⟩
    unfold scanList
    rw [if_pos (hlt t List.mem_cons_self)]
    obtain ⟨hhead, htail⟩ := List.pairwise_cons.mp hs
    rcases List.mem_cons.mp hu with rfl | hu
    · rw [hpu, Bool.true_or]
    · rw [ih htail hhead ⟨u, hu, hpu⟩, Bool.or_true]

/-! ## `can_access` as a table -/

/-- The classes that `can_access` lets anybody into: directories, four file
systems, public resources, Citadel itself, and a granted PTY. -/
def System.exempt (s : System) (cur : Task) (i : Nat) : Bool :=
  (s.inode i).isDir ||
  decide ((s.inode i).magic = .sockfs ∨ (s.inode i).magic = .sysfs ∨
    (s.inode i).magic = .securityfs ∨ (s.inode i).magic = .tmpfs) ||
  decide ((s.data i).identifier = publicIdentifier) ||
  decide (cur.pid = s.citadelPid) ||
  ptyCheck (s.inode i) (s.task cur)

/-- An unnamed pipe with the identifier of the caller. -/
def System.ownPipe (s : System) (cur : Task) (i : Nat) : Bool :=
  decide ((s.inode i).magic = .pipefs) &&
  decide ((s.data i).identifier = (s.task cur).identifier)

/-- The caller has a ticket for the inode that the scan gets to. -/
def System.ticketed (s : System) (cur : Task) (i : Nat) (op : Operation) : Bool :=
  !(s.data i).anonymous &&
  scanList (s.data i).identifier op 0 (s.kernel.tickets (.task cur.cred))

/-- The caller becomes tainted. -/
def System.taint (s : System) (cur : Task) : System :=
  { s with kernel := s.kernel.setCred cur.cred { s.task cur with inRealm := true } }

/-- Neither side is in the realm, or the inode is one of the reserved ones. -/
def System.unprotected (s : System) (cur : Task) (i : Nat) : Bool :=
  decide ((s.inode i).ino < 2) || (!(s.data i).inRealm && !(s.task cur).inRealm)

theorem System.unprotected_eq_false {s : System} {cur : Task} {i : Nat}
    (hino : 2 ≤ (s.inode i).ino)
    (hrealm : (s.data i).inRealm = true ∨ (s.task cur).inRealm = true) :
    s.unprotected cur i = false := by
  rw [System.unprotected, decide_eq_false (Nat.not_lt.mpr hino), Bool.false_or]
  rcases hrealm with h | h
  · rw [h, Bool.not_true, Bool.false_and]
  · rw [h, Bool.not_true, Bool.and_false]

theorem ticketAccess_eq {s : System} (hrd : s.kernel.Ringed) (cur : Task) (i : Nat)
    (op : Operation) :
    ticketAccess s cur i op = some (
      if s.ticketed cur i op then (if (s.data i).inRealm then s.taint cur else s, 0)
      else (s, eacces)) := by
  unfold ticketAccess System.ticketed
  simp only
  split
  · rename_i hhead
    have hempty : s.kernel.tickets (.task cur.cred) = [] := by
      rw [Kernel.tickets, show s.kernel.headOf (.task cur.cred) = none from hhead]
      rfl
    simp [hempty, scanList]
  · rename_i head hhead
    have hscan := scanTickets_owner hrd (o := .task cur.cred) hhead (s.data i).identifier op
    simp only [hscan, Option.bind_eq_bind, Option.bind_some]
    cases (s.data i).anonymous with
    | true => rfl
    | false =>
      cases scanList (s.data i).identifier op 0 (s.kernel.tickets (.task cur.cred)) with
      | false => rfl
      | true => cases (s.data i).inRealm <;> rfl

/-- `can_access` always returns, and what it returns is this. -/
theorem canAccess_eq {s : System} (hrd : s.kernel.Ringed) (cur : Task) (i : Nat)
    (op : Operation) :
    canAccess s cur i op = some (
      if s.unprotected cur i || (s.exempt cur i || s.ownPipe cur i) then (s, 0)
      else if s.ticketed cur i op then (if (s.data i).inRealm then s.taint cur else s, 0)
      else (s, eacces)) := by
  unfold canAccess
  -- eleven branches with one outcome are one branch
  simp only [ticketAccess_eq hrd, ← ite_or]
  rw [← apply_ite some]
  refine congrArg some (if_congr ?_ rfl rfl)
  -- the code tests for an own pipe before the last three
  have hlast : ∀ p a b c : Prop, (p ∨ a ∨ b ∨ c) ↔ (a ∨ b ∨ c ∨ p) := by
    intro p a b c
    rw [or_comm, or_assoc, or_assoc]
  simp only [System.unprotected, System.exempt, System.ownPipe, Bool.or_eq_true,
    Bool.and_eq_true, decide_eq_true_eq, or_assoc]
  rw [hlast ((s.inode i).magic = .pipefs ∧ _)]

/-! ## Hooks -/

/-- The decision of a hook as a table. The guard before `can_access` adds
nothing: where it skips the call, the call would have allowed. -/
theorem decideAccess_eq {s : System} (hrd : s.kernel.Ringed) (cur : Task) (i : Nat) :
    decideAccess s cur i = some (
      if s.unprotected cur i || (s.exempt cur i || s.ownPipe cur i) then (s, 0)
      else if s.ticketed cur i opOpen then (if (s.data i).inRealm then s.taint cur else s, 0)
      else (s, eacces)) := by
  unfold decideAccess
  split
  · exact canAccess_eq hrd cur i opOpen
  · rename_i hout
    have hfree : s.unprotected cur i = true := by
      simp only [Bool.or_eq_true, not_or, Bool.not_eq_true] at hout
      simp [System.unprotected, hout]
    rw [hfree, Bool.true_or, if_pos rfl]

theorem Hook.call_eq (hook : Hook) (s : System) (cur : Task) (i : Nat) (now : Int)
    (vfs : VfsResult) :
    hook.call s cur i now vfs = (hook.prepare s cur i now vfs).bind (decideAccess · cur i) := by
  cases hook <;> rfl

/-- What the housekeeping of a hook does: that of the task to the kernel,
and of the rest it touches the one inode, which stays in the realm if it
was there. -/
structure Prepared (s s₁ : System) (cur : Task) (i : Nat) (now : Int) : Prop where
  kernel : taskHousekeeping s.kernel cur now = some s₁.kernel
  inode : s₁.inode = s.inode
  citadelPid : s₁.citadelPid = s.citadelPid
  data : ∀ j, j ≠ i → s₁.data j = s.data j
  realm : (s.data i).inRealm = true → (s₁.data i).inRealm = true

theorem inodeHousekeeping_inRealm (task : TaskData) (inode : Inode) (data : InodeData) :
    (inodeHousekeeping task inode data).inRealm = data.inRealm := by
  unfold inodeHousekeeping
  split
  · rfl
  · split
    · split <;> rfl
    · rfl

theorem fetchLabel_inRealm {disk : Xattrs} {data data' : InodeData}
    (h : fetchLabel disk data = some data') (hr : data.inRealm = true) :
    data'.inRealm = true := by
  unfold fetchLabel at h
  split at h
  · split at h
    · obtain ⟨label, -, hlabel⟩ := Option.bind_eq_some_iff.mp h
      cases label with
      | none => cases hlabel; rfl
      | some id =>
        obtain ⟨b, -, hb⟩ := Option.bind_eq_some_iff.mp hlabel
        cases hb; rfl
    · cases h; exact hr
  · cases h; exact hr

theorem flushLabel_inRealm (vfs : VfsResult) (disk : Xattrs) (data : InodeData) :
    (flushLabel vfs disk data).1.inRealm = data.inRealm := by
  unfold flushLabel
  split
  · split <;> rfl
  · rfl

theorem prepareInode_spec {s s₁ : System} {cur : Task} {i : Nat} {now : Int}
    (h : prepareInode s cur i now = some s₁) : Prepared s s₁ cur i now := by
  obtain ⟨k, hrun, hs⟩ := Option.bind_eq_some_iff.mp h
  cases hs
  refine ⟨hrun, rfl, rfl, ?_, ?_⟩
  · intro j hj
    simp [System.setData, hj]
  · intro hr
    simp [System.setData, inodeHousekeeping_inRealm, hr]

theorem prepareDentry_spec {s s₁ : System} {cur : Task} {i : Nat} {now : Int} {vfs : VfsResult}
    (h : prepareDentry s cur i now vfs = some s₁) : Prepared s s₁ cur i now := by
  obtain ⟨k, hrun, hs⟩ := Option.bind_eq_some_iff.mp h
  obtain ⟨⟨data, disk⟩, hlabel, hs⟩ := Option.bind_eq_some_iff.mp hs
  cases hs
  obtain ⟨d, hfetch, hflush⟩ := Option.bind_eq_some_iff.mp hlabel
  refine ⟨hrun, rfl, rfl, ?_, ?_⟩
  · intro j hj
    simp [System.setData, hj]
  · intro hr
    have hd := fetchLabel_inRealm hfetch (by rw [inodeHousekeeping_inRealm]; exact hr)
    have hdata : data = (flushLabel vfs (s.disk i) d).1 := by
      simp only [Option.some.injEq] at hflush
      exact hflush ▸ rfl
    simp [System.setData, hdata, flushLabel_inRealm, hd]

/-- The housekeeping of each of the three hooks. -/
theorem Hook.prepare_spec {hook : Hook} {s s₁ : System} {cur : Task} {i : Nat} {now : Int}
    {vfs : VfsResult} (h : hook.prepare s cur i now vfs = some s₁) :
    Prepared s s₁ cur i now := by
  cases hook with
  | inodePermission => exact prepareInode_spec h
  | fileOpen => exact prepareDentry_spec h
  | filePermission => exact prepareDentry_spec h

end Citadel
