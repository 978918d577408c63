/-
Citadel.Protocol.ApprovedIo — how long after an approval a process that
uses the library still reads and writes.

A run is any sequence of calls of the shim by one process, which may go on
in a child. The process keeps notes: what the enclave approved and when,
which descriptor `c_open` returned for which path, which ones came from
`c_socketpair`, which were closed, and whether `citadel_init` has gone over
the cache of a child. Every entry of the cache is then covered by a note
(`Noted`), and a read or write of a labelled descriptor that the shim
passes on is covered by a recent one (`io_recently_approved`). A child
inherits the notes with the entries; it sets their times to zero, so that
an entry is never younger than its note.

How recent: an entry for a descriptor is good for 13 seconds. `c_open`
makes such an entry also when it found the path in the cache, where an
approval is good for 14 seconds. So a descriptor can be in use 27 seconds
after the last approval, and as much longer as `c_open` itself took
(`twenty_seven_seconds`), where the kernel has dropped the ticket after 15.

The clock never goes back, and `tv_sec` is not negative (`Ticks`).
-/
import Citadel.Libcitadel.Fork
import Citadel.Libcitadel.ShimCalls
import Citadel.Protocol.RecentApprovals

namespace Citadel.Libcitadel

open Bytes Posix

/-! ## What a lookup can do -/

/-- What the scan finds is an entry for the descriptor with its
identifier. -/
theorem scanFd_found {fd : BitVec 32} {op : Option Operation} {raw : Option (List UInt8)}
    {prev group : List CacheItem} {found : FoundFd}
    (h : scanFd fd op raw prev group = some (some found)) :
    (∃ r, raw = some r ∧ Bytes.read r 0 identifierLength = some found.identifier) ∧
      prev ++ group = found.prev ++ found.head :: found.next ∧ found.head.fd = fd ∧
      found.identifier.1 = found.head.data.take identifierLength := by
  induction group generalizing prev with
  | nil => cases h
  | cons head next ih =>
    rw [scanFd] at h
    split at h
    · rename_i hfd
      obtain ⟨r, rfl, h⟩ := Option.bind_eq_some_iff.mp h
      obtain ⟨id, hid, h⟩ := Option.bind_eq_some_iff.mp h
      split at h
      · rename_i hdata
        cases h
        exact ⟨⟨r, rfl, hid⟩, rfl, hfd.1, hdata⟩
      · obtain ⟨hread, hgroup, hrest⟩ := ih h
        exact ⟨hread, by rw [← hgroup, List.append_assoc, List.singleton_append], hrest⟩
    · obtain ⟨hread, hgroup, hrest⟩ := ih h
      exact ⟨hread, by rw [← hgroup, List.append_assoc, List.singleton_append], hrest⟩

/-- A request about a descriptor: its answer, and the entry of an
approval. -/
theorem Update.call_cases (u : Update) (env : CallEnv) (cache : Cache) (fd : BitVec 32)
    (id : Identifier) (op : Operation) (add : Bool) :
    (u.call env cache fd id op add = ⟨cache, false, some (.plain op id)⟩) ∨
      ∃ entry : CacheItem, entry.op = op ∧ entry.fd = fd ∧ entry.data = id.1 ∧
        entry.time = env.later ∧
        u.call env cache fd id op add =
          ⟨if add then { cache with fd := cache.fd ++ [entry] } else cache, true,
            some (.plain op id)⟩ := by
  rw [call_eq, askAboutFd]
  split
  · exact .inr ⟨_, rfl, rfl, rfl, rfl, rfl⟩
  · exact .inl rfl

/-- The ways `citadel_validate_fd` can come back. -/
inductive Validated (env : CallEnv) (cache : Cache) (fd : BitVec 32)
    (known : Option (List UInt8) × Bool) (op : Option Operation) : Outcome → Prop
  | unlabelled (h : known.2 = false) : Validated env cache fd known op ⟨cache, true, none⟩
  | refused (asked : Option Request) : Validated env cache fd known op ⟨cache, false, asked⟩
  | believed (found : FoundFd) (raw : List UInt8) (hraw : known.1 = some raw)
      (hid : Bytes.read raw 0 identifierLength = some found.identifier)
      (hgroup : cache.fd = found.prev ++ found.head :: found.next) (hfd : found.head.fd = fd)
      (hdata : found.identifier.1 = found.head.data.take identifierLength)
      (hdate : entryInDate env.now found.head = true ∨ found.head.op.has opNop = true) :
      Validated env cache fd known op ⟨cache, true, none⟩
  | renewed (found : FoundFd) (raw : List UInt8) (hraw : known.1 = some raw)
      (hid : Bytes.read raw 0 identifierLength = some found.identifier)
      (hgroup : cache.fd = found.prev ++ found.head :: found.next) (hfd : found.head.fd = fd)
      (hdata : found.identifier.1 = found.head.data.take identifierLength)
      (hnop : found.head.op.has opNop = false) :
      Validated env cache fd known op
        ⟨{ cache with fd := found.prev ++ (found.next ++ [{ found.head with time := env.later }]) },
          true, some (.plain found.head.op found.identifier)⟩
  | granted (entry : CacheItem) (id : Identifier) (raw : List UInt8) (hraw : known.1 = some raw)
      (hid : Bytes.read raw 0 identifierLength = some id) (hfd : entry.fd = fd)
      (hdata : entry.data = id.1) (htime : entry.time = env.later) (hop : op = some entry.op) :
      Validated env cache fd known op
        ⟨{ cache with fd := cache.fd ++ [entry] }, true, some (.plain entry.op id)⟩

theorem useFd_validated {env : CallEnv} {cache : Cache} {fd : BitVec 32}
    {known : Option (List UInt8) × Bool} {op : Option Operation} {found : FoundFd}
    (h : scanFd fd op known.1 [] cache.fd = some (some found)) :
    Validated env cache fd known op (useFd env cache fd found) := by
  obtain ⟨⟨raw, hraw, hid⟩, hgroup, hfd, hdata⟩ := scanFd_found h
  rw [List.nil_append] at hgroup
  unfold useFd
  split
  · rename_i hdate
    exact .believed found raw hraw hid hgroup hfd hdata (Bool.or_eq_true_iff.mp hdate)
  · rename_i hdate
    have hnop : found.head.op.has opNop = false :=
      Bool.eq_false_iff.mpr fun hnop => hdate (Bool.or_eq_true_iff.mpr (.inr hnop))
    rcases Update.call_cases found.head.update env cache fd found.identifier found.head.op false
      with hcall | ⟨entry, -, -, -, -, hcall⟩
    · rw [hcall]
      exact .refused _
    · rw [hcall]
      exact .renewed found raw hraw hid hgroup hfd hdata hnop

theorem executeFd_validated {env : CallEnv} {cache : Cache} {fd : BitVec 32}
    {known : Option (List UInt8) × Bool} {op : Option Operation} {execute : Option Update}
    {out : Outcome} (h : executeFd env cache fd known.1 op execute = some out) :
    Validated env cache fd known op out := by
  unfold executeFd at h
  split at h
  · rename_i op execute
    obtain ⟨raw, hraw, h⟩ := Option.bind_eq_some_iff.mp h
    obtain ⟨id, hid, h⟩ := Option.bind_eq_some_iff.mp h
    cases h
    rcases Update.call_cases execute env cache fd id op true with
      hcall | ⟨entry, rfl, hfd, hdata, htime, hcall⟩
    · rw [hcall]
      exact .refused _
    · rw [hcall]
      exact .granted entry id raw hraw hid hfd hdata htime rfl
  · cases h
    exact .refused _

theorem citadelValidateFd_validated {env : CallEnv} {cache : Cache} {fd : BitVec 32}
    {xattr : Option (List UInt8)} {op : Option Operation} {execute : Option Update}
    {out : Outcome × Bool}
    (h : citadelValidateFd env cache fd xattr none op execute = some out) :
    ∃ known, getFdIdentifier xattr = some known ∧ Validated env cache fd known op out.1 := by
  obtain ⟨known, hknown, h⟩ := Option.bind_eq_some_iff.mp h
  refine ⟨known, hknown, ?_⟩
  dsimp only at h
  split at h
  · rename_i hlabel
    cases h
    exact .unlabelled (by simpa using hlabel)
  · obtain ⟨found, hfound, h⟩ := Option.bind_eq_some_iff.mp h
    cases found with
    | none =>
      obtain ⟨result, hresult, hout⟩ := Option.bind_eq_some_iff.mp h
      cases hout
      exact executeFd_validated hresult
    | some found =>
      cases h
      exact useFd_validated hfound

/-! ## Notes -/

inductive Note where
  | approved (a : Approval)
  | opened (path : List UInt8) (fd : BitVec 32) (looked stamped : Seconds)
  | paired (fd : BitVec 32) (stamped : Seconds)
  | closed (fd : BitVec 32)
  | initialised
  deriving DecidableEq

/-- The note was made, and none of `ends` after it. -/
def Stands (log : List Note) (note : Note) (ends : List Note) : Prop :=
  ∃ before after, log = before ++ note :: after ∧ ∀ e ∈ ends, e ∉ after

/-- The descriptor came from `c_socketpair`. It was not closed since, and
the process has not become a child. -/
def Paired (log : List Note) (fd : BitVec 32) : Prop :=
  ∃ stamped, Stands log (.paired fd stamped) [.closed fd, .initialised]

/-- When `c_open` looked the path up, an approval to open it was at most 14
seconds old, or it was yet to come. -/
def PathApproved (log : List Note) (path : List UInt8) (looked : Seconds) : Prop :=
  ∃ op translate t, Note.approved ⟨.extended op (path ++ [0]) translate, t⟩ ∈ log ∧
    op.has opOpen = true ∧ looked.toNat ≤ t.toNat + 14

/-- What an entry for a descriptor can come from. A descriptor that was
opened or made as one of a pair has not been closed since. -/
inductive Source (log : List Note) (fd : BitVec 32) (id : Identifier) : Seconds → Prop
  | approved {t : Seconds} (op : Operation)
      (h : Note.approved ⟨.plain op id, t⟩ ∈ log) : Source log fd id t
  | opened {t : Seconds} (path : List UInt8) (looked : Seconds)
      (h : Stands log (.opened path fd looked t) [.closed fd])
      (hpath : PathApproved log path looked) : Source log fd id t
  | paired {t : Seconds} (h : Stands log (.paired fd t) [.closed fd]) : Source log fd id t

/-- The notes say where an entry for a descriptor comes from. -/
structure Covers (log : List Note) (item : CacheItem) (id : Identifier) : Prop where
  data : item.data = id.1
  nop : item.op.has opNop = true → item.op = opNop ∧ Paired log item.fd
  source : ∃ t, item.time.toNat ≤ t.toNat ∧ Source log item.fd id t

def Covered (log : List Note) (item : CacheItem) : Prop := ∃ id, Covers log item id

/-- So do they for the entry of a path. -/
structure NameCovered (log : List Note) (item : CacheItem) : Prop where
  op : item.op ≠ opNop
  approved : ∃ string translate t, 0 ∉ string ∧ item.data = string ++ [0] ∧
    item.time.toNat ≤ t.toNat ∧ Note.approved ⟨.extended item.op item.data translate, t⟩ ∈ log

/-- The notes cover the cache at time `t`. -/
structure Noted (t : Nat) (log : List Note) (cache : Cache) : Prop where
  stamped : Stamped t cache.fileNames
  names : ∀ item ∈ cache.fileNames, NameCovered log item
  past : ∀ item ∈ cache.fd, item.time.toNat ≤ t
  fds : ∀ item ∈ cache.fd, Covered log item

theorem Noted.init : Noted 0 [] .init where
  stamped := ⟨.nil, fun _ h => nomatch h⟩
  names := fun _ h => nomatch h
  past := fun _ h => nomatch h
  fds := fun _ h => nomatch h

section

variable {t t' : Nat} {log : List Note} {cache : Cache}

/-! ### More notes -/

theorem Stands.append {note : Note} {ends more : List Note} (h : Stands log note ends)
    (hmore : ∀ e ∈ ends, e ∉ more) : Stands (log ++ more) note ends := by
  obtain ⟨before, after, rfl, hends⟩ := h
  refine ⟨before, after ++ more, by simp, ?_⟩
  intro e he hmem
  exact (List.mem_append.mp hmem).elim (hends e he) (hmore e he)

theorem Stands.new {note : Note} {ends more : List Note} (hnote : note ∈ more)
    (hmore : ∀ e ∈ ends, e ∉ more) : Stands (log ++ more) note ends := by
  obtain ⟨before, after, rfl⟩ := List.append_of_mem hnote
  refine ⟨log ++ before, after, by simp, ?_⟩
  intro e he hmem
  exact hmore e he (List.mem_append_right _ (List.mem_cons_of_mem _ hmem))

theorem PathApproved.mono {more : List Note} {path : List UInt8} {looked : Seconds}
    (h : PathApproved log path looked) : PathApproved (log ++ more) path looked := by
  obtain ⟨op, translate, t, hnote, hop, hrecent⟩ := h
  exact ⟨op, translate, t, List.mem_append_left _ hnote, hop, hrecent⟩

theorem Source.mono {more : List Note} {fd : BitVec 32} {id : Identifier} {t : Seconds}
    (h : Source log fd id t) (hmore : .closed fd ∉ more) : Source (log ++ more) fd id t := by
  have hends : ∀ e ∈ [Note.closed fd], e ∉ more := by
    intro e he
    rw [List.mem_singleton.mp he]
    exact hmore
  cases h with
  | approved op h => exact .approved op (List.mem_append_left _ h)
  | opened path looked h hpath => exact .opened path looked (h.append hends) hpath.mono
  | paired h => exact .paired (h.append hends)

theorem Paired.mono {more : List Note} {fd : BitVec 32} (h : Paired log fd)
    (hclosed : .closed fd ∉ more) (hinit : .initialised ∉ more) : Paired (log ++ more) fd := by
  obtain ⟨stamped, hstands⟩ := h
  refine ⟨stamped, hstands.append ?_⟩
  intro e he
  simp only [List.mem_cons, List.not_mem_nil, or_false] at he
  rcases he with rfl | rfl
  · exact hclosed
  · exact hinit

theorem Covered.mono {more : List Note} {item : CacheItem} (h : Covered log item)
    (hclosed : .closed item.fd ∉ more) (hinit : .initialised ∉ more) :
    Covered (log ++ more) item := by
  obtain ⟨id, hdata, hnop, s, hs, hsource⟩ := h
  exact ⟨id, hdata, fun h => ⟨(hnop h).1, (hnop h).2.mono hclosed hinit⟩, s, hs,
    hsource.mono hclosed⟩

theorem NameCovered.mono {more : List Note} {item : CacheItem} (h : NameCovered log item) :
    NameCovered (log ++ more) item := by
  obtain ⟨hop, string, translate, s, hnul, hdata, hs, hnote⟩ := h
  exact ⟨hop, string, translate, s, hnul, hdata, hs, List.mem_append_left _ hnote⟩

/-- Notes that end nothing. -/
structure Quiet (more : List Note) : Prop where
  closed : ∀ fd, .closed fd ∉ more
  initialised : .initialised ∉ more

theorem Quiet.nil : Quiet [] := ⟨fun _ => List.not_mem_nil, List.not_mem_nil⟩

theorem Quiet.approvals (approvals : List Approval) : Quiet (approvals.map Note.approved) := by
  constructor <;> simp

/-- Time passes and notes are added. -/
theorem Noted.mono (h : Noted t log cache) (ht : t ≤ t') {more : List Note} (hmore : Quiet more) :
    Noted t' (log ++ more) cache where
  stamped := ⟨h.stamped.1, fun a ha => (h.stamped.2 a ha).trans ht⟩
  names := fun item hitem => (h.names item hitem).mono
  past := fun item hitem => (h.past item hitem).trans ht
  fds := fun item hitem => (h.fds item hitem).mono (hmore.closed item.fd) hmore.initialised

theorem Noted.later (h : Noted t log cache) (ht : t ≤ t') : Noted t' log cache := by
  simpa using h.mono ht Quiet.nil

/-- Only the group of descriptors changes. -/
theorem Noted.setFd (h : Noted t log cache) {group : List CacheItem}
    (hnew : ∀ item ∈ group, item ∈ cache.fd ∨ item.time.toNat ≤ t ∧ Covered log item) :
    Noted t log { cache with fd := group } where
  stamped := h.stamped
  names := h.names
  past := fun item hitem => (hnew item hitem).elim (h.past item) And.left
  fds := fun item hitem => (hnew item hitem).elim (h.fds item) And.right

/-! ### `citadel_validate_fd` -/

/-- At `now` there is a note for the descriptor: it is one of a pair, or
its entry is at most 13 seconds old. -/
def Backed (log : List Note) (fd : BitVec 32) (id : Identifier) (now : Seconds) : Prop :=
  Paired log fd ∨ ∃ t, Source log fd id t ∧ now.toNat ≤ t.toNat + 13

/-- The label that a descriptor has for the library. -/
def Labelled (xattr : Option (List UInt8)) (id : Identifier) : Prop :=
  ∃ raw tainted, getFdIdentifier xattr = some (some raw, tainted) ∧
    Bytes.read raw 0 identifierLength = some id

/-- The descriptor has no label. -/
def Unlabelled (xattr : Option (List UInt8)) : Prop :=
  ∃ raw, getFdIdentifier xattr = some (raw, false)

def Outcome.notes (out : Outcome) (env : CallEnv) : List Note :=
  (out.approvals env).map Note.approved

theorem entryInDate_recent {now : Seconds} {item : CacheItem}
    (hle : item.time.toNat ≤ now.toNat) (hrange : now.toNat < 2 ^ 63)
    (h : entryInDate now item = true) : now.toNat ≤ item.time.toNat + 13 := by
  rw [entryInDate, decide_eq_true_eq, BitVec.toNat_add, BitVec.toNat_sub_of_le hle] at h
  have hone : (1 : Seconds).toNat = 1 := rfl
  have hexpiry : ticketExpiry.toNat = 15 := rfl
  rw [hone, hexpiry, Nat.mod_eq_of_lt (by omega)] at h
  omega

theorem identifier_take (id : Identifier) : id.1.take identifierLength = id.1 :=
  List.take_of_length_le id.2.le

/-- The entry that was found has the identifier that was looked for. -/
theorem Covered.found {found : FoundFd} (h : Covered log found.head)
    (hdata : found.identifier.1 = found.head.data.take identifierLength) :
    Covers log found.head found.identifier := by
  obtain ⟨id, hcovers⟩ := h
  obtain rfl : found.identifier = id := by
    refine Subtype.ext ?_
    rw [hdata, hcovers.data, identifier_take]
  exact hcovers

theorem Outcome.notes_quiet (out : Outcome) (env : CallEnv) : Quiet (out.notes env) :=
  Quiet.approvals _

theorem Backed.mono {more : List Note} {fd : BitVec 32} {id : Identifier} {now : Seconds}
    (h : Backed log fd id now) (hmore : Quiet more) : Backed (log ++ more) fd id now := by
  rcases h with hpaired | ⟨s, hsource, hrecent⟩
  · exact .inl (hpaired.mono (hmore.closed fd) hmore.initialised)
  · exact .inr ⟨s, hsource.mono (hmore.closed fd), hrecent⟩

/-- An entry that is believed backs its descriptor. -/
theorem Noted.backed (h : Noted t log cache) {now : Seconds} (hnow : t ≤ now.toNat)
    (hrange : now.toNat < 2 ^ 63) {found : FoundFd} (hmem : found.head ∈ cache.fd)
    (hdata : found.identifier.1 = found.head.data.take identifierLength)
    (hdate : entryInDate now found.head = true ∨ found.head.op.has opNop = true) :
    Backed log found.head.fd found.identifier now := by
  have hcovers := (h.fds _ hmem).found hdata
  rcases hdate with hdate | hnop
  · obtain ⟨s, hs, hsource⟩ := hcovers.source
    have hrecent := entryInDate_recent ((h.past _ hmem).trans hnow) hrange hdate
    exact .inr ⟨s, hsource, by omega⟩
  · exact .inl (hcovers.nop hnop).2

/-- The entry that an approval leaves. -/
theorem Covered.of_approval {item : CacheItem} {id : Identifier} (hdata : item.data = id.1)
    (hnop : item.op.has opNop = false)
    (hnote : Note.approved ⟨.plain item.op id, item.time⟩ ∈ log) : Covered log item :=
  ⟨id, hdata, fun h => absurd h (Bool.eq_false_iff.mp hnop), item.time, le_refl _,
    .approved item.op hnote⟩

theorem Noted.validate (h : Noted t log cache) {env : CallEnv} (hnow : t ≤ env.now.toNat)
    (hlater : env.now.toNat ≤ env.later.toNat) (hrange : env.now.toNat < 2 ^ 63) {d : Descriptor}
    {op : Option Operation} (hop : ∀ o ∈ op, o.has opNop = false) {execute : Option Update}
    {out : Outcome × Bool}
    (hrun : citadelValidateFd env cache d.fd d.xattr none op execute = some out) :
    Noted env.later.toNat (log ++ out.1.notes env) out.1.cache ∧
      (out.1.answer = true → Unlabelled d.xattr ∨
        ∃ id, Labelled d.xattr id ∧ Backed (log ++ out.1.notes env) d.fd id env.now) := by
  obtain ⟨known, hknown, hvalid⟩ := citadelValidateFd_validated hrun
  have hmono := h.mono (hnow.trans hlater) (out.1.notes_quiet env)
  have hlabelled : ∀ {raw id}, known.1 = some raw →
      Bytes.read raw 0 identifierLength = some id → Labelled d.xattr id := by
    intro raw id hraw hid
    exact ⟨raw, known.2, by rw [hknown, ← hraw], hid⟩
  have hrenewed : env.now.toNat ≤ env.later.toNat + 13 := by omega
  generalize out.1 = result at hvalid hmono
  cases hvalid with
  | unlabelled hlabel =>
    refine ⟨hmono, fun _ => .inl ⟨known.1, ?_⟩⟩
    rw [hknown, ← hlabel]
  | refused asked => exact ⟨hmono, fun hanswer => nomatch hanswer⟩
  | believed found raw hraw hid hgroup hfd hdata hdate =>
    refine ⟨hmono, fun _ => .inr ⟨found.identifier, hlabelled hraw hid, ?_⟩⟩
    have hmem : found.head ∈ cache.fd := by rw [hgroup]; simp
    rw [← hfd]
    exact (h.backed hnow hrange hmem hdata hdate).mono (Outcome.notes_quiet _ env)
  | renewed found raw hraw hid hgroup hfd hdata hnop =>
    have hnote : Note.approved ⟨.plain found.head.op found.identifier, env.later⟩ ∈
        log ++ Outcome.notes ⟨{ cache with fd := found.prev ++
          (found.next ++ [{ found.head with time := env.later }]) }, true,
            some (.plain found.head.op found.identifier)⟩ env := by
      simp [Outcome.notes, Outcome.approvals]
    have hmem : found.head ∈ cache.fd := by rw [hgroup]; simp
    refine ⟨hmono.setFd ?_, fun _ => .inr ⟨found.identifier, hlabelled hraw hid,
      .inr ⟨env.later, .approved found.head.op hnote, hrenewed⟩⟩⟩
    intro item hitem
    rw [← List.append_assoc, List.mem_append, List.mem_singleton] at hitem
    rcases hitem with hold | rfl
    · refine .inl ?_
      rw [hgroup]
      rcases List.mem_append.mp hold with hprev | hnext
      · exact List.mem_append_left _ hprev
      · exact List.mem_append_right _ (List.mem_cons_of_mem _ hnext)
    · exact .inr ⟨le_refl _, .of_approval ((h.fds _ hmem).found hdata).data hnop hnote⟩
  | granted entry id raw hraw hid hfd hdata htime hsome =>
    have hnote : Note.approved ⟨.plain entry.op id, env.later⟩ ∈
        log ++ Outcome.notes ⟨{ cache with fd := cache.fd ++ [entry] }, true,
            some (.plain entry.op id)⟩ env := by
      simp [Outcome.notes, Outcome.approvals]
    refine ⟨hmono.setFd ?_, fun _ => .inr ⟨id, hlabelled hraw hid,
      .inr ⟨env.later, .approved entry.op hnote, hrenewed⟩⟩⟩
    intro item hitem
    rcases List.mem_append.mp hitem with hold | hnew
    · exact .inl hold
    · obtain rfl := List.mem_singleton.mp hnew
      refine .inr ⟨by rw [htime], .of_approval hdata (hop _ hsome) ?_⟩
      rw [htime]
      exact hnote

/-! ### Paths -/

theorem FileOp.operation_has (op : FileOp) : op.operation.has op.wanted = true := by
  cases op <;> decide

theorem FileOp.operation_ne_nop (op : FileOp) : op.operation ≠ opNop := by
  cases op <;> decide

theorem Noted.cleanup (h : Noted t log cache) (now : Seconds) :
    Noted t log { cache with fileNames := cleanupCacheGroup now cache.fileNames } where
  stamped := h.stamped.cleanup now
  names := fun item hitem => h.names item (List.dropWhile_sublist _ |>.subset hitem)
  past := h.past
  fds := h.fds

/-- A path that is found in the cache was approved at most 14 seconds
before. -/
theorem Noted.hit (h : Noted t log cache) {call : FileCall} (hnow : t ≤ call.env.now.toNat)
    (hhit : (cacheHit call.env.now cache call.path call.op.wanted).2 = true) :
    ∃ op translate t₀, Note.approved ⟨.extended op call.path translate, t₀⟩ ∈ log ∧
      op.has call.op.wanted = true ∧ call.env.now.toNat ≤ t₀.toNat + 14 := by
  obtain ⟨head, hmem, hmatch⟩ := List.any_eq_true.mp hhit
  simp only [Bool.and_eq_true, beq_iff_eq] at hmatch
  obtain ⟨hdata, hop⟩ := hmatch
  have hold : head ∈ cache.fileNames := (List.dropWhile_sublist _).subset hmem
  obtain ⟨-, string, translate, s, hnul, hstring, hs, hnote⟩ := h.names head hold
  rw [hstring] at hdata
  obtain rfl := (terminated_take_iff call.noNul hnul).mp hdata
  have hyoung := survivor_young (h.stamped.ageOrdered hnow) hmem
  rw [BitVec.toNat_sub_of_le ((h.stamped.2 head hold).trans hnow)] at hyoung
  have hexpiry : ticketExpiry.toNat = 15 := rfl
  refine ⟨head.op, translate, s, ?_, hop, by omega⟩
  rw [FileCall.path, ← hstring]
  exact hnote

theorem Noted.askPath (h : Noted t log cache) (call : FileCall) (hnow : t ≤ call.env.now.toNat)
    (hlater : call.env.now.toNat ≤ call.env.later.toNat) :
    Noted call.env.later.toNat (log ++ (call.run cache).notes call.env) (call.run cache).cache ∧
      ((call.run cache).answer = true → ∃ op translate t₀,
        Note.approved ⟨.extended op call.path translate, t₀⟩ ∈
          log ++ (call.run cache).notes call.env ∧
        op.has call.op.wanted = true ∧ call.env.now.toNat ≤ t₀.toNat + 14) := by
  have hquiet := fun out : Outcome => out.notes_quiet call.env
  have hmono := fun out : Outcome =>
    (h.cleanup call.env.now).mono (hnow.trans hlater) (hquiet out)
  rcases call.run_cases cache with ⟨hrun, -⟩ | ⟨hsize, ⟨hrun, hhit⟩ | ⟨hmiss, request, hrun | hrun⟩⟩
  · rw [hrun]
    exact ⟨h.mono (hnow.trans hlater) (hquiet _), fun hanswer => nomatch hanswer⟩
  · rw [hrun]
    refine ⟨hmono _, fun _ => ?_⟩
    simpa [Outcome.notes, Outcome.approvals] using h.hit hnow hhit
  · rw [hrun]
    exact ⟨hmono _, fun hanswer => nomatch hanswer⟩
  · have hasked : (call.run cache).asked =
        some (.extended call.op.operation call.path call.op.translate) := by
      rw [call.run_eq]
      exact askAboutPath_miss hsize hmiss
    rw [hrun] at hasked
    obtain rfl := Option.some.inj hasked
    have hnote : Note.approved ⟨.extended call.op.operation call.path call.op.translate,
        call.env.later⟩ ∈ log ++ (call.run cache).notes call.env := by
      simp [hrun, Outcome.notes, Outcome.approvals]
    rw [hrun] at hnote ⊢
    refine ⟨⟨?_, ?_, (hmono ⟨cache, false, none⟩).past, (hmono _).fds⟩,
      fun _ => ⟨_, _, _, hnote, call.op.operation_has, by omega⟩⟩
    · exact (h.stamped.cleanup _).append (hnow.trans hlater) rfl
    · intro item hitem
      rcases List.mem_append.mp hitem with hold | hnew
      · exact (hmono _).names item hold
      · obtain rfl := List.mem_singleton.mp hnew
        exact ⟨call.op.operation_ne_nop, call.string, call.op.translate, call.env.later,
          call.noNul, rfl, le_refl _, hnote⟩

/-! ### Descriptors that come and go -/

theorem Noted.declare (h : Noted t log cache) {env : DeclareEnv} (ht : t ≤ env.now.toNat)
    {d : Descriptor} {op : Operation} (hparent : op.has opParent = false)
    (hnop : op.has opNop = true → op = opNop ∧ Paired log d.fd)
    (hsource : ∀ id, Source log d.fd id env.now)
    {cache' : Cache} (hrun : Libcitadel.declare env cache d op = some cache') :
    Noted env.now.toNat log cache' := by
  have hmono := h.later ht
  obtain ⟨⟨identifier, tainted⟩, -, hrun⟩ := Option.bind_eq_some_iff.mp hrun
  cases identifier with
  | none =>
    cases hrun
    exact hmono
  | some identifier =>
    dsimp only at hrun
    split at hrun
    · rw [hparent, if_neg Bool.false_ne_true] at hrun
      obtain ⟨id, -, hrun⟩ := Option.bind_eq_some_iff.mp hrun
      cases hrun
      refine hmono.setFd ?_
      intro item hitem
      rcases List.mem_append.mp hitem with hold | hnew
      · exact .inl hold
      · obtain rfl := List.mem_singleton.mp hnew
        exact .inr ⟨le_refl _, id, rfl, hnop, env.now, le_refl _, hsource id⟩
    · cases hrun
      exact hmono

/-- A descriptor is closed, and its entries are gone. -/
theorem Noted.remove (h : Noted t log cache) {fd : BitVec 32} (hfd : fd ≠ -1) {cache' : Cache}
    (hrun : removeFd cache fd = some cache') : Noted t (log ++ [.closed fd]) cache' := by
  rw [removeFd, if_neg hfd] at hrun
  split at hrun
  · cases hrun
  · cases hrun
    refine ⟨h.stamped, fun item hitem => (h.names item hitem).mono, ?_, ?_⟩
    · intro item hitem
      exact h.past item (List.mem_filter.mp hitem).1
    · intro item hitem
      obtain ⟨hold, hother⟩ := List.mem_filter.mp hitem
      exact (h.fds item hold).mono (by simpa using hother) (by simp)

/-- The group of shared memory is not looked at. -/
theorem Noted.setShm (h : Noted t log cache) (group : List CacheItem) :
    Noted t log { cache with shm := group } where
  stamped := h.stamped
  names := h.names
  past := h.past
  fds := h.fds

theorem Noted.shmAccess (h : Noted t log cache) {env : CallEnv} (hnow : t ≤ env.now.toNat)
    (hlater : env.now.toNat ≤ env.later.toNat) (key : BitVec 32) (isShmid : Bool) :
    Noted env.later.toNat (log ++ (citadelShmAccess env cache key isShmid).notes env)
      (citadelShmAccess env cache key isShmid).cache := by
  have hmono := h.mono (hnow.trans hlater)
    ((citadelShmAccess env cache key isShmid).notes_quiet env)
  generalize (citadelShmAccess env cache key isShmid).notes env = notes at hmono
  unfold citadelShmAccess
  split
  · exact hmono
  split
  · exact hmono
  dsimp only
  split
  · exact hmono.setShm _
  · exact hmono

/-! ### Children -/

/-- In a child the entries are never younger than their notes, and none has
the NOP bit. -/
theorem Noted.fork (h : Noted t log cache) :
    Noted t (log ++ [.initialised]) (cacheOnFork cache) where
  stamped := by
    constructor
    · exact List.pairwise_map.mpr (List.pairwise_of_forall fun _ _ => Nat.le_refl 0)
    · intro item hitem
      obtain ⟨old, -, rfl⟩ := List.mem_map.mp hitem
      exact Nat.zero_le t
  names := by
    intro item hitem
    obtain ⟨old, hold, rfl⟩ := List.mem_map.mp hitem
    obtain ⟨hop, string, translate, s, hnul, hdata, -, hnote⟩ := h.names old hold
    have hsame : (prepareEntryForChild old).op = old.op := if_neg hop
    refine ⟨by rw [hsame]; exact hop, string, translate, s, hnul, hdata, Nat.zero_le _, ?_⟩
    rw [hsame]
    exact List.mem_append_left _ hnote
  past := by
    intro item hitem
    obtain ⟨old, -, rfl⟩ := List.mem_map.mp hitem
    exact Nat.zero_le t
  fds := by
    intro item hitem
    obtain ⟨old, hold, rfl⟩ := List.mem_map.mp hitem
    obtain ⟨id, hdata, hnop, s, -, hsource⟩ := h.fds old hold
    refine ⟨id, hdata, ?_, s, Nat.zero_le _, hsource.mono (by simp)⟩
    intro hbit
    rw [prepareEntryForChild_nop, Bool.and_eq_true, decide_eq_true_eq] at hbit
    exact absurd (hnop hbit.1).1 hbit.2

/-- `citadel_init` in a child. -/
theorem Noted.forked (h : Noted t log cache) {child : ForkEnv} {out : InitOutcome}
    (hrun : child.run cache = some out) :
    Noted t (log ++ if out.attempt = .notTried then [] else [.initialised])
      out.statics.cache := by
  rcases citadelInit_cache hrun with ⟨hnot, hcache⟩ | ⟨htried, hcache | hcache⟩
  · rw [hcache, if_pos hnot, List.append_nil]
    exact h
  · rw [hcache, if_neg htried]
    exact h.fork
  · rw [hcache, if_neg htried]
    exact ⟨⟨.nil, nofun⟩, nofun, nofun, nofun⟩

end

/-! ## Runs -/

/-- A string without the terminator. -/
abbrev CString := { s : List UInt8 // 0 ∉ s }

def Address.Terminated : Address → Prop
  | .unix path => 0 ∉ path
  | .other => True

/-- A call of the shim, with what happens during it. `c_fork` returns in
the parent, or in the child. The files and descriptors of the process
change also otherwise. -/
inductive ShimCall (D I A : Type) where
  | open (env : OpenEnv) (path : CString) (oflag : Flags) (mode : Mode)
  | io (kind : Io) (env : CallEnv) (d : Descriptor)
  | listen (env : CallEnv) (d : Descriptor)
  | sendfile (env env' : CallEnv) (out source : Descriptor)
  | socketpair (env env' : DeclareEnv) (made : Bool) (first second : Descriptor)
  | bind (env env' : CallEnv) (d : Descriptor) (addr : Address) (h : addr.Terminated)
      (bound : Bool)
  | connect (env env' : CallEnv) (d : Descriptor) (addr : Address) (h : addr.Terminated)
  | fopen (env : CallEnv) (path : CString)
  | mkfifo (env : CallEnv) (path : CString) (made : Bool)
  | close (fd : BitVec 32)
  | shmget (env : CallEnv) (key shmid : BitVec 32)
  | shmat (env : CallEnv) (shmid : BitVec 32)
  | shmctl (env : CallEnv) (shmid : BitVec 32)
  | fork (child : Option ForkEnv)
  | elsewhere (process : Process D I A)

/-- When the call looks at the clock. -/
def ShimCall.times {D I A : Type} : ShimCall D I A → List Seconds
  | .open env _ _ _ => [env.call.now, env.call.later, env.later]
  | .io _ env _ => [env.now, env.later]
  | .listen env _ => [env.now, env.later]
  | .sendfile env env' _ _ => [env.now, env.later, env'.now, env'.later]
  | .socketpair env env' _ _ _ => [env.now, env'.now]
  | .bind env env' _ _ _ _ => [env.now, env.later, env'.now, env'.later]
  | .connect env env' _ _ _ => [env.now, env.later, env'.now, env'.later]
  | .fopen env _ => [env.now, env.later]
  | .mkfifo env _ _ => [env.now, env.later]
  | .close _ => []
  | .shmget env _ _ => [env.now, env.later]
  | .shmat env _ => [env.now, env.later]
  | .shmctl env _ => [env.now, env.later]
  | .fork _ => []
  | .elsewhere _ => []

/-- A process and its notes. -/
structure Caller (D I A : Type) where
  shim : ShimState D I A
  log : List Note

section Runs

variable {D I A : Type} [DecidableEq D] [DecidableEq I] (vfs : Vfs D I A)

/-- The call has returned. -/
def Caller.after (c : Caller D I A) (notes : List Note) (out : Shimmed) :
    Caller D I A × List Syscall :=
  (⟨{ c.shim with cache := out.cache }, c.log ++ (out.approvals.map Note.approved ++ notes)⟩,
    out.passed)

/-- One call, with the system calls it passes on (but for those of
`c_open`, which act on the process). -/
def clientStep (c : Caller D I A) : ShimCall D I A → Option (Caller D I A × List Syscall)
  | .open env path oflag mode =>
    (cOpen vfs env c.shim path.1 oflag mode).map fun out =>
      (⟨out.state, c.log ++ ((out.asked.filter env.call.ask).toList.map
          (fun request => Note.approved ⟨request, env.call.later⟩) ++
        [.opened path.1 (BitVec.ofInt 32 out.result) env.call.now env.later])⟩, [])
  | .io kind env d => (guardedIo kind env c.shim.cache d).map (c.after [])
  | .listen env d => (cListen env c.shim.cache d).map (c.after [])
  | .sendfile env env' out source =>
    (cSendfile env env' c.shim.cache out source).map (c.after [])
  | .socketpair env env' made first second =>
    (cSocketpair env env' c.shim.cache made first second).map
      (c.after (if made then [.paired first.fd env.now, .paired second.fd env'.now] else []))
  | .bind env env' d addr _ bound => (cBind env env' c.shim.cache d addr bound).map (c.after [])
  | .connect env env' d addr _ => (cConnect env env' c.shim.cache d addr).map (c.after [])
  | .fopen env path => some (c.after [] (cFopen env c.shim.cache path.1))
  | .mkfifo env path made => some (c.after [] (cMkfifo env c.shim.cache path.1 made))
  | .close fd =>
    (cClose c.shim.cache fd).map (c.after (if fd = -1 then [] else [.closed fd]))
  | .shmget env key shmid => some (c.after [] (shimShmget env c.shim.cache key shmid))
  | .shmat env shmid => some (c.after [] (shimShm (.shmat shmid) env c.shim.cache shmid))
  | .shmctl env shmid => some (c.after [] (shimShm (.shmctl shmid) env c.shim.cache shmid))
  | .fork none => some (c, [.fork])
  | .fork (some child) =>
    (child.run c.shim.cache).map fun out =>
      (⟨{ c.shim with cache := out.statics.cache },
        c.log ++ if out.attempt = .notTried then [] else [.initialised]⟩, [.fork])
  | .elsewhere process => some (⟨{ c.shim with process := process }, c.log⟩, [])

def clientRun (c : Caller D I A) (calls : List (ShimCall D I A)) : Option (Caller D I A) :=
  calls.foldlM (fun c call => (clientStep vfs c call).map Prod.fst) c

/-! ### Time -/

/-- The clock never goes back from `t` on, and stays in the range of
`time_t`. -/
def Ticks (t : Nat) : List Seconds → Prop
  | [] => True
  | s :: times => t ≤ s.toNat ∧ s.toNat < 2 ^ 63 ∧ Ticks s.toNat times

def lastTick (t : Nat) : List Seconds → Nat
  | [] => t
  | s :: times => lastTick s.toNat times

theorem ticks_append {t : Nat} {times more : List Seconds} :
    Ticks t (times ++ more) ↔ Ticks t times ∧ Ticks (lastTick t times) more := by
  induction times generalizing t with
  | nil => simp [Ticks, lastTick]
  | cons s times ih => simp [Ticks, lastTick, ih, and_assoc]

theorem lastTick_append (t : Nat) (times more : List Seconds) :
    lastTick t (times ++ more) = lastTick (lastTick t times) more := by
  induction times generalizing t with
  | nil => rfl
  | cons s times ih => exact ih s.toNat

/-! ### One call -/

/-- The descriptors that the call has checked, and when it looked. -/
def ShimCall.checked : ShimCall D I A → List (Descriptor × Seconds)
  | .io _ env d => [(d, env.now)]
  | .listen env d => [(d, env.now)]
  | .sendfile env env' out source => [(out, env.now), (source, env'.now)]
  | .bind env _ d _ _ _ => [(d, env.now)]
  | .connect env _ d _ _ => [(d, env.now)]
  | _ => []

/-- A descriptor that may be used at `now`. -/
def Allowed (log : List Note) (d : Descriptor) (now : Seconds) : Prop :=
  Unlabelled d.xattr ∨ ∃ id, Labelled d.xattr id ∧ Backed log d.fd id now

theorem Allowed.mono {log more : List Note} {d : Descriptor} {now : Seconds}
    (h : Allowed log d now) (hmore : Quiet more) : Allowed (log ++ more) d now := by
  rcases h with hplain | ⟨id, hlabel, hbacked⟩
  · exact .inl hplain
  · exact .inr ⟨id, hlabel, hbacked.mono hmore⟩

variable {t : Nat} {log : List Note} {cache : Cache}

/-- A call does what it has to: the notes still cover the cache, and what
it passes on it may. -/
structure Kept (t : Nat) (log : List Note) (checked : List (Descriptor × Seconds))
    (out : Shimmed) : Prop where
  noted : Noted t log out.cache
  allowed : out.passed ≠ [] → ∀ use ∈ checked, Allowed log use.1 use.2

theorem Noted.validateAnon (h : Noted t log cache) {env : CallEnv} (hnow : t ≤ env.now.toNat)
    (hlater : env.now.toNat ≤ env.later.toNat) (hrange : env.now.toNat < 2 ^ 63) {d : Descriptor}
    {out : Outcome} (hrun : citadelValidateFdAnon env cache d = some out) :
    Noted env.later.toNat (log ++ out.notes env) out.cache ∧
      (out.answer = true → Allowed (log ++ out.notes env) d env.now) := by
  obtain ⟨out, hvalid, rfl⟩ := Option.map_eq_some_iff.mp hrun
  refine h.validate hnow hlater hrange ?_ hvalid
  simp

theorem guardedIo_kept (h : Noted t log cache) {kind : Io} {env : CallEnv} {d : Descriptor}
    (hticks : Ticks t [env.now, env.later]) {out : Shimmed}
    (hrun : guardedIo kind env cache d = some out) :
    Kept env.later.toNat (log ++ out.approvals.map Note.approved) [(d, env.now)] out := by
  obtain ⟨hnow, hrange, hlater, -⟩ := hticks
  obtain ⟨result, hvalid, rfl⟩ := Option.map_eq_some_iff.mp hrun
  obtain ⟨hnoted, hallowed⟩ := h.validateAnon hnow hlater hrange hvalid
  by_cases hanswer : result.answer = true
  · rw [if_pos hanswer]
    exact ⟨hnoted, fun _ use huse => by
      obtain rfl := List.mem_singleton.mp huse
      exact hallowed hanswer⟩
  · rw [if_neg hanswer]
    exact ⟨hnoted, fun hpassed => absurd rfl hpassed⟩

theorem cSendfile_kept (h : Noted t log cache) {env env' : CallEnv} {out source : Descriptor}
    (hticks : Ticks t [env.now, env.later, env'.now, env'.later]) {result : Shimmed}
    (hrun : cSendfile env env' cache out source = some result) :
    Kept env'.later.toNat (log ++ result.approvals.map Note.approved)
      [(out, env.now), (source, env'.now)] result := by
  obtain ⟨hnow, hrange, hlater, -, hnow', hrange', hlater', -⟩ := hticks
  obtain ⟨first, hfirst, hrun⟩ := Option.bind_eq_some_iff.mp hrun
  obtain ⟨hnoted, hallowed⟩ := h.validateAnon hnow hlater hrange hfirst
  cases hanswer : first.answer with
  | false =>
    rw [hanswer] at hrun
    cases hrun
    refine ⟨?_, fun hpassed => absurd rfl hpassed⟩
    simpa [Outcome.notes] using hnoted.later (hnow'.trans hlater')
  | true =>
    rw [hanswer, Bool.not_true, if_neg Bool.false_ne_true] at hrun
    obtain ⟨second, hsecond, hrun⟩ := Option.bind_eq_some_iff.mp hrun
    obtain ⟨hnoted', hallowed'⟩ := hnoted.validateAnon hnow' hlater' hrange' hsecond
    rw [List.append_assoc, Outcome.notes, Outcome.notes, ← List.map_append] at hnoted' hallowed'
    dsimp only at hrun
    split at hrun
    · rename_i hanswer'
      cases hrun
      refine ⟨hnoted', fun _ use huse => ?_⟩
      simp only [List.mem_cons, List.not_mem_nil, or_false] at huse
      rcases huse with rfl | rfl
      · rw [List.map_append, ← List.append_assoc]
        exact (hallowed hanswer).mono (Quiet.approvals _)
      · exact hallowed' hanswer'
    · cases hrun
      exact ⟨hnoted', fun hpassed => absurd rfl hpassed⟩

theorem cSocketpair_kept (h : Noted t log cache) {env env' : DeclareEnv} {made : Bool}
    {first second : Descriptor} (hticks : Ticks t [env.now, env'.now]) {out : Shimmed}
    (hrun : cSocketpair env env' cache made first second = some out) :
    Noted env'.now.toNat (log ++ (out.approvals.map Note.approved ++
      if made then [.paired first.fd env.now, .paired second.fd env'.now] else [])) out.cache := by
  obtain ⟨hnow, -, hnow', -⟩ := hticks
  cases made with
  | false =>
    cases hrun
    exact h.mono (hnow.trans hnow') Quiet.nil
  | true =>
    obtain ⟨cache₁, hfirst, hrun⟩ := Option.bind_eq_some_iff.mp hrun
    obtain ⟨cache₂, hsecond, hrun⟩ := Option.bind_eq_some_iff.mp hrun
    cases hrun
    let notes : List Note := [.paired first.fd env.now, .paired second.fd env'.now]
    have hstart : Noted t (log ++ notes) cache :=
      h.mono (le_refl t) ⟨by simp [notes], by simp [notes]⟩
    have hpaired : ∀ {d : Descriptor} {s : Seconds}, .paired d.fd s ∈ notes →
        Paired (log ++ notes) d.fd ∧ ∀ id, Source (log ++ notes) d.fd id s := by
      intro d s hmem
      exact ⟨⟨s, .new hmem (by simp [notes])⟩, fun _ => .paired (.new hmem (by simp [notes]))⟩
    obtain ⟨hpair₁, hsource₁⟩ := hpaired (d := first) (s := env.now) (by simp [notes])
    obtain ⟨hpair₂, hsource₂⟩ := hpaired (d := second) (s := env'.now) (by simp [notes])
    have hnoted₁ := hstart.declare hnow (by decide) (fun _ => ⟨rfl, hpair₁⟩) hsource₁ hfirst
    exact hnoted₁.declare hnow' (by decide) (fun _ => ⟨rfl, hpair₂⟩) hsource₂ hsecond

/-- The operation for an address is not a NOP. -/
theorem Address.operation_nop (addr : Address) : addr.operation.has opNop = false := by
  cases addr with
  | unix path => exact (by decide : opSocketInternal.has opNop = false)
  | other => exact (by decide : opSocketExternal.has opNop = false)

/-- The descriptor stays allowed when more is noted. -/
theorem Allowed.more {d : Descriptor} {now : Seconds} {approvals more : List Approval}
    (h : Allowed (log ++ approvals.map Note.approved) d now) :
    Allowed (log ++ (approvals ++ more).map Note.approved) d now := by
  rw [List.map_append, ← List.append_assoc]
  exact h.mono (Quiet.approvals _)

/-- What `c_bind` and `c_connect` have in common: the socket is checked,
then something may be passed on, with or without a path call. -/
theorem Noted.socket (h : Noted t log cache) {env env' : CallEnv} {d : Descriptor}
    {addr : Address} (hticks : Ticks t [env.now, env.later, env'.now, env'.later])
    {out : Outcome × Bool} (hsocket : citadelSocketFd env cache d addr = some out)
    {passed : List Syscall} (hpassed : passed ≠ [] → out.1.answer = true) :
    Kept env'.later.toNat (log ++ (out.1.approvals env).map Note.approved) [(d, env.now)]
      ⟨out.1.cache, passed, out.1.approvals env, none⟩ ∧
    ∀ call : FileCall, call.env = env' →
      Kept env'.later.toNat (log ++ (out.1.approvals env ++
        (call.run out.1.cache).approvals env').map Note.approved) [(d, env.now)]
        ⟨(call.run out.1.cache).cache, passed,
          out.1.approvals env ++ (call.run out.1.cache).approvals env', none⟩ := by
  obtain ⟨hnow, hrange, hlater, -, hnow', -, hlater', -⟩ := hticks
  obtain ⟨hnoted, hallowed⟩ := h.validate hnow hlater hrange
    (fun o ho => by cases ho; exact addr.operation_nop) hsocket
  refine ⟨⟨?_, fun hne use huse => ?_⟩, ?_⟩
  · simpa [Outcome.notes] using hnoted.later (hnow'.trans hlater')
  · obtain rfl := List.mem_singleton.mp huse
    exact hallowed (hpassed hne)
  rintro call rfl
  refine ⟨?_, fun hne use huse => ?_⟩
  · have hpath := (hnoted.askPath call hnow' hlater').1
    rwa [List.append_assoc, Outcome.notes, Outcome.notes, ← List.map_append] at hpath
  · obtain rfl := List.mem_singleton.mp huse
    exact Allowed.more (hallowed (hpassed hne))

theorem cBind_kept (h : Noted t log cache) {env env' : CallEnv} {d : Descriptor} {addr : Address}
    (hterm : addr.Terminated) {bound : Bool}
    (hticks : Ticks t [env.now, env.later, env'.now, env'.later]) {out : Shimmed}
    (hrun : cBind env env' cache d addr bound = some out) :
    Kept env'.later.toNat (log ++ out.approvals.map Note.approved) [(d, env.now)] out := by
  obtain ⟨⟨result, tainted⟩, hsocket, hrun⟩ := Option.bind_eq_some_iff.mp hrun
  dsimp only at hrun
  split at hrun
  · cases hrun
    exact (h.socket hticks hsocket fun hne => absurd rfl hne).1
  rename_i hanswer
  have hanswer : result.answer = true := by simpa using hanswer
  split at hrun
  · split at hrun
    · cases hrun
      exact (h.socket hticks hsocket fun _ => hanswer).2 ⟨.claimForce, env', _, hterm⟩ rfl
    · cases hrun
      exact (h.socket hticks hsocket fun _ => hanswer).1
  · cases hrun
    exact (h.socket hticks hsocket fun _ => hanswer).1

theorem cConnect_kept (h : Noted t log cache) {env env' : CallEnv} {d : Descriptor}
    {addr : Address} (hterm : addr.Terminated)
    (hticks : Ticks t [env.now, env.later, env'.now, env'.later]) {out : Shimmed}
    (hrun : cConnect env env' cache d addr = some out) :
    Kept env'.later.toNat (log ++ out.approvals.map Note.approved) [(d, env.now)] out := by
  obtain ⟨⟨result, tainted⟩, hsocket, hrun⟩ := Option.bind_eq_some_iff.mp hrun
  dsimp only at hrun
  split at hrun
  · cases hrun
    exact (h.socket hticks hsocket fun hne => absurd rfl hne).1
  rename_i hanswer
  have hanswer : result.answer = true := by simpa using hanswer
  split at hrun
  · split at hrun
    · cases hrun
      exact (h.socket hticks hsocket fun _ => hanswer).2 ⟨.openExt, env', _, hterm⟩ rfl
    · cases hrun
      exact (h.socket hticks hsocket fun _ => hanswer).1
  · cases hrun
    exact (h.socket hticks hsocket fun _ => hanswer).1

theorem cMkfifo_noted (h : Noted t log cache) {env : CallEnv} (path : CString) (made : Bool)
    (hticks : Ticks t [env.now, env.later]) :
    Noted env.later.toNat (log ++ (cMkfifo env cache path.1 made).approvals.map Note.approved)
      (cMkfifo env cache path.1 made).cache := by
  obtain ⟨hnow, -, hlater, -⟩ := hticks
  cases made with
  | false => exact h.mono (hnow.trans hlater) Quiet.nil
  | true => exact (h.askPath ⟨.claimForce, env, path.1, path.2⟩ hnow hlater).1

theorem cClose_noted (h : Noted t log cache) {fd : BitVec 32} {out : Shimmed}
    (hrun : cClose cache fd = some out) :
    Noted t (log ++ (out.approvals.map Note.approved ++ if fd = -1 then [] else [.closed fd]))
      out.cache := by
  unfold cClose at hrun
  by_cases hfd : fd = -1
  · rw [if_pos hfd] at hrun ⊢
    cases hrun
    exact h.mono (le_refl t) Quiet.nil
  · rw [if_neg hfd] at hrun ⊢
    obtain ⟨cache', hremove, rfl⟩ := Option.map_eq_some_iff.mp hrun
    exact h.remove hfd hremove

theorem shimShmget_noted (h : Noted t log cache) {env : CallEnv} (key shmid : BitVec 32)
    (hticks : Ticks t [env.now, env.later]) :
    Noted env.later.toNat (log ++ (shimShmget env cache key shmid).approvals.map Note.approved)
      (shimShmget env cache key shmid).cache := by
  obtain ⟨hnow, -, hlater, -⟩ := hticks
  have haccess := h.shmAccess hnow hlater key false
  rw [shimShmget, cShmget]
  dsimp only
  split
  · exact haccess
  · exact haccess.setShm _

theorem shimShm_noted (h : Noted t log cache) {env : CallEnv} (call : Syscall)
    (shmid : BitVec 32) (hticks : Ticks t [env.now, env.later]) :
    Noted env.later.toNat (log ++ (shimShm call env cache shmid).approvals.map Note.approved)
      (shimShm call env cache shmid).cache := by
  obtain ⟨hnow, -, hlater, -⟩ := hticks
  exact h.shmAccess hnow hlater shmid true

/-! ### `c_open` -/

/-- `c_open` opens the file as it is, or asks. -/
theorem cOpen_cases {vfs : Vfs D I A} {env : OpenEnv} {s : ShimState D I A} {path : List UInt8}
    {oflag : Flags} {mode : Mode} {out : OpenOutcome D I A}
    (hrun : cOpen vfs env s path oflag mode = some out) :
    (out.state.cache = s.cache ∧ out.asked = none) ∨
      ∃ s' : ShimState D I A, s'.cache = s.cache ∧
        requestAndOpen vfs env s' path oflag mode = some out := by
  unfold cOpen at hrun
  dsimp only at hrun
  split at hrun
  · split at hrun
    · split at hrun
      · cases hrun
        exact .inl ⟨rfl, rfl⟩
      · rename_i process fd _ _
        exact .inr ⟨{ s with process := process.close fd }, rfl, hrun⟩
    · split at hrun
      · cases hrun
        exact .inl ⟨rfl, rfl⟩
      · exact .inr ⟨s, rfl, hrun⟩
  · exact .inr ⟨s, rfl, hrun⟩

/-- What a path call asked for was approved if it is in its approvals. -/
theorem FileCall.run_approvals (call : FileCall) (cache : Cache) :
    ((call.run cache).asked.filter call.env.ask).toList.map
        (fun request => Note.approved ⟨request, call.env.later⟩) =
      (call.run cache).notes call.env := by
  rw [call.run_eq, askAboutPath, Outcome.notes, Outcome.approvals]
  split
  · rfl
  dsimp only
  split
  · rfl
  split
  · rename_i hask
    simp [hask]
  · rename_i hask
    simp [hask]

theorem cOpen_kept {vfs : Vfs D I A} {env : OpenEnv} {s : ShimState D I A}
    (h : Noted t log s.cache) {path : CString} {oflag : Flags} {mode : Mode}
    (hticks : Ticks t [env.call.now, env.call.later, env.later]) {out : OpenOutcome D I A}
    (hrun : cOpen vfs env s path.1 oflag mode = some out) :
    Noted env.later.toNat (log ++ ((out.asked.filter env.call.ask).toList.map
        (fun request => Note.approved ⟨request, env.call.later⟩) ++
      [.opened path.1 (BitVec.ofInt 32 out.result) env.call.now env.later])) out.state.cache := by
  obtain ⟨hnow, -, hlater, -, hend, -⟩ := hticks
  have hquiet : ∀ looked stamped fd, Quiet [.opened path.1 fd looked stamped] :=
    fun _ _ _ => ⟨by simp, by simp⟩
  rcases cOpen_cases hrun with ⟨hcache, hasked⟩ | ⟨s', hcache, hrequest⟩
  · rw [hcache, hasked]
    exact h.mono (hnow.trans (hlater.trans hend)) (hquiet _ _ _)
  have hcall : citadelFileOpenExt env.call s.cache (path.1 ++ [0]) =
      FileCall.run s.cache ⟨.openExt, env.call, path.1, path.2⟩ := rfl
  have happrovals := FileCall.run_approvals ⟨.openExt, env.call, path.1, path.2⟩ s.cache
  obtain ⟨hnoted, hfound⟩ := h.askPath ⟨.openExt, env.call, path.1, path.2⟩ hnow hlater
  rw [requestAndOpen, hcache, hcall] at hrequest
  generalize FileCall.run s.cache ⟨.openExt, env.call, path.1, path.2⟩ = result at *
  dsimp only at hrequest happrovals hnoted hfound
  split at hrequest
  · cases hrequest
    rw [happrovals, ← List.append_assoc]
    exact hnoted.mono hend (hquiet _ _ _)
  · rename_i hanswer
    obtain ⟨cache, hdeclare, hout⟩ := Option.bind_eq_some_iff.mp hrequest
    cases hout
    rw [happrovals, ← List.append_assoc]
    have hpath : PathApproved (log ++ result.notes env.call) path.1 env.call.now :=
      hfound (by simpa using hanswer)
    have hdeclared : declare ⟨env.memory, env.later, env.parentIdentifier⟩ result.cache
        ⟨_, _⟩ opOpen = some cache := hdeclare
    refine (hnoted.mono (le_refl _) (hquiet _ _ _)).declare hend (by decide)
      (fun hnop => absurd hnop (by decide)) (fun id => ?_) hdeclared
    exact .opened path.1 env.call.now (.new (List.mem_singleton_self _) (by simp)) hpath.mono

/-! ### Every call -/

theorem clientStep_kept {vfs : Vfs D I A} {c : Caller D I A}
    (h : Noted t c.log c.shim.cache) {call : ShimCall D I A} (hticks : Ticks t call.times)
    {out : Caller D I A × List Syscall} (hstep : clientStep vfs c call = some out) :
    Noted (lastTick t call.times) out.1.log out.1.shim.cache ∧
      (out.2 ≠ [] → ∀ use ∈ call.checked, Allowed out.1.log use.1 use.2) := by
  have hkept : ∀ {t' checked result}, Kept t' (c.log ++ result.approvals.map Note.approved) checked
      result → Noted t' (c.after [] result).1.log (c.after [] result).1.shim.cache ∧
        ((c.after [] result).2 ≠ [] → ∀ use ∈ checked, Allowed (c.after [] result).1.log use.1
          use.2) := by
    intro t' checked result hresult
    rw [Caller.after, List.append_nil]
    exact ⟨hresult.noted, hresult.allowed⟩
  -- the calls that check no descriptor
  have hnoted : ∀ {t' result}, Noted t' (c.log ++ result.approvals.map Note.approved)
      result.cache → Noted t' (c.after [] result).1.log (c.after [] result).1.shim.cache ∧
        ((c.after [] result).2 ≠ [] → ∀ use ∈ ([] : List (Descriptor × Seconds)),
          Allowed (c.after [] result).1.log use.1 use.2) :=
    fun hresult => hkept ⟨hresult, fun _ use huse => absurd huse List.not_mem_nil⟩
  cases call with
  | «open» env path oflag mode =>
    obtain ⟨result, hopen, rfl⟩ := Option.map_eq_some_iff.mp hstep
    exact ⟨cOpen_kept h hticks hopen, fun hpassed => absurd rfl hpassed⟩
  | io kind env d =>
    obtain ⟨result, hio, rfl⟩ := Option.map_eq_some_iff.mp hstep
    exact hkept (guardedIo_kept h hticks hio)
  | listen env d =>
    obtain ⟨result, hlisten, rfl⟩ := Option.map_eq_some_iff.mp hstep
    obtain ⟨result, hio, rfl⟩ := Option.map_eq_some_iff.mp hlisten
    have hresult := guardedIo_kept h hticks hio
    exact hkept ⟨hresult.noted, hresult.allowed⟩
  | sendfile env env' out source =>
    obtain ⟨result, hsendfile, rfl⟩ := Option.map_eq_some_iff.mp hstep
    exact hkept (cSendfile_kept h hticks hsendfile)
  | socketpair env env' made first second =>
    obtain ⟨result, hpair, rfl⟩ := Option.map_eq_some_iff.mp hstep
    exact ⟨cSocketpair_kept h hticks hpair, fun _ use huse => absurd huse List.not_mem_nil⟩
  | bind env env' d addr hterm bound =>
    obtain ⟨result, hbind, rfl⟩ := Option.map_eq_some_iff.mp hstep
    exact hkept (cBind_kept h hterm hticks hbind)
  | connect env env' d addr hterm =>
    obtain ⟨result, hconnect, rfl⟩ := Option.map_eq_some_iff.mp hstep
    exact hkept (cConnect_kept h hterm hticks hconnect)
  | fopen env path =>
    cases hstep
    obtain ⟨hnow, -, hlater, -⟩ := hticks
    exact hnoted (h.askPath ⟨.openExt, env, path.1, path.2⟩ hnow hlater).1
  | mkfifo env path made =>
    cases hstep
    exact hnoted (cMkfifo_noted h path made hticks)
  | close fd =>
    obtain ⟨result, hclose, rfl⟩ := Option.map_eq_some_iff.mp hstep
    exact ⟨cClose_noted h hclose, fun _ use huse => absurd huse List.not_mem_nil⟩
  | shmget env key shmid =>
    cases hstep
    exact hnoted (shimShmget_noted h key shmid hticks)
  | shmat env shmid =>
    cases hstep
    exact hnoted (shimShm_noted h (.shmat shmid) shmid hticks)
  | shmctl env shmid =>
    cases hstep
    exact hnoted (shimShm_noted h (.shmctl shmid) shmid hticks)
  | fork child =>
    refine ⟨?_, fun _ use huse => absurd huse List.not_mem_nil⟩
    cases child with
    | none =>
      cases hstep
      exact h
    | some child =>
      obtain ⟨result, hinit, rfl⟩ := Option.map_eq_some_iff.mp hstep
      exact h.forked hinit
  | elsewhere process =>
    cases hstep
    exact ⟨h, fun hpassed => absurd rfl hpassed⟩

theorem clientRun_noted {vfs : Vfs D I A} {calls : List (ShimCall D I A)} {c c' : Caller D I A}
    (h : Noted t c.log c.shim.cache) (hticks : Ticks t (calls.flatMap ShimCall.times))
    (hrun : clientRun vfs c calls = some c') :
    Noted (lastTick t (calls.flatMap ShimCall.times)) c'.log c'.shim.cache := by
  induction calls generalizing t c with
  | nil =>
    cases hrun
    exact h
  | cons call calls ih =>
    obtain ⟨c₁, hstep, hrest⟩ := Run.cons_some hrun
    obtain ⟨out, hcall, rfl⟩ := Option.map_eq_some_iff.mp hstep
    rw [List.flatMap_cons] at hticks ⊢
    obtain ⟨hfirst, hthen⟩ := ticks_append.mp hticks
    rw [lastTick_append]
    exact ih (clientStep_kept h hfirst hcall).1 hthen hrest

/-- **Recent approvals.** Over every run of calls of the shim by a process
that starts with an empty cache, and its children: whenever a call passes
something on, each descriptor it has checked has no label, or is one of a
pair that the process made by `c_socketpair` and has not closed; or not more
than 13 seconds before its label was approved, or a pair of `c_socketpair`
was made with it, or `c_open` returned it for a path whose approval was at
most 14 seconds old when `c_open` looked, and it was not closed since. -/
theorem io_recently_approved {vfs : Vfs D I A} {s : ShimState D I A} (hempty : s.cache = .init)
    {calls : List (ShimCall D I A)} {call : ShimCall D I A}
    (hticks : Ticks 0 ((calls ++ [call]).flatMap ShimCall.times)) {c : Caller D I A}
    (hrun : clientRun vfs ⟨s, []⟩ calls = some c) {out : Caller D I A × List Syscall}
    (hstep : clientStep vfs c call = some out) (hpassed : out.2 ≠ []) {d : Descriptor}
    {now : Seconds} (hchecked : (d, now) ∈ call.checked) :
    Unlabelled d.xattr ∨ ∃ id, Labelled d.xattr id ∧
      (Paired out.1.log d.fd ∨
        ∃ t, Source out.1.log d.fd id t ∧ now.toNat ≤ t.toNat + 13) := by
  have hstart : Noted 0 [] s.cache := by
    rw [hempty]
    exact Noted.init
  rw [List.flatMap_append] at hticks
  obtain ⟨hbefore, hlast⟩ := ticks_append.mp hticks
  rw [List.flatMap_singleton] at hlast
  have hnoted := clientRun_noted hstart hbefore hrun
  exact (clientStep_kept hnoted hlast hstep).2 hpassed (d, now) hchecked

end Runs

def Note.isApproval : Note → Bool
  | .approved _ => true
  | _ => false

/-- At `now`, with an enclave that gives the answer. -/
def clockAt (now : Seconds) (answer : Bool) : CallEnv :=
  ⟨now, now, ⟨[], 0, 0, 0, 0, .fileOpenFd⟩, fun _ => answer⟩

/-- `/f` is opened at `now`; it has a label of zeros. -/
def openAt (now : Seconds) (answer : Bool) : ShimCall Unit Unit Unit :=
  .open ⟨clockAt now answer, ⟨[], 0, 0, 0, 0, .fileOpenFd⟩, now, zeros _, zeroLabel⟩
    ⟨ascii "/f", by decide⟩ 0 0

def readAt (now : Seconds) : ShimCall Unit Unit Unit :=
  .io .read (clockAt now false) ⟨4, zeroLabel⟩

/-- `/f` is approved at 100, opened once more at 114 and read at 127, when
the enclave has long stopped approving anything. -/
theorem twenty_seven_seconds :
    ∃ c out, clientRun permissiveVfs ⟨⟨standardProcess true [], true, .init⟩, []⟩
        [openAt 100 true, openAt 114 false] = some c ∧
      clientStep permissiveVfs c (readAt 127) = some out ∧ out.2 = [.io .read 4] ∧
      out.1.log.filter Note.isApproval =
        [.approved ⟨.extended opOpen (ascii "/f" ++ [0]) true, 100⟩] ∧
      (Unlabelled zeroLabel ∨ ∃ id, Labelled zeroLabel id ∧
        (Paired out.1.log 4 ∨
          ∃ t, Source out.1.log 4 id t ∧ (127 : Seconds).toNat ≤ t.toNat + 13)) := by
  have heval : ((clientRun permissiveVfs ⟨⟨standardProcess true [], true, .init⟩, []⟩
      [openAt 100 true, openAt 114 false]).bind fun c =>
        (clientStep permissiveVfs c (readAt 127)).map fun out =>
          (out.2, out.1.log.filter Note.isApproval)) =
      some ([.io .read 4], [.approved ⟨.extended opOpen (ascii "/f" ++ [0]) true, 100⟩]) := by
    decide +kernel
  obtain ⟨c, hrun, heval⟩ := Option.bind_eq_some_iff.mp heval
  obtain ⟨out, hstep, heval⟩ := Option.map_eq_some_iff.mp heval
  simp only [Prod.mk.injEq] at heval
  refine ⟨c, out, hrun, hstep, heval.1, heval.2, ?_⟩
  exact io_recently_approved rfl (by simp [Ticks, openAt, readAt, clockAt, ShimCall.times]) hrun
    hstep (by rw [heval.1]; simp) (List.mem_singleton_self _)

end Citadel.Libcitadel
