/-
Citadel.Libcitadel.Shim — `c_open` (`libcitadel/src/shim.c`).

`c_open` stands for `open`. An untainted process opens the file as it would
without the library, and goes to the enclave only if that does not work; a
tainted one goes to the enclave first, but has to make a file that is not
there before it can ask for it. So the file may be opened twice, with the
same flags, and closed in between.

With an enclave that approves and hooks that permit, `c_open` is `open`
except in three places (`c_open_transparent_iff`):

* the test for success is `fd > 0`: a process that gets descriptor 0 from
  its plain open closes it again, asks, and is tainted;
* a file that was made for the request is there when it is opened, which
  fails with `O_EXCL`, or when its mode does not let it be opened again;
* declaring the descriptor reads 16 bytes of the file's identifier, however
  many there are.
-/
import Citadel.Lib.Posix
import Citadel.Libcitadel.Cache

namespace Citadel.Libcitadel

open Bytes Posix

variable {D I A : Type}

/-- A process that uses the library: itself, `known_taint` and the cache. -/
structure ShimState (D I A : Type) where
  process : Process D I A
  tainted : Bool
  cache : Cache

/-- What happens during `c_open`: the request, the clock and the memory of
the entry for the descriptor, and what `fgetxattr` finds on the file. -/
structure OpenEnv where
  call : CallEnv
  memory : CacheItem
  later : Seconds
  parentIdentifier : Identifier
  xattr : Option (List UInt8)

structure OpenOutcome (D I A : Type) where
  result : Int
  state : ShimState D I A
  asked : Option Request

section Calls

variable [DecidableEq D] [DecidableEq I] (vfs : Vfs D I A)

/-- `c_open` from the request on. -/
def requestAndOpen (env : OpenEnv) (s : ShimState D I A) (path : List UInt8) (oflag : Flags)
    (mode : Mode) : Option (OpenOutcome D I A) :=
  let out := citadelFileOpenExt env.call s.cache (path ++ [0])
  -- `-EPERM` is -1
  if !out.answer then some ⟨-1, { s with cache := out.cache }, out.asked⟩
  else do
    let opened := s.process.openResult vfs path oflag mode
    -- -1 has no attributes
    let xattr := if opened.2 = -1 then none else env.xattr
    let cache ← citadelDeclareFd env.memory env.later env.parentIdentifier out.cache
      (BitVec.ofInt 32 opened.2) xattr opOpen
    some ⟨opened.2, ⟨opened.1, true, cache⟩, out.asked⟩

def cOpen (env : OpenEnv) (s : ShimState D I A) (path : List UInt8) (oflag : Flags)
    (mode : Mode) : Option (OpenOutcome D I A) :=
  let creating := !s.process.access path && oflag.has oCreat
  if !s.tainted || creating then
    match s.process.openFile vfs path oflag mode with
    | .ok (process, fd) =>
      if !s.tainted && decide (0 < fd) then some ⟨fd, { s with process := process }, none⟩
      else requestAndOpen vfs env { s with process := process.close fd } path oflag mode
    | .error errno =>
      if errno ≠ .eperm ∧ errno ≠ .eacces then some ⟨-1, s, none⟩
      else requestAndOpen vfs env s path oflag mode
  else requestAndOpen vfs env s path oflag mode

/-! ## Transparency -/

/-- The call has done what `open` does: a descriptor if that gives one, the
same file system, and nothing else to an untainted process that gets one. -/
structure LikeOpen (s : ShimState D I A) (path : List UInt8) (oflag : Flags) (mode : Mode)
    (out : OpenOutcome D I A) : Prop where
  descriptor : out.state.process.Valid out.result ↔
    (s.process.openResult vfs path oflag mode).1.Valid
      (s.process.openResult vfs path oflag mode).2
  files : out.state.process.fs = (s.process.openResult vfs path oflag mode).1.fs
  quiet : s.tainted = false →
    (s.process.openResult vfs path oflag mode).1.Valid
      (s.process.openResult vfs path oflag mode).2 →
    out.state.tainted = false ∧ out.asked = none

/-- `c_open` comes back and has done what `open` does. -/
def Transparent (env : OpenEnv) (s : ShimState D I A) (path : List UInt8) (oflag : Flags)
    (mode : Mode) : Prop :=
  ∃ out, cOpen vfs env s path oflag mode = some out ∧ LikeOpen vfs s path oflag mode out

/-- The attribute reads as no identifier, or as one of 16 bytes at least. -/
def readableXattr (xattr : Option (List UInt8)) : Bool :=
  (getFdIdentifier xattr).any fun out => out.1.all fun raw => identifierLength ≤ raw.length

/-- A file that the call makes can be opened again. -/
def ReopensMade (p : Process D I A) (path : List UInt8) (oflag : Flags) (mode : Mode) : Prop :=
  ∀ d i attr, p.fs.walk path = .ok d → p.fs.entries d = none →
    vfs.create p.fs d oflag mode = .ok (i, attr) →
    oflag.has oExcl = false ∧ vfs.permit (p.fs.link d i attr) i oflag = none

/-- Where `open` gives the descriptor, the three places are not met. -/
structure OpensAlike (env : OpenEnv) (s : ShimState D I A) (path : List UInt8) (oflag : Flags)
    (mode : Mode) (fd : Nat) : Prop where
  positive : s.tainted = false → fd ≠ 0
  again : s.tainted = true → ReopensMade vfs s.process path oflag mode
  readable : s.tainted = true → readableXattr env.xattr = true

/-! ## The request -/

theorem citadelFileOpenExt_approved {env : CallEnv} (hask : ∀ request, env.ask request = true)
    (cache : Cache) {path : List UInt8} (hpath : pathError path = none) :
    (citadelFileOpenExt env cache (path ++ [0])).answer = true := by
  have hsize : ¬ ((path ++ [0]).length > maxMetadataSize ∨ (path ++ [0]).length < 2) := by
    rw [List.length_append, List.length_singleton]
    have hlength := pathError_eq_none.mp hpath
    unfold pathMax at hlength
    unfold maxMetadataSize
    omega
  rw [citadelFileOpenExt, askAboutPath, if_neg hsize]
  dsimp only
  split
  · rfl
  · rw [if_pos (hask _)]

/-- A descriptor with an identifier is tainted. -/
theorem getFdIdentifier_tainted {xattr : Option (List UInt8)} {raw : List UInt8} {tainted : Bool}
    (h : getFdIdentifier xattr = some (some raw, tainted)) : tainted = true := by
  unfold getFdIdentifier at h
  split at h
  · cases h
  · split at h
    · obtain ⟨hexstring, -, heq⟩ := Option.bind_eq_some_iff.mp h
      simp only [Option.some.injEq, Prod.mk.injEq] at heq
      exact heq.2.symm
    · split at h
      · obtain ⟨hexstring, -, heq⟩ := Option.bind_eq_some_iff.mp h
        simp only [Option.some.injEq, Prod.mk.injEq] at heq
        exact heq.2.symm
      · cases h

/-- The declaration faults only on an identifier that is too short. -/
theorem citadelDeclareFd_isSome (memory : CacheItem) (now : Seconds)
    (parentIdentifier : Identifier) (cache : Cache) (fd : BitVec 32)
    (xattr : Option (List UInt8)) {op : Operation} (hop : op.has opParent = false) :
    (citadelDeclareFd memory now parentIdentifier cache fd xattr op).isSome =
      readableXattr xattr := by
  unfold citadelDeclareFd readableXattr
  cases hread : getFdIdentifier xattr with
  | none => rfl
  | some out =>
    obtain ⟨identifier, tainted⟩ := out
    cases identifier with
    | none => rfl
    | some raw =>
      cases getFdIdentifier_tainted hread
      by_cases hlength : identifierLength ≤ raw.length
      · obtain ⟨data, hdata⟩ := read_isSome (show 0 + identifierLength ≤ raw.length by omega)
        simp [hop, hdata, hlength]
      · have hdata : read raw 0 identifierLength = none := read_none (by omega)
        simp [hop, hdata, hlength]

variable {vfs} {env : OpenEnv} {s : ShimState D I A} {path : List UInt8} {oflag : Flags}
  {mode : Mode} {p : Process D I A} {fd : Nat}

variable (env) in
/-- If the file cannot be opened, nothing has happened to the process. -/
theorem requestAndOpen_error {e : Errno}
    (hopen : s.process.openFile vfs path oflag mode = .error e) :
    ∃ out, requestAndOpen vfs env s path oflag mode = some out ∧ out.result = -1 ∧
      out.state.process = s.process := by
  unfold requestAndOpen
  dsimp only
  split
  · exact ⟨_, rfl, rfl, rfl⟩
  · rw [openResult_error hopen]
    exact ⟨_, rfl, rfl, rfl⟩

/-- Once the enclave has approved, the process is tainted. -/
theorem requestAndOpen_taints (hask : ∀ request, env.call.ask request = true)
    (hpath : pathError path = none) {out : OpenOutcome D I A}
    (h : requestAndOpen vfs env s path oflag mode = some out) : out.state.tainted = true := by
  have hanswer := citadelFileOpenExt_approved hask s.cache hpath
  simp only [requestAndOpen, hanswer, Bool.not_true, Bool.false_eq_true, if_false] at h
  obtain ⟨cache, -, heq⟩ := Option.bind_eq_some_iff.mp h
  cases heq
  rfl

/-- If it can, the descriptor is declared. -/
theorem requestAndOpen_ok (hask : ∀ request, env.call.ask request = true)
    (hopen : s.process.openFile vfs path oflag mode = .ok (p, fd)) :
    requestAndOpen vfs env s path oflag mode =
      (citadelDeclareFd env.memory env.later env.parentIdentifier
        (citadelFileOpenExt env.call s.cache (path ++ [0])).cache (BitVec.ofInt 32 fd)
        env.xattr opOpen).map fun cache =>
          ⟨fd, ⟨p, true, cache⟩, (citadelFileOpenExt env.call s.cache (path ++ [0])).asked⟩ := by
  obtain ⟨hpath, -⟩ := openFile_ok hopen
  have hanswer := citadelFileOpenExt_approved hask s.cache hpath
  have hfd : ¬ (fd : Int) = -1 := by omega
  simp only [requestAndOpen, hanswer, openResult_ok hopen, Bool.not_true, Bool.false_eq_true,
    if_false, if_neg hfd]
  exact Option.map_eq_bind.symm

/-! ## By what `open` gives -/

/-- A call that ends with -1 and leaves the process is like an `open` that
fails. -/
theorem LikeOpen.of_error {e : Errno} {out : OpenOutcome D I A}
    (hopen : s.process.openFile vfs path oflag mode = .error e) (hresult : out.result = -1)
    (hprocess : out.state.process = s.process) : LikeOpen vfs s path oflag mode out := by
  have hplain := openResult_error hopen
  refine ⟨?_, ?_, fun _ hvalid => ?_⟩
  · rw [hplain, hresult]
    exact iff_of_false (Process.not_valid_neg _) (Process.not_valid_neg _)
  · rw [hplain, hprocess]
  · rw [hplain] at hvalid
    exact absurd hvalid (Process.not_valid_neg _)

/-- A call that ends with the descriptor and the process that `open` gives
is like it, unless it asked or tainted where `open` was enough. -/
theorem LikeOpen.of_ok {out : OpenOutcome D I A}
    (hopen : s.process.openFile vfs path oflag mode = .ok (p, fd)) (hresult : out.result = fd)
    (hprocess : out.state.process = p)
    (hquiet : s.tainted = false → out.state.tainted = false ∧ out.asked = none) :
    LikeOpen vfs s path oflag mode out := by
  have hplain := openResult_ok hopen
  refine ⟨?_, ?_, fun htainted _ => hquiet htainted⟩
  · rw [hplain, hresult, hprocess]
  · rw [hplain, hprocess]

/-- Like one that succeeds is only a call that ends with a descriptor. -/
theorem LikeOpen.result_ne {out : OpenOutcome D I A}
    (hopen : s.process.openFile vfs path oflag mode = .ok (p, fd))
    (h : LikeOpen vfs s path oflag mode out) : out.result ≠ -1 := by
  intro hresult
  have hvalid := h.descriptor.mpr (by rw [openResult_ok hopen]; exact openFile_valid hopen)
  rw [hresult] at hvalid
  exact Process.not_valid_neg _ hvalid

/-- Where `open` fails, `c_open` does. -/
theorem transparent_of_error {e : Errno}
    (hopen : s.process.openFile vfs path oflag mode = .error e) :
    Transparent vfs env s path oflag mode := by
  obtain ⟨out, hout, hresult, hprocess⟩ := requestAndOpen_error env hopen
  unfold Transparent cOpen
  simp only [hopen]
  split
  · split
    · exact ⟨_, rfl, .of_error hopen rfl rfl⟩
    · exact ⟨out, hout, .of_error hopen hresult hprocess⟩
  · exact ⟨out, hout, .of_error hopen hresult hprocess⟩

/-- Where an untainted process gets a descriptor, it must not be 0. -/
theorem transparent_untainted (hask : ∀ request, env.call.ask request = true)
    (htainted : s.tainted = false)
    (hopen : s.process.openFile vfs path oflag mode = .ok (p, fd)) :
    Transparent vfs env s path oflag mode ↔ fd ≠ 0 := by
  unfold Transparent cOpen
  simp only [hopen, htainted, Bool.not_false, Bool.true_or, if_true, Bool.true_and,
    decide_eq_true_eq]
  cases fd with
  | succ fd =>
    refine iff_of_true ⟨_, if_pos (Nat.succ_pos fd), ?_⟩ (Nat.succ_ne_zero fd)
    exact .of_ok hopen rfl rfl fun _ => ⟨rfl, rfl⟩
  | zero =>
    refine iff_of_false ?_ (not_not_intro rfl)
    rintro ⟨out, hout, hlike⟩
    rw [if_neg (Nat.lt_irrefl 0)] at hout
    have htaints := requestAndOpen_taints hask (openFile_ok hopen).1 hout
    have hquiet := hlike.quiet htainted (by rw [openResult_ok hopen]; exact openFile_valid hopen)
    rw [htaints] at hquiet
    cases hquiet.1

/-- Where the second `open` of a tainted process gives what the first
would, the declaration must not fault. -/
theorem transparent_requested (hask : ∀ request, env.call.ask request = true)
    (htainted : s.tainted = true) {s' : ShimState D I A}
    (hopen : s.process.openFile vfs path oflag mode = .ok (p, fd))
    (hagain : s'.process.openFile vfs path oflag mode = .ok (p, fd))
    (hcall : cOpen vfs env s path oflag mode = requestAndOpen vfs env s' path oflag mode) :
    Transparent vfs env s path oflag mode ↔ readableXattr env.xattr = true := by
  have hdeclared := citadelDeclareFd_isSome env.memory env.later env.parentIdentifier
    (citadelFileOpenExt env.call s'.cache (path ++ [0])).cache (BitVec.ofInt 32 fd) env.xattr
    (show opOpen.has opParent = false by decide)
  unfold Transparent
  rw [hcall, requestAndOpen_ok hask hagain, ← hdeclared]
  constructor
  · rintro ⟨out, hout, -⟩
    obtain ⟨cache, hcache, -⟩ := Option.map_eq_some_iff.mp hout
    rw [hcache]
    rfl
  · intro hsome
    obtain ⟨cache, hcache⟩ := Option.isSome_iff_exists.mp hsome
    refine ⟨_, by rw [hcache]; rfl, .of_ok hopen rfl rfl fun hnot => ?_⟩
    rw [htainted] at hnot
    cases hnot

/-- Where it fails although the first would not, there is no descriptor. -/
theorem not_transparent_requested {e : Errno} {s' : ShimState D I A}
    (hopen : s.process.openFile vfs path oflag mode = .ok (p, fd))
    (hagain : s'.process.openFile vfs path oflag mode = .error e)
    (hcall : cOpen vfs env s path oflag mode = requestAndOpen vfs env s' path oflag mode) :
    ¬ Transparent vfs env s path oflag mode := by
  rintro ⟨out, hout, hlike⟩
  obtain ⟨out', hout', hresult, -⟩ := requestAndOpen_error env hagain
  rw [hcall, hout'] at hout
  cases hout
  exact hlike.result_ne hopen hresult

/-- `c_open` of a tainted process that makes no file. -/
theorem cOpen_tainted (htainted : s.tainted = true)
    (hcreating : (!s.process.access path && oflag.has oCreat) = false) :
    cOpen vfs env s path oflag mode = requestAndOpen vfs env s path oflag mode := by
  simp [cOpen, htainted, hcreating]

variable (env) in
/-- And of one that has made it. -/
theorem cOpen_creating (htainted : s.tainted = true)
    (hcreating : (!s.process.access path && oflag.has oCreat) = true)
    (hopen : s.process.openFile vfs path oflag mode = .ok (p, fd)) :
    cOpen vfs env s path oflag mode =
      requestAndOpen vfs env { s with process := p.close fd } path oflag mode := by
  simp [cOpen, htainted, hcreating, hopen]

/-- Where a tainted process gets a descriptor. -/
theorem transparent_tainted (hask : ∀ request, env.call.ask request = true)
    (htainted : s.tainted = true)
    (hopen : s.process.openFile vfs path oflag mode = .ok (p, fd)) :
    Transparent vfs env s path oflag mode ↔
      ReopensMade vfs s.process path oflag mode ∧ readableXattr env.xattr = true := by
  cases hcreating : !s.process.access path && oflag.has oCreat with
  | false =>
    -- nothing is made
    have hreopens : ReopensMade vfs s.process path oflag mode := by
      intro d i attr hwalk hentry _
      obtain ⟨haccess, hcreat⟩ := access_absent hwalk hentry hopen
      rw [haccess, hcreat] at hcreating
      cases hcreating
    rw [transparent_requested hask htainted hopen hopen (cOpen_tainted htainted hcreating)]
    exact (and_iff_right hreopens).symm
  | true =>
    have hcall := cOpen_creating env htainted hcreating hopen
    rw [close_openFile hopen] at hcall
    rw [Bool.and_eq_true, Bool.not_eq_true'] at hcreating
    obtain ⟨hpath, hlowest, -⟩ := openFile_ok hopen
    obtain ⟨d, i, attr, hwalk, hentry, hmade, hcreat, rfl⟩ := openFile_created hcreating.1 hopen
    by_cases hreopens : oflag.has oExcl = false ∧
        vfs.permit (s.process.fs.link d i attr) i oflag = none
    · have hagain := reopen_created vfs mode i attr hwalk hcreat hpath hlowest
      rw [hreopens.1, hreopens.2] at hagain
      rw [transparent_requested hask htainted hopen hagain hcall]
      refine (and_iff_right ?_).symm
      intro d' i' attr' hwalk' hentry' hmade'
      cases hwalk.symm.trans hwalk'
      cases hmade.symm.trans hmade'
      exact hreopens
    · obtain ⟨e, he⟩ := reopen_created_error hwalk hcreat hpath hlowest hreopens
      exact iff_of_false (not_transparent_requested hopen he hcall) fun h =>
        hreopens (h.1 d i attr hwalk hentry hmade)

/-- **`c_open` is `open`.** With an enclave that approves, `c_open` does
what `open` does, for every file system, path, flags, mode and descriptors,
exactly if this is so where `open` gives a descriptor: to an untainted
process not 0, and to a tainted one for a file that it can open again if it
makes it, and declare. -/
theorem c_open_transparent_iff (hask : ∀ request, env.call.ask request = true) :
    Transparent vfs env s path oflag mode ↔
      ∀ p fd, s.process.openFile vfs path oflag mode = .ok (p, fd) →
        OpensAlike vfs env s path oflag mode fd := by
  cases hopen : s.process.openFile vfs path oflag mode with
  | error e =>
    refine iff_of_true (transparent_of_error hopen) ?_
    intro p fd heq
    cases heq
  | ok out =>
    obtain ⟨p, fd⟩ := out
    cases htainted : s.tainted with
    | false =>
      rw [transparent_untainted hask htainted hopen]
      constructor
      · rintro hfd p' fd' heq
        cases heq
        exact ⟨fun _ => hfd, fun h => by simp [htainted] at h, fun h => by simp [htainted] at h⟩
      · intro h
        exact (h p fd rfl).positive htainted
    | true =>
      rw [transparent_tainted hask htainted hopen]
      constructor
      · rintro ⟨hreopens, hreadable⟩ p' fd' heq
        cases heq
        exact ⟨fun h => by simp [htainted] at h, fun _ => hreopens, fun _ => hreadable⟩
      · intro h
        exact ⟨(h p fd rfl).again htainted, (h p fd rfl).readable htainted⟩

end Calls

/-! ## One file -/

/-- All paths lead to one file, which is there or not. -/
def oneFile (there : Bool) : FileSystem Unit Unit Unit :=
  ⟨fun _ => .ok (), fun _ => if there then some () else none, fun _ => ⟨(), []⟩⟩

def permissiveVfs : Vfs Unit Unit Unit :=
  ⟨fun _ _ _ => none, fun _ _ _ _ => .ok ((), ()), fun _ => true⟩

/-- The enclave approves, the file has no label. -/
def approvingOpen : OpenEnv where
  call := ⟨0, 0, ⟨[], 0, 0, 0, 0, .fileOpenFd⟩, fun _ => true⟩
  memory := ⟨[], 0, 0, 0, 0, .fileOpenFd⟩
  later := 0
  parentIdentifier := zeros _
  xattr := none

/-- Has the descriptors below three, but for those the list names. -/
def standardProcess (there : Bool) (closed : List Nat) : Process Unit Unit Unit :=
  ⟨oneFile there, fun fd => if fd < 3 ∧ fd ∉ closed then some () else none, 16⟩

/-- A tainted process makes a file. -/
theorem tainted_creation_transparent :
    (∀ request, approvingOpen.call.ask request = true) ∧
      Transparent permissiveVfs approvingOpen ⟨standardProcess false [], true, .init⟩
        (ascii "/f") oCreat 0o600 := by
  refine ⟨fun _ => rfl, (c_open_transparent_iff fun _ => rfl).mpr ?_⟩
  intro p fd _
  refine ⟨fun hnot => ?_, fun _ d i attr _ _ _ => ⟨by decide, rfl⟩, fun _ => by decide⟩
  cases hnot

/-- An untainted process without a standard input opens a file; a tainted
one makes a file that must be new. -/
theorem c_open_not_transparent :
    ¬ Transparent permissiveVfs approvingOpen ⟨standardProcess true [0], false, .init⟩
        (ascii "/f") 0 0 ∧
      ¬ Transparent permissiveVfs approvingOpen ⟨standardProcess false [], true, .init⟩
        (ascii "/f") (oCreat ||| oExcl) 0o600 := by
  constructor
  · intro h
    exact (transparent_untainted (fun _ => rfl) rfl rfl).mp h rfl
  · intro h
    have hnew := ((transparent_tainted (fun _ => rfl) rfl rfl).mp h).1 () () () rfl rfl rfl
    exact absurd hnew.1 (by decide)

end Citadel.Libcitadel
