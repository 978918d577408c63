/-
Citadel.Lib.Posix — opening files by path.

A process has a table of descriptors and works on a file system. `open`
takes the lowest free descriptor, follows the path to a place in a
directory, and opens the file that is there or makes one. What a file
system decides for itself is `Vfs`: whether it lets a file that is there be
opened, and what making a file gives.

Every error leaves everything as it was. The lemmas are about a file that
is opened, closed and opened again: the descriptor comes back
(`close_openFile`), and a file that the first call made is opened as any
other by the second (`reopen_created`).
-/
import Mathlib.Logic.Function.Basic
import Mathlib.Data.List.Basic

namespace Posix

inductive Errno where
  | eperm
  | enoent
  | eacces
  | eexist
  | emfile
  | enametoolong
  | other (code : Nat)
  deriving DecidableEq

abbrev Flags := BitVec 32

def Flags.has (flags mask : Flags) : Bool := flags &&& mask != 0

def oCreat : Flags := 0o100

def oExcl : Flags := 0o200

def oTrunc : Flags := 0o1000

abbrev Mode := BitVec 32

/-! ## File systems -/

structure Node (A : Type) where
  attr : A
  content : List UInt8
  deriving DecidableEq

structure FileSystem (D I A : Type) where
  /-- The place in a directory a path leads to. -/
  walk : List UInt8 → Except Errno D
  entries : D → Option I
  nodes : I → Node A

/-- What a file system decides for itself. -/
structure Vfs (D I A : Type) where
  /-- Why a file that is there is not opened. -/
  permit : FileSystem D I A → I → Flags → Option Errno
  /-- The file that is made, empty. -/
  create : FileSystem D I A → D → Flags → Mode → Except Errno (I × A)
  regular : A → Bool

section Files

variable {D I A : Type} [DecidableEq D] [DecidableEq I]

def FileSystem.truncate (fs : FileSystem D I A) (i : I) : FileSystem D I A :=
  { fs with nodes := Function.update fs.nodes i { fs.nodes i with content := [] } }

/-- An empty file at a place. -/
def FileSystem.link (fs : FileSystem D I A) (d : D) (i : I) (attr : A) : FileSystem D I A :=
  { fs with
    entries := Function.update fs.entries d (some i)
    nodes := Function.update fs.nodes i ⟨attr, []⟩ }

@[simp] theorem link_walk (fs : FileSystem D I A) (d : D) (i : I) (attr : A) :
    (fs.link d i attr).walk = fs.walk := rfl

@[simp] theorem link_entries_self (fs : FileSystem D I A) (d : D) (i : I) (attr : A) :
    (fs.link d i attr).entries d = some i := Function.update_self ..

/-- A new file is as if it had been emptied. -/
theorem truncate_link (fs : FileSystem D I A) (d : D) (i : I) (attr : A) :
    (fs.link d i attr).truncate i = fs.link d i attr := by
  simp [FileSystem.truncate, FileSystem.link]

variable (vfs : Vfs D I A)

/-- A file that is there. -/
def openExisting (fs : FileSystem D I A) (i : I) (flags : Flags) :
    Except Errno (FileSystem D I A × I) :=
  if flags.has oCreat && flags.has oExcl then .error .eexist
  else
    match vfs.permit fs i flags with
    | some e => .error e
    | none =>
      .ok (if flags.has oTrunc && vfs.regular (fs.nodes i).attr then fs.truncate i else fs, i)

/-- A file that is not there. -/
def openAbsent (fs : FileSystem D I A) (d : D) (flags : Flags) (mode : Mode) :
    Except Errno (FileSystem D I A × I) :=
  if flags.has oCreat then
    (vfs.create fs d flags mode).map fun made => (fs.link d made.1 made.2, made.1)
  else .error .enoent

def openNode (fs : FileSystem D I A) (path : List UInt8) (flags : Flags) (mode : Mode) :
    Except Errno (FileSystem D I A × I) :=
  (fs.walk path).bind fun d =>
    match fs.entries d with
    | some i => openExisting vfs fs i flags
    | none => openAbsent vfs fs d flags mode

variable {vfs} {fs : FileSystem D I A} {path : List UInt8} {d : D}

theorem openNode_existing {i : I} (hwalk : fs.walk path = .ok d) (hentry : fs.entries d = some i)
    (flags : Flags) (mode : Mode) :
    openNode vfs fs path flags mode = openExisting vfs fs i flags := by
  simp only [openNode, hwalk, Except.bind, hentry]

theorem openNode_absent (hwalk : fs.walk path = .ok d) (hentry : fs.entries d = none)
    (flags : Flags) (mode : Mode) :
    openNode vfs fs path flags mode = openAbsent vfs fs d flags mode := by
  simp only [openNode, hwalk, Except.bind, hentry]

variable (vfs) in
/-- A new file is opened again unless it must be new or the file system
does not let it be opened. -/
theorem openExisting_link (fs : FileSystem D I A) (d : D) (i : I) (attr : A) {flags : Flags}
    (hcreat : flags.has oCreat = true) :
    openExisting vfs (fs.link d i attr) i flags =
      if flags.has oExcl then .error .eexist
      else (vfs.permit (fs.link d i attr) i flags).elim (.ok (fs.link d i attr, i)) .error := by
  rw [openExisting, hcreat, Bool.true_and]
  cases flags.has oExcl with
  | true => rfl
  | false =>
    cases vfs.permit (fs.link d i attr) i flags with
    | some e => rfl
    | none => simp [truncate_link]

end Files

/-! ## Processes -/

/-- `PATH_MAX`, with the terminator. -/
def pathMax : Nat := 4096

/-- Paths that are no paths. -/
def pathError (path : List UInt8) : Option Errno :=
  if path = [] then some .enoent
  else if pathMax < path.length + 1 then some .enametoolong
  else none

theorem pathError_eq_none {path : List UInt8} :
    pathError path = none ↔ 0 < path.length ∧ path.length + 1 ≤ pathMax := by
  unfold pathError
  cases path with
  | nil => simp
  | cons c path => simp

/-- A process: the file system, its descriptors and how many it may have. -/
structure Process (D I A : Type) where
  fs : FileSystem D I A
  table : Nat → Option I
  limit : Nat

section Calls

variable {D I A : Type}

/-- The lowest descriptor that is free. -/
def Process.lowest (p : Process D I A) : Option Nat :=
  (List.range p.limit).find? fun fd => (p.table fd).isNone

theorem Process.lowest_free {p : Process D I A} {fd : Nat} (h : p.lowest = some fd) :
    p.table fd = none := by
  have hfree := List.find?_some h
  simpa using hfree

def Process.close (p : Process D I A) (fd : Nat) : Process D I A :=
  { p with table := Function.update p.table fd none }

/-- The number is a descriptor of an open file. -/
def Process.Valid (p : Process D I A) (fd : Int) : Prop := 0 ≤ fd ∧ (p.table fd.toNat).isSome = true

theorem Process.not_valid_neg (p : Process D I A) : ¬ p.Valid (-1) := by
  rintro ⟨hnonneg, -⟩
  omega

/-- `access(path, F_OK) == 0`. -/
def Process.access (p : Process D I A) (path : List UInt8) : Bool :=
  (pathError path).isNone &&
    match p.fs.walk path with
    | .ok d => (p.fs.entries d).isSome
    | .error _ => false

variable [DecidableEq D] [DecidableEq I] (vfs : Vfs D I A)

/-- `open`. -/
def Process.openFile (p : Process D I A) (path : List UInt8) (flags : Flags) (mode : Mode) :
    Except Errno (Process D I A × Nat) :=
  match pathError path with
  | some e => .error e
  | none =>
    match p.lowest with
    | none => .error .emfile
    | some fd =>
      (openNode vfs p.fs path flags mode).map fun out =>
        ({ p with fs := out.1, table := Function.update p.table fd (some out.2) }, fd)

variable {vfs} {p p' : Process D I A} {path : List UInt8} {flags : Flags} {mode : Mode} {fd : Nat}

theorem openFile_some (hpath : pathError path = none) (hlowest : p.lowest = some fd) :
    p.openFile vfs path flags mode =
      (openNode vfs p.fs path flags mode).map fun out =>
        ({ p with fs := out.1, table := Function.update p.table fd (some out.2) }, fd) := by
  simp only [Process.openFile, hpath, hlowest]

/-- What a call that succeeds did. -/
theorem openFile_ok (h : p.openFile vfs path flags mode = .ok (p', fd)) :
    pathError path = none ∧ p.lowest = some fd ∧ ∃ fs i,
      openNode vfs p.fs path flags mode = .ok (fs, i) ∧
      p' = { p with fs := fs, table := Function.update p.table fd (some i) } := by
  unfold Process.openFile at h
  cases hpath : pathError path with
  | some e =>
    rw [hpath] at h
    cases h
  | none =>
    rw [hpath] at h
    cases hlowest : p.lowest with
    | none =>
      rw [hlowest] at h
      cases h
    | some low =>
      rw [hlowest] at h
      cases hnode : openNode vfs p.fs path flags mode with
      | error e =>
        rw [hnode] at h
        cases h
      | ok out =>
        rw [hnode] at h
        cases h
        exact ⟨rfl, rfl, out.1, out.2, rfl, rfl⟩

/-- Closing what was opened gives the descriptor back. -/
theorem close_openFile (h : p.openFile vfs path flags mode = .ok (p', fd)) :
    p'.close fd = { p with fs := p'.fs } := by
  obtain ⟨-, hlowest, fs, i, -, rfl⟩ := openFile_ok h
  simp only [Process.close, Function.update_idem]
  rw [Function.update_eq_self_iff.mpr (Process.lowest_free hlowest).symm]

/-- Of a path to nothing, a file is made. -/
theorem openFile_created (haccess : p.access path = false)
    (h : p.openFile vfs path flags mode = .ok (p', fd)) :
    ∃ d i attr, p.fs.walk path = .ok d ∧ p.fs.entries d = none ∧
      vfs.create p.fs d flags mode = .ok (i, attr) ∧ flags.has oCreat = true ∧
      p' = { p with fs := p.fs.link d i attr, table := Function.update p.table fd (some i) } := by
  obtain ⟨hpath, -, fs, i, hnode, rfl⟩ := openFile_ok h
  unfold Process.access at haccess
  cases hwalk : p.fs.walk path with
  | error e =>
    rw [openNode, hwalk] at hnode
    cases hnode
  | ok d =>
    rw [hwalk] at haccess
    cases hentry : p.fs.entries d with
    | some j => simp [hpath, hentry] at haccess
    | none =>
      rw [openNode_absent hwalk hentry, openAbsent] at hnode
      split at hnode
      · rename_i hcreat
        cases hmade : vfs.create p.fs d flags mode with
        | error e =>
          rw [hmade] at hnode
          cases hnode
        | ok made =>
          rw [hmade] at hnode
          cases hnode
          exact ⟨d, made.1, made.2, rfl, hentry, hmade, hcreat, rfl⟩
      · cases hnode

/-- A path to nothing is opened only to make it. -/
theorem access_absent {d : D} {out : Process D I A × Nat} (hwalk : p.fs.walk path = .ok d)
    (hentry : p.fs.entries d = none) (h : p.openFile vfs path flags mode = .ok out) :
    p.access path = false ∧ flags.has oCreat = true := by
  have haccess : p.access path = false := by simp [Process.access, hwalk, hentry]
  obtain ⟨_, _, _, -, -, -, hcreat, -⟩ := openFile_created haccess h
  exact ⟨haccess, hcreat⟩

variable (vfs mode) in
/-- Opened again, a new file is opened as any other that is there. -/
theorem reopen_created {d : D} (i : I) (attr : A) (hwalk : p.fs.walk path = .ok d)
    (hcreat : flags.has oCreat = true) (hpath : pathError path = none)
    (hlowest : p.lowest = some fd) :
    ({ p with fs := p.fs.link d i attr } : Process D I A).openFile vfs path flags mode =
      if flags.has oExcl then .error .eexist
      else (vfs.permit (p.fs.link d i attr) i flags).elim
        (.ok ({ p with
          fs := p.fs.link d i attr
          table := Function.update p.table fd (some i) }, fd)) .error := by
  have hnode : openNode vfs (p.fs.link d i attr) path flags mode =
      openExisting vfs (p.fs.link d i attr) i flags :=
    openNode_existing (by rw [link_walk, hwalk]) (link_entries_self ..) flags mode
  have hsame : ({ p with fs := p.fs.link d i attr } : Process D I A).lowest = some fd := hlowest
  rw [openFile_some hpath hsame, hnode, openExisting_link vfs _ _ _ _ hcreat]
  cases flags.has oExcl with
  | true => rfl
  | false =>
    cases vfs.permit (p.fs.link d i attr) i flags with
    | some e => rfl
    | none => rfl

/-- It fails if it must be new or the file system does not permit it. -/
theorem reopen_created_error {d : D} {i : I} {attr : A} (hwalk : p.fs.walk path = .ok d)
    (hcreat : flags.has oCreat = true) (hpath : pathError path = none)
    (hlowest : p.lowest = some fd)
    (h : ¬ (flags.has oExcl = false ∧ vfs.permit (p.fs.link d i attr) i flags = none)) :
    ∃ e, ({ p with fs := p.fs.link d i attr } : Process D I A).openFile vfs path flags mode =
      .error e := by
  rw [reopen_created vfs mode i attr hwalk hcreat hpath hlowest]
  cases hexcl : flags.has oExcl with
  | true => exact ⟨_, rfl⟩
  | false =>
    cases hpermit : vfs.permit (p.fs.link d i attr) i flags with
    | some e => exact ⟨e, rfl⟩
    | none => exact absurd ⟨hexcl, hpermit⟩ h

/-! ## Results as numbers -/

variable (vfs) in
/-- `open` as its caller sees it: a descriptor or -1. -/
def Process.openResult (p : Process D I A) (path : List UInt8) (flags : Flags) (mode : Mode) :
    Process D I A × Int :=
  match p.openFile vfs path flags mode with
  | .ok (p, fd) => (p, fd)
  | .error _ => (p, -1)

theorem openResult_ok (h : p.openFile vfs path flags mode = .ok (p', fd)) :
    p.openResult vfs path flags mode = (p', (fd : Int)) := by
  rw [Process.openResult, h]

theorem openResult_error {e : Errno} (h : p.openFile vfs path flags mode = .error e) :
    p.openResult vfs path flags mode = (p, -1) := by
  rw [Process.openResult, h]

theorem openFile_valid (h : p.openFile vfs path flags mode = .ok (p', fd)) : p'.Valid fd := by
  obtain ⟨-, -, fs, i, -, rfl⟩ := openFile_ok h
  exact ⟨Int.natCast_nonneg fd, by simp⟩

end Calls

end Posix
