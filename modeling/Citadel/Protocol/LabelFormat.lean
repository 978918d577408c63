/-
Citadel.Protocol.LabelFormat — three programs and one attribute.

`security.citadel.identifier` holds an identifier in hexadecimal. The
kernel module writes it in three places, and the places do not agree on
whether the terminator is part of the value:

* `dentry_housekeeping` and `trm_inode_getsecurity` store 33 bytes, the
  digits and their terminator;
* `xattr_enclave_installation` stores the 32 digits.

The kernel's reader and libcitadel's `get_fd_identifier` take both. The
daemon's `get_identifier_for_path` has a buffer for 33 bytes but accepts
32 only, so a label written by the housekeeping does not exist for it. And
`citadel_file_claim` compares the length with the size of the attribute's
NAME, 28, so that it takes no labelled file for labelled.

`label_recovered_iff` is the table of all pairs, for every identifier and
every state in which a writer writes.
-/
import Citadel.Daemon.IdentifierCache
import Citadel.Libcitadel.Shim
import Citadel.Lsm.InodeHooks
import Citadel.Lsm.PayloadIoTheorems

namespace Citadel

open Bytes Libcitadel

/-! ## Writers -/

inductive LabelWriter where
  | housekeeping | installation | socket
  deriving DecidableEq

/-- The writer, working for the identifier, stores the value (serves it, for
a socket). -/
inductive Stores : LabelWriter → Identifier → List UInt8 → Prop
  | housekeeping {vfs : VfsResult} {disk : Xattrs} {data : InodeData} {value : List UInt8}
      (realm : data.inRealm = true) (pending : data.needsXattrUpdate = true)
      (file : data.isSocket = false) (named : data.anonymous = false)
      (written : vfs.identifier = true)
      (stored : (flushLabel vfs disk data).2.identifier = some value) :
      Stores .housekeeping data.identifier value
  | installation {env : InstallEnv} {s s' : Lsm} {i : Nat} {hdr : UpdateHeader}
      {rcrd : UpdateRecord} {value : List UInt8}
      (accepted : induct env s i hdr rcrd = some (s', 0))
      (stored : (s'.system.disk i).identifier = some value) :
      Stores .installation rcrd.identifier value
  | socket {pool : ShmPool} {inode : Inode} {data : InodeData} {allocs : InhabitantsAllocs}
      {size : Int} {value : List UInt8}
      (sockfs : inode.magic = .sockfs) (realm : data.inRealm = true)
      (file : data.isSocket = true)
      (served : trmInodeGetsecurity pool inode data xattrNsTagIdentifier true allocs =
        some (size, some value)) :
      Stores .socket data.identifier value

/-- How many terminators a writer stores behind the digits. -/
def LabelWriter.terminators : LabelWriter → Nat
  | .housekeeping => 1
  | .installation => 0
  | .socket => 1

theorem flushLabel_identifier {vfs : VfsResult} {disk : Xattrs} {data : InodeData}
    (realm : data.inRealm = true) (pending : data.needsXattrUpdate = true)
    (file : data.isSocket = false) (named : data.anonymous = false)
    (written : vfs.identifier = true) :
    (flushLabel vfs disk data).2.identifier = some (hexDigits data.identifier.1 ++ [0]) := by
  simp [flushLabel, realm, pending, file, named, written, Xattrs.setIdentifier,
    toHexstring_identifier]

theorem induct_identifier {env : InstallEnv} {s s' : Lsm} {i : Nat} {hdr : UpdateHeader}
    {rcrd : UpdateRecord} (accepted : induct env s i hdr rcrd = some (s', 0)) :
    (s'.system.disk i).identifier = some (hexDigits rcrd.identifier.1) := by
  simp only [induct] at accepted
  split at accepted
  · cases accepted
  · split at accepted
    · rename_i hset
      obtain ⟨rfl, -⟩ := Prod.mk.inj (Option.some.inj accepted)
      rw [hset, installIdentifier_eq]
      simp only [updateAesKey, Lsm.setLabel, Function.update_self]
      cases rcrd.operation.has opRegister with
      | false => rfl
      | true => cases env.setInRealm <;> rfl
    · obtain ⟨-, hfail⟩ := Prod.mk.inj (Option.some.inj accepted)
      cases hfail

theorem trmInodeGetsecurity_identifier {pool : ShmPool} {inode : Inode} {data : InodeData}
    (sockfs : inode.magic = .sockfs) (realm : data.inRealm = true)
    (file : data.isSocket = true) (allocs : InhabitantsAllocs) :
    trmInodeGetsecurity pool inode data xattrNsTagIdentifier true allocs =
      if allocs.hex then
        some ((encodedIdentifierLength : Int), some (hexDigits data.identifier.1 ++ [0]))
      else none := by
  have hrealm : strncmpEq (xattrNsTagInRealm.length + 1) xattrNsTagIdentifier xattrNsTagInRealm =
      false := by decide
  have hident : strncmpEq (xattrNsTagIdentifier.length + 1) xattrNsTagIdentifier
      xattrNsTagIdentifier = true := by decide
  simp [trmInodeGetsecurity, sockfs, realm, file, hrealm, hident, toHexstring_identifier]

/-- What a writer stores. -/
theorem Stores.value_eq {w : LabelWriter} {identifier : Identifier} {value : List UInt8}
    (h : Stores w identifier value) :
    value = hexDigits identifier.1 ++ List.replicate w.terminators 0 := by
  cases h with
  | housekeeping realm pending file named written stored =>
    rw [flushLabel_identifier realm pending file named written] at stored
    exact (Option.some.inj stored).symm
  | installation accepted stored =>
    rw [induct_identifier accepted] at stored
    rw [← Option.some.inj stored, LabelWriter.terminators, List.replicate_zero, List.append_nil]
  | socket sockfs realm file served =>
    rw [trmInodeGetsecurity_identifier sockfs realm file] at served
    split at served
    · exact (Option.some.inj (Prod.mk.inj (Option.some.inj served)).2).symm
    · cases served

/-- Every writer can be asked to write every identifier. -/
theorem Stores.exists (s : Lsm) (w : LabelWriter) (identifier : Identifier) :
    ∃ value, Stores w identifier value := by
  cases w with
  | housekeeping =>
    exact ⟨_, @Stores.housekeeping ⟨true, true⟩ ⟨false, none⟩
      ⟨true, true, true, false, false, identifier⟩ _ rfl rfl rfl rfl rfl
      (flushLabel_identifier rfl rfl rfl rfl rfl)⟩
  | installation =>
    have haccepted : induct .ok s 0 ⟨challengeSignature, zeros _, 1⟩ ⟨0, identifier, opRegister⟩ =
        some (_, 0) := rfl
    exact ⟨_, Stores.installation haccepted (induct_identifier haccepted)⟩
  | socket =>
    exact ⟨_, @Stores.socket .empty ⟨2, false, .sockfs⟩ ⟨true, false, true, true, false, identifier⟩
      .ok _ _ rfl rfl rfl (trmInodeGetsecurity_identifier rfl rfl rfl .ok)⟩

/-! ## Readers -/

inductive LabelReader where
  | kernel | daemon | descriptor | claim
  deriving DecidableEq

/-- The reader recovers the identifier from the value; `citadel_file_claim`
takes the file for labelled and asks nothing. -/
def LabelReader.Recovers (identifier : Identifier) (value : List UInt8) : LabelReader → Prop
  | .kernel => ∀ inRealm, getXattrIdentifier ⟨inRealm, some value⟩ = some (some identifier.1)
  | .daemon => Daemon.getIdentifierForPath (some value) = some (some identifier.1)
  | .descriptor => getFdIdentifier (some value) = some (some identifier.1, true)
  | .claim => ∀ env cache path,
      let out := citadelFileClaim env cache (some value) path
      out.answer = true ∧ out.asked = none

/-- The pairs that work. -/
def LabelReader.understands : LabelReader → LabelWriter → Bool
  | .kernel, _ => true
  | .descriptor, _ => true
  | .daemon, w => w == .installation
  | .claim, _ => false

section

variable {identifier : Identifier} {k : Nat}

theorem length_label (identifier : Identifier) (k : Nat) :
    (hexDigits identifier.1 ++ List.replicate k 0).length = 2 * identifierLength + k := by
  rw [List.length_append, length_hexDigits, identifier.2, List.length_replicate]

/-- A label fits the buffers of user space. -/
theorem getxattr_label (hk : k ≤ 1) :
    getxattr (some (hexDigits identifier.1 ++ List.replicate k 0)) encodedIdentifierLength =
      some (hexDigits identifier.1 ++ List.replicate k 0) := by
  have hfits : 2 * identifierLength + k ≤ encodedIdentifierLength := by
    unfold encodedIdentifierLength
    omega
  rw [getxattr, Option.filter_some, length_label, decide_eq_true hfits, if_pos rfl]

theorem getFdIdentifier_label (hk : k ≤ 1) :
    getFdIdentifier (some (hexDigits identifier.1 ++ List.replicate k 0)) =
      some (some identifier.1, true) := by
  simp only [getFdIdentifier, getxattr_label hk, length_label, hexIdentifierToBytes]
  by_cases hone : k = 1
  · subst hone
    rw [if_pos (show 2 * identifierLength + 1 = encodedIdentifierLength from rfl),
      List.replicate_one, cstring_terminated, Option.bind_eq_bind, Option.bind_some,
      hexstringToBytes_hexDigits]
  · obtain rfl : k = 0 := by omega
    rw [if_neg (by decide),
      if_pos (show 2 * identifierLength + 0 = encodedIdentifierLength - 1 from rfl),
      List.replicate_zero, List.append_nil, cstring_terminated, Option.bind_eq_bind,
      Option.bind_some, hexstringToBytes_hexDigits]

theorem getIdentifierForPath_label (hk : k ≤ 1) :
    Daemon.getIdentifierForPath (some (hexDigits identifier.1 ++ List.replicate k 0)) =
      some (if k = 0 then some identifier.1 else none) := by
  have hread : getxattr (some (hexDigits identifier.1 ++ List.replicate k 0))
      (2 * identifierLength + 1) = some (hexDigits identifier.1 ++ List.replicate k 0) :=
    getxattr_label hk
  simp only [Daemon.getIdentifierForPath, hread, length_label, Daemon.hexIdentifierToBytes]
  by_cases hzero : k = 0
  · subst hzero
    rw [if_pos rfl, if_pos (Nat.add_zero _), List.replicate_zero, List.append_nil,
      cstring_terminated, Option.bind_eq_bind, Option.bind_some, hexstringToBytes_hexDigits]
  · rw [if_neg (by omega), if_neg hzero]

/-- The descriptor of a file the module labelled can be declared. -/
theorem readableXattr_label (hk : k ≤ 1) :
    readableXattr (some (hexDigits identifier.1 ++ List.replicate k 0)) = true := by
  simp [readableXattr, getFdIdentifier_label hk, identifier.2]

/-- A label's length is not that of the attribute's name: with an empty
cache, a claim is sent. -/
theorem citadelFileClaim_label (hk : k ≤ 1) (env : CallEnv) :
    (citadelFileClaim env .init (some (hexDigits identifier.1 ++ List.replicate k 0))
      (ascii "/f")).asked = some (.extended (opClaim ||| opOpen) (ascii "/f") false) := by
  have hlen : ¬ 2 * identifierLength + k = sizeofXattrIdentifier := by
    rw [show sizeofXattrIdentifier = 28 by decide]
    unfold identifierLength
    omega
  have hsize : ¬ ((ascii "/f").length > maxMetadataSize ∨ (ascii "/f").length < 2) := by decide
  simp only [citadelFileClaim, Option.map_some, length_label, Option.some.injEq, if_neg hlen]
  exact askAboutPath_miss hsize rfl

end

/-- **Which reader recovers what which writer stored**, for every
identifier. -/
theorem label_recovered_iff {w : LabelWriter} {identifier : Identifier} {value : List UInt8}
    (h : Stores w identifier value) (r : LabelReader) :
    r.Recovers identifier value ↔ r.understands w = true := by
  have hk : w.terminators ≤ 1 := by cases w <;> decide
  rw [h.value_eq]
  cases r with
  | kernel =>
    exact iff_of_true (fun inRealm => getXattrIdentifier_digits hk rfl) rfl
  | daemon =>
    rw [LabelReader.Recovers, getIdentifierForPath_label hk]
    cases w <;> simp [LabelWriter.terminators, LabelReader.understands]
  | descriptor => exact iff_of_true (getFdIdentifier_label hk) rfl
  | claim =>
    refine iff_of_false (fun hclaim => ?_) Bool.false_ne_true
    let env : CallEnv := ⟨0, 0, ⟨[], 0, 0, 0, 0, .socket⟩, fun _ => false⟩
    have hasked := (hclaim env .init (ascii "/f")).2
    rw [citadelFileClaim_label hk] at hasked
    cases hasked

/-- The label of 9 9 … 9 as the housekeeping stores it, and as the
installation does. -/
def housekeptNines : Option (List UInt8) :=
  (flushLabel ⟨true, true⟩ ⟨false, none⟩ ⟨true, true, true, false, false, fill _ 9⟩).2.identifier

def installedNines : Option (List UInt8) :=
  ((⟨false, none⟩ : Xattrs).installIdentifier (fill _ 9) true).identifier

theorem housekeptNines_readable :
    ∃ value, housekeptNines = some value ∧ LabelReader.Recovers (fill _ 9) value .kernel := by
  have hvalue : housekeptNines = some (hexDigits (List.replicate 16 9) ++ [0]) := by decide
  have hstores : Stores .housekeeping (fill _ 9) (hexDigits (List.replicate 16 9) ++ [0]) :=
    @Stores.housekeeping ⟨true, true⟩ ⟨false, none⟩ ⟨true, true, true, false, false, fill _ 9⟩ _
      rfl rfl rfl rfl rfl hvalue
  exact ⟨_, hvalue, (label_recovered_iff hstores .kernel).mpr rfl⟩

/-- For the daemon the first label does not exist; and a file that has the
second is claimed again. -/
theorem nines_not_recognised :
    housekeptNines.isSome = true ∧ Daemon.getIdentifierForPath housekeptNines = some none ∧
      installedNines.isSome = true ∧
      (citadelFileClaim ⟨0, 0, ⟨[], 0, 0, 0, 0, .socket⟩, fun _ => true⟩ .init installedNines
        (ascii "/f")).asked = some (.extended (opClaim ||| opOpen) (ascii "/f") false) := by
  decide +kernel

end Citadel
