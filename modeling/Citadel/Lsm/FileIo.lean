/-
Citadel.Lsm.FileIo — the read handlers of the module's files
(`communication/file_io.c`), and what a program that reads in pieces gets.

All four end in the same lines (`copyOut`): the length that is left from
the file position on, at most `count`, and a `copy_to_user` of so many
bytes, from the start of the buffer and not from the position. `update_read`
and `ptoken_read` answer 0 at any position but 0, so one piece is all there
is. The other two go on:

* `sealed_keys_read` copies the front of the blob again;
* `challenge_read` makes a new challenge in every call, also in the one
  that answers 0, and copies the front of that one's ciphertext.

`file_in_pieces_iff` says when the pieces make the file all the same.
-/
import Citadel.Lib.Reading
import Citadel.Lsm.Registration

namespace Citadel

open Bytes Reading

/-! ## Handlers -/

/-- A `read`: how much is asked for, and whether the caller's buffer can be
written. -/
structure ReadCall where
  count : Nat
  copied : Bool
  deriving DecidableEq

/-- How the handlers end. -/
def copyOut (source : List UInt8) (pos : Nat) (call : ReadCall) : Reply UInt8 :=
  let len := min call.count (source.length - pos)
  if !call.copied then ⟨efault, []⟩ else ⟨len, source.take len⟩

/-- The lines before them in the handlers that make a message first. -/
def copyFrom (source : List UInt8) (pos : Nat) (call : ReadCall) : Reply UInt8 :=
  if pos ≥ source.length ∨ call.count = 0 then ⟨0, []⟩ else copyOut source pos call

def sealedKeysRead (sealed : List UInt8) (pos : Nat) (call : ReadCall) : Reply UInt8 :=
  if pos ≥ sealed.length then ⟨0, []⟩ else copyOut sealed pos call

/-- A `read` of the challenge: the state of RSA, the allocations and the
randomness it meets, and what the stack holds where `cipher_len` is. -/
structure ChallengeCall extends ReadCall where
  rsaAvailable : Bool
  alloc : Bool
  encrypts : Bool
  random : Block challengeLength
  seed : List UInt8
  stack : Nat

/-- The padding of a new challenge, and the two bytes behind it. -/
def challengePad : Block challengePadding := ⟨List.replicate 114 1 ++ [0, 0], by decide⟩

/-- `challenge_read`, whose generation is `challengeRead`. -/
def challengeReadAt (P : Pke rsaKeyLength rsaMaxPayload) (s : Lsm) (pos : Nat)
    (call : ChallengeCall) : Option (Lsm × Reply UInt8) :=
  if !call.rsaAvailable then some (s, ⟨call.count, []⟩)
  else
    let generated := generateChallenge s call.alloc call.random
    match generated.2 with
    | none =>
      -- `cipher` is NULL and `cipher_len` was not set
      if call.stack = 0 then some (generated.1, ⟨call.count, []⟩)
      else if pos ≥ call.stack ∨ call.count = 0 then some (generated.1, ⟨0, []⟩)
      else none
    | some challenge =>
      let cipher := if call.encrypts then P.encrypt call.seed (challenge.encode challengePad)
        else []
      if cipher.length = 0 then some (generated.1, ⟨call.count, []⟩)
      else some (generated.1, copyFrom cipher pos call.toReadCall)

/-- `update_read`. -/
def updateRead (A : Gcm) (rsaAvailable : Bool) (s : Lsm) (pos : Nat)
    (call : ReadCall × Block ivLength) : Reply UInt8 :=
  if !rsaAvailable then ⟨call.1.count, []⟩
  else if pos ≠ 0 then ⟨0, []⟩
  else
    let cipher := (generateUpdate A s call.2).getD []
    if cipher.length = 0 then ⟨call.1.count, []⟩ else copyFrom cipher pos call.1

/-- `-ENOMEDIUM`. -/
def enomedium : Int := -123

/-- The bytes of `citadel_ptoken_t`. -/
def Ptoken.encode (p : Ptoken) : List UInt8 :=
  p.signature.1 ++ ((le32 p.citadelPid).1 ++ (p.ptoken.1 ++ (p.processIdentifier.1 ++
    p.signedPtoken)))

/-- A `read` of the token file, with the randomness it meets. -/
structure PtokenCall extends ReadCall where
  iv : Block ivLength
  random : Block ptokenLength

/-- `ptoken_read` by the task `cur`. -/
def ptokenRead (A : Gcm) (aesAvailable : Bool) (s : Lsm) (cur : Task) (pos : Nat)
    (call : PtokenCall) : Reply UInt8 :=
  if !aesAvailable then ⟨enomedium, []⟩
  else if !s.registered then ⟨0, []⟩
  else if pos ≠ 0 then ⟨0, []⟩
  else
    let cipher := ((generatePtoken A s cur call.iv call.random).map Ptoken.encode).getD []
    if cipher.length = 0 then ⟨enomedium, []⟩
    else if cipher.length = 1 then ⟨0, []⟩
    else copyFrom cipher pos call.toReadCall

/-! ## The challenge, case by case -/

section Challenge

variable (P : Pke rsaKeyLength rsaMaxPayload) (s : Lsm) (pos : Nat) {call : ChallengeCall}

/-- What the call encrypts. -/
def ChallengeCall.challenge (call : ChallengeCall) : Challenge :=
  ⟨challengeSignature, call.random, zeros _, zeros _, 0⟩

def ChallengeCall.ciphertext (call : ChallengeCall) : List UInt8 :=
  P.encrypt call.seed (call.challenge.encode challengePad)

/-- The call sets `current_challenge`. -/
def ChallengeCall.draws (call : ChallengeCall) : Bool := call.rsaAvailable && call.alloc

/-- The call has a ciphertext to copy. -/
def ChallengeCall.issues (call : ChallengeCall) : Bool := call.draws && call.encrypts

theorem encode_le (call : ChallengeCall) :
    (call.challenge.encode challengePad).length ≤ rsaMaxPayload := by
  rw [Challenge.encode_length]
  decide

theorem ciphertext_length (call : ChallengeCall) : (call.ciphertext P).length = rsaKeyLength :=
  P.encrypt_length call.seed _ (encode_le call)

/-- A ciphertext is of one challenge. -/
theorem ciphertext_random {call call' : ChallengeCall}
    (h : call.ciphertext P = call'.ciphertext P) : call.random = call'.random := by
  have hplain := P.decrypt_encrypt call.seed _ (encode_le call)
  have hplain' := P.decrypt_encrypt call'.seed _ (encode_le call')
  rw [← ChallengeCall.ciphertext] at hplain hplain'
  rw [h, hplain', Option.some.injEq] at hplain
  have hread := Challenge.read_encode call.challenge challengePad []
  rw [List.append_nil, ← hplain, ← List.append_nil (call'.challenge.encode challengePad),
    Challenge.read_encode, Option.some.injEq] at hread
  exact (congrArg Challenge.challenge hread).symm

theorem challengeReadAt_unavailable (hrsa : call.rsaAvailable = false) :
    challengeReadAt P s pos call = some (s, ⟨call.count, []⟩) := by
  rw [challengeReadAt, hrsa]
  rfl

theorem challengeReadAt_unallocated (hrsa : call.rsaAvailable = true)
    (halloc : call.alloc = false) :
    challengeReadAt P s pos call =
      if call.stack = 0 then some (s, ⟨call.count, []⟩)
      else if pos ≥ call.stack ∨ call.count = 0 then some (s, ⟨0, []⟩)
      else none := by
  rw [challengeReadAt, hrsa, halloc]
  rfl

theorem challengeReadAt_unencrypted (hdraws : call.draws = true) (hfails : call.encrypts = false) :
    challengeReadAt P s pos call =
      some ({ s with currentChallenge := call.random }, ⟨call.count, []⟩) := by
  obtain ⟨hrsa, halloc⟩ := Bool.and_eq_true_iff.mp hdraws
  rw [challengeReadAt, hrsa, halloc, hfails]
  rfl

theorem challengeReadAt_issued (hissues : call.issues = true) :
    challengeReadAt P s pos call =
      some ({ s with currentChallenge := call.random },
        copyFrom (call.ciphertext P) pos call.toReadCall) := by
  obtain ⟨hdraws, hencrypts⟩ := Bool.and_eq_true_iff.mp hissues
  obtain ⟨hrsa, halloc⟩ := Bool.and_eq_true_iff.mp hdraws
  have hlen := ciphertext_length P call
  rw [ChallengeCall.ciphertext, ChallengeCall.challenge] at hlen
  simp only [challengeReadAt, generateChallenge, hrsa, halloc, hencrypts, Bool.not_true,
    Bool.false_eq_true, if_false, if_true, hlen, ChallengeCall.ciphertext,
    ChallengeCall.challenge, if_neg (show ¬ rsaKeyLength = 0 by decide)]

variable {P s pos}

/-- The call answers 0 although the file may go on: nothing was asked for, or
`cipher_len` is a small number left on the stack. -/
def ChallengeCall.Stops (call : ChallengeCall) (pos : Nat) : Prop :=
  call.count = 0 ∨
    call.rsaAvailable = true ∧ call.alloc = false ∧ 0 < call.stack ∧ call.stack ≤ pos

/-- The ways a call can come back: without a new challenge, with one that
could not be encrypted, or with one. -/
theorem challengeReadAt_cases {out : Lsm × Reply UInt8}
    (h : challengeReadAt P s pos call = some out) :
    (call.draws = false ∧ out.1 = s ∧ out.2.copied = [] ∧
      (out.2.result = 0 ↔ call.Stops pos)) ∨
    (call.draws = true ∧ call.encrypts = false ∧
      out = ({ s with currentChallenge := call.random }, ⟨call.count, []⟩)) ∨
    (call.issues = true ∧
      out = ({ s with currentChallenge := call.random },
        copyFrom (call.ciphertext P) pos call.toReadCall)) := by
  cases hrsa : call.rsaAvailable with
  | false =>
    rw [challengeReadAt_unavailable P s pos hrsa] at h
    obtain rfl := Option.some.inj h
    exact .inl ⟨by simp [ChallengeCall.draws, hrsa], rfl, rfl, by simp [ChallengeCall.Stops, hrsa]⟩
  | true =>
    cases halloc : call.alloc with
    | false =>
      have hdraws : call.draws = false := by simp [ChallengeCall.draws, halloc]
      rw [challengeReadAt_unallocated P s pos hrsa halloc] at h
      split at h
      · rename_i hstack
        obtain rfl := Option.some.inj h
        exact .inl ⟨hdraws, rfl, rfl, by simp [ChallengeCall.Stops, hstack]⟩
      · rename_i hstack
        split at h
        · rename_i hzero
          obtain rfl := Option.some.inj h
          refine .inl ⟨hdraws, rfl, rfl, fun _ => ?_, fun _ => rfl⟩
          rcases hzero with hpos | hcount
          · exact .inr ⟨hrsa, halloc, Nat.pos_of_ne_zero hstack, hpos⟩
          · exact .inl hcount
        · cases h
    | true =>
      have hdraws : call.draws = true := Bool.and_eq_true_iff.mpr ⟨hrsa, halloc⟩
      cases hencrypts : call.encrypts with
      | false =>
        rw [challengeReadAt_unencrypted P s pos hdraws hencrypts] at h
        exact .inr (.inl ⟨hdraws, rfl, (Option.some.inj h).symm⟩)
      | true =>
        have hissues : call.issues = true := Bool.and_eq_true_iff.mpr ⟨hdraws, hencrypts⟩
        rw [challengeReadAt_issued P s pos hissues] at h
        exact .inr (.inr ⟨hissues, (Option.some.inj h).symm⟩)

/-- As far as the module's state goes it is the read of the registration. -/
theorem challengeReadAt_lsm {out : Lsm × Reply UInt8}
    (h : challengeReadAt P s pos call = some out) :
    out.1 = (challengeRead call.rsaAvailable s call.alloc call.random).1 := by
  rw [challengeRead, generateChallenge]
  rcases challengeReadAt_cases h with ⟨hdraws, hs, -⟩ | ⟨hdraws, -, rfl⟩ | ⟨hissues, rfl⟩
  · rw [hs]
    rcases Bool.and_eq_false_iff.mp hdraws with hrsa | halloc
    · rw [hrsa]
      rfl
    · rw [halloc]
      cases call.rsaAvailable <;> rfl
  · obtain ⟨hrsa, halloc⟩ := Bool.and_eq_true_iff.mp hdraws
    rw [hrsa, halloc]
    rfl
  · obtain ⟨hrsa, halloc⟩ := Bool.and_eq_true_iff.mp (Bool.and_eq_true_iff.mp hissues).1
    rw [hrsa, halloc]
    rfl

/-- The challenge after the call. -/
theorem challengeReadAt_current {out : Lsm × Reply UInt8}
    (h : challengeReadAt P s pos call = some out) :
    out.1.currentChallenge = if call.draws then call.random else s.currentChallenge := by
  rw [challengeReadAt_lsm h, challengeRead, generateChallenge, ChallengeCall.draws]
  cases call.rsaAvailable <;> cases call.alloc <;> rfl

end Challenge

/-! ## Pieces -/

/-- A reply without bytes fits if it is not a 0 before the end. -/
theorem nothing_fits {w : List UInt8} {pos : Nat} {result : Int} (hpos : pos ≤ w.length) :
    (⟨result, []⟩ : Reply UInt8).Fits w pos ↔ (pos < w.length → result ≠ 0) := by
  constructor
  · rintro ⟨-, hended⟩ hlt hzero
    have hend : pos + 0 = w.length := hended hzero
    omega
  · intro h
    refine ⟨rfl, fun hzero => ?_⟩
    change pos + 0 = w.length
    by_contra hne
    exact h (by omega) hzero

/-- The front of `source` fits if `w` has it at the position. -/
theorem copyOut_fits {source w : List UInt8} {pos : Nat} {call : ReadCall}
    (hlen : source.length = w.length) (hpos : pos < w.length) (hcount : call.count ≠ 0) :
    (copyOut source pos call).Fits w pos ↔ (call.copied = true →
      source.take (min call.count (w.length - pos)) =
        (w.drop pos).take (min call.count (w.length - pos))) := by
  cases hcopied : call.copied with
  | false =>
    simp only [copyOut, hcopied, Bool.not_false, if_true, Bool.false_eq_true, false_implies,
      iff_true]
    exact (nothing_fits (Nat.le_of_lt hpos)).mpr fun _ => by decide
  | true =>
    simp only [copyOut, hcopied, Bool.not_true, Bool.false_eq_true, if_false, true_implies, hlen]
    generalize hn : min call.count (w.length - pos) = n
    have hlength : (source.take n).length = n := by
      rw [List.length_take, hlen]
      omega
    constructor
    · rintro ⟨hfits, -⟩
      dsimp only at hfits
      rwa [hlength] at hfits
    · intro hfits
      refine ⟨?_, fun hzero => ?_⟩
      · dsimp only
        rw [hlength]
        exact hfits
      · dsimp only at hzero
        omega

theorem copyFrom_fits {source w : List UInt8} {pos : Nat} {call : ReadCall}
    (hlen : source.length = w.length) (hpos : pos ≤ w.length) :
    (copyFrom source pos call).Fits w pos ↔ (pos < w.length → call.count ≠ 0) ∧
      (call.copied = true → source.take (min call.count (w.length - pos)) =
        (w.drop pos).take (min call.count (w.length - pos))) := by
  rw [copyFrom, hlen]
  by_cases hend : pos ≥ w.length ∨ call.count = 0
  · have hzero : min call.count (w.length - pos) = 0 := by omega
    rw [if_pos hend, nothing_fits hpos, hzero, List.take_zero, List.take_zero]
    constructor
    · intro hgoes
      exact ⟨fun hlt => absurd rfl (hgoes hlt), fun _ => rfl⟩
    · rintro ⟨hcount, -⟩ hlt
      exact absurd (hend.resolve_left (by omega)) (hcount hlt)
  · rw [not_or] at hend
    rw [if_neg (not_or.mpr hend), copyOut_fits hlen (by omega) hend.2]
    exact ⟨fun hpiece => ⟨fun _ => hend.2, hpiece⟩, And.right⟩

theorem copyOut_length (source : List UInt8) (pos : Nat) (call : ReadCall) :
    (copyOut source pos call).copied.length ≤ source.length - pos := by
  unfold copyOut
  dsimp only
  split
  · exact Nat.zero_le _
  · rw [List.length_take]
    omega

theorem copyFrom_length (source : List UInt8) (pos : Nat) (call : ReadCall) :
    (copyFrom source pos call).copied.length ≤ source.length - pos := by
  unfold copyFrom
  split
  · exact Nat.zero_le _
  · exact copyOut_length source pos call

/-- What is copied is a front of the source. -/
theorem copyFrom_take (source : List UInt8) (pos : Nat) (call : ReadCall) :
    ∃ n, (copyFrom source pos call).copied = source.take n := by
  unfold copyFrom copyOut
  split
  · exact ⟨0, rfl⟩
  · dsimp only
    split
    · exact ⟨0, rfl⟩
    · exact ⟨_, rfl⟩

/-! ### The sealed keys -/

/-- The file of the sealed keys, which has no state. -/
def sealedKeysFile (sealed : List UInt8) (_ : Unit) (pos : Nat) (call : ReadCall) :
    Option (Unit × Reply UInt8) :=
  some ((), sealedKeysRead sealed pos call)

/-- The read asks for something while there is something, and the blob has
at the position what it has at its front. -/
structure FrontStands (sealed : List UInt8) (t : Unit × Reader UInt8) (call : ReadCall) : Prop where
  asks : t.2.pos < sealed.length → call.copied = true → call.count ≠ 0
  piece : call.copied = true → sealed.take (min call.count (sealed.length - t.2.pos)) =
    (sealed.drop t.2.pos).take (min call.count (sealed.length - t.2.pos))

theorem sealedKeysFile_fits {sealed : List UInt8} {t : Unit × Reader UInt8} {call : ReadCall}
    (hpos : t.2.pos ≤ sealed.length) :
    FitsAt (sealedKeysFile sealed) sealed t call ↔ FrontStands sealed t call := by
  have hfits : FitsAt (sealedKeysFile sealed) sealed t call ↔
      (sealedKeysRead sealed t.2.pos call).Fits sealed t.2.pos := by
    constructor
    · intro h
      exact h _ rfl
    · rintro h out ⟨⟩
      exact h
  rw [hfits, sealedKeysRead]
  by_cases hend : t.2.pos ≥ sealed.length
  · -- at the end of the blob both hold
    rw [if_pos hend, nothing_fits hpos]
    constructor
    · intro _
      refine ⟨fun hlt => absurd hlt (by omega), fun _ => ?_⟩
      rw [Nat.sub_eq_zero_of_le hend, Nat.min_zero, List.take_zero, List.take_zero]
    · intro _ hlt
      omega
  · rw [if_neg hend]
    by_cases hcount : call.count = 0
    · cases hcopied : call.copied with
      | false =>
        simp only [copyOut, hcopied, Bool.not_false, if_true]
        rw [nothing_fits hpos]
        exact ⟨fun _ => ⟨fun _ h => (by cases hcopied.symm.trans h), fun h =>
          (by cases hcopied.symm.trans h)⟩, fun _ _ => by decide⟩
      | true =>
        have hreply : copyOut sealed t.2.pos call = ⟨0, []⟩ := by
          simp [copyOut, hcopied, hcount]
        rw [hreply, nothing_fits hpos]
        constructor
        · intro h
          exact absurd rfl (h (by omega))
        · intro h
          exact absurd hcount (h.asks (by omega) hcopied)
    · rw [copyOut_fits rfl (by omega) hcount]
      exact ⟨fun h => ⟨fun _ _ => hcount, h⟩, FrontStands.piece⟩

theorem sealedKeysFile_pos {sealed : List UInt8} {t t' : Unit × Reader UInt8} {call : ReadCall}
    (hpos : t.2.pos ≤ sealed.length) (h : serve (sealedKeysFile sealed) t call = some t') :
    t'.2.pos ≤ sealed.length := by
  refine serve_pos_le ?_ hpos h
  rintro s pos call out hle ⟨⟩
  dsimp only
  unfold sealedKeysRead
  split
  · exact hle
  · have hpiece := copyOut_length sealed pos call
    omega

/-- What is read of the sealed keys until a read answers 0 is the blob
exactly if at every read the blob repeats its front. -/
theorem sealedKeys_out_iff {sealed : List UInt8} {calls : List ReadCall}
    {t : Unit × Reader UInt8}
    (h : calls.foldlM (serve (sealedKeysFile sealed)) ((), .start) = some t)
    (hended : t.2.ended = true) :
    t.2.out = sealed ↔
      Run.Along (serve (sealedKeysFile sealed)) (FrontStands sealed) ((), .start) calls := by
  rw [out_eq_iff sealed h hended]
  exact Run.Along.congr (I := fun t : Unit × Reader UInt8 => t.2.pos ≤ sealed.length)
    (fun _ _ _ hpos hstep => sealedKeysFile_pos hpos hstep)
    (fun _ _ hpos => sealedKeysFile_fits hpos) (Nat.zero_le _)

/-! ### The challenge -/

section ChallengePieces

variable (P : Pke rsaKeyLength rsaMaxPayload)

/-- The read does not answer 0 while `w` goes on, and the front of its own
ciphertext is what `w` has at the position. -/
structure PieceStands (w : List UInt8) (t : Lsm × Reader UInt8) (call : ChallengeCall) : Prop where
  goesOn : t.2.pos < w.length → ¬ call.Stops t.2.pos
  piece : call.issues = true → call.copied = true →
    (call.ciphertext P).take (min call.count (w.length - t.2.pos)) =
      (w.drop t.2.pos).take (min call.count (w.length - t.2.pos))

variable {P}

theorem not_issues_of_draws {call : ChallengeCall} (h : call.draws = false) :
    call.issues ≠ true := by
  simp [ChallengeCall.issues, h]

theorem stops_of_draws {call : ChallengeCall} {pos : Nat} (h : call.draws = true) :
    call.Stops pos ↔ call.count = 0 := by
  have halloc := (Bool.and_eq_true_iff.mp h).2
  simp [ChallengeCall.Stops, halloc]

theorem challengeReadAt_fits {w : List UInt8} (hw : w.length = rsaKeyLength)
    {t : Lsm × Reader UInt8} {call : ChallengeCall} {out : Lsm × Reply UInt8}
    (hpos : t.2.pos ≤ w.length) (h : challengeReadAt P t.1 t.2.pos call = some out) :
    out.2.Fits w t.2.pos ↔ PieceStands P w t call := by
  rcases challengeReadAt_cases h with ⟨hdraws, -, hnone, hzero⟩ | ⟨hdraws, hfails, rfl⟩ |
    ⟨hissues, rfl⟩
  · obtain ⟨s', result, copied⟩ := out
    obtain rfl : copied = [] := hnone
    rw [nothing_fits hpos]
    constructor
    · intro hgoes
      exact ⟨fun hlt hstops => hgoes hlt (hzero.mpr hstops), fun hissues =>
        absurd hissues (not_issues_of_draws hdraws)⟩
    · intro hstands hlt hresult
      exact hstands.goesOn hlt (hzero.mp hresult)
  · have hresult : (call.count : Int) ≠ 0 ↔ ¬ call.Stops t.2.pos := by
      rw [stops_of_draws hdraws, Ne, Int.natCast_eq_zero]
    rw [nothing_fits hpos, hresult]
    exact ⟨fun hgoes => ⟨hgoes, fun hissues => by simp [ChallengeCall.issues, hfails] at hissues⟩,
      PieceStands.goesOn⟩
  · have hdraws := (Bool.and_eq_true_iff.mp hissues).1
    rw [copyFrom_fits ((ciphertext_length P call).trans hw.symm) hpos]
    constructor
    · rintro ⟨hcount, hpiece⟩
      exact ⟨fun hlt hstops => hcount hlt ((stops_of_draws hdraws).mp hstops), fun _ => hpiece⟩
    · intro hstands
      exact ⟨fun hlt hcount => hstands.goesOn hlt ((stops_of_draws hdraws).mpr hcount),
        hstands.piece hissues⟩

theorem challengeReadAt_pos {t t' : Lsm × Reader UInt8} {call : ChallengeCall}
    (hpos : t.2.pos ≤ rsaKeyLength) (h : serve (challengeReadAt P) t call = some t') :
    t'.2.pos ≤ rsaKeyLength := by
  refine serve_pos_le ?_ hpos h
  intro s pos call out hle hread
  rcases challengeReadAt_cases hread with ⟨-, -, hnone, -⟩ | ⟨-, -, rfl⟩ | ⟨-, rfl⟩
  · rw [hnone]
    exact hle
  · exact hle
  · have hpiece := copyFrom_length (call.ciphertext P) pos call.toReadCall
    rw [ciphertext_length] at hpiece
    dsimp only
    omega

/-- A call that faults is not one that stops. -/
theorem challengeReadAt_fault {w : List UInt8} {t : Lsm × Reader UInt8} {call : ChallengeCall}
    (h : challengeReadAt P t.1 t.2.pos call = none) : PieceStands P w t call := by
  cases hrsa : call.rsaAvailable with
  | false =>
    rw [challengeReadAt_unavailable P t.1 t.2.pos hrsa] at h
    cases h
  | true =>
    cases halloc : call.alloc with
    | false =>
      rw [challengeReadAt_unallocated P t.1 t.2.pos hrsa halloc] at h
      split at h
      · cases h
      · split at h
        · cases h
        · rename_i hstack hgoes
          rw [not_or] at hgoes
          refine ⟨fun _ hstops => ?_, fun hissues => ?_⟩
          · rcases hstops with hcount | ⟨-, -, -, hle⟩
            · exact hgoes.2 hcount
            · exact hgoes.1 hle
          · simp [ChallengeCall.issues, ChallengeCall.draws, halloc] at hissues
    | true =>
      have hdraws : call.draws = true := Bool.and_eq_true_iff.mpr ⟨hrsa, halloc⟩
      cases hencrypts : call.encrypts with
      | false =>
        rw [challengeReadAt_unencrypted P t.1 t.2.pos hdraws hencrypts] at h
        cases h
      | true =>
        rw [challengeReadAt_issued P t.1 t.2.pos
          (Bool.and_eq_true_iff.mpr ⟨hdraws, hencrypts⟩)] at h
        cases h

/-- What is read of the challenge is the ciphertext `w` exactly if every
read's piece stands in it. -/
theorem challenge_out_iff {w : List UInt8} (hw : w.length = rsaKeyLength) {s : Lsm}
    {calls : List ChallengeCall} {t : Lsm × Reader UInt8}
    (h : calls.foldlM (serve (challengeReadAt P)) (s, .start) = some t)
    (hended : t.2.ended = true) :
    t.2.out = w ↔
      Run.Along (serve (challengeReadAt P)) (PieceStands P w) (s, .start) calls := by
  rw [out_eq_iff w h hended]
  refine Run.Along.congr (I := fun t : Lsm × Reader UInt8 => t.2.pos ≤ rsaKeyLength)
    (fun _ _ _ hpos hstep => challengeReadAt_pos hpos hstep) ?_ (Nat.zero_le _)
  intro t call hpos
  cases hread : challengeReadAt P t.1 t.2.pos call with
  | none =>
    refine ⟨fun _ => challengeReadAt_fault hread, fun _ out hout => ?_⟩
    rw [hread] at hout
    cases hout
  | some out =>
    rw [← challengeReadAt_fits hw (hpos.trans_eq hw.symm) hread]
    constructor
    · intro hfits
      exact hfits out hread
    · intro hfits out' hout'
      obtain rfl : out = out' := Option.some.inj (hread.symm.trans hout')
      exact hfits

/-- The challenge drawn last. -/
def lastDrawn (s : Lsm) (calls : List ChallengeCall) : Block challengeLength :=
  calls.foldl (fun current call => if call.draws then call.random else current) s.currentChallenge

theorem challenge_current {t t' : Lsm × Reader UInt8} {calls : List ChallengeCall}
    (h : calls.foldlM (serve (challengeReadAt P)) t = some t') :
    t'.1.currentChallenge = lastDrawn t.1 calls := by
  induction calls generalizing t with
  | nil =>
    cases h
    rfl
  | cons call calls ih =>
    obtain ⟨t₁, hstep, hrest⟩ := Run.cons_some h
    obtain ⟨-, out, hout, rfl⟩ := serve_some hstep
    rw [ih hrest, lastDrawn, challengeReadAt_current hout]
    rfl

variable (P)

/-- What was read is the ciphertext that one of the calls made, of the
challenge that is current when the reader has come to the end. -/
def ReadsCurrent (calls : List ChallengeCall) (t : Lsm × Reader UInt8) : Prop :=
  ∃ call ∈ calls, call.issues = true ∧ t.2.out = call.ciphertext P ∧
    call.random = t.1.currentChallenge

/-- On one open file each, a program reads the sealed keys and the
challenge until a read answers 0. It has the blob, and one ciphertext of
the current challenge, if and only if at each read of the keys the blob has
at the position what it has at its front; all pieces of the challenge, each
the front of a new ciphertext, stand in one of these; and the challenge
drawn last is that one's. -/
theorem file_in_pieces_iff (sealed : List UInt8) (keyCalls : List ReadCall)
    (k : Unit × Reader UInt8)
    (hkeys : keyCalls.foldlM (serve (sealedKeysFile sealed)) ((), .start) = some k)
    (hkeysEnd : k.2.ended = true) (s : Lsm) (calls : List ChallengeCall)
    (t : Lsm × Reader UInt8)
    (hcalls : calls.foldlM (serve (challengeReadAt P)) (s, .start) = some t)
    (hcallsEnd : t.2.ended = true) :
    (k.2.out = sealed ∧ ReadsCurrent P calls t) ↔
      Run.Along (serve (sealedKeysFile sealed)) (FrontStands sealed) ((), .start) keyCalls ∧
      ∃ call ∈ calls, call.issues = true ∧
        Run.Along (serve (challengeReadAt P)) (PieceStands P (call.ciphertext P)) (s, .start)
          calls ∧
        call.random = lastDrawn s calls := by
  rw [sealedKeys_out_iff hkeys hkeysEnd, ReadsCurrent, challenge_current hcalls]
  refine and_congr Iff.rfl (exists_congr fun call => and_congr Iff.rfl (and_congr Iff.rfl ?_))
  rw [challenge_out_iff (ciphertext_length P call) hcalls hcallsEnd]

/-- Even a program that takes a whole ciphertext at once gets it of a
challenge that the read behind it, which answers 0, has replaced. -/
theorem challenge_read_twice (s : Lsm) (first second : ChallengeCall)
    (hfirst : first.issues = true) (hcopied : first.copied = true)
    (hcount : rsaKeyLength ≤ first.count) (hsecond : second.issues = true) :
    [first, second].foldlM (serve (challengeReadAt P)) (s, .start) =
      some ({ s with currentChallenge := second.random },
        ⟨rsaKeyLength, first.ciphertext P, true⟩) := by
  have hlen := ciphertext_length P first
  have hpiece : copyFrom (first.ciphertext P) 0 first.toReadCall =
      ⟨rsaKeyLength, first.ciphertext P⟩ := by
    have hgoes : ¬ (0 ≥ rsaKeyLength ∨ first.count = 0) := by
      rw [not_or]
      have hpos : 0 < rsaKeyLength := by decide
      omega
    simp only [copyFrom, copyOut, hcopied, hlen, Nat.sub_zero, Nat.min_eq_right hcount,
      Bool.not_true, Bool.false_eq_true, if_false, if_neg hgoes,
      List.take_of_length_le (Nat.le_of_eq hlen)]
  have hstep : serve (challengeReadAt P) (s, .start) first =
      some ({ s with currentChallenge := first.random },
        ⟨rsaKeyLength, first.ciphertext P, false⟩) := by
    simp only [serve, Reader.start, Bool.false_eq_true, if_false,
      challengeReadAt_issued P s 0 hfirst, hpiece, Option.map_some, Reader.take, hlen,
      Nat.zero_add, List.nil_append]
    rfl
  have hlast : serve (challengeReadAt P) ({ s with currentChallenge := first.random },
      ⟨rsaKeyLength, first.ciphertext P, false⟩) second =
      some ({ s with currentChallenge := second.random },
        ⟨rsaKeyLength, first.ciphertext P, true⟩) := by
    have hzero : copyFrom (second.ciphertext P) rsaKeyLength second.toReadCall = ⟨0, []⟩ :=
      if_pos (.inl (Nat.le_of_eq (ciphertext_length P second)))
    simp only [serve, Bool.false_eq_true, if_false,
      challengeReadAt_issued P _ rsaKeyLength hsecond, hzero, Option.map_some, Reader.take,
      List.length_nil, Nat.add_zero, List.append_nil]
    rfl
  rw [List.foldlM_cons, hstep, Option.bind_eq_bind, Option.bind_some, List.foldlM_cons, hlast]
  rfl

/-- A read of 256 bytes, with random bytes `b`. -/
def wholeRead (b : UInt8) : ChallengeCall :=
  ⟨⟨256, true⟩, true, true, true, fill _ b, [], 0⟩

/-- Two bytes are read at once, and the same challenge is drawn twice. -/
theorem read_at_once :
    ∃ k t, [⟨2, true⟩, ⟨2, true⟩].foldlM (serve (sealedKeysFile [1, 2])) ((), .start) = some k ∧
      k.2.ended = true ∧
      [wholeRead 5, wholeRead 5].foldlM (serve (challengeReadAt plainRsa))
        (Lsm.boot idleSystem, .start) = some t ∧
      t.2.ended = true ∧
      Run.Along (serve (sealedKeysFile [1, 2])) (FrontStands [1, 2]) ((), .start)
        [⟨2, true⟩, ⟨2, true⟩] ∧
      ∃ call ∈ [wholeRead 5, wholeRead 5], call.issues = true ∧
        Run.Along (serve (challengeReadAt plainRsa))
          (PieceStands plainRsa (call.ciphertext plainRsa)) (Lsm.boot idleSystem, .start)
          [wholeRead 5, wholeRead 5] ∧
        call.random = lastDrawn (Lsm.boot idleSystem) [wholeRead 5, wholeRead 5] := by
  have hkeys : [⟨2, true⟩, ⟨2, true⟩].foldlM (serve (sealedKeysFile [1, 2])) ((), .start) =
      some ((), ⟨2, [1, 2], true⟩) := by decide
  have hcalls := challenge_read_twice plainRsa (Lsm.boot idleSystem) (wholeRead 5)
    (wholeRead 5) rfl rfl (Nat.le_refl _) rfl
  have hcond := (file_in_pieces_iff plainRsa [1, 2] _ _ hkeys rfl _ _ _ hcalls rfl).mp
    ⟨rfl, wholeRead 5, List.mem_cons_self, rfl, rfl, rfl⟩
  exact ⟨_, _, hkeys, rfl, hcalls, rfl, hcond⟩

/-- **The pieces do not make the file.** Byte by byte the sealed keys `1 2`
are read as `1 1`; and the challenge of fives, read at once, is no longer
the current one when a read answers 0. -/
theorem front_again_and_replaced :
    (∃ k, [⟨1, true⟩, ⟨1, true⟩, ⟨1, true⟩].foldlM (serve (sealedKeysFile [1, 2])) ((), .start) =
        some k ∧ k.2.ended = true ∧ k.2.out = [1, 1]) ∧
      ∃ t, [wholeRead 5, wholeRead 6].foldlM (serve (challengeReadAt plainRsa))
          (Lsm.boot idleSystem, .start) = some t ∧ t.2.ended = true ∧
        t.2.out = (wholeRead 5).ciphertext plainRsa ∧ t.1.currentChallenge = fill _ 6 ∧
        ¬ ReadsCurrent plainRsa [wholeRead 5, wholeRead 6] t := by
  refine ⟨⟨((), ⟨2, [1, 1], true⟩), by decide, rfl, rfl⟩, _,
    challenge_read_twice plainRsa (Lsm.boot idleSystem) (wholeRead 5) (wholeRead 6) rfl rfl
      (Nat.le_refl _) rfl, rfl, rfl, rfl, ?_⟩
  rintro ⟨call, -, -, hout, hcurrent⟩
  have hrandom : fill challengeLength 5 = call.random := ciphertext_random plainRsa hout
  exact absurd (hrandom.trans hcurrent) (by decide)

end ChallengePieces

/-! ### Files that are read from the start only -/

/-- However the file of updates is read, what is read is the front of one
message. -/
theorem update_read_single (A : Gcm) (rsaAvailable : Bool) (s : Lsm)
    (calls : List (ReadCall × Block ivLength)) (t : Unit × Reader UInt8)
    (h : calls.foldlM (serve fun _ pos call => some ((), updateRead A rsaAvailable s pos call))
      ((), .start) = some t) :
    t.2.out = [] ∨ ∃ iv n, t.2.out = ((generateUpdate A s iv).getD []).take n := by
  refine out_single (P := fun piece => ∃ iv n, piece = ((generateUpdate A s iv).getD []).take n)
    ?_ h
  rintro _ pos call out ⟨⟩
  unfold updateRead
  dsimp only
  split
  · exact .inl rfl
  · split
    · exact .inl rfl
    · rename_i hpos
      split
      · exact .inl rfl
      · obtain ⟨n, hn⟩ := copyFrom_take ((generateUpdate A s call.2).getD []) pos call.1
        exact .inr ⟨not_ne_iff.mp hpos, call.2, n, hn⟩

/-- And so is the file of tokens. -/
theorem ptoken_read_single (A : Gcm) (aesAvailable : Bool) (cur : Task) (s : Lsm)
    (calls : List PtokenCall) (t : Unit × Reader UInt8)
    (h : calls.foldlM (serve fun _ pos call => some ((), ptokenRead A aesAvailable s cur pos call))
      ((), .start) = some t) :
    t.2.out = [] ∨ ∃ iv random n,
      t.2.out = (((generatePtoken A s cur iv random).map Ptoken.encode).getD []).take n := by
  refine out_single (P := fun piece => ∃ iv random n,
    piece = (((generatePtoken A s cur iv random).map Ptoken.encode).getD []).take n) ?_ h
  rintro _ pos call out ⟨⟩
  unfold ptokenRead
  dsimp only
  split
  · exact .inl rfl
  · split
    · exact .inl rfl
    · split
      · exact .inl rfl
      · rename_i hpos
        split
        · exact .inl rfl
        · split
          · exact .inl rfl
          · obtain ⟨n, hn⟩ := copyFrom_take
              (((generatePtoken A s cur call.iv call.random).map Ptoken.encode).getD []) pos
              call.toReadCall
            exact .inr ⟨not_ne_iff.mp hpos, call.iv, call.random, n, hn⟩

end Citadel
