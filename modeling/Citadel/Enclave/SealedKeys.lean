/-
Citadel.Enclave.SealedKeys — the enclave's RSA keys: how they come in, and
what the ECALLs around them give away.

`process_sealed_keys` unseals a blob and copies the keys out of it one
after the other. The length of the private key is in the blob and is not
held against the buffer it is copied to. Nor is the MAC text looked at: it
has to fit the buffer for it, and that is all. The blobs of
`preparatory_enclave` say "Citadel Enclave Initialisation Keys." there, those
of the ECALL `seal` say nothing, and both are under the key of the signer.

The ECALL `unseal` has no buffer for a MAC text and so refuses the blobs that
have one. What comes of all this in any order of calls is
`sealing_calls_safe`: `unseal` returns what the caller had sealed, never a
provisioned key; but the caller can replace the keys with any others.

The sealing itself, with `sgx_unseal_data` and the sizes it checks, is
SGX's and a parameter (`Citadel.Lib.Sealing`). A null pointer for the MAC
text is a buffer of size 0.
-/
import Citadel.Lib.Run
import Citadel.Lib.Sealing
import Citadel.Enclave.LsmCommunication

namespace Citadel.Enclave

open Bytes

/-! ## Keys -/

/-- `_CITADEL_SEAL_MAC`, without its terminator. -/
def sealMac : List UInt8 := ascii "Citadel Enclave Initialisation Keys."

/-- `_CITADEL_SEAL_MAXSIZE`. -/
def sealMaxsize : Nat := 4096

/-- `_CITADEL_KEY_PRIV_LEN`. -/
def keyPrivLen : Nat := 1200

/-- `_CITADEL_KEY_PUB_PAD_LEN`. -/
def keyPubPadLen : Nat := 294

/-- `_CITADEL_KEY_PUB_LEN`. -/
def keyPubLen : Nat := 270

/-- `sizeof(sgx_sealed_data_t)`. -/
def sealedHeader : Nat := 560

/-- The static variables of `lsm_communication.cpp` that
`process_sealed_keys` sets. -/
structure KeyStore where
  keysLoaded : Bool
  enclaveKeyPrivLen : Nat
  enclaveKeyPriv : Block keyPrivLen
  enclaveKeyPaddedPub : Block keyPubPadLen
  enclaveKeyPub : Block keyPubLen
  lsmKeyPaddedPub : Block keyPubPadLen
  lsmKeyPub : Block keyPubLen
  deriving DecidableEq

namespace KeyStore

/-- As the enclave is loaded. -/
def initial : KeyStore := ⟨false, 0, zeros _, zeros _, zeros _, zeros _, zeros _⟩

/-- `memcpy` to the front of the buffer for the private key. -/
def copyPriv (k : KeyStore) (key : List UInt8) : Option (Block keyPrivLen) :=
  if h : key.length ≤ keyPrivLen then
    some ⟨key ++ k.enclaveKeyPriv.1.drop key.length, by
      rw [List.length_append, List.length_drop, k.enclaveKeyPriv.2]
      omega⟩
  else none

/-- The copies out of `plaintext`. -/
def load (k : KeyStore) (plaintext : List UInt8) : Option KeyStore := do
  let len ← (Bytes.read plaintext 0 2).map fun b => (ofLe16 b).toNat
  let key ← (Bytes.read plaintext 2 len).map Subtype.val
  let priv ← k.copyPriv key
  let off := 2 + len
  let paddedPub ← Bytes.read plaintext off keyPubPadLen
  let pub ← Bytes.read plaintext (off + keyPubPadLen) keyPubLen
  let lsmPaddedPub ← Bytes.read plaintext (off + (keyPubPadLen + keyPubLen)) keyPubPadLen
  let lsmPub ←
    Bytes.read plaintext (off + (keyPubPadLen + (keyPubLen + keyPubPadLen))) keyPubLen
  some ⟨true, len, priv, paddedPub, pub, lsmPaddedPub, lsmPub⟩

/-- What `rsa_decrypt` is given. -/
def privateKey (k : KeyStore) : List UInt8 := k.enclaveKeyPriv.1.take k.enclaveKeyPrivLen

end KeyStore

/-! ## Sealing and unsealing -/

section

variable (S : Sealing sealedHeader)

/-- `process_sealed_keys`; `stack` is what the buffer for the plaintext
holds before. -/
def processSealedKeys (stack : Block sealMaxsize) (k : KeyStore) (data : List UInt8) :
    Option (KeyStore × Bool) :=
  match S.unsealInto data sealMac.length sealMaxsize with
  | none => some (k, false)
  | some text => (k.load (text ++ stack.1.drop text.length)).map fun k => (k, true)

/-- The ECALL `seal`. Without `seed` it is SGX that refuses. -/
def ecallSeal (seed : Option (List UInt8)) (plaintext : List UInt8) : Option (List UInt8) :=
  if plaintext.length = 0 then none else seed.map fun seed => S.wrap seed [] plaintext

/-- The ECALL `unseal`. -/
def ecallUnseal (data : List UInt8) (plaintextLen : Nat) : Option (List UInt8) :=
  S.unsealInto data 0 plaintextLen

end

/-! ## Any order of calls -/

/-- An ECALL of the host, with what it takes from the enclave's stack or
from SGX. -/
inductive SealingCall
  | processSealedKeys (stack : Block sealMaxsize) (data : List UInt8)
  | sealing (seed : Option (List UInt8)) (plaintext : List UInt8)
  | unsealing (data : List UInt8) (plaintextLen : Nat)

/-- The keys, the contents sealed so far under the key of the signer, and
what `unseal` has returned. -/
structure SealingState where
  keys : KeyStore
  made : List (List UInt8 × List UInt8)
  released : List (List UInt8)

section Runs

variable (S : Sealing sealedHeader)

def sealingStep (s : SealingState) : SealingCall → Option SealingState
  | .processSealedKeys stack data =>
    (processSealedKeys S stack s.keys data).map fun out => { s with keys := out.1 }
  | .sealing seed plaintext =>
    some (if (ecallSeal S seed plaintext).isSome then
      { s with made := ([], plaintext) :: s.made } else s)
  | .unsealing data plaintextLen =>
    some { s with released := (ecallUnseal S data plaintextLen).toList ++ s.released }

/-- The bytes the host presents as a blob. -/
def SealingCall.data : SealingCall → Option (List UInt8)
  | .processSealedKeys _ data => some data
  | .sealing _ _ => none
  | .unsealing data _ => some data

/-- What a presented blob holds was sealed under the key. -/
def Unforged (s : SealingState) (call : SealingCall) : Prop :=
  ∀ data content, call.data = some data → S.unwrap data = some content → content ∈ s.made

/-- The keys that `process_sealed_keys` takes from a text. -/
def LoadedFrom (k : KeyStore) (text : List UInt8) : Prop :=
  ∃ (before : KeyStore) (stack : Block sealMaxsize),
    before.load (text ++ stack.1.drop text.length) = some k

/-- Where everything in the state comes from: `given` are the contents from
outside, `texts` what the host has had sealed. -/
structure Traced (given : List (List UInt8 × List UInt8)) (texts : List UInt8 → Prop)
    (keys : KeyStore) (s : SealingState) : Prop where
  made : ∀ content ∈ s.made, content ∈ given ∨ content.1 = [] ∧ texts content.2
  released : ∀ text ∈ s.released, texts text
  keys : s.keys = keys ∨ ∃ content, (content ∈ given ∨ content.1 = [] ∧ texts content.2) ∧
    LoadedFrom s.keys content.2

variable {S}
variable {given : List (List UInt8 × List UInt8)} {texts : List UInt8 → Prop} {keys : KeyStore}

theorem Traced.processSealedKeys {s s' : SealingState} (h : Traced given texts keys s)
    {stack : Block sealMaxsize} {data : List UInt8}
    (hunforged : Unforged S s (.processSealedKeys stack data))
    (hstep : sealingStep S s (.processSealedKeys stack data) = some s') :
    Traced given texts keys s' := by
  obtain ⟨out, hout, rfl⟩ := Option.map_eq_some_iff.mp hstep
  refine ⟨h.made, h.released, ?_⟩
  unfold Enclave.processSealedKeys at hout
  cases hunseal : S.unsealInto data sealMac.length sealMaxsize with
  | none =>
    rw [hunseal] at hout
    cases hout
    exact h.keys
  | some text =>
    rw [hunseal] at hout
    obtain ⟨k, hload, rfl⟩ := Option.map_eq_some_iff.mp hout
    obtain ⟨mac, hunwrap, -⟩ := S.fits_of_unsealInto hunseal
    have hmade := hunforged data _ rfl hunwrap
    exact .inr ⟨(mac, text), h.made _ hmade, s.keys, stack, hload⟩

theorem Traced.sealing {s s' : SealingState} (h : Traced given texts keys s)
    {seed : Option (List UInt8)} {text : List UInt8} (htext : texts text)
    (hstep : sealingStep S s (.sealing seed text) = some s') : Traced given texts keys s' := by
  cases hstep
  split
  · refine ⟨?_, h.released, h.keys⟩
    intro content hmem
    rcases List.mem_cons.mp hmem with rfl | hold
    · exact .inr ⟨rfl, htext⟩
    · exact h.made content hold
  · exact h

/-- A blob without a MAC text is not one of those from outside. -/
theorem Traced.unsealing (hgiven : ∀ content ∈ given, content.1 ≠ []) {s s' : SealingState}
    (h : Traced given texts keys s) {data : List UInt8} {len : Nat}
    (hunforged : Unforged S s (.unsealing data len))
    (hstep : sealingStep S s (.unsealing data len) = some s') : Traced given texts keys s' := by
  cases hstep
  refine ⟨h.made, ?_, h.keys⟩
  intro text hmem
  rcases List.mem_append.mp hmem with hnew | hold
  · obtain ⟨mac, hunwrap, hmac, -⟩ := S.fits_of_unsealInto (Option.mem_toList.mp hnew)
    obtain rfl : mac = [] := List.length_eq_zero_iff.mp (Nat.le_zero.mp hmac)
    rcases h.made _ (hunforged data _ rfl hunwrap) with houtside | ⟨-, htext⟩
    · exact absurd rfl (hgiven _ houtside)
    · exact htext
  · exact h.released text hold

/-- The host seals a text of its own and passes the blob off as keys. -/
theorem replace_keys (s : SealingState) {text : List UInt8} (hne : 0 < text.length)
    (hlen : text.length ≤ sealMaxsize) (seed : List UInt8) (stack : Block sealMaxsize) :
    [SealingCall.sealing (some seed) text,
        .processSealedKeys stack (S.wrap seed [] text)].foldlM (sealingStep S) s =
      (s.keys.load (text ++ stack.1.drop text.length)).map fun k =>
        { s with keys := k, made := ([], text) :: s.made } := by
  have hsealed : (ecallSeal S (some seed) text).isSome = true := by
    rw [ecallSeal, if_neg (by omega)]
    rfl
  have hunseal : S.unsealInto (S.wrap seed [] text) sealMac.length sealMaxsize = some text := by
    have hsmall : ([] : List UInt8).length + text.length < 2 ^ 32 := by
      rw [List.length_nil, Nat.zero_add]
      exact Nat.lt_of_le_of_lt hlen (by decide)
    simpa using S.unsealInto_wrap (Nat.zero_le _) hne hlen hsmall seed []
  simp only [List.foldlM_cons, List.foldlM_nil, sealingStep, hsealed, if_true,
    Option.bind_eq_bind, Option.bind_some, Enclave.processSealedKeys, hunseal, Option.map_map]
  cases s.keys.load (text ++ stack.1.drop text.length) <;> rfl

/-- **What the sealing calls give away.** Provisioned blobs carry a MAC
text. Over every run of the three ECALLs, with any bytes, in which no blob
is forged: what `unseal` has returned the host had sealed itself, so no
provisioned text is among it; and the keys are those of the start, or come
from a provisioned text, or from a text the host had sealed. And any text
of a length that fits can be made the keys so. -/
theorem sealing_calls_safe (S : Sealing sealedHeader) {given : List (List UInt8 × List UInt8)}
    (hgiven : ∀ content ∈ given, content.1 ≠ []) {keys : KeyStore} {calls : List SealingCall}
    (hunforged : Run.Along (sealingStep S) (Unforged S) ⟨keys, given, []⟩ calls)
    {s : SealingState} (hrun : calls.foldlM (sealingStep S) ⟨keys, given, []⟩ = some s) :
    (∀ text ∈ s.released, ∃ seed, SealingCall.sealing seed text ∈ calls) ∧
    (s.keys = keys ∨ ∃ content,
      (content ∈ given ∨ content.1 = [] ∧ ∃ seed, SealingCall.sealing seed content.2 ∈ calls) ∧
      LoadedFrom s.keys content.2) ∧
    ∀ text seed stack, 0 < text.length → text.length ≤ sealMaxsize →
      [SealingCall.sealing (some seed) text,
          .processSealedKeys stack (S.wrap seed [] text)].foldlM (sealingStep S) s =
        (s.keys.load (text ++ stack.1.drop text.length)).map fun k =>
          { s with keys := k, made := ([], text) :: s.made } := by
  have hstart : Traced given (fun text => ∃ seed, SealingCall.sealing seed text ∈ calls) keys
      ⟨keys, given, []⟩ := ⟨fun content hmem => .inl hmem, nofun, .inl rfl⟩
  have hcalls : Run.Along (sealingStep S) (fun _ call => call ∈ calls) ⟨keys, given, []⟩ calls :=
    .of_forall (fun _ _ hmem => hmem) fun call hmem => hmem
  have htraced := (hunforged.and hcalls).invariant ?_ hstart hrun
  · exact ⟨htraced.released, htraced.keys,
      fun text seed stack hne hlen => replace_keys s hne hlen seed stack⟩
  · intro s s' call h hcall hstep
    cases call with
    | processSealedKeys stack data => exact h.processSealedKeys hcall.1 hstep
    | sealing seed text => exact h.sealing ⟨seed, hcall.2⟩ hstep
    | unsealing data len => exact h.unsealing hgiven hcall.1 hstep

theorem sealingStep_made {s s' : SealingState} {call : SealingCall}
    (hstep : sealingStep S s call = some s') {content : List UInt8 × List UInt8}
    (h : content ∈ s.made) : content ∈ s'.made := by
  cases call with
  | processSealedKeys stack data =>
    obtain ⟨out, -, rfl⟩ := Option.map_eq_some_iff.mp hstep
    exact h
  | sealing seed text =>
    cases hstep
    split
    · exact List.mem_cons_of_mem _ h
    · exact h
  | unsealing data len =>
    cases hstep
    exact h

/-- Blobs that were there before the run are not forged in it. -/
theorem unforged_along {s : SealingState} {calls : List SealingCall}
    (h : ∀ call ∈ calls, Unforged S s call) :
    Run.Along (sealingStep S) (Unforged S) s calls := by
  induction calls generalizing s with
  | nil => exact trivial
  | cons call calls ih =>
    refine ⟨h call List.mem_cons_self, ?_⟩
    intro s' hstep
    refine ih ?_
    intro later hlater data content hdata hunwrap
    have hmade := h later (List.mem_cons_of_mem _ hlater) data content hdata hunwrap
    exact sealingStep_made hstep hmade

theorem unforged_wrap {s : SealingState} {call : SealingCall} {seed mac text : List UInt8}
    (hdata : call.data = some (S.wrap seed mac text))
    (hlen : mac.length + text.length < 2 ^ 32) (hmade : (mac, text) ∈ s.made) :
    Unforged S s call := by
  intro data content hcall hunwrap
  have hwrap := S.unwrap_wrap seed mac text [] hlen
  rw [List.append_nil] at hwrap
  obtain rfl : S.wrap seed mac text = data := Option.some.inj (hdata.symm.trans hcall)
  rw [hwrap] at hunwrap
  cases hunwrap
  exact hmade

/-- Keys of zeros are sealed and loaded in place of the provisioned ones;
`unseal` returns them and not the others. -/
def intrusion (S : Sealing sealedHeader) : List SealingCall :=
  [.sealing (some []) [0, 0], .processSealedKeys (zeros _) (S.wrap [] [] [0, 0]),
    .unsealing (S.wrap [] [] [0, 0]) 9, .unsealing (S.wrap [] sealMac [7]) 9]

theorem intrusion_unforged (S : Sealing sealedHeader) (keys : KeyStore) :
    Run.Along (sealingStep S) (Unforged S) ⟨keys, [(sealMac, [7])], []⟩ (intrusion S) := by
  have hsealed : sealingStep S ⟨keys, [(sealMac, [7])], []⟩ (.sealing (some []) [0, 0]) =
      some ⟨keys, [([], [0, 0]), (sealMac, [7])], []⟩ := rfl
  refine ⟨nofun, ?_⟩
  intro s' hstep
  rw [hsealed] at hstep
  cases hstep
  refine unforged_along ?_
  intro call hmem
  simp only [List.mem_cons, List.not_mem_nil, or_false] at hmem
  rcases hmem with rfl | rfl | rfl
  · exact unforged_wrap rfl (by decide) List.mem_cons_self
  · exact unforged_wrap rfl (by decide) List.mem_cons_self
  · exact unforged_wrap rfl (by decide) (List.mem_cons_of_mem _ List.mem_cons_self)

theorem intrusion_safe :
    ∃ s, (intrusion (.plain _ (by decide))).foldlM (sealingStep (.plain _ (by decide)))
        ⟨.initial, [(sealMac, [7])], []⟩ = some s ∧
      s.released = [[0, 0]] ∧ s.keys.keysLoaded = true ∧
      ∀ text ∈ s.released, ∃ seed, SealingCall.sealing seed text ∈
        intrusion (.plain sealedHeader (by decide)) := by
  have heval : ((intrusion (.plain _ (by decide))).foldlM (sealingStep (.plain _ (by decide)))
        ⟨.initial, [(sealMac, [7])], []⟩).map (fun s => (s.released, s.keys.keysLoaded)) =
      some ([[0, 0]], true) := by
    decide +kernel
  obtain ⟨s, hrun, hs⟩ := Option.map_eq_some_iff.mp heval
  obtain ⟨hreleased, hloaded⟩ := Prod.mk.inj hs
  have hgiven : ∀ content ∈ [(sealMac, [(7 : UInt8)])], content.1 ≠ [] := by
    decide
  exact ⟨s, hrun, hreleased, hloaded,
    (sealing_calls_safe _ hgiven (intrusion_unforged _ _) hrun).1⟩

end Runs

end Citadel.Enclave
