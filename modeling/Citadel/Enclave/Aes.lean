/-
Citadel.Enclave.Aes — `enclave_core/crypto/aes.cpp`, with its buffers.

Both directions work in a stack buffer of `BUFLEN` bytes and copy out of
it. `none` is an access outside a buffer. SGX takes cipher text and tag
separately; the AEAD `A` has the tag behind the cipher text, so the pieces
are cut and put together at the offsets of the source.

A decryption that fails writes nothing: the buffer stays zero, and zeros
are what the caller gets. No function here reports an error.
-/
import Citadel.Lib.Aead
import Citadel.Shared

namespace Citadel.Enclave.Crypto

open Bytes

variable (A : Aead AesKey ivLength tagLength)

/-- `BUFLEN`. -/
def bufLen : Nat := 2048

/-- `encryptMessage`: `lenOut` bytes for the output. `iv` is what
`sgx_read_rand` writes into the buffer. -/
def encryptMessage (key : AesKey) (iv : Block ivLength) (decMessageIn : List UInt8)
    (lenOut : Nat) : Option (List UInt8) := do
  let len := decMessageIn.length
  let pDst ← write (List.replicate bufLen 0) (len + tagLength) iv.1
  let iv ← read pDst (len + tagLength) ivLength
  let enc := A.encrypt key iv decMessageIn
  let pDst ← write pDst 0 (enc.take len)
  let pDst ← write pDst len (enc.drop len)
  (read pDst 0 lenOut).map Subtype.val

/-- `decryptMessage`: `lenOut` bytes for the output. -/
def decryptMessage (key : AesKey) (encMessageIn : List UInt8) (lenOut : Nat) :
    Option (List UInt8) := do
  let len := encMessageIn.length
  let src ← read encMessageIn 0 lenOut
  let iv ← read encMessageIn (len - ivLength) ivLength
  let tag ← read encMessageIn (len - ivLength - tagLength) tagLength
  let pDst ← match A.decrypt key iv (src.1 ++ tag.1) with
    | none => some (List.replicate bufLen 0)
    | some m => write (List.replicate bufLen 0) 0 m
  (read pDst 0 lenOut).map Subtype.val

/-- `aes_encrypt`: the output and `*outlen`. -/
def aesEncrypt (key : AesKey) (iv : Block ivLength) (msg : List UInt8) :
    Option (List UInt8 × Nat) := do
  let encMessageLen := tagLength + ivLength + msg.length
  let out ← encryptMessage A key iv msg encMessageLen
  some (out, encMessageLen)

/-- `aes_decrypt`: the output and `*outlen`. The length is unsigned: one that
is too short for tag and IV asks for more bytes than there are. -/
def aesDecrypt (key : AesKey) (msg : List UInt8) : Option (List UInt8 × Nat) :=
  if msg.length < tagLength + ivLength then none
  else do
    let decMessageLen := msg.length - (tagLength + ivLength)
    let out ← decryptMessage A key msg decMessageLen
    some (out, decMessageLen)

/-! ## What comes out -/

/-- A message that fits the buffer comes out as cipher text, tag and IV. -/
theorem aesEncrypt_eq (key : AesKey) (iv : Block ivLength) {msg : List UInt8}
    (h : msg.length + (tagLength + ivLength) ≤ bufLen) :
    aesEncrypt A key iv msg =
      some (A.encrypt key iv msg ++ iv.1, tagLength + ivLength + msg.length) := by
  have henc : (A.encrypt key iv msg).length = msg.length + tagLength := A.encrypt_length _ _ _
  -- the buffer, cut where the writes go
  have hbuf : List.replicate bufLen (0 : UInt8) =
      List.replicate (msg.length + tagLength) 0 ++ (List.replicate ivLength 0 ++
        List.replicate (bufLen - (msg.length + (tagLength + ivLength))) 0) := by
    rw [List.replicate_append_replicate, List.replicate_append_replicate]
    congr 1
    omega
  have hcut : List.replicate (msg.length + tagLength) (0 : UInt8) =
      List.replicate msg.length 0 ++ List.replicate tagLength 0 :=
    List.replicate_add _ _ _
  have hiv : ∀ post, write (List.replicate (msg.length + tagLength) 0 ++
      (List.replicate ivLength 0 ++ post)) (msg.length + tagLength) iv.1 =
      some (List.replicate (msg.length + tagLength) 0 ++ (iv.1 ++ post)) :=
    fun post => write_mid _ _ _ _ (by simp) (by simp [iv.2])
  have hread : ∀ post, read (List.replicate (msg.length + tagLength) 0 ++ (iv.1 ++ post))
      (msg.length + tagLength) ivLength = some iv := by
    intro post
    rw [read_skip _ _ (by simp), List.length_replicate, Nat.sub_self, read_front]
  have hcipher : ∀ post, write (List.replicate (msg.length + tagLength) 0 ++ post) 0
      ((A.encrypt key iv msg).take msg.length) =
      some ((A.encrypt key iv msg).take msg.length ++ (List.replicate tagLength 0 ++ post)) := by
    intro post
    rw [hcut, List.append_assoc]
    exact write_mid [] _ _ _ rfl (by simp [henc])
  have htag : ∀ post, write ((A.encrypt key iv msg).take msg.length ++
      (List.replicate tagLength 0 ++ post)) msg.length ((A.encrypt key iv msg).drop msg.length) =
      some (A.encrypt key iv msg ++ post) := by
    intro post
    rw [write_mid _ _ _ _ (by simp [henc]) (by simp [henc]), ← List.append_assoc,
      List.take_append_drop]
  rw [aesEncrypt, encryptMessage, hbuf]
  simp only [Option.bind_eq_bind, hiv, Option.bind_some, hread, hcipher, htag]
  rw [← List.append_assoc, read_all _ (by
    rw [List.length_append, henc, iv.2]
    omega)]
  rfl

/-- Cipher text and tag, in two reads, are what stands before the IV. -/
theorem decryptMessage_eq (key : AesKey) (c : List UInt8) (iv : Block ivLength)
    (htag : tagLength ≤ c.length) (hfits : c.length - tagLength ≤ bufLen) :
    decryptMessage A key (c ++ iv.1) (c.length - tagLength) =
      some ((A.decrypt key iv c).getD (List.replicate (c.length - tagLength) 0)) := by
  have hlen : (c ++ iv.1).length = c.length + ivLength := by rw [List.length_append, iv.2]
  obtain ⟨src, hsrc, hsrcVal⟩ : ∃ b : Block (c.length - tagLength), _ :=
    read_val (show 0 + (c.length - tagLength) ≤ (c ++ iv.1).length by rw [hlen]; omega)
  obtain ⟨tag, htagRead, htagVal⟩ : ∃ b : Block tagLength, _ :=
    read_val (show c.length - tagLength + tagLength ≤ (c ++ iv.1).length by rw [hlen]; omega)
  have hjoin : src.1 ++ tag.1 = c := by
    rw [hsrcVal, htagVal, List.drop_zero, List.take_append_of_le_length (Nat.sub_le _ _),
      List.drop_append_of_le_length (Nat.sub_le _ _), List.take_left' (by simp; omega),
      List.take_append_drop]
  have hiv : read (c ++ iv.1) c.length ivLength = some iv := by
    rw [read_skip _ _ (Nat.le_refl _), Nat.sub_self]
    simpa using read_front iv []
  simp only [decryptMessage, hlen, Nat.add_sub_cancel, hsrc, hiv, htagRead, Option.bind_eq_bind,
    Option.bind_some, hjoin]
  cases hdec : A.decrypt key iv c with
  | none =>
    rw [show List.replicate bufLen (0 : UInt8) = List.replicate (c.length - tagLength) 0 ++
      List.replicate (bufLen - (c.length - tagLength)) 0 by
        rw [List.replicate_append_replicate, Nat.add_sub_cancel' hfits]]
    exact read_all _ List.length_replicate
  | some m =>
    have hm : m.length = c.length - tagLength := by
      rw [A.encrypt_of_decrypt key iv c m hdec, A.encrypt_length]
      omega
    simp only [write_front m (show m.length ≤ bufLen by omega), Option.bind_some]
    exact read_all _ hm

/-- Whatever is long enough and fits the buffer comes out as what it
decrypts to, or as zeros. -/
theorem aesDecrypt_eq (key : AesKey) (c : List UInt8) (iv : Block ivLength)
    (htag : tagLength ≤ c.length) (hfits : c.length - tagLength ≤ bufLen) :
    aesDecrypt A key (c ++ iv.1) = some
      ((A.decrypt key iv c).getD (List.replicate (c.length - tagLength) 0),
        c.length - tagLength) := by
  have hlen : (c ++ iv.1).length = c.length + ivLength := by rw [List.length_append, iv.2]
  have hsub : (c ++ iv.1).length - (tagLength + ivLength) = c.length - tagLength := by
    rw [hlen]
    omega
  rw [aesDecrypt, if_neg (by rw [hlen]; omega)]
  simp only [hsub, decryptMessage_eq A key c iv htag hfits, Option.bind_eq_bind,
    Option.bind_some]

end Citadel.Enclave.Crypto
