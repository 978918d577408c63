/-
Citadel.Protocol.Framing — the two AES-GCM framings, each with its own
buffers and offsets, are one.

The enclave leaves room for tag and IV behind the message and fills it in;
the kernel module appends the IV to what the cipher gives, and takes it off
again before it hands the rest to the cipher. Both put cipher text, tag and
IV in this order, so each side reads what the other wrote
(`framings_interoperate`). The enclave's stack buffer bounds what it can
take, in both directions; the kernel allocates.
-/
import Citadel.Enclave.Aes
import Citadel.Lsm.Aes
import Citadel.Protocol.Exchange

namespace Citadel

open Bytes

variable {A : Gcm}

/-- Where the message fits the enclave's buffer, what `aes_encrypt` leaves
is the framing the protocol is modelled with. -/
theorem aesEncrypt_writes_framing (key : AesKey) (iv : Block ivLength) {m : List UInt8}
    (h : m.length + (tagLength + ivLength) ≤ Enclave.Crypto.bufLen) :
    Enclave.Crypto.aesEncrypt A key iv m =
      some (Enclave.aesEncrypt A key iv m, tagLength + ivLength + m.length) :=
  Enclave.Crypto.aesEncrypt_eq A key iv h

/-- The kernel module decrypts a framed message. -/
theorem aesDecrypt_of_framed (key : AesKey) (iv : Block ivLength) (m : List UInt8) :
    Aes.trmAesDecrypt A true key (A.encrypt key iv m ++ iv.1) = some (.ok (m, m.length)) := by
  rw [Aes.aesDecrypt_framing A key _ (by rw [List.length_append, iv.2]; omega)]
  rw [show A.encrypt key iv m ++ iv.1 = trmAesEncrypt A key iv m from rfl,
    trmAesDecrypt_encrypt]
  rfl

/-- The enclave decrypts a framed message that fits its buffer. -/
theorem cryptoDecrypt_of_framed (key : AesKey) (iv : Block ivLength) {m : List UInt8}
    (h : m.length ≤ Enclave.Crypto.bufLen) :
    Enclave.Crypto.aesDecrypt A key (A.encrypt key iv m ++ iv.1) = some (m, m.length) := by
  have hlen : (A.encrypt key iv m).length = m.length + tagLength := A.encrypt_length _ _ _
  rw [Enclave.Crypto.aesDecrypt_eq A key _ iv (by omega) (by omega), A.decrypt_encrypt,
    Option.getD_some, hlen, Nat.add_sub_cancel]

/-- For every key, IV and message that fits, in both directions: one side
encrypts, the other one reports success with exactly the message and its
length. -/
theorem framings_interoperate (A : Gcm) (key : AesKey) (iv : Block ivLength) (m : List UInt8)
    (hfits : m.length + 28 ≤ 2048) :
    (∃ c, Enclave.Crypto.aesEncrypt A key iv m = some (c, c.length) ∧
      c.length = m.length + 28 ∧
      Aes.trmAesDecrypt A true key c = some (.ok (m, m.length))) ∧
    ∃ c, Aes.trmAesEncrypt A true key iv m = some (.ok (c, c.length)) ∧
      c.length = m.length + 28 ∧
      Enclave.Crypto.aesDecrypt A key c = some (m, m.length) := by
  have hframe : (A.encrypt key iv m ++ iv.1).length = m.length + 28 := by
    rw [List.length_append, A.encrypt_length, iv.2]
    rfl
  refine ⟨⟨A.encrypt key iv m ++ iv.1, ?_, hframe, aesDecrypt_of_framed key iv m⟩,
    ⟨A.encrypt key iv m ++ iv.1, ?_, hframe, cryptoDecrypt_of_framed key iv ?_⟩⟩
  · rw [Enclave.Crypto.aesEncrypt_eq A key iv hfits, hframe, Nat.add_comm]
    rfl
  · rw [Aes.aesEncrypt_framing, hframe]
    rfl
  · exact (Nat.le_add_right _ _).trans hfits

/-- The longest message the enclave takes. -/
theorem longestMessage_interoperates :
    ∃ c, Enclave.Crypto.aesEncrypt (Aead.keyTag _ _) (fill _ 9) (zeros _)
      (List.replicate 2020 7) = some (c, c.length) ∧ c.length = 2048 ∧
      Aes.trmAesDecrypt (Aead.keyTag _ _) true (fill _ 9) c =
        some (.ok (List.replicate 2020 7, 2020)) := by
  have hlen : (List.replicate 2020 (7 : UInt8)).length = 2020 := List.length_replicate
  obtain ⟨c, henc, hc, hdec⟩ := (framings_interoperate (Aead.keyTag _ _) (fill _ 9) (zeros _)
    (List.replicate 2020 7) (by rw [hlen])).1
  rw [hlen] at hc hdec
  exact ⟨c, henc, hc, hdec⟩

end Citadel
