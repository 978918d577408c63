/-
Citadel.Lsm.Rsa — RSA in the kernel module, `crypto/rsa.c`, down to its
buffers.

The kernel's cipher writes into a zeroed buffer of the size of the modulus.
All of this buffer goes to a page of the caller and from there to a buffer
that the caller's caller frees, so a decrypted message comes with zeros
behind it (`trmRsaDecrypt_eq`) and a ciphertext as it is
(`trmRsaEncrypt_eq`). The last of the allocations is not checked.

The keys are byte strings, those of `lsm_keys.h`.
-/
import Citadel.Lsm.Registration

namespace Citadel.Rsa

open Bytes

/-- The keys of `lsm_keys.h` that the functions below use. -/
structure LsmKeys where
  lsmKeyPriv : List UInt8
  enclaveKeyPub : List UInt8

/-- `pkcs1pad(rsa,sha1)`; `maxsize` is what `crypto_akcipher_maxsize` says
once the key is set. -/
structure Akcipher extends PkeCode where
  maxsize : List UInt8 → Nat

/-- The allocations of one call, in the order they are made but for `page`,
which is the first. -/
structure RsaEnv where
  page : Bool
  tfm : Bool
  request : Bool
  xbuf : Bool
  outbuf : Bool
  copy : Bool

def pageSize : Nat := 4096

/-- `uf_akcrypto` in one of its modes: the caller's page and `*res_len`.
An error is an inner `none`. -/
def ufAkcrypto (maxsize : Nat) (operation : List UInt8 → Option (List UInt8)) (env : RsaEnv)
    (data : List UInt8) : Option (Option (List UInt8 × Nat)) :=
  if !env.xbuf then some none
  else if !env.outbuf then some none
  else if pageSize < data.length then some none
  else
    match operation data with
    | none => some none
    | some result => do
      let outbuf ← write (List.replicate maxsize 0) 0 result
      let page ← write (List.replicate pageSize 0) 0 outbuf
      some (some (page, maxsize))

/-- `trm_akcrypto`. Whether the key was taken is not looked at: with a
refused key the operation fails. -/
def trmAkcrypto (maxsize : Nat) (operation : List UInt8 → Option (List UInt8)) (env : RsaEnv)
    (data : List UInt8) : Option (Option (List UInt8 × Nat)) :=
  if !env.tfm then some none
  else if !env.request then some none
  else ufAkcrypto maxsize operation env data

def trmAkcryptoEncryptPub (K : Akcipher) (keys : LsmKeys) (env : RsaEnv) (seed data : List UInt8) :
    Option (Option (List UInt8 × Nat)) :=
  trmAkcrypto (K.maxsize keys.enclaveKeyPub) (K.encrypt keys.enclaveKeyPub seed) env data

def trmAkcryptoDecryptPriv (K : Akcipher) (keys : LsmKeys) (env : RsaEnv) (data : List UInt8) :
    Option (Option (List UInt8 × Nat)) :=
  trmAkcrypto (K.maxsize keys.lsmKeyPriv) (K.decrypt keys.lsmKeyPriv) env data

/-- The two functions below are one but for the call in the middle. The
buffer they return is allocated unchecked and copied to. -/
def throughPage (env : RsaEnv) (crypt : Option (Option (List UInt8 × Nat))) :
    Option (Option (List UInt8)) :=
  if !env.page then some none
  else do
    match ← crypt with
    | none => some none
    | some (page, size) => if !env.copy then none else some (some (page.take size))

def trmRsaEncrypt (K : Akcipher) (keys : LsmKeys) (env : RsaEnv) (seed data : List UInt8) :
    Option (Option (List UInt8)) :=
  throughPage env (trmAkcryptoEncryptPub K keys env seed data)

def trmRsaDecrypt (K : Akcipher) (keys : LsmKeys) (env : RsaEnv) (data : List UInt8) :
    Option (Option (List UInt8)) :=
  throughPage env (trmAkcryptoDecryptPriv K keys env data)

/-! ## Results -/

/-- Nothing is refused before the last allocation. -/
def RsaEnv.works (env : RsaEnv) : Bool :=
  env.page && env.tfm && env.request && env.xbuf && env.outbuf

section

variable {maxsize : Nat} {operation : List UInt8 → Option (List UInt8)} {env : RsaEnv}
  {data : List UInt8}

/-- What both functions make of an operation on data that fits a page: the
result and zeros up to the size of the modulus. -/
theorem throughPage_trmAkcrypto (hcopy : env.copy = true) (hdata : data.length ≤ pageSize)
    (hmax : maxsize ≤ pageSize)
    (hfits : ∀ result, operation data = some result → result.length ≤ maxsize) :
    throughPage env (trmAkcrypto maxsize operation env data) =
      some (if env.works then (operation data).map
        fun result => result ++ List.replicate (maxsize - result.length) 0 else none) := by
  unfold RsaEnv.works throughPage trmAkcrypto ufAkcrypto
  cases env.page <;> cases env.tfm <;> cases env.request <;> cases env.xbuf <;>
    cases env.outbuf <;> try rfl
  rw [hcopy]
  simp only [Bool.not_true, Bool.false_eq_true, if_false, if_neg (Nat.not_lt.mpr hdata),
    Bool.and_true, if_true]
  cases hop : operation data with
  | none => rfl
  | some result =>
    have hlen := hfits result hop
    have hout : (result ++ List.replicate (maxsize - result.length) (0 : UInt8)).length =
        maxsize := by
      rw [List.length_append, List.length_replicate]
      omega
    simp only [write_front _ hlen, write_front _ (hout.trans_le hmax), Option.bind_eq_bind,
      Option.bind_some, List.take_left' hout, Option.map_some]

/-- The challenge goes out as the scheme encrypts it. -/
theorem trmRsaEncrypt_eq {P : Pke rsaKeyLength rsaMaxPayload} {K : Akcipher} {keys : LsmKeys}
    (hkey : K.Public P keys.enclaveKeyPub) (hmax : K.maxsize keys.enclaveKeyPub = rsaKeyLength)
    (hcopy : env.copy = true) (hdata : data.length ≤ rsaMaxPayload) (seed : List UInt8) :
    trmRsaEncrypt K keys env seed data =
      some (if env.works then some (P.encrypt seed data) else none) := by
  have henc := hkey seed data hdata
  have hlen := P.encrypt_length seed data hdata
  rw [trmRsaEncrypt, trmAkcryptoEncryptPub, throughPage_trmAkcrypto hcopy
    (hdata.trans (by decide)) (by rw [hmax]; decide), henc, hmax]
  · simp [hlen]
  · intro result hresult
    rw [henc] at hresult
    cases hresult
    rw [hlen, hmax]

/-- A response is decrypted as in `process_challenge_response`. -/
theorem trmRsaDecrypt_eq {P : Pke rsaKeyLength rsaMaxPayload} {K : Akcipher} {keys : LsmKeys}
    (hkey : K.Private P keys.lsmKeyPriv) (hmax : K.maxsize keys.lsmKeyPriv = rsaKeyLength)
    (hcopy : env.copy = true) (hdata : data.length ≤ pageSize)
    (hfits : ∀ m, P.decrypt data = some m → m.length ≤ rsaKeyLength) :
    trmRsaDecrypt K keys env data =
      some (if env.works then Citadel.trmRsaDecrypt P.decrypt data else none) := by
  have hdec := hkey data
  rw [trmRsaDecrypt, trmAkcryptoDecryptPriv, throughPage_trmAkcrypto hcopy hdata
    (by rw [hmax]; decide), hdec, hmax]
  · rfl
  · intro result hresult
    rw [hdec] at hresult
    rw [hmax]
    exact hfits result hresult

end

end Citadel.Rsa
