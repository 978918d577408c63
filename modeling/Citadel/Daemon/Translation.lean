/-
Citadel.Daemon.Translation — what `cache_passthrough` makes of a message.

By the request a message reads as: a plain one passes, a claim removes its
path from the cache, and a path to be translated is looked up. What the
lookup finds is `foundIdentifier`: the cached value if it is fresh, else
what the attribute of the file says. The message that comes out reads as
the same request, with the extension `translated`.
-/
import Citadel.Daemon.Socket

namespace Citadel.Daemon

open Bytes Enclave

/-! ## Lookups -/

/-- The identifier an attribute reads as, if it reads as one. -/
def fileIdentifier (xattr : Option (List UInt8)) : Option (Option Identifier) :=
  (getIdentifierForPath xattr).bind fun bytes =>
    bytes.elim (some none) fun bytes => (read bytes 0 identifierLength).map some

/-- The cached value of the path, if there is a fresh one. -/
def IdentifierCache.fresh (cache : IdentifierCache) (s : List UInt8) (now : Int) :
    Option Identifier :=
  ((cache s).filter fun entry => !entry.expired now).map (·.value)

/-- What a lookup finds; the outer `none` is a fault. -/
def foundIdentifier (env : CacheEnv) (cache : IdentifierCache) (s : List UInt8)
    (xattr : Option (List UInt8)) : Option (Option Identifier) :=
  match cache.fresh s env.found with
  | some value => some (some value)
  | none => fileIdentifier xattr

/-- The cache after a lookup that found something or not. -/
def cacheAfter (env : CacheEnv) (cache : IdentifierCache) (s : List UInt8)
    (found : Option Identifier) : IdentifierCache :=
  match cache.fresh s env.found, found with
  | some _, _ => cache
  | none, none =>
    if (cache s).any (fun entry => entry.expired env.again) then cache.erase env s else cache
  | none, some identifier =>
    (if (cache s).any (fun entry => entry.expired env.again) then cache.erase env s
      else cache).insert env s identifier

theorem metadataPathToIdentifier_eq (env : CacheEnv) (xattr : List UInt8 → Option (List UInt8))
    (cache : IdentifierCache) (x : OpExtension) :
    metadataPathToIdentifier env xattr cache x =
      (cstring x.metadata.1).bind fun s =>
        (foundIdentifier env cache s (xattr s)).map fun found =>
          (cacheAfter env cache s found, translated x found) := by
  unfold metadataPathToIdentifier
  cases cstring x.metadata.1 with
  | none => rfl
  | some s =>
    simp only [Option.bind_eq_bind, Option.bind_some, foundIdentifier, cacheAfter,
      IdentifierCache.fresh]
    cases (cache s).filter (fun entry => !entry.expired env.found) with
    | some entry => rfl
    | none =>
      simp only [Option.map_none, fileIdentifier]
      cases getIdentifierForPath (xattr s) with
      | none => rfl
      | some bytes =>
        cases bytes with
        | none => rfl
        | some bytes =>
          simp only [Option.bind_some, Option.elim_some]
          cases read bytes 0 identifierLength with
          | none => rfl
          | some identifier => rfl

/-! ## Messages -/

/-- A path of one byte, in a buffer of zeros. -/
def nameMetadata (c : UInt8) : Block maxMetadataSize :=
  ⟨c :: 0 :: List.replicate 4094 0, by
    rw [List.length_cons, List.length_cons, List.length_replicate]
    rfl⟩

theorem cstring_nameMetadata {c : UInt8} (hc : c ≠ 0) : cstring (nameMetadata c).1 = some [c] := by
  simp [cstring, nameMetadata, hc, -List.reduceReplicate]

variable {message : List UInt8} {request : OpRequest}

theorem readRequest_plain (h : readRequest message = some (request, none)) :
    message.length = opRequestSize ∧ OpRequest.read message = some request := by
  unfold readRequest at h
  split at h
  · rename_i hlen
    obtain ⟨r, hr, heq⟩ := Option.bind_eq_some_iff.mp h
    cases heq
    exact ⟨hlen, hr⟩
  · split at h
    · obtain ⟨r, hr, h⟩ := Option.bind_eq_some_iff.mp h
      obtain ⟨x, hx, heq⟩ := Option.bind_eq_some_iff.mp h
      cases heq
    · cases h

theorem readRequest_extended {x : OpExtension}
    (h : readRequest message = some (request, some x)) :
    message.length = opExtendedRequestSize ∧ OpRequest.read message = some request ∧
      OpExtension.read message = some x := by
  unfold readRequest at h
  split at h
  · obtain ⟨r, hr, heq⟩ := Option.bind_eq_some_iff.mp h
    cases heq
  · split at h
    · rename_i hlen
      obtain ⟨r, hr, h⟩ := Option.bind_eq_some_iff.mp h
      obtain ⟨y, hy, heq⟩ := Option.bind_eq_some_iff.mp h
      cases heq
      exact ⟨hlen, hr, hy⟩
    · cases h

/-- A message of either size reads as a request. -/
theorem readRequest_isSome
    (h : message.length = opRequestSize ∨ message.length = opExtendedRequestSize) :
    ∃ request extension, readRequest message = some (request, extension) := by
  have hle : opRequestSize ≤ message.length := by
    unfold opRequestSize opExtendedRequestSize at *
    omega
  obtain ⟨request, hrequest⟩ := OpRequest.read_isSome hle
  by_cases hplain : message.length = opRequestSize
  · exact ⟨request, none, by rw [readRequest, if_pos hplain, hrequest]; rfl⟩
  · have hlen := h.resolve_left hplain
    obtain ⟨translate, h₁⟩ := read_isSome (show opRequestSize + 1 ≤ message.length by
      rw [hlen]; decide)
    obtain ⟨success, h₂⟩ := read_isSome (show opRequestSize + 1 + 1 ≤ message.length by
      rw [hlen]; decide)
    obtain ⟨metadata, h₃⟩ := read_isSome
      (show opRequestSize + 2 + maxMetadataSize ≤ message.length by rw [hlen]; decide)
    refine ⟨request, some ⟨translate.byte 0 != 0, success.byte 0 != 0, metadata⟩, ?_⟩
    rw [readRequest, if_neg hplain, if_pos hlen, hrequest]
    simp [OpExtension.read, h₁, h₂, h₃]

/-- A request with its extension reads as they are. -/
theorem readRequest_encode (request : OpRequest) (x : OpExtension) :
    readRequest (request.encode ++ x.encode) = some (request, some x) := by
  have hlen : (request.encode ++ x.encode).length = opExtendedRequestSize := by
    rw [List.length_append, request.encode_length, OpExtension.encode, List.length_cons,
      List.length_cons, x.metadata.2]
    rfl
  rw [readRequest, if_neg (by rw [hlen]; decide), if_pos hlen, OpRequest.read_encode,
    OpExtension.read_encode]
  rfl

/-- Only the metadata and the flag in front of it are written. -/
theorem readRequest_writeExtension {x y : OpExtension}
    (h : readRequest message = some (request, some x)) (hy : y.translate = x.translate) :
    readRequest (writeExtension message y) = some (request, some y) := by
  obtain ⟨hlen, hrequest, hx⟩ := readRequest_extended h
  have htake : (message.take (opRequestSize + 1)).length = 91 := by
    rw [List.length_take, hlen]
    rfl
  -- the first 91 bytes are those of the message
  have hfront : ∀ off n, off + n ≤ 91 →
      read (writeExtension message y) off n = read message off n := by
    intro off n hoff
    rw [writeExtension, read_within _ _ (by rw [htake]; exact hoff)]
    nth_rewrite 2 [← List.take_append_drop (opRequestSize + 1) message]
    rw [read_within _ _ (by rw [htake]; exact hoff)]
  have hread : OpRequest.read (writeExtension message y) = some request := by
    rw [← hrequest]
    unfold OpRequest.read
    rw [hfront _ _ (by decide), hfront _ _ (by decide), hfront _ _ (by decide),
      hfront _ _ (by decide)]
  have hflag : read (writeExtension message y) (opRequestSize + 1) 1 =
      some ⟨[if y.translateSuccess then 1 else 0], rfl⟩ := by
    rw [writeExtension, read_skip _ _ (by rw [htake]; decide), htake]
    exact read_front ⟨[if y.translateSuccess then 1 else 0], rfl⟩ y.metadata.1
  have hmetadata : read (writeExtension message y) (opRequestSize + 2) maxMetadataSize =
      some y.metadata := by
    rw [writeExtension, read_skip _ _ (by rw [htake]; decide), htake]
    have hskip := read_block (⟨[if y.translateSuccess then 1 else 0], rfl⟩ : Block 1) y.metadata.1
      (n := maxMetadataSize) (Nat.le_refl 1)
    have hall := read_front y.metadata []
    rw [List.append_nil] at hall
    exact hskip.trans hall
  have hextension : OpExtension.read (writeExtension message y) = some y := by
    unfold OpExtension.read at hx ⊢
    rw [hfront opRequestSize 1 (by decide), hflag, hmetadata]
    obtain ⟨translate, htranslate, hx⟩ := Option.bind_eq_some_iff.mp hx
    obtain ⟨flag, -, hx⟩ := Option.bind_eq_some_iff.mp hx
    obtain ⟨metadata, -, hx⟩ := Option.bind_eq_some_iff.mp hx
    cases hx
    rw [htranslate]
    obtain ⟨_, success, _⟩ := y
    cases hy
    cases success <;> rfl
  have hlength : (writeExtension message y).length = opExtendedRequestSize := by
    rw [writeExtension, List.length_append, htake, List.length_cons, y.metadata.2]
    rfl
  rw [readRequest, if_neg (by rw [hlength]; decide), if_pos hlength, hread, hextension]
  rfl

theorem translated_translate (x : OpExtension) (found : Option Identifier) :
    (translated x found).translate = x.translate := by
  cases found with
  | none => rfl
  | some identifier => rfl

/-- `cache_passthrough`, on the request a message reads as. -/
def passRequest (env : CacheEnv) (xattr : List UInt8 → Option (List UInt8))
    (cache : IdentifierCache) (request : OpRequest) :
    Option OpExtension → Option (IdentifierCache × Option OpExtension)
  | none => some (cache, none)
  | some x =>
    if request.operation.has opClaim then
      (clearEntryFromCache env cache x.metadata).map fun cache => (cache, some x)
    else if x.translate then
      (cstring x.metadata.1).bind fun s =>
        (foundIdentifier env cache s (xattr s)).map fun found =>
          (cacheAfter env cache s found, some (translated x found))
    else some (cache, some x)

/-- All it can do: let the request through, remove a claimed path, or look
one up. -/
theorem passRequest_cases {env : CacheEnv} {xattr : List UInt8 → Option (List UInt8)}
    {cache cache' : IdentifierCache} {extension extension' : Option OpExtension}
    (h : passRequest env xattr cache request extension = some (cache', extension')) :
    (extension.elim True (fun x => request.operation.has opClaim = false ∧ x.translate = false) ∧
      cache' = cache ∧ extension' = extension) ∨
    (∃ x s, extension = some x ∧ request.operation.has opClaim = true ∧
      cstring x.metadata.1 = some s ∧ cache' = cache.clear env s ∧ extension' = some x) ∨
    ∃ x s found, extension = some x ∧ request.operation.has opClaim = false ∧
      x.translate = true ∧ cstring x.metadata.1 = some s ∧
      foundIdentifier env cache s (xattr s) = some found ∧
      cache' = cacheAfter env cache s found ∧ extension' = some (translated x found) := by
  cases extension with
  | none =>
    cases h
    exact .inl ⟨trivial, rfl, rfl⟩
  | some x =>
    cases hclaim : request.operation.has opClaim with
    | true =>
      rw [passRequest, if_pos hclaim, clearEntryFromCache] at h
      obtain ⟨erased, herased, heq⟩ := Option.map_eq_some_iff.mp h
      obtain ⟨s, hs, hsome⟩ := Option.bind_eq_some_iff.mp herased
      cases heq
      cases hsome
      exact .inr (.inl ⟨x, s, rfl, rfl, hs, rfl, rfl⟩)
    | false =>
      rw [passRequest, if_neg (by simp [hclaim])] at h
      cases htranslate : x.translate with
      | true =>
        rw [htranslate, if_pos rfl] at h
        obtain ⟨s, hs, h⟩ := Option.bind_eq_some_iff.mp h
        obtain ⟨found, hfound, heq⟩ := Option.map_eq_some_iff.mp h
        cases heq
        exact .inr (.inr ⟨x, s, found, rfl, rfl, htranslate, hs, hfound, rfl, rfl⟩)
      | false =>
        rw [htranslate, if_neg Bool.false_ne_true] at h
        cases h
        exact .inl ⟨⟨rfl, htranslate⟩, rfl, rfl⟩

/-- The request as it comes out of a lookup. -/
theorem passRequest_found {env : CacheEnv} {xattr : List UInt8 → Option (List UInt8)}
    {cache : IdentifierCache} {x : OpExtension} {p : List UInt8} {found : Option Identifier}
    (hclaim : request.operation.has opClaim = false)
    (htranslate : x.translate = true) (hp : cstring x.metadata.1 = some p)
    (hfound : foundIdentifier env cache p (xattr p) = some found) :
    passRequest env xattr cache request (some x) =
      some (cacheAfter env cache p found, some (translated x found)) := by
  rw [passRequest, if_neg (by simp [hclaim]), if_pos htranslate, hp]
  simp [hfound]

/-- The message that comes out reads as the request that comes out. -/
theorem cachePassthrough_eq (env : CacheEnv) (xattr : List UInt8 → Option (List UInt8))
    (cache : IdentifierCache) {extension : Option OpExtension}
    (h : readRequest message = some (request, extension)) :
    (cachePassthrough env xattr cache message).map
        (fun out => (out.1, readRequest out.2.1, out.2.2)) =
      (passRequest env xattr cache request extension).map
        (fun out => (out.1, some (request, out.2), true)) := by
  cases extension with
  | none =>
    obtain ⟨hlen, -⟩ := readRequest_plain h
    rw [cachePassthrough, if_pos hlen, Option.map_some, h]
    rfl
  | some x =>
    obtain ⟨hlen, hrequest, hx⟩ := readRequest_extended h
    rw [cachePassthrough, if_neg (by rw [hlen]; decide), if_pos hlen, hrequest, hx]
    simp only [Option.bind_eq_bind, Option.bind_some, passRequest]
    split
    · cases clearEntryFromCache env cache x.metadata with
      | none => rfl
      | some cache' => simp [h]
    · split
      · rw [metadataPathToIdentifier_eq]
        cases cstring x.metadata.1 with
        | none => rfl
        | some s =>
          cases hfound : foundIdentifier env cache s (xattr s) with
          | none => simp [hfound]
          | some found =>
            simp [hfound, readRequest_writeExtension h (translated_translate x found)]
      · simp [h]

theorem cachePassthrough_some {env : CacheEnv} {xattr : List UInt8 → Option (List UInt8)}
    {cache cache' : IdentifierCache} {extension : Option OpExtension} {message' : List UInt8}
    {ok : Bool} (h : readRequest message = some (request, extension))
    (hpass : cachePassthrough env xattr cache message = some (cache', message', ok)) :
    ok = true ∧ ∃ extension', passRequest env xattr cache request extension =
      some (cache', extension') ∧ readRequest message' = some (request, extension') := by
  have heq := cachePassthrough_eq env xattr cache h
  rw [hpass, Option.map_some] at heq
  obtain ⟨out, hout, heq⟩ := Option.map_eq_some_iff.mp heq.symm
  simp only [Prod.mk.injEq] at heq
  obtain ⟨hcache, hreads, hok⟩ := heq
  exact ⟨hok.symm, out.2, by rw [hout, ← hcache], hreads.symm⟩

theorem cachePassthrough_of_passRequest {env : CacheEnv}
    {xattr : List UInt8 → Option (List UInt8)} {cache cache' : IdentifierCache}
    {extension extension' : Option OpExtension}
    (h : readRequest message = some (request, extension))
    (hpass : passRequest env xattr cache request extension = some (cache', extension')) :
    ∃ message', cachePassthrough env xattr cache message = some (cache', message', true) ∧
      readRequest message' = some (request, extension') := by
  have heq := cachePassthrough_eq env xattr cache h
  rw [hpass, Option.map_some] at heq
  obtain ⟨⟨c, m, ok⟩, hout, heq⟩ := Option.map_eq_some_iff.mp heq
  simp only [Prod.mk.injEq] at heq
  obtain ⟨rfl, hreads, rfl⟩ := heq
  exact ⟨m, hout, hreads⟩

/-- What a message that is answered did: nothing if it has neither size, and
else it went through the cache and the enclave. -/
theorem sendResponse_cases {σ : Type} {A : Aead AesKey ivLength tagLength}
    {calls : HostCalls σ} {xattr : σ → List UInt8 → Option (List UInt8)} {env : MessageEnv}
    {s s' : DaemonState σ} {pid : Pid} {reply : List UInt8}
    (h : sendResponse A calls xattr env s pid message = some (s', reply)) :
    (readRequest message = none ∧ s' = s) ∨
      ∃ request extension extension' message' p token,
        readRequest message = some (request, extension) ∧
        passRequest env.cache (xattr s.world) s.cache request extension =
          some (s'.cache, extension') ∧
        readRequest message' = some (request, extension') ∧
        handleRequest A calls env.rand s.world s.enclave message' pid ptokenLength =
          some (p, token) ∧ s'.world = p.world := by
  unfold sendResponse at h
  by_cases hsize : message.length = opRequestSize ∨ message.length = opExtendedRequestSize
  · obtain ⟨request, extension, hreads⟩ := readRequest_isSome hsize
    simp only [if_pos hsize] at h
    obtain ⟨⟨cache', message', ok⟩, hpass, h⟩ := Option.bind_eq_some_iff.mp h
    obtain ⟨rfl, extension', hrequest, hreads'⟩ := cachePassthrough_some hreads hpass
    obtain ⟨⟨p, token⟩, hhandle, hsome⟩ := Option.bind_eq_some_iff.mp h
    cases hsome
    exact .inr ⟨request, extension, extension', message', p, token, hreads, hrequest, hreads',
      hhandle, rfl⟩
  · rw [not_or] at hsize
    simp only [if_neg (not_or.mpr hsize)] at h
    cases h
    exact .inl ⟨by rw [readRequest, if_neg hsize.1, if_neg hsize.2], rfl⟩

/-- A request that passes is answered as the enclave answers what comes
out. -/
theorem sendResponse_of_pass {σ : Type} {A : Aead AesKey ivLength tagLength}
    {calls : HostCalls σ} {xattr : σ → List UInt8 → Option (List UInt8)} {env : MessageEnv}
    {s : DaemonState σ} {pid : Pid} {extension extension' : Option OpExtension}
    {cache' : IdentifierCache} {w : σ} {e : Enclave} {result : Response}
    {token : Option (Block ptokenLength)}
    (hreads : readRequest message = some (request, extension))
    (hpass : passRequest env.cache (xattr s.world) s.cache request extension =
      some (cache', extension'))
    (hhandle : ∀ message', readRequest message' = some (request, extension') →
      handleRequest A calls env.rand s.world s.enclave message' pid ptokenLength =
        some (⟨w, e, result⟩, token)) :
    ∃ reply, sendResponse A calls xattr env s pid message = some (⟨w, e, cache'⟩, reply) := by
  obtain ⟨message', hmessage', hreads'⟩ := cachePassthrough_of_passRequest hreads hpass
  have hsize : message.length = opRequestSize ∨ message.length = opExtendedRequestSize := by
    cases extension with
    | none => exact .inl (readRequest_plain hreads).1
    | some x => exact .inr (readRequest_extended hreads).1
  refine ⟨writeReply message' (token.getD env.ptoken) result, ?_⟩
  simp only [sendResponse, if_pos hsize, hmessage', hhandle message' hreads', Option.bind_eq_bind,
    Option.bind_some, if_true]

end Citadel.Daemon
