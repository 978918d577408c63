/-
Citadel.Libcitadel.ShimCalls — the calls of `libcitadel/src/shim.c` besides
`c_open`: reading and writing, sockets, FIFOs, `c_close`, shared memory and
`c_fork`.

They stand for the system calls of the same names and pass these on if the
cache or the enclave allows it. A call gives back the cache, the system
calls it made (`passed`) and what the enclave approved on the way, with the
time of the approval.

Most of them are one function (`guardedIo`) and look at the descriptor
only. `c_bind` and `c_mkfifo` first make what they then have to claim, and
remove it again if they may not; `c_connect` and `c_fopen` ask for the path
first.

`citadel_remove_fd` is here over the entries; `citadelRemoveFd_refines`
says that it is the function over the pointers.
-/
import Citadel.Libcitadel.FdCalls
import Citadel.Libcitadel.Init
import Citadel.Libcitadel.Shim
import Citadel.Libcitadel.Shm

namespace Citadel.Libcitadel

open Bytes Posix ChainHeap

/-! ## Results -/

/-- The calls on one descriptor. -/
inductive Io where
  | read | write | pread | pwrite | send | recv | writev | listen
  deriving DecidableEq

inductive Syscall where
  | io (kind : Io) (fd : BitVec 32)
  | sendfile (out source : BitVec 32)
  | bind (fd : BitVec 32)
  | connect (fd : BitVec 32)
  | fopen (path : List UInt8)
  | mkfifo (path : List UInt8)
  | unlink (path : List UInt8)
  | socketpair
  | close (fd : BitVec 32)
  | shmget (key : BitVec 32)
  | shmat (shmid : BitVec 32)
  | shmctl (shmid : BitVec 32)
  | fork
  deriving DecidableEq

/-- An approval of the enclave, and when its answer was back. -/
structure Approval where
  request : Request
  time : Seconds
  deriving DecidableEq

/-- What a call of the shim has done. `errno` is what it has set it to
itself. -/
structure Shimmed where
  cache : Cache
  passed : List Syscall
  approvals : List Approval
  errno : Option Errno

/-- A descriptor, with what `fgetxattr` finds on it. -/
structure Descriptor where
  fd : BitVec 32
  xattr : Option (List UInt8)

def Outcome.approvals (out : Outcome) (env : CallEnv) : List Approval :=
  if out.answer then out.asked.toList.map fun request => ⟨request, env.later⟩ else []

/-! ## One descriptor -/

/-- `citadel_validate_fd_anon`. -/
def citadelValidateFdAnon (env : CallEnv) (cache : Cache) (d : Descriptor) : Option Outcome :=
  (citadelValidateFd env cache d.fd d.xattr none none none).map Prod.fst

/-- A call that is passed on for a valid descriptor and sets `errno` for
another. -/
def guardedIo (kind : Io) (env : CallEnv) (cache : Cache) (d : Descriptor) : Option Shimmed :=
  (citadelValidateFdAnon env cache d).map fun out =>
    if out.answer then ⟨out.cache, [.io kind d.fd], out.approvals env, none⟩
    else ⟨out.cache, [], out.approvals env, some .eperm⟩

def cRead := guardedIo .read

def cWrite := guardedIo .write

def cPread := guardedIo .pread

def cPwrite := guardedIo .pwrite

def cSend := guardedIo .send

def cRecv := guardedIo .recv

def cWritev := guardedIo .writev

/-- `c_listen` leaves `errno` alone. -/
def cListen (env : CallEnv) (cache : Cache) (d : Descriptor) : Option Shimmed :=
  (guardedIo .listen env cache d).map fun out => { out with errno := none }

/-- `c_sendfile`: the second descriptor is looked at if the first is
valid. -/
def cSendfile (env env' : CallEnv) (cache : Cache) (out source : Descriptor) :
    Option Shimmed := do
  let first ← citadelValidateFdAnon env cache out
  if !first.answer then some ⟨first.cache, [], first.approvals env, some .eperm⟩
  else do
    let second ← citadelValidateFdAnon env' first.cache source
    let approvals := first.approvals env ++ second.approvals env'
    if second.answer then some ⟨second.cache, [.sendfile out.fd source.fd], approvals, none⟩
    else some ⟨second.cache, [], approvals, some .eperm⟩

/-! ## Descriptors that come and go -/

/-- What a declaration takes from outside. -/
structure DeclareEnv where
  memory : CacheItem
  now : Seconds
  parentIdentifier : Identifier

def declare (env : DeclareEnv) (cache : Cache) (d : Descriptor) (op : Operation) : Option Cache :=
  citadelDeclareFd env.memory env.now env.parentIdentifier cache d.fd d.xattr op

/-- `c_socketpair`; `made` is whether the system call gave the two
descriptors. -/
def cSocketpair (env env' : DeclareEnv) (cache : Cache) (made : Bool) (first second : Descriptor) :
    Option Shimmed :=
  if made then do
    let cache ← declare env cache first opNop
    let cache ← declare env' cache second opNop
    some ⟨cache, [.socketpair], [], none⟩
  else some ⟨cache, [.socketpair], [], none⟩

/-- `citadel_remove_fd` over the entries. An entry behind the first is read
after its release. -/
def removeFd (cache : Cache) (fd : BitVec 32) : Option Cache :=
  if fd = -1 then some cache
  else if cache.fd.tail.any fun item => item.fd == fd then none
  else some { cache with fd := cache.fd.filter fun item => item.fd ≠ fd }

def cClose (cache : Cache) (fd : BitVec 32) : Option Shimmed :=
  if fd = -1 then some ⟨cache, [], [], none⟩
  else (removeFd cache fd).map fun cache => ⟨cache, [.close fd], [], none⟩

/-! ## Sockets and paths -/

/-- A socket address, by what the library reads of it. -/
inductive Address where
  | unix (path : List UInt8)
  | other
  deriving DecidableEq

/-- The operation `citadel_socket` asks for. -/
def Address.operation : Address → Operation
  | .unix _ => opSocketInternal
  | .other => opSocketExternal

/-- `citadel_socket`, with what it leaves in `*tainted`. -/
def citadelSocketFd (env : CallEnv) (cache : Cache) (d : Descriptor) (addr : Address) :
    Option (Outcome × Bool) :=
  citadelValidateFd env cache d.fd d.xattr none (some addr.operation) (some .socket)

/-- `c_bind`; `bound` is whether the system call succeeds. -/
def cBind (env env' : CallEnv) (cache : Cache) (d : Descriptor) (addr : Address) (bound : Bool) :
    Option Shimmed := do
  let (out, tainted) ← citadelSocketFd env cache d addr
  let approvals := out.approvals env
  if !out.answer then some ⟨out.cache, [], approvals, none⟩
  else
    match addr with
    | .unix path =>
      if tainted && bound then
        let claim := citadelFileClaimForce env' out.cache (path ++ [0])
        let passed := if claim.answer then [.bind d.fd] else [.bind d.fd, .unlink path]
        some ⟨claim.cache, passed, approvals ++ claim.approvals env', none⟩
      else some ⟨out.cache, [.bind d.fd], approvals, none⟩
    | .other => some ⟨out.cache, [.bind d.fd], approvals, none⟩

/-- `c_connect`. -/
def cConnect (env env' : CallEnv) (cache : Cache) (d : Descriptor) (addr : Address) :
    Option Shimmed := do
  let (out, tainted) ← citadelSocketFd env cache d addr
  let approvals := out.approvals env
  if !out.answer then some ⟨out.cache, [], approvals, none⟩
  else
    match addr with
    | .unix path =>
      if tainted then
        let opened := citadelFileOpenExt env' out.cache (path ++ [0])
        let passed := if opened.answer then [.connect d.fd] else []
        some ⟨opened.cache, passed, approvals ++ opened.approvals env', none⟩
      else some ⟨out.cache, [.connect d.fd], approvals, none⟩
    | .other => some ⟨out.cache, [.connect d.fd], approvals, none⟩

/-- `c_mkfifo`; `made` is whether the system call succeeds. -/
def cMkfifo (env : CallEnv) (cache : Cache) (path : List UInt8) (made : Bool) : Shimmed :=
  if made then
    let claim := citadelFileClaimForce env cache (path ++ [0])
    let passed := if claim.answer then [.mkfifo path] else [.mkfifo path, .unlink path]
    ⟨claim.cache, passed, claim.approvals env, none⟩
  else ⟨cache, [.mkfifo path], [], none⟩

/-- `c_fopen`. -/
def cFopen (env : CallEnv) (cache : Cache) (path : List UInt8) : Shimmed :=
  let opened := citadelFileOpenExt env cache (path ++ [0])
  ⟨opened.cache, if opened.answer then [.fopen path] else [], opened.approvals env, none⟩

/-! ## Shared memory and `c_fork` -/

/-- `c_shmget`, where `shmget` returns `shmid`. -/
def shimShmget (env : CallEnv) (cache : Cache) (key shmid : BitVec 32) : Shimmed :=
  let out := cShmget env cache key shmid
  ⟨out.cache, if out.approved then [.shmget key] else [],
    (citadelShmAccess env cache key false).approvals env, none⟩

/-- `c_shmat` and `c_shmctl` pass `call` on if the id is known. -/
def shimShm (call : Syscall) (env : CallEnv) (cache : Cache) (shmid : BitVec 32) : Shimmed :=
  let out := citadelShmAccess env cache shmid true
  ⟨out.cache, if out.answer then [call] else [], out.approvals env, none⟩

/-- A child of `c_fork`: its pid and its parent's, what its `citadel_init`
meets, and the statics besides the cache, which it has from its parent. -/
structure ForkEnv where
  pid : Pid
  ppid : Pid
  init : InitEnv
  statics : Statics

/-- `citadel_init` in the child. -/
def ForkEnv.run (child : ForkEnv) (cache : Cache) : Option InitOutcome :=
  citadelInit child.init child.pid child.ppid { child.statics with cache := cache }

/-! ## Removing, over the pointers -/

/-- An entry behind the first is read after its release. -/
theorem citadelRemoveFd_later {g : FdGroup} {cs : List (Nat × CacheItem)} (hcs : g.Is cs)
    {fd : BitVec 32} (hfd : fd ≠ -1) {d : Nat × CacheItem} (hd : d ∈ cs.tail)
    (hdfd : d.2.fd = fd) : citadelRemoveFd g fd = none := by
  cases cs with
  | nil => cases hd
  | cons c cs =>
    obtain ⟨heap, head⟩ := g
    obtain ⟨hhead, next, hcell, hchain⟩ := hcs
    simp only at hhead hcell
    subst hhead
    rw [citadelRemoveFd, if_neg (not_or.mpr ⟨ne_null_of_live hcell, hfd⟩)]
    simp only [hcell, removeLoop_present hchain hd hdfd, Option.bind_eq_bind, Option.bind_some,
      Option.bind_none]

theorem any_tail_values (cs : List (Nat × CacheItem)) (fd : BitVec 32) :
    ((values cs).tail.any fun item => item.fd == fd) = true ↔ ∃ c ∈ cs.tail, c.2.fd = fd := by
  rw [values, ← List.map_tail, List.any_map, List.any_eq_true]
  simp

theorem filter_values (cs : List (Nat × CacheItem)) (fd : BitVec 32) :
    ((values cs).filter fun item => item.fd ≠ fd) =
      values (cs.filter fun c => c.2.fd ≠ fd) := by
  rw [values, List.filter_map]
  rfl

/-- Entries and pointers remove alike, and fault alike. -/
theorem citadelRemoveFd_refines {g : FdGroup} {cs : List (Nat × CacheItem)} (hcs : g.Is cs)
    {cache : Cache} (hcache : cache.fd = values cs) (fd : BitVec 32) :
    Together (fun (cache' : Cache) (g' : FdGroup) => ∃ cs', g'.Is cs' ∧ cache'.fd = values cs')
      (removeFd cache fd) (citadelRemoveFd g fd) := by
  unfold removeFd
  by_cases hfd : fd = -1
  · rw [if_pos hfd, citadelRemoveFd, if_pos (.inr hfd)]
    exact .inr ⟨cache, g, rfl, rfl, cs, hcs, hcache⟩
  rw [if_neg hfd, hcache]
  by_cases hlater : ∃ c ∈ cs.tail, c.2.fd = fd
  · obtain ⟨d, hd, hdfd⟩ := hlater
    rw [if_pos ((any_tail_values cs fd).mpr ⟨d, hd, hdfd⟩)]
    exact .inl ⟨rfl, citadelRemoveFd_later hcs hfd hd hdfd⟩
  · rw [if_neg (fun h => hlater ((any_tail_values cs fd).mp h))]
    obtain ⟨g', hremove, hforgets⟩ := citadelRemoveFd_tail_absent hcs hfd
      (fun c hc hcfd => hlater ⟨c, hc, hcfd⟩)
    exact .inr ⟨_, g', rfl, hremove, _, hforgets.kept, filter_values cs fd⟩

end Citadel.Libcitadel
