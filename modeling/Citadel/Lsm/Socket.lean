/-
Citadel.Lsm.Socket — the socket hooks (`lsm/src/lsm_functions/socket.c`).

A socket is an inode of sockfs, and its label is in the blob of that inode
only. A tainted task that touches a socket outside the realm puts it
there, with the identifier of the task (`realmInitSocket`). Then `bind`
to an address that is not local, `accept`, `sendmsg` and `recvmsg` ask
`can_access` for a ticket with a socket operation.

They ask in vain. `can_access` was written for files, and before it looks
at a ticket it lets everybody into sockfs. So no socket hook refuses
anything to anybody (`socket_hooks_never_refuse`), and the SOCKET bits of
a ticket are never looked at. Were the exemption not there, the labelled
sockets would be closed to everybody: the label leaves the blob anonymous.

For sockets of sockfs a hook is the housekeeping of the caller and a
change of labels, so the runs of `Citadel.Lsm.SystemRun` have the socket
hooks among their events (`SocketHook.call_run`).
-/
import Citadel.Lsm.SystemRun

namespace Citadel

open Bytes

/-! ## Labels of sockets -/

/-- Called on socket data when parent is seen to be tainted. -/
def realmInitSocket (task : TaskData) (data : InodeData) : InodeData :=
  if !data.inRealm then
    { data with
      isSocket := true
      checkedDiskXattr := true
      inRealm := true
      identifier := task.identifier }
  else data

def realmInitSocketCopy (original copy : InodeData) : InodeData :=
  if original.inRealm then { copy with inRealm := true, identifier := original.identifier }
  else copy

/-- The socket or the caller is tainted. -/
def System.tainted (s : System) (cur : Task) (i : Nat) : Bool :=
  (s.data i).inRealm || (s.task cur).inRealm

def System.labelSocket (s : System) (cur : Task) (i : Nat) : System :=
  s.setData i (realmInitSocket (s.task cur) (s.data i))

/-! ## Hooks -/

/-- `AF_UNIX`, which is `AF_LOCAL`. -/
def afUnix : UInt16 := 1

def System.housekeep (s : System) (cur : Task) (now : Int) : Option System := do
  let k ← taskHousekeeping s.kernel cur now
  some { s with kernel := k }

def trmSocketPostCreate (s : System) (cur : Task) (i : Nat) (now : Int) :
    Option (System × Int) := do
  let s ← s.housekeep cur now
  let data := { s.data i with isSocket := true, checkedDiskXattr := true }
  -- automatically restrict sockets created by tainted processes
  some (s.setData i (if (s.task cur).inRealm then realmInitSocket (s.task cur) data else data), 0)

def trmSocketSocketpair (s : System) (cur : Task) (a b : Nat) (now : Int) :
    Option (System × Int) := do
  let s ← s.housekeep cur now
  if s.tainted cur a then
    let s := s.labelSocket cur a
    some (s.setData b (realmInitSocketCopy (s.data a) (s.data b)), 0)
  else some (s, 0)

/-- A local socket is governed by permission on its inode. -/
def trmSocketBind (s : System) (cur : Task) (i : Nat) (family : UInt16) (now : Int) :
    Option (System × Int) := do
  let s ← s.housekeep cur now
  if s.tainted cur i then
    let s := s.labelSocket cur i
    if family = afUnix then some (s, 0) else canAccess s cur i opSocketExternal
  else some (s, 0)

def trmSocketAccept (s : System) (cur : Task) (i new : Nat) (now : Int) :
    Option (System × Int) := do
  let s ← s.housekeep cur now
  if s.tainted cur i then
    let s := s.labelSocket cur i
    canAccess (s.setData new (realmInitSocketCopy (s.data i) (s.data new))) cur i opSocket
  else some (s, 0)

/-- The body of `trm_socket_sendmsg` and `trm_socket_recvmsg`. -/
def socketMessage (s : System) (cur : Task) (i : Nat) (now : Int) : Option (System × Int) := do
  let s ← s.housekeep cur now
  if s.tainted cur i then canAccess (s.labelSocket cur i) cur i opSocket else some (s, 0)

def trmSocketSendmsg : System → Task → Nat → Int → Option (System × Int) := socketMessage

def trmSocketRecvmsg : System → Task → Nat → Int → Option (System × Int) := socketMessage

/-- It only prints. -/
def trmSocketShutdown (s : System) (cur : Task) (_i : Nat) (now : Int) :
    Option (System × Int) := do
  let s ← s.housekeep cur now
  some (s, 0)

/-- The hooks that ask for a ticket. -/
inductive SocketHook where
  | bind (family : UInt16)
  | accept (new : Nat)
  | sendmsg
  | recvmsg

def SocketHook.call (hook : SocketHook) (s : System) (cur : Task) (i : Nat) (now : Int) :
    Option (System × Int) :=
  match hook with
  | .bind family => trmSocketBind s cur i family now
  | .accept new => trmSocketAccept s cur i new now
  | .sendmsg => trmSocketSendmsg s cur i now
  | .recvmsg => trmSocketRecvmsg s cur i now

/-! ## Sockets of sockfs -/

theorem canAccess_sockfs {s : System} {i : Nat} (hsock : (s.inode i).magic = .sockfs) (cur : Task)
    (op : Operation) : canAccess s cur i op = some (s, 0) := by
  unfold canAccess
  simp only [hsock, if_true, ite_self]

/-- The data of the inodes after a hook, the kernel being what the
housekeeping left. -/
def SocketHook.labels (hook : SocketHook) (s : System) (cur : Task) (i : Nat) : System :=
  if s.tainted cur i then
    match hook with
    | .accept new =>
      let s := s.labelSocket cur i
      s.setData new (realmInitSocketCopy (s.data i) (s.data new))
    | _ => s.labelSocket cur i
  else s

theorem housekeep_inode {s s₁ : System} {cur : Task} {now : Int}
    (h : s.housekeep cur now = some s₁) : s₁.inode = s.inode := by
  obtain ⟨k, -, hs⟩ := Option.bind_eq_some_iff.mp h
  cases hs
  rfl

/-- Whatever it asks for, a hook does its housekeeping, labels and returns
0. -/
theorem SocketHook.call_sockfs (hook : SocketHook) {s : System} (cur : Task) {i : Nat} (now : Int)
    (hsock : (s.inode i).magic = .sockfs) :
    hook.call s cur i now = (s.housekeep cur now).map fun s => (hook.labels s cur i, 0) := by
  cases hhouse : s.housekeep cur now with
  | none =>
    cases hook with
    | bind family => simp [SocketHook.call, trmSocketBind, hhouse]
    | accept new => simp [SocketHook.call, trmSocketAccept, hhouse]
    | sendmsg => simp [SocketHook.call, trmSocketSendmsg, socketMessage, hhouse]
    | recvmsg => simp [SocketHook.call, trmSocketRecvmsg, socketMessage, hhouse]
  | some s₁ =>
    have hsock₁ : (s₁.inode i).magic = .sockfs := by rw [housekeep_inode hhouse, hsock]
    have hlabel : ((s₁.labelSocket cur i).inode i).magic = .sockfs := hsock₁
    cases htaint : s₁.tainted cur i with
    | false =>
      cases hook with
      | bind family => simp [SocketHook.call, trmSocketBind, hhouse, SocketHook.labels, htaint]
      | accept new => simp [SocketHook.call, trmSocketAccept, hhouse, SocketHook.labels, htaint]
      | sendmsg =>
        simp [SocketHook.call, trmSocketSendmsg, socketMessage, hhouse, SocketHook.labels, htaint]
      | recvmsg =>
        simp [SocketHook.call, trmSocketRecvmsg, socketMessage, hhouse, SocketHook.labels, htaint]
    | true =>
      cases hook with
      | bind family =>
        simp [SocketHook.call, trmSocketBind, hhouse, SocketHook.labels, htaint,
          canAccess_sockfs hlabel]
      | accept new =>
        have hnew : (((s₁.labelSocket cur i).setData new
            (realmInitSocketCopy ((s₁.labelSocket cur i).data i)
              ((s₁.labelSocket cur i).data new))).inode i).magic = .sockfs := hsock₁
        simp [SocketHook.call, trmSocketAccept, hhouse, SocketHook.labels, htaint,
          canAccess_sockfs hnew]
      | sendmsg =>
        simp [SocketHook.call, trmSocketSendmsg, socketMessage, hhouse, SocketHook.labels, htaint,
          canAccess_sockfs hlabel]
      | recvmsg =>
        simp [SocketHook.call, trmSocketRecvmsg, socketMessage, hhouse, SocketHook.labels, htaint,
          canAccess_sockfs hlabel]

/-- Labels are all that a hook adds to the housekeeping. -/
theorem SocketHook.labels_eq (hook : SocketHook) (s : System) (cur : Task) (i : Nat) :
    hook.labels s cur i = { s with data := (hook.labels s cur i).data } := by
  unfold SocketHook.labels
  split
  · split <;> rfl
  · rfl

/-- A call is a run of the module. -/
theorem SocketHook.call_run (hook : SocketHook) {s : System} (cur : Task) {i : Nat} (now : Int)
    (hsock : (s.inode i).magic = .sockfs) {s₁ : System} (hhouse : s.housekeep cur now = some s₁) :
    hook.call s cur i now = (lsmRun s [.housekeeping cur now,
      .labels (hook.labels s₁ cur i).data s₁.disk s₁.citadelPid]).map fun s => (s, 0) := by
  rw [hook.call_sockfs cur now hsock, hhouse, Option.map_some, hook.labels_eq]
  have hstep : lsmStep s (.housekeeping cur now) = some s₁ := hhouse
  rw [lsmRun, List.foldlM_cons, hstep]
  rfl

/-- In every state the module can reach, whoever calls and whatever
tickets they have: the hooks allow. -/
theorem socket_hooks_never_refuse {s₀ s : System} (hboot : s₀.Booted) {evs : List LsmEvent}
    (hrun : lsmRun s₀ evs = some s) {i : Nat} (hsock : (s.inode i).magic = .sockfs)
    (hook : SocketHook) (cur : Task) (now : Int) :
    ∃ s', hook.call s cur i now = some (s', 0) := by
  have hwf : s.kernel.Wf := lsmRun_wf hboot hrun
  obtain ⟨k, hhouse, -⟩ := taskHousekeeping_wf hwf cur now
  have hs : s.housekeep cur now = some { s with kernel := k } := by
    rw [System.housekeep, hhouse]
    rfl
  refine ⟨hook.labels { s with kernel := k } cur i, ?_⟩
  rw [hook.call_sockfs cur now hsock, hs]
  rfl

/-- Every task is tainted and has no ticket; every inode is a socket; pid 5
is Citadel. -/
def taintedSockets : System :=
  ⟨Kernel.boot fun _ => { initTaskTrm (fill _ 9) none with inRealm := true },
    fun _ => ⟨8, false, .sockfs⟩, fun _ => .alloc, fun _ => ⟨false, none⟩, 5⟩

theorem taintedSockets_sendmsg :
    ∃ s', SocketHook.sendmsg.call taintedSockets ⟨7, 0⟩ 0 100 = some (s', 0) :=
  socket_hooks_never_refuse ⟨_, rfl⟩ (show lsmRun taintedSockets [] = some _ from rfl) rfl
    .sendmsg ⟨7, 0⟩ 100

/-- Pid 7 binds to an internet address, accepts, sends and receives. -/
theorem sockets_without_ticket :
    (taintedSockets.task ⟨7, 0⟩).inRealm = true ∧
    taintedSockets.kernel.tickets (.task 0) = [] ∧
    ([.bind 2, .accept 1, .sendmsg, .recvmsg] : List SocketHook).map
        (fun hook => (hook.call taintedSockets ⟨7, 0⟩ 0 100).map Prod.snd) =
      [some 0, some 0, some 0, some 0] := by
  decide +kernel

end Citadel
