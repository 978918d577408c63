/-
Citadel.Lsm.ShmTracking — who has been let into which shared memory
segment (`lsm/src/ticketing/shm_tracking.c`).

The segments stand in a red-black tree by their key, each with the list of
the pids admitted to it. As with the ticket reservations, the descent goes
by the SIGN OF A 32-BIT SUBTRACTION and the rebalancing of the kernel's
rbtree is a parameter. The list is appended to at its end and never
shortened, so it is a `List`.

`none` is a memory fault. The sizes are natural numbers: a count that
overflows `2 * count * sizeof(pid_t)` has long failed its allocation.
-/
import Citadel.Lsm.Inode

namespace Citadel

open SearchTree Bytes

/-- `key_t`. -/
abbrev Key := BitVec 32

/-- `citadel_shm_node_t` without its tree links, its list read off
`pid_head`. -/
structure ShmNode where
  shmid : Key
  pids : List Pid
  deriving DecidableEq

/-- `shm_pool` with its nodes. -/
structure ShmPool where
  tree : BinaryTree Nat
  node : Nat → ShmNode
  fresh : Nat

/-- `RB_ROOT`. -/
def ShmPool.empty : ShmPool := ⟨.nil, fun _ => ⟨0, []⟩, 0⟩

def ShmPool.setNode (m : ShmPool) (n : Nat) (d : ShmNode) : ShmPool :=
  { m with node := Function.update m.node n d }

/-! ## `shmid_search` and `insert_shmid` -/

/-- The sign of `key - this`: the comparison of the reservations. -/
def compareKey (key this : Key) : Ordering := comparePid key this

def shmidSearch (m : ShmPool) (key : Key) : Option Nat :=
  search (fun n => compareKey key (m.node n).shmid) m.tree

/-- Returns the C function's `bool`: `true` is its `-1`. -/
def insertShmid (m : ShmPool) (rb : Rebalance Nat) (n : Nat) : ShmPool × Bool :=
  match link (fun k => compareKey (m.node n).shmid (m.node k).shmid) n m.tree with
  | none => (m, true)
  | some t => ({ m with tree := rb.tree t }, false)

/-! ## `add_to_shmid` -/

/-- Which of the allocations of one `add_to_shmid` call succeed. -/
structure ShmAllocs where
  node : Bool
  pid : Bool

/-- No allocation fails. -/
def ShmAllocs.ok : ShmAllocs := ⟨true, true⟩

/-- The first half of `add_to_shmid`: the node of the key, made when there
is none. -/
def shmNodeFor (m : ShmPool) (rb : Rebalance Nat) (allocs : ShmAllocs) (key : Key) :
    ShmPool × Option Nat :=
  match shmidSearch m key with
  | some n => (m, some n)
  | none =>
    if allocs.node then
      let n := m.fresh
      let m := { m.setNode n ⟨key, []⟩ with fresh := n + 1 }
      match insertShmid m rb n with
      | (m, true) => (m, none)
      | (m, false) => (m, some n)
    else (m, none)

def addToShmid (m : ShmPool) (rb : Rebalance Nat) (allocs : ShmAllocs) (key : Key) (pid : Pid) :
    ShmPool × Bool :=
  match shmNodeFor m rb allocs key with
  | (m, none) => (m, false)
  | (m, some n) =>
    let d := m.node n
    -- first check we're not already there
    if pid ∈ d.pids then (m, true)
    else if allocs.pid then (m.setNode n { d with pids := d.pids ++ [pid] }, true)
    else (m, false)

/-- The second half of `add_to_shmid`, when no allocation fails. -/
def ShmPool.enroll (m : ShmPool) (n : Nat) (pid : Pid) : ShmPool :=
  if pid ∈ (m.node n).pids then m
  else m.setNode n { m.node n with pids := (m.node n).pids ++ [pid] }

/-! ## `get_shmid_inhabitants` -/

/-- The pids as they lie in memory. -/
def pidBytes (pids : List Pid) : List UInt8 := pids.flatMap (fun p => (le32 p).1)

/-- Which of the allocations of one `get_shmid_inhabitants` call succeed. -/
structure InhabitantsAllocs where
  key : Bool
  pids : Bool
  hex : Bool

def InhabitantsAllocs.ok : InhabitantsAllocs := ⟨true, true, true⟩

/-- `keystring` is the string before its terminator. Returns the C
function's value and what it leaves in `*buffer`. -/
def getShmidInhabitants (m : ShmPool) (keystring : List UInt8) (alloc : Bool)
    (allocs : InhabitantsAllocs) : Option (Int × Option (List UInt8)) :=
  if keystring.length ≠ 2 * 4 then some (einval, none)
  else do
    -- the decoded key is read through without a test
    let bytes ← if allocs.key then hexstringToBytes keystring else none
    let key ← read bytes 0 4
    match shmidSearch m (ofLe32 key) with
    | none => some (0, none)
    | some n =>
      let pids := (m.node n).pids
      let size : Int := 2 * pids.length * 4 + 1
      if !alloc then some (size, none)
      else if !allocs.pids then some (enomem, none)
      else
        match toHexstring (pidBytes pids) with
        | none => some (enomem, none)
        -- `to_hexstring` writes to its buffer without a test
        | some hex => if allocs.hex then some (size, some hex) else none

end Citadel
