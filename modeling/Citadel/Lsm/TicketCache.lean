/-
Citadel.Lsm.TicketCache — the ticket cache of the kernel module,
`lsm/src/ticketing/ticket_cache.c`, at the level of its pointers.

Tickets are heap cells on circular rings (`Citadel.Lib.Ring`). A ring
hangs off a reservation node, where `insert_ticket` appends to it, until
the process it is for comes by: `check_ticket_cache` splices it onto the
ring of the caller's credential and then frees expired tickets. The
reservation nodes stand in a red-black tree searched by the SIGN OF A
32-BIT SUBTRACTION; the rebalancing of the kernel's rbtree is a
parameter of every insertion.

Every function is partial: `none` is a memory fault. The two `while`
loops over a ring are `Heap.walk`, with the number of addresses ever
handed out as fuel; that this is enough is proved, not assumed.

The last test of `check_ticket_cache`, on `reservation_node->ticket_head`,
has an empty body (its two statements are commented out): a read without
effect, through a pointer that may be null, which is left out.
-/
import Citadel.Shared
import Citadel.Lib.Ring
import Citadel.Lib.SearchTree

namespace Citadel

open RingHeap SearchTree

/-! ## Data -/

/-- `citadel_ticket_t` without its links. Timestamps are `ktime_t`,
nanoseconds. -/
structure Ticket where
  identifier : Identifier
  operation : Operation
  timestamp : Int
  deriving DecidableEq

/-- `struct ticket_reservation_node` without its tree links. -/
structure Reservation where
  pid : Pid
  ticketHead : Option Nat
  grantedPty : Bool
  deriving DecidableEq

/-- `citadel_task_data_t`, the security blob of a credential. -/
structure TaskData where
  inRealm : Bool
  grantedPty : Bool
  ticketHead : Option Nat
  pid : Pid
  identifier : Identifier
  deriving DecidableEq

/-- `current`: the pid of the running task and the name of its credential. -/
structure Task where
  pid : Pid
  cred : Nat
  deriving DecidableEq

/-- The heap of tickets, the tree `ticketing_reservations` with its nodes,
and the credentials. -/
structure Kernel where
  heap : Heap Ticket
  reservations : BinaryTree Nat
  node : Nat → Reservation
  nodeFresh : Nat
  cred : Nat → TaskData

/-- No ticket, no reservation; the credentials are the caller's, less any
ticket. -/
def Kernel.boot (cred : Nat → TaskData) : Kernel where
  heap := Heap.empty
  reservations := .nil
  node := fun _ => ⟨0, none, false⟩
  nodeFresh := 0
  cred := fun c => { cred c with ticketHead := none }

def Kernel.setNode (k : Kernel) (n : Nat) (r : Reservation) : Kernel :=
  { k with node := Function.update k.node n r }

def Kernel.setCred (k : Kernel) (c : Nat) (d : TaskData) : Kernel :=
  { k with cred := Function.update k.cred c d }

/-! ## `ticket_search` and `insert_reservation` -/

/-- The sign of `pid - this`, computed in 32 bits. -/
def comparePid (pid this : Pid) : Ordering :=
  let result := pid - this
  if result.slt 0 then .lt else if BitVec.slt 0 result then .gt else .eq

def ticketSearch (k : Kernel) (pid : Pid) : Option Nat :=
  search (fun n => comparePid pid (k.node n).pid) k.reservations

/-- Returns the C function's `bool`: `true` is its `-1`, a node with this
pid was met. -/
def insertReservation (k : Kernel) (rb : Rebalance Nat) (n : Nat) : Kernel × Bool :=
  match link (fun m => comparePid (k.node n).pid (k.node m).pid) n k.reservations with
  | none => (k, true)
  | some t => ({ k with reservations := rb.tree t }, false)

/-! ## `insert_ticket` -/

/-- Which of the allocations of one `insert_ticket` call succeed. -/
structure Allocs where
  node : Bool
  hex : Bool
  ticket : Bool

/-- No allocation fails. -/
def Allocs.ok : Allocs := ⟨true, true, true⟩

/-- Find the reservation of a pid or add one; `none` when it cannot be
allocated or is not accepted by the tree. -/
def reserve (k : Kernel) (rb : Rebalance Nat) (a : Allocs) (pid : Pid) : Kernel × Option Nat :=
  match ticketSearch k pid with
  | some n => (k, some n)
  | none =>
    if a.node then
      let n := k.nodeFresh
      let k' := { k.setNode n ⟨pid, none, false⟩ with nodeFresh := n + 1 }
      match insertReservation k' rb n with
      | (_, true) => (k, none)
      | (k', false) => (k', some n)
    else (k, none)

/-- Wire the new ticket `p` into the end of the ring at `head`. -/
def appendTicket (h : Heap Ticket) (head p : Nat) : Option (Heap Ticket) := do
  let last ← h.prevOf head
  let h ← h.setPrev head p
  let next ← h.nextOf last
  let h ← h.setNext p next
  let h ← h.setPrev p last
  h.setNext last p

/-- The special PTY grant. -/
def grantPty (k : Kernel) (n : Nat) (op : Operation) : Kernel :=
  if op.has opPtyAccess then k.setNode n { k.node n with grantedPty := true } else k

/-- Put a new ticket at the end of the ring of node `n`. -/
def hangTicket (k : Kernel) (n : Nat) (t : Ticket) : Option Kernel := do
  let p := k.heap.fresh
  let h := k.heap.alloc ⟨t, 0, 0⟩
  match (k.node n).ticketHead with
  | none =>
    let h ← h.setNext p p
    let h ← h.setPrev p p
    some ({ k with heap := h }.setNode n { k.node n with ticketHead := some p })
  | some head =>
    let h ← appendTicket h head p
    some { k with heap := h }

/-- `insert_ticket` from its assertion on: the node is valid and in the
tree. A failed `kmalloc` of the hex string faults, `to_hexstring` writes
to it unchecked. -/
def installTicket (k : Kernel) (n : Nat) (a : Allocs) (now : Int) (r : UpdateRecord) :
    Option (Kernel × Bool) :=
  let k := grantPty k n r.operation
  if r.operation = opPtyAccess then some (k, true)
  else if !a.hex then none
  else if !a.ticket then some (k, false)
  else (hangTicket k n ⟨r.identifier, r.operation, now⟩).map (fun k => (k, true))

def insertTicket (k : Kernel) (rb : Rebalance Nat) (a : Allocs) (now : Int) (r : UpdateRecord) :
    Option (Kernel × Bool) :=
  match reserve k rb a r.pid with
  | (k, none) => some (k, false)
  | (k, some n) => installTicket k n a now r

/-! ## `check_ticket_cache` -/

/-- Claim the PTY right if pending. -/
def claimPty (k : Kernel) (cur : Task) : Option Nat → Kernel
  | none => k
  | some n =>
    if (k.node n).grantedPty then
      (k.setNode n { k.node n with grantedPty := false }).setCred cur.cred
        { k.cred cur.cred with grantedPty := true }
    else k

/-- The four pointer writes that put the ring at `resHead` behind the ring
at `taskHead`. -/
def spliceTickets (h : Heap Ticket) (resHead taskHead : Nat) : Option (Heap Ticket) := do
  let current ← h.prevOf resHead
  let h ← h.setPrev resHead (← h.prevOf taskHead)
  let h ← h.setNext current taskHead
  let h ← h.setNext (← h.prevOf taskHead) resHead
  h.setPrev taskHead current

/-- The condition of the counting loop: the next ticket is younger. -/
def countGo (a b : Ticket) : Bool := decide (a.timestamp < b.timestamp)

/-- Count the pending tickets, then move their ring to the credential. -/
def claimTickets (k : Kernel) (cur : Task) : Option Nat → Option Kernel
  | none => some k
  | some n =>
    match (k.node n).ticketHead with
    | none => some k
    | some resHead => do
      let _count ← k.heap.walk countGo k.heap.fresh resHead 1
      let k ← match (k.cred cur.cred).ticketHead with
        | none => some (k.setCred cur.cred { k.cred cur.cred with ticketHead := some resHead })
        | some taskHead => do
          let h ← spliceTickets k.heap resHead taskHead
          some { k with heap := h }
      some (k.setNode n { k.node n with ticketHead := none })

/-- `ktime_get() - _CITADEL_TICKET_EXPIRY * 1000000000L`. -/
def expiryThreshold (now : Int) : Int := now - ticketExpiry * 1000000000

/-- The condition of the expiry loop: this ticket is old and the next one
is younger. -/
def expiryGo (threshold : Int) (a b : Ticket) : Bool :=
  decide (a.timestamp ≤ threshold) && decide (a.timestamp < b.timestamp)

/-- Close the ring from `current` on and free the `count` tickets before it. -/
def cutTickets (h : Heap Ticket) (initial current count : Nat) : Option (Heap Ticket) := do
  let h ← h.setPrev current (← h.prevOf initial)
  let h ← h.setNext (← h.prevOf initial) current
  h.freeRun count initial

/-- Remove old tickets and free them. -/
def removeOldTickets (k : Kernel) (cur : Task) (now : Int) : Option Kernel :=
  match (k.cred cur.cred).ticketHead with
  | none => some k
  | some initial => do
    let threshold := expiryThreshold now
    let (current, count) ← k.heap.walk (expiryGo threshold) k.heap.fresh initial 0
    let t ← k.heap.valOf current
    if t.timestamp ≤ threshold then
      let h ← k.heap.freeRun (count + 1) initial
      some ({ k with heap := h }.setCred cur.cred { k.cred cur.cred with ticketHead := none })
    else if count > 0 then
      let h ← cutTickets k.heap initial current count
      some ({ k with heap := h }.setCred cur.cred
        { k.cred cur.cred with ticketHead := some current })
    else some k

/-- The first half of `check_ticket_cache`: everything pending for the pid
of the caller goes to its credential. -/
def claimReservation (k : Kernel) (cur : Task) : Option Kernel :=
  let reservationNode := ticketSearch k cur.pid
  claimTickets (claimPty k cur reservationNode) cur reservationNode

def checkTicketCache (k : Kernel) (cur : Task) (now : Int) : Option Kernel := do
  let k ← claimReservation k cur
  removeOldTickets k cur now

end Citadel
