/-
Citadel.Daemon.Server — the socket thread (`run_server` of
`citadeld/socket.cpp`), system call by system call.

A step is the test of `running`, or the answer of the `accept`, `read` or
`write` that the thread is in; other threads and processes act in between
(`stop` is the first line of `close_socket`). The thread writes a log of
what it does.

  §1  the thread;
  §2  connections come one after the other, and each is what
      `handleClientSocket` makes of it (`server_sequential`);
  §3  what is left to do once it is to stop (`stop_bounded`).
-/
import Citadel.Lib.Run
import Citadel.Protocol.StreamWriters

namespace Citadel.Daemon

open Bytes Enclave Citadel.Stream
open Libcitadel (ReadResult)

variable {σ : Type}

/-! ## §1 The thread -/

/-- The answer of `accept`: a descriptor, the peer behind it and what the
stack holds where the buffer will be, or an error by `errno`. -/
inductive AcceptResult where
  | client (fd : Nat) (pid : Pid) (stack : Block opExtendedRequestSize)
  | again
  | interrupted
  | failed

/-- A connection, with what its `read` has answered so far. -/
structure Connection where
  fd : Nat
  pid : Pid
  stack : Block opExtendedRequestSize
  reads : List ReadResult

/-- Where the thread is. -/
inductive Phase where
  | top
  | accepting
  | reading (c : Connection) (r : Reader)
  | sending (fd : Nat) (reply : List UInt8) (len : BitVec 64) (w : Writer)
  | stopped

inductive Entry (σ : Type) where
  | opened (fd : Nat)
  | answered (c : Connection) (env : MessageEnv)
  | sent (bytes : List UInt8)
  | closed (fd : Nat)
  | elsewhere (world : σ)

structure Server (σ : Type) where
  daemon : DaemonState σ
  running : Bool
  phase : Phase
  log : List (Entry σ)

inductive ServerEvent (σ : Type) where
  | check
  | accept (result : AcceptResult)
  | read (outcome : ReadResult) (env : MessageEnv)
  | write (count : Option Nat) (blocked : Bool)
  | stop
  | elsewhere (world : σ)

/-- The thread goes to `phase` and notes something. -/
def Server.goto (s : Server σ) (phase : Phase) (entries : List (Entry σ)) : Server σ :=
  { s with phase := phase, log := s.log ++ entries }

/-- The answer of a `write` of `len` bytes. Linux refuses a length that is
negative as an `ssize_t`. -/
def writeOutcome (len : BitVec 64) : Option Nat → Bool → Option (WriteOutcome len.toNat)
  | some count, _ =>
    if h : count ≤ len.toNat ∧ count ≤ maxRwCount then
      if len.toNat < 2 ^ 63 then some (.took count h.1 h.2) else none
    else none
  | none, true => some .again
  | none, false => some .error

section

variable (A : Aead AesKey ivLength tagLength) (calls : HostCalls σ)
  (xattr : σ → List UInt8 → Option (List UInt8))

/-- `send_response` on what the reader passes on, up to the sending. -/
def answerPassed (env : MessageEnv) (d : DaemonState σ) (c : Connection) (passed : Passed) :
    Option (DaemonState σ × Option (List UInt8)) :=
  if passed.messageLen.toNat ≤ opExtendedRequestSize then do
    let buffer ← write c.stack.1 0 passed.bytes
    let message ← read buffer 0 passed.messageLen.toNat
    let (d, reply) ← sendResponse A calls xattr env d c.pid message.1
    some (d, some reply)
  else some (d, none)

def acceptStep (s : Server σ) : AcceptResult → Server σ
  | .client fd pid stack =>
    -- descriptor 0 is neither a connection nor an error
    if 0 < fd then s.goto (.reading ⟨fd, pid, stack, []⟩ startReader) [.opened fd]
    else s.goto .top [.opened fd]
  | .again => s.goto .top []
  | .interrupted => { s.goto .top [] with running := false }
  | .failed => s.goto .top []

def readStep (s : Server σ) (c : Connection) (r : Reader) (outcome : ReadResult)
    (env : MessageEnv) : Option (Server σ) :=
  let c := { c with reads := c.reads ++ [outcome] }
  match readerBody r outcome with
  | .inl r => some (s.goto (.reading c r) [])
  | .inr none => some (s.goto .top [.answered c env, .closed c.fd])
  | .inr (some passed) => do
    let (daemon, reply) ← answerPassed A calls xattr env s.daemon c passed
    some ({ s with daemon := daemon }.goto
      (.sending c.fd (reply.getD []) passed.messageLen startWriter) [.answered c env])

def writeStep (s : Server σ) (fd : Nat) (reply : List UInt8) (len : BitVec 64) (w : Writer)
    (o : WriteOutcome len.toNat) : Server σ :=
  match sendResponseBody len w o with
  | .inl w => s.goto (.sending fd reply len w) []
  | .inr (_, counts) => s.goto .top [.sent (wire reply counts), .closed fd]

/-- One event; `none` is a memory fault, or a call that the thread is not
in. -/
def serverStep (s : Server σ) (e : ServerEvent σ) : Option (Server σ) :=
  match e, s.phase with
  | .check, .top => some (s.goto (if s.running then .accepting else .stopped) [])
  | .accept result, .accepting => some (acceptStep s result)
  | .read outcome env, .reading c r => readStep A calls xattr s c r outcome env
  | .write count blocked, .sending fd reply len w =>
    (writeOutcome len count blocked).map (writeStep s fd reply len w)
  | .stop, _ => some { s with running := false }
  | .elsewhere world, _ =>
    some ({ s with daemon := { s.daemon with world := world } }.goto s.phase [.elsewhere world])
  | _, _ => none

def serverRun (s : Server σ) (evs : List (ServerEvent σ)) : Option (Server σ) :=
  evs.foldlM (serverStep A calls xattr) s

/-- The thread as `pthread_create` starts it. -/
def Server.start (d : DaemonState σ) : Server σ := ⟨d, true, .top, []⟩

/-! ## §2 One after the other -/

/-- What an entry of the log does to the daemon: a connection is served at
once, by `handle_client_socket`. -/
def replayStep (d : DaemonState σ) : Entry σ → Option (DaemonState σ)
  | .answered c env =>
    (handleClientSocket A calls xattr env d c.pid c.stack c.reads).map Prod.fst
  | .elsewhere world => some { d with world := world }
  | .opened _ => some d
  | .sent _ => some d
  | .closed _ => some d

def replay (d : DaemonState σ) (log : List (Entry σ)) : Option (DaemonState σ) :=
  log.foldlM (replayStep A calls xattr) d

end

/-- What a log says of descriptors. -/
inductive Use where
  | opened (fd : Nat)
  | closed (fd : Nat)
  deriving DecidableEq

def Entry.use? : Entry σ → Option Use
  | .opened fd => some (.opened fd)
  | .closed fd => some (.closed fd)
  | .answered _ _ => none
  | .sent _ => none
  | .elsewhere _ => none

def uses (log : List (Entry σ)) : List Use := log.filterMap Entry.use?

/-- A connection from `accept` to `close`; descriptor 0 is not closed. -/
def fdUses (fd : Nat) : List Use := if 0 < fd then [.opened fd, .closed fd] else [.opened fd]

/-- The descriptor that the thread is at. -/
def Phase.open? : Phase → Option Nat
  | .reading c _ => some c.fd
  | .sending fd _ _ _ => some fd
  | _ => none

/-- The descriptors up to now. -/
def Orderly (s : Server σ) : Prop :=
  ∃ fds : List Nat, uses s.log = fds.flatMap fdUses ++ s.phase.open?.toList.map Use.opened ∧
    ∀ fd ∈ s.phase.open?, 0 < fd

section

variable {A : Aead AesKey ivLength tagLength} {calls : HostCalls σ}
  {xattr : σ → List UInt8 → Option (List UInt8)}

@[simp] theorem uses_nil : uses ([] : List (Entry σ)) = [] := rfl

@[simp] theorem uses_cons (e : Entry σ) (log : List (Entry σ)) :
    uses (e :: log) = e.use?.toList ++ uses log := by
  rw [uses, List.filterMap_cons, uses]
  cases e.use? <;> rfl

@[simp] theorem uses_append (log more : List (Entry σ)) :
    uses (log ++ more) = uses log ++ uses more := List.filterMap_append

theorem replay_append {d d' : DaemonState σ} {log : List (Entry σ)}
    (h : replay A calls xattr d log = some d') (more : List (Entry σ)) :
    replay A calls xattr d (log ++ more) = replay A calls xattr d' more := by
  rw [replay, List.foldlM_append]
  exact congrArg (· >>= _) h

/-- Where a connection stands, by what has been read on it. -/
def Phase.Consistent : Phase → Prop
  | .reading c r => Loop.run readerBody startReader c.reads = .inl r
  | _ => True

/-- What holds between the steps of the thread. -/
structure Server.Sound (A : Aead AesKey ivLength tagLength) (calls : HostCalls σ)
    (xattr : σ → List UInt8 → Option (List UInt8)) (d : DaemonState σ) (s : Server σ) : Prop where
  replays : replay A calls xattr d s.log = some s.daemon
  reads : s.phase.Consistent
  orderly : Orderly s

variable {d : DaemonState σ} {s s' : Server σ}

/-- What a step can be. -/
theorem serverStep_cases {e : ServerEvent σ} (h : serverStep A calls xattr s e = some s') :
    (e = .check ∧ s.phase = .top ∧
      s' = s.goto (if s.running then .accepting else .stopped) []) ∨
    (∃ result, e = .accept result ∧ s.phase = .accepting ∧ s' = acceptStep s result) ∨
    (∃ outcome env c r, e = .read outcome env ∧ s.phase = .reading c r ∧
      readStep A calls xattr s c r outcome env = some s') ∨
    (∃ count blocked fd reply len w o, e = .write count blocked ∧
      s.phase = .sending fd reply len w ∧ s' = writeStep s fd reply len w o) ∨
    (e = .stop ∧ s' = { s with running := false }) ∨
    (∃ world, e = .elsewhere world ∧
      s' = { s with daemon := { s.daemon with world := world } }.goto s.phase
        [.elsewhere world]) := by
  unfold serverStep at h
  split at h
  · rename_i hphase
    cases h
    exact .inl ⟨rfl, hphase, rfl⟩
  · rename_i result hphase
    cases h
    exact .inr (.inl ⟨result, rfl, hphase, rfl⟩)
  · rename_i outcome env c r hphase
    exact .inr (.inr (.inl ⟨outcome, env, c, r, rfl, hphase, h⟩))
  · rename_i count blocked fd reply len w hphase
    obtain ⟨o, -, rfl⟩ := Option.map_eq_some_iff.mp h
    exact .inr (.inr (.inr (.inl ⟨count, blocked, fd, reply, len, w, o, rfl, hphase, rfl⟩)))
  · cases h
    exact .inr (.inr (.inr (.inr (.inl ⟨rfl, rfl⟩))))
  · rename_i world
    cases h
    exact .inr (.inr (.inr (.inr (.inr ⟨world, rfl, rfl⟩))))
  · cases h

/-- The thread moves on: the new entries do to the daemon what was done to
it, and complete the connections that are no longer open. -/
theorem Server.Sound.advance (h : s.Sound A calls xattr d) {daemon : DaemonState σ}
    {running : Bool} {phase : Phase} {entries : List (Entry σ)} (fds : List Nat)
    (hreplay : replay A calls xattr s.daemon entries = some daemon) (hreads : phase.Consistent)
    (huses : s.phase.open?.toList.map Use.opened ++ uses entries =
      fds.flatMap fdUses ++ phase.open?.toList.map Use.opened)
    (hpos : ∀ fd ∈ phase.open?, 0 < fd) :
    Server.Sound A calls xattr d ⟨daemon, running, phase, s.log ++ entries⟩ where
  replays := (replay_append h.replays entries).trans hreplay
  reads := hreads
  orderly := by
    obtain ⟨before, hbefore, -⟩ := h.orderly
    refine ⟨before ++ fds, ?_, hpos⟩
    rw [uses_append, hbefore, List.append_assoc, huses, List.flatMap_append, List.append_assoc]

/-- Nothing is noted and no connection begins or ends. -/
theorem Server.Sound.stay (h : s.Sound A calls xattr d) {running : Bool} {phase : Phase}
    (hreads : phase.Consistent) (hopen : phase.open? = s.phase.open?) :
    Server.Sound A calls xattr d ⟨s.daemon, running, phase, s.log ++ []⟩ :=
  h.advance [] rfl hreads (by simp [hopen]) (by
    rw [hopen]
    exact h.orderly.choose_spec.2)

theorem acceptStep_sound (h : s.Sound A calls xattr d) (hphase : s.phase = .accepting)
    (result : AcceptResult) : (acceptStep s result).Sound A calls xattr d := by
  have hnone : Phase.top.open? = s.phase.open? := by rw [hphase]; rfl
  cases result with
  | client fd pid stack =>
    by_cases hfd : 0 < fd
    · rw [acceptStep, if_pos hfd]
      refine h.advance [] rfl ?_ ?_ ?_
      · rfl
      · simp [hphase, Phase.open?, Entry.use?]
      · simpa [Phase.open?] using hfd
    · rw [acceptStep, if_neg hfd]
      refine h.advance [fd] rfl ?_ ?_ ?_
      · trivial
      · simp [hphase, Phase.open?, Entry.use?, fdUses, hfd]
      · simp [Phase.open?]
  | again => exact h.stay trivial hnone
  | interrupted => exact h.stay trivial hnone
  | failed => exact h.stay trivial hnone

/-- Where the reader ends, the connection is what `handle_client_socket`
makes of it. -/
theorem handleClientSocket_passed {env : MessageEnv} {c : Connection} {passed : Passed}
    (hrun : Loop.run readerBody startReader c.reads = .inr (some passed)) :
    handleClientSocket A calls xattr env d c.pid c.stack c.reads =
      answerPassed A calls xattr env d c passed := by
  rw [handleClientSocket, hrun]
  rfl

theorem handleClientSocket_nothing {env : MessageEnv} {c : Connection}
    (hrun : Loop.run readerBody startReader c.reads = .inr none) :
    handleClientSocket A calls xattr env d c.pid c.stack c.reads = some (d, none) := by
  rw [handleClientSocket, hrun]

theorem readStep_sound (h : s.Sound A calls xattr d) {c : Connection} {r : Reader}
    (hphase : s.phase = .reading c r) {outcome : ReadResult} {env : MessageEnv} {s' : Server σ}
    (hstep : readStep A calls xattr s c r outcome env = some s') :
    s'.Sound A calls xattr d := by
  have hreads : Loop.run readerBody startReader c.reads = .inl r := by
    have hcons := h.reads
    rw [hphase] at hcons
    exact hcons
  have hopen : s.phase.open? = some c.fd := by rw [hphase]; rfl
  have hpos : 0 < c.fd := h.orderly.choose_spec.2 c.fd hopen
  have hnext : Loop.run readerBody startReader (c.reads ++ [outcome]) =
      Loop.run readerBody r [outcome] := Loop.run_append_inl hreads _
  unfold readStep at hstep
  dsimp only at hstep
  split at hstep
  · rename_i r' hbody
    cases hstep
    refine h.stay ?_ hopen.symm
    exact hnext.trans (Loop.run_cons_inl hbody)
  · rename_i hbody
    cases hstep
    refine h.advance [c.fd] ?_ ?_ ?_ ?_
    · simp only [replay, List.foldlM_cons, List.foldlM_nil, replayStep]
      rw [handleClientSocket_nothing (c := { c with reads := c.reads ++ [outcome] })
        (hnext.trans (Loop.run_cons_inr hbody))]
      rfl
    · trivial
    · simp [hphase, Phase.open?, Entry.use?, fdUses, hpos]
    · simp [Phase.open?]
  · rename_i passed hbody
    obtain ⟨⟨daemon, reply⟩, hanswer, hout⟩ := Option.bind_eq_some_iff.mp hstep
    cases hout
    refine h.advance [] ?_ ?_ ?_ ?_
    · simp only [replay, List.foldlM_cons, List.foldlM_nil, replayStep]
      rw [handleClientSocket_passed (c := { c with reads := c.reads ++ [outcome] })
        (hnext.trans (Loop.run_cons_inr hbody)), hanswer]
      rfl
    · trivial
    · simp [hphase, Phase.open?, Entry.use?]
    · simpa [Phase.open?] using hpos

theorem writeStep_sound (h : s.Sound A calls xattr d) {fd : Nat} {reply : List UInt8}
    {len : BitVec 64} {w : Writer} (hphase : s.phase = .sending fd reply len w)
    (o : WriteOutcome len.toNat) : (writeStep s fd reply len w o).Sound A calls xattr d := by
  have hopen : s.phase.open? = some fd := by rw [hphase]; rfl
  have hpos : 0 < fd := h.orderly.choose_spec.2 fd hopen
  unfold writeStep
  split
  · exact h.stay trivial hopen.symm
  · refine h.advance [fd] rfl ?_ ?_ ?_
    · trivial
    · simp [hphase, Phase.open?, Entry.use?, fdUses, hpos]
    · simp [Phase.open?]

theorem serverStep_sound (h : s.Sound A calls xattr d) {e : ServerEvent σ}
    (hstep : serverStep A calls xattr s e = some s') : s'.Sound A calls xattr d := by
  rcases serverStep_cases hstep with ⟨-, hphase, rfl⟩ | ⟨result, -, hphase, rfl⟩ |
    ⟨outcome, env, c, r, -, hphase, hread⟩ | ⟨count, blocked, fd, reply, len, w, o, -, hphase, rfl⟩ |
    ⟨-, rfl⟩ | ⟨world, -, rfl⟩
  · refine h.stay ?_ ?_
    · cases s.running <;> trivial
    · rw [hphase]
      cases s.running <;> rfl
  · exact acceptStep_sound h hphase result
  · exact readStep_sound h hphase hread
  · exact writeStep_sound h hphase o
  · exact ⟨h.replays, h.reads, h.orderly⟩
  · exact h.advance [] rfl h.reads (by simp [Entry.use?]) h.orderly.choose_spec.2

theorem Server.start_sound (d : DaemonState σ) : (Server.start d).Sound A calls xattr d :=
  ⟨rfl, trivial, [], rfl, by simp [Server.start, Phase.open?]⟩

/-- **One client at a time.** Over every run of the thread, in any
interleaving with the rest of the system: the daemon is in the state that
its log makes, in which each connection is served in one piece, by
`handle_client_socket`, when its last `read` returns; and the descriptors
are used one after the other, each closed once, before the next `accept`
(all but descriptor 0, which is not closed). -/
theorem server_sequential {evs : List (ServerEvent σ)}
    (hrun : serverRun A calls xattr (Server.start d) evs = some s) :
    replay A calls xattr d s.log = some s.daemon ∧
      ∃ fds : List Nat,
        uses s.log = fds.flatMap fdUses ++ s.phase.open?.toList.map Use.opened := by
  have hsound : s.Sound A calls xattr d :=
    Run.invariant (P := Server.Sound A calls xattr d) (Q := fun _ => True)
      (fun _ _ _ hs _ hstep => serverStep_sound hs hstep) (Server.start_sound d)
      (fun _ _ => trivial) hrun
  obtain ⟨fds, huses, -⟩ := hsound.orderly
  exact ⟨hsound.replays, fds, huses⟩

/-- A daemon that asks nobody, and a message for it. -/
def idleCalls : HostCalls Unit :=
  ⟨fun w _ _ _ => (w, opApproved), fun w _ => some (w, 0), fun w _ _ => some (w, 0)⟩

def idleDaemon : DaemonState Unit := ⟨(), ⟨zeros _, zeros _⟩, .empty⟩

def idleMessage : MessageEnv :=
  ⟨.calm, fun _ => (⟨zeros _, zeros _, zeros _⟩, zeros _), zeros _⟩

/-- A client sends three bytes and gets them back, then another one
connects. -/
def twoClients : List (ServerEvent Unit) :=
  [.check, .accept (.client 4 7 (zeros _)), .read (.data ⟨[1, 2, 3], by decide⟩) idleMessage,
    .write (some 3) false, .check, .accept (.client 4 8 (zeros _))]

theorem twoClients_sequential :
    ∃ s, serverRun (Aead.keyTag _ _) idleCalls (fun _ _ => none) (Server.start idleDaemon)
        twoClients = some s ∧
      ∃ fds : List Nat,
        uses s.log = fds.flatMap fdUses ++ s.phase.open?.toList.map Use.opened := by
  obtain ⟨s, hrun⟩ := Option.isSome_iff_exists.mp
    (show (serverRun (Aead.keyTag _ _) idleCalls (fun _ _ => none) (Server.start idleDaemon)
      twoClients).isSome = true by decide +kernel)
  exact ⟨s, hrun, (server_sequential hrun).2⟩

/-! ## §3 Stopping -/

/-- How many connections the log has. -/
def connections (log : List (Entry σ)) : Nat :=
  log.countP fun
    | .opened _ => true
    | _ => false

/-- The thread waits for one more client. -/
def Phase.awaited : Phase → Nat
  | .accepting => 1
  | _ => 0

/-- The peer has closed its end and there is nothing left to read. -/
def Eof : ReadResult → Prop
  | .data bytes => bytes.1 = []
  | _ => False

@[simp] theorem connections_append (log more : List (Entry σ)) :
    connections (log ++ more) = connections log + connections more := List.countP_append

/-- A thread that is to stop does not go back to `accept`, and a connection
it still opens is the one it was waiting for. -/
theorem serverStep_stopping {e : ServerEvent σ} (hstop : s.running = false)
    (hstep : serverStep A calls xattr s e = some s') :
    s'.running = false ∧
      connections s'.log + s'.phase.awaited ≤ connections s.log + s.phase.awaited := by
  rcases serverStep_cases hstep with ⟨-, hphase, rfl⟩ | ⟨result, -, hphase, rfl⟩ |
    ⟨outcome, env, c, r, -, hphase, hread⟩ | ⟨count, blocked, fd, reply, len, w, o, -, hphase, rfl⟩ |
    ⟨-, rfl⟩ | ⟨world, -, rfl⟩
  · simp [Server.goto, hstop, hphase, Phase.awaited, connections]
  · cases result with
    | client fd pid stack =>
      by_cases hfd : 0 < fd <;>
        simp [acceptStep, hfd, Server.goto, hstop, hphase, Phase.awaited, connections]
    | again => simp [acceptStep, Server.goto, hstop, hphase, Phase.awaited, connections]
    | interrupted => simp [acceptStep, Server.goto, hphase, Phase.awaited, connections]
    | failed => simp [acceptStep, Server.goto, hstop, hphase, Phase.awaited, connections]
  · unfold readStep at hread
    dsimp only at hread
    split at hread
    · cases hread
      simp [Server.goto, hstop, hphase, Phase.awaited, connections]
    · cases hread
      simp [Server.goto, hstop, hphase, Phase.awaited, connections]
    · obtain ⟨⟨daemon, reply⟩, -, hout⟩ := Option.bind_eq_some_iff.mp hread
      cases hout
      simp [Server.goto, hstop, hphase, Phase.awaited, connections]
  · unfold writeStep
    split <;> simp [Server.goto, hstop, hphase, Phase.awaited, connections]
  · exact ⟨rfl, le_refl _⟩
  · simp [Server.goto, hstop, connections]

/-- At the end of the stream the thread stays where it is. -/
theorem serverStep_eof {e : ServerEvent σ} {c : Connection} {r : Reader}
    (hphase : s.phase = .reading c r) (heof : ∀ outcome env, e = .read outcome env → Eof outcome)
    (hstep : serverStep A calls xattr s e = some s') :
    ∃ reads, s'.phase = .reading { c with reads := reads } r := by
  rcases serverStep_cases hstep with ⟨-, hother, -⟩ | ⟨result, -, hother, -⟩ |
    ⟨outcome, env, c', r', rfl, hsame, hread⟩ | ⟨_, _, _, _, _, _, _, -, hother, -⟩ |
    ⟨-, rfl⟩ | ⟨world, -, rfl⟩
  · rw [hphase] at hother
    cases hother
  · rw [hphase] at hother
    cases hother
  · rw [hphase] at hsame
    cases hsame
    have hend := heof outcome env rfl
    cases outcome with
    | data bytes =>
      rw [readStep, readerBody_eof r hend] at hread
      cases hread
      exact ⟨_, rfl⟩
    | again => cases hend
    | error => cases hend
  · rw [hphase] at hother
    cases hother
  · exact ⟨c.reads, hphase⟩
  · exact ⟨c.reads, hphase⟩

/-- **Stopping.** Once the thread is to stop, whatever happens: at most one
more client is let in, and only by an `accept` that was under way. But it
looks at `running` between connections only. If its client has closed the
connection without sending anything, it reads on at the end of the stream,
and is at this client forever. -/
theorem stop_bounded {evs : List (ServerEvent σ)} (hstop : s.running = false)
    (hrun : serverRun A calls xattr s evs = some s') :
    connections s'.log ≤ connections s.log + s.phase.awaited ∧
      ∀ c r, s.phase = .reading c r →
        (∀ outcome env, ServerEvent.read outcome env ∈ evs → Eof outcome) →
        ∃ reads, s'.phase = .reading { c with reads := reads } r := by
  constructor
  · have hbound := Run.invariant (Q := fun _ => True) (P := fun t : Server σ =>
        t.running = false ∧
          connections t.log + t.phase.awaited ≤ connections s.log + s.phase.awaited)
      (fun t t' e ht _ hstep => by
        obtain ⟨hrunning, hless⟩ := serverStep_stopping ht.1 hstep
        exact ⟨hrunning, hless.trans ht.2⟩)
      ⟨hstop, le_refl _⟩ (fun _ _ => trivial) hrun
    omega
  · intro c r hphase heof
    refine Run.invariant
      (Q := fun e : ServerEvent σ => ∀ outcome env, e = .read outcome env → Eof outcome)
      (P := fun t : Server σ => ∃ reads, t.phase = .reading { c with reads := reads } r)
      ?_ ⟨c.reads, hphase⟩ (fun e he outcome env heq => heof outcome env (heq ▸ he)) hrun
    rintro t t' e ⟨reads, ht⟩ hread hstep
    exact serverStep_eof (c := { c with reads := reads }) ht hread hstep

/-- Descriptor 4 is at the end of its stream when the thread is to stop. -/
def lingering : Server Unit :=
  ⟨idleDaemon, false, .reading ⟨4, 7, zeros _, []⟩ startReader, [.opened 4]⟩

theorem lingering_stays :
    ∃ s reads, serverRun (Aead.keyTag _ _) idleCalls (fun _ _ => none) lingering
        [.read (.data ⟨[], by decide⟩) idleMessage, .stop,
          .read (.data ⟨[], by decide⟩) idleMessage] = some s ∧
      s.phase = .reading ⟨4, 7, zeros _, reads⟩ startReader := by
  obtain ⟨s, hrun⟩ := Option.isSome_iff_exists.mp
    (show (serverRun (Aead.keyTag _ _) idleCalls (fun _ _ => none) lingering
      [.read (.data ⟨[], by decide⟩) idleMessage, .stop,
        .read (.data ⟨[], by decide⟩) idleMessage]).isSome = true by decide +kernel)
  obtain ⟨reads, hphase⟩ := (stop_bounded rfl hrun).2 _ _ rfl (by
    intro outcome env hmem
    simp only [List.mem_cons, List.not_mem_nil, or_false, reduceCtorEq, false_or,
      ServerEvent.read.injEq] at hmem
    rcases hmem with ⟨rfl, -⟩ | ⟨rfl, -⟩ <;> rfl)
  exact ⟨s, reads, hrun, hphase⟩

end

end Citadel.Daemon
