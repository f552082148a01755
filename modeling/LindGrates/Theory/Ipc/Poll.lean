import LindGrates.Theory.Ipc.Pipes
import LindGrates.Theory.Ipc.Turns

/-!
# Polling

`poll` is meant to report a descriptor as readable when reading from it would
not have to wait, and as writable when writing would not. Whether a reader is at
the end is decided by the write counter here and by the flag when reading, so
the two must agree unless there is something to read. A socket asked about both
directions is only looked at as a reader, and a socket asked about none is
reported as invalid. What is reported for more events then need not contain what
is reported for fewer.

## Main definitions

* `IpcState.endpoint`: What a descriptor is joined to.
* `PollAgrees`: What is reported agrees with reading and writing one byte.
* `PollFits`: The states and events for which it does.

## Theorems

* `poll_agrees_iff`: Polling reports what it should exactly in these cases.
* `read_readOne`, `write_writeOne`: The one byte is that of the calls.
* `poll_disagrees`: A socket that could be written to and is not reported.
-/

namespace LindGrates.Ipc

open RingBuffer PipeBuffer World Option IpcState

section Bits

theorem asks_or (a b c : BitVec 16) : asks (a ||| b) c = (asks a c || asks b c) := by
  have hor : (a ||| b) &&& c = 0#16 ↔ a &&& c = 0#16 ∧ b &&& c = 0#16 := by
    rw [BitVec.and_or_distrib_right, BitVec.or_eq_zero_iff]
  rw [asks, asks, asks, Bool.eq_iff_iff, Bool.or_eq_true, bne_iff_ne, bne_iff_ne, bne_iff_ne,
    ne_eq, hor]
  exact not_and_or

end Bits

namespace IpcState

variable {R : Type} [RingBuffer R]

/-- What reading one byte without waiting returns. -/
def readOne (s : IpcState R) (e : FDTableEntry) : Option Int :=
  match (s.readPipe e).bind (s.arcs[·]?) with
  | some p => (p.readTurn [0] true false true true).1
  | none => some (-9)

/-- What writing one byte without waiting returns. -/
def writeOne (s : IpcState R) (e : FDTableEntry) (x : UInt8) : Option Int :=
  match (s.writePipe e).bind (s.arcs[·]?) with
  | some p => if p.readRefs = 0 then some (-32) else (p.writeTurn [x] 0 true false none none).1
  | none => some (-9)

end IpcState

/-- What a descriptor of a pipe or a connected socket is joined to. -/
inductive Endpoint (R : Type)
  | reader (p : PipeBuffer R)
  | writer (p : PipeBuffer R)
  | socket (recv send : PipeBuffer R)

/-- What a descriptor is joined to. A socket that listens or is not connected is
    joined to nothing. -/
def IpcState.endpoint {R : Type} (s : IpcState R) (e : FDTableEntry) : Option (Endpoint R) :=
  if e.fdkind = ipcPipe then do
    let p ← (s.pipes e.underfd).bind (s.arcs[·]?)
    if isReadEnd (entryFlags e) then some (.reader p)
    else if isWriteEnd (entryFlags e) then some (.writer p)
    else none
  else if e.fdkind = ipcSocket then
    if s.listenPending e = none then do
      let sock ← s.sockets.sockets e.underfd
      let recv ← sock.recvpipe.bind (s.arcs[·]?)
      let send ← sock.sendpipe.bind (s.arcs[·]?)
      some (.socket recv send)
    else none
  else none

/-- Poll and reading without waiting agree about the end of a pipe. -/
def Steady {R : Type} [RingBuffer R] (p : PipeBuffer R) : Prop :=
  p.hasData = true ∨ (p.writeRefs = 0 ↔ p.eof = true)

/-- Writing to a pipe would have to wait. -/
def Stuck {R : Type} [RingBuffer R] (p : PipeBuffer R) : Prop :=
  p.hasSpace = false ∧ p.readRefs ≠ 0

/-- The events and states for which polling for `a`, and for `a` and `b`
    together, reports what it should. -/
def PollFits {R : Type} [RingBuffer R] (d : Endpoint R) (a b : BitVec 16) : Prop :=
  match d with
  | .reader p => (asks a pollIn = true → Steady p) ∧ asks a pollOut = false
  | .writer _ => asks a pollIn = false
  | .socket recv send =>
    (asks a pollIn = true → Steady recv) ∧
    (asks (a ||| b) pollIn = true →
      asks a pollOut = true ∨ asks b pollOut = true ∧ asks b pollIn = false → Stuck send) ∧
    ((asks a pollIn || asks a pollOut) = (asks b pollIn || asks b pollOut))

section Poll

variable {R : Type} [RingBuffer R]

/-- What is reported agrees with reading and writing one byte without waiting,
    and what is reported for `a` and for `b` is contained in what is reported for
    both. -/
structure PollAgrees (s : IpcState R) (e : FDTableEntry) (x : UInt8) (a b : BitVec 16) : Prop where
  read : asks a pollIn = true →
    ((asks (s.pipePollState e a) pollIn || asks (s.pipePollState e a) pollHup) = true ↔
      s.readOne e ≠ some (-11))
  write : asks a pollOut = true →
    ((asks (s.pipePollState e a) pollOut || asks (s.pipePollState e a) pollErr) = true ↔
      s.writeOne e x ≠ some (-11))
  left : s.pipePollState e (a ||| b) &&& s.pipePollState e a = s.pipePollState e a
  right : s.pipePollState e (a ||| b) &&& s.pipePollState e b = s.pipePollState e b

/-- What is reported for a reader: there is data, or no writer is left. -/
def readerEvents (data hungUp asked : Bool) : BitVec 16 :=
  if asked then if data then pollIn else if hungUp then pollHup else 0#16 else 0#16

/-- What is reported for a writer: there is room, or no reader is left. -/
def writerEvents (room broken asked : Bool) : BitVec 16 :=
  if asked then if room then pollOut else if broken then pollErr else 0#16 else 0#16

theorem pipeEvents_reader (p : PipeBuffer R) (m : BitVec 16) :
    pipeEvents p true m =
      readerEvents p.hasData (decide (p.writeRefs = 0)) (asks m pollIn) := by
  simp [pipeEvents, readerEvents]

theorem pipeEvents_writer (p : PipeBuffer R) (m : BitVec 16) :
    pipeEvents p false m =
      writerEvents p.hasSpace (decide (p.readRefs = 0)) (asks m pollOut) := by
  simp [pipeEvents, writerEvents]

def socketEvents (data hungUp room broken asksIn asksOut : Bool) : BitVec 16 :=
  if asksIn then readerEvents data hungUp true
  else if asksOut then writerEvents room broken true
  else pollNval

def Endpoint.events (d : Endpoint R) (m : BitVec 16) : BitVec 16 :=
  match d with
  | .reader p => readerEvents p.hasData (decide (p.writeRefs = 0)) (asks m pollIn)
  | .writer p => writerEvents p.hasSpace (decide (p.readRefs = 0)) (asks m pollOut)
  | .socket recv send =>
    socketEvents recv.hasData (decide (recv.writeRefs = 0)) send.hasSpace
      (decide (send.readRefs = 0)) (asks m pollIn) (asks m pollOut)

variable {s : IpcState R} {e : FDTableEntry} {d : Endpoint R}

omit [RingBuffer R] in
theorem endpoint_cases (h : s.endpoint e = some d) :
    (∃ p, d = .reader p ∧ e.fdkind = ipcPipe ∧ isReadEnd (entryFlags e) = true ∧
      (s.pipes e.underfd).bind (s.arcs[·]?) = some p) ∨
    (∃ p, d = .writer p ∧ e.fdkind = ipcPipe ∧ isReadEnd (entryFlags e) = false ∧
      isWriteEnd (entryFlags e) = true ∧ (s.pipes e.underfd).bind (s.arcs[·]?) = some p) ∨
    ∃ sock recv send, d = .socket recv send ∧ e.fdkind = ipcSocket ∧ s.listenPending e = none ∧
      s.sockets.sockets e.underfd = some sock ∧ sock.recvpipe.bind (s.arcs[·]?) = some recv ∧
      sock.sendpipe.bind (s.arcs[·]?) = some send := by
  rw [endpoint] at h
  split at h
  next hkind =>
    rcases bind_eq_some_iff.mp h with ⟨p, hp, hd⟩
    split at hd
    next hread => exact .inl ⟨p, (Option.some.inj hd).symm, hkind, hread, hp⟩
    rename_i hread
    split at hd
    next hwrite =>
      exact .inr (.inl ⟨p, (Option.some.inj hd).symm, hkind, Bool.eq_false_iff.mpr hread,
        hwrite, hp⟩)
    · cases hd
  · split at h
    next hkind =>
      split at h
      next hlisten =>
        rcases bind_eq_some_iff.mp h with ⟨sock, hsock, h⟩
        rcases bind_eq_some_iff.mp h with ⟨recv, hrecv, h⟩
        rcases bind_eq_some_iff.mp h with ⟨send, hsend, hd⟩
        exact .inr (.inr ⟨sock, recv, send, (Option.some.inj hd).symm, hkind, hlisten, hsock,
          hrecv, hsend⟩)
      · cases h
    · cases h

omit [RingBuffer R] in
theorem listenPending_pipe (hkind : e.fdkind = ipcPipe) : s.listenPending e = none := by
  rw [listenPending, if_neg]
  rw [hkind]
  exact pipe_ne_socket

theorem pipePollState_eq (h : s.endpoint e = some d) (m : BitVec 16) :
    s.pipePollState e m = d.events m := by
  rcases endpoint_cases h with ⟨p, rfl, hkind, hread, hp⟩ | ⟨p, rfl, hkind, hread, _, hp⟩ |
    ⟨sock, recv, send, rfl, hkind, hlisten, hsock, hrecv, hsend⟩
  · have hpoll : s.pollPipe e m = s.pipes e.underfd := if_pos hkind
    have hreader : pollsReader e m = true := (if_pos hkind).trans hread
    rw [pipePollState, listenPending_pipe hkind, hpoll, hp, hreader]
    exact pipeEvents_reader p m
  · have hpoll : s.pollPipe e m = s.pipes e.underfd := if_pos hkind
    have hreader : pollsReader e m = false := (if_pos hkind).trans hread
    rw [pipePollState, listenPending_pipe hkind, hpoll, hp, hreader]
    exact pipeEvents_writer p m
  · have hpipe : e.fdkind ≠ ipcPipe := by
      rw [hkind]
      exact pipe_ne_socket.symm
    have hreader : pollsReader e m = asks m pollIn := if_neg hpipe
    rw [pipePollState, hlisten, hreader, pollPipe, if_neg hpipe, if_pos hkind,
      hsock, Endpoint.events, socketEvents]
    by_cases hin : asks m pollIn = true
    · rw [if_pos hin, if_pos hin]
      rw [bind_some, hrecv, hin]
      exact (pipeEvents_reader recv m).trans (by rw [hin])
    rw [if_neg hin, if_neg hin]
    by_cases hout : asks m pollOut = true
    · rw [if_pos hout, if_pos hout]
      rw [bind_some, hsend, Bool.eq_false_iff.mpr hin]
      exact (pipeEvents_writer send m).trans (by rw [hout])
    · rw [if_neg hout, if_neg hout]
      rfl

def Endpoint.reads (d : Endpoint R) : Bool :=
  match d with
  | .reader p => p.hasData || p.eof
  | .writer _ => true
  | .socket recv _ => recv.hasData || recv.eof

def Endpoint.writes (d : Endpoint R) : Bool :=
  match d with
  | .reader _ => true
  | .writer p => p.hasSpace || decide (p.readRefs = 0)
  | .socket _ send => send.hasSpace || decide (send.readRefs = 0)

theorem steady_iff (p : PipeBuffer R) :
    Steady p ↔ p.hasData = true ∨ (decide (p.writeRefs = 0) = true ↔ p.eof = true) := by
  rw [decide_eq_true_iff, Steady]

theorem stuck_iff (p : PipeBuffer R) :
    Stuck p ↔ p.hasSpace = false ∧ decide (p.readRefs = 0) = false := by
  rw [decide_eq_false_iff_not, Stuck]

theorem socketEvents_read :
    ∀ data hungUp eof room broken aIn aOut : Bool,
      (aIn = true →
        (asks (socketEvents data hungUp room broken aIn aOut) pollIn ||
          asks (socketEvents data hungUp room broken aIn aOut) pollHup) = (data || eof)) ↔
      (aIn = true → data = true ∨ (hungUp = true ↔ eof = true)) := by
  decide

set_option synthInstance.maxSize 256 in
theorem socketEvents_write :
    ∀ data hungUp room broken aIn aOut bIn bOut : Bool,
      ((aOut = true →
        (asks (socketEvents data hungUp room broken aIn aOut) pollOut ||
          asks (socketEvents data hungUp room broken aIn aOut) pollErr) = (room || broken)) ∧
        socketEvents data hungUp room broken (aIn || bIn) (aOut || bOut) &&&
            socketEvents data hungUp room broken aIn aOut =
          socketEvents data hungUp room broken aIn aOut ∧
        socketEvents data hungUp room broken (aIn || bIn) (aOut || bOut) &&&
            socketEvents data hungUp room broken bIn bOut =
          socketEvents data hungUp room broken bIn bOut) ↔
      ((aIn || bIn) = true → aOut = true ∨ bOut = true ∧ bIn = false →
        room = false ∧ broken = false) ∧
        (aIn || aOut) = (bIn || bOut) := by
  decide

section Results

variable [LawfulRingBuffer R]

theorem readTurn_one_ne (p : PipeBuffer R) :
    (p.readTurn [0] true false true true).1 ≠ some (-11) ↔ (p.hasData || p.eof) = true := by
  have hone : ([0] : List UInt8).length = 1 := rfl
  have hdata : p.hasData = true ↔ 0 < len p.ring := by
    rw [hasData, isEmpty, Bool.not_eq_true', decide_eq_false_iff_not]
    omega
  rw [readTurn_eq (by decide), Bool.or_eq_true, hdata, hone]
  by_cases hlen : 0 < len p.ring
  · rw [if_pos (by omega)]
    refine iff_of_true (fun h => ?_) (.inl hlen)
    have := Option.some.inj h
    omega
  rw [if_neg (by omega), drained]
  cases p.eof with
  | true => exact iff_of_true (by decide) (.inr rfl)
  | false => exact iff_of_false (by decide) (by simpa using hlen)

theorem writeTurn_one_ne (p : PipeBuffer R) (x : UInt8) :
    (if p.readRefs = 0 then some (-32) else (p.writeTurn [x] 0 true false none none).1) ≠
      some (-11) ↔ (p.hasSpace || decide (p.readRefs = 0)) = true := by
  have hspace : p.hasSpace = true ↔ len p.ring < capacity p.ring := by
    have hle := LawfulRingBuffer.len_le p.ring
    rw [hasSpace, isFull, Bool.not_eq_true', decide_eq_false_iff_not]
    omega
  rw [Bool.or_eq_true, hspace, decide_eq_true_iff, writeTurn_one]
  by_cases hrefs : p.readRefs = 0
  · rw [if_pos hrefs]
    exact iff_of_true (by decide) (.inr hrefs)
  rw [if_neg hrefs, if_neg hrefs]
  by_cases hroom : len p.ring < capacity p.ring
  · rw [if_pos hroom]
    exact iff_of_true (by decide) (.inl hroom)
  · rw [if_neg hroom]
    exact iff_of_false (by decide) (not_or.mpr ⟨hroom, hrefs⟩)

theorem readOne_ne (h : s.endpoint e = some d) : s.readOne e ≠ some (-11) ↔ d.reads = true := by
  rcases endpoint_cases h with ⟨p, rfl, hkind, hread, hp⟩ | ⟨p, rfl, hkind, hread, _, hp⟩ |
    ⟨sock, recv, send, rfl, hkind, _, hsock, hrecv, hsend⟩
  · rw [readOne, readPipe, if_pos hkind, if_pos hread, hp]
    exact readTurn_one_ne p
  · rw [readOne, readPipe, if_pos hkind, if_neg (by rw [hread]; decide), bind_none]
    exact iff_of_true (fun h => absurd (Option.some.inj h) (by decide)) rfl
  · have hpipe : e.fdkind ≠ ipcPipe := by
      rw [hkind]
      exact pipe_ne_socket.symm
    rw [readOne, readPipe, if_neg hpipe, if_pos hkind, hsock, bind_some, hrecv]
    exact readTurn_one_ne recv

theorem writeOne_ne (h : s.endpoint e = some d) (x : UInt8) :
    s.writeOne e x ≠ some (-11) ↔ d.writes = true := by
  rcases endpoint_cases h with ⟨p, rfl, hkind, hread, hp⟩ | ⟨p, rfl, hkind, _, hwrite, hp⟩ |
    ⟨sock, recv, send, rfl, hkind, _, hsock, hrecv, hsend⟩
  · have hwrite : ¬ isWriteEnd (entryFlags e) = true := by
      intro hwrite
      rw [isReadEnd, beq_iff_eq] at hread
      rw [isWriteEnd, hread] at hwrite
      exact absurd hwrite (by decide)
    rw [writeOne, writePipe, if_pos hkind, if_neg hwrite, bind_none]
    exact iff_of_true (fun h => absurd (Option.some.inj h) (by decide)) rfl
  · rw [writeOne, writePipe, if_pos hkind, if_pos hwrite, hp]
    exact writeTurn_one_ne p x
  · have hpipe : e.fdkind ≠ ipcPipe := by
      rw [hkind]
      exact pipe_ne_socket.symm
    rw [writeOne, writePipe, if_neg hpipe, if_pos hkind, hsock, bind_some, hsend]
    exact writeTurn_one_ne send x

theorem pollAgrees_endpoint (h : s.endpoint e = some d) (x : UInt8) (a b : BitVec 16) :
    PollAgrees s e x a b ↔
      (asks a pollIn = true →
        (asks (d.events a) pollIn || asks (d.events a) pollHup) = d.reads) ∧
      (asks a pollOut = true →
        (asks (d.events a) pollOut || asks (d.events a) pollErr) = d.writes) ∧
      d.events (a ||| b) &&& d.events a = d.events a ∧
      d.events (a ||| b) &&& d.events b = d.events b := by
  simp only [← pipePollState_eq h, Bool.eq_iff_iff (b := d.reads), Bool.eq_iff_iff (b := d.writes),
    ← readOne_ne h, ← writeOne_ne h x]
  exact ⟨fun h => ⟨h.read, h.write, h.left, h.right⟩, fun h => ⟨h.1, h.2.1, h.2.2.1, h.2.2.2⟩⟩

/-- Polling reports what it should exactly for the states and events that fit. -/
theorem poll_agrees_iff (h : s.endpoint e = some d) (x : UInt8) (a b : BitVec 16) :
    PollAgrees s e x a b ↔ PollFits d a b := by
  rw [pollAgrees_endpoint h]
  cases d with
  | reader p =>
    simp only [Endpoint.events, Endpoint.reads, Endpoint.writes, PollFits, steady_iff, asks_or]
    generalize asks a pollIn = aIn, asks a pollOut = aOut, asks b pollIn = bIn, p.hasData = data,
      decide (p.writeRefs = 0) = hungUp, p.eof = eof
    revert aIn aOut bIn data hungUp eof
    decide
  | writer p =>
    simp only [Endpoint.events, Endpoint.reads, Endpoint.writes, PollFits, asks_or]
    generalize asks a pollIn = aIn, asks a pollOut = aOut, asks b pollOut = bOut,
      p.hasSpace = room, decide (p.readRefs = 0) = broken
    revert aIn aOut bOut room broken
    decide
  | socket =>
    simp only [Endpoint.events, Endpoint.reads, Endpoint.writes, PollFits, steady_iff,
      stuck_iff, asks_or]
    exact and_congr (socketEvents_read _ _ _ _ _ _ _) (socketEvents_write _ _ _ _ _ _ _ _)

end Results

section Handlers

variable {T : Type} [ManagedTables T] [LawfulManagedTables T] {w : World T R} {cage fd : Nat}

/-- What a nonblocking descriptor gives to a caller that asks for one byte. -/
theorem read_readOne (hw : Idle w) (he : w.ipcEntry (cage, fd) = some e)
    (hflag : has (entryFlags e) oNonblock = true) (answer : Int) :
    ∃ w' mem, w.read cage fd [0] false true true answer = .ok ((w.ipc.readOne e, w'), mem) := by
  rw [World.read, lookupIpcFd_idle hw, he, readOne]
  dsimp only
  rw [hflag]
  rcases w.ipc.readPipe e with _ | arc
  · exact ⟨_, _, rfl⟩
  dsimp only [bind_some]
  cases w.ipc.arcs[arc]? with
  | none | some => exact ⟨_, _, rfl⟩

/-- What a nonblocking descriptor answers to a caller that gives it one byte. -/
theorem write_writeOne (hw : Idle w) (he : w.ipcEntry (cage, fd) = some e)
    (hflag : has (entryFlags e) oNonblock = true) (x : UInt8) (answer : Int) :
    ∃ w', w.write cage fd [x] false none none answer = .ok (w.ipc.writeOne e x, w') := by
  rw [World.write, lookupIpcFd_idle hw, he, writeOne]
  dsimp only
  rw [hflag]
  rcases w.ipc.writePipe e with _ | arc
  · exact ⟨_, rfl⟩
  dsimp only [bind_some]
  rcases w.ipc.arcs[arc]? with _ | p
  · exact ⟨_, rfl⟩
  dsimp only
  by_cases hrefs : p.readRefs = 0
  · rw [if_pos hrefs, if_pos hrefs]
    exact ⟨_, rfl⟩
  · rw [if_neg hrefs, if_neg hrefs]
    exact ⟨_, rfl⟩

end Handlers

end Poll

/-- A connected pair of sockets, and one byte for the first of them. -/
def filledRun : List Call :=
  [.socketpair 1 afUnix 1#32, .write 1 4 [7] false none none 0]

/-- The first socket has something to read. -/
def pairFilled (w : World (MapTables 16) QueueRing) : Bool :=
  match (w.look (1, 3)).bind w.ipc.endpoint with
  | some (.socket recv _) => recv.hasData
  | _ => false

theorem poll_agrees_filledRun :
    ∃ w : World (MapTables 16) QueueRing,
      Runs Initial World.step (fun w call => Promised w call = true) w ∧
      ∃ e recv send, w.look (1, 3) = some e ∧ w.ipc.endpoint e = some (.socket recv send) ∧
        recv.hasData = true ∧ PollAgrees w.ipc e 9 pollIn (pollIn ||| pollHup) := by
  have := lawful_queueRing
  have hrun : ∃ w : World (MapTables 16) QueueRing,
      Runs Initial World.step (fun w call => Promised w call = true) w ∧ pairFilled w = true :=
    exists_runs_replay filledRun initial_emptyTables (by decide +kernel)
  rcases hrun with ⟨w, hw, hfilled⟩
  rw [pairFilled] at hfilled
  split at hfilled
  next recv send hend =>
    rcases bind_eq_some_iff.mp hend with ⟨e, he, hend⟩
    have hfits : PollFits (.socket recv send) pollIn (pollIn ||| pollHup) :=
      ⟨fun _ => .inl hfilled, fun _ h => absurd h (by decide), by decide⟩
    exact ⟨w, hw, e, recv, send, he, hend, hfilled, (poll_agrees_iff hend 9 _ _).mpr hfits⟩
  · cases hfilled

/-- A new pair of sockets takes a byte at once, and so `poll` says if it is asked
    about writing only. -/
theorem poll_disagrees :
    ∃ w : World (MapTables 16) QueueRing,
      Runs Initial World.step (fun w call => Promised w call = true) w ∧
      ∃ e, w.look (1, 3) = some e ∧ (w.ipc.endpoint e).isSome = true ∧
        w.ipc.writeOne e 7 = some 1 ∧ w.ipc.pipePollState e pollOut = pollOut ∧
        w.ipc.pipePollState e (pollIn ||| pollOut) = 0#16 :=
  exists_runs_replay [.socketpair 1 afUnix 1#32] initial_emptyTables (by decide +kernel)

end LindGrates.Ipc
