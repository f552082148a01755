import LindGrates.Base.Tally
import LindGrates.Theory.Ipc.Flags
import LindGrates.Theory.Ipc.Moves

/-!
# Tidy Registries

What every state satisfies, however the counters stand: numbers that are in use
are below the next one to be given out, no two pipes share a buffer, the pipes
of sockets are not those made by `pipe`, and a number kept for an internet
socket belongs to a socket nobody has a descriptor for.

## Main definitions

* `Registered`, `Named`: The registries by themselves, and descriptors with them.
* `Tidy`: Both.
* `Recounted`, `Grows`: The ways in which the registries change.

## Theorems

* `closeHandler_eq_lower`: The close handlers undo what a duplicate counts.
* `tidy_move`, `tidy_moves`: Moves keep the registries tidy.
-/

namespace LindGrates.Ipc

open Function List IpcState Nat

section Update

variable {α β : Type} [DecidableEq α] {f : α → Option β} {a x : α} {y : β}

theorem of_update_some {b : β} (h : update f a (some b) x = some y) :
    f x = some y ∨ x = a ∧ y = b := by
  rw [update_apply] at h
  split at h
  next hx => exact .inr ⟨hx, (Option.some.inj h).symm⟩
  · exact .inl h

theorem of_update_none (h : update f a none x = some y) : f x = some y := by
  rw [update_apply] at h
  split at h
  · cases h
  · exact h

end Update

variable {R : Type}

/-- A buffer that is in use, but not for a pipe. -/
def Apart (s : IpcState R) (a : Nat) : Prop :=
  a < s.arcs.length ∧ ∀ id, s.pipes id ≠ some a

structure Registered (limit : Nat) (s : IpcState R) : Prop where
  pipe_lt : ∀ id a, s.pipes id = some a → id < s.nextPipeId ∧ a < s.arcs.length
  pipe_inj : ∀ id id' a, s.pipes id = some a → s.pipes id' = some a → id = id'
  socket_lt : ∀ id sock, s.sockets.sockets id = some sock → id < s.sockets.nextSocketId
  send : ∀ id sock a, s.sockets.sockets id = some sock → sock.sendpipe = some a → Apart s a
  recv : ∀ id sock a, s.sockets.sockets id = some sock → sock.recvpipe = some a → Apart s a
  queued : ∀ addr conn, conn ∈ s.sockets.pendingConnections addr →
    Apart s conn.pipeToListener ∧ Apart s conn.pipeToConnector
  inet : ∀ k id, s.pendingInet k = some id → id < s.sockets.nextSocketId ∧
    ∀ sock, s.sockets.sockets id = some sock → sock.sendpipe = none ∧ sock.recvpipe = none
  inet_inj : ∀ k k' id, s.pendingInet k = some id → s.pendingInet k' = some id → k = k'
  inet_lt : ∀ k id, s.pendingInet k = some id → k.2 < limit
  pipe_some : ∀ id, id < s.nextPipeId → s.pipes id ≠ none

/-- The entry is an end of a pipe, one or the other. -/
def IsEnd (e : FDTableEntry) : Prop :=
  isReadEnd (entryFlags e) = true ∨ isWriteEnd (entryFlags e) = true

structure Named (look : Nat × Nat → Option FDTableEntry) (s : IpcState R) : Prop where
  finite : FinitelyMany look
  pipe : ∀ k e, look k = some e → e.fdkind = ipcPipe → e.underfd < s.nextPipeId ∧ IsEnd e
  socket : ∀ k e, look k = some e → e.fdkind = ipcSocket →
    e.underfd < s.sockets.nextSocketId ∧ ∀ j, s.pendingInet j ≠ some e.underfd

/-- The registries are tidy and descriptors refer to what there is. -/
structure Tidy (limit : Nat) (v : View R) : Prop where
  reg : Registered limit v.ipc
  named : Named v.look v.ipc

section Recount

/-- Only buffers change, one by one. -/
def Recounted (s s' : IpcState R) : Prop :=
  ∃ arcs, s' = { s with arcs := arcs } ∧ arcs.length = s.arcs.length

variable {limit : Nat} {s s' s'' : IpcState R}

theorem Recounted.trans (h1 : Recounted s s') (h2 : Recounted s' s'') : Recounted s s'' := by
  rcases h1 with ⟨arcs1, rfl, hlen1⟩
  rcases h2 with ⟨arcs2, rfl, hlen2⟩
  exact ⟨arcs2, rfl, hlen2.trans hlen1⟩

section

variable (s : IpcState R)

theorem recounted_modifyArc? (o : Option Nat)
    (f : PipeBuffer R → PipeBuffer R) : Recounted s (s.modifyArc? o f) := by
  cases o with
  | none => exact ⟨s.arcs, rfl, rfl⟩
  | some a => exact ⟨s.arcs.modify a f, rfl, length_modify ..⟩

theorem recounted_raise (b : RefBump) : Recounted s (s.raise b) :=
  (recounted_modifyArc? s _ _).trans (recounted_modifyArc? _ _ _)

theorem recounted_lower (b : RefBump) : Recounted s (s.lower b) :=
  (recounted_modifyArc? s _ _).trans (recounted_modifyArc? _ _ _)

/-- The close handlers count down exactly what a duplicate counts up. -/
theorem closeHandler_eq_lower (e : FDTableEntry) : s.closeHandler e = s.lower (s.refBump e) := by
  rw [closeHandler, refBump]
  split
  · rw [pipeCloseHandler]
    split <;> rfl
  split
  · rw [socketCloseHandler]
    cases s.sockets.sockets e.underfd with
    | none | some => rfl
  · rfl

theorem recounted_closeHandler (e : FDTableEntry) : Recounted s (s.closeHandler e) := by
  rw [closeHandler_eq_lower]
  exact recounted_lower s _

end

theorem Recounted.registered (h : Recounted s s') (hs : Registered limit s) :
    Registered limit s' := by
  rcases h with ⟨arcs, rfl, hlen⟩
  have hapart : ∀ a, Apart s a → Apart { s with arcs := arcs } a := by
    rintro a ⟨hlt, hne⟩
    exact ⟨hlen ▸ hlt, hne⟩
  refine ⟨fun id a h => ?_, hs.pipe_inj, hs.socket_lt, fun id sock a h ha => ?_,
    fun id sock a h ha => ?_, fun addr conn h => ?_, hs.inet, hs.inet_inj, hs.inet_lt,
    hs.pipe_some⟩
  · rw [hlen]
    exact hs.pipe_lt id a h
  · exact hapart a (hs.send id sock a h ha)
  · exact hapart a (hs.recv id sock a h ha)
  · exact ⟨hapart _ (hs.queued addr conn h).1, hapart _ (hs.queued addr conn h).2⟩

end Recount

section Registries

variable {limit : Nat} {s s' : IpcState R}

/-- The registries grow, the pipes made by `pipe` apart. Sockets and queues
    refer to buffers they could refer to before and to new ones. -/
structure Grows (s s' : IpcState R) : Prop where
  length : s.arcs.length ≤ s'.arcs.length
  pipes : s'.pipes = s.pipes
  nextPipeId : s'.nextPipeId = s.nextPipeId
  nextSocketId : s.sockets.nextSocketId ≤ s'.sockets.nextSocketId
  socket_lt : ∀ id sock, s'.sockets.sockets id = some sock → id < s'.sockets.nextSocketId
  send : ∀ id sock a, s'.sockets.sockets id = some sock → sock.sendpipe = some a →
    Apart s a ∨ s.arcs.length ≤ a ∧ a < s'.arcs.length
  recv : ∀ id sock a, s'.sockets.sockets id = some sock → sock.recvpipe = some a →
    Apart s a ∨ s.arcs.length ≤ a ∧ a < s'.arcs.length
  queued : ∀ addr conn, conn ∈ s'.sockets.pendingConnections addr →
    (Apart s conn.pipeToListener ∧ Apart s conn.pipeToConnector) ∨
    conn.pipeToListener = s.arcs.length ∧ conn.pipeToConnector = s.arcs.length + 1 ∧
      s.arcs.length + 1 < s'.arcs.length
  inet : ∀ k id, s'.pendingInet k = some id → s.pendingInet k = some id ∧
    ∀ sock, s'.sockets.sockets id = some sock → sock.sendpipe = none ∧ sock.recvpipe = none

theorem Grows.registered (h : Grows s s') (hs : Registered limit s) : Registered limit s' := by
  have hold : ∀ a, Apart s a → Apart s' a := by
    rintro a ⟨hlt, hne⟩
    exact ⟨lt_of_lt_of_le hlt h.length, fun id => h.pipes ▸ hne id⟩
  have hnew : ∀ a, s.arcs.length ≤ a → a < s'.arcs.length → Apart s' a := by
    intro a hle hlt
    refine ⟨hlt, fun id hid => ?_⟩
    rw [h.pipes] at hid
    exact absurd (hs.pipe_lt id a hid).2 (by omega)
  refine ⟨fun id a hp => ?_, fun id id' a hp hp' => ?_, h.socket_lt, fun id sock a hsock ha => ?_,
    fun id sock a hsock ha => ?_, fun addr conn hc => ?_, fun k id hk => ?_,
    fun k k' id hk hk' => ?_, fun k id hk => hs.inet_lt k id (h.inet k id hk).1, ?_⟩
  · rw [h.pipes] at hp
    rw [h.nextPipeId]
    exact ⟨(hs.pipe_lt id a hp).1, lt_of_lt_of_le (hs.pipe_lt id a hp).2 h.length⟩
  · rw [h.pipes] at hp hp'
    exact hs.pipe_inj id id' a hp hp'
  · rcases h.send id sock a hsock ha with ha | ⟨hle, hlt⟩
    · exact hold a ha
    · exact hnew a hle hlt
  · rcases h.recv id sock a hsock ha with ha | ⟨hle, hlt⟩
    · exact hold a ha
    · exact hnew a hle hlt
  · rcases h.queued addr conn hc with ⟨hl, hr⟩ | ⟨hl, hr, hlt⟩
    · exact ⟨hold _ hl, hold _ hr⟩
    · exact ⟨hnew _ (by omega) (by omega), hnew _ (by omega) (by omega)⟩
  · exact ⟨lt_of_lt_of_le (hs.inet k id (h.inet k id hk).1).1 h.nextSocketId,
      (h.inet k id hk).2⟩
  · exact hs.inet_inj k k' id (h.inet k id hk).1 (h.inet k' id hk').1
  · rw [h.pipes, h.nextPipeId]
    exact hs.pipe_some

theorem length_arcs_of_keeps (h : Keeps s s') : s'.arcs.length = s.arcs.length := by
  have := congrArg List.length h.counts
  rwa [length_map, length_map] at this

/-- The registries grow if every socket has the pipes it had or is given others,
    which no socket has whose number is kept for an internet socket. -/
theorem grows_of_sockets (hs : Registered limit s) (hlen : s.arcs.length ≤ s'.arcs.length)
    (hpipes : s'.pipes = s.pipes) (hid : s'.nextPipeId = s.nextPipeId)
    (hnext : s.sockets.nextSocketId ≤ s'.sockets.nextSocketId)
    (hsock : ∀ id sock, s'.sockets.sockets id = some sock →
      (∃ sock0, s.sockets.sockets id = some sock0 ∧ sock.sendpipe = sock0.sendpipe ∧
        sock.recvpipe = sock0.recvpipe) ∨
      id < s'.sockets.nextSocketId ∧
        (∀ a, sock.sendpipe = some a ∨ sock.recvpipe = some a →
          Apart s a ∨ s.arcs.length ≤ a ∧ a < s'.arcs.length) ∧
        ∀ k, s.pendingInet k = some id → sock.sendpipe = none ∧ sock.recvpipe = none)
    (hqueued : ∀ addr conn, conn ∈ s'.sockets.pendingConnections addr →
      (Apart s conn.pipeToListener ∧ Apart s conn.pipeToConnector) ∨
      conn.pipeToListener = s.arcs.length ∧ conn.pipeToConnector = s.arcs.length + 1 ∧
        s.arcs.length + 1 < s'.arcs.length)
    (hinet : ∀ k id, s'.pendingInet k = some id → s.pendingInet k = some id) : Grows s s' := by
  refine ⟨hlen, hpipes, hid, hnext, fun id sock h => ?_, fun id sock a h ha => ?_,
    fun id sock a h ha => ?_, hqueued, fun k id hk => ⟨hinet k id hk, fun sock h => ?_⟩⟩
  all_goals rcases hsock id sock h with ⟨sock0, h0, hsend, hrecv⟩ | ⟨hlt, hends, hnone⟩
  · exact lt_of_lt_of_le (hs.socket_lt id sock0 h0) hnext
  · exact hlt
  · exact .inl (hs.send id sock0 a h0 (hsend ▸ ha))
  · exact hends a (.inl ha)
  · exact .inl (hs.recv id sock0 a h0 (hrecv ▸ ha))
  · exact hends a (.inr ha)
  · rw [hsend, hrecv]
    exact (hs.inet k id (hinet k id hk)).2 sock0 h0
  · exact hnone k (hinet k id hk)

theorem Keeps.grows (h : Keeps s s') (hs : Registered limit s) : Grows s s' := by
  refine grows_of_sockets hs (le_of_eq (length_arcs_of_keeps h).symm) h.pipes h.nextPipeId
    h.nextSocketId (fun id sock hsock => ?_)
    (fun addr conn hc => .inl (hs.queued addr conn ((h.queues addr).subset hc))) h.inet
  rcases h.sockets id sock hsock with hsock | ⟨_, hlt, hsend, hrecv⟩
  · exact .inl hsock
  refine .inr ⟨hlt, fun a ha => ?_, fun _ _ => ⟨hsend, hrecv⟩⟩
  rw [hsend, hrecv] at ha
  rcases ha with ha | ha <;> cases ha

theorem registered_trackInet (hs : Registered limit s) (cage : Nat) {fd : Nat}
    (hfd : fd < limit) (socktype : BitVec 32) :
    Registered limit (s.trackInet cage socktype fd) := by
  -- The socket is new: nothing is known by its number yet.
  have hsock : ∀ id sock, (s.trackInet cage socktype fd).sockets.sockets id = some sock →
      s.sockets.sockets id = some sock ∨
      id = s.sockets.nextSocketId ∧ sock.sendpipe = none ∧ sock.recvpipe = none := by
    intro id sock h
    rcases of_update_some h with h | ⟨hid, rfl⟩
    · exact .inl h
    · exact .inr ⟨hid, rfl, rfl⟩
  have hinet : ∀ k id, (s.trackInet cage socktype fd).pendingInet k = some id →
      s.pendingInet k = some id ∨ k = (cage, asU64 fd) ∧ id = s.sockets.nextSocketId :=
    fun _ _ => of_update_some
  refine ⟨hs.pipe_lt, hs.pipe_inj, fun id sock h => ?_, fun id sock a h ha => ?_,
    fun id sock a h ha => ?_, hs.queued, fun k id h => ?_, fun k k' id h h' => ?_,
    fun k id h => ?_, hs.pipe_some⟩
  · rcases hsock id sock h with h | ⟨rfl, _⟩
    · exact lt_succ_of_lt (hs.socket_lt id sock h)
    · exact lt_succ_self _
  · rcases hsock id sock h with h | ⟨_, hsend, _⟩
    · exact hs.send id sock a h ha
    · rw [hsend] at ha
      cases ha
  · rcases hsock id sock h with h | ⟨_, _, hrecv⟩
    · exact hs.recv id sock a h ha
    · rw [hrecv] at ha
      cases ha
  · have hlt : id < s.sockets.nextSocketId + 1 := by
      rcases hinet k id h with h | ⟨_, rfl⟩
      · exact lt_succ_of_lt (hs.inet k id h).1
      · exact lt_succ_self _
    refine ⟨hlt, fun sock h' => ?_⟩
    rcases hsock id sock h' with h' | ⟨_, hnone⟩
    · rcases hinet k id h with h | ⟨_, rfl⟩
      · exact (hs.inet k id h).2 sock h'
      · exact absurd (hs.socket_lt _ sock h') (lt_irrefl _)
    · exact hnone
  · rcases hinet k id h with h | ⟨rfl, rfl⟩
    · rcases hinet k' id h' with h' | ⟨_, rfl⟩
      · exact hs.inet_inj k k' id h h'
      · exact absurd (hs.inet k _ h).1 (lt_irrefl _)
    rcases hinet k' _ h' with h' | ⟨rfl, _⟩
    · exact absurd (hs.inet k' _ h').1 (lt_irrefl _)
    · rfl
  · rcases hinet k id h with h | ⟨rfl, _⟩
    · exact hs.inet_lt k id h
    have : asU64 (fd : Int) ≤ fd := by
      rw [asU64]
      omega
    exact lt_of_le_of_lt this hfd

def acceptedSocket (s : IpcState R) (listener : Nat) (conn : PendingConnection) : SocketInfo :=
  { domain := ((s.sockets.sockets listener).map SocketInfo.domain).getD afUnix
    socktype := ((s.sockets.sockets listener).map SocketInfo.socktype).getD sockStream
    state := .connected
    localAddr := none
    remoteAddr := some conn.remoteAddr
    sendpipe := some conn.pipeToConnector
    recvpipe := some conn.pipeToListener }

theorem sublist_take {queues : Str → List PendingConnection} {addr : Str}
    {conn : PendingConnection} {rest : List PendingConnection} (h : queues addr = conn :: rest)
    (addr' : Str) : (update queues addr rest addr').Sublist (queues addr') := by
  rw [update_apply]
  split
  next haddr =>
    rw [haddr, h]
    exact sublist_cons_self ..
  · exact List.Sublist.refl _

theorem sockets_take (s : IpcState R) (addr : Str) (rest : List PendingConnection)
    (listener : Nat) (conn : PendingConnection) :
    ((s.leaveQueue addr rest).acceptSocket listener conn).sockets.sockets =
      update s.sockets.sockets s.sockets.nextSocketId
        (some (acceptedSocket s listener conn)) := by
  simp only [acceptSocket, leaveQueue, withSockets,
    SocketRegistry.modifySocket, SocketRegistry.createSocket, update_self,
    Option.map_some, update_idem]
  rfl

theorem grows_take (hs : Registered limit s) {addr : Str} {conn : PendingConnection}
    {rest : List PendingConnection} (hqueue : s.sockets.pendingConnections addr = conn :: rest)
    (listener : Nat) : Grows s ((s.leaveQueue addr rest).acceptSocket listener conn) := by
  have hq := hs.queued addr conn (by rw [hqueue]; exact mem_cons_self ..)
  refine grows_of_sockets hs (le_refl _) rfl rfl (le_succ _) (fun id sock h => ?_)
    (fun addr' conn' h => .inl ?_) fun _ _ hk => hk
  · rw [sockets_take] at h
    rcases of_update_some h with h | ⟨rfl, rfl⟩
    · exact .inl ⟨sock, h, rfl, rfl⟩
    refine .inr ⟨lt_succ_self _, ?_, fun k hk => absurd (hs.inet k _ hk).1 (lt_irrefl _)⟩
    rintro a (ha | ha)
    · cases ha
      exact .inl hq.2
    · cases ha
      exact .inl hq.1
  · change conn' ∈ update s.sockets.pendingConnections addr rest addr' at h
    rw [update_apply] at h
    split at h
    · exact hs.queued addr conn' (by rw [hqueue]; exact mem_cons_of_mem _ h)
    · exact hs.queued addr' conn' h

variable [RingBuffer R]

theorem grows_joinQueue (hs : Registered limit s) {id : Nat}
    (hinet : ∀ k, s.pendingInet k ≠ some id) (target : Str) : Grows s (s.joinQueue id target) := by
  have hlen : (s.joinQueue id target).arcs.length = s.arcs.length + 2 := by
    change (s.arcs ++ [_, _]).length = _
    rw [length_append]
    rfl
  refine grows_of_sockets hs (by omega) rfl rfl (le_refl _) (fun id' sock h => ?_)
    (fun addr conn h => ?_) fun _ _ hk => hk
  · change update s.sockets.sockets id _ id' = some sock at h
    rw [update_apply] at h
    split at h
    next hid =>
      rcases Option.map_eq_some_iff.mp h with ⟨sock0, h0, rfl⟩
      rw [hid]
      refine .inr ⟨hs.socket_lt id sock0 h0, ?_, fun k hk => absurd hk (hinet k)⟩
      rintro a (ha | ha)
      · cases ha
        exact .inr ⟨le_refl _, by omega⟩
      · cases ha
        exact .inr ⟨by omega, by omega⟩
    · exact .inl ⟨sock, h, rfl, rfl⟩
  · change conn ∈ update s.sockets.pendingConnections target _ addr at h
    rw [update_apply] at h
    split at h
    · rcases mem_append.mp h with h | h
      · exact .inl (hs.queued target conn h)
      · rw [mem_singleton.mp h]
        exact .inr ⟨rfl, rfl, by omega⟩
    · exact .inl (hs.queued addr conn h)

theorem sockets_createSocketpair (s : IpcState R) (domain socktype : BitVec 32) :
    (s.createSocketpair domain socktype).sockets.sockets =
      update (update s.sockets.sockets s.sockets.nextSocketId
        (some (attached ⟨domain, socktype, .notConnected, none, none, none, none⟩
          s.arcs.length (s.arcs.length + 1)))) (s.sockets.nextSocketId + 1)
        (some (attached ⟨domain, socktype, .notConnected, none, none, none, none⟩
          (s.arcs.length + 1) s.arcs.length)) := by
  have hne : s.sockets.nextSocketId ≠ s.sockets.nextSocketId + 1 := by omega
  simp only [createSocketpair, withSockets, SocketRegistry.modifySocket,
    SocketRegistry.createSocket, update_self, update_of_ne hne,
    update_of_ne hne.symm, Option.map_some]
  funext id
  by_cases h2 : id = s.sockets.nextSocketId + 1
  · rw [h2, update_self, update_self]
  rw [update_of_ne h2, update_of_ne h2]
  by_cases h1 : id = s.sockets.nextSocketId
  · rw [h1, update_self, update_self]
  · rw [update_of_ne h1, update_of_ne h2, update_of_ne h1, update_of_ne h1]

theorem grows_createSocketpair (hs : Registered limit s) (socktype : BitVec 32) :
    Grows s (s.createSocketpair afUnix socktype) := by
  have hlen : (s.createSocketpair afUnix socktype).arcs.length = s.arcs.length + 2 := by
    change (s.arcs ++ [_, _]).length = _
    rw [length_append]
    rfl
  refine grows_of_sockets hs (by omega) rfl rfl (le_add_right _ 2) (fun id sock h => ?_)
    (fun addr conn h => .inl (hs.queued addr conn h)) fun _ _ hk => hk
  rw [sockets_createSocketpair] at h
  rw [hlen]
  -- The ends are the two new buffers, and neither number was given out before.
  rcases of_update_some h with h | ⟨rfl, rfl⟩
  · rcases of_update_some h with h | ⟨rfl, rfl⟩
    · exact .inl ⟨sock, h, rfl, rfl⟩
    refine .inr ⟨lt_succ_of_lt (lt_succ_self _), ?_,
      fun k hk => absurd (hs.inet k _ hk).1 (by omega)⟩
    rintro a (ha | ha) <;> cases ha <;> exact .inr (by omega)
  · refine .inr ⟨lt_succ_self _, ?_, fun k hk => absurd (hs.inet k _ hk).1 (by omega)⟩
    rintro a (ha | ha) <;> cases ha <;> exact .inr (by omega)

theorem registered_newPipe (hs : Registered limit s) : Registered limit s.newPipe := by
  have hlen : s.newPipe.arcs.length = s.arcs.length + 1 := by
    change (s.arcs ++ [_]).length = _
    rw [length_append]
    rfl
  have hpipes : ∀ id a, s.newPipe.pipes id = some a →
      s.pipes id = some a ∨ id = s.nextPipeId ∧ a = s.arcs.length := fun _ _ => of_update_some
  have hapart : ∀ a, Apart s a → Apart s.newPipe a := by
    rintro a ⟨hlt, hne⟩
    refine ⟨by omega, fun id hid => ?_⟩
    rcases hpipes id a hid with h | ⟨_, rfl⟩
    · exact hne id h
    · omega
  refine ⟨fun id a h => ?_, fun id id' a h h' => ?_, hs.socket_lt,
    fun id sock a h ha => hapart a (hs.send id sock a h ha),
    fun id sock a h ha => hapart a (hs.recv id sock a h ha),
    fun addr conn h => ⟨hapart _ (hs.queued addr conn h).1, hapart _ (hs.queued addr conn h).2⟩,
    hs.inet, hs.inet_inj, hs.inet_lt, fun id hid => ?_⟩
  · change id < s.nextPipeId + 1 ∧ _
    rcases hpipes id a h with h | ⟨rfl, rfl⟩
    · have := hs.pipe_lt id a h
      omega
    · omega
  · rcases hpipes id a h with h | ⟨rfl, rfl⟩
    · rcases hpipes id' a h' with h' | ⟨_, rfl⟩
      · exact hs.pipe_inj id id' a h h'
      · exact absurd (hs.pipe_lt id _ h).2 (lt_irrefl _)
    rcases hpipes id' _ h' with h' | ⟨rfl, _⟩
    · exact absurd (hs.pipe_lt id' _ h').2 (lt_irrefl _)
    · rfl
  · change update s.pipes s.nextPipeId (some s.arcs.length) id ≠ none
    rw [update_apply]
    split
    · exact Option.some_ne_none _
    next hne => exact hs.pipe_some id (lt_of_le_of_ne (le_of_lt_succ hid) hne)

end Registries

section Names

variable {look : Nat × Nat → Option FDTableEntry} {s s' : IpcState R}

theorem Recounted.named (h : Recounted s s') (hn : Named look s) : Named look s' := by
  rcases h with ⟨arcs, rfl, _⟩
  exact ⟨hn.finite, hn.pipe, hn.socket⟩

/-- Names stay valid when the registries grow. A number is kept only for an
    internet socket it was kept for before, or for a new one. -/
theorem Named.mono (hn : Named look s) (hpipe : s.nextPipeId ≤ s'.nextPipeId)
    (hsock : s.sockets.nextSocketId ≤ s'.sockets.nextSocketId)
    (hinet : ∀ j id, s'.pendingInet j = some id →
      s.pendingInet j = some id ∨ s.sockets.nextSocketId ≤ id) : Named look s' := by
  refine ⟨hn.finite, fun k e h hkind => (hn.pipe k e h hkind).imp_left
    (lt_of_lt_of_le · hpipe), fun k e h hkind => ?_⟩
  rcases hn.socket k e h hkind with ⟨hlt, hne⟩
  refine ⟨lt_of_lt_of_le hlt hsock, fun j hj => ?_⟩
  rcases hinet j _ hj with hj | hle
  · exact hne j hj
  · omega

theorem Grows.named (h : Grows s s') (hn : Named look s) : Named look s' :=
  hn.mono (le_of_eq h.nextPipeId.symm) h.nextSocketId fun j id hj => .inl (h.inet j id hj).1

theorem Named.set (hn : Named look s) (k : Nat × Nat) {e : FDTableEntry}
    (hpipe : e.fdkind = ipcPipe → e.underfd < s.nextPipeId ∧ IsEnd e)
    (hsock : e.fdkind = ipcSocket →
      e.underfd < s.sockets.nextSocketId ∧ ∀ j, s.pendingInet j ≠ some e.underfd) :
    Named (update look k (some e)) s := by
  refine ⟨finitelyMany_update hn.finite _, fun k' e' h hkind => ?_, fun k' e' h hkind => ?_⟩
  all_goals rcases of_update_some h with h | ⟨_, rfl⟩
  · exact hn.pipe k' e' h hkind
  · exact hpipe hkind
  · exact hn.socket k' e' h hkind
  · exact hsock hkind

theorem Named.erase (hn : Named look s) (k : Nat × Nat) : Named (update look k none) s :=
  ⟨finitelyMany_update hn.finite _, fun k' e' h => hn.pipe k' e' (of_update_none h),
    fun k' e' h => hn.socket k' e' (of_update_none h)⟩

theorem Named.alike (hn : Named look s) (k : Nat × Nat) {j : Nat × Nat} {e0 e : FDTableEntry}
    (hentry : look j = some e0) (h : Alike e0 e) : Named (update look k (some e)) s := by
  refine hn.set k (fun hkind => ?_) fun hkind => ?_
  · rw [h.underfd, IsEnd, isReadEnd, isWriteEnd, h.accmode]
    exact hn.pipe j e0 hentry (h.fdkind ▸ hkind)
  · rw [h.underfd]
    exact hn.socket j e0 hentry (h.fdkind ▸ hkind)

end Names

theorem pipe_ne_socket : ipcPipe ≠ ipcSocket := by decide

theorem accmode_endEntry (id : Nat) (flags : BitVec 32) {direction : BitVec 32}
    (h : direction &&& oAccmode = direction) :
    entryFlags (World.endEntry id flags direction) &&& oAccmode = direction := by
  have hmask : oNonblock &&& oAccmode = 0#32 := by decide
  have hflags : entryFlags (World.endEntry id flags direction) =
      direction ||| flags &&& oNonblock := ofNat_flagsToU64 _
  rw [hflags, BitVec.and_or_distrib_right, h, BitVec.and_assoc, hmask, BitVec.and_zero,
    BitVec.or_zero]

theorem isReadEnd_endEntry (id : Nat) (flags : BitVec 32) :
    isReadEnd (entryFlags (World.endEntry id flags oRdonly)) = true := by
  rw [isReadEnd, accmode_endEntry id flags (by decide), beq_self_eq_true]

theorem isWriteEnd_endEntry (id : Nat) (flags : BitVec 32) :
    isWriteEnd (entryFlags (World.endEntry id flags oWronly)) = true := by
  rw [isWriteEnd, accmode_endEntry id flags (by decide), beq_self_eq_true]

variable [RingBuffer R] {limit : Nat} {rules : Rules} {n : Nat} {v v' : View R}

theorem tidy_move (h : Move limit rules n v v') (hv : Tidy limit v) : Tidy limit v' := by
  rcases hv with ⟨hreg, hnamed⟩
  cases h with
  | keeps _ s hkeeps =>
    have hgrows := hkeeps.grows hreg
    exact ⟨hgrows.registered hreg, hgrows.named hnamed⟩
  | track _ cage _ socktype hlt =>
    refine ⟨registered_trackInet hreg cage hlt socktype,
      hnamed.mono (le_refl _) (le_succ _) fun j id hj => ?_⟩
    exact (of_update_some hj).imp_right fun hj => le_of_eq hj.2.symm
  | put _ k e _ hkind hbare =>
    exact ⟨hreg, hnamed.set k (fun h => absurd h hkind) fun h => ⟨(hbare h).lt, (hbare h).inet⟩⟩
  | dup _ k _ _ _ _ hentry halike =>
    exact ⟨(recounted_raise _ _).registered hreg,
      (recounted_raise _ _).named (hnamed.alike k hentry halike)⟩
  | drop _ k e =>
    exact ⟨(recounted_closeHandler _ e).registered hreg,
      (recounted_closeHandler _ e).named (hnamed.erase k)⟩
  | retag _ k _ _ hentry halike => exact ⟨hreg, hnamed.alike k hentry halike⟩
  | pipe _ k1 k2 flags =>
    have hmono : Named v.look v.ipc.newPipe :=
      hnamed.mono (le_succ _) (le_refl _) fun j id hj => .inl hj
    exact ⟨registered_newPipe hreg, (hmono.set k1
      (fun _ => ⟨lt_succ_self _, .inl (isReadEnd_endEntry _ flags)⟩)
      fun h => absurd h pipe_ne_socket).set k2
      (fun _ => ⟨lt_succ_self _, .inr (isWriteEnd_endEntry _ flags)⟩)
      fun h => absurd h pipe_ne_socket⟩
  | pair _ k1 k2 socktype =>
    have hgrows := grows_createSocketpair hreg socktype
    have hfresh : ∀ id, v.ipc.sockets.nextSocketId ≤ id → ∀ j, v.ipc.pendingInet j ≠ some id := by
      intro id hle j hj
      exact absurd (hreg.inet j id hj).1 (by omega)
    refine ⟨hgrows.registered hreg, ((hgrows.named hnamed).set k1
      (fun h => absurd h.symm pipe_ne_socket)
      fun _ => ⟨?_, hfresh _ (le_refl _)⟩).set k2 (fun h => absurd h.symm pipe_ne_socket)
      fun _ => ⟨?_, hfresh _ (le_succ _)⟩⟩
    · change v.ipc.sockets.nextSocketId < v.ipc.sockets.nextSocketId + 1 + 1
      omega
    · change v.ipc.sockets.nextSocketId + 1 < v.ipc.sockets.nextSocketId + 1 + 1
      omega
  | join _ _ target _ hinet =>
    have hgrows := grows_joinQueue hreg hinet target
    exact ⟨hgrows.registered hreg, hgrows.named hnamed⟩
  | take _ k _ _ _ listener _ _ hqueue =>
    have hgrows := grows_take hreg hqueue listener
    refine ⟨hgrows.registered hreg, (hgrows.named hnamed).set k
      (fun h => absurd h.symm pipe_ne_socket)
      fun _ => ⟨lt_succ_self _, fun j hj => ?_⟩⟩
    exact absurd (hreg.inet j _ hj).1 (lt_irrefl _)
  | stray => exact ⟨(recounted_raise _ _).registered hreg, (recounted_raise _ _).named hnamed⟩
  | leak _ e =>
    exact ⟨(recounted_closeHandler _ e).registered hreg, (recounted_closeHandler _ e).named hnamed⟩
  | hangUp =>
    exact ⟨(recounted_modifyArc? _ _ _).registered hreg, (recounted_modifyArc? _ _ _).named hnamed⟩
  | lostPipe =>
    exact ⟨registered_newPipe hreg,
      hnamed.mono (le_succ _) (le_refl _) fun j id hj => .inl hj⟩
  | lostPair _ socktype =>
    have hgrows := grows_createSocketpair hreg socktype
    exact ⟨hgrows.registered hreg, hgrows.named hnamed⟩

theorem tidy_moves (h : Moves limit rules n v v') (hv : Tidy limit v) : Tidy limit v' := by
  induction h with
  | refl => exact hv
  | next _ _ _ _ _ h _ ih => exact ih (tidy_move h hv)

end LindGrates.Ipc
