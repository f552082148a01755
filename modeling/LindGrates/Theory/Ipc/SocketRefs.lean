import LindGrates.Theory.Ipc.PipeRefs

/-!
# Reference Counts of Sockets

The write counter of the pipe a socket sends on is meant to say how many descriptors
the socket has, until its sending side is shut down. The pipe belongs to one socket
only: it comes into being with a pair, or with a connection that waits in a queue
until it is accepted.

Sockets whose sending side is shut down are barred. Their pipe is counted down
to nothing, so descriptors for them must not come or go any more.

## Main definitions

* `Owned`: A pipe has one sender.
* `SendExact`: The counters are as they are meant to be.
* `Barring`: Barred sockets have had descriptors.

## Theorems

* `sendExact_move`, `sendExact_moves`: Moves keep the counters exact.
* `sendExact_hangUp`: So does shutting down a socket with one descriptor.
-/

namespace LindGrates.Ipc

open FdTables ManagedTables LawfulFdTables World Function List IpcState PipeBuffer Option

variable {e : FDTableEntry} {id a : Nat} {addr : Str} {conn : PendingConnection}
  {rest : List PendingConnection}

def socketEnd (e : FDTableEntry) : Option Nat :=
  if e.fdkind = ipcSocket then some e.underfd else none

def socketEnds (look : Nat × Nat → Option FDTableEntry) (k : Nat × Nat) : Option Nat :=
  (look k).bind socketEnd

theorem socketEnd_eq_some :
    socketEnd e = some id ↔ e.fdkind = ipcSocket ∧ e.underfd = id := by
  rw [socketEnd, ite_none_right_eq_some, some_inj]

section Counts

variable {R : Type} {s s' : IpcState R}

def sendPipe (s : IpcState R) (id : Nat) : Option Nat :=
  (s.sockets.sockets id).bind SocketInfo.sendpipe

/-- The write counter and the end-of-file flag of the pipe a socket sends on. -/
def sent (s : IpcState R) (id : Nat) : Option (Nat × Bool) :=
  (sendPipe s id).bind (s.shown .write)

theorem sendPipe_of_recounted (h : Recounted s s') : sendPipe s' = sendPipe s := by
  rcases h with ⟨arcs, rfl, _⟩
  rfl

/-- The counter for the descriptors of a socket. -/
def sendMeter (R : Type) : Meter R where
  side := .write
  buffer := sendPipe
  label := socketEnd
  buffer_recounted _ _ := sendPipe_of_recounted
  label_alike e e' h := by rw [socketEnd, socketEnd, h.fdkind, h.underfd]

variable {limit : Nat}

theorem apart_sendPipe (hs : Registered limit s) (h : sendPipe s id = some a) : Apart s a := by
  rcases bind_eq_some_iff.mp h with ⟨sock, hsock, hsend⟩
  exact hs.send id sock a hsock hsend

/-- Where a reference is counted up or down is no pipe, or a socket sends on it. -/
theorem refBump_write (ha : Apart s a) :
    (s.refBump e).write = some a ↔ e.fdkind = ipcSocket ∧ sendPipe s e.underfd = some a := by
  rw [refBump]
  split
  next hkind =>
    refine iff_of_false (fun h => ?_) fun h => pipe_ne_socket (hkind.symm.trans h.1)
    split at h
    · cases h
    · exact ha.2 e.underfd h
  split
  next hkind => exact (and_iff_right hkind).symm
  next hkind => exact iff_of_false (some_ne_none a).symm fun h => hkind h.1

end Counts

section Owners

variable {R : Type} {s s' : IpcState R} {limit : Nat}

/-- A pipe has one sender: a socket, or a connection that waits to be accepted,
    whose pipe is as new. -/
structure Owned (s : IpcState R) : Prop where
  inj : ∀ id id' a, sendPipe s id = some a → sendPipe s id' = some a → id = id'
  waiting : ∀ addr conn, conn ∈ s.sockets.pendingConnections addr →
    s.shown .write conn.pipeToConnector = some (1, false) ∧
      ∀ id, sendPipe s id ≠ some conn.pipeToConnector
  nodup : ∀ addr,
    ((s.sockets.pendingConnections addr).map PendingConnection.pipeToConnector).Nodup
  queue_inj : ∀ addr addr' conn conn', conn ∈ s.sockets.pendingConnections addr →
    conn' ∈ s.sockets.pendingConnections addr' → conn.pipeToConnector = conn'.pipeToConnector →
    addr = addr'

theorem Owned.mono (h : Owned s) (hsend : ∀ id a, sendPipe s' id = some a → sendPipe s id = some a)
    (hqueues : ∀ addr,
      (s'.sockets.pendingConnections addr).Sublist (s.sockets.pendingConnections addr))
    (hcounts : ∀ addr conn, conn ∈ s.sockets.pendingConnections addr →
      s'.shown .write conn.pipeToConnector = s.shown .write conn.pipeToConnector) : Owned s' where
  inj id id' a hid hid' := h.inj id id' a (hsend id a hid) (hsend id' a hid')
  waiting addr conn hconn := by
    have hold := (hqueues addr).subset hconn
    rw [hcounts addr conn hold]
    exact ⟨(h.waiting addr conn hold).1, fun id hid =>
      (h.waiting addr conn hold).2 id (hsend id _ hid)⟩
  nodup addr := ((hqueues addr).map _).nodup (h.nodup addr)
  queue_inj addr addr' conn conn' hconn hconn' :=
    h.queue_inj addr addr' conn conn' ((hqueues addr).subset hconn)
      ((hqueues addr').subset hconn')

/-- The registries change, but not what senders and waiting connections count. -/
structure Calm (s s' : IpcState R) : Prop where
  send : ∀ id a, sendPipe s' id = some a → sendPipe s id = some a
  queues : ∀ addr,
    (s'.sockets.pendingConnections addr).Sublist (s.sockets.pendingConnections addr)
  counts : ∀ a, Apart s a → s'.shown .write a = s.shown .write a

theorem Owned.calm (h : Owned s) (hs : Registered limit s) (hc : Calm s s') : Owned s' :=
  h.mono hc.send hc.queues fun addr conn hconn => hc.counts _ (hs.queued addr conn hconn).2

theorem calm_keeps (h : Keeps s s') : Calm s s' := by
  refine ⟨fun id a hid => ?_, h.queues, fun a _ => shown_keeps h a⟩
  rcases bind_eq_some_iff.mp hid with ⟨sock', hsock', hsend'⟩
  rcases h.sockets id sock' hsock' with ⟨sock, hsock, hsend, _⟩ | ⟨_, _, hsend, _⟩
  · rw [sendPipe, hsock]
    exact hsend.symm.trans hsend'
  · rw [hsend] at hsend'
    cases hsend'

theorem calm_trackInet (s : IpcState R) (cage fd : Nat) (socktype : BitVec 32) :
    Calm s (s.trackInet cage socktype fd) := by
  refine ⟨fun id a hid => ?_, fun addr => List.Sublist.refl _, fun a _ => rfl⟩
  rcases bind_eq_some_iff.mp hid with ⟨sock, hsock, hsend⟩
  rcases of_update_some hsock with hsock | ⟨_, rfl⟩
  · rw [sendPipe, hsock]
    exact hsend
  · cases hsend

theorem calm_newPipe [RingBuffer R] (s : IpcState R) : Calm s s.newPipe :=
  ⟨fun _ _ h => h, fun _ => List.Sublist.refl _, fun _ ha => shown_append rfl ha.1⟩

/-- Connections that wait are left alone: only the buffers of sockets are counted. -/
theorem Owned.recount (h : Owned s) (hr : Recounted s s')
    (hcounts : ∀ a, (∀ id, sendPipe s id ≠ some a) → Apart s a →
      s'.shown .write a = s.shown .write a) (hs : Registered limit s) : Owned s' := by
  refine h.mono (fun id a ha => ?_) (fun addr => ?_) fun addr conn hconn =>
    hcounts _ (h.waiting addr conn hconn).2 (hs.queued addr conn hconn).2
  · rwa [sendPipe_of_recounted hr] at ha
  · rcases hr with ⟨arcs, rfl, _⟩
    exact List.Sublist.refl _

theorem Owned.bump (h : Owned s) (hs : Registered limit s) (e : FDTableEntry) :
    Owned (s.bump e) := by
  refine h.recount (recounted_raise s _) (fun a hno ha => ?_) hs
  have hne : (s.refBump e).on .write ≠ some a := fun hw => hno _ ((refBump_write ha).mp hw).2
  simp [IpcState.bump, shown_raise, hne]

theorem Owned.closeHandler (h : Owned s) (hs : Registered limit s) (e : FDTableEntry) :
    Owned (s.closeHandler e) := by
  refine h.recount (recounted_closeHandler s e) (fun a hno ha => ?_) hs
  have hne : (s.refBump e).on .write ≠ some a := fun hw => hno _ ((refBump_write ha).mp hw).2
  simp [closeHandler_eq_lower, shown_lower, hne]

theorem matches_socket (h : Owned s) (hs : Registered limit s) (e : FDTableEntry) :
    (sendMeter R).Matches s e := by
  intro id a ha
  refine (refBump_write (apart_sendPipe hs ha)).trans
    ((and_congr_right fun _ => ?_).trans socketEnd_eq_some.symm)
  exact ⟨fun h' => h.inj _ id a h' ha, fun h' => h' ▸ ha⟩

theorem sendPipe_take (s : IpcState R) (addr : Str) (rest : List PendingConnection)
    (listener : Nat) (conn : PendingConnection) (id : Nat) :
    sendPipe ((s.leaveQueue addr rest).acceptSocket listener conn) id =
      if id = s.sockets.nextSocketId then some conn.pipeToConnector else sendPipe s id := by
  rw [sendPipe, sockets_take, update_apply]
  split
  · rfl
  · rfl

theorem owned_take (h : Owned s) (hqueue : s.sockets.pendingConnections addr = conn :: rest)
    (listener : Nat) : Owned ((s.leaveQueue addr rest).acceptSocket listener conn) := by
  have hmem : conn ∈ s.sockets.pendingConnections addr := by
    rw [hqueue]
    exact mem_cons_self
  have hsub : ∀ addr', (((s.leaveQueue addr rest).acceptSocket listener
      conn).sockets.pendingConnections addr').Sublist (s.sockets.pendingConnections addr') :=
    sublist_take hqueue
  -- What is left in the queues is another connection.
  have hother : ∀ addr' conn', conn' ∈ ((s.leaveQueue addr rest).acceptSocket listener
      conn).sockets.pendingConnections addr' → conn'.pipeToConnector ≠ conn.pipeToConnector := by
    intro addr' conn' hconn' heq
    have hold := (hsub addr').subset hconn'
    have haddr := h.queue_inj addr' addr conn' conn hold hmem heq
    change conn' ∈ update s.sockets.pendingConnections addr rest addr' at hconn'
    rw [haddr, update_self] at hconn'
    have hnodup := h.nodup addr
    rw [hqueue, map_cons, nodup_cons] at hnodup
    exact hnodup.1 (heq ▸ mem_map_of_mem hconn')
  refine ⟨fun id id' a ha ha' => ?_, fun addr' conn' hconn' => ?_,
    fun addr' => ((hsub addr').map _).nodup (h.nodup addr'),
    fun addr1 addr2 conn1 conn2 h1 h2 =>
      h.queue_inj addr1 addr2 conn1 conn2 ((hsub addr1).subset h1) ((hsub addr2).subset h2)⟩
  · rw [sendPipe_take] at ha ha'
    split at ha
    · cases ha
      split at ha'
      · omega
      · exact absurd ha' ((h.waiting addr conn hmem).2 id')
    split at ha'
    · cases ha'
      exact absurd ha ((h.waiting addr conn hmem).2 id)
    · exact h.inj id id' a ha ha'
  · have hold := h.waiting addr' conn' ((hsub addr').subset hconn')
    refine ⟨hold.1, fun id hid => ?_⟩
    rw [sendPipe_take] at hid
    split at hid
    · exact hother addr' conn' hconn' (some.inj hid).symm
    · exact hold.2 id hid

end Owners

section NewSenders

variable {R : Type} [RingBuffer R] {s s' : IpcState R} {limit : Nat}

theorem shown_newConnection (harcs : s'.arcs = s.arcs ++
      [new udsockCapacity, new udsockCapacity])
    (ha : a = s.arcs.length ∨ a = s.arcs.length + 1) : s'.shown .write a = some (1, false) := by
  rw [IpcState.shown, countsAt, harcs]
  rcases ha with rfl | rfl
  · rw [List.getElem?_append_right (Nat.le_refl _), Nat.sub_self]
    rfl
  · rw [List.getElem?_append_right (Nat.le_add_right ..), Nat.add_sub_cancel_left]
    rfl

theorem sendPipe_createSocketpair (s : IpcState R) (domain socktype : BitVec 32) (id : Nat) :
    sendPipe (s.createSocketpair domain socktype) id =
      if id = s.sockets.nextSocketId + 1 then some (s.arcs.length + 1)
      else if id = s.sockets.nextSocketId then some s.arcs.length else sendPipe s id := by
  rw [sendPipe, sockets_createSocketpair, update_apply, update_apply]
  split
  · rfl
  split
  · rfl
  · rfl

theorem sendPipe_joinQueue (s : IpcState R) (id : Nat) (target : Str) (id' : Nat) :
    sendPipe (s.joinQueue id target) id' =
      if id' = id then (s.sockets.sockets id).map fun _ => s.arcs.length else sendPipe s id' := by
  change (update s.sockets.sockets id _ id').bind SocketInfo.sendpipe = _
  rw [update_apply]
  split
  · change (((s.sockets.sockets id).map _).bind SocketInfo.sendpipe) = _
    cases s.sockets.sockets id with
    | none | some => rfl
  · rfl

theorem owned_createSocketpair (h : Owned s) (hs : Registered limit s) (socktype : BitVec 32) :
    Owned (s.createSocketpair afUnix socktype) := by
  have hsend : ∀ id a, sendPipe (s.createSocketpair afUnix socktype) id = some a →
      (s.arcs.length ≤ a ∧ id + s.arcs.length = s.sockets.nextSocketId + a) ∨
        a < s.arcs.length ∧ sendPipe s id = some a := by
    intro id a ha
    rw [sendPipe_createSocketpair] at ha
    split at ha
    · have := some.inj ha
      omega
    split at ha
    · have := some.inj ha
      omega
    · exact .inr ⟨(apart_sendPipe hs ha).1, ha⟩
  refine ⟨fun id id' a ha ha' => ?_, fun addr conn hconn => ?_, h.nodup, h.queue_inj⟩
  · rcases hsend id a ha with hnew | ⟨hlt, hold⟩
    · rcases hsend id' a ha' with hnew' | ⟨hlt', _⟩ <;> omega
    rcases hsend id' a ha' with hnew' | ⟨_, hold'⟩
    · omega
    · exact h.inj id id' a hold hold'
  · have hlt := (hs.queued addr conn hconn).2.1
    refine ⟨(shown_append rfl hlt).trans (h.waiting addr conn hconn).1, fun id hid => ?_⟩
    rcases hsend id _ hid with hnew | ⟨_, hold⟩
    · omega
    · exact (h.waiting addr conn hconn).2 id hold

theorem owned_joinQueue (h : Owned s) (hs : Registered limit s) (id : Nat) (target : Str) :
    Owned (s.joinQueue id target) := by
  have hlt : ∀ id a, sendPipe s id = some a → a < s.arcs.length :=
    fun id a ha => (apart_sendPipe hs ha).1
  have hqueue : ∀ addr conn, conn ∈ (s.joinQueue id target).sockets.pendingConnections addr →
      conn ∈ s.sockets.pendingConnections addr ∨
        addr = target ∧ conn.pipeToConnector = s.arcs.length + 1 := by
    intro addr conn hconn
    change conn ∈ update s.sockets.pendingConnections target _ addr at hconn
    rw [update_apply] at hconn
    split at hconn
    next haddr =>
      rcases mem_append.mp hconn with hconn | hconn
      · exact .inl (haddr ▸ hconn)
      · rw [mem_singleton.mp hconn]
        exact .inr ⟨haddr, rfl⟩
    · exact .inl hconn
  have hsend : ∀ id' a, sendPipe (s.joinQueue id target) id' = some a →
      (id' = id ∧ a = s.arcs.length) ∨ sendPipe s id' = some a := by
    intro id' a ha
    rw [sendPipe_joinQueue] at ha
    split at ha
    next hid =>
      rcases map_eq_some_iff.mp ha with ⟨_, _, rfl⟩
      exact .inl ⟨hid, rfl⟩
    · exact .inr ha
  refine ⟨fun id1 id2 a ha ha' => ?_, fun addr conn hconn => ?_, fun addr => ?_,
    fun addr addr' conn conn' hconn hconn' heq => ?_⟩
  · rcases hsend id1 a ha with ⟨rfl, rfl⟩ | ha
    · rcases hsend id2 _ ha' with ⟨rfl, _⟩ | ha'
      · rfl
      · exact absurd (hlt id2 _ ha') (Nat.lt_irrefl _)
    rcases hsend id2 a ha' with ⟨_, rfl⟩ | ha'
    · exact absurd (hlt id1 _ ha) (Nat.lt_irrefl _)
    · exact h.inj id1 id2 a ha ha'
  · rcases hqueue addr conn hconn with hold | ⟨_, hnew⟩
    · have hapart := (hs.queued addr conn hold).2.1
      refine ⟨(shown_append rfl hapart).trans (h.waiting addr conn hold).1, fun id' hid => ?_⟩
      rcases hsend id' _ hid with ⟨_, heq⟩ | hid
      · omega
      · exact (h.waiting addr conn hold).2 id' hid
    refine ⟨shown_newConnection rfl (.inr hnew), fun id' hid => ?_⟩
    rcases hsend id' _ hid with ⟨_, heq⟩ | hid
    · omega
    · have := hlt id' _ hid
      omega
  · change ((update s.sockets.pendingConnections target _ addr).map _).Nodup
    rw [update_apply]
    split
    · rw [map_append, map_singleton, ← concat_eq_append]
      refine (nodup_concat ..).mpr ⟨fun hmem => ?_, h.nodup target⟩
      rcases mem_map.mp hmem with ⟨conn, hconn, heq⟩
      change conn.pipeToConnector = s.arcs.length + 1 at heq
      have := (hs.queued target conn hconn).2.1
      omega
    · exact h.nodup addr
  · rcases hqueue addr conn hconn with hold | ⟨haddr, hnew⟩
    · rcases hqueue addr' conn' hconn' with hold' | ⟨_, hnew'⟩
      · exact h.queue_inj addr addr' conn conn' hold hold' heq
      · have := (hs.queued addr conn hold).2.1
        omega
    rcases hqueue addr' conn' hconn' with hold' | ⟨haddr', _⟩
    · have := (hs.queued addr' conn' hold').2.1
      omega
    · rw [haddr, haddr']

end NewSenders

variable {R : Type}

/-- The pipe a socket sends on counts the socket's descriptors and flags
    end-of-file when there is none, or nothing if the socket is barred. Counters
    have room for `n` more. -/
structure SendExact (barred : Nat → Prop) (n : Nat) (v : View R) : Prop where
  owned : Owned v.ipc
  live : (sendMeter R).Holds (¬ barred ·) n v
  shut : ∀ id c, barred id → sent v.ipc id = some c → c = (0, true)

/-- Barred sockets have had descriptors. -/
structure Barring (barred : Nat → Prop) (s : IpcState R) : Prop where
  lt : ∀ id, barred id → id < s.sockets.nextSocketId
  inet : ∀ id, barred id → ∀ k, s.pendingInet k ≠ some id

variable {barred : Nat → Prop} {kept : Nat × Nat → Prop} {limit n : Nat} {v v' : View R}
  {look : Nat × Nat → Option FDTableEntry} {s s' : IpcState R} {k : Nat × Nat} {e : FDTableEntry}
  {id m : Nat} {c : Nat × Bool}

theorem sent_of_calm (hs : Registered limit s) (hc : Calm s s') (h : sent s' id = some c) :
    sent s id = some c := by
  rcases bind_eq_some_iff.mp h with ⟨a, ha, hcounts⟩
  have hold := hc.send id a ha
  rw [sent, hold]
  exact (hc.counts a (apart_sendPipe hs hold)).symm.trans hcounts

theorem SendExact.calm (hv : SendExact barred n v) (hs : Registered limit v.ipc)
    (hc : Calm v.ipc s) (htally : ∀ id c, sent v.ipc id = some c →
      tally (socketEnds look) id = tally (socketEnds v.look) id) : SendExact barred n ⟨look, s⟩ :=
  ⟨hv.owned.calm hs hc, hv.live.less (fun _ _ => sent_of_calm hs hc) htally,
    fun id c hb hsent => hv.shut id c hb (sent_of_calm hs hc hsent)⟩

theorem SendExact.same (hv : SendExact barred n v) (ho : Owned s)
    (hsent : sent s = sent v.ipc) : SendExact barred n ⟨v.look, s⟩ :=
  ⟨ho, hv.live.same (congrFun hsent) rfl, fun id c hb hc => hv.shut id c hb (hsent ▸ hc)⟩

section Descriptors

variable (ht : Tidy limit v) (hbar : ∀ id, socketEnd e = some id → ¬ barred id)

include ht hbar

theorem SendExact.dup (hv : SendExact barred (1 + n) v) {j : Nat × Nat} {e0 : FDTableEntry}
    (hfree : v.look k = none) (hentry : v.look j = some e0) (halike : Alike e0 e) :
    SendExact barred n ⟨update v.look k (some e), v.ipc.bump e⟩ := by
  have hm := matches_socket hv.owned ht.reg e
  refine ⟨hv.owned.bump ht.reg e, hv.live.dup hm ht.named.finite hfree hentry halike,
    fun id c hb hc => hv.shut id c hb ?_⟩
  rw [← hc]
  refine ((Meter.shown_bump hm id).trans ?_).symm
  simp only [show (sendMeter R).label e ≠ some id from fun h => hbar id h hb, if_false,
    Option.map_id']
  rfl

theorem SendExact.drop (hv : SendExact barred n v) (hentry : v.look k = some e) :
    SendExact barred n ⟨update v.look k none, v.ipc.closeHandler e⟩ := by
  have hm := matches_socket hv.owned ht.reg e
  refine ⟨hv.owned.closeHandler ht.reg e, hv.live.drop hm hbar ht.named.finite hentry,
    fun id c hb hc => hv.shut id c hb ?_⟩
  rw [← hc]
  refine ((Meter.shown_closeHandler hm id).trans ?_).symm
  simp only [show (sendMeter R).label e ≠ some id from fun h => hbar id h hb, if_false,
    Option.map_id']
  rfl

end Descriptors

theorem Barring.mono (h : Barring barred s)
    (hnext : s.sockets.nextSocketId ≤ s'.sockets.nextSocketId)
    (hinet : ∀ k id, s'.pendingInet k = some id →
      s.pendingInet k = some id ∨ s.sockets.nextSocketId ≤ id) : Barring barred s' := by
  refine ⟨fun id hb => Nat.lt_of_lt_of_le (h.lt id hb) hnext, fun id hb k hk => ?_⟩
  rcases hinet k id hk with hk | hle
  · exact h.inet id hb k hk
  · have := h.lt id hb
    omega

theorem Barring.grows (h : Barring barred s) (hg : Grows s s') : Barring barred s' :=
  h.mono hg.nextSocketId fun k id hk => .inl (hg.inet k id hk).1

theorem Barring.recounted (h : Barring barred s) (hr : Recounted s s') : Barring barred s' := by
  rcases hr with ⟨arcs, rfl, _⟩
  exact ⟨h.lt, h.inet⟩

theorem tally_socket_new (ht : Tidy limit v) (hid : v.ipc.sockets.nextSocketId ≤ id) :
    tally (socketEnds v.look) id = 0 := by
  refine (tally_eq_zero (finitelyMany_bind socketEnd ht.named.finite)).mpr fun j hj => ?_
  rcases bind_eq_some_iff.mp hj with ⟨e, he, hend⟩
  rcases socketEnd_eq_some.mp hend with ⟨hkind, hunder⟩
  exact absurd (ht.named.socket j e he hkind).1 (by omega)

theorem tally_single (h : Single look id) : tally (socketEnds look) id = 1 := by
  rcases h with ⟨k, e, he, hkind, hunder, honly⟩
  have hset : {j | socketEnds look j = some id} = {k} := by
    ext j
    rw [Set.mem_ofPred_eq, Set.mem_singleton_iff]
    constructor
    · intro hj
      rcases bind_eq_some_iff.mp hj with ⟨e', he', hend⟩
      rcases socketEnd_eq_some.mp hend with ⟨hkind', hunder'⟩
      exact honly j e' he' hkind' hunder'
    · rintro rfl
      rw [socketEnds, he]
      exact socketEnd_eq_some.mpr ⟨hkind, hunder⟩
  rw [tally, hset, Set.ncard_singleton]

theorem SendExact.fresh (hv : SendExact barred n v) (hn : n + 1 < 2 ^ 32) (ho : Owned s)
    {new : Nat → Prop} (hnew : ∀ id, new id → ¬ barred id ∧ tally (socketEnds look) id = 1)
    (hsent : ∀ id c, sent s id = some c → (new id ∧ c = (1, false)) ∨
      ¬ new id ∧ sent v.ipc id = some c)
    (htally : ∀ id, ¬ new id → tally (socketEnds look) id = tally (socketEnds v.look) id) :
    SendExact barred n ⟨look, s⟩ := by
  refine ⟨ho, hv.live.fresh hn (fun id hid => (hnew id hid).2) hsent fun id _ hid _ =>
    htally id hid, fun id c hb hc => ?_⟩
  rcases hsent id c hc with ⟨hid, _⟩ | ⟨_, hold⟩
  · exact absurd hb (hnew id hid).1
  · exact hv.shut id c hb hold

theorem sent_take (ho : Owned s) (hqueue : s.sockets.pendingConnections addr = conn :: rest)
    (listener : Nat) (h : sent ((s.leaveQueue addr rest).acceptSocket listener conn) id = some c) :
    (id = s.sockets.nextSocketId ∧ c = (1, false)) ∨
      ¬ id = s.sockets.nextSocketId ∧ sent s id = some c := by
  rcases bind_eq_some_iff.mp h with ⟨a, ha, hcounts⟩
  rw [sendPipe_take] at ha
  split at ha
  next hid =>
    cases ha
    have hmem : conn ∈ s.sockets.pendingConnections addr := by
      rw [hqueue]
      exact mem_cons_self
    have hnew := (ho.waiting addr conn hmem).1
    exact .inl ⟨hid, some.inj (hcounts.symm.trans hnew)⟩
  rename_i hid
  refine .inr ⟨hid, ?_⟩
  rw [sent, ha]
  exact hcounts

theorem socketEnd_eq_none (hkind : e.fdkind ≠ ipcSocket) : socketEnd e = none := by
  rw [socketEnd, if_neg hkind]

/-- The sending side of a socket with one descriptor is shut down, and the socket
    is barred from then on. -/
theorem sendExact_hangUp (hv : SendExact barred 0 v) (hs : Registered limit v.ipc)
    {sock : SocketInfo} (hsock : v.ipc.sockets.sockets id = some sock) (hbar : ¬ barred id)
    (hsingle : Single v.look id) :
    SendExact (fun id' => id' = id ∨ barred id') 0
      ⟨v.look, v.ipc.modifyArc? sock.sendpipe decrWriteRef⟩ := by
  change SendExact _ 0 ⟨v.look, v.ipc.lower ⟨sock.sendpipe, none⟩⟩
  have hrec := recounted_lower v.ipc ⟨sock.sendpipe, none⟩
  have hown : ∀ a, RefBump.on ⟨sock.sendpipe, none⟩ .write = some a ↔
      sendPipe v.ipc id = some a := by
    intro a
    rw [sendPipe, hsock]
    rfl
  have hsent : ∀ id' c, sent (v.ipc.lower ⟨sock.sendpipe, none⟩) id' = some c →
      (id' = id ∧ c = (0, true)) ∨ id' ≠ id ∧ sent v.ipc id' = some c := by
    intro id' c hc
    rcases bind_eq_some_iff.mp hc with ⟨a, ha, hshown⟩
    rw [sendPipe_of_recounted hrec] at ha
    rw [shown_lower] at hshown
    rcases map_eq_some_iff.mp hshown with ⟨c, hold, rfl⟩
    have hsent : sent v.ipc id' = some c := bind_eq_some_iff.mpr ⟨a, ha, hold⟩
    by_cases hid : id' = id
    · have hone := (hv.live.exact id c hbar (hid ▸ hsent)).count
      have htally := tally_single hsingle
      rw [if_pos ((hown a).mpr (hid ▸ ha)), hone.trans htally]
      exact .inl ⟨hid, rfl⟩
    · rw [if_neg fun h => hid (hv.owned.inj id' id a ha ((hown a).mp h))]
      exact .inr ⟨hid, hsent⟩
  refine ⟨hv.owned.recount hrec (fun a ha _ => ?_) hs, ⟨fun id' c hb hc => ?_, fun id' c hc => ?_⟩,
    fun id' c hb hc => ?_⟩
  · simp [shown_lower, hown, ha]
  · rw [not_or] at hb
    rcases hsent id' c hc with ⟨hid, _⟩ | ⟨_, hold⟩
    · exact absurd hid hb.1
    · exact hv.live.exact id' c hb.2 hold
  · rcases hsent id' c hc with ⟨_, rfl⟩ | ⟨_, hold⟩
    · exact Nat.two_pow_pos 32
    · exact hv.live.room id' c hold
  · rcases hsent id' c hc with ⟨_, hzero⟩ | ⟨hid, hold⟩
    · exact hzero
    · exact hv.shut id' c (hb.resolve_left hid) hold

variable [RingBuffer R]

theorem sent_createSocketpair (hs : Registered limit s) (socktype : BitVec 32)
    (h : sent (s.createSocketpair afUnix socktype) id = some c) :
    ((id = s.sockets.nextSocketId ∨ id = s.sockets.nextSocketId + 1) ∧ c = (1, false)) ∨
      ¬ (id = s.sockets.nextSocketId ∨ id = s.sockets.nextSocketId + 1) ∧ sent s id = some c := by
  rcases bind_eq_some_iff.mp h with ⟨a, ha, hcounts⟩
  rw [sendPipe_createSocketpair] at ha
  split at ha
  next hid =>
    rw [shown_newConnection rfl (.inr (some.inj ha).symm)] at hcounts
    exact .inl ⟨.inr hid, (some.inj hcounts).symm⟩
  split at ha
  next hid =>
    rw [shown_newConnection rfl (.inl (some.inj ha).symm)] at hcounts
    exact .inl ⟨.inl hid, (some.inj hcounts).symm⟩
  rename_i hid2 hid1
  refine .inr ⟨fun hid => hid.elim hid1 hid2, ?_⟩
  rw [sent, ha]
  exact (shown_append rfl (apart_sendPipe hs ha).1).symm.trans hcounts

theorem sent_joinQueue (hs : Registered limit s) (target : Str) {id' : Nat}
    (h : sent (s.joinQueue id target) id' = some c) :
    (id' = id ∧ c = (1, false)) ∨ ¬ id' = id ∧ sent s id' = some c := by
  rcases bind_eq_some_iff.mp h with ⟨a, ha, hcounts⟩
  rw [sendPipe_joinQueue] at ha
  split at ha
  next hid =>
    rcases map_eq_some_iff.mp ha with ⟨_, _, hlen⟩
    rw [shown_newConnection rfl (.inl hlen.symm)] at hcounts
    exact .inl ⟨hid, (some.inj hcounts).symm⟩
  rename_i hid
  refine .inr ⟨hid, ?_⟩
  rw [sent, ha]
  exact (shown_append rfl (apart_sendPipe hs ha).1).symm.trans hcounts

/-- A move keeps the counters exact and uses up as much room as it counts up. -/
theorem sendExact_move (h : Move limit ⟨(· = ipcSocket), barred, kept⟩ m v v') (ht : Tidy limit v)
    (hb : Barring barred v.ipc) (hv : SendExact barred (m + n) v) (hn : n + 1 < 2 ^ 32) :
    SendExact barred n v' := by
  have hfin := ht.named.finite
  have hold : SendExact barred n v :=
    ⟨hv.owned, ⟨hv.live.exact, fun id c hc => by have := hv.live.room id c hc; omega⟩, hv.shut⟩
  -- Nothing happens to senders and their descriptors.
  have quiet : ∀ s look, Calm v.ipc s → socketEnds look = socketEnds v.look →
      SendExact barred n ⟨look, s⟩ :=
    fun s look hc hends => hold.calm ht.reg hc fun id _ _ => by rw [hends]
  have calm : Calm v.ipc v.ipc := ⟨fun _ _ h => h, fun _ => List.Sublist.refl _, fun _ _ => rfl⟩
  have fresh : ∀ id, v.ipc.sockets.nextSocketId ≤ id → ¬ barred id := by
    intro id hle hbar
    have := hb.lt id hbar
    omega
  have unbarred : ∀ e : FDTableEntry, (e.fdkind = ipcSocket → ¬ barred e.underfd) →
      ∀ id, socketEnd e = some id → ¬ barred id := by
    intro e hbar id hend
    rcases socketEnd_eq_some.mp hend with ⟨hkind, rfl⟩
    exact hbar hkind
  cases h with
  | keeps _ s hkeeps => exact quiet s v.look (calm_keeps hkeeps) rfl
  | track _ cage fd socktype => exact quiet _ v.look (calm_trackInet v.ipc cage fd socktype) rfl
  | put _ k e hfree _ hbare =>
    refine hold.calm ht.reg calm fun id c hc => (tally_put hfin hfree socketEnd e id).trans ?_
    rw [if_neg]
    · rfl
    -- A new descriptor is for a socket that has no pipe to send on.
    · intro hend
      rcases socketEnd_eq_some.mp hend with ⟨hkind, rfl⟩
      rcases bind_eq_some_iff.mp hc with ⟨a, ha, _⟩
      rcases bind_eq_some_iff.mp ha with ⟨sock, hsock, hsend⟩
      rw [((hbare hkind).pipes sock hsock).1] at hsend
      cases hsend
  | dup _ k j e0 e hfree hentry halike hbar =>
    exact hv.dup ht (unbarred e hbar) hfree hentry halike
  | drop _ k e hentry hbar => exact hold.drop ht (unbarred e hbar) hentry
  | retag _ _ e e' hentry halike =>
    refine quiet _ _ calm (bind_update_same ?_)
    rw [hentry]
    exact (sendMeter R).label_alike e e' halike
  | pipe _ k1 k2 flags hfree1 hfree2 hne =>
    have hnone : ∀ direction, socketEnd (endEntry v.ipc.nextPipeId flags direction) = none :=
      fun _ => socketEnd_eq_none pipe_ne_socket
    refine quiet _ _ (calm_newPipe v.ipc) ((bind_update_same ?_).trans (bind_update_same ?_))
    · rw [update_of_ne hne.symm, hfree2]
      exact hnone _
    · rw [hfree1]
      exact hnone _
  | pair _ k1 k2 socktype hfree1 hfree2 hne =>
    have hput := tally_put_pair hfin hfree1 hfree2 hne socketEnd
      (socketEntry v.ipc.sockets.nextSocketId socktype)
      (socketEntry (v.ipc.sockets.nextSocketId + 1) socktype)
    have hend : ∀ id, socketEnd (socketEntry id socktype) = some id := fun id =>
      socketEnd_eq_some.mpr ⟨rfl, rfl⟩
    simp only [hend, some_inj] at hput
    refine hold.fresh hn (owned_createSocketpair hv.owned ht.reg socktype)
      (fun id hid => ⟨fresh id (by omega), (hput id).trans ?_⟩)
      (fun id c hc => sent_createSocketpair ht.reg socktype hc) fun id hid => (hput id).trans ?_
    · have hzero : tally (fun j => (v.look j).bind socketEnd) id = 0 :=
        tally_socket_new ht (by omega)
      split <;> split <;> omega
    · rw [if_neg (by omega), if_neg (by omega)]
      rfl
  | join _ id target _ _ hsingle =>
    rcases hsingle rfl with ⟨hsingle, hbar⟩
    refine hold.fresh hn (owned_joinQueue hv.owned ht.reg id target) (fun id' hid => ?_)
      (fun id' c hc => sent_joinQueue ht.reg target hc) fun _ _ => rfl
    rw [hid]
    exact ⟨hbar, tally_single hsingle⟩
  | take _ k addr conn rest listener flags hfree hqueue =>
    have hput := tally_put hfin hfree socketEnd (socketEntry v.ipc.sockets.nextSocketId flags)
    have hend : socketEnd (socketEntry v.ipc.sockets.nextSocketId flags) =
        some v.ipc.sockets.nextSocketId := socketEnd_eq_some.mpr ⟨rfl, rfl⟩
    simp only [hend, some_inj] at hput
    refine hold.fresh hn (owned_take hv.owned hqueue listener)
      (fun id hid => ⟨fresh id (by omega), (hput id).trans ?_⟩)
      (fun id c hc => sent_take hv.owned hqueue listener hc) fun id hid => (hput id).trans ?_
    · have hzero : tally (fun j => (v.look j).bind socketEnd) id = 0 :=
        tally_socket_new ht (by omega)
      rw [hzero, if_pos (by omega)]
    · rw [if_neg (by omega)]
      rfl
  | stray _ e hkind =>
    exact hold.same (hv.owned.bump ht.reg e) (Meter.shown_bump_none
      (matches_socket hv.owned ht.reg e) (socketEnd_eq_none hkind))
  | leak _ e hkind =>
    exact hold.same (hv.owned.closeHandler ht.reg e) (Meter.shown_closeHandler_none
      (matches_socket hv.owned ht.reg e) (socketEnd_eq_none hkind))
  | hangUp _ _ _ _ hne | lostPair _ _ hne => exact absurd rfl hne
  | lostPipe => exact quiet _ v.look (calm_newPipe v.ipc) rfl

theorem barring_move {strict : Nat → Prop} (h : Move limit ⟨strict, barred, kept⟩ m v v')
    (ht : Tidy limit v) (hb : Barring barred v.ipc) : Barring barred v'.ipc := by
  cases h with
  | keeps _ s hkeeps => exact hb.mono hkeeps.nextSocketId fun k id hk => .inl (hkeeps.inet k id hk)
  | track =>
    exact hb.mono (Nat.le_succ _) fun k id hk =>
      (of_update_some hk).imp_right fun hk => Nat.le_of_eq hk.2.symm
  | put | retag => exact hb
  | dup | stray => exact hb.recounted (recounted_raise _ _)
  | drop | leak => exact hb.recounted (recounted_closeHandler _ _)
  | pipe | lostPipe => exact ⟨hb.lt, hb.inet⟩
  | pair _ _ _ socktype | lostPair _ socktype =>
    exact hb.grows (grows_createSocketpair ht.reg socktype)
  | join _ _ target _ hinet => exact hb.grows (grows_joinQueue ht.reg hinet target)
  | take _ _ _ _ _ listener _ _ hqueue => exact hb.grows (grows_take ht.reg hqueue listener)
  | hangUp => exact hb.recounted (recounted_modifyArc? _ _ _)

theorem sendExact_moves (h : Moves limit ⟨(· = ipcSocket), barred, kept⟩ m v v') (ht : Tidy limit v)
    (hb : Barring barred v.ipc) (hv : SendExact barred (m + n) v) (hn : m + n + 1 < 2 ^ 32) :
    SendExact barred n v' ∧ Barring barred v'.ipc := by
  induction h with
  | refl => exact ⟨by rwa [Nat.zero_add] at hv, hb⟩
  | next m1 m2 v v1 v2 h _ ih =>
    rw [Nat.add_assoc] at hn hv
    exact ih (tidy_move h ht) (barring_move h ht hb) (sendExact_move h ht hb hv (by omega))
      (by omega)

end LindGrates.Ipc
