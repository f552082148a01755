import LindGrates.Theory.Ipc.Steps

/-!
# Calls as Moves

The socket calls as moves, and with them all calls.

## Main definitions

* `Clean`, `Spares`: Conditions on a call, for counters that match and sockets to be
  left alone.
* `Settled`: No fork is in progress and the registries are tidy.

## Theorems

* `serve_moves`: A clean call is made of moves.
* `settled_serve`: Every call keeps the state settled.
* `serve_stays`: What a call does not take away stays.
-/

namespace LindGrates.Ipc

open FdTables ManagedTables LawfulFdTables World Function Nat

variable {T R : Type} [ManagedTables T] {w w' w1 : World T R} {call : Call} {r : Option Int}
  {rules : Rules} {domain socktype flags : BitVec 32} {id listener epfd : Nat}
  {addr : List UInt8} {how op : Int} {n : Nat}

/-- The call counts no reference wrongly for a strict kind: it sets no flag with
    `FIONBIO`, duplicates onto numbers a table can have, finds room for what it
    makes, connects a socket with a single descriptor and does not shut down the
    sending side of a connection. -/
def Clean (strict : Nat → Prop) (w : World T R) : Call → Prop
  | .pipe cage => strict ipcPipe → ∃ fd, w.freeIn cage fd = true
  | .pipe2 cage _ => strict ipcPipe → ∃ fd, w.freeIn cage fd = true
  | .dup2 cage oldfd newfd _ => ∀ e, w.ipcEntry (cage, oldfd) = some e → strict e.fdkind →
      oldfd = newfd ∨ newfd < fdLimit T
  | .dup3 cage oldfd newfd _ _ => ∀ e, w.ipcEntry (cage, oldfd) = some e → strict e.fdkind →
      oldfd = newfd ∨ newfd < fdLimit T
  | .ioctl cage fd request arg _ => request = fionbio → arg ≠ none →
      ∀ e, w.ipcEntry (cage, fd) = some e → ¬ strict e.fdkind
  | .socketpair cage _ _ => strict ipcSocket → ∃ fd₁ fd₂, fd₁ ≠ fd₂ ∧
      w.freeIn cage fd₁ = true ∧ w.freeIn cage fd₂ = true
  | .connect cage fd _ _ => strict ipcSocket → ∀ e, w.look (cage, fd) = some e →
      e.fdkind = ipcSocket → Single w.look e.underfd
  | .shutdown cage fd how _ => strict ipcSocket → how = shutWr ∨ how = shutRdwr →
      ∀ e sock, w.look (cage, fd) = some e → e.fdkind = ipcSocket →
        w.ipc.sockets.sockets e.underfd = some sock → sock.sendpipe = none
  | _ => True

/-- The call duplicates and drops only what it may, and connects no barred socket. -/
def Spares (rules : Rules) (w : World T R) : Call → Prop
  | .close cage fd _ => w.MayDrop rules (cage, fd)
  | .dup cage fd _ => w.MayDup rules (cage, fd)
  | .dup2 cage oldfd newfd _ => w.MayDup rules (cage, oldfd) ∧
      (oldfd ≠ newfd → w.MayDrop rules (cage, newfd))
  | .dup3 cage oldfd newfd _ _ => w.MayDup rules (cage, oldfd) ∧
      (oldfd ≠ newfd → w.MayDrop rules (cage, newfd))
  | .fcntl cage fd op _ _ => op = fDupfd ∨ op = fDupfdCloexec → w.MayDup rules (cage, fd)
  | .fork parent _ _ _ => ∀ fd, w.MayDup rules (parent, fd)
  | .exec cage _ => ∀ fd e, w.look (cage, fd) = some e → e.shouldCloexec = true →
      w.MayDrop rules (cage, fd)
  | .exit cage _ => ∀ fd, w.MayDrop rules (cage, fd)
  | .bind cage fd _ _ => (w.ipc.pendingInet (cage, fd)).isSome = true →
      w.MayDrop rules (cage, fd)
  | .connect cage fd _ _ => w.MayDup rules (cage, fd) ∧
      ((w.ipc.pendingInet (cage, fd)).isSome = true → ¬ rules.kept (cage, fd))
  | _ => True

/-- The call takes a descriptor away or puts another in its place. -/
def Loses (w : World T R) (call : Call) (k : Nat × Nat) : Bool :=
  match call with
  | .close cage fd _ => k = (cage, fd)
  | .dup2 cage oldfd newfd _ => k = (cage, newfd) ∧ oldfd ≠ newfd
  | .dup3 cage oldfd newfd _ _ => k = (cage, newfd) ∧ oldfd ≠ newfd
  | .exec cage _ => k.1 = cage ∧ (w.look k).any FDTableEntry.shouldCloexec
  | .exit cage _ => k.1 = cage
  | .bind cage fd _ _ => k = (cage, fd) ∧ (w.ipc.pendingInet k).isSome
  | .connect cage fd _ _ => k = (cage, fd) ∧ (w.ipc.pendingInet k).isSome
  | _ => false

theorem clean_lax (w : World T R) (call : Call) : Clean (fun _ => False) w call := by
  cases call with
  | pipe | pipe2 | socketpair | connect | shutdown => exact fun h => h.elim
  | dup2 | dup3 => exact fun e _ h => h.elim
  | ioctl => exact fun _ _ e _ h => h
  | _ => exact trivial

theorem spares_of_loses (strict : Nat → Prop) (kept : Nat × Nat → Prop)
    (h : ∀ k, kept k → Loses w call k = false) : Spares ⟨strict, fun _ => False, kept⟩ w call := by
  have hdup : ∀ k, w.MayDup ⟨strict, fun _ => False, kept⟩ k := fun _ _ _ _ => id
  have hdrop : ∀ k, Loses w call k = true → w.MayDrop ⟨strict, fun _ => False, kept⟩ k := by
    refine fun k hk => ⟨hdup k, fun hkept => ?_⟩
    rw [h k hkept] at hk
    cases hk
  cases call with
  | close => exact hdrop _ (decide_eq_true rfl)
  | dup => exact hdup _
  | dup2 | dup3 => exact ⟨hdup _, fun hne => hdrop _ (decide_eq_true ⟨rfl, hne⟩)⟩
  | fcntl | fork => exact fun _ => hdup _
  | exec =>
    intro fd e he hclo
    refine hdrop _ (decide_eq_true ⟨rfl, ?_⟩)
    rw [he]
    exact hclo
  | exit => exact fun _ => hdrop _ (decide_eq_true rfl)
  | bind => exact fun hsome => hdrop _ (decide_eq_true ⟨rfl, hsome⟩)
  | connect => exact ⟨hdup _, fun hsome => (hdrop _ (decide_eq_true ⟨rfl, hsome⟩)).2⟩
  | _ => exact trivial

structure Settled (w : World T R) : Prop where
  idle : Idle w
  tidy : Tidy (fdLimit T) w.view

theorem settled_initial (h : Initial w) : Settled w := by
  rcases h with ⟨fds, rfl, hnone⟩
  refine ⟨rfl, ⟨?_, ?_⟩⟩
  · refine ⟨?_, ?_, ?_, ?_, ?_, ?_, ?_, ?_, ?_, ?_⟩ <;> simp [World.view, World.started]
  · refine ⟨Set.finite_empty.subset fun k hk => hk (hnone k.1 k.2), fun k e h => ?_,
      fun k e h => ?_⟩
    · exact absurd (h.symm.trans (hnone k.1 k.2)) (by simp)
    · exact absurd (h.symm.trans (hnone k.1 k.2)) (by simp)

omit [ManagedTables T] in
theorem lower_dropPendingInet (s : IpcState R) (b : RefBump) (cage fd : Nat) :
    (s.dropPendingInet cage fd).lower b = (s.lower b).dropPendingInet cage fd := by
  rcases b with ⟨write, read⟩
  cases write <;> cases read <;> rfl

variable [RingBuffer R]

section Sockets

variable {cage fd : Nat} {answer : Int} {p : PipeBuffer R} {src mem : List UInt8} {arc : Nat}
  {nonblocking interrupted okLeft okRight : Bool} {copyLeft copyRight : Option (List UInt8)}

theorem moves_abandon (w : World T R) (cage fd id : Nat) :
    Shifts rules n w (w.withIpc (·.abandon cage fd id)) := by
  have hdrop : Shifts rules 0 w _ :=
    moves_keeps (·.dropPendingInet cage fd) (keeps_dropPendingInet w.ipc cage fd)
  exact hdrop.trans (moves_keeps (w := w.withIpc (·.dropPendingInet cage fd))
    (·.withSockets (·.remove id)) (keeps_remove _ id))

/-- The name a socket is connected to. -/
def targetKey (addr : List UInt8) : Option Str :=
  if family addr = afUnix then some (unixKey addr)
  else if family addr = afInet then (port addr).map inetKey
  else none

/-- What `connect` does with a socket that is known. -/
inductive Joins (w : World T R) (socketId : Nat) (addr : List UInt8) : World T R → Prop
  | queued (target : Str) (htarget : targetKey addr = some target) :
      Joins w socketId addr (w.withIpc (·.joinQueue socketId target))
  | refused : Joins w socketId addr w

omit [ManagedTables T] in
theorem connectTo_cases {target : Str} (htarget : targetKey addr = some target)
    (h : w.connectTo id target = .ok (r, w')) : Joins w id addr w' := by
  rw [connectTo] at h
  split at h
  · cases h
    exact .refused
  · cases h
    exact .queued target htarget

omit [ManagedTables T] in
theorem connectSocket_cases (h : w.connectSocket id addr = .ok (r, w')) : Joins w id addr w' := by
  rw [connectSocket] at h
  split at h
  next hunix => exact connectTo_cases (by rw [targetKey, if_pos hunix]) h
  rename_i hunix
  split at h
  next hinet =>
    split at h
    next n hport =>
      exact connectTo_cases (by rw [targetKey, if_neg hunix, if_pos hinet, hport]; rfl) h
    · cases h
  · cases h
    exact .refused

theorem moves_joins (h : Joins w id addr w') (hlt : id < w.ipc.sockets.nextSocketId)
    (hinet : ∀ k, w.ipc.pendingInet k ≠ some id)
    (hsingle : rules.strict ipcSocket → Single w.look id ∧ ¬ rules.barred id) :
    Shifts rules n w w' := by
  cases h with
  | queued target => exact .of_move (.join w.view id target hlt hinet hsingle) (zero_le n)
  | refused => exact .refl _

/-- The pipe a socket sends on counts one write end less. -/
def World.hungUp (w : World T R) (sock : SocketInfo) : World T R :=
  w.withIpc (·.modifyArc? sock.sendpipe PipeBuffer.decrWriteRef)

inductive Shuts (w : World T R) (cage fd : Nat) (how : Int) : World T R → Prop
  | same (h : how = shutWr ∨ how = shutRdwr → ∀ e, w.look (cage, fd) = some e →
      e.fdkind = ipcSocket → w.ipc.sockets.sockets e.underfd = none) : Shuts w cage fd how w
  | state (e : FDTableEntry) (state : ConnState) (he : w.look (cage, fd) = some e)
      (hkind : e.fdkind = ipcSocket) (hhow : how = shutRd) :
      Shuts w cage fd how (w.withIpc (·.setState e.underfd state))
  | hangsUp (e : FDTableEntry) (sock : SocketInfo) (state : ConnState)
      (he : w.look (cage, fd) = some e) (hkind : e.fdkind = ipcSocket)
      (hsock : w.ipc.sockets.sockets e.underfd = some sock) (hhow : how = shutWr ∨ how = shutRdwr) :
      Shuts w cage fd how ((w.hungUp sock).withIpc (·.setState e.underfd state))

theorem moves_shuts (h : Shuts w cage fd how w')
    (hclean : rules.strict ipcSocket → how = shutWr ∨ how = shutRdwr →
      ∀ e sock, w.look (cage, fd) = some e → e.fdkind = ipcSocket →
        w.ipc.sockets.sockets e.underfd = some sock → sock.sendpipe = none) :
    Shifts rules n w w' := by
  cases h with
  | same => exact .refl _
  | state => exact moves_keeps _ (keeps_setState w.ipc _ _)
  | hangsUp e sock _ he hkind hsock hhow =>
    by_cases hs : rules.strict ipcSocket
    · have hup : w.hungUp sock = w := by
        rw [hungUp, hclean hs hhow e sock he hkind hsock]
        rfl
      rw [hup]
      exact moves_keeps _ (keeps_setState w.ipc _ _)
    have hup : Shifts rules 0 w (w.hungUp sock) :=
      .of_move (.hangUp w.view e.underfd sock hsock hs) (le_refl 0)
    exact hup.trans (moves_keeps _ (keeps_setState (w.hungUp sock).ipc _ _))

theorem moves_epollCtlIpc {event : Option EpollEvent}
    (h : w.epollCtlIpc cage epfd op fd event = .ok (r, w')) : Shifts rules n w w' := by
  have hset : ∀ (v : World T R) n f, Shifts rules n v (v.withIpc (·.setTargets cage epfd f)) :=
    fun v n f => moves_keeps _ (keeps_epollTargets v.ipc _)
  simp only [epollCtlIpc] at h
  split at h
  · split at h
    · cases h
      exact .refl _
    split at h
    · cases h
      exact hset w n _
    split at h
    · cases h
      exact hset w n _
    · cases h
      exact (hset w 0 _).trans (hset _ n _)
  split at h
  · split at h
    · split at h
      · cases h
        exact hset w n _
      · cases h
        exact .refl _
    · cases h
      exact .refl _
  · cases h
    exact .refl _

theorem moves_writeTurn (hp : w.ipc.arcs[arc]? = some p) (src : List UInt8)
    (total : Nat) (nonblocking interrupted : Bool) (copyLeft copyRight : Option (List UInt8)) :
    Shifts rules n w { w with ipc := w.ipc.modifyArc arc fun _ =>
      (p.writeTurn src total nonblocking interrupted copyLeft copyRight).2.2 } := by
  have hring : (p.writeTurn src total nonblocking interrupted copyLeft copyRight).2.2 =
      { p with ring := (p.pushFromCage src total copyLeft copyRight).2.ring } := by
    rw [PipeBuffer.writeTurn]
    split <;> rfl
  rw [hring]
  exact .of_move (.keeps w.view _ (keeps_ring hp _)) (zero_le n)

theorem moves_readTurn (hp : w.ipc.arcs[arc]? = some p) (mem : List UInt8)
    (nonblocking interrupted okLeft okRight : Bool) :
    Shifts rules n w { w with ipc := w.ipc.modifyArc arc fun _ =>
      (p.readTurn mem nonblocking interrupted okLeft okRight).2.2 } := by
  have hring : (p.readTurn mem nonblocking interrupted okLeft okRight).2.2 =
      { p with ring := (p.popToCage mem mem.length okLeft okRight).2.2.ring } := by
    rw [PipeBuffer.readTurn]
    split <;> rfl
  rw [hring]
  exact .of_move (.keeps w.view _ (keeps_ring hp _)) (zero_le n)

theorem moves_resumeWrite {total : Nat}
    (h : w.resumeWrite arc src total nonblocking interrupted copyLeft copyRight = .ok (r, w')) :
    Shifts rules n w w' := by
  rw [World.resumeWrite] at h
  split at h
  · cases h
  next hp =>
    cases h
    exact moves_writeTurn hp _ _ _ _ _ _

theorem moves_resumeRead
    (h : w.resumeRead arc mem nonblocking interrupted okLeft okRight = .ok (r, w')) :
    Shifts rules n w w' := by
  rw [World.resumeRead] at h
  split at h
  · cases h
  next hp =>
    cases h
    exact moves_readTurn hp _ _ _ _ _

variable [LawfulManagedTables T]

theorem moves_socketUnix (hw : Tidy (fdLimit T) w.view)
    (h : w.socketUnix cage socktype = .ok (r, w')) : Shifts rules n w w' := by
  refine (moves_keeps (·.withSockets fun s => (s.createSocket afUnix socktype).2)
    (keeps_create w.ipc afUnix socktype)).trans ?_
  rw [socketUnix] at h
  split at h
  next halloc =>
    cases h
    refine moves_put (put_of_getUnused (w := w.withIpc _) halloc) pipe_ne_socket.symm fun _ =>
      ⟨lt_succ_self _, fun k hk => ?_, fun sock hsock => ?_⟩
    · exact absurd (hw.reg.inet k _ hk).1 (lt_irrefl _)
    · change update w.ipc.sockets.sockets w.ipc.sockets.nextSocketId _
        w.ipc.sockets.nextSocketId = some sock at hsock
      rw [update_self] at hsock
      cases hsock
      exact ⟨rfl, rfl⟩
  · cases h
    exact moves_keeps (w := w.withIpc _) _ (keeps_remove _ _)

theorem moves_socket (hw : Idle w) (ht : Tidy (fdLimit T) w.view)
    (h : w.socket cage domain socktype answer = .ok (r, w')) : Shifts rules n w w' := by
  have hens := ensured_ensureCageFdtable hw cage
  have hopen : Shifts rules 0 w (w.ensureCageFdtable cage) := moves_ensured hens
  refine hopen.trans ?_
  rw [World.socket] at h
  split at h
  · rcases hopen.moves with ⟨_, _, hmoves⟩
    exact moves_socketUnix (tidy_moves hmoves ht) h
  split at h
  · cases h
    exact .refl _
  split at h
  · rcases (bind_eq_ok _ _ _).mp h with ⟨⟨r1, w1⟩, hr, hrest⟩
    have hidle : Idle (w.ensureCageFdtable cage) := hens.pending.trans hw
    have hens1 := ensured_ensureCageFdtable hidle cage
    refine (moves_ensured hens1).trans ?_
    rw [registerKernelFd] at hr
    split at hr
    next fd _ halloc =>
      cases hr
      have hput := put_of_getUnused halloc
      have hfd : asI32 (fd : Int) = fd := asI32_natCast (lt_of_lt_of_le hput.lt limit_le)
      rw [hfd] at hrest
      cases hrest
      refine (moves_put_plain hput (plain_kernel ..)).trans ?_
      exact .of_move (.track _ cage fd socktype hput.lt) (zero_le n)
    · cases hr
      cases hrest
      exact .refl _
  · exact moves_registerKernelFd (hens.pending.trans hw) h

theorem moves_socketpair (hw : Idle w) (h : w.socketpair cage domain socktype = .ok (r, w'))
    (hclean : rules.strict ipcSocket → ∃ fd1 fd2, fd1 ≠ fd2 ∧
      w.freeIn cage fd1 = true ∧ w.freeIn cage fd2 = true) : Shifts rules n w w' := by
  have hens := ensured_ensureCageFdtable hw cage
  refine (moves_ensured hens).trans ?_
  rw [World.socketpair] at h
  generalize w.ensureCageFdtable cage = v at hens h ⊢
  simp only at h
  split at h
  next hdomain =>
    rw [hdomain] at h
    split at h
    next hnone =>
      cases h
      refine .of_move (.lostPair v.view socktype fun hs => ?_) (zero_le n)
      rcases hclean hs with ⟨a, _, _, ha, _⟩
      rcases look_of_freeIn ha hens with ⟨hlt, hfree⟩
      exact getUnused_none _ _ _ hens.table hnone a hlt hfree
    rename_i fd1 fds1 halloc1
    have hput1 := put_of_getUnused (w := v.withIpc (·.createSocketpair afUnix socktype)) halloc1
    split at h
    next hnone =>
      -- One of two free numbers is still free after the first is taken.
      have hlax : ¬ rules.strict ipcSocket := by
        intro hs
        rcases hclean hs with ⟨a, b, hab, ha, hb⟩
        have hfull := getUnused_none _ _ _ ((congrFun hput1.hasTable cage).trans hens.table) hnone
        have hone : ∀ c, w.freeIn cage c = true → c = fd1 := by
          intro c hc
          by_contra hne
          rcases look_of_freeIn hc hens with ⟨hlt, hfree⟩
          refine hfull c hlt ((congrFun hput1.look (cage, c)).trans ?_)
          exact (update_of_ne (fun heq => hne (Prod.mk.inj heq).2) ..).trans hfree
        exact hab ((hone a ha).trans (hone b hb).symm)
      cases h
      have hdrop := drop_of_closeFd ((congrFun hput1.look (cage, fd1)).trans (update_self ..))
      have hlook : _ = v.look := hdrop.look.trans (by
        rw [hput1.look, update_idem]
        exact (update_eq_self_iff ..).mpr hput1.free.symm)
      exact .of_moves ((Moves.one (.lostPair v.view socktype hlax)).trans
        (.one (.leak ⟨v.look, v.ipc.createSocketpair afUnix socktype⟩
          (socketEntry v.ipc.sockets.nextSocketId socktype) hlax))) (zero_le n) hlook
        hdrop.ipc hdrop.pending
    next fd2 _ halloc2 =>
      cases h
      have hput2 := put_of_getUnused
        (w := { v.withIpc (·.createSocketpair afUnix socktype) with fds := fds1 }) halloc2
      rcases hput1.both hput2 with ⟨⟨hne, hfree2⟩, hlook⟩
      exact .of_moves (.one (.pair v.view (cage, fd1) (cage, fd2) socktype hput1.free hfree2 hne))
        (zero_le n) hlook rfl rfl
  · cases h
    exact .refl _

theorem moves_takeOver (hw : Tidy (fdLimit T) w.view) (ht : w.hasTable cage = true)
    (hid : w.ipc.pendingInet (cage, fd) = some id) (hdrop : w.MayDrop rules (cage, fd)) :
    let w' := w.takeOver cage fd id (w.look (cage, fd))
    Shifts rules 0 w w' ∧ Single w'.look id ∧
      id < w'.ipc.sockets.nextSocketId ∧ ∀ k, w'.ipc.pendingInet k ≠ some id := by
  let e : FDTableEntry := ⟨ipcSocket, id, (w.look (cage, fd)).any FDTableEntry.shouldCloexec,
    ((w.look (cage, fd)).map FDTableEntry.perfdinfo).getD 0⟩
  have hset : Sets w (cage, fd) e _ := set_of_getSpecific ht (hw.reg.inet_lt _ id hid)
  have hbare : Bare (w.ipc.dropPendingInet cage fd) id := by
    refine ⟨(hw.reg.inet _ id hid).1, fun k hk => ?_, (hw.reg.inet _ id hid).2⟩
    change update w.ipc.pendingInet (cage, fd) none k = some id at hk
    rw [update_apply] at hk
    split at hk
    · cases hk
    next hne => exact hne (hw.reg.inet_inj k _ id hk hid)
  have hipc : (w.getSpecific cage fd e).ipc.dropPendingInet cage fd =
      ((w.withIpc (·.dropPendingInet cage fd)).fire (w.look (cage, fd))).ipc := by
    rw [hset.ipc]
    cases w.look (cage, fd) with
    | none => rfl
    | some old =>
      change (w.ipc.closeHandler old).dropPendingInet cage fd =
        (w.ipc.dropPendingInet cage fd).closeHandler old
      rw [closeHandler_eq_lower, closeHandler_eq_lower, lower_dropPendingInet]
      rfl
  have hset' : Sets (w.withIpc (·.dropPendingInet cage fd)) (cage, fd) e
      ((w.getSpecific cage fd e).withIpc (·.dropPendingInet cage fd)) :=
    ⟨hset.look, hset.hasTable, hipc, hset.pending⟩
  have hshifts : Shifts rules 0 w ((w.getSpecific cage fd e).withIpc (·.dropPendingInet cage fd)) :=
    (moves_keeps _ (keeps_dropPendingInet w.ipc cage fd)).trans
      (moves_set_put hset' pipe_ne_socket.symm (fun _ => hbare) hdrop)
  have hlook : (w.getSpecific cage fd e).look (cage, fd) = some e := by
    rw [hset.look, update_self]
  rcases hshifts.moves with ⟨_, _, hmoves⟩
  refine ⟨hshifts, ⟨(cage, fd), e, hlook, rfl, rfl, fun j e' hj hk hu => ?_⟩,
    (tidy_moves hmoves hw).named.socket (cage, fd) e hlook rfl⟩
  -- Nobody had a descriptor for a socket that a number was kept for.
  change (w.getSpecific cage fd e).look j = some e' at hj
  rw [hset.look, update_apply] at hj
  split at hj
  next hjk => exact hjk
  · exact absurd hid (hu ▸ (hw.named.socket j e' hj hk).2 (cage, fd))

theorem moves_bind (hw : Idle w) (ht : Tidy (fdLimit T) w.view)
    (h : w.bind cage fd addr answer = .ok (r, w'))
    (hbar : (w.ipc.pendingInet (cage, fd)).isSome = true → w.MayDrop rules (cage, fd)) :
    Shifts rules n w w' := by
  rw [World.bind] at h
  split at h
  · exact moves_forward hw h
  rw [lookupIpcFd_idle hw] at h
  simp only at h
  split at h
  · cases h
    exact moves_keeps _ (keeps_bindSocket w.ipc _ _)
  split at h
  next socketId hpending =>
    split at h
    · rw [bindInet, translateToUnderfd_idle hw] at h
      split at h
      · cases h
      split at h
      · simp only at h
        split at h
        next htable =>
          cases h
          have htaken := moves_takeOver ht htable hpending (hbar (by rw [hpending]; rfl))
          exact htaken.1.trans (moves_keeps _ (keeps_bindSocket _ _ _))
        · cases h
      · rw [forwardWithFd1_idle (w := w.withIpc (·.abandon cage fd socketId)) hw h]
        exact moves_abandon w cage fd socketId
    · exact moves_forward hw h
  · exact moves_forward hw h

theorem moves_listen (hw : Idle w) (h : w.listen cage fd answer = .ok (r, w')) :
    Shifts rules n w w' := by
  rw [World.listen, lookupIpcFd_idle hw] at h
  split at h
  · exact moves_forward hw h
  split at h
  · cases h
    exact moves_keeps _ (keeps_setState w.ipc _ _)
  · cases h
    exact .refl _

inductive Connects (w : World T R) (cage fd : Nat) (addr : List UInt8) : World T R → Prop
  | own (e : FDTableEntry) (w' : World T R) (he : w.look (cage, fd) = some e)
      (hkind : e.fdkind = ipcSocket) (h : Joins w e.underfd addr w') : Connects w cage fd addr w'
  | takesOver (socketId : Nat) (w' : World T R)
      (hpending : w.ipc.pendingInet (cage, fd) = some socketId) (ht : w.hasTable cage = true)
      (h : Joins (w.takeOver cage fd socketId (w.look (cage, fd))) socketId addr w') :
      Connects w cage fd addr w'
  | abandons (socketId : Nat) :
      Connects w cage fd addr (w.withIpc (·.abandon cage fd socketId))
  | same : Connects w cage fd addr w

theorem connect_cases (hw : Idle w) (h : w.connect cage fd addr answer = .ok (r, w')) :
    Connects w cage fd addr w' := by
  have hforward : ∀ {r w'}, w.forwardWithFd1 cage fd answer = .ok (r, w') →
      Connects w cage fd addr w' := by
    intro r w' h
    rw [forwardWithFd1_idle hw h]
    exact .same
  rw [World.connect] at h
  split at h
  · exact hforward h
  rw [lookupIpcFd_idle hw] at h
  simp only at h
  split at h
  next e he =>
    split at h
    next hkind => exact .own e w' (ipcEntry_eq_some.mp he).1 hkind (connectSocket_cases h)
    · exact hforward h
  split at h
  · exact hforward h
  rename_i socketId hpending
  split at h
  · split at h
    · split at h
      next ht =>
        rw [translateToUnderfd_idle hw] at h
        exact .takesOver socketId w' hpending ht (connectSocket_cases h)
      · cases h
    · rw [forwardWithFd1_idle (w := w.withIpc (·.abandon cage fd socketId)) hw h]
      exact .abandons socketId
  · exact hforward h

theorem moves_connect (hw : Tidy (fdLimit T) w.view) (h : Connects w cage fd addr w')
    (hclean : rules.strict ipcSocket → ∀ e, w.look (cage, fd) = some e → e.fdkind = ipcSocket →
      Single w.look e.underfd)
    (hbar : w.MayDup rules (cage, fd) ∧
      ((w.ipc.pendingInet (cage, fd)).isSome = true → ¬ rules.kept (cage, fd)))
    (hinet : ∀ k id, w.ipc.pendingInet k = some id → ¬ rules.barred id) :
    Shifts rules n w w' := by
  cases h with
  | own e _ he hkind hjoin =>
    rcases hw.named.socket (cage, fd) e he hkind with ⟨hlt, hfree⟩
    exact moves_joins hjoin hlt hfree fun hs => ⟨hclean hs e he hkind, hbar.1 e he hkind⟩
  | takesOver id _ hid ht hjoin =>
    rcases moves_takeOver hw ht hid ⟨hbar.1, hbar.2 (by rw [hid]; rfl)⟩ with
      ⟨hmoves, hsingle, hlt, hfree⟩
    exact hmoves.trans (moves_joins hjoin hlt hfree fun _ => ⟨hsingle, hinet _ id hid⟩)
  | abandons id => exact moves_abandon w cage fd id
  | same => exact .refl _

theorem moves_acceptRound {addr : Str}
    (h : w.acceptRound cage listener addr nonblocking flags interrupted = .ok (r, w')) :
    Shifts rules n w w' := by
  rw [acceptRound] at h
  split at h
  next conn rest hqueue =>
    simp only at h
    split at h
    next fd fds halloc =>
      cases h
      have hput := put_of_getUnused
        (w := w.withIpc fun s => (s.leaveQueue addr rest).acceptSocket listener conn) halloc
      exact .of_moves
        (.one (.take w.view (cage, fd) addr conn rest listener flags hput.free hqueue))
        (zero_le n) hput.look rfl rfl
    · cases h
      exact .of_move (.keeps w.view _ (keeps_lost hqueue listener)) (zero_le n)
  · split at h
    · cases h
      exact .refl _
    split at h
    · cases h
      exact .refl _
    · cases h
      exact .refl _

theorem moves_accept4 (hw : Idle w) (h : w.accept4 cage fd flags interrupted answer = .ok (r, w')) :
    Shifts rules n w w' := by
  rw [World.accept4, lookupIpcFd_idle hw] at h
  simp only [translateToUnderfd_idle hw] at h
  split at h
  · split at h
    · rw [acceptIpcInner] at h
      split at h
      · cases h
        exact .refl _
      · exact moves_acceptRound h
    · cases h
      exact .refl _
  · rcases answered h with rfl | h
    · exact .refl _
    · exact moves_registerKernelFd hw h

omit [RingBuffer R] in
theorem shutdown_cases (hw : Idle w) {how : Int}
    (h : w.shutdown cage fd how answer = .ok (r, w')) : Shuts w cage fd how w' := by
  rw [World.shutdown, lookupIpcFd_idle hw] at h
  split at h
  next hnone =>
    rw [forwardWithFd1_idle hw h]
    refine .same fun _ e he hkind => ?_
    rw [ipcEntry_eq_some.mpr ⟨he, .inr hkind⟩] at hnone
    cases hnone
  rename_i e he
  have hlook := (ipcEntry_eq_some.mp he).1
  split at h
  next hkind =>
    split at h
    next sock hsock =>
      simp only [shutdownSocket] at h
      split at h
      next hhow =>
        cases h
        exact .state e _ hlook hkind hhow
      split at h
      next hhow =>
        cases h
        exact .hangsUp e sock _ hlook hkind hsock (.inl hhow)
      rename_i hwr
      split at h
      next hhow =>
        cases h
        exact .hangsUp e sock _ hlook hkind hsock (.inr hhow)
      rename_i hrdwr
      cases h
      exact .same fun hhow => absurd hhow (not_or.mpr ⟨hwr, hrdwr⟩)
    next hnone =>
      cases h
      refine .same fun _ e' he' _ => ?_
      rw [hlook] at he'
      cases he'
      exact hnone
  next hkind =>
    cases h
    refine .same fun _ e' he' hkind' => ?_
    rw [hlook] at he'
    cases he'
    exact absurd hkind' hkind

theorem moves_epollCreate1 (hw : Idle w) (h : w.epollCreate1 cage flags answer = .ok (r, w')) :
    Shifts rules n w w' := by
  rw [World.epollCreate1] at h
  split at h
  · cases h
    exact .refl _
  have hens := ensured_ensureCageFdtable hw cage
  rw [registerIpcEpollFd] at h
  split at h
  next halloc =>
    cases h
    refine (moves_ensured hens).trans
      ((moves_put_plain (put_of_getUnused halloc) (plain_epoll ..)).trans ?_)
    exact moves_keeps _ (keeps_epollTargets _ _)
  · cases h
    exact moves_ensured hens

theorem moves_epollCtl (hw : Idle w) {event : Option EpollEvent}
    (h : w.epollCtl cage epfd op fd event answer = .ok (r, w')) : Shifts rules n w w' := by
  rw [World.epollCtl] at h
  split at h
  · split at h
    · rw [lookupIpcFd_idle hw] at h
      simp only [translateToUnderfd_idle hw] at h
      split at h
      · exact moves_epollCtlIpc h
      · generalize (if w.hasTable cage then _ else _ : Option Nat) = under at h
        split at h
        · cases h
          exact .refl _
        · cases h
          exact .refl _
    · cases h
      exact .refl _
  · cases h
    exact .refl _

theorem moves_write (hw : Idle w)
    (h : w.write cage fd src interrupted copyLeft copyRight answer = .ok (r, w')) :
    Shifts rules n w w' := by
  rw [World.write, lookupIpcFd_idle hw] at h
  split at h
  · exact moves_forward hw h
  split at h
  · cases h
    exact .refl _
  split at h
  · cases h
    exact .refl _
  rename_i p hp
  split at h
  · cases h
    exact .refl _
  split at h
  · cases h
    exact .refl _
  · cases h
    exact moves_writeTurn hp _ _ _ _ _ _

theorem moves_read (hw : Idle w) {mem' : List UInt8}
    (h : w.read cage fd mem interrupted okLeft okRight answer = .ok ((r, w'), mem')) :
    Shifts rules n w w' := by
  rw [World.read, lookupIpcFd_idle hw] at h
  split at h
  · rcases (bind_eq_ok _ _ _).mp h with ⟨⟨r1, w1⟩, hfwd, hret⟩
    cases hret
    exact moves_forward hw hfwd
  split at h
  · cases h
    exact .refl _
  split at h
  · cases h
    exact .refl _
  rename_i p hp
  split at h
  · cases h
    exact .refl _
  · cases h
    exact moves_readTurn hp _ _ _ _ _

end Sockets

variable [LawfulManagedTables T]

/-- A clean call is made of moves and counts up at most as often as a table has
    numbers. -/
theorem serve_moves (hidle : Idle w) (hw : Tidy (fdLimit T) w.view) (hp : Promised w call = true)
    (hclean : Clean rules.strict w call) (hbar : Spares rules w call)
    (hkept : ∀ k, rules.kept k → w.look k ≠ none)
    (hinet : ∀ k id, w.ipc.pendingInet k = some id → ¬ rules.barred id)
    (h : w.serve call = .ok (r, w')) : Shifts rules (fdLimit T) w w' := by
  have hlimit : 1 ≤ fdLimit T := lt_of_succ_lt (lt_of_succ_lt limit_gt)
  cases call with
  | pipe | pipe2 => exact moves_pipe2 hidle h hclean
  | close => exact moves_close hidle h hbar
  | openPath => exact moves_openPath hidle h
  | openat => exact moves_openat hidle h
  | dup => exact (moves_dup hidle h hbar).mono hlimit
  | dup2 | dup3 => exact (moves_dup2 hidle h hclean hbar).mono hlimit
  | fcntl => exact (moves_fcntl hidle h hbar).mono hlimit
  | ioctl => exact moves_ioctl hidle h hclean
  | fork => exact moves_fork hidle hp h hbar hkept
  | exec => exact moves_exec hidle h hbar
  | exit => exact moves_exit h hbar
  | preexec => exact moves_preexec h
  | socket => exact moves_socket hidle hw h
  | socketpair => exact moves_socketpair hidle h hclean
  | bind => exact moves_bind hidle hw h hbar
  | listen => exact moves_listen hidle h
  | connect => exact moves_connect hw (connect_cases hidle h) hclean hbar hinet
  | accept | accept4 => exact moves_accept4 hidle h
  | shutdown => exact moves_shuts (shutdown_cases hidle h) hclean
  | epollCreate | epollCreate1 => exact moves_epollCreate1 hidle h
  | epollCtl => exact moves_epollCtl hidle h
  | read =>
    rcases (bind_eq_ok _ _ _).mp h with ⟨⟨⟨r1, w1⟩, mem'⟩, hread, hret⟩
    cases hret
    exact moves_read hidle hread
  | write => exact moves_write hidle h
  | resumeRead => exact moves_resumeRead h
  | resumeWrite => exact moves_resumeWrite h
  | resumeAccept => exact moves_acceptRound h

theorem settled_serve (hw : Settled w) (hp : Promised w call = true)
    (h : w.serve call = .ok (r, w')) : Settled w' := by
  rcases serve_moves hw.idle hw.tidy hp (clean_lax w call)
    (spares_of_loses (fun _ => False) (fun _ => False) fun _ hk => hk.elim)
    (fun _ hk => hk.elim) (fun _ _ _ => id) h with ⟨⟨_, _, hmoves⟩, hpending⟩
  exact ⟨hpending.trans hw.idle, tidy_moves hmoves hw.tidy⟩

/-- What a call does not take away stays, for the same end of the same thing. -/
theorem serve_stays (hw : Settled w) (hp : Promised w call = true) (h : w.serve call = .ok (r, w'))
    {k : Nat × Nat} {e : FDTableEntry} (hk : w.look k = some e) (hl : Loses w call k = false) :
    ∃ e', w'.look k = some e' ∧ Alike e e' := by
  have hkept : ∀ j, j = k → w.look j ≠ none := by
    rintro j rfl
    rw [hk]
    simp
  rcases serve_moves hw.idle hw.tidy hp (clean_lax w call)
    (spares_of_loses (fun _ => False) (· = k) fun j hj => hj ▸ hl) hkept (fun _ _ _ => id) h with
    ⟨⟨_, _, hmoves⟩, _⟩
  exact hmoves.stays rfl hk

end LindGrates.Ipc
