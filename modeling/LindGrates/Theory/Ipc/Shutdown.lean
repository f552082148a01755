import LindGrates.Theory.Ipc.Pipes
import LindGrates.Theory.Ipc.SocketRefs
import LindGrates.Theory.Ipc.Turns

/-!
# Sockets Over Whole Runs

Runs remember which sockets have been shut down for writing. The handler counts down
once per call, whatever the number of descriptors and the calls before, and writing
does not look at the state a shutdown leaves behind. The pipe a socket sends on
counts the socket's descriptors as long as such a socket had one descriptor at that
time and is left alone afterwards.

## Main definitions

* `Tracked`: The state, and the sockets that have been shut down.
* `SocketCareful`: The condition on a call.

## Theorems

* `socket_refs_exact`: The peer reads zero bytes after the shutdown, and before it only
  when no descriptor is left.
* `socket_refs_lost`: A shut down socket with two descriptors whose peer waits.
-/

namespace LindGrates.Ipc

open FdTables ManagedTables LawfulFdTables World RingBuffer Option

variable {look : Nat × Nat → Option FDTableEntry} {cage id fd : Nat} {barred : Nat → Prop}
  {shut : List Nat} {how : Int}

/-- The state, and the sockets that have been shut down for writing. -/
structure Tracked (T R : Type) where
  world : World T R
  shut : List Nat

section Tracked

variable {T R : Type} [ManagedTables T]

/-- The socket a call shuts down for writing. -/
def shutBy (w : World T R) : Call → Option Nat
  | .shutdown cage fd how _ =>
    if how = shutWr ∨ how = shutRdwr then socketEnds w.look (cage, fd) else none
  | _ => none

namespace Tracked

def Start (t : Tracked T R) : Prop :=
  Initial t.world ∧ t.shut = []

def step [RingBuffer R] (t : Tracked T R) (call : Call) : Option (Tracked T R) :=
  (t.world.step call).map fun w => ⟨w, (shutBy t.world call).toList ++ t.shut⟩

/-- A descriptor stands for a socket that is shut down. -/
def bars (t : Tracked T R) (k : Nat × Nat) : Bool :=
  (socketEnds t.world.look k).any fun id => t.shut.contains id

def isSocket (t : Tracked T R) (k : Nat × Nat) : Bool :=
  (socketEnds t.world.look k).isSome

/-- References of sockets are counted right, and sockets that are shut down are barred. -/
def rules (t : Tracked T R) : Rules :=
  ⟨(· = ipcSocket), (· ∈ t.shut), fun _ => False⟩

/-- A duplicate onto another number: neither stands for a socket that is shut
    down, and a socket is duplicated onto a number a table has. -/
def mayRedirect (t : Tracked T R) (cage oldfd newfd : Nat) : Bool :=
  !t.bars (cage, oldfd) && !t.bars (cage, newfd) &&
    (!t.isSocket (cage, oldfd) || decide (oldfd = newfd) || decide (newfd < fdLimit T))

end Tracked

/-- The call leaves sockets that are shut down alone: it does not duplicate,
    close, write to, connect or shut them down again. It does not set a flag of a
    socket with `FIONBIO`, does not duplicate one onto a number no table has and
    makes a pair only where two numbers are free. -/
def SocketSafe (t : Tracked T R) : Call → Bool
  | .close cage fd _ => !t.bars (cage, fd)
  | .dup cage fd _ => !t.bars (cage, fd)
  | .dup2 cage oldfd newfd _ => t.mayRedirect cage oldfd newfd
  | .dup3 cage oldfd newfd _ _ => t.mayRedirect cage oldfd newfd
  | .fcntl cage fd op _ _ => !t.bars (cage, fd) || !decide (op = fDupfd ∨ op = fDupfdCloexec)
  | .ioctl cage fd request arg _ =>
    !t.isSocket (cage, fd) || !decide (request = fionbio) || arg.isNone
  | .fork parent _ _ _ => (List.range (fdLimit T)).all fun fd => !t.bars (parent, fd)
  | .exec cage _ => (List.range (fdLimit T)).all fun fd =>
    !t.bars (cage, fd) || !(t.world.look (cage, fd)).any FDTableEntry.shouldCloexec
  | .exit cage _ => (List.range (fdLimit T)).all fun fd => !t.bars (cage, fd)
  | .socketpair cage _ _ =>
    decide (2 ≤ ((List.range (fdLimit T)).filter (t.world.freeIn cage)).length)
  | .bind cage fd _ _ => !t.bars (cage, fd) || (t.world.ipc.pendingInet (cage, fd)).isNone
  | .connect cage fd _ _ => !t.bars (cage, fd)
  | .write cage fd _ _ _ _ _ => !t.bars (cage, fd)
  | .shutdown cage fd how _ => !t.bars (cage, fd) || !decide (how = shutWr ∨ how = shutRdwr)
  | _ => true

/-- A socket that is connected, or that has a pipe and is shut down for writing,
    has one descriptor at that time. -/
def OneDescriptor (w : World T R) : Call → Prop
  | .connect cage fd _ _ => ∀ id, socketEnds w.look (cage, fd) = some id → Single w.look id
  | .shutdown cage fd how _ => how = shutWr ∨ how = shutRdwr →
      ∀ id, socketEnds w.look (cage, fd) = some id → sendPipe w.ipc id ≠ none → Single w.look id
  | _ => True

/-- The counters of every socket have room for as many descriptors as a table
    has numbers. -/
def SocketRoomy (w : World T R) : Bool :=
  (List.range w.ipc.sockets.nextSocketId).all fun id => (sent w.ipc id).all fun c =>
    decide (c.1 + fdLimit T < 2 ^ 32)

/-- A call that counts no reference of a socket wrongly. -/
structure SocketCareful (t : Tracked T R) (call : Call) : Prop where
  promised : Promised t.world call = true
  safe : SocketSafe t call = true
  single : OneDescriptor t.world call
  roomy : SocketRoomy t.world = true

/-- A call reads at least one byte and less than `2 ^ 31` from a pipe. -/
def ReadsFrom (w : World T R) (a : Nat) : Call → Prop
  | .read cage fd mem _ _ _ _ => mem ≠ [] ∧ mem.length < 2 ^ 31 ∧
      ∃ e, w.ipcEntry (cage, fd) = some e ∧ w.ipc.readPipe e = some a
  | .resumeRead arc mem _ _ _ _ => mem ≠ [] ∧ mem.length < 2 ^ 31 ∧ arc = a
  | _ => False

end Tracked

section Conditions

variable {T R : Type} [ManagedTables T] {t : Tracked T R} {call : Call} {k : Nat × Nat}
  {e : FDTableEntry}

theorem socketEnds_of_look (he : look k = some e)
    (hkind : e.fdkind = ipcSocket) : socketEnds look k = some e.underfd := by
  rw [socketEnds, he]
  exact socketEnd_eq_some.mpr ⟨hkind, rfl⟩

theorem mayDup_of_bars (h : t.bars k = false) : t.world.MayDup t.rules k := by
  intro e he hkind hmem
  rw [Tracked.bars, socketEnds_of_look he hkind] at h
  exact absurd (List.contains_iff_mem.mpr hmem)
    (by rw [show t.shut.contains _ = false from h]; simp)

theorem isSocket_of_look (he : t.world.look k = some e) (hkind : e.fdkind = ipcSocket) :
    t.isSocket k = true := by
  rw [Tracked.isSocket, socketEnds_of_look he hkind]
  rfl

theorem mayRedirect_eq {oldfd newfd : Nat} (h : t.mayRedirect cage oldfd newfd = true) :
    t.bars (cage, oldfd) = false ∧ t.bars (cage, newfd) = false ∧
      (t.isSocket (cage, oldfd) = true → oldfd = newfd ∨ newfd < fdLimit T) := by
  simp only [Tracked.mayRedirect, Bool.and_eq_true, Bool.not_eq_true', Bool.or_eq_true,
    decide_eq_true_eq] at h
  refine ⟨h.1.1, h.1.2, fun hs => ?_⟩
  rcases h.2 with (hno | heq) | hlt
  · rw [hs] at hno
    cases hno
  · exact .inl heq
  · exact .inr hlt

theorem spares_of_socketSafe [LawfulManagedTables T] (h : SocketSafe t call = true) :
    Spares t.rules t.world call := by
  have one : ∀ k, (!t.bars k) = true → t.world.MayDup t.rules k := by
    intro k hk
    rw [Bool.not_eq_true'] at hk
    exact mayDup_of_bars hk
  have all : ∀ cage, ((List.range (fdLimit T)).all fun fd => !t.bars (cage, fd)) = true →
      ∀ fd, t.world.MayDup t.rules (cage, fd) := by
    intro cage hall fd e he
    exact one _ (List.all_eq_true.mp hall fd (List.mem_range.mpr (lt_limit _ _ _ _ he))) e he
  cases call with
  | close => exact ⟨one _ h, id⟩
  | dup => exact one _ h
  | connect => exact ⟨one _ h, fun _ => id⟩
  | dup2 | dup3 =>
    rcases mayRedirect_eq h with ⟨hold, hnew, _⟩
    exact ⟨mayDup_of_bars hold, fun _ => ⟨mayDup_of_bars hnew, id⟩⟩
  | fcntl =>
    intro hop
    rw [SocketSafe, decide_eq_true hop, Bool.not_true, Bool.or_false] at h
    exact one _ h
  | fork parent => exact all parent h
  | exec =>
    intro fd e he hclo
    have hfd := List.all_eq_true.mp h fd (List.mem_range.mpr (lt_limit _ _ _ _ he))
    rw [he, any_some, hclo, Bool.not_true, Bool.or_false] at hfd
    exact ⟨one _ hfd, id⟩
  | exit cage => exact fun fd => ⟨all cage h fd, id⟩
  | bind =>
    intro hsome
    rw [SocketSafe, isNone_eq_false_iff.mpr hsome, Bool.or_false] at h
    exact ⟨one _ h, id⟩
  | _ => exact trivial

theorem two_free {w : World T R}
    (h : 2 ≤ ((List.range (fdLimit T)).filter (w.freeIn cage)).length) :
    ∃ a b, a ≠ b ∧ w.freeIn cage a = true ∧ w.freeIn cage b = true := by
  have hnodup : ((List.range (fdLimit T)).filter (w.freeIn cage)).Nodup :=
    List.nodup_range.filter _
  rcases hl : (List.range (fdLimit T)).filter (w.freeIn cage) with _ | ⟨a, l⟩
  · rw [hl] at h
    exact absurd h (by decide)
  rcases l with _ | ⟨b, l⟩
  · rw [hl] at h
    exact absurd h (by simp)
  have hmem : ∀ x ∈ a :: b :: l, w.freeIn cage x = true := by
    intro x hx
    rw [← hl] at hx
    exact (List.mem_filter.mp hx).2
  rw [hl, List.nodup_cons] at hnodup
  refine ⟨a, b, fun heq => hnodup.1 ?_, hmem a List.mem_cons_self,
    hmem b (List.mem_cons_of_mem a List.mem_cons_self)⟩
  rw [heq]
  exact List.mem_cons_self

theorem clean_of_socketSafe (h : SocketSafe t call = true) (hone : OneDescriptor t.world call)
    (hne : ∀ cage fd how answer, call ≠ .shutdown cage fd how answer) :
    Clean (· = ipcSocket) t.world call := by
  have redirect : ∀ cage oldfd newfd, t.mayRedirect cage oldfd newfd = true →
      ∀ e, t.world.ipcEntry (cage, oldfd) = some e → e.fdkind = ipcSocket →
        oldfd = newfd ∨ newfd < fdLimit T := fun cage oldfd newfd hsafe e he hkind =>
    (mayRedirect_eq hsafe).2.2 (isSocket_of_look (ipcEntry_eq_some.mp he).1 hkind)
  cases call with
  | pipe | pipe2 => exact fun hs => absurd hs pipe_ne_socket
  | dup2 cage oldfd newfd | dup3 cage oldfd newfd => exact redirect cage oldfd newfd h
  | ioctl _ _ _ arg =>
    intro hreq harg e he hkind
    rw [SocketSafe, isSocket_of_look (ipcEntry_eq_some.mp he).1 hkind, hreq] at h
    cases arg with
    | none => exact harg rfl
    | some => cases h
  | socketpair => exact fun _ => two_free (of_decide_eq_true h)
  | connect => exact fun _ e he hkind => hone e.underfd (socketEnds_of_look he hkind)
  | shutdown cage fd how answer => exact absurd rfl (hne cage fd how answer)
  | _ => exact trivial

theorem sendRoom_of_roomy {w : World T R} (hw : Registered (fdLimit T) w.ipc)
    (h : SocketRoomy w = true) : (sendMeter R).Room (fdLimit T) w.ipc := by
  intro id c hc
  change sent w.ipc id = some c at hc
  rcases bind_eq_some_iff.mp hc with ⟨a, ha, _⟩
  rcases bind_eq_some_iff.mp ha with ⟨sock, hsock, _⟩
  have hid := List.all_eq_true.mp h id (List.mem_range.mpr (hw.socket_lt id sock hsock))
  rw [hc] at hid
  exact of_decide_eq_true hid

end Conditions

section Runs

variable {T R : Type} [ManagedTables T] {t t' : Tracked T R} {call : Call}

structure SocketInv (t : Tracked T R) : Prop where
  settled : Settled t.world
  barring : Barring (· ∈ t.shut) t.world.ipc
  exact : SendExact (· ∈ t.shut) 0 t.world.view

theorem socketInv_start (h : t.Start) : SocketInv t := by
  rcases t with ⟨w, shut⟩
  rcases h with ⟨hinit, hshut⟩
  change shut = [] at hshut
  rw [hshut]
  refine ⟨settled_initial hinit, ⟨fun id h => ?_, fun id h => ?_⟩, ?_⟩
  · cases h
  · cases h
  · rcases hinit with ⟨fds, rfl, hnone⟩
    refine ⟨⟨fun id id' a h => ?_, fun addr conn h => ?_, fun addr => List.nodup_nil,
      fun addr addr' conn conn' h => ?_⟩, ⟨fun id c _ h => ?_, fun id c h => ?_⟩,
      fun id c _ h => ?_⟩
    · cases h
    · cases h
    · cases h
    · cases h
    · cases h
    · cases h

omit [ManagedTables T] in
theorem SendExact.bar {v : View R} (hv : SendExact barred 0 v)
    (hnone : sendPipe v.ipc id = none) : SendExact (fun id' => id' = id ∨ barred id') 0 v := by
  refine ⟨hv.owned, ⟨fun id' c hb hc => hv.live.exact id' c (fun h => hb (.inr h)) hc,
    hv.live.room⟩, fun id' c hb hc => ?_⟩
  rcases hb with rfl | hb
  · rw [sent, hnone] at hc
    cases hc
  · exact hv.shut id' c hb hc

variable {w w' : World T R}

theorem sendExact_shutdown {answer : Int} (hw : Settled w) (hv : SendExact (· ∈ shut) 0 w.view)
    (hsafe : SocketSafe ⟨w, shut⟩ (.shutdown cage fd how answer) = true)
    (hone : OneDescriptor w (.shutdown cage fd how answer)) (h : Shuts w cage fd how w') :
    SendExact (· ∈ (shutBy w (.shutdown cage fd how answer)).toList ++ shut) 0 w'.view := by
  -- The socket, if there is one, is barred from now on.
  have hbarred : ∀ id, shutBy w (.shutdown cage fd how answer) = some id →
      SendExact (fun id' => id' = id ∨ id' ∈ shut) 0 w'.view →
      SendExact (· ∈ (shutBy w (.shutdown cage fd how answer)).toList ++ shut) 0 w'.view := by
    intro id hid hexact
    rw [hid]
    have heq : (· ∈ (some id).toList ++ shut) = fun id' => id' = id ∨ id' ∈ shut := by
      funext id'
      exact propext (List.mem_cons ..)
    rwa [heq]
  have hnone : shutBy w (.shutdown cage fd how answer) = none → SendExact (· ∈ shut) 0 w'.view →
      SendExact (· ∈ (shutBy w (.shutdown cage fd how answer)).toList ++ shut) 0 w'.view := by
    intro hnone hexact
    rw [hnone]
    exact hexact
  cases h with
  | same hsame =>
    rcases hid : shutBy w (.shutdown cage fd how answer) with _ | id
    · exact hid ▸ hnone hid hv
    refine hid ▸ hbarred id hid (hv.bar ?_)
    rw [shutBy, ite_none_right_eq_some] at hid
    rcases bind_eq_some_iff.mp hid.2 with ⟨e, he, hend⟩
    rcases socketEnd_eq_some.mp hend with ⟨hkind, hunder⟩
    change (w.ipc.sockets.sockets id).bind _ = none
    rw [← hunder, hsame hid.1 e he hkind]
    rfl
  | state e state _ _ hhow =>
    refine hnone ?_ ?_
    · rw [shutBy, if_neg]
      rw [hhow]
      decide
    · exact hv.calm hw.tidy.reg (calm_keeps (keeps_setState w.ipc _ _)) fun _ _ _ => rfl
  | hangsUp e sock state he hkind hsock hhow =>
    have hid : shutBy w (.shutdown cage fd how answer) = some e.underfd := by
      rw [shutBy, if_pos hhow, socketEnds_of_look he hkind]
    refine hbarred e.underfd hid ?_
    have hcalm := calm_keeps (keeps_setState (w.hungUp sock).ipc e.underfd state)
    have hreg : Registered (fdLimit T) (w.hungUp sock).ipc :=
      (recounted_modifyArc? w.ipc sock.sendpipe PipeBuffer.decrWriteRef).registered hw.tidy.reg
    have hfree : ¬ e.underfd ∈ shut := by
      rw [SocketSafe, decide_eq_true hhow, Bool.not_true, Bool.or_false, Bool.not_eq_true'] at hsafe
      exact mayDup_of_bars hsafe e he hkind
    have hpipe : sendPipe w.ipc e.underfd = sock.sendpipe := by
      rw [sendPipe, hsock]
      rfl
    have hexact : SendExact (fun id' => id' = e.underfd ∨ id' ∈ shut) 0 (w.hungUp sock).view := by
      rcases hsend : sock.sendpipe with _ | _
      · have hup : w.hungUp sock = w := by
          rw [hungUp, hsend]
          rfl
        rw [hup]
        exact hv.bar (hpipe.trans hsend)
      refine sendExact_hangUp hv hw.tidy.reg hsock hfree (hone hhow e.underfd
        (socketEnds_of_look he hkind) ?_)
      rw [hpipe, hsend]
      simp
    exact hexact.calm hreg hcalm fun _ _ _ => rfl

theorem barring_shutBy (hw : Tidy (fdLimit T) w.view) (h : Barring (· ∈ shut) w.ipc) (call : Call) :
    Barring (· ∈ (shutBy w call).toList ++ shut) w.ipc := by
  have hnew : ∀ id, shutBy w call = some id →
      id < w.ipc.sockets.nextSocketId ∧ ∀ k, w.ipc.pendingInet k ≠ some id := by
    intro id hid
    cases call with
    | shutdown =>
      rw [shutBy, ite_none_right_eq_some] at hid
      rcases bind_eq_some_iff.mp hid.2 with ⟨e, he, hend⟩
      rcases socketEnd_eq_some.mp hend with ⟨hkind, rfl⟩
      exact hw.named.socket _ e he hkind
    | _ => cases hid
  refine ⟨fun id hid => ?_, fun id hid => ?_⟩
  · rcases List.mem_append.mp hid with hid | hid
    · exact (hnew id (mem_toList.mp hid)).1
    · exact h.lt id hid
  · rcases List.mem_append.mp hid with hid | hid
    · exact (hnew id (mem_toList.mp hid)).2
    · exact h.inet id hid

theorem Shuts.barring (h : Shuts w cage fd how w')
    (hb : Barring barred w.ipc) : Barring barred w'.ipc := by
  cases h with
  | same => exact hb
  | state => exact ⟨hb.lt, hb.inet⟩
  | hangsUp e sock =>
    have hup := hb.recounted
      (recounted_modifyArc? w.ipc sock.sendpipe PipeBuffer.decrWriteRef)
    exact ⟨hup.lt, hup.inet⟩

variable [RingBuffer R] [LawfulManagedTables T]

theorem socketInv_step (h : SocketInv t) (hcond : SocketCareful t call)
    (hstep : t.step call = some t') : SocketInv t' := by
  rcases t with ⟨w, shut⟩
  rcases hcond with ⟨hp, hsafe, hone, hroomy⟩
  rcases map_eq_some_iff.mp hstep with ⟨w', hworld, rfl⟩
  rcases serve_of_step hworld with ⟨r, hserve⟩
  have hsettled := settled_serve h.settled hp hserve
  have hlimit : fdLimit T ≤ 2 ^ 31 := limit_le
  by_cases hshut : ∃ cage fd how answer, call = .shutdown cage fd how answer
  · rcases hshut with ⟨cage, fd, how, answer, rfl⟩
    have hcases := shutdown_cases h.settled.idle hserve
    exact ⟨hsettled, hcases.barring (barring_shutBy h.settled.tidy h.barring _),
      sendExact_shutdown h.settled h.exact hsafe hone hcases⟩
  have hclean : Clean (· = ipcSocket) w call :=
    clean_of_socketSafe (t := ⟨w, shut⟩) hsafe hone fun cage fd how answer heq =>
      hshut ⟨cage, fd, how, answer, heq⟩
  rcases serve_moves h.settled.idle h.settled.tidy hp hclean (spares_of_socketSafe hsafe)
    (fun _ hk => hk.elim) (fun k id hk hid => h.barring.inet id hid k hk) hserve with
    ⟨⟨m, hm, hmoves⟩, _⟩
  have hroom := sendRoom_of_roomy h.settled.tidy.reg hroomy
  have hexact : SendExact (· ∈ shut) (m + 0) w.view :=
    ⟨h.exact.owned, ⟨h.exact.live.exact, fun id c hc => by have := hroom id c hc; omega⟩,
      h.exact.shut⟩
  have hinv := sendExact_moves hmoves h.settled.tidy h.barring hexact (by omega)
  have hnone : shutBy w call = none := by
    cases call with
    | shutdown cage fd how answer => exact absurd ⟨cage, fd, how, answer, rfl⟩ hshut
    | _ => rfl
  rw [hnone]
  exact ⟨hsettled, hinv.2, hinv.1⟩

theorem serve_readsFrom {a : Nat} {r : Option Int} {p : PipeBuffer R} (hidle : Idle w)
    (hp : w.ipc.arcs[a]? = some p) (h : ReadsFrom w a call) (hserve : w.serve call = .ok (r, w')) :
    ∃ mem nonblocking interrupted okLeft okRight, mem ≠ [] ∧ mem.length < 2 ^ 31 ∧
      r = (p.readTurn mem nonblocking interrupted okLeft okRight).1 := by
  cases call with
  | read _ _ mem interrupted okLeft okRight =>
    rcases h with ⟨hne, hlen, e, he, ha⟩
    rcases (bind_eq_ok _ _ _).mp hserve with ⟨⟨⟨r1, w1⟩, mem'⟩, hread, hret⟩
    cases hret
    rw [World.read, lookupIpcFd_idle hidle] at hread
    simp only [he, ha, hp] at hread
    rw [if_neg hne] at hread
    cases hread
    exact ⟨mem, _, interrupted, okLeft, okRight, hne, hlen, rfl⟩
  | resumeRead _ mem nonblocking interrupted okLeft okRight =>
    rcases h with ⟨hne, hlen, rfl⟩
    change w.resumeRead _ _ _ _ _ _ = _ at hserve
    rw [World.resumeRead, hp] at hserve
    cases hserve
    exact ⟨mem, nonblocking, interrupted, okLeft, okRight, hne, hlen, rfl⟩
  | _ => exact h.elim

theorem socketInv_runs (ht : Runs Tracked.Start Tracked.step SocketCareful t) : SocketInv t :=
  runs_inv (fun _ h => socketInv_start h) (fun _ _ _ h hcond hstep => socketInv_step h hcond hstep)
    t ht

/-- In every run of careful calls the pipe a socket sends on counts the socket's
    descriptors, and nothing once the socket is shut down for writing. As long as
    it is not and has a descriptor, nobody who reads from the pipe gets zero
    bytes; once it is, whoever reads from the drained pipe does. -/
theorem socket_refs_exact [LawfulRingBuffer R]
    (ht : Runs Tracked.Start Tracked.step SocketCareful t) {id a : Nat}
    (ha : sendPipe t.world.ipc id = some a) :
    ∃ p, t.world.ipc.arcs[a]? = some p ∧
      (id ∉ t.shut → p.writeRefs = tally (socketEnds t.world.look) id) ∧
      (id ∈ t.shut → p.writeRefs = 0) ∧
      ∀ call r w', ReadsFrom t.world a call → t.world.serve call = .ok (r, w') →
        (id ∉ t.shut → (∃ k, socketEnds t.world.look k = some id) → r ≠ some 0) ∧
        (id ∈ t.shut → p.hasData = false → r = some 0) := by
  have hinv := socketInv_runs ht
  rcases (apart_sendPipe hinv.settled.tidy.reg ha) with ⟨hlt, _⟩
  have hp : t.world.ipc.arcs[a]? = some t.world.ipc.arcs[a] := List.getElem?_eq_getElem hlt
  set p := t.world.ipc.arcs[a]
  have hsent : sent t.world.ipc id = some (p.writeRefs, p.eof) := by
    rw [sent, ha]
    change t.world.ipc.shown .write a = _
    rw [IpcState.shown, countsAt, hp]
    rfl
  refine ⟨p, hp, fun hid => (hinv.exact.live.exact id _ hid hsent).count, fun hid => ?_,
    fun call r w' hreads hserve => ?_⟩
  · exact (Prod.mk.inj (hinv.exact.shut id _ hid hsent)).1
  · rcases serve_readsFrom hinv.settled.idle hp hreads hserve with
      ⟨mem, nonblocking, interrupted, okLeft, okRight, hne, hlen, rfl⟩
    refine ⟨fun hid hopen hzero => ?_, fun hid hdrained => ?_⟩
    · have heof := (eof_of_readTurn hne hlen hzero).1
      rcases hinv.exact.live.exact id _ hid hsent with ⟨hcount, hiff⟩
      rcases hopen with ⟨k, hk⟩
      have hno := (tally_eq_zero (finitelyMany_bind socketEnd hinv.settled.tidy.named.finite)).mp
        (hcount.symm.trans (hiff.mp heof).2)
      exact hno k hk
    · refine readTurn_of_eof hlen (Prod.mk.inj (hinv.exact.shut id _ hid hsent)).2 ?_
      simpa [PipeBuffer.hasData, isEmpty] using hdrained

end Runs

/-- A careful call that neither connects nor shuts down. -/
def SocketPlain {T R : Type} [ManagedTables T] (t : Tracked T R) (call : Call) : Bool :=
  Promised t.world call && SocketSafe t call && SocketRoomy t.world &&
    match call with
    | .connect _ _ _ _ => false
    | .shutdown _ _ _ _ => false
    | _ => true

theorem careful_of_plain {T R : Type} [ManagedTables T] {t : Tracked T R} {call : Call}
    (h : SocketPlain t call = true) : SocketCareful t call := by
  simp only [SocketPlain, Bool.and_eq_true] at h
  refine ⟨h.1.1.1, h.1.1.2, ?_, h.1.2⟩
  cases call with
  | connect | shutdown => cases h.2
  | _ => exact trivial

theorem single_of_tally (h : tally (socketEnds look) id = 1) : Single look id := by
  rcases Set.ncard_eq_one.mp h with ⟨k, hk⟩
  have hmem : ∀ j, socketEnds look j = some id ↔ j = k := fun j =>
    (Set.ext_iff.mp hk j).trans Set.mem_singleton_iff
  rcases bind_eq_some_iff.mp ((hmem k).mpr rfl) with ⟨e, he, hend⟩
  rcases socketEnd_eq_some.mp hend with ⟨hkind, hunder⟩
  exact ⟨k, e, he, hkind, hunder, fun j e' he' hkind' hunder' =>
    (hmem j).mp (hunder' ▸ socketEnds_of_look he' hkind')⟩

abbrev QueueTracked := Tracked (MapTables 16) QueueRing

/-- A pair of sockets; one is duplicated, inherited and closed again, and has a
    byte to send. -/
def pairedRun : List Call :=
  [.socketpair 1 afUnix sockStream, .dup 1 3 0, .fork 1 false false 2,
    .write 1 3 [7] false none none 0, .exit 2 0, .close 1 5 0]

/-- The first socket of the pair is shut down for writing, and the second reads
    its byte. -/
def shutPair : Call :=
  .shutdown 1 3 shutWr 0

def readPair : Call :=
  .read 1 4 [0] false true true 0

/-- The pipe is drained and the peer reads zero bytes. -/
def pairEnded (t : QueueTracked) : Bool :=
  decide (t.shut = [0] ∧ (t.world.serve readPair).toOption.map Prod.fst = some (some 0) ∧
    sendPipe t.world.ipc 0 = some 0)

/-- One descriptor is counted for the first socket, which is shut down next. -/
def pairReady (t : QueueTracked) : Bool :=
  decide (sent t.world.ipc 0 = some (1, false) ∧ 0 ∉ t.shut ∧
    socketEnds t.world.look (1, 3) = some 0) &&
  (Promised t.world shutPair && SocketSafe t shutPair && SocketRoomy t.world) &&
  (t.step shutPair).any fun t₁ => SocketPlain t₁ readPair && (t₁.step readPair).any pairEnded

theorem socket_refs_exact_pairedRun :
    ∃ (t : QueueTracked) (p : PipeBuffer QueueRing),
      (t.shut = [0] ∧ (t.world.serve readPair).toOption.map Prod.fst = some (some 0)) ∧
      t.world.ipc.arcs[0]? = some p ∧
      (0 ∉ t.shut → p.writeRefs = tally (socketEnds t.world.look) 0) ∧
      (0 ∈ t.shut → p.writeRefs = 0) ∧
      ∀ call r w', ReadsFrom t.world 0 call → t.world.serve call = .ok (r, w') →
        (0 ∉ t.shut → (∃ k, socketEnds t.world.look k = some 0) → r ≠ some 0) ∧
        (0 ∈ t.shut → p.hasData = false → r = some 0) := by
  have := lawful_managedMapTables 16 (by decide) (by decide)
  have := lawful_queueRing
  have hrun : ∃ t : QueueTracked,
      Runs Tracked.Start Tracked.step (fun t call => SocketPlain t call = true) t ∧
      pairReady t = true :=
    exists_runs_replay pairedRun (⟨initial_emptyTables, rfl⟩ : Tracked.Start ⟨_, []⟩)
      (by decide +kernel)
  rcases hrun with ⟨t, hplain, hready⟩
  have ht := runs_mono (fun t call h => careful_of_plain h) t hplain
  simp only [pairReady, Bool.and_eq_true, decide_eq_true_eq, any_eq_true] at hready
  rcases hready with ⟨⟨⟨hsent, hopen, hend⟩, ⟨hp, hsafe⟩, hroomy⟩, t₁, hstep₁, hread, t₂, hstep₂,
    hended⟩
  have hone : OneDescriptor t.world shutPair := by
    intro _ id hid _
    rw [hend] at hid
    cases hid
    exact single_of_tally ((socketInv_runs ht).exact.live.exact 0 _ hopen hsent).1.symm
  have ht₁ := Runs.next t shutPair t₁ ht ⟨hp, hsafe, hone, hroomy⟩ hstep₁
  have ht₂ := Runs.next t₁ readPair t₂ ht₁ (careful_of_plain hread) hstep₂
  simp only [pairEnded, decide_eq_true_eq] at hended
  rcases socket_refs_exact ht₂ hended.2.2 with ⟨p, hexact⟩
  exact ⟨t₂, p, ⟨hended.1, hended.2.1⟩, hexact⟩

/-- A socket with two descriptors is shut down for writing. -/
def twiceRun : List Call :=
  [.socketpair 1 afUnix sockStream, .dup 1 3 0, .shutdown 1 3 shutWr 0]

/-- The pipe still counts a descriptor, the peer does not get to the end, and
    writing still succeeds. -/
theorem socket_refs_lost :
    ∃ t : QueueTracked, Runs Tracked.Start Tracked.step
        (fun t call => Promised t.world call = true) t ∧
      0 ∈ t.shut ∧ (sent t.world.ipc 0).map Prod.fst = some 1 ∧
      (t.world.serve (.write 1 3 [7] false none none 0)).toOption.map Prod.fst = some (some 1) :=
  exists_runs_replay twiceRun (⟨initial_emptyTables, rfl⟩ : Tracked.Start ⟨_, []⟩)
    (by decide +kernel)

end LindGrates.Ipc
