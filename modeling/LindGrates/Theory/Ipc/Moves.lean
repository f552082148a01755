import LindGrates.Theory.Ipc.Idle

/-!
# Moves

The tables and the registries together change in few ways, and the calls are
made of these. A move names what it does to both at once, so that a reference
goes away with the descriptor that held it and comes with the one that gets it.
Moves carry how often they count up, because the counters have 32 bits.

## Main definitions

* `View`: The tables and the registries.
* `Keeps`, `Bare`: Changes that touch no counter, and sockets that refer to no pipe.
* `Rules`: Which moves are not made. Some change a counter without a descriptor to
  match.
* `Move`, `Moves`: One move and several.

## Theorems

* `Moves.trans`: Moves follow one another, and their counts add up.
* `Moves.stays`: A kept descriptor stays.
-/

namespace LindGrates.Ipc

open FdTables ManagedTables Function

structure View (R : Type) where
  look : Nat × Nat → Option FDTableEntry
  ipc : IpcState R

def World.view {T R : Type} [ManagedTables T] (w : World T R) : View R :=
  ⟨w.look, w.ipc⟩

/-- Both entries stand for the same end of the same thing. -/
structure Alike (e e' : FDTableEntry) : Prop where
  fdkind : e'.fdkind = e.fdkind
  underfd : e'.underfd = e.underfd
  accmode : entryFlags e' &&& oAccmode = entryFlags e &&& oAccmode

theorem Alike.refl (e : FDTableEntry) : Alike e e :=
  ⟨rfl, rfl, rfl⟩

theorem Alike.trans {e₁ e₂ e₃ : FDTableEntry} (h1 : Alike e₁ e₂) (h2 : Alike e₂ e₃) :
    Alike e₁ e₃ :=
  ⟨h2.fdkind.trans h1.fdkind, h2.underfd.trans h1.underfd, h2.accmode.trans h1.accmode⟩

namespace PipeBuffer

structure Counts where
  writeRefs : Nat
  readRefs : Nat
  eof : Bool

def counts {R : Type} (p : PipeBuffer R) : Counts :=
  ⟨p.writeRefs, p.readRefs, p.eof⟩

end PipeBuffer

variable {R : Type}

/-- The registries change, but not which pipe belongs to what, and not the
    counters. -/
structure Keeps (s s' : IpcState R) : Prop where
  counts : s'.arcs.map PipeBuffer.counts = s.arcs.map PipeBuffer.counts
  pipes : s'.pipes = s.pipes
  nextPipeId : s'.nextPipeId = s.nextPipeId
  nextSocketId : s.sockets.nextSocketId ≤ s'.sockets.nextSocketId
  sockets : ∀ id sock', s'.sockets.sockets id = some sock' →
    (∃ sock, s.sockets.sockets id = some sock ∧ sock'.sendpipe = sock.sendpipe ∧
      sock'.recvpipe = sock.recvpipe) ∨
    s.sockets.nextSocketId ≤ id ∧ id < s'.sockets.nextSocketId ∧
      sock'.sendpipe = none ∧ sock'.recvpipe = none
  queues : ∀ addr,
    (s'.sockets.pendingConnections addr).Sublist (s.sockets.pendingConnections addr)
  inet : ∀ k id, s'.pendingInet k = some id → s.pendingInet k = some id

/-- A socket that has no pipes and that no number is kept for. -/
structure Bare (s : IpcState R) (id : Nat) : Prop where
  lt : id < s.sockets.nextSocketId
  inet : ∀ k, s.pendingInet k ≠ some id
  pipes : ∀ sock, s.sockets.sockets id = some sock → sock.sendpipe = none ∧ sock.recvpipe = none

/-- Exactly one descriptor stands for a socket. -/
def Single (look : Nat × Nat → Option FDTableEntry) (id : Nat) : Prop :=
  ∃ k e, look k = some e ∧ e.fdkind = ipcSocket ∧ e.underfd = id ∧
    ∀ j e', look j = some e' → e'.fdkind = ipcSocket → e'.underfd = id → j = k

/-- No counter changes without a descriptor of a strict kind to match, descriptors of a
    barred socket are neither duplicated nor dropped, and kept ones are not dropped. -/
structure Rules where
  strict : Nat → Prop
  barred : Nat → Prop
  kept : Nat × Nat → Prop

/-- An entry is not a descriptor of a barred socket. -/
def Rules.Unbarred (rules : Rules) (e : FDTableEntry) : Prop :=
  e.fdkind = ipcSocket → ¬ rules.barred e.underfd

variable [RingBuffer R]

/-- A single move, with how often it counts up. -/
inductive Move (limit : Nat) (rules : Rules) :
    Nat → View R → View R → Prop
  | keeps (v : View R) (s : IpcState R) (h : Keeps v.ipc s) :
      Move limit rules 0 v ⟨v.look, s⟩
  | track (v : View R) (cage fd : Nat) (socktype : BitVec 32) (hlt : fd < limit) :
      Move limit rules 0 v ⟨v.look, v.ipc.trackInet cage socktype fd⟩
  /-- A descriptor that refers to no pipe. -/
  | put (v : View R) (k : Nat × Nat) (e : FDTableEntry) (hfree : v.look k = none)
      (hkind : e.fdkind ≠ ipcPipe) (hbare : e.fdkind = ipcSocket → Bare v.ipc e.underfd) :
      Move limit rules 0 v ⟨update v.look k (some e), v.ipc⟩
  | dup (v : View R) (k j : Nat × Nat) (e₀ e : FDTableEntry) (hfree : v.look k = none)
      (hentry : v.look j = some e₀) (halike : Alike e₀ e)
      (hbar : rules.Unbarred e) :
      Move limit rules 1 v ⟨update v.look k (some e), v.ipc.bump e⟩
  | drop (v : View R) (k : Nat × Nat) (e : FDTableEntry) (hentry : v.look k = some e)
      (hbar : rules.Unbarred e) (hkept : ¬ rules.kept k) :
      Move limit rules 0 v ⟨update v.look k none, v.ipc.closeHandler e⟩
  | retag (v : View R) (k : Nat × Nat) (e e' : FDTableEntry) (hentry : v.look k = some e)
      (halike : Alike e e') : Move limit rules 0 v ⟨update v.look k (some e'), v.ipc⟩
  | pipe (v : View R) (k₁ k₂ : Nat × Nat) (flags : BitVec 32) (hfree₁ : v.look k₁ = none)
      (hfree₂ : v.look k₂ = none) (hne : k₁ ≠ k₂) :
      Move limit rules 0 v ⟨update (update v.look k₁
        (some (World.endEntry v.ipc.nextPipeId flags oRdonly))) k₂
        (some (World.endEntry v.ipc.nextPipeId flags oWronly)), v.ipc.newPipe⟩
  | pair (v : View R) (k₁ k₂ : Nat × Nat) (socktype : BitVec 32) (hfree₁ : v.look k₁ = none)
      (hfree₂ : v.look k₂ = none) (hne : k₁ ≠ k₂) :
      Move limit rules 0 v ⟨update (update v.look k₁
        (some (socketEntry v.ipc.sockets.nextSocketId socktype))) k₂
        (some (socketEntry (v.ipc.sockets.nextSocketId + 1) socktype)),
        v.ipc.createSocketpair afUnix socktype⟩
  | join (v : View R) (id : Nat) (target : Str) (hlt : id < v.ipc.sockets.nextSocketId)
      (hinet : ∀ k, v.ipc.pendingInet k ≠ some id)
      (hsingle : rules.strict ipcSocket → Single v.look id ∧ ¬ rules.barred id) :
      Move limit rules 0 v ⟨v.look, v.ipc.joinQueue id target⟩
  | take (v : View R) (k : Nat × Nat) (addr : Str) (conn : PendingConnection)
      (rest : List PendingConnection) (listener : Nat) (flags : BitVec 32)
      (hfree : v.look k = none)
      (hqueue : v.ipc.sockets.pendingConnections addr = conn :: rest) :
      Move limit rules 0 v ⟨update v.look k
        (some (socketEntry v.ipc.sockets.nextSocketId flags)),
        (v.ipc.leaveQueue addr rest).acceptSocket listener conn⟩
  /-- A reference is counted that no descriptor holds. -/
  | stray (v : View R) (e : FDTableEntry) (h : ¬ rules.strict e.fdkind) :
      Move limit rules 1 v ⟨v.look, v.ipc.bump e⟩
  /-- A reference is no longer counted that a descriptor may still hold. -/
  | leak (v : View R) (e : FDTableEntry) (h : ¬ rules.strict e.fdkind) :
      Move limit rules 0 v ⟨v.look, v.ipc.closeHandler e⟩
  | hangUp (v : View R) (id : Nat) (sock : SocketInfo)
      (hsock : v.ipc.sockets.sockets id = some sock) (h : ¬ rules.strict ipcSocket) :
      Move limit rules 0 v ⟨v.look, v.ipc.modifyArc? sock.sendpipe PipeBuffer.decrWriteRef⟩
  | lostPipe (v : View R) (h : ¬ rules.strict ipcPipe) :
      Move limit rules 0 v ⟨v.look, v.ipc.newPipe⟩
  | lostPair (v : View R) (socktype : BitVec 32) (h : ¬ rules.strict ipcSocket) :
      Move limit rules 0 v ⟨v.look, v.ipc.createSocketpair afUnix socktype⟩

/-- Several moves, with how often they count up together. -/
inductive Moves (limit : Nat) (rules : Rules) :
    Nat → View R → View R → Prop
  | refl (v : View R) : Moves limit rules 0 v v
  | next (m n : Nat) (v v₁ v₂ : View R) (h : Move limit rules m v v₁)
      (hs : Moves limit rules n v₁ v₂) :
      Moves limit rules (m + n) v v₂

variable {limit : Nat} {rules : Rules} {m n : Nat} {v v₁ v₂ : View R} {k : Nat × Nat}
  {e : FDTableEntry}

/-- A kept descriptor stays, for the same end of the same thing. -/
theorem Move.stays (h : Move limit rules n v v₁) (hkept : rules.kept k) (hk : v.look k = some e) :
    ∃ e', v₁.look k = some e' ∧ Alike e e' := by
  have hput : ∀ (look : Nat × Nat → Option FDTableEntry) (j : Nat × Nat) (o : Option FDTableEntry),
      look k = some e → look j = none → update look j o k = some e := by
    intro look j o hk hfree
    rw [update_of_ne, hk]
    rintro rfl
    rw [hfree] at hk
    cases hk
  cases h with
  | keeps | track | join | stray | leak | hangUp | lostPipe | lostPair => exact ⟨e, hk, .refl e⟩
  | put _ j _ hfree | dup _ j _ _ _ hfree | take _ j _ _ _ _ _ hfree =>
    exact ⟨e, hput _ j _ hk hfree, .refl e⟩
  | drop _ j _ _ _ hj =>
    refine ⟨e, (update_of_ne ?_ ..).trans hk, .refl e⟩
    rintro rfl
    exact hj hkept
  | retag _ j _ e' hentry halike =>
    by_cases heq : k = j
    · rw [heq, hentry] at hk
      cases hk
      rw [heq]
      exact ⟨e', update_self .., halike⟩
    · exact ⟨e, (update_of_ne heq ..).trans hk, .refl e⟩
  | pipe _ k₁ k₂ _ hfree₁ hfree₂ hne | pair _ k₁ k₂ _ hfree₁ hfree₂ hne =>
    refine ⟨e, hput _ k₂ _ (hput _ k₁ _ hk hfree₁) ?_, .refl e⟩
    exact (update_of_ne hne.symm ..).trans hfree₂

namespace Moves

theorem one (h : Move limit rules m v v₁) : Moves limit rules m v v₁ :=
  .next m 0 v v₁ v₁ h (.refl v₁)

theorem trans (h1 : Moves limit rules m v v₁) (h2 : Moves limit rules n v₁ v₂) :
    Moves limit rules (m + n) v v₂ := by
  induction h1 with
  | refl => rwa [Nat.zero_add]
  | next m' _ v v' _ h _ ih =>
    rw [Nat.add_assoc]
    exact .next m' _ v v' v₂ h (ih h2)

theorem stays (h : Moves limit rules n v v₁) (hkept : rules.kept k) (hk : v.look k = some e) :
    ∃ e', v₁.look k = some e' ∧ Alike e e' := by
  induction h generalizing e with
  | refl => exact ⟨e, hk, .refl e⟩
  | next _ _ _ _ _ h _ ih =>
    rcases h.stays hkept hk with ⟨e₁, hk₁, halike₁⟩
    rcases ih hk₁ with ⟨e₂, hk₂, halike₂⟩
    exact ⟨e₂, hk₂, halike₁.trans halike₂⟩

end Moves

end LindGrates.Ipc
