import LindGrates.Theory.Ipc.Tidy

/-!
# Descriptor and Process Calls as Moves

Every call, seen on the tables and the registries, is a sequence of moves. A
call that closes many descriptors drops them one after another, and a fork
duplicates the parent's descriptors one after another.

A fork that fails counts up and down again without a child. That is the same as
a fork into some cage nobody uses, which then closes everything.

## Main definitions

* `Shifts`: One world comes from another by moves.
* `World.MayDup`, `World.MayDrop`: What the rules allow for a descriptor.

## Theorems

* `moves_drops`, `moves_dups`: Many descriptors dropped or duplicated.
* `moves_dup`, `moves_dup2`, `moves_fcntl`, `moves_ioctl`, `moves_close`: The calls on
  one descriptor.
* `moves_fork`, `moves_exec`, `moves_exit`: The calls of a process.
* `moves_pipe2`: A new pipe.
-/

namespace LindGrates.Ipc

open FdTables ManagedTables LawfulFdTables World Function List Nat

variable {id parent fd : Nat} {e' e : FDTableEntry}

section Keeps

variable {R : Type} {s s' : IpcState R}

theorem keeps_withSockets {f : SocketRegistry → SocketRegistry}
    (hnext : s.sockets.nextSocketId ≤ (f s.sockets).nextSocketId)
    (hsockets : ∀ id sock', (f s.sockets).sockets id = some sock' →
      (∃ sock, s.sockets.sockets id = some sock ∧ sock'.sendpipe = sock.sendpipe ∧
        sock'.recvpipe = sock.recvpipe) ∨
      s.sockets.nextSocketId ≤ id ∧ id < (f s.sockets).nextSocketId ∧
        sock'.sendpipe = none ∧ sock'.recvpipe = none) (hqueues : ∀ addr,
      ((f s.sockets).pendingConnections addr).Sublist (s.sockets.pendingConnections addr)) :
    Keeps s (s.withSockets f) :=
  ⟨rfl, rfl, rfl, hnext, hsockets, hqueues, fun _ _ h => h⟩

theorem keeps_create (s : IpcState R) (domain socktype : BitVec 32) :
    Keeps s (s.withSockets fun s => (s.createSocket domain socktype).2) := by
  refine keeps_withSockets (le_succ _) (fun id sock h => ?_) fun addr => List.Sublist.refl _
  rcases of_update_some h with h | ⟨rfl, rfl⟩
  · exact .inl ⟨sock, h, rfl, rfl⟩
  · exact .inr ⟨le_refl _, lt_succ_self _, rfl, rfl⟩

theorem keeps_remove (s : IpcState R) (id : Nat) : Keeps s (s.withSockets (·.remove id)) := by
  refine keeps_withSockets (le_refl _) (fun id' sock h => ?_) fun addr => List.Sublist.refl _
  exact .inl ⟨sock, of_update_none h, rfl, rfl⟩

theorem keeps_modify (s : IpcState R) (id : Nat) (f : SocketInfo → SocketInfo)
    (paths : Str → Option Nat) (hsend : ∀ sock, (f sock).sendpipe = sock.sendpipe)
    (hrecv : ∀ sock, (f sock).recvpipe = sock.recvpipe) :
    Keeps s (s.withSockets fun s => { s.modifySocket id f with boundPaths := paths }) := by
  refine keeps_withSockets (le_refl _) (fun id' sock' h => .inl ?_) fun _ => List.Sublist.refl _
  change update s.sockets.sockets id _ id' = some sock' at h
  rw [update_apply] at h
  split at h
  next hid =>
    rcases Option.map_eq_some_iff.mp h with ⟨sock, hsock, rfl⟩
    exact ⟨sock, hid ▸ hsock, hsend sock, hrecv sock⟩
  · exact ⟨sock', h, rfl, rfl⟩

theorem keeps_bindSocket (s : IpcState R) (id : Nat) (addr : Str) :
    Keeps s (s.bindSocket id addr) :=
  keeps_modify s id (fun sock => { sock with localAddr := some addr }) _ (fun _ => rfl) fun _ => rfl

theorem keeps_setState (s : IpcState R) (id : Nat) (state : ConnState) :
    Keeps s (s.setState id state) :=
  keeps_modify s id (fun sock => { sock with state := state }) _ (fun _ => rfl) fun _ => rfl

theorem keeps_dropPendingInet (s : IpcState R) (cage fd : Nat) :
    Keeps s (s.dropPendingInet cage fd) := by
  exact ⟨rfl, rfl, rfl, le_refl _, fun id sock h => .inl ⟨sock, h, rfl, rfl⟩,
    fun addr => List.Sublist.refl _, fun k id h => of_update_none h⟩

theorem keeps_epollTargets (s : IpcState R) (f : Nat × Nat → Option (Nat → Option EpollEvent)) :
    Keeps s { s with epollTargets := f } :=
  ⟨rfl, rfl, rfl, le_refl _, fun _ sock h => .inl ⟨sock, h, rfl, rfl⟩,
    fun _ => List.Sublist.refl _, fun _ _ h => h⟩

theorem keeps_ring {arc : Nat} {p : PipeBuffer R} (hp : s.arcs[arc]? = some p) (ring : R) :
    Keeps s (s.modifyArc arc fun _ => { p with ring := ring }) := by
  refine ⟨?_, rfl, rfl, le_refl _, fun _ sock h => .inl ⟨sock, h, rfl, rfl⟩,
    fun _ => List.Sublist.refl _, fun _ _ h => h⟩
  apply ext_getElem?
  intro i
  simp only [IpcState.modifyArc, List.getElem?_map, List.getElem?_modify]
  by_cases hi : arc = i
  · simp only [← hi, hp, if_true, Option.map_eq_map, Option.map_some, PipeBuffer.counts]
  · simp only [hi, if_false, id_map']

theorem keeps_lost {addr : Str} {conn : PendingConnection} {rest : List PendingConnection}
    (hqueue : s.sockets.pendingConnections addr = conn :: rest) (listener : Nat) :
    Keeps s (((s.leaveQueue addr rest).acceptSocket listener conn).withSockets
      (·.remove s.sockets.nextSocketId)) := by
  refine ⟨rfl, rfl, rfl, le_succ _, fun id sock h => ?_, sublist_take hqueue, fun _ _ h => h⟩
  change update ((s.leaveQueue addr rest).acceptSocket listener conn).sockets.sockets
    s.sockets.nextSocketId none id = some sock at h
  rw [sockets_take, update_idem] at h
  exact .inl ⟨sock, of_update_none h, rfl, rfl⟩

theorem Recounted.bare (h : Recounted s s') (hb : Bare s id) : Bare s' id := by
  rcases h with ⟨arcs, rfl, _⟩
  exact ⟨hb.lt, hb.inet, hb.pipes⟩

theorem refBump_of_recounted (h : Recounted s s') (e : FDTableEntry) :
    s'.refBump e = s.refBump e := by
  rcases h with ⟨arcs, rfl, _⟩
  rfl

/-- The counters after the references of several entries are counted up. -/
def raised (s : IpcState R) (bs : List RefBump) : IpcState R :=
  bs.foldl IpcState.raise s

/-- The counters after the references of several entries are counted down. -/
def lowered (s : IpcState R) (bs : List RefBump) : IpcState R :=
  bs.foldl IpcState.lower s

def handled (s : IpcState R) (es : List FDTableEntry) : IpcState R :=
  es.foldl IpcState.closeHandler s

theorem recounted_raised (s : IpcState R) (bs : List RefBump) : Recounted s (raised s bs) := by
  induction bs generalizing s with
  | nil => exact ⟨s.arcs, rfl, rfl⟩
  | cons b _ ih => exact (recounted_raise s b).trans (ih (s.raise b))

theorem handled_eq_lowered (s : IpcState R) (es : List FDTableEntry) :
    handled s es = lowered s (es.map s.refBump) := by
  induction es generalizing s with
  | nil => rfl
  | cons e es ih =>
    have hrefs : es.map (s.closeHandler e).refBump = es.map s.refBump :=
      map_congr_left fun e' _ => refBump_of_recounted (recounted_closeHandler s e) e'
    change handled (s.closeHandler e) es = lowered (s.lower (s.refBump e)) _
    rw [ih, hrefs, closeHandler_eq_lower]

end Keeps

variable {T R : Type} {w w' w1 : World T R} {rules : Rules} {cage fd : Nat} {r : Option Int}
  {answer : Int} {cloexec : Bool} {flags : BitVec 32}

/-- Before the runtime's answer is used: the descriptor is not known, or the
    runtime refuses. -/
theorem answered {under : Option Nat} {rest : Outcome (Reply T R)}
    (h : (if under.isNone then w.reply (-9) else if answer < 0 then w.reply answer else rest) =
      .ok (r, w')) : w' = w ∨ rest = .ok (r, w') := by
  split at h
  · cases h
    exact .inl rfl
  split at h
  · cases h
    exact .inl rfl
  · exact .inr h

/-- Nobody else's snapshot is pending, so withdrawing the one just published
    leaves none. -/
theorem pending_removed (hw : Idle w) (parent : Nat) (es : List (Nat × FDTableEntry)) :
    (w.pending ++ [(⟨parent, es⟩ : PendingFdTable)]).eraseP (fun s => s.parentCage = parent) =
      w.pending := by
  rw [show w.pending = [] from hw]
  simp

theorem fireAll_eq (es : List FDTableEntry) (w : World T R) :
    w.fireAll es = { w with ipc := handled w.ipc es } := by
  induction es generalizing w with
  | nil => rfl
  | cons e _ ih => exact ih (w.fire (some e))

variable [ManagedTables T]

section Tables

/-- A descriptor that may be duplicated. -/
def World.MayDup (w : World T R) (rules : Rules) (k : Nat × Nat) : Prop :=
  ∀ e, w.look k = some e → rules.Unbarred e

/-- A descriptor that may be dropped. -/
def World.MayDrop (w : World T R) (rules : Rules) (k : Nat × Nat) : Prop :=
  w.MayDup rules k ∧ ¬ rules.kept k

def Plain (e : FDTableEntry) : Prop :=
  e.fdkind ≠ ipcPipe ∧ e.fdkind ≠ ipcSocket

theorem plain_kernel (n : Nat) (b : Bool) (m : Nat) : Plain ⟨fdkindKernel, n, b, m⟩ :=
  ⟨show fdkindKernel ≠ ipcPipe by decide, show fdkindKernel ≠ ipcSocket by decide⟩

theorem plain_epoll (n : Nat) (b : Bool) (m : Nat) : Plain ⟨ipcEpoll, n, b, m⟩ :=
  ⟨show ipcEpoll ≠ ipcPipe by decide, show ipcEpoll ≠ ipcSocket by decide⟩

theorem alike_dupEntry (e : FDTableEntry) (cloexec : Bool) : Alike e (dupEntry e cloexec) :=
  ⟨rfl, rfl, by rw [entryFlags_dupEntry]⟩

/-- Two entries put one after the other have different numbers that were free. -/
theorem Puts.both {j : Nat × Nat} (h1 : Puts w k e w1) (h2 : Puts w1 j e' w') :
    (k ≠ j ∧ w.look j = none) ∧ w'.look = update (update w.look k (some e)) j (some e') := by
  have hfree := h2.free
  rw [h1.look] at hfree
  have hne : k ≠ j := by
    intro heq
    rw [heq, update_self] at hfree
    cases hfree
  rw [update_of_ne hne.symm] at hfree
  exact ⟨⟨hne, hfree⟩, by rw [h2.look, h1.look]⟩

theorem Ensured.mayDup (h : Ensured w cage w1) (hbar : w.MayDup rules (cage, fd)) :
    w1.MayDup rules (cage, fd) := by
  rcases h.or with rfl | ⟨_, hlook⟩
  · exact hbar
  intro e he
  rw [hlook] at he
  simp only at he
  split at he
  · cases he
    exact fun hk => absurd hk (plain_kernel ..).2
  · exact hbar e he

/-- A number of a cage is free, once the cage has a table. -/
def World.freeIn (w : World T R) (cage fd : Nat) : Bool :=
  decide (fd < fdLimit T) &&
    if w.hasTable cage then (w.look (cage, fd)).isNone else decide (3 ≤ fd)

theorem translateDirfd_idle (hw : Idle w) (cage fd : Nat) : (w.translateDirfd cage fd).2 = w := by
  simp only [translateDirfd, waitForCageFdtable, waitForFdtableEntry, waitForCage_idle hw,
    waitForEntry_idle hw]
  split
  · rfl
  · split <;> rfl

theorem length_entries_le (t : T) (cage : Nat) : (entries t cage).length ≤ fdLimit T := by
  have := length_filterMap_le (fun fd => (translateVirtualFd t cage fd).map fun e => (fd, e))
    (List.range (fdLimit T))
  rwa [length_range] at this

variable [LawfulManagedTables T]

theorem look_of_freeIn (h : w.freeIn cage fd = true) (hens : Ensured w cage w1) :
    fd < fdLimit T ∧ w1.look (cage, fd) = none := by
  rw [freeIn, Bool.and_eq_true, decide_eq_true_eq] at h
  refine ⟨h.1, ?_⟩
  have hfree := h.2
  rcases hens.or with rfl | ⟨hno, hlook⟩
  · rw [if_pos hens.table, Option.isNone_iff_eq_none] at hfree
    exact hfree
  rw [hno, if_neg Bool.false_ne_true, decide_eq_true_eq] at hfree
  rw [hlook]
  simp only [true_and]
  rw [if_neg (by omega)]
  exact look_of_hasTable_eq_false hno

theorem mem_map_entries :
    fd ∈ (entries w.fds cage).map Prod.fst ↔ w.look (cage, fd) ≠ none := by
  rw [mem_map]
  constructor
  · rintro ⟨p, hp, rfl⟩
    rw [World.look, mem_entries.mp hp]
    simp
  · intro h
    rcases Option.ne_none_iff_exists'.mp h with ⟨e, he⟩
    exact ⟨(fd, e), mem_entries.mpr he, rfl⟩

theorem exists_unused_cage (w : World T R) (parent : Nat) :
    ∃ c, parent ≠ c ∧ ∀ fd, w.look (c, fd) = none := by
  rcases (((finite w.fds).image Prod.fst).insert parent).exists_notMem with ⟨c, hc⟩
  rw [Set.mem_insert_iff, not_or] at hc
  refine ⟨c, fun h => hc.1 h.symm, fun fd => ?_⟩
  by_contra hne
  exact hc.2 ⟨(c, fd), hne, rfl⟩

end Tables

variable [RingBuffer R]

/-- One world comes from another by moves that count up at most so often, and the same
    snapshots are pending. -/
structure Shifts (rules : Rules) (n : Nat) (w w' : World T R) : Prop where
  moves : ∃ m, m ≤ n ∧ Moves (fdLimit T) rules m w.view w'.view
  pending : w'.pending = w.pending

variable {m n : Nat}

namespace Shifts

theorem refl (w : World T R) : Shifts rules n w w :=
  ⟨⟨0, zero_le n, .refl _⟩, rfl⟩

theorem trans (h1 : Shifts rules 0 w w1) (h2 : Shifts rules n w1 w') : Shifts rules n w w' := by
  rcases h1.moves with ⟨m1, hm1, hmoves1⟩
  rcases h2.moves with ⟨m2, hm2, hmoves2⟩
  exact ⟨⟨m1 + m2, by omega, hmoves1.trans hmoves2⟩, h2.pending.trans h1.pending⟩

theorem mono (h : Shifts rules m w w') (hle : m ≤ n) : Shifts rules n w w' := by
  rcases h.moves with ⟨m', hm', hmoves⟩
  exact ⟨⟨m', le_trans hm' hle, hmoves⟩, h.pending⟩

theorem of_moves {v : View R} (h : Moves (fdLimit T) rules m w.view v) (hle : m ≤ n)
    (hlook : w'.look = v.look) (hipc : w'.ipc = v.ipc) (hpending : w'.pending = w.pending) :
    Shifts rules n w w' := by
  have hv : w'.view = v := by rw [World.view, hlook, hipc]
  exact ⟨⟨m, hle, hv ▸ h⟩, hpending⟩

/-- A move of the registries alone. -/
theorem of_move {s : IpcState R} (h : Move (fdLimit T) rules m w.view ⟨w.look, s⟩) (hle : m ≤ n) :
    Shifts rules n w { w with ipc := s } :=
  ⟨⟨m, hle, .one h⟩, rfl⟩

end Shifts

section Blocks

variable {k : Nat × Nat} {e : FDTableEntry}

theorem moves_put (h : Puts w k e w') (hkind : e.fdkind ≠ ipcPipe)
    (hbare : e.fdkind = ipcSocket → Bare w.ipc e.underfd) : Shifts rules n w w' := by
  exact .of_moves (.one (.put w.view k e h.free hkind hbare)) (zero_le n) h.look h.ipc h.pending

theorem moves_put_plain (h : Puts w k e w') (he : Plain e) : Shifts rules n w w' :=
  moves_put h he.1 fun hk => absurd hk he.2

theorem moves_drop (h : Drops w k e w') (hdrop : w.MayDrop rules k) :
    Shifts rules n w w' := by
  exact .of_moves (.one (.drop w.view k e h.entry (hdrop.1 e h.entry) hdrop.2)) (zero_le n)
    h.look h.ipc h.pending

theorem moves_retag (h : Retags w k e e' w') (halike : Alike e e') :
    Shifts rules n w w' := by
  exact .of_moves (.one (.retag w.view k e e' h.entry halike)) (zero_le n) h.look h.ipc
    h.pending

theorem moves_keeps (f : IpcState R → IpcState R) (h : Keeps w.ipc (f w.ipc)) :
    Shifts rules n w (w.withIpc f) :=
  .of_move (.keeps w.view (f w.ipc) h) (zero_le n)

theorem moves_forward (hw : Idle w) (h : w.forwardWithFd1 cage fd answer = .ok (r, w')) :
    Shifts rules n w w' := by
  rw [forwardWithFd1_idle hw h]
  exact .refl _

theorem Rules.Unbarred.alike (h : rules.Unbarred e) (halike : Alike e e') :
    rules.Unbarred e' := by
  intro hkind
  rw [halike.underfd]
  exact h (halike.fdkind ▸ hkind)

theorem moves_set_put (h : Sets w k e w') (hkind : e.fdkind ≠ ipcPipe)
    (hbare : e.fdkind = ipcSocket → Bare w.ipc e.underfd) (hdrop : w.MayDrop rules k) :
    Shifts rules n w w' := by
  refine .of_moves (v := ⟨_, (w.fire (w.look k)).ipc⟩) ?_ (zero_le n) h.look h.ipc h.pending
  rcases hl : w.look k with _ | old
  · exact .one (.put w.view k e hl hkind hbare)
  have hput : Move (fdLimit T) rules 0 _ _ := .put
    ⟨update w.look k none, w.ipc.closeHandler old⟩ k e (update_self ..) hkind
    fun hk => (recounted_closeHandler w.ipc old).bare (hbare hk)
  rw [update_idem] at hput
  exact (Moves.one (.drop w.view k old hl (hdrop.1 old hl) hdrop.2)).trans (.one hput)

theorem moves_set_dup {j : Nat × Nat} {e0 : FDTableEntry} (h : Sets w k e w') (hne : j ≠ k)
    (hentry : w.look j = some e0) (halike : Alike e0 e) (hbar : w.MayDup rules j)
    (hdrop : w.MayDrop rules k) : Shifts rules 1 w (w'.withIpc (·.bump e)) := by
  have hopen : rules.Unbarred e := (hbar e0 hentry).alike halike
  refine .of_moves (v := ⟨_, (w.fire (w.look k)).ipc.bump e⟩) ?_ (le_refl 1) h.look
    (congrArg (IpcState.bump · e) h.ipc) h.pending
  rcases hl : w.look k with _ | old
  · exact .one (.dup w.view k j e0 e hl hentry halike hopen)
  have hdup : Move (fdLimit T) rules 1 _ _ := .dup
    ⟨update w.look k none, w.ipc.closeHandler old⟩ k j e0 e
    (update_self ..) ((update_of_ne hne ..).trans hentry) halike hopen
  rw [update_idem] at hdup
  exact (Moves.one (.drop w.view k old hl (hdrop.1 old hl) hdrop.2)).trans (.one hdup)

theorem moves_put_dup {k j : Nat × Nat} (h : Puts w k (dupEntry e cloexec) w1)
    (he : w.ipcEntry j = some e) (hbar : w.MayDup rules j) :
    Shifts rules 1 w (w1.withIpc (·.bump (dupEntry e cloexec))) := by
  have hlook := (ipcEntry_eq_some.mp he).1
  have halike := alike_dupEntry e cloexec
  exact .of_moves (v := ⟨_, _⟩)
    (.one (.dup w.view k j e _ h.free hlook halike ((hbar e hlook).alike halike)))
    (le_refl 1) h.look (congrArg (IpcState.bump · _) h.ipc) h.pending

/-- The table with the standard descriptors below a number where there is nothing. -/
def standardBelow (look : Nat × Nat → Option FDTableEntry) (cage n : Nat) :
    Nat × Nat → Option FDTableEntry :=
  fun k => if (k.1 = cage ∧ k.2 < n) ∧ look k = none
    then some ⟨fdkindKernel, k.2, false, 0⟩ else look k

theorem moves_standard (look : Nat × Nat → Option FDTableEntry) (s : IpcState R)
    (limit cage n : Nat) :
    Moves limit rules 0 ⟨look, s⟩ ⟨standardBelow look cage n, s⟩ := by
  induction n with
  | zero =>
    unfold standardBelow
    simp only [not_lt_zero, and_false, false_and, if_false]
    exact .refl _
  | succ n ih =>
    have hother : ∀ k, k ≠ (cage, n) →
        standardBelow look cage n k = standardBelow look cage (n + 1) k := by
      intro k hk
      simp only [standardBelow, below_succ_iff hk]
    cases hl : look (cage, n) with
    | none =>
      have hput : Move limit rules 0 _ _ := .put ⟨standardBelow look cage n, s⟩ (cage, n)
        ⟨fdkindKernel, n, false, 0⟩ (by simp [standardBelow, hl]) (plain_kernel n false 0).1
        fun h => absurd h (plain_kernel n false 0).2
      have heq : update (standardBelow look cage n) (cage, n)
          (some ⟨fdkindKernel, n, false, 0⟩) = standardBelow look cage (n + 1) := by
        funext k
        rw [update_apply]
        split
        next hk => simp [standardBelow, hk, hl]
        next hk => exact hother k hk
      rw [heq] at hput
      exact ih.trans (.one hput)
    | some =>
      have heq : standardBelow look cage n = standardBelow look cage (n + 1) := by
        funext k
        by_cases hk : k = (cage, n)
        · simp [standardBelow, hk, hl]
        · exact hother k hk
      rw [← heq]
      exact ih

end Blocks

section Lists

def without (look : Nat × Nat → Option FDTableEntry) (cage : Nat) (fds : List Nat) :
    Nat × Nat → Option FDTableEntry :=
  fun k => if k.1 = cage ∧ k.2 ∈ fds then none else look k

/-- Many descriptors of one cage are dropped, one after another. -/
theorem moves_drops (limit cage : Nat) (l : List (Nat × FDTableEntry))
    (look : Nat × Nat → Option FDTableEntry) (s : IpcState R)
    (hnodup : (l.map Prod.fst).Nodup) (hl : ∀ p ∈ l, look (cage, p.1) = some p.2)
    (hdrop : ∀ p ∈ l, rules.Unbarred p.2 ∧ ¬ rules.kept (cage, p.1)) :
    Moves limit rules 0 ⟨look, s⟩
      ⟨without look cage (l.map Prod.fst), handled s (l.map Prod.snd)⟩ := by
  induction l generalizing look s with
  | nil =>
    unfold without
    simp only [map_nil, not_mem_nil, and_false, if_false]
    exact .refl _
  | cons p l ih =>
    rw [map_cons, nodup_cons] at hnodup
    have hrest : ∀ q ∈ l, update look (cage, p.1) none (cage, q.1) = some q.2 := by
      intro q hq
      refine (update_of_ne (fun heq => ?_) ..).trans (hl q (mem_cons_of_mem p hq))
      exact hnodup.1 ((Prod.mk.inj heq).2 ▸ mem_map_of_mem hq)
    have hmove : Move limit rules 0 ⟨look, s⟩ _ := .drop ⟨look, s⟩ (cage, p.1) p.2
      (hl p mem_cons_self) (hdrop p mem_cons_self).1 (hdrop p mem_cons_self).2
    have heq : without (update look (cage, p.1) none) cage (l.map Prod.fst) =
        without look cage ((p :: l).map Prod.fst) := by
      funext k
      rcases k with ⟨c, fd⟩
      simp only [without, update_apply, map_cons, mem_cons, Prod.mk.injEq]
      by_cases hc : c = cage
      · by_cases hfd : fd = p.1
        · simp only [hc, hfd, true_and, true_or, if_true, ite_self]
        · simp only [hc, hfd, true_and, false_or, if_false]
      · simp only [hc, false_and, if_false]
    rw [← heq]
    exact (Moves.one hmove).trans
      (ih _ _ hnodup.2 hrest fun q hq => hdrop q (mem_cons_of_mem p hq))

/-- Many descriptors of one cage are duplicated into another, one after
    another. -/
theorem moves_dups (limit : Nat) {child : Nat} (hne : parent ≠ child)
    (l : List (Nat × FDTableEntry)) (look : Nat × Nat → Option FDTableEntry) (s : IpcState R)
    (hnodup : (l.map Prod.fst).Nodup) (hl : ∀ p ∈ l, look (parent, p.1) = some p.2)
    (hfree : ∀ p ∈ l, look (child, p.1) = none) (hbar : ∀ p ∈ l, rules.Unbarred p.2) :
    Moves limit rules l.length ⟨look, s⟩ ⟨fun k => if k.1 = child ∧ k.2 ∈ l.map Prod.fst
      then look (parent, k.2) else look k, raised s (l.map fun p => s.refBump p.2)⟩ := by
  induction l generalizing look s with
  | nil =>
    simp only [map_nil, not_mem_nil, and_false, if_false]
    exact .refl _
  | cons p l ih =>
    rw [map_cons, nodup_cons] at hnodup
    set look1 := update look (child, p.1) (some p.2)
    have hparent : ∀ fd, look1 (parent, fd) = look (parent, fd) := by
      intro fd
      exact update_of_ne (fun heq => hne (Prod.mk.inj heq).1) ..
    have hrest : ∀ q ∈ l, look1 (child, q.1) = none := by
      intro q hq
      refine (update_of_ne (fun heq => ?_) ..).trans (hfree q (mem_cons_of_mem p hq))
      exact hnodup.1 ((Prod.mk.inj heq).2 ▸ mem_map_of_mem hq)
    have hentry : look (parent, p.1) = some p.2 := hl p mem_cons_self
    have hdup : Move limit rules 1 ⟨look, s⟩ ⟨look1, s.bump p.2⟩ :=
      .dup ⟨look, s⟩ (child, p.1) (parent, p.1) p.2 p.2 (hfree p mem_cons_self) hentry
        (Alike.refl p.2) (hbar p mem_cons_self)
    have hmoves := ih look1 (s.bump p.2) hnodup.2
      (fun q hq => (hparent q.1).trans (hl q (mem_cons_of_mem p hq))) hrest
      fun q hq => hbar q (mem_cons_of_mem p hq)
    -- Counting up does not change what an entry refers to.
    have hrefs : (l.map fun q => (s.bump p.2).refBump q.2) = l.map fun q => s.refBump q.2 :=
      map_congr_left fun q _ => refBump_of_recounted (recounted_raise s _) q.2
    rw [hrefs] at hmoves
    have heq : (fun k : Nat × Nat => if k.1 = child ∧ k.2 ∈ l.map Prod.fst
        then look1 (parent, k.2) else look1 k) =
        fun k => if k.1 = child ∧ k.2 ∈ (p :: l).map Prod.fst then look (parent, k.2)
          else look k := by
      funext k
      rcases k with ⟨c, fd⟩
      simp only [hparent, look1, update_apply, map_cons, mem_cons, Prod.mk.injEq]
      by_cases hc : c = child
      · by_cases hfd : fd = p.1
        · simp only [hc, hfd, hentry, true_and, true_or, if_true, ite_self]
        · simp only [hc, hfd, true_and, false_or, if_false]
      · simp only [hc, false_and, if_false]
    rw [heq] at hmoves
    rw [length_cons, add_comm]
    exact (Moves.one hdup).trans hmoves

end Lists

section Calls

variable [LawfulManagedTables T]

theorem moves_ensured (h : Ensured w cage w1) : Shifts rules n w w1 := by
  rcases h.or with rfl | ⟨hno, hlook⟩
  · exact .refl _
  have heq : w1.look = standardBelow w.look cage 3 := by
    rw [hlook]
    funext k
    unfold standardBelow
    rcases k with ⟨c, fd⟩
    by_cases hc : c = cage
    · rw [hc, look_of_hasTable_eq_false hno]
      simp only [and_true]
    · simp only [hc, false_and, if_false]
  exact .of_moves (moves_standard w.look w.ipc (fdLimit T) cage 3) (zero_le n) heq h.ipc
    h.pending

theorem moves_registerKernelFd (hw : Idle w) {v : Int} {info : Nat}
    (h : w.registerKernelFd cage v cloexec info = .ok (r, w')) : Shifts rules n w w' := by
  have hens := ensured_ensureCageFdtable hw cage
  rw [registerKernelFd] at h
  split at h
  next halloc =>
    cases h
    exact (moves_ensured hens).trans (moves_put_plain (put_of_getUnused halloc) (plain_kernel ..))
  · cases h
    exact moves_ensured hens

theorem moves_close (hw : Idle w) (h : w.close cage fd answer = .ok (r, w'))
    (hdrop : w.MayDrop rules (cage, fd)) : Shifts rules n w w' := by
  rw [close, lookupIpcFd_idle hw, translateToUnderfd_idle hw] at h
  split at h
  next hsome =>
    rcases Option.isSome_iff_exists.mp hsome with ⟨e, he⟩
    cases h
    exact moves_drop (drop_of_closeFd (ipcEntry_eq_some.mp he).1) hdrop
  rcases hl : w.look (cage, fd) with _ | e
  · -- Without an entry the table is left alone, whether there is one or not.
    rw [if_neg] at h
    · cases h
      exact .refl _
    · rintro ⟨hunder, ht⟩
      rw [if_pos (show w.hasTable cage = true from ht), hl] at hunder
      cases hunder
  have ht : w.hasTable cage = true := hasTable_of_look hl
  rw [if_pos] at h
  · cases h
    exact moves_drop (drop_of_closeFd hl) hdrop
  · rw [if_pos ht, hl]
    exact ⟨rfl, ht⟩

theorem moves_openPath (hw : Idle w) (h : w.openPath cage flags answer = .ok (r, w')) :
    Shifts rules n w w' := by
  rw [openPath] at h
  split at h
  · cases h
    exact .refl _
  · exact moves_registerKernelFd hw h

theorem moves_openat (hw : Idle w) {dirfd : Nat}
    (h : w.openat cage dirfd flags answer = .ok (r, w')) : Shifts rules n w w' := by
  rw [openat] at h
  simp only [translateDirfd_idle hw] at h
  split at h
  · exact moves_openPath hw h
  · cases h
    exact .refl _

theorem moves_dup (hw : Idle w) (h : w.dup cage fd answer = .ok (r, w'))
    (hbar : w.MayDup rules (cage, fd)) : Shifts rules 1 w w' := by
  rw [dup, lookupIpcFd_idle hw, translateToUnderfd_idle hw] at h
  simp only at h
  split at h
  next e he =>
    split at h
    next halloc =>
      cases h
      exact moves_put_dup (put_of_getUnused halloc) he hbar
    · cases h
      exact .refl _
  · rcases answered h with rfl | h
    · exact .refl _
    · exact moves_registerKernelFd hw h

theorem moves_dupfd (hw : Idle w) {start : Nat}
    (h : w.dupfd cage fd start cloexec answer = .ok (r, w')) (hbar : w.MayDup rules (cage, fd)) :
    Shifts rules 1 w w' := by
  rw [dupfd, lookupIpcFd_idle hw, translateToUnderfd_idle hw] at h
  simp only at h
  split at h
  next e he =>
    split at h
    next halloc =>
      cases h
      exact moves_put_dup (put_of_getUnusedFrom halloc) he hbar
    · cases h
      exact .refl _
  · rcases answered h with rfl | h
    · exact .refl _
    have hens := ensured_ensureCageFdtable hw cage
    split at h
    next halloc =>
      cases h
      exact (moves_ensured hens).trans
        (moves_put_plain (put_of_getUnusedFrom halloc) (plain_kernel ..))
    · cases h
      exact moves_ensured hens

theorem moves_dup2 (hw : Idle w) {oldfd newfd : Nat}
    (h : w.dup2 cage oldfd newfd answer = .ok (r, w'))
    (hclean : ∀ e, w.ipcEntry (cage, oldfd) = some e → rules.strict e.fdkind →
      oldfd = newfd ∨ newfd < fdLimit T)
    (hbar : w.MayDup rules (cage, oldfd) ∧ (oldfd ≠ newfd → w.MayDrop rules (cage, newfd))) :
    Shifts rules 1 w w' := by
  rw [dup2, lookupIpcFd_idle hw] at h
  simp only [translateToUnderfd_idle hw] at h
  split at h
  · cases h
    exact .refl _
  rename_i hne
  split at h
  next e he =>
    have hlook := (ipcEntry_eq_some.mp he).1
    cases h
    rcases getSpecific_cases (hasTable_of_look hlook) newfd (dupEntry e false) with
      hset | ⟨hle, hsame⟩
    · exact moves_set_dup hset (fun heq => hne (Prod.mk.inj heq).2) hlook (alike_dupEntry e false)
        hbar.1 (hbar.2 hne)
    rw [hsame]
    refine .of_move (.stray w.view (dupEntry e false) fun hs => ?_) (le_refl 1)
    rcases hclean e he hs with heq | hlt
    · exact hne heq
    · omega
  rcases answered h with rfl | h
  · exact .refl _
  have hens := ensured_ensureCageFdtable hw cage
  cases h
  refine (moves_ensured hens).trans ?_
  rcases getSpecific_cases hens.table newfd
    ⟨fdkindKernel, asU64 answer, false, 0⟩ with hset | ⟨_, hsame⟩
  · have hplain := plain_kernel (asU64 answer) false 0
    rcases hbar.2 hne with ⟨hdup, hkept⟩
    exact moves_set_put hset hplain.1 (fun hk => absurd hk hplain.2) ⟨hens.mayDup hdup, hkept⟩
  · rw [hsame]
    exact .refl _

theorem moves_fcntl (hw : Idle w) {op : Int} {arg : Nat}
    (h : w.fcntl cage fd op arg answer = .ok (r, w'))
    (hbar : op = fDupfd ∨ op = fDupfdCloexec → w.MayDup rules (cage, fd)) :
    Shifts rules 1 w w' := by
  rw [fcntl, lookupIpcFd_idle hw] at h
  split at h
  next hop => exact moves_dupfd hw h (hbar hop)
  simp only at h
  split at h
  · exact moves_forward hw h
  rename_i e he
  split at h
  · cases h
    exact .refl _
  split at h
  · split at h
    next hset =>
      cases h
      rcases retag_of_setPerfdinfo hset with ⟨e', hretag⟩
      rcases Option.some.inj (hretag.entry.symm.trans (ipcEntry_eq_some.mp he).1) with rfl
      refine moves_retag hretag ⟨rfl, rfl, ?_⟩
      change BitVec.ofNat 32 (flagsToU64 _) &&& oAccmode = _
      rw [ofNat_flagsToU64, accmode_setflFlags]
    · cases h
      exact .refl _
  split at h
  · cases h
    exact .refl _
  split at h
  · split at h
    next hset =>
      cases h
      rcases retag_of_setCloexec hset with ⟨e', hretag⟩
      exact moves_retag hretag ⟨rfl, rfl, rfl⟩
    · cases h
      exact .refl _
  · cases h
    exact .refl _

/-- `FIONBIO` runs the close handler for a descriptor that stays. -/
theorem moves_ioctl (hw : Idle w) {request : Nat} {arg : Option Int}
    (h : w.ioctl cage fd request arg answer = .ok (r, w'))
    (hclean : request = fionbio → arg ≠ none →
      ∀ e, w.ipcEntry (cage, fd) = some e → ¬ rules.strict e.fdkind) : Shifts rules n w w' := by
  rw [ioctl, lookupIpcFd_idle hw] at h
  split at h
  · exact moves_forward hw h
  rename_i e he
  have hlook := (ipcEntry_eq_some.mp he).1
  split at h
  next hreq =>
    split at h
    · cases h
      exact .refl _
    rename_i value
    rw [show translateVirtualFd w.fds cage fd = some e from hlook] at h
    cases h
    let e' : FDTableEntry := { e with perfdinfo := fionbioInfo (entryFlags e) value }
    have hset : Sets w (cage, fd) e' _ :=
      set_of_getSpecific (hasTable_of_look hlook) (lt_limit _ _ _ _ hlook)
    have hretag : Move (fdLimit T) rules 0 _ _ :=
      .retag ⟨w.look, w.ipc.closeHandler e⟩ (cage, fd) e e' hlook ⟨rfl, rfl, accmode_fionbio _ _⟩
    refine .of_moves ((Moves.one (.leak w.view e (hclean hreq (by simp) e he))).trans (.one hretag))
      (zero_le n) hset.look ?_ hset.pending
    rw [hset.ipc, hlook]
    rfl
  split at h
  · cases h
    exact .refl _
  · cases h
    exact .refl _

def World.refs (w : World T R) (cage : Nat) : List RefBump :=
  (entries w.fds cage).map fun p => w.ipc.refBump p.2

/-- A cage without descriptors gets those of another. -/
theorem moves_copied {c : Nat} (hne : parent ≠ c) (hfree : ∀ fd, w.look (c, fd) = none)
    (hbar : ∀ fd, w.MayDup rules (parent, fd)) :
    Moves (fdLimit T) rules (entries w.fds parent).length w.view
      ⟨fun k => if k.1 = c then w.look (parent, k.2) else w.look k,
        raised w.ipc (w.refs parent)⟩ := by
  have hmoves : Moves (fdLimit T) rules _ _ _ := moves_dups (fdLimit T) hne
    (entries w.fds parent) w.look w.ipc (nodup_entries w.fds parent)
    (fun p hp => mem_entries.mp hp) (fun p _ => hfree p.1)
    fun p hp => hbar p.1 p.2 (mem_entries.mp hp)
  have heq : (fun k : Nat × Nat => if k.1 = c ∧ k.2 ∈ (entries w.fds parent).map Prod.fst
      then w.look (parent, k.2) else w.look k) =
      fun k => if k.1 = c then w.look (parent, k.2) else w.look k := by
    funext k
    rcases k with ⟨c', fd⟩
    by_cases hc : c' = c
    · by_cases hfd : w.look (parent, fd) = none
      · simp only [hc, hfd, mem_map_entries, hfree, ite_self]
      · simp only [hc, mem_map_entries, ne_eq, hfd, not_false_eq_true, and_self]
    · simp only [hc, false_and, if_false]
  rwa [heq] at hmoves

theorem moves_forkFailed (w : World T R) (hbar : ∀ fd, w.MayDup rules (parent, fd))
    (hkept : ∀ k, rules.kept k → w.look k ≠ none) :
    Shifts rules (fdLimit T) w
      { w with ipc := lowered (raised w.ipc (w.refs parent)) (w.refs parent) } := by
  rcases exists_unused_cage w parent with ⟨c, hne, hfree⟩
  have hdrops : Moves (fdLimit T) rules _ _ _ := moves_drops (fdLimit T) c
    (entries w.fds parent) (fun k => if k.1 = c then w.look (parent, k.2) else w.look k)
    (raised w.ipc (w.refs parent)) (nodup_entries w.fds parent)
    (fun p hp => (if_pos rfl).trans (mem_entries.mp hp))
    fun p hp => ⟨hbar p.1 p.2 (mem_entries.mp hp), fun hk => hkept _ hk (hfree p.1)⟩
  have hipc : handled (raised w.ipc (w.refs parent)) ((entries w.fds parent).map Prod.snd) =
      lowered (raised w.ipc (w.refs parent)) (w.refs parent) := by
    rw [handled_eq_lowered, map_map, refs]
    congr 1
    exact map_congr_left fun p _ => refBump_of_recounted (recounted_raised w.ipc _) p.2
  have heq : without (fun k => if k.1 = c then w.look (parent, k.2) else w.look k) c
      ((entries w.fds parent).map Prod.fst) = w.look := by
    funext k
    rcases k with ⟨c', fd⟩
    unfold without
    by_cases hc : c' = c
    · by_cases hfd : w.look (parent, fd) = none
      · simp only [hc, hfd, hfree, ite_self]
      · simp only [hc, mem_map_entries, ne_eq, hfd, not_false_eq_true, and_self, if_true, hfree]
    · simp only [hc, false_and, if_false]
  rw [hipc, heq] at hdrops
  exact .of_moves ((moves_copied hne hfree hbar).trans hdrops) (length_entries_le w.fds parent)
    rfl rfl rfl

theorem moves_fork (hw : Idle w) {isThread isVfork : Bool}
    (hp : Promised w (.fork parent isThread isVfork answer) = true)
    (h : w.fork parent isThread isVfork answer = .ok (r, w'))
    (hbar : ∀ fd, w.MayDup rules (parent, fd)) (hkept : ∀ k, rules.kept k → w.look k ≠ none) :
    Shifts rules (fdLimit T) w w' := by
  rw [fork] at h
  split at h
  · cases h
    exact .refl _
  rename_i hthread
  simp only [Promised, Bool.or_eq_true, Bool.and_eq_true, decide_eq_true_eq,
    Bool.not_eq_true', hthread, Bool.false_eq_true, false_or] at hp
  split at h
  next hparent =>
    simp only [forkSnapshot] at h
    split at h
    · cases h
      simp only [forkFailed, removePendingFdtable, pushPendingFdtable, pending_removed hw]
      exact moves_forkFailed w hbar hkept
    rename_i hneg
    rcases hp.resolve_left hneg with ⟨hpos, hchild⟩
    rw [if_neg (by omega)] at h
    cases h
    simp only [forkFinish, removePendingFdtable, pushPendingFdtable, pending_removed hw,
      hchild, Bool.false_eq_true, if_false]
    have hne : parent ≠ answer.toNat := by
      intro heq
      rw [heq, hchild] at hparent
      cases hparent
    refine .of_moves (moves_copied hne (fun fd => look_of_hasTable_eq_false hchild) hbar)
      (length_entries_le w.fds parent) ?_ rfl rfl
    funext k
    simp only [look, translate_copy w.fds parent answer.toNat hchild]
  · cases h

/-- What is marked close-on-exec is dropped. -/
theorem moves_closing (hbar : ∀ fd e, w.look (cage, fd) = some e → e.shouldCloexec = true →
      w.MayDrop rules (cage, fd)) :
    Moves (fdLimit T) rules 0 w.view
      ⟨fun k => if k.1 = cage then (w.look k).filter fun e => !e.shouldCloexec else w.look k,
        handled w.ipc (w.closing cage)⟩ := by
  set l := (entries w.fds cage).filter fun p => p.2.shouldCloexec
  have hclosing : w.closing cage = l.map Prod.snd := by
    rw [closing, filter_map]
    rfl
  have hnodup : (l.map Prod.fst).Nodup :=
    (filter_sublist.map Prod.fst).nodup (nodup_entries w.fds cage)
  have hl : ∀ p ∈ l, w.look (cage, p.1) = some p.2 := fun p hp =>
    mem_entries.mp (mem_of_mem_filter hp)
  have hdrops : Moves (fdLimit T) rules 0 _ _ := moves_drops (fdLimit T) cage l w.look w.ipc
    hnodup hl fun p hp => (hbar p.1 p.2 (hl p hp) (mem_filter.mp hp).2).imp_left (· p.2 (hl p hp))
  have heq : without w.look cage (l.map Prod.fst) =
      fun k => if k.1 = cage then (w.look k).filter fun e => !e.shouldCloexec else w.look k := by
    funext k
    rcases k with ⟨c, fd⟩
    unfold without
    by_cases hc : c = cage
    · simp only [hc, true_and, if_true]
      rcases hlook : w.look (cage, fd) with _ | e
      · simp only [ite_self, Option.filter_none]
      have hmem : fd ∈ l.map Prod.fst ↔ e.shouldCloexec = true := by
        rw [mem_map]
        constructor
        · rintro ⟨p, hp, rfl⟩
          rcases Option.some.inj ((hl p hp).symm.trans hlook) with rfl
          exact (mem_filter.mp hp).2
        · intro hclo
          exact ⟨(fd, e), mem_filter.mpr ⟨mem_entries.mpr hlook, hclo⟩, rfl⟩
      simp only [hmem, Option.filter_some]
      cases e.shouldCloexec with
      | true | false => rfl
    · simp only [hc, false_and, if_false]
  rwa [heq, ← hclosing] at hdrops

theorem moves_exec (hw : Idle w) (h : w.exec cage answer = .ok (r, w'))
    (hbar : ∀ fd e, w.look (cage, fd) = some e → e.shouldCloexec = true →
      w.MayDrop rules (cage, fd)) : Shifts rules n w w' := by
  rw [exec, waitForCageFdtable, waitForCage_idle hw] at h
  simp only [fireAll_eq] at h
  split at h
  next ht =>
    cases h
    set v : World T R := { fds := emptyFdsForExec w.fds cage
                           ipc := handled w.ipc (w.closing cage)
                           pending := w.pending }
    have hex : v.hasTable cage = true := (congrFun (exists_empty w.fds cage) cage).trans ht
    have hlook : v.look = fun k =>
        if k.1 = cage then (w.look k).filter fun e => !e.shouldCloexec else w.look k := by
      funext k
      simp only [look, v, translate_empty w.fds cage]
    have hdrops : Moves (fdLimit T) rules 0 w.view ⟨v.look, v.ipc⟩ := by
      rw [hlook]
      exact moves_closing hbar
    rcases reserve_fold (n := 3) cage hex limit_gt with ⟨hlook', _, hipc', hpending'⟩
    exact .of_moves (hdrops.trans (moves_standard v.look v.ipc (fdLimit T) cage 3)) (zero_le n)
      hlook' hipc' hpending'
  · cases h
    exact .refl _

theorem moves_exit (h : w.exit cage answer = .ok (r, w'))
    (hbar : ∀ fd, w.MayDrop rules (cage, fd)) : Shifts rules n w w' := by
  have hdrops : Moves (fdLimit T) rules 0 _ _ := moves_drops (fdLimit T) cage
    (entries w.fds cage) w.look w.ipc (nodup_entries w.fds cage)
    (fun p hp => mem_entries.mp hp)
    fun p hp => (hbar p.1).imp_left (· p.2 (mem_entries.mp hp))
  have heq : without w.look cage ((entries w.fds cage).map Prod.fst) =
      fun k => if k.1 = cage then none else w.look k := by
    funext k
    rcases k with ⟨c, fd⟩
    unfold without
    by_cases hc : c = cage
    · simp only [hc, true_and, if_true, mem_map_entries, ne_eq, ite_not]
      split
      next hnone => exact hnone
      · rfl
    · simp only [hc, false_and, if_false]
  rw [heq] at hdrops
  rw [exit] at h
  simp only [fireAll_eq] at h
  split at h
  · cases h
    refine .of_moves (hdrops.trans (.one (.keeps _ _ (keeps_epollTargets _ _)))) (zero_le n) ?_
      rfl rfl
    funext k
    simp only [look, LawfulManagedTables.translate_remove w.fds cage]
  · cases h

theorem moves_preexec (h : w.preexec cage = .ok (r, w')) : Shifts rules n w w' := by
  rw [preexec] at h
  split at h
  · cases h
  next ht =>
    cases h
    exact moves_ensured (ensured_newFdtable (Bool.eq_false_iff.mpr ht))

theorem moves_pipe2 (hw : Idle w) {flags : BitVec 32} (h : w.pipe2 cage flags = .ok (r, w'))
    (hclean : rules.strict ipcPipe → ∃ fd, w.freeIn cage fd = true) : Shifts rules n w w' := by
  rcases (bind_eq_ok _ _ _).mp h with ⟨⟨o, v⟩, hcreate, hreply⟩
  obtain rfl : w' = v := by
    cases o with
    | ok | error =>
      cases hreply
      rfl
  have hens := ensured_ensureCageFdtable hw cage
  refine (moves_ensured hens).trans ?_
  rw [createPipe] at hcreate
  split at hcreate
  next hnone =>
    cases hcreate
    refine .of_move (.lostPipe _ fun hs => ?_) (zero_le n)
    rcases hclean hs with ⟨fd, hfd⟩
    rcases look_of_freeIn hfd hens with ⟨hlt, hfree⟩
    exact getUnused_none _ _ _ hens.table hnone fd hlt hfree
  rename_i fd1 fds1 halloc1
  split at hcreate
  next fd2 fds2 halloc2 =>
    cases hcreate
    have hput1 := put_of_getUnused (w := (w.ensureCageFdtable cage).withIpc IpcState.newPipe) halloc1
    have hput2 := put_of_getUnused
      (w := { (w.ensureCageFdtable cage).withIpc IpcState.newPipe with fds := fds1 }) halloc2
    rcases hput1.both hput2 with ⟨⟨hne, hfree2⟩, hlook⟩
    exact .of_moves (.one (.pipe (w.ensureCageFdtable cage).view (cage, fd1) (cage, fd2) flags
      hput1.free hfree2 hne)) (zero_le n) hlook rfl rfl
  · cases hcreate

end Calls

end LindGrates.Ipc
