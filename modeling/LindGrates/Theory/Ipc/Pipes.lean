import LindGrates.Theory.Ipc.PipeRefs

/-!
# Pipes Over Whole Runs

A reader gets end-of-file when the last write end is gone and not before, and a
writer gets `EPIPE` when the last read end is, in every run that avoids the
situations in which a reference of a pipe is counted wrongly.

## Main definitions

* `PipeCareful`: The condition on a call.
* `PipeExact`: The counters of every pipe are the numbers of its descriptors.

## Theorems

* `pipe_refs_exact`: The counters are exact in every run of careful calls.
* `pipe_refs_lost`: A run of another kind in which an open end is not counted.
* `names_stay_apart`: No descriptor comes to stand for another pipe or socket.
-/

namespace LindGrates.Ipc

open FdTables ManagedTables LawfulFdTables World

section Runs

variable {T R : Type} [ManagedTables T]

def World.isPipe (w : World T R) (k : Nat × Nat) : Bool :=
  (w.look k).any fun e => e.fdkind = ipcPipe

/-- The call does not set a flag of a pipe with `FIONBIO`, does not duplicate an
    end of a pipe onto a number no table has, and makes a pipe only where a
    number is free. -/
def PipeSafe (w : World T R) : Call → Bool
  | .pipe cage => (List.range (fdLimit T)).any (w.freeIn cage)
  | .pipe2 cage _ => (List.range (fdLimit T)).any (w.freeIn cage)
  | .dup2 cage oldfd newfd _ =>
    !w.isPipe (cage, oldfd) || decide (oldfd = newfd) || decide (newfd < fdLimit T)
  | .dup3 cage oldfd newfd _ _ =>
    !w.isPipe (cage, oldfd) || decide (oldfd = newfd) || decide (newfd < fdLimit T)
  | .ioctl cage fd request arg _ =>
    !w.isPipe (cage, fd) || !decide (request = fionbio) || arg.isNone
  | _ => true

/-- The counters of every pipe have room for as many descriptors as a table has
    numbers. -/
def PipeRoomy (w : World T R) : Bool :=
  (List.range w.ipc.nextPipeId).all fun id => (pipeCounts w.ipc id).all fun c =>
    decide (c.writeRefs + fdLimit T < 2 ^ 32 ∧ c.readRefs + fdLimit T < 2 ^ 32)

/-- A call that counts no reference of a pipe wrongly. -/
def PipeCareful (w : World T R) (call : Call) : Prop :=
  Promised w call = true ∧ PipeSafe w call = true ∧ PipeRoomy w = true

instance (w : World T R) (call : Call) : Decidable (PipeCareful w call) :=
  inferInstanceAs (Decidable (_ ∧ _ ∧ _))

variable {w : World T R}

theorem isPipe_of_ipcEntry {k : Nat × Nat} {e : FDTableEntry} (he : w.ipcEntry k = some e)
    (hkind : e.fdkind = ipcPipe) : w.isPipe k = true := by
  rw [isPipe, (ipcEntry_eq_some.mp he).1]
  exact decide_eq_true hkind

theorem clean_of_pipeSafe {call : Call} (h : PipeSafe w call = true) :
    Clean (· = ipcPipe) w call := by
  have hfree : ∀ cage, (List.range (fdLimit T)).any (w.freeIn cage) = true →
      ∃ fd, w.freeIn cage fd = true := by
    intro cage hany
    rcases List.any_eq_true.mp hany with ⟨fd, _, hfd⟩
    exact ⟨fd, hfd⟩
  have hdup : ∀ cage oldfd newfd, (!w.isPipe (cage, oldfd) || decide (oldfd = newfd) ||
      decide (newfd < fdLimit T)) = true → ∀ e, w.ipcEntry (cage, oldfd) = some e →
      e.fdkind = ipcPipe → oldfd = newfd ∨ newfd < fdLimit T := by
    intro cage oldfd newfd hsafe e he hkind
    rw [isPipe_of_ipcEntry he hkind] at hsafe
    simpa using hsafe
  cases call with
  | pipe cage | pipe2 cage => exact fun _ => hfree cage h
  | dup2 cage oldfd newfd | dup3 cage oldfd newfd => exact hdup cage oldfd newfd h
  | ioctl _ _ _ arg =>
    intro hreq harg e he hkind
    rw [PipeSafe, isPipe_of_ipcEntry he hkind, hreq] at h
    cases arg with
    | none => exact harg rfl
    | some => cases h
  | socketpair | connect | shutdown => exact fun hs => absurd hs.symm pipe_ne_socket
  | _ => exact trivial

theorem pipeRoom_of_roomy (hw : Registered (fdLimit T) w.ipc) (h : PipeRoomy w = true)
    (side : Side) : (pipeMeter R side).Room (fdLimit T) w.ipc := by
  intro id c hc
  rw [shown_pipe] at hc
  rcases Option.map_eq_some_iff.mp hc with ⟨c, hcounts, rfl⟩
  rcases Option.bind_eq_some_iff.mp hcounts with ⟨a, ha, _⟩
  have hid := List.all_eq_true.mp h id (List.mem_range.mpr (hw.pipe_lt id a ha).1)
  rw [hcounts] at hid
  cases side with
  | write => exact (of_decide_eq_true hid).1
  | read => exact (of_decide_eq_true hid).2

/-- The counters of every pipe are the numbers of its descriptors, and the
    end-of-file flag is set when there is no write end left. -/
def PipeExact (w : World T R) : Prop :=
  ∀ side, (pipeMeter R side).Exact (fun _ => True) w.view

theorem pipeExact_initial (h : Initial w) : PipeExact w := by
  rcases h with ⟨fds, rfl, hnone⟩
  intro side id c _ hc
  cases hc

variable [RingBuffer R] [LawfulManagedTables T]

theorem pipeExact_step {w' : World T R} {call : Call} (hw : Settled w) (hv : PipeExact w)
    (hcond : PipeCareful w call) (h : w.step call = some w') : PipeExact w' := by
  rcases hcond with ⟨hp, hsafe, hroomy⟩
  rcases serve_of_step h with ⟨r, hserve⟩
  rcases serve_moves hw.idle hw.tidy hp (clean_of_pipeSafe hsafe)
    (spares_of_loses (· = ipcPipe) (fun _ => False) fun _ hk => hk.elim)
    (fun _ hk => hk.elim) (fun _ _ _ => id) hserve with ⟨⟨m, hm, hmoves⟩, _⟩
  have hlimit : fdLimit T ≤ 2 ^ 31 := limit_le
  intro side
  have hroom := pipeRoom_of_roomy hw.tidy.reg hroomy side
  refine pipeExact_moves (n := 0) hmoves hw.tidy ⟨hv side, fun id c hc => ?_⟩ (by omega)
  have := hroom id c hc
  omega

/-- In every run of careful calls the counters of every pipe are the numbers of
    descriptors for its ends, end-of-file is flagged when no write end is left
    and only then, every end stands for a pipe that is counted, and a call leaves
    a descriptor the same end of the same pipe unless it closes or overwrites
    it. -/
theorem pipe_refs_exact {w : World T R} (hw : Runs Initial World.step PipeCareful w) :
    (∀ id c, pipeCounts w.ipc id = some c →
      c.writeRefs = tally (writeEnds w.look) id ∧ c.readRefs = tally (readEnds w.look) id ∧
        (c.eof = true ↔ ∀ k, writeEnds w.look k ≠ some id)) ∧
    (∀ k e, w.look k = some e → e.fdkind = ipcPipe →
      (isReadEnd (entryFlags e) = true ∨ isWriteEnd (entryFlags e) = true) ∧
        pipeCounts w.ipc e.underfd ≠ none) ∧
    ∀ call w', Promised w call = true → w.step call = some w' →
      ∀ k e, w.look k = some e → e.fdkind = ipcPipe → Loses w call k = false →
        ∃ e', w'.look k = some e' ∧ Alike e e' := by
  have hinv : Settled w ∧ PipeExact w := by
    refine runs_inv (I := fun w => Settled w ∧ PipeExact w)
      (fun w h => ⟨settled_initial h, pipeExact_initial h⟩) (fun w call w' h hcond hstep => ?_) w hw
    rcases serve_of_step hstep with ⟨r, hserve⟩
    exact ⟨settled_serve h.1 hcond.1 hserve, pipeExact_step h.1 h.2 hcond hstep⟩
  rcases hinv with ⟨hsettled, hexact⟩
  have hnamed := hsettled.tidy.named
  refine ⟨fun id c hc => ?_, fun k e he hkind => ⟨(hnamed.pipe k e he hkind).2, ?_⟩,
    fun call w' hp hstep k e he _ hl => ?_⟩
  · have hshown : ∀ side, Counted side w.look (pipeEnd side) id (c.shown side) := fun side =>
      hexact side id _ trivial (by rw [shown_pipe]; exact congrArg _ hc)
    refine ⟨(hshown .write).count, (hshown .read).count,
      ((hshown .write).flag.trans (and_iff_right rfl)).trans ?_⟩
    rw [(hshown .write).count]
    exact tally_eq_zero (finitelyMany_bind writeEnd hnamed.finite)
  · rcases hp : w.ipc.pipes e.underfd with _ | a
    · exact absurd hp (hsettled.tidy.reg.pipe_some _ (hnamed.pipe k e he hkind).1)
    rw [pipeCounts, hp, ne_eq, Option.bind_some, countsAt, Option.map_eq_none_iff,
      List.getElem?_eq_none_iff]
    exact Nat.not_le_of_lt (hsettled.tidy.reg.pipe_lt _ a hp).2
  · rcases serve_of_step hstep with ⟨r, hserve⟩
    exact serve_stays hsettled hp hserve he hl

theorem settled_of_runs {w : World T R}
    (hw : Runs Initial World.step (fun w call => Promised w call = true) w) : Settled w := by
  refine runs_inv (I := Settled) (fun _ => settled_initial) (fun _ _ _ h hp hstep => ?_) w hw
  rcases serve_of_step hstep with ⟨_, hserve⟩
  exact settled_serve h hp hserve

/-- No descriptor stands for a pipe or a socket that is still to be made, so none
    comes to stand for another one. Two pipes have different buffers, and the
    buffers of sockets and of waiting connections are there and are no pipe's. -/
theorem names_stay_apart {w : World T R}
    (hw : Runs Initial World.step (fun w call => Promised w call = true) w) :
    (∀ k e, w.look k = some e →
      (e.fdkind = ipcPipe → e.underfd < w.ipc.nextPipeId) ∧
        (e.fdkind = ipcSocket → e.underfd < w.ipc.sockets.nextSocketId)) ∧
    (∀ id id' a, w.ipc.pipes id = some a → w.ipc.pipes id' = some a → id = id') ∧
    (∀ id sock a, w.ipc.sockets.sockets id = some sock →
      sock.sendpipe = some a ∨ sock.recvpipe = some a → Apart w.ipc a) ∧
    ∀ addr conn, conn ∈ w.ipc.sockets.pendingConnections addr →
      Apart w.ipc conn.pipeToListener ∧ Apart w.ipc conn.pipeToConnector := by
  rcases (settled_of_runs hw).tidy with ⟨hreg, hnamed⟩
  refine ⟨fun k e he => ⟨fun hkind => (hnamed.pipe k e he hkind).1, fun hkind => (hnamed.socket k e he hkind).1⟩,
    hreg.pipe_inj, fun id sock a hsock ha => ?_, hreg.queued⟩
  exact ha.elim (hreg.send id sock a hsock) (hreg.recv id sock a hsock)

end Runs

/-- Tables of sixteen numbers per cage, all empty. -/
def emptyTables : MapTables 16 :=
  MapTables.unregistered 16

theorem initial_emptyTables : Initial (started emptyTables : World (MapTables 16) QueueRing) :=
  ⟨emptyTables, rfl, fun _ _ => rfl⟩

/-- A cage makes a pipe, forks and duplicates its write end; the child moves its
    read end, sets flags and goes away; the parent closes its write ends. -/
def inheritedRun : List Call :=
  [.pipe2 1 oCloexec, .fork 1 false false 2, .dup 1 4 0, .dup2 2 3 9 0,
    .fcntl 2 9 fSetfl oNonblock.toNat 0, .fcntl 2 4 fDupfd 6 0, .exec 1 0, .exit 2 0]

theorem pipe_refs_exact_inheritedRun :
    ∃ w : World (MapTables 16) QueueRing,
      (pipeCounts w.ipc 0).map (fun c => (c.writeRefs, c.readRefs, c.eof)) = some (1, 0, false) ∧
      (∀ id c, pipeCounts w.ipc id = some c →
        c.writeRefs = tally (writeEnds w.look) id ∧ c.readRefs = tally (readEnds w.look) id ∧
          (c.eof = true ↔ ∀ k, writeEnds w.look k ≠ some id)) ∧
      (∀ k e, w.look k = some e → e.fdkind = ipcPipe →
        (isReadEnd (entryFlags e) = true ∨ isWriteEnd (entryFlags e) = true) ∧
          pipeCounts w.ipc e.underfd ≠ none) ∧
      ∀ call w', Promised w call = true → w.step call = some w' →
        ∀ k e, w.look k = some e → e.fdkind = ipcPipe → Loses w call k = false →
          ∃ e', w'.look k = some e' ∧ Alike e e' := by
  have := lawful_managedMapTables 16 (by decide) (by decide)
  have hrun : ∃ w : World (MapTables 16) QueueRing, Runs Initial World.step PipeCareful w ∧
      (pipeCounts w.ipc 0).map (fun c => (c.writeRefs, c.readRefs, c.eof)) = some (1, 0, false) :=
    exists_runs_replay inheritedRun initial_emptyTables (by decide +kernel)
  rcases hrun with ⟨w, hw, hcounts⟩
  exact ⟨w, hcounts, pipe_refs_exact hw⟩

/-- `FIONBIO` on the only write end of a pipe. -/
def nonblockingRun : List Call :=
  [.pipe 1, .ioctl 1 4 fionbio (some 1) 0]

/-- The call counts the write end as closed and flags end-of-file, though it is
    still open. -/
theorem pipe_refs_lost :
    ∃ w : World (MapTables 16) QueueRing,
      Runs Initial World.step (fun w call => Promised w call = true) w ∧
      ∃ c k, pipeCounts w.ipc 0 = some c ∧ c.writeRefs = 0 ∧ c.eof = true ∧
        writeEnds w.look k = some 0 := by
  have hrun : ∃ w : World (MapTables 16) QueueRing,
      Runs Initial World.step (fun w call => Promised w call = true) w ∧
      ∃ c, pipeCounts w.ipc 0 = some c ∧ c.writeRefs = 0 ∧ c.eof = true ∧
        writeEnds w.look (1, 4) = some 0 :=
    exists_runs_replay nonblockingRun initial_emptyTables (by decide +kernel)
  rcases hrun with ⟨w, hw, c, hc⟩
  exact ⟨w, hw, c, (1, 4), hc⟩

theorem names_stay_apart_pair :
    ∃ (w : World (MapTables 16) QueueRing) (e : FDTableEntry), w.look (1, 5) = some e ∧
      e.fdkind = ipcSocket ∧ e.underfd < w.ipc.sockets.nextSocketId := by
  have := lawful_managedMapTables 16 (by decide) (by decide)
  have hrun : ∃ w : World (MapTables 16) QueueRing,
      Runs Initial World.step (fun w call => Promised w call = true) w ∧
      ∃ e, w.look (1, 5) = some e ∧ e.fdkind = ipcSocket :=
    exists_runs_replay [.pipe 1, .socketpair 1 afUnix 1#32] initial_emptyTables (by decide +kernel)
  rcases hrun with ⟨w, hw, e, he, hkind⟩
  exact ⟨w, e, he, hkind, ((names_stay_apart hw).1 _ e he).2 hkind⟩

end LindGrates.Ipc
