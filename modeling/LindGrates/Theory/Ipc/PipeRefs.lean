import LindGrates.Base.Run
import LindGrates.Theory.Ipc.Meters
import LindGrates.Theory.Ipc.Serve

/-!
# Reference Counts of Pipes

The counters of a pipe are meant to say how many descriptors there are for each
of its ends. They do as long as calls avoid three situations: `FIONBIO` on an
end of a pipe, which runs the close handler for a descriptor that stays; a
duplicate onto a number no table has, which counts a reference without a
descriptor; and a pipe made for a cage without a free number, which counts two.

## Main definitions

* `writeEnds`, `readEnds`: The pipe a descriptor is an end of.
* `pipeCounts`: The counters of a pipe.
* `pipeMeter`: The counter for the descriptors of one end.

## Theorems

* `pipeHolds_move`: A move keeps the counters of pipes exact.
* `pipeExact_moves`: So do several moves.
-/

namespace LindGrates.Ipc

open World Function Option IpcState

def writeEnd (e : FDTableEntry) : Option Nat :=
  if e.fdkind = ipcPipe ∧ isWriteEnd (entryFlags e) then some e.underfd else none

def readEnd (e : FDTableEntry) : Option Nat :=
  if e.fdkind = ipcPipe ∧ isReadEnd (entryFlags e) then some e.underfd else none

def writeEnds (look : Nat × Nat → Option FDTableEntry) (k : Nat × Nat) : Option Nat :=
  (look k).bind writeEnd

def readEnds (look : Nat × Nat → Option FDTableEntry) (k : Nat × Nat) : Option Nat :=
  (look k).bind readEnd

def Side.direction : Side → BitVec 32
  | .write => oWronly
  | .read => oRdonly

/-- `writeEnd` and `readEnd`, by the side. -/
def pipeEnd (side : Side) (e : FDTableEntry) : Option Nat :=
  if e.fdkind = ipcPipe ∧ entryFlags e &&& oAccmode == side.direction then some e.underfd
  else none

section Ends

variable {side d : Side} {e e' : FDTableEntry} {id : Nat}

theorem pipeEnd_eq_some :
    pipeEnd side e = some id ↔
      e.fdkind = ipcPipe ∧ entryFlags e &&& oAccmode = side.direction ∧ e.underfd = id := by
  rw [pipeEnd, ite_none_right_eq_some, some_inj, and_assoc, beq_iff_eq]

theorem pipeEnd_eq_none (hkind : e.fdkind ≠ ipcPipe) : pipeEnd side e = none :=
  if_neg fun h => hkind h.1

theorem Side.direction_inj (h : side.direction = d.direction) : side = d := by
  cases side <;> cases d <;> first | rfl | exact absurd h (by decide)

theorem exists_side (h : IsEnd e) : ∃ side : Side, entryFlags e &&& oAccmode = side.direction := by
  rcases h with h | h
  · exact ⟨.read, beq_iff_eq.mp h⟩
  · exact ⟨.write, beq_iff_eq.mp h⟩

theorem pipeEnd_endEntry (id : Nat) (flags : BitVec 32) :
    pipeEnd side (endEntry id flags d.direction) = if d = side then some id else none := by
  have haccmode : entryFlags (endEntry id flags d.direction) &&& oAccmode = d.direction :=
    accmode_endEntry id flags (by cases d <;> decide)
  split
  next h =>
    rw [← h]
    exact pipeEnd_eq_some.mpr ⟨rfl, haccmode, rfl⟩
  next h =>
    refine eq_none_iff_forall_ne_some.mpr fun id' hid => h ?_
    exact Side.direction_inj (haccmode.symm.trans (pipeEnd_eq_some.mp hid).2.1)

end Ends

variable {R : Type}

def pipeCounts (s : IpcState R) (id : Nat) : Option PipeBuffer.Counts :=
  (s.pipes id).bind (countsAt s)

def pipeMeter (R : Type) (side : Side) : Meter R where
  side := side
  buffer := IpcState.pipes
  label := pipeEnd side
  buffer_recounted := by
    rintro s _ ⟨arcs, rfl, _⟩
    rfl
  label_alike e e' h := by rw [pipeEnd, pipeEnd, h.fdkind, h.underfd, h.accmode]

variable {limit n m : Nat} {side : Side} {s s' : IpcState R} {e : FDTableEntry} {v v' : View R}
  {barred : Nat → Prop} {kept : Nat × Nat → Prop} {id : Nat}

theorem shown_pipe (s : IpcState R) (id : Nat) :
    (pipeMeter R side).shown s id = (pipeCounts s id).map (·.shown side) :=
  map_bind.symm

/-- Every end of a pipe is counted by the pipe, and nothing else is. -/
theorem matches_pipe (hs : Registered limit s) (hdir : e.fdkind = ipcPipe → IsEnd e) :
    (pipeMeter R side).Matches s e := by
  intro id a ha
  change (s.refBump e).on side = some a ↔ pipeEnd side e = some id
  rw [pipeEnd_eq_some, refBump]
  by_cases hkind : e.fdkind = ipcPipe
  · have hpipe : s.pipes e.underfd = some a ↔ e.underfd = id :=
      ⟨fun h => hs.pipe_inj _ id a h ha, fun h => h ▸ ha⟩
    rcases exists_side (hdir hkind) with ⟨d, hd⟩
    rw [if_pos hkind, isReadEnd, hd]
    cases side <;> cases d <;>
      simp [RefBump.on, Side.direction, hkind, hpipe, oWronly, oRdonly]
  rw [if_neg hkind]
  refine iff_of_false (fun h => ?_) fun h => hkind h.1
  split at h
  · cases side with
    | write =>
      rcases bind_eq_some_iff.mp h with ⟨sock, hsock, hsend⟩
      exact (hs.send _ sock a hsock hsend).2 id ha
    | read =>
      rcases bind_eq_some_iff.mp h with ⟨sock, hsock, hrecv⟩
      exact (hs.recv _ sock a hsock hrecv).2 id ha
  · cases side with
    | write | read => cases h

theorem shown_pipe_congr (hpipes : s'.pipes = s.pipes)
    (h : ∀ a, s.pipes id = some a → s'.shown side a = s.shown side a) :
    (pipeMeter R side).shown s' id = (pipeMeter R side).shown s id := by
  change (s'.pipes id).bind _ = (s.pipes id).bind _
  rw [hpipes]
  cases hp : s.pipes id with
  | none => rfl
  | some a => exact h a hp

theorem shown_newPipe [RingBuffer R] (hs : Registered limit s) {c : Nat × Bool}
    (h : (pipeMeter R side).shown s.newPipe id = some c) :
    (id = s.nextPipeId ∧ c = (1, false)) ∨
      ¬ id = s.nextPipeId ∧ (pipeMeter R side).shown s id = some c := by
  rcases bind_eq_some_iff.mp h with ⟨a, ha, hc⟩
  change update s.pipes s.nextPipeId (some s.arcs.length) id = some a at ha
  have harcs : s.newPipe.arcs = s.arcs ++ [PipeBuffer.new pipeCapacity] := rfl
  rw [update_apply] at ha
  split at ha
  next hid =>
    cases ha
    rw [IpcState.shown, countsAt, harcs, List.getElem?_concat_length] at hc
    refine .inl ⟨hid, (some.inj hc).symm.trans ?_⟩
    cases side with
    | write | read => rfl
  next hid =>
    refine .inr ⟨hid, bind_eq_some_iff.mpr ⟨a, ha, ?_⟩⟩
    exact (shown_append harcs (hs.pipe_lt id a ha).2).symm.trans hc

theorem tally_next (ht : Tidy limit v) :
    tally (fun j => (v.look j).bind (pipeEnd side)) v.ipc.nextPipeId = 0 := by
  rw [tally_eq_zero (finitelyMany_bind _ ht.named.finite)]
  intro j hj
  rcases bind_eq_some_iff.mp hj with ⟨e, he, hend⟩
  rcases pipeEnd_eq_some.mp hend with ⟨hkind, _, hunder⟩
  exact absurd (ht.named.pipe j e he hkind).1 (by omega)

variable [RingBuffer R]

/-- A move keeps the counters exact and uses up as much room as it counts up. -/
theorem pipeHolds_move (h : Move limit ⟨(· = ipcPipe), barred, kept⟩ m v v') (ht : Tidy limit v)
    (hv : (pipeMeter R side).Holds (fun _ => True) (m + n) v) (hn : n + 1 < 2 ^ 32) :
    (pipeMeter R side).Holds (fun _ => True) n v' := by
  have hfin := ht.named.finite
  have hold : (pipeMeter R side).Holds (fun _ => True) n v :=
    ⟨hv.exact, fun id c hc => by have := hv.room id c hc; omega⟩
  have quiet : ∀ s, (∀ id, (pipeMeter R side).shown s id = (pipeMeter R side).shown v.ipc id) →
      (pipeMeter R side).Holds (fun _ => True) n ⟨v.look, s⟩ :=
    fun s hshown => hold.same hshown rfl
  have grown : ∀ {s : IpcState R} {new : List (PipeBuffer R)}, s.pipes = v.ipc.pipes →
      s.arcs = v.ipc.arcs ++ new →
      ∀ id, (pipeMeter R side).shown s id = (pipeMeter R side).shown v.ipc id :=
    fun hpipes harcs id => shown_pipe_congr hpipes fun a ha =>
      shown_append harcs (ht.reg.pipe_lt id a ha).2
  have hput : ∀ (look : Nat × Nat → Option FDTableEntry) k e, look k = none →
      e.fdkind ≠ ipcPipe → (fun j => (update look k (some e) j).bind (pipeEnd side)) =
        fun j => (look j).bind (pipeEnd side) := by
    intro look k e hfree hkind
    refine bind_update_same ?_
    rw [hfree]
    exact pipeEnd_eq_none hkind
  have hstray : ∀ e : FDTableEntry, ¬ e.fdkind = ipcPipe → (pipeMeter R side).Matches v.ipc e :=
    fun e hkind => matches_pipe ht.reg fun h => absurd h hkind
  cases h with
  | keeps _ s hkeeps =>
    exact quiet s fun id => shown_pipe_congr hkeeps.pipes fun a _ => shown_keeps hkeeps a
  | track => exact quiet _ fun _ => rfl
  | put _ k e hfree hkind => exact hold.same (fun _ => rfl) (hput v.look k e hfree hkind)
  | dup _ k j e0 e hfree hentry halike =>
    refine hv.dup (matches_pipe ht.reg fun hkind => ?_) hfin hfree hentry halike
    exact ((ht.named.alike k hentry halike).pipe k e (update_self ..) hkind).2
  | drop _ k e hentry =>
    exact hold.drop (matches_pipe ht.reg fun hkind => (ht.named.pipe k e hentry hkind).2)
      (fun _ _ => trivial) hfin hentry
  | retag _ k e e' hentry halike =>
    refine hold.same (fun _ => rfl) (bind_update_same ?_)
    rw [hentry]
    exact (pipeMeter R side).label_alike e e' halike
  | pipe _ k1 k2 flags hfree1 hfree2 hne =>
    have hends : ∀ id, (if pipeEnd side (endEntry v.ipc.nextPipeId flags Side.read.direction) =
        some id then 1 else 0) + (if pipeEnd side (endEntry v.ipc.nextPipeId flags
          Side.write.direction) = some id then 1 else 0) =
        if id = v.ipc.nextPipeId then 1 else 0 := by
      intro id
      rw [pipeEnd_endEntry, pipeEnd_endEntry]
      cases side with
      | write | read => simp [eq_comm]
    have hput := fun id => (tally_put_pair hfin hfree1 hfree2 hne (pipeEnd side) _ _ id).trans
      ((Nat.add_assoc ..).trans (congrArg (_ + ·) (hends id)))
    refine hold.fresh hn (fun id hid => (hput id).trans ?_) (fun id c => shown_newPipe ht.reg)
      fun id c hid _ => (hput id).trans ?_
    · rw [if_pos hid, hid, tally_next ht]
    · rw [if_neg hid]
      rfl
  | pair _ k1 k2 socktype hfree1 hfree2 hne =>
    refine hold.same (grown rfl rfl) ((hput _ k2 _ ?_ pipe_ne_socket.symm).trans
      (hput v.look k1 _ hfree1 pipe_ne_socket.symm))
    rw [update_of_ne hne.symm, hfree2]
  | join | lostPair => exact quiet _ (grown rfl rfl)
  | take _ k _ _ _ _ _ hfree =>
    exact hold.same (fun _ => rfl) (hput v.look k _ hfree pipe_ne_socket.symm)
  | stray _ e hkind =>
    exact quiet _ fun id => congrFun (Meter.shown_bump_none (hstray e hkind)
      (pipeEnd_eq_none hkind)) id
  | leak _ e hkind =>
    exact quiet _ fun id => congrFun (Meter.shown_closeHandler_none (hstray e hkind)
      (pipeEnd_eq_none hkind)) id
  | hangUp _ id sock hsock =>
    have hrec := recounted_lower v.ipc ⟨sock.sendpipe, none⟩
    refine quiet (v.ipc.lower ⟨sock.sendpipe, none⟩) fun id' => shown_pipe_congr
      ((pipeMeter R side).buffer_recounted _ _ hrec) fun a ha => ?_
    have hne : RefBump.on ⟨sock.sendpipe, none⟩ side ≠ some a := by
      cases side with
      | write => exact fun h => (ht.reg.send id sock a hsock h).2 id' ha
      | read => exact nofun
    simp [shown_lower, hne]
  | lostPipe _ hne => exact absurd rfl hne

theorem pipeExact_moves (h : Moves limit ⟨(· = ipcPipe), barred, kept⟩ m v v') (ht : Tidy limit v)
    (hv : (pipeMeter R side).Holds (fun _ => True) (m + n) v) (hn : m + n + 1 < 2 ^ 32) :
    (pipeMeter R side).Exact (fun _ => True) v' := by
  induction h with
  | refl => exact hv.exact
  | next m1 m2 v v1 v2 h _ ih =>
    rw [Nat.add_assoc] at hn hv
    exact ih (tidy_move h ht) (pipeHolds_move h ht hv (by omega)) (by omega)

end LindGrates.Ipc
