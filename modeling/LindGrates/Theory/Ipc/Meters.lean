import LindGrates.Theory.Ipc.Tidy

/-!
# Counters and Descriptors

A buffer counts its writers and its readers. A meter says which descriptors one
of the two counters is meant to count: those for an end of a pipe, or those of a
socket that sends on the buffer. Whatever the meter, a duplicate and a close
handler change the counter and the number of descriptors alike.

## Main definitions

* `Meter`: Which descriptors a counter is meant to count.
* `Counted`: A counter shows how many descriptors there are.
* `Meter.Exact`: Every counter shows how many descriptors there are.
* `Meter.Room`: No counter is near its maximum.

## Theorems

* `Meter.Holds.dup`: A duplicate keeps the counters exact.
* `Meter.Holds.drop`: So does a close handler that runs with its descriptor.
* `Meter.Holds.fresh`: So do new buffers that come with new descriptors.
-/

namespace LindGrates.Ipc

open Function Option IpcState

variable {R : Type}

/-- The two counters of a buffer. -/
inductive Side
  | write
  | read
  deriving DecidableEq

/-- Only the last writer flags an end. -/
def Side.flags : Side → Bool
  | .write => true
  | .read => false

def RefBump.on (b : RefBump) : Side → Option Nat
  | .write => b.write
  | .read => b.read

/-- The counter, and the end-of-file flag if it is the one that sets it. -/
def PipeBuffer.Counts.shown (c : PipeBuffer.Counts) : Side → Nat × Bool
  | .write => (c.writeRefs, c.eof)
  | .read => (c.readRefs, false)

def countsAt (s : IpcState R) (a : Nat) : Option PipeBuffer.Counts :=
  (s.arcs[a]?).map PipeBuffer.counts

def IpcState.shown (s : IpcState R) (side : Side) (a : Nat) : Option (Nat × Bool) :=
  (countsAt s a).map (·.shown side)

section Buffers

variable {side : Side}

theorem shown_modifyArc? {f : PipeBuffer R → PipeBuffer R} {g : Nat × Bool → Nat × Bool}
    (hf : ∀ p, (f p).counts.shown side = g (p.counts.shown side)) (s : IpcState R)
    (o : Option Nat) (a : Nat) :
    (s.modifyArc? o f).shown side a =
      (s.shown side a).map fun c => if o = some a then g c else c := by
  rcases o with _ | i
  · rw [modifyArc?]
    simp
  rw [modifyArc?, IpcState.shown, countsAt, modifyArc, List.getElem?_modify, IpcState.shown,
    countsAt]
  cases s.arcs[a]? with
  | none => rfl
  | some p =>
    by_cases h : i = a
    · simp [h, hf]
    · simp [h]

theorem shown_modifyArc?_same {f : PipeBuffer R → PipeBuffer R}
    (hf : ∀ p, (f p).counts.shown side = p.counts.shown side) (s : IpcState R) (o : Option Nat)
    (a : Nat) : (s.modifyArc? o f).shown side a = s.shown side a := by
  rw [shown_modifyArc? (g := id) hf]
  simp

theorem shown_append {s s' : IpcState R} {new : List (PipeBuffer R)} {a : Nat}
    (harcs : s'.arcs = s.arcs ++ new) (ha : a < s.arcs.length) :
    s'.shown side a = s.shown side a := by
  rw [IpcState.shown, IpcState.shown, countsAt, countsAt, harcs, List.getElem?_append_left ha]

theorem shown_keeps {s s' : IpcState R} (h : Keeps s s') (a : Nat) :
    s'.shown side a = s.shown side a := by
  rw [IpcState.shown, IpcState.shown, countsAt, countsAt, ← List.getElem?_map, h.counts,
    List.getElem?_map]

theorem shown_raise (s : IpcState R) (b : RefBump) (side : Side) (a : Nat) :
    (s.raise b).shown side a =
      (s.shown side a).map fun c => if b.on side = some a then (succU32 c.1, c.2) else c := by
  cases side with
  | write =>
    rw [raise, shown_modifyArc?_same (f := PipeBuffer.incrReadRef) fun p => rfl]
    exact shown_modifyArc? (g := fun c => (succU32 c.1, c.2)) (fun p => rfl) s b.write a
  | read =>
    rw [raise, shown_modifyArc? (g := fun c => (succU32 c.1, c.2)) fun p => rfl,
      shown_modifyArc?_same (f := PipeBuffer.incrWriteRef) fun p => rfl]
    rfl

theorem shown_lower (s : IpcState R) (b : RefBump) (side : Side) (a : Nat) :
    (s.lower b).shown side a = (s.shown side a).map fun c =>
      if b.on side = some a then (predU32 c.1, if c.1 = 1 then side.flags else c.2) else c := by
  cases side with
  | write =>
    rw [lower, shown_modifyArc?_same (f := PipeBuffer.decrReadRef) fun p => rfl]
    exact shown_modifyArc? (g := fun c => (predU32 c.1, if c.1 = 1 then true else c.2))
      (fun p => rfl) s b.write a
  | read =>
    have hf : ∀ p : PipeBuffer R, p.decrReadRef.counts.shown .read =
        (predU32 p.readRefs, if p.readRefs = 1 then false else false) :=
      fun p => Prod.ext rfl (ite_self false).symm
    rw [lower, shown_modifyArc? (g := fun c => (predU32 c.1, if c.1 = 1 then false else c.2)) hf,
      shown_modifyArc?_same (f := PipeBuffer.decrWriteRef) fun p => rfl]
    rfl

end Buffers

/-- A counter shows how many descriptors carry the label `id`, and the flag is set
    when there is none. -/
structure Counted (side : Side) (look : Nat × Nat → Option FDTableEntry)
    (label : FDTableEntry → Option Nat) (id : Nat) (c : Nat × Bool) : Prop where
  count : c.1 = tally (fun j => (look j).bind label) id
  flag : c.2 = true ↔ side.flags = true ∧ c.1 = 0

/-- The buffers a counter is looked up at, and the descriptors it is meant to count. -/
structure Meter (R : Type) where
  side : Side
  buffer : IpcState R → Nat → Option Nat
  label : FDTableEntry → Option Nat
  buffer_recounted : ∀ s s', Recounted s s' → buffer s' = buffer s
  label_alike : ∀ e e', Alike e e' → label e' = label e

namespace Meter

def shown (m : Meter R) (s : IpcState R) (id : Nat) : Option (Nat × Bool) :=
  (m.buffer s id).bind (s.shown m.side)

def Exact (m : Meter R) (live : Nat → Prop) (v : View R) : Prop :=
  ∀ id c, live id → m.shown v.ipc id = some c → Counted m.side v.look m.label id c

/-- No counter is within `n` of its maximum. -/
def Room (m : Meter R) (n : Nat) (s : IpcState R) : Prop :=
  ∀ id c, m.shown s id = some c → c.1 + n < 2 ^ 32

/-- The counters are exact and have room for `n` more. -/
structure Holds (m : Meter R) (live : Nat → Prop) (n : Nat) (v : View R) : Prop where
  exact : m.Exact live v
  room : m.Room n v.ipc

/-- A reference that an entry holds is counted where its label says. -/
def Matches (m : Meter R) (s : IpcState R) (e : FDTableEntry) : Prop :=
  ∀ id a, m.buffer s id = some a →
    ((s.refBump e).on m.side = some a ↔ m.label e = some id)

variable {m : Meter R} {live : Nat → Prop} {v : View R} {s : IpcState R} {id n k' : Nat}
  {look : Nat × Nat → Option FDTableEntry} {j k : Nat × Nat} {e₀ e : FDTableEntry}
  {c : Nat × Bool}

theorem shown_bump (h : m.Matches s e) (id : Nat) :
    m.shown (s.bump e) id =
      (m.shown s id).map fun c => if m.label e = some id then (succU32 c.1, c.2) else c := by
  rw [shown, m.buffer_recounted s (s.bump e) (recounted_raise s _), shown]
  rcases ha : m.buffer s id with _ | a
  · rfl
  change (s.raise _).shown m.side a = (s.shown m.side a).map _
  simp only [shown_raise, h id a ha]

theorem shown_closeHandler (h : m.Matches s e) (id : Nat) :
    m.shown (s.closeHandler e) id = (m.shown s id).map fun c =>
      if m.label e = some id then (predU32 c.1, if c.1 = 1 then m.side.flags else c.2)
      else c := by
  rw [shown, m.buffer_recounted s _ (recounted_closeHandler s e), shown]
  rcases ha : m.buffer s id with _ | a
  · rfl
  change (s.closeHandler e).shown m.side a = (s.shown m.side a).map _
  simp only [closeHandler_eq_lower, shown_lower, h id a ha]

/-- An entry without a label leaves the counters alone. -/
theorem shown_bump_none (h : m.Matches s e) (hnone : m.label e = none) :
    m.shown (s.bump e) = m.shown s := by
  funext id
  rw [shown_bump h, hnone]
  simp

theorem shown_closeHandler_none (h : m.Matches s e) (hnone : m.label e = none) :
    m.shown (s.closeHandler e) = m.shown s := by
  funext id
  rw [shown_closeHandler h, hnone]
  simp

theorem succU32_eq (h : n + 1 < 2 ^ 32) : succU32 n = n + 1 := by
  rw [succU32, if_neg (by omega)]

theorem predU32_eq (h : 0 < n) : predU32 n = n - 1 := by
  rw [predU32, if_neg (by omega)]

/-- A duplicate is counted where its label says. -/
theorem Holds.dup (hv : m.Holds live (1 + n) v) (hm : m.Matches v.ipc e)
    (hfin : FinitelyMany v.look) (hfree : v.look k = none) (hentry : v.look j = some e₀)
    (halike : Alike e₀ e) : m.Holds live n ⟨update v.look k (some e), v.ipc.bump e⟩ := by
  refine ⟨fun id c' hlive hc' => ?_, fun id c' hc' => ?_⟩
  all_goals
    rw [shown_bump hm] at hc'
    rcases map_eq_some_iff.mp hc' with ⟨c, hc, rfl⟩
    have hlt := hv.room id c hc
    have hsucc : succU32 c.1 = c.1 + 1 := succU32_eq (by omega)
  · rcases hv.exact id c hlive hc with ⟨hcount, hflag⟩
    have htally := tally_put hfin hfree m.label e id
    split
    next hend =>
      -- The label has a descriptor already, so no end was flagged.
      have hpos := tally_pos hfin hentry (m.label_alike e₀ e halike ▸ hend)
      rw [if_pos hend, ← hcount] at htally
      refine ⟨hsucc.trans htally.symm, ?_⟩
      rw [hflag, hsucc]
      omega
    next hend =>
      rw [if_neg hend] at htally
      exact ⟨hcount.trans htally.symm, hflag⟩
  · split
    · rw [hsucc]
      omega
    · omega

/-- A close handler that runs with the descriptor counts down where its label says. -/
theorem Holds.drop (hv : m.Holds live n v) (hm : m.Matches v.ipc e)
    (hlive : ∀ id, m.label e = some id → live id) (hfin : FinitelyMany v.look)
    (hentry : v.look k = some e) :
    m.Holds live n ⟨update v.look k none, v.ipc.closeHandler e⟩ := by
  have htally := tally_erase hfin hentry m.label
  have hpred : ∀ id c, m.shown v.ipc id = some c → m.label e = some id →
      c.1 = tally (fun j => (update v.look k none j).bind m.label) id + 1 ∧
        predU32 c.1 = c.1 - 1 := by
    intro id c hc hend
    have hcount := (hv.exact id c (hlive id hend) hc).count
    rw [htally id, if_pos hend] at hcount
    exact ⟨hcount, predU32_eq (by omega)⟩
  refine ⟨fun id c' hlive' hc' => ?_, fun id c' hc' => ?_⟩
  all_goals
    rw [shown_closeHandler hm] at hc'
    rcases map_eq_some_iff.mp hc' with ⟨c, hc, rfl⟩
  · rcases hv.exact id c hlive' hc with ⟨hcount, hflag⟩
    split
    next hend =>
      rcases hpred id c hc hend with ⟨hcount', hpred'⟩
      refine ⟨?_, ?_⟩
      · rw [hpred', hcount']
        rfl
      -- The last descriptor flags the end.
      · change (if c.1 = 1 then m.side.flags else c.2) = true ↔
          m.side.flags = true ∧ predU32 c.1 = 0
        split
        next hone => simp [hone, predU32]
        next hone =>
          rw [hflag]
          omega
    next hend =>
      rw [htally id, if_neg hend] at hcount
      exact ⟨hcount, hflag⟩
  · have hlt := hv.room id c hc
    split
    next hend =>
      rw [(hpred id c hc hend).2]
      omega
    · exact hlt

/-- New labels come with one descriptor and a counter that shows it. -/
theorem Holds.fresh (hv : m.Holds live n v) (hn : n + 1 < 2 ^ 32) {new : Nat → Prop}
    (hnew : ∀ id, new id → tally (fun j => (look j).bind m.label) id = 1)
    (hshown : ∀ id c, m.shown s id = some c →
      (new id ∧ c = (1, false)) ∨ ¬ new id ∧ m.shown v.ipc id = some c)
    (htally : ∀ id c, ¬ new id → m.shown v.ipc id = some c →
      tally (fun j => (look j).bind m.label) id = tally (fun j => (v.look j).bind m.label) id) :
    m.Holds live n ⟨look, s⟩ := by
  refine ⟨fun id c hlive hc => ?_, fun id c hc => ?_⟩
  all_goals rcases hshown id c hc with ⟨hid, rfl⟩ | ⟨hid, hold⟩
  · exact ⟨(hnew id hid).symm, by simp⟩
  · rcases hv.exact id c hlive hold with ⟨hcount, hflag⟩
    exact ⟨hcount.trans (htally id c hid hold).symm, hflag⟩
  · change 1 + n < 2 ^ 32
    omega
  · exact hv.room id c hold

/-- Counters that are left show what they showed. -/
theorem Holds.less (hv : m.Holds live n v)
    (hshown : ∀ id c, m.shown s id = some c → m.shown v.ipc id = some c)
    (htally : ∀ id c, m.shown v.ipc id = some c →
      tally (fun j => (look j).bind m.label) id = tally (fun j => (v.look j).bind m.label) id) :
    m.Holds live n ⟨look, s⟩ := by
  refine ⟨fun id c hlive hc => ?_, fun id c hc => hv.room id c (hshown id c hc)⟩
  rcases hv.exact id c hlive (hshown id c hc) with ⟨hcount, hflag⟩
  exact ⟨hcount.trans (htally id c (hshown id c hc)).symm, hflag⟩

theorem Holds.same (hv : m.Holds live n v) (hshown : ∀ id, m.shown s id = m.shown v.ipc id)
    (hlook : (fun j => (look j).bind m.label) = fun j => (v.look j).bind m.label) :
    m.Holds live n ⟨look, s⟩ :=
  hv.less (fun id _ hc => hshown id ▸ hc) fun _ _ _ => by rw [hlook]

end Meter

end LindGrates.Ipc
