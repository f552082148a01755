import LindGrates.Base.Run
import LindGrates.Core.Ipc.Stream

/-!
# Pipes as Byte Streams

What the reader has got and what is still in the pipe, put together, is what the
writer's calls have counted as written. A failed copy is not noticed: the slots it
was meant to fill count as filled with whatever they held, so bytes enter the pipe
that nobody wrote. A call for `2 ^ 31` bytes or more can move all of them and return
a negative number.

## Main definitions

* `CopiesSucceed`: Every copy succeeds, and no call asks for so many bytes.
* `Honest`: A finished call put into the pipe what its result says.
* `StreamInv`: What has been read and what is in the pipe is what has been written.

## Theorems

* `stream_lossless`: The pipe is a byte stream if every copy succeeds.
* `stream_corrupted`: A failed copy after which the reader gets a wrong byte.
-/

namespace LindGrates.Ipc

open RingBuffer PipeBuffer List Option LawfulRingBuffer Channel Nat

variable {oks : List Bool} {ret : Int} {call : WriteCall} {count n : Nat}

/-- Every copy succeeds, and a call that copies from its cage asks for less than
    `2 ^ 31` bytes. -/
def CopiesSucceed {R : Type} (_ : Channel R) : Act → Prop
  | .write bytes _ => bytes.length < 2 ^ 31
  | .writev segments _ => ∀ seg ∈ segments, seg.2 = true
  | .push copyLeft copyRight => copyLeft = none ∧ copyRight = none
  | .pop okLeft okRight => okLeft = true ∧ okRight = true
  | .popv oks => ∀ ok ∈ oks, ok = true
  | _ => True

instance {R : Type} (c : Channel R) (a : Act) : Decidable (CopiesSucceed c a) := by
  cases a <;> unfold CopiesSucceed <;> infer_instance

/-- A finished call did what its result says: a positive result counts the bytes
    that entered the pipe, and with a negative one other than `EPIPE` none did. -/
structure Honest (r : Written) : Prop where
  counted : 0 < r.ret → r.entered = r.wanted.take r.ret.toNat
  failed : r.ret < 0 → r.ret ≠ -32 → r.entered = []

section Halves

variable {R : Type} [RingBuffer R]

/-- The result of pushing as much of a buffer as fits. -/
structure Pushes (p : PipeBuffer R) (src : List UInt8) (total : Nat)
    (r : Nat × PipeBuffer R) : Prop where
  count : r.1 = min (src.length - total) (capacity p.ring - len p.ring)
  contents_eq : contents r.2.ring = contents p.ring ++ (src.drop total).take r.1
  capacity_eq : capacity r.2.ring = capacity p.ring

/-- The result of popping as many bytes as there are, up to a number. -/
structure Pops (p : PipeBuffer R) (count : Nat) (n : Nat) (p' : PipeBuffer R) : Prop where
  count_eq : n = min count (len p.ring)
  contents_eq : contents p'.ring = (contents p.ring).drop n
  capacity_eq : capacity p'.ring = capacity p.ring

variable [LawfulRingBuffer R]

theorem pushes_pushFrom (p : PipeBuffer R) (src : List UInt8) (total : Nat) :
    Pushes p src total (p.pushFrom src total) := by
  have hfst := pushSlice_fst p.ring (src.drop total)
  rw [length_drop] at hfst
  refine ⟨hfst, ?_, capacity_pushSlice _ _⟩
  have hcontents := contents_pushSlice p.ring (src.drop total)
  have htake : (src.drop total).take (capacity p.ring - len p.ring) =
      (src.drop total).take (min (src.length - total) (capacity p.ring - len p.ring)) := by
    rw [← length_drop, take_eq_take_min, min_comm]
  rw [htake, ← hfst] at hcontents
  exact hcontents

/-- The bytes for the slots up to the end of the storage and those behind the
    wrap follow one another in the buffer. -/
theorem take_append_take (src : List UInt8) (total n m : Nat) :
    (src.drop total).take n ++ (src.drop (total + n)).take m = (src.drop total).take (n + m) := by
  rw [take_add, drop_drop]

theorem pushes_of_fill (p : PipeBuffer R) (src : List UInt8) (total : Nat)
    (fill : Nat → Nat → List UInt8)
    (hfill : ∀ left right, left + right = capacity p.ring - len p.ring → fill left right =
      (src.drop total).take (min (src.length - total) (capacity p.ring - len p.ring))) :
    Pushes p src total ((pushAccess p.ring fill).1,
      { p with ring := (pushAccess p.ring fill).2 }) := by
  have hbytes := hfill _ _ (vacant_add p.ring)
  have hlen : (fill (vacant p.ring).1 (vacant p.ring).2).length =
      min (src.length - total) (capacity p.ring - len p.ring) := by
    rw [hbytes, length_take, length_drop]
    omega
  have hroom : (fill (vacant p.ring).1 (vacant p.ring).2).length ≤
      capacity p.ring - len p.ring := by
    rw [hlen]
    exact min_le_right _ _
  have hfst := (pushAccess_fst p.ring fill hroom).trans hlen
  refine ⟨hfst, ?_, capacity_pushAccess _ _⟩
  have hcontents := contents_pushAccess p.ring fill hroom
  rw [hbytes, ← hfst] at hcontents
  exact hcontents

theorem pushes_pushFromCage (p : PipeBuffer R) (src : List UInt8) (total : Nat) :
    Pushes p src total (p.pushFromCage src total none none) := by
  refine pushes_of_fill p src total _ fun left right h => ?_
  -- Both slices together take what is left of the buffer, or all there is room for.
  simp only [landed]
  rw [take_append_take]
  congr 1
  omega

theorem pops_popTo (p : PipeBuffer R) (count : Nat) :
    Pops p count (p.popTo count).1.length (p.popTo count).2 ∧
      (p.popTo count).1 = (contents p.ring).take (p.popTo count).1.length := by
  have hfst := popSlice_fst p.ring count
  have hlen : (p.popTo count).1.length = min count (len p.ring) := by
    change (popSlice p.ring count).1.length = _
    rw [hfst, length_take, length_contents]
  refine ⟨⟨hlen, ?_, capacity_popSlice _ _⟩, ?_⟩
  · rw [hlen]
    refine (contents_popSlice p.ring count).trans ?_
    rw [← length_contents, drop_eq_drop_min]
  · rw [hlen]
    refine hfst.trans ?_
    rw [← length_contents, take_eq_take_min]

theorem take_overlay_overlay (mem left right : List UInt8) :
    (overlay (overlay mem 0 left) left.length right).take (left.length + right.length) =
      left ++ right := by
  simp only [overlay, take_zero, nil_append, zero_add]
  rw [take_left, ← length_append, take_left]

theorem take_slices (left right : List UInt8) (count : Nat) :
    left.take (min count left.length) ++
        right.take (min (count - min count left.length) right.length) =
      (left ++ right).take
        (min count left.length + min (count - min count left.length) right.length) := by
  by_cases h : count ≤ left.length
  · have hzero : count - min count left.length = 0 := by omega
    rw [hzero, Nat.zero_min, take_zero, append_nil, Nat.add_zero,
      take_append_of_le_length (Nat.min_le_right _ _)]
  · have hall : min count left.length = left.length := by omega
    rw [hall, take_length, take_length_add_append]

theorem pops_popToCage (p : PipeBuffer R) (mem : List UInt8) :
    Pops p mem.length (p.popToCage mem mem.length true true).1
        (p.popToCage mem mem.length true true).2.2 ∧
      (p.popToCage mem mem.length true true).2.1.take (p.popToCage mem mem.length true true).1 =
        (contents p.ring).take (p.popToCage mem mem.length true true).1 := by
  have hle : min mem.length (occupied p.ring).1.length +
      min (mem.length - min mem.length (occupied p.ring).1.length) (occupied p.ring).2.length ≤
        len p.ring := by
    rw [len]
    omega
  have hfst := popAccess_fst p.ring
    (fun left right => min mem.length left.length +
      min (mem.length - min mem.length left.length) right.length) hle
  have hcontents := contents_popAccess p.ring
    (fun left right => min mem.length left.length +
      min (mem.length - min mem.length left.length) right.length) hle
  refine ⟨⟨?_, ?_, capacity_popAccess _ _⟩, ?_⟩
  · refine hfst.trans ?_
    rw [len]
    omega
  · rw [← hfst] at hcontents
    exact hcontents
  · refine Eq.trans ?_ (congrArg (fun n => (contents p.ring).take n) hfst.symm)
    rw [contents, ← take_slices]
    have hmem := take_overlay_overlay mem
      ((occupied p.ring).1.take (min mem.length (occupied p.ring).1.length))
      ((occupied p.ring).2.take
        (min (mem.length - min mem.length (occupied p.ring).1.length) (occupied p.ring).2.length))
    rw [length_take, length_take, min_assoc, min_self, min_assoc, min_self] at hmem
    rw [← hmem]
    exact congrArg (fun n => (p.popToCage mem mem.length true true).2.1.take n) hfst

end Halves

theorem gatherIovIntoBuf_of_ok {segments : List (List UInt8 × Bool)}
    (h : ∀ seg ∈ segments, seg.2 = true) :
    gatherIovIntoBuf segments = segments.flatMap Prod.fst := by
  induction segments with
  | nil => rfl
  | cons seg _ ih =>
    rw [gatherIovIntoBuf, flatMap_cons, flatMap_cons, if_pos (h seg mem_cons_self)]
    exact congrArg (seg.1 ++ ·) (ih fun s hs => h s (mem_cons_of_mem _ hs))

theorem take_scatterBufIntoIov {segments : List (List UInt8)}
    (hlen : oks.length = segments.length) (hok : ∀ ok ∈ oks, ok = true) :
    ∀ data : List UInt8, data.length ≤ segments.flatten.length →
      (scatterBufIntoIov data (segments.zip oks)).flatten.take data.length = data := by
  induction segments generalizing oks with
  | nil =>
    intro data h
    have hnil : data = [] := length_eq_zero_iff.mp (le_zero.mp h)
    rw [hnil]
    rfl
  | cons seg segments ih =>
    intro data h
    rcases oks with _ | ok
    · cases hlen
    have hok1 : ok = true := hok ok mem_cons_self
    have hrest := ih (succ.inj hlen) (fun o ho => hok o (mem_cons_of_mem _ ho))
      (data.drop (min seg.length data.length)) (by
        rw [flatten_cons, length_append] at h
        rw [length_drop]
        omega)
    simp only [zip_cons_cons, scatterBufIntoIov, hok1, if_true, flatten_cons]
    by_cases hfit : data.length ≤ seg.length
    · have hmin : min seg.length data.length = data.length := by omega
      rw [hmin, take_length, append_assoc, take_left]
    have hmin : min seg.length data.length = seg.length := by omega
    rw [hmin] at hrest ⊢
    rw [drop_length, append_nil]
    have hsplit : data.length =
        (data.take seg.length).length + (data.drop seg.length).length := by
      rw [length_take, length_drop]
      omega
    rw [hsplit, take_length_add_append, hrest, take_append_drop]

/-- A writing call in progress has put the front of its bytes into the pipe. -/
structure WriterInv (call : WriteCall) : Prop where
  src_eq : call.src = call.wanted
  entered_eq : call.entered = call.wanted.take call.total
  total_le : call.total ≤ call.wanted.length
  small : call.wanted.length < 2 ^ 31

theorem honest_of_nil {wanted : List UInt8} (hret : ret ≤ 0) :
    Honest ⟨wanted, ret, []⟩ :=
  ⟨fun hpos => absurd hpos (Int.not_lt.mpr hret), fun _ _ => rfl⟩

theorem honest_total (h : WriterInv call) (hpos : 0 < call.total) :
    Honest ⟨call.wanted, asI32 call.total, call.entered⟩ := by
  have hcast : asI32 (call.total : Int) = call.total :=
    asI32_natCast (lt_of_le_of_lt h.total_le h.small)
  refine ⟨fun _ => ?_, fun hneg _ => ?_⟩
  · simp only [hcast, h.entered_eq, Int.toNat_natCast]
  · simp only [hcast] at hneg
    omega

theorem honest_stalled {R : Type} {p : PipeBuffer R} (h : WriterInv call)
    {interrupted : Bool} (hret : p.stalled call.total call.nonblocking interrupted = some ret) :
    Honest ⟨call.wanted, ret, call.entered⟩ := by
  have hzero : ¬ 0 < call.total → call.entered = [] := by
    intro hc
    rw [h.entered_eq, Nat.eq_zero_of_not_pos hc, take_zero]
  unfold stalled at hret
  split at hret
  · cases hret
    exact ⟨fun hc => absurd hc (by simp), fun _ hc => absurd rfl hc⟩
  split at hret
  · cases hret
    split
    next hpos => exact honest_total h hpos
    rename_i hpos
    rw [hzero hpos]
    exact honest_of_nil (by decide)
  split at hret
  · cases hret
    split
    next hpos => exact honest_total h hpos
    rename_i hpos
    rw [hzero hpos]
    exact honest_of_nil (by decide)
  · cases hret

section Stream

variable {R : Type} [RingBuffer R]

/-- The pipe's storage has one byte more than its capacity, and an allocation
    has less than `2 ^ 31` bytes. -/
def Started (c : Channel R) : Prop :=
  ∃ n, n + 1 < 2 ^ 31 ∧ c = Channel.start n

/-- What has been read and what is still in the pipe is what has been written. -/
structure StreamInv (c : Channel R) : Prop where
  flow : c.accepted = c.returned ++ contents c.pipe.ring
  small : capacity c.pipe.ring < 2 ^ 31
  writer : ∀ call ∈ c.writer, WriterInv call ∧ call.src ≠ []
  written : ∀ r ∈ c.written, Honest r

variable {c : Channel R} {call : WriteCall} {p : PipeBuffer R}

section

variable (h : StreamInv c)

include h

theorem streamInv_endWrite
    (hr : Honest ⟨call.wanted, ret, call.entered⟩) : StreamInv (c.endWrite call ret) where
  flow := h.flow
  small := h.small
  writer := by
    intro call' hc
    cases hc
  written := by
    intro r hmem
    rcases mem_cons.mp hmem with rfl | hmem
    · exact hr
    · exact h.written r hmem

theorem streamInv_setWriter (hcall : WriterInv call) (hne : call.src ≠ []) :
    StreamInv { c with writer := some call } where
  flow := h.flow
  small := h.small
  writer := by
    intro call' hc
    cases hc
    exact ⟨hcall, hne⟩
  written := h.written

theorem streamInv_beginWrite (hcall : WriterInv call) (hnil : call.entered = []) :
    StreamInv (c.beginWrite call) := by
  unfold beginWrite
  split
  · exact streamInv_endWrite h (hnil ▸ honest_of_nil (Int.le_refl 0))
  rename_i hne
  split
  · exact streamInv_endWrite h (hnil ▸ honest_of_nil (by decide))
  · exact streamInv_setWriter h hcall hne

theorem streamInv_popNone {call : ReadCall} (hpop : Pops c.pipe count n p) (hn : ¬ 0 < n) :
    StreamInv { c with pipe := p, reader := some call } := by
  refine ⟨?_, ?_, h.writer, h.written⟩
  · simp only [h.flow, hpop.contents_eq, Nat.eq_zero_of_not_pos hn, drop_zero]
  · simp only [hpop.capacity_eq]
    exact h.small

theorem streamInv_congr {c' : Channel R} (hring : c'.pipe.ring = c.pipe.ring)
    (hwriter : c'.writer = c.writer) (haccepted : c'.accepted = c.accepted)
    (hreturned : c'.returned = c.returned) (hwritten : c'.written = c.written) : StreamInv c' :=
  ⟨by rw [haccepted, hreturned, hring]; exact h.flow, by rw [hring]; exact h.small,
    by rw [hwriter]; exact h.writer, by rw [hwritten]; exact h.written⟩

theorem streamInv_counters (hring : p.ring = c.pipe.ring) : StreamInv { c with pipe := p } :=
  streamInv_congr h hring rfl rfl rfl rfl

end

variable [LawfulRingBuffer R]

theorem streamInv_push (h : StreamInv c) (hcall : WriterInv call) (hne : call.src ≠ []) :
    StreamInv (c.push call none none) := by
  have hpush : Pushes c.pipe call.src call.total
      (if call.direct then c.pipe.pushFromCage call.src call.total none none
        else c.pipe.pushFrom call.src call.total) := by
    split
    · exact pushes_pushFromCage _ _ _
    · exact pushes_pushFrom _ _ _
  unfold push
  generalize (if call.direct then c.pipe.pushFromCage call.src call.total none none
    else c.pipe.pushFrom call.src call.total) = r at hpush ⊢
  have hcount := hpush.count
  have hcontents := hpush.contents_eq
  rw [hcall.src_eq] at hcount hcontents
  have hle := hcall.total_le
  -- What entered is what the call has counted.
  have hentered : call.entered ++ (contents r.2.ring).drop (contents c.pipe.ring).length =
      call.wanted.take (call.total + r.1) := by
    rw [hcontents, drop_left, hcall.entered_eq, take_add]
  have hinv : StreamInv { c with
      pipe := r.2
      accepted := c.accepted ++ (call.wanted.drop call.total).take r.1 } :=
    { flow := by simp only [h.flow, hcontents, append_assoc]
      small := by simp only [hpush.capacity_eq]; exact h.small
      writer := h.writer
      written := h.written }
  have hcall' : WriterInv { call with
      total := call.total + r.1
      entered := call.entered ++ (contents r.2.ring).drop (contents c.pipe.ring).length
      pushed := true } :=
    ⟨hcall.src_eq, hentered, by simp only; omega, hcall.small⟩
  simp only
  split
  · refine streamInv_endWrite hinv (honest_total hcall' ?_)
    have hpos : 0 < call.src.length := length_pos_iff.mpr hne
    simp only
    omega
  · exact streamInv_setWriter hinv hcall' hne

theorem streamInv_endRead (h : StreamInv c) {mem : List UInt8}
    (hpop : Pops c.pipe count n p) (hmem : mem.take n = (contents c.pipe.ring).take n) :
    StreamInv (({ c with pipe := p } : Channel R).endRead (asI32 n) mem) := by
  have hcast : asI32 (n : Int) = n := by
    refine asI32_natCast (lt_of_le_of_lt ?_ h.small)
    rw [hpop.count_eq]
    exact le_trans (min_le_right _ _) (len_le _)
  refine ⟨?_, ?_, h.writer, h.written⟩
  · simp only [endRead, hcast, Int.toNat_natCast, h.flow, hpop.contents_eq, hmem,
      append_assoc, take_append_drop]
  · simp only [endRead, hpop.capacity_eq]
    exact h.small

theorem streamInv_pop (h : StreamInv c) (call : ReadCall) : StreamInv (c.pop call true true) := by
  rcases pops_popToCage c.pipe call.segments.flatten with ⟨hpop, hmem⟩
  unfold pop
  simp only
  split
  · exact streamInv_endRead h hpop hmem
  next hn => exact streamInv_popNone h hpop hn

theorem streamInv_popv (h : StreamInv c) {call : ReadCall}
    (hlen : oks.length = call.segments.length) (hok : ∀ ok ∈ oks, ok = true) :
    StreamInv (c.popv call oks) := by
  rcases pops_popTo c.pipe call.segments.flatten.length with ⟨hpop, hmem⟩
  unfold popv
  simp only
  split
  · refine streamInv_endRead h hpop ?_
    rw [take_scatterBufIntoIov hlen hok]
    · exact hmem
    · rw [hpop.count_eq]
      exact min_le_left _ _
  next hn => exact streamInv_popNone h hpop hn

theorem streamInv_start (h : Started c) : StreamInv c := by
  rcases h with ⟨n, hn, rfl⟩
  refine ⟨?_, ?_, fun call hc => ?_, fun r hr => ?_⟩
  · simp only [start, PipeBuffer.new, contents_new, append_nil]
  · simp only [start, PipeBuffer.new, capacity_new]
    omega
  · cases hc
  · cases hr

theorem streamInv_act {c' : Channel R} {a : Act} (h : StreamInv c) (hcond : CopiesSucceed c a)
    (hact : c.act a = some c') : StreamInv c' := by
  cases a with
  | write =>
    simp only [act, ite_none_right_eq_some, some.injEq] at hact
    rw [← hact.2]
    exact streamInv_beginWrite h ⟨rfl, rfl, zero_le _, hcond⟩ rfl
  | writev =>
    simp only [act, ite_none_right_eq_some, some.injEq] at hact
    rcases hact with ⟨⟨_, hsmall⟩, rfl⟩
    rw [gatherIovIntoBuf_of_ok hcond] at hsmall ⊢
    split
    · exact streamInv_endWrite h (honest_of_nil (by decide))
    · exact streamInv_beginWrite h ⟨rfl, rfl, zero_le _, hsmall⟩ rfl
  | push =>
    rcases hcond with ⟨rfl, rfl⟩
    simp only [act] at hact
    split at hact
    next call hw =>
      simp only [ite_none_left_eq_some, some.injEq] at hact
      rw [← hact.2]
      rcases h.writer call hw with ⟨hcall, hne⟩
      exact streamInv_push h hcall hne
    · cases hact
  | stall =>
    simp only [act] at hact
    split at hact
    next call hw =>
      simp only [ite_none_right_eq_some, some.injEq] at hact
      rw [← hact.2]
      rcases h.writer call hw with ⟨hcall, hne⟩
      unfold stall
      split
      next ret hret => exact streamInv_endWrite h (honest_stalled hcall hret)
      · exact streamInv_setWriter h
          ⟨hcall.src_eq, hcall.entered_eq, hcall.total_le, hcall.small⟩ hne
    · cases hact
  | read =>
    simp only [act, ite_none_right_eq_some] at hact
    have hact := hact.2
    split at hact
    · cases hact
      exact streamInv_congr h rfl rfl rfl (append_nil _) rfl
    · cases hact
      exact streamInv_congr h rfl rfl rfl rfl rfl
  | readv =>
    simp only [act, ite_none_right_eq_some] at hact
    have hact := hact.2
    split at hact
    · cases hact
      exact streamInv_congr h rfl rfl rfl (append_nil _) rfl
    split at hact
    · cases hact
      exact streamInv_congr h rfl rfl rfl (append_nil _) rfl
    · cases hact
      exact streamInv_congr h rfl rfl rfl rfl rfl
  | pop =>
    rcases hcond with ⟨rfl, rfl⟩
    simp only [act] at hact
    split at hact
    · simp only [ite_none_right_eq_some, some.injEq] at hact
      rw [← hact.2]
      exact streamInv_pop h _
    · cases hact
  | popv =>
    simp only [act] at hact
    split at hact
    · simp only [ite_none_right_eq_some, some.injEq] at hact
      rw [← hact.2]
      exact streamInv_popv h hact.1.2.2 hcond
    · cases hact
  | drain =>
    simp only [act] at hact
    split at hact
    · simp only [ite_none_right_eq_some, some.injEq] at hact
      rw [← hact.2]
      unfold drain
      split
      · refine streamInv_congr h rfl rfl rfl ?_ rfl
        simp only [endRead, take_nil, append_nil]
      · exact streamInv_congr h rfl rfl rfl rfl rfl
    · cases hact
  | incrWriteRef | decrWriteRef | incrReadRef | decrReadRef =>
    simp only [act, some.injEq] at hact
    rw [← hact]
    exact streamInv_counters h rfl

/-- As long as every copy succeeds, what the reader got is a front part of what
    was written, what is still buffered is the rest and fits, and every finished
    writing call did what its result says. -/
theorem stream_lossless {c : Channel R} (hc : Runs Started Channel.act CopiesSucceed c) :
    c.returned <+: c.accepted ∧ len c.pipe.ring = c.accepted.length - c.returned.length ∧
      len c.pipe.ring ≤ capacity c.pipe.ring ∧ ∀ r ∈ c.written, Honest r := by
  have h : StreamInv c :=
    runs_inv (fun _ => streamInv_start) (fun _ _ _ h hcond hact => streamInv_act h hcond hact) c hc
  refine ⟨⟨_, h.flow.symm⟩, ?_, len_le _, h.written⟩
  rw [h.flow, length_append, length_contents]
  omega

end Stream

/-- A pipe for three bytes is filled, read and filled again across the end of
    its storage. -/
def wrappedRun : List Act :=
  [.write [1, 2, 3] false, .push none none,
    .read [0, 0] false, .pop true true,
    .writev [([4], true), ([5, 6], true)] false, .push none none, .stall false,
    .readv [[0], [0, 0, 0]] false, .popv [true, true],
    .push none none]

theorem stream_lossless_wrappedRun :
    ∃ c : Channel QueueRing, (c.returned = [1, 2, 3, 4, 5] ∧ c.accepted = [1, 2, 3, 4, 5, 6]) ∧
      c.returned <+: c.accepted ∧ len c.pipe.ring = c.accepted.length - c.returned.length ∧
      len c.pipe.ring ≤ capacity c.pipe.ring ∧ ∀ r ∈ c.written, Honest r := by
  have := lawful_queueRing
  have hrun : ∃ c : Channel QueueRing, Runs Started act CopiesSucceed c ∧
      c.returned = [1, 2, 3, 4, 5] ∧ c.accepted = [1, 2, 3, 4, 5, 6] :=
    exists_runs_replay (s := start 3) wrappedRun ⟨3, by decide, rfl⟩ (by decide +kernel)
  rcases hrun with ⟨c, hc, hlogs⟩
  exact ⟨c, hlogs, stream_lossless hc⟩

/-- A byte is written from memory that cannot be read. -/
def unreadableRun : List Act :=
  [.write [7] false, .push (some [0]) none, .read [9] false, .pop true true]

/-- When a copy fails, the call still returns one, the byte that entered the
    pipe is not the one the call was given, and the reader gets it. -/
theorem stream_corrupted :
    ∃ c : Channel QueueRing, Runs Started Channel.act (fun _ _ => True) c ∧
      ¬ c.returned <+: c.accepted ∧ ∃ r ∈ c.written, 0 < r.ret ∧ ¬ Honest r := by
  have hrun : ∃ c : Channel QueueRing, Runs Started act (fun _ _ => True) c ∧
      c.returned = [0] ∧ c.accepted = [7] ∧
      c.written.map (fun r => (r.wanted, r.ret, r.entered)) = [([7], 1, [0])] :=
    exists_runs_replay (s := start 4) unreadableRun ⟨4, by decide, rfl⟩ (by decide +kernel)
  rcases hrun with ⟨c, hc, hreturned, haccepted, hwritten⟩
  refine ⟨c, hc, by rw [hreturned, haccepted]; decide, ?_⟩
  rcases map_eq_singleton_iff.mp hwritten with ⟨r, hr, heq⟩
  simp only [Prod.mk.injEq] at heq
  rcases heq with ⟨hwanted, hret, hentered⟩
  refine ⟨r, by rw [hr]; exact mem_singleton_self r, by omega, fun h => ?_⟩
  have := h.counted (by omega)
  rw [hwanted, hret, hentered] at this
  exact absurd this (by decide)

end LindGrates.Ipc
