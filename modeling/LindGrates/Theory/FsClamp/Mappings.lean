import LindGrates.Theory.FsClamp.Spaces

/-!
# Mapped Ranges behind the Clamp

An `munmap` names memory and no descriptor, so the grate records the ranges that
clamped mappings were given. As a set of addresses the record is exact. But an
address of 2 GiB or more is taken for an error, a kernel mapping that replaces a
clamped one leaves it in the record, and a route for `munmap` is always taken.

## Main definitions

* `Exact`: The recorded ranges are those of a set of addresses.
* `Plain`: The calls the record keeps up with.

## Theorems

* `isClampedMmap_foldl`: The record after any calls, as a set of addresses.
* `munmap_sent`: An `munmap` goes to the right side in runs of such calls.
* `munmap_misrouted`: Calls for which it does not.
-/

namespace LindGrates.FsClamp

open FdTables Posix Dialogue Set Function

variable {T : Type} {s : State T} {cage addr len stop b : Nat} {clamped : Set Nat}

/-- The ranges are not empty, and their addresses are those of a set. -/
structure Exact (ranges : Option (List ClampedMmapRange)) (clamped : Set Nat) : Prop where
  nonempty : ∀ r ∈ ranges.getD [], r.start < r.stop
  iff : ∀ b, b ∈ clamped ↔ ∃ r ∈ ranges.getD [], b ∈ Ico r.start r.stop

/-! ## The record as a set -/

theorem mem_without {r q : ClampedMmapRange} :
    q ∈ r.without addr stop ↔ (stop ≤ r.start ∨ r.stop ≤ addr) ∧ q = r ∨
      ¬ (stop ≤ r.start ∨ r.stop ≤ addr) ∧
        (r.start < addr ∧ q = ⟨r.start, addr⟩ ∨ stop < r.stop ∧ q = ⟨stop, r.stop⟩) := by
  unfold ClampedMmapRange.without
  split
  next h => simp [h]
  next h => simp [h]

theorem exists_without_iff {r : ClampedMmapRange} :
    (∃ q ∈ r.without addr stop, b ∈ Ico q.start q.stop) ↔
      b ∈ Ico r.start r.stop ∧ b ∉ Ico addr stop := by
  by_cases hapart : stop ≤ r.start ∨ r.stop ≤ addr
  · simp [mem_without, hapart]
    omega
  · simp [mem_without, hapart, or_and_right, exists_or, and_assoc]
    omega

section

variable (h : Exact (s.clampedMmaps cage) clamped) (hend : addr + len < 2 ^ 64)

include h hend

theorem exact_record :
    Exact ((s.recordClampedMmap cage addr len).clampedMmaps cage)
      (clamped ∪ Ico addr (addr + len)) := by
  unfold State.recordClampedMmap
  split
  next hlen => rwa [hlen, Nat.add_zero, Ico_self, union_empty]
  next hlen =>
    simp only [checkedAdd, if_pos hend, update_self]
    refine ⟨fun r hr => ?_, fun b => ?_⟩
    · rcases List.mem_append.mp hr with hr | hr
      · exact h.nonempty r hr
      rw [List.mem_singleton.mp hr]
      exact Nat.lt_add_of_pos_right (Nat.pos_of_ne_zero hlen)
    · simp only [Option.getD_some, List.mem_append, List.mem_singleton, or_and_right,
        exists_or, exists_eq_left, mem_union, h.iff]

theorem exact_remove :
    Exact ((s.removeClampedMmap cage addr len).clampedMmaps cage)
      (clamped \ Ico addr (addr + len)) := by
  unfold State.removeClampedMmap
  split
  next hlen => rwa [hlen, Nat.add_zero, Ico_self, sdiff_empty]
  simp only [checkedAdd, if_pos hend]
  rcases hranges : s.clampedMmaps cage with _ | ranges
  · rw [hranges] at h
    refine ⟨by simp [hranges], fun b => ?_⟩
    simp [hranges, h.iff b]
  rw [hranges] at h
  -- an empty list of ranges is dropped
  have hnew : ∀ l : List ClampedMmapRange, (if l = [] then none else some l).getD [] = l := by
    intro l
    split
    next hl => exact hl.symm
    · rfl
  simp only [update_self]
  refine ⟨fun q hq => ?_, fun b => ?_⟩
  · rw [hnew, List.mem_flatMap] at hq
    rcases hq with ⟨r, hr, hq⟩
    rcases mem_without.mp hq with ⟨_, rfl⟩ | ⟨_, ⟨hlt, rfl⟩ | ⟨hlt, rfl⟩⟩
    · exact h.nonempty q hr
    · exact hlt
    · exact hlt
  · simp only [hnew, List.mem_flatMap, mem_sdiff, h.iff b, Option.getD_some]
    constructor
    · rintro ⟨⟨r, hr, hb⟩, hout⟩
      rcases exists_without_iff.mpr ⟨hb, hout⟩ with ⟨q, hq, hb⟩
      exact ⟨q, ⟨r, hr, hq⟩, hb⟩
    · rintro ⟨q, ⟨r, hr, hq⟩, hb⟩
      have hin := exists_without_iff.mp ⟨q, hq, hb⟩
      exact ⟨⟨r, hr, hin.1⟩, hin.2⟩

theorem isClampedMmap_iff :
    s.isClampedMmap cage addr len = true ↔ (clamped ∩ Ico addr (addr + len)).Nonempty := by
  unfold State.isClampedMmap
  split
  next hlen => simp [hlen]
  simp only [checkedAdd, if_pos hend, List.any_eq_true, decide_eq_true_eq]
  constructor
  · rintro ⟨r, hr, hover⟩
    -- the two ranges meet where the later one starts
    have hlt := h.nonempty r hr
    exact ⟨max addr r.start, (h.iff _).mpr ⟨r, hr, by simp; omega⟩, by simp; omega⟩
  · rintro ⟨b, hin, hb⟩
    rcases (h.iff b).mp hin with ⟨r, hr, hin⟩
    exact ⟨r, hr, by simp at hin hb; omega⟩

end

/-! ## Sequences of updates -/

inductive RangeCall
  | record (cage addr len : Nat)
  | remove (cage addr len : Nat)

def RangeCall.run (s : State T) : RangeCall → State T
  | record cage addr len => s.recordClampedMmap cage addr len
  | remove cage addr len => s.removeClampedMmap cage addr len

/-- The addresses of a cage after a call. The calls for other cages and those whose range
    overflows leave them as they are. -/
def RangeCall.cover (cage : Nat) (clamped : Set Nat) : RangeCall → Set Nat
  | record c addr len =>
    if c = cage ∧ addr + len < 2 ^ 64 then clamped ∪ Ico addr (addr + len) else clamped
  | remove c addr len =>
    if c = cage ∧ addr + len < 2 ^ 64 then clamped \ Ico addr (addr + len) else clamped

/-- A call for another cage, or one whose range overflows, leaves the ranges of a cage. -/
theorem clampedMmaps_of_not {c : Nat} (hno : ¬ (c = cage ∧ addr + len < 2 ^ 64)) :
    (s.recordClampedMmap c addr len).clampedMmaps cage = s.clampedMmaps cage ∧
      (s.removeClampedMmap c addr len).clampedMmaps cage = s.clampedMmaps cage := by
  unfold State.recordClampedMmap State.removeClampedMmap checkedAdd
  by_cases hlen : len = 0
  · simp only [if_pos hlen, and_self]
  by_cases hend : addr + len < 2 ^ 64
  · have hne : cage ≠ c := fun heq => hno ⟨heq.symm, hend⟩
    simp only [if_neg hlen, if_pos hend, update_of_ne hne, true_and]
    rcases s.clampedMmaps c with _ | ranges
    · rfl
    · exact update_of_ne hne ..
  · simp only [if_neg hlen, if_neg hend, and_self]

theorem exact_run (h : Exact (s.clampedMmaps cage) clamped) (call : RangeCall) :
    Exact ((call.run s).clampedMmaps cage) (call.cover cage clamped) := by
  rcases call with ⟨c, addr, len⟩ | ⟨c, addr, len⟩
  all_goals simp only [RangeCall.run, RangeCall.cover]
  all_goals by_cases hin : c = cage ∧ addr + len < 2 ^ 64
  · rw [if_pos hin, hin.1]
    exact exact_record h hin.2
  · rwa [if_neg hin, (clampedMmaps_of_not hin).1]
  · rw [if_pos hin, hin.1]
    exact exact_remove h hin.2
  · rwa [if_neg hin, (clampedMmaps_of_not hin).2]

theorem exact_foldl (calls : List RangeCall) (h : Exact (s.clampedMmaps cage) clamped) :
    Exact ((calls.foldl RangeCall.run s).clampedMmaps cage)
      (calls.foldl (RangeCall.cover cage) clamped) := by
  induction calls generalizing s clamped with
  | nil => exact h
  | cons call rest ih => exact ih (exact_run h call)

theorem exact_none : Exact none ∅ :=
  ⟨nofun, fun _ => iff_of_false id nofun⟩

/-- After any sequence of calls the stored ranges are not empty, and a range is found if one of
    its addresses is among those that the calls for its own cage have left. -/
theorem isClampedMmap_foldl (hs : s.clampedMmaps = fun _ => none) (calls : List RangeCall)
    (cage : Nat) :
    let after := calls.foldl RangeCall.run s
    (∀ r ∈ (after.clampedMmaps cage).getD [], r.start < r.stop) ∧
      ∀ addr len, 0 < len → addr + len < 2 ^ 64 →
        (after.isClampedMmap cage addr len = true ↔
          (calls.foldl (RangeCall.cover cage) ∅ ∩ Ico addr (addr + len)).Nonempty) := by
  have hexact := exact_foldl calls ((congrFun hs cage).symm ▸ exact_none)
  exact ⟨hexact.nonempty, fun addr len _ hend => isClampedMmap_iff hexact hend⟩

/-- Two cages record the same pages, and one of them takes out the second page. -/
theorem isClampedMmap_foldl_pages :
    let calls : List RangeCall := [.record 2 4096 8192, .record 3 4096 8192, .remove 2 8192 4096]
    (calls.foldl RangeCall.run (loneWorld.state)).isClampedMmap 3 8192 4096 = true ∧
      (calls.foldl RangeCall.run (loneWorld.state)).isClampedMmap 2 8192 4096 = false := by
  have h := isClampedMmap_foldl (s := loneWorld.state) rfl
  refine ⟨((h _ 3).2 8192 4096 (by decide) (by decide)).mpr ⟨8192, ?_⟩, ?_⟩
  · simp [RangeCall.cover]
  · rw [Bool.eq_false_iff, ne_eq, (h _ 2).2 8192 4096 (by decide) (by decide)]
    simp [RangeCall.cover, Set.Nonempty]

/-! ## Runs -/

/-- The grate, and the addresses of a cage that clamped mappings have. -/
structure Mapped (T : Type) where
  state : State T
  clamped : Set Nat

/-- The addresses of the pages that a range touches from its start. -/
def pages (addr len : Nat) : Set Nat :=
  Ico addr (addr + (len + 4095) / 4096 * 4096)

/-- A result of `mmap` that is an error and no address. -/
def MmapFails (ret : Int) : Prop :=
  -4096 < ret ∧ ret < 0

namespace Mapped

variable [FdTables T]

def Clamps (cage : Nat) (x : Mapped T) (a : SideCall) : Prop :=
  a.args 3 &&& mapAnon = 0 ∧
    ∃ e, translateVirtualFd x.state.fds cage (a.args 4).toNat = some e ∧ e.perfdinfo ≠ 0

open Classical in
/-- The addresses that clamped mappings have after a call with a result. -/
noncomputable def after (cage : Nat) (x : Mapped T) (a : SideCall) (ret : Int) : Set Nat :=
  if a.sys = .munmap then
    if ret = 0 then x.clamped \ pages (a.args 0).toNat (a.args 1).toNat else x.clamped
  else if MmapFails ret then x.clamped
  else if Clamps cage x a then x.clamped ∪ pages (ret % 2 ^ 32).toNat (a.args 1).toNat
  else x.clamped \ pages (ret % 2 ^ 32).toNat (a.args 1).toNat

noncomputable def step (cage : Nat) (x : Mapped T) (a : SideCall) : Option (Mapped T) :=
  if a.sys = .mmap ∨ a.sys = .munmap then
    (nsHandler x.state a.mem (a.request cage)).bind fun d =>
      (d.run Script.serve ⟨a.replies, []⟩).map fun r => ⟨r.2.1, x.after cage a r.2.2⟩
  else none

def Start (cage : Nat) (x : Mapped T) : Prop :=
  x.state.clampedMmaps cage = none ∧ x.clamped = ∅

/-- What the record keeps up with: whole pages in the address space, a clamped mapping in its
    lower half, and one of the kernel that replaces no clamped one. -/
structure Plain (cage : Nat) (x : Mapped T) (a : SideCall) : Prop where
  whole : 4096 ∣ (a.args 1).toNat
  ends : a.sys = .munmap → (a.args 0).toNat + (a.args 1).toNat < 2 ^ 64
  low : a.sys = .mmap → Clamps cage x a → ∀ ret ∈ a.replies.head?,
    MmapFails ret ∨ 0 ≤ ret ∧ ret < 2 ^ 31 ∧ ret.toNat + (a.args 1).toNat < 2 ^ 64
  apart : a.sys = .mmap → ¬ Clamps cage x a → ∀ ret ∈ a.replies.head?,
    MmapFails ret ∨ x.clamped ∩ pages (ret % 2 ^ 32).toNat (a.args 1).toNat = ∅

end Mapped

variable [FdTables T] {x : Mapped T} {a : SideCall}

/-- A handler keeps the record exact. -/
def KeepsRecord (cage : Nat) (x : Mapped T) (a : SideCall) (d : Asking (State T × Int)) : Prop :=
  Ensures Script.serve d ⟨a.replies, []⟩ fun _ r =>
    Exact (r.1.clampedMmaps cage) (x.after cage a r.2)

theorem pages_eq (h : 4096 ∣ len) : pages addr len = Ico addr (addr + len) := by
  unfold pages
  rw [show (len + 4095) / 4096 * 4096 = len by omega]

section

variable (h : Exact (x.state.clampedMmaps cage) x.clamped) (hplain : x.Plain cage a)

include h hplain

theorem keepsRecord_munmap (hsys : a.sys = .munmap) :
    KeepsRecord cage x a (nsMunmapHandler x.state (a.request cage)) := by
  have hends := hplain.ends hsys
  unfold KeepsRecord nsMunmapHandler
  simp only [Mapped.after, if_pos hsys, pages_eq hplain.whole]
  split
  · refine ensures_request fun _ ret _ => ensures_done ?_
    split
    · exact exact_remove h hends
    · exact h
  split
  · refine ensures_request fun _ ret _ => ensures_done ?_
    split
    · exact exact_remove h hends
    · exact h
  next hout =>
    refine ensures_request fun _ ret _ => ensures_done ?_
    -- the kernel unmaps nothing that is clamped
    rw [isClampedMmap_iff h hends, not_nonempty_iff_eq_empty, ← disjoint_iff_inter_eq_empty] at hout
    rwa [hout.sdiff_eq_left, ite_self]

theorem keepsRecord_mmap (hsys : a.sys = .mmap) :
    KeepsRecord cage x a (nsMmapHandler x.state (a.request cage)) := by
  have hsys' : a.sys ≠ .munmap := by rw [hsys]; exact Sys.noConfusion
  unfold nsMmapHandler
  -- the calls that are passed to the kernel, anonymous or not
  have hkernel : ¬ x.Clamps cage a → ∀ f : Forward, KeepsRecord cage x a
      (request (.syscall f) >>= fun ret => .done (x.state, ret)) := by
    intro hno f
    refine ensures_request fun _ ret hserve => ensures_done ?_
    rw [Mapped.after, if_neg hsys', if_neg hno]
    rcases hplain.apart hsys hno ret (head_of_serve hserve) with hfails | hapart
    · rwa [if_pos hfails]
    · rwa [(disjoint_iff_inter_eq_empty.mpr hapart).sdiff_eq_left, ite_self]
  by_cases hanon : a.args 3 &&& mapAnon ≠ 0
  · rw [if_pos hanon]
    exact hkernel (fun hc => hanon hc.1) _
  rw [if_neg hanon]
  rcases hentry : translateVirtualFd x.state.fds cage (a.args 4).toNat with _ | e
  · have hfails : MmapFails (-ebadf) := ⟨by decide, by decide⟩
    have hsame : x.after cage a (-ebadf) = x.clamped := by
      rw [Mapped.after, if_neg hsys', if_pos hfails]
    exact ensures_done (hsame ▸ h)
  simp only []
  split
  next hne =>
    have hclamps : x.Clamps cage a := ⟨not_not.mp hanon, e, hentry, hne⟩
    rcases x.state.callClamped_eq cage .mmap
      (update a.args 4 (BitVec.ofNat 64 e.underfd)) fun _ => cage with ⟨f, hf, _⟩
    rw [hf]
    refine ensures_request fun _ ret hserve => ensures_done ?_
    rw [Mapped.after, if_neg hsys', if_pos hclamps]
    rcases hplain.low hsys hclamps ret (head_of_serve hserve) with hfails | ⟨hpos, hlow, hend⟩
    · rwa [if_neg (Int.not_le.mpr hfails.2), if_pos hfails]
    -- below 2 GiB the address is the result itself
    · have haddr : (ret % 2 ^ 32).toNat = ret.toNat := by omega
      rw [if_pos hpos, toNat_wordOf ⟨hpos, hlow⟩, if_neg fun hc => Int.not_lt.mpr hpos hc.2,
        haddr, pages_eq hplain.whole]
      exact exact_record h hend
  next hz =>
    refine hkernel (fun hc => ?_) _
    rcases hc.2 with ⟨e', he', hne⟩
    rw [hentry] at he'
    cases he'
    exact hz hne

end

/-- In every run that the record keeps up with, an `munmap` is sent to the clamped side exactly
    if it concerns a clamped mapping, unless there is a route and it does not. -/
theorem munmap_sent (h : Runs (Mapped.Start cage) (Mapped.step cage) (Mapped.Plain cage) x)
    (args : Fin 6 → Word) (hend : (args 0).toNat + (args 1).toNat < 2 ^ 64) :
    let overlaps := (x.clamped ∩ Ico (args 0).toNat ((args 0).toNat + (args 1).toNat)).Nonempty
    ∃ f k, nsMunmapHandler x.state ⟨.munmap, args, fun _ => cage⟩ = .ask (.syscall f) k ∧
      ((f.side = .clamped ↔ overlaps) ↔ x.state.getRoute cage .munmap = none ∨ overlaps) := by
  -- the record is exact along the run
  have hexact : Exact (x.state.clampedMmaps cage) x.clamped := by
    refine runs_inv (I := fun x => Exact (x.state.clampedMmaps cage) x.clamped)
      (fun x hx => ?_) (fun x a x' hx hplain hstep => ?_) x h
    · rw [hx.1, hx.2]
      exact exact_none
    unfold Mapped.step at hstep
    split at hstep
    next hsys =>
      rcases Option.bind_eq_some_iff.mp hstep with ⟨d, hd, hmap⟩
      rcases Option.map_eq_some_iff.mp hmap with ⟨r, hrun, rfl⟩
      rcases hsys with hsys | hsys
      all_goals simp only [nsHandler, hsys, Option.some.injEq] at hd
      all_goals subst hd
      · exact keepsRecord_mmap hx hplain hsys r.1 r.2 hrun
      · exact keepsRecord_munmap hx hplain hsys r.1 r.2 hrun
    · cases hstep
  have hiff := isClampedMmap_iff hexact hend
  unfold nsMunmapHandler
  simp only []
  rcases hroute : x.state.getRoute cage .munmap with _ | alt
  · by_cases hin : x.state.isClampedMmap cage (args 0).toNat (args 1).toNat = true
    · rw [if_pos hin]
      exact ⟨_, _, rfl, by simp [Forward.side, hiff.mp hin]⟩
    · rw [if_neg hin]
      exact ⟨_, _, rfl, by simp [Forward.side, mt hiff.mpr hin]⟩
  · exact ⟨_, _, rfl, by simp [Forward.side]⟩

/-- The first cage of a clamp, with a file of the clamped side as its descriptor 0. -/
def mappedStart : Mapped (MapTables 16) :=
  ⟨{ loneWorld.state with
      fds := (getSpecificVirtualFd loneWorld.state.fds 2 0 ⟨0, 5, false, 1⟩).getD
        loneWorld.state.fds }, ∅⟩

theorem clamps_mappedStart (ret : Int) : mappedStart.Clamps 2 (sideCall .mmap "" 0 4096 [ret]) :=
  ⟨(by decide : 0 &&& mapAnon = 0), ⟨0, 5, false, 1⟩, rfl, Nat.one_ne_zero⟩

theorem mem_after_mappedStart (ret : Int) (h : ¬ MmapFails ret) :
    (ret % 2 ^ 32).toNat ∈ mappedStart.after 2 (sideCall .mmap "" 0 4096 [ret]) ret := by
  rw [Mapped.after, if_neg Sys.noConfusion, if_neg h, if_pos (clamps_mappedStart ret)]
  exact .inr (by simp [pages, sideCall])

/-- A page of the file is mapped at 8192 and unmapped. -/
theorem munmap_sent_page : ∃ x : Mapped (MapTables 16),
    Runs (Mapped.Start 2) (Mapped.step 2) (Mapped.Plain 2) x ∧
      ∃ f k, nsMunmapHandler x.state ((sideCall .munmap "" 8192 4096 []).request 2) =
        .ask (.syscall f) k ∧ f.side = .clamped := by
  have hstart : Runs (Mapped.Start 2) (Mapped.step 2) (Mapped.Plain 2) mappedStart :=
    .start _ ⟨rfl, rfl⟩
  have hrun := Runs.next _ (sideCall .mmap "" 0 4096 [8192]) _ hstart ⟨by decide, nofun,
    fun _ _ ret hret => .inr (by cases hret; decide),
    fun _ hno => absurd (clamps_mappedStart 8192) hno⟩ rfl
  rcases munmap_sent hrun (sideCall .munmap "" 8192 4096 []).args (by decide)
    with ⟨f, k, hask, hiff⟩
  have hin : (mappedStart.after 2 _ 8192 ∩ Ico 8192 (8192 + 4096)).Nonempty :=
    ⟨8192, mem_after_mappedStart 8192 fun h => absurd h.2 (by decide), by decide⟩
  exact ⟨_, hrun, f, k, hask, (hiff.mpr (.inr hin)).mpr hin⟩

/-- With a route, an `munmap` of memory that nobody has mapped is sent to the clamped side.
    Without one, the page that the clamped side has mapped at 2 GiB is unmapped by the kernel. -/
theorem munmap_misrouted :
    (∃ x : Mapped (MapTables 16), x.Start 2 ∧
      ∃ f k, nsMunmapHandler x.state ((sideCall .munmap "" 8192 4096 []).request 2) =
        .ask (.syscall f) k ∧ f.side = .clamped) ∧
    ∃ x, mappedStart.step 2 (sideCall .mmap "" 0 4096 [-0x80000000]) = some x ∧
      0x80000000 ∈ x.clamped ∧
      ∃ f k, nsMunmapHandler x.state ((sideCall .munmap "" 0x80000000 4096 []).request 2) =
        .ask (.syscall f) k ∧ f.side = .kernel :=
  ⟨⟨⟨{ mappedStart.state with routes := fun _ _ => some 3000 }, ∅⟩, ⟨rfl, rfl⟩, _, _, rfl, rfl⟩,
    _, rfl, mem_after_mappedStart (-0x80000000) fun h => absurd h.1 (by decide), _, _, rfl, rfl⟩

end LindGrates.FsClamp
