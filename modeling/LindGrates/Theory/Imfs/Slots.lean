import LindGrates.Theory.Imfs.Refs

/-!
# Slots and Counters

`fork` copies a cage's descriptors and counts none of them. The first of two
cages to close an unlinked file then frees it under the other. Directories are
never freed, so a fork is harmless for the slots if every descriptor of the
parent is on a directory. It leaves the counters of all nodes but the root
exact if every descriptor of the parent is on the root. `exec` drops the descriptors
marked close-on-exec and counts none of them either.

`linkat` can make a link to a link. Removing the name of the link it leads to
frees that link's slot at once, whatever leads there.

## Main definitions

* `SlotSafe`, `ExactSafe`: The conditions on a call.

## Theorems

* `free_slots_unreferenced`, `slots_freed_in_use`: A slot is only given out again when
  nothing refers to it, and runs of another kind.
* `counters_exact`, `counters_not_exact`: The same for the counters of descriptors.
-/

namespace LindGrates.Imfs

open FdTables ImfsState

section Slots

variable {T : Type} [FdTables T]

/-- A forked cage has descriptors on directories only. -/
def ForkOnDirs (w : World T) (call : Call) : Prop :=
  ∀ parent ∈ call.forks, ∀ fd, fd < fdLimit T → ∀ i ∈ w.under (parent, fd),
    (w.fs.node i).nodeType = .dir

/-- The condition on a step: a fork copies descriptors on directories only,
    and a `linkat` does not link to a hard link. -/
def SlotSafe (w : World T) (call : Call) : Prop :=
  LinkSourceOk w call ∧ ForkOnDirs w call

/-- The condition on a step: a fork copies descriptors on the root only, an
    `exec` closes descriptors on the root only, and a `linkat` does not link to
    a hard link. -/
def ExactSafe (w : World T) (call : Call) : Prop :=
  LinkSourceOk w call ∧
    (∀ parent ∈ call.forks, ∀ fd, fd < fdLimit T → ∀ i ∈ w.under (parent, fd),
      i = w.fs.rootIdx) ∧
    ∀ cage ∈ call.execs, ∀ fd, fd < fdLimit T → w.closing cage fd = true →
      ∀ i ∈ w.under (cage, fd), i = w.fs.rootIdx

instance (w : World T) (call : Call) : Decidable (LinkSourceOk w call) :=
  inferInstanceAs (Decidable (∀ i ∈ call.linkSource w, _))

instance (w : World T) (call : Call) : Decidable (ForkOnDirs w call) :=
  inferInstanceAs (Decidable (∀ parent ∈ call.forks, ∀ fd, fd < fdLimit T → _))

instance (w : World T) (call : Call) : Decidable (SlotSafe w call) :=
  inferInstanceAs (Decidable (_ ∧ _))

instance (w : World T) (call : Call) : Decidable (ExactSafe w call) :=
  inferInstanceAs (Decidable (_ ∧ (∀ parent ∈ call.forks, ∀ fd, fd < fdLimit T → _) ∧
    ∀ cage ∈ call.execs, ∀ fd, fd < fdLimit T → _))

/-- Nothing leads to a slot: no entry, no hard link in a directory, no
    descriptor. -/
structure Unreferenced (w : World T) (i : Nat) : Prop where
  entry : ∀ d children e, (w.fs.node d).info = .dir children → e ∈ children → e.nodeIdx ≠ i
  link : ∀ d children e, (w.fs.node d).info = .dir children → e ∈ children →
    (w.fs.node e.nodeIdx).info ≠ .hardLink i
  fd : ∀ cage fd e, translateVirtualFd w.fds cage fd = some e → e.underfd ≠ i

variable {w : World T}

theorem unreferenced_of_free {rel : Nat → Nat → Prop} {p : Nat → Prop} (h : RefsOk rel p w)
    {i : Nat} (hfree : (w.fs.node i).info = .free) : Unreferenced w i := by
  refine ⟨fun d ch e hd he hc => ?_, fun d ch e hd he hc => ?_, fun cage fd e he hc => ?_⟩
  · exact h.tree.live d e ⟨ch, hd, he⟩ (hc ▸ hfree)
  · exact (h.tree.links d e i ⟨ch, hd, he⟩ hc).live hfree
  · exact h.fds.live (cage, fd) i (by rw [under_of_translate he, hc]) hfree

variable [LawfulFdTables T]

theorem lt_limit_of_under {cage fd i : Nat} (h : w.under (cage, fd) = some i) : fd < fdLimit T := by
  rcases Option.map_eq_some_iff.mp h with ⟨e, he, _⟩
  exact LawfulFdTables.lt_limit w.fds cage fd e he

theorem countSafe_of_slotSafe {call : Call} (h : SlotSafe w call) :
    CountSafe (· ≤ ·) (fun _ => False) w call := by
  refine ⟨h.1, fun parent hparent fd i hi hc => ?_, fun cage _ => .inl fun n n' m hle hm => ?_⟩
  · exact hc.elim id fun hc => hc (h.2 parent hparent fd (lt_limit_of_under hi) i hi)
  · exact Nat.le_trans hle hm

theorem refsOk_of_slotSafe (hw : Reachable SlotSafe w) : RefsOk (· ≤ ·) (fun _ => False) w :=
  reachable_inv_inRange (fun _ => refsOk_initial countRule_le)
    (fun _ _ _ _ h hin hcond hvalid hstep =>
      refsOk_step countRule_le (fun _ => False.elim) h hin (countSafe_of_slotSafe hcond) hvalid
        hstep) w hw

/-- As long as every step is safe for the slots, a free slot is listed once and
    nothing leads to it, nothing leads to the slot the next creation takes, and
    no slot has two entries. -/
theorem free_slots_unreferenced {w : World T} (hw : Reachable SlotSafe w) :
    w.fs.nodeFreeList.Nodup ∧ (∀ i ∈ w.fs.nodeFreeList, Unreferenced w i) ∧
      Unreferenced w w.fs.nextSlot ∧
      ∀ d₁ d₂ ch₁ ch₂ e₁ e₂, (w.fs.node d₁).info = .dir ch₁ → e₁ ∈ ch₁ →
        (w.fs.node d₂).info = .dir ch₂ → e₂ ∈ ch₂ → e₁.nodeIdx = e₂.nodeIdx →
          d₁ = d₂ ∧ e₁ = e₂ := by
  have h := refsOk_of_slotSafe hw
  refine ⟨h.tree.free_nodup, fun i hi => unreferenced_of_free h (h.tree.free_info i hi),
    unreferenced_of_free h (nextSlot_free h.tree),
    fun d₁ d₂ ch₁ ch₂ e₁ e₂ hd₁ he₁ hd₂ he₂ heq => ?_⟩
  rcases h.tree.named d₁ e₁ ⟨ch₁, hd₁, he₁⟩ with ⟨hname₁, hparent₁⟩
  rcases h.tree.named d₂ e₂ ⟨ch₂, hd₂, he₂⟩ with ⟨hname₂, hparent₂⟩
  rw [heq] at hname₁ hparent₁
  have hname : e₁.name = e₂.name := hname₁.symm.trans hname₂
  refine ⟨hparent₁.symm.trans hparent₂, ?_⟩
  cases e₁
  cases e₂
  simp only at hname heq
  rw [hname, heq]

/-- A cage is forked before it opens anything, and a file with three names
    loses two of them. -/
def relinkedRun : List Call :=
  [.preexec 1,
    .fork 1 2 false,
    .openPath 2 ['/', 'a'] (oCreat ||| oRdwr) 0o644#32,
    .link 1 ['/', 'a'] ['/', 'b'],
    .linkat 1 (-100) ['/', 'b'] (-100) ['/', 'c'] World.atSymlinkFollow,
    .unlink 1 ['/', 'a'],
    .unlink 2 ['/', 'b']]

theorem free_slots_unreferenced_relinkedRun :
    let w := relinkedRun.foldl serve (boot 8)
    w.fs.nodeFreeList = [4] ∧ w.under (2, 3) = some 3 ∧ Unreferenced w 4 := by
  have hw : Reachable SlotSafe (relinkedRun.foldl serve (boot 8)) :=
    reachable_foldl_serve relinkedRun (.start _ (initial_boot 8)) (by decide +kernel)
  have hfree : (relinkedRun.foldl serve (boot 8)).fs.nodeFreeList = [4] := by decide +kernel
  refine ⟨hfree, by decide +kernel, (free_slots_unreferenced hw).2.1 4 ?_⟩
  rw [hfree]
  exact List.mem_singleton_self 4

/-- A file is open in two cages when it loses its name, and one cage closes
    it. -/
def forkedRun : List Call :=
  [.preexec 1,
    .openPath 1 ['/', 'a'] (oCreat ||| oRdwr) 0o644#32,
    .fork 1 2 false,
    .unlink 1 ['/', 'a'],
    .close 1 3]

/-- A link to a link outlives what it leads to. -/
def chainedRun : List Call :=
  [.preexec 1,
    .openPath 1 ['/', 'a'] (oCreat ||| oRdwr) 0o644#32,
    .link 1 ['/', 'a'] ['/', 'b'],
    .linkat 1 (-100) ['/', 'b'] (-100) ['/', 'c'] 0,
    .unlink 1 ['/', 'b']]

/-- The other cage's descriptor is then on a free slot, and when it is closed
    too the slot is listed twice. The link to the link is in the root directory
    and leads to a free slot. -/
theorem slots_freed_in_use :
    (∃ w : World (MapTables 8), Reachable Unrestricted w ∧
      3 ∈ w.fs.nodeFreeList ∧ w.under (2, 3) = some 3) ∧
    (∃ w : World (MapTables 8), Reachable Unrestricted w ∧ w.fs.nodeFreeList = [3, 3]) ∧
    ∃ w : World (MapTables 8), Reachable Unrestricted w ∧ 4 ∈ w.fs.nodeFreeList ∧
      w.fs.lookupChild w.fs.rootIdx ['c'] = some 5 ∧ (w.fs.node 5).info = .hardLink 4 := by
  refine ⟨⟨forkedRun.foldl serve (boot 8), ?_, by decide +kernel, by decide +kernel⟩,
    ⟨(forkedRun ++ [Call.close 2 3]).foldl serve (boot 8), ?_, by decide +kernel⟩,
    chainedRun.foldl serve (boot 8), ?_, by decide +kernel, by decide +kernel, by decide +kernel⟩
  · exact reachable_foldl_serve _ (.start _ (initial_boot 8)) (by decide +kernel)
  · exact reachable_foldl_serve _ (.start _ (initial_boot 8)) (by decide +kernel)
  · exact reachable_foldl_serve _ (.start _ (initial_boot 8)) (by decide +kernel)

end Slots

variable {T : Type} [FdTables T]

def World.openOn (w : World T) (i : Nat) : Set (Nat × Nat) :=
  {k | ∃ e, translateVirtualFd w.fds k.1 k.2 = some e ∧ e.underfd = i}

theorem ncard_openOn (w : World T) (i : Nat) : (w.openOn i).ncard = tally w.under i := by
  refine congrArg Set.ncard (Set.ext fun k => ?_)
  rw [World.openOn, Set.mem_ofPred_eq, Set.mem_ofPred_eq, World.under, Option.map_eq_some_iff]

variable [LawfulFdTables T]

theorem countSafe_of_exactSafe {w : World T} {call : Call} (htree : TreeOk w.fs)
    (h : ExactSafe w call) : CountSafe (· = ·) (fun i => i ≠ w.fs.rootIdx) w call := by
  have hroot : ¬ Counted (fun i => i ≠ w.fs.rootIdx) w.fs w.fs.rootIdx := fun hc =>
    hc.elim (fun hc => hc rfl) fun hc => hc htree.root_dir
  refine ⟨h.1, fun parent hparent fd i hi => ?_, fun cage hcage => .inr fun fd i hcl hi => ?_⟩
  · rw [h.2.1 parent hparent fd (lt_limit_of_under hi) i hi]
    exact hroot
  · rw [h.2.2 cage hcage fd (lt_limit_of_under hi) hcl i hi]
    exact hroot

theorem refsOk_of_exactSafe {w : World T} (hw : Reachable ExactSafe w) :
    RefsOk (· = ·) (fun i => i ≠ 0) w := by
  refine reachable_inv_inRange (fun _ => refsOk_initial countRule_eq)
    (fun w call ret w' h hin hcond hvalid hstep => ?_) w hw
  have hsafe := countSafe_of_exactSafe h.tree hcond
  rw [h.tree.root_zero] at hsafe
  exact refsOk_step countRule_eq (fun _ hi => hi) h hin hsafe hvalid hstep

/-- As long as every step is safe for the counters, the counter of every node
    other than the root is the number of descriptors open on it. -/
theorem counters_exact {w : World T} (hw : Reachable ExactSafe w) (i : Nat)
    (hi : i ≠ w.fs.rootIdx) : (w.fs.node i).inUse = (w.openOn i).ncard := by
  have h := refsOk_of_exactSafe hw
  rw [h.tree.root_zero] at hi
  rw [ncard_openOn, h.fds.count i (.inl hi)]

/-- A file is opened, its descriptor copied three times and one of the copies
    dropped, in a cage that was forked from one that replaces itself. -/
def copiedRun : List Call :=
  [.preexec 1,
    .fork 1 2 false,
    .exec 1 0,
    .openPath 2 ['/', 'a'] (oCreat ||| oRdwr) 0o644#32,
    .dup 2 3,
    .dup2 2 3 5,
    .fcntl 2 5 0 0,
    .close 2 4]

theorem counters_exact_copiedRun :
    let w := copiedRun.foldl serve (boot 8)
    (w.fs.node 3).inUse = 3 ∧ (w.openOn 3).ncard = 3 := by
  have hw : Reachable ExactSafe (copiedRun.foldl serve (boot 8)) :=
    reachable_foldl_serve copiedRun (.start _ (initial_boot 8)) (by decide +kernel)
  have hinUse : ((copiedRun.foldl serve (boot 8)).fs.node 3).inUse = 3 := by decide +kernel
  exact ⟨hinUse, (counters_exact hw 3 (by decide +kernel)).symm.trans hinUse⟩

/-- A file is open, to be closed on `exec`. -/
def closingRun : List Call :=
  [.preexec 1, .openPath 1 ['/', 'a'] (oCreat ||| oRdwr) 0o644#32, .fcntl 1 3 2 1]

/-- After a fork the counter of the file is one and two descriptors are open on
    it. After an `exec` it is one and none is. -/
theorem counters_not_exact :
    (∃ w : World (MapTables 8), Reachable Unrestricted w ∧ (w.fs.node 3).inUse = 1 ∧
      1 < (w.openOn 3).ncard) ∧
    ∃ w : World (MapTables 8), Reachable Unrestricted w ∧ (w.fs.node 3).inUse = 1 ∧
      (w.openOn 3).ncard = 0 := by
  refine ⟨⟨(closingRun ++ [Call.fork 1 2 false]).foldl serve (boot 8), ?_, by decide +kernel, ?_⟩,
    (closingRun ++ [Call.exec 1 0]).foldl serve (boot 8), ?_, by decide +kernel, ?_⟩
  · exact reachable_foldl_serve _ (.start _ (initial_boot 8)) (by decide +kernel)
  · rw [ncard_openOn, tally, Set.one_lt_ncard_iff (finite_label (finitelyMany_under _) 3)]
    refine ⟨(1, 3), (2, 3), ?_, ?_, by decide⟩
    · rw [Set.mem_ofPred_eq]
      decide +kernel
    · rw [Set.mem_ofPred_eq]
      decide +kernel
  · exact reachable_foldl_serve _ (.start _ (initial_boot 8)) (by decide +kernel)
  · rw [ncard_openOn, tally_eq_zero (finitelyMany_under _), List.foldl_append]
    -- Before the `exec` the one descriptor on the file is the one it closes.
    have hw : Reachable ExactSafe (closingRun.foldl serve (boot 8)) :=
      reachable_foldl_serve closingRun (.start _ (initial_boot 8)) (by decide +kernel)
    have hone : tally (closingRun.foldl serve (boot 8)).under 3 = 1 :=
      ((refsOk_of_exactSafe hw).fds.count 3 (.inl (by decide))).trans (by decide +kernel)
    rcases Set.ncard_eq_one.mp hone with ⟨k₀, hk₀⟩
    have honly : ∀ k, (closingRun.foldl serve (boot 8)).under k = some 3 → k = k₀ := by
      intro k hk
      exact Set.mem_singleton_iff.mp (hk₀ ▸ hk)
    have hat : k₀ = (1, 3) := (honly (1, 3) (by decide +kernel)).symm
    have hexec : (closingRun.foldl serve (boot 8)).execHook 1 0 =
        .ok (0, serve (closingRun.foldl serve (boot 8)) (.exec 1 0)) := rfl
    intro k hk
    rcases ((exec_on hexec).2 k 3 (by decide)).mp hk with ⟨hk, hkeep⟩
    rw [honly k hk, hat] at hkeep
    exact hkeep ⟨rfl, by decide +kernel⟩

end LindGrates.Imfs
