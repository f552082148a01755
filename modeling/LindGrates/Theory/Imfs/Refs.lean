import LindGrates.Base.Tally
import LindGrates.Theory.Imfs.Reshape
import LindGrates.Theory.Imfs.Tables

/-!
# References to Nodes

What keeps a node's slot from being freed too early. The descriptors on a node and
its counter go up and down together, so both are followed through the calls
at once (`CountRule`).

## Main definitions

* `RefsOk`: A descriptor refers to a live node that is not a hard link, and the node's
  counter is related to the number of descriptors on it.
* `CountSafe`: Calls that change descriptors without telling the counter are harmless.

## Theorems

* `refsOk_step`: Every such call keeps the invariant.
-/

namespace LindGrates.Imfs

open FdTables ImfsState Function LawfulFdTables World Option

variable {parent i : Nat} {name : Str} {k : Nat × Nat} {s' : ImfsState} {flags : BitVec 32}

def Counted (p : Nat → Prop) (s : ImfsState) (i : Nat) : Prop :=
  p i ∨ (s.node i).nodeType ≠ .dir

/-- The descriptors given by `U` refer to live nodes that are not hard links,
    and the counters of the counted nodes are right about their number. -/
structure FdsOk (rel : Nat → Nat → Prop) (p : Nat → Prop) (U : Nat × Nat → Option Nat)
    (s : ImfsState) : Prop where
  live : ∀ k i, U k = some i → (s.node i).info ≠ .free
  notLink : ∀ k i, U k = some i → ∀ t, (s.node i).info ≠ .hardLink t
  count : ∀ i, Counted p s i → rel (tally U i) (s.node i).inUse

section Fds

variable {rel : Nat → Nat → Prop} {p : Nat → Prop} {U : Nat × Nat → Option Nat} {s s' : ImfsState}

theorem fdsOk_congr (h : FdsOk rel p U s) (hkind : ∀ i, SameKind s s' i)
    (hinUse : ∀ i, (s'.node i).inUse = (s.node i).inUse) : FdsOk rel p U s' := by
  refine ⟨fun k i hk hc => h.live k i hk ((hkind i).isFree.mp hc),
    fun k i hk t hc => h.notLink k i hk t (((hkind i).isLink t).mp hc), fun i hi => ?_⟩
  rw [hinUse]
  exact h.count i (hi.imp id fun hi hc => hi ((hkind i).isDir.mpr hc))

theorem fdsOk_same (h : FdsOk rel p U s) (hs : SameTree s s')
    (hinUse : ∀ i, (s'.node i).inUse = (s.node i).inUse) : FdsOk rel p U s' :=
  fdsOk_congr h hs.sameKind hinUse

theorem fdsOk_trimmed {d : Nat} {x : Str} (h : FdsOk rel p U s) (ht : Trimmed s s' d x) :
    FdsOk rel p U s' :=
  fdsOk_congr h ht.sameKind ht.inUse_eq

variable {i : Nat}

theorem fdsOk_reentered (h : FdsOk rel p U s)
    (hr : Reentered s s' parent i name) : FdsOk rel p U s' :=
  fdsOk_congr h hr.sameKind hr.inUse_eq

section

variable (hrule : CountRule rel) (hfin : FinitelyMany U) (h : FdsOk rel p U s)

include hrule hfin h

theorem fdsOk_entered {info : NodeInfo} (hfree : (s.node s.nextSlot).info = .free)
    (he : Entered s s' parent name info) : FdsOk rel p U s' := by
  have hne : ∀ k i, U k = some i → i ≠ s.nextSlot := fun k i hk hc =>
    h.live k i hk (hc ▸ hfree)
  refine ⟨fun k i hk hc => h.live k i hk ((he.sameKind (hne k i hk)).isFree.mp hc),
    fun k i hk t hc => h.notLink k i hk t (((he.sameKind (hne k i hk)).isLink t).mp hc),
    fun i hi => ?_⟩
  rw [he.inUse_eq]
  by_cases hnew : i = s.nextSlot
  · rw [if_pos hnew, (tally_eq_zero hfin).mpr fun k hk => hne k i hk hnew]
    exact hrule.zero
  · rw [if_neg hnew]
    exact h.count i (hi.imp id fun hi hc => hi ((he.sameKind hnew).isDir.mpr hc))

theorem fdsOk_pruned (hp : Pruned s s') : FdsOk rel p U s' := by
  induction hp with
  | refl => exact h
  | @doom s1 _ i hdir hloose hunheld ih =>
    have hnode := node_doom s1 i
    refine fdsOk_congr ih (fun j => sameKind_of_eq ?_) fun j => ?_
    all_goals
      rcases hnode j with ⟨b, hb, _⟩
      rw [hb]
  | @free s1 s2 _ i hdir hlive hloose hunheld hidle hfreed ih =>
    have hnone : ∀ k, U k ≠ some i := by
      rcases hidle with hidle | ⟨t, ht⟩
      · have hcount := hrule.le _ _ (ih.count i (.inr hdir))
        rw [hidle] at hcount
        exact (tally_eq_zero hfin).mp (Nat.le_zero.mp hcount)
      · exact fun k hk => ih.notLink k i hk t ht
    have hkeep : ∀ j, j ≠ i → s2.node j = s1.node j := fun j hj => by
      rw [hfreed.node_eq j, if_neg hj]
    have hne : ∀ k j, U k = some j → j ≠ i := fun k j hk hc => hnone k (hc ▸ hk)
    refine ⟨fun k j hk => ?_, fun k j hk => ?_, fun j hj => ?_⟩
    · rw [hkeep j (hne k j hk)]
      exact ih.live k j hk
    · rw [hkeep j (hne k j hk)]
      exact ih.notLink k j hk
    · by_cases hji : j = i
      · rw [hfreed.node_eq j, if_pos hji, hji]
        exact ih.count i (.inr hdir)
      unfold Counted at hj
      rw [hkeep j hji] at hj ⊢
      exact ih.count j hj

theorem fdsOk_removed (hr : Removed s s' i) : FdsOk rel p U s' := by
  rcases hr with ⟨s1, ht, hp⟩
  exact fdsOk_pruned hrule hfin (fdsOk_trimmed h ht) hp

theorem fdsOk_attach (hk : U k = none) (hlive : (s.node i).info ≠ .free)
    (hlink : ∀ t, (s.node i).info ≠ .hardLink t) :
    FdsOk rel p (update U k (some i)) (s.incInUse i) := by
  have hlt := lt_of_info_ne_free hlive
  have hs := sameTree_incInUse s i
  have hnode := fun j => s.node_modifyNode (fun n => { n with inUse := n.inUse + 1 }) j hlt
  have hon : ∀ k' j, update U k (some i) k' = some j → j = i ∨ U k' = some j := by
    intro k' j hj
    rw [update_apply] at hj
    split at hj
    · exact .inl (some.inj hj).symm
    · exact .inr hj
  refine ⟨fun k' j hj hc => ?_, fun k' j hj t hc => ?_, fun j hj => ?_⟩
  · have hc := (hs.isFree_iff j).mp hc
    rcases hon k' j hj with hji | hj
    · exact hlive (hji ▸ hc)
    · exact h.live k' j hj hc
  · have hc := (hs.hardLink_iff j t).mp hc
    rcases hon k' j hj with hji | hj
    · exact hlink t (hji ▸ hc)
    · exact h.notLink k' j hj t hc
  · have hj : Counted p s j := hj.imp id fun hj hc => hj ((hs.isDir_iff j).mpr hc)
    rw [incInUse, hnode j]
    by_cases hji : j = i
    · rw [if_pos hji, hji, tally_update_some hfin hk]
      exact hrule.up _ _ (h.count i (hji ▸ hj))
    · rw [if_neg hji, tally_update_some_of_ne hk hji]
      exact h.count j hj

theorem fdsOk_detach (hk : U k = some i) :
    FdsOk rel p (update U k none) (s.decInUse i) := by
  have hlt := lt_of_info_ne_free (h.live k i hk)
  have hs := sameTree_decInUse s i
  have hnode := fun j => s.node_modifyNode (fun n => { n with inUse := n.inUse - 1 }) j hlt
  have hon : ∀ k' j, update U k none k' = some j → U k' = some j := by
    intro k' j hj
    rw [update_apply] at hj
    split at hj
    · cases hj
    · exact hj
  refine ⟨fun k' j hj hc => h.live k' j (hon k' j hj) ((hs.isFree_iff j).mp hc),
    fun k' j hj t hc => h.notLink k' j (hon k' j hj) t ((hs.hardLink_iff j t).mp hc),
    fun j hj => ?_⟩
  have hj : Counted p s j := hj.imp id fun hj hc => hj ((hs.isDir_iff j).mpr hc)
  rw [decInUse, hnode j]
  by_cases hji : j = i
  · have hcount := h.count i (hji ▸ hj)
    rw [tally_update_none hfin hk] at hcount
    rw [if_pos hji, hji]
    exact hrule.down _ _ hcount
  rw [if_neg hji, tally_update_none_of_ne
    (fun hc => hji (some.inj (hk.symm.trans hc)).symm)]
  exact h.count j hj

end

theorem fdsOk_bulk {U' : Nat × Nat → Option Nat} (h : FdsOk rel p U s)
    (hon : ∀ k i, U' k = some i → (∃ k', U k' = some i) ∨ (s.node i).nodeType = .dir)
    (hcount : ∀ i, Counted p s i → ∀ n, rel (tally U i) n → rel (tally U' i) n) :
    FdsOk rel p U' s := by
  refine ⟨fun k i hk hc => ?_, fun k i hk t hc => ?_, fun i hi => hcount i hi _ (h.count i hi)⟩
  · rcases hon k i hk with ⟨k', hk'⟩ | hdir
    · exact h.live k' i hk' hc
    · rw [Node.nodeType, hc] at hdir
      cases hdir
  · rcases hon k i hk with ⟨k', hk'⟩ | hdir
    · exact h.notLink k' i hk' t hc
    · rw [Node.nodeType, hc] at hdir
      cases hdir

end Fds

variable {T : Type} [FdTables T]

def Call.forks : Call → Option Nat
  | .fork parent _ false => some parent
  | _ => none

/-- A fork and an `exec` change descriptors without telling the counters. The
    nodes this concerns are not counted, or the relation allows it. -/
structure CountSafe (rel : Nat → Nat → Prop) (p : Nat → Prop) (w : World T) (call : Call) :
    Prop where
  link : LinkSourceOk w call
  fork : ∀ parent ∈ call.forks, ∀ fd i, w.under (parent, fd) = some i → ¬ Counted p w.fs i
  exec : ∀ cage ∈ call.execs, (∀ n n' m, n' ≤ n → rel n m → rel n' m) ∨
    ∀ fd i, w.closing cage fd = true → w.under (cage, fd) = some i → ¬ Counted p w.fs i

structure RefsOk (rel : Nat → Nat → Prop) (p : Nat → Prop) (w : World T) : Prop where
  tree : TreeOk w.fs
  fds : FdsOk rel p w.under w.fs

variable {rel : Nat → Nat → Prop} {p : Nat → Prop} {w w' : World T} {call : Call}

theorem fdsOk_reshape {U : Nat × Nat → Option Nat} (hrule : CountRule rel)
    (hfin : FinitelyMany U) (htree : TreeOk w.fs) (h : FdsOk rel p U w.fs)
    (hr : Reshape w call s') : FdsOk rel p U s' := by
  cases hr with
  | entered _ _ _ _ _ _ _ _ he => exact fdsOk_entered hrule hfin h (nextSlot_free htree) he
  | madeDir _ _ _ _ hfresh hmade =>
    rcases treeOk_madeDir htree (hfresh.clean htree).1 hmade with
      ⟨s1, s2, h1, hok1, h2, hok2, h3, _⟩
    have hf1 := fdsOk_entered hrule hfin h (nextSlot_free htree) h1
    have hf2 := fdsOk_entered hrule hfin hf1 (nextSlot_free hok1) h2
    exact fdsOk_entered hrule hfin hf2 (nextSlot_free hok2) h3
  | unlinked _ _ _ _ _ _ _ _ hrem | removedDir _ _ _ _ _ _ _ _ hrem =>
    exact fdsOk_removed hrule hfin h hrem
  | moved _ _ _ _ _ s1 hnew hmove =>
    have h1 : FdsOk rel p U s1 := by
      rcases hnew with ⟨_, hs1⟩ | ⟨_, _, _, _, hrem⟩
      · rw [hs1]
        exact h
      · exact fdsOk_removed hrule hfin h hrem
    rcases hmove with ⟨s2, ht, hre⟩
    exact fdsOk_reentered (fdsOk_trimmed h1 ht) hre

variable [LawfulFdTables T]

theorem finitelyMany_under (w : World T) : FinitelyMany w.under := by
  refine (finite w.fds).subset fun k hk => ?_
  exact fun hc => hk (under_eq_none.mpr hc)

variable {cage : Nat} {ret : Int}

theorem fdsOk_close {fd : Nat} (hrule : CountRule rel) (h : RefsOk rel p w) (hin : InRange w)
    (hclose : w.close cage fd = .ok (ret, w')) : FdsOk rel p w'.under w'.fs := by
  rw [(close_desc hin hclose).1]
  rcases close_ok hclose with ⟨s', hdrop, hfs, _⟩
  rw [hfs]
  refine fdsOk_same (s := s') ?_ (sameTree_congr rfl rfl rfl) fun _ => rfl
  unfold dropDescriptor at hdrop
  rcases htr : translateVirtualFd w.fds cage fd with _ | _
  · rw [htr] at hdrop
    cases hdrop
    rw [update_eq_self_iff.mpr (under_eq_none.mpr htr).symm]
    exact h.fds
  rw [htr] at hdrop
  have hon := under_of_translate htr
  have hpruned := pruned_dropReference h.tree (h.fds.live _ _ hon) hdrop
  exact fdsOk_pruned hrule (finitelyMany_update (finitelyMany_under w) none)
    (fdsOk_detach hrule (finitelyMany_under w) h.fds hon) hpruned

theorem fdsOk_dup {a : Nat} (hrule : CountRule rel)
    (h : FdsOk rel p w.under w.fs) (hk : w.under k = none) {k0 : Nat × Nat}
    (hold : w.under k0 = some i) :
    FdsOk rel p (update w.under k (some i))
      (((w.fs.countPipeEnd i flags).incInUse i).insertFdInfo k.1 k.2 a) := by
  have h1 := fdsOk_same h (sameTree_countPipeEnd w.fs i flags)
    (inUse_keepsTree w.fs i (keepsTree_countPipeEnd flags))
  exact fdsOk_same (fdsOk_attach hrule (finitelyMany_under w) h1 hk (h1.live k0 i hold)
    (h1.notLink k0 i hold)) (sameTree_congr rfl rfl rfl) fun _ => rfl

theorem under_reserveFd {s : ImfsState} {t : T} (hi : i ≠ 0) :
    under ⟨s, reserveFd t cage⟩ k = some i ↔ under ⟨s, t⟩ k = some i := by
  unfold reserveFd
  rcases hfd : getUnusedVirtualFd t cage (imfsEntry 0 false) with _ | q
  · exact Iff.rfl
  rcases q with ⟨fd, t'⟩
  rcases getUnused_some t t' cage _ fd hfd with ⟨_, _, hnone, _, htr, _⟩
  rw [under_update (w := ⟨s, t⟩) (some (imfsEntry 0 false)) htr, update_apply]
  split
  next hk =>
    rw [hk, under_eq_none.mpr hnone]
    exact ⟨fun hc => absurd (some.inj hc).symm hi, nofun⟩
  · exact Iff.rfl

theorem exec_on (hexec : w.execHook cage ret = .ok (ret, w')) :
    w'.fs = w.fs ∧ ∀ k i, i ≠ 0 → (w'.under k = some i ↔
      w.under k = some i ∧ ¬ (k.1 = cage ∧ w.closing cage k.2 = true)) := by
  cases hexec
  refine ⟨rfl, fun k i hi => ?_⟩
  rw [under_reserveFd hi, under_reserveFd hi, under_reserveFd hi]
  have hinit : ∀ c x, translateVirtualFd (if checkCageExists w.fds cage then w.fds
      else initEmptyCage w.fds cage) c x = translateVirtualFd w.fds c x := by
    intro c x
    by_cases hex : checkCageExists w.fds cage = true
    · rw [if_pos hex]
    · rw [if_neg hex, translate_init w.fds cage (by simpa using hex)]
  simp only [under, translate_empty, hinit, closing]
  by_cases hc : k.1 = cage
  · rw [if_pos hc, hc]
    cases translateVirtualFd w.fds cage k.2 with
    | none => simp only [Option.filter_none, Option.map_none, reduceCtorEq, false_and]
    | some e => cases he : e.shouldCloexec <;> simp [Option.filter, he]
  · rw [if_neg hc]
    simp only [hc, false_and, not_false_eq_true, and_true]

variable (hrule : CountRule rel)

include hrule

theorem fdsOk_open {vfd idx : Nat} {mode : BitVec 32} {path : Str}
    (h : RefsOk rel p w) (hin : InRange w) (hname : call.Names w path)
    (htarget : OpenTarget w.fs path flags mode idx s') (hfree : w.under (cage, vfd) = none) :
    FdsOk rel p (update w.under (cage, vfd) (some idx))
      ((s'.incInUse idx).insertPerfdinfo cage vfd flags) := by
  have hfin := finitelyMany_under w
  have hidx : FdsOk rel p w.under s' ∧ (s'.node idx).info ≠ .free ∧
      ∀ t, (s'.node idx).info ≠ .hardLink t := by
    rcases openTarget_shape h.tree hin.fit hname htarget with
      ⟨hs, hinUse, hres⟩ | ⟨hidx, name, parent, hf, hlen, he⟩
    · have hheld := held_of_follow h.tree (normalPath_names hname) hres
      exact ⟨fdsOk_same h.fds hs hinUse, fun hc => hheld.live ((hs.isFree_iff idx).mp hc),
        fun t hc => hheld.notLink t ((hs.hardLink_iff idx t).mp hc)⟩
    · rw [hidx, he.new_info]
      exact ⟨fdsOk_entered hrule hfin h.fds (nextSlot_free h.tree) he, nofun, fun _ => nofun⟩
  rcases hidx with ⟨hfds, hlive, hlink⟩
  exact fdsOk_same (fdsOk_attach hrule hfin hfds hfree hlive hlink) (sameTree_congr rfl rfl rfl)
    fun _ => rfl

theorem fdsOk_step (hp : ∀ i, p i → i ≠ 0) (h : RefsOk rel p w)
    (hin : InRange w) (hsafe : CountSafe rel p w call) (hvalid : call.Valid w)
    (hstep : step w call = .ok (ret, w')) : FdsOk rel p w'.under w'.fs := by
  have hfin := finitelyMany_under w
  have hroot : (w.fs.node 0).nodeType = .dir := by
    have := h.tree.root_dir
    rw [h.tree.root_zero] at this
    exact this
  have hzero : ∀ i, Counted p w.fs i → i ≠ 0 := fun i hi => hi.elim (hp i) fun hi hc =>
    hi (hc ▸ hroot)
  cases step_effect hstep with
  | idle => exact h.fds
  | cwd => exact fdsOk_same h.fds (sameTree_congr rfl rfl rfl) fun _ => rfl
  | touch i _ _ hf =>
    refine fdsOk_same h.fds (sameTree_keepsTree w.fs i hf) fun j => ?_
    exact inUse_keepsTree w.fs i hf j
  | cloexec _ _ _ _ _ hset =>
    rw [under_setCloexec hset]
    exact h.fds
  | seek _ _ _ _ _ _ _ hset =>
    exact fdsOk_same h.fds (sameTree_setOffset hset) (inUse_setOffset hset)
  | store _ _ _ _ _ _ hstore =>
    exact fdsOk_same h.fds (sameTree_stores hstore) (inUse_stores hstore)
  | storeSeek _ _ _ _ _ _ _ _ hstore _ hset =>
    have h1 := fdsOk_same h.fds (sameTree_stores hstore) (inUse_stores hstore)
    exact fdsOk_same h1 (sameTree_setOffset hset) (inUse_setOffset hset)
  | openFull _ _ _ _ _ _ _ hname htarget =>
    rcases openTarget_shape h.tree hin.fit hname htarget with
      ⟨hs, hinUse, _⟩ | ⟨_, name, parent, hf, hlen, he⟩
    · exact fdsOk_same h.fds hs hinUse
    · exact fdsOk_entered hrule hfin h.fds (nextSlot_free h.tree) he
  | openOk cage _ _ _ idx _ vfd fds _ hname htarget hfd =>
    rcases getUnused_some w.fds fds cage _ vfd hfd with ⟨_, _, hnone, _, ht, _⟩
    rw [under_update (some (imfsEntry idx false)) ht]
    exact fdsOk_open hrule h hin hname htarget (under_eq_none.mpr hnone)
  | creation _ _ hcreate =>
    exact fdsOk_reshape hrule hfin h.tree h.fds
      (reshape_creation h.tree hin.fit hsafe.link hcreate)
  | removal _ _ _ hremove =>
    exact fdsOk_reshape hrule hfin h.tree h.fds (reshape_removal h.tree hremove)
  | moved _ _ _ _ _ hrename =>
    exact fdsOk_reshape hrule hfin h.tree h.fds (reshape_renaming h.tree hin.fit hrename)
  | close _ _ _ _ _ hclose => exact fdsOk_close hrule h hin hclose
  | dupFull =>
    exact fdsOk_same h.fds (sameTree_countPipeEnd w.fs _ _)
      (inUse_keepsTree w.fs _ (keepsTree_countPipeEnd _))
  | dupOk _ _ _ _ _ _ _ hsource _ _ hfd =>
    rcases dupOk_desc hfd with ⟨hnone, hunder⟩
    rw [hunder]
    exact fdsOk_dup hrule h.fds hnone (under_of_translate (dupSource_eq_some hsource).1)
  | dup2Ok cage oldfd newfd entry _ w1 fds _ hne hsource _ cloexec hclose hfd =>
    have ht := (getSpecific_some w1.fds fds cage newfd _ hfd).2.2.1
    rw [under_update (some (imfsEntry entry.underfd cloexec)) ht]
    have hold := under_of_translate (dupSource_eq_some hsource).1
    -- Closing the target does not touch the descriptor that is copied.
    have h1 : FdsOk rel p w1.under w1.fs ∧ w1.under (cage, newfd) = none ∧
        w1.under (cage, oldfd) = some entry.underfd := by
      rcases hclose with ⟨hnone, hw⟩ | hclose
      · rw [hw]
        exact ⟨h.fds, under_eq_none.mpr hnone, hold⟩
      refine ⟨fdsOk_close hrule h hin hclose, ?_⟩
      rw [(close_desc hin hclose).1, update_self, update_of_ne]
      · exact ⟨rfl, hold⟩
      · exact fun hc => hne (Prod.mk.inj hc).2
    exact fdsOk_dup hrule h1.1 h1.2.1 h1.2.2
  | fork parent child _ hcall =>
    have hnew := notExists_of_valid hcall hvalid
    rw [under_copy hnew]
    refine fdsOk_same (fdsOk_bulk h.fds (fun k i hk => ?_) fun i hi n hn => ?_)
      (sameTree_congr rfl rfl rfl) fun _ => rfl
    · split at hk
      · exact .inl ⟨_, hk⟩
      · exact .inl ⟨_, hk⟩
    · rw [tally_congr (g := w.under) fun k => ?_]
      · exact hn
      · split
        next hk =>
          -- Neither the parent nor the new child is on a counted node.
          have hchild : w.under k = none := by
            have := under_of_not_exists hnew k.2
            rw [← hk] at this
            exact this
          rw [hchild]
          refine ⟨fun hc => absurd hi (hsafe.fork parent ?_ k.2 i hc), nofun⟩
          rw [hcall]
          rfl
        · exact Iff.rfl
  | exec cage _ _ hcall hexec =>
    rcases exec_on hexec with ⟨hfs, hon⟩
    rw [hfs]
    refine fdsOk_bulk h.fds (fun k i hk => ?_) fun i hi n hn => ?_
    · by_cases hi : i = 0
      · rw [hi]
        exact .inr hroot
      · exact .inl ⟨k, ((hon k i hi).mp hk).1⟩
    · rcases hsafe.exec cage (by rw [hcall]; rfl) with hmono | hclosing
      · exact hmono _ _ _ (tally_le_of_imp hfin fun k hk => ((hon k i (hzero i hi)).mp hk).1) hn
      rw [tally_congr (g := w.under) fun k => ?_]
      · exact hn
      · rw [hon k i (hzero i hi)]
        refine ⟨And.left, fun hk => ⟨hk, fun hc => ?_⟩⟩
        exact hclosing k.2 i hc.2 (by rw [← hc.1]; exact hk) hi
  | preexec _ _ _ hpre =>
    rcases preexec_desc hpre with ⟨hnew, hunder, _, _⟩
    have hnone := under_of_not_exists hnew
    rw [hunder]
    have hfs : SameTree w.fs w'.fs ∧ ∀ j, (w'.fs.node j).inUse = (w.fs.node j).inUse := by
      unfold preexec at hpre
      split at hpre
      · cases hpre
      · cases hpre
        exact ⟨sameTree_congr rfl rfl rfl, fun _ => rfl⟩
    refine fdsOk_same (fdsOk_bulk h.fds (fun k i hk => ?_) fun i hi n hn => ?_) hfs.1 hfs.2
    · simp only [update_apply] at hk
      split at hk
      · exact .inr (some.inj hk ▸ hroot)
      split at hk
      · exact .inr (some.inj hk ▸ hroot)
      split at hk
      · exact .inr (some.inj hk ▸ hroot)
      · exact .inl ⟨k, hk⟩
    · have h0 := hzero i hi
      rw [tally_update_some_of_ne _ h0, tally_update_some_of_ne _ h0,
        tally_update_some_of_ne (hnone 0) h0]
      · exact hn
      · rw [update_of_ne (by simp)]
        exact hnone 1
      · rw [update_of_ne (by simp), update_of_ne (by simp)]
        exact hnone 2
  | initUtilityCage _ hnew =>
    rw [under_initEmptyCage hnew]
    exact h.fds

theorem refsOk_step (hp : ∀ i, p i → i ≠ 0) (h : RefsOk rel p w)
    (hin : InRange w) (hsafe : CountSafe rel p w call) (hvalid : call.Valid w)
    (hstep : step w call = .ok (ret, w')) : RefsOk rel p w' :=
  ⟨treeOk_treeEffect h.tree (step_treeEffect h.tree hin h.fds.live hsafe.link hstep),
    fdsOk_step hrule hp h hin hsafe hvalid hstep⟩

theorem refsOk_initial (h : Initial w) : RefsOk rel p w := by
  have hnone : ∀ k, w.under k = none := fun k => under_of_not_exists (h.no_cage k.1) k.2
  refine ⟨by rw [fs_of_initial h]; exact treeOk_initState, fun k i hk => ?_, fun k i hk => ?_,
    fun i _ => ?_⟩
  · rw [hnone k] at hk
    cases hk
  · rw [hnone k] at hk
    cases hk
  · have hzero : tally w.under i = 0 := by
      refine (tally_eq_zero (finitelyMany_under w)).mpr fun k hk => ?_
      rw [hnone k] at hk
      cases hk
    have hinUse : (initState.node i).inUse = 0 := by
      rcases i with _ | _ | _ | i
      · rfl
      · rfl
      · rfl
      · rfl
    rw [hzero, fs_of_initial h, hinUse]
    exact hrule.zero

end LindGrates.Imfs
