import LindGrates.Theory.Imfs.Descriptors
import LindGrates.Theory.Imfs.Tree

/-!
# What a Call Does to the Tree

A new hard link has to lead to something that is not a hard link. Following a
path to its end never stops at one, but `linkat` can be told not to.

## Main definitions

* `LinkSourceOk`: The condition on a call.
* `Reshape`: One entry more, a new directory, one entry less, or an entry moved.
* `TreeEffect`: A call leaves the tree alone, prunes a node that a descriptor was still
  holding, or reshapes the tree.

## Theorems

* `step_treeEffect`: Every call has one of these effects.
* `treeOk_treeEffect`: They keep the tree invariant.
-/

namespace LindGrates.Imfs

open FdTables ImfsState World

variable {d t parent : Nat} {e : DirEntry} {name path : Str} {s₁ : ImfsState} {info : NodeInfo}
  {mode : BitVec 32} {ret off : Int}

section Facts

variable {s : ImfsState} {i : Nat} {path : Str}

theorem notDoomed_of_dir (h : TreeOk s) (hdir : (s.node i).nodeType = .dir) :
    (s.node i).doomed = false := by
  rw [Bool.eq_false_iff]
  intro hc
  refine (h.doomed i hc fun hfree => ?_).1 hdir
  rw [Node.nodeType, hfree] at hdir
  cases hdir

theorem notDoomed_of_entry (h : TreeOk s) (he : Entry s d e) :
    (s.node e.nodeIdx).doomed = false := by
  rw [Bool.eq_false_iff]
  intro hc
  exact (h.doomed _ hc (h.live d e he)).2.1 d e he rfl

theorem notDoomed_of_link (h : TreeOk s) (he : Entry s d e)
    (ht : (s.node e.nodeIdx).info = .hardLink t) : (s.node t).doomed = false := by
  rw [Bool.eq_false_iff]
  intro hc
  exact (h.doomed t hc (h.links d e t he ht).live).2.2 d e he ht

/-- A node a followed path can end at. -/
structure Held (s : ImfsState) (i : Nat) : Prop where
  live : (s.node i).info ≠ .free
  notLink : ∀ u, (s.node i).info ≠ .hardLink u
  notDoomed : (s.node i).doomed = false

theorem held_of_dir (h : TreeOk s) (hdir : (s.node i).nodeType = .dir) : Held s i := by
  rcases nodeType_eq_dir.mp hdir with ⟨ch, hch⟩
  exact ⟨by simp [hch], by rw [hch]; exact fun _ => nofun, notDoomed_of_dir h hdir⟩

theorem held_of_follow (h : TreeOk s) (hnormal : NormalPath path)
    (hres : s.resolvePath path true = .ok (.ok i)) : Held s i := by
  refine resolve_follow_inv (held_of_dir h h.root_dir) (fun d x e t _ _ hlook ht => ?_)
    (fun d x e _ _ hlook hlink => ?_) hnormal hres
  · have he := entry_of_lookup hlook
    have htarget := h.links d ⟨x, e⟩ t he ht
    exact ⟨htarget.live, htarget.notLink, notDoomed_of_link h he ht⟩
  · have he := entry_of_lookup hlook
    refine ⟨h.live d ⟨x, e⟩ he, fun u hc => ?_, notDoomed_of_entry h he⟩
    have := hardlinkTarget_eq_some.mpr hc
    rw [hlink.hard] at this
    cases this

theorem lookup_of_nofollow (h : TreeOk s) (hnormal : NormalPath path)
    (hparent : s.resolveParentAndName path = .ok (.ok (parent, name)))
    (hres : s.resolvePath path false = .ok (.ok i)) : s.lookupChild parent name = some i := by
  have hrun := (resolve_nofollow hnormal h.root_dir hparent).2.2.1
  rw [hres] at hrun
  exact (lookupIn_eq_ok.mp (Except.ok.inj hrun).symm).2

theorem lookup_of_absent (h : TreeOk s) {e : Int}
    (hnormal : NormalPath path) (hparent : s.resolveParentAndName path = .ok (.ok (parent, name)))
    (hres : s.resolvePath path false = .ok (.error e)) : s.lookupChild parent name = none := by
  rcases resolve_nofollow hnormal h.root_dir hparent with ⟨_, hdir, hrun, _⟩
  rw [hres] at hrun
  rcases hlook : s.lookupChild parent name with _ | _
  · rfl
  rw [lookupIn_eq_ok.mpr ⟨hdir, hlook⟩] at hrun
  cases hrun

theorem root_or_entry_of_nofollow (hnormal : NormalPath path)
    (hres : s.resolvePath path false = .ok (.ok i)) :
    i = s.rootIdx ∨ ∃ d x, CleanName x ∧ s.lookupChild d x = some i := by
  have hclean := hnormal.clean
  rcases List.eq_nil_or_concat (components path) with hnil | ⟨init, x, hcomps⟩
  · rw [resolvePath_root hnil] at hres
    cases hres
    exact .inl rfl
  rw [List.concat_eq_append] at hcomps
  rw [hcomps] at hclean
  have hx : CleanName x := hclean x (List.mem_append_right _ (List.mem_singleton_self x))
  have hinit : ∀ c ∈ init, CleanName c := fun c hc => hclean c (List.mem_append_left _ hc)
  have hq := components_renderPath hinit
  have hrun := resolvePathInner_concat (s := s) hx 41 path (renderPath init)
    (by rw [hq]; exact hinit) (by rw [hq]; exact hcomps)
  rw [resolvePath, hrun] at hres
  right
  rcases hr : s.resolvePathInner true 41 (renderPath init) with _ | r
  · rw [hr] at hres
    cases hres
  rw [hr] at hres
  cases r with
  | error => cases hres
  | ok d => exact ⟨d, x, hx, (lookupIn_eq_ok.mp (Except.ok.inj hres)).2⟩

end Facts

section Prune

variable {s s₁ s' : ImfsState} {i : Nat}

theorem pruned_dropIfUnlinked (hlive : (s.node i).info ≠ .free)
    (hdrop : s.dropIfUnlinked i = .ok s') : Pruned s s' ∧ ∀ j, j ≠ i → s'.node j = s.node j := by
  have hi := lt_of_info_ne_free hlive
  unfold dropIfUnlinked at hdrop
  split at hdrop
  next hcount =>
    rcases loose_of_linkCount hcount with ⟨hdir, hloose, hunheld⟩
    have hdoom := Pruned.doom .refl i hdir hloose hunheld
    have hnode := fun j => s.node_modifyNode (fun n => { n with doomed := true }) j hi
    simp only at hdrop
    split at hdrop
    next hidle =>
      have hinfo : ((s.modifyNode i fun n => { n with doomed := true }).node i).info =
          (s.node i).info := by
        rw [hnode i, if_pos rfl]
      have hfreed := freed_of_reclaimNode (by rw [length_modifyNode]; exact hi) hdrop
      refine ⟨.free hdoom i ?_ ?_ ((loose_congr hdoom.entry_iff).mpr hloose) (fun d e he hc => ?_)
        (.inl hidle) hfreed, fun j hj => ?_⟩
      · rw [Node.nodeType, hinfo]
        exact hdir
      · rw [hinfo]
        exact hlive
      · have he := (hdoom.entry_iff d e).mp he
        rw [(hdoom.info _).info_eq he (.inl rfl)] at hc
        exact hunheld d e he hc
      · rw [hfreed.node_eq j, if_neg hj, hnode j, if_neg hj]
    · cases hdrop
      exact ⟨hdoom, fun j hj => by rw [hnode j, if_neg hj]⟩
  · cases hdrop
    exact ⟨.refl, fun j _ => rfl⟩

theorem pruned_unlinkNode (h : TreeOk s) (hlive : (s.node i).info ≠ .free) (hloose : Loose s i)
    (hlink : ∀ t, (s.node i).info = .hardLink t →
      (s.node t).info ≠ .free ∧ ∀ u, (s.node t).info ≠ .hardLink u)
    (hunl : s.unlinkNode i = .ok s') : Pruned s s' := by
  unfold unlinkNode at hunl
  split at hunl
  next t hinfo =>
    simp only [updateCtime_eq] at hunl
    rcases (bind_eq_ok _ _ _).mp hunl with ⟨s₁, hdrop, hrec⟩
    rcases hlink t hinfo with ⟨htlive, htlink⟩
    rcases pruned_dropIfUnlinked htlive hdrop with ⟨hpruned, hkeep⟩
    have hne : i ≠ t := fun hc => htlink t (hc ▸ hinfo)
    have hinfo1 : (s₁.node i).info = .hardLink t := by rw [hkeep i hne, hinfo]
    have hlive1 : (s₁.node i).info ≠ .free := by simp [hinfo1]
    -- Nothing holds a hard link but its own entry.
    refine .free hpruned i ?_ hlive1 ((loose_congr hpruned.entry_iff).mpr hloose)
      (fun d e he hc => ?_) (.inr ⟨t, hinfo1⟩)
      (freed_of_reclaimNode (lt_of_info_ne_free hlive1) hrec)
    · simp [Node.nodeType, hinfo1, NodeInfo.nodeType]
    · exact ((treeOk_pruned h hpruned).links d e i he hc).notLink t hinfo1
  · exact (pruned_dropIfUnlinked hlive hunl).1

end Prune

/-- The entries of a node's name taken out of its directory, and the node
    removed if that was its last link. -/
def Removed (s s' : ImfsState) (i : Nat) : Prop :=
  ∃ s₁, Trimmed s s₁ (s.node i).parentIdx (s.node i).name ∧ Pruned s₁ s'

def Relocated (s s' : ImfsState) (i parent : Nat) (name : Str) : Prop :=
  ∃ s₁, Trimmed s s₁ (s.node i).parentIdx (s.node i).name ∧ Reentered s₁ s' parent i name

/-- A new directory with its two entries. -/
def MadeDir (s s' : ImfsState) (parent : Nat) (name : Str) : Prop :=
  ∃ s₁ s₂, Entered s s₁ parent name (.dir []) ∧
    Entered s₁ s₂ s.nextSlot ['.'] (.hardLink s.nextSlot) ∧
    Entered s₂ s' s.nextSlot ['.', '.'] (.hardLink parent)

section Moves

variable {s s' : ImfsState} {i : Nat}

theorem loose_of_trimmed (h : TreeOk s)
    (ht : Trimmed s s' (s.node i).parentIdx (s.node i).name) : Loose s' i := by
  intro d e he hc
  rcases (ht.entry_iff d e).mp he with ⟨he, hno⟩
  have hnamed := h.named d e he
  rw [hc] at hnamed
  exact hno ⟨hnamed.2.symm, hnamed.1.symm⟩

theorem treeOk_removed (h : TreeOk s) (hr : Removed s s' i) : TreeOk s' := by
  rcases hr with ⟨s₁, ht, hp⟩
  exact treeOk_pruned (treeOk_trimmed h ht) hp

variable {x name : Str}

theorem Removed.entry_iff (h : TreeOk s) (he : Entry s d ⟨x, i⟩) (hr : Removed s s' i)
    (d' : Nat) (e : DirEntry) : Entry s' d' e ↔ Entry s d' e ∧ ¬ (d' = d ∧ e.name = x) := by
  rcases hr with ⟨s₁, ht, hp⟩
  rcases h.named d ⟨x, i⟩ he with ⟨hname, hparent⟩
  rw [hp.entry_iff, ht.entry_iff, hname, hparent]

theorem removed_of_unlink (h : TreeOk s) (hlive : (s.node i).info ≠ .free)
    (hlink : ∀ t, (s.node i).info = .hardLink t → ∃ d e, Entry s d e ∧ e.nodeIdx = i)
    (hrem : s.removeChild i = .ok s₁) (hunl : s₁.unlinkNode i = .ok s') : Removed s s' i := by
  have ht := trimmed_of_removeChild hrem
  refine ⟨s₁, ht, pruned_unlinkNode (treeOk_trimmed h ht) ?_ (loose_of_trimmed h ht)
    (fun t hinfo => ?_) hunl⟩
  · exact fun hc => hlive ((ht.sameKind i).isFree.mp hc)
  · have hinfo := ((ht.sameKind i).isLink t).mp hinfo
    rcases hlink t hinfo with ⟨d, e, he, hi⟩
    have htarget := h.links d e t he (by rw [hi]; exact hinfo)
    have htarget := linkTarget_congr htarget (ht.sameKind t)
    exact ⟨htarget.live, htarget.notLink⟩

theorem entry_of_moved {p q : Nat} {y : Str} (h : TreeOk s)
    (hold : s.lookupChild q y = some i) (hnew : (s.lookupChild p x = none ∧ s₁ = s) ∨
      ∃ existing, s.lookupChild p x = some existing ∧ existing ≠ i ∧
        (s.node existing).nodeType ≠ .dir ∧ Removed s s₁ existing) :
    TreeOk s₁ ∧ Entry s₁ q ⟨y, i⟩ := by
  have he := entry_of_lookup hold
  rcases hnew with ⟨_, hs1⟩ | ⟨existing, hlook, hne, _, hrem⟩
  · rw [hs1]
    exact ⟨h, he⟩
  refine ⟨treeOk_removed h hrem, (hrem.entry_iff h (entry_of_lookup hlook) q _).mpr ⟨he, ?_⟩⟩
  rintro ⟨hq, hy⟩
  rw [hq, show y = x from hy, hlook] at hold
  exact hne (Option.some.inj hold)

theorem treeOk_relocated (h : TreeOk s) (he : Entry s d ⟨x, i⟩) (hx : CleanName x)
    (hname : CleanName name) (hr : Relocated s s' i parent name) : TreeOk s' := by
  rcases hr with ⟨s₁, ht, hre⟩
  have hdots : isDots name = true → False := fun hc => by
    rw [hname.notDots] at hc
    cases hc
  refine treeOk_reentered (treeOk_trimmed h ht) ⟨.inl hname, ?_, fun t hinfo => ?_,
    fun hc => (hdots hc).elim⟩ (loose_of_trimmed h ht) ?_ ?_ hre
  · exact fun hc => h.live d ⟨x, i⟩ he ((ht.sameKind i).isFree.mp hc)
  · have hinfo := ((ht.sameKind i).isLink t).mp hinfo
    have htarget := linkTarget_congr (h.links d ⟨x, i⟩ t he hinfo) (ht.sameKind t)
    refine ⟨⟨htarget.live, htarget.notLink, ?_⟩, ?_⟩
    · rw [htarget.dir_iff, hx.notDots, hname.notDots]
    · rw [ht.doomed_eq]
      exact notDoomed_of_link h he hinfo
  · rw [ht.root_eq]
    exact h.not_root d ⟨x, i⟩ he
  · rw [ht.doomed_eq]
    exact notDoomed_of_entry h he

theorem enterable_dir (hname : CleanName name) : Enterable s name (.dir []) := by
  refine ⟨.inl hname, nofun, nofun, fun hc => ?_⟩
  rw [hname.notDots] at hc
  cases hc

theorem enterable_dots (h : TreeOk s) (hdots : isDots name = true)
    (hdir : (s.node t).nodeType = .dir) : Enterable s name (.hardLink t) := by
  have hheld := held_of_dir h hdir
  refine ⟨.inr hdots, nofun, ?_, fun _ => ⟨t, rfl⟩⟩
  rintro _ ⟨⟩
  exact ⟨⟨hheld.live, hheld.notLink, by rw [hdots]; exact ⟨fun _ => rfl, fun _ => hdir⟩⟩,
    hheld.notDoomed⟩

theorem enterable_link (hname : CleanName name) (hheld : Held s t)
    (hdir : (s.node t).nodeType ≠ .dir) : Enterable s name (.hardLink t) := by
  refine ⟨.inl hname, nofun, ?_, fun hc => ?_⟩
  · rintro _ ⟨⟩
    refine ⟨⟨hheld.live, hheld.notLink, fun hc => absurd hc hdir, fun hc => ?_⟩, hheld.notDoomed⟩
    rw [hname.notDots] at hc
    cases hc
  · rw [hname.notDots] at hc
    cases hc

theorem enterable_other (hname : CleanName name) (hlive : info ≠ .free)
    (hlink : ∀ t, info ≠ .hardLink t) : Enterable s name info := by
  refine ⟨.inl hname, hlive, fun t ht => absurd ht (hlink t), fun hc => ?_⟩
  rw [hname.notDots] at hc
  cases hc

theorem treeOk_madeDir (h : TreeOk s) (hname : CleanName name) (hm : MadeDir s s' parent name) :
    ∃ s₁ s2, Entered s s₁ parent name (.dir []) ∧ TreeOk s₁ ∧
      Entered s₁ s2 s.nextSlot ['.'] (.hardLink s.nextSlot) ∧ TreeOk s2 ∧
      Entered s2 s' s.nextSlot ['.', '.'] (.hardLink parent) ∧ TreeOk s' := by
  rcases hm with ⟨s₁, s2, h1, h2, h3⟩
  have hok1 := treeOk_entered h (enterable_dir hname)
    (fun ch hch => (NodeInfo.dir.inj hch).symm) h1
  have hok2 := treeOk_entered hok1 (enterable_dots hok1 rfl h2.parent_dir) nofun h2
  refine ⟨s₁, s2, h1, hok1, h2, hok2, h3, treeOk_entered hok2 (enterable_dots hok2 rfl ?_) nofun h3⟩
  -- The parent was a directory all along.
  have hp1 := (h1.sameKind (ne_of_dir_of_free h1.parent_dir (nextSlot_free h))).isDir.mpr
    h1.parent_dir
  exact (h2.sameKind (ne_of_dir_of_free hp1 (nextSlot_free hok1))).isDir.mpr hp1

end Moves

variable {T : Type} [FdTables T]

def Call.linkSource (w : World T) : Call → Option Nat
  | .linkat cage olddirfd oldpath _ _ flags =>
    match w.normalizePathAt cage olddirfd oldpath with
    | .ok (.ok q) => match w.fs.resolvePath q (has flags atSymlinkFollow) with
      | .ok (.ok i) => some i
      | _ => none
    | _ => none
  | _ => none

/-- A `linkat` does not link to a hard link. -/
def LinkSourceOk (w : World T) (call : Call) : Prop :=
  ∀ i ∈ call.linkSource w, (w.fs.node i).hardlinkTarget = none

def Call.symlinks : Call → Bool
  | .symlink _ _ _ => true
  | .symlinkat _ _ _ _ => true
  | _ => false

/-- What a call other than `mkdir` can make. -/
inductive NewKind (call : Call) : NodeInfo → Prop
  | file : NewKind call (.reg none none)
  | pipe : NewKind call (.pip [] 0 0)
  | link (t : Nat) : NewKind call (.hardLink t)
  | symlink (target : Str) (hcall : call.symlinks = true) : NewKind call (.symlink target)

theorem NewKind.notDir {call : Call} (h : NewKind call info) : NotDir info := by
  cases h <;> exact nofun

inductive Reshape (w : World T) (call : Call) (s' : ImfsState) : Prop
  | entered (path name : Str) (parent : Nat) (info : NodeInfo)
      (hfresh : FreshName w call path parent name) (hlen : name.len < maxNodeName)
      (hkind : NewKind call info) (hin : Enterable w.fs name info)
      (he : Entered w.fs s' parent name info)
  | madeDir (path name : Str) (parent : Nat)
      (hcall : ∃ cage arg mode, call = .mkdir cage arg mode)
      (hfresh : FreshName w call path parent name) (hmade : MadeDir w.fs s' parent name)
  | unlinked (path name : Str) (parent i : Nat) (hname : call.Names w path)
      (hparent : w.fs.resolveParentAndName path = .ok (.ok (parent, name)))
      (hlook : w.fs.lookupChild parent name = some i) (hdir : (w.fs.node i).nodeType ≠ .dir)
      (hrem : Removed w.fs s' i)
  | removedDir (path : Str) (i : Nat) (children : List DirEntry) (hname : call.Names w path)
      (hres : w.fs.resolvePath path true = .ok (.ok i)) (hroot : i ≠ w.fs.rootIdx)
      (hdir : (w.fs.node i).info = .dir children)
      (hempty : ∀ e ∈ children, isDots e.name = true) (hrem : Removed w.fs s' i)
  | moved (i newParent : Nat) (newName : Str) (r : Renaming w call i newParent newName s')
      (hold : w.fs.lookupChild r.oldParent r.oldName = some i) (s₁ : ImfsState)
      (hnew : (w.fs.lookupChild newParent newName = none ∧ s₁ = w.fs) ∨
        ∃ existing, w.fs.lookupChild newParent newName = some existing ∧ existing ≠ i ∧
          (w.fs.node existing).nodeType ≠ .dir ∧ Removed w.fs s₁ existing)
      (hmove : Relocated s₁ s' i newParent newName)

variable {w : World T} {call : Call} {s' : ImfsState} {name : Str} {s : ImfsState} {i cage fd : Nat}

theorem FreshName.clean (h : TreeOk w.fs) (hf : FreshName w call path parent name) :
    CleanName name ∧ (w.fs.node parent).nodeType = .dir := by
  have hres := resolve_nofollow (normalPath_names hf.names) h.root_dir hf.parent_eq
  exact ⟨hres.1, hres.2.1⟩

theorem entered_plain {ty : NodeType} (hr : s.FreeInRange) (hne : parent ≠ s.nextSlot)
    (hadd : (s.createNode name ty mode).2.addChild parent s.nextSlot = .ok s') :
    Entered s s' parent name ty.emptyInfo := by
  have hsame : ((s.createNode name ty mode).2.modifyNode s.nextSlot fun n => n).addChild parent
      s.nextSlot = .ok s' := by
    rw [modifyNode_id _ _ fun _ => rfl]
    exact hadd
  exact entered_of_addChild hr hne _ (fun _ => rfl) (fun _ => rfl) (fun _ => rfl) hsame

theorem entered_dot {dir : Nat} (hr : s.FreeInRange) (hne : dir ≠ s.nextSlot)
    (hadd : ((s.createNode name .lnk 0).2.setHardLink s.nextSlot t).addChild dir s.nextSlot =
      .ok s') : Entered s s' dir name (.hardLink t) :=
  entered_of_addChild hr hne (fun n => { n with info := .hardLink t }) (fun _ => rfl)
    (fun _ => rfl) (fun _ => rfl) hadd

section

variable (h : TreeOk w.fs)

include h

theorem openTarget_shape {flags : BitVec 32} {idx : Nat}
    (hfit : Fit w.fs) (hname : call.Names w path) (ht : OpenTarget w.fs path flags mode idx s') :
    (SameTree w.fs s' ∧ (∀ i, (s'.node i).inUse = (w.fs.node i).inUse) ∧
      w.fs.resolvePath path true = .ok (.ok idx)) ∨
    (idx = w.fs.nextSlot ∧ ∃ name parent, FreshName w call path parent name ∧
      name.len < maxNodeName ∧ Entered w.fs s' parent name (.reg none none)) := by
  cases ht with
  | found _ hres => exact .inl ⟨sameTree_refl _, fun _ => rfl, hres⟩
  | truncated _ _ hres _ htrunc =>
    exact .inl ⟨sameTree_stores (.inr ⟨0, htrunc⟩), inUse_stores (.inr ⟨0, htrunc⟩), hres⟩
  | created e parent name _ hres hparent _ hlen hadd =>
    have hnormal := normalPath_names hname
    rcases resolve_nofollow hnormal h.root_dir hparent with ⟨_, hdir, _⟩
    have hne := ne_of_dir_of_free hdir (nextSlot_free h)
    exact .inr ⟨rfl, name, parent, ⟨hname, hparent⟩, hlen, entered_plain hfit.free hne hadd⟩

theorem held_linkSource {oldPath : Str} {oldIdx : Nat}
    (hlink : LinkSourceOk w call) (hold : call.OldNames w oldPath)
    (hres : w.fs.resolvePath oldPath call.follows = .ok (.ok oldIdx))
    (hdir : (w.fs.node oldIdx).nodeType ≠ .dir) : Held w.fs oldIdx := by
  have hnormal := normalPath_oldNames hold
  cases hfollow : call.follows with
  | true =>
    rw [hfollow] at hres
    exact held_of_follow h hnormal hres
  | false =>
    -- Only `linkat` can stop at a link.
    have hsource : call.linkSource w = some oldIdx := by
      cases call
      case linkat cage olddirfd oldpath newdirfd newpath flags =>
        simp only [Call.OldNames] at hold
        simp only [Call.follows] at hres
        simp only [Call.linkSource, hold, hres]
      all_goals cases hfollow
    rw [hfollow] at hres
    rcases root_or_entry_of_nofollow hnormal hres with hroot | ⟨d, x, hx, hlook⟩
    · rw [hroot] at hdir
      exact absurd h.root_dir hdir
    have he := entry_of_lookup hlook
    refine ⟨h.live _ _ he, fun u hc => ?_, notDoomed_of_entry h he⟩
    have := hlink oldIdx hsource
    rw [hardlinkTarget_eq_some.mpr hc] at this
    cases this

theorem reshape_creation (hfit : Fit w.fs) (hlink : LinkSourceOk w call)
    (hc : Creation w call s') : Reshape w call s' := by
  have hfree := nextSlot_free h
  cases hc with
  | mknod path name parent _ _ _ _ _ _ hfresh hlen hty hadd =>
    rcases hfresh.clean h with ⟨hclean, hdir⟩
    have he := entered_plain hfit.free (ne_of_dir_of_free hdir hfree) hadd
    rcases hty with hty | hty
    · rw [hty] at he
      exact .entered path name parent _ hfresh hlen .file
        (enterable_other hclean (by simp) (by simp)) he
    rw [hty] at he
    exact .entered path name parent _ hfresh hlen .pipe
      (enterable_other hclean (by simp) (by simp)) he
  | mkdir path name parent mode s₁ s' cage arg hcall hfresh hadd hdots =>
    rcases hfresh.clean h with ⟨hclean, hdir⟩
    have hne := ne_of_dir_of_free hdir hfree
    have h1 := entered_plain hfit.free hne hadd
    have hok1 := treeOk_entered h (enterable_dir hclean)
      (fun ch hch => (NodeInfo.dir.inj hch).symm) h1
    have hfit1 := (extends_addChild (extends_createNode hfit name .dir mode).fit
      (w.fs.nextSlot_lt_createNode name .dir mode hfit.free) hadd).fit
    have hnew1 : (s₁.node w.fs.nextSlot).nodeType = .dir := by
      rw [Node.nodeType, h1.new_info]
      rfl
    rcases addDots_ok hdots with ⟨s2, hadd2, hadd3⟩
    have h2 : Entered s₁ s2 w.fs.nextSlot ['.'] (.hardLink w.fs.nextSlot) :=
      entered_dot hfit1.free (ne_of_dir_of_free hnew1 (nextSlot_free hok1)) hadd2
    have hok2 := treeOk_entered hok1 (enterable_dots hok1 rfl hnew1) (by simp) h2
    have hfit2 := (extends_addDot hfit1 ['.']
      (lt_of_info_ne_free (held_of_dir hok1 hnew1).live) hadd2).fit
    have hnew2 := (h2.sameKind (ne_of_dir_of_free hnew1 (nextSlot_free hok1))).isDir.mpr hnew1
    have h3 : Entered s2 s' w.fs.nextSlot ['.', '.'] (.hardLink parent) :=
      entered_dot hfit2.free (ne_of_dir_of_free hnew2 (nextSlot_free hok2)) hadd3
    exact .madeDir path name parent ⟨cage, arg, mode, hcall⟩ hfresh ⟨s₁, s2, h1, h2, h3⟩
  | link _ path name oldIdx parent s₁ hold hres hdir hfresh hlen hadd =>
    rcases hfresh.clean h with ⟨hclean, hpdir⟩
    have he := entered_plain hfit.free (ne_of_dir_of_free hpdir hfree) hadd
    have hlt : w.fs.nextSlot < s₁.nodes.length := by
      refine lt_of_info_ne_free ?_
      simp [he.new_info, NodeType.emptyInfo]
    exact .entered path name parent _ hfresh hlen (.link oldIdx)
      (enterable_link hclean (held_linkSource h hlink hold hres hdir) hdir)
      (entered_setHardLink he hlt)
  | symlink target path name parent s' hfresh hlen hcall hadd =>
    rcases hfresh.clean h with ⟨hclean, hdir⟩
    have he : Entered w.fs s' parent name (.symlink target) :=
      entered_of_addChild hfit.free (ne_of_dir_of_free hdir hfree)
        (fun n => { n with info := .symlink target, totalSize := target.len })
        (fun _ => rfl) (fun _ => rfl) (fun _ => rfl) hadd
    refine .entered path name parent _ hfresh hlen (.symlink target ?_)
      (enterable_other hclean (by simp) (by simp)) he
    rcases hcall with ⟨cage, arg, hcall⟩ | ⟨cage, dirfd, arg, hcall⟩ <;> rw [hcall] <;> rfl

theorem reshape_removal (hr : Removal w call i s') : Reshape w call s' := by
  cases hr with
  | unlink path name parent _ _ hname hparent hres hdir hrem hunl =>
    have hlook := lookup_of_nofollow h (normalPath_names hname) hparent hres
    have he := entry_of_lookup hlook
    exact .unlinked path name parent i hname hparent hlook hdir
      (removed_of_unlink h (h.live _ _ he) (fun _ _ => ⟨_, _, he, rfl⟩) hrem hunl)
  | rmdir path children _ _ hname hres hroot hdir hempty hrem hunl =>
    refine .removedDir path i children hname hres hroot hdir
      (fun e he => isDots_iff.mpr (hempty e he))
      (removed_of_unlink h (by simp [hdir]) (fun t ht => ?_) hrem hunl)
    rw [hdir] at ht
    cases ht

theorem reshape_renaming {newParent : Nat} {newName : Str} (hfit : Fit w.fs)
    (r : Renaming w call i newParent newName s') : Reshape w call s' := by
  have hnew := normalPath_names r.hnew
  have hold := lookup_of_nofollow h (normalPath_oldNames r.hold) r.oldParent_eq r.oldIdx_eq
  have hi := resolvePath_lt hfit r.oldIdx_eq
  have hmove : ∀ s₁, s₁.nodes.length = w.fs.nodes.length →
      moveNode s₁ i newParent newName = .ok s' → Relocated s₁ s' i newParent newName := by
    intro s₁ hlen hmove
    rcases moveNode_ok hmove with ⟨s2, hrem, hadd⟩
    have ht := trimmed_of_removeChild hrem
    refine ⟨s2, ht, reentered_of_addChild ?_ hadd⟩
    rw [ht.length_eq, hlen]
    exact hi
  rcases r.moved with ⟨existing, s₁, hres, hne, hdir, ⟨s0, hrem, hunl⟩, hm⟩ | ⟨hres, hm⟩
  · have hlook := lookup_of_nofollow h hnew r.newParent_eq hres
    have he := entry_of_lookup hlook
    have hremoved := removed_of_unlink h (h.live _ _ he) (fun _ _ => ⟨_, _, he, rfl⟩) hrem hunl
    refine .moved i newParent newName r hold s₁
      (.inr ⟨existing, hlook, hne, hdir, hremoved⟩) (hmove s₁ ?_ hm)
    rcases hremoved with ⟨s2, ht, hp⟩
    exact hp.fields.2.1.trans ht.length_eq
  · exact .moved i newParent newName r hold w.fs
      (.inl ⟨lookup_of_absent h hnew r.newParent_eq hres, rfl⟩) (hmove w.fs rfl hm)

theorem treeOk_reshape (hr : Reshape w call s') : TreeOk s' := by
  cases hr with
  | entered _ _ _ _ _ _ hkind hin he =>
    exact treeOk_entered h hin (fun ch hch => absurd hch (hkind.notDir ch)) he
  | madeDir _ _ _ _ hfresh hmade =>
    rcases treeOk_madeDir h (hfresh.clean h).1 hmade with ⟨_, _, _, _, _, _, _, hok⟩
    exact hok
  | unlinked _ _ _ _ _ _ _ _ hrem | removedDir _ _ _ _ _ _ _ _ hrem => exact treeOk_removed h hrem
  | moved _ _ _ r hold _ hnew hmove =>
    rcases entry_of_moved h hold hnew with ⟨hok1, he⟩
    have hx := (resolve_nofollow (normalPath_oldNames r.hold) h.root_dir r.oldParent_eq).1
    have hname := (resolve_nofollow (normalPath_names r.hnew) h.root_dir r.newParent_eq).1
    exact treeOk_relocated hok1 he hx hname hmove

end

inductive TreeEffect (w : World T) (call : Call) (s' : ImfsState) : Prop
  | quiet (h : SameTree w.fs s')
  | pruned (s₁ s₂ : ImfsState) (h₁ : SameTree w.fs s₁) (h₂ : Pruned s₁ s₂) (h₃ : SameTree s₂ s')
  | reshaped (s₁ : ImfsState) (h : Reshape w call s₁) (hs : SameTree s₁ s')

theorem treeOk_treeEffect (h : TreeOk w.fs) (he : TreeEffect w call s') : TreeOk s' := by
  cases he with
  | quiet hs => exact treeOk_same h hs
  | pruned _ _ h1 h2 h3 => exact treeOk_same (treeOk_pruned (treeOk_same h h1) h2) h3
  | reshaped _ hr hs => exact treeOk_same (treeOk_reshape h hr) hs

theorem pruned_dropReference (h : TreeOk s) (hlive : (s.node i).info ≠ .free)
    (hdrop : dropReference s i = .ok s') : Pruned (s.decInUse i) s' := by
  have hlt := lt_of_info_ne_free hlive
  have hs := sameTree_decInUse s i
  have h1 := treeOk_same h hs
  unfold dropReference at hdrop
  rw [if_pos hlt] at hdrop
  simp only at hdrop
  split at hdrop
  next hdoom =>
    have hlive1 : ((s.decInUse i).node i).info ≠ .free := fun hc => hlive ((hs.isFree_iff i).mp hc)
    rcases h1.doomed i hdoom.1 hlive1 with ⟨hdir, hloose, hunheld⟩
    exact .free .refl i hdir hlive1 hloose hunheld (.inl hdoom.2)
      (freed_of_reclaimNode (lt_of_info_ne_free hlive1) hdrop)
  · cases hdrop
    exact .refl

theorem close_shape {w' : World T} (h : TreeOk w.fs)
    (hlive : ∀ k i, w.under k = some i → (w.fs.node i).info ≠ .free)
    (hclose : w.close cage fd = .ok (ret, w')) :
    ∃ s₁ s2, SameTree w.fs s₁ ∧ Pruned s₁ s2 ∧ SameTree s2 w'.fs := by
  rcases close_ok hclose with ⟨s', hdrop, hfs, _⟩
  have hs' : SameTree s' w'.fs := by
    rw [hfs]
    exact sameTree_congr rfl rfl rfl
  unfold dropDescriptor at hdrop
  rcases htr : translateVirtualFd w.fds cage fd with _ | entry
  · rw [htr] at hdrop
    cases hdrop
    exact ⟨_, _, sameTree_refl _, .refl, hs'⟩
  rw [htr] at hdrop
  exact ⟨_, s', sameTree_decInUse w.fs entry.underfd,
    pruned_dropReference h (hlive _ _ (under_of_translate htr)) hdrop, hs'⟩

theorem sameTree_setOffset (hset : s.setOffset cage fd off = .ok s') :
    SameTree s s' := by
  rcases setOffset_ok hset with ⟨a, _, hs'⟩
  rw [hs']
  exact sameTree_congr rfl rfl rfl

theorem inUse_setOffset (hset : s.setOffset cage fd off = .ok s') (i : Nat) :
    (s'.node i).inUse = (s.node i).inUse := by
  rcases setOffset_ok hset with ⟨a, _, hs'⟩
  rw [hs']
  rfl

theorem sameTree_countPipeEnd (s : ImfsState) (i : Nat) (flags : BitVec 32) :
    SameTree s (s.countPipeEnd i flags) :=
  sameTree_keepsTree s i (keepsTree_countPipeEnd flags)

theorem sameTree_attach (s : ImfsState) (i : Nat) (flags : BitVec 32) (cage fd a : Nat) :
    SameTree s (((s.countPipeEnd i flags).incInUse i).insertFdInfo cage fd a) :=
  (sameTree_countPipeEnd s i flags).trans
    ((sameTree_incInUse _ i).trans (sameTree_congr rfl rfl rfl))

theorem step_treeEffect [LawfulFdTables T] {w' : World T} (h : TreeOk w.fs) (hin : InRange w)
    (hlive : ∀ k i, w.under k = some i → (w.fs.node i).info ≠ .free)
    (hlink : LinkSourceOk w call) (hstep : step w call = .ok (ret, w')) :
    TreeEffect w call w'.fs := by
  cases step_effect hstep with
  | idle | cloexec | initUtilityCage => exact .quiet (sameTree_refl _)
  | cwd | fork => exact .quiet (sameTree_congr rfl rfl rfl)
  | touch i _ _ hf => exact .quiet (sameTree_keepsTree w.fs i hf)
  | seek _ _ _ _ _ _ _ hset => exact .quiet (sameTree_setOffset hset)
  | store _ _ _ _ _ _ hstore => exact .quiet (sameTree_stores hstore)
  | storeSeek _ _ _ _ _ _ _ _ hstore _ hset =>
    exact .quiet ((sameTree_stores hstore).trans (sameTree_setOffset hset))
  | openFull _ _ _ path _ s' _ hname htarget =>
    rcases openTarget_shape h hin.fit hname htarget with ⟨hs, _⟩ | ⟨_, name, parent, hf, hlen, he⟩
    · exact .quiet hs
    · exact .reshaped s' (.entered path name parent _ hf hlen .file
        (enterable_other (hf.clean h).1 nofun fun _ => nofun) he) (sameTree_refl _)
  | openOk cage flags _ path idx s' vfd _ _ hname htarget =>
    have hs' : SameTree s' ((s'.incInUse idx).insertPerfdinfo cage vfd flags) :=
      (sameTree_incInUse s' idx).trans (sameTree_congr rfl rfl rfl)
    rcases openTarget_shape h hin.fit hname htarget with ⟨hs, _⟩ | ⟨_, name, parent, hf, hlen, he⟩
    · exact .quiet (hs.trans hs')
    · exact .reshaped s' (.entered path name parent _ hf hlen .file
        (enterable_other (hf.clean h).1 nofun fun _ => nofun) he) hs'
  | creation s' _ hcreate =>
    exact .reshaped s' (reshape_creation h hin.fit hlink hcreate) (sameTree_refl _)
  | removal _ s' _ hremove => exact .reshaped s' (reshape_removal h hremove) (sameTree_refl _)
  | moved _ _ _ s' _ hrename =>
    exact .reshaped s' (reshape_renaming h hin.fit hrename) (sameTree_refl _)
  | close _ _ _ _ _ hclose =>
    rcases close_shape h hlive hclose with ⟨s₁, s2, h1, h2, h3⟩
    exact .pruned s₁ s2 h1 h2 h3
  | dupFull => exact .quiet (sameTree_countPipeEnd w.fs _ _)
  | dupOk => exact .quiet (sameTree_attach w.fs _ _ _ _ _)
  | dup2Ok cage _ newfd entry a w1 _ _ _ _ _ _ hclose =>
    have hattach := sameTree_attach w1.fs entry.underfd (w1.fs.arc a).flags cage newfd a
    rcases hclose with ⟨_, hw⟩ | hclose
    · rw [hw] at hattach ⊢
      exact .quiet hattach
    · rcases close_shape h hlive hclose with ⟨s₁, s2, h1, h2, h3⟩
      exact .pruned s₁ s2 h1 h2 (h3.trans hattach)
  | exec _ _ _ _ hexec =>
    cases hexec
    exact .quiet (sameTree_refl _)
  | preexec _ _ _ hpre =>
    unfold preexec at hpre
    split at hpre
    · cases hpre
    · cases hpre
      exact .quiet (sameTree_congr rfl rfl rfl)

end LindGrates.Imfs
