import LindGrates.Theory.Imfs.Normal

/-!
# What a Path Resolves To

## Main definitions

* `Entry`: A directory has an entry.
* `NotLink`: A node a followed walk can end at.

## Theorems

* `resolve_nofollow`: A walk that does not follow its last component is a walk to the
  directory before it, which is followed, and one lookup there.
* `resolve_follow_inv`: Where a followed walk can end is an invariant of its steps.
-/

namespace LindGrates.Imfs

open FdTables ImfsState List

variable {s : ImfsState} {name x path : Str} {i : Nat}

/-- The last step of a walk that does not follow it: one lookup in a directory. -/
def lookupIn (s : ImfsState) (name : Str) (d : Nat) : Except Int Nat :=
  if (s.node d).nodeType ≠ .dir then .error (-20)
  else match s.lookupChild d name with
    | none => .error (-2)
    | some i => .ok i

theorem lookupIn_eq_ok {d : Nat} :
    lookupIn s name d = .ok i ↔ (s.node d).nodeType = .dir ∧ s.lookupChild d name = some i := by
  unfold lookupIn
  by_cases hdir : (s.node d).nodeType = .dir
  · rw [if_neg (not_not.mpr hdir)]
    cases s.lookupChild d name with
    | none => simp only [reduceCtorEq, and_false]
    | some => simp only [Except.ok.injEq, hdir, Option.some.injEq, true_and]
  · rw [if_pos hdir]
    simp only [reduceCtorEq, hdir, false_and]

section Walk

variable {s : ImfsState}

theorem walk_concat (hx : CleanName x) {restartF restartT : Str → Outcome (Except Int Nat)}
    (hrestart : ∀ p q, (∀ c ∈ components q, CleanName c) → components p = components q ++ [x] →
      restartF p = (restartT q).map (·.bind (lookupIn s x))) :
    ∀ (parts : List Str) (current : Nat), (∀ c ∈ parts, CleanName c) →
      s.walk false restartF current (parts ++ [x]) =
        (s.walk true restartT current parts).map (·.bind (lookupIn s x)) := by
  intro parts
  induction parts with
  | nil =>
    intro current _
    simp only [nil_append, walk, and_self, if_true, Except.map, Except.bind, lookupIn]
    split
    · rfl
    · cases s.lookupChild current x <;> rfl
  | cons c rest ih =>
    intro current hclean
    have hrest : ∀ c ∈ rest, CleanName c := fun p hp => hclean p (mem_cons_of_mem _ hp)
    have hrestx : ∀ c ∈ rest ++ [x], CleanName c := fun p hp =>
      (mem_append.mp hp).elim (hrest p) fun hp => mem_singleton.mp hp ▸ hx
    have hne : rest ++ [x] ≠ [] := append_ne_nil_of_right_ne_nil _ (cons_ne_nil _ _)
    simp only [cons_append, walk]
    split
    · rfl
    rcases s.lookupChild current c with _ | entryIdx
    · rfl
    simp only
    rw [if_neg (fun hc => hne hc.1), if_neg (by simp)]
    cases (s.node entryIdx).hardlinkTarget with
    | some target => exact ih target hrest
    | none =>
      rcases (s.node entryIdx).symlinkTarget with _ | target
      · exact ih entryIdx hrest
      simp only
      rcases s.absolutePathForNode current with _ | parentPath
      · rfl
      -- The link's path and the rest are joined and split
      -- again; the last component stays the last one.
      have hcomps := components_restart parentPath target hrest
      have hcompsx := components_restart parentPath target hrestx
      rw [if_neg hne] at hcompsx
      refine hrestart _ _ ?_ ?_
      · rw [hcomps]
        exact fun p hp => (mem_append.mp hp).elim
          (clean_components_normalize _ _ p) (hrest p)
      · rw [hcompsx, hcomps, append_assoc]

theorem resolvePathInner_concat (hx : CleanName x) :
    ∀ (n : Nat) (p q : Str), (∀ c ∈ components q, CleanName c) →
      components p = components q ++ [x] →
      s.resolvePathInner false n p =
        (s.resolvePathInner true n q).map (·.bind (lookupIn s x)) := by
  intro n
  induction n with
  | zero => exact fun p q _ _ => rfl
  | succ n ih =>
    intro p q hclean hcomps
    simp only [resolvePathInner, hcomps]
    exact walk_concat hx ih (components q) s.rootIdx hclean

theorem resolvePath_root (h : components path = []) (follow : Bool) :
    s.resolvePath path follow = .ok (.ok s.rootIdx) := by
  simp only [resolvePath, resolvePathInner, h, walk]

/-- The whole path and its parent are resolved alike: once the parent is
    there, the path resolves to whatever its last component names in it. -/
theorem resolve_nofollow {parent : Nat} (hnormal : NormalPath path)
    (hroot : (s.node s.rootIdx).nodeType = .dir)
    (hparent : s.resolveParentAndName path = .ok (.ok (parent, name))) :
    CleanName name ∧ (s.node parent).nodeType = .dir ∧
      s.resolvePath path false = .ok (lookupIn s name parent) ∧
      ∃ q, NormalPath q ∧ components path = components q ++ [name] ∧
        s.resolvePath q true = .ok (.ok parent) := by
  have hclean := hnormal.clean
  unfold resolveParentAndName at hparent
  rcases hlast : (components path).getLast? with _ | x
  · rw [hlast] at hparent
    cases hparent
  rw [hlast] at hparent
  have hcomps : components path = (components path).dropLast ++ [x] :=
    (dropLast_append_getLast? x hlast).symm
  have hinit : ∀ c ∈ (components path).dropLast, CleanName c :=
    fun p hp => hclean p (mem_of_mem_dropLast hp)
  have hx : CleanName x := hclean x (mem_of_getLast? hlast)
  have hq := components_renderPath hinit
  have hsplit : components path = components (renderPath (components path).dropLast) ++ [x] :=
    by rw [hq]; exact hcomps
  -- Both ways of finding the parent are a followed resolution.
  have hres : name = x ∧ (s.node parent).nodeType = .dir ∧
      s.resolvePath (renderPath (components path).dropLast) true = .ok (.ok parent) := by
    simp only at hparent
    split at hparent
    next hone =>
      cases hparent
      refine ⟨rfl, hroot, resolvePath_root ?_ true⟩
      rw [hq]
      exact eq_nil_of_length_eq_zero (by rw [length_dropLast, hone])
    rcases (bind_eq_ok _ _ _).mp hparent with ⟨r, hr, hk⟩
    rw [← renderPath_eq] at hr
    rcases r with _ | _
    · cases hk
    simp only at hk
    split at hk
    · cases hk
    rename_i hdir
    cases hk
    exact ⟨rfl, not_not.mp hdir, hr⟩
  rcases hres with ⟨hname, hdir, hres⟩
  rw [hname]
  refine ⟨hx, hdir, ?_, _, ⟨_, hinit, rfl⟩, hsplit, hres⟩
  have hrun := resolvePathInner_concat (s := s) hx 41 path
    (renderPath (components path).dropLast) (by rw [hq]; exact hinit) hsplit
  rw [resolvePath] at hres
  rw [resolvePath, hrun, hres]
  rfl

end Walk

def Entry (s : ImfsState) (d : Nat) (e : DirEntry) : Prop :=
  ∃ ch, (s.node d).info = .dir ch ∧ e ∈ ch

theorem nodeType_eq_dir {n : Node} : n.nodeType = .dir ↔ ∃ ch, n.info = .dir ch := by
  unfold Node.nodeType
  cases n.info <;>
    simp only [NodeInfo.nodeType, reduceCtorEq, NodeInfo.dir.injEq, exists_eq', exists_false]

theorem entry_of_lookup {d : Nat} (h : s.lookupChild d name = some i) : Entry s d ⟨name, i⟩ := by
  rcases lookupChild_eq_some h with ⟨ch, hdir, hfind⟩
  exact ⟨ch, hdir, mem_of_findChild hfind⟩

structure NotLink (n : Node) : Prop where
  hard : n.hardlinkTarget = none
  sym : n.symlinkTarget = none

/-- What holds of every node a result can be. -/
def OkAll (I : Nat → Prop) (r : Except Int Nat) : Prop :=
  ∀ i, r = .ok i → I i

section Follow

variable {s : ImfsState} {I : Nat → Prop}

theorem walk_follow_inv (hlink : ∀ d x e t, I d → CleanName x → s.lookupChild d x = some e →
      (s.node e).info = .hardLink t → I t)
    (hplain : ∀ d x e, I d → CleanName x → s.lookupChild d x = some e → NotLink (s.node e) → I e)
    {restart : Str → Outcome (Except Int Nat)}
    (hrestart : ∀ p, (∀ c ∈ components p, CleanName c) → Returns (restart p) (OkAll I)) :
    ∀ (parts : List Str) (current : Nat), (∀ c ∈ parts, CleanName c) → I current →
      Returns (s.walk true restart current parts) (OkAll I) := by
  intro parts
  induction parts with
  | nil =>
    intro current _ hI
    refine returns_ok ?_
    rintro _ ⟨⟩
    exact hI
  | cons c rest ih =>
    intro current hclean hI
    have hc := hclean c (mem_cons_self ..)
    have hrest : ∀ c ∈ rest, CleanName c := fun p hp => hclean p (mem_cons_of_mem _ hp)
    simp only [walk]
    refine returns_ite (fun _ => returns_ok (by rintro _ ⟨⟩)) fun _ => ?_
    rcases hlook : s.lookupChild current c with _ | e
    · exact returns_ok (by rintro _ ⟨⟩)
    simp only
    rw [if_neg (by simp)]
    cases hhard : (s.node e).hardlinkTarget with
    | some t => exact ih t hrest (hlink current c e t hI hc hlook
        (hardlinkTarget_eq_some.mp hhard))
    | none =>
      rcases hsym : (s.node e).symlinkTarget with _ | target
      · exact ih e hrest (hplain current c e hI hc hlook ⟨hhard, hsym⟩)
      refine returns_bind fun parentPath _ => hrestart _ ?_
      rw [components_restart parentPath target hrest]
      exact fun p hp => (mem_append.mp hp).elim
        (clean_components_normalize _ _ p) (hrest p)

/-- Where a followed resolution ends: at the root, or where an invariant of
    the walk's steps says. -/
theorem resolve_follow_inv (hroot : I s.rootIdx)
    (hlink : ∀ d x e t, I d → CleanName x → s.lookupChild d x = some e →
      (s.node e).info = .hardLink t → I t)
    (hplain : ∀ d x e, I d → CleanName x → s.lookupChild d x = some e → NotLink (s.node e) → I e)
    (hnormal : NormalPath path) (hres : s.resolvePath path true = .ok (.ok i)) : I i := by
  have hinner : ∀ n p, (∀ c ∈ components p, CleanName c) →
      Returns (s.resolvePathInner true n p) (OkAll I) := by
    intro n
    induction n with
    | zero => exact fun p _ => returns_ok (by rintro _ ⟨⟩)
    | succ n ih => exact fun p hp => walk_follow_inv hlink hplain ih _ _ hp hroot
  exact hinner 41 path hnormal.clean _ hres i rfl

end Follow

variable {s : ImfsState} {parts : List Str} {d : Nat}

end LindGrates.Imfs
