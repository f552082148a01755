import Mathlib.Data.Set.Card

/-!
# Counting Keys by Label

How many keys of a partial map carry a given label, and how that number changes
with the map.

## Main definitions

* `tally`: The number of keys with a label.
* `CountRule`: A relation between the number and a counter, which need not be exact,
  that survives when both go up or down together.

## Theorems

* `tally_update_some`, `tally_update_none`: A label is given or taken away.
* `tally_put`, `tally_erase`: The same for labels of entries.
-/

namespace LindGrates

open Function Set

variable {K L : Type} {f g : K → Option L} {a : K} {b c : L}

/-- The number of keys with the label `b`. -/
noncomputable def tally (f : K → Option L) (b : L) : Nat :=
  {k | f k = some b}.ncard

def FinitelyMany (f : K → Option L) : Prop :=
  {k | f k ≠ none}.Finite

theorem finite_label (h : FinitelyMany f) (b : L) : {k | f k = some b}.Finite :=
  h.subset fun k hk => by rw [mem_ofPred_eq] at hk ⊢; rw [hk]; exact nofun

theorem tally_eq_zero (h : FinitelyMany f) : tally f b = 0 ↔ ∀ k, f k ≠ some b := by
  rw [tally, ncard_eq_zero (finite_label h b), eq_empty_iff_forall_notMem]
  rfl

theorem tally_congr (h : ∀ k, f k = some b ↔ g k = some b) : tally f b = tally g b := by
  rw [tally, tally]
  exact congrArg ncard (ext h)

theorem tally_le_of_imp (hg : FinitelyMany g) (h : ∀ k, f k = some b → g k = some b) :
    tally f b ≤ tally g b :=
  ncard_le_ncard h (finite_label hg b)

variable [DecidableEq K]

theorem tally_update_some (h : FinitelyMany f) (ha : f a = none) :
    tally (update f a (some b)) b = tally f b + 1 := by
  have hset : {k | update f a (some b) k = some b} = insert a {k | f k = some b} := by
    ext k
    rw [mem_ofPred_eq, mem_insert_iff, mem_ofPred_eq, update_apply]
    by_cases hk : k = a
    · simp only [hk, if_true, true_or]
    · simp only [hk, if_false, false_or]
  rw [tally, tally, hset, ncard_insert_of_notMem ?_ (finite_label h b)]
  rw [mem_ofPred_eq, ha]
  exact nofun

theorem tally_update_some_of_ne (ha : f a = none) (hc : c ≠ b) :
    tally (update f a (some b)) c = tally f c := by
  refine tally_congr fun k => ?_
  rw [update_apply]
  split
  next hk =>
    rw [hk, ha]
    exact ⟨fun h => absurd (Option.some.inj h).symm hc, nofun⟩
  · exact Iff.rfl

theorem tally_update [DecidableEq L] (h : FinitelyMany f) (ha : f a = none) (o : Option L) :
    tally (update f a o) c = tally f c + if o = some c then 1 else 0 := by
  rcases o with _ | b
  · rw [← ha, update_eq_self, if_neg (by rw [ha]; simp), Nat.add_zero]
  by_cases hb : b = c
  · rw [hb, tally_update_some h ha, if_pos rfl]
  · rw [tally_update_some_of_ne ha (Ne.symm hb), if_neg fun h => hb (Option.some.inj h),
      Nat.add_zero]

theorem finitelyMany_update (h : FinitelyMany f) (o : Option L) :
    FinitelyMany (update f a o) := by
  refine Set.Finite.subset (Set.Finite.insert a h) fun k hk => ?_
  rw [mem_ofPred_eq, update_apply] at hk
  split at hk
  next hka => exact .inl hka
  · exact .inr hk

theorem tally_update_none (h : FinitelyMany f) (ha : f a = some b) :
    tally f b = tally (update f a none) b + 1 := by
  have hback : update (update f a none) a (some b) = f := by
    rw [update_idem, ← ha, update_eq_self]
  rw [← tally_update_some (finitelyMany_update h none) (update_self ..), hback]

theorem tally_update_none_of_ne (hc : f a ≠ some c) : tally (update f a none) c = tally f c := by
  refine tally_congr fun k => ?_
  rw [update_apply]
  split
  next hk =>
    rw [hk]
    exact ⟨nofun, fun h => absurd h hc⟩
  · exact Iff.rfl

section Labels

variable {E : Type} {look : K → Option E} {k : K} {e : E} {lab : E → Option L}

omit [DecidableEq K] in
theorem finitelyMany_bind (lab : E → Option L) (h : FinitelyMany look) :
    FinitelyMany fun j => (look j).bind lab := by
  refine Set.Finite.subset h fun j hj hnone => hj ?_
  exact congrArg (Option.bind · lab) hnone

theorem bind_update (lab : E → Option L) (o : Option E) :
    (fun j => (update look k o j).bind lab) =
      update (fun j => (look j).bind lab) k (o.bind lab) := by
  funext j
  rw [update_apply, update_apply]
  split <;> rfl

theorem bind_update_same {o : Option E} (h : o.bind lab = (look k).bind lab) :
    (fun j => (update look k o j).bind lab) = fun j => (look j).bind lab := by
  rw [bind_update, h]
  exact update_eq_self (f := fun j => (look j).bind lab) k

variable [DecidableEq L] (hfin : FinitelyMany look)

include hfin

theorem tally_put (hfree : look k = none) (lab : E → Option L) (e : E) (b : L) :
    tally (fun j => (update look k (some e) j).bind lab) b =
      tally (fun j => (look j).bind lab) b + if lab e = some b then 1 else 0 := by
  have hnone : (look k).bind lab = none := by
    rw [hfree]
    rfl
  rw [bind_update]
  exact tally_update (f := fun j => (look j).bind lab) (finitelyMany_bind lab hfin) hnone (lab e)

theorem tally_put_pair {k' : K} (hfree : look k = none) (hfree' : look k' = none) (hne : k ≠ k')
    (lab : E → Option L) (e e' : E) (b : L) :
    tally (fun j => (update (update look k (some e)) k' (some e') j).bind lab) b =
      tally (fun j => (look j).bind lab) b + (if lab e = some b then 1 else 0) +
        if lab e' = some b then 1 else 0 := by
  rw [tally_put (finitelyMany_update hfin _) (by rw [update_of_ne hne.symm, hfree']),
    tally_put hfin hfree]

theorem tally_erase (hentry : look k = some e) (lab : E → Option L) (b : L) :
    tally (fun j => (look j).bind lab) b =
      tally (fun j => (update look k none j).bind lab) b + if lab e = some b then 1 else 0 := by
  have hback : update (update look k none) k (some e) = look := by
    rw [update_idem, ← hentry, update_eq_self]
  rw [← tally_put (finitelyMany_update hfin none) (update_self ..), hback]

theorem tally_pos (hentry : look k = some e) (hlab : lab e = some b) :
    0 < tally (fun j => (look j).bind lab) b := by
  rw [tally_erase hfin hentry lab b, if_pos hlab]
  exact Nat.succ_pos _

end Labels

/-- A relation between a count and a counter that holds at zero and survives
    when both go up or down together. -/
structure CountRule (rel : Nat → Nat → Prop) : Prop where
  le : ∀ n m, rel n m → n ≤ m
  zero : rel 0 0
  up : ∀ n m, rel n m → rel (n + 1) (m + 1)
  down : ∀ n m, rel (n + 1) m → rel n (m - 1)

theorem countRule_le : CountRule (· ≤ ·) :=
  ⟨fun _ _ h => h, Nat.le_refl 0, fun _ _ h => Nat.succ_le_succ h, fun _ _ h => by omega⟩

theorem countRule_eq : CountRule (· = ·) :=
  ⟨fun _ _ h => Nat.le_of_eq h, rfl, fun _ _ h => congrArg (· + 1) h, fun _ _ h => by omega⟩

end LindGrates
