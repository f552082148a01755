import LindGrates.Core.FsClamp.Sides

/-!
# How the Sides Reply

What a reply of one of the sides says about the descriptors in use there.

## Main definitions

* `Makes`: The reply to a call that may make a descriptor.
* `State.routeSide`: The side a call goes to.

## Theorems

* `serve_makes`, `serve_close`, `serve_other`: The three kinds of calls.
-/

namespace LindGrates.FsClamp

open FdTables Posix Dialogue Function

namespace Sides

variable {mem : Memory} {x x' : Sides} {f : Forward} {ret : Int}

/-- The reply to a call that may make a descriptor. -/
inductive Makes (x : Sides) (side : Side) (ret : Int) (x' : Sides) : Prop
  | refused (hneg : ret < 0) (holds : x'.holds = x.holds) (made : x'.made = x.made)
  | given (hnew : 0 ≤ ret ∧ ret < 2 ^ 31) (hfree : x.holds side ret.toNat = false)
      (holds : x'.holds = (x.mark side ret.toNat true).holds)
      (made : x'.made = x.made ++ [(side, ret.toNat)])

theorem next_eq_some (h : x.next = some (x', ret)) :
    x.replies = ret :: x'.replies ∧ x'.made = x.made ∧ x'.passed = x.passed ∧
      x'.holds = x.holds := by
  unfold next at h
  split at h
  · cases h
  rename_i ret' rest hreplies
  cases h
  exact ⟨hreplies, rfl, rfl, rfl⟩

theorem serve_makes (hclose : f.nr.sys ≠ .close) (hmakes : f.makes = true)
    (h : x.serve mem (.syscall f) = some (x', ret)) :
    x.replies = ret :: x'.replies ∧ x'.passed = (x.note mem f).passed ∧
      Makes x f.side ret x' := by
  simp only [serve, if_neg hclose, if_pos hmakes] at h
  rcases Option.bind_eq_some_iff.mp h with ⟨r, hnext, hrest⟩
  rcases next_eq_some hnext with ⟨hreplies, hmade, hpassed, hholds⟩
  split at hrest
  next hneg =>
    cases hrest
    exact ⟨hreplies, hpassed, .refused hneg hholds hmade⟩
  rename_i hpos
  split at hrest
  next hfree =>
    cases hrest
    refine ⟨hreplies, hpassed, .given ⟨Int.not_lt.mp hpos, hfree.1⟩ hfree.2 ?_ rfl⟩
    simp only [mark, hholds]
    rfl
  · cases hrest

theorem serve_close (hclose : f.nr.sys = .close) (h : x.serve mem (.syscall f) = some (x', ret)) :
    x'.replies = x.replies ∧ x'.made = x.made ∧ x'.passed = (x.note mem f).passed ∧
      x'.holds = (x.mark f.side (f.args 0).toNat false).holds ∧
      (x.holds f.side (f.args 0).toNat = true → ret = 0) := by
  simp only [serve, if_pos hclose, close] at h
  split at h
  · cases h
    exact ⟨rfl, rfl, rfl, rfl, fun _ => rfl⟩
  rename_i hheld
  have hfalse : x.holds f.side (f.args 0).toNat = false := Bool.eq_false_iff.mpr hheld
  cases h
  refine ⟨rfl, rfl, rfl, ?_, fun htrue => absurd htrue hheld⟩
  simp only [mark, ← hfalse, update_eq_self]
  rfl

theorem serve_other (hclose : f.nr.sys ≠ .close) (hmakes : f.makes = false)
    (h : x.serve mem (.syscall f) = some (x', ret)) :
    x.replies = ret :: x'.replies ∧ x'.made = x.made ∧ x'.passed = (x.note mem f).passed ∧
      x'.holds = x.holds := by
  rw [serve, if_neg hclose, if_neg (by rw [hmakes]; exact Bool.false_ne_true)] at h
  exact next_eq_some h

theorem mark_self (x : Sides) (side : Side) (fd : Nat) (b : Bool) :
    (x.mark side fd b).holds side fd = b := by
  simp only [mark, update_self]

theorem mark_of_ne (x : Sides) {side side' : Side} {fd fd' : Nat} (b : Bool)
    (h : side' ≠ side ∨ fd' ≠ fd) : (x.mark side fd b).holds side' fd' = x.holds side' fd' := by
  unfold mark
  by_cases hside : side' = side
  · subst hside
    simp only [update_self]
    exact update_of_ne (h.resolve_left fun hne => hne rfl) _ _
  · simp only [update_of_ne hside]

end Sides

/-! ## Where calls go -/

section Routes

variable {T : Type}

/-- The side a call goes to that is clamped or not, if it takes a route. -/
def State.routeSide (s : State T) (cage : Nat) (sys : Sys) (clamp : Bool) : Side :=
  if clamp = true ∧ (s.getRoute cage sys).isSome = true then .clamped else .kernel

theorem State.sys_routeIf (s : State T) (cage : Nat) (sys : Sys) (clamp : Bool) :
    (s.routeIf cage sys clamp).sys = sys := by
  unfold State.routeIf
  split
  · split
    · rfl
    · rfl
  · rfl

theorem State.side_routeIf (s : State T) (cage : Nat) (sys : Sys) (clamp : Bool) (c : Nat)
    (args : Fin 6 → Word) (argcages : Fin 6 → Nat) :
    (⟨s.routeIf cage sys clamp, false, c, args, argcages⟩ : Forward).side =
      s.routeSide cage sys clamp := by
  unfold State.routeIf State.routeSide
  rcases s.getRoute cage sys with _ | _
  · exact (if_neg fun h => Bool.false_ne_true h.2).symm
  cases clamp with
  | false => exact (if_neg fun h => Bool.false_ne_true h.1).symm
  | true => exact (if_pos ⟨rfl, rfl⟩).symm

theorem State.callClamped_eq (s : State T) (cage : Nat) (sys : Sys) (args : Fin 6 → Word)
    (argcages : Fin 6 → Nat) :
    ∃ f : Forward, s.callClamped cage sys args argcages = request (.syscall f) ∧ f.nr.sys = sys ∧
      f.args = args ∧ f.argcages = argcages ∧ f.side = .clamped := by
  unfold State.callClamped
  split
  · exact ⟨_, rfl, rfl, rfl, rfl, rfl⟩
  · exact ⟨_, rfl, rfl, rfl, rfl, rfl⟩

theorem dupUnder_eq (s : State T) (cage : Nat) (entry : FDTableEntry) :
    ∃ f : Forward, dupUnder s cage entry = request (.syscall f) ∧ f.nr.sys = .dup ∧
      f.args = onlyArg (BitVec.ofNat 64 entry.underfd) ∧ f.side = entrySide entry := by
  unfold dupUnder entrySide
  simp only []
  split
  · rcases s.callClamped_eq cage .dup (onlyArg (BitVec.ofNat 64 entry.underfd)) fun _ => cage with
      ⟨f, hf, hsys, hargs, _, hside⟩
    exact ⟨f, hf, hsys, hargs, hside⟩
  · exact ⟨_, rfl, rfl, rfl, rfl⟩

end Routes

theorem entrySide_eq_kernel_iff {entry : FDTableEntry} :
    entrySide entry = .kernel ↔ entry.perfdinfo = 0 := by
  unfold entrySide
  split
  next hne => exact ⟨fun h => Side.noConfusion h, fun h => absurd h hne⟩
  next heq => exact ⟨fun _ => not_not.mp heq, fun _ => rfl⟩

theorem toNat_wordOf {ret : Int} (h : 0 ≤ ret ∧ ret < 2 ^ 31) : (wordOf ret).toNat = ret.toNat := by
  rw [wordOf, BitVec.toNat_ofInt]
  omega

/-- The table of a cage has a free number. -/
def Room {T : Type} [FdTables T] (s : State T) (cage : Nat) : Prop :=
  ∃ fd, fd < fdLimit T ∧ translateVirtualFd s.fds cage fd = none

end LindGrates.FsClamp
