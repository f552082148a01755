import LindGrates.Core.Resource.Nanny
import Mathlib.Tactic.Linarith
import Mathlib.Tactic.Positivity

/-!
# The Rate of a Renewable Resource

What carries the argument is the sum of what is stored and what could have drained
since time zero. Draining never lowers it, for the account is cut off at zero only
from below, and a charge raises it by its quantity. The first charge of an interval
finds it at least at what could drain until the interval began; a call that returns
leaves it at most at what could drain until then and one second's worth more.

## Main definitions

* `exactClock`: Time and numbers without rounding.
* `chargedWithin`: What is charged in an interval.
* `Metered`: The invariant.

## Theorems

* `rate_enforced`: No more is charged in any interval than the rate allows, up to one
  second's worth.
-/

namespace LindGrates.Resource

open List Renewable Option

section Moves

variable {F τ : Type} [Zero F] [Add F] [Sub F] [Mul F] [Div F] [LT F] [DecidableLT F] [LE τ]
  {κ : Clock F τ} {w w' : Renewable F τ} {a : Action F τ}

inductive Moves (κ : Clock F τ) (w : Renewable F τ) : Action F τ → Renewable F τ → Prop
  | tick (now : τ) (h : w.clock ≤ now) : Moves κ w (.tick now) { w with clock := now }
  | lock (q : F) (hfree : w.holder = none) (hsound : w.poisoned = false) :
      Moves κ w (.lock q) { w with holder := some ⟨q, w.clock, .entered⟩ }
  | charge (q : F) (s : τ) (h : w.holder = some ⟨q, s, .entered⟩) :
      Moves κ w .charge (w.charge κ ⟨q, s, .entered⟩)
  | wake (q : F) (s d : τ) (h : w.holder = some ⟨q, s, .asleep d⟩) (hd : d ≤ w.clock) :
      Moves κ w .wake (w.wake κ ⟨q, s, .asleep d⟩)
  | ret (q : F) (s : τ) (h : w.holder = some ⟨q, s, .finished⟩) :
      Moves κ w .ret (w.ret ⟨q, s, .finished⟩)

theorem Moves.allowedPerSec (h : Moves κ w a w') : w'.allowedPerSec = w.allowedPerSec := by
  cases h with
  | charge =>
    unfold Renewable.charge
    simp only []
    split
    · split
      · rfl
      · rfl
    · rfl
  | tick | lock | wake | ret => rfl

theorem step_moves [DecidableLE τ] (h : w.step κ a = some w') : Moves κ w a w' := by
  cases a with
  | tick now =>
    rcases ite_none_right_eq_some.mp h with ⟨hle, heq⟩
    cases heq
    exact .tick now hle
  | lock q =>
    rcases ite_none_right_eq_some.mp h with ⟨hfree, heq⟩
    rw [Bool.and_eq_true, isNone_iff_eq_none, Bool.not_eq_true'] at hfree
    cases heq
    exact .lock q hfree.1 hfree.2
  | charge | wake | ret =>
    rcases bind_eq_some_iff.mp h with ⟨⟨q, s, phase⟩, hh, hw⟩
    cases phase
    all_goals first
      | exact some.inj hw ▸ .charge q s hh
      | exact some.inj hw ▸ .ret q s hh
      | (rcases ite_none_right_eq_some.mp hw with ⟨hd, heq⟩
         exact some.inj heq ▸ .wake q s _ hh hd)
      | cases hw

end Moves

variable {K : Type} [Field K] [LinearOrder K]

/-- Time and numbers without rounding, and no end of time. -/
def exactClock : Clock K K where
  since now earlier := now - earlier
  after now secs := some (now + secs)

/-- Nobody charges less than nothing. -/
def Charges (_ : Renewable K K) : Action K K → Prop
  | .lock q => 0 ≤ q
  | _ => True

namespace Renewable

/-- What the call with the lock has charged, if it got the lock at `s` or later. -/
def pending (w : Renewable K K) (s : K) : List K :=
  match w.holder with
  | some ⟨_, _, .entered⟩ | none => []
  | some ⟨q, obtained, _⟩ => if s ≤ obtained then [q] else []

/-- What was charged by calls that got the lock at `s` or later. -/
def chargedSince (w : Renewable K K) (s : K) : List K :=
  ((w.charges.filter fun c => s ≤ c.obtained).map Charge.quantity) ++ w.pending s

/-- What was charged by calls that got the lock at `s` or later and have returned at
    `t` or before. -/
def chargedWithin (w : Renewable K K) (s t : K) : K :=
  ((w.charges.filter fun c => s ≤ c.obtained ∧ c.returned ≤ t).map Charge.quantity).sum

end Renewable

/-- The call with the lock is not ahead of the clock, and how far it has come decides
    how much may be stored. -/
def HolderOk (w : Renewable K K) (h : Holder K K) : Prop :=
  0 ≤ h.quantity ∧ h.obtained ≤ w.clock ∧
    match h.phase with
    | .entered => True
    | .asleep d => w.inner.consumed - w.allowedPerSec ≤ w.allowedPerSec * (d - w.inner.lastUpdate)
    | .finished => w.inner.consumed ≤ w.allowedPerSec

structure Metered (w : Renewable K K) : Prop where
  rate_pos : 0 < w.allowedPerSec
  nonneg : 0 ≤ w.inner.consumed
  updated : w.inner.lastUpdate ≤ w.clock
  holds : ∀ h ∈ w.holder, HolderOk w h
  past : ∀ c ∈ w.charges, c.returned ≤ w.clock
  stored : ∀ s, w.chargedSince s = [] ∨
    w.allowedPerSec * s + (w.chargedSince s).sum ≤
      w.inner.consumed + w.allowedPerSec * w.inner.lastUpdate
  within : ∀ s t, s ≤ t → w.chargedWithin s t ≤ w.allowedPerSec * (t - s) + w.allowedPerSec

variable {w w' : Renewable K K} {q obtained rate : K}

/-! ## Draining -/

theorem consumed_drain (rate : K) (a : Account K K) (now : K) :
    (a.drain exactClock rate now).consumed = max 0 (a.consumed - (now - a.lastUpdate) * rate) := by
  change (if a.consumed - (now - a.lastUpdate) * rate < 0 then 0 else _) = _
  split
  next h => exact (max_eq_left h.le).symm
  next h => exact (max_eq_right (not_lt.mp h)).symm

theorem drain_nonneg (rate : K) (a : Account K K) (now : K) :
    0 ≤ (a.drain exactClock rate now).consumed := by
  rw [consumed_drain]
  exact le_max_left _ _

/-! ## The steps -/

theorem Metered.tick (h : Metered w) {now : K} (hle : w.clock ≤ now) :
    Metered { w with clock := now } where
  rate_pos := h.rate_pos
  nonneg := h.nonneg
  updated := h.updated.trans hle
  holds hd hmem := ⟨(h.holds hd hmem).1, (h.holds hd hmem).2.1.trans hle, (h.holds hd hmem).2.2⟩
  past c hc := (h.past c hc).trans hle
  stored := h.stored
  within := h.within

theorem Metered.lock (h : Metered w) (hfree : w.holder = none) (hq : 0 ≤ q) :
    Metered { w with holder := some ⟨q, w.clock, .entered⟩ } := by
  have hpending : ∀ s, w.pending s = [] := fun s => by rw [pending, hfree]
  refine ⟨h.rate_pos, h.nonneg, h.updated, ?_, h.past, fun s => ?_, h.within⟩
  · intro hd hmem
    cases hmem
    exact ⟨hq, le_refl _, trivial⟩
  · have hstored := h.stored s
    rw [chargedSince, hpending] at hstored
    exact hstored

theorem chargedWithin_eq {s t : K} (h : ∀ c ∈ w.charges, c.returned ≤ t) :
    w.chargedWithin s t = ((w.charges.filter fun c => s ≤ c.obtained).map Charge.quantity).sum := by
  rw [chargedWithin]
  congr 2
  refine filter_congr fun c hc => ?_
  rw [decide_eq_decide]
  exact and_iff_left (h c hc)

variable [IsStrictOrderedRing K]

theorem le_drain (rate : K) (a : Account K K) (now : K) :
    a.consumed + rate * a.lastUpdate ≤ (a.drain exactClock rate now).consumed + rate * now := by
  have := le_max_right 0 (a.consumed - (now - a.lastUpdate) * rate)
  rw [consumed_drain]
  linarith

theorem Metered.stored_charge (h : Metered w) (hh : w.holder = some ⟨q, obtained, .entered⟩)
    (phase : Phase K) (hphase : phase ≠ .entered) (s : K) :
    let w' := { w with
      inner := ⟨(w.inner.drain exactClock w.allowedPerSec w.clock).consumed + q, w.clock⟩
      holder := some ⟨q, obtained, phase⟩ }
    w'.chargedSince s = [] ∨ w'.allowedPerSec * s + (w'.chargedSince s).sum ≤
      w'.inner.consumed + w'.allowedPerSec * w'.inner.lastUpdate := by
  intro w'
  have hcharged : w'.chargedSince s = w.chargedSince s ++ if s ≤ obtained then [q] else [] := by
    rw [chargedSince, chargedSince, pending, pending, hh,
      append_nil]
    cases phase with
    | entered => exact absurd rfl hphase
    | asleep | finished => rfl
  have hok := h.holds _ hh
  have hq : 0 ≤ q := hok.1
  have hdrain := le_drain w.allowedPerSec w.inner w.clock
  have hzero := drain_nonneg w.allowedPerSec w.inner w.clock
  rw [hcharged]
  by_cases hs : s ≤ obtained
  · have hsclock : w.allowedPerSec * s ≤ w.allowedPerSec * w.clock :=
      mul_le_mul_of_nonneg_left (hs.trans hok.2.1) h.rate_pos.le
    simp only [hs, if_true, sum_append, sum_singleton]
    rcases h.stored s with hnil | hsum
    · rw [hnil, sum_nil]
      exact .inr (by linarith)
    · exact .inr (by linarith)
  simp only [hs, if_false, append_nil]
  rcases h.stored s with hnil | hsum
  · exact .inl hnil
  · exact .inr (by linarith)

theorem Metered.charge (h : Metered w) (hh : w.holder = some ⟨q, obtained, .entered⟩) :
    Metered (w.charge exactClock ⟨q, obtained, .entered⟩) := by
  have hok := h.holds _ hh
  have hpos := h.rate_pos
  have hq : 0 ≤ q := hok.1
  have hzero := drain_nonneg w.allowedPerSec w.inner w.clock
  unfold Renewable.charge
  simp only []
  split
  · refine ⟨hpos, add_nonneg hzero hq, le_refl _, ?_, h.past,
      h.stored_charge hh _ (fun hc => by cases hc), h.within⟩
    intro hd hmem
    cases hmem
    -- At the end of the sleep the excess has drained.
    have hend : ∀ x, x - w.allowedPerSec ≤ w.allowedPerSec *
        (w.clock + (x - w.allowedPerSec) / w.allowedPerSec - w.clock) := by
      intro x
      rw [add_sub_cancel_left, mul_div_cancel₀ _ hpos.ne']
    exact ⟨hq, hok.2.1, hend _⟩
  next hle =>
    refine ⟨hpos, add_nonneg hzero hq, le_refl _, ?_, h.past,
      h.stored_charge hh _ (fun hc => by cases hc), h.within⟩
    intro hd hmem
    cases hmem
    exact ⟨hq, hok.2.1, not_lt.mp hle⟩

theorem Metered.wake (h : Metered w) {d : K} (hh : w.holder = some ⟨q, obtained, .asleep d⟩)
    (hd : d ≤ w.clock) : Metered (w.wake exactClock ⟨q, obtained, .asleep d⟩) := by
  have hok := h.holds _ hh
  have hpos := h.rate_pos
  have hdrain := le_drain w.allowedPerSec w.inner w.clock
  refine ⟨hpos, drain_nonneg _ _ _, le_refl _, ?_, h.past, fun s => ?_, h.within⟩
  · intro hd' hmem
    cases hmem
    refine ⟨hok.1, hok.2.1, ?_⟩
    have hslept : w.inner.consumed - w.allowedPerSec ≤ w.allowedPerSec * (d - w.inner.lastUpdate) :=
      hok.2.2
    have hle := mul_le_mul_of_nonneg_left (sub_le_sub_right hd w.inner.lastUpdate) hpos.le
    change (w.inner.drain exactClock w.allowedPerSec w.clock).consumed ≤ w.allowedPerSec
    rw [consumed_drain]
    exact max_le hpos.le (by linarith)
  · have hsame : (w.wake exactClock ⟨q, obtained, .asleep d⟩).chargedSince s =
        w.chargedSince s := by
      rw [chargedSince, chargedSince, pending, pending, hh]
      rfl
    rw [hsame]
    rcases h.stored s with hnil | hsum
    · exact .inl hnil
    · exact .inr (hsum.trans hdrain)

theorem Metered.ret (h : Metered w) (hh : w.holder = some ⟨q, obtained, .finished⟩) :
    Metered (w.ret ⟨q, obtained, .finished⟩) := by
  have hok := h.holds _ hh
  have hpos := h.rate_pos
  have hsame : ∀ s, (w.ret ⟨q, obtained, .finished⟩).chargedSince s = w.chargedSince s := by
    intro s
    rw [Renewable.chargedSince, Renewable.chargedSince, Renewable.pending, Renewable.pending, hh]
    simp only [Renewable.ret, filter_append, map_append, append_nil]
    by_cases hs : s ≤ obtained
    · simp [hs]
    · simp [hs]
  have hpast : ∀ c ∈ (w.ret ⟨q, obtained, .finished⟩).charges, c.returned ≤ w.clock := by
    intro c hc
    rcases mem_append.mp hc with hc | hc
    · exact h.past c hc
    · rw [mem_singleton.mp hc]
  refine ⟨hpos, h.nonneg, h.updated, ?_, hpast, fun s => ?_, fun s t hst => ?_⟩
  · intro hd hmem
    cases hmem
  · rw [hsame]
    exact h.stored s
  · by_cases ht : w.clock ≤ t
    · -- All of it has returned, and not more than a second's worth is stored.
      rw [chargedWithin_eq fun c hc => (hpast c hc).trans ht]
      have hst' := mul_le_mul_of_nonneg_left hst hpos.le
      have hstored := h.stored s
      have hnone : (w.ret ⟨q, obtained, .finished⟩).pending s = [] := rfl
      rw [← hsame, Renewable.chargedSince, hnone, append_nil] at hstored
      rcases hstored with hnil | hsum
      · rw [hnil, sum_nil]
        change 0 ≤ w.allowedPerSec * (t - s) + w.allowedPerSec
        linarith
      have hfull : w.inner.consumed ≤ w.allowedPerSec := hok.2.2
      have hlast := mul_le_mul_of_nonneg_left (h.updated.trans ht) hpos.le
      change _ ≤ w.allowedPerSec * (t - s) + w.allowedPerSec
      linarith
    · have hsame : (w.ret ⟨q, obtained, .finished⟩).chargedWithin s t = w.chargedWithin s t := by
        simp [Renewable.chargedWithin, Renewable.ret, filter_append, ht]
      rw [hsame]
      exact h.within s t hst

theorem metered_start (hr : 0 < rate) (h : Renewable.Start rate w) : Metered w := by
  have hsince : ∀ s, w.chargedSince s = [] := by
    intro s
    rw [chargedSince, pending, h.charges, h.holder]
    rfl
  refine ⟨by rw [h.rate]; exact hr, h.consumed.ge, h.lastUpdate, ?_, ?_, fun s => .inl (hsince s),
    ?_⟩
  · intro hd hmem
    rw [h.holder] at hmem
    cases hmem
  · intro c hc
    rw [h.charges] at hc
    cases hc
  · intro s t hst
    have hst' := mul_le_mul_of_nonneg_left hst hr.le
    rw [chargedWithin, h.charges, h.rate]
    change 0 ≤ rate * (t - s) + rate
    linarith

theorem metered_step {a : Action K K} (h : Metered w) (hq : Charges w a)
    (hstep : w.step exactClock a = some w') : Metered w' := by
  cases step_moves hstep with
  | tick _ hle => exact h.tick hle
  | lock q hfree => exact h.lock hfree hq
  | charge q s hh => exact h.charge hh
  | wake q s d hh hd => exact h.wake hh hd
  | ret q s hh => exact h.ret hh

/-- With exact numbers and any callers, a call returns with at most a second's worth
    stored, and what is charged within an interval is at most what the rate allows and a
    second's worth. -/
theorem rate_enforced (hr : 0 < rate)
    (h : Runs (Renewable.Start rate) (step exactClock) Charges w) :
    (∀ w', w.step exactClock .ret = some w' → w'.inner.consumed ≤ rate) ∧
      ∀ s t, s ≤ t → w.chargedWithin s t ≤ rate * (t - s) + rate := by
  have hinv : Metered w ∧ w.allowedPerSec = rate := by
    refine runs_inv (I := fun w => Metered w ∧ w.allowedPerSec = rate) ?_ ?_ w h
    · exact fun w h => ⟨metered_start hr h, h.rate⟩
    · exact fun w a w' h hq hstep =>
        ⟨metered_step h.1 hq hstep, (step_moves hstep).allowedPerSec.trans h.2⟩
  rcases hinv with ⟨hw, hrate⟩
  constructor
  · intro w' hstep
    cases step_moves hstep with
    | ret q s hh => exact hrate ▸ (hw.holds _ hh).2.2
  · rw [← hrate]
    exact hw.within

/-- A resource with ten units a second. -/
def tenPerSec : Renewable ℚ ℚ :=
  ⟨10, ⟨0, 0⟩, false, 0, none, []⟩

/-- Two calls charge eight units each at once; the second sleeps for more than half a
    second. -/
def twoCharges : List (Action ℚ ℚ) :=
  [.lock 8, .charge, .ret, .lock 8, .charge, .tick (3 / 5), .wake, .ret]

theorem rate_enforced_twoCharges :
    ∃ w : Renewable ℚ ℚ, Runs (Renewable.Start 10) (step exactClock) Charges w ∧
      w.chargedWithin 0 1 = 16 ∧ w.chargedWithin 0 1 ≤ 10 * (1 - 0) + 10 := by
  have hcond : ∀ a ∈ twoCharges, ∀ w, Charges w a := by
    intro a ha w
    simp only [twoCharges, mem_cons, not_mem_nil, or_false] at ha
    rcases ha with rfl | rfl | rfl | rfl | rfl | rfl | rfl | rfl
    all_goals first
      | exact trivial
      | (change (0 : ℚ) ≤ 8
         norm_num)
  have hrun : ∃ w : Renewable ℚ ℚ,
      Runs (Renewable.Start 10) (step exactClock) Charges w ∧ w.chargedWithin 0 1 = 16 :=
    exists_runs_of_forall hcond (.start tenPerSec ⟨rfl, rfl, le_refl _, rfl, rfl, rfl⟩)
      (by decide +kernel)
  rcases hrun with ⟨w, hw, hsum⟩
  exact ⟨w, hw, hsum, (rate_enforced (by norm_num) hw).2 0 1 (by norm_num)⟩

end LindGrates.Resource
