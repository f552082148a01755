import LindGrates.Base.Double
import LindGrates.Theory.Resource.Rate
import Mathlib.Tactic.Ring

/-!
# Rates the Grate Survives

A rate may be any number that can be read from a configuration. The sleep after a charge
is computed by dividing by it, and `Duration::from_secs_f64` panics if the result is
negative, infinite, not a number or too large. The panic happens with the lock held, so
every later charge to the resource panics too.

## Main definitions

* `Bears`: The rate is never exceeded, since it is infinite or not a number; or it is
  positive, and what is stored and charged is not out of all proportion to it.

## Theorems

* `survives`: No lock is poisoned as long as the charges can be borne.
* `poisons`: Rates that poison the lock.
-/

namespace LindGrates.Resource

open LawfulDouble Renewable

variable {F τ : Type} [Zero F] [Add F] [Sub F] [Mul F] [Div F] [LT F] [LawfulDouble F]

/-- Time that has passed is a number and not negative, and a sleep of less than
    146 billion years has an end. -/
structure LawfulClock (κ : Clock F τ) : Prop where
  since : ∀ now earlier, ∃ x, val (κ.since now earlier) = .real x ∧ 0 ≤ x
  after : ∀ now secs x, val secs = .real x → 0 ≤ x → x ≤ 2 ^ 62 → (κ.after now secs).isSome = true

/-- The rate is not a number or infinite; or it is positive, and what is stored and
    charged takes less than 36 billion years to drain. -/
def Bears (w : Renewable F τ) (q : F) : Prop :=
  val w.allowedPerSec = .nan ∨ val w.allowedPerSec = .posInf ∨
    ∃ r c x, val w.allowedPerSec = .real r ∧ val w.inner.consumed = .real c ∧ val q = .real x ∧
      0 < r ∧ 0 ≤ x ∧ c + x ≤ 2 ^ 60 * r ∧ c + x ≤ 2 ^ 999

def Bearable (w : Renewable F τ) : Action F τ → Prop
  | .lock q => Bears w q
  | _ => True

structure Sound (w : Renewable F τ) : Prop where
  sound : w.poisoned = false
  stored : ∀ r, val w.allowedPerSec = .real r → 0 < r →
    ∃ c, val w.inner.consumed = .real c ∧ 0 ≤ c
  entered : ∀ h ∈ w.holder, h.phase = .entered → Bears w h.quantity

variable {κ : Clock F τ} {w w' : Renewable F τ} {h : Holder F τ}

theorem not_rate_lt {a b : F} (h : val a = .nan ∨ val a = .posInf) : ¬a < b := by
  rw [lt_iff]
  rcases h with h | h
  · rw [h]
    exact Bool.false_ne_true
  rw [h]
  cases val b with
  | nan | negInf | posInf | real => exact Bool.false_ne_true

variable [DecidableLT F]

theorem val_drain (hκ : LawfulClock κ) {a : Account F τ} {rate : F} {r c : ℚ}
    (hr : val rate = .real r) (hpos : 0 < r) (hc : val a.consumed = .real c) (hc0 : 0 ≤ c)
    (now : τ) : ∃ c', val (a.drain κ rate now).consumed = .real c' ∧ 0 ≤ c' ∧ c' ≤ c := by
  rcases hκ.since now a.lastUpdate with ⟨e, he, he0⟩
  unfold Account.drain
  simp only []
  split
  · exact ⟨0, val_zero, le_refl 0, hc0⟩
  rename_i hge
  rw [lt_iff, val_zero] at hge
  rcases LawfulDouble.mul he hr he0 hpos.le with hinf | ⟨z, hz, hz0⟩
  · rw [sub_posInf hc hinf] at hge
    exact absurd rfl hge
  rcases LawfulDouble.sub hc hz hc0 hz0 with ⟨y, hy, hle, _⟩
  rw [hy] at hge
  exact ⟨y, hy, not_lt.mp fun hneg => hge (decide_eq_true hneg), hle⟩

/-- A charge that can be borne is not the end: the account is a number, and the call goes
    to sleep or is finished. -/
theorem charge_cases (hκ : LawfulClock κ) (hw : Sound w) (hb : Bears w h.quantity) :
    (w.charge κ h).poisoned = false ∧
      (∃ phase, phase ≠ .entered ∧ (w.charge κ h).holder = some { h with phase := phase }) ∧
      ∀ r, val w.allowedPerSec = .real r → 0 < r →
        ∃ c, val (w.charge κ h).inner.consumed = .real c ∧ 0 ≤ c := by
  unfold charge
  simp only []
  rcases hb with hnan | hinf | ⟨r, c, x, hr, hc, hx, hpos, hx0, hle, hhuge⟩
  · rw [if_neg (not_rate_lt (.inl hnan))]
    refine ⟨hw.sound, ⟨_, (fun h => by cases h), rfl⟩, fun r hr => ?_⟩
    cases hnan.symm.trans hr
  · rw [if_neg (not_rate_lt (.inr hinf))]
    refine ⟨hw.sound, ⟨_, (fun h => by cases h), rfl⟩, fun r hr => ?_⟩
    cases hinf.symm.trans hr
  rcases hw.stored r hr hpos with ⟨c0, hc₀, hc0⟩
  cases hc.symm.trans hc₀
  rcases val_drain hκ hr hpos hc hc0 w.clock with ⟨d, hd, hd0, hdle⟩
  have hbound : (2 : ℚ) ^ 999 ≤ 2 ^ 1000 := pow_le_pow_right₀ (by norm_num) (by norm_num)
  rcases LawfulDouble.add hd hx hd0 hx0
    ((add_le_add_left hdle x).trans (hhuge.trans hbound)) with ⟨y, hy, hy0, hyle⟩
  have hstored : ∀ r', val w.allowedPerSec = .real r' → 0 < r' → ∃ c', val
      ((w.inner.drain κ w.allowedPerSec w.clock).consumed + h.quantity) = .real c' ∧ 0 ≤ c' :=
    fun _ _ _ => ⟨y, hy, hy0⟩
  split
  next hover =>
    -- The excess is a positive number, and so is the time it takes to drain.
    have hry : r < y := by
      rw [lt_iff, hr, hy] at hover
      exact of_decide_eq_true hover
    rcases LawfulDouble.sub hy hr hy0 hpos.le with ⟨z, hz, hzle, hz0⟩
    have hquot : z / r ≤ 2 ^ 61 := by
      rw [div_le_iff₀ hpos]
      have : (2 : ℚ) ^ 61 * r = 2 * (2 ^ 60 * r) := by ring
      linarith
    have hfar : (2 : ℚ) ^ 61 ≤ 2 ^ 1000 := pow_le_pow_right₀ (by norm_num) (by norm_num)
    rcases LawfulDouble.div hz hr (hz0 hry.le) hpos (hquot.trans hfar) with ⟨s, hs, hs0, hsle⟩
    have hend := hκ.after w.clock _ s hs hs0 (by linarith)
    rcases Option.isSome_iff_exists.mp hend with ⟨deadline, hdeadline⟩
    unfold Account.sleepSecs
    simp only [hdeadline]
    exact ⟨hw.sound, ⟨_, (fun h => by cases h), rfl⟩, hstored⟩
  · exact ⟨hw.sound, ⟨_, (fun h => by cases h), rfl⟩, hstored⟩

theorem sound_step [LE τ] [DecidableLE τ] (hκ : LawfulClock κ) {a : Action F τ} (hw : Sound w)
    (hb : Bearable w a) (hstep : w.step κ a = some w') : Sound w' := by
  have hrate := (step_moves hstep).allowedPerSec
  cases step_moves hstep with
  | tick => exact ⟨hw.sound, hw.stored, hw.entered⟩
  | lock =>
    refine ⟨hw.sound, hw.stored, fun h hh _ => ?_⟩
    cases hh
    exact hb
  | charge q s hh =>
    rcases charge_cases hκ hw (hw.entered _ hh rfl) with ⟨hsound, ⟨phase, hne, hphase⟩, hstored⟩
    refine ⟨hsound, ?_, fun h hmem hent => ?_⟩
    · rw [hrate]
      exact hstored
    · cases hphase.symm.trans hmem
      exact absurd hent hne
  | wake q s d =>
    refine ⟨hw.sound, fun r hr hpos => ?_, fun h hmem hent => ?_⟩
    · rcases hw.stored r hr hpos with ⟨c, hc, hc0⟩
      rcases val_drain hκ hr hpos hc hc0 w.clock with ⟨d, hd, hd0, _⟩
      exact ⟨d, hd, hd0⟩
    · cases hmem
      cases hent
  | ret =>
    refine ⟨hw.sound, hw.stored, fun h hmem _ => ?_⟩
    cases hmem

/-! ## Returning -/

variable [LinearOrder τ]

/-- A run of the call with the lock to its end. -/
def Returns (κ : Clock F τ) (w : Renewable F τ) : Prop :=
  ∃ as w', replay (Renewable.step κ) (fun _ _ => True) w as = some w' ∧
    w'.charges.length = w.charges.length + 1

omit [LawfulDouble F] in
theorem returns_finished (hh : w.holder = some { h with phase := .finished }) : Returns κ w := by
  refine ⟨[.ret], w.ret { h with phase := .finished }, ?_, ?_⟩
  · simp only [replay, if_true, step, hh, Option.bind_some]
  · rw [ret, List.length_append]
    rfl

omit [LawfulDouble F] in
theorem Returns.of_step {a : Action F τ} (hstep : w.step κ a = some w')
    (hlen : w'.charges = w.charges) (h : Returns κ w') : Returns κ w := by
  rcases h with ⟨as, w1, has, hw1⟩
  refine ⟨a :: as, w1, ?_, by rw [hw1, hlen]⟩
  rw [replay, if_pos trivial, hstep]
  exact has

omit [LawfulDouble F] in
theorem returns_asleep {d : τ} (hh : w.holder = some { h with phase := .asleep d }) :
    Returns κ w := by
  have htick : w.step κ (.tick (max w.clock d)) = some { w with clock := max w.clock d } :=
    if_pos (le_max_left _ _)
  have hwake : ({ w with clock := max w.clock d } : Renewable F τ).step κ .wake =
      some (({ w with clock := max w.clock d } : Renewable F τ).wake κ
        { h with phase := .asleep d }) := by
    simp only [step, hh, Option.bind_some, le_max_right, if_true]
  exact .of_step htick rfl (.of_step hwake rfl (returns_finished (h := h) rfl))

theorem returns_holder (hκ : LawfulClock κ) (hw : Sound w) (hh : w.holder = some h) :
    Returns κ w := by
  rcases h with ⟨q, s, phase⟩
  cases phase with
  | asleep => exact returns_asleep (h := ⟨q, s, .entered⟩) hh
  | finished => exact returns_finished (h := ⟨q, s, .entered⟩) hh
  | entered =>
    rcases charge_cases hκ hw (hw.entered _ hh rfl) with ⟨_, ⟨phase, hne, hphase⟩, _⟩
    have hstep : w.step κ .charge = some (w.charge κ ⟨q, s, .entered⟩) := by
      simp only [step, hh, Option.bind_some]
    have hsame : (w.charge κ ⟨q, s, .entered⟩).charges = w.charges := by
      unfold charge
      simp only []
      split
      · split
        · rfl
        · rfl
      · rfl
    refine .of_step hstep hsame ?_
    cases phase with
    | entered => exact absurd rfl hne
    | asleep => exact returns_asleep (h := ⟨q, s, .entered⟩) hphase
    | finished => exact returns_finished (h := ⟨q, s, .entered⟩) hphase

/-- As long as the charges can be borne, no lock is poisoned and every call with the lock
    gets to its end. -/
theorem survives (hκ : LawfulClock κ) {rate : F}
    (h : Runs (Renewable.Start rate) (Renewable.step κ) Bearable w) :
    w.poisoned = false ∧ ∀ hd, w.holder = some hd → Returns κ w := by
  have hw : Sound w := by
    refine runs_inv ?_ (fun _ _ _ => sound_step hκ) w h
    intro w hs
    refine ⟨hs.poisoned, fun r _ _ => ⟨0, by rw [hs.consumed, val_zero], le_refl 0⟩, ?_⟩
    intro hd hmem
    rw [hs.holder] at hmem
    cases hmem
  exact ⟨hw.sound, fun hd hh => returns_holder hκ hw hh⟩

/-- `tattle_add_item` and `tattle_remove_item` always return, and they keep a count within
    its limit. -/
theorem Fungible.within_limit {r : Fungible} (h : r.count ≤ r.limit) :
    (∀ r', r.tattleAddItem = some r' → r'.count ≤ r'.limit) ∧
      r.tattleRemoveItem.count ≤ r.tattleRemoveItem.limit := by
  refine ⟨fun r' hadd => ?_, (Nat.sub_le r.count 1).trans h⟩
  rw [tattleAddItem] at hadd
  split at hadd
  · cases hadd
  rename_i hroom
  cases hadd
  exact Nat.lt_of_not_le hroom

/-! ## Concrete rates -/

/-- A clock in seconds that can hold what `Duration` can. -/
def plainClock : Clock Val ℚ where
  since now earlier := .real (max 0 (now - earlier))
  after now secs :=
    match secs with
    | .real x => if 0 ≤ x ∧ x < 2 ^ 64 then some (now + x) else none
    | _ => none

theorem lawful_plainClock : LawfulClock plainClock where
  since _ _ := ⟨_, rfl, le_max_left _ _⟩
  after := by
    rintro now _ x rfl hx hle
    have hlt : x < 2 ^ 64 := lt_of_le_of_lt hle (by norm_num)
    change (if 0 ≤ x ∧ x < 2 ^ 64 then some (now + x) else none).isSome = true
    rw [if_pos ⟨hx, hlt⟩]
    rfl

def resourceOf (rate : Val) : Renewable Val ℚ :=
  ⟨rate, ⟨0, 0⟩, false, 0, none, []⟩

theorem resourceOf_start (rate : Val) : Renewable.Start rate (resourceOf rate) :=
  ⟨rfl, rfl, le_refl _, rfl, rfl, rfl⟩

theorem survives_small :
    ∃ w, Runs (Renewable.Start (.real (1 / 1000))) (Renewable.step plainClock) Bearable w ∧
      w.holder.isSome = true ∧ w.poisoned = false := by
  have hsmall : (0 + 4096 : ℚ) ≤ 2 ^ 999 := by
    rw [show (0 + 4096 : ℚ) = 2 ^ 12 by norm_num]
    exact pow_le_pow_right₀ (by norm_num) (by norm_num)
  have hbear : Bearable (resourceOf (.real (1 / 1000))) (.lock (.real 4096)) :=
    .inr (.inr ⟨1 / 1000, 0, 4096, rfl, rfl, rfl, by norm_num, by norm_num, by norm_num, hsmall⟩)
  have hstart : Runs (Renewable.Start (.real (1 / 1000))) (step plainClock) Bearable
      (resourceOf (.real (1 / 1000))) := .start _ (resourceOf_start _)
  have hlock := Runs.next _ _ _ hstart hbear rfl
  have hcharge := Runs.next _ Action.charge _ hlock trivial rfl
  exact ⟨_, hcharge, by decide +kernel, (survives lawful_plainClock hcharge).1⟩

/-- The first charge to a resource with the rate zero poisons its lock; with a negative
    rate it is enough to ask. -/
theorem poisons :
    (∃ w, Runs (Renewable.Start 0) (Renewable.step plainClock) (fun _ _ => True) w ∧
      w.poisoned = true) ∧
    ∃ w, Runs (Renewable.Start (.real (-1))) (Renewable.step plainClock) (fun _ _ => True) w ∧
      w.poisoned = true := by
  constructor
  · exact exists_runs_replay [.lock (.real 4096), .charge] (resourceOf_start 0) (by decide +kernel)
  · exact exists_runs_replay [.lock 0, .charge] (resourceOf_start _) (by decide +kernel)

end LindGrates.Resource
