import LindGrates.Base.Run
import LindGrates.Theory.FsClamp.Steps

/-!
# The Wiring of a Target

Inner grates ask for handlers, and when a target gets its own, the last request
for each call is registered again, under a number of its own. The numbers are
counted up from 3000. Nothing keeps an inner grate from asking for a handler on
the clamp's own cage under such a number.

## Main definitions

* `Wired`: The clamp with the handlers the system has put in place.
* `Apart`: No handler is asked for under a number that may be handed out.

## Theorems

* `target_wired`: Under that condition a target gets the calls asked for.
* `number_taken`: Without it a number has two handlers.
-/

namespace LindGrates.FsClamp

open Dialogue Function List Nat Option

/-- What the system still replies, the handlers it has for the numbers of the clamp's cage, and
    for which calls of a cage it has the clamp's. -/
structure Ledger where
  replies : List Int
  bound : Nat → List (Nat × Nat)
  visible : Nat → Sys → Bool

def Ledger.accept (nsCage : Nat) (x : Ledger) : Ask → Ledger
  | .registerAlt grateId handlerFn alt =>
    { x with bound := update x.bound alt ((grateId, handlerFn) :: x.bound alt) }
  | .registerNs cage sys =>
    { x with visible := update x.visible cage (update (x.visible cage) sys true) }
  | .register r =>
    { x with
      bound := fun nr => if r.targetCage = nsCage ∧ r.sys = .other nr
        then (r.grateId, r.handlerFn) :: x.bound nr else x.bound nr
      visible := update x.visible r.targetCage (update (x.visible r.targetCage) r.sys false) }
  | _ => x

def Ledger.serve (nsCage : Nat) (x : Ledger) (q : Ask) : Option (Ledger × Int) :=
  match x.replies with
  | [] => none
  | ret :: replies => some ({ if ret = 0 then x.accept nsCage q else x with replies }, ret)

/-- An inner grate registers a handler, or a target gets its handlers. -/
inductive Registration
  | register (request : Interposition)
  | target (cage : Nat)

structure Wired (T : Type) where
  state : State T
  ledger : Ledger

variable {T : Type}

namespace Wired

/-- A registration, with what the system replies, and its result. -/
def call (w : Wired T) (replies : List Int) (a : Registration) : Option (Wired T × Int) :=
  let d := match a with
    | .register request => registerHandlerHandler w.state request
    | .target cage => registerTargetHandlers w.state cage
  (d.run (Ledger.serve w.state.nsCageId) { w.ledger with replies }).map fun r =>
    (⟨r.2.1, r.1⟩, r.2.2)

def step (w : Wired T) (a : List Int × Registration) : Option (Wired T) :=
  (w.call a.1 a.2).map Prod.fst

def Start (w : Wired T) : Prop :=
  w.state.interpositionMap = [] ∧ w.state.altAllocator = 3000 ∧
    w.state.routes = (fun _ _ => none) ∧ w.ledger.bound = fun _ => []

/-- No handler is asked for on the clamp's cage under a number that may be handed out. -/
def Apart (w : Wired T) (a : List Int × Registration) : Prop :=
  ∀ r nr, a.2 = .register r → r.targetCage = w.state.nsCageId → r.sys = .other nr → nr < 3000

end Wired

/-- The requests for a call of a cage. -/
def State.requests (s : State T) (cage : Nat) (sys : Sys) : List Interposition :=
  s.interpositionMap.filter fun r => r.targetCage = cage ∧ r.sys = sys

/-- The numbers that are still to be handed out have no handler and the others one at most, and
    where there is a route there is a request. -/
structure Wiring (s : State T) (bound : Nat → List (Nat × Nat)) : Prop where
  low : 3000 ≤ s.altAllocator
  fresh : ∀ nr, s.altAllocator ≤ nr → bound nr = []
  single : ∀ nr, 3000 ≤ nr → (bound nr).length ≤ 1
  routed : ∀ c sys, s.routes c sys ≠ none → s.requests c sys ≠ []

/-- The last request for a call is registered under the number of its route, and the handler of
    the cage is the clamp's. -/
def Wires (cage : Nat) (sys : Sys) (s : State T) (x : Ledger) : Prop :=
  x.visible cage sys = true ∧ ∀ r, (s.requests cage sys).getLast? = some r →
    ∃ alt < s.altAllocator, s.routes cage sys = some alt ∧
      x.bound alt = [(r.grateId, r.handlerFn)]

structure Loops (cage : Nat) (calls : List Sys) (s : State T) (x x' : Ledger)
    (r : State T × Int) : Prop where
  wiring : Wiring r.1 x'.bound
  registers : Registers cage s r.1
  le : s.altAllocator ≤ r.1.altAllocator
  bound : ∀ nr < s.altAllocator, x'.bound nr = x.bound nr
  visible : ∀ sys, x.visible cage sys = true → x'.visible cage sys = true
  kept : ∀ sys ∉ calls, r.1.routes cage sys = s.routes cage sys
  wired : r.2 = 0 → ∀ sys ∈ calls, Wires cage sys r.1 x'

variable {s : State T} {x x' : Ledger} {cage nsCage : Nat} {sys : Sys} {ret : Int}

theorem getInterpositionRequest_eq : s.getInterpositionRequest cage sys =
    (s.requests cage sys).getLast?.map fun r => (r.grateId, r.handlerFn) := by
  rw [State.getInterpositionRequest, findRev?_eq_find?_reverse, ← head?_filter, filter_reverse,
    head?_reverse]
  rfl

theorem Registers.requests {s' : State T} (h : Registers cage s s') :
    s'.requests cage sys = s.requests cage sys := by
  rw [h.same]
  rfl

theorem serve_eq_some {q : Ask} (h : x.serve nsCage q = some (x', ret)) :
    x' = { if ret = 0 then x.accept nsCage q else x with replies := x'.replies } := by
  unfold Ledger.serve at h
  split at h
  · cases h
  · cases h
    rfl

theorem loops_visible (h : Wiring s x.bound)
    (hroute : ∀ r, (s.requests cage sys).getLast? = some r → ∃ alt < s.altAllocator,
      s.routes cage sys = some alt ∧ x.bound alt = [(r.grateId, r.handlerFn)]) :
    Ensures (Ledger.serve nsCage) (registerVisible s cage sys) x (Loops cage [sys] s x) := by
  refine ensures_ask fun x' ret hserve => ensures_done ?_
  have hx' := serve_eq_some hserve
  have hbound : x'.bound = x.bound := by
    rw [hx']
    dsimp only
    split <;> rfl
  have hvis : x'.visible cage =
      if ret = 0 then update (x.visible cage) sys true else x.visible cage := by
    rw [hx']
    dsimp only
    split <;> simp [Ledger.accept]
  refine ⟨hbound ▸ h, .refl cage s, le_refl _, fun nr _ => congrFun hbound nr,
    fun sys' hv => ?_, fun _ _ => rfl, fun hcode sys' hsys => ?_⟩
  · rw [hvis]
    split <;> simp [update_apply, hv]
  rw [mem_singleton.mp hsys]
  refine ⟨?_, hbound ▸ hroute⟩
  split at hcode
  next hret => rw [hvis, if_pos hret, update_self]
  · cases hcode

/-- The next number gets a handler, and a call the number. -/
theorem Wiring.alloc (h : Wiring s x.bound) {handler : Nat × Nat}
    (hreq : s.requests cage sys ≠ []) :
    Wiring ({ s with altAllocator := s.altAllocator + 1 }.setRoute cage sys s.altAllocator)
      (update x.bound s.altAllocator (handler :: x.bound s.altAllocator)) := by
  refine ⟨le_succ_of_le h.low, fun nr hnr => ?_, fun nr hnr => ?_, fun c sys' hroute => ?_⟩
  · rw [update_of_ne (ne_of_gt hnr)]
    exact h.fresh nr (le_of_succ_le hnr)
  · rw [update_apply]
    split
    · rw [h.fresh _ (le_refl _)]
      rfl
    · exact h.single nr hnr
  · by_cases heq : c = cage ∧ sys' = sys
    · rw [heq.1, heq.2]
      exact hreq
    refine h.routed c sys' fun hnone => hroute ?_
    simp only [State.setRoute, update_apply]
    split
    next hc => rw [update_of_ne fun hsys => heq ⟨hc, hsys⟩, ← hc, hnone]
    · exact hnone

theorem loops_one (h : Wiring s x.bound) (cage : Nat) (hsys : sys ∈ fsCalls) :
    Ensures (Ledger.serve nsCage) (registerOne s cage sys) x (Loops cage [sys] s x) := by
  unfold registerOne
  split
  next grateId handlerFn hreq =>
    rw [getInterpositionRequest_eq] at hreq
    rcases map_eq_some_iff.mp hreq with ⟨q, hlast, hq⟩
    refine ensures_request fun x1 ret hserve => ?_
    have hx1 := serve_eq_some hserve
    split
    next hret =>
      -- a refused registration uses up its number
      rw [if_neg hret] at hx1
      rw [hx1]
      have hw : Wiring { s with altAllocator := s.altAllocator + 1 } x.bound :=
        { h with
          low := le_succ_of_le h.low
          fresh := fun nr hnr => h.fresh nr (le_of_succ_le hnr) }
      exact ensures_done ⟨hw, ⟨rfl, fun _ _ => rfl, fun _ _ _ => rfl⟩, le_succ _,
        fun _ _ => rfl, fun _ => id, fun _ _ => rfl, fun hcode => absurd hcode hret⟩
    next hret =>
      rw [if_pos (not_not.mp hret)] at hx1
      have hb : x1.bound = _ := congrArg Ledger.bound hx1
      refine ensures_mono (loops_visible (hb ▸ h.alloc (ne_nil_of_mem (mem_of_getLast? hlast)))
        fun q' hlast' => ?_) fun x' r hl => ?_
      · cases hlast.symm.trans hlast'
        refine ⟨s.altAllocator, lt_succ_self _, by simp [State.setRoute], ?_⟩
        simp [hb, Ledger.accept, h.fresh, hq]
      · refine ⟨hl.wiring, (registers_setRoute s cage hsys).trans hl.registers,
          le_of_succ_le hl.le, fun nr hnr => ?_, fun sys' hv => hl.visible sys' ?_,
          fun sys' hsys => ?_, hl.wired⟩
        · rw [hl.bound nr (Nat.lt_succ_of_lt hnr), hb]
          exact update_of_ne (Nat.ne_of_lt hnr) ..
        · rw [hx1]
          exact hv
        · rw [hl.kept sys' hsys]
          simp [State.setRoute, update_of_ne (fun heq => hsys (mem_singleton.mpr heq))]
  next hreq =>
    rw [getInterpositionRequest_eq, map_eq_none_iff] at hreq
    exact loops_visible h fun q hlast => absurd (hreq.symm.trans hlast) nofun

/-- The loop over the calls, by induction on those that are left. A call that comes again is
    wired again, and one that does not keeps its route. -/
theorem loops_all (cage : Nat) {calls : List Sys} (hcalls : calls ⊆ fsCalls) :
    ∀ {s : State T} {x : Ledger}, Wiring s x.bound →
      Ensures (Ledger.serve nsCage) (registerAll cage calls s) x (Loops cage calls s x) := by
  induction calls with
  | nil =>
    intro s x h
    refine ensures_ask fun x' ret hserve => ensures_done ?_
    rw [serve_eq_some hserve]
    have hx : (if ret = 0 then x.accept nsCage (.registerDefaults cage) else x) = x := ite_self x
    rw [hx]
    exact ⟨h, .refl cage s, le_refl _, fun _ _ => rfl, fun _ => id, fun _ _ => rfl,
      fun _ => nofun⟩
  | cons sys rest ih =>
    intro s x h
    refine ensures_bind (loops_one h cage (hcalls (mem_cons_self ..))) fun x1 r h1 => ?_
    simp only []
    split
    next hcode =>
      refine ensures_mono (ih (subset_of_cons_subset hcalls) h1.wiring) fun x' r' h2 => ?_
      refine ⟨h2.wiring, h1.registers.trans h2.registers, le_trans h1.le h2.le,
        fun nr hnr => (h2.bound nr (lt_of_lt_of_le hnr h1.le)).trans (h1.bound nr hnr),
        fun sys' hv => h2.visible sys' (h1.visible sys' hv), fun sys' hsys => ?_,
        fun hcode' sys' hsys => ?_⟩
      · rw [mem_cons, not_or] at hsys
        rw [h2.kept sys' hsys.2, h1.kept sys' (mt mem_singleton.mp hsys.1)]
      by_cases hin : sys' ∈ rest
      · exact h2.wired hcode' sys' hin
      have heq : sys' = sys := (mem_cons.mp hsys).resolve_right hin
      rcases h1.wired hcode sys' (heq ▸ mem_singleton_self sys) with ⟨hvisible, hroute⟩
      refine ⟨h2.visible sys' hvisible, fun q hlast => ?_⟩
      rw [h2.registers.requests] at hlast
      rcases hroute q hlast with ⟨alt, hlt, halt, hbound⟩
      exact ⟨alt, lt_of_lt_of_le hlt h2.le, (h2.kept sys' hin).trans halt,
        (h2.bound alt hlt).trans hbound⟩
    next hcode =>
      refine ensures_done { h1 with
        kept := fun sys' hsys => h1.kept sys' fun hin => hsys ?_
        wired := fun hz => absurd hz hcode }
      exact mem_cons.mpr (.inl (mem_singleton.mp hin))

variable {w w' : Wired T}

theorem wiring_of_runs (h : Runs Wired.Start Wired.step Wired.Apart w) :
    Wiring w.state w.ledger.bound := by
  refine runs_inv (I := fun w => Wiring w.state w.ledger.bound) ?_ ?_ w h
  · rintro w ⟨-, halt, hroutes, hbound⟩
    refine ⟨halt.ge, fun _ _ => by rw [hbound], fun _ _ => ?_, fun c sys hne => absurd ?_ hne⟩
    · rw [hbound]
      exact zero_le _
    · rw [hroutes]
  rintro w ⟨replies, a⟩ w' hw hapart hstep
  rcases map_eq_some_iff.mp hstep with ⟨_, hcall, rfl⟩
  rcases map_eq_some_iff.mp hcall with ⟨⟨x, r⟩, hrun, rfl⟩
  rcases a with request | cage
  · have hreg : Ensures (Ledger.serve w.state.nsCageId) (registerHandlerHandler w.state request)
        { w.ledger with replies } fun x r => Wiring r.1 x.bound := by
      refine ensures_request fun x' ret hserve => ensures_done ?_
      have hbound : ∀ nr, 3000 ≤ nr → x'.bound nr = w.ledger.bound nr := by
        intro nr hnr
        rw [serve_eq_some hserve]
        dsimp only
        split
        · exact if_neg fun hc => not_lt.mpr hnr (hapart request nr rfl hc.1 hc.2)
        · rfl
      refine ⟨hw.low, fun nr hnr => ?_, fun nr hnr => ?_, fun c sys hne => ?_⟩
      · rw [hbound nr (le_trans hw.low hnr)]
        exact hw.fresh nr hnr
      · rw [hbound nr hnr]
        exact hw.single nr hnr
      · rw [State.requests, State.pushInterpositionRequest, filter_append]
        exact append_ne_nil_of_left_ne_nil (hw.routed c sys hne) _
    exact hreg x r hrun
  · exact (loops_all (x := { w.ledger with replies }) cage (Subset.refl _) hw x r hrun).wiring

/-- In every run without such a request no number has two registrations, and a target whose
    registration succeeds has a route for exactly the calls that were asked for, each under a new
    number with the last request for it, and the clamp's handler for all of them. The routes of
    other cages stay. -/
theorem target_wired (h : Runs Wired.Start Wired.step Wired.Apart w) :
    (∀ nr, 3000 ≤ nr → (w.ledger.bound nr).length ≤ 1) ∧
    ∀ cage replies, w.call replies (.target cage) = some (w', 0) →
      (∀ sys ∈ fsCalls,
        (w'.state.getRoute cage sys ≠ none ↔ w.state.requests cage sys ≠ []) ∧
        (∀ alt, w'.state.getRoute cage sys = some alt → ∃ r,
          (w.state.requests cage sys).getLast? = some r ∧
            w'.ledger.bound alt = [(r.grateId, r.handlerFn)]) ∧
        w'.ledger.visible cage sys = true) ∧
      ∀ c, c ≠ cage → w'.state.routes c = w.state.routes c := by
  have hw := wiring_of_runs h
  refine ⟨hw.single, fun cage replies hcall => ?_⟩
  rcases map_eq_some_iff.mp hcall with ⟨⟨x, r⟩, hrun, heq⟩
  rcases Prod.mk.inj heq with ⟨rfl, hcode⟩
  have hl := loops_all (x := { w.ledger with replies }) cage (Subset.refl _) hw x r hrun
  refine ⟨fun sys hsys => ?_, hl.registers.routes⟩
  rcases hl.wired hcode sys hsys with ⟨hvisible, hwires⟩
  have hrouted := hl.wiring.routed cage sys
  rw [hl.registers.requests] at hwires hrouted
  -- a route and a last request are there together
  have hlast : w.state.requests cage sys ≠ [] → ∃ r, getLast? _ = some r :=
    fun hne => ⟨_, getLast?_eq_some_getLast hne⟩
  refine ⟨⟨hrouted, fun hne => ?_⟩, fun alt halt => ?_, hvisible⟩
  · rcases hlast hne with ⟨q, hq⟩
    rcases hwires q hq with ⟨alt, _, halt, _⟩
    exact ne_none_iff_exists'.mpr ⟨alt, halt⟩
  · rcases hlast (hrouted (ne_none_iff_exists'.mpr ⟨alt, halt⟩)) with ⟨q, hq⟩
    rcases hwires q hq with ⟨alt', _, halt', hbound⟩
    cases halt'.symm.trans halt
    exact ⟨q, hq, hbound⟩

/-- A clamp whose cage is 1, and nothing registered. -/
def unwired : Wired (MapTables 16) :=
  ⟨loneWorld.state, ⟨[], fun _ => [], fun _ _ => false⟩⟩

theorem unwired_start : unwired.Start :=
  ⟨rfl, rfl, rfl, rfl⟩

/-- One request for cage 2, which is then wired. -/
theorem target_wired_read : ∃ w w' : Wired (MapTables 16),
    Runs Wired.Start Wired.step Wired.Apart w ∧
      w.call (replicate 59 0) (.target 2) = some (w', 0) ∧ w'.state.getRoute 2 .read ≠ none := by
  have hruns : ∃ w, unwired.step ([0], .register ⟨2, .read, 5, 7⟩) = some w ∧
      w.state.requests 2 .read ≠ [] ∧
      ∃ p, w.call (replicate 59 0) (.target 2) = some p ∧ p.2 = 0 := by
    decide +kernel
  rcases hruns with ⟨w, hstep, hr, ⟨w', code⟩, hcall, hcode⟩
  cases hcode
  have hrun : Runs Wired.Start Wired.step Wired.Apart w :=
    .next _ _ _ (.start _ unwired_start) (fun _ _ heq hc => by cases heq; cases hc) hstep
  exact ⟨w, w', hrun, hcall,
    (((target_wired hrun).2 2 _ hcall).1 .read (by decide)).1.mpr hr⟩

/-- A handler for number 3000 of the clamp's cage, and a target that gets the number. -/
theorem number_taken : ∃ w : Wired (MapTables 16),
    Runs Wired.Start Wired.step (fun _ _ => True) w ∧ w.ledger.bound 3000 = [(6, 8), (5, 7)] :=
  exists_runs_replay [([0], .register ⟨1, .other 3000, 5, 7⟩), ([0], .register ⟨2, .read, 6, 8⟩),
    (replicate 59 0, .target 2)] unwired_start (by decide +kernel)

end LindGrates.FsClamp
