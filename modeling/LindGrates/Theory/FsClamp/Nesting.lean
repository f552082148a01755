import LindGrates.Base.Brackets
import LindGrates.Base.Run
import LindGrates.Theory.FsClamp.Steps

/-!
# The Brackets of the Command Line

The clamp finds the end of its own block by counting the markers that come by as
names of programs. The depth, the entry cage and the visible handlers are those
of the counter of `Base.Brackets` on the `exec` calls made so far.

The counter does not know when it is done: behind the closing marker another
opening marker makes the depth one again.

## Main definitions

* `ClosesForGood`: After the block is closed no marker is executed.
* `Gauged`: The clamp and the counter agree.

## Theorems

* `closes_for_good`: Under the condition the handlers are put in place once.
* `markers_reopen`: Without it another program becomes the entry cage.
-/

namespace LindGrates.FsClamp

open FdTables ManagedTables Dialogue World List

def execKind (e : Nat × Str) : Bracket :=
  if e.2 = openMarker then .opening else if e.2 = closeMarker then .closing else .other

theorem execKind_eq_other {e : Nat × Str} (hopen : e.2 ≠ openMarker) (hclose : e.2 ≠ closeMarker) :
    execKind e = .other := by
  rw [execKind, if_neg hopen, if_neg hclose]

/-- The cage, the name and the replies of an `exec`, if that is what an action is. -/
def Action.execName : Action → Option (Nat × Str × List Int)
  | .exec cage args mem replies =>
    (readPathFromCage mem (args 0) cage).map fun path => (cage, path, replies)
  | _ => none

/-- After the block is closed no `exec` is made under the name of a marker, and the
    registrations of the one that closes it are accepted. -/
def ClosesForGood {T : Type} (w : World T) (a : Action) : Prop :=
  ∀ e ∈ a.execName,
    if w.state.clampDepth = 0 then e.2.1 ≠ openMarker ∧ e.2.1 ≠ closeMarker
    else e.2.1 = closeMarker → w.state.clampDepth = 1 →
      Accepts (registrations w.state e.1 fsCalls) e.2.2

instance {T : Type} (w : World T) (a : Action) : Decidable (ClosesForGood w a) :=
  inferInstanceAs (Decidable (∀ e ∈ a.execName, _))

/-- The counter on the `exec` calls so far. -/
def gauge (execs : List (Nat × Str)) : Gauge (Nat × Str) :=
  Gauge.scan execKind ⟨1, none, []⟩ execs

theorem gauge_append (execs rest : List (Nat × Str)) :
    gauge (execs ++ rest) = Gauge.scan execKind (gauge execs) rest :=
  Gauge.scan_append _ _ _

theorem gauge_concat (execs : List (Nat × Str)) (e : Nat × Str) :
    gauge (execs ++ [e]) = Gauge.step execKind (gauge execs) e :=
  gauge_append execs [e]

theorem gauge_of_outline {execs tops : List (Nat × Str)} (h : Outline execKind execs tops) :
    gauge execs = ⟨1, tops.getLast?, []⟩ := by
  have hscan := Gauge.scan_of_outline h ⟨1, none, []⟩ Nat.one_pos
  rw [if_pos rfl, Option.or_none] at hscan
  exact hscan

structure Gauged {T : Type} (w : World T) : Prop where
  depth : w.state.clampDepth = (gauge w.execs).depth
  entry : w.state.clampEntryCage = ((gauge w.execs).last.map Prod.fst).getD 0
  registered : w.registered =
    (gauge w.execs).ends.flatMap fun e => fsCalls.map fun sys => (e.1, sys)
  quiet : ∀ pre c post, w.execs = pre ++ c :: post → execKind c = .closing →
    (gauge pre).depth = 1 → ∀ e ∈ post, execKind e = .other

variable {T : Type} {w w' : World T}

theorem Gauged.congr (hw : Gauged w) (hdepth : w'.state.clampDepth = w.state.clampDepth)
    (hentry : w'.state.clampEntryCage = w.state.clampEntryCage) (hexecs : w'.execs = w.execs)
    (hregistered : w'.registered = w.registered) : Gauged w' where
  depth := by rw [hdepth, hexecs, hw.depth]
  entry := by rw [hentry, hexecs, hw.entry]
  registered := by rw [hregistered, hexecs, hw.registered]
  quiet := by
    rw [hexecs]
    exact hw.quiet

theorem depth_of_closed {pre post : List (Nat × Str)} {c : Nat × Str}
    (hc : execKind c = .closing) (hpre : (gauge pre).depth = 1)
    (hpost : ∀ e ∈ post, execKind e = .other) : (gauge (pre ++ c :: post)).depth = 0 := by
  have hscan := Gauge.scan_closed (.nil) hc hpost (gauge pre) hpre
  rw [gauge_append, show c :: post = [] ++ c :: post from rfl, hscan]

theorem Gauged.exec (hw : Gauged w) {e : Nat × Str} (hexecs : w'.execs = w.execs ++ [e])
    {g : Gauge (Nat × Str)} (hgauge : Gauge.step execKind (gauge w.execs) e = g)
    (hdepth : w'.state.clampDepth = g.depth)
    (hentry : w'.state.clampEntryCage = (g.last.map Prod.fst).getD 0)
    (hregistered : w'.registered = g.ends.flatMap fun e => fsCalls.map fun sys => (e.1, sys))
    (hquiet : w.state.clampDepth = 0 → execKind e = .other) : Gauged w' where
  depth := by rw [hdepth, hexecs, gauge_concat, hgauge]
  entry := by rw [hentry, hexecs, gauge_concat, hgauge]
  registered := by rw [hregistered, hexecs, gauge_concat, hgauge]
  quiet := by
    intro pre c post hsplit hc hpre a ha
    rw [hexecs] at hsplit
    rcases eq_nil_or_concat post with hpost | ⟨post', last, hpost⟩
    · rw [hpost] at ha
      cases ha
    rw [concat_eq_append] at hpost
    subst hpost
    rw [← cons_append, ← append_assoc] at hsplit
    rcases append_inj' hsplit rfl with ⟨hold, hlast⟩
    cases hlast
    have hothers := hw.quiet pre c post' hold hc hpre
    rcases mem_append.mp ha with ha | ha
    · exact hothers a ha
    rw [mem_singleton.mp ha]
    refine hquiet ?_
    rw [hw.depth, hold]
    exact depth_of_closed hc hpre hothers

theorem gauged_start [ManagedTables T] (h : World.Start w) : Gauged w := by
  rcases h.state with ⟨ns, pre, t, child, _, _, hstate, _⟩
  refine ⟨?_, ?_, ?_, ?_⟩
  · rw [hstate, h.execs]
    rfl
  · rw [hstate, h.execs]
    rfl
  · rw [h.registered, h.execs]
    rfl
  · intro p c q hsplit
    rw [h.execs] at hsplit
    exact absurd hsplit.symm (append_ne_nil_of_right_ne_nil p (cons_ne_nil c q))

section Run

variable [ManagedTables T]

theorem gauged_exec {w w' : World T} (hw : Gauged w) {cage : Nat} {args : Fin 6 → Word}
    {mem : Memory} {replies : List Int} (hcond : ClosesForGood w (.exec cage args mem replies))
    (h : w.step (.exec cage args mem replies) = some w') : Gauged w' := by
  rcases step_exec h with ⟨_, path, hpath, hstep⟩
  have hname : (cage, path, replies) ∈ Action.execName (.exec cage args mem replies) := by
    rw [Action.execName, hpath]
    rfl
  have hcond := hcond _ hname
  have hquiet : w.state.clampDepth = 0 → path ≠ openMarker ∧ path ≠ closeMarker := by
    intro hzero
    rw [if_pos hzero] at hcond
    exact hcond
  cases hstep with
  | opening _ hw' =>
    subst hw'
    exact hw.exec rfl (Gauge.step_opening (by rfl) _) (congrArg (· + 1) hw.depth) hw.entry
      hw.registered fun hzero => absurd rfl (hquiet hzero).1
  | inner _ hdepth hw' =>
    subst hw'
    rw [hw.depth] at hdepth
    exact hw.exec rfl (Gauge.step_closing_inner (by rfl) hdepth) (congrArg (· - 1) hw.depth)
      hw.entry hw.registered fun hzero => absurd rfl (hquiet hzero).2
  | closing s _ hdepth hs hw' hregistered =>
    have hzero : w.state.clampDepth ≠ 0 := fun hzero => absurd rfl (hquiet hzero).2
    rw [if_neg hzero] at hcond
    have hreg := hregistered (hcond rfl (by omega))
    rw [hw.depth] at hdepth
    have hsame := hs.same
    refine hw.exec (by rw [hw']) (Gauge.step_closing_outer (by rfl) hdepth) ?_ ?_ ?_
      fun hz => absurd hz hzero
    · rw [← hw.depth, hw', hsame]
      rfl
    · rw [← hw.entry, hw', hsame]
      rfl
    · rw [hreg, hw.registered, flatMap_append, flatMap_singleton]
  | program _ _ hopen hclose hw' =>
    have hkind : execKind (cage, path) = .other := execKind_eq_other hopen hclose
    have hgauge := Gauge.step_other hkind (gauge w.execs)
    -- directly inside the block the cage becomes the entry cage
    by_cases hone : w.state.clampDepth = 1
    · rw [if_pos hone] at hw'
      rw [if_pos (hw.depth.symm.trans hone)] at hgauge
      subst hw'
      exact hw.exec rfl hgauge hw.depth rfl hw.registered fun _ => hkind
    · rw [if_neg hone] at hw'
      rw [if_neg fun h => hone (hw.depth.trans h)] at hgauge
      subst hw'
      exact hw.exec rfl hgauge hw.depth hw.entry hw.registered fun _ => hkind

theorem clampDepth_copyCage (s : State T) (cage child : Nat) :
    (s.copyCage cage child).clampDepth = s.clampDepth ∧
      (s.copyCage cage child).clampEntryCage = s.clampEntryCage := by
  unfold State.copyCage
  simp only []
  split
  · exact ⟨rfl, rfl⟩
  · exact ⟨rfl, rfl⟩

theorem gauged_of_runs [LawfulManagedTables T] {w : World T}
    (h : Runs World.Start step ClosesForGood w) : Gauged w := by
  refine runs_inv ?_ ?_ w h
  · intro w hstart
    exact gauged_start hstart
  intro w a w' hw hcond hstep
  cases a with
  | call =>
    rcases step_call hstep with ⟨_, _, htouch, hsame⟩
    exact hw.congr htouch.depth htouch.entry hsame.execs hsame.registered
  | fork cage _ _ reply =>
    rcases (step_fork hstep).2 with ⟨_, hw'⟩ | ⟨_, _, _, w1, hw1, hw'⟩
    · rw [hw']
      exact hw
    have hcopy := clampDepth_copyCage w.state cage (wordOf reply).toNat
    subst hw1
    rw [hw']
    split
    · exact hw.congr hcopy.1 hcopy.2 rfl rfl
    · exact hw.congr hcopy.1 hcopy.2 rfl rfl
  | exit =>
    rw [(step_exit hstep).2]
    exact hw.congr rfl rfl rfl rfl
  | exec => exact gauged_exec hw hcond hstep
  | register =>
    rw [step_register hstep]
    exact hw.congr rfl rfl rfl rfl

end Run

theorem ends_scan (g : Gauge (Nat × Str)) (execs : List (Nat × Str)) :
    g.ends <+: (Gauge.scan execKind g execs).ends := by
  induction execs generalizing g with
  | nil => exact prefix_refl _
  | cons e _ ih =>
    refine List.IsPrefix.trans ?_ (ih (Gauge.step execKind g e))
    unfold Gauge.step
    split
    · exact prefix_refl _
    · split
      · exact prefix_refl _
      · exact prefix_append _ _
    split
    · exact prefix_refl _
    · exact prefix_refl _

theorem exec_after_closed [ManagedTables T] (hzero : w.state.clampDepth = 0) {a : Action}
    (hexec : a.execName.isSome) (hcond : ClosesForGood w a) (h : w.step a = some w') :
    w'.state = w.state ∧ w'.registered = w.registered := by
  cases a with
  | exec cage args mem replies =>
    rcases step_exec h with ⟨_, path, hpath, hstep⟩
    have hname : (cage, path, replies) ∈ Action.execName (.exec cage args mem replies) := by
      rw [Action.execName, hpath]
      rfl
    have hcond := hcond _ hname
    rw [if_pos hzero] at hcond
    cases hstep with
    | opening => exact absurd rfl hcond.1
    | inner | closing => exact absurd rfl hcond.2
    | program _ _ _ _ hw' =>
      subst hw'
      exact ⟨if_neg (by omega), rfl⟩
  | call | fork | exit | register => cases hexec

/-- Before the block is closed no handlers are put in place. They are put in place
    once, by the `exec` that closes it, on the cage that makes it, and the entry
    cage is that of the last program directly inside the block. What is executed
    afterwards changes neither the entry cage nor the depth nor any route. -/
theorem closes_for_good [ManagedTables T] [LawfulManagedTables T] {w : World T}
    (h : Runs World.Start step ClosesForGood w) :
    (∀ rest tops, Outline execKind (w.execs ++ rest) tops → w.registered = []) ∧
      ∀ pre c post tops, w.execs = pre ++ c :: post → Outline execKind pre tops →
        execKind c = .closing →
        w.registered = fsCalls.map (fun sys => (c.1, sys)) ∧
          w.state.clampEntryCage = (tops.getLast?.map Prod.fst).getD 0 ∧
          w.state.clampDepth = 0 ∧
          ∀ a w', a.execName.isSome → ClosesForGood w a → w.step a = some w' →
            w'.state.clampEntryCage = w.state.clampEntryCage ∧
              w'.state.clampDepth = w.state.clampDepth ∧ w'.state.routes = w.state.routes ∧
              w'.registered = w.registered := by
  have hw := gauged_of_runs h
  constructor
  · intro rest tops houtline
    -- the record of what closed the block only grows, and is empty at the end
    have hprefix := ends_scan (gauge w.execs) rest
    rw [← gauge_append, gauge_of_outline houtline] at hprefix
    rw [hw.registered, prefix_nil.mp hprefix, flatMap_nil]
  · intro pre c post tops hexecs houtline hc
    have hopen : (gauge pre).depth = 1 := by rw [gauge_of_outline houtline]
    have hpost := hw.quiet pre c post hexecs hc hopen
    have hgauge : gauge w.execs = ⟨0, tops.getLast?.or none, [] ++ [c]⟩ := by
      rw [hexecs]
      exact Gauge.scan_closed houtline hc hpost _ rfl
    have hdepth : w.state.clampDepth = 0 := by rw [hw.depth, hgauge]
    refine ⟨?_, ?_, hdepth, ?_⟩
    · rw [hw.registered, hgauge, nil_append, flatMap_singleton]
    · rw [hw.entry, hgauge, Option.or_none]
    · intro a w' hexec hcond hstep
      rcases exec_after_closed hdepth hexec hcond hstep with ⟨hstate, hregistered⟩
      rw [hstate]
      exact ⟨rfl, rfl, rfl, hregistered⟩

/-- A chain with a nested block: `g %\x7b h %\x7d k %\x7d p`. The last grate
    asks for a call of the cage that runs the target. -/
def nestedChain : List Action :=
  [execs 2 "g", forks 2 3, execs 3 "%\x7b", execs 3 "h", forks 3 4, execs 4 "%\x7d",
    execs 4 "k", forks 4 5, .register ⟨5, .openat, 4, 7⟩ 0, execs 5 "%\x7d", execs 5 "p"]

theorem outline_nestedChain : Outline execKind
    [(2, ['g']), (3, openMarker), (3, ['h']), (4, closeMarker), (4, ['k'])]
    [(2, ['g']), (4, ['k'])] := by
  refine .other _ _ _ (by decide) ?_
  refine .block (3, openMarker) [(3, ['h'])] [(3, ['h'])] (4, closeMarker) [(4, ['k'])] _
    (by decide) ?_ (by decide) ?_
  · exact .other _ _ _ (by decide) .nil
  · exact .other _ _ _ (by decide) .nil

/-- The chain puts the handlers in place on cage 5, with cage 4 as the entry cage. -/
theorem closes_for_good_nestedChain :
    ∃ w : World (MapTables 16), Runs World.Start step ClosesForGood w ∧
      w.state.routes 5 .openat = some 3000 ∧
      w.registered = fsCalls.map (fun sys => (5, sys)) ∧ w.state.clampEntryCage = 4 ∧
      w.state.clampDepth = 0 := by
  have := lawful_managedMapTables 16 (by decide) (by decide)
  have hrun : ∃ w : World (MapTables 16), Runs World.Start step ClosesForGood w ∧
      w.state.routes 5 .openat = some 3000 ∧
      w.execs = [(2, ['g']), (3, openMarker), (3, ['h']), (4, closeMarker), (4, ['k'])] ++
        (5, closeMarker) :: [(5, ['p'])] :=
    exists_runs_replay nestedChain loneWorld_start (by decide +kernel)
  rcases hrun with ⟨w, hw, hroute, hexecs⟩
  rcases (closes_for_good hw).2 _ _ _ _ hexecs outline_nestedChain (by decide) with
    ⟨hregistered, hentry, hdepth, _⟩
  exact ⟨w, hw, hroute, hregistered, hentry, hdepth⟩

/-- After the block is closed an `exec` under the name of the opening marker makes
    the depth one, the next program becomes the entry cage, and an `exec` under the
    name of the closing marker puts handlers in place for another cage and gives it
    routes. -/
theorem markers_reopen :
    ∃ w w₁ w₂ w₃ : World (MapTables 16), Runs World.Start step ClosesForGood w ∧
      (∃ pre c tops, w.execs = pre ++ [c] ∧ Outline execKind pre tops ∧
        execKind c = .closing) ∧
      w.state.clampEntryCage = 2 ∧ w.state.clampDepth = 0 ∧
      w.step (execs 3 "%\x7b") = some w₁ ∧ w₁.state.clampDepth = 1 ∧
      w₁.step (execs 3 "p") = some w₂ ∧ w₂.state.clampEntryCage = 3 ∧
      w.step (execs 4 "%\x7d") = some w₃ ∧
      w₃.state.routes 4 .openat ≠ w.state.routes 4 .openat ∧
      w₃.registered = fsCalls.map (fun sys => (3, sys)) ++ fsCalls.map fun sys => (4, sys) := by
  have hrun : ∃ w : World (MapTables 16), Runs World.Start step ClosesForGood w ∧
      w.execs = [(2, ['g'])] ++ [(3, closeMarker)] ∧ w.state.clampEntryCage = 2 ∧
      w.state.clampDepth = 0 ∧
      (∃ w₁, w.step (execs 3 "%\x7b") = some w₁ ∧ w₁.state.clampDepth = 1 ∧
        ∃ w₂, w₁.step (execs 3 "p") = some w₂ ∧ w₂.state.clampEntryCage = 3) ∧
      ∃ w₃, w.step (execs 4 "%\x7d") = some w₃ ∧
        w₃.state.routes 4 .openat ≠ w.state.routes 4 .openat ∧
        w₃.registered = fsCalls.map (fun sys => (3, sys)) ++ fsCalls.map fun sys => (4, sys) :=
    exists_runs_replay
      [execs 2 "g", forks 2 3, execs 3 "%\x7d", forks 3 4, .register ⟨4, .openat, 2, 7⟩ 0]
      loneWorld_start (by decide +kernel)
  rcases hrun with ⟨w, hw, hexecs, hentry, hdepth, ⟨w₁, hstep₁, hdepth₁, w₂, hstep₂, hentry₂⟩,
    w₃, hstep₃, hroutes, hregistered⟩
  exact ⟨w, w₁, w₂, w₃, hw, ⟨_, _, _, hexecs, .other _ _ _ (by decide) .nil, by decide⟩, hentry,
    hdepth, hstep₁, hdepth₁, hstep₂, hentry₂, hstep₃, hroutes, hregistered⟩

end LindGrates.FsClamp
