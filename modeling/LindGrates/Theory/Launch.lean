import LindGrates.Core.Launch

/-!
# The Cage Starts behind its Handlers

What holds in every interleaving of a grate that launches a cage and the cage. The
grate posts the semaphore once it has registered every handler and has run the hook,
and nothing else posts it. The cage's own steps leave the grate's part alone.

## Main definitions

* `Stage`: What has been done at each point of the grate's program.
* `Sound`: The invariant.
* `Truthful`: A result says what has happened.

## Theorems

* `registered_before_exec`: A program is served by every handler.
* `teardown_truthful`: What the grate reports is true.
* `grate_goes_on`, `launch_bounded`: Nobody waits for ever.
-/

namespace LindGrates.Launch

variable {H : Type} {table : List (Nat × H)} {b : GrateBuilder H} {argv : List Str} {w w' : World H}

/-- A result says what has happened: no cage is let go after a failed
    registration, and a status is that of one which told no failure. -/
def Truthful (w : World H) (r : Except GrateError Int) : Prop :=
  (∀ ret, r = .error (.handlerRegistrationError ret) → w.posted = false) ∧
    ∀ status, r = .ok status → w.posted = true ∧ w.child = .exited status ∧ w.launchFailed = 0

/-- What has been done when the grate is at a point of its program. -/
def Stage (table : List (Nat × H)) (b : GrateBuilder H) (w : World H) : Parent H → Prop
  | .mmapSem | .semInit | .mmapState | .fork | .panicked =>
    w.registered = [] ∧ w.hooked = false ∧ w.posted = false ∧ w.child = .absent
  | .register r rest =>
    w.registered ++ r :: rest = b.registrations table ∧ w.hooked = false ∧ w.posted = false ∧
      w.child ≠ .absent
  | .preexec =>
    w.registered = b.registrations table ∧ b.preexec = true ∧ w.posted = false ∧
      w.child ≠ .absent
  | .semPost =>
    w.registered = b.registrations table ∧ w.hooked = b.preexec ∧ w.posted = false ∧
      w.child ≠ .absent
  | .waitpid => w.posted = true ∧ w.child ≠ .absent
  | .semDestroy status | .munmapSem status => w.posted = true ∧ w.child = .exited status
  | .munmapState r => w.posted = true ∧ ∃ status, w.child = .exited status ∧ r = w.result status
  | .teardown r => Truthful w r
  | .exited code =>
    (code = 0 ∧ w.teardowns = [] ∧ w.posted = false ∧ w.child = .absent) ∨
      ∃ r, Truthful w r ∧ code = exitCode r ∧ w.teardowns = if b.teardown then [r] else []

/-- The grate's program has ended. -/
def Parent.ended : Parent H → Bool
  | .exited _ => true
  | _ => false

/-- The cage is there and has not ended. -/
def Child.live : Child → Bool
  | .absent | .exited _ => false
  | _ => true

/-- The cage is there and no longer waits for the semaphore. -/
def Child.woken : Child → Bool
  | .absent | .semWait => false
  | _ => true

/-- The cage has come to its program. -/
def Child.launched : Child → Bool
  | .execv | .replaced => true
  | _ => false

/-- What holds in every interleaving. -/
structure Sound (table : List (Nat × H)) (b : GrateBuilder H) (w : World H) : Prop where
  stage : Stage table b w w.parent
  ready : w.posted = true → w.registered = b.registrations table ∧ w.hooked = b.preexec
  gate : 0 < w.sem ∨ w.child.launched = true ∨ w.executed = true → w.posted = true
  wakes : w.posted = true → w.child = .semWait → 0 < w.sem
  quiet : w.parent.ended = false → w.teardowns = []

/-- The cage has come to its program when it is about to call `execv` or was replaced. -/
theorem launched_iff {c : Child} : c.launched = true ↔ c = .execv ∨ c = .replaced := by
  cases c <;> simp [Child.launched]

/-- An error of coordination claims nothing about the cage. -/
theorem truthful_error {text : String} : Truthful w (.error (.coordinationError text)) := by
  constructor
  · intro ret h
    cases h
  · intro status h
    cases h

/-- What the grate reports once the cage has ended is true. -/
theorem truthful_result {status : Int} (hposted : w.posted = true)
    (hchild : w.child = .exited status) : Truthful w (w.result status) := by
  rw [World.result]
  split
  · exact truthful_error
  rename_i hfailed
  constructor
  · intro ret h
    cases h
  · intro status' h
    cases h
    exact ⟨hposted, hchild, not_not.mp hfailed⟩

/-- The invariant holds before anything was called. -/
theorem sound_start : Sound table b (start argv) := by
  have hstage : Stage table b (start argv) (start argv).parent := by
    unfold start
    split
    · exact truthful_error
    · split <;> exact ⟨rfl, rfl, rfl, rfl⟩
  refine ⟨hstage, ?_, ?_, ?_, fun _ => rfl⟩
  all_goals simp [start, Child.launched]

/-- A stage does not depend on where the grate is. -/
theorem stage_parent {p q : Parent H} (h : Stage table b w q) :
    Stage table b { w with parent := p } q := by
  cases q <;> exact h

/-- Where a call of the grate has failed or has not, nothing but its point of the
    program changes. -/
theorem sound_callSys (h : Sound table b w) (name : String) (a : Answer) {next : Parent H}
    (hpoint : w.parent.ended = false) (hnext : 0 ≤ a.ret → Stage table b w next) :
    Sound table b { w with parent := callSys name a next } := by
  refine ⟨?_, h.ready, h.gate, h.wakes, fun _ => h.quiet hpoint⟩
  dsimp only [callSys]
  split
  · exact truthful_error
  · exact stage_parent (hnext (by omega))

/-- The stage of a grate with these registrations left. -/
theorem stage_registering (rest : List (Nat × H))
    (hrest : w.registered ++ rest = b.registrations table) (hhook : w.hooked = false)
    (hposted : w.posted = false) (hchild : w.child ≠ .absent) :
    Stage table b w (registering b rest) := by
  rcases rest with _ | ⟨r, rest⟩
  · rw [List.append_nil] at hrest
    rw [registering]
    split
    next hpre => exact ⟨hrest, hpre, hposted, hchild⟩
    next hpre => exact ⟨hrest, hhook.trans (Bool.eq_false_iff.mpr hpre).symm, hposted, hchild⟩
  · exact ⟨hrest, hhook, hposted, hchild⟩

/-- A return of a call of the grate keeps the invariant. -/
theorem sound_stepParent (h : Sound table b w) {a : Answer}
    (hstep : w.stepParent table b a = some w') : Sound table b w' := by
  rcases w with ⟨point, _⟩
  cases point with
  | mmapSem | mmapState =>
    have hquiet := h.quiet rfl
    cases hstep
    refine ⟨?_, h.ready, h.gate, h.wakes, fun _ => hquiet⟩
    dsimp only
    split
    · exact .inl ⟨rfl, hquiet, h.stage.2.2⟩
    · exact h.stage
  | semInit | semDestroy =>
    cases hstep
    exact sound_callSys h _ a rfl fun _ => h.stage
  | munmapSem status =>
    cases hstep
    exact sound_callSys h _ a rfl fun _ => ⟨h.stage.1, status, h.stage.2, rfl⟩
  | munmapState =>
    cases hstep
    rcases h.stage with ⟨hposted, status, hchild, hresult⟩
    exact sound_callSys h _ a rfl fun _ => hresult ▸ truthful_result hposted hchild
  | fork =>
    rcases h.stage with ⟨hreg, hhook, hposted, hchild⟩
    dsimp only [World.stepParent] at hstep
    split at hstep
    · cases hstep
      exact sound_callSys h _ a rfl fun _ => h.stage
    split at hstep
    · cases hstep
    cases hstep
    have hgate := h.gate
    rw [show Child.launched _ = false from congrArg Child.launched hchild] at hgate
    refine ⟨?_, h.ready, hgate, fun hp => ?_, fun _ => h.quiet rfl⟩
    · exact stage_registering _ (by rw [hreg, List.nil_append]) hhook hposted Child.noConfusion
    · rw [hposted] at hp
      cases hp
  | register r rest =>
    rcases h.stage with ⟨hreg, hhook, hposted, hchild⟩
    have hquiet := h.quiet rfl
    dsimp only [World.stepParent] at hstep
    split at hstep
    · cases hstep
      refine ⟨?_, fun hp => ?_, h.gate, h.wakes, fun _ => hquiet⟩
      · exact stage_registering _ (by rw [← hreg, List.append_assoc]; rfl) hhook hposted hchild
      · rw [hposted] at hp
        cases hp
    · cases hstep
      refine ⟨⟨fun _ _ => hposted, fun status hok => ?_⟩, h.ready, h.gate, h.wakes, fun _ => hquiet⟩
      cases hok
  | preexec =>
    rcases h.stage with ⟨hreg, hpre, hposted, hchild⟩
    have hquiet := h.quiet rfl
    cases hstep
    refine ⟨⟨hreg, hpre.symm, hposted, hchild⟩, fun hp => ?_, h.gate, h.wakes, fun _ => hquiet⟩
    rw [hposted] at hp
    cases hp
  | semPost =>
    rcases h.stage with ⟨hreg, hhook, hposted, hchild⟩
    have hquiet := h.quiet rfl
    dsimp only [World.stepParent] at hstep
    split at hstep
    · cases hstep
      exact sound_callSys h _ a rfl fun _ => h.stage
    · cases hstep
      exact ⟨⟨rfl, hchild⟩, fun _ => ⟨hreg, hhook⟩, fun _ => rfl, fun _ _ => Nat.succ_pos _,
        fun _ => hquiet⟩
  | waitpid =>
    have hquiet := h.quiet rfl
    dsimp only [World.stepParent] at hstep
    split at hstep
    · cases hstep
      exact sound_callSys h _ a rfl fun _ => h.stage
    split at hstep
    · cases hstep
      exact ⟨⟨h.stage.1, rfl⟩, h.ready, h.gate, h.wakes, fun _ => hquiet⟩
    · cases hstep
  | teardown r =>
    have hquiet := h.quiet rfl
    cases hstep
    refine ⟨.inr ⟨r, h.stage, rfl, ?_⟩, h.ready, h.gate, h.wakes, fun hended => ?_⟩
    · rw [hquiet, List.nil_append]
    · cases hended
  | exited | panicked => cases hstep

/-- A move of the cage leaves the grate's part alone. The cage is there and has not
    ended, and it does not wait a second time. -/
structure Moved (w w' : World H) : Prop where
  same : ∃ child sem launchFailed errno executed,
    w' = { w with child, sem, launchFailed, errno, executed }
  live : w.child.live = true
  woken : w'.child.woken = true
  gate : w.posted = true ∨
    w'.sem = w.sem ∧ w'.executed = w.executed ∧ w'.child.launched = false

/-- What has been done at a point of the grate's program is not undone by the cage. -/
theorem stage_moved {p : Parent H} (h : Stage table b w p) (hm : Moved w w') :
    Stage table b w' p := by
  have hlive := hm.live
  have habsent : w.child ≠ .absent := fun hc => by simp [hc, Child.live] at hlive
  have hexited : ∀ status, w.child ≠ .exited status := fun _ hc => by simp [hc, Child.live] at hlive
  have habsent' : w'.child ≠ .absent := by
    intro hc
    have hwoken := hm.woken
    simp [hc, Child.woken] at hwoken
  have htruth : ∀ r, Truthful w r → Truthful w' r := by
    intro r hr
    refine ⟨?_, fun status hok => absurd (hr.2 status hok).2.1 (hexited status)⟩
    rcases hm.same with ⟨_, _, _, _, _, rfl⟩
    exact hr.1
  cases p with
  | mmapSem | semInit | mmapState | fork | panicked => exact absurd h.2.2.2 habsent
  | register | preexec | semPost =>
    rcases hm.same with ⟨_, _, _, _, _, rfl⟩
    exact ⟨h.1, h.2.1, h.2.2.1, habsent'⟩
  | waitpid =>
    rcases hm.same with ⟨_, _, _, _, _, rfl⟩
    exact ⟨h.1, habsent'⟩
  -- Here the grate has seen the cage end.
  | semDestroy status | munmapSem status => exact absurd h.2 (hexited status)
  | munmapState => exact absurd h.2.choose_spec.1 (hexited _)
  | teardown r => exact htruth r h
  | exited =>
    rcases h with h | ⟨r, hr, hcode, hlog⟩
    · exact absurd h.2.2.2 habsent
    refine .inr ⟨r, htruth r hr, hcode, ?_⟩
    rcases hm.same with ⟨_, _, _, _, _, rfl⟩
    exact hlog

/-- A move of the cage keeps the invariant. -/
theorem sound_moved (h : Sound table b w) (hm : Moved w w') : Sound table b w' := by
  have hstage := stage_moved h.stage hm
  have hgate := hm.gate
  have hwoken := hm.woken
  rcases hm.same with ⟨_, _, _, _, _, rfl⟩
  refine ⟨hstage, h.ready, fun hor => ?_, fun _ hchild => ?_, h.quiet⟩
  · rcases hgate with hposted | ⟨hsem, hexec, hlaunched⟩
    · exact hposted
    · rw [hsem, hexec, hlaunched] at hor
      exact h.gate (hor.imp_right fun hor => .inr (hor.resolve_left Bool.false_ne_true))
  · simp only at hchild
    rw [hchild] at hwoken
    cases hwoken

/-- A return of a call of the cage is a move of the cage. -/
theorem moved_stepChild (h : Sound table b w) {a : Answer} (hstep : w.stepChild a = some w') :
    Moved w w' := by
  rcases w with ⟨_, point, _⟩
  cases point with
  | semWait =>
    dsimp only [World.stepChild] at hstep
    split at hstep
    · cases hstep
      exact {
        same := ⟨_, _, _, _, _, rfl⟩
        live := rfl
        woken := rfl
        gate := .inr ⟨rfl, rfl, rfl⟩ }
    split at hstep
    · cases hstep
    rename_i hsem
    have hposted := h.gate (.inl (Nat.pos_of_ne_zero hsem))
    cases hstep
    exact {
      same := ⟨_, _, _, _, _, rfl⟩
      live := rfl
      woken := rfl
      gate := .inl hposted }
  | execv =>
    have hposted := h.gate (.inr (.inl rfl))
    cases hstep
    have hwoken : (if a.ret < 0 then Child.setErrno a else .exit (-1)).woken = true := by
      split <;> rfl
    exact {
      same := ⟨_, _, _, _, _, rfl⟩
      live := rfl
      woken := hwoken
      gate := .inl hposted }
  | setErrno | setFailed | exit =>
    cases hstep
    exact {
      same := ⟨_, _, _, _, _, rfl⟩
      live := rfl
      woken := rfl
      gate := .inr ⟨rfl, rfl, rfl⟩ }
  | absent | replaced | exited => cases hstep

/-- Every action keeps the invariant. -/
theorem sound_step (h : Sound table b w) {act : Action} (hstep : step table b w act = some w') :
    Sound table b w' := by
  cases act with
  | parent a => exact sound_stepParent h hstep
  | child a => exact sound_moved h (moved_stepChild h hstep)
  | replace =>
    rw [step] at hstep
    split at hstep
    next hpoint =>
      cases hstep
      have hposted := h.gate (.inr (.inl (launched_iff.mpr (.inl hpoint))))
      exact sound_moved h {
        same := ⟨_, _, _, _, _, rfl⟩
        live := congrArg Child.live hpoint
        woken := rfl
        gate := .inl hposted }
    · cases hstep
  | dies =>
    rcases w with ⟨_, point, _⟩
    rw [step] at hstep
    split at hstep
    · cases hstep
    · cases hstep
    next habsent hexited =>
      cases hstep
      have hlive : point.live = true := by
        cases point with
        | absent => exact absurd rfl habsent
        | exited status => exact absurd rfl (hexited status)
        | _ => rfl
      exact sound_moved h {
        same := ⟨_, _, _, _, _, rfl⟩
        live := hlive
        woken := rfl
        gate := .inr ⟨rfl, rfl, rfl⟩ }

theorem sound_of_reachable (h : Reachable table b argv w) : Sound table b w :=
  runs_inv (fun _ hstart => hstart ▸ sound_start) (fun _ _ _ hs _ hstep => sound_step hs hstep) w h

/-- A grate with one handler and both callbacks. -/
def oneHandler : GrateBuilder Unit :=
  ⟨[(2, ())], .disabled, true, true⟩

/-- The handler is registered, the hook runs, and the program ends with status 1. -/
def launchRun : List Action :=
  [.parent ⟨0, 0⟩, .parent ⟨0, 0⟩, .parent ⟨0, 0⟩, .parent ⟨5, 0⟩, .parent ⟨0, 0⟩, .parent ⟨0, 0⟩,
    .parent ⟨0, 0⟩, .child ⟨0, 0⟩, .replace, .dies 256, .parent ⟨5, 0⟩, .parent ⟨0, 0⟩,
    .parent ⟨0, 0⟩, .parent ⟨0, 0⟩, .parent ⟨0, 0⟩]

/-- A cage that has come to its program is served by every handler, and the hook
    has run. -/
theorem registered_before_exec (h : Reachable table b argv w)
    (hexec : w.child = .execv ∨ w.child = .replaced ∨ w.executed = true) :
    w.registered = b.registrations table ∧ w.hooked = b.preexec := by
  have hs := sound_of_reachable h
  rw [← or_assoc, ← launched_iff] at hexec
  exact hs.ready (hs.gate (.inr hexec))

theorem registered_before_exec_launchRun :
    ∃ w : World Unit, Reachable [] oneHandler [['c']] w ∧ w.executed = true ∧
      w.registered = [(2, ())] ∧ w.hooked = true := by
  have hrun : ∃ w : World Unit, Reachable [] oneHandler [['c']] w ∧ w.executed = true :=
    exists_runs_replay launchRun rfl (by decide)
  rcases hrun with ⟨w, hw, hexec⟩
  exact ⟨w, hw, hexec, registered_before_exec hw (.inr (.inr hexec))⟩

/-- The teardown runs once at most and decides the exit code. After a failed
    registration the cage never comes to its program, and a status is that of a
    cage which did not report a failure and was served by every handler. -/
theorem teardown_truthful (h : Reachable table b argv w) {r : Except GrateError Int}
    (hr : r ∈ w.teardowns) :
    w.teardowns = [r] ∧ w.parent = .exited (exitCode r) ∧
      (∀ ret, r = .error (.handlerRegistrationError ret) →
        w.executed = false ∧ w.child ≠ .execv ∧ w.child ≠ .replaced) ∧
      ∀ status, r = .ok status → w.child = .exited status ∧ w.launchFailed = 0 ∧
        w.registered = b.registrations table ∧ w.hooked = b.preexec := by
  have hs := sound_of_reachable h
  have hexited : ∃ code, w.parent = .exited code := by
    cases hpoint : w.parent with
    | exited code => exact ⟨code, rfl⟩
    | _ =>
      rw [hs.quiet (by rw [hpoint]; rfl)] at hr
      cases hr
  rcases hexited with ⟨code, hcode⟩
  have hstage := hs.stage
  rw [hcode] at hstage ⊢
  rcases hstage with ⟨_, hnil, _⟩ | ⟨r', ⟨hheld, hlaunched⟩, rfl, hlog⟩
  · rw [hnil] at hr
    cases hr
  have hmem := hlog ▸ hr
  split at hmem
  · rename_i hset
    cases List.mem_singleton.mp hmem
    rw [if_pos hset] at hlog
    refine ⟨hlog, rfl, fun ret hret => ?_, fun status hok => ?_⟩
    · have hposted := Bool.eq_false_iff.mp (hheld ret hret)
      have hlaunched : ¬ (w.child = .execv ∨ w.child = .replaced) :=
        fun hx => hposted (hs.gate (.inr (.inl (launched_iff.mpr hx))))
      have hexecuted : w.executed = false :=
        Bool.eq_false_iff.mpr fun hx => hposted (hs.gate (.inr (.inr hx)))
      exact ⟨hexecuted, not_or.mp hlaunched⟩
    · have hok := hlaunched status hok
      exact ⟨hok.2.1, hok.2.2, hs.ready hok.1⟩
  · cases hmem

theorem teardown_truthful_launchRun :
    ∃ (w : World Unit) (r : Except GrateError Int), Reachable [] oneHandler [['c']] w ∧
      r ∈ w.teardowns ∧ w.parent = .exited (exitCode r) ∧ exitCode r = 1 := by
  have hrun : ∃ w : World Unit, Reachable [] oneHandler [['c']] w ∧
      ∃ r ∈ w.teardowns, exitCode r = 1 :=
    exists_runs_replay launchRun rfl (by decide)
  rcases hrun with ⟨w, hw, r, hr, hcode⟩
  exact ⟨w, r, hw, hr, (teardown_truthful hw hr).2.1, hcode⟩

/-- The grate has ended, or its call can return, or it waits for a cage that runs
    its program or can go on. -/
def GoesOn (table : List (Nat × H)) (b : GrateBuilder H) (w : World H) : Prop :=
  (∃ code, w.parent = .exited code) ∨ w.parent = .panicked ∨
    (w.stepParent table b ⟨1, 0⟩).isSome = true ∨
    w.parent = .waitpid ∧ (w.child = .replaced ∨ (w.stepChild ⟨1, 0⟩).isSome = true)

/-- The grate never waits for a cage that waits for it. -/
theorem grate_goes_on (h : Reachable table b argv w) : GoesOn table b w := by
  have hs := sound_of_reachable h
  have hstage := hs.stage
  cases hpoint : w.parent with
  | exited code => exact .inl ⟨code, hpoint⟩
  | panicked => exact .inr (.inl hpoint)
  | waitpid =>
    rw [hpoint] at hstage
    cases hchild : w.child with
    | absent => exact absurd hchild hstage.2
    | semWait =>
      have hsem := hs.wakes hstage.1 hchild
      simp [GoesOn, hpoint, World.stepChild, hchild, Nat.ne_of_gt hsem]
    | replaced => exact .inr (.inr (.inr ⟨hpoint, .inl hchild⟩))
    | execv | setErrno | setFailed | exit => simp [GoesOn, hpoint, World.stepChild, hchild]
    | exited => simp [GoesOn, World.stepParent, hpoint, hchild]
  | _ =>
    refine .inr (.inr (.inl ?_))
    simp [World.stepParent, hpoint]

theorem grate_goes_on_launchRun :
    ∃ w : World Unit, Reachable [] oneHandler [['c']] w ∧ w.executed = true ∧
      GoesOn [] oneHandler w := by
  have hrun : ∃ w : World Unit, Reachable [] oneHandler [['c']] w ∧ w.executed = true :=
    exists_runs_replay launchRun rfl (by decide)
  rcases hrun with ⟨w, hw, hexec⟩
  exact ⟨w, hw, hexec, grate_goes_on hw⟩

/-- A bound on the calls of the grate that can still return. -/
def Parent.rank (n : Nat) : Parent H → Nat
  | .mmapSem => n + 12
  | .semInit => n + 11
  | .mmapState => n + 10
  | .fork => n + 9
  | .register _ rest => rest.length + 9
  | .preexec => 8
  | .semPost => 7
  | .waitpid => 6
  | .semDestroy _ => 5
  | .munmapSem _ => 4
  | .munmapState _ => 3
  | .teardown _ => 2
  | .exited _ | .panicked => 0

def Child.rank : Child → Nat
  | .absent => 6
  | .semWait => 5
  | .execv => 4
  | .setErrno _ => 3
  | .setFailed _ => 2
  | .exit _ | .replaced => 1
  | .exited _ => 0

def World.rank (n : Nat) (w : World H) : Nat :=
  w.parent.rank n + w.child.rank

theorem rank_registering (n : Nat) (rest : List (Nat × H)) :
    (registering b rest).rank n < rest.length + 9 := by
  rcases rest with _ | ⟨r, rest⟩
  · rw [registering]
    split <;> simp [Parent.rank]
  · simp [registering, Parent.rank]

/-- Every action brings one of the two programs nearer to its end. -/
theorem rank_step (h : Sound table b w) {act : Action} (hstep : step table b w act = some w') :
    w'.rank (b.registrations table).length < w.rank (b.registrations table).length := by
  have hreg := rank_registering (b := b) (b.registrations table).length
  have hstage := h.stage
  rcases w with ⟨point, child, _⟩
  have hfork : point = .fork → child = .absent := by
    rintro rfl
    exact hstage.2.2.2
  clear h hstage
  cases act
  all_goals dsimp only [step, World.stepParent, World.stepChild, callSys] at hstep
  -- One goal for each way an action can end.
  all_goals repeat' split at hstep
  all_goals cases hstep
  all_goals dsimp only [World.rank, Parent.rank]
  all_goals grind [Parent.rank, Child.rank, cases Child]

/-- No interleaving goes on for ever. -/
theorem launch_bounded {acts : List Action}
    (h : replay (step table b) (fun _ _ => True) (start argv) acts = some w) :
    acts.length ≤ (b.registrations table).length + 18 := by
  have hle := length_le_of_replay (fun _ _ _ hs hstep => ⟨sound_step hs hstep, rank_step hs hstep⟩)
    sound_start h
  have hstart : (start argv : World H).parent.rank (b.registrations table).length ≤
      (b.registrations table).length + 12 := by
    unfold start
    split
    · exact Nat.le_add_left_of_le (show 2 ≤ 12 by decide)
    · split
      · exact Nat.zero_le _
      · exact Nat.le_refl _
  have hchild : (start argv : World H).child.rank = 6 := rfl
  rw [World.rank, World.rank] at hle
  omega

theorem launch_bounded_launchRun : launchRun.length ≤ 19 := by
  have hsome : (replay (step [] oneHandler) (fun _ _ => True) (start [['c']]) launchRun).isSome =
      true := by decide
  exact launch_bounded (Option.some_get hsome).symm

end LindGrates.Launch
