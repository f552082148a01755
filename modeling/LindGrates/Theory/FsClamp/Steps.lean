import LindGrates.Theory.FsClamp.Frame

/-!
# What the Cages behind the Clamp Can Do

Each kind of action, and everything it can do to the world. Later arguments about
runs go through these lemmas and never through the handlers.

## Main definitions

* `Registers`: Only the routes of one cage differ.
* `ExecStep`: What an `exec` does, by its name and the depth.

## Theorems

* `ensures_registerAll`: The loop over the calls registers them.
* `step_call`, `step_fork`, `step_exec`, `step_exit`: The steps of a run.
-/

namespace LindGrates.FsClamp

open FdTables ManagedTables Dialogue World Function List Option
open Script (serve)

variable {T : Type} {n : Nat} {replies : List Int} {x x' : Script} {ret : Int} {w1 : World T}
  {c : Request}

/-! ## Putting handlers in place -/

/-- Only routes of one cage, for file system calls, and the supply of alternate
    numbers differ. -/
structure Registers (cage : Nat) (s s' : State T) : Prop where
  same : s' = { s with routes := s'.routes, altAllocator := s'.altAllocator }
  routes : ∀ c, c ≠ cage → s'.routes c = s.routes c
  calls : ∀ c sys, sys ∉ fsCalls → s'.routes c sys = s.routes c sys

theorem Registers.refl (cage : Nat) (s : State T) : Registers cage s s :=
  ⟨rfl, fun _ _ => rfl, fun _ _ _ => rfl⟩

variable {cage : Nat} {s s' : State T} {sys : Sys}

theorem Registers.trans {s'' : State T} (h : Registers cage s s') (h' : Registers cage s' s'') :
    Registers cage s s'' := by
  refine ⟨?_, fun c hc => (h'.routes c hc).trans (h.routes c hc),
    fun c sys hsys => (h'.calls c sys hsys).trans (h.calls c sys hsys)⟩
  rw [h'.same, h.same]

theorem Registers.request (h : Registers cage s s') (c : Nat) (sys : Sys) :
    s'.getInterpositionRequest c sys = s.getInterpositionRequest c sys := by
  rw [h.same]
  rfl

theorem registers_setRoute (s : State T) (cage : Nat) (hsys : sys ∈ fsCalls) :
    Registers cage s ({ s with altAllocator := s.altAllocator + 1 }.setRoute cage sys
      s.altAllocator) := by
  refine ⟨rfl, fun _ hc => update_of_ne hc _ _, fun c sys' hsys' => ?_⟩
  have hne : sys' ≠ sys := fun heq => hsys' (heq ▸ hsys)
  by_cases hc : c = cage
  · rw [hc]
    exact (congrFun (update_self ..) sys').trans (update_of_ne hne _ _)
  · exact congrFun (update_of_ne hc _ _) sys'

def registrations (s : State T) (cage : Nat) : List Sys → Nat
  | [] => 1
  | sys :: rest =>
    (if (s.getInterpositionRequest cage sys).isSome then 2 else 1) + registrations s cage rest

theorem registrations_congr (h : Registers cage s s') (calls : List Sys) :
    registrations s' cage calls = registrations s cage calls := by
  induction calls with
  | nil => rfl
  | cons _ _ ih => rw [registrations, registrations, h.request, ih]

/-- The first so many replies are zero. -/
def Accepts (n : Nat) (replies : List Int) : Prop :=
  ∀ r ∈ replies.take n, r = 0

instance (n : Nat) (replies : List Int) : Decidable (Accepts n replies) :=
  inferInstanceAs (Decidable (∀ r ∈ replies.take n, r = 0))

theorem accepts_cons {r : Int} (h : Accepts (n + 1) (r :: replies)) :
    r = 0 ∧ Accepts n replies :=
  ⟨h r (mem_cons_self ..), fun x hx => h x (mem_cons_of_mem _ hx)⟩

theorem accepts_add {m : Nat} (h : Accepts (m + n) replies) :
    Accepts m replies ∧ Accepts n (replies.drop m) := by
  unfold Accepts at h
  rw [take_add] at h
  exact ⟨fun r hr => h r (mem_append_left _ hr), fun r hr => h r (mem_append_right _ hr)⟩

/-- What a part of the loop over the calls comes to: it touches little, and if its
    registrations are accepted it goes on and has put the handlers in place. -/
def Installs (cage : Nat) (s : State T) (n : Nat) (calls : List Sys) (x x' : Script)
    (r : State T × Int) : Prop :=
  Registers cage s r.1 ∧ (Accepts n x.replies → r.2 = 0 ∧ x'.replies = x.replies.drop n ∧
    x'.registered = x.registered ++ calls.map fun sys => (cage, sys))

theorem serve_plain {q : Ask} (hq : ∀ c sys, q ≠ .registerNs c sys)
    (h : x.serve q = some (x', ret)) :
    x.replies = ret :: x'.replies ∧ x'.registered = x.registered := by
  unfold serve at h
  split at h
  · cases h
  rename_i r replies hreplies
  split at h
  · exact absurd rfl (hq _ _)
  · cases h
    exact ⟨hreplies, rfl⟩

theorem head_of_serve {f : Forward} (h : x.serve (.syscall f) = some (x', ret)) :
    ret ∈ x.replies.head? := by
  rw [(serve_plain (fun _ _ => Ask.noConfusion) h).1]
  rfl

theorem serve_registerNs {c : Nat} (h : x.serve (.registerNs c sys) = some (x', ret)) :
    x.replies = ret :: x'.replies ∧
      x'.registered = if ret = 0 then x.registered ++ [(c, sys)] else x.registered := by
  unfold serve at h
  split at h
  · cases h
  rename_i r replies hreplies
  cases h
  exact ⟨hreplies, rfl⟩

theorem ensures_registerVisible (s : State T) (cage : Nat) (sys : Sys) (x : Script) :
    Ensures serve (registerVisible s cage sys) x (Installs cage s 1 [sys] x) := by
  refine ensures_ask fun x' ret hserve => ensures_done ⟨.refl cage s, fun hok => ?_⟩
  rcases serve_registerNs hserve with ⟨hreplies, hregistered⟩
  rw [hreplies] at hok ⊢
  have hret := (accepts_cons hok).1
  rw [if_pos hret] at hregistered
  exact ⟨if_pos hret, rfl, hregistered⟩

theorem ensures_registerOne (s : State T) (cage : Nat) (hsys : sys ∈ fsCalls) (x : Script) :
    Ensures serve (registerOne s cage sys) x
      (Installs cage s (if (s.getInterpositionRequest cage sys).isSome then 2 else 1) [sys] x) := by
  unfold registerOne
  split
  next grateId handlerFn hreq =>
    rw [hreq]
    refine ensures_request fun x1 ret hserve => ?_
    rcases serve_plain (fun _ _ => Ask.noConfusion) hserve with ⟨hreplies, hsame⟩
    split
    next hret =>
      refine ensures_done ⟨⟨rfl, fun _ _ => rfl, fun _ _ _ => rfl⟩, fun hok => absurd ?_ hret⟩
      rw [hreplies] at hok
      exact (accepts_cons hok).1
    refine ensures_mono (ensures_registerVisible _ cage sys x1) fun x' r h => ?_
    refine ⟨(registers_setRoute s cage hsys).trans h.1, fun hok => ?_⟩
    rw [hreplies] at hok ⊢
    rcases h.2 (accepts_cons hok).2 with ⟨hcode, hdrop, hregistered⟩
    exact ⟨hcode, hdrop, by rw [hregistered, hsame]⟩
  next hreq =>
    rw [hreq]
    exact ensures_registerVisible s cage sys x

/-- The loop over the calls, by induction on those that are left. -/
theorem ensures_registerAll (cage : Nat) {calls : List Sys} (hcalls : calls ⊆ fsCalls) :
    ∀ (s : State T) (x : Script), Ensures serve (registerAll cage calls s) x
      (Installs cage s (registrations s cage calls) calls x) := by
  induction calls with
  | nil =>
    intro s x
    refine ensures_ask fun x' ret hserve => ensures_done ⟨.refl cage s, fun hok => ?_⟩
    rcases serve_plain (fun _ _ => Ask.noConfusion) hserve with ⟨hreplies, hsame⟩
    rw [hreplies] at hok ⊢
    exact ⟨if_pos (accepts_cons hok).1, rfl, by rw [hsame, map_nil, append_nil]⟩
  | cons sys rest ih =>
    intro s x
    have hsys : sys ∈ fsCalls := hcalls (mem_cons_self ..)
    refine ensures_bind (ensures_registerOne s cage hsys x) fun x1 r h1 => ?_
    simp only []
    split
    · refine ensures_mono (ih (subset_of_cons_subset hcalls) r.1 x1) fun x' r' h => ?_
      refine ⟨h1.1.trans h.1, fun hok => ?_⟩
      rcases h1.2 (accepts_add hok).1 with ⟨_, hdrop1, hreg1⟩
      have hrest := h.2
      rw [registrations_congr h1.1, hdrop1] at hrest
      rcases hrest (accepts_add hok).2 with ⟨hcode', hdrop, hreg⟩
      refine ⟨hcode', ?_, ?_⟩
      · rw [hdrop, drop_drop, registrations]
      · rw [hreg, hreg1, append_assoc]
        rfl
    next hcode => exact ensures_done ⟨h1.1, fun hok => absurd (h1.2 (accepts_add hok).1).1 hcode⟩

/-! ## The actions -/

structure SameCages (w w' : World T) : Prop where
  live : w'.live = w.live
  handled : w'.handled = w.handled
  execs : w'.execs = w.execs
  registered : w'.registered = w.registered

theorem serve_ask_plain {reg : List (Nat × Sys)} (x : Script) (q : Ask) (x' : Script) (ret : Int)
    (hx : x.registered = reg) (hq : q.Plain) (h : x.serve q = some (x', ret)) :
    x'.registered = reg := by
  refine (serve_plain (fun c sys hns => ?_) h).2.trans hx
  rw [hns] at hq
  exact hq

section Actions

variable [ManagedTables T] {w w' : World T} {cage : Nat} {args : Fin 6 → Word} {mem : Memory}
  {replies : List Int} {reply : Int}

theorem step_call [LawfulManagedTables T] {sys : Sys}
    (h : w.step (.call cage sys args mem replies) = some w') :
    w.live cage = true ∧ w.handled cage = true ∧ Touches cage w.state w'.state ∧
      SameCages w w' := by
  rw [step] at h
  split at h
  next hcage =>
    rcases bind_eq_some_iff.mp h with ⟨d, hd, hafter⟩
    rcases map_eq_some_iff.mp hafter with ⟨r, hrun, hw'⟩
    have hens := ensures_of_always serve_ask_plain (touches_nsHandler hd)
      (show (⟨replies, w.registered⟩ : Script).registered = w.registered from rfl) r.1 r.2 hrun
    subst hw'
    exact ⟨hcage.1, hcage.2, hens.2, rfl, rfl, rfl, hens.1⟩
  · cases h

theorem run_forkHandler (s : State T) (isThread : Bool) (c : Request) (reply : Int)
    (reg : List (Nat × Sys)) :
    (forkHandler s isThread c).run serve ⟨[reply], reg⟩ =
      some (⟨[], reg⟩,
        if isThread then .ok (s, asI32 (wordOf reply).toNat)
        else if checkCageExists s.fds (wordOf reply).toNat then .error .panic
        else .ok (s.copyCage (c.argcages 0) (wordOf reply).toNat, asI32 (wordOf reply).toNat)) := by
  simp only [forkHandler, doSyscall, request_bind, run_ask, serve, bind_some]
  split
  · rfl
  split
  · rfl
  · rfl

theorem step_fork {isThread : Bool} (h : w.step (.fork cage args isThread reply) = some w') :
    w.live cage = true ∧
      ((isThread = true ∧ w' = w) ∨
        (isThread = false ∧ w.ForkReply reply ∧
          checkCageExists w.state.fds (wordOf reply).toNat = false ∧
          ∃ w1 : World T, w1 = { w with state := w.state.copyCage cage (wordOf reply).toNat } ∧
            w' = if 0 < reply then w1.addCage cage reply.toNat else w1)) := by
  rw [step] at h
  split at h
  next hcage =>
    refine ⟨hcage.1, ?_⟩
    rcases map_eq_some_iff.mp h with ⟨w1, hafter, hw'⟩
    rcases bind_eq_some_iff.mp hafter with ⟨r, hrun, hfinal⟩
    rw [run_forkHandler] at hrun
    cases hrun
    cases isThread with
    | true =>
      cases hfinal
      exact .inl ⟨rfl, hw'.symm⟩
    | false =>
      refine .inr ⟨rfl, hcage.2.resolve_left Bool.false_ne_true, ?_⟩
      cases hexists : checkCageExists w.state.fds (wordOf reply).toNat with
      | true =>
        simp only [hexists] at hfinal
        cases hfinal
      | false =>
        simp only [hexists] at hfinal
        cases hfinal
        refine ⟨rfl, _, rfl, ?_⟩
        rw [← hw']
        by_cases hpos : 0 < reply
        · rw [if_pos ⟨rfl, hpos⟩, if_pos hpos]
        · rw [if_neg fun hc => hpos hc.2, if_neg hpos]
  · cases h

theorem step_exit (h : w.step (.exit cage args reply) = some w') :
    w.live cage = true ∧ w' =
      { w with
        state := w.state.dropCage cage
        live := update w.live cage false
        handled := update w.handled cage false } := by
  rw [step] at h
  split at h
  next hcage =>
    cases h
    exact ⟨hcage, rfl⟩
  · cases h

theorem step_register {request : Interposition} (h : w.step (.register request reply) = some w') :
    w' = { w with state := w.state.pushInterpositionRequest request } := by
  cases h
  rfl

/-- What an `exec` does, by the name it is made with and the depth. -/
inductive ExecStep (w : World T) (cage : Nat) (replies : List Int) : Str → World T → Prop
  | opening (w' : World T) (hw' : w' =
      { w with state := w.state.enterNestedClamp, execs := w.execs ++ [(cage, openMarker)] }) :
      ExecStep w cage replies openMarker w'
  | inner (w' : World T) (hdepth : 1 < w.state.clampDepth) (hw' : w' =
      { w with state := w.state.exitNestedClamp, execs := w.execs ++ [(cage, closeMarker)] }) :
      ExecStep w cage replies closeMarker w'
  | closing (s : State T) (w' : World T) (hdepth : ¬1 < w.state.clampDepth)
      (hs : Registers cage w.state s) (hw' : w' =
        { w with
          state := (s.deregisterClampedCage cage).exitNestedClamp
          execs := w.execs ++ [(cage, closeMarker)]
          handled := update w.handled cage true
          registered := w'.registered })
      (hregistered : Accepts (registrations w.state cage fsCalls) replies →
        w'.registered = w.registered ++ fsCalls.map fun sys => (cage, sys)) :
      ExecStep w cage replies closeMarker w'
  | program (path : Str) (w' : World T) (hopen : path ≠ openMarker) (hclose : path ≠ closeMarker)
      (hw' : w' =
        { w with
          state := if w.state.clampDepth = 1 then w.state.setClampEntry cage else w.state
          execs := w.execs ++ [(cage, path)] }) :
      ExecStep w cage replies path w'

omit [ManagedTables T] in
theorem afterRun_forwardExec {s : State T}
    (h : w.afterRun (forwardExec s c) replies = some w1) : w1 = { w with state := s } := by
  rcases bind_eq_some_iff.mp h with ⟨r, hrun, hfinal⟩
  rcases replies with _ | _
  · cases hrun
  cases hrun
  cases hfinal
  rfl

omit [ManagedTables T] in
theorem afterRun_closeClamp (h : w.afterRun (closeClamp w.state mem c) replies = some w1) :
    ∃ s, Registers (c.argcages 0) w.state s ∧
      w1 = { w with
        state := (s.deregisterClampedCage (c.argcages 0)).exitNestedClamp
        registered := w1.registered } ∧
      (Accepts (registrations w.state (c.argcages 0) fsCalls) replies →
        w1.registered = w.registered ++ fsCalls.map fun sys => (c.argcages 0, sys)) := by
  rcases bind_eq_some_iff.mp h with ⟨r, hrun, hfinal⟩
  rcases map_eq_some_iff.mp hfinal with ⟨final, hok, hw1⟩
  have hens : Ensures serve (closeClamp w.state mem c) ⟨replies, w.registered⟩
      fun x' out => ∃ s ret, Registers (c.argcages 0) w.state s ∧
        out = .ok ((s.deregisterClampedCage (c.argcages 0)).exitNestedClamp, ret) ∧
        (Accepts (registrations w.state (c.argcages 0) fsCalls) replies →
          x'.registered = w.registered ++ fsCalls.map fun sys => (c.argcages 0, sys)) := by
    refine ensures_bind (ensures_registerAll (c.argcages 0) (List.Subset.refl _) w.state _)
      fun x1 r1 h1 => ?_
    simp only []
    split
    · exact ensures_done ⟨r1.1, _, h1.1, rfl, fun hacc => (h1.2 hacc).2.2⟩
    refine ensures_request fun x2 ret hserve => ensures_done ⟨r1.1, ret, h1.1, rfl, ?_⟩
    intro hacc
    rw [(serve_plain (fun _ _ => Ask.noConfusion) hserve).2]
    exact (h1.2 hacc).2.2
  rcases hens r.1 r.2 hrun with ⟨s, ret, hreg, hout, hacc⟩
  rw [hout] at hok
  cases hok
  subst hw1
  exact ⟨s, hreg, rfl, hacc⟩

theorem step_exec (h : w.step (.exec cage args mem replies) = some w') :
    w.live cage = true ∧ ∃ path, readPathFromCage mem (args 0) cage = some path ∧
      ExecStep w cage replies path w' := by
  rw [step] at h
  split at h
  next hcage =>
    refine ⟨hcage, ?_⟩
    rcases bind_eq_some_iff.mp h with ⟨path, hpath, hrest⟩
    rcases map_eq_some_iff.mp hrest with ⟨w1, hafter, hw'⟩
    refine ⟨path, hpath, ?_⟩
    simp only [execHandler, ownCall, hpath] at hafter
    by_cases hopen : path = openMarker
    · rw [if_pos hopen] at hafter
      rw [afterRun_forwardExec hafter] at hw'
      subst hopen
      exact .opening w' hw'.symm
    rw [if_neg hopen] at hafter
    by_cases hclose : path = closeMarker
    · subst hclose
      by_cases hdepth : 1 < w.state.clampDepth
      · rw [if_pos hdepth] at hafter
        rw [afterRun_forwardExec hafter, if_neg fun hc => by omega] at hw'
        exact .inner w' hdepth hw'.symm
      rw [if_neg hdepth] at hafter
      rcases afterRun_closeClamp hafter with ⟨s, hreg, hw1, hacc⟩
      rw [if_pos ⟨rfl, Nat.le_of_not_lt hdepth⟩] at hw'
      subst hw'
      refine .closing s _ hdepth hreg ?_ hacc
      rw [hw1]
    · rw [if_neg hclose] at hafter
      have hhandled : (if path = closeMarker ∧ w.state.clampDepth ≤ 1 then
          update w.handled cage true else w.handled) = w.handled :=
        if_neg fun hc => hclose hc.1
      rw [afterRun_forwardExec hafter, hhandled] at hw'
      exact .program path w' hopen hclose hw'.symm
  · cases h

end Actions

/-! ## A concrete clamp -/

/-- A clamp with the prefix `/tmp` and its first cage, cage 2. -/
def loneWorld : World (MapTables 16) :=
  { state := initState 1 "/tmp".toList (MapTables.unregistered 16) 2
    live := fun c => decide (c = 2)
    handled := fun _ => false
    execs := []
    registered := [] }

theorem loneWorld_start : World.Start loneWorld where
  state := ⟨1, "/tmp".toList, MapTables.unregistered 16, 2, by decide, fun _ => rfl, rfl, rfl⟩
  handled _ := rfl
  execs := rfl
  registered := rfl

def textMem (text : String) : Memory :=
  fun _ _ => some (Str.bytes text.toList ++ [0])

def execs (cage : Nat) (name : String) : Action :=
  .exec cage (fun _ => 0) (textMem name) (List.replicate 128 0)

def forks (cage : Nat) (reply : Int) : Action :=
  .fork cage (fun _ => 0) false reply

end LindGrates.FsClamp
