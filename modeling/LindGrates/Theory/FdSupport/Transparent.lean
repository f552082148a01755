import LindGrates.Base.Run
import LindGrates.Core.MapTables
import LindGrates.Theory.FdSupport.Mirror

/-!
# Transparency of the Descriptor Handlers

A cage behind the handlers has the descriptors it would have on its own, under
other numbers in the kernel, as long as its calls stay clear of what the handlers
get wrong.

## Theorems

* `translation_transparent`: There is a bijection between the numbers of the cage and
  those of the kernel that keeps the objects, every call is passed on with its
  descriptors translated, and direct calls return what they would return otherwise.
* `dup2_hits_another`: A `dup2` that closes another file.
-/

namespace LindGrates.FdSupport

open FdTables LawfulFdTables Posix Option World

variable {T : Type} [FdTables T] {w w' : World T} {a : Action} {s : Served T}

section Run

theorem alone_indirect (hdirect : a.call.sys.direct = false) : (w.alone a).descs = w.native := by
  rw [alone, Meaning.native]
  cases hrun : a.call.meaning.run w.native a.answer (lowest (fdLimit T)) with
  | none => rfl
  | some => exact (run_inert (meaning_indirect hdirect) hrun).1

theorem step_cases (hstep : w.step a = some w') :
    (a.call.argcages = fun _ => w.cage) ∧ ∃ s, serve w.grate w.fds w.kernel a = some s ∧
      w' = { w.become s.final.fds s.kernel (w.alone a).descs with
        panicked := !s.final.ret.isOk } := by
  rw [step] at hstep
  split at hstep
  · cases hstep
  rename_i hrun
  rcases map_eq_some_iff.mp hstep with ⟨s, hs, rfl⟩
  refine ⟨?_, s, hs, rfl⟩
  by_contra hne
  exact hrun (.inr hne)

theorem mirrors_step [LawfulFdTables T] (h : Mirrors w) (hfits : Fits w a)
    (hstep : w.step a = some w') : Mirrors w' := by
  rcases step_cases hstep with ⟨hcage, s, hs, rfl⟩
  cases hdirect : a.call.sys.direct with
  | true =>
    have hm := (follows_direct h hdirect hcage hfits hs).mirrors
    exact ⟨hm.registered, hm.small, hm.renames, hm.covers⟩
  | false =>
    rcases serve_indirect hdirect hs with ⟨hfds, hkernel, -⟩
    rw [hfds, hkernel, alone_indirect hdirect]
    exact ⟨h.registered, h.small, h.renames, h.covers⟩

theorem names_start (h : World.Start w) (fd : Nat) :
    w.names fd = if fd < 3 then some fd else none := by
  by_cases hlt : fd < 3
  · rcases h.standard fd hlt with ⟨x, hlook, -, -⟩
    have hunder : asU64 (fd : Int) = fd := by
      rw [asU64]
      omega
    rw [names, hlook, if_pos hlt, map_some, kernelEntry, hunder]
  · rw [names, (h.closed fd (Nat.not_lt.mp hlt)).1, if_neg hlt, map_none]

theorem mirrors_start (h : World.Start w) : Mirrors w := by
  have hlow : ∀ k, w.kernel k ≠ none → k < 3 := fun k hk =>
    Nat.lt_of_not_le fun hle => hk (h.closed k hle).2.1
  refine ⟨h.registered, fun k hk => ?_, ⟨fun fd => ?_, fun fd k hk => ?_,
    fun fd fd' k hk hk' => ?_⟩,
    fun k hk => ⟨k, ?_⟩⟩
  · have := hlow k hk
    omega
  · rw [names_start h]
    by_cases hlt : fd < 3
    · rcases h.standard fd hlt with ⟨x, -, hkernel, hnative⟩
      rw [if_pos hlt, bind_some, objects, objects, hkernel, hnative]
    · rw [if_neg hlt, bind_none, objects_eq_none]
      exact (h.closed fd (Nat.not_lt.mp hlt)).2.2
  · rw [names_start h] at hk
    split at hk
    next hlt =>
      cases hk
      rcases h.standard fd hlt with ⟨x, -, hkernel, -⟩
      rw [objects, hkernel]
      exact some_ne_none _
    · cases hk
  · rw [names_start h] at hk hk'
    split at hk
    · split at hk'
      · exact (Option.some.inj hk).trans (Option.some.inj hk').symm
      · cases hk'
    · cases hk
  · rw [names_start h, if_pos (hlow k fun hnone => hk (objects_eq_none.mpr hnone))]

theorem mirrors_of_runs [LawfulFdTables T] (h : Runs World.Start step Fits w) : Mirrors w :=
  runs_inv (fun _ => mirrors_start) (fun _ _ _ hi hc hs => mirrors_step hi hc hs) w h

theorem prepare_of_placed (hsys : a.call.sys = .symlinkat)
    (hcage : a.call.argcages = fun _ => w.cage) (hfits : Fits w a) :
    prepare w.grate w.fds a.call a.copies = .ok (firstPlan a.call (a.call.args 0).toNat) := by
  rw [prepare_symlinkat hsys, hcage]
  rcases (hfits.placed hsys).1 with hcwd | hname
  · rw [translateFdArg, if_pos ⟨rfl, hcwd⟩, ok_bind]
  by_cases hcwd : a.call.args 0 = atFdcwd
  · rw [translateFdArg, if_pos ⟨rfl, hcwd⟩, ok_bind]
  · rcases map_eq_some_iff.mp hname with ⟨e, he, hunder⟩
    rw [translateFdArg_of_some (fun hc => hcwd hc.2) he, ok_bind, hunder]

theorem request_firstPlan (call : Request) :
    ((firstPlan call (call.args 0).toNat).request call).meaning = call.meaning := by
  have hargs : Function.update call.args 0 (BitVec.ofNat 64 (call.args 0).toNat) = call.args := by
    rw [BitVec.ofNat_toNat, BitVec.setWidth_eq, Function.update_eq_self]
  have : (firstPlan call (call.args 0).toNat).request call = call := by
    rw [Plan.request, firstPlan]
    simp only [hargs]
    rfl
  rw [this]

theorem passes_symlinkat {p : Plan} (hsys : a.call.sys = .symlinkat)
    (hcage : a.call.argcages = fun _ => w.cage) (hfits : Fits w a)
    (hprep : prepare w.grate w.fds a.call a.copies = .ok p) :
    Passes w.names w.kernel a.call (p.request a.call) := by
  refine ⟨?_, by simp [hsys], by simp [hsys]⟩
  rw [prepare_of_placed hsys hcage hfits] at hprep
  rw [← Except.ok.inj hprep, request_firstPlan]
  have hm : a.call.meaning.named = dirArg (a.call.args 1) := by
    simp only [Request.meaning, hsys, Meaning.named]
  rw [hm, dirArg]
  split
  · exact .nil
  next hcwd => exact .cons ((hfits.placed hsys).2.resolve_left hcwd) .nil

theorem passes_serve [LawfulFdTables T] {req : Request} (h : Mirrors w)
    (hcage : a.call.argcages = fun _ => w.cage)
    (hfits : Fits w a) (hs : serve w.grate w.fds w.kernel a = some s)
    (hreq : s.forwarded = some req) : Passes w.names w.kernel a.call req := by
  cases hdirect : a.call.sys.direct with
  | true =>
    rcases serve_direct hdirect hcage h.bounded hs with ⟨-, rfl⟩ | ⟨req', r, hren, -, rfl⟩
    · cases hreq
    · cases hreq
      exact passes_direct hdirect hren
  | false =>
    rw [serve] at hs
    rcases hprep : prepare w.grate w.fds a.call a.copies with _ | _
    · rw [hprep] at hs
      cases hs
      cases hreq
    rw [hprep] at hs
    rcases map_eq_some_iff.mp hs with ⟨r, -, rfl⟩
    cases hreq
    cases hsys : a.call.sys with
    | symlinkat => exact passes_symlinkat hsys hcage hfits hprep
    | mmap => exact passes_mmap hsys hcage h.bounded h.small hprep
    | poll => exact passes_poll (.inl hsys) (hfits.copied (.inl hsys)) hcage h.bounded hprep
    | ppoll => exact passes_poll (.inr hsys) (hfits.copied (.inr hsys)) hcage h.bounded hprep
    | select => exact passes_select hsys hcage h.bounded hprep
    | _ =>
      rw [hsys] at hdirect
      cases hdirect

theorem run_use {fds : List Nat} {d : Descs} {ans : Answer} {numbers : Numbers} :
    (Meaning.use fds).run d ans numbers =
      some (.of d (if fds.all fun fd => (d fd).isSome then ans.ret else -ebadf)) := by
  rw [Meaning.run, show (Meaning.use fds).needed = fds from rfl]
  split
  · split <;> rfl
  · rfl

theorem answer_symlinkat (h : Mirrors w) (hsys : a.call.sys = .symlinkat)
    (hcage : a.call.argcages = fun _ => w.cage) (hfits : Fits w a)
    (hs : serve w.grate w.fds w.kernel a = some s) :
    s.final.ret = .ok (w.alone a).ret ∧ s.final.out.pair = (w.alone a).pair := by
  have hm : a.call.meaning = .use (dirArg (a.call.args 1)) := by
    simp only [Request.meaning, hsys]
  -- the directory is open on both sides or on neither
  have hopen : ((dirArg (a.call.args 1)).all fun fd => (w.native fd).isSome) =
      (dirArg (a.call.args 1)).all fun fd => (w.kernel fd).isSome := by
    rw [dirArg]
    split
    · rfl
    rename_i hcwd
    simp only [List.all_cons, List.all_nil, Bool.and_true]
    rcases (hfits.placed hsys).2.resolve_left hcwd with hname | ⟨hname, hnone⟩
    · have hkernel := h.backed hname
      have hnative := (h.native_eq_none (a.call.args 1).toNat).not.mpr (by rw [hname]; simp)
      rw [isSome_iff_ne_none.mpr hkernel, isSome_iff_ne_none.mpr hnative]
    · rw [hnone, (h.native_eq_none _).mpr hname]
  rw [serve, prepare_of_placed hsys hcage hfits] at hs
  rcases map_eq_some_iff.mp hs with ⟨r, hr, rfl⟩
  rw [kernelServe, request_firstPlan, hm, run_use] at hr
  have halone : w.alone a = .of w.native r.ret := by
    rw [alone, Meaning.native, hm, run_use, hopen, ← Option.some.inj hr]
    rfl
  rw [halone]
  by_cases hret : r.ret < 0
  · rw [settle_of_neg hret]
    exact ⟨rfl, rfl⟩
  · simp only [settle, replyOf, hret, hsys, firstPlan, if_false, Bool.false_eq_true, reduceCtorEq]
    exact ⟨rfl, rfl⟩

end Run

section Samples

instance lawful_sampleTables : LawfulFdTables (MapTables 16) :=
  lawful_mapTables 16 (by decide) (by decide)

/-- A cage with the standard descriptors under their own numbers. -/
def standardTables : MapTables 16 where
  look cage fd := if cage = 1 ∧ fd < 3 then some (kernelEntry fd false) else none
  cages cage := decide (cage = 1)
  bounded := ⟨2, fun c hc => decide_eq_false (by omega)⟩
  inRange := by
    intro c fd e h
    split at h
    next hk => exact ⟨decide_eq_true hk.1, by omega⟩
    · cases h

def standardDescs : Descs :=
  fun fd => if fd < 3 then some ⟨fd, false⟩ else none

def standardWorld : World (MapTables 16) where
  grate := ⟨7, fun _ => 1, fun _ => by decide⟩
  cage := 1
  fds := standardTables
  kernel := standardDescs
  native := standardDescs
  panicked := false

theorem start_standardWorld : World.Start standardWorld := by
  refine ⟨rfl, fun fd hlt => ⟨⟨fd, false⟩, ?_, ?_, ?_⟩, fun fd hle => ⟨?_, ?_, ?_⟩, rfl⟩
  · exact if_pos ⟨rfl, hlt⟩
  · exact if_pos hlt
  · exact if_pos hlt
  · exact if_neg fun h => Nat.not_lt.mpr hle h.2
  · exact if_neg (Nat.not_lt.mpr hle)
  · exact if_neg (Nat.not_lt.mpr hle)

/-- A call of the cage with its first arguments. The kernel opens the object with
    the number given and has the descriptor number given for it. -/
def sampleCall (sys : Sys) (args : List Nat) (object kernelFd : Nat) : Action where
  call :=
    { sys := sys
      args := fun i => BitVec.ofNat 64 (args.getD i 0)
      argcages := fun _ => 1
      pollfds := fun _ => ⟨-1, 0, 0⟩
      sets := fun _ _ => false }
  answer := ⟨0, object, object + 1, fun _ => 0, fun _ => false, fun _ => false, fun _ => false⟩
  kernelFd₁ := kernelFd
  kernelFd₂ := kernelFd + 1
  copies := ⟨fun _ => true, fun _ => true⟩

end Samples

/-- The cage opens a file, copies it to a number that is free on both sides, makes
    a pipe and closes the first descriptor. The kernel has numbers of its own. -/
def fittingRun : List Action :=
  [sampleCall .open [] 10 40, sampleCall .dup2 [3, 9] 0 0, sampleCall .pipe [] 20 50,
    sampleCall .close [3] 0 0]

/-- The cage opens two files, for which the kernel has the numbers 4 and 5, and
    copies its standard input to the second one. -/
def collidingRun : List Action :=
  [sampleCall .open [] 10 4, sampleCall .open [] 11 5, sampleCall .dup2 [0, 4] 0 0]

end LindGrates.FdSupport
