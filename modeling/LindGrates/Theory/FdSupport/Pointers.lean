import LindGrates.Theory.FdSupport.Serve

/-!
# Descriptors behind Pointers

The calls that stand apart: `poll` and `select`, which have their descriptors
behind pointers, `mmap`, which may have none, and `symlinkat`, whose directory is
not where its table looks.

## Main definitions

* `Passes`: Every descriptor in the call that is passed on stands for the cage's.

## Theorems

* `serve_indirect`: These calls change neither the tables nor the kernel's descriptors.
* `passes_mmap`, `passes_poll`, `passes_select`: What is passed on for them.
-/

namespace LindGrates.FdSupport

open FdTables LawfulFdTables Posix Function List Request

variable {T : Type} [FdTables T] {t : T} {cage : Nat} {a : Action} {g : Grate} {kernel : Descs}
  {s : Served T} {call : Request} {copies : Copies} {p : Plan} {want : Fin 3 → Nat → Bool}
  {sel : Selection} {i : Fin 3} {k : Nat}

structure Idle (p : Plan) : Prop where
  dup2 : p.shouldDup2 = false
  create : p.shouldCreateVfd = false
  pipe : p.shouldPipe = false
  socketpair : p.shouldSocketpair = false

section Plans

theorem prepare_symlinkat (hsys : call.sys = .symlinkat) :
    prepare g t call copies =
      translateFdArg t (call.argcages 0) (call.args 0) .dirFd >>= fun underfd =>
        .ok (firstPlan call underfd) := by
  rw [prepare, hsys, Sys.fdSpecs, dirfdArg1, foldlM_cons]
  simp only [planArg, hsys, reduceCtorEq, false_and, if_false, firstPlan]
  cases translateFdArg t (call.argcages 0) (call.args 0) .dirFd <;> rfl

/-- The plan of a `mmap`, whose descriptor is its fifth argument. -/
def mmapPlan (call : Request) (word : Word) : Plan where
  args := update call.args 4 word
  argcages := call.argcages
  vfdClose := call.args 4

theorem prepare_mmap (hsys : call.sys = .mmap) :
    prepare g t call copies =
      if call.args 4 = BitVec.allOnes 64 then .ok (mmapPlan call (call.args 4))
      else translateFdArg t (call.argcages 4) (call.args 4) .fd >>= fun underfd =>
        .ok (mmapPlan call (BitVec.ofNat 64 underfd)) := by
  rw [prepare, hsys, Sys.fdSpecs, fdArg5, foldlM_cons]
  simp only [planArg, hsys, true_and, mmapPlan]
  split
  · rw [update_eq_self]
    rfl
  · cases translateFdArg t (call.argcages 4) (call.args 4) .fd <;> rfl

def pollPlan (g : Grate) (call : Request) (fds : List PollFd) (originals : List (BitVec 32)) :
    Plan where
  args := update call.args 0 (g.buffer .pollfds)
  argcages := update call.argcages 0 (g.id ||| argTranslateFlag)
  shouldPoll := true
  pollfds := fds
  pollfdOriginalFds := originals

def Request.nfds (call : Request) : Nat :=
  asUsize (call.args 1).toNat

/-- The array the handler gets to see. -/
def Request.polls (call : Request) (copies : Copies) : List PollFd :=
  if copies.fromCage 0 then (List.range call.nfds).map call.pollfds
  else replicate call.nfds ⟨-1, 0, 0⟩

theorem prepare_poll (hsys : call.sys = .poll ∨ call.sys = .ppoll)
    (h : prepare g t call copies = .ok p) :
    (call.nfds = 0 ∧ p = { args := call.args, argcages := call.argcages, shouldPoll := true }) ∨
      ∃ fds, (call.polls copies).mapM (translatePollFd t (call.argcages 0)) = .ok fds ∧
        p = pollPlan g call fds ((call.polls copies).map PollFd.fd) := by
  have hspec : call.sys.fdSpecs = poll1 := by
    rcases hsys with hsys | hsys <;> rw [hsys, Sys.fdSpecs]
  rw [prepare, hspec, poll1, foldlM_cons] at h
  simp only [planArg, copyInto_eq, Copies.getD_read] at h
  split at h
  next hzero =>
    cases h
    exact .inl ⟨hzero, rfl⟩
  split at h
  · cases h
  change (((call.polls copies).mapM (translatePollFd t (call.argcages 0)) >>= _) >>= _) = _ at h
  rcases hfds : (call.polls copies).mapM (translatePollFd t (call.argcages 0)) with _ | fds
  · rw [hfds] at h
    cases h
  rw [hfds] at h
  cases h
  exact .inr ⟨fds, rfl, rfl⟩

theorem prepare_select (hsys : call.sys = .select) :
    prepare g t call copies =
      .ok (planSelect g call { args := call.args, argcages := call.argcages }
        (selectLoop t (call.argcages 1) call copies)) := by
  rw [prepare, hsys]
  rfl

theorem idle_of_prepare (hdirect : call.sys.direct = false) (h : prepare g t call copies = .ok p) :
    Idle p := by
  cases hsys : call.sys with
  | symlinkat =>
    rw [prepare_symlinkat hsys] at h
    rcases (bind_eq_ok _ _ _).mp h with ⟨underfd, -, ⟨⟩⟩
    exact ⟨rfl, rfl, rfl, rfl⟩
  | mmap =>
    rw [prepare_mmap hsys] at h
    split at h
    · cases h
      exact ⟨rfl, rfl, rfl, rfl⟩
    · rcases (bind_eq_ok _ _ _).mp h with ⟨underfd, -, ⟨⟩⟩
      exact ⟨rfl, rfl, rfl, rfl⟩
  | poll | ppoll =>
    rcases prepare_poll (by simp [hsys]) h with ⟨-, rfl⟩ | ⟨fds, -, rfl⟩
    · exact ⟨rfl, rfl, rfl, rfl⟩
    · exact ⟨rfl, rfl, rfl, rfl⟩
  | select =>
    rw [prepare_select hsys] at h
    rw [← Except.ok.inj h]
    exact ⟨rfl, rfl, rfl, rfl⟩
  | _ =>
    rw [hsys] at hdirect
    cases hdirect

end Plans

theorem meaning_indirect (h : call.sys.direct = false) : call.meaning.inert = true := by
  cases hsys : call.sys with
  | symlinkat | mmap | poll | ppoll | select =>
    simp only [meaning, hsys]
    rfl
  | _ =>
    rw [hsys] at h
    cases h

theorem fds_settle_of_idle {reply : Reply} (hclose : call.sys ≠ .close) (hp : Idle p) :
    (settle t call p reply copies).fds = t := by
  rw [settle]
  simp only [hp.dup2, hp.create, hp.pipe, hp.socketpair, hclose, if_false, Bool.false_eq_true]
  split
  · rfl
  split
  · rw [finishPoll]
    split
    · rfl
    · simp only [copyOut_eq]
  split
  · rw [finishSelect]
    dsimp only
    split <;> rfl
  · rfl

/-- The calls that stand apart change neither the tables nor the descriptors of
    the kernel. -/
theorem serve_indirect (hdirect : a.call.sys.direct = false) (h : serve g t kernel a = some s) :
    s.final.fds = t ∧ s.kernel = kernel ∧ s.opened = [] := by
  rw [serve] at h
  rcases hprep : prepare g t a.call a.copies with stop | p
  · rw [hprep] at h
    cases h
    cases stop <;> exact ⟨rfl, rfl, rfl⟩
  rw [hprep] at h
  rcases Option.map_eq_some_iff.mp h with ⟨r, hr, rfl⟩
  have hclose : a.call.sys ≠ .close := by
    intro hsys
    rw [hsys] at hdirect
    cases hdirect
  have hm : (p.request a.call).meaning.inert = true := meaning_indirect hdirect
  exact ⟨fds_settle_of_idle hclose (idle_of_prepare hdirect hprep), run_inert hm hr⟩

/-- What is passed on for a number of the cage is the kernel's number for it, or
    neither side has it open. -/
def Stands (names : Nat → Option Nat) (kernel : Descs) (fd k : Nat) : Prop :=
  names fd = some k ∨ names fd = none ∧ kernel k = none

structure PollStands (names : Nat → Option Nat) (q q' : PollFd) : Prop where
  events : q'.events = q.events
  ignored : q.fd.msb = true → q'.fd = q.fd
  named : q.fd.msb = false → names q.fd.toNat = some q'.fd.toNat

/-- Every descriptor in the call that is passed on stands for the one the cage
    has at its place. -/
structure Passes (names : Nat → Option Nat) (kernel : Descs) (call req : Request) : Prop where
  named : List.Forall₂ (Stands names kernel) call.meaning.named req.meaning.named
  polled : call.sys = .poll ∨ call.sys = .ppoll →
    ∀ i < call.nfds, PollStands names (call.pollfds i) (req.pollfds i)
  selected : call.sys = .select → ∀ i k, req.sets i k = true →
    ∃ fd, call.sets i fd = true ∧ names fd = some k

theorem passes_direct {req : Request} (hdirect : call.sys.direct = true)
    (h : call.meaning.rename (nameOf t cage) = some req.meaning) :
    Passes (nameOf t cage) kernel call req := by
  refine ⟨(descriptors_of_rename h).1.imp fun fd k hk => .inl hk, fun hsys => ?_, fun hsys => ?_⟩
  · rcases hsys with hsys | hsys <;>
    · rw [hsys] at hdirect
      cases hdirect
  · rw [hsys] at hdirect
    cases hdirect

theorem passes_mmap [LawfulFdTables T] (hsys : call.sys = .mmap)
    (hcage : call.argcages = fun _ => cage) (hb : Bounded t cage)
    (hsmall : ∀ k, kernel k ≠ none → k < 2 ^ 31) (h : prepare g t call copies = .ok p) :
    Passes (nameOf t cage) kernel call (p.request call) := by
  have hm : ∀ req : Request, req.sys = .mmap → req.args 3 = call.args 3 → req.meaning.named =
      if call.args 3 &&& mapAnonymous = 0 then [(req.args 4).toNat] else [] := by
    intro req hreq h3
    simp only [meaning, hreq, h3, Meaning.named]
  refine ⟨?_, by simp [hsys], by simp [hsys]⟩
  rw [prepare_mmap hsys, hcage] at h
  split at h
  · -- no descriptor is passed as `-1`, which is open on neither side
    rename_i hall
    cases h
    have hbig : (call.args 4).toNat = 2 ^ 64 - 1 := by
      rw [hall]
      decide
    have hname : nameOf t cage (2 ^ 64 - 1) = none := by
      rcases hlook : translateVirtualFd t cage (2 ^ 64 - 1) with _ | e
      · exact nameOf_of_none hlook
      have := lt_limit t cage _ e hlook
      have := limit_le (T := T)
      omega
    have hkernel : kernel (2 ^ 64 - 1) = none := by
      by_contra hne
      have := hsmall _ hne
      omega
    rw [hm call hsys rfl, hm (Plan.request _ call) hsys rfl]
    split
    · simp only [Plan.request, mmapPlan, update_self, hbig]
      exact .cons (.inr ⟨hname, hkernel⟩) .nil
    · exact .nil
  · rcases (bind_eq_ok _ _ _).mp h with ⟨underfd, hu, ⟨⟩⟩
    rw [hm call hsys rfl, hm (Plan.request _ call) hsys rfl]
    split
    · have hfd : ¬ (FdArgKind.fd = .dirFd ∧ call.args 4 = atFdcwd) := by simp
      rcases hlook : translateVirtualFd t cage (call.args 4).toNat with _ | _
      · rw [translateFdArg_of_none hfd hlook] at hu
        cases hu
      rw [translateFdArg_of_some hfd hlook] at hu
      cases hu
      simp only [Plan.request, mmapPlan, update_self, toNat_underfd hb hlook]
      exact .cons (.inl (nameOf_of_some hlook)) .nil
    · exact .nil

theorem pollStands_of_translate (hb : Bounded t cage) {q q' : PollFd}
    (h : translatePollFd t cage q = .ok q') : PollStands (nameOf t cage) q q' := by
  rw [translatePollFd] at h
  split at h
  next hneg =>
    cases h
    exact ⟨rfl, fun _ => rfl, fun hpos => absurd (hneg.symm.trans hpos) (by simp)⟩
  rename_i hneg
  have hpos : q.fd.msb = false := Bool.eq_false_iff.mpr hneg
  rcases (bind_eq_ok _ _ _).mp h with ⟨underfd, hu, ⟨⟩⟩
  have hfd : ¬ (FdArgKind.fd = .dirFd ∧ q.fd.signExtend 64 = atFdcwd) := by simp
  have hword : (q.fd.signExtend 64).toNat = q.fd.toNat := by
    rw [BitVec.signExtend_eq_setWidth_of_msb_false hpos]
    exact BitVec.toNat_setWidth_of_le (by decide)
  refine ⟨rfl, fun h => absurd (hpos.symm.trans h) (by simp), fun _ => ?_⟩
  rcases hlook : translateVirtualFd t cage (q.fd.signExtend 64).toNat with _ | _
  · rw [translateFdArg_of_none hfd hlook] at hu
    cases hu
  rw [translateFdArg_of_some hfd hlook] at hu
  cases hu
  have hname := nameOf_of_some hlook
  have := hb _ _ hname
  rw [hword] at hname
  rw [hname, BitVec.toNat_ofNat, Nat.mod_eq_of_lt (by omega)]

theorem forall₂_of_mapM_except {f : PollFd → Except Stop PollFd} {xs ys : List PollFd}
    (h : xs.mapM f = .ok ys) : List.Forall₂ (fun x y => f x = .ok y) xs ys := by
  induction xs generalizing ys with
  | nil =>
    cases h
    exact .nil
  | cons x _ ih =>
    rw [mapM_cons] at h
    rcases hx : f x with _ | _
    · rw [hx] at h
      cases h
    rw [hx, ok_bind] at h
    rcases (bind_eq_ok _ _ _).mp h with ⟨zs, hzs, ⟨⟩⟩
    exact .cons hx (ih hzs)

theorem passes_poll (hsys : call.sys = .poll ∨ call.sys = .ppoll)
    (hcopied : 0 < call.nfds → copies.fromCage 0 = true) (hcage : call.argcages = fun _ => cage)
    (hb : Bounded t cage) (h : prepare g t call copies = .ok p) :
    Passes (nameOf t cage) kernel call (p.request call) := by
  have hm : ∀ req : Request, req.sys = call.sys → req.meaning = .poll := by
    intro req hreq
    rcases hsys with hsys | hsys <;> simp only [meaning, hreq, hsys]
  refine ⟨?_, fun _ i hi => ?_, fun hsel => ?_⟩
  · rw [hm call rfl, hm (p.request call) rfl]
    exact .nil
  · rcases prepare_poll hsys h with ⟨hzero, -⟩ | ⟨fds, hfds, rfl⟩
    · omega
    have hall := forall₂_of_mapM_except hfds
    have hpolls : call.polls copies = (List.range call.nfds).map call.pollfds := by
      rw [polls, if_pos (hcopied (by omega))]
    have hlen : (call.polls copies).length = call.nfds := by rw [hpolls]; simp
    have hlt : i < fds.length := by rw [← hall.length_eq, hlen]; exact hi
    have hne : fds ≠ [] := ne_nil_of_length_pos (by omega)
    have hi' := (forall₂_iff_get.mp hall).2 i (by omega) hlt
    have hget : (call.polls copies).get ⟨i, by omega⟩ = call.pollfds i := by
      simp only [hpolls, get_eq_getElem, getElem_map, getElem_range]
    rw [hget, hcage] at hi'
    have hreq : ((pollPlan g call fds ((call.polls copies).map PollFd.fd)).request call).pollfds i =
        fds.get ⟨i, hlt⟩ := by
      change (if fds = [] then call.pollfds else fun i => fds.getD i ⟨-1, 0, 0⟩) i = _
      rw [if_neg hne, getD_eq_getElem?_getD, List.getElem?_eq_getElem hlt, Option.getD_some]
      rfl
    rw [hreq]
    exact pollStands_of_translate hb hi'
  · rcases hsys with hsys | hsys <;> simp [hsys] at hsel

theorem kernel_selectTurn {fd : Nat}
    (hb : Bounded t cage) (h : (selectTurn t cage want sel fd).kernel i k = true) :
    sel.kernel i k = true ∨ want i fd = true ∧ nameOf t cage fd = some k := by
  rw [selectTurn] at h
  split at h
  · rcases hlook : translateVirtualFd t cage fd with _ | e
    · rw [hlook] at h
      exact .inl h
    rw [hlook] at h
    have hname := nameOf_of_some hlook
    have hunder : asUsize e.underfd = e.underfd := by
      have := hb fd _ hname
      rw [asUsize]
      omega
    simp only [hunder] at h
    by_cases hlt : e.underfd < fdSetsize
    · rw [if_pos hlt] at h
      dsimp only at h
      split at h
      next hwant =>
        rw [fdSetBit, if_pos hlt] at h
        by_cases hk : k = e.underfd
        · exact .inr ⟨hwant, by rw [hname, hk]⟩
        · rw [update_of_ne hk] at h
          exact .inl h
      · exact .inl h
    · rw [if_neg hlt] at h
      exact .inl h
  · exact .inl h

theorem kernel_select {fds : List Nat} (hb : Bounded t cage)
    (h : (fds.foldl (selectTurn t cage want) sel).kernel i k = true) :
    sel.kernel i k = true ∨ ∃ fd ∈ fds, want i fd = true ∧ nameOf t cage fd = some k := by
  -- along the loop, with whatever the sets hold when it comes to a descriptor
  induction fds generalizing sel with
  | nil => exact .inl h
  | cons fd _ ih =>
    rcases ih h with hturn | ⟨fd', hmem, hfd'⟩
    · rcases kernel_selectTurn hb hturn with hold | hnew
      · exact .inl hold
      · exact .inr ⟨fd, mem_cons_self .., hnew⟩
    · exact .inr ⟨fd', mem_cons_of_mem _ hmem, hfd'⟩

theorem sets_planSelect (sel : Selection) :
    ((planSelect g call p sel).request call).sets = sel.kernel :=
  rfl

theorem passes_select (hsys : call.sys = .select) (hcage : call.argcages = fun _ => cage)
    (hb : Bounded t cage) (h : prepare g t call copies = .ok p) :
    Passes (nameOf t cage) kernel call (p.request call) := by
  have hm : ∀ req : Request, req.sys = .select → req.meaning.named = [] := by
    intro req hreq
    simp only [meaning, hreq, Meaning.named]
  refine ⟨?_, by simp [hsys], fun _ i k hk => ?_⟩
  · rw [hm call hsys, hm (p.request call) hsys]
    exact .nil
  · rw [prepare_select hsys, hcage] at h
    have hsets : (p.request call).sets = (selectLoop t cage call copies).kernel := by
      rw [← Except.ok.inj h, sets_planSelect]
    rw [hsets, selectLoop] at hk
    rcases kernel_select hb hk with hnone | ⟨fd, -, hwant, hname⟩
    · cases hnone
    · simp only [wants, fdIsset, Bool.and_eq_true] at hwant
      exact ⟨fd, hwant.2.2, hname⟩

end LindGrates.FdSupport
