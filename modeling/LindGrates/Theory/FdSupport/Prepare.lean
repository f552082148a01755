import LindGrates.Core.FdSupport.System

/-!
# What the Handlers Pass On

The loop over a call's table, read as one statement about the call.

Three kinds of calls stand apart. A `symlinkat` has its directory at a position
the table does not name. A `mmap` may name no descriptor at all. A `poll` or a
`select` has its descriptors behind pointers.

## Main definitions

* `Posix.Meaning.rename`: A call under other numbers.
* `Sys.direct`: The call names its descriptors directly.
* `Translates`: The statement about the loop.

## Theorems

* `prepare_direct`: A direct call is passed on with its meaning under the kernel's
  numbers, or fails with `EBADF` if one of them is not open.
-/

namespace LindGrates

open FdTables Posix Function List Meaning FdSupport.Request

variable {arg : Word} {kind : FdArgKind} {i : Fin 6} {plan : Nat → Plan}
  {reply : Reply}

/-- A call under other numbers. The target of a replacement keeps its own. -/
def Posix.Meaning.rename (names : Nat → Option Nat) : Meaning → Option Meaning
  | .use fds => (fds.mapM names).map .use
  | .poll => some .poll
  | .select fds => (fds.mapM names).map .select
  | .close fd => (names fd).map .close
  | .create fds cloexec => (fds.mapM names).map (.create · cloexec)
  | .dup fd start cloexec => (names fd).map (.dup · start cloexec)
  | .replace old new cloexec strict => (names old).map (.replace · new cloexec strict)
  | .mark fd cloexec => (names fd).map (.mark · cloexec)
  | .pair cloexec => some (.pair cloexec)

namespace FdSupport

variable {T : Type} [FdTables T]

def nameOf (t : T) (cage fd : Nat) : Option Nat :=
  (translateVirtualFd t cage fd).map FDTableEntry.underfd

/-- The call names its descriptors directly, where its table says. -/
def Sys.direct : Sys → Bool
  | .symlinkat | .mmap | .poll | .ppoll | .select => false
  | _ => true

/-- The close-on-exec flag the handler enters for what a call opens. -/
def Request.recorded (call : Request) : Bool :=
  match call.sys with
  | .open | .socket | .socketpair | .pipe2 => hasCloexec (call.args 1)
  | .openat | .dup3 => hasCloexec (call.args 2)
  | .accept4 => hasCloexec (call.args 4)
  | .epollCreate1 => hasCloexec (call.args 0)
  | .fcntl => decide ((call.args 1).setWidth 32 = fDupfdCloexec)
  | _ => false

/-- Whether the handler gets to see the pair the kernel made. -/
def Request.readsPair (call : Request) (copies : Copies) : Bool :=
  decide (call.sys = .socketpair) || copies.fromCage 0

/-- What the handler takes for the pair the kernel made. -/
def Request.seenPair (call : Request) (copies : Copies) (pair : Nat × Nat) : Nat × Nat :=
  if call.readsPair copies then pair else (0, 0)

/-- What a handler does with an answer of the kernel that is no error. -/
def enter (t : T) (cage : Nat) (call : Request) (reply : Reply) (copies : Copies) : Final T :=
  match call.meaning with
  | .use _ | .poll | .select _ | .mark _ _ => ⟨.ok reply.ret, t, {}⟩
  | .close fd => ⟨.ok reply.ret, (closeVirtualfd t cage fd).getD t, {}⟩
  | .create _ _ | .dup _ _ _ => enterOne t cage reply.ret call.recorded
  | .replace _ new _ _ => enterAt t cage new reply.ret call.recorded
  | .pair _ =>
    enterPair t cage (call.seenPair copies reply.pair) call.recorded (copies.toCage 0) reply.ret

structure Prepared (t : T) (cage : Nat) (call : Request) (p : Plan) : Prop where
  meaning : call.meaning.rename (nameOf t cage) = some (p.request call).meaning
  entered : ∀ reply copies, 0 ≤ reply.ret →
    settle t call p reply copies = enter t cage call reply copies

/-- The loop over a table, as the claim about a call that it is passed on with
    its meaning or fails. -/
def Translates (g : Grate) (t : T) (cage : Nat) (call : Request) (copies : Copies) : Prop :=
  (call.meaning.rename (nameOf t cage) = none ∧
      prepare g t call copies = .error (.ret (-ebadf))) ∨
    ∃ p, prepare g t call copies = .ok p ∧ Prepared t cage call p

variable {t : T} {cage : Nat} {call : Request} {copies : Copies} {g : Grate} {e : FDTableEntry}
  {fd : Nat}

theorem translateFdArg_of_some
    (hkind : ¬ (kind = .dirFd ∧ arg = atFdcwd)) (h : translateVirtualFd t cage arg.toNat = some e) :
    translateFdArg t cage arg kind = .ok e.underfd := by
  rw [translateFdArg, if_neg hkind, h]

theorem translateFdArg_of_none
    (hkind : ¬ (kind = .dirFd ∧ arg = atFdcwd)) (h : translateVirtualFd t cage arg.toNat = none) :
    translateFdArg t cage arg kind = .error (.ret (-ebadf)) := by
  rw [translateFdArg, if_neg hkind, h]

theorem nameOf_of_some (h : translateVirtualFd t cage fd = some e) :
    nameOf t cage fd = some e.underfd := by
  rw [nameOf, h, Option.map_some]

theorem nameOf_of_none (h : translateVirtualFd t cage fd = none) : nameOf t cage fd = none := by
  rw [nameOf, h, Option.map_none]

def Bounded (t : T) (cage : Nat) : Prop :=
  ∀ fd k, nameOf t cage fd = some k → k < 2 ^ 31

theorem toNat_underfd (hb : Bounded t cage) (h : translateVirtualFd t cage fd = some e) :
    (BitVec.ofNat 64 e.underfd).toNat = e.underfd := by
  have := hb fd e.underfd (nameOf_of_some h)
  rw [BitVec.toNat_ofNat, Nat.mod_eq_of_lt]
  omega

theorem ofNat_underfd_ne (hb : Bounded t cage) (h : translateVirtualFd t cage fd = some e) :
    BitVec.ofNat 64 e.underfd ≠ atFdcwd := by
  intro heq
  have hlt := hb fd e.underfd (nameOf_of_some h)
  have hto := toNat_underfd hb h
  rw [heq] at hto
  have : atFdcwd.toNat = 18446744073709551516 := by decide
  omega

section Rules

/-- A call about one descriptor is the same call about another once it is
    translated, and the loop fails only there. -/
theorem translates_of_arg (f : Nat → Meaning)
    (hrename : ∀ names fd, (f fd).rename names = (names fd).map f) (hb : Bounded t cage)
    (hprep : prepare g t call copies =
      translateFdArg t cage (call.args i) .fd >>= fun underfd => .ok (plan underfd))
    (hm : call.meaning = f (call.args i).toNat)
    (hplan : ∀ k, ((plan k).request call).meaning = f (BitVec.ofNat 64 k).toNat)
    (hsettle : ∀ k reply copies, 0 ≤ reply.ret →
      settle t call (plan k) reply copies = enter t cage call reply copies) :
    Translates g t cage call copies := by
  have hfd : ¬ (FdArgKind.fd = .dirFd ∧ call.args i = atFdcwd) := by simp
  rcases h : translateVirtualFd t cage (call.args i).toNat with _ | e
  · refine .inl ⟨by rw [hm, hrename, nameOf_of_none h, Option.map_none], ?_⟩
    rw [hprep, translateFdArg_of_none hfd h]
    rfl
  refine .inr ⟨plan e.underfd, ?_, ?_, hsettle e.underfd⟩
  · rw [hprep, translateFdArg_of_some hfd h]
    rfl
  · rw [hm, hrename, nameOf_of_some h, Option.map_some, hplan, toNat_underfd hb h]

theorem rename_use (names : Nat → Option Nat) (fd : Nat) :
    (use [fd]).rename names = (names fd).map fun k => .use [k] := by
  rw [rename, mapM_cons]
  cases names fd <;> rfl

theorem rename_create (names : Nat → Option Nat) (fd : Nat) (cloexec : Bool) :
    (create [fd] cloexec).rename names = (names fd).map fun k => .create [k] cloexec := by
  rw [rename, mapM_cons]
  cases names fd <;> rfl

theorem translates_of_dir (hb : Bounded t cage) (hprep : prepare g t call copies =
      translateFdArg t cage (call.args i) .dirFd >>= fun underfd => .ok (plan underfd))
    (hnone : call.args i ≠ atFdcwd → nameOf t cage (call.args i).toNat = none →
      call.meaning.rename (nameOf t cage) = none)
    (hsome : ∀ k, (dirArg (call.args i)).mapM (nameOf t cage) =
      some (dirArg (BitVec.ofNat 64 k)) → Prepared t cage call (plan k)) :
    Translates g t cage call copies := by
  by_cases hcwd : call.args i = atFdcwd
  · refine .inr ⟨plan (call.args i).toNat, ?_, hsome _ ?_⟩
    · rw [hprep, translateFdArg, if_pos ⟨rfl, hcwd⟩]
      rfl
    · have hback : BitVec.ofNat 64 atFdcwd.toNat = atFdcwd := by decide
      rw [hcwd, hback, dirArg, if_pos rfl]
      rfl
  have hdir : ¬ (FdArgKind.dirFd = .dirFd ∧ call.args i = atFdcwd) := by simp [hcwd]
  rcases h : translateVirtualFd t cage (call.args i).toNat with _ | e
  · refine .inl ⟨hnone hcwd (nameOf_of_none h), ?_⟩
    rw [hprep, translateFdArg_of_none hdir h]
    rfl
  refine .inr ⟨plan e.underfd, ?_, hsome _ ?_⟩
  · rw [hprep, translateFdArg_of_some hdir h]
    rfl
  · rw [dirArg, if_neg hcwd, dirArg, if_neg (ofNat_underfd_ne hb h), toNat_underfd hb h,
      mapM_cons, nameOf_of_some h]
    rfl

end Rules

theorem meaning_of_fdArg1 (call : Request) (hspec : call.sys.fdSpecs = fdArg1)
    (hclose : call.sys ≠ .close) : call.meaning = .use [(call.args 0).toNat] := by
  unfold meaning
  split <;> simp_all [Sys.fdSpecs] <;> trivial

variable {p : Plan} {i : Fin 6}

theorem planArg_fd (hmmap : call.sys ≠ .mmap) :
    planArg g t call copies p ⟨i, .fd⟩ =
      translateFdArg t (p.argcages i) (p.args i) .fd >>= fun underfd =>
        .ok { p.setArg i underfd with vfdClose := p.args i } := by
  simp only [planArg, hmmap, false_and, if_false]
  rfl

theorem planArg_flag :
    planArg g t call copies p ⟨i, .flag⟩ =
      .ok { p with shouldCloexec := p.shouldCloexec || hasCloexec (p.args i) } :=
  rfl

theorem planArg_epFd :
    planArg g t call copies p ⟨i, .epFd⟩ =
      translateFdArg t (p.argcages i) (p.args i) .epFd >>= fun underfd =>
        .ok (p.setArg i underfd) :=
  rfl

theorem planArg_oldFd :
    planArg g t call copies p ⟨i, .oldFd⟩ =
      translateFdArg t (p.argcages i) (p.args i) .fd >>= fun underfd =>
        .ok { p.setArg i underfd with oldFdCageid := p.argcages i } := by
  simp only [planArg, translateFdArg, reduceCtorEq, false_and, if_false]
  cases translateVirtualFd t (p.argcages i) (p.args i).toNat <;> rfl

def firstPlan (call : Request) (underfd : Nat) : Plan where
  args := update call.args 0 (BitVec.ofNat 64 underfd)
  argcages := call.argcages
  vfdClose := call.args 0

def creatPlan (call : Request) (args : Fin 6 → Word) (vfdClose : Word) : Plan where
  args := args
  argcages := call.argcages
  vfdClose := vfdClose
  shouldCreateVfd := true
  shouldCloexec := call.recorded

def replacePlan (call : Request) (cage underfd : Nat) : Plan where
  args := update call.args 0 (BitVec.ofNat 64 underfd)
  argcages := call.argcages
  shouldCloexec := call.recorded
  shouldDup2 := true
  oldFdCageid := cage
  newFd := call.args 1

def pipePlan (call : Request) (cage : Nat) : Plan where
  args := call.args
  argcages := call.argcages
  shouldCloexec := call.recorded
  shouldPipe := true
  originPipeCageid := cage

/-- The commands of `fcntl` that open a descriptor. -/
def Request.duplicates (call : Request) : Prop :=
  (call.args 1).setWidth 32 = fDupfd ∨ (call.args 1).setWidth 32 = fDupfdCloexec

theorem meaning_of_duplicates (req : Request) (hdup : call.duplicates) (hsys : call.sys = .fcntl)
    (h : req.sys = .fcntl) (h1 : req.args 1 = call.args 1) (h2 : req.args 2 = call.args 2) :
    req.meaning = .dup (req.args 0).toNat (call.args 2).toNat call.recorded := by
  rcases hdup with hcmd | hcmd
  · simp only [meaning, h, h1, h2, hcmd, if_true, recorded, hsys]
    rfl
  have hne : ¬ fDupfdCloexec = fDupfd := by decide
  simp only [meaning, h, h1, h2, hcmd, if_neg hne, if_true, recorded, hsys,
    decide_true]

theorem settle_fcntl (hsys : call.sys = .fcntl) (hret : 0 ≤ reply.ret) (k : Nat) :
    settle t call { firstPlan call k with vfdClose := 0 } reply copies =
      ⟨.ok reply.ret, t, {}⟩ := by
  simp only [settle, hsys, not_lt.mpr hret, firstPlan, if_false, Bool.false_eq_true, reduceCtorEq]

variable (hcage : call.argcages = fun _ => cage)

include hcage

theorem prepare_fdArg1 (hspec : call.sys.fdSpecs = fdArg1) :
    prepare g t call copies =
      translateFdArg t cage (call.args 0) .fd >>= fun underfd => .ok (firstPlan call underfd) := by
  have hmmap : call.sys ≠ .mmap := by
    intro h
    rw [h] at hspec
    cases hspec
  rw [prepare, hspec, fdArg1, foldlM_cons, planArg_fd hmmap]
  simp only [hcage, firstPlan]
  cases translateFdArg t cage (call.args 0) .fd <;> rfl

theorem prepare_creationFd1 (hspec : call.sys.fdSpecs = creationFd1)
    (hrec : call.recorded = false) :
    prepare g t call copies =
      translateFdArg t cage (call.args 0) .fd >>= fun underfd =>
        .ok (creatPlan call (update call.args 0 (BitVec.ofNat 64 underfd))
          (call.args 0)) := by
  have hmmap : call.sys ≠ .mmap := by
    intro h
    rw [h] at hspec
    cases hspec
  rw [prepare, hspec, creationFd1, foldlM_cons, planArg_fd hmmap]
  simp only [hcage, creatPlan, hrec]
  cases translateFdArg t cage (call.args 0) .fd <;> rfl

theorem settle_creatPlan {args : Fin 6 → Word} {vfdClose : Word}
    (hclose : call.sys ≠ .close) (hret : 0 ≤ reply.ret) :
    settle t call (creatPlan call args vfdClose) reply copies =
      enterOne t cage reply.ret call.recorded := by
  simp only [settle, creatPlan, hclose, not_lt.mpr hret, hcage, if_true, if_false,
    Bool.false_eq_true]

theorem translates_create (flag : (Fin 6 → Word) → Bool)
    (hm : ∀ req : Request, req.sys = call.sys → req.meaning = .create [] (flag req.args))
    (hprep : prepare g t call copies = .ok (creatPlan call call.args 0))
    (hclose : call.sys ≠ .close) : Translates g t cage call copies := by
  refine .inr ⟨_, hprep, ⟨?_, fun reply copies hret => ?_⟩⟩
  · rw [hm call rfl, hm ((creatPlan call call.args 0).request call) rfl]
    rfl
  · simp only [settle_creatPlan hcage hclose hret, enter, hm call rfl]

theorem translates_opens (hsys : call.sys = .open ∨ call.sys = .socket ∨
    call.sys = .epollCreate ∨ call.sys = .epollCreate1) : Translates g t cage call copies := by
  refine translates_create hcage (fun args => recorded { call with args := args })
    (fun req h => ?_) ?_ ?_
  all_goals rcases hsys with hsys | hsys | hsys | hsys
  all_goals first
    | simp only [meaning, recorded, h, hsys]
    | rw [prepare, hsys, creatPlan, recorded, hsys]
      rfl
    | simp [hsys]

theorem prepare_fcntl_of_not_duplicates (hsys : call.sys = .fcntl) (hdup : ¬ call.duplicates) :
    prepare g t call copies =
      translateFdArg t cage (call.args 0) .fd >>= fun underfd =>
        .ok { firstPlan call underfd with vfdClose := 0 } := by
  rw [prepare, hsys, Sys.fdSpecs, fcntlFd1Flag2, foldlM_cons, planArg]
  simp only [hcage, firstPlan]
  rcases translateFdArg t cage (call.args 0) .fd with _ | underfd
  · rfl
  have hset : (Plan.setArg { args := call.args, argcages := fun _ => cage } 0 underfd).args 1
    = call.args 1 := rfl
  simp only [ok_bind, hset]
  rw [if_neg (show ¬ (_ = fDupfd ∨ _ = fDupfdCloexec) from hdup)]
  rfl

theorem translates_socketpair (hsys : call.sys = .socketpair) :
    Translates g t cage call copies := by
  have hm : ∀ req : Request, req.sys = .socketpair →
      req.meaning = .pair (hasCloexec (req.args 1)) := by
    intro req h
    simp only [meaning, h]
  have hrec : call.recorded = hasCloexec (call.args 1) := by simp only [recorded, hsys]
  refine .inr ⟨_, by rw [prepare, hsys]; rfl, ⟨?_, fun reply copies hret => ?_⟩⟩
  · rw [hm call hsys, hm (Plan.request _ call) hsys]
    rfl
  · simp only [settle, enter, hm call hsys, hrec, hsys, not_lt.mpr hret, if_false, hcage,
      seenPair, readsPair, decide_true, Bool.true_or, if_true, Bool.false_eq_true, reduceCtorEq]
    rfl

omit hcage in
theorem translates_pipe (flag : (Fin 6 → Word) → Bool)
    (hm : ∀ req : Request, req.sys = call.sys → req.meaning = .pair (flag req.args))
    (hprep : prepare g t call copies = .ok (pipePlan call cage))
    (hclose : call.sys ≠ .close) (hpair : call.sys ≠ .socketpair) :
    Translates g t cage call copies := by
  refine .inr ⟨_, hprep, ⟨?_, fun reply copies hret => ?_⟩⟩
  · rw [hm call rfl, hm ((pipePlan call cage).request call) rfl]
    rfl
  · simp only [settle, enter, hm call rfl, hclose, hpair, not_lt.mpr hret, if_false, pipePlan,
      copyInto_eq, Copies.getD_read, seenPair, readsPair, decide_false, Bool.false_or, if_true,
      Bool.false_eq_true]

theorem translates_pipes (hsys : call.sys = .pipe ∨ call.sys = .pipe2) :
    Translates g t cage call copies := by
  refine translates_pipe (fun args => recorded { call with args := args })
    (fun req h => ?_) ?_ ?_ ?_
  all_goals rcases hsys with hsys | hsys
  all_goals first
    | simp only [meaning, recorded, h, hsys]
    | rw [prepare, hsys, hcage, pipePlan, hcage, recorded, hsys]
      rfl
    | simp [hsys]

variable (hb : Bounded t cage)

include hb

theorem translates_close (hsys : call.sys = .close) : Translates g t cage call copies := by
  have hm : ∀ req : Request, req.sys = .close → req.meaning = .close (req.args 0).toNat := by
    intro req h
    simp only [meaning, h]
  refine translates_of_arg .close (fun _ _ => rfl) hb (prepare_fdArg1 hcage (by rw [hsys]; rfl))
    (hm call hsys) (fun k => hm _ hsys) fun k reply copies hret => ?_
  simp only [settle, enter, hm call hsys, hsys, not_lt.mpr hret, firstPlan, hcage, if_true,
    if_false, Bool.false_eq_true]

theorem translates_use (hspec : call.sys.fdSpecs = fdArg1) (hclose : call.sys ≠ .close) :
    Translates g t cage call copies := by
  have hm : ∀ req : Request, req.sys = call.sys → req.meaning = .use [(req.args 0).toNat] :=
    fun req h => meaning_of_fdArg1 req (h ▸ hspec) (h ▸ hclose)
  refine translates_of_arg (fun fd => .use [fd]) rename_use hb (prepare_fdArg1 hcage hspec)
    (hm call rfl) (fun k => hm _ rfl) fun k reply copies hret => ?_
  simp only [settle, enter, hm call rfl, hclose, not_lt.mpr hret, firstPlan, if_false,
    Bool.false_eq_true]

theorem translates_dirfdArg1 (hspec : call.sys.fdSpecs = dirfdArg1)
    (hsym : call.sys ≠ .symlinkat) : Translates g t cage call copies := by
  have hsys : call.sys = .unlinkat ∨ call.sys = .readlinkat ∨ call.sys = .fchmodat := by
    cases h : call.sys <;> simp_all [Sys.fdSpecs] <;> trivial
  have hm : ∀ req : Request, req.sys = call.sys → req.meaning = .use (dirArg (req.args 0)) := by
    intro req h
    rcases hsys with hsys | hsys | hsys <;> simp only [meaning, h, hsys]
  have hother : call.sys ≠ .mmap ∧ call.sys ≠ .close := by
    constructor <;> · intro h; rw [h] at hspec; cases hspec
  have hprep : prepare g t call copies =
      translateFdArg t cage (call.args 0) .dirFd >>= fun underfd =>
        .ok (firstPlan call underfd) := by
    rw [prepare, hspec, dirfdArg1, foldlM_cons]
    simp only [planArg, hother.1, false_and, if_false, hcage, firstPlan]
    cases translateFdArg t cage (call.args 0) .dirFd <;> rfl
  refine translates_of_dir hb hprep (fun hcwd h => ?_)
    fun k h => ⟨?_, fun reply copies hret => ?_⟩
  · rw [hm call rfl, rename, dirArg, if_neg hcwd, mapM_cons, h]
    rfl
  · rw [hm call rfl, hm ((firstPlan call k).request call) rfl, rename, h]
    simp only [Plan.request, firstPlan, update_self, Option.map_some]
  · simp only [settle, enter, hm call rfl, hother.2, not_lt.mpr hret, firstPlan, if_false,
      Bool.false_eq_true]

theorem translates_openat (hsys : call.sys = .openat) : Translates g t cage call copies := by
  have hm : ∀ req : Request, req.sys = .openat →
      req.meaning = .create (dirArg (req.args 0)) (hasCloexec (req.args 2)) := by
    intro req h
    simp only [meaning, h]
  have hprep : prepare g t call copies =
      translateFdArg t cage (call.args 0) .dirFd >>= fun underfd =>
        .ok (creatPlan call (update call.args 0 (BitVec.ofNat 64 underfd))
          (call.args 0)) := by
    rw [prepare, hsys]
    simp only [Sys.fdSpecs, creationDirfd1Flag3, foldlM_cons, foldlM_nil, planArg, hsys,
      hcage, creatPlan, recorded]
    cases translateFdArg t cage (call.args 0) .dirFd <;> rfl
  refine translates_of_dir hb hprep (fun hcwd h => ?_)
    fun k h => ⟨?_, fun reply copies hret => ?_⟩
  · rw [hm call hsys, rename, dirArg, if_neg hcwd, mapM_cons, h]
    rfl
  · rw [hm call hsys, hm (Plan.request _ call) hsys, rename, h]
    rfl
  · simp only [settle_creatPlan hcage (by simp [hsys]) hret, enter, hm call hsys]

theorem translates_dup (hsys : call.sys = .dup) : Translates g t cage call copies := by
  have hm : ∀ req : Request, req.sys = .dup → req.meaning = .dup (req.args 0).toNat 0 false := by
    intro req h
    simp only [meaning, h]
  refine translates_of_arg (.dup · 0 false) (fun _ _ => rfl) hb
    (prepare_creationFd1 hcage (by rw [hsys]; rfl) (by rw [recorded, hsys]))
    (hm call hsys) (fun k => hm _ hsys) fun k reply copies hret => ?_
  simp only [settle_creatPlan hcage (by simp [hsys]) hret, enter, hm call hsys]

theorem translates_accept (hsys : call.sys = .accept) : Translates g t cage call copies := by
  have hm : ∀ req : Request, req.sys = .accept →
      req.meaning = .create [(req.args 0).toNat] false := by
    intro req h
    simp only [meaning, h]
  refine translates_of_arg (fun fd => .create [fd] false) (rename_create · · false) hb
    (prepare_creationFd1 hcage (by rw [hsys]; rfl) (by rw [recorded, hsys]))
    (hm call hsys) (fun k => hm _ hsys) fun k reply copies hret => ?_
  simp only [settle_creatPlan hcage (by simp [hsys]) hret, enter, hm call hsys]

/-- `accept4` has its flags at the fourth position, and the fifth is read. -/
theorem translates_accept4 (hsys : call.sys = .accept4) : Translates g t cage call copies := by
  have hm : ∀ req : Request, req.sys = .accept4 →
      req.meaning = .create [(req.args 0).toNat] (hasCloexec (req.args 3)) := by
    intro req h
    simp only [meaning, h]
  have hprep : prepare g t call copies = translateFdArg t cage (call.args 0) .fd >>= fun underfd =>
        .ok (creatPlan call (update call.args 0 (BitVec.ofNat 64 underfd))
          (call.args 0)) := by
    rw [prepare, hsys, Sys.fdSpecs, creationFd1Flag4, foldlM_cons, planArg_flag, ok_bind,
      foldlM_cons, planArg_fd (by simp [hsys])]
    simp only [hcage, creatPlan, recorded, hsys]
    cases translateFdArg t cage (call.args 0) .fd <;> rfl
  refine translates_of_arg (fun fd => .create [fd] (hasCloexec (call.args 3)))
    (rename_create · · _) hb hprep (hm call hsys) (fun k => hm _ hsys)
    fun k reply copies hret => ?_
  simp only [settle_creatPlan hcage (by simp [hsys]) hret, enter, hm call hsys]

omit hcage in
theorem translates_replace (flag : (Fin 6 → Word) → Bool) (strict : Bool)
    (hm : ∀ req : Request, req.sys = call.sys →
      req.meaning = .replace (req.args 0).toNat (req.args 1).toNat (flag req.args) strict)
    (hflag : ∀ word, flag (update call.args 0 word) = flag call.args)
    (hprep : prepare g t call copies =
      translateFdArg t cage (call.args 0) .fd >>= fun underfd =>
        .ok (replacePlan call cage underfd))
    (hclose : call.sys ≠ .close) : Translates g t cage call copies := by
  refine translates_of_arg (.replace · (call.args 1).toNat (flag call.args) strict)
    (fun _ _ => rfl) hb hprep (hm call rfl) (fun k => ?_) fun k reply copies hret => ?_
  · rw [hm ((replacePlan call cage k).request call) rfl, ← hflag (BitVec.ofNat 64 k)]
    rfl
  · simp only [settle, enter, hm call rfl, hclose, not_lt.mpr hret, replacePlan, if_true, if_false]

theorem translates_dup2 (hsys : call.sys = .dup2) : Translates g t cage call copies := by
  refine translates_replace hb (fun _ => false) false (fun req h => ?_) (fun _ => rfl) ?_
    (by simp [hsys])
  · simp only [meaning, h, hsys]
  · rw [prepare, hsys, Sys.fdSpecs, oldFd1NewFd2, foldlM_cons, planArg, ok_bind,
      foldlM_cons, planArg_oldFd]
    simp only [hcage, replacePlan, recorded, hsys]
    cases translateFdArg t cage (call.args 0) .fd <;> rfl

theorem translates_dup3 (hsys : call.sys = .dup3) : Translates g t cage call copies := by
  refine translates_replace hb (fun args => hasCloexec (args 2)) true (fun req h => ?_)
    (fun _ => rfl) ?_ (by simp [hsys])
  · simp only [meaning, h, hsys]
  · rw [prepare, hsys, Sys.fdSpecs, oldFd1NewFd2Flag, foldlM_cons, planArg, ok_bind,
      foldlM_cons, planArg_oldFd]
    simp only [hcage, replacePlan, recorded, hsys]
    cases translateFdArg t cage (call.args 0) .fd <;> rfl

theorem translates_fcntl_of_duplicates (hsys : call.sys = .fcntl) (hdup : call.duplicates) :
    Translates g t cage call copies := by
  have hprep : prepare g t call copies = translateFdArg t cage (call.args 0) .fd >>= fun underfd =>
        .ok (creatPlan call (update call.args 0 (BitVec.ofNat 64 underfd)) 0) := by
    rw [prepare, hsys, Sys.fdSpecs, fcntlFd1Flag2, foldlM_cons, planArg]
    simp only [hcage, creatPlan, recorded, hsys]
    rcases translateFdArg t cage (call.args 0) .fd with _ | underfd
    · rfl
    have hset : (Plan.setArg { args := call.args, argcages := fun _ => cage } 0 underfd).args 1
      = call.args 1 := rfl
    simp only [ok_bind, hset]
    rw [if_pos (show _ = fDupfd ∨ _ = fDupfdCloexec from hdup)]
    rfl
  have hm : call.meaning = _ := meaning_of_duplicates call hdup hsys hsys rfl rfl
  refine translates_of_arg (.dup · (call.args 2).toNat call.recorded) (fun _ _ => rfl) hb hprep
    hm (fun k => meaning_of_duplicates _ hdup hsys hsys rfl rfl) fun k reply copies hret => ?_
  simp only [settle_creatPlan hcage (by simp [hsys]) hret, enter, hm]

/-- `fcntl`, where the command decides whether a descriptor is opened. Of the
    others only `F_SETFD` says anything about descriptors. -/
theorem translates_fcntl (hsys : call.sys = .fcntl) : Translates g t cage call copies := by
  by_cases hdup : call.duplicates
  · exact translates_fcntl_of_duplicates hcage hb hsys hdup
  have hprep : prepare g t call copies = _ := prepare_fcntl_of_not_duplicates hcage hsys hdup
  rw [duplicates, not_or] at hdup
  by_cases hset : (call.args 1).setWidth 32 = fSetfd
  · have hm : ∀ req : Request, req.sys = .fcntl → req.args 1 = call.args 1 →
        req.args 2 = call.args 2 → req.meaning =
          .mark (req.args 0).toNat (decide (call.args 2 &&& fdCloexec ≠ 0)) := by
      intro req h h1 h2
      simp only [meaning, h, h1, h2, if_neg hdup.1, if_neg hdup.2, if_pos hset]
    refine translates_of_arg (.mark · _) (fun _ _ => rfl) hb hprep (hm call hsys rfl rfl)
      (fun k => hm _ hsys rfl rfl) fun k reply copies hret => ?_
    simp only [settle_fcntl hsys hret, enter, hm call hsys rfl rfl]
  have hm : ∀ req : Request, req.sys = .fcntl → req.args 1 = call.args 1 →
      req.meaning = .use [(req.args 0).toNat] := by
    intro req h h1
    simp only [meaning, h, h1, if_neg hdup.1, if_neg hdup.2, if_neg hset]
  refine translates_of_arg (fun fd => .use [fd]) rename_use hb hprep (hm call hsys rfl)
    (fun k => hm _ hsys rfl) fun k reply copies hret => ?_
  simp only [settle_fcntl hsys hret, enter, hm call hsys rfl]

theorem translates_epollCtl (hsys : call.sys = .epollCtl) : Translates g t cage call copies := by
  have hm : ∀ req : Request, req.sys = .epollCtl →
      req.meaning = .use [(req.args 0).toNat, (req.args 2).toNat] := by
    intro req h
    simp only [meaning, h]
  have hprep : prepare g t call copies = translateFdArg t cage (call.args 2) .epFd >>= fun under2 =>
        translateFdArg t cage (call.args 0) .fd >>= fun under0 =>
          .ok { firstPlan call under0 with
                args := update (update call.args 2 (BitVec.ofNat 64 under2)) 0
                  (BitVec.ofNat 64 under0) } := by
    rw [prepare, hsys, Sys.fdSpecs, epoll1Fd3, foldlM_cons, planArg_epFd]
    simp only [hcage, firstPlan]
    rcases translateFdArg t cage (call.args 2) .epFd with _ | _
    · rfl
    rw [ok_bind, ok_bind, ok_bind, foldlM_cons, planArg_fd (by simp [hsys])]
    simp only [Plan.setArg, update_of_ne (show (0 : Fin 6) ≠ 2 by decide)]
    cases translateFdArg t cage (call.args 0) .fd <;> rfl
  have hep : ¬ (FdArgKind.epFd = .dirFd ∧ call.args 2 = atFdcwd) := by simp
  have hfd : ¬ (FdArgKind.fd = .dirFd ∧ call.args 0 = atFdcwd) := by simp
  rcases h2 : translateVirtualFd t cage (call.args 2).toNat with _ | _
  · refine .inl ⟨?_, by rw [hprep, translateFdArg_of_none hep h2]; rfl⟩
    rw [hm call hsys, rename]
    cases h0 : nameOf t cage (call.args 0).toNat <;>
      simp only [mapM_cons, mapM_nil, h0, nameOf_of_none h2] <;> rfl
  rw [translateFdArg_of_some hep h2, ok_bind] at hprep
  rcases h0 : translateVirtualFd t cage (call.args 0).toNat with _ | _
  · refine .inl ⟨?_, by rw [hprep, translateFdArg_of_none hfd h0]; rfl⟩
    rw [hm call hsys, rename, mapM_cons, nameOf_of_none h0]
    rfl
  rw [translateFdArg_of_some hfd h0, ok_bind] at hprep
  refine .inr ⟨_, hprep, ⟨?_, fun reply copies hret => ?_⟩⟩
  · rw [hm call hsys, hm (Plan.request _ call) hsys, rename, mapM_cons,
      nameOf_of_some h0, mapM_cons, nameOf_of_some h2]
    simp only [Plan.request, update_self, toNat_underfd hb h0]
    rw [update_of_ne (by decide), update_self, toNat_underfd hb h2]
    rfl
  · simp only [settle, enter, hm call hsys, hsys, not_lt.mpr hret, firstPlan, if_false,
      Bool.false_eq_true, reduceCtorEq]

/-- A call that names its descriptors directly is passed on with its meaning, or
    fails because one of them is not open. -/
theorem prepare_direct (hdirect : call.sys.direct = true) : Translates g t cage call copies := by
  cases hsys : call.sys with
  | close => exact translates_close hcage hb hsys
  | unlinkat | readlinkat | fchmodat =>
    exact translates_dirfdArg1 hcage hb (by rw [hsys]; rfl) (by simp [hsys])
  | «open» | socket | epollCreate | epollCreate1 => exact translates_opens hcage (by simp [hsys])
  | openat => exact translates_openat hcage hb hsys
  | dup => exact translates_dup hcage hb hsys
  | dup2 => exact translates_dup2 hcage hb hsys
  | dup3 => exact translates_dup3 hcage hb hsys
  | fcntl => exact translates_fcntl hcage hb hsys
  | accept => exact translates_accept hcage hb hsys
  | accept4 => exact translates_accept4 hcage hb hsys
  | socketpair => exact translates_socketpair hcage hsys
  | pipe | pipe2 => exact translates_pipes hcage (by simp [hsys])
  | epollCtl => exact translates_epollCtl hcage hb hsys
  | symlinkat | mmap | poll | ppoll | select =>
    rw [hsys] at hdirect
    cases hdirect
  | _ => exact translates_use hcage hb (by rw [hsys]; rfl) (by simp [hsys])

end FdSupport

end LindGrates
