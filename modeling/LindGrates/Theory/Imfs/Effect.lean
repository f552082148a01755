import LindGrates.Core.Imfs.System
import LindGrates.Theory.Imfs.Files

/-!
# What a Call Can Do

## Main definitions

* `Stores`, `KeepsTree`: Changes to the data and to single nodes.
* `Creation`, `Removal`, `Renaming`: Changes of names.
* `Effect`: Every way a call that returns can have changed the state, said once.

## Theorems

* `returns_resolvePath`: What holds of every node a path can lead to.
* `openTarget_returns`: What `open` has to go on with.
-/

namespace LindGrates.Imfs

open FdTables ImfsState

/-- A change to a node that neither the tree nor the data notices. -/
structure KeepsTree (f : Node → Node) : Prop where
  totalSize_eq : ∀ n, (f n).totalSize = n.totalSize
  name_eq : ∀ n, (f n).name = n.name
  parentIdx_eq : ∀ n, (f n).parentIdx = n.parentIdx
  inUse_eq : ∀ n, (f n).inUse = n.inUse
  doomed_eq : ∀ n, (f n).doomed = n.doomed
  info_eq : ∀ n, (f n).info = n.info ∨ ∃ d r w d' r' w', n.info = .pip d r w ∧
    (f n).info = .pip d' r' w'

/-- The data of slot `i` went through one of the two data calls. -/
def Stores (s : ImfsState) (i : Nat) (s' : ImfsState) : Prop :=
  (∃ off buf n, s.writeToNode i off buf = .ok (n, s')) ∨ ∃ n, s.truncateNode i n = .ok s'

theorem stored_of_stores {s s' : ImfsState} {i : Nat} (h : Stores s i s') : Stored s i s' := by
  rcases h with ⟨off, buf, n, h⟩ | ⟨n, h⟩
  · exact stored_writeToNode h
  · exact stored_truncateNode h

def NegError {α : Type} (r : Except Int α) : Prop :=
  ∀ e, r = .error e → e < 0

theorem negError_ok {α : Type} (a : α) : NegError (.ok a) := by
  rintro e ⟨⟩

theorem negError_error {α : Type} {e : Int} (h : e < 0) : NegError (.error e : Except Int α) := by
  rintro _ ⟨⟩
  exact h

/-- What holds of the root, of every entry and of every target of a hard link
    holds of the slot a path resolves to. -/
theorem returns_resolvePath {I : Nat → Prop} {Q : Except Int Nat → Prop} (s : ImfsState)
    (hok : ∀ i, I i → Q (.ok i)) (herr : ∀ e < 0, Q (.error e)) (hroot : I s.rootIdx)
    (hchild : ∀ d name i, s.lookupChild d name = some i → I i)
    (hlink : ∀ i t, (s.node i).hardlinkTarget = some t → I t) (path : Str) (followFinal : Bool) :
    Returns (s.resolvePath path followFinal) Q := by
  have hwalk : ∀ restart : Str → Outcome (Except Int Nat), (∀ p, Returns (restart p) Q) →
      ∀ comps current, I current → Returns (s.walk followFinal restart current comps) Q := by
    intro restart hrestart comps
    induction comps with
    | nil => exact fun current hc => returns_ok (hok current hc)
    | cons component remaining ih =>
      intro current _
      refine returns_ite (fun _ => returns_ok (herr _ (by decide))) fun _ => ?_
      rcases hl : s.lookupChild current component with _ | entryIdx
      · exact returns_ok (herr _ (by decide))
      have hentry := hchild current component entryIdx hl
      refine returns_ite (fun _ => returns_ok (hok entryIdx hentry)) fun _ => ?_
      cases ht : (s.node entryIdx).hardlinkTarget with
      | some target => exact ih target (hlink entryIdx target ht)
      | none =>
        cases (s.node entryIdx).symlinkTarget with
        | some => exact returns_bind fun parentPath _ => hrestart _
        | none => exact ih entryIdx hentry
  have hinner : ∀ n p, Returns (s.resolvePathInner followFinal n p) Q := by
    intro n
    induction n with
    | zero => exact fun p => returns_ok (herr _ (by decide))
    | succ n ih => exact fun p => hwalk _ ih _ _ hroot
  exact hinner 41 path

theorem resolvePath_negError (s : ImfsState) (path : Str) (followFinal : Bool) :
    Returns (s.resolvePath path followFinal) NegError :=
  returns_resolvePath (I := fun _ => True) s (fun i _ => negError_ok i)
    (fun _ he => negError_error he) trivial (fun _ _ _ _ => trivial) (fun _ _ _ => trivial) path
    followFinal

theorem resolveParentAndName_negError (s : ImfsState) (path : Str) :
    Returns (s.resolveParentAndName path) NegError := by
  unfold resolveParentAndName
  rcases (components path).getLast? with _ | _
  · exact returns_ok (negError_error (by decide))
  refine returns_ite (fun _ => returns_ok (negError_ok _)) fun _ => ?_
  refine returns_bind fun res hres => ?_
  rcases res with e | _
  · exact returns_ok (negError_error (resolvePath_negError s _ _ _ hres e rfl))
  exact returns_ite (fun _ => returns_ok (negError_error (by decide)))
    fun _ => returns_ok (negError_ok _)

/-- An `open` with these flags empties the file it finds in slot `idx`. -/
structure Empties (s : ImfsState) (flags : BitVec 32) (idx : Nat) : Prop where
  notExcl : ¬ (has flags oExcl = true ∧ has flags oCreat = true)
  notDirectory : has flags oDirectory = false
  permitted : permits (s.node idx).mode flags = true
  reg : (s.node idx).nodeType = .reg
  trunc : has flags oTrunc = true
  writable : flags &&& oAccmode ≠ oRdonly

inductive OpenTarget (s : ImfsState) (path : Str) (flags mode : BitVec 32) :
    Nat → ImfsState → Prop
  | found (idx : Nat) (hres : s.resolvePath path true = .ok (.ok idx)) :
      OpenTarget s path flags mode idx s
  | truncated (idx : Nat) (s' : ImfsState) (hres : s.resolvePath path true = .ok (.ok idx))
      (hempties : Empties s flags idx) (htrunc : s.truncateNode idx 0 = .ok s') :
      OpenTarget s path flags mode idx s'
  | created (e : Int) (parent : Nat) (name : Str) (s' : ImfsState)
      (hres : s.resolvePath path true = .ok (.error e))
      (hparent : s.resolveParentAndName path = .ok (.ok (parent, name)))
      (hcreat : has flags oCreat = true) (hlen : name.len < maxNodeName)
      (hadd : (s.createNode name .reg mode).2.addChild parent s.nextSlot = .ok s') :
      OpenTarget s path flags mode s.nextSlot s'

/-- What `open` has to go on with, or the code it returns. -/
theorem openTarget_returns (s : ImfsState) (path : Str) (flags mode : BitVec 32) :
    Returns (s.openTarget path flags mode) fun r => NegError r ∧
      ∀ idx s', r = .ok (idx, s') → OpenTarget s path flags mode idx s' := by
  have hfail : ∀ e : Int, e < 0 → NegError (.error e : Except Int (Nat × ImfsState)) ∧
      ∀ idx s', (.error e : Except Int (Nat × ImfsState)) = .ok (idx, s') →
        OpenTarget s path flags mode idx s' :=
    fun e he => ⟨negError_error he, by rintro _ _ ⟨⟩⟩
  refine returns_bind fun res hres => ?_
  cases res with
  | ok idx =>
    refine returns_ite (fun _ => returns_ok (hfail _ (by decide))) fun hexcl => ?_
    refine returns_ite (fun _ => returns_ok (hfail _ (by decide))) fun hdirectory => ?_
    refine returns_ite (fun _ => returns_ok (hfail _ (by decide))) fun _ => ?_
    refine returns_ite (fun _ => returns_ok (hfail _ (by decide))) fun hpermits => ?_
    refine returns_ite (fun htr => ?_) fun _ => ?_
    · refine returns_bind fun s' htrunc => returns_ok ⟨negError_ok _, ?_⟩
      rintro _ _ ⟨⟩
      simp only [updateMtime_eq, updateCtime_eq]
      have hdir : has flags oDirectory = false := by
        cases hd : has flags oDirectory with
        | false => rfl
        | true => exact absurd ⟨hd, by simp [htr.1]⟩ hdirectory
      exact .truncated idx s' hres
        ⟨hexcl, hdir, by simpa using hpermits, htr.1, htr.2.1, htr.2.2⟩ htrunc
    · refine returns_ok ⟨negError_ok _, ?_⟩
      rintro _ _ ⟨⟩
      exact .found idx hres
  | error e =>
    simp only [openCreate]
    refine returns_ite (fun _ => returns_ok (hfail _ (by decide))) fun hcreat => ?_
    refine returns_bind fun pres hparent => ?_
    rcases pres with e' | p
    · exact returns_ok (hfail _ (resolveParentAndName_negError s path _ hparent e' rfl))
    rcases p with ⟨parent, name⟩
    refine returns_ite (fun _ => returns_ok (hfail _ (by decide))) fun hlen => ?_
    refine returns_bind fun s' hadd => returns_ok ⟨negError_ok _, ?_⟩
    rintro _ _ ⟨⟩
    rw [createNode_fst] at hadd ⊢
    simp only [updateMtime_eq, updateCtime_eq]
    exact .created e parent name s' hres hparent (by simpa using hcreat)
      (Nat.lt_of_not_le hlen) hadd

variable {T : Type} [FdTables T]

/-- The normalised path a call opens, creates, removes or renames to. -/
def Call.Names (w : World T) : Call → Str → Prop
  | .openPath cage path _ _, q => q = w.fs.normalizePathForCage cage path
  | .openat cage dirfd path _ _, q => w.normalizePathAt cage dirfd path = .ok (.ok q)
  | .mkdir cage path _, q => q = w.fs.normalizePathForCage cage path
  | .mknod cage path _, q => q = w.fs.normalizePathForCage cage path
  | .link cage _ path, q => q = w.fs.normalizePathForCage cage path
  | .linkat cage _ _ dirfd path _, q => w.normalizePathAt cage dirfd path = .ok (.ok q)
  | .symlink cage _ path, q => q = w.fs.normalizePathForCage cage path
  | .symlinkat cage _ dirfd path, q => w.normalizePathAt cage dirfd path = .ok (.ok q)
  | .rmdir cage path, q => q = w.fs.normalizePathForCage cage path
  | .unlink cage path, q => q = w.fs.normalizePathForCage cage path
  | .unlinkat cage dirfd path _, q => w.normalizePathAt cage dirfd path = .ok (.ok q)
  | .rename cage _ path, q => q = w.fs.normalizePathForCage cage path
  | .renameat cage _ _ dirfd path, q => w.normalizePathAt cage dirfd path = .ok (.ok q)
  | _, _ => False

def Call.OldNames (w : World T) : Call → Str → Prop
  | .link cage path _, q => q = w.fs.normalizePathForCage cage path
  | .linkat cage dirfd path _ _ _, q => w.normalizePathAt cage dirfd path = .ok (.ok q)
  | .rename cage path _, q => q = w.fs.normalizePathForCage cage path
  | .renameat cage dirfd path _ _, q => w.normalizePathAt cage dirfd path = .ok (.ok q)
  | _, _ => False

/-- Whether a linking call follows its old path to the end. -/
def Call.follows : Call → Bool
  | .linkat _ _ _ _ _ flags => has flags World.atSymlinkFollow
  | _ => true

def Call.opens : Call → Option (Nat × BitVec 32 × BitVec 32)
  | .openPath cage _ flags mode => some (cage, flags, mode)
  | .openat cage _ _ flags mode => some (cage, flags, mode)
  | _ => none

def Call.dups : Call → Option (Nat × Nat)
  | .dup cage oldfd => some (cage, oldfd)
  | .fcntl cage fd op _ => if op = 0 ∨ op = 1030 then some (cage, fd) else none
  | _ => none

/-- The descriptor a call copies and the number it copies it to. -/
def Call.dups2 : Call → Option (Nat × Nat × Nat)
  | .dup2 cage oldfd newfd => some (cage, oldfd, newfd)
  | .dup3 cage oldfd newfd _ => some (cage, oldfd, newfd)
  | _ => none

def Call.seeks : Call → Option (Nat × Nat)
  | .read cage fd _ => some (cage, fd)
  | .write cage fd _ => some (cage, fd)
  | .lseek cage fd _ _ => some (cage, fd)
  | .getdents cage fd _ => some (cage, fd)
  | _ => none

/-- The cage a call replaces the program of. -/
def Call.execs : Call → Option Nat
  | .exec cage _ => some cage
  | _ => none

/-- The name a call makes, with the directory it goes into. -/
structure FreshName (w : World T) (call : Call) (path : Str) (parent : Nat) (name : Str) :
    Prop where
  names : call.Names w path
  parent_eq : w.fs.resolveParentAndName path = .ok (.ok (parent, name))

inductive Creation (w : World T) (call : Call) : ImfsState → Prop
  | mknod (path name : Str) (parent : Nat) (ty : NodeType) (mode : BitVec 32) (s' : ImfsState)
      (cage : Nat) (arg : Str) (hcall : call = .mknod cage arg mode)
      (hfresh : FreshName w call path parent name) (hlen : name.len < maxNodeName)
      (hty : ty = .reg ∨ ty = .pip)
      (hadd : (w.fs.createNode name ty mode).2.addChild parent w.fs.nextSlot = .ok s') :
      Creation w call s'
  | mkdir (path name : Str) (parent : Nat) (mode : BitVec 32) (s₁ s' : ImfsState)
      (cage : Nat) (arg : Str) (hcall : call = .mkdir cage arg mode)
      (hfresh : FreshName w call path parent name)
      (hadd : (w.fs.createNode name .dir mode).2.addChild parent w.fs.nextSlot = .ok s₁)
      (hdots : s₁.addDots w.fs.nextSlot parent = .ok s') : Creation w call s'
  | link (oldPath path name : Str) (oldIdx parent : Nat) (s₁ : ImfsState)
      (hold : call.OldNames w oldPath)
      (hres : w.fs.resolvePath oldPath call.follows = .ok (.ok oldIdx))
      (hdir : (w.fs.node oldIdx).nodeType ≠ .dir)
      (hfresh : FreshName w call path parent name) (hlen : name.len < maxNodeName)
      (hadd : (w.fs.createNode name .lnk (w.fs.node oldIdx).mode).2.addChild parent
        w.fs.nextSlot = .ok s₁) :
      Creation w call (s₁.setHardLink w.fs.nextSlot oldIdx)
  | symlink (target path name : Str) (parent : Nat) (s' : ImfsState)
      (hfresh : FreshName w call path parent name) (hlen : name.len < maxNodeName)
      (hcall : (∃ cage arg, call = .symlink cage target arg) ∨
        ∃ cage dirfd arg, call = .symlinkat cage target dirfd arg)
      (hadd : ((w.fs.createNode name .lnk 0o777).2.modifyNode w.fs.nextSlot fun n =>
        { n with info := .symlink target, totalSize := target.len }).addChild parent
          w.fs.nextSlot = .ok s') :
      Creation w call s'

inductive Removal (w : World T) (call : Call) (i : Nat) : ImfsState → Prop
  | unlink (path name : Str) (parent : Nat) (s₁ s' : ImfsState) (hname : call.Names w path)
      (hparent : w.fs.resolveParentAndName path = .ok (.ok (parent, name)))
      (hres : w.fs.resolvePath path false = .ok (.ok i))
      (hdir : (w.fs.node i).nodeType ≠ .dir) (hrem : w.fs.removeChild i = .ok s₁)
      (hunl : s₁.unlinkNode i = .ok s') : Removal w call i s'
  | rmdir (path : Str) (children : List DirEntry) (s₁ s' : ImfsState)
      (hname : call.Names w path)
      (hres : w.fs.resolvePath path true = .ok (.ok i)) (hroot : i ≠ w.fs.rootIdx)
      (hdir : (w.fs.node i).info = .dir children)
      (hempty : ∀ e ∈ children, e.name = ['.'] ∨ e.name = ['.', '.'])
      (hrem : w.fs.removeChild i = .ok s₁) (hunl : s₁.unlinkNode i = .ok s') :
      Removal w call i s'

/-- A rename: the two paths, where they lead, and the entry it replaces. -/
structure Renaming (w : World T) (call : Call) (i newParent : Nat) (newName : Str)
    (s' : ImfsState) where
  oldPath : Str
  newPath : Str
  oldParent : Nat
  oldName : Str
  hold : call.OldNames w oldPath
  hnew : call.Names w newPath
  oldParent_eq : w.fs.resolveParentAndName oldPath = .ok (.ok (oldParent, oldName))
  oldIdx_eq : w.fs.resolvePath oldPath false = .ok (.ok i)
  newParent_eq : w.fs.resolveParentAndName newPath = .ok (.ok (newParent, newName))
  hlen : newName.len < maxNodeName
  moved : (∃ existing s₁, w.fs.resolvePath newPath false = .ok (.ok existing) ∧ existing ≠ i ∧
      (w.fs.node existing).nodeType ≠ .dir ∧
      (∃ s₀, w.fs.removeChild existing = .ok s₀ ∧ s₀.unlinkNode existing = .ok s₁) ∧
      World.moveNode s₁ i newParent newName = .ok s') ∨
    (w.fs.resolvePath newPath false = .ok (.error (-2)) ∧
      World.moveNode w.fs i newParent newName = .ok s')

/-- A call that neither makes nor drops a descriptor. -/
def Call.plain : Call → Bool
  | .openPath _ _ _ _ => false
  | .openat _ _ _ _ _ => false
  | .close _ _ => false
  | .dup _ _ => false
  | .dup2 _ _ _ => false
  | .dup3 _ _ _ _ => false
  | .fcntl _ _ op _ => decide (op ≠ 0 ∧ op ≠ 1030)
  | .fork _ _ _ => false
  | .exec _ _ => false
  | .preexec _ => false
  | .initUtilityCage => false
  | _ => true

/-- The replies with which a call has neither made nor dropped a descriptor. -/
def Call.Idles (ret : Int) : Call → Prop
  | .openPath _ _ _ _ => ret < 0
  | .openat _ _ _ _ _ => ret < 0
  | .dup _ _ => ret < 0
  | .dup2 _ oldfd newfd => (oldfd = newfd ∧ ret = newfd) ∨ ret < 0
  | .dup3 _ oldfd newfd _ => (oldfd = newfd ∧ ret = newfd) ∨ ret < 0
  | .fcntl _ _ op _ => op = 0 ∨ op = 1030 → ret < 0
  | .close _ _ => False
  | .fork _ _ isThread => isThread = true
  | .exec _ _ => False
  | .preexec _ => False
  | _ => True

inductive Effect (w : World T) (call : Call) : Int → World T → Prop
  | idle (ret : Int) (hret : call.Idles ret) : Effect w call ret w
  | cwd (cage : Nat) (path : Str) (hplain : call.plain = true) :
      Effect w call 0 { w with fs := w.fs.insertCwd cage path }
  | touch (i : Nat) (f : Node → Node) (hplain : call.plain = true) (hf : KeepsTree f) :
      Effect w call 0 { w with fs := w.fs.modifyNode i f }
  | cloexec (cage fd : Nat) (b : Bool) (fds : T) (hplain : call.plain = true)
      (hset : setCloexec w.fds cage fd b = some fds) : Effect w call 0 { w with fds := fds }
  | seek (ret : Int) (cage fd : Nat) (off : Int) (s' : ImfsState)
      (hcall : call.seeks = some (cage, fd)) (hwrite : ∀ buf, call ≠ .write cage fd buf)
      (hset : w.fs.setOffset cage fd off = .ok s') : Effect w call ret { w with fs := s' }
  | store (ret : Int) (i : Nat) (s' : ImfsState) (hplain : call.plain = true)
      (hseek : call.seeks = none) (hret : 0 ≤ ret) (hstore : Stores w.fs i s') :
      Effect w call ret { w with fs := s' }
  | storeSeek (ret : Int) (i : Nat) (s₁ : ImfsState) (cage fd : Nat) (off : Int)
      (s' : ImfsState) (hret : 0 ≤ ret) (hstore : Stores w.fs i s₁)
      (hcall : call.seeks = some (cage, fd)) (hset : s₁.setOffset cage fd off = .ok s') :
      Effect w call ret { w with fs := s' }
  | openFull (cage : Nat) (flags mode : BitVec 32) (path : Str) (idx : Nat) (s' : ImfsState)
      (hcall : call.opens = some (cage, flags, mode)) (hname : call.Names w path)
      (htarget : OpenTarget w.fs path flags mode idx s')
      (hfull : getUnusedVirtualFd w.fds cage (imfsEntry idx false) = none) :
      Effect w call (-24) { w with fs := s' }
  | openOk (cage : Nat) (flags mode : BitVec 32) (path : Str) (idx : Nat) (s' : ImfsState)
      (vfd : Nat) (fds : T) (hcall : call.opens = some (cage, flags, mode))
      (hname : call.Names w path) (htarget : OpenTarget w.fs path flags mode idx s')
      (hfd : getUnusedVirtualFd w.fds cage (imfsEntry idx false) = some (vfd, fds)) :
      Effect w call vfd
        { fs := (s'.incInUse idx).insertPerfdinfo cage vfd flags, fds := fds }
  | creation (s' : ImfsState) (hplain : call.plain = true) (hcreate : Creation w call s') :
      Effect w call 0 { w with fs := s' }
  | removal (i : Nat) (s' : ImfsState) (hplain : call.plain = true)
      (hremove : Removal w call i s') : Effect w call 0 { w with fs := s' }
  | moved (i newParent : Nat) (newName : Str) (s' : ImfsState) (hplain : call.plain = true)
      (hrename : Renaming w call i newParent newName s') : Effect w call 0 { w with fs := s' }
  | close (cage fd : Nat) (ret : Int) (w' : World T) (hcall : call = .close cage fd)
      (hclose : w.close cage fd = .ok (ret, w')) : Effect w call ret w'
  | dupFull (cage oldfd : Nat) (entry : FDTableEntry) (h : Nat)
      (hcall : call = .dup cage oldfd) (hsource : w.dupSource cage oldfd = some (entry, h))
      (hlt : entry.underfd < w.fs.nodes.length)
      (hfull : getUnusedVirtualFd w.fds cage (imfsEntry entry.underfd false) = none) :
      Effect w call (-24)
        { w with fs := w.fs.countPipeEnd entry.underfd (w.fs.arc h).flags }
  | dupOk (cage oldfd : Nat) (entry : FDTableEntry) (h newfd : Nat) (fds : T)
      (hcall : call.dups = some (cage, oldfd))
      (hsource : w.dupSource cage oldfd = some (entry, h))
      (hlt : entry.underfd < w.fs.nodes.length) (cloexec : Bool)
      (hfd : getUnusedVirtualFd w.fds cage (imfsEntry entry.underfd cloexec) = some (newfd, fds) ∨
        ∃ start, getUnusedVirtualFdFromStartfd w.fds cage (imfsEntry entry.underfd cloexec)
          start = some (newfd, fds)) :
      Effect w call newfd
        { fs := ((w.fs.countPipeEnd entry.underfd (w.fs.arc h).flags).incInUse
            entry.underfd).insertFdInfo cage newfd h
          fds := fds }
  | dup2Ok (cage oldfd newfd : Nat) (entry : FDTableEntry) (h : Nat) (w₁ : World T) (fds : T)
      (hcall : call.dups2 = some (cage, oldfd, newfd)) (hne : oldfd ≠ newfd)
      (hsource : w.dupSource cage oldfd = some (entry, h))
      (hlt : entry.underfd < w.fs.nodes.length) (cloexec : Bool)
      (hclose : (translateVirtualFd w.fds cage newfd = none ∧ w₁ = w) ∨
        w.close cage newfd = .ok (0, w₁))
      (hfd : getSpecificVirtualFd w₁.fds cage newfd (imfsEntry entry.underfd cloexec) =
        some fds) :
      Effect w call newfd
        { fs := ((w₁.fs.countPipeEnd entry.underfd (w₁.fs.arc h).flags).incInUse
            entry.underfd).insertFdInfo cage newfd h
          fds := fds }
  | fork (parent child : Nat) (ret : Int) (hcall : call = .fork parent child false) :
      Effect w call ret
        { fs := w.fs.fork parent child, fds := copyFdtableForCage w.fds parent child }
  | exec (cage : Nat) (ret : Int) (w' : World T) (hcall : call = .exec cage ret)
      (hexec : w.execHook cage ret = .ok (ret, w')) : Effect w call ret w'
  | preexec (cage : Nat) (w' : World T) (hcall : call = .preexec cage)
      (hpre : w.preexec cage = .ok (0, w')) : Effect w call 0 w'
  | initUtilityCage (hcall : call = .initUtilityCage)
      (hnew : checkCageExists w.fds 0 = false) :
      Effect w call 0 { w with fds := initEmptyCage w.fds 0 }

end LindGrates.Imfs
