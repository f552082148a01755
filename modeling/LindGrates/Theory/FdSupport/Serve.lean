import LindGrates.Theory.FdSupport.Prepare

/-!
# Serving a Call

What a handler and the kernel do together, in terms of the meaning of the call.

## Main definitions

* `Performed`, `Denied`: The kernel does its part of a call, or the call gets nowhere.
* `Entered`, `Allotted`: An entry is put into the table.

## Theorems

* `serve_cases`: A direct call is denied or performed.
* `performed_create`, `performed_dup`, `performed_replace`, `performed_pair`: What a
  performed call comes to, by its meaning.
-/

namespace LindGrates

open FdTables LawfulFdTables Posix Function List
open Option (map_eq_some_iff bind_eq_some_iff)

namespace Posix

variable {m : Meaning} {d : Descs} {ans : Answer} {numbers : Numbers} {r : Result}

/-- How the system takes a call: a descriptor is not open, it is refused, or it
    is performed. -/
theorem run_cases (h : m.run d ans numbers = some r) :
    (∃ fd ∈ m.needed, d fd = none) ∧ r = .of d (-ebadf) ∨
      (∀ fd ∈ m.needed, d fd ≠ none) ∧
        (m.refusable = true ∧ ans.ret < 0 ∧ r = .of d ans.ret ∨
          (m.refusable = true → 0 ≤ ans.ret) ∧ m.perform d ans numbers = some r) := by
  rw [Meaning.run] at h
  split at h
  next hopen =>
    refine .inr ⟨fun fd hfd hnone => ?_, ?_⟩
    · have := all_eq_true.mp hopen fd hfd
      rw [hnone] at this
      cases this
    · split at h
      next href => exact .inl ⟨href.1, href.2, (Option.some.inj h).symm⟩
      next href => exact .inr ⟨fun hm => Int.not_lt.mp fun hlt => href ⟨hm, hlt⟩, h⟩
  next hopen =>
    refine .inl ⟨?_, (Option.some.inj h).symm⟩
    rw [all_eq_true] at hopen
    push Not at hopen
    rcases hopen with ⟨fd, hfd, hnone⟩
    exact ⟨fd, hfd, Option.not_isSome_iff_eq_none.mp hnone⟩

theorem pick_lowest {limit start fd : Nat} (hlt : fd < limit) (hle : start ≤ fd)
    (hfree : d fd = none) (hlow : ∀ fd' < fd, start ≤ fd' → d fd' ≠ none) :
    (lowest limit).pick d start = some fd := by
  refine List.find?_range_eq_some.mpr ⟨?_, mem_range.mpr hlt, fun fd' hfd' => ?_⟩
  · rw [hfree]
    simp only [hle, decide_true, Option.isNone_none, Bool.and_self]
  · by_cases hs : start ≤ fd'
    · have := Option.isNone_iff_eq_none.not.mpr (hlow fd' hfd' hs)
      simp only [hs, decide_true, Bool.true_and, this, Bool.not_false]
    · simp only [hs, decide_false, Bool.false_and, Bool.not_false]

theorem pick_given {n1 n2 start fd : Nat} (h : (given n1 n2).pick d start = some fd) :
    start ≤ fd ∧ fd < 2 ^ 31 ∧ d fd = none := by
  have hp := List.find?_some h
  simp only [Bool.and_eq_true, decide_eq_true_eq, Option.isNone_iff_eq_none] at hp
  exact ⟨hp.1.1, hp.1.2, hp.2⟩

theorem ret_of_opened (h : m.perform d ans numbers = some r)
    (hacc : m.refusable = true → 0 ≤ ans.ret) (hopened : r.opened ≠ []) : 0 ≤ r.ret := by
  cases m with
  | use fds | poll | select fds | close fd =>
    cases h
    exact absurd rfl hopened
  | create =>
    rcases map_eq_some_iff.mp h with ⟨fd, -, rfl⟩
    exact Int.natCast_nonneg fd
  | dup =>
    rcases bind_eq_some_iff.mp h with ⟨x, -, h⟩
    rcases map_eq_some_iff.mp h with ⟨fd, -, rfl⟩
    exact Int.natCast_nonneg fd
  | replace old new =>
    rcases map_eq_some_iff.mp h with ⟨x, -, rfl⟩
    split at hopened
    · exact absurd rfl hopened
    split at hopened
    · exact absurd rfl hopened
    rename_i hle hne
    rw [if_neg hle, if_neg hne]
    exact Int.natCast_nonneg new
  | mark =>
    rcases map_eq_some_iff.mp h with ⟨x, -, rfl⟩
    exact absurd rfl hopened
  | pair =>
    rcases bind_eq_some_iff.mp h with ⟨fd1, -, h⟩
    rcases map_eq_some_iff.mp h with ⟨fd2, -, rfl⟩
    exact hacc rfl

def Meaning.inert : Meaning → Bool
  | .use _ | .poll | .select _ => true
  | _ => false

theorem run_inert (hm : m.inert = true) (h : m.run d ans numbers = some r) :
    r.descs = d ∧ r.opened = [] := by
  rcases run_cases h with ⟨_, rfl⟩ | ⟨_, ⟨_, _, rfl⟩ | ⟨_, hp⟩⟩
  · exact ⟨rfl, rfl⟩
  · exact ⟨rfl, rfl⟩
  cases m with
  | use fds | poll | select fds =>
    cases hp
    exact ⟨rfl, rfl⟩
  | _ => cases hm

end Posix

namespace FdSupport

variable {T : Type} [FdTables T] {t t' : T} {cage : Nat} {a : Action} {g : Grate} {kernel : Descs}
  {s : Served T}

theorem forall₂_of_mapM {f : Nat → Option Nat} {xs ys : List Nat} (h : xs.mapM f = some ys) :
    List.Forall₂ (fun x y => f x = some y) xs ys := by
  induction xs generalizing ys with
  | nil =>
    cases h
    exact .nil
  | cons _ _ ih =>
    rw [mapM_cons] at h
    rcases bind_eq_some_iff.mp h with ⟨y, hy, h⟩
    rcases bind_eq_some_iff.mp h with ⟨zs, hzs, h⟩
    cases h
    exact .cons hy (ih hzs)

variable {names : Nat → Option Nat} {m : Meaning} {req : Request} {r : Result}

theorem descriptors_of_rename {m' : Meaning} (h : m.rename names = some m') :
    List.Forall₂ (fun fd k => names fd = some k) m.named m'.named ∧
      List.Forall₂ (fun fd k => names fd = some k) m.needed m'.needed := by
  cases m with
  | use fds | create fds cloexec =>
    rcases map_eq_some_iff.mp h with ⟨ks, hks, rfl⟩
    exact ⟨forall₂_of_mapM hks, forall₂_of_mapM hks⟩
  | select =>
    rcases map_eq_some_iff.mp h with ⟨ks, hks, rfl⟩
    exact ⟨.nil, forall₂_of_mapM hks⟩
  | close fd | dup fd start cloexec | replace fd new cloexec strict | mark fd cloexec =>
    rcases map_eq_some_iff.mp h with ⟨k, hk, rfl⟩
    exact ⟨.cons hk .nil, .cons hk .nil⟩
  | poll | pair cloexec =>
    cases h
    exact ⟨.nil, .nil⟩

theorem exists_of_mem_forall₂ {fds ks : List Nat} {k : Nat}
    (h : List.Forall₂ (fun fd k => names fd = some k) fds ks) (hk : k ∈ ks) :
    ∃ fd ∈ fds, names fd = some k := by
  induction h with
  | nil => cases hk
  | cons hfd _ ih =>
    rcases mem_cons.mp hk with rfl | hk
    · exact ⟨_, mem_cons_self .., hfd⟩
    · rcases ih hk with ⟨fd, hmem, hfd⟩
      exact ⟨fd, mem_cons_of_mem _ hmem, hfd⟩

theorem exists_of_mem_forall₂_left {fds ks : List Nat} {fd : Nat}
    (h : List.Forall₂ (fun fd k => names fd = some k) fds ks) (hfd : fd ∈ fds) :
    ∃ k, names fd = some k := by
  induction h with
  | nil => cases hfd
  | cons hk _ ih =>
    rcases mem_cons.mp hfd with rfl | hfd
    · exact ⟨_, hk⟩
    · exact ih hfd

theorem exists_of_mapM_eq_none {f : Nat → Option Nat} {xs : List Nat} (h : xs.mapM f = none) :
    ∃ x ∈ xs, f x = none := by
  induction xs with
  | nil => cases h
  | cons x xs ih =>
    rcases hx : f x with _ | _
    · exact ⟨x, mem_cons_self .., hx⟩
    rcases hxs : xs.mapM f with _ | _
    · rcases ih hxs with ⟨x', hmem, hx'⟩
      exact ⟨x', mem_cons_of_mem _ hmem, hx'⟩
    rw [mapM_cons, hx, hxs] at h
    cases h

theorem exists_of_rename_eq_none (h : m.rename names = none) :
    ∃ fd ∈ m.needed, names fd = none := by
  cases m with
  | use fds | create fds cloexec | select fds =>
    exact exists_of_mapM_eq_none (Option.map_eq_none_iff.mp h)
  | close fd | dup fd start cloexec | replace fd new cloexec strict | mark fd cloexec =>
    exact ⟨fd, mem_singleton_self fd, Option.map_eq_none_iff.mp h⟩
  | poll | pair cloexec => cases h

theorem refusable_of_rename {m' : Meaning} (h : m.rename names = some m') :
    m'.refusable = m.refusable := by
  cases m with
  | use fds | create fds cloexec | select fds | close fd | dup fd start cloexec
  | replace fd new cloexec strict | mark fd cloexec =>
    rcases map_eq_some_iff.mp h with ⟨k, -, rfl⟩
    rfl
  | poll | pair cloexec =>
    cases h
    rfl

theorem settle_of_neg {call : Request} {p : Plan} {reply : Reply} {copies : Copies}
    (h : reply.ret < 0) : settle t call p reply copies = ⟨.ok reply.ret, t, {}⟩ := by
  rw [settle, if_pos h]

/-- How a direct call is served: one of its descriptors is not open, or the
    kernel gets it with its meaning and the answer is entered. -/
theorem serve_direct (hdirect : a.call.sys.direct = true)
    (hcage : a.call.argcages = fun _ => cage) (hb : Bounded t cage)
    (h : serve g t kernel a = some s) :
    (a.call.meaning.rename (nameOf t cage) = none ∧
        s = ⟨⟨.ok (-ebadf), t, {}⟩, kernel, none, []⟩) ∨
      ∃ req r, a.call.meaning.rename (nameOf t cage) = some req.meaning ∧
        kernelServe kernel req a = some r ∧
        s = ⟨if r.ret < 0 then ⟨.ok r.ret, t, {}⟩
              else enter t cage a.call (replyOf kernel req a.answer r) a.copies,
            r.descs, some req, r.opened⟩ := by
  rw [serve] at h
  rcases prepare_direct (g := g) hcage hb hdirect with ⟨hnone, hprep⟩ | ⟨p, hprep, hplan⟩
  · rw [hprep] at h
    exact .inl ⟨hnone, (Option.some.inj h).symm⟩
  rw [hprep] at h
  rcases map_eq_some_iff.mp h with ⟨r, hr, hs⟩
  refine .inr ⟨p.request a.call, r, hplan.meaning, hr, ?_⟩
  rw [← hs]
  by_cases hret : r.ret < 0
  · rw [if_pos hret, settle_of_neg hret]
    rfl
  · rw [if_neg hret, hplan.entered _ _ (Int.not_lt.mp hret)]

structure Performed (t : T) (kernel : Descs) (cage : Nat) (a : Action) (req : Request) (r : Result)
    (s : Served T) : Prop where
  renamed : a.call.meaning.rename (nameOf t cage) = some req.meaning
  accepted : a.call.meaning.refusable = true → 0 ≤ a.answer.ret
  ran : kernelServe kernel req a = some r
  available : ∀ k ∈ req.meaning.needed, kernel k ≠ none
  performed : req.meaning.perform kernel a.answer (given a.kernelFd₁ a.kernelFd₂) = some r
  served : s = ⟨if r.ret < 0 then ⟨.ok r.ret, t, {}⟩
      else enter t cage a.call (replyOf kernel req a.answer r) a.copies,
    r.descs, some req, r.opened⟩

/-- A call that gets nowhere: one of its descriptors is not open in the tables or
    in the kernel, or the system refuses it. -/
structure Denied (t : T) (kernel : Descs) (cage : Nat) (a : Action) (s : Served T) : Prop where
  fds : s.final.fds = t
  unchanged : s.kernel = kernel
  opened : s.opened = []
  cause : (∃ fd ∈ a.call.meaning.needed, nameOf t cage fd = none) ∧ s.final.ret = .ok (-ebadf) ∨
    (∀ fd ∈ a.call.meaning.needed, nameOf t cage fd ≠ none) ∧
      a.call.meaning.refusable = true ∧ a.answer.ret < 0 ∧ s.final.ret = .ok a.answer.ret ∨
    ∃ fd ∈ a.call.meaning.needed, ∃ k, nameOf t cage fd = some k ∧ kernel k = none
  negative : ∀ req r, s.forwarded = some req → kernelServe kernel req a = some r → r.ret < 0
  unpaired : s.final.out.pair = none
  passed : ∀ req, s.forwarded = some req →
    a.call.meaning.rename (nameOf t cage) = some req.meaning

section

variable (h : Performed t kernel cage a req r s)

include h

theorem Performed.kernel_eq : s.kernel = r.descs := by
  rw [h.served]

theorem Performed.opened_eq : s.opened = r.opened := by
  rw [h.served]

theorem Performed.final_of_neg (hret : r.ret < 0) : s.final = ⟨.ok r.ret, t, {}⟩ := by
  rw [h.served]
  exact if_pos hret

theorem Performed.final_of_nonneg (hret : 0 ≤ r.ret) :
    s.final = enter t cage a.call (replyOf kernel req a.answer r) a.copies := by
  rw [h.served]
  exact if_neg (Int.not_lt.mpr hret)

end

/-- A direct call is denied or performed. -/
theorem serve_cases (hdirect : a.call.sys.direct = true)
    (hcage : a.call.argcages = fun _ => cage) (hb : Bounded t cage)
    (h : serve g t kernel a = some s) :
    Denied t kernel cage a s ∨ ∃ req r, Performed t kernel cage a req r s := by
  rcases serve_direct hdirect hcage hb h with ⟨hnone, rfl⟩ | ⟨req, r, hsome, hr, rfl⟩
  · refine .inl ⟨rfl, rfl, rfl, .inl ⟨exists_of_rename_eq_none hnone, rfl⟩, ?_, rfl, ?_⟩
    · intro req r h
      cases h
    · intro req h
      cases h
  have hneeded := (descriptors_of_rename hsome).2
  have hrefuse := refusable_of_rename hsome
  have hneg : r.ret < 0 → ∀ req' r', some req = some req' →
      kernelServe kernel req' a = some r' → r'.ret < 0 := by
    intro hlt req' r' hreq' hr'
    rw [← Option.some.inj hreq', hr] at hr'
    cases hr'
    exact hlt
  rcases run_cases hr with ⟨⟨k, hk, hnone⟩, rfl⟩ | ⟨hopen, ⟨href, hret, rfl⟩ | ⟨hacc, hperf⟩⟩
  · have hlt : (Result.of kernel (-ebadf)).ret < 0 := show -ebadf < 0 by decide
    rcases exists_of_mem_forall₂ hneeded hk with ⟨fd, hfd, hname⟩
    refine .inl ⟨rfl, rfl, rfl, .inr (.inr ⟨fd, hfd, k, hname, hnone⟩), hneg hlt, rfl,
      fun req' h => ?_⟩
    cases h
    exact hsome
  · rw [if_pos (show (Result.of kernel a.answer.ret).ret < 0 from hret)]
    refine .inl ⟨rfl, rfl, rfl, .inr (.inl ⟨?_, hrefuse ▸ href, hret, rfl⟩), hneg hret, rfl,
      fun req' h => ?_⟩
    · intro fd hfd hnone
      rcases exists_of_mem_forall₂_left hneeded hfd with ⟨k, hname⟩
      rw [hname] at hnone
      cases hnone
    · cases h
      exact hsome
  · exact .inr ⟨req, r, hsome, by rwa [hrefuse] at hacc, hr, hopen, hperf, rfl⟩

section Performed

variable {req : Request} {r : Result}

/-- The kernel has opened one descriptor, which the handler enters. -/
structure OpensOne (t : T) (kernel : Descs) (cage : Nat) (a : Action) (s : Served T) (k : Nat)
    (x : Desc) : Prop where
  free : kernel k = none
  lt : k < 2 ^ 31
  kernel : s.kernel = put kernel k x
  opened : s.opened = [k]
  final : s.final = enterOne t cage k a.call.recorded

/-- The kernel has opened two descriptors, and the handler enters what it takes
    for them. -/
structure OpensPair (t : T) (kernel : Descs) (cage : Nat) (a : Action) (s : Served T)
    (k₁ k₂ : Nat) (x₁ x₂ : Desc) : Prop where
  free₁ : kernel k₁ = none
  lt₁ : k₁ < 2 ^ 31
  free₂ : put kernel k₁ x₁ k₂ = none
  lt₂ : k₂ < 2 ^ 31
  kernel : s.kernel = put (put kernel k₁ x₁) k₂ x₂
  opened : s.opened = [k₁, k₂]
  final : s.final = enterPair t cage (a.call.seenPair a.copies (k₁, k₂)) a.call.recorded
    (a.copies.toCage 0) a.answer.ret

/-- What a replacement comes to, by the number the kernel has for the old
    descriptor: the new number is no number at all, it is that one, or the kernel
    puts a descriptor there. -/
inductive Replaces (t : T) (kernel : Descs) (cage : Nat) (a : Action) (new k : Nat) (x : Desc)
    (cloexec strict : Bool) (s : Served T) : Prop
  | refused (code : Int) (hfinal : s.final = ⟨.ok code, t, {}⟩) (hkernel : s.kernel = kernel)
      (hopened : s.opened = []) (hcode : code = -ebadf ∧ 2 ^ 31 ≤ new ∨
        code = -einval ∧ k = new ∧ strict = true)
  | kept (hfinal : s.final = enterAt t cage new new a.call.recorded) (hkernel : s.kernel = kernel)
      (hopened : s.opened = []) (hlt : new < 2 ^ 31) (hk : k = new) (hstrict : strict = false)
  | placed (hfinal : s.final = enterAt t cage new new a.call.recorded)
      (hkernel : s.kernel = put kernel new ⟨x.object, cloexec⟩) (hopened : s.opened = [new])
      (hlt : new < 2 ^ 31) (hk : k ≠ new)

theorem perform_inert {m : Meaning} {ans : Answer} {numbers : Numbers} (hm : m.inert = true) :
    m.perform kernel ans numbers = some (.of kernel ans.ret) := by
  cases m with
  | use fds | poll | select fds => rfl
  | _ => cases hm

theorem inert_of_rename {names : Nat → Option Nat} {m m' : Meaning} (h : m.rename names = some m')
    (hm : m.inert = true) : m'.inert = true := by
  cases m with
  | use fds | select fds =>
    rcases map_eq_some_iff.mp h with ⟨ks, -, rfl⟩
    rfl
  | poll =>
    cases h
    rfl
  | _ => cases hm

variable (hp : Performed t kernel cage a req r s)

include hp

theorem performed_renamed {m : Meaning} (hm : a.call.meaning = m) :
    ∃ m', m.rename (nameOf t cage) = some m' ∧
      m'.perform kernel a.answer (given a.kernelFd₁ a.kernelFd₂) = some r :=
  ⟨req.meaning, hm ▸ hp.renamed, hp.performed⟩

theorem performed_inert (hm : a.call.meaning.inert = true) :
    s.final = ⟨.ok a.answer.ret, t, {}⟩ ∧ s.kernel = kernel ∧ s.opened = [] := by
  have hperf := hp.performed
  rw [perform_inert (inert_of_rename hp.renamed hm)] at hperf
  cases hperf
  have href : a.call.meaning.refusable = true := by
    cases hcall : a.call.meaning with
    | close =>
      rw [hcall] at hm
      cases hm
    | _ => rfl
  have hfinal := hp.final_of_nonneg (hp.accepted href)
  refine ⟨hfinal.trans ?_, hp.kernel_eq, hp.opened_eq⟩
  rw [enter]
  cases hcall : a.call.meaning with
  | use fds | poll | select fds => rfl
  | _ =>
    rw [hcall] at hm
    cases hm

theorem performed_close {fd : Nat} (hm : a.call.meaning = .close fd) :
    ∃ k, nameOf t cage fd = some k ∧ s.kernel = update kernel k none ∧ s.opened = [] ∧
      s.final = ⟨.ok 0, (closeVirtualfd t cage fd).getD t, {}⟩ := by
  rcases performed_renamed hp hm with ⟨_, hren, hperf⟩
  rcases map_eq_some_iff.mp hren with ⟨k, hk, rfl⟩
  cases hperf
  have hfinal := hp.final_of_nonneg (le_refl 0)
  rw [enter, hm] at hfinal
  exact ⟨k, hk, hp.kernel_eq, hp.opened_eq, hfinal⟩

variable {cloexec : Bool}

theorem performed_create {fds : List Nat} (hm : a.call.meaning = .create fds cloexec) :
    ∃ k, OpensOne t kernel cage a s k ⟨a.answer.object₁, cloexec⟩ := by
  rcases performed_renamed hp hm with ⟨_, hren, hperf⟩
  rcases map_eq_some_iff.mp hren with ⟨ks, -, rfl⟩
  rcases map_eq_some_iff.mp hperf with ⟨k, hpick, rfl⟩
  rcases pick_given hpick with ⟨-, hlt, hk⟩
  have hfinal := hp.final_of_nonneg (Int.natCast_nonneg k)
  rw [enter, hm] at hfinal
  exact ⟨k, hk, hlt, hp.kernel_eq, hp.opened_eq, hfinal⟩

theorem performed_dup {old start : Nat} (hm : a.call.meaning = .dup old start cloexec) :
    ∃ kold x k, nameOf t cage old = some kold ∧ kernel kold = some x ∧
      OpensOne t kernel cage a s k ⟨x.object, cloexec⟩ := by
  rcases performed_renamed hp hm with ⟨_, hren, hperf⟩
  rcases map_eq_some_iff.mp hren with ⟨kold, hkold, rfl⟩
  rcases bind_eq_some_iff.mp hperf with ⟨x, hx, hperf⟩
  rcases map_eq_some_iff.mp hperf with ⟨k, hpick, rfl⟩
  rcases pick_given hpick with ⟨-, hlt, hk⟩
  have hfinal := hp.final_of_nonneg (Int.natCast_nonneg k)
  rw [enter, hm] at hfinal
  exact ⟨kold, x, k, hkold, hx, hk, hlt, hp.kernel_eq, hp.opened_eq, hfinal⟩

theorem performed_mark {fd : Nat} (hm : a.call.meaning = .mark fd cloexec) :
    ∃ k x, nameOf t cage fd = some k ∧ kernel k = some x ∧
      s.kernel = put kernel k ⟨x.object, cloexec⟩ ∧ s.opened = [] ∧
      s.final = ⟨.ok a.answer.ret, t, {}⟩ := by
  rcases performed_renamed hp hm with ⟨_, hren, hperf⟩
  rcases map_eq_some_iff.mp hren with ⟨k, hk, rfl⟩
  rcases map_eq_some_iff.mp hperf with ⟨x, hx, rfl⟩
  have hfinal := hp.final_of_nonneg (hp.accepted (by rw [hm]; rfl))
  rw [enter, hm] at hfinal
  exact ⟨k, x, hk, hx, hp.kernel_eq, hp.opened_eq, hfinal⟩

theorem performed_replace {old new : Nat} {strict : Bool}
    (hm : a.call.meaning = .replace old new cloexec strict) :
    ∃ k x, nameOf t cage old = some k ∧ kernel k = some x ∧
      Replaces t kernel cage a new k x cloexec strict s := by
  rcases performed_renamed hp hm with ⟨_, hren, hperf⟩
  rcases map_eq_some_iff.mp hren with ⟨k, hk, rfl⟩
  rcases map_eq_some_iff.mp hperf with ⟨x, hx, hr⟩
  refine ⟨k, x, hk, hx, ?_⟩
  by_cases hle : 2 ^ 31 ≤ new
  · rw [if_pos (show (given a.kernelFd₁ a.kernelFd₂).limit ≤ new from hle)] at hr
    rw [← hr] at hp
    exact .refused _ (hp.final_of_neg (show -ebadf < 0 by decide)) hp.kernel_eq hp.opened_eq
      (.inl ⟨rfl, hle⟩)
  have hlt : new < 2 ^ 31 := Nat.lt_of_not_le hle
  rw [if_neg (show ¬ (given a.kernelFd₁ a.kernelFd₂).limit ≤ new from hle)] at hr
  by_cases hknew : k = new
  · rw [if_pos hknew] at hr
    cases strict with
    | true =>
      rw [← hr] at hp
      exact .refused _ (hp.final_of_neg (show -einval < 0 by decide)) hp.kernel_eq
        hp.opened_eq (.inr ⟨rfl, hknew, rfl⟩)
    | false =>
      rw [← hr] at hp
      have hfinal := hp.final_of_nonneg (Int.natCast_nonneg new)
      rw [enter, hm] at hfinal
      exact .kept hfinal hp.kernel_eq hp.opened_eq hlt hknew rfl
  · rw [if_neg hknew] at hr
    rw [← hr] at hp
    have hfinal := hp.final_of_nonneg (Int.natCast_nonneg new)
    rw [enter, hm] at hfinal
    exact .placed hfinal hp.kernel_eq hp.opened_eq hlt hknew

theorem performed_pair (hm : a.call.meaning = .pair cloexec) :
    ∃ k1 k2, OpensPair t kernel cage a s k1 k2 ⟨a.answer.object₁, cloexec⟩
      ⟨a.answer.object₂, cloexec⟩ := by
  rcases performed_renamed hp hm with ⟨_, ⟨⟩, hperf⟩
  rcases bind_eq_some_iff.mp hperf with ⟨k1, hpick1, hperf⟩
  rcases map_eq_some_iff.mp hperf with ⟨k2, hpick2, rfl⟩
  rcases pick_given hpick1 with ⟨-, hlt1, hk1⟩
  rcases pick_given hpick2 with ⟨-, hlt2, hk2⟩
  have hfinal := hp.final_of_nonneg (hp.accepted (by rw [hm]; rfl))
  rw [enter, hm] at hfinal
  exact ⟨k1, k2, hk1, hlt1, hk2, hlt2, hp.kernel_eq, hp.opened_eq, hfinal⟩

end Performed

variable [LawfulFdTables T]

structure Entered (t : T) (cage fd : Nat) (e : FDTableEntry) (t' : T) : Prop where
  lt : fd < fdLimit T
  entry : translateVirtualFd t' cage = update (translateVirtualFd t cage) fd (some e)
  registered : checkCageExists t' cage = true

/-- The number is the lowest that was free. -/
structure Allotted (t : T) (cage fd : Nat) (e : FDTableEntry) (t' : T) : Prop
    extends Entered t cage fd e t' where
  free : translateVirtualFd t cage fd = none
  lowest : ∀ fd' < fd, translateVirtualFd t cage fd' ≠ none

/-- No number of a cage is free. -/
def Full (t : T) (cage : Nat) : Prop :=
  ∀ fd < fdLimit T, translateVirtualFd t cage fd ≠ none

omit [LawfulFdTables T] in
theorem lookupUpdate_self (f : Nat → Nat → Option FDTableEntry) (cage fd : Nat)
    (e : Option FDTableEntry) : lookupUpdate f cage fd e cage = update (f cage) fd e := by
  funext fd'
  by_cases h : fd' = fd
  · rw [lookupUpdate, if_pos ⟨rfl, h⟩, h, update_self]
  · rw [lookupUpdate, if_neg fun hc => h hc.2, update_of_ne h]

variable {fd : Nat}

omit [LawfulFdTables T] in
theorem nameOf_of_update {e : Option FDTableEntry}
    (h : translateVirtualFd t' cage = update (translateVirtualFd t cage) fd e) :
    nameOf t' cage = update (nameOf t cage) fd (e.map FDTableEntry.underfd) := by
  have hmap := comp_update (Option.map FDTableEntry.underfd)
    (translateVirtualFd t cage) fd e
  rw [← h] at hmap
  exact hmap

theorem translate_of_close (h : closeVirtualfd t cage fd = some t') :
    translateVirtualFd t' cage = update (translateVirtualFd t cage) fd none := by
  rw [(close_some _ _ _ _ h).2.1, lookupUpdate_self]

theorem allotted_of_getUnused {e : FDTableEntry} (h : getUnusedVirtualFd t cage e = some (fd, t')) :
    Allotted t cage fd e t' := by
  rcases getUnused_some t t' cage e fd h with ⟨hreg, hlt, hfree, hlow, hlook, hex⟩
  exact ⟨⟨hlt, by rw [hlook, lookupUpdate_self], by rw [hex, hreg]⟩, hfree, hlow⟩

variable {ret : Int} {cloexec : Bool}

theorem enterOne_cases (hreg : checkCageExists t cage = true) :
    (∃ (fd : Nat) (t' : T), enterOne t cage ret cloexec = ⟨.ok fd, t', {}⟩ ∧
        Allotted t cage fd (kernelEntry ret cloexec) t') ∨
      enterOne t cage ret cloexec = ⟨.ok (-emfile), t, {}⟩ ∧ Full t cage := by
  rw [enterOne]
  rcases h : getUnusedVirtualFd t cage (kernelEntry ret cloexec) with _ | x
  · exact .inr ⟨rfl, getUnused_none t cage _ hreg h⟩
  rcases x with ⟨fd, t'⟩
  have hfd := allotted_of_getUnused h
  have hlt : fd < 2 ^ 31 := Nat.lt_of_lt_of_le hfd.lt (limit_le (T := T))
  refine .inl ⟨fd, t', ?_, hfd⟩
  simp only [asI32_natCast hlt]

theorem enterAt_cases {new : Nat} (hreg : checkCageExists t cage = true) :
    (∃ t', enterAt t cage new ret cloexec = ⟨.ok new, t', {}⟩ ∧
        Entered t cage new (kernelEntry ret cloexec) t') ∨
      enterAt t cage new ret cloexec = ⟨.ok (-emfile), t, {}⟩ ∧ fdLimit T ≤ new := by
  rw [enterAt]
  rcases h : getSpecificVirtualFd t cage new (kernelEntry ret cloexec) with _ | t'
  · exact .inr ⟨rfl, getSpecific_none t cage new _ hreg h⟩
  rcases getSpecific_some t t' cage new _ h with ⟨_, hlt, hlook, hex⟩
  have hlt' : new < 2 ^ 31 := Nat.lt_of_lt_of_le hlt (limit_le (T := T))
  refine .inl ⟨t', ?_, ⟨hlt, by rw [hlook, lookupUpdate_self], by rw [hex, hreg]⟩⟩
  simp only [asI32_natCast hlt']

/-- How far a pair gets: both descriptors have a number, or the handler panics
    with neither or one of them entered. -/
inductive PairEntered (t : T) (cage : Nat) (e₁ e₂ : FDTableEntry) (copied : Bool) (ret : Int) :
    Final T → Prop
  | neither (h : Full t cage) : PairEntered t cage e₁ e₂ copied ret ⟨.error .panic, t, {}⟩
  | first (fd₁ : Nat) (t₁ : T) (h₁ : Allotted t cage fd₁ e₁ t₁) (h : Full t₁ cage) :
      PairEntered t cage e₁ e₂ copied ret ⟨.error .panic, t₁, {}⟩
  | both (fd₁ fd₂ : Nat) (t₁ t₂ : T) (h₁ : Allotted t cage fd₁ e₁ t₁)
      (h₂ : Allotted t₁ cage fd₂ e₂ t₂) : PairEntered t cage e₁ e₂ copied ret
        ⟨.ok ret, t₂, { pair := if copied then some (fd₁, fd₂) else none }⟩

theorem enterPair_cases (hreg : checkCageExists t cage = true) (pair : Nat × Nat)
    (cloexec copied : Bool) (ret : Int) :
    PairEntered t cage (kernelEntry pair.1 cloexec) (kernelEntry pair.2 cloexec) copied ret
      (enterPair t cage pair cloexec copied ret) := by
  rw [enterPair]
  rcases h1 : getUnusedVirtualFd t cage (kernelEntry pair.1 cloexec) with _ | x
  · exact .neither (getUnused_none t cage _ hreg h1)
  rcases x with ⟨fd1, t1⟩
  have hfd1 := allotted_of_getUnused h1
  dsimp only
  rcases h2 : getUnusedVirtualFd t1 cage (kernelEntry pair.2 cloexec) with _ | x
  · exact .first fd1 t1 hfd1 (getUnused_none t1 cage _ hfd1.registered h2)
  rcases x with ⟨fd2, t2⟩
  simp only [copyOut_eq]
  exact .both fd1 fd2 t1 t2 hfd1 (allotted_of_getUnused h2)

end FdSupport

end LindGrates
