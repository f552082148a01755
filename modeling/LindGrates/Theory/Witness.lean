import Mathlib.Data.List.Perm.Basic
import LindGrates.Base.Run
import LindGrates.Core.Witness

/-!
# What the Log Proves

Taking a number and writing a line happen under different locks, so a second thread
can take the next number and write first. A context starts at zero whatever the log
already says, and the key of the cage is the same again, so a second process
signs the same numbers once more.

## Main definitions

* `Orderly`: The lines of a cage carry the numbers its context has given out, in order.
* `Unique`: No two valid records share a place.
* `OneAtATime`, `NeverAgain`: The conditions for either.

## Theorems

* `orderly_run`, `swapped_lines`: The log with and without the first condition.
* `unique_run`, `signed_again`: The records with and without the second.
-/

namespace LindGrates.Witness

open Function List Grate
open Option (ite_none_left_eq_some some_inj all_some)

variable {Pub Sig : Type}

/-- The record and the signature of a line. -/
def Line.record? : Line Pub Sig → Option (Record × Sig)
  | .signed r sig => some (r, sig)
  | .start | .pubkey .. => none

def records (lines : List (Line Pub Sig)) : List (Record × Sig) :=
  lines.filterMap Line.record?

/-- Those of a cage, out of some records. -/
def ofCage (cageid : Nat) (xs : List (Record × Sig)) : List (Record × Sig) :=
  xs.filter (·.1.call.cageid = cageid)

/-- The lines of each cage are numbered from zero without a gap, and the calls
    that have a line are those forwarded and those about to be. -/
structure Orderly (g : Grate Pub Sig) : Prop where
  numbered : ∀ c, ∃ n, (ofCage c (records g.log)).map (·.1.seqno) = List.range n
  complete : ((records g.log).map (·.1.call)).Perm (g.forwarded ++ g.logged)

theorem records_pubkey (lines : List (Line Pub Sig)) (c : Nat) (key : Pub) :
    records (lines ++ [.pubkey c key]) = records lines :=
  filterMap_append.trans (append_nil _)

theorem records_signed (lines : List (Line Pub Sig)) (x : Record × Sig) :
    records (lines ++ [.signed x.1 x.2]) = records lines ++ [x] :=
  filterMap_append

theorem ofCage_cons (c : Nat) (x : Record × Sig) (xs : List (Record × Sig)) :
    ofCage c (x :: xs) = if x.1.call.cageid = c then x :: ofCage c xs else ofCage c xs := by
  simp [ofCage, filter_cons]

variable [Ed25519 Pub Sig] {files : SeedFiles} {g g' : Grate Pub Sig} {a : Action Sig}

theorem getOrCreate_cases (g : Grate Pub Sig) (files : SeedFiles) (c : Nat) :
    (∃ stop, g.getOrCreate files c = { g with aborted := stop }) ∨
    g.ctxs c = none ∧ ∃ seed ∈ loadSeedForCage files c,
      g.getOrCreate files c =
        { g with
          ctxs := update g.ctxs c (some ⟨seed, 0⟩)
          used := g.used + 1
          log := g.log ++ [.pubkey c (Ed25519.publicKey Sig seed)] } := by
  unfold getOrCreate
  split
  · exact .inl ⟨g.aborted, rfl⟩
  rename_i hnone
  split
  · split
    · exact .inl ⟨true, rfl⟩
    next seed hseed => exact .inr ⟨Option.not_isSome_iff_eq_none.mp hnone, seed, hseed, rfl⟩
  · exact .inl ⟨true, rfl⟩

/-! ## The order of the log -/

/-- Nothing but the steps of calls, where no call takes a number while another
    of its cage has one and no line, and counters stay below their end. -/
def OneAtATime (g : Grate Pub Sig) : Action Sig → Bool
  | .restart => false
  | .sign call => g.signed.all (·.1.call.cageid ≠ call.cageid) &&
      (g.ctxs call.cageid).all (·.seqno + 1 < 2 ^ 64)
  | .enter _ | .write _ | .forward _ => true

/-- The number a cage's next record gets. -/
def counter (ctxs : Nat → Option Ctx) (cageid : Nat) : Nat :=
  ((ctxs cageid).map Ctx.seqno).getD 0

theorem counter_update (ctxs : Nat → Option Ctx) (c : Nat) (ctx : Ctx) (c' : Nat) :
    counter (update ctxs c (some ctx)) c' = if c' = c then ctx.seqno else counter ctxs c' := by
  rw [counter, update_apply]
  split <;> rfl

/-- The lines of a cage and then its records that have no line yet are numbered
    up to its counter, and there is at most one of the latter. -/
structure Numbered (g : Grate Pub Sig) : Prop where
  count : ∀ c, (ofCage c (records g.log) ++ ofCage c g.signed).map (·.1.seqno) =
    List.range (counter g.ctxs c)
  one : ∀ c, (ofCage c g.signed).length ≤ 1
  complete : ((records g.log).map (·.1.call)).Perm (g.forwarded ++ g.logged)

omit [Ed25519 Pub Sig] in
theorem Numbered.orderly (h : Numbered g) : Orderly g := by
  refine ⟨fun c => ⟨min (ofCage c (records g.log)).length (counter g.ctxs c), ?_⟩, h.complete⟩
  have hlen : (ofCage c (records g.log)).length =
    ((ofCage c (records g.log)).map (·.1.seqno)).length := (length_map _).symm
  rw [← take_range, ← h.count c, map_append, hlen, take_left]

variable [DecidableEq Sig]

omit [Ed25519 Pub Sig] in
/-- One record of a cage is pending at most, so it does not matter which place
    it is taken from. -/
theorem Numbered.ofCage_erase (h : Numbered g) {x : Record × Sig} (hx : x ∈ g.signed) (c : Nat) :
    ofCage c [x] ++ ofCage c (g.signed.erase x) = ofCage c g.signed := by
  have hperm : (ofCage c [x] ++ ofCage c (g.signed.erase x)).Perm (ofCage c g.signed) := by
    rw [ofCage, ofCage, ← filter_append]
    exact ((perm_cons_erase hx).filter _).symm
  have hone := h.one c
  rcases hs : ofCage c g.signed with _ | ⟨y, ys⟩
  · exact (hs ▸ hperm).eq_nil
  rw [hs] at hperm hone
  have hnil : ys = [] := length_eq_zero_iff.mp (Nat.le_zero.mp (Nat.le_of_succ_le_succ hone))
  rw [hnil] at hperm ⊢
  exact perm_singleton.mp hperm

theorem numbered_step (h : Numbered g) (hone : OneAtATime g a = true)
    (hstep : g.step files a = some g') : Numbered g' := by
  cases a with
  | restart => cases hone
  | enter call =>
    simp only [step, ite_none_left_eq_some, some_inj] at hstep
    rcases hstep with ⟨_, rfl⟩
    rcases getOrCreate_cases { g with entered := call :: g.entered } files call.cageid with
      ⟨stop, hg⟩ | ⟨hnone, seed, _, hg⟩
    · rw [hg]
      exact ⟨h.count, h.one, h.complete⟩
    · rw [hg]
      refine ⟨fun c => ?_, h.one, ?_⟩
      · rw [records_pubkey, h.count c, counter_update]
        split
        next hc =>
          rw [hc, counter, hnone]
          rfl
        · rfl
      · rw [records_pubkey]
        exact h.complete
  | sign call =>
    simp only [step, ite_none_left_eq_some, Option.map_eq_some_iff] at hstep
    rcases hstep with ⟨_, ctx, hctx, rfl⟩
    simp only [OneAtATime, Bool.and_eq_true, all_eq_true, hctx, all_some,
      decide_eq_true_eq] at hone
    have hnone : ofCage call.cageid g.signed = [] := by
      simpa [ofCage] using hone.1
    have hcount := h.count call.cageid
    rw [hnone, append_nil, counter, hctx] at hcount
    refine ⟨fun c => ?_, fun c => ?_, h.complete⟩
    · rw [counter_update, ofCage_cons, Nat.mod_eq_of_lt hone.2]
      by_cases hc : call.cageid = c
      · rw [if_pos hc, if_pos hc.symm, ← hc, hnone, map_append]
        exact (congrArg (· ++ [ctx.seqno]) hcount).trans range_succ.symm
      · rw [if_neg hc, if_neg (Ne.symm hc)]
        exact h.count c
    · rw [ofCage_cons]
      split
      next hc =>
        rw [← hc, hnone]
        exact Nat.le_refl 1
      · exact h.one c
  | write =>
    simp only [step, ite_none_left_eq_some, some_inj, not_or, not_not]
      at hstep
    rcases hstep with ⟨⟨_, hx⟩, rfl⟩
    refine ⟨fun c => ?_, fun c => ?_, ?_⟩
    · rw [records_signed, ofCage, filter_append, append_assoc]
      exact (congrArg (fun xs => (ofCage c (records g.log) ++ xs).map _)
        (h.ofCage_erase hx c)).trans (h.count c)
    · have hone := h.one c
      rw [← h.ofCage_erase hx c, length_append] at hone
      exact Nat.le_trans (Nat.le_add_left ..) hone
    · rw [records_signed, map_append]
      exact (h.complete.append_right _).trans
        (append_assoc .. ▸ (perm_append_singleton _ _).append_left _)
  | forward =>
    simp only [step, ite_none_left_eq_some, some_inj, not_or, not_not]
      at hstep
    rcases hstep with ⟨⟨_, hmem⟩, rfl⟩
    refine ⟨h.count, h.one, h.complete.trans ?_⟩
    rw [append_assoc]
    exact (perm_cons_erase hmem).append_left _

/-- In a run of one process whose cages have one call at a time between number
    and line, the log is in order. -/
theorem orderly_run {past : List (Line Pub Sig)}
    (h : Runs (· = { past := past }) (Grate.step files) (OneAtATime · · = true) g) : Orderly g := by
  refine Numbered.orderly (runs_inv (I := Numbered) ?_ ?_ g h)
  · rintro _ rfl
    exact ⟨fun _ => rfl, fun _ => Nat.zero_le _, List.Perm.refl _⟩
  · exact fun g a g' hg hone hstep => numbered_step hg hone hstep

/-- A scheme whose signatures are the seed and the record. -/
instance : Ed25519 Seed (Seed × Record) where
  publicKey seed := seed
  sign seed r := (seed, r)
  verify key r sig := decide (sig = (key, r))
  verify_sign key seed r r' := by
    rw [decide_eq_true_iff, Prod.mk.injEq, and_comm, eq_comm]

/-- A seed file for all cages. -/
def oneSeed : SeedFiles :=
  ⟨fun _ => none, some (List.replicate 32 1)⟩

/-- A call of a cage. -/
def callOf (cageid syscallno : Nat) : Call :=
  ⟨syscallno, cageid, .replicate 6 0, .replicate 6 cageid⟩

/-- The record of a call under the number its cage has given it. -/
def signedAs (cageid seqno syscallno : Nat) : Record × Seed × Record :=
  (⟨seqno, callOf cageid syscallno⟩, List.replicate 32 1, ⟨seqno, callOf cageid syscallno⟩)

/-- Two calls of a cage, one after the other, with one of another cage between. -/
def twoCages : List (Action (Seed × Record)) :=
  [.enter (callOf 7 0), .sign (callOf 7 0), .enter (callOf 8 2), .enter (callOf 7 1),
    .sign (callOf 8 2), .write (signedAs 8 0 2), .write (signedAs 7 0 0), .sign (callOf 7 1),
    .forward (callOf 8 2), .write (signedAs 7 1 1), .forward (callOf 7 1), .forward (callOf 7 0)]

theorem orderly_run_twoCages : ∃ g : Grate Seed (Seed × Record),
    Runs (· = { past := [] }) (Grate.step oneSeed) (OneAtATime · · = true) g ∧
      records g.log = [signedAs 8 0 2, signedAs 7 0 0, signedAs 7 1 1] ∧
      g.forwarded = [callOf 8 2, callOf 7 1, callOf 7 0] ∧ Orderly g := by
  have hrun : ∃ g : Grate Seed (Seed × Record),
      Runs (· = { past := [] }) (step oneSeed) (OneAtATime · · = true) g ∧
      records g.log = [signedAs 8 0 2, signedAs 7 0 0, signedAs 7 1 1] ∧
      g.forwarded = [callOf 8 2, callOf 7 1, callOf 7 0] :=
    exists_runs_replay twoCages rfl (by decide +kernel)
  rcases hrun with ⟨g, hg, hlog, hforwarded⟩
  exact ⟨g, hg, hlog, hforwarded, orderly_run hg⟩

/-- Two threads of a cage take their numbers in one order and write their lines
    in the other. -/
theorem swapped_lines : ∃ g : Grate Seed (Seed × Record),
    Runs (· = {}) (Grate.step oneSeed) (fun _ a => a ≠ .restart) g ∧ ¬ Orderly g := by
  have hrun : ∃ g : Grate Seed (Seed × Record),
      Runs (· = {}) (step oneSeed) (fun _ a => a ≠ .restart) g ∧
      (ofCage 7 (records g.log)).map (·.1.seqno) = [1] :=
    exists_runs_replay [.enter (callOf 7 0), .enter (callOf 7 1), .sign (callOf 7 0),
      .sign (callOf 7 1), .write (signedAs 7 1 1)] rfl (by decide +kernel)
  rcases hrun with ⟨g, hg, h⟩
  refine ⟨g, hg, fun ho => ?_⟩
  rcases ho.numbered 7 with ⟨n, hn⟩
  rw [h] at hn
  have hlen := congrArg List.length hn
  rw [length_range] at hlen
  rw [← hlen] at hn
  cases hn

/-! ## The uniqueness of a record -/

def Valid (key : Pub) (x : Record × Sig) : Prop :=
  Ed25519.verify key x.1 x.2 = true

/-- Records valid under one key that name the same cage and number are the same. -/
def Unique (Pub : Type) [Ed25519 Pub Sig] (xs : List (Record × Sig)) : Prop :=
  ∀ key : Pub, ∀ x ∈ xs, ∀ y ∈ xs, Valid key x → Valid key y →
    x.1.call.cageid = y.1.call.cageid → x.1.seqno = y.1.seqno → x.1 = y.1

/-- No context is made for a cage of which the file has a record that is valid
    under the key it will get, and counters stay below their end. -/
def NeverAgain (files : SeedFiles) (g : Grate Pub Sig) : Action Sig → Bool
  | .enter call => (g.ctxs call.cageid).isSome ||
      (loadSeedForCage files call.cageid).all fun seed => (records (g.past ++ g.log)).all fun x =>
        x.1.call.cageid ≠ call.cageid ||
          !Ed25519.verify (Ed25519.publicKey Sig seed : Pub) x.1 x.2
  | .sign call => (g.ctxs call.cageid).all (·.seqno + 1 < 2 ^ 64)
  | .write _ | .forward _ | .restart => true

/-- All records, in the file or without a line yet, are unique, and those under
    the key of a context are below its counter. -/
structure Traced (g : Grate Pub Sig) : Prop where
  unique : Unique Pub (records (g.past ++ g.log) ++ g.signed)
  below : ∀ x ∈ records (g.past ++ g.log) ++ g.signed, ∀ ctx ∈ g.ctxs x.1.call.cageid,
    Valid (Ed25519.publicKey Sig ctx.seed : Pub) x → x.1.seqno < ctx.seqno
  known : ∀ x ∈ g.signed, g.ctxs x.1.call.cageid ≠ none

omit [DecidableEq Sig] in
theorem Unique.mono {xs ys : List (Record × Sig)} (h : Unique Pub xs) (hsub : ys ⊆ xs) :
    Unique Pub ys :=
  fun key x hx y hy => h key x (hsub hx) y (hsub hy)

theorem traced_step (h : Traced g) (hcond : NeverAgain files g a = true)
    (hstep : g.step files a = some g') : Traced g' := by
  cases a with
  | restart =>
    cases hstep
    refine ⟨h.unique.mono ?_, fun x _ ctx hctx => ?_, fun x hx => absurd hx not_mem_nil⟩
    · rw [append_nil, records, filterMap_append]
      exact (append_nil _).symm ▸ subset_append_left ..
    · cases hctx
  | enter call =>
    simp only [step, ite_none_left_eq_some, some_inj] at hstep
    rcases hstep with ⟨_, rfl⟩
    rcases getOrCreate_cases { g with entered := call :: g.entered } files call.cageid with
      ⟨stop, hg⟩ | ⟨hnone, seed, hseed, hg⟩
    · rw [hg]
      exact ⟨h.unique, h.below, h.known⟩
    · rw [hg]
      have hfile : ∀ x ∈ records (g.past ++ g.log), x.1.call.cageid = call.cageid →
          ¬ Valid (Ed25519.publicKey Sig seed : Pub) x := by
        simpa [NeverAgain, Option.mem_def.mp hseed, show g.ctxs call.cageid = none from hnone,
          ← imp_iff_not_or, Valid] using hcond
      refine ⟨?_, fun x hx ctx hctx hvalid => ?_, fun x hx => ?_⟩
      · rw [← append_assoc, records_pubkey]
        exact h.unique
      · rw [← append_assoc, records_pubkey] at hx
        simp only [update_apply] at hctx
        split at hctx
        -- The new context has no record yet.
        next hc =>
          cases hctx
          rcases mem_append.mp hx with hx | hx
          · exact absurd hvalid (hfile x hx hc)
          · exact absurd (hc ▸ hnone) (h.known x hx)
        · exact h.below x hx ctx hctx hvalid
      · simp only [update_apply]
        split
        · simp
        · exact h.known x hx
  | sign call =>
    simp only [step, ite_none_left_eq_some, Option.map_eq_some_iff] at hstep
    rcases hstep with ⟨_, ctx, hctx, rfl⟩
    rw [NeverAgain, hctx, all_some, decide_eq_true_eq] at hcond
    generalize hx0 : ((⟨ctx.seqno, call⟩, Ed25519.sign Pub ctx.seed _) : Record × Sig) = x0
    have hkey : ∀ key : Pub, Valid key x0 → Ed25519.publicKey Sig ctx.seed = key := by
      rw [← hx0]
      exact fun key hv => ((Ed25519.verify_sign ..).mp hv).2
    have hnew : x0.1 = ⟨ctx.seqno, call⟩ := hx0 ▸ rfl
    have hmem : ∀ y ∈ records (g.past ++ g.log) ++ x0 :: g.signed,
        y = x0 ∨ y ∈ records (g.past ++ g.log) ++ g.signed := by
      simp only [mem_append, mem_cons]
      tauto
    -- Older records under the key have smaller numbers.
    have hlt : ∀ y ∈ records (g.past ++ g.log) ++ g.signed, ∀ key, Valid key x0 → Valid key y →
        y.1.call.cageid = call.cageid → y.1.seqno < ctx.seqno := fun y hy key hv hv' hc =>
      h.below y hy ctx (hc ▸ hctx) ((hkey key hv).symm ▸ hv')
    refine ⟨fun key x hx y hy hv hv' hc hn => ?_, fun x hx ctx' hctx' hv => ?_, fun x hx => ?_⟩
    · rcases hmem x hx with rfl | hold
      · rcases hmem y hy with rfl | hold
        · rfl
        have := hlt y hold key hv hv' (hc.symm.trans (by rw [hnew]))
        rw [← hn, hnew] at this
        exact absurd this (Nat.lt_irrefl _)
      rcases hmem y hy with rfl | hold'
      · have := hlt x hold key hv' hv (hc.trans (by rw [hnew]))
        rw [hn, hnew] at this
        exact absurd this (Nat.lt_irrefl _)
      · exact h.unique key x hold y hold' hv hv' hc hn
    · simp only [update_apply] at hctx'
      split at hctx'
      next hc =>
        cases hctx'
        rw [Nat.mod_eq_of_lt hcond, Nat.lt_succ_iff]
        rcases hmem x hx with rfl | hx
        · exact Nat.le_of_eq (congrArg Record.seqno hnew)
        · exact Nat.le_of_lt (h.below x hx ctx (hc ▸ hctx) hv)
      rename_i hc
      rcases hmem x hx with rfl | hx
      · exact absurd (congrArg (·.call.cageid) hnew) hc
      · exact h.below x hx ctx' hctx' hv
    · simp only [update_apply]
      split
      · simp
      rename_i hc
      rcases mem_cons.mp hx with rfl | hx
      · exact absurd (congrArg (·.call.cageid) hnew) hc
      · exact h.known x hx
  | write x =>
    simp only [step, ite_none_left_eq_some, some_inj, not_or, not_not]
      at hstep
    rcases hstep with ⟨⟨_, hx⟩, rfl⟩
    have hsub : records (g.past ++ (g.log ++ [.signed x.1 x.2])) ++ g.signed.erase x ⊆
        records (g.past ++ g.log) ++ g.signed := by
      intro y hy
      rw [← append_assoc, records_signed, mem_append, mem_append] at hy
      rcases hy with (hy | hy) | hy
      · exact mem_append_left _ hy
      · exact mem_append_right _ (mem_singleton.mp hy ▸ hx)
      · exact mem_append_right _ (mem_of_mem_erase hy)
    exact ⟨h.unique.mono hsub, fun y hy => h.below y (hsub hy),
      fun y hy => h.known y (mem_of_mem_erase hy)⟩
  | forward =>
    simp only [step, ite_none_left_eq_some, some_inj] at hstep
    rcases hstep with ⟨_, rfl⟩
    exact ⟨h.unique, h.below, h.known⟩

/-- Over any number of processes, records whose contexts are not made a second
    time stay unique. -/
theorem unique_run (h : Runs (· = ({} : Grate Pub Sig)) (Grate.step files)
    (NeverAgain files · · = true) g) : Unique Pub (records (g.past ++ g.log)) := by
  have htraced : Traced g := by
    refine runs_inv (I := Traced) ?_ (fun g a g' hg hcond hstep => traced_step hg hcond hstep) g h
    rintro _ rfl
    exact ⟨fun _ x hx => absurd hx not_mem_nil, fun x hx => absurd hx not_mem_nil,
      fun x hx => absurd hx not_mem_nil⟩
  exact htraced.unique.mono (subset_append_left ..)

/-- Two calls of a cage, and then a process without calls. -/
theorem unique_run_restart : ∃ g : Grate Seed (Seed × Record),
    Runs (· = {}) (Grate.step oneSeed) (NeverAgain oneSeed · · = true) g ∧
      records g.past = [signedAs 7 0 0, signedAs 7 1 1] ∧
      Unique Seed (records (g.past ++ g.log)) := by
  have hrun : ∃ g : Grate Seed (Seed × Record),
      Runs (· = {}) (step oneSeed) (NeverAgain oneSeed · · = true) g ∧
      records g.past = [signedAs 7 0 0, signedAs 7 1 1] :=
    exists_runs_replay [.enter (callOf 7 0), .sign (callOf 7 0), .write (signedAs 7 0 0),
      .enter (callOf 7 1), .sign (callOf 7 1), .write (signedAs 7 1 1), .restart] rfl
      (by decide +kernel)
  rcases hrun with ⟨g, hg, h⟩
  exact ⟨g, hg, h, unique_run hg⟩

/-- A second process signs number 0 of a cage for another call. -/
theorem signed_again : ∃ g : Grate Seed (Seed × Record),
    Runs (· = {}) (Grate.step oneSeed) (fun _ _ => True) g ∧
      ¬ Unique Seed (records (g.past ++ g.log)) := by
  have hrun : ∃ g : Grate Seed (Seed × Record), Runs (· = {}) (step oneSeed) (fun _ _ => True) g ∧
      records (g.past ++ g.log) = [signedAs 7 0 0, signedAs 7 0 1] :=
    exists_runs_replay [.enter (callOf 7 0), .sign (callOf 7 0), .write (signedAs 7 0 0),
      .restart, .enter (callOf 7 1), .sign (callOf 7 1), .write (signedAs 7 0 1)] rfl
      (by decide +kernel)
  rcases hrun with ⟨g, hg, h⟩
  refine ⟨g, hg, fun hu => ?_⟩
  rw [h] at hu
  exact absurd (hu (List.replicate 32 1) _ (mem_cons_self ..) _
    (mem_cons_of_mem _ (mem_cons_self ..)) rfl rfl rfl rfl) (by decide)

end LindGrates.Witness
