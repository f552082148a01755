import LindGrates.Base.Run
import LindGrates.Core.Ipc.Ports
import Mathlib.Order.Interval.Finset.Nat

/-!
# The Search for a Port

The ports stand in a circle, and a search visits each of them once. Successive
searches have rising offsets, so they give different ports until all free ones
are given.

## Main definitions

* `portAt`: The port at an offset from another.
* `Searches`: What a search comes to.

## Theorems

* `allocPorts_spec`: What successive searches give.
* `ports_complete`: After any calls a search gives a free port if there is one.
-/

namespace LindGrates.Ipc

open PortRegistry Finset

def ephemeral : Finset Nat :=
  Finset.Icc 32768 60999

/-- The port at an offset from another. An offset up to `portCount` passes the end at most
    once. -/
def portAt (start d : Nat) : Nat :=
  if start < 32768 + d then start + 28232 - d else start - d

/-- What a search comes to: the first free offset, or that there is none. -/
def Searches (bound : Nat → Option Nat) (start : Nat)
    (result : Option (Option Nat × PortRegistry)) : Prop :=
  (∃ d < portCount, (∀ e < d, bound (portAt start e) ≠ none) ∧ bound (portAt start d) = none ∧
    result = some (some (portAt start d), ⟨bound, portAt start (d + 1)⟩)) ∨
  (∀ e < portCount, bound (portAt start e) ≠ none) ∧ result = some (none, ⟨bound, start⟩)

variable {bound : Nat → Option Nat} {start d e : Nat}

section

variable (hs : start ∈ ephemeral)

include hs

theorem portAt_zero : portAt start 0 = start := by
  have := mem_Icc.mp hs
  rw [portAt, if_neg (by omega), Nat.sub_zero]

theorem portAt_mem (hd : d ≤ portCount) : portAt start d ∈ ephemeral := by
  simp only [ephemeral, mem_Icc, portAt, portCount] at *
  split <;> omega

theorem nextPort_portAt (hd : d < portCount) :
    nextPort (portAt start d) = portAt start (d + 1) := by
  simp only [ephemeral, mem_Icc, portAt, nextPort, portCount] at *
  split_ifs <;> omega

theorem portAt_portAt (hd : d + e ≤ portCount) :
    portAt (portAt start d) e = portAt start (d + e) := by
  simp only [ephemeral, mem_Icc, portAt, portCount] at *
  split_ifs <;> omega

theorem portAt_injective (hd : d < portCount) (he : e < portCount)
    (heq : portAt start d = portAt start e) : d = e := by
  simp only [ephemeral, mem_Icc, portAt, portCount] at *
  split_ifs at heq <;> omega

theorem portAt_succ_eq_iff (hd : d < portCount) :
    portAt start (d + 1) = start ↔ d + 1 = portCount := by
  simp only [ephemeral, mem_Icc, portAt, portCount] at *
  split_ifs <;> omega

theorem exists_portAt {port : Nat} (hp : port ∈ ephemeral) :
    ∃ d < portCount, portAt start d = port := by
  simp only [ephemeral, mem_Icc, portAt, portCount] at *
  by_cases hle : port ≤ start
  · exact ⟨start - port, by omega, by rw [if_neg (by omega)]; omega⟩
  · exact ⟨start + 28232 - port, by omega, by rw [if_pos (by omega)]; omega⟩

theorem alloc_searches : Searches bound start (allocEphemeralPort ⟨bound, start⟩) := by
  -- as long as only bound ports are met, a pass is left for every offset from `d` on
  have hloop : ∀ n d, d < portCount → d + n = portCount →
      (∀ e < d, bound (portAt start e) ≠ none) →
      Searches bound start ((loop (portPass ⟨bound, start⟩ start) n (portAt start d)).map
        fun answer => (answer, ⟨bound, (answer.map nextPort).getD start⟩)) := by
    intro n
    induction n with
    | zero =>
      intro d hd hn
      omega
    | succ n ih =>
      intro d hd hn hbefore
      have hnext := nextPort_portAt hs hd
      by_cases hfree : bound (portAt start d) = none
      · refine .inl ⟨d, hd, hbefore, hfree, ?_⟩
        simp [loop, portPass, hfree, hnext]
      have hbound := Nat.forall_lt_succ_right.mpr ⟨hbefore, hfree⟩
      simp only [loop, portPass, if_neg hfree, hnext]
      by_cases hround : portAt start (d + 1) = start
      · rw [if_pos hround]
        exact .inr ⟨(portAt_succ_eq_iff hs hd).mp hround ▸ hbound, rfl⟩
      · rw [if_neg hround]
        have hne := mt (portAt_succ_eq_iff hs hd).mpr hround
        exact ih (d + 1) (by omega) (by omega) hbound
  have hall := hloop portCount 0 (by decide) (Nat.zero_add _) fun e he => absurd he e.not_lt_zero
  rwa [portAt_zero hs] at hall

/-- Successive calls have given the free ports before an offset, each of them once. -/
theorem allocPorts_spec {k : Nat} (hk : k ≤ (ephemeral.filter (bound · = none)).card) :
    ∃ ports, ∃ d ≤ portCount, allocPorts ⟨bound, start⟩ k = some (ports, ⟨bound, portAt start d⟩) ∧
      ports.Nodup ∧ ports.length = k ∧
        ∀ port, port ∈ ports ↔ ∃ e < d, portAt start e = port ∧ bound port = none := by
  induction k with
  | zero => exact ⟨[], 0, Nat.zero_le _, by rw [portAt_zero hs]; rfl, by simp⟩
  | succ k ih =>
    rcases ih (Nat.le_of_succ_le hk) with ⟨ports, d, hd, hrun, hnodup, hlen, hmem⟩
    -- a free port that has not been given has an offset from `d` on
    have hcard := Nat.lt_of_le_of_lt (List.toFinset_card_le ports) (hlen ▸ hk)
    rcases exists_mem_notMem_of_card_lt_card hcard with ⟨port, hport, hnew⟩
    rcases mem_filter.mp hport with ⟨hin, hfree⟩
    rcases exists_portAt hs hin with ⟨e, he, rfl⟩
    have hde : d ≤ e := by
      refine Nat.le_of_not_lt fun hlt => hnew (List.mem_toFinset.mpr ?_)
      exact (hmem _).mpr ⟨e, hlt, rfl, hfree⟩
    -- offsets from `d` on, as the search that starts there sees them
    have hfrom : ∀ e, d ≤ e → e ≤ portCount →
        portAt (portAt start d) (e - d) = portAt start e := by
      intro e hle hlt
      rw [portAt_portAt hs (by omega), Nat.add_sub_cancel' hle]
    rcases alloc_searches (portAt_mem hs hd) with ⟨m, _, hbefore, hfirst, hcall⟩ | ⟨hall, _⟩
    · have hle : d + m ≤ e := by
        refine Nat.le_of_not_lt fun hlt => hbefore (e - d) (by omega) ?_
        rwa [hfrom e hde (by omega)]
      rw [portAt_portAt hs (by omega)] at hfirst hcall
      rw [portAt_portAt hs (by omega)] at hcall
      refine ⟨ports.concat (portAt start (d + m)), d + (m + 1), by omega, ?_, ?_, by simp [hlen],
        fun port => ?_⟩
      · simp [allocPorts, hrun, hcall]
      · rw [List.concat_eq_append, List.nodup_append]
        refine ⟨hnodup, List.nodup_singleton _, fun p hp q hq => ?_⟩
        rw [List.mem_singleton.mp hq]
        rintro rfl
        rcases (hmem _).mp hp with ⟨e', he', heq, _⟩
        have := portAt_injective hs (by omega) (by omega) heq
        omega
      · rw [List.concat_eq_append, List.mem_append, List.mem_singleton, hmem]
        constructor
        · rintro (⟨e', he', h⟩ | rfl)
          · exact ⟨e', by omega, h⟩
          · exact ⟨d + m, by omega, rfl, hfirst⟩
        · rintro ⟨e', he', rfl, h⟩
          by_cases heq : e' = d + m
          · exact .inr (heq ▸ rfl)
          refine .inl ⟨e', Nat.lt_of_not_le fun hge => hbefore (e' - d) (by omega) ?_, rfl, h⟩
          rwa [hfrom e' hge (by omega)]
    · refine absurd hfree (hfrom e hde (by omega) ▸ hall (e - d) (by omega))

end

/-- After any calls a search ends. It gives a free port of the range, or none if all are bound,
    and as many searches as there are free ports give different ones. -/
theorem ports_complete {r : PortRegistry} (h : Runs (· = new) step (fun _ _ => True) r) :
    (∃ answer r', r.allocEphemeralPort = some (answer, r') ∧
      (∀ port, answer = some port → port ∈ ephemeral ∧ r.boundPorts port = none) ∧
      (answer = none ↔ ∀ port ∈ ephemeral, r.boundPorts port ≠ none)) ∧
    ∀ k ≤ (ephemeral.filter (r.boundPorts · = none)).card,
      ∃ ports r', r.allocPorts k = some (ports, r') ∧ ports.length = k ∧ ports.Nodup := by
  have hs : r.nextEphemeralPort ∈ ephemeral := by
    refine runs_inv (I := fun r => r.nextEphemeralPort ∈ ephemeral) ?_ ?_ r h
    · rintro _ rfl
      exact mem_Icc.mpr (by decide)
    rintro r (_ | bound) r' hs _ hstep
    · rcases alloc_searches hs with ⟨d, hd, _, _, hcall⟩ | ⟨_, hcall⟩
      all_goals rw [step, hcall] at hstep
      all_goals cases hstep
      · exact portAt_mem hs hd
      · exact hs
    · cases hstep
      exact hs
  refine ⟨?_, fun k hk => ?_⟩
  · rcases alloc_searches hs with ⟨d, hd, _, hfree, hcall⟩ | ⟨hall, hcall⟩
    · have hin := portAt_mem hs (Nat.le_of_lt hd)
      refine ⟨_, _, hcall, ?_, iff_of_false nofun fun hb => hb _ hin hfree⟩
      rintro _ ⟨⟩
      exact ⟨hin, hfree⟩
    · refine ⟨_, _, hcall, nofun, iff_of_true rfl fun port hport => ?_⟩
      rcases exists_portAt hs hport with ⟨d, hd, rfl⟩
      exact hall d hd
  · rcases allocPorts_spec hs hk with ⟨ports, d, _, hrun, hnodup, hlen, _⟩
    exact ⟨ports, _, hrun, hlen, hnodup⟩

/-- The registry once a socket has bound the port a search begins at. -/
def firstBound : PortRegistry :=
  { new with boundPorts := fun port => if port = 60999 then some 1 else none }

/-- Two searches pass the bound port and give different ports. -/
theorem ports_complete_firstBound :
    firstBound.nextEphemeralPort = 60999 ∧ firstBound.boundPorts 60999 = some 1 ∧
      ∃ ports r', firstBound.allocPorts 2 = some (ports, r') ∧ ports.length = 2 ∧ ports.Nodup := by
  have hrun : Runs (· = new) step (fun _ _ => True) firstBound :=
    .next new (some firstBound.boundPorts) firstBound (.start new rfl) trivial rfl
  refine ⟨rfl, rfl, (ports_complete hrun).2 2 ?_⟩
  refine one_lt_card.mpr ⟨60998, ?_, 60997, ?_, by decide⟩
  all_goals exact mem_filter.mpr ⟨mem_Icc.mpr (by decide), rfl⟩

end LindGrates.Ipc
