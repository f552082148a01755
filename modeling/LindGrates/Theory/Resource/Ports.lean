import LindGrates.Core.MapTables
import LindGrates.Core.Resource.Handlers
import Mathlib.Data.Fin.VecNotation

/-!
# The Lists of Ports

A list that is missing allows every port, and `connect` and `sendto` do not look at
the lists.

## Main definitions

* `State.Listed`, `State.Checks`: A list has the port, and a call looks at both lists.

## Theorems

* `ports_enforced_iff`: When a call is refused exactly if no list has its port.
* `ports_open`: Calls that take every port.
-/

namespace LindGrates.Resource

variable {T : Type} {port : Nat} {s : State T}

/-- A configured list has the port. -/
def State.Listed (s : State T) (port : Nat) : Prop :=
  ∃ name, ∃ ports, s.individual name = some ports ∧ port ∈ ports

def Call.address : Call → Option Sockaddr
  | .bind _ addr | .connect _ addr | .sendto _ addr => addr
  | _ => none

/-- The call looks at the lists, and none of them is missing. -/
def State.Checks (s : State T) (call : Call) : Prop :=
  (∃ fd addr, call = .bind fd addr) ∧ ∀ name, (s.individual name).isSome

theorem isItemAllowed_iff {ports : Option (List Nat)} :
    isItemAllowed ports port = true ↔ ports = none ∨ ∃ set, ports = some set ∧ port ∈ set := by
  cases ports with
  | none | some => simp [isItemAllowed]

theorem allowsPort_iff :
    s.allowsPort port = true ↔ s.Listed port ∨ ∃ name, s.individual name = none := by
  rw [State.allowsPort, Bool.or_eq_true, isItemAllowed_iff, isItemAllowed_iff]
  constructor
  · rintro ((h | h) | (h | h))
    · exact .inr ⟨_, h⟩
    · exact .inl ⟨_, h⟩
    · exact .inr ⟨_, h⟩
    · exact .inl ⟨_, h⟩
  · rintro (⟨name, h⟩ | ⟨name, h⟩)
    · cases name with
      | messport => exact .inl (.inr h)
      | connport => exact .inr (.inr h)
    · cases name with
      | messport => exact .inl (.inl h)
      | connport => exact .inr (.inl h)

theorem acquiring_ne_refuse (s : State T) (name : Counted) (succeed : State T → Int → State T) :
    s.acquiring name (-emfile) succeed ≠ .refuse (-eacces) := by
  rw [State.acquiring]
  cases s.tattleAddItem name with
  | none => simp [emfile, eacces]
  | some => exact fun h => by cases h

variable [FdTables T]

theorem handleBind_refuses_iff {cage fd : Nat} {a : Sockaddr} (hinet : a.family = afInet) :
    s.handleBind cage fd (some a) = .refuse (-eacces) ↔ ¬ s.allowsPort a.port = true := by
  have hport : extractPort (some a) = some a.port := by
    rw [extractPort, copyInto_eq]
    exact if_pos hinet
  rw [State.handleBind, hport, Option.all_some]
  split
  next h => exact iff_of_false (fun hc => by cases hc) (not_not_intro h)
  next h => exact iff_of_true rfl h

/-- A call that names a port is refused exactly if no list has it, provided that a list
    has it, or that the call is a `bind` and both lists are configured. -/
theorem ports_enforced_iff (s : State T) (cage : Nat) (call : Call) (a : Sockaddr)
    (hcall : call.address = some a) (hinet : a.family = afInet) :
    (s.handle cage call = .refuse (-eacces) ↔ ¬ s.Listed a.port) ↔
      s.Listed a.port ∨ s.Checks call := by
  have hmissing : (∀ name, (s.individual name).isSome) ↔ ¬ ∃ name, s.individual name = none := by
    simp [Option.isSome_iff_ne_none]
  -- a handler that does not look at the lists is right about the ports they have
  have hblind : s.handle cage call ≠ .refuse (-eacces) → ¬ s.Checks call →
      ((s.handle cage call = .refuse (-eacces) ↔ ¬ s.Listed a.port) ↔
        s.Listed a.port ∨ s.Checks call) := by
    intro hne hcheck
    rw [iff_false_left hne, not_not, or_iff_left hcheck]
  cases call with
  | bind fd addr =>
    obtain rfl : addr = some a := hcall
    rw [State.handle, handleBind_refuses_iff hinet, allowsPort_iff, State.Checks,
      and_iff_right ⟨fd, _, rfl⟩, hmissing]
    tauto
  | connect =>
    refine hblind (acquiring_ne_refuse s _ _) ?_
    rintro ⟨⟨_, _, h⟩, _⟩
    cases h
  | sendto =>
    refine hblind (fun hc => by cases hc) ?_
    rintro ⟨⟨_, _, h⟩, _⟩
    cases h
  | _ => cases hcall

def inetAddr (port : UInt8) : Sockaddr :=
  ![2, 0, 0, port, 10, 0, 0, 1, 0, 0, 0, 0, 0, 0, 0, 0]

/-- One list with one port. -/
def onlyMessport : State (MapTables 16) where
  fungible _ := none
  individual
    | .messport => some [80]
    | .connport => none
  fds := .unregistered 16

/-- The port that the list has is let through. -/
theorem ports_enforced_iff_listed :
    onlyMessport.handle 1 (.bind 3 (some (inetAddr 80))) ≠ .refuse (-eacces) := by
  have hlisted : onlyMessport.Listed (inetAddr 80).port := ⟨.messport, [80], rfl, by decide⟩
  have henforced := (ports_enforced_iff onlyMessport 1 (.bind 3 (some (inetAddr 80)))
    (inetAddr 80) rfl rfl).mpr (.inl hlisted)
  exact fun h => henforced.mp h hlisted

/-- With only one list any other port can be bound, and `connect` and `sendto` take every
    port. -/
theorem ports_open :
    (onlyMessport.individual .messport).isSome ∧ ¬ onlyMessport.Listed (inetAddr 22).port ∧
      ∀ call ∈ [Call.bind 3 (some (inetAddr 22)), .connect 3 (some (inetAddr 22)),
        .sendto 3 (some (inetAddr 22))], onlyMessport.handle 1 call ≠ .refuse (-eacces) := by
  refine ⟨rfl, ?_, ?_⟩
  · rintro ⟨name, ports, h, hmem⟩
    cases name with
    | messport =>
      cases h
      exact absurd hmem (by decide)
    | connport => cases h
  · intro call hcall h
    simp only [List.mem_cons, List.not_mem_nil, or_false] at hcall
    rcases hcall with rfl | rfl | rfl
    · exact (handleBind_refuses_iff rfl).mp h (by decide)
    · cases h
    · cases h

end LindGrates.Resource
