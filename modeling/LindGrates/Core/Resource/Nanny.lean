import LindGrates.Base.Run

/-!
# The Accounts of the Resource Grate

A renewable resource has a rate and an account of what was consumed and has not
drained yet. `tattle_quantity` takes the lock of the account, drains it for the time
that has passed, charges a quantity, and if that is more than a second's worth sleeps
until enough has drained, with the lock still held.

The numbers and the clock are parameters: exact arithmetic or floating point, for
which a sleep may be impossible and the thread panics, which poisons the lock.

## Main definitions

* `Renewable`: A renewable resource, with the call that has its lock.
* `step`: The callers of one resource, of whom any number may wait for the lock.
* `Fungible`: A resource that is counted.
-/

namespace LindGrates.Resource

/-- What the grate does with time: `duration_since` as seconds, and the end of a sleep
    of so many seconds, if `Duration` and `Instant` can hold it. -/
structure Clock (F τ : Type) where
  since : (now earlier : τ) → F
  after : (now : τ) → (secs : F) → Option τ

structure Account (F τ : Type) where
  consumed : F
  lastUpdate : τ

inductive Phase (τ : Type)
  | entered
  | asleep (deadline : τ)
  | finished
  deriving DecidableEq

/-- A call with the lock. -/
structure Holder (F τ : Type) where
  quantity : F
  obtained : τ
  phase : Phase τ

/-- A call that has returned. -/
structure Charge (F τ : Type) where
  quantity : F
  obtained : τ
  returned : τ

/-- `RenewableResource`, with the call that has its lock and the calls that have
    returned. -/
structure Renewable (F τ : Type) where
  allowedPerSec : F
  inner : Account F τ
  poisoned : Bool
  clock : τ
  holder : Option (Holder F τ)
  charges : List (Charge F τ)

/-- Time passes, or a caller goes on: it gets the lock, charges its quantity, wakes up,
    or returns. -/
inductive Action (F τ : Type)
  | tick (now : τ)
  | lock (quantity : F)
  | charge
  | wake
  | ret

section

variable {F τ : Type} [Zero F] [Add F] [Sub F] [Mul F] [Div F] [LT F] [DecidableLT F]

def Account.drain (κ : Clock F τ) (rate : F) (a : Account F τ) (now : τ) : Account F τ :=
  let consumed := a.consumed - κ.since now a.lastUpdate * rate
  ⟨if consumed < 0 then 0 else consumed, now⟩

def Account.sleepSecs (rate : F) (a : Account F τ) : F :=
  (a.consumed - rate) / rate

namespace Renewable

/-- The first half of `tattle_quantity`: drain, charge, and sleep if it is too much. -/
def charge (κ : Clock F τ) (w : Renewable F τ) (h : Holder F τ) : Renewable F τ :=
  let drained := w.inner.drain κ w.allowedPerSec w.clock
  let inner := { drained with consumed := drained.consumed + h.quantity }
  let w := { w with inner := inner }
  if w.allowedPerSec < inner.consumed then
    match κ.after w.clock (inner.sleepSecs w.allowedPerSec) with
    | none => { w with poisoned := true, holder := none }
    | some deadline => { w with holder := some { h with phase := .asleep deadline } }
  else { w with holder := some { h with phase := .finished } }

/-- The second half: drain again. -/
def wake (κ : Clock F τ) (w : Renewable F τ) (h : Holder F τ) : Renewable F τ :=
  { w with
    inner := w.inner.drain κ w.allowedPerSec w.clock
    holder := some { h with phase := .finished } }

def ret (w : Renewable F τ) (h : Holder F τ) : Renewable F τ :=
  { w with
    holder := none
    charges := w.charges ++ [⟨h.quantity, h.obtained, w.clock⟩] }

variable [LE τ] [DecidableLE τ]

/-- The callers of one resource. A lock is had only by one of them, and not any more
    once it is poisoned. -/
def step (κ : Clock F τ) (w : Renewable F τ) : Action F τ → Option (Renewable F τ)
  | .tick now => if w.clock ≤ now then some { w with clock := now } else none
  | .lock quantity =>
    if w.holder.isNone && !w.poisoned then
      some { w with holder := some ⟨quantity, w.clock, .entered⟩ }
    else none
  | .charge =>
    w.holder.bind fun h =>
      match h.phase with
      | .entered => some (w.charge κ h)
      | _ => none
  | .wake =>
    w.holder.bind fun h =>
      match h.phase with
      | .asleep deadline => if deadline ≤ w.clock then some (w.wake κ h) else none
      | _ => none
  | .ret =>
    w.holder.bind fun h =>
      match h.phase with
      | .finished => some (w.ret h)
      | _ => none

structure Start (rate : F) (w : Renewable F τ) : Prop where
  rate : w.allowedPerSec = rate
  consumed : w.inner.consumed = 0
  lastUpdate : w.inner.lastUpdate ≤ w.clock
  poisoned : w.poisoned = false
  holder : w.holder = none
  charges : w.charges = []

end Renewable

end

/-- `FungibleResource`. The count is a `usize`. -/
structure Fungible where
  limit : Nat
  count : Nat
  deriving DecidableEq

/-- `tattle_add_item`, for a resource that is configured. -/
def Fungible.tattleAddItem (r : Fungible) : Option Fungible :=
  if r.limit ≤ r.count then none else some { r with count := r.count + 1 }

/-- `tattle_remove_item`, for a resource that is configured. -/
def Fungible.tattleRemoveItem (r : Fungible) : Fungible :=
  { r with count := r.count - 1 }

/-- `is_item_allowed`: a list that is not configured allows everything. -/
def isItemAllowed (ports : Option (List Nat)) (item : Nat) : Bool :=
  match ports with
  | some set => decide (item ∈ set)
  | none => true

end LindGrates.Resource
