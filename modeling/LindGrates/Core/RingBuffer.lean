import Mathlib.Data.List.Basic

/-!
# Ring Buffers

The interface of the `ringbuf` crate, which holds the bytes of a pipe. The crate is
not part of this repository, so a buffer is an abstract type and its calls are
operations on that type.

The consumer sees the bytes it holds as two slices, the second one for the part
that wraps around, and the producer sees the free slots in the same way.

## Main definitions

* `RingBuffer`: The calls of the crate.
* `LawfulRingBuffer`: What the grate relies on.
* `QueueRing`: A buffer that satisfies it.
-/

namespace LindGrates

/-- The calls of the `ringbuf` crate. -/
class RingBuffer (R : Type) where
  new : (capacity : Nat) → R
  capacity : R → Nat
  /-- The bytes in the buffer, as the two slices a consumer sees. -/
  occupied : R → List UInt8 × List UInt8
  /-- The lengths of the two slices of free slots a producer sees. -/
  vacant : R → Nat × Nat
  pushSlice : R → List UInt8 → Nat × R
  popSlice : R → (len : Nat) → List UInt8 × R
  pushAccess : R → ((left right : Nat) → List UInt8) → Nat × R
  popAccess : R → ((left right : List UInt8) → Nat) → Nat × R

namespace RingBuffer

variable {R : Type} [RingBuffer R]

/-- The bytes in the buffer, oldest first. -/
def contents (r : R) : List UInt8 :=
  (occupied r).1 ++ (occupied r).2

def len (r : R) : Nat :=
  (occupied r).1.length + (occupied r).2.length

def isEmpty (r : R) : Bool :=
  len r = 0

def isFull (r : R) : Bool :=
  len r = capacity r

theorem length_contents (r : R) : (contents r).length = len r :=
  List.length_append

end RingBuffer

open RingBuffer

/-- The documented behaviour of the `ringbuf` crate: a bounded queue. -/
class LawfulRingBuffer (R : Type) [RingBuffer R] : Prop where
  capacity_new : ∀ n, capacity (new n : R) = n
  contents_new : ∀ n, contents (new n : R) = []
  len_le : ∀ r : R, len r ≤ capacity r
  vacant_add : ∀ r : R, (vacant r).1 + (vacant r).2 = capacity r - len r
  pushSlice_fst : ∀ (r : R) bs, (pushSlice r bs).1 = min bs.length (capacity r - len r)
  contents_pushSlice : ∀ (r : R) bs,
    contents (pushSlice r bs).2 = contents r ++ bs.take (capacity r - len r)
  capacity_pushSlice : ∀ (r : R) bs, capacity (pushSlice r bs).2 = capacity r
  popSlice_fst : ∀ (r : R) n, (popSlice r n).1 = (contents r).take n
  contents_popSlice : ∀ (r : R) n, contents (popSlice r n).2 = (contents r).drop n
  capacity_popSlice : ∀ (r : R) n, capacity (popSlice r n).2 = capacity r
  pushAccess_fst : ∀ (r : R) f, (f (vacant r).1 (vacant r).2).length ≤ capacity r - len r →
    (pushAccess r f).1 = (f (vacant r).1 (vacant r).2).length
  contents_pushAccess : ∀ (r : R) f,
    (f (vacant r).1 (vacant r).2).length ≤ capacity r - len r →
    contents (pushAccess r f).2 = contents r ++ f (vacant r).1 (vacant r).2
  capacity_pushAccess : ∀ (r : R) f, capacity (pushAccess r f).2 = capacity r
  popAccess_fst : ∀ (r : R) f, f (occupied r).1 (occupied r).2 ≤ len r →
    (popAccess r f).1 = f (occupied r).1 (occupied r).2
  contents_popAccess : ∀ (r : R) f, f (occupied r).1 (occupied r).2 ≤ len r →
    contents (popAccess r f).2 = (contents r).drop (f (occupied r).1 (occupied r).2)
  capacity_popAccess : ∀ (r : R) f, capacity (popAccess r f).2 = capacity r

/-- A queue laid out in a ring of one slot more than it can hold. -/
structure QueueRing where
  cap : Nat
  /-- The slot of the oldest byte. -/
  head : Nat
  queue : List UInt8
  length_le : queue.length ≤ cap

namespace QueueRing

/-- Append bytes as long as there is room. -/
def push (r : QueueRing) (bs : List UInt8) : QueueRing :=
  { r with
    queue := r.queue ++ bs.take (r.cap - r.queue.length)
    length_le := by
      have := r.length_le
      rw [List.length_append, List.length_take]
      omega }

/-- Remove bytes from the front. -/
def pop (r : QueueRing) (n : Nat) : QueueRing :=
  { r with
    head := (r.head + min n r.queue.length) % (r.cap + 1)
    queue := r.queue.drop n
    length_le := by
      have := r.length_le
      rw [List.length_drop]
      omega }

/-- The slots from the oldest byte, or from the first free slot, to the end of
    the storage. -/
def untilEnd (r : QueueRing) (slot : Nat) : Nat :=
  r.cap + 1 - slot % (r.cap + 1)

instance : RingBuffer QueueRing where
  new n := ⟨n, 0, [], Nat.zero_le n⟩
  capacity r := r.cap
  occupied r := (r.queue.take (r.untilEnd r.head), r.queue.drop (r.untilEnd r.head))
  vacant r :=
    let free := r.cap - r.queue.length
    let left := min free (r.untilEnd (r.head + r.queue.length))
    (left, free - left)
  pushSlice r bs := (min bs.length (r.cap - r.queue.length), r.push bs)
  popSlice r n := (r.queue.take n, r.pop n)
  pushAccess r f :=
    let free := r.cap - r.queue.length
    let left := min free (r.untilEnd (r.head + r.queue.length))
    ((f left (free - left)).length, r.push (f left (free - left)))
  popAccess r f :=
    let n := f (r.queue.take (r.untilEnd r.head)) (r.queue.drop (r.untilEnd r.head))
    (n, r.pop n)

theorem contents_eq (r : QueueRing) : contents r = r.queue :=
  List.take_append_drop _ _

theorem len_eq (r : QueueRing) : len r = r.queue.length := by
  rw [← length_contents, contents_eq]

end QueueRing

open QueueRing

theorem lawful_queueRing : LawfulRingBuffer QueueRing where
  capacity_new _ := rfl
  contents_new _ := contents_eq _
  len_le r := by
    rw [len_eq]
    exact r.length_le
  vacant_add r := by
    rw [len_eq]
    exact Nat.add_sub_of_le (Nat.min_le_left _ _)
  pushSlice_fst r bs := by rw [len_eq]; rfl
  contents_pushSlice r bs := by
    rw [contents_eq, contents_eq, len_eq]
    rfl
  capacity_pushSlice _ _ := rfl
  popSlice_fst r n := by rw [contents_eq]; rfl
  contents_popSlice r n := by
    rw [contents_eq, contents_eq]
    rfl
  capacity_popSlice _ _ := rfl
  pushAccess_fst _ _ _ := rfl
  contents_pushAccess r f h := by
    rw [contents_eq, contents_eq]
    rw [len_eq] at h
    exact congrArg (r.queue ++ ·) (List.take_of_length_le h)
  capacity_pushAccess _ _ := rfl
  popAccess_fst _ _ _ := rfl
  contents_popAccess r f _ := by
    rw [contents_eq, contents_eq]
    rfl
  capacity_popAccess _ _ := rfl

end LindGrates
