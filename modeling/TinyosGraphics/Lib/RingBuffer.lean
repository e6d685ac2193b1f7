import Mathlib.Data.Nat.ModEq
import Mathlib.Tactic.Common

/-! Ring buffers of `n` elements in `n + 1` slots: a pointer that writes, a pointer that reads, and one slot that stays
free so that a full ring is not taken for an empty one. -/
namespace TinyosGraphics.Lib

structure RingBuffer (α : Type*) where
  writePtr : Nat
  readPtr : Nat
  buf : List α

namespace RingBuffer
variable {α : Type*}

def next (n p : Nat) : Nat :=
  if n < p + 1 then 0 else p + 1

def isEmpty (r : RingBuffer α) : Bool :=
  r.writePtr = r.readPtr

def isFull (n : Nat) (r : RingBuffer α) : Bool :=
  next n r.writePtr = r.readPtr

def count (n : Nat) (r : RingBuffer α) : Nat :=
  (r.writePtr + (n + 1) - r.readPtr) % (n + 1)

def write (n : Nat) (r : RingBuffer α) (x : α) : RingBuffer α :=
  { r with buf := r.buf.set r.writePtr x, writePtr := next n r.writePtr }

def drop (n : Nat) (r : RingBuffer α) : RingBuffer α :=
  { r with readPtr := next n r.readPtr }

structure Holds (n : Nat) (r : RingBuffer α) (xs : List α) : Prop where
  size : r.buf.length = n + 1
  room : xs.length ≤ n
  read_le : r.readPtr ≤ n
  write_eq : r.writePtr = (r.readPtr + xs.length) % (n + 1)
  slots : ∀ i < xs.length, r.buf[(r.readPtr + i) % (n + 1)]? = xs[i]?

variable {n : Nat} {r : RingBuffer α} {xs : List α} {x : α}

theorem next_eq {p : Nat} (hp : p ≤ n) : next n p = (p + 1) % (n + 1) := by
  rw [next]
  split
  · have hlast : p = n := by omega
    rw [hlast, Nat.mod_self]
  · rw [Nat.mod_eq_of_lt (by omega)]

theorem slot_ne {p i j : Nat} (hij : i < j) (hj : j ≤ n) : (p + i) % (n + 1) ≠ (p + j) % (n + 1) := by
  intro heq
  have hdvd : n + 1 ∣ (p + j) - (p + i) := (Nat.modEq_iff_dvd' (by omega)).mp heq
  have hsub : (p + j) - (p + i) = j - i := by omega
  have hzero := Nat.eq_zero_of_dvd_of_lt (hsub ▸ hdvd) (by omega)
  omega

namespace Holds

/-- Both pointers at the start. -/
theorem start {buf : List α} (hsize : buf.length = n + 1) : Holds n ⟨0, 0, buf⟩ [] where
  size := hsize
  room := Nat.zero_le n
  read_le := Nat.zero_le n
  write_eq := (Nat.zero_mod _).symm
  slots _ h := absurd h (Nat.not_lt_zero _)

theorem write_le (h : Holds n r xs) : r.writePtr ≤ n := by
  rw [h.write_eq]
  exact Nat.le_of_lt_succ (Nat.mod_lt _ (Nat.succ_pos n))

theorem count_eq (h : Holds n r xs) : r.count n = xs.length := by
  have hroom := h.room
  have hread := h.read_le
  rw [count, h.write_eq]
  by_cases hturn : r.readPtr + xs.length < n + 1
  · have hsub : r.readPtr + xs.length + (n + 1) - r.readPtr = xs.length + (n + 1) := by omega
    rw [Nat.mod_eq_of_lt hturn, hsub, Nat.add_mod_right, Nat.mod_eq_of_lt (by omega)]
  · have hwrap : (r.readPtr + xs.length) % (n + 1) = r.readPtr + xs.length - (n + 1) := by
      rw [Nat.mod_eq_sub_mod (by omega), Nat.mod_eq_of_lt (by omega)]
    have hsub : r.readPtr + xs.length - (n + 1) + (n + 1) - r.readPtr = xs.length := by omega
    rw [hwrap, hsub, Nat.mod_eq_of_lt (by omega)]

theorem isEmpty_iff (h : Holds n r xs) : r.isEmpty = true ↔ xs = [] := by
  rw [isEmpty, decide_eq_true_iff, h.write_eq]
  constructor
  · intro heq
    by_contra hne
    have hpos : 0 < xs.length := List.length_pos_iff.mpr hne
    refine slot_ne (p := r.readPtr) hpos h.room ?_
    rw [Nat.add_zero, Nat.mod_eq_of_lt (Nat.lt_succ_of_le h.read_le)]
    exact heq.symm
  · rintro rfl
    exact Nat.mod_eq_of_lt (Nat.lt_succ_of_le h.read_le)

theorem isFull_iff (h : Holds n r xs) : r.isFull n = true ↔ xs.length = n := by
  rw [isFull, decide_eq_true_iff, next_eq h.write_le, h.write_eq, Nat.mod_add_mod]
  have hroom := h.room
  constructor
  · intro heq
    by_contra hne
    refine slot_ne (n := n) (p := r.readPtr) (i := 0) (j := xs.length + 1) (by omega) (by omega) ?_
    rw [Nat.add_zero, Nat.mod_eq_of_lt (Nat.lt_succ_of_le h.read_le)]
    exact heq.symm
  · intro hfull
    rw [hfull, Nat.add_assoc, Nat.add_mod_right]
    exact Nat.mod_eq_of_lt (Nat.lt_succ_of_le h.read_le)

theorem write (h : Holds n r xs) (hroom : xs.length < n) (x : α) : Holds n (r.write n x) (xs ++ [x]) where
  size := by rw [RingBuffer.write, List.length_set, h.size]
  room := by
    rw [List.length_append]
    exact hroom
  read_le := h.read_le
  write_eq := by
    rw [RingBuffer.write, next_eq h.write_le, h.write_eq, Nat.mod_add_mod, List.length_append]
    rfl
  slots i hi := by
    rw [List.length_append, List.length_singleton] at hi
    rw [RingBuffer.write, List.getElem?_set, h.write_eq]
    by_cases hlast : i = xs.length
    · have hin : (r.readPtr + xs.length) % (n + 1) < r.buf.length := by
        rw [h.size]
        exact Nat.mod_lt _ (Nat.succ_pos n)
      rw [hlast, if_pos rfl, if_pos hin, List.getElem?_concat_length]
    · have hlt : i < xs.length := by omega
      rw [if_neg (Ne.symm (slot_ne hlt h.room)), h.slots i hlt, List.getElem?_append_left hlt]

theorem head (h : Holds n r (x :: xs)) : r.buf[r.readPtr]? = some x := by
  have hslot := h.slots 0 (Nat.succ_pos _)
  rwa [Nat.add_zero, Nat.mod_eq_of_lt (Nat.lt_succ_of_le h.read_le)] at hslot

theorem drop (h : Holds n r (x :: xs)) : Holds n (r.drop n) xs where
  size := h.size
  room := Nat.le_of_succ_le h.room
  read_le := by
    rw [RingBuffer.drop, next_eq h.read_le]
    exact Nat.le_of_lt_succ (Nat.mod_lt _ (Nat.succ_pos n))
  write_eq := by
    rw [RingBuffer.drop, next_eq h.read_le, Nat.mod_add_mod, h.write_eq, List.length_cons]
    congr 1
    omega
  slots i hi := by
    have hslot := h.slots (i + 1) (Nat.succ_lt_succ hi)
    rw [RingBuffer.drop, next_eq h.read_le, Nat.mod_add_mod, Nat.add_assoc, Nat.add_comm 1 i, hslot]
    rfl

end Holds
end RingBuffer
end TinyosGraphics.Lib
