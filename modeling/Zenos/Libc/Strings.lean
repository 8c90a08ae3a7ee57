-- Moving bytes in the memory of a process, as the string routines of the C
-- library do it. Addresses are numbers: a range that does not wrap is a range
-- of them.
import Mathlib.Logic.Function.Basic

namespace libc.string

open Function

/-- `while (n--) *d++ = *s++`. -/
def copy_up (mem : Nat → UInt8) (d s : Nat) : Nat → Nat → UInt8
  | 0 => mem
  | n + 1 => copy_up (update mem d (mem s)) (d + 1) (s + 1) n

/-- `while (n--) *--d = *--s`. -/
def copy_down (mem : Nat → UInt8) (d s : Nat) : Nat → Nat → UInt8
  | 0 => mem
  | n + 1 => copy_down (update mem (d - 1) (mem (s - 1))) (d - 1) (s - 1) n

/-- The pointer that is returned, and the memory after the call. -/
def memmove (mem : Nat → UInt8) (dest src n : Nat) : Nat × (Nat → UInt8) :=
  (dest, if dest < src then copy_up mem dest src n else copy_down mem (dest + n) (src + n) n)

/-- All the bytes are read before the first one is written. -/
def moved (mem : Nat → UInt8) (dest src n x : Nat) : UInt8 :=
  if dest ≤ x ∧ x < dest + n then mem (src + (x - dest)) else mem x

variable {dest src : Nat}

-- the write of a step is below every byte that is still to be read
theorem copy_up_eq (h : dest < src) (mem : Nat → UInt8) (n x : Nat) :
    copy_up mem dest src n x = moved mem dest src n x := by
  induction n generalizing mem dest src with
  | zero => exact (if_neg (by omega)).symm
  | succ n ih =>
    rw [copy_up, ih (Nat.succ_lt_succ h)]
    unfold moved
    by_cases hfirst : x = dest
    · rw [if_neg (by omega), if_pos (by omega), hfirst, update_self, Nat.sub_self, Nat.add_zero]
    · rw [update_of_ne hfirst]
      by_cases hin : dest + 1 ≤ x ∧ x < dest + 1 + n
      · have hread : src + 1 + (x - (dest + 1)) = src + (x - dest) := by omega
        rw [if_pos hin, if_pos (by omega), hread, update_of_ne (by omega)]
      · rw [if_neg hin, if_neg (by omega)]

-- and here it is above them
theorem copy_down_eq (h : src ≤ dest) (mem : Nat → UInt8) (n x : Nat) :
    copy_down mem (dest + n) (src + n) n x = moved mem dest src n x := by
  induction n generalizing mem with
  | zero => exact (if_neg (by omega)).symm
  | succ n ih =>
    rw [copy_down, Nat.add_succ_sub_one, Nat.add_succ_sub_one, ih]
    unfold moved
    by_cases hlast : x = dest + n
    · rw [if_neg (by omega), if_pos (by omega), hlast, update_self, Nat.add_sub_cancel_left]
    · rw [update_of_ne hlast]
      by_cases hin : dest ≤ x ∧ x < dest + n
      · rw [if_pos hin, if_pos (by omega), update_of_ne (by omega)]
      · rw [if_neg hin, if_neg (by omega)]

/-- Whatever the overlap, the destination holds what the source held, and no other byte
changes. -/
theorem memmove_is_simultaneous (mem : Nat → UInt8) (dest src n : Nat) :
    (memmove mem dest src n).1 = dest ∧
      (∀ i < n, (memmove mem dest src n).2 (dest + i) = mem (src + i)) ∧
      ∀ x, ¬ (dest ≤ x ∧ x < dest + n) → (memmove mem dest src n).2 x = mem x := by
  have hmoved : ∀ x, (memmove mem dest src n).2 x = moved mem dest src n x := by
    intro x
    unfold memmove
    split
    next h => exact copy_up_eq h mem n x
    next h => exact copy_down_eq (Nat.not_lt.mp h) mem n x
  refine ⟨rfl, fun i hi => ?_, fun x hx => ?_⟩
  · rw [hmoved, moved, if_pos (by omega), Nat.add_sub_cancel_left]
  · rw [hmoved, moved, if_neg hx]

end libc.string
