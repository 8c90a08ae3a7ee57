-- A stack that grows down in a memory of bytes. Addresses are words of 64 bits
-- and wrap around, so a byte is told by its depth below the top.
import Mathlib.Algebra.Ring.Nat
import Mathlib.Data.List.Basic

namespace Stack

/-- How far byte `a` lies below `top`. The first byte of the stack has depth 1. -/
def depth (top a : UInt64) : Nat := (top - a).toNat

/-- The eight bytes of a store of `v` at `addr`, lowest byte first. -/
def word_bytes (addr v : UInt64) : List (UInt64 × UInt8) :=
  (List.range 8).map (fun i => (addr + UInt64.ofNat i, (v >>> UInt64.ofNat (8 * i)).toUInt8))

/-- The stores of a sequence of pushes. -/
def push_all (rsp : UInt64) : List UInt64 → List (UInt64 × UInt8)
  | [] => []
  | v :: vs => word_bytes (rsp - 8) v ++ push_all (rsp - 8) vs

/-- The stores one after the other. -/
def store (mem : UInt64 → UInt8) (stores : List (UInt64 × UInt8)) : UInt64 → UInt8 :=
  stores.foldl (fun mem s => Function.update mem s.1 s.2) mem

/-- The word at `addr`. -/
def load (mem : UInt64 → UInt8) (addr : UInt64) : UInt64 :=
  (List.range 8).foldr (fun i v => v <<< 8 ||| (mem (addr + UInt64.ofNat i)).toUInt64) 0

theorem depth_sub (top : UInt64) {n : Nat} (hn : n < 2 ^ 64) :
    depth top (top - UInt64.ofNat n) = n := by
  unfold depth
  rw [UInt64.toNat_sub, UInt64.toNat_sub, UInt64.toNat_ofNat_of_lt' hn]
  omega

/-- A word pushed below `rsp` takes the eight bytes right below it. -/
theorem mem_word_bytes {rsp v a : UInt64} :
    a ∈ (word_bytes (rsp - 8) v).map Prod.fst ↔ 0 < depth rsp a ∧ depth rsp a ≤ 8 := by
  have ha := a.toNat_lt
  have h8 : (8 : UInt64).toNat = 8 := rfl
  unfold word_bytes depth
  simp only [List.map_map, List.mem_map, List.mem_range, Function.comp]
  constructor
  · rintro ⟨i, hi, rfl⟩
    rw [UInt64.toNat_sub, UInt64.toNat_add, UInt64.toNat_sub,
      UInt64.toNat_ofNat_of_lt' (show i < UInt64.size by unfold UInt64.size; omega)]
    omega
  · rintro ⟨hpos, hle⟩
    rw [UInt64.toNat_sub] at hpos hle
    refine ⟨8 - (rsp - a).toNat, ?_, ?_⟩
    · rw [UInt64.toNat_sub]
      omega
    · apply UInt64.toNat_inj.mp
      rw [UInt64.toNat_add, UInt64.toNat_sub, UInt64.toNat_sub, UInt64.toNat_ofNat_of_lt'
        (by unfold UInt64.size; omega)]
      omega

/-- Pushing `n` words writes the bytes of depth `1` to `8 * n`, and no others. -/
theorem mem_push_all {words : List UInt64} {rsp a : UInt64} (hn : 8 * words.length < 2 ^ 64) :
    a ∈ (push_all rsp words).map Prod.fst ↔ 0 < depth rsp a ∧ depth rsp a ≤ 8 * words.length := by
  induction words generalizing rsp with
  | nil =>
    unfold push_all
    simp
    omega
  | cons v vs ih =>
    rw [List.length_cons] at hn
    unfold push_all
    rw [List.map_append, List.mem_append, mem_word_bytes, ih (by omega), List.length_cons]
    have hstep : depth (rsp - 8) a = (depth rsp a + 2 ^ 64 - 8) % 2 ^ 64 := by
      have h8 : (8 : UInt64).toNat = 8 := rfl
      unfold depth
      rw [UInt64.toNat_sub, UInt64.toNat_sub, UInt64.toNat_sub]
      omega
    have hlt : depth rsp a < 2 ^ 64 := (rsp - a).toNat_lt
    omega

end Stack
