-- Bitmaps in a byte array: bit `i` of the bitmap at `off` is bit `i % 8` of byte
-- `off + i / 8`. Marking and clearing one bit change no other, and change the
-- number of clear bits by one.
import Zenos.Lib.Bytes
import Mathlib.Data.Finset.Card

namespace Bitmap

variable (byte : UInt8)

/-- Bit `k` of a byte is clear. -/
def clearBit (k : Nat) : Bool := byte &&& (1 <<< UInt8.ofNat k) == 0

theorem clearBit_eq {k : Nat} (hk : k < 8) : clearBit byte k = !byte.toBitVec.getLsbD k := by
  have hall : ∀ n < 256, ∀ k < 8,
      clearBit (UInt8.ofNat n) k = !(UInt8.ofNat n).toBitVec.getLsbD k := by decide +kernel
  have h := hall byte.toNat byte.toNat_lt k hk
  rwa [UInt8.ofNat_toNat] at h

theorem getLsbD_bit {j k : Nat} (hj : j < 8) (hk : k < 8) :
    ((1 : UInt8) <<< UInt8.ofNat k).toBitVec.getLsbD j = (j == k) := by
  have hall : ∀ k < 8, ∀ j < 8,
      ((1 : UInt8) <<< UInt8.ofNat k).toBitVec.getLsbD j = (j == k) := by decide
  exact hall k hk j hj

theorem clearBit_or {j k : Nat} (hj : j < 8) (hk : k < 8) :
    clearBit (byte ||| (1 <<< UInt8.ofNat k)) j = (clearBit byte j && j != k) := by
  rw [clearBit_eq _ hj, clearBit_eq _ hj, UInt8.toBitVec_or, BitVec.getLsbD_or, getLsbD_bit hj hk,
    Bool.not_or]
  rfl

theorem clearBit_and {j k : Nat} (hj : j < 8) (hk : k < 8) :
    clearBit (byte &&& ~~~(1 <<< UInt8.ofNat k)) j = (clearBit byte j || j == k) := by
  rw [clearBit_eq _ hj, clearBit_eq _ hj, UInt8.toBitVec_and, BitVec.getLsbD_and,
    UInt8.toBitVec_not, BitVec.getLsbD_not, getLsbD_bit hj hk]
  simp [hj]

variable (mem : Nat → UInt8) (off : Nat) {i n : Nat}

/-- Bit `i` of the bitmap is clear. -/
def clear (i : Nat) : Bool := clearBit (mem (off + i / 8)) (i % 8)

/-- The clear bits below `n`. -/
def free (n : Nat) : Finset Nat := (Finset.range n).filter (fun i => clear mem off i = true)

/-- Bit `i` is set. -/
def mark (i : Nat) : Nat → UInt8 :=
  Function.update mem (off + i / 8) (mem (off + i / 8) ||| (1 <<< UInt8.ofNat (i % 8)))

/-- Bit `i` is cleared. -/
def unmark (i : Nat) : Nat → UInt8 :=
  Function.update mem (off + i / 8) (mem (off + i / 8) &&& ~~~(1 <<< UInt8.ofNat (i % 8)))

theorem mem_free : i ∈ free mem off n ↔ i < n ∧ clear mem off i = true := by
  simp [free]

theorem mark_outside {k : Nat} (h : k ≠ off + i / 8) : mark mem off i k = mem k :=
  Function.update_of_ne h _ _

theorem unmark_outside {k : Nat} (h : k ≠ off + i / 8) : unmark mem off i k = mem k :=
  Function.update_of_ne h _ _

theorem clear_mark (i j : Nat) : clear (mark mem off i) off j = (clear mem off j && j != i) := by
  unfold clear
  by_cases h : j / 8 = i / 8
  · rw [h]
    unfold mark
    rw [Function.update_self, clearBit_or _ (Nat.mod_lt _ (by decide)) (Nat.mod_lt _ (by decide))]
    congr 1
    rw [Bool.eq_iff_iff]
    simp only [bne_iff_ne]
    omega
  · rw [mark_outside mem off (by omega)]
    have hne : j ≠ i := fun hji => h (by rw [hji])
    simp [hne]

theorem clear_unmark (i j : Nat) :
    clear (unmark mem off i) off j = (clear mem off j || j == i) := by
  unfold clear
  by_cases h : j / 8 = i / 8
  · rw [h]
    unfold unmark
    rw [Function.update_self, clearBit_and _ (Nat.mod_lt _ (by decide)) (Nat.mod_lt _ (by decide))]
    congr 1
    rw [Bool.eq_iff_iff]
    simp only [beq_iff_eq]
    omega
  · rw [unmark_outside mem off (by omega)]
    have hne : j ≠ i := fun hji => h (by rw [hji])
    simp [hne]

theorem free_mark (i n : Nat) : free (mark mem off i) off n = (free mem off n).erase i := by
  ext j
  rw [Finset.mem_erase, mem_free, mem_free, clear_mark, Bool.and_eq_true, bne_iff_ne]
  tauto

theorem free_unmark (hi : i < n) : free (unmark mem off i) off n = insert i (free mem off n) := by
  ext j
  rw [Finset.mem_insert, mem_free, mem_free, clear_unmark, Bool.or_eq_true, beq_iff_eq]
  by_cases h : j = i
  · simp [h, hi]
  · simp [h]

theorem card_free_mark (hi : i < n) (hclear : clear mem off i = true) :
    (free (mark mem off i) off n).card + 1 = (free mem off n).card := by
  rw [free_mark]
  exact Finset.card_erase_add_one ((mem_free mem off).mpr ⟨hi, hclear⟩)

theorem card_free_unmark (hi : i < n) (hset : clear mem off i = false) :
    (free (unmark mem off i) off n).card = (free mem off n).card + 1 := by
  rw [free_unmark mem off hi]
  apply Finset.card_insert_of_notMem
  intro h
  rw [mem_free, hset] at h
  exact Bool.false_ne_true h.2

/-- Bitmaps are read alike in arrays that agree on their bytes. -/
theorem clear_congr {mem mem' : Nat → UInt8}
    (h : mem' (off + i / 8) = mem (off + i / 8)) : clear mem' off i = clear mem off i := by
  unfold clear
  rw [h]

theorem free_congr {mem mem' : Nat → UInt8}
    (h : ∀ k, off ≤ k → k < off + (n + 7) / 8 → mem' k = mem k) :
    free mem' off n = free mem off n := by
  ext i
  rw [mem_free, mem_free]
  refine and_congr_right (fun hi => ?_)
  rw [clear_congr off (h _ (Nat.le_add_right _ _) (by omega))]

/-- The bitmap is written back with one byte changed. -/
theorem splice_set {len k : Nat} (b : UInt8) (hk : k < len) :
    Bytes.splice mem off ((Bytes.slice mem off len).set k b) = Function.update mem (off + k) b := by
  funext i
  by_cases hi : off ≤ i ∧ i < off + len
  · rw [Bytes.splice_inside mem (by simpa using hi)]
    by_cases h : i = off + k
    · subst h
      simp [hk]
    · rw [Function.update_of_ne h, List.getD_eq_getElem?_getD, List.getElem?_set_ne (by omega),
        ← List.getD_eq_getElem?_getD, Bytes.getD_slice mem off (by omega)]
      congr 1
      omega
  · rw [Bytes.splice_outside mem (by simpa using hi), Function.update_of_ne (by omega)]

end Bitmap
