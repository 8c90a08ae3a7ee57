-- Bitmaps in words of 64 bits: bit `i` is bit `i % 64` of word `i / 64`.
-- Setting and clearing one bit change no other.
import Mathlib.Data.List.Basic

namespace WordBitmap

/-- The word whose only bit is bit `k`. -/
def mask (k : Nat) : UInt64 := 1 <<< UInt64.ofNat k

/-- Bit `k` of a word is set. -/
def has (word : UInt64) (k : Nat) : Bool := word &&& mask k == mask k

variable {k : Nat}

theorem getLsbD_mask (hk : k < 64) (j : Nat) : (mask k).toBitVec.getLsbD j = (j == k) := by
  unfold mask
  rw [Bool.eq_iff_iff]
  simp
  omega

variable (word : UInt64) {j : Nat}

theorem and_mask (hk : k < 64) :
    word &&& mask k = if word.toBitVec.getLsbD k then mask k else 0 := by
  apply UInt64.toBitVec_inj.mp
  apply BitVec.eq_of_getLsbD_eq
  intro j _
  rw [UInt64.toBitVec_and, BitVec.getLsbD_and, getLsbD_mask hk]
  split
  · rw [getLsbD_mask hk]
    grind
  · by_cases hj : j = k <;> simp_all

theorem mask_ne_zero (hk : k < 64) : mask k ≠ 0 := by
  intro h
  have hbit := getLsbD_mask hk k
  simp [h] at hbit

theorem has_eq (hk : k < 64) : has word k = word.toBitVec.getLsbD k := by
  unfold has
  rw [and_mask word hk]
  split
  · simp_all
  · simp_all [(mask_ne_zero hk).symm]

/-- The other way to ask for bit `k`. -/
theorem and_mask_eq_zero {word : UInt64} (hk : k < 64) :
    word &&& mask k = 0 ↔ has word k = false := by
  rw [has_eq word hk, and_mask word hk]
  simp [mask_ne_zero hk]

theorem has_clear (hj : j < 64) (hk : k < 64) :
    has (word &&& ~~~mask k) j = (has word j && j != k) := by
  rw [has_eq _ hj, has_eq _ hj, UInt64.toBitVec_and, BitVec.getLsbD_and, UInt64.toBitVec_not,
    BitVec.getLsbD_not, getLsbD_mask hk]
  simp [hj, bne]

theorem has_mark (hj : j < 64) (hk : k < 64) :
    has (word ||| mask k) j = (has word j || j == k) := by
  rw [has_eq _ hj, has_eq _ hj, UInt64.toBitVec_or, BitVec.getLsbD_or, getLsbD_mask hk]

theorem has_zero (hk : k < 64) : has 0 k = false := by
  rw [has_eq _ hk]
  simp

theorem has_max (hk : k < 64) : has 0xFFFFFFFFFFFFFFFF k = true := by
  have hall : ∀ k < 64, has 0xFFFFFFFFFFFFFFFF k = true := by decide
  exact hall k hk

theorem has_low {n : Nat} (hn : n < 64) (hk : k < 64) : has (mask n - 1) k = decide (k < n) := by
  have hall : ∀ n < 64, ∀ k < 64, has (mask n - 1) k = decide (k < n) := by decide +kernel
  exact hall n hn k hk

/-! ## Lists of words -/

variable (map : List UInt64) {i : Nat} (i : Nat)

/-- Bit `i` of the bitmap is set. There are no bits after the last word. -/
def bit : Bool := has (map.getD (i / 64) 0) (i % 64)

def clear : List UInt64 :=
  map.set (i / 64) (map.getD (i / 64) 0 &&& ~~~mask (i % 64))

def mark : List UInt64 :=
  map.set (i / 64) (map.getD (i / 64) 0 ||| mask (i % 64))

@[simp] theorem length_clear : (clear map i).length = map.length := List.length_set

@[simp] theorem length_mark : (mark map i).length = map.length := List.length_set

variable {i}

theorem getD_set (w j : Nat) (word : UInt64) (hw : w < map.length) :
    (map.set w word).getD j 0 = if j = w then word else map.getD j 0 := by
  by_cases h : j = w
  · subst h
    simp [hw]
  · rw [if_neg h, List.getD_eq_getElem?_getD, List.getElem?_set_ne (Ne.symm h),
      ← List.getD_eq_getElem?_getD]

/-- One word is replaced. -/
theorem bit_set (word : UInt64) {w : Nat} (hw : w < map.length) (j : Nat) :
    bit (map.set w word) j = if j / 64 = w then has word (j % 64) else bit map j := by
  unfold bit
  rw [getD_set map w _ word hw]
  split <;> rfl

theorem bit_clear (hi : i / 64 < map.length) (j : Nat) :
    bit (clear map i) j = (bit map j && j != i) := by
  unfold clear
  rw [bit_set map _ hi]
  split
  · rename_i h
    rw [has_clear _ (Nat.mod_lt _ (by decide)) (Nat.mod_lt _ (by decide)), ← h]
    congr 1
    rw [Bool.eq_iff_iff, bne_iff_ne, bne_iff_ne]
    omega
  · rename_i h
    have hne : j ≠ i := fun hji => h (by rw [hji])
    simp [hne]

theorem bit_mark (hi : i / 64 < map.length) (j : Nat) :
    bit (mark map i) j = (bit map j || j == i) := by
  unfold mark
  rw [bit_set map _ hi]
  split
  · rename_i h
    rw [has_mark _ (Nat.mod_lt _ (by decide)) (Nat.mod_lt _ (by decide)), ← h]
    congr 1
    rw [Bool.eq_iff_iff, beq_iff_eq, beq_iff_eq]
    omega
  · rename_i h
    have hne : j ≠ i := fun hji => h (by rw [hji])
    simp [hne]

theorem lt_length_of_bit (h : bit map i = true) : i / 64 < map.length := by
  by_contra hlt
  unfold bit at h
  rw [List.getD_eq_getElem?_getD, List.getElem?_eq_none (by omega), Option.getD_none,
    has_zero (Nat.mod_lt _ (by decide))] at h
  cases h

/-- `n` bits, all of them set. -/
def full (n : Nat) : List UInt64 :=
  let words := List.replicate ((n + 63) / 64) 0xFFFFFFFFFFFFFFFF
  if n % 64 = 0 then words else words.set ((n + 63) / 64 - 1) (mask (n % 64) - 1)

@[simp] theorem length_full (n : Nat) : (full n).length = (n + 63) / 64 := by
  unfold full
  split <;> simp

theorem bit_full (n i : Nat) : bit (full n) i = decide (i < n) := by
  have hrep : ∀ w, (List.replicate ((n + 63) / 64) (0xFFFFFFFFFFFFFFFF : UInt64)).getD w 0 =
      if w < (n + 63) / 64 then 0xFFFFFFFFFFFFFFFF else 0 := by
    intro w
    rw [List.getD_eq_getElem?_getD, List.getElem?_replicate]
    split <;> rfl
  have hmod : i % 64 < 64 := Nat.mod_lt _ (by decide)
  have hbit : bit (List.replicate ((n + 63) / 64) 0xFFFFFFFFFFFFFFFF) i =
      decide (i / 64 < (n + 63) / 64) := by
    unfold bit
    rw [hrep]
    split
    · rename_i h
      rw [has_max hmod, decide_eq_true h]
    · rename_i h
      rw [has_zero hmod, decide_eq_false h]
  unfold full
  split
  · rw [hbit, decide_eq_decide]
    omega
  · rw [bit_set _ _ (by rw [List.length_replicate]; omega), hbit,
      has_low (Nat.mod_lt _ (by decide)) hmod]
    split
    · rw [decide_eq_decide]
      omega
    · rw [decide_eq_decide]
      omega

end WordBitmap
