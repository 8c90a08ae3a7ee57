-- Copies between the kernel and the memory of the caller: `copy_to_user`, and when
-- `user_range_is_mapped` accepts a range.
import Zenos.Process.Arguments

namespace zenos_kernel.syscall

open Bytes memory

variable (m : AddressSpace)

/-- `copy_to_user` of the bytes of its buffer. -/
def copy_to_user (user_ptr : Nat) (bytes : List UInt8) : Option AddressSpace :=
  if bytes.length = 0 then some m
  else if user_range_is_mapped m user_ptr bytes.length then
    some { m with byte := splice m.byte user_ptr bytes }
  else none

/-! ## Accepted ranges -/

/-- The end of the lower half. -/
def LOWER_HALF_END : Nat := 2 ^ 47

/-- The pages of the loop are mapped, and their addresses are canonical. -/
theorem pages_are_mapped_iff (end_ : Nat) {fuel addr : Nat} (h : end_ ≤ addr + fuel * PAGE_4K) :
    pages_are_mapped m end_ fuel addr = true ↔
      ∀ j, addr + j * PAGE_4K < end_ → canonical (addr + j * PAGE_4K) = true ∧
        m.mapped ((addr + j * PAGE_4K) / PAGE_4K) = true ∧
        addr + j * PAGE_4K + PAGE_4K < UInt64.size := by
  induction fuel generalizing addr with
  | zero =>
    simp only [pages_are_mapped, true_iff]
    intro j hj
    omega
  | succ fuel ih =>
    unfold pages_are_mapped
    by_cases hlt : addr < end_
    · rw [if_pos hlt]
      have hnext := @ih (addr + PAGE_4K) (by rw [Nat.succ_mul] at h; omega)
      simp only [Bool.and_eq_true, decide_eq_true_eq, hnext]
      constructor
      · rintro ⟨⟨⟨hcan, hmap⟩, hsize⟩, hrest⟩ j hj
        cases j with
        | zero =>
          exact ⟨hcan, hmap, hsize⟩
        | succ j =>
          have heq : addr + (j + 1) * PAGE_4K = addr + PAGE_4K + j * PAGE_4K := by
            rw [Nat.succ_mul]
            omega
          rw [heq] at hj ⊢
          exact hrest j hj
      · intro hall
        have hfirst := hall 0 (by omega)
        refine ⟨⟨⟨hfirst.1, hfirst.2.1⟩, hfirst.2.2⟩, fun j hj => ?_⟩
        have heq : addr + PAGE_4K + j * PAGE_4K = addr + (j + 1) * PAGE_4K := by
          rw [Nat.succ_mul]
          omega
        rw [heq] at hj ⊢
        exact hall (j + 1) hj
    · rw [if_neg hlt]
      simp only [true_iff]
      intro j hj
      omega

theorem canonical_iff (addr : Nat) :
    canonical addr = true ↔ addr < LOWER_HALF_END ∨ HIGHER_HALF_BASE ≤ addr := by
  unfold canonical LOWER_HALF_END HIGHER_HALF_BASE
  simp

/-- A range is accepted when it is not empty, does not start at the null pointer, ends in the
lower half, and all its pages are mapped. -/
theorem user_range_is_mapped_iff (ptr len : Nat) :
    user_range_is_mapped m ptr len = true ↔ ptr ≠ 0 ∧ len ≠ 0 ∧ ptr + len ≤ LOWER_HALF_END ∧
        ∀ p, ptr / PAGE_4K ≤ p → p * PAGE_4K < ptr + len → m.mapped p = true := by
  have hpage : PAGE_4K = 4096 := rfl
  have hfuel : ptr + len ≤ ptr / PAGE_4K * PAGE_4K + (len / PAGE_4K + 2) * PAGE_4K := by
    rw [hpage]
    omega
  have hindex : ∀ j, ptr / PAGE_4K * PAGE_4K + j * PAGE_4K = (ptr / PAGE_4K + j) * PAGE_4K :=
    fun j => (Nat.add_mul _ _ _).symm
  have hdiv : ∀ p, p * PAGE_4K / PAGE_4K = p := fun p => Nat.mul_div_cancel p (by decide)
  unfold user_range_is_mapped
  simp only [Bool.and_eq_true, decide_eq_true_eq, pages_are_mapped_iff m _ hfuel, hindex, hdiv,
    canonical_iff]
  constructor
  · rintro ⟨⟨⟨⟨hptr, hlen⟩, hhigh⟩, hsize⟩, hall⟩
    have hend : ptr + len ≤ LOWER_HALF_END := by
      by_contra hbig
      -- the page at the end of the lower half, or the first page if that is later
      have hfirst := (hall 0 (by rw [hpage]; omega)).1
      have hend := (hall (LOWER_HALF_END / PAGE_4K - ptr / PAGE_4K) (by
        rw [hpage] at hfirst ⊢
        omega)).1
      unfold LOWER_HALF_END at hbig hfirst hend
      unfold HIGHER_HALF_BASE at hhigh hfirst hend
      rw [hpage] at hfirst hend
      omega
    refine ⟨hptr, hlen, hend, fun p hp hlt => ?_⟩
    have hpj : ptr / PAGE_4K + (p - ptr / PAGE_4K) = p := by omega
    have hj := hall (p - ptr / PAGE_4K) (by rw [hpj]; exact hlt)
    rw [hpj] at hj
    exact hj.2.1
  · rintro ⟨hptr, hlen, hend, hall⟩
    have hhalf : LOWER_HALF_END = 0x800000000000 := rfl
    have hhigh : HIGHER_HALF_BASE = 0xFFFF800000000000 := rfl
    have hsize : UInt64.size = 0x10000000000000000 := rfl
    refine ⟨⟨⟨⟨hptr, hlen⟩, by omega⟩, by omega⟩, fun j hj => ⟨Or.inl ?_, ?_, ?_⟩⟩
    · exact Nat.lt_of_lt_of_le hj hend
    · exact hall _ (Nat.le_add_right _ _) hj
    · omega

section Ranges

variable {m m' : AddressSpace} {ptr len : Nat} {bytes : List UInt8}

theorem user_range_is_mapped_congr (h : m'.mapped = m.mapped) (ptr len : Nat) :
    user_range_is_mapped m' ptr len = user_range_is_mapped m ptr len := by
  rw [Bool.eq_iff_iff, user_range_is_mapped_iff, user_range_is_mapped_iff, h]

theorem mapped_sub (h : user_range_is_mapped m ptr len = true) {o l : Nat} (hl : l ≠ 0)
    (hin : o + l ≤ len) : user_range_is_mapped m (ptr + o) l = true := by
  rw [user_range_is_mapped_iff] at h ⊢
  obtain ⟨hptr, -, hend, hall⟩ := h
  refine ⟨by omega, hl, by omega, fun p hp hlt => hall p ?_ (by omega)⟩
  exact Nat.le_trans (Nat.div_le_div_right (Nat.le_add_right _ _)) hp

theorem mapped_append {o l : Nat} (h : user_range_is_mapped m ptr len = true)
    (h' : user_range_is_mapped m (ptr + o) l = true) (ho : o ≤ len) :
    user_range_is_mapped m ptr (o + l) = true := by
  rw [user_range_is_mapped_iff] at h h' ⊢
  obtain ⟨hptr, -, -, hall⟩ := h
  obtain ⟨-, hl, hend, hall'⟩ := h'
  refine ⟨hptr, by omega, by omega, fun p hp hlt => ?_⟩
  by_cases hfirst : p * PAGE_4K < ptr + len
  · exact hall p hp hfirst
  · apply hall' p _ (by omega)
    exact Nat.div_le_of_le_mul (by rw [Nat.mul_comm]; omega)

theorem copy_to_user_eq (h : user_range_is_mapped m ptr bytes.length = true) :
    copy_to_user m ptr bytes = some { m with byte := splice m.byte ptr bytes } := by
  have hne : bytes.length ≠ 0 := ((user_range_is_mapped_iff _ _ _).mp h).2.1
  rw [copy_to_user, if_neg hne, if_pos h]

theorem copy_to_user_refused (hne : bytes.length ≠ 0)
    (h : ¬ user_range_is_mapped m ptr bytes.length = true) : copy_to_user m ptr bytes = none := by
  rw [copy_to_user, if_neg hne, if_neg h]

end Ranges

/-! ## Ranges byte by byte -/

variable (m : AddressSpace) (ptr len : Nat)

/-- The bytes of the range are in the lower half, and they are mapped. -/
def Reachable : Prop :=
  ∀ a, ptr ≤ a → a < ptr + len → a < LOWER_HALF_END ∧ m.mapped (a / PAGE_4K) = true

theorem user_range_is_mapped_iff_reachable :
    user_range_is_mapped m ptr len = true ↔
      ptr ≠ 0 ∧ 0 < len ∧ ptr + len ≤ 2 ^ 64 - 1 ∧ Reachable m ptr len := by
  rw [user_range_is_mapped_iff]
  constructor
  · rintro ⟨hptr, hlen, hend, hall⟩
    refine ⟨hptr, Nat.pos_of_ne_zero hlen, Nat.le_trans hend (by decide), fun a hle hlt => ?_⟩
    refine ⟨Nat.lt_of_lt_of_le hlt hend, hall _ (Nat.div_le_div_right hle) ?_⟩
    exact Nat.lt_of_le_of_lt (Nat.div_mul_le_self a _) hlt
  · rintro ⟨hptr, hlen, -, hall⟩
    have hlast := (hall (ptr + len - 1) (by omega) (by omega)).1
    refine ⟨hptr, Nat.ne_of_gt hlen, by omega, fun p hp hlt => ?_⟩
    -- the first byte of the range on the page
    have hbyte := (hall (max ptr (p * PAGE_4K)) (by omega) (by omega)).2
    have hpage : max ptr (p * PAGE_4K) / PAGE_4K = p := by
      rw [show PAGE_4K = 4096 from rfl] at hp ⊢
      omega
    rwa [hpage] at hbyte

/-- The check is exact and its loop ends. A copy reads or writes the bytes of its range and no
others, and all of them are mapped and in the lower half. -/
theorem user_ranges_are_checked :
    (user_range_is_mapped m ptr len = true ↔
      ptr ≠ 0 ∧ 0 < len ∧ ptr + len ≤ 2 ^ 64 - 1 ∧ Reachable m ptr len) ∧
    (∀ fuel ≥ len / PAGE_4K + 2, ∀ fuel' ≥ len / PAGE_4K + 2,
      pages_are_mapped m (ptr + len) fuel (ptr / PAGE_4K * PAGE_4K) =
        pages_are_mapped m (ptr + len) fuel' (ptr / PAGE_4K * PAGE_4K)) ∧
    (∀ bytes, copy_from_user m ptr len = some bytes →
      bytes = slice m.byte ptr len ∧ Reachable m ptr len) ∧
    ∀ bytes m', copy_to_user m ptr bytes = some m' →
      Reachable m ptr bytes.length ∧ m'.mapped = m.mapped ∧
      slice m'.byte ptr bytes.length = bytes ∧
      ∀ a, ¬ (ptr ≤ a ∧ a < ptr + bytes.length) → m'.byte a = m.byte a := by
  refine ⟨user_range_is_mapped_iff_reachable m ptr len, ?_, ?_, ?_⟩
  · intro fuel hfuel fuel' hfuel'
    have hend : ∀ n ≥ len / PAGE_4K + 2, ptr + len ≤ ptr / PAGE_4K * PAGE_4K + n * PAGE_4K := by
      intro n hn
      rw [show PAGE_4K = 4096 from rfl] at hn ⊢
      omega
    rw [Bool.eq_iff_iff, pages_are_mapped_iff m _ (hend fuel hfuel),
      pages_are_mapped_iff m _ (hend fuel' hfuel')]
  · intro bytes h
    unfold copy_from_user at h
    split at h
    · rename_i hlen
      cases h
      subst hlen
      exact ⟨rfl, fun a hle hlt => absurd hlt (by omega)⟩
    · split at h
      · rename_i hmapped
        cases h
        exact ⟨rfl, ((user_range_is_mapped_iff_reachable m ptr len).mp hmapped).2.2.2⟩
      · cases h
  · intro bytes m' h
    by_cases hnil : bytes.length = 0
    · rw [copy_to_user, if_pos hnil] at h
      cases h
      cases List.length_eq_zero_iff.mp hnil
      exact ⟨fun a hle hlt => absurd hlt (Nat.not_lt.mpr hle), rfl, rfl, fun _ _ => rfl⟩
    · by_cases hmapped : user_range_is_mapped m ptr bytes.length = true
      · rw [copy_to_user_eq hmapped] at h
        cases h
        exact ⟨((user_range_is_mapped_iff_reachable m ptr _).mp hmapped).2.2.2, rfl,
          slice_splice _ _ _, fun a ha => splice_outside _ ha⟩
      · rw [copy_to_user_refused hnil hmapped] at h
        cases h

end zenos_kernel.syscall
