-- Page table entries as the 64-bit words that they are: bits 12 to 51 are the
-- address of a frame, and the other bits are flags. The model keeps the words,
-- because a page table and a user page are both just a frame of memory.
import Mathlib.Data.UInt

namespace zenos_kernel.process.isolation

abbrev PhysAddr := UInt64

abbrev PageTableFlags := UInt64

/-- One word of a page table. -/
abbrev PageTableEntry := UInt64

def PRESENT : PageTableFlags := 0x1

def WRITABLE : PageTableFlags := 0x2

def HUGE_PAGE : PageTableFlags := 0x80

/-- `PageTableFlags::BIT_9`. -/
def COW_FLAG : PageTableFlags := 0x200

/-- The bits of an entry that hold the address. -/
def ADDR_MASK : UInt64 := 0x000ffffffffff000

/-- `PageTableFlags::contains`. -/
def PageTableFlags.contains (flags other : PageTableFlags) : Bool := flags &&& other == other

namespace PageTableEntry

variable (e : PageTableEntry)

def addr : PhysAddr := e &&& ADDR_MASK

def flags : PageTableFlags := e &&& ~~~ADDR_MASK

/-- `set_addr`: the new word of the entry. -/
def set_addr (addr : PhysAddr) (flags : PageTableFlags) : PageTableEntry := addr ||| flags

/-- The flag of bit `k` is set. -/
def bit (k : Nat) : Bool := e.toBitVec.getLsbD k

def present : Bool := bit e 0

def writable : Bool := bit e 1

def user : Bool := bit e 2

def huge : Bool := bit e 7

def cow : Bool := bit e 9

end PageTableEntry

/-- The address of a frame: page aligned, and below 2^52. -/
def Aligned (a : PhysAddr) : Prop := a &&& ADDR_MASK = a

open PageTableEntry

/-! ## Bits -/

theorem mask_bit (k : Nat) : ADDR_MASK.toBitVec.getLsbD k = decide (12 ≤ k ∧ k < 52) := by
  by_cases hk : k < 64
  · have h : ∀ j : Fin 64, ADDR_MASK.toBitVec.getLsbD j = decide (12 ≤ j.val ∧ j.val < 52) := by
      decide
    exact h ⟨k, hk⟩
  · rw [BitVec.getLsbD_of_ge _ _ (by omega)]
    symm
    rw [decide_eq_false_iff_not]
    omega

variable (e : PageTableEntry)

theorem addr_bit (k : Nat) : bit (addr e) k = (bit e k && decide (12 ≤ k ∧ k < 52)) := by
  unfold bit addr
  rw [UInt64.toBitVec_and, BitVec.getLsbD_and, mask_bit]

variable {k : Nat} {a phys : PhysAddr} {f : PageTableFlags}

theorem flags_bit (hk : k < 12) : bit (flags e) k = bit e k := by
  unfold bit flags
  rw [UInt64.toBitVec_and, UInt64.toBitVec_not, BitVec.getLsbD_and, BitVec.getLsbD_not, mask_bit]
  have h1 : decide (k < 64) = true := by simp; omega
  have h2 : decide (12 ≤ k ∧ k < 52) = false := by simp; omega
  rw [h1, h2]
  simp

theorem contains_bit (other : PageTableFlags) (k : Nat) (h : other.toBitVec = BitVec.twoPow 64 k)
    (hk : k < 12) : (flags e).contains other = bit e k := by
  rw [← flags_bit e hk]
  unfold PageTableFlags.contains bit
  have hand : (flags e &&& other).toBitVec =
      if (flags e).toBitVec.getLsbD k then other.toBitVec else 0 := by
    rw [UInt64.toBitVec_and, h, BitVec.and_twoPow]
    rfl
  have hne : other ≠ 0 := by
    intro h0
    subst h0
    have := congrArg (fun v => BitVec.getLsbD v k) h
    simp [show k < 64 by omega] at this
  cases hb : (flags e).toBitVec.getLsbD k with
  | true =>
    rw [hb] at hand
    rw [UInt64.toBitVec_inj.mp hand]
    simp
  | false =>
    rw [hb] at hand
    have h0 : flags e &&& other = 0 := UInt64.toBitVec_inj.mp hand
    rw [h0]
    simpa using fun h => hne h.symm

theorem set_addr_bit (a : PhysAddr) (f : PageTableFlags) (k : Nat) :
    bit (set_addr a f) k = (bit a k || bit f k) := by
  unfold bit set_addr
  rw [UInt64.toBitVec_or, BitVec.getLsbD_or]

theorem Aligned.bit (h : Aligned a) (hk : k < 12) : bit a k = false := by
  have h1 := addr_bit a k
  unfold addr at h1
  rw [h] at h1
  rw [h1]
  have h2 : decide (12 ≤ k ∧ k < 52) = false := by simp; omega
  rw [h2, Bool.and_false]

theorem aligned_addr : Aligned (addr e) := by
  unfold Aligned addr
  rw [UInt64.and_assoc, UInt64.and_self]

/-- The flags of an entry have no address bits. -/
def NoAddr (f : PageTableFlags) : Prop := f &&& ADDR_MASK = 0

theorem noAddr_flags : NoAddr (flags e) := by
  unfold NoAddr flags
  rw [UInt64.and_assoc, UInt64.and_comm (~~~ADDR_MASK), UInt64.and_not_self, UInt64.and_zero]

@[simp] theorem bit_zero (k : Nat) : bit 0 k = false := by simp [bit]

theorem eq_of_bits {a b : UInt64} (h : ∀ k, bit a k = bit b k) : a = b :=
  UInt64.toBitVec_inj.mp (BitVec.eq_of_getLsbD_eq (fun k _ => h k))

theorem addr_set_addr (ha : Aligned a) (hf : NoAddr f) : addr (set_addr a f) = a := by
  refine eq_of_bits (fun k => ?_)
  have h1 : bit (addr a) k = bit a k := by unfold addr; rw [ha]
  have h2 : bit (addr f) k = false := by unfold addr; rw [hf, bit_zero]
  rw [addr_bit] at h1 h2
  rw [addr_bit, set_addr_bit, Bool.and_or_distrib_right, h1, h2, Bool.or_false]

theorem set_addr_flag (ha : Aligned a) (hk : k < 12) : bit (set_addr a f) k = bit f k := by
  rw [set_addr_bit, ha.bit hk, Bool.false_or]

/-! ## The flags that the code tests and sets -/

@[simp] theorem contains_present : (flags e).contains PRESENT = present e :=
  contains_bit e _ 0 (by decide) (by omega)

@[simp] theorem contains_writable : (flags e).contains WRITABLE = writable e :=
  contains_bit e _ 1 (by decide) (by omega)

@[simp] theorem contains_huge : (flags e).contains HUGE_PAGE = huge e :=
  contains_bit e _ 7 (by decide) (by omega)

@[simp] theorem contains_cow : (flags e).contains COW_FLAG = cow e :=
  contains_bit e _ 9 (by decide) (by omega)

/-- `(flags - off) | on`. -/
def swap_flags (flags off on : PageTableFlags) : PageTableFlags := (flags &&& ~~~off) ||| on

theorem swap_flags_bit (f off on : PageTableFlags) (hk : k < 64) :
    bit (swap_flags f off on) k = ((bit f k && !bit off k) || bit on k) := by
  unfold bit swap_flags
  simp [hk]

theorem noAddr_swap_flags {off on : PageTableFlags} (hf : NoAddr f) (hon : NoAddr on) :
    NoAddr (swap_flags f off on) := by
  refine eq_of_bits (fun k => ?_)
  change bit (addr (swap_flags f off on)) k = _
  have h1 : bit (addr f) k = false := by unfold addr; rw [hf, bit_zero]
  have h2 : bit (addr on) k = false := by unfold addr; rw [hon, bit_zero]
  rw [addr_bit] at h1 h2 ⊢
  by_cases hk : k < 64
  · rw [swap_flags_bit _ _ _ hk]
    simp only [Bool.and_eq_false_iff] at h1 h2
    rcases h1 with h1 | h1
    · rcases h2 with h2 | h2
      · simp [h1, h2]
      · simp [h2]
    · simp [h1]
  · have h3 : decide (12 ≤ k ∧ k < 52) = false := by simp; omega
    rw [h3]
    simp

/-- The entry that a clone leaves in parent and child: read-only, and copied on
the first write. -/
def cow_entry : PageTableEntry :=
  set_addr (addr e) (swap_flags (flags e) WRITABLE COW_FLAG)

/-- The entry that a fault leaves behind: writable, and owned. -/
def owned_entry (phys : PhysAddr) (e : PageTableEntry) : PageTableEntry :=
  set_addr phys (swap_flags (flags e) COW_FLAG WRITABLE)

theorem cow_entry_bit (hk : k < 12) :
    bit (cow_entry e) k = ((bit e k && !bit WRITABLE k) || bit COW_FLAG k) := by
  unfold cow_entry
  rw [set_addr_flag (aligned_addr e) hk, swap_flags_bit _ _ _ (by omega), flags_bit e hk]

theorem owned_entry_bit (h : Aligned phys) (e : PageTableEntry) (hk : k < 12) :
    bit (owned_entry phys e) k = ((bit e k && !bit COW_FLAG k) || bit WRITABLE k) := by
  unfold owned_entry
  rw [set_addr_flag h hk, swap_flags_bit _ _ _ (by omega), flags_bit e hk]

@[simp] theorem addr_cow_entry : addr (cow_entry e) = addr e :=
  addr_set_addr (aligned_addr e) (noAddr_swap_flags (noAddr_flags e) rfl)

@[simp] theorem present_cow_entry : present (cow_entry e) = present e := by
  simpa [present, show bit WRITABLE 0 = false by decide, show bit COW_FLAG 0 = false by decide]
    using cow_entry_bit e (k := 0) (by omega)

@[simp] theorem writable_cow_entry : writable (cow_entry e) = false := by
  simpa [writable, show bit WRITABLE 1 = true by decide, show bit COW_FLAG 1 = false by decide]
    using cow_entry_bit e (k := 1) (by omega)

@[simp] theorem cow_cow_entry : cow (cow_entry e) = true := by
  simpa [cow, show bit COW_FLAG 9 = true by decide] using cow_entry_bit e (k := 9) (by omega)

section

variable (h : Aligned phys)

include h

variable (e : PageTableEntry)

theorem addr_owned_entry : addr (owned_entry phys e) = phys :=
  addr_set_addr h (noAddr_swap_flags (noAddr_flags e) rfl)

theorem present_owned_entry : present (owned_entry phys e) = present e := by
  simpa [present, show bit WRITABLE 0 = false by decide, show bit COW_FLAG 0 = false by decide]
    using owned_entry_bit h e (k := 0) (by omega)

theorem writable_owned_entry : writable (owned_entry phys e) = true := by
  simpa [writable, show bit WRITABLE 1 = true by decide] using owned_entry_bit h e (k := 1) (by omega)

theorem cow_owned_entry : cow (owned_entry phys e) = false := by
  simpa [cow, show bit WRITABLE 9 = false by decide, show bit COW_FLAG 9 = true by decide]
    using owned_entry_bit h e (k := 9) (by omega)

theorem present_link : present (set_addr phys (flags e)) = present e := by
  unfold present
  rw [set_addr_flag h (by omega), flags_bit e (by omega)]

theorem huge_link : huge (set_addr phys (flags e)) = huge e := by
  unfold huge
  rw [set_addr_flag h (by omega), flags_bit e (by omega)]

end

@[simp] theorem present_zero : present 0 = false := by decide

end zenos_kernel.process.isolation
