-- Byte arrays without an end: the bytes of a range, writing a list of bytes at
-- an offset, and numbers of 16 and 32 bits stored with the low byte first.
import Mathlib.Init

namespace Bytes

/-! ## Ranges -/

/-- The `len` bytes from `off` on. -/
def slice (mem : Nat → UInt8) (off len : Nat) : List UInt8 :=
  (List.range len).map (fun i => mem (off + i))

/-- The bytes of `data` are written at `off`. -/
def splice (mem : Nat → UInt8) (off : Nat) (data : List UInt8) : Nat → UInt8 := fun i =>
  if off ≤ i ∧ i < off + data.length then data.getD (i - off) 0 else mem i

/-- Two ranges of bytes have no byte in common. -/
def Apart (off len off' len' : Nat) : Prop := off + len ≤ off' ∨ off' + len' ≤ off

instance (off len off' len' : Nat) : Decidable (Apart off len off' len') :=
  inferInstanceAs (Decidable (_ ∨ _))

variable {mem mem' : Nat → UInt8} {off len off' len' i : Nat} {data : List UInt8}

theorem Apart.outside (h : Apart off len off' len') (hi : off ≤ i ∧ i < off + len) :
    ¬ (off' ≤ i ∧ i < off' + len') := by
  unfold Apart at h
  omega

/-- Records of `n` bytes: each one ends before the next one starts. -/
theorem record_le {j k : Nat} (h : j < k) (n : Nat) : j * n + n ≤ k * n := by
  rw [← Nat.succ_mul]
  exact Nat.mul_le_mul_right n h

theorem records_apart {j k : Nat} (h : j ≠ k) (n : Nat) : j * n + n ≤ k * n ∨ k * n + n ≤ j * n :=
  (Nat.lt_or_gt_of_ne h).imp (record_le · n) (record_le · n)

@[simp] theorem length_slice (mem : Nat → UInt8) (off len : Nat) :
    (slice mem off len).length = len := by
  simp [slice]

theorem getD_slice (mem : Nat → UInt8) (off : Nat) (hi : i < len) :
    (slice mem off len).getD i 0 = mem (off + i) := by
  simp [slice, hi]

/-- A part of a list that stands at the start of the array. -/
theorem slice_of_getD (h : ∀ p < data.length, mem p = data.getD p 0) (off len : Nat) :
    slice mem off (min len (data.length - off)) = (data.drop off).take len := by
  apply List.ext_getElem
  · simp
  · intro k h1 h2
    have hk : off + k < data.length := by
      simp at h1
      omega
    simp [slice, h _ hk, hk]

theorem slice_congr (h : ∀ i, off ≤ i → i < off + len → mem i = mem' i) :
    slice mem off len = slice mem' off len := by
  apply List.map_congr_left
  intro i hi
  exact h _ (Nat.le_add_right _ _) (Nat.add_lt_add_left (List.mem_range.mp hi) _)

variable (mem)

theorem splice_inside (h : off ≤ i ∧ i < off + data.length) :
    splice mem off data i = data.getD (i - off) 0 := if_pos h

theorem splice_outside (h : ¬ (off ≤ i ∧ i < off + data.length)) :
    splice mem off data i = mem i := if_neg h

theorem splice_at (off : Nat) (h : i < data.length) :
    splice mem off data (off + i) = data.getD i 0 := by
  rw [splice_inside mem ⟨Nat.le_add_right _ _, Nat.add_lt_add_left h _⟩, Nat.add_sub_cancel_left]

theorem slice_splice (off : Nat) (data : List UInt8) :
    slice (splice mem off data) off data.length = data := by
  apply List.ext_getElem
  · simp
  · intro i h1 h2
    have h := splice_at mem off h2
    rw [List.getD_eq_getElem?_getD, List.getElem?_eq_getElem h2] at h
    simpa [slice] using h

variable {n k : Nat} {buf b a : List UInt8} {ws : List (Nat × List UInt8)}

theorem slice_splice_front (off : Nat) (h : n ≤ data.length) :
    slice (splice mem off data) off n = data.take n := by
  apply List.ext_getElem?
  intro i
  unfold slice
  by_cases hi : i < n
  · rw [List.getElem?_take_of_lt hi, List.getElem?_map, List.getElem?_range hi, Option.map_some,
      splice_at mem off (by omega), List.getD_eq_getElem?_getD, List.getElem?_eq_getElem (by omega),
      Option.getD_some]
  · rw [List.getElem?_eq_none (by simp; omega), List.getElem?_eq_none (by simp; omega)]

theorem slice_append (off len len' : Nat) :
    slice mem off len ++ slice mem (off + len) len' = slice mem off (len + len') := by
  unfold slice
  rw [List.range_add, List.map_append, List.map_map]
  congr 2
  funext i
  exact congrArg mem (Nat.add_assoc off len i)

theorem slice_cons (off len : Nat) :
    slice mem off (len + 1) = mem off :: slice mem (off + 1) len := by
  rw [Nat.add_comm, ← slice_append]
  rfl

theorem take_drop_slice (pos : Nat) (h : k + n ≤ len) :
    ((slice mem pos len).drop k).take n = slice mem (pos + k) n := by
  have hlen : len = k + (n + (len - k - n)) := by omega
  rw [hlen, ← slice_append, ← slice_append, List.drop_left' (length_slice _ _ _),
    List.take_left' (length_slice _ _ _)]

theorem splice_nil (off : Nat) : splice mem off [] = mem := by
  funext i
  exact splice_outside mem (by simp)

theorem splice_append (off : Nat) (data data' : List UInt8) :
    splice (splice mem off data) (off + data.length) data' = splice mem off (data ++ data') := by
  funext i
  unfold splice
  rw [List.length_append]
  by_cases h1 : off + data.length ≤ i ∧ i < off + data.length + data'.length
  · rw [if_pos h1, if_pos (by omega), List.getD_eq_getElem?_getD, List.getD_eq_getElem?_getD,
      List.getElem?_append_right (by omega), Nat.sub_add_eq]
  · rw [if_neg h1]
    by_cases h2 : off ≤ i ∧ i < off + data.length
    · rw [if_pos h2, if_pos (by omega), List.getD_eq_getElem?_getD, List.getD_eq_getElem?_getD,
        List.getElem?_append_left (by omega)]
    · rw [if_neg h2, if_neg (by omega)]

/-- `buf[off..off + data.len()].copy_from_slice(data)`. -/
def overwrite (buf : List UInt8) (off : Nat) (data : List UInt8) : List UInt8 :=
  buf.take off ++ data ++ buf.drop (off + data.length)

/-- The list gets longer when the data goes past its end. -/
theorem length_overwrite_max (h : off ≤ buf.length) :
    (overwrite buf off data).length = max buf.length (off + data.length) := by
  simp only [overwrite, List.length_append, List.length_take, List.length_drop]
  omega

@[simp] theorem length_overwrite (h : off + data.length ≤ buf.length) :
    (overwrite buf off data).length = buf.length := by
  rw [length_overwrite_max (by omega)]
  omega

/-- The 32 bits of the size of a file, after a write that leaves no gap. -/
theorem toNat_size_after {size : UInt32} (hoff : off ≤ size.toNat)
    (hend : off + data.length < UInt32.size) :
    (if data ≠ [] ∧ size.toNat < off + data.length then UInt32.ofNat (off + data.length)
      else size).toNat = max size.toNat (off + data.length) := by
  split
  · rw [UInt32.toNat_ofNat_of_lt' hend]
    omega
  · rename_i hno
    by_cases hdata : data = []
    · rw [hdata, List.length_nil]
      omega
    · have : ¬ size.toNat < off + data.length := fun hlt => hno ⟨hdata, hlt⟩
      omega

theorem getD_overwrite (h : off ≤ buf.length) (i : Nat) : (overwrite buf off data).getD i 0 =
      if off ≤ i ∧ i < off + data.length then data.getD (i - off) 0 else buf.getD i 0 := by
  have htake : (buf.take off).length = off := by
    rw [List.length_take]
    omega
  simp only [overwrite, List.getD_eq_getElem?_getD]
  by_cases h1 : i < off
  · rw [if_neg (by omega), List.append_assoc, List.getElem?_append_left (by omega),
      List.getElem?_take_of_lt h1]
  · by_cases h2 : i < off + data.length
    · rw [if_pos (by omega), List.getElem?_append_left (by rw [List.length_append]; omega),
        List.getElem?_append_right (by omega), htake]
    · rw [if_neg (by omega), List.getElem?_append_right (by rw [List.length_append]; omega),
        List.getElem?_drop, List.length_append]
      congr 2
      omega

/-- Writing back a range of which a part was replaced writes that part. -/
theorem splice_overwrite (pos : Nat) (h : off + data.length ≤ len) :
    splice mem pos (overwrite (slice mem pos len) off data) = splice mem (pos + off) data := by
  have hlen : off + data.length ≤ (slice mem pos len).length := by
    rw [length_slice]
    exact h
  funext i
  unfold splice
  rw [length_overwrite hlen, length_slice, getD_overwrite (by omega)]
  by_cases h1 : pos + off ≤ i ∧ i < pos + off + data.length
  · rw [if_pos h1, if_pos (by omega), if_pos (by omega), Nat.sub_add_eq]
  · split
    · rw [if_neg (by omega), getD_slice mem pos (by omega)]
      congr 1
      omega
    · rfl

/-! ## Sequences of writes -/

/-- The writes of the list, in order: offsets and what is written there. -/
def applyWrites (ws : List (Nat × List UInt8)) (mem : Nat → UInt8) : Nat → UInt8 :=
  ws.foldl (fun mem w => splice mem w.1 w.2) mem

/-- Byte `i` is one of those that the writes go to. -/
def Covered (ws : List (Nat × List UInt8)) (i : Nat) : Prop :=
  ∃ w ∈ ws, w.1 ≤ i ∧ i < w.1 + w.2.length

theorem covered_cons {w : Nat × List UInt8} :
    Covered (w :: ws) i ↔ (w.1 ≤ i ∧ i < w.1 + w.2.length) ∨ Covered ws i := by
  simp [Covered]

/-- A byte that no write goes to is as before. -/
theorem applyWrites_outside (h : ¬ Covered ws i) : applyWrites ws mem i = mem i := by
  induction ws generalizing mem with
  | nil => rfl
  | cons w ws ih =>
    rw [covered_cons, not_or] at h
    exact (ih (splice mem w.1 w.2) h.2).trans (splice_outside mem h.1)

/-- Nothing of what was there before is left of a byte that is written. -/
theorem applyWrites_covered (mem mem' : Nat → UInt8)
    (h : Covered ws i) : applyWrites ws mem i = applyWrites ws mem' i := by
  induction ws generalizing mem mem' with
  | nil =>
    obtain ⟨w, hw, _⟩ := h
    cases hw
  | cons w ws ih =>
    by_cases hws : Covered ws i
    · exact ih _ _ hws
    · have hi := (covered_cons.mp h).resolve_right hws
      change applyWrites ws (splice mem w.1 w.2) i = applyWrites ws (splice mem' w.1 w.2) i
      rw [applyWrites_outside _ hws, applyWrites_outside _ hws, splice_inside _ hi,
        splice_inside _ hi]

/-- A byte that is written, on which the writes agree. -/
theorem applyWrites_eq {b : UInt8}
    (h : Covered ws i) (hb : ∀ w ∈ ws, w.1 ≤ i ∧ i < w.1 + w.2.length → w.2.getD (i - w.1) 0 = b) :
    applyWrites ws mem i = b := by
  induction ws generalizing mem with
  | nil =>
    obtain ⟨w, hw, _⟩ := h
    cases hw
  | cons w ws ih =>
    by_cases hws : Covered ws i
    · exact ih _ hws fun x hx => hb x (List.mem_cons_of_mem _ hx)
    · have hi := (covered_cons.mp h).resolve_right hws
      refine (applyWrites_outside _ hws).trans ?_
      exact (splice_inside _ hi).trans (hb w List.mem_cons_self hi)

theorem applyWrites_append (ws ws' : List (Nat × List UInt8)) (mem : Nat → UInt8) :
    applyWrites (ws ++ ws') mem = applyWrites ws' (applyWrites ws mem) := by
  exact List.foldl_append

/-! ## Numbers -/

/-- `to_le_bytes` of a number of 16 bits. -/
def le16 (v : UInt16) : List UInt8 := [UInt8.ofNat v.toNat, UInt8.ofNat (v.toNat / 256)]

/-- `to_le_bytes` of a number of 32 bits. -/
def le32 (v : UInt32) : List UInt8 :=
  [UInt8.ofNat v.toNat, UInt8.ofNat (v.toNat / 256), UInt8.ofNat (v.toNat / 65536),
    UInt8.ofNat (v.toNat / 16777216)]

/-- `from_le_bytes` of the two bytes at `k`. -/
def u16At (bytes : List UInt8) (k : Nat) : UInt16 :=
  UInt16.ofNat ((bytes.getD k 0).toNat + 256 * (bytes.getD (k + 1) 0).toNat)

/-- `from_le_bytes` of the four bytes at `k`. -/
def u32At (bytes : List UInt8) (k : Nat) : UInt32 :=
  UInt32.ofNat ((bytes.getD k 0).toNat + 256 * (bytes.getD (k + 1) 0).toNat +
    65536 * (bytes.getD (k + 2) 0).toNat + 16777216 * (bytes.getD (k + 3) 0).toNat)

@[simp] theorem length_le16 (v : UInt16) : (le16 v).length = 2 := rfl

@[simp] theorem length_le32 (v : UInt32) : (le32 v).length = 4 := rfl

theorem u16At_le16 (v : UInt16) : u16At (le16 v) 0 = v := by
  apply UInt16.toNat.inj
  have h := v.toNat_lt
  simp [u16At, le16]
  omega

theorem u32At_le32 (v : UInt32) : u32At (le32 v) 0 = v := by
  apply UInt32.toNat.inj
  have h := v.toNat_lt
  simp [u32At, le32]
  omega

theorem u16At_append (a b : List UInt8) (k : Nat) : u16At (a ++ b) (a.length + k) = u16At b k := by
  simp [u16At, Nat.add_assoc, List.getElem?_append_right]

theorem u32At_append (a b : List UInt8) (k : Nat) : u32At (a ++ b) (a.length + k) = u32At b k := by
  simp [u32At, Nat.add_assoc, List.getElem?_append_right]

theorem u16At_append_left (b : List UInt8) (h : k + 2 ≤ a.length) :
    u16At (a ++ b) k = u16At a k := by
  have h0 : k < a.length := by omega
  have h1 : k + 1 < a.length := by omega
  simp [u16At, List.getElem?_append_left, h0, h1]

theorem u32At_append_left (b : List UInt8) (h : k + 4 ≤ a.length) :
    u32At (a ++ b) k = u32At a k := by
  have h0 : k < a.length := by omega
  have h1 : k + 1 < a.length := by omega
  have h2 : k + 2 < a.length := by omega
  have h3 : k + 3 < a.length := by omega
  simp [u32At, List.getElem?_append_left, h0, h1, h2, h3]

/-! ## Arrays of numbers -/

/-- The bytes of an array of numbers. -/
def ofWords (vs : List UInt32) : List UInt8 := vs.flatMap le32

/-- The first `n` numbers of the bytes. -/
def toWords (bytes : List UInt8) (n : Nat) : List UInt32 :=
  (List.range n).map (fun j => u32At bytes (4 * j))

@[simp] theorem length_ofWords (vs : List UInt32) : (ofWords vs).length = 4 * vs.length := by
  induction vs with
  | nil => rfl
  | cons v vs ih =>
    change (le32 v ++ ofWords vs).length = _
    rw [List.length_append, length_le32, List.length_cons]
    omega

theorem u32At_ofWords {vs : List UInt32} {j : Nat} (hj : j < vs.length) (b : List UInt8) :
    u32At (ofWords vs ++ b) (4 * j) = vs.getD j 0 := by
  induction vs generalizing j with
  | nil => cases hj
  | cons v vs ih =>
    cases j with
    | zero =>
      exact u32At_le32 v
    | succ j =>
      exact ih (Nat.lt_of_succ_lt_succ hj)

/-- A number in front is skipped. -/
@[simp] theorem u16At_skip16 (v : UInt16) (b : List UInt8) (k : Nat) :
    u16At (le16 v ++ b) (k + 2) = u16At b k := by
  rw [Nat.add_comm]
  exact u16At_append (le16 v) b k

@[simp] theorem u16At_skip32 (v : UInt32) (b : List UInt8) (k : Nat) :
    u16At (le32 v ++ b) (k + 4) = u16At b k := by
  rw [Nat.add_comm]
  exact u16At_append (le32 v) b k

@[simp] theorem u32At_skip16 (v : UInt16) (b : List UInt8) (k : Nat) :
    u32At (le16 v ++ b) (k + 2) = u32At b k := by
  rw [Nat.add_comm]
  exact u32At_append (le16 v) b k

@[simp] theorem u32At_skip32 (v : UInt32) (b : List UInt8) (k : Nat) :
    u32At (le32 v ++ b) (k + 4) = u32At b k := by
  rw [Nat.add_comm]
  exact u32At_append (le32 v) b k

@[simp] theorem u16At_head (v : UInt16) (b : List UInt8) : u16At (le16 v ++ b) 0 = v := by
  rw [u16At_append_left _ (by simp), u16At_le16]

@[simp] theorem u32At_head (v : UInt32) (b : List UInt8) : u32At (le32 v ++ b) 0 = v := by
  rw [u32At_append_left _ (by simp), u32At_le32]

/-! ### What is read is what is written -/

theorem drop_cons_getD (h : k < b.length) : b.drop k = b.getD k 0 :: b.drop (k + 1) := by
  rw [List.drop_eq_getElem_cons h, List.getD_eq_getElem?_getD, List.getElem?_eq_getElem h]
  rfl

theorem le16_u16At (h : k + 2 ≤ b.length) : le16 (u16At b k) ++ b.drop (k + 2) = b.drop k := by
  have hx := (b.getD k 0).toNat_lt
  have hy := (b.getD (k + 1) 0).toNat_lt
  have hsize : (b.getD k 0).toNat + 256 * (b.getD (k + 1) 0).toNat < UInt16.size := by
    change _ < 65536
    omega
  rw [drop_cons_getD (show k < b.length by omega), drop_cons_getD (show k + 1 < b.length by omega)]
  unfold le16 u16At
  rw [UInt16.toNat_ofNat_of_lt' hsize]
  have hlow : UInt8.ofNat ((b.getD k 0).toNat + 256 * (b.getD (k + 1) 0).toNat) = b.getD k 0 := by
    apply UInt8.toNat_inj.mp
    rw [UInt8.toNat_ofNat']
    omega
  have hhigh : UInt8.ofNat (((b.getD k 0).toNat + 256 * (b.getD (k + 1) 0).toNat) / 256) =
      b.getD (k + 1) 0 := by
    apply UInt8.toNat_inj.mp
    rw [UInt8.toNat_ofNat']
    omega
  rw [hlow, hhigh]
  rfl

theorem le32_u32At (h : k + 4 ≤ b.length) : le32 (u32At b k) ++ b.drop (k + 4) = b.drop k := by
  rw [drop_cons_getD (show k < b.length by omega), drop_cons_getD (show k + 1 < b.length by omega),
    drop_cons_getD (show k + 1 + 1 < b.length by omega),
    drop_cons_getD (show k + 1 + 1 + 1 < b.length by omega)]
  unfold le32 u32At
  generalize b.getD k 0 = x0, b.getD (k + 1) 0 = x1, b.getD (k + 2) 0 = x2, b.getD (k + 3) 0 = x3
  have h0 := x0.toNat_lt
  have h1 := x1.toNat_lt
  have h2 := x2.toNat_lt
  have h3 := x3.toNat_lt
  obtain ⟨n, hn⟩ : ∃ n, n = x0.toNat + 256 * x1.toNat + 65536 * x2.toNat + 16777216 * x3.toNat :=
    ⟨_, rfl⟩
  have hsize : n < UInt32.size := by
    change _ < 4294967296
    omega
  have hbyte : ∀ (x : UInt8) (m : Nat), m % 256 = x.toNat → UInt8.ofNat m = x := by
    intro x m hm
    apply UInt8.toNat_inj.mp
    exact hm
  rw [← hn, UInt32.toNat_ofNat_of_lt' hsize, hbyte x0 n (by omega), hbyte x1 (n / 256) (by omega),
    hbyte x2 (n / 65536) (by omega), hbyte x3 (n / 16777216) (by omega)]
  rfl

theorem ofWords_u32At (h : k + 4 * n ≤ b.length) :
    ofWords (List.ofFn fun j : Fin n => u32At b (k + j * 4)) ++ b.drop (k + 4 * n) = b.drop k := by
  induction n generalizing k with
  | zero => rfl
  | succ n ih =>
    have ih := ih (k := k + 4) (by omega)
    rw [List.ofFn_succ]
    change (le32 (u32At b (k + 0 * 4)) ++ ofWords (List.ofFn fun j : Fin n =>
      u32At b (k + (j.val + 1) * 4))) ++ _ = _
    rw [List.append_assoc, show k + 4 * (n + 1) = k + 4 + 4 * n by omega,
      show (fun j : Fin n => u32At b (k + (j.val + 1) * 4)) =
        fun j : Fin n => u32At b (k + 4 + j.val * 4) from funext fun j => by congr 1; omega, ih]
    exact le32_u32At (by omega)

end Bytes
