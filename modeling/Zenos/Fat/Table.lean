-- The table of a FAT volume: what `read_entry` and `write_entry` make of the
-- packed entries, and which cluster `allocate_cluster` hands out.
import Zenos.Fat.Volume
import Mathlib.Data.Nat.Bitwise
import Mathlib.Data.List.Nodup

namespace zenos_kernel.disk.fs.fat

open Bytes Outcome FatTable BiosParameterBlock

theorem BiosParameterBlock.total_sectors_lt (bpb : BiosParameterBlock) :
    bpb.total_sectors < UInt32.size := by
  unfold total_sectors
  split
  · exact Nat.lt_trans (UInt16.toNat_lt _) (by decide)
  · exact UInt32.toNat_lt _

namespace Volume

/-! ## The layout -/

/-- The bytes that an entry is read from. -/
def entry_width (fat_type : FatType) : Nat :=
  match fat_type with
  | .Fat12 => 2
  | .Fat16 => 2
  | .Fat32 => 4

/-- A cluster of the data area. -/
def InRange (v : Volume) (cluster : Nat) : Prop :=
  2 ≤ cluster ∧ cluster < v.bpb.total_clusters + 2

/-- The table has room for all clusters, their numbers are below the marks, and
the volume ends within reach of the device. -/
structure Layout (v : Volume) : Prop where
  room : ∀ c < v.bpb.total_clusters + 2,
    fat_offset v.fat_type c + entry_width v.fat_type ≤ v.bpb.fat_size * v.bps
  count : v.bpb.total_clusters < 0x0FFFFFF0
  fits : v.sector_pos v.bpb.total_sectors < UInt64.size

/-- The entry of a cluster lies in the first copy of the table. -/
def InFat (v : Volume) (cluster : Nat) : Prop :=
  fat_offset v.fat_type cluster + entry_width v.fat_type ≤ v.bpb.fat_size * v.bps

/-- An entry of 12 bits that spans two sectors. -/
def Straddles (v : Volume) (cluster : Nat) : Prop :=
  v.fat_type = .Fat12 ∧ fat_offset v.fat_type cluster % v.bps = v.bps - 1

/-! ## Places -/

variable {v : Volume} {c d i : Nat}

theorem total_clusters_le (v : Volume) :
    v.bpb.total_clusters * v.spc + v.bpb.first_data_sector ≤ v.bpb.total_sectors := by
  have h := Nat.div_mul_le_self (v.bpb.total_sectors - v.bpb.first_data_sector) v.spc
  have hlt := v.first_data_sector_lt
  change (v.bpb.total_sectors - v.bpb.first_data_sector) / v.spc * v.spc +
    v.bpb.first_data_sector ≤ _
  omega

theorem cluster_pos_eq (v : Volume) (c : Nat) :
    v.cluster_pos c = v.sector_pos v.bpb.first_data_sector + (c - 2) * v.cluster_size := by
  unfold cluster_pos
  rw [Nat.add_comm, sector_pos_add, cluster_size_eq, Nat.mul_assoc, Nat.mul_comm v.spc]

theorem clusters_apart (hc : v.InRange c) (hd : v.InRange d) (h : c ≠ d) :
    Apart (v.cluster_pos c) v.cluster_size (v.cluster_pos d) v.cluster_size := by
  have hne : c - 2 ≠ d - 2 := by
    have := hc.1
    have := hd.1
    omega
  have := records_apart hne v.cluster_size
  rw [cluster_pos_eq, cluster_pos_eq]
  unfold Apart
  omega

/-- Sectors do not change their order on the device. -/
theorem sector_pos_mono (v : Volume) {m n : Nat} (h : m ≤ n) : v.sector_pos m ≤ v.sector_pos n := by
  exact Nat.add_le_add_right (Nat.mul_le_mul_right _ h) _

theorem fat_end_le (v : Volume) (c : Nat) : v.fat_end ≤ v.cluster_pos c := by
  apply sector_pos_mono
  unfold first_data_sector first_fat_sector
  omega

theorem cluster_end_le (v : Volume) (hc : v.InRange c) :
    v.cluster_pos c + v.cluster_size ≤ v.sector_pos v.bpb.total_sectors := by
  obtain ⟨_, _⟩ := hc
  have h1 := record_le (show c - 2 < v.bpb.total_clusters by omega) v.spc
  have h2 := v.total_clusters_le
  have hend : v.cluster_pos c + v.cluster_size =
      v.sector_pos ((c - 2) * v.spc + v.bpb.first_data_sector + v.spc) := by
    rw [sector_pos_add, cluster_size_eq, Nat.mul_comm v.bps]
    rfl
  rw [hend]
  apply sector_pos_mono
  omega

theorem Layout.cluster (h : v.Layout) (hc : v.InRange c) : ¬ v.NoCluster c := by
  have hend := v.cluster_end_le hc
  have hfits := h.fits
  have h1 : (c - 2) * v.spc ≤ v.bpb.total_clusters * v.spc :=
    Nat.mul_le_mul_right _ (by have := hc.2; omega)
  have h2 := v.total_clusters_le
  have h3 := v.bpb.total_sectors_lt
  unfold NoCluster
  have := hc.1
  omega

theorem Layout.inFat (h : v.Layout) (hc : c < v.bpb.total_clusters + 2) : v.InFat c := h.room c hc

theorem InFat.sector_lt (h : v.InFat c) : fat_offset v.fat_type c / v.bps < v.bpb.fat_size := by
  unfold InFat at h
  have hw : 0 < entry_width v.fat_type := by
    unfold entry_width
    split
    · decide
    · decide
    · decide
  apply Nat.div_lt_of_lt_mul
  rw [Nat.mul_comm]
  omega

/-- The sector of the entry, in each copy, lies before the data. -/
theorem InFat.copy_lt (h : v.InFat c) (hi : i < v.bpb.num_fats.toNat) :
    v.entry_sector c + i * v.bpb.fat_size + 1 ≤
      v.bpb.first_fat_sector + v.bpb.num_fats.toNat * v.bpb.fat_size := by
  have hsec := h.sector_lt
  have hmul : (i + 1) * v.bpb.fat_size ≤ v.bpb.num_fats.toNat * v.bpb.fat_size :=
    Nat.mul_le_mul_right _ hi
  rw [Nat.add_mul] at hmul
  unfold entry_sector
  omega

theorem InFat.copy_le (h : v.InFat c) (hi : i < v.bpb.num_fats.toNat) :
    v.entry_sector c + i * v.bpb.fat_size + 1 ≤ v.bpb.total_sectors := by
  have hcopy := h.copy_lt hi
  have hdata := v.first_data_sector_lt
  unfold first_data_sector at hdata
  unfold first_fat_sector at hcopy
  omega

section

variable (h : v.InFat c) (hoff : fat_offset v.fat_type c < UInt32.size)
  (hfits : v.sector_pos v.bpb.total_sectors < UInt64.size)

include h hoff hfits

theorem InFat.reachable : ¬ v.Unreachable c := by
  have hle := h.copy_le v.num_fats_pos
  rw [Nat.zero_mul, Nat.add_zero] at hle
  have hreach := Nat.lt_of_le_of_lt (v.sector_pos_mono hle) hfits
  unfold Unreachable
  omega

/-- A sector that `write_entry` writes is out of reach of the arithmetic. -/
def Unwritable (v : Volume) (c : Nat) : Prop :=
  UInt32.size ≤ fat_offset v.fat_type c ∨ ∃ i < v.bpb.num_fats.toNat,
    UInt32.size ≤ v.entry_sector c + i * v.bpb.fat_size ∨
      UInt64.size ≤ v.sector_pos (v.entry_sector c + i * v.bpb.fat_size)

theorem InFat.writable : ¬ v.Unwritable c := by
  rintro (hbig | ⟨i, hi, hbig⟩)
  · omega
  · have hle := h.copy_le hi
    have htotal := v.bpb.total_sectors_lt
    have hpos := v.sector_pos_mono (Nat.le_of_succ_le hle)
    omega

end

theorem Layout.entry (h : v.Layout) (hc : c < v.bpb.total_clusters + 2) : ¬ v.Unreachable c := by
  have hcount := h.count
  have hoff : fat_offset v.fat_type c < UInt32.size := by
    have h4 : fat_offset v.fat_type c ≤ c * 4 := by
      unfold fat_offset
      split
      · omega
      · omega
      · omega
    have hs : UInt32.size = 4294967296 := rfl
    omega
  exact (h.inFat hc).reachable hoff h.fits

/-! ## Reading an entry -/

variable (v)

theorem number_two (pos : Nat) :
    v.number pos 2 = (v.bytes pos).toNat + 256 * (v.bytes (pos + 1)).toNat := rfl

theorem number_four (pos : Nat) :
    v.number pos 4 = (v.bytes pos).toNat + 256 * (v.bytes (pos + 1)).toNat +
      65536 * (v.bytes (pos + 2)).toNat + 16777216 * (v.bytes (pos + 3)).toNat := by
  change (v.bytes pos).toNat + 256 * ((v.bytes (pos + 1)).toNat + 256 * ((v.bytes (pos + 2)).toNat +
    256 * ((v.bytes (pos + 3)).toNat + 256 * 0))) = _
  omega

theorem u16At_sector {pos off len : Nat} (h : off + 2 ≤ len) :
    (u16At (slice v.bytes pos len) off).toNat = v.number (pos + off) 2 := by
  have h0 := (v.bytes (pos + off)).toNat_lt
  have h1 := (v.bytes (pos + (off + 1))).toNat_lt
  unfold u16At
  rw [getD_slice _ _ (by omega), getD_slice _ _ (by omega),
    UInt16.toNat_ofNat_of_lt' (by change _ < 65536; omega)]
  rfl

theorem u32At_sector {pos off len : Nat} (h : off + 4 ≤ len) :
    (u32At (slice v.bytes pos len) off).toNat = v.number (pos + off) 4 := by
  have h0 := (v.bytes (pos + off)).toNat_lt
  have h1 := (v.bytes (pos + (off + 1))).toNat_lt
  have h2 := (v.bytes (pos + (off + 2))).toNat_lt
  have h3 := (v.bytes (pos + (off + 3))).toNat_lt
  unfold u32At
  rw [getD_slice _ _ (by omega), getD_slice _ _ (by omega), getD_slice _ _ (by omega),
    getD_slice _ _ (by omega), number_four,
    UInt32.toNat_ofNat_of_lt' (by change _ < 4294967296; omega)]
  rfl

/-- An entry of 16 or 32 bits does not leave its sector. -/
theorem mod_width (c : Nat) :
    fat_offset .Fat16 c % v.bps + 2 ≤ v.bps ∧ fat_offset .Fat32 c % v.bps + 4 ≤ v.bps := by
  change c * 2 % v.bps + 2 ≤ v.bps ∧ c * 4 % v.bps + 4 ≤ v.bps
  rcases v.bps_cases with h | h | h | h
  · rw [h]; omega
  · rw [h]; omega
  · rw [h]; omega
  · rw [h]; omega

end Volume

namespace FatFileSystemInner

open Volume

variable (s : FatFileSystemInner)

theorem ends_read_pair (sector off : Nat) (hoff : off < s.volume.bps) :
    Ends (read_pair sector off (slice s.volume.bytes (s.volume.sector_pos sector) s.volume.bps) s)
      (fun val s' => s'.volume = s.volume ∧
        val = s.volume.number (s.volume.sector_pos sector + off) 2)
      (fun _ s' => s'.volume = s.volume ∧
        (s.volume.Faulty ∨ UInt64.size ≤ s.volume.sector_pos (sector + 1))) := by
  unfold read_pair
  rw [get_bind]
  split
  · rename_i hlast
    have hlast : off = s.volume.bps - 1 := hlast
    refine ends_then (s.ends_read_sector (sector + 1)) (fun _ _ h => h.2) ?_
    rintro buf s1 ⟨hv, rfl⟩
    refine ends_pure ⟨hv, ?_⟩
    rw [getD_slice _ _ hoff, getD_slice _ _ (by omega), number_two, sector_pos_add]
    have h0 := (s.volume.bytes (s.volume.sector_pos sector + off)).toNat_lt
    rw [show s.volume.sector_pos sector + 1 * s.volume.bps + 0 =
      s.volume.sector_pos sector + off + 1 by omega, Nat.or_comm, Nat.shiftLeft_eq,
      Nat.mul_comm _ (2 ^ 8), ← Nat.two_pow_add_eq_or_of_lt h0]
    omega
  · rename_i hlast
    have hlast : off ≠ s.volume.bps - 1 := hlast
    exact ends_pure ⟨rfl, u16At_sector _ (by omega)⟩

/-- The numbers of the sector are those of the table. -/
theorem ends_decode_entry (c : Nat) :
    Ends (decode_entry c (s.volume.entry_sector c) (fat_offset s.volume.fat_type c % s.volume.bps)
        (slice s.volume.bytes (s.volume.sector_pos (s.volume.entry_sector c)) s.volume.bps)
        s.volume.fat_type s) (fun n s' => s'.volume = s.volume ∧ n = s.volume.entry c)
      (fun _ s' => s'.volume = s.volume ∧
        (s.volume.Faulty ∨ UInt64.size ≤ s.volume.sector_pos (s.volume.entry_sector c + 1))) := by
  have hpos := s.volume.entry_pos_eq c
  have hmod : fat_offset s.volume.fat_type c % s.volume.bps < s.volume.bps :=
    Nat.mod_lt _ (by have := s.volume.bps_ge; omega)
  unfold Volume.entry
  cases ht : s.volume.fat_type with
  | Fat12 =>
    rw [ht] at hmod hpos
    refine ends_bind (s.ends_read_pair _ _ hmod) ?_
    rintro val s1 ⟨hv, rfl⟩
    refine ends_pure ⟨hv, ?_⟩
    rw [hpos, Nat.shiftRight_eq_div_pow, Nat.and_two_pow_sub_one_eq_mod _ 12]
    by_cases hodd : c % 2 = 1
    · simp [hodd]
    · simp [hodd]
  | Fat16 =>
    rw [ht] at hpos
    refine ends_pure ⟨rfl, ?_⟩
    rw [u16At_sector _ (s.volume.mod_width c).1, hpos]
  | Fat32 =>
    rw [ht] at hpos
    refine ends_pure ⟨rfl, ?_⟩
    rw [u32At_sector _ (s.volume.mod_width c).2, hpos, Nat.and_two_pow_sub_one_eq_mod _ 28]

theorem ends_read_entry (c : Nat) :
    Ends (read_entry c s) (fun n s' => s'.volume = s.volume ∧ n = s.volume.entry c)
      (fun _ s' => s'.volume = s.volume ∧ (s.volume.Faulty ∨ s.volume.Unreachable c)) := by
  unfold read_entry
  rw [get_bind]
  refine ends_then (s.ends_u32 _)
    (fun _ s' h => ⟨by rw [h.2.2], Or.inr (Or.inl h.2.1)⟩) ?_
  rintro off s1 ⟨rfl, rfl⟩
  have hstep : s1.volume.sector_pos (s1.volume.entry_sector c) ≤
      s1.volume.sector_pos (s1.volume.entry_sector c + 1) := s1.volume.sector_pos_mono (by omega)
  refine ends_then (s1.ends_read_sector (s1.volume.entry_sector c)) ?_ ?_
  · rintro _ s' ⟨-, hv, hf | hbig⟩
    · exact ⟨hv, Or.inl hf⟩
    · exact ⟨hv, Or.inr (Or.inr (Nat.le_trans hbig hstep))⟩
  rintro buf s2 ⟨hv, rfl⟩
  have hdecode := s2.ends_decode_entry c
  rw [hv] at hdecode
  refine hdecode.mono_error ?_
  rintro _ s' ⟨hv', hf | hbig⟩
  · exact ⟨hv', Or.inl hf⟩
  · exact ⟨hv', Or.inr (Or.inr hbig)⟩

end FatFileSystemInner

namespace Volume

variable {v : Volume} {c d i q x : Nat}

/-! ## Writing an entry -/

/-- The `n` low bytes of a number. -/
def number_bytes : Nat → Nat → List UInt8
  | 0, _ => []
  | n + 1, x => UInt8.ofNat x :: number_bytes n (x / 256)

@[simp] theorem length_number_bytes (n x : Nat) : (number_bytes n x).length = n := by
  induction n generalizing x with
  | zero => rfl
  | succ n ih => rw [number_bytes, List.length_cons, ih]

/-- The number that `write_entry` leaves at the place of the entry. -/
def new_number (v : Volume) (c x : Nat) : Nat :=
  let pos := v.entry_pos c
  match v.fat_type with
  | .Fat12 =>
    if c % 2 = 1 then v.number pos 2 % 16 + 16 * (x % 4096)
    else v.number pos 2 / 4096 * 4096 + x % 4096
  | .Fat16 => x % 65536
  | .Fat32 => v.number pos 4 / 268435456 * 268435456 + x % 268435456

/-- The bits from `k` on of a number of `k + w` bits. -/
theorem and_high_bits {n k w : Nat} (h : n < 2 ^ (k + w)) :
    n &&& ((2 ^ w - 1) <<< k) = n / 2 ^ k * 2 ^ k := by
  apply Nat.eq_of_testBit_eq
  intro i
  rw [Nat.testBit_mul_two_pow, Nat.testBit_div_two_pow]
  by_cases hk : k ≤ i
  · by_cases hw : i - k < w
    · simp [hk, hw]
    · have hbit : n.testBit i = false :=
        Nat.testBit_lt_two_pow (Nat.lt_of_lt_of_le h (Nat.pow_le_pow_right (by decide) (by omega)))
      simp [hk, hbit]
  · simp [hk]

/-- Two parts of a number that have no bit in common. -/
theorem or_eq_add {a b k : Nat} (ha : a = a / 2 ^ k * 2 ^ k) (hb : b < 2 ^ k) : a ||| b = a + b := by
  rw [ha, Nat.mul_comm, ← Nat.two_pow_add_eq_or_of_lt hb]

theorem number_lt (v : Volume) (pos n : Nat) : v.number pos n < 256 ^ n := by
  induction n generalizing pos with
  | zero => exact Nat.one_pos
  | succ n ih =>
    have h0 := (v.bytes pos).toNat_lt
    have h1 := ih (pos + 1)
    unfold number
    omega

theorem set_two {buf : List UInt8} {off : Nat} (a b : UInt8) (h : off + 2 ≤ buf.length) :
    (buf.set off a).set (off + 1) b = overwrite buf off [a, b] := by
  rw [List.set_eq_take_append_cons_drop, if_pos (by rw [List.length_set]; omega),
    List.take_succ_eq_append_getElem (by rw [List.length_set]; omega),
    List.take_set_of_le (Nat.le_refl off), List.getElem_set_self, List.drop_set_of_lt (by omega)]
  simp [overwrite]

theorem entry_in_sector (h : ¬ v.Straddles c) :
    fat_offset v.fat_type c % v.bps + entry_width v.fat_type ≤ v.bps := by
  have hmod : fat_offset v.fat_type c % v.bps < v.bps :=
    Nat.mod_lt _ (by have := v.bps_ge; omega)
  unfold Straddles at h
  cases ht : v.fat_type with
  | Fat12 =>
    rw [ht] at h hmod
    have hne : fat_offset .Fat12 c % v.bps ≠ v.bps - 1 := fun h0 => h ⟨rfl, h0⟩
    change _ + 2 ≤ _
    omega
  | Fat16 => exact (v.mod_width c).1
  | Fat32 => exact (v.mod_width c).2

/-- Only the bytes of the entry change in its sector. -/
theorem new_sector_eq (h : ¬ v.Straddles c) :
    v.new_sector c x = overwrite (slice v.bytes (v.sector_pos (v.entry_sector c)) v.bps)
      (fat_offset v.fat_type c % v.bps) (number_bytes (entry_width v.fat_type) (v.new_number c x)) := by
  have hpos := v.entry_pos_eq c
  have hin := entry_in_sector h
  unfold new_sector set_entry new_number
  cases ht : v.fat_type with
  | Fat12 =>
    rw [ht] at hpos hin
    have hin : fat_offset .Fat12 c % v.bps + 2 ≤ v.bps := hin
    have hex : v.number (v.entry_pos c) 2 < 2 ^ (12 + 4) := v.number_lt _ 2
    dsimp only
    rw [set_two _ _ (by rw [length_slice]; exact hin), getD_slice _ _ (by omega),
      getD_slice _ _ (by omega), ← Nat.add_assoc, hpos, ← number_two, Nat.and_one_is_mod]
    by_cases hodd : c % 2 = 1
    · have hnew : v.number (v.entry_pos c) 2 &&& 0x000F ||| x <<< 4 % 65536 =
          v.number (v.entry_pos c) 2 % 16 + 16 * (x % 4096) := by
        rw [Nat.and_two_pow_sub_one_eq_mod _ 4, Nat.or_comm,
          or_eq_add (k := 4) (by omega) (by omega)]
        omega
      rw [if_pos (by omega), if_pos hodd, hnew, Nat.shiftRight_eq_div_pow]
      rfl
    · have hnew : v.number (v.entry_pos c) 2 &&& 0xF000 ||| x &&& 0x0FFF =
          v.number (v.entry_pos c) 2 / 4096 * 4096 + x % 4096 := by
        rw [Nat.and_two_pow_sub_one_eq_mod _ 12, show (0xF000 : Nat) = (2 ^ 4 - 1) <<< 12 by rfl,
          and_high_bits hex, or_eq_add (k := 12) (by omega) (by omega)]
        rfl
      rw [if_neg (by omega), if_neg hodd, hnew, Nat.shiftRight_eq_div_pow]
      rfl
  | Fat16 =>
    rw [ht] at hin
    dsimp only
    rw [set_two _ _ (by rw [length_slice]; exact hin)]
    congr 1
    congr 1
    · apply UInt8.toNat_inj.mp
      simp
    · congr 1
      apply UInt8.toNat_inj.mp
      simp [Nat.shiftRight_eq_div_pow]
      omega
  | Fat32 =>
    rw [ht] at hpos hin
    have hex : v.number (v.entry_pos c) 4 < 2 ^ (28 + 4) := v.number_lt _ 4
    have hnew : v.number (v.entry_pos c) 4 &&& 0xF0000000 ||| x &&& 0x0FFFFFFF =
        v.number (v.entry_pos c) 4 / 268435456 * 268435456 + x % 268435456 := by
      rw [Nat.and_two_pow_sub_one_eq_mod _ 28, show (0xF0000000 : Nat) = (2 ^ 4 - 1) <<< 28 by rfl,
        and_high_bits hex, or_eq_add (k := 28) (by omega) (by omega)]
      rfl
    dsimp only
    rw [u32At_sector _ (v.mod_width c).2, hpos, hnew]
    generalize hn : v.number (v.entry_pos c) 4 / 268435456 * 268435456 + x % 268435456 = n
    have hlt : n < 4294967296 := by omega
    have hbytes : le32 (UInt32.ofNat n) = number_bytes 4 n := by
      change le32 (UInt32.ofNat n) = [UInt8.ofNat n, UInt8.ofNat (n / 256),
        UInt8.ofNat (n / 256 / 256), UInt8.ofNat (n / 256 / 256 / 256)]
      unfold le32
      rw [UInt32.toNat_ofNat_of_lt' hlt, Nat.div_div_eq_div_mul, Nat.div_div_eq_div_mul]
    rw [hbytes]
    rfl

@[simp] theorem length_new_sector (v : Volume) (c x : Nat) : (v.new_sector c x).length = v.bps := by
  unfold new_sector set_entry
  cases ht : v.fat_type with
  | Fat12 => simp
  | Fat16 => simp
  | Fat32 =>
    have := (v.mod_width c).2
    simp
    omega

/-- The sectors that `write_entry` writes lie in the copies of the table. -/
theorem InFat.covered (hc : v.InFat c) {p : Nat} (hp : Covered (v.entry_writes c x) p) :
    v.fat_start ≤ p ∧ p < v.fat_end := by
  obtain ⟨w, hw, hlo, hhi⟩ := hp
  obtain ⟨i, hi, rfl⟩ := List.mem_map.mp hw
  have hi := List.mem_range.mp hi
  rw [length_new_sector] at hhi
  have hend := v.sector_pos_mono (hc.copy_lt hi)
  rw [sector_pos_add v _ 1] at hend
  have hstart : v.fat_start ≤ v.sector_pos (v.entry_sector c + i * v.bpb.fat_size) := by
    apply sector_pos_mono
    exact Nat.le_trans (Nat.le_add_right _ _) (Nat.le_add_right _ _)
  unfold fat_end
  omega

theorem InFat.put_outside (hc : v.InFat c) {p : Nat} (hp : p < v.fat_start ∨ v.fat_end ≤ p) :
    (v.put c x).bytes p = v.bytes p := by
  apply applyWrites_outside
  intro hcov
  have := hc.covered hcov
  omega

/-- Byte `q` of copy `i` of the table. -/
def copy_pos (v : Volume) (i q : Nat) : Nat := v.fat_start + i * (v.bpb.fat_size * v.bps) + q

/-- Where the sector of an entry starts in a copy. -/
def sector_offset (v : Volume) (c : Nat) : Nat := fat_offset v.fat_type c / v.bps * v.bps

theorem sector_pos_copy (v : Volume) (c j : Nat) :
    v.sector_pos (v.entry_sector c + j * v.bpb.fat_size) = v.copy_pos j (v.sector_offset c) := by
  unfold entry_sector copy_pos fat_start sector_offset
  rw [sector_pos_add, sector_pos_add, Nat.mul_assoc, Nat.add_right_comm]

/-- A write goes to a byte of its own copy, in the sector of the entry. -/
theorem InFat.written_iff (hc : v.InFat c) (hq : q < v.bpb.fat_size * v.bps) (j : Nat) :
    (v.copy_pos j (v.sector_offset c) ≤ v.copy_pos i q ∧
      v.copy_pos i q < v.copy_pos j (v.sector_offset c) + v.bps) ↔
      j = i ∧ v.sector_offset c ≤ q ∧ q < v.sector_offset c + v.bps := by
  have hsec : v.sector_offset c + v.bps ≤ v.bpb.fat_size * v.bps := by
    exact record_le hc.sector_lt _
  unfold copy_pos
  generalize v.bpb.fat_size * v.bps = size at *
  by_cases h : j = i
  · subst h
    omega
  · have hcopy := records_apart h size
    omega

/-- A sector of each copy is replaced, by the same bytes. -/
theorem InFat.put_copy (hc : v.InFat c) (hi : i < v.bpb.num_fats.toNat)
    (hq : q < v.bpb.fat_size * v.bps) :
    (v.put c x).bytes (v.copy_pos i q) =
      if v.sector_offset c ≤ q ∧ q < v.sector_offset c + v.bps then
        (v.new_sector c x).getD (q - v.sector_offset c) 0 else v.bytes (v.copy_pos i q) := by
  have hwrites : v.entry_writes c x = (List.range v.bpb.num_fats.toNat).map
      (fun j => (v.copy_pos j (v.sector_offset c), v.new_sector c x)) :=
    List.map_congr_left fun j _ => by rw [sector_pos_copy]
  unfold put
  rw [hwrites]
  split
  · rename_i h
    apply applyWrites_eq
    · refine ⟨_, List.mem_map.mpr ⟨i, List.mem_range.mpr hi, rfl⟩, ?_⟩
      rw [length_new_sector]
      exact (hc.written_iff hq i).mpr ⟨rfl, h⟩
    · intro w hw hin
      obtain ⟨j, _, rfl⟩ := List.mem_map.mp hw
      rw [length_new_sector] at hin
      obtain ⟨rfl, -⟩ := (hc.written_iff hq j).mp hin
      rw [copy_pos, copy_pos, Nat.add_sub_add_left]
  · rename_i h
    apply applyWrites_outside
    rintro ⟨w, hw, hin⟩
    obtain ⟨j, _, rfl⟩ := List.mem_map.mp hw
    rw [length_new_sector] at hin
    exact h ((hc.written_iff hq j).mp hin).2

/-- In the first copy of the table only the bytes of the entry change. -/
theorem InFat.put_first_copy (hc : v.InFat c) (h : ¬ v.Straddles c) {p : Nat}
    (hp : p < v.fat_start + v.bpb.fat_size * v.bps) :
    (v.put c x).bytes p = splice v.bytes (v.entry_pos c)
      (number_bytes (entry_width v.fat_type) (v.new_number c x)) p := by
  have hpos : v.sector_pos (v.entry_sector c) = v.fat_start + v.sector_offset c := by
    have := v.sector_pos_copy c 0
    simpa [copy_pos] using this
  have hin := entry_in_sector h
  rw [← length_number_bytes (entry_width v.fat_type) (v.new_number c x)] at hin
  rw [← entry_pos_eq, ← splice_overwrite v.bytes _ hin, ← new_sector_eq h, hpos]
  by_cases hlow : p < v.fat_start
  · rw [hc.put_outside (Or.inl hlow), splice_outside _ (by omega)]
  · have hcopy := hc.put_copy (x := x) v.num_fats_pos (q := p - v.fat_start) (by omega)
    rw [copy_pos, Nat.zero_mul, Nat.add_zero, Nat.add_sub_cancel' (Nat.le_of_not_lt hlow)] at hcopy
    rw [hcopy]
    unfold splice
    rw [length_new_sector, Nat.sub_add_eq]
    congr 1
    exact propext (by omega)

@[simp] theorem put_bpb (v : Volume) (c x : Nat) : (v.put c x).bpb = v.bpb := rfl

@[simp] theorem put_fat_type (v : Volume) (c x : Nat) : (v.put c x).fat_type = v.fat_type := rfl

@[simp] theorem put_entry_pos (v : Volume) (c x d : Nat) :
    (v.put c x).entry_pos d = v.entry_pos d := rfl

theorem number_congr (v v' : Volume) {pos n : Nat}
    (h : ∀ p, pos ≤ p → p < pos + n → v.bytes p = v'.bytes p) : v.number pos n = v'.number pos n := by
  induction n generalizing pos with
  | zero => rfl
  | succ n ih =>
    unfold number
    rw [h pos (by omega) (by omega), ih (fun p h1 h2 => h p (by omega) (by omega))]

/-- An entry is a function of the number at its place. -/
theorem entry_congr {v v' : Volume} (ht : v'.fat_type = v.fat_type)
    (hpos : v'.entry_pos c = v.entry_pos c)
    (hnum : v'.number (v.entry_pos c) (entry_width v.fat_type) =
      v.number (v.entry_pos c) (entry_width v.fat_type)) : v'.entry c = v.entry c := by
  unfold Volume.entry
  rw [ht, hpos]
  generalize v.fat_type = t at hnum ⊢
  cases t with
  | Fat12 =>
    dsimp only [entry_width] at hnum ⊢
    rw [hnum]
  | Fat16 => exact hnum
  | Fat32 =>
    dsimp only [entry_width] at hnum ⊢
    rw [hnum]

theorem number_stored {v : Volume} {pos n x : Nat}
    (h : ∀ p, pos ≤ p → p < pos + n → v.bytes p = (number_bytes n x).getD (p - pos) 0) :
    v.number pos n = x % 256 ^ n := by
  induction n generalizing pos x with
  | zero => simp [number, Nat.mod_one]
  | succ n ih =>
    have hrest : v.number (pos + 1) n = x / 256 % 256 ^ n := by
      apply ih
      intro p h1 h2
      rw [h p (by omega) (by omega), show p - pos = p - (pos + 1) + 1 by omega, number_bytes,
        List.getD_cons_succ]
    unfold number
    rw [h pos (by omega) (by omega), hrest, Nat.sub_self, number_bytes, List.getD_cons_zero,
      Nat.pow_succ, Nat.mul_comm (256 ^ n), Nat.mod_mul, UInt8.toNat_ofNat']

theorem InFat.entry_end (hc : v.InFat c) :
    v.entry_pos c + entry_width v.fat_type ≤ v.fat_start + v.bpb.fat_size * v.bps := by
  unfold InFat at hc
  unfold entry_pos
  omega

section

variable (hc : v.InFat c) (h : ¬ v.Straddles c)

include hc h

theorem InFat.number_put :
    (v.put c x).number (v.entry_pos c) (entry_width v.fat_type) =
      v.new_number c x % 256 ^ entry_width v.fat_type := by
  have hend := hc.entry_end
  apply number_stored
  intro p h1 h2
  rw [hc.put_first_copy h (by omega), splice_inside _ (by rw [length_number_bytes]; omega)]

/-- The values that fit into an entry. -/
def Fits (v : Volume) (x : Nat) : Prop :=
  match v.fat_type with
  | .Fat12 => x < 4096
  | .Fat16 => x < 65536
  | .Fat32 => x < 268435456

/-- The values of an entry. -/
def entry_limit (fat_type : FatType) : Nat :=
  match fat_type with
  | .Fat12 => 4096
  | .Fat16 => 65536
  | .Fat32 => 268435456

theorem InFat.entry_put : (v.put c x).entry c = x % entry_limit v.fat_type := by
  have hnum := hc.number_put h (x := x)
  unfold Volume.entry entry_limit
  rw [put_fat_type, put_entry_pos]
  unfold new_number at hnum
  cases ht : v.fat_type with
  | Fat12 =>
    rw [ht] at hnum
    change (v.put c x).number (v.entry_pos c) 2 = (if c % 2 = 1 then _ else _) % 256 ^ 2 at hnum
    dsimp only
    rw [hnum]
    split
    · omega
    · omega
  | Fat16 =>
    rw [ht] at hnum
    change (v.put c x).number (v.entry_pos c) 2 = x % 65536 % 256 ^ 2 at hnum
    dsimp only
    omega
  | Fat32 =>
    rw [ht] at hnum
    change (v.put c x).number (v.entry_pos c) 4 =
      (v.number (v.entry_pos c) 4 / 268435456 * 268435456 + x % 268435456) % 256 ^ 4 at hnum
    dsimp only
    omega

end

theorem Layout.entry_put (hl : v.Layout) (hc : c < v.bpb.total_clusters + 2)
    (h : ¬ v.Straddles c) (hx : v.Fits x) : (v.put c x).entry c = x := by
  rw [(hl.inFat hc).entry_put h]
  apply Nat.mod_eq_of_lt
  unfold Fits at hx
  unfold entry_limit
  cases ht : v.fat_type <;> simpa [ht] using hx

/-- The other entries stay. Two entries of 12 bits share a byte, of which each
has four bits. -/
theorem InFat.entry_put_ne (hc : v.InFat c) (hd : v.InFat d) (h : ¬ v.Straddles c) (hne : d ≠ c) :
    (v.put c x).entry d = v.entry d := by
  have hend := hd.entry_end
  have hnum := hc.number_put h (x := x)
  have hsame : ∀ p, v.entry_pos d ≤ p → p < v.entry_pos d + entry_width v.fat_type →
      (p < v.entry_pos c ∨ v.entry_pos c + entry_width v.fat_type ≤ p) →
      (v.put c x).bytes p = v.bytes p := by
    intro p h1 h2 h3
    rw [hc.put_first_copy h (by omega), splice_outside _ (by rw [length_number_bytes]; omega)]
  unfold Volume.entry
  rw [put_fat_type, put_entry_pos]
  unfold new_number at hnum
  unfold entry_pos at hsame hnum ⊢
  cases ht : v.fat_type with
  | Fat12 =>
    rw [ht] at hsame hnum
    dsimp only [fat_offset, entry_width] at hsame hnum ⊢
    by_cases hapart : d + d / 2 + 2 ≤ c + c / 2 ∨ c + c / 2 + 2 ≤ d + d / 2
    · rw [number_congr _ v (fun p h1 h2 => hsame p h1 h2 (by omega))]
    by_cases hodd : c % 2 = 1
    · -- `d` is the even cluster before `c`: its high bits are the low ones of the shared byte
      have hpos : v.fat_start + (c + c / 2) = v.fat_start + (d + d / 2) + 1 := by omega
      have hfirst := hsame (v.fat_start + (d + d / 2)) (by omega) (by omega) (by omega)
      rw [if_pos hodd, hpos, number_two, number_two] at hnum
      rw [if_neg (by omega), if_neg (by omega), number_two, number_two, hfirst]
      omega
    · -- `d` is the odd cluster behind `c`: its low bits are the high ones of the shared byte
      have hd : d % 2 = 1 := by omega
      have hpos : v.fat_start + (d + d / 2) = v.fat_start + (c + c / 2) + 1 := by omega
      have hsecond := hsame (v.fat_start + (c + c / 2) + 1 + 1) (by omega) (by omega) (by omega)
      rw [if_neg hodd, number_two, number_two] at hnum
      rw [if_pos hd, if_pos hd, hpos, number_two, number_two, hsecond]
      have hlow := ((v.put c x).bytes (v.fat_start + (c + c / 2))).toNat_lt
      have hlow' := (v.bytes (v.fat_start + (c + c / 2))).toNat_lt
      have hhigh' := (v.bytes (v.fat_start + (c + c / 2) + 1)).toNat_lt
      omega
  | Fat16 =>
    rw [ht] at hsame
    dsimp only [fat_offset, entry_width] at hsame ⊢
    exact number_congr _ _ (fun p h1 h2 => hsame p h1 h2 (by omega))
  | Fat32 =>
    rw [ht] at hsame
    dsimp only [fat_offset, entry_width] at hsame ⊢
    rw [number_congr _ v (fun p h1 h2 => hsame p h1 h2 (by omega))]

/-! ## Marks -/

/-- The number of a cluster fits into an entry and is not taken for a mark. -/
theorem Layout.number (hl : v.Layout) (hc : v.InRange c) :
    v.Fits c ∧ is_eoc v.fat_type c = false := by
  have hcount := hl.count
  obtain ⟨_, hc⟩ := hc
  unfold Fits
  cases ht : v.fat_type with
  | Fat12 =>
    have hlt : v.bpb.total_clusters < 4085 := by
      unfold fat_type BiosParameterBlock.fat_type at ht
      split at ht
      · assumption
      · split at ht <;> cases ht
    simp only [is_eoc, decide_eq_false_iff_not]
    omega
  | Fat16 =>
    have hlt : v.bpb.total_clusters < 65525 := by
      unfold fat_type BiosParameterBlock.fat_type at ht
      split at ht
      · cases ht
      · split at ht
        · assumption
        · cases ht
    simp only [is_eoc, decide_eq_false_iff_not]
    omega
  | Fat32 =>
    simp only [is_eoc, decide_eq_false_iff_not]
    omega

theorem fits_eoc (v : Volume) : v.Fits (eoc v.fat_type) := by
  unfold Fits
  cases v.fat_type <;> decide

variable (fat_type : FatType)

theorem is_eoc_eoc : is_eoc fat_type (eoc fat_type) = true := by
  cases fat_type <;> rfl

theorem eoc_ne_zero : eoc fat_type ≠ 0 := by
  cases fat_type <;> decide

theorem is_eoc_zero : is_eoc fat_type 0 = false := by
  cases fat_type <;> rfl

/-! ## Free clusters -/

/-- The free clusters, in the order in which `allocate_cluster` hands them out. -/
def free (v : Volume) : List Nat :=
  (List.range' 2 v.bpb.total_clusters).filter (fun c => v.entry c = 0)

theorem mem_free : c ∈ v.free ↔ v.InRange c ∧ v.entry c = 0 := by
  unfold free InRange
  rw [List.mem_filter, List.mem_range'_1, decide_eq_true_iff]
  omega

theorem Layout.free_filter (hl : v.Layout) (hc : v.InRange c) (h : ¬ v.Straddles c) (hx : v.Fits x)
    (hne : x ≠ 0) : (v.put c x).free = v.free.filter (fun d => d ≠ c) := by
  unfold free
  rw [List.filter_filter]
  apply List.filter_congr
  intro d hd
  have hd : d < v.bpb.total_clusters + 2 := by
    rw [put_bpb, List.mem_range'_1] at hd
    omega
  by_cases hdc : d = c
  · subst hdc
    simp [hl.entry_put hc.2 h hx, hne]
  · simp [(hl.inFat hc.2).entry_put_ne (hl.inFat hd) h hdc, hdc]

/-- An entry that is not 0 and stays so. -/
theorem Layout.free_put (hl : v.Layout) (hc : v.InRange c) (h : ¬ v.Straddles c) (hx : v.Fits x)
    (hne : x ≠ 0) (hused : v.entry c ≠ 0) : (v.put c x).free = v.free := by
  rw [hl.free_filter hc h hx hne, List.filter_eq_self]
  intro d hd
  have hdc : d ≠ c := fun h0 => hused (h0 ▸ (mem_free.mp hd).2)
  simpa using hdc

theorem Layout.free_take (hl : v.Layout) {rest : List Nat} (hfree : v.free = c :: rest)
    (h : ¬ v.Straddles c) (hx : v.Fits x) (hne : x ≠ 0) : (v.put c x).free = rest := by
  have hc : v.InRange c := (mem_free.mp (by rw [hfree]; exact List.mem_cons_self)).1
  have hnodup : v.free.Nodup := List.Nodup.filter _ List.nodup_range'
  rw [hfree] at hnodup
  rw [hl.free_filter hc h hx hne, hfree, List.filter_cons_of_neg (by simp), List.filter_eq_self]
  intro d hd
  have hdc : d ≠ c := fun h0 => (List.nodup_cons.mp hnodup).1 (h0 ▸ hd)
  simpa using hdc

end Volume

namespace FatFileSystemInner

variable (s : FatFileSystemInner)

open Volume

theorem ends_write_entry (c x : Nat) :
    Ends (write_entry c x s) (fun _ s' => s'.volume = s.volume.put c x)
      (fun e _ => Hard e ∧ (s.volume.Faulty ∨ s.volume.Unwritable c)) := by
  have hfar : UInt64.size ≤ s.volume.sector_pos (s.volume.entry_sector c) →
      s.volume.Unwritable c := fun hbig =>
    Or.inr ⟨0, s.volume.num_fats_pos, Or.inr (by rw [Nat.zero_mul]; exact hbig)⟩
  unfold write_entry
  rw [get_bind]
  refine ends_then (s.ends_u32 _) (fun _ _ h => ⟨h.1, Or.inr (Or.inl h.2.1)⟩) ?_
  rintro off s1 ⟨rfl, rfl⟩
  refine ends_then (s1.ends_read_sector (s1.volume.entry_sector c))
    (fun _ _ h => ⟨h.1, h.2.2.imp_right hfar⟩) ?_
  rintro buf s2 ⟨hv2, rfl⟩
  refine ends_then (s2.ends_write_sector (s1.volume.entry_sector c) _)
    (fun _ _ h => ?_) ?_
  · rw [hv2] at h
    exact ⟨h.1, h.2.2.imp_right hfar⟩
  intro _ s3 hv3
  -- the invariant: the copies up to here are written
  refine (ends_each (fun done s' => s'.volume =
    { s1.volume with bytes := applyWrites (s1.volume.copies c x (0 :: done)) s1.volume.bytes })
      (E := fun e _ => Hard e ∧ (s1.volume.Faulty ∨ s1.volume.Unwritable c)) ?_ ?_).mono_ok ?_
  · rw [hv3, hv2]
    unfold copies
    rw [List.map_singleton, Nat.zero_mul]
    rfl
  · intro done i rest s4 his hv4
    have hi := List.mem_of_range'_eq_append_cons his
    have hi : i < s1.volume.bpb.num_fats.toNat := by
      rw [List.mem_range'_1] at hi
      change i < s1.bpb.num_fats.toNat
      omega
    refine ends_then (s4.ends_u32 _)
      (fun _ _ h => ⟨h.1, Or.inr (Or.inr ⟨i, hi, Or.inl h.2.1⟩)⟩) ?_
    rintro mirror s5 ⟨rfl, rfl⟩
    refine (s5.ends_write_sector _ _).mono ?_ ?_
    · intro _ s6 hv6
      rw [hv6, hv4]
      unfold copies
      rw [← List.cons_append, List.map_append, applyWrites_append]
      rfl
    · intro _ s6 h6
      rw [hv4] at h6
      exact ⟨h6.1, h6.2.2.imp_right (fun hbig => Or.inr ⟨i, hi, Or.inr hbig⟩)⟩
  · intro _ s4 hv4
    have hall : 0 :: List.range' 1 (s1.bpb.num_fats.toNat - 1) =
        List.range s1.volume.bpb.num_fats.toNat := by
      have hpos := s1.volume.num_fats_pos
      rw [List.range_eq_range', show s1.volume.bpb.num_fats.toNat =
        (s1.bpb.num_fats.toNat - 1) + 1 from (Nat.sub_add_cancel hpos).symm, List.range'_succ]
    rw [hv4, hall]
    rfl

/-- The search finds the first cluster whose entry is 0, or leaves the volume as it is. -/
theorem ends_allocate_in (clusters : List Nat) :
    Ends (allocate_in clusters s)
      (fun c s' => ∃ rest, clusters.filter (fun d => s.volume.entry d = 0) = c :: rest ∧
        s'.volume = s.volume.put c (eoc s.volume.fat_type))
      (fun e s' => Hard e ∨ s'.volume = s.volume) := by
  induction clusters generalizing s with
  | nil => exact Or.inr rfl
  | cons d clusters ih =>
    unfold allocate_in
    rw [get_bind]
    refine ends_then (s.ends_read_entry d) (fun _ _ h => Or.inr h.1) ?_
    rintro n s1 ⟨hv, rfl⟩
    rw [← hv]
    split
    · rename_i hfree
      refine ends_then (s1.ends_write_entry d _) (fun _ _ h => Or.inl h.1) ?_
      intro _ s2 hv2
      refine ends_pure ⟨_, List.filter_cons_of_pos ?_, ?_⟩
      · simpa [FAT_FREE] using hfree
      · rw [hv2, hv]
        rfl
    · rename_i hused
      refine (ih s1).mono_ok ?_
      rintro c s2 ⟨rest, hrest, hv2⟩
      refine ⟨rest, ?_, hv2⟩
      rw [List.filter_cons_of_neg (by simpa [FAT_FREE] using hused)]
      exact hrest

theorem ends_allocate_cluster :
    Ends (allocate_cluster s) (fun c s' => ∃ rest, s.volume.free = c :: rest ∧
        s'.volume = s.volume.put c (eoc s.volume.fat_type))
      (fun e s' => Hard e ∨ s'.volume = s.volume) := by
  unfold allocate_cluster
  rw [get_bind]
  refine ends_then (s.ends_u32 _) (fun _ _ h => Or.inl h.1) ?_
  rintro _ s1 ⟨_, rfl⟩
  exact s1.ends_allocate_in _

end FatFileSystemInner

end zenos_kernel.disk.fs.fat
