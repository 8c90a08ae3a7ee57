-- What a boot sector that `validate` accepts says about the volume. The sums of the layout
-- are checked too late, the size of the table is not checked at all, and an entry of 12 bits
-- that spans two sectors is written in part.
import Zenos.Fat.Table

namespace zenos_kernel.disk.fs.fat

open Bytes Outcome FatTable

/-! ## The checks -/

namespace BiosParameterBlock

/-- What `validate` has checked when it asks for the type of the volume. -/
structure Checked (bpb : BiosParameterBlock) : Prop where
  bytes_per_sector : bpb.bytes_per_sector ∈ [512, 1024, 2048, 4096]
  sectors_per_cluster : ¬ (bpb.sectors_per_cluster = 0 ∨ 128 < bpb.sectors_per_cluster ∨
    is_power_of_two bpb.sectors_per_cluster = false)
  reserved_sector_count : bpb.reserved_sector_count ≠ 0
  num_fats : bpb.num_fats ≠ 0
  total_sectors : bpb.total_sectors ≠ 0
  fat_size : bpb.fat_size ≠ 0

theorem ite_panic {ε α : Type} {p : Prop} [Decidable p] {e : ε} {x : Except (Fault ε) α} :
    (if p then .error (.err e) else x) = .error .panic ↔ ¬ p ∧ x = .error .panic := by
  by_cases h : p
  · simp [h]
  · simp [h]

/-- `validate` panics where the difference in `fat_type` underflows. -/
theorem validate_panics_iff (bpb : BiosParameterBlock) : bpb.validate = .error .panic ↔
    bpb.Checked ∧ bpb.total_sectors < bpb.first_data_sector := by
  have hlt := bpb.total_sectors_lt
  unfold validate
  rw [ite_panic, ite_panic, ite_panic, ite_panic, ite_panic, ite_panic]
  constructor
  · rintro ⟨h1, h2, h3, h4, h5, h6, h⟩
    refine ⟨⟨Decidable.not_not.mp h1, h2, h3, h4, h5, h6⟩, ?_⟩
    split at h
    · omega
    · rw [ite_panic, ite_panic, ite_panic, ite_panic, ite_panic] at h
      cases h.2.2.2.2.2
  · rintro ⟨h, hdata⟩
    refine ⟨fun hn => hn h.1, h.2, h.3, h.4, h.5, h.6, if_pos (Or.inr hdata)⟩

/-- The checks are sound exactly on the sectors that are refused before the sums, or whose sums
are not over the sectors of the volume. -/
theorem validation_sound_iff (boot_sector : Vector UInt8 512) :
    ∃ bpb, parse boot_sector.toList = .ok bpb ∧
      ((bpb.validate ≠ .error .panic ∧ (bpb.validate = .ok () →
          bpb.first_data_sector < bpb.total_sectors)) ↔
        (bpb.Checked → bpb.first_data_sector ≤ bpb.total_sectors)) := by
  refine ⟨_, if_neg (by simp), ?_⟩
  generalize (BiosParameterBlock.mk ..) = bpb
  rw [Ne, validate_panics_iff, not_and, Nat.not_lt]
  refine and_iff_left (fun hok => ?_)
  exact (⟨fun _ => 0, fun _ => false, bpb, 0, hok⟩ : Volume).first_data_sector_lt

deriving instance DecidableEq for BiosParameterBlock

/-- One reserved sector and a table of one, on a volume of one sector. -/
def bootSector : Vector UInt8 512 :=
  Vector.ofFn fun i => if i = 12 then 2 else if i.val ∈ [13, 14, 16, 19, 22] then 1 else 0

theorem validate_underflows : parse bootSector.toList = .ok ⟨512, 1, 1, 1, 0, 1, 1, 0, 0, 0⟩ ∧
    (⟨512, 1, 1, 1, 0, 1, 1, 0, 0, 0⟩ : BiosParameterBlock).validate = .error .panic :=
  ⟨by decide +kernel, rfl⟩

end BiosParameterBlock

/-! ## Storing an entry -/

/-- The part of the entry in the second sector is not written. -/
theorem Volume.Straddles.put_eq {v : Volume} {c : Nat} (h : v.Straddles c) :
    v.put c 256 = v.put c 0 := by
  obtain ⟨ht, hlast⟩ := h
  have hsector : v.new_sector c 256 = v.new_sector c 0 := by
    have hout : ∀ (a b : UInt8) (buf : List UInt8), buf.length = v.bps →
        (buf.set (v.bps - 1) a).set (v.bps - 1 + 1) b = buf.set (v.bps - 1) a :=
      fun a b buf hlen => List.set_eq_of_length_le (by simp; omega)
    unfold Volume.new_sector set_entry
    rw [hlast, ht]
    dsimp only
    rw [hout _ _ _ (length_slice ..), hout _ _ _ (length_slice ..)]
    congr 1
    apply UInt8.toNat_inj.mp
    split
    · simp
    · simp
  unfold Volume.put Volume.entry_writes Volume.copies
  rw [hsector]

/-- An entry that does not end in the first copy depends on a byte behind it. -/
theorem Volume.exists_other_entry {v : Volume} {c : Nat} (h : ¬ v.InFat c) : ∃ b,
    (∀ p < v.fat_start + v.bpb.fat_size * v.bps, b p = v.bytes p) ∧
      ({ v with bytes := b } : Volume).entry c ≠ v.entry c := by
  let q := v.entry_pos c + (entry_width v.fat_type - 1)
  refine ⟨Function.update v.bytes q (v.bytes q + 1), fun p hp => ?_, ?_⟩
  · apply Function.update_of_ne
    unfold InFat at h
    unfold q entry_pos
    omega
  have hodd : (v.bytes q + 1).toNat % 2 ≠ (v.bytes q).toNat % 2 := by
    rw [UInt8.toNat_add, UInt8.toNat_one]
    omega
  have hpos : ∀ b, ({ v with bytes := b } : Volume).entry_pos c = v.entry_pos c := fun _ => rfl
  have htype : ∀ b, ({ v with bytes := b } : Volume).fat_type = v.fat_type := fun _ => rfl
  unfold Volume.entry
  rw [hpos, htype]
  unfold q at hodd ⊢
  cases ht : v.fat_type with
  | Fat12 =>
    simp only [entry_width, number_two] at hodd ⊢
    split
    · simp
      omega
    · simp
      omega
  | Fat16 =>
    simp [entry_width, number_two] at hodd ⊢
    omega
  | Fat32 =>
    simp [entry_width, number_four] at hodd ⊢
    omega

namespace FatFileSystemInner

open Volume

variable {s : FatFileSystemInner} {c : Nat}

theorem u32_ok {α : Type} {f : Nat → FatM α} {n : Nat} {a : α} {s' : FatFileSystemInner}
    (h : (u32 n >>= f) s = .ok a s') : n < UInt32.size := by
  unfold u32 at h
  split at h
  · assumption
  · cases h

/-- What is stored in the entry of `c` is loaded again, and the other entries stay. -/
def StoresEntry (s : FatFileSystemInner) (c : Nat) : Prop :=
  ∀ x, ∃ s', write_entry c x s = .ok () s' ∧
    (∃ s1, read_entry c s' = .ok (x % entry_limit s.volume.fat_type) s1) ∧
    ∀ d, s.volume.InFat d → d ≠ c → ∀ n s1, read_entry d s = .ok n s1 →
      ∃ s2, read_entry d s' = .ok n s2

theorem read_entry_ok (hdev : ¬ s.volume.Faulty) (hr : ¬ s.volume.Unreachable c) :
    ∃ s', read_entry c s = .ok (s.volume.entry c) s' := by
  have hends := (s.ends_read_entry c).mono (fun _ _ h => h.2) (fun _ _ h => h.2.elim hdev hr)
  obtain ⟨n, s', hok, rfl⟩ := hends.returns
  exact ⟨s', hok⟩

/-- On a device that works, a store is loaded again exactly when the entry does not span two
sectors and its offset does not overflow. -/
theorem stores_entry_iff (hdev : ¬ s.volume.Faulty)
    (hfits : s.volume.sector_pos s.volume.bpb.total_sectors < UInt64.size)
    (hc : s.volume.InFat c) : s.StoresEntry c ↔
    ¬ s.volume.Straddles c ∧ fat_offset s.volume.fat_type c < UInt32.size := by
  constructor
  · intro hlaw
    refine ⟨fun hsplit => ?_, ?_⟩
    · obtain ⟨s0, hw0, ⟨_, hr0⟩, _⟩ := hlaw 0
      obtain ⟨s1, hw1, ⟨_, hr1⟩, _⟩ := hlaw 256
      have hv0 := (s.ends_write_entry c 0).of_ok hw0
      have hv1 := (s.ends_write_entry c 256).of_ok hw1
      have he0 := ((s0.ends_read_entry c).of_ok hr0).2
      have he1 := ((s1.ends_read_entry c).of_ok hr1).2
      rw [hv1, hsplit.put_eq, ← hv0, ← he0, hsplit.1] at he1
      exact absurd he1 (by decide)
    · obtain ⟨_, hw, _⟩ := hlaw 0
      exact u32_ok hw
  · rintro ⟨hsplit, hoff⟩ x
    have hends := (s.ends_write_entry c x).mono_error
      (fun _ _ h => h.2.elim hdev (hc.writable hoff hfits))
    obtain ⟨_, s', hw, hv⟩ := hends.returns
    -- the volume is the same but for its bytes
    have hread : ∀ d, s.volume.InFat d → fat_offset s.volume.fat_type d < UInt32.size →
        ∃ s1, read_entry d s' = .ok ((s.volume.put c x).entry d) s1 := by
      intro d hd hoff
      have hr : ¬ s'.volume.Unreachable d := by
        rw [hv]
        exact hd.reachable hoff hfits
      rw [← hv]
      exact read_entry_ok (by rw [hv]; exact hdev) hr
    refine ⟨s', hw, ?_, fun d hd hne n s1 hok => ?_⟩
    · rw [← hc.entry_put hsplit]
      exact hread c hc hoff
    · have hn := ((s.ends_read_entry d).of_ok hok).2
      rw [hn, ← hc.entry_put_ne hd hsplit hne]
      exact hread d hd (u32_ok hok)

/-! ## Small volumes -/

/-- A volume of 1000 sectors with a table of `n` sectors. -/
def smallBpb (n : UInt16) : BiosParameterBlock := ⟨512, 1, 1, 1, 16, 1000, n, 0, 0, 0⟩

def small (n : UInt16) (valid : (smallBpb n).validate = .ok ()) : FatFileSystemInner :=
  ⟨⟨fun _ => 0, 0, 0, fun _ => false, 512⟩, smallBpb n, 0, none, fun _ => 0, 0, valid⟩

theorem small_works (n : UInt16) (valid : (smallBpb n).validate = .ok ()) :
    ¬ (small n valid).volume.Faulty := fun ⟨_, h⟩ => Bool.false_ne_true h

theorem entry_two_is_stored : (small 3 rfl).volume.InFat 2 ∧ (small 3 rfl).StoresEntry 2 := by
  have hin : (small 3 rfl).volume.InFat 2 := by
    unfold InFat
    decide
  refine ⟨hin, (stores_entry_iff (small_works 3 rfl) (by decide) hin).mpr ⟨?_, by decide⟩⟩
  unfold Straddles
  decide

/-- Entry 341 starts in the last byte of a sector: of 0xABC only the last digit is stored. -/
theorem entry_341_is_cut : (small 3 rfl).volume.InFat 341 ∧
    ∃ s', (write_entry 341 0xABC >>= fun _ => read_entry 341) (small 3 rfl) = .ok 0xC s' := by
  refine ⟨by unfold InFat; decide, ?_⟩
  have hpass : passes ((write_entry 341 0xABC >>= fun _ => read_entry 341) (small 3 rfl))
      (fun n _ => n == 0xC) = true := by decide +kernel
  obtain ⟨n, s', hrun, hn⟩ := exists_of_passes hpass
  rw [eq_of_beq hn] at hrun
  exact ⟨s', hrun⟩

/-! ## The place of an entry -/

/-- The same volume on a device with other bytes. -/
def with_bytes (s : FatFileSystemInner) (b : Nat → UInt8) : FatFileSystemInner :=
  { s with device := { s.device with bytes := b } }

/-- The bytes `b` are those of the volume in the first copy of the table. -/
def SameFat (s : FatFileSystemInner) (b : Nat → UInt8) : Prop :=
  ∀ p, s.volume.fat_start ≤ p → p < s.volume.fat_start + s.volume.bpb.fat_size * s.volume.bps →
    b p = s.volume.bytes p

/-- Byte `p` lies in the sector of the entry of `c`, in copy `i` of the table. -/
def InCopy (s : FatFileSystemInner) (c i p : Nat) : Prop :=
  s.volume.sector_pos (s.volume.bpb.first_fat_sector +
      fat_offset s.volume.fat_type c / s.volume.bps + i * s.volume.bpb.fat_size) ≤ p ∧
    p < s.volume.sector_pos (s.volume.bpb.first_fat_sector +
      fat_offset s.volume.fat_type c / s.volume.bps + i * s.volume.bpb.fat_size + 1)

/-- The calls on the entry of `c` use the table only. -/
structure StaysInFat (s : FatFileSystemInner) (c : Nat) : Prop where
  /-- What is read depends on the first copy alone. -/
  read : ∀ b, s.SameFat b → ∀ m n s1 s2, read_entry c s = .ok m s1 →
    read_entry c (s.with_bytes b) = .ok n s2 → n = m
  /-- So does what is stored in the sector of the entry and in its copies. -/
  stores : ∀ b, s.SameFat b → ∀ x s1 s2, write_entry c x s = .ok () s1 →
    write_entry c x (s.with_bytes b) = .ok () s2 → ∀ i < s.volume.bpb.num_fats.toNat, ∀ p,
      s.InCopy c i p → s2.volume.bytes p = s1.volume.bytes p
  /-- That sector is one of the table, and no byte outside of its copies is changed. -/
  write : ∀ x s', write_entry c x s = .ok () s' →
    fat_offset s.volume.fat_type c / s.volume.bps < s.volume.bpb.fat_size ∧
    ∀ p, s'.volume.bytes p ≠ s.volume.bytes p →
      ∃ i < s.volume.bpb.num_fats.toNat, s.InCopy c i p

/-- The arithmetic reaches the entry of a cluster of the data area. -/
theorem reachable_of_inRange (hc : s.volume.InRange c)
    (hfits : s.volume.sector_pos s.volume.bpb.total_sectors < UInt64.size)
    (hoff : fat_offset s.volume.fat_type c < UInt32.size) : ¬ s.volume.Unreachable c := by
  obtain ⟨h2, hlt⟩ := hc
  have hle : s.volume.entry_sector c + 1 ≤ s.volume.bpb.total_sectors := by
    have h4 : fat_offset s.volume.fat_type c ≤ c * 4 := by
      unfold fat_offset
      split <;> omega
    have hdiv : fat_offset s.volume.fat_type c / s.volume.bps ≤ c * 4 / 512 :=
      Nat.div_le_div h4 s.volume.bps_ge (by decide)
    have htotal := s.volume.total_clusters_le
    have hspc := Nat.le_mul_of_pos_right s.volume.bpb.total_clusters s.volume.spc_pos
    unfold BiosParameterBlock.first_data_sector at htotal
    unfold entry_sector BiosParameterBlock.first_fat_sector
    omega
  have hreach := Nat.lt_of_le_of_lt (s.volume.sector_pos_mono hle) hfits
  unfold Unreachable
  omega

/-- The sectors that are written are those of the copies. -/
theorem covered_entry_writes (x p : Nat) : Covered (s.volume.entry_writes c x) p ↔
    ∃ i < s.volume.bpb.num_fats.toNat, s.InCopy c i p := by
  unfold Covered InCopy entry_writes copies
  simp only [List.mem_map, List.mem_range, sector_pos_add _ _ 1, Nat.one_mul]
  constructor
  · rintro ⟨w, ⟨i, hi, rfl⟩, hlo, hhi⟩
    rw [length_new_sector] at hhi
    exact ⟨i, hi, hlo, hhi⟩
  · rintro ⟨i, hi, hlo, hhi⟩
    refine ⟨_, ⟨i, hi, rfl⟩, hlo, ?_⟩
    rw [length_new_sector]
    exact hhi

theorem SameFat.entry_writes_eq {b : Nat → UInt8} (h : s.SameFat b) (hc : s.volume.InFat c)
    (x : Nat) : (s.with_bytes b).volume.entry_writes c x = s.volume.entry_writes c x := by
  have hstart : s.volume.fat_start ≤ s.volume.sector_pos (s.volume.entry_sector c) :=
    s.volume.sector_pos_mono (Nat.le_add_right _ _)
  have hend : s.volume.sector_pos (s.volume.entry_sector c) + s.volume.bps ≤
      s.volume.fat_start + s.volume.bpb.fat_size * s.volume.bps := by
    have hle := record_le hc.sector_lt s.volume.bps
    unfold entry_sector fat_start sector_pos
    rw [Nat.add_mul]
    omega
  have hsector : (s.with_bytes b).volume.new_sector c x = s.volume.new_sector c x := by
    have hslice : slice b (s.volume.sector_pos (s.volume.entry_sector c)) s.volume.bps =
        slice s.volume.bytes (s.volume.sector_pos (s.volume.entry_sector c)) s.volume.bps :=
      slice_congr fun p h1 h2 => h p (Nat.le_trans hstart h1) (by omega)
    exact congrArg (set_entry s.volume.fat_type c x (fat_offset s.volume.fat_type c % s.volume.bps))
      hslice
  unfold entry_writes copies
  rw [hsector]
  rfl

/-- The calls on an entry use the table only, exactly when the entry lies in it or the offset
overflows. -/
theorem stays_in_fat_iff (hdev : ¬ s.volume.Faulty)
    (hfits : s.volume.sector_pos s.volume.bpb.total_sectors < UInt64.size)
    (hc : s.volume.InRange c) : s.StaysInFat c ↔
    (fat_offset s.volume.fat_type c < UInt32.size → s.volume.InFat c) := by
  constructor
  · intro hlaw hoff
    by_contra hout
    obtain ⟨b, hb, hne⟩ := exists_other_entry hout
    have hreach := reachable_of_inRange hc hfits hoff
    obtain ⟨s1, h1⟩ := read_entry_ok hdev hreach
    obtain ⟨s2, h2⟩ := read_entry_ok (s := s.with_bytes b) hdev hreach
    exact hne (hlaw.read b (fun p _ hp => hb p hp) _ _ _ _ h1 h2)
  · intro hin
    refine ⟨fun b hb m n s1 s2 h1 h2 => ?_, fun b hb x s1 s2 h1 h2 i hi p hp => ?_,
      fun x s' hok => ?_⟩
    · have hm := ((s.ends_read_entry c).of_ok h1).2
      have hn := (((s.with_bytes b).ends_read_entry c).of_ok h2).2
      have hc := hin (u32_ok h1)
      have hend := hc.entry_end
      have hstart : s.volume.fat_start ≤ s.volume.entry_pos c := Nat.le_add_right _ _
      rw [hm, hn]
      exact entry_congr rfl rfl
        (number_congr _ _ (fun p h1 h2 => hb p (Nat.le_trans hstart h1) (by omega)))
    · have hv1 := (s.ends_write_entry c x).of_ok h1
      have hv2 := ((s.with_bytes b).ends_write_entry c x).of_ok h2
      have hwrites := hb.entry_writes_eq (hin (u32_ok h1)) x
      rw [hv1, hv2]
      unfold put
      rw [hwrites]
      exact applyWrites_covered _ _ ((covered_entry_writes x p).mpr ⟨i, hi, hp⟩)
    · have hv := (s.ends_write_entry c x).of_ok hok
      refine ⟨(hin (u32_ok hok)).sector_lt, fun p hp => ?_⟩
      by_contra hno
      refine hp ?_
      rw [hv]
      exact applyWrites_outside _ fun h => hno ((covered_entry_writes x p).mp h)

theorem entry_two_stays_in_fat : (small 3 rfl).volume.InRange 2 ∧ (small 3 rfl).StaysInFat 2 := by
  have hrange : (small 3 rfl).volume.InRange 2 := by
    unfold InRange
    decide
  refine ⟨hrange, (stays_in_fat_iff (small_works 3 rfl) (by decide) hrange).mpr fun _ => ?_⟩
  unfold InFat
  decide

/-- A table of one sector: the entry of cluster 400 lies in the root directory. -/
theorem entry_400_is_in_the_root : (small 1 rfl).volume.InRange 400 ∧
    (small 1 rfl).volume.fat_end ≤ 1112 ∧
    ∃ s', write_entry 400 1 (small 1 rfl) = .ok () s' ∧ s'.volume.bytes 1112 = 1 ∧
      (small 1 rfl).volume.bytes 1112 = 0 := by
  refine ⟨by unfold InRange; decide, by decide, ?_⟩
  have hpass : passes (write_entry 400 1 (small 1 rfl))
      (fun _ s' => s'.volume.bytes 1112 == 1) = true := by decide +kernel
  obtain ⟨_, s', hrun, hn⟩ := exists_of_passes hpass
  exact ⟨s', hrun, eq_of_beq hn, rfl⟩

end FatFileSystemInner

end zenos_kernel.disk.fs.fat
