-- What `sync_superblock` writes. The copy of a group goes to the block
-- `group * blocks_per_grp`, which is the first block of the group only when
-- `first_data_blk` is 0.
import Zenos.Ext2.Geometry
import Mathlib.Data.Nat.Log
import Mathlib.Tactic.Ring

namespace zenos_kernel.disk.fs.ext2

open Bytes Outcome

/-! ## The groups with a copy -/

namespace Ext2FSInner

theorem fuel_le {base power fuel : Nat} (hbase : 2 ≤ base) :
    power * 2 ^ (fuel + 1) ≤ power * base * 2 ^ fuel :=
  calc power * 2 ^ (fuel + 1) = power * 2 * 2 ^ fuel := by ring
    _ ≤ power * base * 2 ^ fuel := by gcongr

/-- The loop goes no further: the power is not below the group, or the product does not fit. -/
def Stopped (base group power : Nat) : Prop :=
  power < UInt32.size ∧ (group ≤ power ∨ UInt32.size ≤ power * base)

theorem power_loop_stopped {base group : Nat} (hbase : 2 ≤ base) {fuel power : Nat}
    (hpower : 0 < power) (hsize : power < UInt32.size) (hfuel : group ≤ power * 2 ^ fuel) :
    Stopped base group (power_loop base group fuel power) := by
  induction fuel generalizing power with
  | zero => exact ⟨hsize, Or.inl (by simpa [power_loop] using hfuel)⟩
  | succ fuel ih =>
    rw [power_loop]
    split
    · split
      · rename_i hproduct
        exact ih (Nat.mul_pos hpower (by omega)) hproduct (hfuel.trans (fuel_le hbase))
      · exact ⟨hsize, Or.inr (by omega)⟩
    · exact ⟨hsize, Or.inl (by omega)⟩

/-- The loop stops at the first product that is not below `group`. With `fuel`
turns it passes all of them, since each turn multiplies by at least 2. -/
theorem power_loop_eq {base group : Nat} (hbase : 2 ≤ base) (hgroup : group < UInt32.size)
    {fuel power : Nat} (hpower : 0 < power) (hfuel : group ≤ power * 2 ^ fuel) :
    power_loop base group fuel power = group ↔ ∃ j, power * base ^ j = group := by
  have hpow : ∀ j, 1 ≤ base ^ j := fun j => Nat.one_le_pow _ _ (by omega)
  have hstop : ∀ power, group ≤ power → (power = group ↔ ∃ j, power * base ^ j = group) := by
    intro power hle
    constructor
    · rintro rfl
      exact ⟨0, by simp⟩
    · rintro ⟨j, rfl⟩
      exact Nat.le_antisymm (Nat.le_mul_of_pos_right _ (hpow j)) hle
  induction fuel generalizing power with
  | zero => exact hstop power (by simpa using hfuel)
  | succ fuel ih =>
    rw [power_loop]
    by_cases hlt : power < group
    · rw [if_pos hlt]
      -- a power that equals the group is one of the products still to come
      have hnext : (∃ j, power * base ^ j = group) ↔ ∃ j, power * base * base ^ j = group := by
        constructor
        · rintro ⟨j, hj⟩
          cases j with
          | zero => simp at hj; omega
          | succ j => exact ⟨j, by rw [← hj]; ring⟩
        · rintro ⟨j, hj⟩
          exact ⟨j + 1, by rw [← hj]; ring⟩
      split
      · rw [hnext]
        exact ih (Nat.mul_pos hpower (by omega)) (hfuel.trans (fuel_le hbase))
      constructor
      · intro h
        omega
      · rw [hnext]
        rintro ⟨j, hj⟩
        have hle : power * base ≤ group := by
          rw [← hj]
          exact Nat.le_mul_of_pos_right _ (hpow j)
        omega
    · rw [if_neg hlt]
      exact hstop power (Nat.le_of_not_lt hlt)

theorem has_superblock_backup_eq (group : UInt32) :
    has_superblock_backup group = true ↔ SparseGroup group.toNat := by
  have hloop : ∀ base ∈ [3, 5, 7], power_loop base group.toNat 32 base = group.toNat ↔
      ∃ k, group.toNat = base ^ (k + 1) := by
    intro base hb
    have hbase : 3 ≤ base := by
      simp only [List.mem_cons, List.not_mem_nil, or_false] at hb
      omega
    rw [power_loop_eq (by omega) group.toNat_lt_size (by omega)]
    · exact exists_congr (fun k => by rw [pow_succ', eq_comm])
    · have h1 := group.toNat_lt_size
      have h2 : UInt32.size = 2 ^ 32 := rfl
      omega
  unfold has_superblock_backup SparseGroup
  by_cases h : group = 0 ∨ group = 1
  · rw [if_pos h]
    simp only [true_iff]
    rcases h with rfl | rfl
    · exact Or.inl rfl
    · exact Or.inr (Or.inl rfl)
  · rw [if_neg h, List.any_eq_true]
    have h0 : group.toNat ≠ 0 := fun h0 => h (Or.inl (UInt32.toNat.inj h0))
    have h1 : group.toNat ≠ 1 := fun h1 => h (Or.inr (UInt32.toNat.inj h1))
    simp only [h0, h1, false_or, beq_iff_eq]
    exact exists_congr (fun base => and_congr_right (hloop base))

/-- With 32 turns or more each loop has come to its end, and the answer is exact. -/
theorem backup_groups_are_sparse (group : UInt32) :
    (∀ base ∈ [3, 5, 7], ∀ fuel ≥ 32,
      Stopped base group.toNat (power_loop base group.toNat fuel base)) ∧
    (has_superblock_backup group = true ↔ SparseGroup group.toNat) := by
  refine ⟨fun base hbase fuel hfuel => ?_, has_superblock_backup_eq group⟩
  have h3 : 3 ≤ base ∧ base ≤ 7 := by
    simp only [List.mem_cons, List.not_mem_nil, or_false] at hbase
    omega
  have hlt := group.toNat_lt_size
  have hpow : UInt32.size ≤ 2 ^ fuel := Nat.pow_le_pow_right Nat.two_pos hfuel
  refine power_loop_stopped (by omega) (by omega) (Nat.lt_of_le_of_lt h3.2 (by decide)) ?_
  calc group.toNat ≤ 1 * 2 ^ fuel := by omega
    _ ≤ base * 2 ^ fuel := Nat.mul_le_mul_right _ (by omega)

end Ext2FSInner

/-! ## The writes -/

namespace Volume

variable (v : Volume) (now : UInt64)

/-- The superblock that is written for a group at time `now`. -/
def copy_of (group : UInt32) : Ext2Superblock :=
  { v.superblock with wrt_time := now.toUInt32, block_group_nr := group.toUInt16 }

/-- The writes of the copies for the groups. -/
def copies (groups : List UInt32) : List (Nat × List UInt8) :=
  groups.map (fun group => (Ext2FSInner.superblock_offset v.partition_offset v.superblock group,
    (v.copy_of now group).serialize))

/-- The writes of `sync_superblock` at time `now`, in order. -/
def sync_writes : List (Nat × List UInt8) :=
  match Ext2FSInner.total_groups v.superblock with
  | none => []
  | some total =>
    v.copies now (Ext2FSInner.superblock_groups v.superblock total) ++
    [(Ext2FSInner.bgdt_offset v.partition_offset v.superblock,
      Ext2FSInner.bgdt_bytes v.block_group_descriptors)]

/-- The volume after some of the writes. -/
def synced (nr : UInt16) (ws : List (Nat × List UInt8)) : Volume :=
  { v with
    superblock := { v.superblock with wrt_time := now.toUInt32, block_group_nr := nr }
    bytes := applyWrites ws v.bytes }

end Volume

namespace Ext2FSInner

theorem sync_writes_eq {s : Ext2FSInner} {total : Nat} (h : total_groups s.superblock = some total)
    (now : UInt64) : s.volume.sync_writes now =
      s.volume.copies now (superblock_groups s.superblock total) ++
        [(bgdt_offset s.partition_offset s.superblock, bgdt_bytes s.block_group_descriptors)] := by
  change (match total_groups s.superblock with | none => _ | some total => _) = _
  rw [h]
  rfl

variable {ws : List (Nat × List UInt8)} {now : UInt64}

theorem volume_set_nr {s0 s : Ext2FSInner} {nr : UInt16}
    (hs : s.volume = s0.volume.synced now nr ws) (nr' : UInt16) :
    (s.set_block_group_nr nr').volume = s0.volume.synced now nr' ws := by
  have hsb : s.superblock = (s0.volume.synced now nr ws).superblock := congrArg (·.superblock) hs
  change ({ s.volume with superblock := { s.superblock with block_group_nr := _ } } : Volume) = _
  rw [hs, hsb]
  rfl

theorem ends_sync_copy {s0 s : Ext2FSInner} {nr : UInt16}
    (hs : s.volume = s0.volume.synced now nr ws) (group : UInt32) :
    Ends (sync_copy group s) (fun _ s' => s'.volume = s0.volume.synced now group.toUInt16 (ws ++
        [(superblock_offset s0.partition_offset s0.superblock group,
          (s0.volume.copy_of now group).serialize)]))
      (fun _ s' => s'.volume = s0.volume.synced now group.toUInt16 ws ∧ (s0.volume.Faulty ∨
        UInt64.size ≤ superblock_offset s0.partition_offset s0.superblock group)) := by
  unfold sync_copy
  rw [modify_bind]
  have hv1 := volume_set_nr hs group.toUInt16
  generalize s.set_block_group_nr group.toUInt16 = s1 at hv1 ⊢
  rw [get_bind]
  have hpo : s1.partition_offset = s0.partition_offset := congrArg (·.partition_offset) hv1
  have hsb : s1.superblock = s0.volume.copy_of now group := congrArg (·.superblock) hv1
  have hoff : superblock_offset s1.partition_offset s1.superblock group =
      superblock_offset s0.partition_offset s0.superblock group := by
    rw [hpo, hsb]
    rfl
  rw [hoff, hsb]
  refine ends_then (s1.ends_u64 _) ?_ ?_
  · rintro _ _ ⟨hn, rfl⟩
    exact ⟨hv1, Or.inr hn⟩
  rintro _ _ ⟨rfl, rfl⟩
  refine (ends_write_at _ _ _).mono ?_ ?_
  · intro _ s' h
    rw [h, hv1]
    unfold Volume.synced
    rw [applyWrites_append]
    rfl
  · rintro _ s' ⟨h, hf⟩
    rw [h]
    rw [hv1] at hf
    exact ⟨hv1, Or.inl hf⟩

variable (s : Ext2FSInner)

theorem ends_get_superblock_groups :
    Ends (get_superblock_groups s)
      (fun groups s' => s' = s ∧ ∃ total, total_groups s.superblock = some total ∧
        groups = superblock_groups s.superblock total)
      (fun _ s' => s' = s ∧ total_groups s.superblock = none) := by
  unfold get_superblock_groups
  rw [get_bind]
  cases h : total_groups s.superblock with
  | none => exact ⟨rfl, rfl⟩
  | some total => exact ⟨rfl, total, rfl, rfl⟩

theorem ends_sync_bgdt :
    Ends (sync_bgdt s)
      (fun _ s' => s'.volume = s.volume.write (bgdt_offset s.partition_offset s.superblock)
        (bgdt_bytes s.block_group_descriptors))
      (fun _ s' => s'.volume = s.volume ∧ (s.volume.Faulty ∨
        UInt64.size ≤ bgdt_offset s.partition_offset s.superblock)) := by
  unfold sync_bgdt
  rw [get_bind]
  refine ends_then (s.ends_u64 _) ?_ ?_
  · rintro _ _ ⟨hn, rfl⟩
    exact ⟨rfl, Or.inr hn⟩
  · rintro _ _ ⟨rfl, rfl⟩
    refine (ends_write_at _ _ _).mono_error ?_
    rintro _ s' ⟨h, hf⟩
    exact ⟨h, Or.inl hf⟩

/-- A run of `sync_superblock` makes the writes in order. It stops early only at
a device error or when a number does not fit. -/
theorem ends_sync_superblock :
    Ends (sync_superblock s) (fun _ s' => (∃ total, total_groups s.superblock = some total) ∧
        s'.volume = s.volume.synced (s.clock s.readings) 0
          (s.volume.sync_writes (s.clock s.readings)))
      (fun _ s' => (∃ nr k, s'.volume = s.volume.synced (s.clock s.readings) nr
          ((s.volume.sync_writes (s.clock s.readings)).take k)) ∧
        (s.volume.Faulty ∨ total_groups s.superblock = none ∨
          ∃ w ∈ s.volume.sync_writes (s.clock s.readings), UInt64.size ≤ w.1)) := by
  unfold sync_superblock
  rw [current_time_bind, modify_bind]
  generalize s.clock s.readings = now
  have hv1 : (s.tick.set_wrt_time now.toUInt32).volume =
      s.volume.synced now s.superblock.block_group_nr [] := rfl
  generalize s.tick.set_wrt_time now.toUInt32 = s1 at hv1 ⊢
  have hsb1 : s1.superblock = { s.superblock with wrt_time := now.toUInt32 } :=
    congrArg (·.superblock) hv1
  refine ends_then s1.ends_get_superblock_groups ?_ ?_
  · rintro _ _ ⟨rfl, hnone⟩
    rw [hsb1] at hnone
    exact ⟨⟨_, 0, hv1⟩, Or.inr (Or.inl hnone)⟩
  rintro groups _ ⟨rfl, total, htotal, hgroups⟩
  rw [hsb1] at htotal hgroups
  have htotal' : total_groups s.superblock = some total := htotal
  have hgroups' : groups = superblock_groups s.superblock total := hgroups
  -- the writes for the groups, and then the descriptor table
  rw [sync_writes_eq htotal', ← hgroups']
  refine ends_bind (ends_each
    (fun done s' => ∃ nr, s'.volume = s.volume.synced now nr (s.volume.copies now done)) ⟨_, hv1⟩ ?_) ?_
  · rintro done group rest s2 hsplit ⟨nr, hv2⟩
    refine (ends_sync_copy hv2 group).mono ?_ ?_
    · intro _ s3 hv3
      refine ⟨group.toUInt16, hv3.trans ?_⟩
      simp [Volume.copies, volume]
    rintro _ s3 ⟨hv3, hwhy⟩
    refine ⟨⟨group.toUInt16, done.length, ?_⟩, ?_⟩
    · rw [hv3, hsplit]
      simp [Volume.copies]
    · rcases hwhy with hf | hover
      · exact Or.inl hf
      · refine Or.inr (Or.inr ⟨_, List.mem_append_left _ (List.mem_map.mpr ⟨group, ?_, rfl⟩), hover⟩)
        simp [hsplit]
  · rintro _ s2 ⟨nr, hv2⟩
    rw [modify_bind]
    have hv3 := volume_set_nr hv2 0
    generalize s2.set_block_group_nr 0 = s3 at hv3 ⊢
    have hpo : s3.partition_offset = s.partition_offset := congrArg (·.partition_offset) hv3
    have hsb : s3.superblock = _ := congrArg (·.superblock) hv3
    have hd : s3.block_group_descriptors = s.block_group_descriptors :=
      congrArg (·.block_group_descriptors) hv3
    have hoff : bgdt_offset s3.partition_offset s3.superblock =
        bgdt_offset s.partition_offset s.superblock := by
      rw [hpo, hsb]
      rfl
    refine s3.ends_sync_bgdt.mono ?_ ?_
    · intro _ s' h
      refine ⟨⟨total, htotal'⟩, ?_⟩
      rw [h, hv3, hoff, hd]
      unfold Volume.synced
      rw [applyWrites_append]
      rfl
    · rintro _ s' ⟨h, hwhy⟩
      rw [hoff, hv3] at hwhy
      refine ⟨⟨(0 : UInt16), (s.volume.copies now groups).length, ?_⟩, ?_⟩
      · rw [h, hv3]
        simp
      · rcases hwhy with hf | hover
        · exact Or.inl hf
        · exact Or.inr (Or.inr ⟨_, List.mem_append_right _ (List.mem_singleton_self _), hover⟩)

end Ext2FSInner

/-! ## Where the metadata is -/

open Ext2FSInner

/-- A superblock that passed `validate`, and as many descriptors as groups. -/
structure Mounted (s : Ext2FSInner) : Prop where
  valid : s.superblock.validate = .ok ()
  groups : total_groups s.superblock = some s.block_group_descriptors.length

theorem length_bgdt_bytes (ds : List BlockGroupDescriptorTable) :
    (bgdt_bytes ds).length = 32 * ds.length := by
  simp [bgdt_bytes, BlockGroupDescriptorTable.length_serialize, BGDT_ENTRY_SIZE,
    List.map_const', Nat.mul_comm]

variable {total : Nat} {sb : Ext2Superblock}

theorem total_groups_some (h : total_groups sb = some total) :
    0 < sb.blocks_per_grp.toNat ∧ total * sb.blocks_per_grp.toNat < UInt32.size ∧
      total < UInt32.size := by
  unfold total_groups at h
  split at h
  · cases h
  rename_i hno
  have hpos : 0 < sb.blocks_per_grp.toNat := by
    refine Nat.pos_of_ne_zero (fun h0 => hno (Or.inr ?_))
    exact UInt32.toNat.inj h0
  cases h
  have hle := Nat.div_mul_le_self (sb.blk_count.toNat + sb.blocks_per_grp.toNat - 1)
    sb.blocks_per_grp.toNat
  have hmul := Nat.le_mul_of_pos_right
    ((sb.blk_count.toNat + sb.blocks_per_grp.toNat - 1) / sb.blocks_per_grp.toNat) hpos
  omega

theorem mem_superblock_groups (htotal : total < UInt32.size) (group : UInt32) :
    group ∈ superblock_groups sb total ↔
      group.toNat < total ∧ (is_sparse sb = false ∨ SparseGroup group.toNat) := by
  unfold superblock_groups
  rw [List.mem_filter, List.mem_map, ← has_superblock_backup_eq]
  refine and_congr ?_ (by simp)
  constructor
  · rintro ⟨g, hg, rfl⟩
    have hg := List.mem_range.mp hg
    rw [UInt32.toNat_ofNat_of_lt' (by omega)]
    exact hg
  · intro h
    exact ⟨group.toNat, List.mem_range.mpr h, UInt32.ofNat_toNat⟩

variable {s : Ext2FSInner}

theorem superblock_offset_eq (v : Volume) {g : Nat} (hg : g < UInt32.size) :
    superblock_offset v.partition_offset v.superblock (UInt32.ofNat g) =
      v.geometry.copy_at g := by
  have hn : (UInt32.ofNat g).toNat = g := UInt32.toNat_ofNat_of_lt' hg
  have h0 : UInt32.ofNat g = 0 ↔ g = 0 := by rw [← UInt32.toNat_inj, hn, UInt32.toNat_zero]
  unfold superblock_offset Geometry.copy_at
  simp only [h0, hn]
  rfl

/-- The bytes that `sync_superblock` writes to. -/
theorem covered_sync_writes
    (htotal : total_groups s.superblock = some s.block_group_descriptors.length) (now : UInt64)
    (i : Nat) : Covered (s.volume.sync_writes now) i ↔ s.volume.geometry.SyncByte i := by
  obtain ⟨hpos, hfit, hle⟩ := total_groups_some htotal
  rw [sync_writes_eq htotal]
  unfold Covered Volume.copies Geometry.SyncByte
  rw [show s.volume.geometry.groups.length = s.block_group_descriptors.length from
    List.length_map _]
  simp only [List.mem_append, List.mem_map, List.mem_singleton, or_and_right, exists_or]
  refine or_congr ?_ ?_
  · constructor
    · rintro ⟨w, ⟨group, hgroup, rfl⟩, h1, h2⟩
      obtain ⟨hlt, hcopy⟩ := (mem_superblock_groups hle group).mp hgroup
      rw [Ext2Superblock.length_serialize] at h2
      have hoff := superblock_offset_eq s.volume group.toNat_lt_size
      rw [UInt32.ofNat_toNat] at hoff
      dsimp only at h1 h2
      rw [hoff] at h1 h2
      exact ⟨group.toNat, hlt, hcopy, h1, h2⟩
    · rintro ⟨g, hlt, hcopy, h1, h2⟩
      have hg : (UInt32.ofNat g).toNat = g := UInt32.toNat_ofNat_of_lt' (by omega)
      rw [← superblock_offset_eq s.volume (by omega)] at h1 h2
      refine ⟨_, ⟨UInt32.ofNat g, (mem_superblock_groups hle _).mpr ?_, rfl⟩, h1, ?_⟩
      · rw [hg]
        exact ⟨hlt, hcopy⟩
      · rw [Ext2Superblock.length_serialize]
        exact h2
  · rw [exists_eq_left, length_bgdt_bytes]
    rfl

/-- The first data block that a volume of the block size has. -/
def FirstDataBlock (s : Ext2FSInner) : Prop :=
  s.superblock.first_data_blk = if s.bs = 1024 then 1 else 0

/-- The groups start at multiples of `blocks_per_grp`, or there is no group but
the first, or the copies of groups of one block fall on each other. -/
def SyncSafe (s : Ext2FSInner) : Prop :=
  s.bs ≠ 1024 ∨ s.block_group_descriptors.length ≤ 1 ∨
    (s.superblock.blocks_per_grp = 1 ∧
      (is_sparse s.superblock = false ∨ s.block_group_descriptors.length ≤ 3))

/-- A sparse group above 1 has an odd number. -/
theorem sparseGroup_odd {g : Nat} (h : SparseGroup g) (h0 : g ≠ 0) : g % 2 = 1 := by
  rcases h with h | h | ⟨base, hbase, k, rfl⟩
  · exact absurd h h0
  · rw [h]
  · have hodd : base % 2 = 1 := by
      simp only [List.mem_cons, List.not_mem_nil, or_false] at hbase
      omega
    simp [Nat.pow_mod, hodd]

theorem group_start_eq (hfirst : FirstDataBlock s) (g : Nat) :
    s.volume.geometry.group_start g = s.partition_offset + ((if s.bs = 1024 then 1 else 0) +
      g * s.superblock.blocks_per_grp.toNat) * s.superblock.block_size.toNat := by
  change _ + (s.superblock.first_data_blk.toNat + _) * _ = _
  rw [hfirst, apply_ite UInt32.toNat]
  rfl

/-- In a safe volume every byte that is written belongs to the metadata. -/
theorem metadata_of_covered (hm : Mounted s) (hfirst : FirstDataBlock s) (hsafe : SyncSafe s)
    {now : UInt64} {i : Nat} (h : Covered (s.volume.sync_writes now) i) :
    s.volume.geometry.MetadataByte i := by
  have hfit := total_groups_some hm.groups
  have hlen : s.volume.geometry.groups.length = s.block_group_descriptors.length :=
    List.length_map _
  rcases (covered_sync_writes hm.groups now i).mp h with ⟨g, hlt, hcopy, h1, h2⟩ | hbgdt
  · by_cases h0 : g = 0
    · subst h0
      exact Or.inl ⟨h1, h2⟩
    unfold Geometry.copy_at at h1 h2
    rw [if_neg h0] at h1 h2
    refine Or.inr (Or.inl ?_)
    by_cases hbs : s.bs = 1024
    · -- the groups start one block later, so the block is that of the group before
      rcases hsafe with hne | hle | ⟨hone, hcond⟩
      · exact absurd hbs hne
      · omega
      have hstart : s.volume.geometry.group_start (g - 1) = s.partition_offset +
          g * s.superblock.blocks_per_grp.toNat * s.superblock.block_size.toNat := by
        rw [group_start_eq hfirst, if_pos hbs, hone]
        change _ + (1 + (g - 1) * 1) * _ = _ + g * 1 * _
        rw [show 1 + (g - 1) * 1 = g * 1 by omega]
      refine ⟨g - 1, by omega, ?_, ?_⟩
      · rcases hcond with hdense | hle
        · exact Or.inl hdense
        · rcases hcopy with hdense | hsparse
          · exact Or.inl hdense
          · -- group 2 holds a copy only when every group does
            have hodd := sparseGroup_odd hsparse h0
            exact Or.inr (Or.inl (by omega))
      · rw [hstart]
        exact ⟨h1, h2⟩
    · have hstart : s.volume.geometry.group_start g = s.partition_offset +
          g * s.superblock.blocks_per_grp.toNat * s.superblock.block_size.toNat := by
        rw [group_start_eq hfirst, if_neg hbs, Nat.zero_add]
      refine ⟨g, hlt, hcopy, ?_⟩
      rw [hstart]
      exact ⟨h1, h2⟩
  · exact Or.inr (Or.inr hbgdt)

/-- The last power of 3 below the number of groups, and its successor. -/
theorem last_power_of_three (h : 2 ≤ total) : ∃ k, 3 ^ k < total ∧ total ≤ 3 * 3 ^ k := by
  refine ⟨Nat.log 3 (total - 1), ?_, ?_⟩
  · have := Nat.pow_log_le_self 3 (show total - 1 ≠ 0 by omega)
    omega
  · have := Nat.lt_pow_succ_log_self (by decide : 1 < 3) (total - 1)
    omega

theorem holdsCopy_power_of_three (G : Geometry) (k : Nat) : G.HoldsCopy (3 ^ k) := by
  cases k with
  | zero => exact Or.inr (Or.inr (Or.inl rfl))
  | succ k => exact Or.inr (Or.inr (Or.inr ⟨3, by simp, k, rfl⟩))

/-- In an unsafe volume the last byte of some copy lies in no metadata. -/
theorem covered_of_unsafe (hm : Mounted s) (hfirst : FirstDataBlock s) (hbad : ¬ SyncSafe s)
    (now : UInt64) : ∃ i, Covered (s.volume.sync_writes now) i ∧ ¬ s.volume.geometry.MetadataByte i := by
  have hfit := total_groups_some hm.groups
  have hbs : s.bs = 1024 := Decidable.byContradiction (fun h => hbad (Or.inl h))
  have htwo : 2 ≤ s.block_group_descriptors.length :=
    Nat.lt_of_not_le (fun h => hbad (Or.inr (Or.inl h)))
  have hrest : ¬ (s.superblock.blocks_per_grp = 1 ∧ (is_sparse s.superblock = false ∨
      s.block_group_descriptors.length ≤ 3)) := fun h => hbad (Or.inr (Or.inr h))
  have hlen : s.volume.geometry.groups.length = s.block_group_descriptors.length :=
    List.length_map _
  obtain ⟨k, hk, hk'⟩ := last_power_of_three htwo
  have hcopy := holdsCopy_power_of_three s.volume.geometry k
  generalize hg : 3 ^ k = g at hk hk' hcopy
  have hbs' : s.superblock.block_size.toNat = 1024 := hbs
  have hoff : s.volume.geometry.copy_at g =
      s.partition_offset + g * s.superblock.blocks_per_grp.toNat * 1024 := by
    unfold Geometry.copy_at
    rw [if_neg (by omega), ← hbs']
    rfl
  generalize hb : s.superblock.blocks_per_grp.toNat = b at hoff hfit
  have hgb : g ≤ g * b := Nat.le_mul_of_pos_right g hfit.1
  refine ⟨s.partition_offset + g * b * 1024 + 1023, (covered_sync_writes hm.groups now _).mpr
    (Or.inl ⟨g, by rw [hlen]; exact hk, hcopy, by rw [hoff]; omega⟩), ?_⟩
  intro hmeta
  rcases hmeta with ⟨_, h2⟩ | ⟨g', hg', hcopy', h1, h2⟩ | ⟨h1, h2⟩
  · -- only the first group has its copy there
    change _ < s.partition_offset + 1024 + 1024 at h2
    have hone : g * b ≤ 1 := by omega
    have hg1 : g = 1 := by omega
    have hb1 : b = 1 := by
      rw [hg1] at hone
      omega
    refine hrest ⟨UInt32.toNat.inj (hb.trans hb1), Or.inr ?_⟩
    omega
  · -- the copy of another group: then groups have one block, and it is the one before
    have hstart : s.volume.geometry.group_start g' = s.partition_offset + (1 + g' * b) * 1024 := by
      rw [group_start_eq hfirst, if_pos hbs, hb, hbs']
    have heq : g * b = 1 + g' * b := by omega
    have hb1 : b = 1 := by
      have hdvd : b ∣ 1 := (Nat.dvd_add_left (Dvd.intro_left g' rfl)).mp (heq ▸ Dvd.intro_left g rfl)
      exact Nat.dvd_one.mp hdvd
    subst hb1
    refine hrest ⟨UInt32.toNat.inj hb, ?_⟩
    rcases hcopy' with hdense | hsparse
    · exact Or.inl hdense
    by_cases h0 : g' = 0
    · exact Or.inr (by omega)
    · -- the number before a power of 3 is even
      have hodd := sparseGroup_odd hsparse h0
      have hg3 : g % 2 = 1 := by
        rw [← hg, Nat.pow_mod]
        simp
      omega
  · -- the descriptor table ends before the last power of 3
    have hbgdt : s.volume.geometry.bgdt_at = s.partition_offset + 2048 := by
      change s.partition_offset + (if s.superblock.block_size.toNat = 1024 then 2 else 1) *
        s.superblock.block_size.toNat = _
      rw [hbs']
      rfl
    omega

/-! ## The law -/

theorem Mounted.block_size_le (hm : Mounted s) : s.superblock.block_size.toNat ≤ 65536 := by
  have := (Ext2Superblock.valid_of_validate hm.valid).block_size
  simp only [List.mem_cons, List.not_mem_nil, or_false] at this
  omega

/-- The offsets fit in 64 bits on a disk of less than 2^63 bytes. -/
theorem sync_writes_fit (htotal : total_groups s.superblock = some s.block_group_descriptors.length)
    (hbs : s.superblock.block_size.toNat ≤ 65536) (hdisk : s.partition_offset < 0x8000000000000000)
    {now : UInt64} {w : Nat × List UInt8} (hw : w ∈ s.volume.sync_writes now) :
    w.1 < UInt64.size := by
  have hfit := total_groups_some htotal
  have hsize : UInt64.size = 0x10000000000000000 := rfl
  have hsize32 : UInt32.size = 0x100000000 := rfl
  rw [sync_writes_eq htotal] at hw
  rcases List.mem_append.mp hw with hcopy | hbgdt
  · obtain ⟨group, hgroup, rfl⟩ := List.mem_map.mp hcopy
    have hlt := ((mem_superblock_groups hfit.2.2 group).mp hgroup).1
    have hblock : group.toNat * s.superblock.blocks_per_grp.toNat ≤ UInt32.size :=
      (Nat.mul_le_mul_right _ (Nat.le_of_lt hlt)).trans (Nat.le_of_lt hfit.2.1)
    have hbyte := Nat.mul_le_mul hblock hbs
    change superblock_offset s.partition_offset s.superblock group < _
    unfold superblock_offset SUPERBLOCK_OFFSET
    split
    · omega
    · omega
  · rw [List.mem_singleton.mp hbgdt]
    unfold bgdt_offset BGDT_BLOCK_1K BGDT_BLOCK_DEFAULT
    dsimp only
    split
    · omega
    · omega

/-- On every device, `sync_superblock` changes no byte but those of the
superblock, its copies and the descriptor table, if and only if the volume is
safe. -/
theorem sync_changes_only_metadata {s : Ext2FSInner} (hm : Mounted s) (hfirst : FirstDataBlock s)
    (hdisk : s.partition_offset < 0x8000000000000000) :
    (∀ device i, ¬ s.volume.geometry.MetadataByte i →
      (final (sync_superblock { s with device := device })).device.bytes i = device.bytes i) ↔
      SyncSafe s := by
  constructor
  · intro h
    by_contra hbad
    obtain ⟨i, hcov, hmeta⟩ := covered_of_unsafe hm hfirst hbad (s.clock s.readings)
    -- two devices that differ in byte `i` cannot both keep it
    have hrun : ∀ bytes : Nat → UInt8, applyWrites (s.volume.sync_writes (s.clock s.readings)) bytes i =
        bytes i := by
      intro bytes
      have hi := h ⟨bytes, 0, 0, fun _ => false, 512⟩ i hmeta
      have hends := ends_sync_superblock { s with device := ⟨bytes, 0, 0, fun _ => false, 512⟩ }
      generalize sync_superblock { s with device := ⟨bytes, 0, 0, fun _ => false, 512⟩ } = r
        at hends hi
      cases r with
      | ok a s' =>
        have hb : s'.device.bytes = _ := congrArg (·.bytes) hends.2
        exact (congrFun hb i).symm.trans hi
      | error e s' =>
        rcases hends.2 with ⟨k, hk⟩ | hnone | ⟨w, hw, hover⟩
        · cases hk
        · exact absurd (hm.groups.symm.trans hnone) (by simp)
        · exact absurd hover (Nat.not_le_of_lt (sync_writes_fit hm.groups hm.block_size_le hdisk hw))
    have h01 := applyWrites_covered (fun _ => 0) (fun _ => 1) hcov
    rw [hrun, hrun] at h01
    cases h01
  · intro hsafe device i hmeta
    have hcov : ¬ Covered (s.volume.sync_writes (s.clock s.readings)) i :=
      fun h => hmeta (metadata_of_covered hm hfirst hsafe h)
    have hpart : ∀ k, ¬ Covered ((s.volume.sync_writes (s.clock s.readings)).take k) i := by
      intro k hk
      obtain ⟨w, hw, hi⟩ := hk
      exact hcov ⟨w, List.mem_of_mem_take hw, hi⟩
    have hends := ends_sync_superblock { s with device := device }
    refine Ends.final (P := fun s' => s'.device.bytes i = device.bytes i) (hends.mono ?_ ?_)
    · intro _ s' hs'
      have hb : s'.device.bytes = _ := congrArg (·.bytes) hs'.2
      rw [hb]
      exact applyWrites_outside _ hcov
    · intro _ s' hs'
      obtain ⟨⟨nr, k, hv⟩, _⟩ := hs'
      have hb : s'.device.bytes = _ := congrArg (·.bytes) hv
      rw [hb]
      exact applyWrites_outside _ (hpart k)

/-- The superblock of a small volume, with groups of eight blocks. -/
def smallSuperblock (log_blk_size first_data_blk blk_count free_blocks : UInt32) :
    Ext2Superblock where
  ino_count := 16
  blk_count := blk_count
  reserved_blk_count := 0
  free_blocks := free_blocks
  free_inodes := 0
  first_data_blk := first_data_blk
  log_blk_size := log_blk_size
  log_frag_size := log_blk_size
  blocks_per_grp := 8
  frags_per_grp := 8
  inodes_per_grp := 8
  mnt_time := 0
  wrt_time := 0
  mnt_count := 0
  max_mnt_count := 20
  magic := 0xEF53
  state := 1
  errors := 1
  minor_rev_level := 0
  lastcheck := 0
  checkinterval := 0
  creator_os := 0
  rev_level := 1
  res_uid := 0
  res_gid := 0
  first_ino := 11
  inode_size := 128
  block_group_nr := 0
  feature_compat := 0
  feature_incompat := 0
  feature_ro_compat := 0
  uuid := Vector.replicate 16 0
  volume_name := Vector.replicate 16 0
  last_mounted := Vector.replicate 64 0
  algo_bitmap := 0

/-- A volume of two groups on an empty device. -/
def twoGroups (log_blk_size first_data_blk : UInt32) : Ext2FSInner where
  device := ⟨fun _ => 0, 0, 0, fun _ => false, 512⟩
  partition_offset := 0
  superblock := smallSuperblock log_blk_size first_data_blk 16 0
  block_group_descriptors := List.replicate 2 ⟨3, 4, 5, 0, 0, 0, Vector.replicate 14 0⟩
  read_only := false
  clock := fun _ => 0
  readings := 0

/-- With blocks of 2048 bytes nothing but the metadata changes. -/
theorem sync_of_two_groups_is_safe :
    Mounted (twoGroups 1 0) ∧ FirstDataBlock (twoGroups 1 0) ∧ ∀ device i,
      ¬ (twoGroups 1 0).volume.geometry.MetadataByte i →
        (final (sync_superblock { twoGroups 1 0 with device := device })).device.bytes i =
          device.bytes i := by
  have hm : Mounted (twoGroups 1 0) := ⟨by rfl, by decide⟩
  have hfirst : FirstDataBlock (twoGroups 1 0) := by
    unfold FirstDataBlock
    decide
  exact ⟨hm, hfirst, (sync_changes_only_metadata hm hfirst (by decide)).mpr (Or.inl (by decide))⟩

/-- With blocks of 1024 bytes the copy of group 1 goes to block 8, the last
block of group 0. Its magic number stands there afterwards. -/
theorem sync_overwrites_the_block_before_a_group :
    ¬ ∀ (s : Ext2FSInner) (i : Nat), Mounted s → FirstDataBlock s →
      ¬ s.volume.geometry.MetadataByte i →
        (final (sync_superblock s)).device.bytes i = s.device.bytes i := by
  intro h
  have hm : Mounted (twoGroups 0 1) := ⟨by rfl, by decide⟩
  have hfirst : FirstDataBlock (twoGroups 0 1) := by
    unfold FirstDataBlock
    decide
  have hmeta : ¬ (twoGroups 0 1).volume.geometry.MetadataByte 8248 := by
    intro hmeta
    rcases hmeta with ⟨_, h2⟩ | ⟨g, hg, _, h1, h2⟩ | ⟨_, h2⟩
    · exact absurd h2 (by decide)
    · change 0 + (1 + g * 8) * 1024 ≤ 8248 at h1
      change 8248 < 0 + (1 + g * 8) * 1024 + 1024 at h2
      omega
    · exact absurd h2 (by decide)
  have hsame := h (twoGroups 0 1) 8248 hm hfirst hmeta
  have heval : (final (sync_superblock (twoGroups 0 1))).device.bytes 8248 = 0x53 := by
    decide +kernel
  rw [heval] at hsame
  cases hsame

theorem total_groups_of_layout {s : Ext2FSInner} (hG : s.volume.geometry.Layout) :
    total_groups s.superblock = some s.block_group_descriptors.length := by
  have hpos : ¬ (s.superblock.blocks_per_grp = 0) := by
    intro h0
    have h := hG.blocks_per_grp
    change 0 < s.superblock.blocks_per_grp.toNat at h
    rw [h0] at h
    exact Nat.lt_irrefl 0 h
  have hfits : ¬ (UInt32.size ≤ s.superblock.blk_count.toNat + s.superblock.blocks_per_grp.toNat) :=
    Nat.not_le_of_lt hG.fits
  have hgroups : _ = (s.block_group_descriptors.map (·.places)).length := hG.groups
  rw [List.length_map] at hgroups
  unfold total_groups
  rw [if_neg (by simp [hpos, hfits]), ← hgroups]
  rfl

end zenos_kernel.disk.fs.ext2
