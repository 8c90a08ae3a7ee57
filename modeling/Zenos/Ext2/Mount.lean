-- Mounting an ext2 volume: `Ext2::mount` and `root_dir` of `ext2/mod.rs`.
import Mathlib.Algebra.Order.Floor.Div
import Zenos.Ext2.Directory
import Zenos.Ext2.Superblock

namespace zenos_kernel.disk.fs.ext2

open Outcome block Ext2FSInner vfs

namespace Ext2

abbrev MountM := EStateM (Fault FsMountError) Device

/-- A device operation: every error is a `ReadError`. -/
def reading {α : Type} (x : EStateM BlockError Device α) : MountM α := fun d =>
  match x d with
  | .ok a d' => .ok a d'
  | .error _ d' => .error (.err .ReadError) d'

/-- `seek(SeekFrom::Start(offset))` and `read_exact`. -/
def read_at (offset len : Nat) : MountM (List UInt8) :=
  if UInt64.size ≤ offset then throw .panic
  else do
    reading (Device.seek offset)
    reading (Device.read_exact len)

/-- `chunks(BGDT_ENTRY_SIZE)` of the table, deserialized. -/
def descriptors (bgdt_buf : List UInt8) : Nat → Option (List BlockGroupDescriptorTable)
  | 0 => some []
  | groups + 1 => do
    let desc ← BlockGroupDescriptorTable.deserialize (bgdt_buf.take BGDT_ENTRY_SIZE)
    let rest ← descriptors (bgdt_buf.drop BGDT_ENTRY_SIZE) groups
    pure (desc :: rest)

/-- A mount is counted, and the volume is read-only when it has features that
the driver does not know. -/
def mounted (device : Device) (partition_offset : Nat) (clock : Nat → UInt64) (readings : Nat)
    (superblock : Ext2Superblock) (descriptors : List BlockGroupDescriptorTable) :
    Ext2FSInner where
  device := device
  partition_offset := partition_offset
  superblock := { superblock with
    mnt_time := (clock readings).toUInt32
    mnt_count := if superblock.mnt_count = 0xFFFF then 0xFFFF else superblock.mnt_count + 1 }
  block_group_descriptors := descriptors
  read_only := superblock.feature_ro_compat &&& ~~~EXT2_SUPPORTED_RO_COMPAT_FEATURES != 0
  clock := clock
  readings := readings + 1

/-- The superblock is written back unless the volume is read-only. A failure of
that is only logged. -/
def first_sync (inner : Ext2FSInner) : Except (Fault FsMountError) Ext2FSInner :=
  if inner.read_only then .ok inner
  else match ignore_error sync_superblock inner with
    | .ok _ s => .ok s
    | .error _ _ => .error .panic

def mount (partition_offset : Nat) (clock : Nat → UInt64) (readings : Nat) :
    MountM Ext2FSInner := do
  let superblock_buf ← read_at (partition_offset + SUPERBLOCK_OFFSET) SUPERBLOCK_SIZE
  match Ext2Superblock.deserialize superblock_buf with
  | none => throw (.err .ParseError)
  | some superblock =>
    match superblock.validate with
    | .error e => throw (.err e)
    | .ok () =>
      match total_groups superblock with
      | none => throw .panic
      | some groups => do
        let bgdt_buf ← read_at (bgdt_offset partition_offset superblock) (groups * BGDT_ENTRY_SIZE)
        match descriptors bgdt_buf groups with
        | none => throw (.err .ParseError)
        | some descriptors => do
          let device ← get
          match first_sync (mounted device partition_offset clock readings superblock descriptors) with
          | .error e => throw e
          | .ok inner => pure inner

def root_dir : Ext2M (Inode Ext2Data) := do
  let inode_offset ← get_block_offset_for_inode_num ROOT_INODE_NUM
  let s ← get
  let buf ← Ext2FSInner.read_at inode_offset s.superblock.inode_size.toNat
  match Ext2Inode.deserialize buf with
  | none => throw (.err (.Other "Error Parsing Inode"))
  | some ino =>
    convert_ext2_inode_to_vfs_inode ino ROOT_INODE_NUM.toUInt64 (.dir ino ROOT_INODE_NUM)

/-- There is one volume, so there is nothing to name it by. -/
instance : FileSystem Unit Ext2FSInner Ext2Data := ⟨fun _ => root_dir⟩

/-! ## What a mount ends in -/

theorem keeps_reading {α : Type} {x : EStateM BlockError Device α} (hx : Keeps (·.bytes) x) :
    Keeps (·.bytes) (reading x) := by
  intro d
  have h := hx d
  unfold reading
  revert h
  cases x d with
  | ok a d' => exact id
  | error e d' => exact id

theorem keeps_read_at (offset len : Nat) : Keeps (·.bytes) (read_at offset len) := by
  unfold read_at
  split
  · exact keeps_throw _
  · refine keeps_bind (keeps_reading ?_) (fun _ => keeps_reading ?_)
    · intro d
      exact (d.ends_seek offset).mono (fun _ _ h => h.1.bytes) (fun _ _ h => h.bytes)
    · intro d
      exact (d.ends_read_exact len).mono (fun _ _ h => h.1.bytes) (fun _ _ h => h.bytes)

theorem length_descriptors {buf : List UInt8} {groups : Nat} {ds : List BlockGroupDescriptorTable}
    (h : descriptors buf groups = some ds) : ds.length = groups := by
  induction groups generalizing buf ds with
  | zero =>
    cases h
    rfl
  | succ groups ih =>
    obtain ⟨desc, _, h⟩ := Option.bind_eq_some_iff.mp h
    obtain ⟨rest, hrest, h⟩ := Option.bind_eq_some_iff.mp h
    cases h
    rw [List.length_cons, ih hrest]

/-- The first sync keeps what `Mounted` says, and writes nothing when the volume
is read-only. -/
theorem first_sync_ok {inner s : Ext2FSInner} (h : first_sync inner = .ok s) (hm : Mounted inner) :
    Mounted s ∧ (s.read_only = true → s.device.bytes = inner.device.bytes) := by
  unfold first_sync at h
  split at h
  · cases h
    exact ⟨hm, fun _ => rfl⟩
  rename_i hro
  have hsynced : ∀ {s' : Ext2FSInner} {now nr ws}, s'.volume = inner.volume.synced now nr ws →
      Mounted s' ∧ (s'.read_only = true → s'.device.bytes = inner.device.bytes) := by
    intro s' now nr ws hv
    have hsb : s'.superblock = _ := congrArg (·.superblock) hv
    have hds : s'.block_group_descriptors = _ := congrArg (·.block_group_descriptors) hv
    have hro' : s'.read_only = _ := congrArg (·.read_only) hv
    refine ⟨⟨?_, ?_⟩, fun htrue => absurd (hro'.symm.trans htrue) hro⟩
    · rw [hsb]
      exact hm.valid
    · rw [hsb, hds]
      exact hm.groups
  have hends := ends_sync_superblock inner
  unfold ignore_error at h
  generalize sync_superblock inner = r at h hends
  cases r with
  | ok a s' =>
    cases h
    exact hsynced hends.2
  | error e s' =>
    obtain ⟨⟨nr, k, hv⟩, _⟩ := hends
    cases e with
    | err e =>
      cases h
      exact hsynced hv
    | panic => cases h

/-- A mount ends in a volume with a valid superblock and a descriptor for every
group. A read-only mount has written nothing. -/
theorem mount_ok {partition_offset : Nat} {clock : Nat → UInt64} {readings : Nat}
    {d d' : Device} {s : Ext2FSInner} (h : mount partition_offset clock readings d = .ok s d') :
    Mounted s ∧ (s.read_only = true → s.device.bytes = d.bytes) := by
  obtain ⟨buf, d1, h1, h⟩ := bind_ok.mp h
  have hb1 : d1.bytes = d.bytes := (keeps_read_at _ _ d).of_ok h1
  cases hsb : Ext2Superblock.deserialize buf with
  | none => rw [hsb] at h; cases h
  | some superblock =>
  rw [hsb] at h
  cases hvalid : superblock.validate with
  | error e => simp only [hvalid] at h; cases h
  | ok _ =>
  simp only [hvalid] at h
  cases hgroups : total_groups superblock with
  | none => simp only [hgroups] at h; cases h
  | some groups =>
  simp only [hgroups] at h
  obtain ⟨bgdt_buf, d2, h2, h⟩ := bind_ok.mp h
  have hb2 : d2.bytes = d1.bytes := (keeps_read_at _ _ d1).of_ok h2
  cases hds : descriptors bgdt_buf groups with
  | none => rw [hds] at h; cases h
  | some ds =>
  rw [hds] at h
  simp only [get_bind] at h
  cases hinner : first_sync (mounted d2 partition_offset clock readings superblock ds) with
  | error e => rw [hinner] at h; cases h
  | ok inner =>
  rw [hinner] at h
  obtain ⟨rfl, rfl⟩ := pure_ok.mp h
  have hm : Mounted (mounted d2 partition_offset clock readings superblock ds) := by
    refine ⟨hvalid, ?_⟩
    change total_groups superblock = some ds.length
    rw [hgroups, length_descriptors hds]
  have hsync := first_sync_ok hinner hm
  refine ⟨hsync.1, fun hro => ?_⟩
  rw [hsync.2 hro, ← hb1, ← hb2]
  rfl

end Ext2

/-! ## The number of groups -/

/-- The groups that the blocks from the first data block on fill. -/
def Ext2Superblock.groups (sb : Ext2Superblock) : Nat :=
  (sb.blk_count.toNat - sb.first_data_blk.toNat) ⌈/⌉ sb.blocks_per_grp.toNat

/-- The sum fits in 32 bits, and the blocks before the first data block do not
need a group of their own. -/
def Ext2Superblock.CountsGroups (sb : Ext2Superblock) : Prop :=
  sb.blk_count.toNat + sb.blocks_per_grp.toNat < UInt32.size ∧
    sb.first_data_blk.toNat ≤ (sb.blk_count.toNat - 1) % sb.blocks_per_grp.toNat

theorem div_eq_sub_div_iff {n f g : Nat} (hg : 0 < g) (hf : f ≤ n) :
    n / g = (n - f) / g ↔ f ≤ n % g := by
  have hn := Nat.div_add_mod n g
  constructor
  · intro h
    have := Nat.mul_div_le (n - f) g
    rw [← h] at this
    omega
  · intro h
    have hsub : n - f = n % g - f + g * (n / g) := by omega
    rw [hsub, Nat.add_mul_div_left _ _ hg,
      Nat.div_eq_of_lt (Nat.lt_of_le_of_lt (Nat.sub_le _ _) (Nat.mod_lt n hg)), Nat.zero_add]

theorem add_pred_div {n g : Nat} (hn : 0 < n) (hg : 0 < g) : (n + g - 1) / g = (n - 1) / g + 1 := by
  rw [← Nat.add_div_right _ hg, Nat.sub_add_comm hn]

theorem total_groups_eq_iff {sb : Ext2Superblock} (hgrp : sb.blocks_per_grp ≠ 0)
    (hfirst : sb.first_data_blk < sb.blk_count) :
    total_groups sb = some sb.groups ↔ sb.CountsGroups := by
  have hpos : 0 < sb.blocks_per_grp.toNat :=
    Nat.pos_of_ne_zero (fun h0 => hgrp (UInt32.toNat.inj h0))
  have hlt : sb.first_data_blk.toNat < sb.blk_count.toNat := hfirst
  have hgroups : sb.groups =
      (sb.blk_count.toNat - sb.first_data_blk.toNat - 1) / sb.blocks_per_grp.toNat + 1 :=
    (Nat.ceilDiv_eq_add_pred_div _ _).trans (add_pred_div (by omega) hpos)
  unfold total_groups Ext2Superblock.CountsGroups
  by_cases hfit : UInt32.size ≤ sb.blk_count.toNat + sb.blocks_per_grp.toNat
  · rw [if_pos (Or.inl hfit)]
    simp [Nat.not_lt.mpr hfit]
  · rw [if_neg (by simp [hfit, hgrp]), Option.some_inj, add_pred_div (by omega) hpos, hgroups,
      Nat.add_right_cancel_iff, Nat.sub_right_comm, div_eq_sub_div_iff hpos (by omega)]
    simp [Nat.not_le.mp hfit]

/-- The count of a mount, of its descriptors and of the copies of the superblock
is right exactly then. -/
theorem group_count_right_iff {sb : Ext2Superblock} (hv : sb.validate = .ok ())
    (hfirst : sb.first_data_blk < sb.blk_count) :
    (total_groups sb = some sb.groups ↔ sb.CountsGroups) ∧ (sb.CountsGroups →
      (∀ offset clock readings d s d', Ext2.mount offset clock readings d = .ok s d' →
        s.superblock = sb → s.block_group_descriptors.length = sb.groups) ∧
      ∀ s : Ext2FSInner, s.superblock = sb → ∃ copies,
        get_superblock_groups s = .ok copies s ∧ ∀ g ∈ copies, g.toNat < sb.groups) := by
  have hiff := total_groups_eq_iff (Ext2Superblock.valid_of_validate hv).blocks_per_grp hfirst
  refine ⟨hiff, fun hcounts => ⟨?_, ?_⟩⟩
  · rintro offset clock readings d s d' hmount rfl
    have hlen := (Ext2.mount_ok hmount).1.groups
    rw [hiff.mpr hcounts] at hlen
    exact (Option.some.inj hlen).symm
  · rintro s rfl
    refine ⟨superblock_groups s.superblock s.superblock.groups, ?_, fun g hg => ?_⟩
    · unfold get_superblock_groups
      rw [get_bind, hiff.mpr hcounts]
      rfl
    · obtain ⟨k, hk, rfl⟩ := List.mem_map.mp (List.mem_filter.mp hg).1
      exact Nat.lt_of_le_of_lt (Nat.mod_le k _) (List.mem_range.mp hk)

theorem two_full_groups_are_counted :
    total_groups (smallSuperblock 1 0 16 0) = some (smallSuperblock 1 0 16 0).groups :=
  (group_count_right_iff rfl (by decide)).1.mpr ⟨by decide, by decide⟩

/-- Two full groups after a boot block are counted as three. -/
theorem boot_block_adds_a_group :
    ¬ ∀ sb : Ext2Superblock, sb.validate = .ok () → sb.first_data_blk < sb.blk_count →
      total_groups sb = some sb.groups := by
  intro h
  exact absurd (h (smallSuperblock 0 1 17 0) rfl (by decide)) (by decide)

end zenos_kernel.disk.fs.ext2
