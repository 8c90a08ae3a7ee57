-- The ext2 driver below the files: `Ext2FSInner` of `ext2/mod.rs`. It finds
-- inodes, hands out and takes back blocks through the bitmaps, and writes the
-- superblock with its copies and the descriptor table.
import Zenos.Ext2.Plumbing

namespace zenos_kernel.disk.fs.ext2

open Outcome block

/-- The mounted volume. `clock` gives the readings of `current_time`, of which
the first `readings` have been used. -/
structure Ext2FSInner where
  device : Device
  partition_offset : Nat
  superblock : Ext2Superblock
  block_group_descriptors : List BlockGroupDescriptorTable
  read_only : Bool
  clock : Nat → UInt64
  readings : Nat

/-- Driver code: it ends with a value, an error or a panic. -/
abbrev Ext2M := EStateM (Fault FileError) Ext2FSInner

namespace Ext2FSInner

/-- The block size as the code computes with it. -/
def bs (s : Ext2FSInner) : Nat := s.superblock.block_size.toNat

/-! ## Steps shared by the functions below -/

/-- A device operation, with its error mapped to `e`. -/
def on_device {α : Type} (x : EStateM BlockError Device α) (e : FileError) : Ext2M α := fun s =>
  match x s.device with
  | .ok a d => .ok a { s with device := d }
  | .error _ d => .error (.err e) { s with device := d }

/-- `seek(SeekFrom::Start(offset))` and `read_exact`. -/
def read_at (offset len : Nat) : Ext2M (List UInt8) := do
  on_device (Device.seek offset) .SeekError
  on_device (Device.read_exact len) .ReadError

/-- `seek(SeekFrom::Start(offset))` and `write`. -/
def write_at (offset : Nat) (buf : List UInt8) : Ext2M Unit := do
  on_device (Device.seek offset) .SeekError
  on_device (Device.write buf) .WriteError

/-- Arithmetic of 64 bits panics when it overflows. -/
def u64 (n : Nat) : Ext2M Nat := if n < UInt64.size then pure n else throw .panic

/-- Arithmetic of 32 bits panics when it overflows. -/
def u32 (n : Nat) : Ext2M UInt32 := if n < UInt32.size then pure (UInt32.ofNat n) else throw .panic

/-- `partition_offset + block_num as u64 * block_size`. -/
def block_offset (block_num : UInt32) : Ext2M Nat := do
  let s ← get
  u64 (s.partition_offset + block_num.toNat * s.bs)

variable (s : Ext2FSInner)

/-- The next reading of the clock was used. -/
def tick : Ext2FSInner := { s with readings := s.readings + 1 }

def current_time : Ext2M UInt64 := fun s => .ok (s.clock s.readings) s.tick

/-- `self.block_group_descriptors[group] = bgdt`. -/
def set_descriptor (group : Nat) (bgdt : BlockGroupDescriptorTable) :
    Ext2FSInner :=
  { s with block_group_descriptors := s.block_group_descriptors.set group bgdt }

/-! The fields of the superblock that the driver changes. -/

def set_free_blocks (free_blocks : UInt32) : Ext2FSInner :=
  { s with superblock := { s.superblock with free_blocks } }

def set_free_inodes (free_inodes : UInt32) : Ext2FSInner :=
  { s with superblock := { s.superblock with free_inodes } }

def set_wrt_time (wrt_time : UInt32) : Ext2FSInner :=
  { s with superblock := { s.superblock with wrt_time } }

def set_block_group_nr (block_group_nr : UInt16) : Ext2FSInner :=
  { s with superblock := { s.superblock with block_group_nr } }

/-! ## Inodes and blocks -/

def get_block_offset_for_inode_num (inode_num : UInt32) : Ext2M Nat := do
  let s ← get
  if inode_num = 0 ∨ s.superblock.inodes_per_grp = 0 then throw .panic
  else
    let group := (inode_num.toNat - 1) / s.superblock.inodes_per_grp.toNat
    let index := (inode_num.toNat - 1) % s.superblock.inodes_per_grp.toNat
    match s.block_group_descriptors[group]? with
    | none => throw (.err (.Other "Inode number out of range"))
    | some bgdt =>
      let byte_offset := index * s.superblock.inode_size.toNat
      let block := bgdt.bg_inode_table.toNat + byte_offset / s.bs
      let offset := byte_offset % s.bs
      u64 (s.partition_offset + block * s.bs + offset)

/-- `(byte & (1 << bit)) == 0`. -/
def bit_is_clear (byte : UInt8) (bit : Nat) : Bool := byte &&& (1 <<< UInt8.ofNat bit) == 0

/-- The first clear bit of the bitmap: the byte and the bit in it. -/
def find_clear (bitmap : List UInt8) : Option (Nat × Nat) :=
  (List.range bitmap.length).findSome? (fun byte_idx =>
    let byte := bitmap.getD byte_idx 0
    if byte = 0xFF then none
    else (List.range 8).findSome? (fun bit =>
      if bit_is_clear byte bit then some (byte_idx, bit) else none))

/-- The search of `allocate_block` over the remaining groups. -/
def allocate_in : List Nat → Ext2M UInt32
  | [] => throw (.err (.Other "No free blocks available"))
  | group_idx :: groups => do
    let s ← get
    match s.block_group_descriptors[group_idx]? with
    | none => allocate_in groups
    | some bgdt =>
      if bgdt.bg_free_blocks_count = 0 then allocate_in groups
      else do
        let bitmap_offset ← block_offset bgdt.bg_block_bitmap
        let bitmap ← read_at bitmap_offset s.bs
        match find_clear bitmap with
        | none => allocate_in groups
        | some (byte_idx, bit) => do
          let byte := bitmap.getD byte_idx 0
          write_at bitmap_offset (bitmap.set byte_idx (byte ||| (1 <<< UInt8.ofNat bit)))
          modify (·.set_descriptor group_idx
            { bgdt with bg_free_blocks_count := bgdt.bg_free_blocks_count - 1 })
          if s.superblock.free_blocks = 0 then throw .panic
          else do
            modify (·.set_free_blocks (s.superblock.free_blocks - 1))
            u32 (s.superblock.first_data_blk.toNat
              + group_idx * s.superblock.blocks_per_grp.toNat + (byte_idx * 8 + bit))

def allocate_block : Ext2M UInt32 := do
  let s ← get
  allocate_in (List.range s.block_group_descriptors.length)

def free_inode (inode_num : UInt32) : Ext2M Unit := do
  let s ← get
  if inode_num = 0 ∨ s.superblock.inodes_per_grp = 0 then throw .panic
  else
    let group := (inode_num.toNat - 1) / s.superblock.inodes_per_grp.toNat
    let index := (inode_num.toNat - 1) % s.superblock.inodes_per_grp.toNat
    match s.block_group_descriptors[group]? with
    | none => throw .panic
    | some bgdt => do
      let bitmap_offset ← block_offset bgdt.bg_inode_bitmap
      let bitmap ← read_at bitmap_offset s.bs
      if bitmap.length ≤ index / 8 then throw .panic
      else do
        let byte := bitmap.getD (index / 8) 0
        write_at bitmap_offset
          (bitmap.set (index / 8) (byte &&& ~~~(1 <<< UInt8.ofNat (index % 8))))
        if bgdt.bg_free_inodes_count = 0xFFFF then throw .panic
        else do
          modify (·.set_descriptor group
            { bgdt with bg_free_inodes_count := bgdt.bg_free_inodes_count + 1 })
          if s.superblock.free_inodes = 0xFFFFFFFF then throw .panic
          else modify (·.set_free_inodes (s.superblock.free_inodes + 1))

variable (block_num : UInt32)

def free_block : Ext2M Unit := do
  let s ← get
  if block_num < s.superblock.first_data_blk ∨ s.superblock.blocks_per_grp = 0 then throw .panic
  else
    let rel := block_num.toNat - s.superblock.first_data_blk.toNat
    let group := rel / s.superblock.blocks_per_grp.toNat
    let index := rel % s.superblock.blocks_per_grp.toNat
    match s.block_group_descriptors[group]? with
    | none => throw (.err (.Other "Block number out of range"))
    | some bgdt => do
      let bitmap_offset ← block_offset bgdt.bg_block_bitmap
      let bitmap ← read_at bitmap_offset s.bs
      if bitmap.length ≤ index / 8 then throw .panic
      else do
        let byte := bitmap.getD (index / 8) 0
        write_at bitmap_offset
          (bitmap.set (index / 8) (byte &&& ~~~(1 <<< UInt8.ofNat (index % 8))))
        if bgdt.bg_free_blocks_count = 0xFFFF then throw .panic
        else do
          modify (·.set_descriptor group
            { bgdt with bg_free_blocks_count := bgdt.bg_free_blocks_count + 1 })
          if s.superblock.free_blocks = 0xFFFFFFFF then throw .panic
          else modify (·.set_free_blocks (s.superblock.free_blocks + 1))

/-- `read_block` into a buffer of one block. -/
def read_block : Ext2M (List UInt8) := do
  let s ← get
  let offset ← block_offset block_num
  read_at offset s.bs

def write_block (buf : List UInt8) : Ext2M Unit := do
  let offset ← block_offset block_num
  write_at offset buf

/-! ## The superblock -/

/-- The loop `while power < group`: it ends when the product would overflow.
Every turn multiplies by at least 3, so 32 turns are enough. -/
def power_loop (base group : Nat) : Nat → Nat → Nat
  | 0, power => power
  | fuel + 1, power =>
    if power < group then
      if power * base < UInt32.size then power_loop base group fuel (power * base) else power
    else power

def has_superblock_backup (group : UInt32) : Bool :=
  if group = 0 ∨ group = 1 then true
  else [3, 5, 7].any (fun base => power_loop base group.toNat 32 base == group.toNat)

variable (sb : Ext2Superblock)

/-- `(blk_count + blocks_per_grp - 1) / blocks_per_grp`, in 32 bits. -/
def total_groups : Option Nat :=
  if UInt32.size ≤ sb.blk_count.toNat + sb.blocks_per_grp.toNat ∨ sb.blocks_per_grp = 0 then none
  else some ((sb.blk_count.toNat + sb.blocks_per_grp.toNat - 1) / sb.blocks_per_grp.toNat)

def is_sparse : Bool :=
  sb.feature_ro_compat &&& EXT2_FEATURE_RO_COMPAT_SPARSE_SUPER != 0

/-- The groups with a copy of the superblock, of `total` groups. -/
def superblock_groups (total : Nat) : List UInt32 :=
  ((List.range total).map UInt32.ofNat).filter
    (fun group => !is_sparse sb || has_superblock_backup group)

def get_superblock_groups : Ext2M (List UInt32) := do
  let s ← get
  match total_groups s.superblock with
  | none => throw .panic
  | some total => pure (superblock_groups s.superblock total)

/-- Where `sync_superblock` writes the copy of a group. -/
def superblock_offset (partition_offset : Nat) (sb : Ext2Superblock) (group : UInt32) : Nat :=
  if group = 0 then partition_offset + SUPERBLOCK_OFFSET
  else partition_offset + group.toNat * sb.blocks_per_grp.toNat * sb.block_size.toNat

/-- Where the descriptor table starts. -/
def bgdt_offset (partition_offset : Nat) (sb : Ext2Superblock) : Nat :=
  let block_size := sb.block_size.toNat
  let bgdt_block := if block_size = MIN_BLOCK_SIZE then BGDT_BLOCK_1K else BGDT_BLOCK_DEFAULT
  partition_offset + bgdt_block * block_size

/-- The descriptor table as it is written. -/
def bgdt_bytes (descriptors : List BlockGroupDescriptorTable) : List UInt8 :=
  descriptors.flatMap (·.serialize)

def sync_bgdt : Ext2M Unit := do
  let s ← get
  let offset ← u64 (bgdt_offset s.partition_offset s.superblock)
  write_at offset (bgdt_bytes s.block_group_descriptors)

/-- The turn of the loop for one group. -/
def sync_copy (group : UInt32) : Ext2M Unit := do
  modify (·.set_block_group_nr group.toUInt16)
  let s ← get
  let offset ← u64 (superblock_offset s.partition_offset s.superblock group)
  write_at offset s.superblock.serialize

def sync_superblock : Ext2M Unit := do
  let now ← current_time
  modify (·.set_wrt_time now.toUInt32)
  let groups ← get_superblock_groups
  each groups sync_copy
  modify (·.set_block_group_nr 0)
  sync_bgdt

end Ext2FSInner

end zenos_kernel.disk.fs.ext2
