-- Where things are on an ext2 volume. All of it follows from fields that no call
-- on a file changes.
import Zenos.Ext2.Volume
import Mathlib.Algebra.Ring.Nat

namespace zenos_kernel.disk.fs.ext2

open Bytes Ext2FSInner

/-- Groups 0 and 1 and the powers of 3, 5 and 7. -/
def Ext2FSInner.SparseGroup (g : Nat) : Prop :=
  g = 0 ∨ g = 1 ∨ ∃ base ∈ [3, 5, 7], ∃ k, g = base ^ (k + 1)

structure GroupPlaces where
  block_bitmap : UInt32
  inode_bitmap : UInt32
  inode_table : UInt32

structure Geometry where
  partition_offset : Nat
  bs : Nat
  first_data_blk : Nat
  blk_count : Nat
  blocks_per_grp : Nat
  inodes_per_grp : Nat
  inode_size : Nat
  sparse : Bool
  groups : List GroupPlaces

def BlockGroupDescriptorTable.places (bgdt : BlockGroupDescriptorTable) : GroupPlaces :=
  ⟨bgdt.bg_block_bitmap, bgdt.bg_inode_bitmap, bgdt.bg_inode_table⟩

def Volume.geometry (v : Volume) : Geometry where
  partition_offset := v.partition_offset
  bs := v.superblock.block_size.toNat
  first_data_blk := v.superblock.first_data_blk.toNat
  blk_count := v.superblock.blk_count.toNat
  blocks_per_grp := v.superblock.blocks_per_grp.toNat
  inodes_per_grp := v.superblock.inodes_per_grp.toNat
  inode_size := v.superblock.inode_size.toNat
  sparse := is_sparse v.superblock
  groups := v.block_group_descriptors.map (·.places)

/-- The volume has the same geometry, and the same operations fail on it. -/
structure Alike (v v' : Volume) : Prop where
  geometry : v'.geometry = v.geometry
  faulty : v'.faulty = v.faulty
  read_only : v'.read_only = v.read_only

theorem Alike.trans {v v' v'' : Volume} (h : Alike v v') (h' : Alike v' v'') : Alike v v'' :=
  ⟨h'.geometry.trans h.geometry, h'.faulty.trans h.faulty, h'.read_only.trans h.read_only⟩

namespace Geometry

variable (G : Geometry)

/-- The first byte of a block. -/
def at_ (b : Nat) : Nat := G.partition_offset + b * G.bs

/-- Byte `i` belongs to block `b`. -/
def InBlock (b i : Nat) : Prop := G.at_ b ≤ i ∧ i < G.at_ b + G.bs

/-- The number of pointers in a block. -/
def width : Nat := G.bs / 4

def group (g : Nat) : GroupPlaces := G.groups.getD g ⟨0, 0, 0⟩

/-- The first byte of the block bitmap of a group. -/
def bitmap_at (g : Nat) : Nat := G.at_ (G.group g).block_bitmap.toNat

/-- The first byte of the inode table of a group. -/
def table_at (g : Nat) : Nat := G.at_ (G.group g).inode_table.toNat

def TableByte (g i : Nat) : Prop :=
  G.table_at g ≤ i ∧ i < G.table_at g + G.inodes_per_grp * G.inode_size

/-- The first byte of an inode. -/
def inode_at (n : UInt32) : Nat :=
  G.table_at ((n.toNat - 1) / G.inodes_per_grp) + (n.toNat - 1) % G.inodes_per_grp * G.inode_size

def HasInode (n : UInt32) : Prop := n ≠ 0 ∧ (n.toNat - 1) / G.inodes_per_grp < G.groups.length

/-! ## The superblock and the descriptor table -/

/-- Group `g` holds a copy of the superblock. -/
def HoldsCopy (g : Nat) : Prop := G.sparse = false ∨ SparseGroup g

def group_start (g : Nat) : Nat :=
  G.partition_offset + (G.first_data_blk + g * G.blocks_per_grp) * G.bs

def bgdt_at : Nat := G.partition_offset + (if G.bs = 1024 then 2 else 1) * G.bs

/-- Byte `i` belongs to the superblock, to one of its copies or to the
descriptor table. -/
def MetadataByte (i : Nat) : Prop :=
  (G.partition_offset + 1024 ≤ i ∧ i < G.partition_offset + 1024 + 1024) ∨
  (∃ g < G.groups.length, G.HoldsCopy g ∧ G.group_start g ≤ i ∧ i < G.group_start g + 1024) ∨
  (G.bgdt_at ≤ i ∧ i < G.bgdt_at + 32 * G.groups.length)

/-- Where `sync_superblock` writes the copy of a group. -/
def copy_at (g : Nat) : Nat :=
  if g = 0 then G.partition_offset + 1024
  else G.partition_offset + g * G.blocks_per_grp * G.bs

/-- Byte `i` is one of those that `sync_superblock` writes to. -/
def SyncByte (i : Nat) : Prop :=
  (∃ g < G.groups.length, G.HoldsCopy g ∧ G.copy_at g ≤ i ∧ i < G.copy_at g + 1024) ∨
  (G.bgdt_at ≤ i ∧ i < G.bgdt_at + 32 * G.groups.length)

/-! ## Data blocks -/

/-- Byte `i` belongs to the metadata of the volume. -/
def Reserved (i : Nat) : Prop :=
  G.MetadataByte i ∨ ∃ g < G.groups.length, G.InBlock (G.group g).block_bitmap.toNat i ∨
    G.InBlock (G.group g).inode_bitmap.toNat i ∨ G.TableByte g i

/-- A block of the data area. -/
def DataBlock (b : UInt32) : Prop :=
  b ≠ 0 ∧ b.toNat < G.blk_count ∧ ∀ i, G.InBlock b.toNat i → ¬ G.Reserved i

/-- The parts of the metadata do not overlap. -/
structure Regions : Prop where
  block_size : G.bs ∈ [1024, 2048, 4096, 8192, 16384, 32768, 65536]
  blocks_per_grp : 0 < G.blocks_per_grp
  fits : G.blk_count + G.blocks_per_grp < UInt32.size
  groups : (G.blk_count + G.blocks_per_grp - 1) / G.blocks_per_grp = G.groups.length
  inodes_per_grp : 0 < G.inodes_per_grp
  inode_size : 128 ≤ G.inode_size
  bitmap_metadata : ∀ g < G.groups.length, ∀ i,
    G.InBlock (G.group g).block_bitmap.toNat i → ¬ G.MetadataByte i
  bitmaps : ∀ g < G.groups.length, ∀ g' < G.groups.length, g ≠ g' →
    (G.group g).block_bitmap ≠ (G.group g').block_bitmap
  table_metadata : ∀ g < G.groups.length, ∀ i, G.TableByte g i → ¬ G.MetadataByte i
  table_bitmap : ∀ g < G.groups.length, ∀ g' < G.groups.length, ∀ i, G.TableByte g i →
    ¬ G.InBlock (G.group g').block_bitmap.toNat i
  tables : ∀ g < G.groups.length, ∀ g' < G.groups.length, ∀ i, G.TableByte g i →
    G.TableByte g' i → g = g'

/-- The parts of the metadata do not overlap, and `sync_superblock` writes
nothing else. -/
structure Layout : Prop extends G.Regions where
  sync : ∀ i, G.SyncByte i → G.MetadataByte i

variable {G} {i g : Nat}

/-- Different blocks have no byte in common. -/
theorem inBlock_inj {b b' : Nat} (h : G.InBlock b i) (h' : G.InBlock b' i) : b = b' := by
  unfold InBlock at_ at h h'
  by_contra hne
  have := records_apart hne G.bs
  omega

theorem inBlock_offset {b o : Nat} (ho : o < G.bs) : G.InBlock b (G.at_ b + o) :=
  ⟨Nat.le_add_right _ _, Nat.add_lt_add_left ho _⟩

namespace Layout

variable (hG : G.Layout)
include hG

theorem bs_pos : 0 < G.bs := by
  have := hG.block_size
  simp only [List.mem_cons, List.not_mem_nil, or_false] at this
  omega

theorem bs_width : G.bs = 4 * G.width := by
  have := hG.block_size
  unfold width
  simp only [List.mem_cons, List.not_mem_nil, or_false] at this
  omega

theorem bs_le : G.bs ≤ 65536 := by
  have := hG.block_size
  simp only [List.mem_cons, List.not_mem_nil, or_false] at this
  omega

/-- The 128 bytes of an inode belong to the table of its group. -/
theorem tableByte_of_inode {n : UInt32} (h1 : G.inode_at n ≤ i)
    (h2 : i < G.inode_at n + 128) : G.TableByte ((n.toNat - 1) / G.inodes_per_grp) i := by
  unfold inode_at at h1 h2
  have hidx : (n.toNat - 1) % G.inodes_per_grp + 1 ≤ G.inodes_per_grp :=
    Nat.mod_lt _ hG.inodes_per_grp
  have hmul := Nat.mul_le_mul_right G.inode_size hidx
  have hsize := hG.inode_size
  rw [Nat.add_mul] at hmul
  unfold TableByte
  omega

theorem inodes_apart {n m : UInt32} (hn : G.HasInode n) (hm : G.HasInode m) (hne : n ≠ m) :
    Apart (G.inode_at n) 128 (G.inode_at m) 128 := by
  by_contra hover
  -- a common byte puts both in the same group
  have hbyte : ∃ i, (G.inode_at n ≤ i ∧ i < G.inode_at n + 128) ∧
      (G.inode_at m ≤ i ∧ i < G.inode_at m + 128) := by
    unfold Apart at hover
    exact ⟨max (G.inode_at n) (G.inode_at m), by omega⟩
  obtain ⟨i, hi, hi'⟩ := hbyte
  have hgroup := hG.tables _ hn.2 _ hm.2 i (hG.tableByte_of_inode hi.1 hi.2)
    (hG.tableByte_of_inode hi'.1 hi'.2)
  have hidx : (n.toNat - 1) % G.inodes_per_grp ≠ (m.toNat - 1) % G.inodes_per_grp := by
    intro heq
    have hdm := Nat.div_add_mod (n.toNat - 1) G.inodes_per_grp
    rw [hgroup, heq, Nat.div_add_mod] at hdm
    have hn0 : n.toNat ≠ 0 := fun h0 => hn.1 (UInt32.toNat.inj h0)
    have hm0 : m.toNat ≠ 0 := fun h0 => hm.1 (UInt32.toNat.inj h0)
    exact hne (UInt32.toNat.inj (by omega))
  -- and then they are whole records apart
  unfold inode_at at hi hi'
  rw [hgroup] at hi
  have hsize := hG.inode_size
  have := records_apart hidx G.inode_size
  omega

end Layout

namespace DataBlock

variable {b : UInt32} (hb : G.DataBlock b)
include hb

theorem not_bitmap (hi : G.InBlock b.toNat i) (hg : g < G.groups.length) :
    ¬ G.InBlock (G.group g).block_bitmap.toNat i :=
  fun h => hb.2.2 i hi (Or.inr ⟨g, hg, Or.inl h⟩)

theorem not_table (hi : G.InBlock b.toNat i) (hg : g < G.groups.length) : ¬ G.TableByte g i :=
  fun h => hb.2.2 i hi (Or.inr ⟨g, hg, Or.inr (Or.inr h)⟩)

end DataBlock

/-- In a volume whose first data block is block 0, `sync_superblock` writes the
copies where they belong. -/
theorem sync_of_first_data_blk (h : G.first_data_blk = 0) (i : Nat) (hi : G.SyncByte i) :
    G.MetadataByte i := by
  rcases hi with ⟨g, hg, hcopy, h1, h2⟩ | hbgdt
  · unfold copy_at at h1 h2
    by_cases h0 : g = 0
    · rw [if_pos h0] at h1 h2
      exact Or.inl ⟨h1, h2⟩
    · rw [if_neg h0] at h1 h2
      refine Or.inr (Or.inl ⟨g, hg, hcopy, ?_⟩)
      unfold group_start
      rw [h, Nat.zero_add]
      exact ⟨h1, h2⟩
  · exact Or.inr (Or.inr hbgdt)

theorem Regions.layout (hG : G.Regions) (h : G.first_data_blk = 0) : G.Layout :=
  ⟨hG, sync_of_first_data_blk h⟩

end Geometry

/-! ## Volumes -/

namespace Volume

@[simp] theorem write_geometry (v : Volume) (off : Nat) (buf : List UInt8) :
    (v.write off buf).geometry = v.geometry := rfl

end Volume

end zenos_kernel.disk.fs.ext2
