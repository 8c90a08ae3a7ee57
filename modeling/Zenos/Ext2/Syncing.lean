-- `sync_inode` writes the 128 bytes of an inode and the superblock. Blocks of data
-- and pointers, bitmaps and other inodes stay as they are.
import Zenos.Ext2.Writing

namespace zenos_kernel.disk.fs.ext2

open Bytes Outcome Ext2FSInner PointerTree

/-! ## What is written -/

/-- The counts of free blocks are kept. -/
structure SameCounts (v v' : Volume) : Prop extends Alike v v' where
  descriptors : v'.block_group_descriptors = v.block_group_descriptors
  free_blocks : v'.superblock.free_blocks = v.superblock.free_blocks

/-- The volume after `data` was written as inode `n`, and the superblock with it. -/
structure Synced (v v' : Volume) (n : UInt32) (data : List UInt8) : Prop extends SameCounts v v' where
  inode : slice v'.bytes (v.geometry.inode_at n) 128 = data
  bytes : ∀ i, ¬ v.geometry.MetadataByte i →
    ¬ (v.geometry.inode_at n ≤ i ∧ i < v.geometry.inode_at n + 128) → v'.bytes i = v.bytes i

namespace Synced

variable {v v' : Volume} {n : UInt32} {data : List UInt8} (h : Synced v v' n data)
  (hG : v.geometry.Layout) (hn : v.geometry.HasInode n) {b : UInt32}

include h hG hn

/-- A byte that belongs to the table of no group, and not to the superblock. -/
theorem keeps {i : Nat} (hmeta : ¬ v.geometry.MetadataByte i)
    (htable : ∀ g < v.geometry.groups.length, ¬ v.geometry.TableByte g i) :
    v'.bytes i = v.bytes i :=
  h.bytes i hmeta (fun hi => htable _ hn.2 (hG.tableByte_of_inode hi.1 hi.2))

theorem data_block (hb : v.geometry.DataBlock b) {i : Nat}
    (hi : v.geometry.InBlock b.toNat i) : v'.bytes i = v.bytes i :=
  h.keeps hG hn (fun hm => hb.2.2 i hi (Or.inl hm)) (fun _ hg => hb.not_table hi hg)

theorem pointer (hb : v.geometry.DataBlock b) (j : Nat) : v'.pointer b j = v.pointer b j := by
  unfold Volume.pointer
  rw [h.geometry]
  congr 1
  exact slice_congr (fun i h1 h2 => h.data_block hG hn hb ⟨h1, h2⟩)

theorem other_inode {m : UInt32} (hm : v.geometry.HasInode m) (hne : m ≠ n) :
    slice v'.bytes (v.geometry.inode_at m) 128 = slice v.bytes (v.geometry.inode_at m) 128 := by
  apply slice_congr
  intro i h1 h2
  refine h.bytes i (hG.table_metadata _ hm.2 i (hG.tableByte_of_inode h1 h2)) ?_
  exact (hG.inodes_apart hm hn hne).outside ⟨h1, h2⟩

theorem disk_root {x : Tree} (hx : v.geometry.HasInode x.1) (hne : x.1 ≠ n) :
    v'.disk_root x = v.disk_root x := by
  unfold Volume.disk_root
  rw [h.geometry, h.other_inode hG hn hx hne]

theorem booked {X : Type} {live : X → Prop} {own : X → UInt32} (hb : Booked v live own) :
    Booked v' live own := by
  refine hb.congr h.geometry h.descriptors h.free_blocks ?_
  intro g hg k hk
  refine h.keeps hG hn (hG.bitmap_metadata g hg k hk) ?_
  intro g' hg' htable
  exact hG.table_bitmap g' hg' g hg k htable hk

end Synced

/-! ## The calls -/

/-- All addresses of the volume fit into 64 bits. -/
def Volume.Fits (v : Volume) : Prop := v.partition_offset < 0x8000000000000000

/-- Why a call may fail: the device does, or an address is too large. -/
def Volume.Fails (v : Volume) : Prop := v.Faulty ∨ ¬ v.Fits

namespace Volume

variable {v v' : Volume}

theorem fails_congr (h : Alike v v') : v'.Fails ↔ v.Fails := by
  have hpo : v'.partition_offset = v.partition_offset :=
    congrArg Geometry.partition_offset h.geometry
  unfold Fails Faulty Fits
  rw [h.faulty, hpo]

theorem at_lt (h : v.Fits) (hG : v.geometry.Layout) (b : UInt32) :
    v.geometry.at_ b.toNat + 65536 < UInt64.size := by
  have hb := Nat.mul_le_mul (Nat.le_of_lt b.toNat_lt) hG.bs_le
  have hpo : v.geometry.partition_offset < 0x8000000000000000 := h
  have hsize : UInt64.size = 0x10000000000000000 := rfl
  unfold Geometry.at_
  omega

theorem inode_at_lt (h : v.Fits) (hG : v.geometry.Layout) (n : UInt32) :
    v.geometry.inode_at n < UInt64.size := by
  have hpo : v.geometry.partition_offset < 0x8000000000000000 := h
  have htable := Nat.mul_le_mul (Nat.le_of_lt (v.geometry.group
    ((n.toNat - 1) / v.geometry.inodes_per_grp)).inode_table.toNat_lt) hG.bs_le
  have hidx : (n.toNat - 1) % v.geometry.inodes_per_grp ≤ 2 ^ 32 :=
    (Nat.mod_le _ _).trans (by have := n.toNat_lt; omega)
  have hsize : v.geometry.inode_size ≤ 2 ^ 16 := Nat.le_of_lt v.superblock.inode_size.toNat_lt
  have hmul := Nat.mul_le_mul hidx hsize
  have h64 : UInt64.size = 0x10000000000000000 := rfl
  unfold Geometry.inode_at Geometry.table_at Geometry.at_
  omega

end Volume

namespace Ext2FSInner

section

variable (s : Ext2FSInner) (hG : s.volume.geometry.Layout) {n : UInt32}

include hG

theorem ends_inode_offset (hn : s.volume.geometry.HasInode n) :
    Ends (get_block_offset_for_inode_num n s)
      (fun off s' => off = s.volume.geometry.inode_at n ∧ s' = s)
      (fun _ s' => UInt64.size ≤ s.volume.geometry.inode_at n ∧ s' = s) := by
  have hipg : s.superblock.inodes_per_grp ≠ 0 := by
    intro h0
    have h := hG.inodes_per_grp
    change 0 < s.superblock.inodes_per_grp.toNat at h
    rw [h0] at h
    exact Nat.lt_irrefl 0 h
  have hlen : (n.toNat - 1) / s.superblock.inodes_per_grp.toNat <
      s.block_group_descriptors.length := by
    have h : _ < (s.block_group_descriptors.map (·.places)).length := hn.2
    rwa [List.length_map] at h
  have hgroup : (s.volume.geometry.group
      ((n.toNat - 1) / s.superblock.inodes_per_grp.toNat)).inode_table =
        (s.block_group_descriptors[(n.toNat - 1) / s.superblock.inodes_per_grp.toNat]).bg_inode_table := by
    change ((s.block_group_descriptors.map BlockGroupDescriptorTable.places).getD _ _).inode_table = _
    rw [List.getD_eq_getElem?_getD, List.getElem?_map, List.getElem?_eq_getElem hlen]
    rfl
  unfold get_block_offset_for_inode_num
  rw [get_bind, if_neg (by simp [hn.1, hipg])]
  rw [List.getElem?_eq_getElem hlen]
  -- whole blocks and the rest together
  have haddr : ∀ table byte_offset : Nat, s.partition_offset + (table + byte_offset / s.bs) * s.bs +
      byte_offset % s.bs = s.partition_offset + table * s.bs + byte_offset := by
    intro table byte_offset
    have := Nat.div_add_mod' byte_offset s.bs
    rw [Nat.add_mul]
    omega
  dsimp only
  rw [haddr, ← hgroup]
  exact s.ends_u64 _

/-- `sync_superblock` writes to the metadata only. -/
structure MetadataOnly (v v' : Volume) : Prop extends SameCounts v v' where
  bytes : ∀ i, ¬ v.geometry.MetadataByte i → v'.bytes i = v.bytes i

theorem metadataOnly_synced (now : UInt64)
    (nr : UInt16) {ws : List (Nat × List UInt8)} (hws : ∀ w ∈ ws, w ∈ s.volume.sync_writes now) :
    MetadataOnly s.volume (s.volume.synced now nr ws) := by
  refine ⟨⟨⟨rfl, rfl, rfl⟩, rfl, rfl⟩, ?_⟩
  intro i hi
  refine applyWrites_outside _ ?_
  rintro ⟨w, hw, hin⟩
  apply hi
  apply hG.sync
  exact (covered_sync_writes (total_groups_of_layout hG) now i).mp ⟨w, hws w hw, hin⟩

theorem ends_sync_metadata :
    Ends (sync_superblock s) (fun _ s' => MetadataOnly s.volume s'.volume)
      (fun _ s' => MetadataOnly s.volume s'.volume ∧ s.volume.Fails) := by
  have htotal := total_groups_of_layout hG
  refine s.ends_sync_superblock.mono ?_ ?_
  · rintro _ s' ⟨-, hv⟩
    rw [hv]
    exact metadataOnly_synced s hG _ _ (fun w hw => hw)
  rintro _ s' ⟨⟨nr, k, hv⟩, hwhy⟩
  rw [hv]
  refine ⟨metadataOnly_synced s hG _ _ (fun w hw => List.mem_of_mem_take hw), ?_⟩
  rcases hwhy with hf | hnone | ⟨w, hw, hover⟩
  · exact Or.inl hf
  · rw [htotal] at hnone
    cases hnone
  · refine Or.inr fun hfits => ?_
    exact absurd hover (Nat.not_le_of_lt (sync_writes_fit htotal hG.bs_le hfits hw))

omit s hG in
/-- The inode is written, and then the superblock. -/
theorem MetadataOnly.synced {v v1 v' : Volume} (hG : v.geometry.Layout) (hn : v.geometry.HasInode n)
    {data : List UInt8} (hlen : data.length = 128) (h1 : v1 = v.write (v.geometry.inode_at n) data)
    (h : MetadataOnly v1 v') : Synced v v' n data := by
  subst h1
  refine ⟨⟨⟨h.geometry, h.faulty, h.read_only⟩, h.descriptors, h.free_blocks⟩, ?_, ?_⟩
  · have hback := slice_splice v.bytes (v.geometry.inode_at n) data
    rw [hlen] at hback
    rw [← hback]
    apply slice_congr
    intro i h1 h2
    exact h.bytes i (hG.table_metadata _ hn.2 i (hG.tableByte_of_inode h1 h2))
  · intro i hmeta hin
    rw [h.bytes i hmeta]
    exact splice_outside _ (by rw [hlen]; exact hin)

/-- `sync_inode` ends early only at a device error or when an address does not fit, and
then the inode is written or not. -/
theorem ends_sync_inode (ino : Ext2Inode) (hn : s.volume.geometry.HasInode n) :
    Ends (sync_inode ino n s) (fun _ s' => Synced s.volume s'.volume n ino.serialize)
      (fun _ s' => (Synced s.volume s'.volume n ino.serialize ∨ s'.volume = s.volume) ∧
        s.volume.Fails) := by
  refine ends_then (s.ends_inode_offset hG hn) ?_ ?_
  · rintro _ s' ⟨hover, rfl⟩
    refine ⟨Or.inr rfl, Or.inr fun hfits => ?_⟩
    exact absurd hover (Nat.not_le_of_lt (Volume.inode_at_lt hfits hG n))
  rintro _ s1 ⟨rfl, rfl⟩
  refine ends_then (s1.ends_write_at _ _) ?_ ?_
  · rintro _ s' ⟨hv, hf⟩
    exact ⟨Or.inr hv, Or.inl hf⟩
  intro _ s2 hv2
  have hgeo2 : s2.volume.geometry = s1.volume.geometry := by rw [hv2]; rfl
  refine (s2.ends_sync_metadata (by rw [hgeo2]; exact hG)).mono ?_ ?_
  · intro _ s' h
    exact h.synced hG hn (Ext2Inode.length_serialize ino) hv2
  · rintro _ s' ⟨h, hfails⟩
    refine ⟨Or.inl (h.synced hG hn (Ext2Inode.length_serialize ino) hv2), ?_⟩
    rw [hv2] at hfails
    exact hfails

end

end Ext2FSInner

/-- The inode on the disk. -/
def Volume.disk_inode (v : Volume) (n : UInt32) : Option Ext2Inode :=
  Ext2Inode.deserialize (slice v.bytes (v.geometry.inode_at n) 128)

/-- The parts of the volume do not overlap, and its accounts are right for the
inodes `I`. -/
structure Volume.Consistent (v : Volume) (I : Finset UInt32) : Prop where
  regions : v.geometry.Regions
  inodes : ∀ n ∈ I, v.geometry.HasInode n
  booked : Booked v (fun _ => True) (v.own (v.roots I))

/-! ## The handle -/

namespace ExtFileInodeOps

variable {I : Finset UInt32} {f f' : ExtFileInodeOps} {data buf : List UInt8} {offset : Nat}

section

variable (hf : Good I f) (h : Synced f.volume f'.volume f.inode_num data)
  (hnum : f'.inode_num = f.inode_num) (hblock : f'.ext2inode.i_block = f.ext2inode.i_block)

include hf h hnum hblock

/-- Whatever is written as the inode of the handle, the blocks stay where they are. -/
theorem own_of_synced : f'.own I = f.own I := by
  have hn := hf.inodes _ hf.mem
  refine own_congr rfl rfl ?_ ?_ ?_
  · change f'.volume.geometry.width = f.volume.geometry.width
    rw [h.geometry]
  · intro x
    change f'.roots I x = f.roots I x
    by_cases hx : x.1 = f.inode_num
    · unfold roots
      rw [hnum, hblock, if_pos hx, if_pos hx]
    · exact roots_of_disk hnum hx (fun hI => h.disk_root hf.layout hn (hf.inodes _ hI) hx)
  · intro P _ hne j _
    exact h.pointer hf.layout hn (hf.data hne) j

theorem good_of_synced : Good I f' := by
  refine hf.of_booked h.geometry hnum ?_
  rw [own_of_synced hf h hnum hblock]
  exact h.booked hf.layout (hf.inodes _ hf.mem) hf.booked

theorem byte_of_synced (p : Nat) : f'.byte I p = f.byte I p := by
  have hbs : f'.bs = f.bs := bs_of_geometry h.geometry
  have hown := own_of_synced hf h hnum hblock
  unfold byte block
  rw [hbs, hown, place_of_geometry h.geometry hnum, h.geometry]
  split
  · rfl
  · rename_i hne
    exact h.data_block hf.layout (hf.inodes _ hf.mem) (hf.data hne)
      (Geometry.inBlock_offset (Nat.mod_lt p hf.layout.bs_pos))

end

/-- The inode on the disk is the one of the handle. -/
def Stored (f : ExtFileInodeOps) : Prop :=
  slice f.volume.bytes (f.volume.geometry.inode_at f.inode_num) 128 = f.ext2inode.serialize

theorem Stored.disk_root (h : f.Stored) (k : Fin 15) :
    f.volume.disk_root (f.inode_num, k) = f.ext2inode.i_block k := by
  unfold Volume.disk_root
  rw [h]
  exact Ext2Inode.block_serialize f.ext2inode k

theorem Stored.deserialize (h : f.Stored) : f.volume.disk_inode f.inode_num = some f.ext2inode := by
  unfold Volume.disk_inode
  rw [h]
  exact Ext2Inode.deserialize_serialize _

/-- A handle that was just made has what the disk has. -/
theorem stored_of_disk_inode (h : f.volume.disk_inode f.inode_num = some f.ext2inode) :
    f.Stored := (Ext2Inode.serialize_deserialize (length_slice _ _ _) h).symm

section

variable (h : f.Stored) (hmem : f.inode_num ∈ I)

include h hmem

/-- Then the slots of the handle are those of the disk. -/
theorem Stored.own_eq : f.own I = f.volume.own (f.volume.roots I) := by
  have hroots : f.roots I = f.volume.roots I := by
    funext x
    unfold roots
    split
    · rename_i hx
      unfold Volume.roots
      rw [hx, if_pos hmem, ← h.disk_root, ← hx]
    · rfl
  unfold own
  rw [hroots]

theorem Stored.good_of_layout
    (hc : f.volume.Consistent I) (hG : f.volume.geometry.Layout) : Good I f := by
  refine ⟨hG, hc.inodes, hmem, ?_⟩
  rw [h.own_eq hmem]
  exact hc.booked

theorem Stored.good (hc : f.volume.Consistent I)
    (hfirst : f.volume.geometry.first_data_blk = 0) : Good I f :=
  h.good_of_layout hmem hc (hc.regions.layout hfirst)

end

theorem Stored.consistent (h : f.Stored) (hf : Good I f) : f.volume.Consistent I := by
  refine ⟨hf.layout.toRegions, hf.inodes, ?_⟩
  rw [← h.own_eq hf.mem]
  exact hf.booked

section

variable (hG : f.volume.geometry.Layout) (hn : f.volume.geometry.HasInode f.inode_num)

include hG hn

theorem ends_sync_handle :
    Yields (sync_handle f) (fun _ f' => f'.inode_num = f.inode_num ∧ f'.ext2inode = f.ext2inode ∧
      f'.Stored ∧ Synced f.volume f'.volume f.inode_num f'.ext2inode.serialize) := by
  refine (ends_locked (ends_sync_inode f.inner hG f.ext2inode hn)).mono ?_ (fun _ _ _ => trivial)
  rintro _ f' ⟨hsync, hino, hnum⟩
  have hsync : Synced f.volume f'.volume f.inode_num f'.ext2inode.serialize := by
    rw [hino]
    exact hsync
  refine ⟨hnum, hino, ?_, hsync⟩
  unfold Stored
  rw [hsync.geometry, hnum]
  exact hsync.inode

theorem ends_touch :
    Yields (touch f) (fun _ f' => f'.inode_num = f.inode_num ∧
      f'.ext2inode.i_block = f.ext2inode.i_block ∧ f'.ext2inode.i_size = f.ext2inode.i_size ∧
      f'.Stored ∧ Synced f.volume f'.volume f.inode_num f'.ext2inode.serialize) := by
  refine ends_bind (Q := fun _ f1 => f1.volume = f.volume ∧ f1.ext2inode = f.ext2inode ∧
    f1.inode_num = f.inode_num) (ends_zoom ⟨rfl, rfl, rfl⟩) ?_
  rintro now f1 ⟨hv1, hino1, hnum1⟩
  rw [modify_bind]
  obtain ⟨f2, hf2⟩ : ∃ f2, f2 = f1.set_times now.toUInt32 := ⟨_, rfl⟩
  rw [← hf2]
  have hv2 : f2.volume = f.volume := by rw [hf2]; exact hv1
  have hnum2 : f2.inode_num = f.inode_num := by rw [hf2]; exact hnum1
  refine (ends_sync_handle (by rw [hv2]; exact hG) (by rw [hv2, hnum2]; exact hn)).mono_ok ?_
  rintro _ f3 ⟨hnum3, hino3, hstored, hsync⟩
  refine ⟨hnum3.trans hnum2, ?_, ?_, hstored, ?_⟩
  · rw [hino3, hf2, ← hino1]
    rfl
  · rw [hino3, hf2, ← hino1]
    rfl
  · rw [← hv2, ← hnum2]
    exact hsync

end

/-! ## `write` as a whole -/

theorem sameOthers_of_synced (h : Synced f.volume f'.volume f.inode_num data)
    (hG : f.volume.geometry.Layout) (hn : f.volume.geometry.HasInode f.inode_num)
    (hnum : f'.inode_num = f.inode_num) : SameOthers f f' :=
  ⟨h.toAlike, hnum, fun _ hm hne => h.other_inode hG hn hm hne⟩

theorem Wrote.synced {f1 : ExtFileInodeOps} (hw : Wrote I f f1 offset buf)
    (h : Synced f1.volume f'.volume f1.inode_num data) (hnum : f'.inode_num = f1.inode_num)
    (hblock : f'.ext2inode.i_block = f1.ext2inode.i_block) : Wrote I f f' offset buf := by
  have hown := own_of_synced hw.good h hnum hblock
  have hbyte := byte_of_synced hw.good h hnum hblock
  have hothers := sameOthers_of_synced h hw.good.layout (hw.good.inodes _ hw.good.mem) hnum
  refine ⟨hw.toSameOthers.trans hothers, good_of_synced hw.good h hnum hblock, ?_, ?_, ?_, ?_, ?_,
    hw.short⟩
  · rw [hown]
    exact hw.keep
  · rw [hown]
    exact hw.fill
  · intro P hP hn i hi
    rw [← hw.others P hP hn i hi]
    have hkeep := hw.keep P hP
    refine h.data_block hw.good.layout (hw.good.inodes _ hw.good.mem) (b := f.own I P) ?_ ?_
    · rw [← hkeep]
      exact hw.good.data (by rw [hkeep]; exact hP)
    · rw [hw.geometry]
      exact hi
  · intro q hq
    rw [hbyte]
    exact hw.inside q hq
  · intro p hp hk
    rw [hbyte]
    exact hw.outside p hp hk

theorem Wrote.set_size (h : Wrote I f f' offset buf)
    (z : UInt32) : Wrote I f (f'.set_size z) offset buf :=
  ⟨⟨h.toAlike, h.inode_num, h.inodes⟩, ⟨h.good.layout, h.good.inodes, h.good.mem, h.good.booked⟩,
    h.keep, h.fill, h.others, h.inside, h.outside, h.short⟩

/-- The size after a write. -/
def size_after (f : ExtFileInodeOps) (offset : Nat) (buf : List UInt8) : UInt32 :=
  if buf ≠ [] ∧ f.ext2inode.i_size.toNat < offset + buf.length then
    UInt32.ofNat (offset + buf.length)
  else f.ext2inode.i_size

theorem ends_write (hf : Good I f) (offset : Nat) (buf : List UInt8) :
    Yields (write offset buf f) (fun n f' => n = buf.length ∧ Wrote I f f' offset buf ∧
        f'.ext2inode.i_size = f.size_after offset buf ∧ (f.Stored → f'.Stored)) := by
  unfold write size_after
  rw [get_bind]
  split
  · exact trivial
  split
  · rename_i hbuf
    subst hbuf
    refine ends_pure ⟨rfl, Wrote.nil hf offset, ?_, id⟩
    simp
  rename_i hbuf
  refine ends_bind (ends_write_loop hf (Nat.le_refl _)) ?_
  rintro _ f1 ⟨hw, hsize⟩
  rw [modify_bind]
  -- the size is set, and the inode is written
  have hend : ∀ f2, Wrote I f f2 offset buf →
      Yields ((touch >>= fun _ => pure buf.length) f2)
        (fun n f' => n = buf.length ∧ Wrote I f f' offset buf ∧
          f'.ext2inode.i_size = f2.ext2inode.i_size ∧ (f.Stored → f'.Stored)) := by
    intro f2 hw2
    refine ends_bind (ends_touch hw2.good.layout (hw2.good.inodes _ hw2.good.mem)) ?_
    rintro _ f3 ⟨hnum, hblock, hsize3, hstored, hsync⟩
    exact ends_pure ⟨rfl, hw2.synced hsync hnum hblock, hsize3, fun _ => hstored⟩
  simp only [ne_eq, hbuf, not_false_eq_true, true_and]
  rw [← hsize]
  split
  · exact hend _ (hw.set_size _)
  · exact hend _ hw

end ExtFileInodeOps

end zenos_kernel.disk.fs.ext2
