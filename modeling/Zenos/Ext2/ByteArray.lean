-- A file as an array of bytes. Writes that start inside of the file or at its end
-- behave as on a list of bytes.
import Zenos.Ext2.Reading

namespace zenos_kernel.disk.fs.ext2

open Bytes Outcome PointerTree

theorem Volume.own_of_no_roots {v : Volume} {r : Tree → UInt32} (h : ∀ x, r x = 0)
    (P : Place Tree) : v.own r P = 0 := by
  induction P using Place.induct with
  | hroot x => exact ((v.forest r).own_root x).trans (h x)
  | hchild P j ih =>
    by_contra hne
    exact (Forest.own_of_child (v.forest r) hne).1 ih

namespace ExtFileInodeOps

variable {I : Finset UInt32} {f f' f0 : ExtFileInodeOps} {bs bs' buf : List UInt8} {offset : Nat}

theorem own_of_onWay {P Q : Place Tree} (h : f.own I Q ≠ 0) (hway : OnWay P Q) : f.own I P ≠ 0 := by
  induction Q using Place.induct with
  | hroot x =>
    rw [onWay_root.mp hway]
    exact h
  | hchild Q j ih =>
    rcases onWay_child.mp hway with hway | rfl
    · exact ih (Forest.own_of_child _ h).1 hway
    · exact h

/-- The number of blocks for `len` bytes. -/
def count (f : ExtFileInodeOps) (len : Nat) : Nat := (len + f.bs - 1) / f.bs

/-- A block below the count holds one of the bytes. -/
theorem lt_count_iff (hf : Good I f) {k len : Nat} : k < f.count len ↔ k * f.bs < len := by
  have hpos : 0 < f.bs := hf.layout.bs_pos
  unfold count
  rw [← Nat.succ_le_iff, Nat.le_div_iff_mul_le hpos, Nat.succ_mul]
  omega

theorem le_count (hf : Good I f) (len : Nat) : len ≤ f.count len * f.bs :=
  Nat.le_of_not_lt (fun h => Nat.lt_irrefl _ ((lt_count_iff hf).mpr h))

/-! ## What a file holds -/

/-- The file holds the bytes `bs`. A data block may be missing, and then holds zeros. -/
structure Reads (I : Finset UInt32) (f : ExtFileInodeOps) (bs : List UInt8) : Prop where
  size : f.ext2inode.i_size.toNat = bs.length
  mapped : Mapped I f (f.count bs.length)
  bytes : ∀ p < bs.length, f.byte I p = bs.getD p 0

/-- `read` returns the bytes of the list. -/
theorem Reads.ends_read (h : Reads I f bs) (hf : Good I f) (offset len : Nat) :
    Ends (read offset len f) (fun bytes _ => bytes = (bs.drop offset).take len)
      (fun _ _ => f.volume.Fails) := by
  have hsize := le_count hf bs.length
  rw [← h.size] at hsize
  refine (ExtFileInodeOps.ends_read hf (h.size ▸ h.mapped) hsize offset len).mono ?_
    (fun _ _ hfails => hfails)
  rintro bytes _ ⟨rfl, -⟩
  rw [h.size]
  exact slice_of_getD h.bytes offset len

theorem size_of_write (hsize : f'.ext2inode.i_size = f.size_after offset buf)
    (hlen : f.ext2inode.i_size.toNat = bs.length) (hoff : offset ≤ bs.length)
    (hend : offset + buf.length < UInt32.size) :
    f'.ext2inode.i_size.toNat = max bs.length (offset + buf.length) := by
  rw [hsize, ← hlen]
  rw [← hlen] at hoff
  exact toNat_size_after hoff hend

/-- The file holds the bytes `bs`, and none of its blocks is missing. -/
structure Shows (I : Finset UInt32) (f : ExtFileInodeOps) (bs : List UInt8) : Prop where
  size : f.ext2inode.i_size.toNat = bs.length
  short : ∀ p < bs.length, p / f.bs < f.max_blocks
  present : ∀ p < bs.length, f.block I (p / f.bs) ≠ 0
  bytes : ∀ p < bs.length, f.byte I p = bs.getD p 0

theorem Shows.reads (h : Shows I f bs) (hf : Good I f) : Reads I f bs := by
  have hpos : 0 < f.bs := hf.layout.bs_pos
  have hdiv : ∀ k, k * f.bs / f.bs = k := fun k => Nat.mul_div_cancel k hpos
  refine ⟨h.size, ⟨?_, ?_⟩, h.bytes⟩
  · by_contra hlt
    have hshort := h.short _ ((lt_count_iff hf).mp (Nat.lt_of_not_le hlt))
    rw [hdiv] at hshort
    exact Nat.lt_irrefl _ hshort
  · intro k hk P _ hway
    have hpresent := h.present _ ((lt_count_iff hf).mp hk)
    rw [hdiv] at hpresent
    exact own_of_onWay hpresent hway

theorem Shows.write (h : Shows I f bs) (hoff : offset ≤ bs.length)
    (hend : offset + buf.length < UInt32.size) (hw : Wrote I f f' offset buf)
    (hsize : f'.ext2inode.i_size = f.size_after offset buf) :
    Shows I f' (overwrite bs offset buf) := by
  have hlen : (overwrite bs offset buf).length = max bs.length (offset + buf.length) :=
    length_overwrite_max hoff
  -- a position of the new list is written or was there
  have hcase : ∀ p < (overwrite bs offset buf).length,
      (offset ≤ p ∧ p < offset + buf.length) ∨
        (¬ (offset ≤ p ∧ p < offset + buf.length) ∧ p < bs.length) := by
    intro p hp
    omega
  refine ⟨?_, ?_, ?_, ?_⟩
  · rw [hlen]
    exact size_of_write hsize h.size hoff hend
  · intro p hp
    rw [hw.bs_eq, hw.max_blocks_eq]
    rcases hcase p hp with hin | ⟨-, hlt⟩
    · exact hw.short p hin.1 hin.2
    · exact h.short p hlt
  · intro p hp
    rw [hw.bs_eq]
    rcases hcase p hp with hin | ⟨-, hlt⟩
    · exact hw.present hin
    · rw [hw.block_eq (h.present p hlt)]
      exact h.present p hlt
  · intro p hp
    rw [getD_overwrite hoff]
    rcases hcase p hp with hin | ⟨hout, hlt⟩
    · rw [if_pos hin]
      have hdata := hw.inside (p - offset) (by omega)
      rwa [show offset + (p - offset) = p by omega] at hdata
    · rw [if_neg hout, hw.outside p hout (h.present p hlt)]
      exact h.bytes p hlt

/-! ## Runs -/

/-- A write that came back and left no gap, and what it does to the list of bytes. -/
inductive Gapless : ExtFileInodeOps × List UInt8 → ExtFileInodeOps × List UInt8 → Prop
  | write {f f' : ExtFileInodeOps} {bs buf : List UInt8} {offset n : Nat} :
      offset ≤ f.ext2inode.i_size.toNat → offset + buf.length < UInt32.size →
      write offset buf f = .ok n f' → Gapless (f, bs) (f', overwrite bs offset buf)

/-- What belongs to other inodes is where it was, byte by byte. -/
structure Apart (I : Finset UInt32) (f f' : ExtFileInodeOps) : Prop
    extends Alike f.volume f'.volume where
  inode_num : f'.inode_num = f.inode_num
  keep : ∀ P : Place Tree, P.tree.1 ≠ f.inode_num → f.own I P ≠ 0 → f'.own I P = f.own I P
  bytes : ∀ P : Place Tree, P.tree.1 ≠ f.inode_num → f.own I P ≠ 0 →
    ∀ i, f.volume.geometry.InBlock (f.own I P).toNat i → f'.volume.bytes i = f.volume.bytes i

theorem Apart.write (h : Apart I f0 f) (hw : Wrote I f f' offset buf) : Apart I f0 f' := by
  refine ⟨h.toAlike.trans hw.toAlike, hw.inode_num.trans h.inode_num, ?_, ?_⟩
  · intro P hP hne
    have hkeep := h.keep P hP hne
    rw [hw.keep P (by rw [hkeep]; exact hne), hkeep]
  · intro P hP hne i hi
    have hkeep := h.keep P hP hne
    rw [← h.bytes P hP hne i hi]
    refine hw.others P (by rw [hkeep]; exact hne) (by rw [h.inode_num]; exact hP) i ?_
    rw [h.geometry, hkeep]
    exact hi

/-- What holds all along a run of such writes. -/
structure Follows (I : Finset UInt32) (f0 f : ExtFileInodeOps) (bs : List UInt8) : Prop where
  good : Good I f
  shows : Shows I f bs
  stored : f.Stored
  apart : Apart I f0 f

theorem Follows.step (h : Follows I f0 f bs) (hstep : Gapless (f, bs) (f', bs')) :
    Follows I f0 f' bs' := by
  cases hstep with
  | write hoff hend hrun =>
    obtain ⟨-, hw, hsize, hstored⟩ := (ends_write h.good _ _).of_ok hrun
    rw [h.shows.size] at hoff
    exact ⟨hw.good, h.shows.write hoff hend hw hsize, hstored h.stored, h.apart.write hw⟩

theorem Follows.run {x y : ExtFileInodeOps × List UInt8} (h : Follows I f0 x.1 x.2)
    (hrun : Relation.ReflTransGen Gapless x y) : Follows I f0 y.1 y.2 := by
  induction hrun with
  | refl => exact h
  | tail _ hstep ih => exact ih.step hstep

/-- Writes that leave no gap, on a file that starts without blocks: its size is the number
of the bytes, a read gives those bytes, and what belongs to other files stays. -/
theorem gapless_writes_make_an_array {f f' : ExtFileInodeOps} {bs : List UInt8}
    (hc : f.volume.Consistent I) (hfirst : FirstDataBlock f.inner) (hbs : 1024 < f.bs)
    (hmem : f.inode_num ∈ I) (hstored : f.Stored) (hsize : f.ext2inode.i_size = 0)
    (hrun : Relation.ReflTransGen Gapless (f, []) (f', bs)) :
    f'.ext2inode.i_size.toNat = bs.length ∧ (∀ offset len, Ends (read offset len f')
      (fun bytes _ => bytes.length = min len (f'.ext2inode.i_size.toNat - offset) ∧
        bytes = (bs.drop offset).take len) (fun _ _ => f.volume.Fails)) ∧
    ∀ P : Place Tree, P.tree.1 ≠ f.inode_num → f.volume.own (f.volume.roots I) P ≠ 0 →
      f'.volume.own (f'.volume.roots I) P = f.volume.own (f.volume.roots I) P ∧
      ∀ i, f.volume.geometry.InBlock (f.volume.own (f.volume.roots I) P).toNat i →
        f'.volume.bytes i = f.volume.bytes i := by
  have hfirst0 : f.volume.geometry.first_data_blk = 0 := by
    unfold FirstDataBlock at hfirst
    change 1024 < f.inner.bs at hbs
    rw [if_neg (by omega)] at hfirst
    change f.inner.superblock.first_data_blk.toNat = 0
    rw [hfirst]
    rfl
  have hgood := hstored.good hmem hc hfirst0
  have hstart : Shows I f [] := by
    refine ⟨by rw [hsize]; rfl, ?_, ?_, ?_⟩
    · exact fun p hp => absurd hp (Nat.not_lt_zero p)
    · exact fun p hp => absurd hp (Nat.not_lt_zero p)
    · exact fun p hp => absurd hp (Nat.not_lt_zero p)
  have h := Follows.run (x := (f, [])) 
    ⟨hgood, hstart, hstored, ⟨rfl, rfl, rfl⟩, rfl, fun _ _ _ => rfl, fun _ _ _ _ _ => rfl⟩ hrun
  refine ⟨h.shows.size, ?_, ?_⟩
  · intro offset len
    refine ((h.shows.reads h.good).ends_read h.good offset len).mono ?_ ?_
    · rintro bytes _ rfl
      refine ⟨?_, rfl⟩
      rw [h.shows.size, List.length_take, List.length_drop]
    · intro _ _ hfails
      exact (Volume.fails_congr h.apart.toAlike).mp hfails
  · intro P hP hne
    have hown' := h.stored.own_eq h.good.mem
    rw [← hstored.own_eq hmem] at hne ⊢
    rw [← hown']
    exact ⟨h.apart.keep P hP hne, h.apart.bytes P hP hne⟩

/-! ### A volume with three free blocks and an empty file -/

def emptyInode : Ext2Inode where
  i_mode := 0x81A4
  i_uid := 0
  i_size := 0
  i_atime := 0
  i_ctime := 0
  i_mtime := 0
  i_dtime := 0
  i_gid := 0
  i_links_count := 1
  i_blocks := 0
  i_flags := 0
  _i_osd1 := 0
  i_block := fun _ => 0
  i_generation := 0
  i_file_acl := 0
  i_dir_acl := 0
  i_faddr := 0
  _i_osd2 := Vector.replicate 12 0

/-- The bitmap is in block 2, with blocks 5, 6 and 7 free. Old data fills the rest. -/
def smallBytes : Nat → UInt8 :=
  splice (fun i => if i = 4096 then 0x1F else 0xFF) 8704 emptyInode.serialize

def smallVolume : Ext2FSInner where
  device := ⟨smallBytes, 0, 0, fun _ => false, 512⟩
  partition_offset := 0
  superblock := smallSuperblock 1 0 8 3
  block_group_descriptors := [⟨2, 3, 4, 3, 0, 0, Vector.replicate 14 0⟩]
  read_only := false
  clock := fun _ => 0
  readings := 0

/-- Inode 5 is the empty file. -/
def emptyFile : ExtFileInodeOps := ⟨smallVolume, emptyInode, 5⟩

theorem group_small {g : Nat} (hg : g < smallVolume.volume.geometry.groups.length) : g = 0 :=
  Nat.lt_one_iff.mp hg

theorem metadataByte_small {i : Nat} : smallVolume.volume.geometry.MetadataByte i ↔ i < 2080 := by
  have hgroups : smallVolume.volume.geometry.groups.length = 1 := rfl
  have hstart : smallVolume.volume.geometry.group_start 0 = 0 := rfl
  have hbgdt : smallVolume.volume.geometry.bgdt_at = 2048 := by decide
  have hpart : smallVolume.volume.geometry.partition_offset = 0 := rfl
  constructor
  · rintro (h | ⟨g, hg, -, h1, h2⟩ | h)
    · omega
    · obtain rfl := group_small hg
      omega
    · omega
  · intro h
    by_cases h1 : i < 1024
    · exact Or.inr (Or.inl ⟨0, by omega, Or.inl (by decide), by omega, by omega⟩)
    · by_cases h2 : i < 2048
      · exact Or.inl (by omega)
      · exact Or.inr (Or.inr (by omega))

theorem inBlock_small {b i : Nat} :
    smallVolume.volume.geometry.InBlock b i ↔ b * 2048 ≤ i ∧ i < b * 2048 + 2048 := by
  have hat : smallVolume.volume.geometry.at_ b = b * 2048 := Nat.zero_add _
  have hbs : smallVolume.volume.geometry.bs = 2048 := by decide
  unfold Geometry.InBlock
  rw [hat, hbs]

theorem tableByte_small {i : Nat} :
    smallVolume.volume.geometry.TableByte 0 i ↔ 8192 ≤ i ∧ i < 9216 := by
  have htable : smallVolume.volume.geometry.table_at 0 = 8192 := by decide
  have hlen : smallVolume.volume.geometry.inodes_per_grp *
    smallVolume.volume.geometry.inode_size = 1024 := by decide
  unfold Geometry.TableByte
  rw [htable, hlen]

theorem regions_small : smallVolume.volume.geometry.Regions := by
  have hbitmap : (smallVolume.volume.geometry.group 0).block_bitmap.toNat = 2 := rfl
  refine ⟨by decide, by decide, by decide, by decide, by decide, by decide, ?_, ?_, ?_, ?_, ?_⟩
  · intro g hg i hi
    rw [group_small hg, inBlock_small] at hi
    rw [metadataByte_small]
    omega
  · intro g hg g' hg' hne
    exact absurd ((group_small hg).trans (group_small hg').symm) hne
  · intro g hg i hi
    rw [group_small hg, tableByte_small] at hi
    rw [metadataByte_small]
    omega
  · intro g hg g' hg' i hi
    rw [group_small hg, tableByte_small] at hi
    rw [group_small hg', inBlock_small]
    omega
  · intro g hg g' hg' _ _ _
    exact (group_small hg).trans (group_small hg').symm

/-- The free bits are those of the blocks 5, 6 and 7. -/
theorem clear_small {i : Nat} (hi : i < 16384) :
    smallVolume.volume.clear 0 i = true ↔ 5 ≤ i ∧ i < 8 := by
  have hbyte : ∀ k < 2048, smallBytes (4096 + k) = if k = 0 then 0x1F else 0xFF := by
    intro k hk
    unfold smallBytes
    rw [splice_outside]
    · simp
    · omega
  have hat : smallVolume.volume.geometry.bitmap_at 0 = 4096 := by decide
  change Bitmap.clearBit (smallBytes (smallVolume.volume.geometry.bitmap_at 0 + i / 8)) (i % 8) =
    true ↔ _
  rw [hat, hbyte _ (by omega)]
  have hfull : ∀ k < 8, Bitmap.clearBit 0xFF k = false := by decide
  have hfirst : ∀ k < 8, Bitmap.clearBit 0x1F k = true ↔ 5 ≤ k := by decide
  split
  · rw [hfirst _ (Nat.mod_lt _ (by omega))]
    omega
  · rw [hfull _ (Nat.mod_lt _ (by omega))]
    simp
    omega

theorem dataBlock_small {b : UInt32} (h1 : 5 ≤ b.toNat) (h2 : b.toNat < 8) :
    smallVolume.volume.geometry.DataBlock b := by
  have hbitmap : (smallVolume.volume.geometry.group 0).block_bitmap.toNat = 2 := rfl
  have hinodes : (smallVolume.volume.geometry.group 0).inode_bitmap.toNat = 3 := rfl
  refine ⟨?_, h2, ?_⟩
  · rintro rfl
    exact absurd h1 (by decide)
  intro i hi hres
  rw [inBlock_small] at hi
  rcases hres with hmeta | ⟨g, hg, hres⟩
  · rw [metadataByte_small] at hmeta
    omega
  · obtain rfl := group_small hg
    rw [inBlock_small, inBlock_small, tableByte_small] at hres
    omega

theorem consistent_small : smallVolume.volume.Consistent {5} := by
  have hbs : 8 * smallVolume.volume.geometry.bs = 16384 := by decide
  have hslot : slice smallBytes 8704 128 = emptyInode.serialize := slice_splice _ _ _
  have hroots : ∀ x, smallVolume.volume.roots {5} x = 0 := by
    intro x
    unfold Volume.roots
    split
    · rename_i hx
      rw [Finset.mem_singleton] at hx
      unfold Volume.disk_root
      rw [hx]
      change u32At (slice smallBytes 8704 128) _ = 0
      rw [hslot, Ext2Inode.block_serialize]
      rfl
    · rfl
  have hown : ∀ P, smallVolume.volume.own (smallVolume.volume.roots {5}) P = 0 :=
    Volume.own_of_no_roots hroots
  refine ⟨regions_small, ?_, ?_, ?_, ?_, ?_, ?_⟩
  · intro n hn
    rw [Finset.mem_singleton] at hn
    subst hn
    unfold Geometry.HasInode
    decide
  · intro g bgdt hg
    obtain rfl := group_small (Booked.lt_of_descriptor hg)
    cases hg
    have hfree : smallVolume.volume.free_bits 0 = {5, 6, 7} := by
      ext i
      unfold Volume.free_bits
      rw [Bitmap.mem_free]
      constructor
      · rintro ⟨hi, hc⟩
        have := (clear_small hi).mp hc
        simp
        omega
      · intro hi
        simp at hi
        exact ⟨by omega, (clear_small (by omega)).mpr (by omega)⟩
    rw [hfree]
    rfl
  · decide
  · intro g hg i hi hc
    obtain rfl := group_small hg
    have hrange := (clear_small hi).mp hc
    have hsize : i < UInt32.size := Nat.lt_trans hi (by decide)
    have hnat : (UInt32.ofNat i).toNat = i := UInt32.toNat_ofNat_of_lt' hsize
    refine ⟨hrange.2, UInt32.ofNat i, ?_, dataBlock_small (by omega) (by omega)⟩
    rw [hnat]
    exact (Nat.zero_add i).symm
  · intro P _ hP
    exact absurd (hown P) hP
  · intro P Q _ _ hP _
    exact absurd (hown P) hP

theorem own_emptyFile (P : Place Tree) : emptyFile.own {5} P = 0 := by
  refine Volume.own_of_no_roots (fun x => ?_) P
  unfold roots Volume.roots
  split
  · rfl
  · rename_i hx
    rw [if_neg]
    rw [Finset.mem_singleton]
    exact hx

/-- Two writes, of which the second one starts inside of the first, and the bytes that are
read then. -/
theorem two_writes_read_back : ∃ n f1 n' f2, write 0 [1, 2] emptyFile = .ok n f1 ∧
    write 1 [7, 8] f1 = .ok n' f2 ∧ f2.ext2inode.i_size.toNat = 3 ∧
    Ends (read 0 9 f2) (fun bytes _ => bytes = [1, 7, 8]) (fun _ _ => False) := by
  have hrun : passes (write 0 [1, 2] emptyFile) (fun _ f1 =>
      decide (f1.ext2inode.i_size = 2) && passes (write 1 [7, 8] f1) (fun _ _ => true)) = true := by
    decide +kernel
  obtain ⟨n, f1, h1, hpass⟩ := exists_of_passes hrun
  rw [Bool.and_eq_true, decide_eq_true_eq] at hpass
  obtain ⟨n', f2, h2, -⟩ := exists_of_passes hpass.2
  have hstored : emptyFile.Stored := slice_splice _ _ _
  have hfails : ¬ emptyFile.volume.Fails := by
    rintro (hf | hf)
    · obtain ⟨k, hk⟩ := hf
      cases hk
    · exact hf (by unfold Volume.Fits; decide)
  have hrun : Relation.ReflTransGen Gapless (emptyFile, []) (f2, [1, 7, 8]) :=
    (Relation.ReflTransGen.single (.write (Nat.zero_le _) (by decide) h1)).tail
      (.write (by rw [hpass.1]; decide) (by decide) h2)
  obtain ⟨hsize, hread, -⟩ := gapless_writes_make_an_array (I := {5}) (f := emptyFile)
    consistent_small (by unfold FirstDataBlock; decide) (by decide)
    (Finset.mem_singleton_self 5) hstored rfl hrun
  exact ⟨n, f1, n', f2, h1, h2, hsize, (hread 0 9).mono (fun _ _ h => h.2) (fun _ _ h => hfails h)⟩

end ExtFileInodeOps

end zenos_kernel.disk.fs.ext2
