-- The structures that ext2 keeps on the disk, as `ext2/plumbing.rs` reads and
-- writes them: superblock, block group descriptor, inode and directory entry.
import Zenos.Disk.Device
import Zenos.Lib.Utf8

namespace zenos_kernel.disk.fs.ext2

open Bytes

/-! ## Constants -/

def SUPERBLOCK_OFFSET : Nat := 1024

def SUPERBLOCK_SIZE : Nat := 1024

def ROOT_INODE_NUM : UInt32 := 2

def MIN_BLOCK_SIZE : Nat := 1024

def BGDT_BLOCK_1K : Nat := 2

def BGDT_BLOCK_DEFAULT : Nat := 1

def BGDT_ENTRY_SIZE : Nat := 32

def EXT2_FEATURE_RO_COMPAT_SPARSE_SUPER : UInt32 := 0x0001

def EXT2_SUPPORTED_RO_COMPAT_FEATURES : UInt32 := EXT2_FEATURE_RO_COMPAT_SPARSE_SUPER

def EXT2_FEATURE_INCOMPAT_FILETYPE : UInt32 := 0x2

/-- The `n` bytes at `k`, as an array. -/
def arrayAt (bytes : List UInt8) (k n : Nat) : Vector UInt8 n :=
  Vector.ofFn (fun i => bytes.getD (k + i) 0)

theorem arrayAt_append (a b : List UInt8) (k n : Nat) :
    arrayAt (a ++ b) (k + a.length) n = arrayAt b k n := by
  unfold arrayAt
  congr 1
  funext i
  rw [Nat.add_right_comm]
  simp [List.getElem?_append_right]

theorem arrayAt_skip16 (v : UInt16) (b : List UInt8) (k n : Nat) :
    arrayAt (le16 v ++ b) (k + 2) n = arrayAt b k n := arrayAt_append (le16 v) b k n

theorem arrayAt_skip32 (v : UInt32) (b : List UInt8) (k n : Nat) :
    arrayAt (le32 v ++ b) (k + 4) n = arrayAt b k n := arrayAt_append (le32 v) b k n

theorem arrayAt_toList {n : Nat} (v : Vector UInt8 n) : arrayAt v.toList 0 n = v := by
  apply Vector.ext
  intro i hi
  simp [arrayAt]

theorem arrayAt_head {n : Nat} (v : Vector UInt8 n) (b : List UInt8) :
    arrayAt (v.toList ++ b) 0 n = v := by
  apply Vector.ext
  intro i hi
  simp [arrayAt, List.getElem?_append_left]

section

variable {m : Nat} (v : Vector UInt8 m) (b : List UInt8) (k : Nat)

theorem arrayAt_skip (n : Nat) : arrayAt (v.toList ++ b) (k + m) n = arrayAt b k n := by
  have h := arrayAt_append v.toList b k n
  rwa [Vector.length_toList] at h

theorem u32At_skip : u32At (v.toList ++ b) (k + m) = u32At b k := by
  have h := u32At_append v.toList b k
  rwa [Vector.length_toList, Nat.add_comm] at h

end

variable {bytes : List UInt8}

theorem toList_arrayAt_append {k n : Nat} (h : k + n ≤ bytes.length) :
    (arrayAt bytes k n).toList ++ bytes.drop (k + n) = bytes.drop k := by
  have htake : (arrayAt bytes k n).toList = (bytes.drop k).take n := by
    apply List.ext_getElem
    · simp
      omega
    · intro i h1 h2
      have hi : k + i < bytes.length := by
        simp at h2
        omega
      simp [arrayAt, hi]
  rw [htake, ← List.drop_drop, List.take_append_drop]

theorem toList_arrayAt {k n : Nat} (h : bytes.length = k + n) :
    (arrayAt bytes k n).toList = bytes.drop k := by
  have hall := toList_arrayAt_append (Nat.le_of_eq h.symm)
  rwa [List.drop_of_length_le (Nat.le_of_eq h), List.append_nil] at hall

/-! ## The superblock -/

structure Ext2Superblock where
  ino_count : UInt32
  blk_count : UInt32
  reserved_blk_count : UInt32
  free_blocks : UInt32
  free_inodes : UInt32
  first_data_blk : UInt32
  log_blk_size : UInt32
  log_frag_size : UInt32
  blocks_per_grp : UInt32
  frags_per_grp : UInt32
  inodes_per_grp : UInt32
  mnt_time : UInt32
  wrt_time : UInt32
  mnt_count : UInt16
  max_mnt_count : UInt16
  magic : UInt16
  state : UInt16
  errors : UInt16
  minor_rev_level : UInt16
  lastcheck : UInt32
  checkinterval : UInt32
  creator_os : UInt32
  rev_level : UInt32
  res_uid : UInt16
  res_gid : UInt16
  first_ino : UInt32
  inode_size : UInt16
  block_group_nr : UInt16
  feature_compat : UInt32
  feature_incompat : UInt32
  feature_ro_compat : UInt32
  uuid : Vector UInt8 16
  volume_name : Vector UInt8 16
  last_mounted : Vector UInt8 64
  algo_bitmap : UInt32

namespace Ext2Superblock

def deserialize (bytes : List UInt8) : Option Ext2Superblock :=
  if bytes.length < 204 then none
  else some {
    ino_count := u32At bytes 0
    blk_count := u32At bytes 4
    reserved_blk_count := u32At bytes 8
    free_blocks := u32At bytes 12
    free_inodes := u32At bytes 16
    first_data_blk := u32At bytes 20
    log_blk_size := u32At bytes 24
    log_frag_size := u32At bytes 28
    blocks_per_grp := u32At bytes 32
    frags_per_grp := u32At bytes 36
    inodes_per_grp := u32At bytes 40
    mnt_time := u32At bytes 44
    wrt_time := u32At bytes 48
    mnt_count := u16At bytes 52
    max_mnt_count := u16At bytes 54
    magic := u16At bytes 56
    state := u16At bytes 58
    errors := u16At bytes 60
    minor_rev_level := u16At bytes 62
    lastcheck := u32At bytes 64
    checkinterval := u32At bytes 68
    creator_os := u32At bytes 72
    rev_level := u32At bytes 76
    res_uid := u16At bytes 80
    res_gid := u16At bytes 82
    first_ino := u32At bytes 84
    inode_size := u16At bytes 88
    block_group_nr := u16At bytes 90
    feature_compat := u32At bytes 92
    feature_incompat := u32At bytes 96
    feature_ro_compat := u32At bytes 100
    uuid := arrayAt bytes 104 16
    volume_name := arrayAt bytes 120 16
    last_mounted := arrayAt bytes 136 64
    algo_bitmap := u32At bytes 200 }

variable (sb : Ext2Superblock)

/-- `1024u32.checked_shl(log_blk_size)`. -/
def checked_block_size : Option UInt32 :=
  if sb.log_blk_size < 32 then some (1024 <<< sb.log_blk_size) else none

def validate : Except FsMountError Unit :=
  if sb.magic ≠ 0xEF53 then .error .InvalidSuperblock
  else match sb.checked_block_size with
    | none => .error .Corrupted
    | some block_size =>
      if block_size < 1024 ∨ 65536 < block_size then .error .Corrupted
      else if 1 ≤ sb.rev_level ∧ (sb.inode_size < 128 ∨ sb.inode_size % 4 ≠ 0) then
        .error .Corrupted
      else if sb.blocks_per_grp = 0 ∨ sb.inodes_per_grp = 0 then .error .Corrupted
      else if sb.blk_count < sb.free_blocks then .error .Corrupted
      else if sb.ino_count < sb.free_inodes then .error .Corrupted
      else if sb.first_ino = 0 then .error .Corrupted
      else if sb.feature_incompat &&& ~~~EXT2_FEATURE_INCOMPAT_FILETYPE ≠ 0 then
        .error .Unsupported
      else .ok ()

def block_size : UInt32 := 1024 <<< sb.log_blk_size

/-- What a superblock keeps that passes `validate`. -/
structure Valid (sb : Ext2Superblock) : Prop where
  block_size : sb.block_size.toNat ∈ [1024, 2048, 4096, 8192, 16384, 32768, 65536]
  inode_size : 1 ≤ sb.rev_level → 128 ≤ sb.inode_size ∧ sb.inode_size % 4 = 0
  blocks_per_grp : sb.blocks_per_grp ≠ 0
  inodes_per_grp : sb.inodes_per_grp ≠ 0

variable {sb : Ext2Superblock}

theorem block_size_cases (hlog : sb.log_blk_size < 32)
    (h : ¬ (sb.block_size < 1024 ∨ 65536 < sb.block_size)) :
    sb.block_size.toNat ∈ [1024, 2048, 4096, 8192, 16384, 32768, 65536] := by
  have hall : ∀ n < 32, ¬ ((1024 : UInt32) <<< UInt32.ofNat n < 1024 ∨
      65536 < (1024 : UInt32) <<< UInt32.ofNat n) → ((1024 : UInt32) <<< UInt32.ofNat n).toNat ∈
        [1024, 2048, 4096, 8192, 16384, 32768, 65536] := by decide
  have hn := hall sb.log_blk_size.toNat hlog
  rw [UInt32.ofNat_toNat] at hn
  exact hn h

theorem valid_of_validate (h : sb.validate = .ok ()) : sb.Valid := by
  unfold validate checked_block_size at h
  by_cases hlog : sb.log_blk_size < 32
  · rw [if_pos hlog] at h
    dsimp only at h
    split at h
    · cases h
    split at h
    · cases h
    rename_i hsize
    split at h
    · cases h
    rename_i hinode
    split at h
    · cases h
    rename_i hgrp
    refine ⟨block_size_cases hlog hsize, fun hrev => ?_, fun h0 => hgrp (Or.inl h0),
      fun h0 => hgrp (Or.inr h0)⟩
    constructor
    · exact UInt16.not_lt.mp (fun hlt => hinode ⟨hrev, Or.inl hlt⟩)
    · exact Decidable.byContradiction (fun hmod => hinode ⟨hrev, Or.inr hmod⟩)
  · split at h
    · cases h
    · cases h

variable (sb : Ext2Superblock)

/-- The fields in the order of their offsets, and zeros up to 1024 bytes. -/
def serialize : List UInt8 :=
  le32 sb.ino_count ++ (le32 sb.blk_count ++ (le32 sb.reserved_blk_count ++
  (le32 sb.free_blocks ++ (le32 sb.free_inodes ++ (le32 sb.first_data_blk ++
  (le32 sb.log_blk_size ++ (le32 sb.log_frag_size ++ (le32 sb.blocks_per_grp ++
  (le32 sb.frags_per_grp ++ (le32 sb.inodes_per_grp ++ (le32 sb.mnt_time ++
  (le32 sb.wrt_time ++ (le16 sb.mnt_count ++ (le16 sb.max_mnt_count ++
  (le16 sb.magic ++ (le16 sb.state ++ (le16 sb.errors ++ (le16 sb.minor_rev_level ++
  (le32 sb.lastcheck ++ (le32 sb.checkinterval ++ (le32 sb.creator_os ++
  (le32 sb.rev_level ++ (le16 sb.res_uid ++ (le16 sb.res_gid ++ (le32 sb.first_ino ++
  (le16 sb.inode_size ++ (le16 sb.block_group_nr ++ (le32 sb.feature_compat ++
  (le32 sb.feature_incompat ++ (le32 sb.feature_ro_compat ++ (sb.uuid.toList ++
  (sb.volume_name.toList ++ (sb.last_mounted.toList ++ (le32 sb.algo_bitmap ++
  List.replicate 820 0))))))))))))))))))))))))))))))))))

@[simp] theorem length_serialize : sb.serialize.length = SUPERBLOCK_SIZE := by
  simp only [serialize, List.length_append, length_le32, length_le16, Vector.length_toList,
    List.length_replicate, SUPERBLOCK_SIZE]

theorem drop_serialize : sb.serialize.drop 204 = List.replicate 820 0 := by
  simp only [serialize, ← List.append_assoc]
  exact List.drop_left' (by simp)

theorem deserialize_serialize : deserialize sb.serialize = some sb := by
  unfold deserialize
  rw [if_neg (by rw [length_serialize]; decide)]
  simp only [serialize, u16At_skip16, u16At_skip32, u16At_head, u32At_skip16, u32At_skip32,
    u32At_head, u32At_skip (m := 16), u32At_skip (m := 64), arrayAt_skip16, arrayAt_skip32,
    arrayAt_skip (m := 16), arrayAt_head]

/-- The bytes behind the fields come back as zeros. -/
theorem serialize_deserialize_iff (hlen : bytes.length = SUPERBLOCK_SIZE) :
    (deserialize bytes).map serialize = some bytes ↔ bytes.drop 204 = List.replicate 820 0 := by
  unfold deserialize
  rw [hlen, if_neg (by decide), Option.map_some, Option.some_inj]
  constructor
  · intro h
    rw [← h, drop_serialize]
  · intro h
    have harray : ∀ k n, k + n ≤ bytes.length →
        (arrayAt bytes k n).toList ++ bytes.drop (k + n) = bytes.drop k :=
      fun k n hk => toList_arrayAt_append hk
    unfold SUPERBLOCK_SIZE at hlen
    unfold serialize
    rw [← h]
    simp (disch := omega) only [le32_u32At, le16_u16At, harray]
    rfl

end Ext2Superblock

/-! ## The block group descriptor -/

structure BlockGroupDescriptorTable where
  bg_block_bitmap : UInt32
  bg_inode_bitmap : UInt32
  bg_inode_table : UInt32
  bg_free_blocks_count : UInt16
  bg_free_inodes_count : UInt16
  bg_used_dirs_count : UInt16
  _padding : Vector UInt8 14

namespace BlockGroupDescriptorTable

def deserialize (bytes : List UInt8) : Option BlockGroupDescriptorTable :=
  if bytes.length < 32 then none
  else some {
    bg_block_bitmap := u32At bytes 0
    bg_inode_bitmap := u32At bytes 4
    bg_inode_table := u32At bytes 8
    bg_free_blocks_count := u16At bytes 12
    bg_free_inodes_count := u16At bytes 14
    bg_used_dirs_count := u16At bytes 16
    _padding := arrayAt bytes 18 14 }

variable (bgdt : BlockGroupDescriptorTable)

def serialize : List UInt8 :=
  le32 bgdt.bg_block_bitmap ++ (le32 bgdt.bg_inode_bitmap ++ (le32 bgdt.bg_inode_table ++
  (le16 bgdt.bg_free_blocks_count ++ (le16 bgdt.bg_free_inodes_count ++
  (le16 bgdt.bg_used_dirs_count ++ bgdt._padding.toList)))))

@[simp] theorem length_serialize : bgdt.serialize.length = BGDT_ENTRY_SIZE := by
  simp [serialize, BGDT_ENTRY_SIZE]

theorem deserialize_serialize : deserialize bgdt.serialize = some bgdt := by
  unfold deserialize
  rw [if_neg (by rw [length_serialize]; decide)]
  simp only [serialize, u16At_skip16, u16At_skip32, u16At_head, u32At_skip32, u32At_head,
    arrayAt_skip16, arrayAt_skip32, arrayAt_toList]

theorem serialize_deserialize (hlen : bytes.length = 32) :
    (deserialize bytes).map serialize = some bytes := by
  unfold deserialize
  rw [if_neg (by omega), Option.map_some]
  unfold serialize
  rw [toList_arrayAt hlen]
  simp (disch := omega) only [le32_u32At, le16_u16At]
  rfl

end BlockGroupDescriptorTable

/-! ## The inode -/

structure Ext2Inode where
  i_mode : UInt16
  i_uid : UInt16
  i_size : UInt32
  i_atime : UInt32
  i_ctime : UInt32
  i_mtime : UInt32
  i_dtime : UInt32
  i_gid : UInt16
  i_links_count : UInt16
  i_blocks : UInt32
  i_flags : UInt32
  _i_osd1 : UInt32
  i_block : Fin 15 → UInt32
  i_generation : UInt32
  i_file_acl : UInt32
  i_dir_acl : UInt32
  i_faddr : UInt32
  _i_osd2 : Vector UInt8 12

/-! The slots of the three indirect blocks in `i_block`. -/

def single_slot : Fin 15 := ⟨12, by decide⟩

def double_slot : Fin 15 := ⟨13, by decide⟩

def triple_slot : Fin 15 := ⟨14, by decide⟩

namespace Ext2Inode

def deserialize (bytes : List UInt8) : Option Ext2Inode :=
  if bytes.length < 128 then none
  else some {
    i_mode := u16At bytes 0
    i_uid := u16At bytes 2
    i_size := u32At bytes 4
    i_atime := u32At bytes 8
    i_ctime := u32At bytes 12
    i_mtime := u32At bytes 16
    i_dtime := u32At bytes 20
    i_gid := u16At bytes 24
    i_links_count := u16At bytes 26
    i_blocks := u32At bytes 28
    i_flags := u32At bytes 32
    _i_osd1 := u32At bytes 36
    i_block := fun j => u32At bytes (40 + j * 4)
    i_generation := u32At bytes 100
    i_file_acl := u32At bytes 104
    i_dir_acl := u32At bytes 108
    i_faddr := u32At bytes 112
    _i_osd2 := arrayAt bytes 116 12 }

variable (ino : Ext2Inode)

def serialize : List UInt8 :=
  le16 ino.i_mode ++ (le16 ino.i_uid ++ (le32 ino.i_size ++ (le32 ino.i_atime ++
  (le32 ino.i_ctime ++ (le32 ino.i_mtime ++ (le32 ino.i_dtime ++ (le16 ino.i_gid ++
  (le16 ino.i_links_count ++ (le32 ino.i_blocks ++ (le32 ino.i_flags ++ (le32 ino._i_osd1 ++
  (ofWords (List.ofFn ino.i_block) ++ (le32 ino.i_generation ++ (le32 ino.i_file_acl ++
  (le32 ino.i_dir_acl ++ (le32 ino.i_faddr ++ ino._i_osd2.toList))))))))))))))))

@[simp] theorem length_serialize : ino.serialize.length = 128 := by
  simp [serialize]

/-- The 60 bytes of the block pointers are skipped. -/
theorem u32At_skip_block (i_block : Fin 15 → UInt32) (b : List UInt8) (k : Nat) :
    u32At (ofWords (List.ofFn i_block) ++ b) (k + 60) = u32At b k := by
  have h := u32At_append (ofWords (List.ofFn i_block)) b k
  rwa [length_ofWords, List.length_ofFn, Nat.add_comm] at h

theorem arrayAt_skip_block (i_block : Fin 15 → UInt32) (b : List UInt8) (k n : Nat) :
    arrayAt (ofWords (List.ofFn i_block) ++ b) (k + 60) n = arrayAt b k n := by
  have h := arrayAt_append (ofWords (List.ofFn i_block)) b k n
  rwa [length_ofWords, List.length_ofFn] at h

theorem block_serialize (j : Fin 15) : u32At ino.serialize (40 + j * 4) = ino.i_block j := by
  have hj : (j : Nat) < (List.ofFn ino.i_block).length := by simp
  unfold serialize
  rw [Nat.add_comm, Nat.mul_comm]
  simp only [u32At_skip16, u32At_skip32]
  rw [u32At_ofWords hj]
  simp [-List.ofFn_succ]

theorem deserialize_serialize : deserialize ino.serialize = some ino := by
  unfold deserialize
  rw [if_neg (by rw [length_serialize]; decide)]
  simp only [block_serialize]
  simp only [serialize, u16At_skip16, u16At_skip32, u16At_head, u32At_skip16, u32At_skip32,
    u32At_head, u32At_skip_block, arrayAt_skip16, arrayAt_skip32, arrayAt_skip_block,
    arrayAt_toList]

theorem serialize_deserialize {ino : Ext2Inode} (hlen : bytes.length = 128)
    (h : deserialize bytes = some ino) : ino.serialize = bytes := by
  unfold deserialize at h
  rw [if_neg (by omega)] at h
  cases h
  have hblock := ofWords_u32At (b := bytes) (n := 15) (k := 40) (by omega)
  unfold serialize
  rw [toList_arrayAt hlen]
  simp (disch := omega) only [hblock, le32_u32At, le16_u16At]
  rfl

end Ext2Inode

structure DirEntry where
  inode : UInt32
  rec_len : UInt16
  name_len : UInt8
  file_type : UInt8
  name : String

/-- A record length below 8 makes `rec_len - 8` overflow, which panics. -/
def DirEntry.deserialize (bytes : List UInt8) : Except (Fault FileError) (Option DirEntry) :=
  if bytes.length < 8 then .ok none
  else
    let rec_len := u16At bytes 4
    let name_len := bytes.getD 6 0
    if bytes.length < rec_len.toNat then .ok none
    else if rec_len < 8 then .error .panic
    else if rec_len.toNat - 8 < name_len.toNat then .ok none
    else .ok (some {
      inode := u32At bytes 0
      rec_len := rec_len
      name_len := name_len
      file_type := bytes.getD 7 0
      name := Utf8.from_utf8_lossy ((bytes.drop 8).take name_len.toNat) })

end zenos_kernel.disk.fs.ext2
