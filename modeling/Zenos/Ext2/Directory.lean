-- Directories: `ExtDirInodeOps` of `ext2/mod.rs`, and the two kinds of inodes as
-- the driver of the virtual file system.
import Zenos.Ext2.File
import Zenos.Disk.Vfs

namespace zenos_kernel.disk.fs.ext2

open Outcome Ext2FSInner vfs

/-- What an inode of the volume keeps. -/
inductive Ext2Data
  | dir (ext2inode : Ext2Inode) (inode_num : UInt32)
  | file (ext2inode : Ext2Inode) (inode_num : UInt32)

/-- The file types that both `convert_ext2_inode_to_vfs_inode` and `read_dir` know. -/
def file_type (i_mode : UInt16) : Option FileType :=
  if i_mode &&& 0xF000 = 0x4000 then some .Directory
  else if i_mode &&& 0xF000 = 0x8000 then some .File
  else if i_mode &&& 0xF000 = 0xA000 then some .Symlink
  else if i_mode &&& 0xF000 = 0xC000 then some .Socket
  else if i_mode &&& 0xF000 = 0x2000 then some .CharDevice
  else if i_mode &&& 0xF000 = 0x6000 then some .BlockDevice
  else if i_mode &&& 0xF000 = 0x1000 then some .Fifo
  else none

def convert_ext2_inode_to_vfs_inode (ino : Ext2Inode) (ino_num : UInt64) (data : Ext2Data) :
    Ext2M (Inode Ext2Data) :=
  match file_type ino.i_mode with
  | none => throw .panic
  | some kind => pure {
      num := ino_num
      kind := kind
      size := ino.i_size.toUInt64
      perms := ino.i_mode &&& 0x0FFF
      links := ino.i_links_count.toUInt64
      owner_uid := ino.i_uid.toUInt64
      owner_gid := ino.i_gid.toUInt64
      access_time := ino.i_atime.toUInt64
      modified_time := ino.i_mtime.toUInt64
      change_time := ino.i_ctime.toUInt64
      data := data }

namespace ExtDirInodeOps

/-! ## The entries -/

/-- The loop `for b in bs { blocks.extend(f(b)?) }`. Here a pointer of 0 is
followed like any other. -/
def gather_all (f : UInt32 → Ext2M (List UInt32)) : List UInt32 → Ext2M (List UInt32)
  | [] => pure []
  | b :: bs => do
    let blocks ← f b
    let rest ← gather_all f bs
    pure (blocks ++ rest)

/-- The pointers below block `b`, `level` reads deep. -/
def pointers_below : Nat → UInt32 → Ext2M (List UInt32)
  | 0, b => read_block_u32_array b
  | level + 1, b => do
    let ptrs ← read_block_u32_array b
    gather_all (pointers_below level) ptrs

/-- What an indirect slot of the inode leads to. -/
def slot_pointers (level : Nat) (b : UInt32) : Ext2M (List UInt32) :=
  if b ≠ 0 then pointers_below level b else pure []

variable (ino : Ext2Inode)

/-- `collect_data_blocks` of a directory leaves out the direct pointers that are 0. -/
def collect_data_blocks : Ext2M (List UInt32) := do
  let single ← slot_pointers 0 (ino.i_block single_slot)
  let double ← slot_pointers 1 (ino.i_block double_slot)
  let triple ← slot_pointers 2 (ino.i_block triple_slot)
  pure ((((List.ofFn ino.i_block).take 12).filter (· != 0)) ++ single ++ double ++ triple)

/-- The loop over the entries of a block from `offset` on: the entries in use,
and the bytes passed. Every turn but the last passes a byte. -/
def parse_block (block_buf : List UInt8) : Nat → Nat → Ext2M (List DirEntry × Nat)
  | 0, _ => pure ([], 0)
  | fuel + 1, offset =>
    if block_buf.length ≤ offset then pure ([], 0)
    else match DirEntry.deserialize (block_buf.drop offset) with
      | .error e => throw e
      | .ok none => pure ([], 0)
      | .ok (some dentry) =>
        let rec_len := dentry.rec_len.toNat
        if rec_len = 0 ∨ block_buf.length < offset + rec_len ∨ rec_len < 8 ∨ rec_len % 4 ≠ 0 then
          pure ([], 0)
        else do
          let (entries, bytes) ← parse_block block_buf fuel (offset + rec_len)
          pure ((if dentry.inode ≠ 0 then [dentry] else []) ++ entries, rec_len + bytes)

/-- The loop over the blocks. It ends at the first pointer that is 0. -/
def parse_blocks (dir_size : Nat) : List UInt32 → Nat → Ext2M (List DirEntry)
  | [], _ => pure []
  | block_ptr :: blocks, bytes_read =>
    if block_ptr = 0 ∨ dir_size ≤ bytes_read then pure []
    else do
      let s ← get
      let offset ← block_offset block_ptr
      on_device (block.Device.seek offset) .SeekError
      let block_buf ← on_device (block.Device.read s.bs) .ReadError
      let (entries, bytes) ← parse_block block_buf block_buf.length 0
      let rest ← parse_blocks dir_size blocks (bytes_read + bytes)
      pure (entries ++ rest)

def get_dentries : Ext2M (List DirEntry) := do
  let data_blocks ← collect_data_blocks ino
  parse_blocks ino.i_size.toNat data_blocks 0

/-! ## The operations -/

/-- The inode that an entry names, as it is on the disk. -/
def read_inode (inode_num : UInt32) (message : String) : Ext2M Ext2Inode := do
  let inode_offset ← get_block_offset_for_inode_num inode_num
  let s ← get
  let buf ← read_at inode_offset s.superblock.inode_size.toNat
  match Ext2Inode.deserialize buf with
  | none => throw (.err (.Other message))
  | some ino => pure ino

def lookup (ext2inode : Ext2Inode) (name : String) : Ext2M (Inode Ext2Data) := do
  let entries ← get_dentries ext2inode
  match entries.find? (fun e => e.name = name) with
  | none => throw (.err .NotFound)
  | some entry => do
    let ino ← read_inode entry.inode "Error parsing inode"
    if ino.i_mode &&& 0xF000 = 0x4000 then
      convert_ext2_inode_to_vfs_inode ino entry.inode.toUInt64 (.dir ino entry.inode)
    else if ino.i_mode &&& 0xF000 = 0x8000 then
      convert_ext2_inode_to_vfs_inode ino entry.inode.toUInt64 (.file ino entry.inode)
    else if ino.i_mode &&& 0xF000 = 0xA000 then throw .panic
    else throw (.err (.Other "Unsupported file type"))

/-- The `ops` of `read_dir`. -/
def ops_of (inode_num : UInt32) : Ext2M Ext2Data :=
  if ino.i_mode &&& 0xF000 = 0x4000 then pure (.dir ino inode_num)
  else if ino.i_mode &&& 0xF000 = 0x8000 then pure (.file ino inode_num)
  else throw (.err (.Other "Unsupported file type"))

/-- The loop of `read_dir`. -/
def list_entries : List DirEntry → Nat → Ext2M (List (vfs.DirEntry Ext2Data))
  | [], _ => pure []
  | i :: is, offset => do
    let ino ← read_inode i.inode "Error Parsing Inode"
    let data ← ops_of ino i.inode
    let inode ← convert_ext2_inode_to_vfs_inode ino i.inode.toUInt64 data
    let rest ← list_entries is (offset + i.rec_len.toNat)
    pure ({ name := i.name, inode, offset := UInt64.ofNat offset, file_type := inode.kind } :: rest)

def read_dir (ext2inode : Ext2Inode) : Ext2M (List (vfs.DirEntry Ext2Data)) := do
  let dentries ← get_dentries ext2inode
  list_entries dentries 0

/-- `unlink` is not written yet: it asks for inode 0, which panics. -/
def unlink : Ext2M Unit := do
  let s ← get
  if s.read_only then throw (.err .ReadOnlyFilesystem)
  else do
    free_inode 0
    throw .panic

/-- `create` is not written yet. -/
def create : Ext2M (Inode Ext2Data) := do
  let s ← get
  if s.read_only then throw (.err .ReadOnlyFilesystem) else throw (.err .ReadOnlyFilesystem)

end ExtDirInodeOps

/-- `stat`, the same for files and directories. -/
def stat (ext2inode : Ext2Inode) (inode_num : UInt32) : Ext2M Stat := do
  let s ← get
  let size := ext2inode.i_size
  let blk_size := s.device.block_size
  if blk_size.toUInt32 = 0 ∨ UInt32.size ≤ size.toNat + blk_size.toUInt32.toNat then throw .panic
  else pure {
    st_dev := 0
    st_ino := inode_num.toUInt64
    st_mode := ext2inode.i_mode.toUInt32
    st_nlink := ext2inode.i_links_count.toUInt64
    st_uid := ext2inode.i_uid.toUInt32
    st_gid := ext2inode.i_gid.toUInt32
    st_rdev := 0
    st_size := size.toNat
    st_blksize := blk_size.toInt64.toInt
    st_blocks := ((size.toNat + blk_size.toUInt32.toNat - 1) / blk_size.toUInt32.toNat : Nat)
    st_atime := ext2inode.i_atime.toNat
    st_mtime := ext2inode.i_mtime.toNat
    st_ctime := ext2inode.i_ctime.toNat }

/-! ## The driver -/

/-- A call that leaves what the inode keeps. -/
def on_volume {α : Type} (x : Ext2M α) : DriverM Ext2FSInner Ext2Data α :=
  zoom Prod.fst (fun p s => (s, p.2)) x

/-- A call of a file. -/
def on_file {α : Type} (ext2inode : Ext2Inode) (inode_num : UInt32) (x : FileM α) :
    DriverM Ext2FSInner Ext2Data α :=
  zoom (fun p => ⟨p.1, ext2inode, inode_num⟩)
    (fun _ f => (f.inner, .file f.ext2inode f.inode_num)) x

/-- The call of the kind of inode that it is. -/
def by_kind {α : Type} (file : FileM α) (dir : Ext2Inode → UInt32 → Ext2M α) :
    DriverM Ext2FSInner Ext2Data α := do
  let p ← get
  match p.2 with
  | .file ino num => on_file ino num file
  | .dir ino num => on_volume (dir ino num)

instance : InodeOps Ext2FSInner Ext2Data where
  read offset len :=
    by_kind (ExtFileInodeOps.read offset len) (fun _ _ => throw (.err .IsADirectory))
  write offset buf :=
    by_kind (ExtFileInodeOps.write offset buf) (fun _ _ => throw (.err .IsADirectory))
  truncate size :=
    by_kind (ExtFileInodeOps.truncate size) (fun _ _ => throw (.err .IsADirectory))
  sync := by_kind ExtFileInodeOps.sync (fun _ _ => pure ())
  unlink _ := by_kind (throw (.err .NotADirectory)) (fun _ _ => ExtDirInodeOps.unlink)
  lookup name :=
    by_kind (throw (.err .NotADirectory)) (fun ino _ => ExtDirInodeOps.lookup ino name)
  create _ _ _ := by_kind (throw (.err .NotADirectory)) (fun _ _ => ExtDirInodeOps.create)
  read_dir := by_kind (throw (.err .NotADirectory)) (fun ino _ => ExtDirInodeOps.read_dir ino)
  stat := do
    let p ← get
    match p.2 with
    | .file ino num => on_volume (stat ino num)
    | .dir ino num => on_volume (stat ino num)
  current_time := on_volume Ext2FSInner.current_time

end zenos_kernel.disk.fs.ext2
