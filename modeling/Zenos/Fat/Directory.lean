-- Directories: `FatDirectory` of `fat/mod.rs`, and the inodes that the file
-- system hands out. An inode is shared: the cache finds the one that is still
-- referenced, by the slot of its entry.
import Zenos.Fat.File
import Zenos.Disk.Vfs
import Mathlib.Logic.Function.Basic

namespace zenos_kernel.disk.fs.fat

open Bytes Outcome FatFileSystemInner FatTable vfs

/-- More turns than a loop over a chain can take and still end: a cluster is a
number of 32 bits, and a chain that comes back to one of its clusters has no end. -/
def turns : Nat := 2 * UInt32.size

structure FatDirectory where
  cluster : Nat
  is_root : Bool

namespace FatDirectory

/-! ## The entries -/

/-- `buf.chunks(FatDirEntry::SIZE)`. -/
def chunks (buf : List UInt8) : List (List UInt8) :=
  (List.range (buf.length / FatDirEntry.SIZE)).map
    (fun i => (buf.drop (FatDirEntry.SIZE * i)).take FatDirEntry.SIZE)

/-- The entries in the chunks, with their indices, and whether the end mark is
among the chunks. -/
def scan : Nat → List (List UInt8) → List (FatDirEntry × Nat) × Bool
  | _, [] => ([], false)
  | idx, chunk :: chunks =>
    if chunk.getD 0 0 = 0x00 then ([], true)
    else
      let rest := scan (idx + 1) chunks
      match FatDirEntry.parse chunk with
      | some entry =>
        if !entry.is_long_name && !entry.is_volume_id then ((entry, idx) :: rest.1, rest.2) else rest
      | none => rest

/-- The loop of `read_entries` over the clusters of the directory. -/
def read_chain : Nat → Nat → Nat → FatM (List (FatDirEntry × Nat))
  | 0, _, _ => throw .panic
  | fuel + 1, cluster, global_idx => do
    let s ← get
    let buf ← read_cluster cluster
    let found := scan global_idx (chunks buf)
    if found.2 then pure found.1
    else do
      let next ← read_entry cluster
      if is_eoc s.fat_type next then pure found.1
      else do
        let rest ← read_chain fuel next (global_idx + s.entries_per_cluster)
        pure (found.1 ++ rest)

/-- The bytes of the root directory of FAT12 and FAT16. -/
def read_root : FatM (List UInt8) := do
  let s ← get
  read_at s.root_dir_offset (s.bpb.root_entry_count.toNat * FatDirEntry.SIZE)

def read_entries (d : FatDirectory) : FatM (List (FatDirEntry × Nat)) := do
  let s ← get
  if s.fixed_root d.is_root then do
    let buf ← read_root
    pure (scan 0 (chunks buf)).1
  else read_chain turns d.cluster 0

def find_entry (table : CaseTable) (d : FatDirectory) (name : List Char) :
    FatM (Option (FatDirEntry × Nat)) := do
  let entries ← read_entries d
  pure (entries.find? (fun e => table.to_uppercase e.1.short_name = table.to_uppercase name))

/-! ## A new entry -/

/-- The first chunk that is free. -/
def free_chunk (buf : List UInt8) : Option Nat :=
  (chunks buf).findIdx? (fun chunk => chunk.getD 0 0 = 0x00 || chunk.getD 0 0 = 0xE5)

/-- The loop of `create_entry` over the clusters of the directory. -/
def create_in (entry_data : List UInt8) : Nat → Nat → FatM Unit
  | 0, _ => throw .panic
  | fuel + 1, cluster => do
    let s ← get
    let buf ← read_cluster cluster
    match free_chunk buf with
    | some i => write_cluster cluster (overwrite buf (FatDirEntry.SIZE * i) entry_data)
    | none => do
      let next ← read_entry cluster
      if is_eoc s.fat_type next then do
        let new_dir_cluster ← allocate_cluster
        write_entry cluster new_dir_cluster
        write_cluster new_dir_cluster
          (overwrite (List.replicate s.cluster_size 0) 0 entry_data)
      else create_in entry_data fuel next

/-- A new directory gets a cluster of zeros, a new file none. -/
def new_cluster (is_dir : Bool) : FatM Nat := do
  let s ← get
  if is_dir then do
    let cluster ← allocate_cluster
    write_cluster cluster (List.replicate s.cluster_size 0)
    pure cluster
  else pure 0

def new_entry (table : CaseTable) (name : List Char) (is_dir : Bool) (cluster : Nat) : FatDirEntry :=
  FatDirEntry.set_first_cluster
    { name := name_to_8_3 table name
      attr := if is_dir then FatDirEntry.ATTR_DIRECTORY else FatDirEntry.ATTR_ARCHIVE
      nt_reserved := 0
      create_time_tenth := 0
      create_time := 0
      create_date := 0
      last_access_date := 0
      first_cluster_high := 0
      first_cluster_low := 0
      write_time := 0
      write_date := 0
      file_size := 0 } cluster

def create_entry (table : CaseTable) (d : FatDirectory) (name : List Char) (is_dir : Bool) :
    FatM FatDirEntry := do
  let s ← get
  let cluster ← new_cluster is_dir
  let entry := new_entry table name is_dir cluster
  if s.fixed_root d.is_root then do
    let buf ← read_root
    match free_chunk buf with
    | some i => do
      write_at s.root_dir_offset (overwrite buf (FatDirEntry.SIZE * i) entry.serialize)
      pure entry
    | none => throw (.err (.Other "Root directory full"))
  else do
    create_in entry.serialize turns d.cluster
    pure entry

/-! ## Unlinking -/

/-- The loop of `unlink` that frees a chain. -/
def free_chain : Nat → Nat → FatM Unit
  | 0, _ => throw .panic
  | fuel + 1, cluster => do
    let s ← get
    let next ← read_entry cluster
    write_entry cluster 0
    if is_eoc s.fat_type next then pure () else free_chain fuel next

/-- The end of `unlink`: the slot is marked as deleted. -/
def mark_deleted (slot : Slot) : FatM Unit := do
  let s ← get
  if s.fixed_root slot.in_root then do
    let offset := s.root_dir_offset + slot.entry_index * FatDirEntry.SIZE
    let entry_data ← read_at offset FatDirEntry.SIZE
    write_at offset (entry_data.set 0 0xE5)
  else do
    let offset_in_cluster := (slot.entry_index % s.entries_per_cluster) * FatDirEntry.SIZE
    let cluster ← nth_cluster (slot.entry_index / s.entries_per_cluster) slot.dir_cluster
    let buf ← read_cluster cluster
    write_cluster cluster (buf.set offset_in_cluster 0xE5)

def slot (d : FatDirectory) (idx : Nat) : Slot :=
  { dir_cluster := d.cluster, entry_index := idx, in_root := d.is_root }

/-- `unlink` up to the cache: the slot that was marked. -/
def unlink (table : CaseTable) (d : FatDirectory) (name : List Char) : FatM Slot := do
  match ← find_entry table d name with
  | none => throw (.err .NotFound)
  | some (entry, entry_index) =>
    if entry.is_directory then throw (.err .IsADirectory)
    else do
      if 2 ≤ entry.first_cluster then free_chain turns entry.first_cluster else pure ()
      mark_deleted (d.slot entry_index)
      pure (d.slot entry_index)

end FatDirectory

/-! ## Inodes -/

/-- What an inode of the volume keeps. -/
inductive FatData
  | dir (d : FatDirectory)
  | file (f : FatFileData)

/-- The volume with its inodes. An `Arc` is the number of its inode, in the order
of creation, and `dropped` tells which ones have no reference left, so that a
`Weak` of the cache does not find them. -/
structure FatFileSystem where
  inner : FatFileSystemInner
  ino_cache : Slot → Option Nat
  inodes : List (Inode FatData)
  dropped : Nat → Bool

abbrev FsM := EStateM (Fault FileError) FatFileSystem

namespace FatFileSystem

/-- A step on the volume. -/
def locked {α : Type} (x : FatM α) : FsM α := zoom (·.inner) (fun fs s => { fs with inner := s }) x

/-- `Permissions::all()`. -/
def all_permissions : UInt16 := 0o7777

def permissions (entry : FatDirEntry) : UInt16 :=
  if entry.attr &&& FatDirEntry.ATTR_READ_ONLY != 0 then all_permissions &&& ~~~0o222
  else all_permissions

variable (fs : FatFileSystem)

def cache (key : Slot) (id : Option Nat) : FatFileSystem :=
  { fs with ino_cache := Function.update fs.ino_cache key id }

def push (inode : Inode FatData) : FatFileSystem :=
  { fs with inodes := fs.inodes ++ [inode] }

/-- `upgrade`: the inode is still referenced. -/
def upgrade (id : Nat) : Bool := id < fs.inodes.length && !fs.dropped id

def data_of (d : FatDirectory) (entry : FatDirEntry) (idx : Nat) : FatData :=
  if entry.is_directory then .dir { cluster := entry.first_cluster, is_root := false }
  else .file { entry, cursor := 0, slot := d.slot idx }

def create_and_cache_inode (d : FatDirectory) (entry : FatDirEntry) (idx : Nat) : FsM Nat := do
  let now ← locked current_time
  let fs ← get
  let id := fs.inodes.length
  modify (·.push {
    num := UInt64.ofNat (d.cluster <<< 32 ||| idx)
    kind := if entry.is_directory then .Directory else .File
    size := entry.file_size.toUInt64
    perms := permissions entry
    links := 1
    owner_uid := 0
    owner_gid := 0
    access_time := now
    modified_time := now
    change_time := now
    data := data_of d entry idx })
  modify (·.cache (d.slot idx) (some id))
  pure id

/-- The inode of the entry: the one in the cache that is still referenced, or a
new one. A `Weak` that is dead is removed first. -/
def inode_of (d : FatDirectory) (entry : FatDirEntry) (idx : Nat) : FsM Nat := do
  let fs ← get
  match fs.ino_cache (d.slot idx) with
  | some id =>
    if fs.upgrade id then pure id
    else do
      modify (·.cache (d.slot idx) none)
      create_and_cache_inode d entry idx
  | none => create_and_cache_inode d entry idx

variable (table : CaseTable)

def lookup (d : FatDirectory) (name : List Char) : FsM Nat := do
  match ← locked (d.find_entry table name) with
  | none => throw (.err .NotFound)
  | some (entry, idx) => inode_of d entry idx

def create (d : FatDirectory) (name : List Char) (kind : FileType) :
    FsM Nat := do
  let _ ← locked (d.create_entry table name (kind = .Directory))
  lookup table d name

def unlink (d : FatDirectory) (name : List Char) : FsM Unit := do
  let key ← locked (d.unlink table name)
  modify (·.cache key none)

/-- The loop of `read_dir`. -/
def list_entries (d : FatDirectory) :
    List (FatDirEntry × Nat) → FsM (List (FatDirEntry × Nat × Nat))
  | [] => pure []
  | (entry, idx) :: entries => do
    let id ← inode_of d entry idx
    let rest ← list_entries d entries
    pure ((entry, idx, id) :: rest)

/-- `read_dir`: the entries with their indices and their inodes. -/
def read_dir (d : FatDirectory) : FsM (List (FatDirEntry × Nat × Nat)) := do
  let entries ← locked d.read_entries
  list_entries d entries

/-! ## The driver -/

/-- A call that leaves what the inode keeps. -/
def on_volume {α : Type} (x : FsM α) : DriverM FatFileSystem FatData α :=
  zoom Prod.fst (fun p s => (s, p.2)) x

/-- A call of a file. -/
def on_file {α : Type} (f : FatFileData) (x : FileM α) : DriverM FatFileSystem FatData α :=
  zoom (fun p => { toFatFileData := f, inner := p.1.inner })
    (fun p f' => ({ p.1 with inner := f'.inner }, .file f'.toFatFileData)) x

/-- The call of the kind of inode that it is. -/
def by_kind {α : Type} (file : FileM α) (dir : FatDirectory → FsM α) :
    DriverM FatFileSystem FatData α := do
  let p ← get
  match p.2 with
  | .file f => on_file f file
  | .dir d => on_volume (dir d)

/-- The inode with a number. -/
def inode (id : Nat) : FsM (Inode FatData) := do
  let fs ← get
  match fs.inodes[id]? with
  | some inode => pure inode
  | none => throw .panic

def stat_of (ino : UInt64) (mode : UInt32) (nlink : UInt64) (size : Nat) : FatM Stat := do
  let s ← get
  let dev_id ← get_dev_id
  let now ← current_time
  pure {
    st_dev := dev_id
    st_ino := ino
    st_mode := mode
    st_nlink := nlink
    st_uid := 0
    st_gid := 0
    st_rdev := 0
    st_size := size
    st_blksize := s.cluster_size
    st_blocks := ((size + 511) / 512 : Nat)
    st_atime := now.toInt64.toInt
    st_mtime := now.toInt64.toInt
    st_ctime := now.toInt64.toInt }

def stat : DriverM FatFileSystem FatData Stat := do
  let p ← get
  match p.2 with
  | .dir d => on_volume (locked
      (stat_of (UInt64.ofNat (d.cluster <<< 32 ||| d.is_root.toNat)) 0o40755 2 0))
  | .file f =>
    let mode : UInt32 :=
      if f.entry.attr &&& FatDirEntry.ATTR_READ_ONLY != 0 then 0o100444 else 0o100666
    on_volume (locked (stat_of (UInt64.ofNat (f.slot.dir_cluster <<< 32 ||| f.slot.entry_index))
      mode 1 f.entry.file_size.toNat))

/-- The calls of an inode. Names are texts here, and an inode is its value. -/
@[reducible] def inodeOps (table : CaseTable) : InodeOps FatFileSystem FatData where
  read offset len := by_kind (FatFile.read offset len) (fun _ => throw (.err .IsADirectory))
  write offset buf := by_kind (FatFile.write offset buf) (fun _ => throw (.err .IsADirectory))
  truncate size := by_kind (FatFile.truncate size) (fun _ => throw (.err .IsADirectory))
  sync := by_kind FatFile.sync (fun _ => pure ())
  unlink name := by_kind (throw (.err .NotADirectory)) (fun d => unlink table d name.toList)
  lookup name := by_kind (throw (.err .NotADirectory)) (fun d => do
    let id ← lookup table d name.toList
    inode id)
  create name kind _ := by_kind (throw (.err .NotADirectory)) (fun d => do
    let id ← create table d name.toList kind
    inode id)
  read_dir := by_kind (throw (.err .NotADirectory)) (fun d => do
    let entries ← read_dir d
    let fs ← get
    pure (entries.filterMap (fun e => (fs.inodes[e.2.2]?).map (fun inode => {
      name := String.ofList e.1.short_name
      inode
      offset := UInt64.ofNat e.2.1
      file_type := if e.1.is_directory then .Directory else .File }))))
  stat := stat
  current_time := on_volume (locked FatFileSystemInner.current_time)

end FatFileSystem

end zenos_kernel.disk.fs.fat
