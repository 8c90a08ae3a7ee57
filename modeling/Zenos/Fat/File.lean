-- Files: `FatFile` of `fat/mod.rs`. A handle holds its own copy of the directory
-- entry, and the place of the entry on the disk. `read` and `write` follow the
-- chain from the first cluster on, and `write` makes it longer.
import Zenos.Fat.Plumbing

namespace zenos_kernel.disk.fs.fat

open Bytes Outcome FatFileSystemInner

/-! ## Chains -/

namespace FatTable

/-- `for _ in 0..n { cluster = read_entry(cluster)? }`. -/
def nth_cluster : Nat → Nat → FatM Nat
  | 0, cluster => pure cluster
  | n + 1, cluster => do
    let next ← read_entry cluster
    nth_cluster n next

/-- The cluster after this one. A new one is chained to the last cluster. -/
def follow_or_extend (cluster : Nat) : FatM Nat := do
  let s ← get
  let next ← read_entry cluster
  if is_eoc s.fat_type next then do
    let new_cluster ← allocate_cluster
    write_entry cluster new_cluster
    pure new_cluster
  else pure next

end FatTable

open FatTable

/-! ## Slots -/

variable (s : FatFileSystemInner)

/-- The place of the root directory of FAT12 and FAT16. -/
def FatFileSystemInner.root_dir_offset : Nat :=
  (s.bpb.reserved_sector_count.toNat + s.bpb.num_fats.toNat * s.bpb.fat_size) * s.bps
    + s.partition_offset

def FatFileSystemInner.entries_per_cluster : Nat :=
  s.cluster_size / FatDirEntry.SIZE

/-- The root directory of FAT12 and FAT16 is not in clusters. -/
def FatFileSystemInner.fixed_root (in_root : Bool) : Bool :=
  in_root && s.fat_type != .Fat32

/-- The place of an entry of a directory: which bytes `sync_entry` writes. -/
structure Slot where
  dir_cluster : Nat
  entry_index : Nat
  in_root : Bool
  deriving DecidableEq

/-- The end of `sync_entry`: the entry is written to its slot. -/
def write_slot (slot : Slot) (entry_data : List UInt8) : FatM Unit := do
  let s ← get
  if s.fixed_root slot.in_root then
    write_at (s.root_dir_offset + slot.entry_index * FatDirEntry.SIZE) entry_data
  else do
    let offset_in_cluster := (slot.entry_index % s.entries_per_cluster) * FatDirEntry.SIZE
    let cluster ← nth_cluster (slot.entry_index / s.entries_per_cluster) slot.dir_cluster
    let buf ← read_cluster cluster
    write_cluster cluster (overwrite buf offset_in_cluster entry_data)

/-! ## The handle -/

/-- What a handle keeps. The slot is the key of the inode in the cache. -/
structure FatFileData where
  entry : FatDirEntry
  cursor : Nat
  slot : Slot

/-- A handle that holds the lock of the volume. -/
structure FatFile extends FatFileData where
  inner : FatFileSystemInner

abbrev FileM := EStateM (Fault FileError) FatFile

namespace FatFile

/-- A step on the volume. -/
def locked {α : Type} (x : FatM α) : FileM α := zoom (·.inner) (fun f s => { f with inner := s }) x

def set_cursor (f : FatFile) (cursor : Nat) : FatFile := { f with cursor }

def set_first_cluster (f : FatFile) (cluster : Nat) : FatFile :=
  { f with entry := f.entry.set_first_cluster cluster }

def set_size (f : FatFile) (file_size : UInt32) : FatFile :=
  { f with entry := { f.entry with file_size } }

/-- `self.cursor += n`. -/
def advance (n : Nat) : FileM Unit := do
  let f ← get
  if f.cursor + n < UInt64.size then modify (·.set_cursor (f.cursor + n)) else throw .panic

def sync_entry : FileM Unit := do
  let f ← get
  locked (write_slot f.slot f.entry.serialize)

/-! ### Reading -/

/-- The cluster of the cursor. `none`: the chain is too short. -/
def skip_to : Nat → Nat → FatM (Option Nat)
  | 0, cluster => pure (some cluster)
  | n + 1, cluster =>
    if cluster < 2 then pure none
    else do
      let s ← get
      let next ← read_entry cluster
      if is_eoc s.fat_type next then pure none else skip_to n next

/-- The loop of `read`: `pos` is the cursor plus the bytes read, and
`remaining_in_buf` the room in the buffer. Every turn copies a byte. -/
def read_loop (file_size : Nat) : Nat → Nat → Nat → Nat → Nat → FatM (List UInt8)
  | 0, _, _, _, _ => pure []
  | fuel + 1, cluster, offset_in_cluster, pos, remaining_in_buf =>
    if remaining_in_buf = 0 ∨ file_size ≤ pos then pure []
    else if cluster < 2 then pure []
    else do
      let s ← get
      let cluster_buf ← read_cluster cluster
      let to_copy := min (min (s.cluster_size - offset_in_cluster) (file_size - pos)) remaining_in_buf
      let bytes := (cluster_buf.drop offset_in_cluster).take to_copy
      let next ← read_entry cluster
      if is_eoc s.fat_type next then pure bytes
      else do
        let rest ← read_loop file_size fuel next 0 (pos + to_copy) (remaining_in_buf - to_copy)
        pure (bytes ++ rest)

/-- The part of `read` that holds the lock. `none`: the chain is too short. -/
def read_chain (entry : FatDirEntry) (offset len : Nat) : FatM (Option (List UInt8)) := do
  let s ← get
  match ← skip_to (offset / s.cluster_size) entry.first_cluster with
  | none => pure none
  | some cluster => do
    let bytes ← read_loop entry.file_size.toNat len cluster (offset % s.cluster_size) offset len
    pure (some bytes)

/-- `read` into a buffer of `len` bytes: the bytes that were read. -/
def read (offset len : Nat) : FileM (List UInt8) := do
  modify (·.set_cursor offset)
  let f ← get
  if f.entry.file_size.toNat ≤ offset then pure []
  else match ← locked (read_chain f.entry offset len) with
    | none => pure []
    | some bytes => do
      advance bytes.length
      pure bytes

/-! ### Writing -/

/-- The way to the cluster of the cursor, on which the chain gets longer. -/
def skip_extending : Nat → Nat → FatM Nat
  | 0, cluster => pure cluster
  | n + 1, cluster => do
    let next ← follow_or_extend cluster
    skip_extending n next

/-- A cluster that is not replaced as a whole is read first. -/
def existing_data (cluster offset_in_cluster len : Nat) (cluster_buf : List UInt8) :
    FatM (List UInt8) := do
  let s ← get
  if offset_in_cluster ≠ 0 ∨ len < s.cluster_size then read_cluster cluster else pure cluster_buf

/-- `to_copy` bytes of the buffer go into the cluster. -/
def write_chunk (cluster offset_in_cluster to_copy : Nat) (cluster_buf buf : List UInt8) :
    FatM (List UInt8) := do
  let cluster_buf ← existing_data cluster offset_in_cluster buf.length cluster_buf
  let cluster_buf := overwrite cluster_buf offset_in_cluster (buf.take to_copy)
  write_cluster cluster cluster_buf
  pure cluster_buf

/-- The loop of `write` over what is left of the buffer. Every turn writes a byte. -/
def write_loop : Nat → Nat → Nat → List UInt8 → List UInt8 → FatM Unit
  | 0, _, _, _, _ => pure ()
  | fuel + 1, cluster, offset_in_cluster, cluster_buf, buf => do
    let s ← get
    let to_copy := min (s.cluster_size - offset_in_cluster) buf.length
    let cluster_buf ← write_chunk cluster offset_in_cluster to_copy cluster_buf buf
    if buf.length ≤ to_copy then pure ()
    else do
      let next ← follow_or_extend cluster
      write_loop fuel next 0 cluster_buf (buf.drop to_copy)

/-- The part of `write` that holds the lock, once there is a first cluster. -/
def write_chain (first_cluster offset : Nat) (buf : List UInt8) : FatM Unit := do
  let s ← get
  let cluster ← skip_extending (offset / s.cluster_size) first_cluster
  write_loop buf.length cluster (offset % s.cluster_size) (List.replicate s.cluster_size 0) buf

def allocate_first : FileM Unit := do
  let f ← get
  if f.entry.first_cluster < 2 then do
    let new_cluster ← locked allocate_cluster
    modify (·.set_first_cluster new_cluster)
  else pure ()

/-- The size follows the cursor, and the entry is then written back. -/
def grow : FileM Unit := do
  let f ← get
  if f.entry.file_size.toNat < f.cursor then do
    modify (·.set_size (UInt32.ofNat f.cursor))
    sync_entry
  else pure ()

def write (offset : Nat) (buf : List UInt8) : FileM Nat := do
  modify (·.set_cursor offset)
  if buf = [] then pure 0
  else do
    allocate_first
    let f ← get
    locked (write_chain f.entry.first_cluster offset buf)
    advance buf.length
    grow
    pure buf.length

def truncate (size : Nat) : FileM Unit := do
  let bytes ← read 0 size
  modify (·.set_cursor 0)
  let _ ← write 0 (bytes ++ List.replicate (size - bytes.length) 0)
  modify (·.set_size (UInt32.ofNat size))
  sync_entry

def sync : FileM Unit := sync_entry

end FatFile

end zenos_kernel.disk.fs.fat
