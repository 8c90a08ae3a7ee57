-- The FAT file systems below files and directories: `fat/plumbing.rs`. The
-- parameter block gives the layout, a directory entry is 32 bytes, and the
-- table chains the clusters.
import Zenos.Disk.Device

namespace zenos_kernel.disk.fs.fat

open Bytes Outcome block

inductive FatType
  | Fat12
  | Fat16
  | Fat32
  deriving DecidableEq

def FAT_FREE : Nat := 0

/-! ## The parameter block -/

structure BiosParameterBlock where
  bytes_per_sector : UInt16
  sectors_per_cluster : UInt8
  reserved_sector_count : UInt16
  num_fats : UInt8
  root_entry_count : UInt16
  total_sectors_16 : UInt16
  fat_size_16 : UInt16
  total_sectors_32 : UInt32
  fat_size_32 : UInt32
  root_cluster : UInt32

namespace BiosParameterBlock

def parse (boot_sector : List UInt8) : Except FileError BiosParameterBlock :=
  if boot_sector.length < 512 then .error .ReadError
  else .ok {
    bytes_per_sector := u16At boot_sector 11
    sectors_per_cluster := boot_sector.getD 13 0
    reserved_sector_count := u16At boot_sector 14
    num_fats := boot_sector.getD 16 0
    root_entry_count := u16At boot_sector 17
    total_sectors_16 := u16At boot_sector 19
    fat_size_16 := u16At boot_sector 22
    total_sectors_32 := u32At boot_sector 32
    fat_size_32 := u32At boot_sector 36
    root_cluster := u32At boot_sector 44 }

variable (bpb : BiosParameterBlock)

def fat_size : Nat :=
  if bpb.fat_size_16 ≠ 0 then bpb.fat_size_16.toNat else bpb.fat_size_32.toNat

def total_sectors : Nat :=
  if bpb.total_sectors_16 ≠ 0 then bpb.total_sectors_16.toNat else bpb.total_sectors_32.toNat

def root_dir_sectors : Nat :=
  (bpb.root_entry_count.toNat * 32 + (bpb.bytes_per_sector.toNat - 1)) / bpb.bytes_per_sector.toNat

def first_data_sector : Nat :=
  bpb.reserved_sector_count.toNat + bpb.num_fats.toNat * bpb.fat_size + bpb.root_dir_sectors

def first_fat_sector : Nat := bpb.reserved_sector_count.toNat

def bytes_per_cluster : Nat :=
  bpb.bytes_per_sector.toNat * bpb.sectors_per_cluster.toNat

/-- `cluster_count` of `fat_type`, and `total_clusters` of `allocate_cluster`. -/
def total_clusters : Nat :=
  (bpb.total_sectors - bpb.first_data_sector) / bpb.sectors_per_cluster.toNat

def fat_type : FatType :=
  if bpb.total_clusters < 4085 then .Fat12
  else if bpb.total_clusters < 65525 then .Fat16
  else .Fat32

/-- `is_power_of_two`, of a number that is not 0. -/
def is_power_of_two (n : UInt8) : Bool := n &&& (n - 1) == 0

def validate : Except (Fault FsMountError) Unit :=
  if bpb.bytes_per_sector ∉ [512, 1024, 2048, 4096] then .error (.err .InvalidSuperblock)
  else if bpb.sectors_per_cluster = 0 ∨ 128 < bpb.sectors_per_cluster ∨
      is_power_of_two bpb.sectors_per_cluster = false then .error (.err .InvalidSuperblock)
  else if bpb.reserved_sector_count = 0 then .error (.err .InvalidSuperblock)
  else if bpb.num_fats = 0 then .error (.err .InvalidSuperblock)
  else if bpb.total_sectors = 0 then .error (.err .InvalidSuperblock)
  else if bpb.fat_size = 0 then .error (.err .InvalidSuperblock)
  -- the sums and the difference in `fat_type` are of 32 bits
  else if UInt32.size ≤ bpb.first_data_sector ∨ bpb.total_sectors < bpb.first_data_sector then
    .error .panic
  else if bpb.fat_type ≠ .Fat32 ∧ bpb.root_entry_count = 0 then .error (.err .Corrupted)
  else if bpb.fat_type = .Fat32 ∧ bpb.root_entry_count ≠ 0 then .error (.err .Corrupted)
  else if bpb.fat_type = .Fat32 ∧ bpb.root_cluster < 2 then .error (.err .Corrupted)
  else if bpb.fat_type = .Fat32 ∧ bpb.fat_size_32 = 0 then .error (.err .Corrupted)
  else if bpb.total_sectors ≤ bpb.first_data_sector then .error (.err .Corrupted)
  else .ok ()

end BiosParameterBlock

/-! ## Directory entries -/

structure FatDirEntry where
  name : Fin 11 → UInt8
  attr : UInt8
  nt_reserved : UInt8
  create_time_tenth : UInt8
  create_time : UInt16
  create_date : UInt16
  last_access_date : UInt16
  first_cluster_high : UInt16
  write_time : UInt16
  write_date : UInt16
  first_cluster_low : UInt16
  file_size : UInt32

namespace FatDirEntry

def SIZE : Nat := 32

def ATTR_READ_ONLY : UInt8 := 0x01

def ATTR_VOLUME_ID : UInt8 := 0x08

def ATTR_DIRECTORY : UInt8 := 0x10

def ATTR_ARCHIVE : UInt8 := 0x20

def ATTR_LONG_NAME : UInt8 := 0x0F

/-- A first byte of 0 ends the directory, and 0xE5 marks a deleted entry. -/
def parse (data : List UInt8) : Option FatDirEntry :=
  if data.length < SIZE then none
  else if data.getD 0 0 = 0x00 then none
  else if data.getD 0 0 = 0xE5 then none
  else some {
    name := fun i => data.getD i 0
    attr := data.getD 11 0
    nt_reserved := data.getD 12 0
    create_time_tenth := data.getD 13 0
    create_time := u16At data 14
    create_date := u16At data 16
    last_access_date := u16At data 18
    first_cluster_high := u16At data 20
    write_time := u16At data 22
    write_date := u16At data 24
    first_cluster_low := u16At data 26
    file_size := u32At data 28 }

variable (entry : FatDirEntry)

def serialize : List UInt8 :=
  List.ofFn entry.name ++ ([entry.attr, entry.nt_reserved, entry.create_time_tenth] ++
  (le16 entry.create_time ++ (le16 entry.create_date ++ (le16 entry.last_access_date ++
  (le16 entry.first_cluster_high ++ (le16 entry.write_time ++ (le16 entry.write_date ++
  (le16 entry.first_cluster_low ++ le32 entry.file_size))))))))

def first_cluster : Nat :=
  entry.first_cluster_high.toNat <<< 16 ||| entry.first_cluster_low.toNat

def set_first_cluster (cluster : Nat) : FatDirEntry :=
  { entry with
    first_cluster_low := UInt16.ofNat (cluster &&& 0xFFFF)
    first_cluster_high := UInt16.ofNat (cluster >>> 16 &&& 0xFFFF) }

def is_directory : Bool := entry.attr &&& ATTR_DIRECTORY != 0

def is_volume_id : Bool := entry.attr &&& ATTR_VOLUME_ID != 0

def is_long_name : Bool := entry.attr &&& ATTR_LONG_NAME == ATTR_LONG_NAME

end FatDirEntry

/-! ## Names -/

/-- `char::is_whitespace` of the characters below 256. -/
def is_whitespace (c : Char) : Bool :=
  (9 ≤ c.toNat && c.toNat ≤ 13) || c.toNat == 0x20 || c.toNat == 0x85 || c.toNat == 0xA0

def trim_end (s : List Char) : List Char := (s.reverse.dropWhile is_whitespace).reverse

/-- `char::to_uppercase` of the characters below 256. -/
def latin_uppercase (c : Char) : List Char :=
  let n := c.toNat
  if 0x61 ≤ n ∧ n ≤ 0x7A then [Char.ofNat (n - 32)]
  else if n = 0xB5 then [Char.ofNat 0x39C]
  else if n = 0xDF then ['S', 'S']
  else if 0xE0 ≤ n ∧ n ≤ 0xFE ∧ n ≠ 0xF7 then [Char.ofNat (n - 32)]
  else if n = 0xFF then [Char.ofNat 0x178]
  else [c]

/-- The table behind `to_uppercase`. Of its other rows nothing is assumed. -/
structure CaseTable where
  upper : Char → List Char
  latin : ∀ c : Char, c.toNat < 256 → upper c = latin_uppercase c

def CaseTable.to_uppercase (table : CaseTable) (s : List Char) : List Char := s.flatMap table.upper

/-- `short_name`: the two parts without the blanks at their ends, and a dot
between them if there is an extension. -/
def FatDirEntry.short_name (entry : FatDirEntry) : List Char :=
  let chars := (List.ofFn entry.name).map (fun b => Char.ofNat b.toNat)
  let name_part := trim_end (chars.take 8)
  let ext_part := trim_end (chars.drop 8)
  if ext_part = [] then name_part else name_part ++ '.' :: ext_part

/-- The text before and behind the last dot. -/
def split_extension (upper : List Char) : List Char × List Char :=
  let ext := (upper.reverse.takeWhile (· ≠ '.')).reverse
  if ext.length = upper.length then (upper, [])
  else (upper.take (upper.length - ext.length - 1), ext)

/-- `c as u8`, or the blank that the name is padded with. -/
def char_or_blank (c : Option Char) : UInt8 :=
  match c with
  | some c => UInt8.ofNat c.toNat
  | none => 0x20

def name_to_8_3 (table : CaseTable) (name : List Char) : Fin 11 → UInt8 :=
  let parts := split_extension (table.to_uppercase name)
  fun i =>
    if i.val < 8 then char_or_blank (parts.1.take 8)[i.val]?
    else char_or_blank (parts.2.take 3)[i.val - 8]?

/-! ## The volume -/

/-- The mounted volume. `dev_id` is what `get_dev_id` answers, and `clock` gives
the readings of `current_time`, of which the first `readings` have been used. -/
structure FatFileSystemInner where
  device : Device
  bpb : BiosParameterBlock
  partition_offset : Nat
  dev_id : Option UInt64
  clock : Nat → UInt64
  readings : Nat
  valid : bpb.validate = .ok ()

abbrev FatM := EStateM (Fault FileError) FatFileSystemInner

namespace FatFileSystemInner

variable (s : FatFileSystemInner)

def fat_type : FatType := s.bpb.fat_type

def bps : Nat := s.bpb.bytes_per_sector.toNat

def cluster_size : Nat := s.bpb.bytes_per_cluster

/-- A device operation, with its error mapped to `e`. -/
def on_device {α : Type} (x : EStateM BlockError Device α) (e : FileError) : FatM α := fun s =>
  match x s.device with
  | .ok a d => .ok a { s with device := d }
  | .error _ d => .error (.err e) { s with device := d }

/-- Arithmetic of 32 bits panics when it overflows. -/
def u32 (n : Nat) : FatM Nat := if n < UInt32.size then pure n else throw .panic

/-- `seek(SeekFrom::Start(offset))` and `read`. The offset is of 64 bits. -/
def read_at (offset len : Nat) : FatM (List UInt8) :=
  if UInt64.size ≤ offset then throw .panic
  else do
    on_device (Device.seek offset) .SeekError
    on_device (Device.read len) .ReadError

/-- `seek(SeekFrom::Start(offset))` and `write`. -/
def write_at (offset : Nat) (buf : List UInt8) : FatM Unit :=
  if UInt64.size ≤ offset then throw .panic
  else do
    on_device (Device.seek offset) .SeekError
    on_device (Device.write buf) .WriteError

def current_time : FatM UInt64 := fun s =>
  .ok (s.clock s.readings) { s with readings := s.readings + 1 }

def get_dev_id : FatM UInt64 := do
  let s ← get
  match s.dev_id with
  | some dev_id => pure dev_id
  | none => throw (.err (.Other "Failed to get device ID"))

end FatFileSystemInner

open FatFileSystemInner

/-! ## The table -/

namespace FatTable

def fat_offset (fat_type : FatType) (cluster : Nat) : Nat :=
  match fat_type with
  | .Fat12 => cluster + cluster / 2
  | .Fat16 => cluster * 2
  | .Fat32 => cluster * 4

def read_sector (sector : Nat) : FatM (List UInt8) := do
  let s ← get
  read_at (sector * s.bps + s.partition_offset) s.bps

def write_sector (sector : Nat) (buf : List UInt8) : FatM Unit := do
  let s ← get
  write_at (sector * s.bps + s.partition_offset) buf

/-- The number that an entry of 12 bits is part of. It may span two sectors. -/
def read_pair (fat_sector offset_in_sector : Nat) (sector_buf : List UInt8) : FatM Nat := do
  let s ← get
  if offset_in_sector = s.bps - 1 then do
    let next_sector_buf ← read_sector (fat_sector + 1)
    pure ((sector_buf.getD offset_in_sector 0).toNat ||| (next_sector_buf.getD 0 0).toNat <<< 8)
  else pure (u16At sector_buf offset_in_sector).toNat

/-- The entry in the sector, by the type of the volume. -/
def decode_entry (cluster fat_sector offset_in_sector : Nat) (sector_buf : List UInt8) :
    FatType → FatM Nat
  | .Fat12 => do
    let val ← read_pair fat_sector offset_in_sector sector_buf
    pure (if cluster &&& 1 ≠ 0 then val >>> 4 else val &&& 0x0FFF)
  | .Fat16 => pure (u16At sector_buf offset_in_sector).toNat
  | .Fat32 => pure ((u32At sector_buf offset_in_sector).toNat &&& 0x0FFFFFFF)

def read_entry (cluster : Nat) : FatM Nat := do
  let s ← get
  let fat_offset ← u32 (fat_offset s.fat_type cluster)
  let fat_sector := s.bpb.first_fat_sector + fat_offset / s.bps
  let offset_in_sector := fat_offset % s.bps
  let sector_buf ← read_sector fat_sector
  decode_entry cluster fat_sector offset_in_sector sector_buf s.fat_type

variable (fat_type : FatType)

/-- What `write_entry` makes of the sector. An entry of 12 bits that spans two
sectors loses the part in the second one. -/
def set_entry (cluster value offset_in_sector : Nat)
    (sector_buf : List UInt8) : List UInt8 :=
  match fat_type with
  | .Fat12 =>
    let existing := (sector_buf.getD offset_in_sector 0).toNat +
      256 * (sector_buf.getD (offset_in_sector + 1) 0).toNat
    let new_val :=
      if cluster &&& 1 ≠ 0 then existing &&& 0x000F ||| (value <<< 4) % 65536
      else existing &&& 0xF000 ||| value &&& 0x0FFF
    (sector_buf.set offset_in_sector (UInt8.ofNat new_val)).set (offset_in_sector + 1)
      (UInt8.ofNat (new_val >>> 8))
  | .Fat16 =>
    (sector_buf.set offset_in_sector (UInt8.ofNat value)).set (offset_in_sector + 1)
      (UInt8.ofNat (value >>> 8))
  | .Fat32 =>
    let existing := (u32At sector_buf offset_in_sector).toNat
    let new_val := existing &&& 0xF0000000 ||| value &&& 0x0FFFFFFF
    sector_buf.take offset_in_sector ++ le32 (UInt32.ofNat new_val) ++
      sector_buf.drop (offset_in_sector + 4)

def write_entry (cluster value : Nat) : FatM Unit := do
  let s ← get
  let fat_offset ← u32 (fat_offset s.fat_type cluster)
  let fat_sector := s.bpb.first_fat_sector + fat_offset / s.bps
  let offset_in_sector := fat_offset % s.bps
  let sector_buf ← read_sector fat_sector
  let sector_buf := set_entry s.fat_type cluster value offset_in_sector sector_buf
  write_sector fat_sector sector_buf
  each (List.range' 1 (s.bpb.num_fats.toNat - 1)) (fun i => do
    let mirror_sector ← u32 (fat_sector + i * s.bpb.fat_size)
    write_sector mirror_sector sector_buf)

/-- The mark that `allocate_cluster` writes. -/
def eoc : Nat :=
  match fat_type with
  | .Fat12 => 0x0FFF
  | .Fat16 => 0xFFFF
  | .Fat32 => 0x0FFFFFFF

/-- The search of `allocate_cluster`. -/
def allocate_in : List Nat → FatM Nat
  | [] => throw (.err (.Other "No free clusters"))
  | cluster :: clusters => do
    let s ← get
    let entry ← read_entry cluster
    if entry = FAT_FREE then do
      write_entry cluster (eoc s.fat_type)
      pure cluster
    else allocate_in clusters

def allocate_cluster : FatM Nat := do
  let s ← get
  let _ ← u32 (s.bpb.total_clusters + 2)
  allocate_in (List.range' 2 s.bpb.total_clusters)

def is_eoc (entry : Nat) : Bool :=
  match fat_type with
  | .Fat12 => 0x0FF8 ≤ entry
  | .Fat16 => 0xFFF8 ≤ entry
  | .Fat32 => 0x0FFFFFF8 ≤ entry

end FatTable

/-! ## Clusters -/

variable (cluster : Nat)

/-- `cluster_to_sector`: the difference and the sum are of 32 bits. -/
def cluster_to_sector : FatM Nat := do
  let s ← get
  if cluster < 2 then throw .panic
  else u32 ((cluster - 2) * s.bpb.sectors_per_cluster.toNat + s.bpb.first_data_sector)

/-- `read_cluster` into a buffer of one cluster. -/
def read_cluster : FatM (List UInt8) := do
  let s ← get
  let sector ← cluster_to_sector cluster
  read_at (sector * s.bps + s.partition_offset) s.cluster_size

def write_cluster (buf : List UInt8) : FatM Unit := do
  let s ← get
  let sector ← cluster_to_sector cluster
  write_at (sector * s.bps + s.partition_offset) buf

end zenos_kernel.disk.fs.fat
