-- Inodes and open files of the virtual file system: `disk/vfs.rs`. The code is
-- the same for every driver, so it is written over what a driver provides.
import Zenos.Disk.Device

namespace zenos_kernel.disk.vfs

open Outcome

inductive SeekFrom
  | Start (pos : UInt64)
  | End (offset : Int64)
  | Current (offset : Int64)

inductive FileType
  | File
  | Directory
  | Symlink
  | Socket
  | CharDevice
  | BlockDevice
  | Fifo
  deriving DecidableEq

/-- `Inode`. `data` is what the driver keeps for it. -/
structure Inode (δ : Type) where
  num : UInt64
  kind : FileType
  size : UInt64
  perms : UInt16
  links : UInt64
  owner_uid : UInt64
  owner_gid : UInt64
  access_time : UInt64
  modified_time : UInt64
  change_time : UInt64
  data : δ

structure Stat where
  st_dev : UInt64
  st_ino : UInt64
  st_mode : UInt32
  st_nlink : UInt64
  st_uid : UInt32
  st_gid : UInt32
  st_rdev : UInt64
  st_size : Int
  st_blksize : Int
  st_blocks : Int
  st_atime : Int
  st_mtime : Int
  st_ctime : Int

structure DirEntry (δ : Type) where
  name : String
  inode : Inode δ
  offset : UInt64
  file_type : FileType

/-! ## Drivers -/

/-- A call of a driver: `σ` is what all inodes of the volume share, `δ` what
this one keeps. -/
abbrev DriverM (σ δ : Type) := EStateM (Fault FileError) (σ × δ)

/-- `InodeOps`, with the clock that the calls read: any readings, of which those of
`time.Clock.current_time` are one case. A buffer to fill is given by its length, and
what was put into it is returned. -/
class InodeOps (σ δ : Type) where
  read (offset len : Nat) : DriverM σ δ (List UInt8)
  write (offset : Nat) (buf : List UInt8) : DriverM σ δ Nat
  truncate (size : Nat) : DriverM σ δ Unit
  sync : DriverM σ δ Unit
  unlink (name : String) : DriverM σ δ Unit
  lookup (name : String) : DriverM σ δ (Inode δ)
  create (name : String) (kind : FileType) (perms : UInt16) : DriverM σ δ (Inode δ)
  read_dir : DriverM σ δ (List (DirEntry δ))
  stat : DriverM σ δ Stat
  current_time : DriverM σ δ UInt64

/-- `FileSystem`: the volume gives the inode of its root directory. -/
class FileSystem (φ σ δ : Type) where
  root_dir (fs : φ) : EStateM (Fault FileError) σ (Inode δ)

/-! ## Open files -/

/-- `contains` of the flag types. -/
def contains {w : Nat} (flags other : BitVec w) : Bool := flags &&& other == other

def OWNER_READ : UInt16 := 0o400

def OWNER_WRITE : UInt16 := 0o200

def READ_ONLY : UInt64 := 0

def WRITE_ONLY : UInt64 := 1

def READ_WRITE : UInt64 := 2

structure OpenFile where
  cursor : Nat
  file_open_options : UInt64

/-- An open file with its inode and the volume it is on. -/
structure Opened (σ δ : Type) where
  fs : σ
  inode : Inode δ
  file : OpenFile

abbrev OpenM (σ δ : Type) := EStateM (Fault FileError) (Opened σ δ)

variable {σ δ α : Type}

/-- A call of the driver. -/
def on_data (x : DriverM σ δ α) : OpenM σ δ α :=
  zoom (fun o => (o.fs, o.inode.data))
    (fun o p => { o with fs := p.1, inode := { o.inode with data := p.2 } }) x

def set_access_time (now : UInt64) (o : Opened σ δ) : Opened σ δ :=
  { o with inode := { o.inode with access_time := now } }

def set_change_times (now : UInt64) (o : Opened σ δ) : Opened σ δ :=
  { o with inode := { o.inode with modified_time := now, change_time := now } }

/-- `*self.cursor.lock() += n`. -/
def advance (n : Nat) : OpenM σ δ Unit := do
  let o ← get
  if o.file.cursor + n < UInt64.size then
    modify (fun o => { o with file := { o.file with cursor := o.file.cursor + n } })
  else throw .panic

variable {o o' : Opened σ δ} {x : DriverM σ δ α} {a : α} {n : Nat}

/-- The open file after a call of the driver. -/
def put_data (o : Opened σ δ) (p : σ × δ) : Opened σ δ :=
  { o with fs := p.1, inode := { o.inode with data := p.2 } }

theorem on_data_of_ok {p : σ × δ} (h : x (o.fs, o.inode.data) = .ok a p) :
    on_data x o = .ok a (put_data o p) := zoom_ok.mpr ⟨p, h, rfl⟩

theorem on_data_of_error {e : Fault FileError} {p : σ × δ} (h : x (o.fs, o.inode.data) = .error e p)
    : on_data x o = .error e (put_data o p) := by
  simp only [on_data, zoom, h]
  rfl

theorem advance_of_lt (h : o.file.cursor + n < UInt64.size) :
    advance n o = .ok () { o with file := { o.file with cursor := o.file.cursor + n } } := by
  unfold advance
  rw [get_bind, if_pos h]
  rfl

theorem advance_of_ge (h : UInt64.size ≤ o.file.cursor + n) : advance n o = .error .panic o := by
  unfold advance
  rw [get_bind, if_neg (Nat.not_lt.mpr h)]
  rfl

/-- What the driver goes by. -/
def Opened.driver (o : Opened σ δ) : σ × δ := (o.fs, o.inode.data)

theorem on_data_ok (h : on_data x o = .ok a o') : ∃ p, x o.driver = .ok a p ∧
      o' = { o with fs := p.1, inode := { o.inode with data := p.2 } } := by
  obtain ⟨p, hx, rfl⟩ := zoom_ok.mp h
  exact ⟨p, hx, rfl⟩

theorem advance_ok (h : advance n o = .ok () o') :
    o' = { o with file := { o.file with cursor := o.file.cursor + n } } := by
  unfold advance at h
  rw [get_bind] at h
  split at h
  · cases h
    rfl
  · cases h

/-- `g` changes the times of the inode only. -/
def KeepsData (g : UInt64 → Opened σ δ → Opened σ δ) : Prop :=
  ∀ now o, (g now o).fs = o.fs ∧ (g now o).inode.data = o.inode.data

theorem keepsData_access : KeepsData (set_access_time (σ := σ) (δ := δ)) := fun _ _ => ⟨rfl, rfl⟩

theorem keepsData_change : KeepsData (set_change_times (σ := σ) (δ := δ)) := fun _ _ => ⟨rfl, rfl⟩

variable [InodeOps σ δ]

namespace OpenFile

def may_read (file : OpenFile) (perms : UInt16) : Bool :=
  contains file.file_open_options.toBitVec (READ_ONLY ||| READ_WRITE).toBitVec ||
    contains perms.toBitVec OWNER_READ.toBitVec

def may_write (file : OpenFile) (perms : UInt16) : Bool :=
  contains file.file_open_options.toBitVec (WRITE_ONLY ||| READ_WRITE).toBitVec ||
    contains perms.toBitVec OWNER_WRITE.toBitVec

/-- `saturating_sub` and `saturating_add` of `u64`, by the sign of the offset.
The negation of the least `i64` panics. -/
def moved (pos : Nat) (offset : Int64) : Option Nat :=
  if offset = Int64.minValue then none
  else if offset < 0 then some (pos - offset.toInt.natAbs)
  else some (min (pos + offset.toInt.natAbs) (UInt64.size - 1))

/-- The `new_pos` of `seek`. -/
def new_pos (o : Opened σ δ) : SeekFrom → Option Nat
  | .Start pos => some pos.toNat
  | .End offset => moved o.inode.size.toNat offset
  | .Current offset => moved o.file.cursor offset

def seek (target : SeekFrom) : OpenM σ δ Nat := do
  let o ← get
  match new_pos o target with
  | none => throw .panic
  | some new_pos => do
    modify (fun o => { o with file := { o.file with cursor := new_pos } })
    pure new_pos

/-- `read` into a buffer of `len` bytes. -/
def read (len : Nat) : OpenM σ δ (List UInt8) := do
  let o ← get
  if o.file.may_read o.inode.perms then do
    let bytes ← on_data (InodeOps.read o.file.cursor len)
    advance bytes.length
    let now ← on_data InodeOps.current_time
    modify (set_access_time now)
    on_data InodeOps.sync
    pure bytes
  else throw (.err .PermissionDenied)

def write (buf : List UInt8) : OpenM σ δ Nat := do
  let o ← get
  if o.file.may_write o.inode.perms then do
    let bytes_written ← on_data (InodeOps.write o.file.cursor buf)
    advance bytes_written
    let now ← on_data InodeOps.current_time
    modify (set_change_times now)
    on_data InodeOps.sync
    pure bytes_written
  else throw (.err .PermissionDenied)

end OpenFile

/-! ## Transfers -/

/-- What `OpenFile::read` and `OpenFile::write` do after the cursor has moved. -/
def settled (g : UInt64 → Opened σ δ → Opened σ δ) (a : α) : OpenM σ δ α := do
  let now ← on_data InodeOps.current_time
  modify (g now)
  on_data InodeOps.sync
  pure a

/-- `OpenFile::read` and `OpenFile::write`. -/
def transfer (may : Bool) (x : DriverM σ δ α) (n : α → Nat)
    (g : UInt64 → Opened σ δ → Opened σ δ) : OpenM σ δ α :=
  if may then do
    let a ← on_data x
    advance (n a)
    settled g a
  else throw (.err .PermissionDenied)

theorem OpenFile.read_eq (len : Nat) (o : Opened σ δ) :
    OpenFile.read len o = transfer (o.file.may_read o.inode.perms)
      (InodeOps.read o.file.cursor len) List.length set_access_time o := rfl

theorem OpenFile.write_eq (buf : List UInt8) (o : Opened σ δ) :
    OpenFile.write buf o = transfer (o.file.may_write o.inode.perms)
      (InodeOps.write o.file.cursor buf) id set_change_times o := rfl

/-- What a write does that returns: the calls of the driver. The size stays. -/
theorem write_ok {buf : List UInt8} (h : OpenFile.write buf o = .ok n o') :
    ∃ p now p', InodeOps.write o.file.cursor buf o.driver = .ok n p ∧
      InodeOps.current_time p = .ok now p' ∧ InodeOps.sync p' = .ok () o'.driver ∧
      o'.inode.size = o.inode.size := by
  unfold OpenFile.write at h
  rw [get_bind] at h
  split at h
  · obtain ⟨n1, o1, h1, h⟩ := bind_ok.mp h
    obtain ⟨_, o2, h2, h⟩ := bind_ok.mp h
    obtain ⟨now, o3, h3, h⟩ := bind_ok.mp h
    rw [modify_bind] at h
    obtain ⟨_, o4, h4, h⟩ := bind_ok.mp h
    obtain ⟨rfl, rfl⟩ := pure_ok.mp h
    obtain ⟨p1, hp1, rfl⟩ := on_data_ok h1
    obtain rfl := advance_ok h2
    obtain ⟨p3, hp3, rfl⟩ := on_data_ok h3
    obtain ⟨p4, hp4, rfl⟩ := on_data_ok h4
    exact ⟨p1, now, p3, hp1, hp3, hp4, rfl⟩
  · cases h

end zenos_kernel.disk.vfs
