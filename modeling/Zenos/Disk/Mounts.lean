-- The mount table of `disk/vfs.rs`: which file system a path belongs to, and
-- how the rest of the path is looked up there. A path is the list of its
-- characters. The file systems are a type of their own, so the code is the same
-- for every driver.
import Mathlib.Algebra.Ring.Nat
import Mathlib.Data.String.Basic
import Zenos.Lib.Path
import Zenos.Disk.Vfs

namespace zenos_kernel.disk.vfs

open Outcome

/-! ## Paths -/

/-- `normalize_path` up to the text: the components that are left. -/
def component (components : List (List Char)) (part : List Char) : List (List Char) :=
  if part = [] ∨ part = ['.'] then components
  else if part = ['.', '.'] then components.dropLast
  else components ++ [part]

def components (path : List Char) : List (List Char) := (path.splitOn '/').foldl component []

def normalize_path (path : List Char) : List Char := '/' :: ['/'].intercalate (components path)

/-- `len` of a string: its bytes. -/
def len (s : List Char) : Nat := (s.map Char.utf8Size).sum

/-! ## The mount table -/

/-- `VFS`. The map is kept in the order of its keys. -/
structure VFS (φ : Type) where
  fs : List (List Char × φ)
  sorted : fs.Pairwise (fun a b => a.1 < b.1)

namespace VFS

variable {φ : Type}

def new : VFS φ := ⟨[], List.Pairwise.nil⟩

variable (vfs : VFS φ) (path : List Char)

/-- One turn of `path_to_fs`. -/
def better (normalized_path : List Char) (best_match : Option (List Char × φ))
    (entry : List Char × φ) : Option (List Char × φ) :=
  if entry.1.isPrefixOf normalized_path then
    match best_match with
    | some best => if len best.1 < len entry.1 then some entry else best_match
    | none => some entry
  else best_match

def path_to_fs : Option (List Char × φ) :=
  vfs.fs.foldl (better (normalize_path path)) none

end VFS

/-! ## Looking a path up -/

def OWNER_EXEC : UInt16 := 0o100

/-- A call of the inode of a directory. -/
def in_dir {σ δ α : Type} (dir_inode : Inode δ) (x : DriverM σ δ α) :
    EStateM (Fault FileError) σ α :=
  zoom (fun s => (s, dir_inode.data)) (fun _ p => p.1) x

namespace VFS

variable {φ σ δ : Type} [InodeOps σ δ] [FileSystem φ σ δ]

/-- The loop over the directories of a path. Each one has to give `needed`. -/
def walk (needed : UInt16) : List (List Char) → Inode δ → EStateM (Fault FileError) σ (Inode δ)
  | [], dir_inode => pure dir_inode
  | part :: parts, dir_inode => do
    let di ← in_dir dir_inode (InodeOps.lookup (σ := σ) (String.ofList part))
    if contains di.perms.toBitVec needed.toBitVec then walk needed parts di
    else throw (.err .PermissionDenied)

/-- The end of `open_file`: the file has to be readable, whatever it is opened for. -/
def readable (file_inode : Inode δ) : EStateM (Fault FileError) σ (Inode δ) :=
  if contains file_inode.perms.toBitVec OWNER_READ.toBitVec then pure file_inode
  else throw (.err .PermissionDenied)

/-- `open_file` in the file system that was found. -/
def open_parts (fs : φ) (parts : List (List Char)) : EStateM (Fault FileError) σ (Inode δ) := do
  let dir_inode ← FileSystem.root_dir fs
  match parts.getLast? with
  | none => pure dir_inode
  | some last => do
    let dir_inode ← walk OWNER_EXEC parts.dropLast dir_inode
    let file_inode ← in_dir dir_inode (InodeOps.lookup (String.ofList last))
    readable file_inode

/-- `create_file` in the file system that was found. -/
def create_parts (fs : φ) (parts : List (List Char)) (perms : UInt16) :
    EStateM (Fault FileError) σ (Inode δ) := do
  let dir_inode ← FileSystem.root_dir fs
  match parts.getLast? with
  | none => pure dir_inode
  | some last => do
    let dir_inode ← walk (OWNER_EXEC ||| OWNER_WRITE) parts.dropLast dir_inode
    in_dir dir_inode (InodeOps.create (String.ofList last) .File perms)

/-- The parts of `normalized_path` behind the mount point. -/
def relative_parts (normalized_path mount_point : List Char) : List (List Char) :=
  Path.parts '/' ((normalized_path.drop mount_point.length).dropWhile (· == '/'))

def open_file (vfs : VFS φ) (path : List Char) : EStateM (Fault FileError) σ (Inode δ) :=
  let normalized_path := normalize_path path
  match vfs.path_to_fs normalized_path with
  | none => throw (.err .NotFound)
  | some (mount_point, fs) => open_parts fs (relative_parts normalized_path mount_point)

def create_file (vfs : VFS φ) (path : List Char) (perms : UInt16) :
    EStateM (Fault FileError) σ (Inode δ) :=
  let normalized_path := normalize_path path
  match vfs.path_to_fs normalized_path with
  | none => throw (.err .NotFound)
  | some (mount_point, fs) => create_parts fs (relative_parts normalized_path mount_point) perms

end VFS

end zenos_kernel.disk.vfs
