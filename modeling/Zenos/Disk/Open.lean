-- The system call `open`: `syscall/open.rs`, with the descriptor that
-- `Process::add_file_handle` gives out. `none` for the descriptors of the
-- process means that there is no current process.
import Zenos.Process.Syscalls
import Zenos.Disk.Mounts

namespace zenos_kernel.syscall

open Outcome disk disk.vfs process

/-! ## Error numbers -/

def ENOENT : UInt64 := 2

def EIO : UInt64 := 5

def EBADF : UInt64 := 9

def EACCES : UInt64 := 13

def EEXIST : UInt64 := 17

def ENOTDIR : UInt64 := 20

def EISDIR : UInt64 := 21

def EINVAL : UInt64 := 22

def ESPIPE : UInt64 := 29

def EROFS : UInt64 := 30

def ENOSYS : UInt64 := 38

def file_error_to_errno (err : FileError) : UInt64 :=
  errno <| match err with
    | .UnsupportedOperation => ENOSYS
    | .ReadError => EIO
    | .WriteError => EIO
    | .SeekError => ESPIPE
    | .InvalidFileDescriptor => EBADF
    | .NotFound => ENOENT
    | .AlreadyExists => EEXIST
    | .NotADirectory => ENOTDIR
    | .IsADirectory => EISDIR
    | .PermissionDenied => EACCES
    | .ReadOnlyFilesystem => EROFS
    | .Other _ => EIO

/-- The error of a file system as the answer of a system call. -/
def errno_fault : Fault FileError → Fault UInt64
  | .err e => .err (file_error_to_errno e)
  | .panic => .panic

def with_errno {σ α : Type} (x : EStateM (Fault FileError) σ α) : EStateM (Fault UInt64) σ α :=
  fun s =>
    match x s with
    | .ok a s' => .ok a s'
    | .error e s' => .error (errno_fault e) s'

/-! ## Flags -/

def CREATE : UInt64 := 0o100

def EXCLUSIVE : UInt64 := 0o200

def NOCTTY : UInt64 := 0o400

def TRUNCATE : UInt64 := 0o1000

def APPEND : UInt64 := 0o2000

def NONBLOCK : UInt64 := 0o4000

def SYNC : UInt64 := 0o10000

/-- `FileOpenOptions::all()`. -/
def all_options : UInt64 :=
  READ_ONLY ||| WRITE_ONLY ||| READ_WRITE ||| CREATE ||| EXCLUSIVE ||| NOCTTY ||| TRUNCATE |||
    APPEND ||| NONBLOCK ||| SYNC ||| CLOSE_ON_EXEC

/-- `FileOpenOptions::from_bits_truncate`. -/
def from_bits_truncate (bits : UInt64) : UInt64 := bits &&& all_options

def has (foo flag : UInt64) : Bool := contains foo.toBitVec flag.toBitVec

/-- `Permissions::GROUP_READ` and `OTHER_READ`. -/
def GROUP_READ : UInt16 := 0o040

def OTHER_READ : UInt16 := 0o004

/-- The permissions of a file that `open` creates. -/
def created_perms : UInt16 :=
  OWNER_READ ||| OWNER_WRITE ||| OWNER_EXEC ||| GROUP_READ ||| OTHER_READ

/-! ## The call -/

section Open

variable {φ σ δ : Type} [InodeOps σ δ] [FileSystem φ σ δ]

/-- What `open_inner` does to the inode that it found: with `TRUNCATE` the
size becomes 0, and then the driver is asked to truncate. -/
def truncate_found (foo : UInt64) : EStateM (Fault FileError) (σ × Inode δ) Unit :=
  if has foo TRUNCATE then do
    modify (fun p => (p.1, { p.2 with size := 0 }))
    zoom (fun p => (p.1, p.2.data)) (fun p q => (q.1, { p.2 with data := q.2 }))
      (InodeOps.truncate (σ := σ) 0)
  else pure ()

/-- The inode that was found, as it is after `truncate_found`. -/
def open_found (foo : UInt64) (inode : Inode δ) : EStateM (Fault FileError) σ (Inode δ) := fun s =>
  match truncate_found foo (s, inode) with
  | .ok () p => .ok p.2 p.1
  | .error e p => .error e p.1

/-- The second `open_file`, whose error is not expected. -/
def unwrap {α : Type} (x : EStateM (Fault FileError) σ α) : EStateM (Fault UInt64) σ α := fun s =>
  match x s with
  | .ok a s' => .ok a s'
  | .error _ s' => .error .panic s'

/-- The part of `open_inner` with interrupts disabled. -/
def open_inode (vfs : VFS φ) (file_name : List Char) (foo : UInt64) :
    EStateM (Fault UInt64) σ (Inode δ) := fun s =>
  if has foo TRUNCATE ∧ foo &&& (WRITE_ONLY ||| READ_WRITE) = 0 then .error (.err (errno EINVAL)) s
  else
    match (vfs.open_file file_name : EStateM _ σ (Inode δ)) s with
    | .ok inode s' => with_errno (open_found foo inode) s'
    | .error .panic s' => .error .panic s'
    | .error (.err e) s' =>
      if has foo CREATE then
        (do
          let _ ← with_errno (vfs.create_file (δ := δ) file_name created_perms)
          unwrap (vfs.open_file file_name)) s'
      else .error (.err (file_error_to_errno e)) s'

/-- The descriptor of `add_file_handle`: one above the greatest in use. -/
def new_fd (fds : List UInt32) : Nat := (fds.map UInt32.toNat).max?.getD 2 + 1

def wants_write (foo : UInt64) : Bool := has foo WRITE_ONLY || has foo READ_WRITE || has foo TRUNCATE

/-- `open_inner`: the descriptor, the inode and the open file. -/
def open_inner (vfs : VFS φ) (file_name : List Char) (foo : UInt64) (fds : Option (List UInt32)) :
    EStateM (Fault UInt64) σ (Nat × Inode δ × OpenFile) := do
  let file ← open_inode vfs file_name foo
  if file.kind = .Directory ∧ wants_write foo then throw (.err (errno EISDIR))
  else match fds with
    | none => throw (.err (errno ESRCH))
    | some fds =>
      if new_fd fds < UInt32.size then
        pure (new_fd fds, file, { cursor := 0, file_open_options := foo })
      else throw .panic

end Open

end zenos_kernel.syscall
