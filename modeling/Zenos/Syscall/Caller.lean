-- What the handlers of `syscall/` work on: the descriptors of the current process, the open
-- files and the inodes behind them, the file systems, and the memory of the caller.
import Mathlib.Data.List.AList
import Zenos.Process.Arguments

namespace zenos_kernel.syscall

open disk disk.vfs process

/-! ## Descriptors -/

/-- `HashMap<u32, Rc<Mutex<OpenFile>>>`, with `ρ` for the references. -/
abbrev FileHandles (ρ : Type) := AList (fun _ : UInt32 => ρ)

namespace FileHandles

variable {ρ : Type}

def get_file_handle (t : FileHandles ρ) (fd : UInt64) : Option ρ := t.lookup fd.toUInt32

/-- The sum `max + 1` of the descriptors in use, which is a `u32`. -/
def next_fd (t : FileHandles ρ) : Option UInt32 :=
  if new_fd t.keys < UInt32.size then some (UInt32.ofNat (new_fd t.keys)) else none

/-- `Process::dup_file_handle`. An error is `()`. -/
def dup_file_handle (old_fd : UInt64) (new_fd : Option UInt64) :
    EStateM (Fault Unit) (FileHandles ρ) UInt64 := do
  let t ← get
  match t.lookup old_fd.toUInt32 with
  | none => throw (.err ())
  | some old_handle => do
    let new_fd ← match new_fd with
      | some fd => pure fd
      | none =>
        match t.next_fd with
        | some fd => pure fd.toUInt64
        | none => throw .panic
    if new_fd.toUInt32 ∈ t then modify (fun t => t.erase new_fd.toUInt32)
    modify (fun t => t.insert new_fd.toUInt32 old_handle)
    pure new_fd

def close_file_handle (fd : UInt64) : EStateM (Fault FileError) (FileHandles ρ) Unit := do
  let t ← get
  match t.extract fd.toUInt32 with
  | (none, _) => throw (.err .InvalidFileDescriptor)
  | (some _, t') => set t'

end FileHandles

/-! ## What a call works on -/

/-- `OpenFile` with the inode that it points to. -/
structure FileRef where
  inode : Nat
  file : OpenFile

/-- `file_handles` is `none` when there is no current process. An inode and an open file are
behind a reference: they are the entries of `inodes` and of `opened`, and `next_inode` and
`next_file` are the entries of the next ones. -/
structure Caller (φ σ δ : Type) where
  vfs : VFS φ
  fs : σ
  inodes : Nat → Inode δ
  opened : Nat → FileRef
  next_inode : Nat
  next_file : Nat
  file_handles : Option (FileHandles Nat)
  memory : AddressSpace

/-- A part of a handler: an error is the answer of the call. -/
abbrev CallerM (φ σ δ α : Type) := EStateM (Fault UInt64) (Caller φ σ δ) α

/-- A handler answers or panics. -/
abbrev Handler (φ σ δ : Type) := EStateM (Fault Empty) (Caller φ σ δ) UInt64

section Parts

variable {φ σ δ α ε τ : Type}

/-- `unwrap_or_else(|errno| errno)`. -/
def answer (x : CallerM φ σ δ UInt64) : Handler φ σ δ := fun k =>
  match x k with
  | .ok v k' => .ok v k'
  | .error (.err e) k' => .ok e k'
  | .error .panic k' => .error .panic k'

/-- `map_err(|_| -e)`. -/
def or_errno (e : UInt64) (x : EStateM (Fault ε) τ α) : EStateM (Fault UInt64) τ α := fun s =>
  match x s with
  | .ok a s' => .ok a s'
  | .error (.err _) s' => .error (.err (errno e)) s'
  | .error .panic s' => .error .panic s'

/-- A call of the current process, which may be missing. -/
def on_process (x : EStateM (Fault UInt64) (FileHandles Nat) α) : CallerM φ σ δ α := fun k =>
  match k.file_handles with
  | none => .error (.err (errno ESRCH)) k
  | some t =>
    match x t with
    | .ok a t' => .ok a { k with file_handles := some t' }
    | .error e t' => .error e { k with file_handles := some t' }

end Parts

/-! ## The console -/

/-- `Stdout` and `Stderr`. -/
inductive Console
  | Stdout
  | Stderr
  deriving DecidableEq

/-- `from_utf8(buf).unwrap_or("<invalid utf-8>")`. -/
def printed (buf : List UInt8) : List UInt8 :=
  if Utf8.valid buf then buf
  else [0x3c, 0x69, 0x6e, 0x76, 0x61, 0x6c, 0x69, 0x64, 0x20, 0x75, 0x74, 0x66, 0x2d, 0x38, 0x3e]

/-- What `kprint!` and `kprintln!` put on the screen. -/
def Console.screen : Console → List UInt8 → List UInt8
  | .Stdout, text => text
  | .Stderr, text => text ++ [0x0a]

/-- The shared state is the text on the screen. Nothing shows the times of a console inode, since
there is no `stat`, so the clock stands still. -/
instance : InodeOps (List UInt8) Console where
  read _ _ := throw (.err .UnsupportedOperation)
  write _ buf := do
    modify (fun p => (p.1 ++ p.2.screen (printed buf), p.2))
    pure (printed buf).length
  truncate _ := throw (.err .UnsupportedOperation)
  sync := pure ()
  unlink _ := throw (.err .UnsupportedOperation)
  lookup _ := throw (.err .UnsupportedOperation)
  create _ _ _ := throw (.err .UnsupportedOperation)
  read_dir := throw (.err .UnsupportedOperation)
  stat := throw (.err .UnsupportedOperation)
  current_time := pure 0

/-- Nothing is mounted. -/
instance : FileSystem Empty (List UInt8) Console where
  root_dir fs := fs.elim

end zenos_kernel.syscall
