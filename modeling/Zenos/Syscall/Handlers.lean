-- `syscall_main` and when its handlers panic: `read`, `write`, `lseek`, `stat` and `access` of
-- `syscall/`, beside those of the descriptors, `getdents64` and `waitpid`.
import Zenos.Syscall.Getdents

namespace zenos_kernel.syscall

open Outcome Bytes disk disk.vfs process OpenFile FileHandles Caller process.System

/-! ## The handlers -/

section Handlers

variable {φ σ δ α : Type}

/-- What the methods of `OpenFile` see of the open file. -/
def Caller.file (k : Caller φ σ δ) (file : Nat) : Opened σ δ :=
  ⟨k.fs, k.inodes (k.opened file).inode, (k.opened file).file⟩

def Caller.set_file (k : Caller φ σ δ) (file : Nat) (o : Opened σ δ) : Caller φ σ δ :=
  { k with
    fs := o.fs
    inodes := Function.update k.inodes (k.opened file).inode o.inode
    opened := Function.update k.opened file ⟨(k.opened file).inode, o.file⟩ }

/-- A method of an open file. -/
def on_file (file : Nat) (x : OpenM σ δ α) : CallerM φ σ δ α := fun k =>
  match x (k.file file) with
  | .ok a o => .ok a (k.set_file file o)
  | .error e o => .error (errno_fault e) (k.set_file file o)

/-- The open file of a descriptor of the current process. -/
def file_handle (fd : UInt64) : CallerM φ σ δ Nat := fun k =>
  match k.file_handles with
  | none => .error (.err (errno ESRCH)) k
  | some t =>
    match t.get_file_handle fd with
    | none => .error (.err (errno EBADF)) k
    | some file => .ok file k

/-- The errors of `read`: a positive one is negated. -/
def negate_errno (x : CallerM φ σ δ α) : CallerM φ σ δ α := fun k =>
  match x k with
  | .ok a k' => .ok a k'
  | .error (.err e) k' => .error (.err (if negative e then e else 0 - e)) k'
  | .error .panic k' => .error .panic k'

/-- What `read` does with the bytes: the slice `kernel_buf[..n]`, and `copy_to_user` with an
`unwrap`. -/
def deliver (user_ptr len : Nat) (bytes : List UInt8) : CallerM φ σ δ UInt64 := fun k =>
  if len < bytes.length then .error .panic k
  else
    match copy_to_user k.memory user_ptr bytes with
    | none => .error .panic k
    | some memory => .ok (UInt64.ofNat bytes.length) { k with memory }

/-- The most bytes that a call of `read` moves. -/
def MAX_READ : Nat := 0x10000

def seek_to (file : Nat) (seek_from : SeekFrom) : CallerM φ σ δ UInt64 := do
  let new_pos ← on_file file (OpenFile.seek seek_from)
  pure (UInt64.ofNat new_pos)

def seek_inner (fd offset whence : UInt64) : CallerM φ σ δ UInt64 := do
  let file ← file_handle fd
  if whence = 0 then seek_to file (.Start offset)
  else if whence = 1 then seek_to file (.Current offset.toInt64)
  else if whence = 2 then seek_to file (.End offset.toInt64)
  else throw (.err (errno EINVAL))

def lseek (rdi rsi rdx : UInt64) : Handler φ σ δ := answer (seek_inner rdi rsi rdx)

variable [InodeOps σ δ]

def read_inner (fd : UInt64) (len : Nat) : CallerM φ σ δ (List UInt8) := do
  let file ← file_handle fd
  on_file file (OpenFile.read len)

def read (rdi rsi rdx : UInt64) : Handler φ σ δ :=
  answer do
    let len := min rdx.toNat MAX_READ
    let bytes ← negate_errno (read_inner rdi len)
    deliver rsi.toNat len bytes

def write_inner (fd : UInt64) (buf : List UInt8) : CallerM φ σ δ UInt64 := do
  let file ← file_handle fd
  let n ← on_file file (OpenFile.write buf)
  pure (UInt64.ofNat n)

def write (rdi rsi rdx : UInt64) : Handler φ σ δ :=
  answer fun k =>
    match copy_from_user k.memory rsi.toNat rdx.toNat with
    | none => .error (.err (errno EFAULT)) k
    | some buf => write_inner rdi buf k

/-- The bytes of an `i64`. -/
def le_i64 (v : Int) : List UInt8 := le64 (v % 2 ^ 64).toNat

/-- The bytes of a `Stat`. The four bytes behind `st_mode` belong to no field. -/
def stat_bytes (padding : Vector UInt8 4) (s : Stat) : List UInt8 :=
  le64 s.st_dev.toNat ++ le64 s.st_ino.toNat ++ le32 s.st_mode ++ padding.toList ++
    le64 s.st_nlink.toNat ++ le32 s.st_uid ++ le32 s.st_gid ++ le64 s.st_rdev.toNat ++
    le_i64 s.st_size ++ le_i64 s.st_blksize ++ le_i64 s.st_blocks ++ le_i64 s.st_atime ++
    le_i64 s.st_mtime ++ le_i64 s.st_ctime

variable [FileSystem φ σ δ]

/-- The path at a pointer, opened. -/
def open_path (ptr : UInt64) : CallerM φ σ δ (Inode δ) := fun k =>
  match copy_string k.memory ptr.toNat MAX_PATH_LEN with
  | .error e => .error (.err e) k
  | .ok buf =>
    match (k.vfs.open_file (as_str buf) : EStateM _ σ (Inode δ)) k.fs with
    | .ok inode fs => .ok inode { k with fs }
    | .error e fs => .error (errno_fault e) { k with fs }

/-- `stat` of an inode that was just opened. -/
def stat_of (inode : Inode δ) : CallerM φ σ δ Stat := fun k =>
  match InodeOps.stat (k.fs, inode.data) with
  | .ok st p => .ok st { k with fs := p.1 }
  | .error e p => .error (errno_fault e) { k with fs := p.1 }

/-- `copy_to_user` whose error is `EFAULT`. -/
def copy_out (user_ptr : Nat) (bytes : List UInt8) : CallerM φ σ δ UInt64 := fun k =>
  match copy_to_user k.memory user_ptr bytes with
  | none => .error (.err (errno EFAULT)) k
  | some memory => .ok 0 { k with memory }

def stat (padding : Vector UInt8 4) (rdi rsi : UInt64) : Handler φ σ δ :=
  answer do
    let inode ← open_path rdi
    let st ← stat_of inode
    copy_out rsi.toNat (stat_bytes padding st)

/-- `Mode::from_bits` accepts the three bits of `R_OK`, `W_OK` and `X_OK`. -/
def mode_from_bits (bits : UInt32) : Option UInt32 :=
  if bits &&& 0xFFFFFFF8 = 0 then some bits else none

/-- `Permissions::intersects` with the bit of the owner, the group and the others. -/
def permits (perms bit : UInt16) : Bool := perms &&& (bit * 0o100 ||| bit * 0o10 ||| bit) ≠ 0

/-- `R_OK`, `W_OK` and `X_OK` have the values of the permission bits. -/
def access (rdi rsi : UInt64) : Handler φ σ δ :=
  answer <|
    match mode_from_bits rsi.toUInt32 with
    | none => throw (.err (errno EINVAL))
    | some mode => do
      let inode ← open_path rdi
      let refuses (bit : UInt16) : Bool :=
        mode &&& bit.toUInt32 = bit.toUInt32 && !permits inode.perms bit
      if refuses 4 then throw (.err (errno EACCES))
      else if refuses 2 then throw (.err (errno EACCES))
      else if refuses 1 then throw (.err (errno EACCES))
      else pure 0

end Handlers

/-! ## The table -/

/-- The handlers of this module, of the descriptors, of `getdents64` and of `waitpid`. -/
inductive Sysno
  | read
  | write
  | open_
  | close
  | stat
  | lseek
  | access
  | dup
  | dup2
  | waitpid
  | getdents64
  deriving DecidableEq

/-- The number in the attribute of the handler. -/
def Sysno.number : Sysno → UInt64
  | .read => 0
  | .write => 1
  | .open_ => 2
  | .close => 3
  | .stat => 4
  | .lseek => 8
  | .access => 21
  | .dup => 32
  | .dup2 => 33
  | .waitpid => 61
  | .getdents64 => 217

def Sysno.all : List Sysno :=
  [.read, .write, .open_, .close, .stat, .lseek, .access, .dup, .dup2, .waitpid, .getdents64]

def Sysno.of_number (num : UInt64) : Option Sysno := Sysno.all.find? (fun n => n.number == num)

/-- The arguments of a call. -/
structure Registers where
  rdi : UInt64
  rsi : UInt64
  rdx : UInt64
  r10 : UInt64
  r8 : UInt64
  r9 : UInt64

/-- The caller and the process table. -/
structure Running (φ σ δ : Type) where
  caller : Caller φ σ δ
  system : process.System

/-- What is behind the fields of the structs that are copied to the user. -/
structure Padding where
  dirent : Nat → Vector UInt8 5
  stat : Vector UInt8 4

section Table

variable {φ σ δ : Type}

/-- A call in the table. It answers with a value, or suspends its caller and gives none. -/
abbrev Entry (φ σ δ : Type) := EStateM (Fault Empty) (Running φ σ δ) (Option UInt64)

def on_caller (h : Handler φ σ δ) : Entry φ σ δ := fun s =>
  match h s.caller with
  | .ok v k => .ok (some v) { s with caller := k }
  | .error e k => .error e { s with caller := k }

variable [InodeOps σ δ] [FileSystem φ σ δ]

def Sysno.handler (pad : Padding) (r : Registers) : Sysno → Entry φ σ δ
  | .read => on_caller (zenos_kernel.syscall.read r.rdi r.rsi r.rdx)
  | .write => on_caller (zenos_kernel.syscall.write r.rdi r.rsi r.rdx)
  | .open_ => on_caller (zenos_kernel.syscall.open_ r.rdi r.rsi)
  | .close => on_caller (zenos_kernel.syscall.close r.rdi)
  | .stat => on_caller (zenos_kernel.syscall.stat pad.stat r.rdi r.rsi)
  | .lseek => on_caller (zenos_kernel.syscall.lseek r.rdi r.rsi r.rdx)
  | .access => on_caller (zenos_kernel.syscall.access r.rdi r.rsi)
  | .dup => on_caller (zenos_kernel.syscall.dup r.rdi)
  | .dup2 => on_caller (zenos_kernel.syscall.dup2 r.rdi r.rsi)
  | .getdents64 => on_caller (zenos_kernel.syscall.getdents64 pad.dirent r.rdi r.rsi r.rdx)
  | .waitpid => fun s =>
    let (exit_code, system) := s.system.waitpid r.rdi
    .ok exit_code { s with system }

/-- `syscall_main`, with `others` for the entries of the table that are not modelled here. -/
def syscall_main (others : UInt64 → Option (Registers → Entry φ σ δ)) (pad : Padding)
    (syscall_num : UInt64) (r : Registers) : Entry φ σ δ :=
  match Sysno.of_number syscall_num with
  | some n => n.handler pad r
  | none =>
    match others syscall_num with
    | some func => func r
    | none => fun s => .ok (some (errno ENOSYS)) s

end Table

/-! ## Drivers that do not panic -/

section Calm

variable {φ σ δ α : Type}

/-- From every state in `Good` the call comes back: with a value and in a state in `Good`, or with
an error that is no panic. -/
def Comes (Vol : σ → Prop) (Good : σ → δ → Prop) (x : DriverM σ δ α) (Q : α → σ → Prop) : Prop :=
  ∀ s d, Good s d → Ends (x (s, d)) (fun a p => Good p.1 p.2 ∧ Q a p.1)
    (fun e p => e ≠ .panic ∧ Vol p.1)

/-- No call panics on a volume in `Vol` and on its inodes in `Good`. A read fits its buffer, a
write reports no more than the buffer and the 15 bytes that the console prints for invalid text,
and a file that was created can be opened. -/
structure Calm (φ : Type) {σ δ : Type} [InodeOps σ δ] [FileSystem φ σ δ] (Vol : σ → Prop)
    (Good : σ → δ → Prop) : Prop where
  volume : ∀ s d, Good s d → Vol s
  root_dir : ∀ (fs : φ) s, Vol s → Ends (FileSystem.root_dir fs s)
    (fun (inode : Inode δ) s' => Good s' inode.data) (fun e s' => e ≠ .panic ∧ Vol s')
  lookup : ∀ name, Comes Vol Good (InodeOps.lookup name) fun inode s => Good s inode.data
  create : ∀ name kind perms,
    Comes Vol Good (InodeOps.create name kind perms) fun inode s => Good s inode.data
  read : ∀ offset len, Comes Vol Good (InodeOps.read offset len) fun bytes _ => bytes.length ≤ len
  write : ∀ offset buf, Comes Vol Good (InodeOps.write offset buf) fun n _ => n ≤ buf.length + 15
  truncate : ∀ size, Comes Vol Good (InodeOps.truncate size) fun _ _ => True
  current_time : Comes Vol Good InodeOps.current_time fun _ _ => True
  sync : Comes Vol Good InodeOps.sync fun _ _ => True
  read_dir : Comes Vol Good InodeOps.read_dir fun _ _ => True
  stat : Comes Vol Good InodeOps.stat fun _ _ => True
  reopens : ∀ (fs : φ) parts perms s (inode : Inode δ) s', Vol s →
    VFS.create_parts fs parts perms s = .ok inode s' →
      ∃ (inode' : Inode δ) (s'' : σ), VFS.open_parts fs parts s' = .ok inode' s''

/-- The call fails with a negative number. -/
def Refused (e : Fault UInt64) : Prop := ∃ v, e = .err v ∧ negative v = true

/-- The file is opened for writing if it is to be truncated. -/
def MayTruncate (foo : UInt64) : Prop :=
  ¬ (has foo TRUNCATE = true ∧ foo &&& (WRITE_ONLY ||| READ_WRITE) = 0)

theorem refused_errno {e : Fault FileError} (h : e ≠ .panic) : Refused (errno_fault e) := by
  cases e with
  | err e => exact ⟨_, rfl, negative_file_error e⟩
  | panic => exact absurd rfl h

variable {Vol : σ → Prop} {Good : σ → δ → Prop} {Q : α → σ → Prop} {s : σ}

theorem Comes.in_dir {x : DriverM σ δ α} (hx : Comes Vol Good x Q) {inode : Inode δ}
    (h : Good s inode.data) :
    Ends (vfs.in_dir inode x s) Q (fun e s' => e ≠ .panic ∧ Vol s') :=
  ends_zoom ((hx s _ h).mono_ok fun _ _ h => h.2)

theorem Comes.on_data {x : DriverM σ δ α} (hx : Comes Vol Good x Q) {o : Opened σ δ}
    (h : Good o.fs o.inode.data) : Ends (vfs.on_data x o)
      (fun a o' => Good o'.fs o'.inode.data ∧ o'.file = o.file ∧ Q a o'.fs)
      (fun e _ => e ≠ .panic) :=
  ends_zoom ((hx _ _ h).mono (fun _ _ h => ⟨h.1, rfl, h.2⟩) fun _ _ h => h.1)

variable [InodeOps σ δ] [FileSystem φ σ δ] (hc : Calm φ Vol Good)

include hc

/-- A transfer whose cursor does not overflow. -/
theorem Calm.transfer {x : DriverM σ δ α} {P : α → Prop} (hx : Comes Vol Good x fun a _ => P a)
    {g : UInt64 → Opened σ δ → Opened σ δ} (hg : KeepsData g) {n : α → Nat} {o : Opened σ δ}
    (h : Good o.fs o.inode.data) (hn : ∀ a, P a → o.file.cursor + n a < UInt64.size) (may : Bool) :
    Ends (vfs.transfer may x n g o) (fun a _ => P a) (fun e _ => e ≠ .panic) := by
  unfold vfs.transfer
  split
  · refine ends_bind (hx.on_data h) ?_
    rintro a o1 ⟨h1, hfile, ha⟩
    rw [bind_of_ok (advance_of_lt (by rw [hfile]; exact hn a ha))]
    refine ends_bind (hc.current_time.on_data h1) ?_
    rintro now o2 ⟨h2, -, -⟩
    rw [modify_bind]
    obtain ⟨hfs, hdata⟩ := hg now o2
    refine ends_bind (hc.sync.on_data (hfs.symm ▸ hdata.symm ▸ h2)) fun _ _ _ => ha
  · exact nofun

theorem Calm.walk {needed : UInt16} {parts : List (List Char)} {inode : Inode δ}
    (h : Good s inode.data) : Ends (VFS.walk needed parts inode s)
      (fun inode s' => Good s' inode.data) (fun e s' => e ≠ .panic ∧ Vol s') := by
  induction parts generalizing inode s with
  | nil => exact h
  | cons part parts ih =>
    refine ends_bind ((hc.lookup _).in_dir h) fun di s1 h1 => ?_
    split
    · exact ih h1
    · exact ⟨nofun, hc.volume _ _ h1⟩

theorem Calm.open_parts (fs : φ) (parts : List (List Char)) (h : Vol s) :
    Ends (VFS.open_parts fs parts s) (fun (inode : Inode δ) s' => Good s' inode.data)
      (fun e s' => e ≠ .panic ∧ Vol s') := by
  refine ends_bind (hc.root_dir fs s h) fun root s1 h1 => ?_
  cases parts.getLast? with
  | none => exact h1
  | some last =>
    refine ends_bind (hc.walk h1) fun dir s2 h2 => ?_
    refine ends_bind ((hc.lookup _).in_dir h2) fun inode s3 h3 => ?_
    unfold VFS.readable
    split
    · exact h3
    · exact ⟨nofun, hc.volume _ _ h3⟩

theorem Calm.create_parts (fs : φ) (parts : List (List Char)) (perms : UInt16) (h : Vol s) :
    Ends (VFS.create_parts fs parts perms s) (fun (inode : Inode δ) s' => Good s' inode.data)
      (fun e s' => e ≠ .panic ∧ Vol s') := by
  refine ends_bind (hc.root_dir fs s h) fun root s1 h1 => ?_
  cases parts.getLast? with
  | none => exact h1
  | some last => exact ends_bind (hc.walk h1) fun dir s2 h2 => (hc.create _ _ _).in_dir h2

theorem Calm.open_file (vfs : VFS φ) (path : List Char) (h : Vol s) :
    Ends (vfs.open_file path s) (fun (inode : Inode δ) s' => Good s' inode.data)
      (fun e s' => e ≠ .panic ∧ Vol s') := by
  unfold VFS.open_file
  cases vfs.path_to_fs (normalize_path path) with
  | none => exact ⟨nofun, h⟩
  | some found => exact hc.open_parts _ _ h

theorem Calm.open_found (foo : UInt64) {inode : Inode δ} (h : Good s inode.data) :
    Ends (open_found foo inode s) (fun _ _ => True) (fun e _ => e ≠ .panic) := by
  have hfound : Ends (truncate_found foo (s, inode)) (fun _ _ => True) (fun e _ => e ≠ .panic) := by
    unfold truncate_found
    split
    · rw [modify_bind]
      exact ends_zoom ((hc.truncate 0 s _ h).mono (fun _ _ _ => trivial) fun _ _ h => h.1)
    · trivial
  unfold syscall.open_found
  revert hfound
  cases truncate_found foo (s, inode) with
  | ok u p => exact id
  | error e p => exact id

theorem Calm.open_inode (vfs : VFS φ) (path : List Char) (foo : UInt64) (h : Vol s) :
    Ends (open_inode vfs path foo s : EStateM.Result _ σ (Inode δ)) (fun _ _ => MayTruncate foo)
      (fun e _ => Refused e) := by
  have hfile := hc.open_file vfs path h
  unfold syscall.open_inode
  split
  · exact ⟨_, rfl, by decide⟩
  rename_i hmay
  revert hfile
  cases (vfs.open_file path s : EStateM.Result _ σ (Inode δ)) with
  | ok inode s1 =>
    intro h1
    have hfound := hc.open_found foo h1
    dsimp only [with_errno]
    revert hfound
    cases syscall.open_found foo inode s1 with
    | ok inode' s2 => exact fun _ => hmay
    | error e s2 => exact refused_errno
  | error e s1 =>
    rintro ⟨he, h1⟩
    cases e with
    | panic => exact absurd rfl he
    | err e =>
      dsimp only
      split
      · -- the file is made, and then opened once more
        unfold VFS.create_file VFS.open_file with_errno unwrap
        dsimp only
        cases vfs.path_to_fs (normalize_path path) with
        | none => exact ⟨_, rfl, negative_file_error _⟩
        | some found =>
          have hcreate := hc.create_parts found.2 (VFS.relative_parts (normalize_path path) found.1)
            created_perms h1
          simp only [bind, EStateM.bind]
          cases hrun : (VFS.create_parts found.2 (VFS.relative_parts (normalize_path path) found.1)
              created_perms s1 : EStateM.Result _ σ (Inode δ)) with
          | ok inode s2 =>
            obtain ⟨inode', s3, hopen⟩ := hc.reopens _ _ _ _ _ _ h1 hrun
            simp only [hopen]
            exact hmay
          | error e s2 =>
            rw [hrun] at hcreate
            exact refused_errno hcreate.1
      · exact ⟨_, rfl, negative_file_error e⟩

end Calm

/-! ## The handlers over them -/

section Runs

variable {φ σ δ α : Type} {k k' : Caller φ σ δ} {file : Nat} {a : α} {o : Opened σ δ}
  {s : Running φ σ δ} {target : SeekFrom} {fd : UInt64}

/-- The descriptor is one of the current process. -/
def Caller.Has (k : Caller φ σ δ) (fd : UInt64) (file : Nat) : Prop :=
  ∃ t, k.file_handles = some t ∧ t.get_file_handle fd = some file

/-- The path at the pointer can be copied. -/
def Caller.HasPath (k : Caller φ σ δ) (ptr : UInt64) : Prop :=
  ∃ buf, copy_string k.memory ptr.toNat MAX_PATH_LEN = .ok buf

/-- The size of a `Stat`. -/
def size_of_stat : Nat := 96

section

variable (r : Registers) (k : Caller φ σ δ)

/-- What keeps a call from a panic, by handler: the cursor does not overflow, the buffer of a read
is mapped, the offset is not the least `i64`, and there is a next descriptor. -/
def Sysno.Safe : Sysno → Prop
  | .read => ∀ file, k.Has r.rdi file →
      (k.opened file).file.cursor + min r.rdx.toNat MAX_READ < UInt64.size ∧ (r.rdx ≠ 0 →
        user_range_is_mapped k.memory r.rsi.toNat (min r.rdx.toNat MAX_READ) = true)
  | .write => ∀ file, k.Has r.rdi file →
      (k.opened file).file.cursor + (r.rdx.toNat + 15) < UInt64.size
  | .open_ => ∀ t, k.file_handles = some t → 0xFFFFFFFF ∉ t
  | .lseek => (∃ file, k.Has r.rdi file) → r.rsi.toInt64 = Int64.minValue → r.rdx ≠ 1 ∧ r.rdx ≠ 2
  | .dup => ∀ t, k.file_handles = some t → r.rdi.toUInt32 ∈ t → 0xFFFFFFFF ∉ t
  | .close | .stat | .access | .dup2 | .waitpid | .getdents64 => True

/-- The descriptor, the pointers, `whence`, the mode and the flags of a call that answers `v` are
good. `getdents64` does not look at its pointer when it has no record to store. -/
def Sysno.Accepts (v : UInt64) : Sysno → Prop
  | .read | .close | .dup | .dup2 => ∃ file, k.Has r.rdi file
  | .write => (∃ file, k.Has r.rdi file) ∧
      (r.rdx ≠ 0 → user_range_is_mapped k.memory r.rsi.toNat r.rdx.toNat = true)
  | .open_ => k.HasPath r.rdi ∧ MayTruncate (from_bits_truncate r.rsi)
  | .stat => k.HasPath r.rdi ∧ user_range_is_mapped k.memory r.rsi.toNat size_of_stat = true
  | .lseek => (∃ file, k.Has r.rdi file) ∧ (r.rdx = 0 ∨ r.rdx = 1 ∨ r.rdx = 2)
  | .access => k.HasPath r.rdi ∧ (mode_from_bits r.rsi.toUInt32).isSome = true
  | .getdents64 => (∃ file, k.Has r.rdi file) ∧
      (user_range_is_mapped k.memory r.rsi.toNat size_of_dirent = true ∨ v = 0)
  | .waitpid => True

/-- The handler returns, with a negative number if something is bad. -/
def Sysno.Answers (n : Sysno) (h : Handler φ σ δ) : Prop :=
  Ends (h k) (fun v _ => n.Accepts r k v ∨ negative v = true) (fun _ _ => False)

/-- The call has put its caller to sleep, or it returns. -/
def Sysno.Returns (n : Sysno) (v : Option UInt64) (s' : Running φ σ δ) : Prop :=
  (v = none ∧ ∃ system, s'.system = force_reschedule system) ∨
    ∃ e, v = some e ∧ (n.Accepts r k e ∨ negative e = true)

end

variable {r : Registers} {n : Sysno}

theorem answers_of {x : CallerM φ σ δ UInt64}
    (h : Ends (x k) (fun v _ => n.Accepts r k v) (fun e _ => Refused e)) :
    n.Answers r k (answer x) := by
  unfold Sysno.Answers answer
  revert h
  cases x k with
  | ok v k' => exact Or.inl
  | error e k' =>
    rintro ⟨v, rfl, hv⟩
    exact Or.inr hv

theorem Sysno.Answers.ends {h : Handler φ σ δ} (hh : n.Answers r s.caller h) :
    Ends (on_caller h s) (n.Returns r s.caller) (fun _ _ => False) := by
  unfold Sysno.Answers at hh
  unfold on_caller
  revert hh
  cases h s.caller with
  | ok v k' => exact fun hq => Or.inr ⟨v, rfl, hq⟩
  | error e k' => exact id

theorem fails_on_file {x : OpenM σ δ α} :
    Fails (on_file file x k) .panic ↔ Fails (x (k.file file)) .panic := by
  unfold on_file
  cases hx : x (k.file file) with
  | ok a o => simp
  | error e o => cases e <;> simp [errno_fault]

theorem on_file_ok {x : OpenM σ δ α} :
    on_file file x k = .ok a k' ↔ ∃ o, x (k.file file) = .ok a o ∧ k.set_file file o = k' := by
  unfold on_file
  cases hx : x (k.file file) with
  | ok a' o => simp [eq_comm]
  | error e o => simp

theorem ends_on_file {x : OpenM σ δ α} {Q : α → Prop}
    (h : Ends (x (k.file file)) (fun a _ => Q a) (fun e _ => e ≠ .panic)) :
    Ends (on_file file x k) (fun a k' => Q a ∧ k'.memory = k.memory) (fun e _ => Refused e) := by
  unfold on_file
  revert h
  cases x (k.file file) with
  | ok a o => exact fun hq => ⟨hq, rfl⟩
  | error e o => exact refused_errno

theorem ends_file_handle (fd : UInt64) (k : Caller φ σ δ) :
    Ends (file_handle fd k) (fun file k' => k.Has fd file ∧ k' = k) (fun e _ => Refused e) := by
  unfold file_handle
  cases ht : k.file_handles with
  | none => exact ⟨_, rfl, by decide⟩
  | some t =>
    cases hf : t.get_file_handle fd with
    | none => simpa [hf] using ⟨_, rfl, by decide⟩
    | some f => simpa [hf] using ⟨t, ht, hf⟩

theorem file_handle_ok : file_handle fd k = .ok file k' ↔ k.Has fd file ∧ k' = k := by
  constructor
  · exact (ends_file_handle fd k).of_ok
  · rintro ⟨⟨t, ht, hf⟩, rfl⟩
    simp [file_handle, ht, hf]

/-- A seek panics when the position cannot be computed, which is at the least `i64`. -/
theorem fails_seek : Fails (seek target o) .panic ↔ new_pos o target = none := by
  unfold seek
  rw [get_bind]
  cases new_pos o target with
  | none => simp
  | some pos => simp

theorem fails_seek_to :
    Fails (seek_to file target k) .panic ↔ new_pos (k.file file) target = none := by
  unfold seek_to
  simp only [fails_bind, fails_on_file, fails_seek, pure_run, fails_ok, and_false, exists_false,
    or_false]

theorem moved_ne_none {pos : Nat} {offset : Int64} (h : offset ≠ Int64.minValue) :
    moved pos offset ≠ none := by
  unfold moved
  rw [if_neg h]
  split <;> nofun

theorem ends_seek_to (target : SeekFrom) (h : new_pos (k.file file) target ≠ none) :
    Ends (seek_to file target k) (fun _ _ => True) (fun e _ => Refused e) := by
  refine ends_bind (ends_on_file (Q := fun _ => True) ?_) fun _ _ _ => trivial
  unfold seek
  rw [get_bind]
  cases hpos : new_pos (k.file file) target with
  | none => exact absurd hpos h
  | some pos => trivial

/-- A seek panics at the least `i64` only. -/
theorem ends_lseek (h : Sysno.lseek.Safe r k) :
    Sysno.lseek.Answers r k (lseek r.rdi r.rsi r.rdx) := by
  refine answers_of (ends_bind (ends_file_handle r.rdi k) ?_)
  rintro file _ ⟨hhas, rfl⟩
  have hmin : r.rdx = 1 ∨ r.rdx = 2 → r.rsi.toInt64 ≠ Int64.minValue := by
    intro hr heq
    obtain ⟨h1, h2⟩ := h ⟨file, hhas⟩ heq
    exact hr.elim h1 h2
  split
  · rename_i h0
    exact (ends_seek_to (.Start r.rsi) (Option.some_ne_none _)).mono_ok
      fun _ _ _ => ⟨⟨file, hhas⟩, Or.inl h0⟩
  split
  · rename_i h1
    exact (ends_seek_to (.Current r.rsi.toInt64) (moved_ne_none (hmin (Or.inl h1)))).mono_ok
      fun _ _ _ => ⟨⟨file, hhas⟩, Or.inr (Or.inl h1)⟩
  split
  · rename_i h2
    exact (ends_seek_to (.End r.rsi.toInt64) (moved_ne_none (hmin (Or.inr h2)))).mono_ok
      fun _ _ _ => ⟨⟨file, hhas⟩, Or.inr (Or.inr h2)⟩
  · exact ⟨_, rfl, by decide⟩

theorem ends_or_errno {ε τ : Type} {x : EStateM (Fault ε) τ α} {t : τ} {Q : α → τ → Prop}
    (h : Ends (x t) Q (fun e _ => e ≠ .panic)) :
    Ends (or_errno EBADF x t) Q (fun e _ => Refused e) := by
  unfold or_errno
  revert h
  cases x t with
  | ok a t' => exact id
  | error f t' =>
    cases f with
    | err f => exact fun _ => ⟨_, rfl, by decide⟩
    | panic => exact fun h => absurd rfl h

/-- A call on the table of the process. -/
theorem answers_on_process {x : EStateM (Fault UInt64) (FileHandles Nat) UInt64}
    (hn : ∀ v, (∃ file, k.Has r.rdi file) → n.Accepts r k v)
    (hx : ∀ t, k.file_handles = some t →
      Ends (x t) (fun _ _ => t.lookup r.rdi.toUInt32 ≠ none) (fun e _ => Refused e)) :
    n.Answers r k (answer (on_process x)) := by
  apply answers_of
  unfold on_process
  cases ht : k.file_handles with
  | none => exact ⟨_, rfl, by decide⟩
  | some t =>
    have h := hx t ht
    dsimp only
    revert h
    cases x t with
    | ok v t' =>
      intro h
      obtain ⟨file, hfile⟩ := Option.ne_none_iff_exists'.mp h
      exact hn v ⟨file, t, ht, hfile⟩
    | error e t' => exact id

theorem ends_dup (h : Sysno.dup.Safe r k) : Sysno.dup.Answers r k (dup r.rdi) := by
  refine answers_on_process (fun _ => id) fun t ht => ends_or_errno ?_
  cases hold : t.lookup r.rdi.toUInt32 with
  | none =>
    rw [dup_file_handle_of_none hold]
    nofun
  | some f =>
    have hnext := (next_fd_eq_none_iff t).not.mpr (h t ht (mem_of_lookup hold))
    obtain ⟨fd, hfd⟩ := Option.ne_none_iff_exists'.mp hnext
    rw [dup_file_handle_next hold hfd]
    nofun

theorem ends_dup2 : Sysno.dup2.Answers r k (dup2 r.rdi r.rsi) := by
  refine answers_on_process (fun _ => id) fun t _ => ?_
  rw [get_bind]
  cases hold : t.lookup r.rdi.toUInt32 with
  | none =>
    by_cases heq : r.rdi = r.rsi
    · rw [if_pos heq, get_file_handle, hold]
      exact ⟨_, rfl, by decide⟩
    · rw [if_neg heq]
      refine ends_or_errno ?_
      rw [dup_file_handle_of_none hold]
      intro h
      cases h
  | some f =>
    by_cases heq : r.rdi = r.rsi
    · rw [if_pos heq, get_file_handle, hold]
      exact Option.some_ne_none f
    · rw [if_neg heq]
      refine ends_or_errno ?_
      rw [dup_file_handle_to hold]
      exact Option.some_ne_none f

theorem ends_close : Sysno.close.Answers r k (close r.rdi) := by
  refine answers_on_process (fun _ => id) fun t _ => ?_
  cases hold : t.lookup r.rdi.toUInt32 with
  | none =>
    refine ends_bind (ends_or_errno (Q := fun _ _ => False) ?_) fun _ _ h => h.elim
    rw [close_file_handle_of_none hold]
    nofun
  | some f =>
    refine ends_bind (ends_or_errno (Q := fun _ _ => True) ?_) fun _ _ _ => nofun
    rw [close_file_handle_of_some hold]
    trivial

variable [InodeOps σ δ] [FileSystem φ σ δ] {Vol : σ → Prop} {Good : σ → δ → Prop}
  (hc : Calm φ Vol Good)

section

variable (hgood : ∀ file, Good k.fs (k.inodes (k.opened file).inode).data)

include hc hgood

/-- A read whose bytes the memory of the caller has room for. -/
theorem Calm.read_ends (h : Sysno.read.Safe r k) :
    Sysno.read.Answers r k (syscall.read r.rdi r.rsi r.rdx) := by
  apply answers_of
  refine ends_bind (Q := fun bytes k' => bytes.length ≤ min r.rdx.toNat MAX_READ ∧
    k'.memory = k.memory ∧ ∃ file, k.Has r.rdi file) ?_ ?_
  · have hinner : Ends (read_inner r.rdi (min r.rdx.toNat MAX_READ) k) (fun bytes k' =>
        bytes.length ≤ min r.rdx.toNat MAX_READ ∧ k'.memory = k.memory ∧ ∃ file, k.Has r.rdi file)
        (fun e _ => Refused e) := by
      refine ends_bind (ends_file_handle r.rdi k) ?_
      rintro file _ ⟨hhas, rfl⟩
      refine (ends_on_file (hc.transfer (hc.read _ _) keepsData_access (hgood file) ?_ _)).mono_ok
        fun _ _ h => ⟨h.1, h.2, file, hhas⟩
      intro bytes hbytes
      exact Nat.lt_of_le_of_lt (Nat.add_le_add_left hbytes _) (h file hhas).1
    unfold negate_errno
    revert hinner
    cases read_inner r.rdi (min r.rdx.toNat MAX_READ) k with
    | ok bytes k' => exact id
    | error e k' =>
      rintro ⟨v, rfl, hv⟩
      exact ⟨_, rfl, by rw [if_pos hv]; exact hv⟩
  · rintro bytes k' ⟨hlen, hmem, file, hhas⟩
    unfold deliver
    rw [if_neg (Nat.not_lt.mpr hlen), hmem]
    by_cases hnil : bytes.length = 0
    · rw [copy_to_user, if_pos hnil]
      exact ⟨file, hhas⟩
    · have hrdx : r.rdx ≠ 0 := by
        intro h0
        rw [h0] at hlen
        exact hnil (Nat.le_zero.mp hlen)
      have hmapped : user_range_is_mapped k.memory r.rsi.toNat bytes.length = true :=
        mapped_sub ((h file hhas).2 hrdx) (o := 0) hnil (by omega)
      rw [copy_to_user_eq hmapped]
      exact ⟨file, hhas⟩

theorem Calm.write_ends (h : Sysno.write.Safe r k) :
    Sysno.write.Answers r k (syscall.write r.rdi r.rsi r.rdx) := by
  apply answers_of
  cases hbuf : copy_from_user k.memory r.rsi.toNat r.rdx.toNat with
  | none => exact ⟨_, rfl, by decide⟩
  | some buf =>
    have hlen : buf.length = r.rdx.toNat ∧
        (r.rdx ≠ 0 → user_range_is_mapped k.memory r.rsi.toNat r.rdx.toNat = true) := by
      unfold copy_from_user at hbuf
      split at hbuf
      · rename_i h0
        cases hbuf
        exact ⟨h0.symm, fun hne => absurd (UInt64.toNat_inj.mp h0) hne⟩
      · split at hbuf
        · rename_i hmapped
          cases hbuf
          exact ⟨length_slice _ _ _, fun _ => hmapped⟩
        · cases hbuf
    refine ends_bind (ends_file_handle r.rdi k) ?_
    rintro file _ ⟨hhas, rfl⟩
    refine ends_bind (ends_on_file (hc.transfer (hc.write _ buf) keepsData_change (hgood file) ?_ _))
      fun _ _ _ => ⟨⟨file, hhas⟩, hlen.2⟩
    intro n hn
    exact Nat.lt_of_le_of_lt (Nat.add_le_add_left (hlen.1 ▸ hn) _) (h file hhas)

/-- A bad buffer is refused when there is a record for it. -/
theorem Calm.getdents64_ends (pad : Nat → Vector UInt8 5) :
    Sysno.getdents64.Answers r k (getdents64 pad r.rdi r.rsi r.rdx) := by
  apply answers_of
  cases ht : k.file_handles with
  | none => exact ⟨_, rfl, by decide⟩
  | some t =>
    cases hfd : t.get_file_handle r.rdi with
    | none => simpa [hfd] using ⟨_, rfl, by decide⟩
    | some file =>
      have hdir := hc.read_dir k.fs _ (hgood file)
      simp only [hfd]
      revert hdir
      cases (InodeOps.read_dir : DriverM σ δ (List (DirEntry δ)))
        (k.fs, (k.inodes (k.opened file).inode).data) with
      | error e p => exact fun h => refused_errno h.1
      | ok dentries p =>
        intro _
        have h := ends_fill pad r.rdx.toNat (dentries.drop (k.opened file).file.cursor)
          ⟨k.memory, r.rsi.toNat, 0, (k.opened file).file.cursor⟩
        unfold list_dir
        simp only [set_data_opened, set_data_memory]
        revert h
        cases fill pad r.rdx.toNat (dentries.drop (k.opened file).file.cursor)
          ⟨k.memory, r.rsi.toNat, 0, (k.opened file).file.cursor⟩ with
        | error e f => exact fun h => ⟨_, h.1, by decide⟩
        | ok u f =>
          rintro ⟨hfilled, -⟩
          refine ⟨⟨file, t, ht, hfd⟩, Classical.or_iff_not_imp_left.mpr fun hbad => ?_⟩
          -- nothing was delivered
          have hnone : Fill.delivered ⟨k.memory, r.rsi.toNat, 0, (k.opened file).file.cursor⟩
              r.rdx.toNat (dentries.drop (k.opened file).file.cursor) = [] := by
            unfold Fill.delivered
            cases dentries.drop (k.opened file).file.cursor with
            | nil => rfl
            | cons d ds =>
              rw [delivered, if_neg hbad]
              exact ite_self _
          rw [hnone] at hfilled
          rw [show f.bytes_written = 0 from hfilled.bytes_written]
          rfl

end

section

variable (hvol : Vol k.fs)

include hc hvol

theorem Calm.open_ends (h : Sysno.open_.Safe r k) :
    Sysno.open_.Answers r k (open_ r.rdi r.rsi) := by
  apply answers_of
  cases hbuf : copy_string k.memory r.rdi.toNat MAX_PATH_LEN with
  | error e => exact ⟨e, rfl, negative_of_copy_string hbuf⟩
  | ok buf =>
    have hinner : Ends (open_inner k.vfs (as_str buf) (from_bits_truncate r.rsi)
        (k.file_handles.map AList.keys) k.fs : EStateM.Result _ σ (Nat × Inode δ × OpenFile))
        (fun _ _ => MayTruncate (from_bits_truncate r.rsi)) (fun e _ => Refused e) := by
      refine ends_bind (hc.open_inode _ _ _ hvol) fun inode fs hmay => ?_
      split
      · exact ⟨_, rfl, by decide⟩
      · cases ht : k.file_handles with
        | none => exact ⟨_, rfl, by decide⟩
        | some t =>
          have hnext := (next_fd_eq_none_iff t).not.mpr (h t ht)
          have hlt : new_fd t.keys < UInt32.size := by
            by_contra hbig
            exact hnext (if_neg hbig)
          simp only [Option.map_some, if_pos hlt]
          exact hmay
    dsimp only
    revert hinner
    cases (open_inner k.vfs (as_str buf) (from_bits_truncate r.rsi)
        (k.file_handles.map AList.keys) k.fs : EStateM.Result _ σ (Nat × Inode δ × OpenFile)) with
    | ok found fs => exact fun hmay => ⟨⟨buf, hbuf⟩, hmay⟩
    | error e fs => exact id

theorem Calm.open_path (ptr : UInt64) : Ends (open_path ptr k)
      (fun (inode : Inode δ) k' => Good k'.fs inode.data ∧ k'.memory = k.memory ∧ k.HasPath ptr)
      (fun e _ => Refused e) := by
  unfold syscall.open_path
  cases hbuf : copy_string k.memory ptr.toNat MAX_PATH_LEN with
  | error e => exact ⟨e, rfl, negative_of_copy_string hbuf⟩
  | ok buf =>
    have hfile := hc.open_file k.vfs (as_str buf) hvol
    dsimp only
    revert hfile
    cases (k.vfs.open_file (as_str buf) k.fs : EStateM.Result _ σ (Inode δ)) with
    | ok inode fs => exact fun h => ⟨h, rfl, buf, hbuf⟩
    | error e fs => exact fun h => refused_errno h.1

/-- A bad pointer is refused, after the file was found. -/
theorem Calm.stat_ends (pad : Vector UInt8 4) :
    Sysno.stat.Answers r k (syscall.stat pad r.rdi r.rsi) := by
  refine answers_of (ends_bind (hc.open_path hvol r.rdi) ?_)
  rintro inode k1 ⟨h1, hmem, hpath⟩
  refine ends_bind (Q := fun _ k2 => k2.memory = k.memory) ?_ ?_
  · have hstat := hc.stat k1.fs inode.data h1
    unfold stat_of
    revert hstat
    cases (InodeOps.stat : DriverM σ δ Stat) (k1.fs, inode.data) with
    | ok st p => exact fun _ => hmem
    | error e p => exact fun h => refused_errno h.1
  · intro st k2 h2
    have hlen : (stat_bytes pad st).length = size_of_stat := by
      simp [stat_bytes, le_i64, size_of_stat]
    unfold copy_out
    rw [h2]
    by_cases hmapped : user_range_is_mapped k.memory r.rsi.toNat size_of_stat = true
    · rw [copy_to_user_eq (by rw [hlen]; exact hmapped)]
      exact ⟨hpath, hmapped⟩
    · rw [copy_to_user_refused (by rw [hlen]; decide) (by rw [hlen]; exact hmapped)]
      exact ⟨_, rfl, by decide⟩

theorem Calm.access_ends : Sysno.access.Answers r k (access r.rdi r.rsi) := by
  apply answers_of
  unfold Sysno.Accepts
  cases mode_from_bits r.rsi.toUInt32 with
  | none => exact ⟨_, rfl, by decide⟩
  | some mode =>
    refine ends_bind (hc.open_path hvol r.rdi) fun inode k1 h1 => ?_
    dsimp only
    split
    · exact ⟨_, rfl, by decide⟩
    · split
      · exact ⟨_, rfl, by decide⟩
      · split
        · exact ⟨_, rfl, by decide⟩
        · exact ⟨h1.2.2, rfl⟩

end

end Runs

/-! ## Every call -/

section Main

variable {φ σ δ : Type}

theorem Sysno.of_number_number (n : Sysno) : Sysno.of_number n.number = some n := by
  cases n <;> decide

/-- `waitpid` that gives no answer has put its caller to sleep. -/
theorem waitpid_suspends {s s' : process.System} {rdi : UInt64}
    (h : s.waitpid rdi = (none, s')) : ∃ s1, s' = force_reschedule s1 := by
  rcases s.waitpid_ends rdi with ⟨i, _, hexit, heq⟩ | ⟨e, heq⟩ | ⟨target_pid, heq⟩
  · rw [heq, Prod.mk.injEq] at h
    rw [h.1] at hexit
    cases hexit
  · rw [heq] at h
    cases h
  · rw [heq] at h
    cases h
    unfold sleep
    split <;> exact ⟨_, rfl⟩

variable [InodeOps σ δ] [FileSystem φ σ δ]

end Main

/-! ## Calls that panic -/

def noPadding : Padding := ⟨fun _ => Vector.replicate 5 0, Vector.replicate 4 0⟩

/-- A process with the console. -/
def consoleRuns : Running Empty (List UInt8) Console :=
  ⟨{ consoleCaller consoleHandles with memory := ⟨fun _ => true, fun _ => 0x61⟩ },
    process.System.bootedKernel⟩

open fs.ext2 ExtFileInodeOps in
/-- A process whose descriptor 3 is a file of 2048 bytes. -/
def fileRuns : Running Unit Ext2FSInner Ext2Data where
  caller := { dirCaller with
    inodes := fun _ => ⟨5, .File, 2048, 0o644, 1, 0, 0, 0, 0, 0,
      .file { dirInode with i_mode := 0x81A4 } 5⟩ }
  system := process.System.bootedKernel

/-- The console does not panic. -/
theorem calm_console : Calm Empty (fun _ : List UInt8 => True) (fun _ (_ : Console) => True) where
  volume _ _ _ := trivial
  root_dir fs := fs.elim
  lookup _ _ _ _ := ⟨nofun, trivial⟩
  create _ _ _ _ _ _ := ⟨nofun, trivial⟩
  read _ _ _ _ _ := ⟨nofun, trivial⟩
  write _ buf s d _ := by
    refine ⟨trivial, ?_⟩
    unfold printed
    split
    · exact Nat.le_add_right _ _
    · exact Nat.le_add_left _ _
  truncate _ _ _ _ := ⟨nofun, trivial⟩
  current_time _ _ _ := ⟨trivial, trivial⟩
  sync _ _ _ := ⟨trivial, trivial⟩
  read_dir _ _ _ := ⟨nofun, trivial⟩
  stat _ _ _ := ⟨nofun, trivial⟩
  reopens fs := fs.elim

def panicked {ε σ α : Type} : EStateM.Result (Fault ε) σ α → Bool
  | .error .panic _ => true
  | _ => false

theorem fails_of_panicked {ε σ α : Type} {r : EStateM.Result (Fault ε) σ α}
    (h : panicked r = true) : Fails r .panic := by
  unfold panicked at h
  split at h
  · exact ⟨_, rfl⟩
  · cases h

open fs.ext2 ExtFileInodeOps in
/-- The volume is mounted, and `a` in its root directory is a symbolic link. The caller has the path
`/a` in its memory. -/
def linkRuns : Running Unit Ext2FSInner Ext2Data where
  caller := { dirCaller with
    vfs := ⟨[(['/'], ())], List.pairwise_singleton _ _⟩
    fs := { dirVolume with
      device := { dirVolume.device with
        bytes := splice (splice dirVolume.device.bytes 8320 dirInode.serialize) 8704
          { emptyInode with i_mode := 0xA1FF }.serialize } }
    memory := ⟨fun _ => true, splice (fun _ => 0) 0x1000 [0x2f, 0x61]⟩ }
  system := process.System.bootedKernel

section Seeks

variable {φ σ δ : Type} {k : Caller φ σ δ} {fd offset whence : UInt64} {file : Nat}

/-- The offset from 0, the cursor or the size of the file. -/
def Caller.exact_pos (k : Caller φ σ δ) (file : Nat) (offset whence : UInt64) : Int :=
  (if whence = 0 then 0 else if whence = 1 then (k.file file).file.cursor
    else (k.file file).inode.size.toNat : Nat) + offset.toInt64.toInt

/-- The call gives the exact position, an `i64` that is not negative, and moves the cursor there;
or it fails and leaves the cursor. -/
def Caller.SeeksExactly (k : Caller φ σ δ) (fd : UInt64) (file : Nat) (offset whence : UInt64) :
    Prop :=
  Ends (seek_inner fd offset whence k)
    (fun v k' => v.toNat = k.exact_pos file offset whence ∧ negative v = false ∧
      (k'.opened file).file.cursor = k.exact_pos file offset whence)
    (fun f k' => (∃ e, f = .err e ∧ negative e = true) ∧
      (k'.opened file).file.cursor = (k.opened file).file.cursor)

theorem seeksExactly_iff_new_pos {target : SeekFrom}
    (hrun : seek_inner fd offset whence k = seek_to file target k) :
    k.SeeksExactly fd file offset whence ↔ ∃ n, new_pos (k.file file) target = some n ∧
      k.exact_pos file offset whence < 2 ^ 63 ∧ n = k.exact_pos file offset whence := by
  unfold SeeksExactly
  rw [hrun]
  cases hn : new_pos (k.file file) target with
  | none =>
    obtain ⟨k', hfail⟩ := fails_seek_to.mpr hn
    simp [hfail, Ends]
  | some n =>
    have hseek : seek target (k.file file) = .ok n { k.file file with
        file := { (k.file file).file with cursor := n } } := by
      unfold seek
      rw [get_bind, hn]
      rfl
    have hto := bind_of_ok (f := fun n => pure (UInt64.ofNat n)) (on_file_ok.mpr ⟨_, hseek, rfl⟩)
    simp [seek_to, hto, Ends, set_file, negative]
    omega

/-- The least `i64` cannot be negated, and the other sums are exact unless they saturate. -/
theorem moved_exact_iff (pos : Nat) (d : Int64) :
    (∃ n : Nat, moved pos d = some n ∧ pos + d.toInt < 2 ^ 63 ∧ n = pos + d.toInt) ↔
      0 ≤ pos + d.toInt ∧ pos + d.toInt < 2 ^ 63 ∧ d ≠ Int64.minValue := by
  unfold moved
  by_cases hmin : d = Int64.minValue
  · simp [hmin]
  · have hneg : d < 0 ↔ d.toInt < 0 := Int64.lt_iff_toInt_lt
    simp only [hmin, hneg, if_false, ne_eq, not_false_eq_true, and_true, UInt64.size]
    split
    · simp only [Option.some.injEq, exists_eq_left']
      omega
    · simp only [Option.some.injEq, exists_eq_left']
      omega

/-- A seek of an open file is exact if and only if the position is an `i64` that is not negative,
and the offset is not the least one. -/
theorem seeks_are_exact_iff (h : k.Has fd file) (hwhence : whence = 0 ∨ whence = 1 ∨ whence = 2) :
    k.SeeksExactly fd file offset whence ↔ 0 ≤ k.exact_pos file offset whence ∧
      k.exact_pos file offset whence < 2 ^ 63 ∧ offset.toInt64 ≠ Int64.minValue := by
  have hfile : file_handle fd k = .ok file k := file_handle_ok.mpr ⟨h, rfl⟩
  rcases hwhence with rfl | rfl | rfl
  · rw [seeksExactly_iff_new_pos (bind_of_ok hfile)]
    -- the offset itself, as an unsigned number
    have htoInt : offset.toInt64.toInt = if 2 * offset.toNat < 2 ^ 64 then (offset.toNat : Int)
        else offset.toNat - 2 ^ 64 := BitVec.toInt_eq_toNat_cond _
    have hmin : offset.toInt64 = Int64.minValue ↔ offset.toInt64.toInt = -2 ^ 63 :=
      Int64.toInt_inj.symm
    have hsize := offset.toNat_lt
    simp [new_pos, exact_pos, hmin]
    omega
  · rw [seeksExactly_iff_new_pos (bind_of_ok hfile)]
    exact moved_exact_iff _ _
  · rw [seeksExactly_iff_new_pos (bind_of_ok hfile)]
    exact moved_exact_iff _ _

/-- `lseek(1, -1, SEEK_SET)` succeeds. -/
theorem a_negative_seek_succeeds :
    ¬ (consoleCaller consoleHandles).SeeksExactly 1 1 0xFFFFFFFFFFFFFFFF 0 := by
  intro h
  have hpos : _ = (-1 : Int) ∧ _ := h
  exact absurd hpos.1 (by decide)

theorem a_seek_is_exact : (consoleCaller consoleHandles).SeeksExactly 1 1 7 0 :=
  (seeks_are_exact_iff ⟨consoleHandles, rfl, by decide⟩ (Or.inl rfl)).mpr (by decide)

end Seeks

end zenos_kernel.syscall
