-- Regular files: `ExtFileInodeOps` of `ext2/mod.rs`. A handle holds its own
-- copy of the inode. `read`, `write` and `truncate` walk the block pointers and
-- write the inode back.
import Zenos.Ext2.Inner
import Mathlib.Logic.Function.Basic

namespace zenos_kernel.disk.fs.ext2

open Bytes Outcome Ext2FSInner

/-! ## Arrays of block pointers -/

namespace Ext2FSInner

/-- `read_block_u32_array`: the pointers that block `block` holds. -/
def read_block_u32_array (block : UInt32) : Ext2M (List UInt32) := do
  let s ← get
  let buf ← read_block block
  pure (toWords buf (s.bs / 4))

/-- `write_block_u32_array`: as many pointers as fit, and zeros behind them. -/
def write_block_u32_array (block : UInt32) (ptrs : List UInt32) : Ext2M Unit := do
  let s ← get
  let words := ofWords (ptrs.take (s.bs / 4))
  write_block block (words ++ List.replicate (s.bs - words.length) 0)

/-- The loop `for b in bs { if b != 0 { blocks.extend(f(b)?) } }`. -/
def gather (f : UInt32 → Ext2M (List UInt32)) : List UInt32 → Ext2M (List UInt32)
  | [] => pure []
  | b :: bs =>
    if b ≠ 0 then do
      let blocks ← f b
      let rest ← gather f bs
      pure (blocks ++ rest)
    else gather f bs

/-- The pointers below block `b`, `level` reads deep. -/
def pointers_below : Nat → UInt32 → Ext2M (List UInt32)
  | 0, b => read_block_u32_array b
  | level + 1, b => do
    let ptrs ← read_block_u32_array b
    gather (pointers_below level) ptrs

/-- `collect_data_blocks`: all direct pointers, then what the single, double and
triple indirect blocks hold. A pointer of 0 to an indirect block is left out. -/
def collect_data_blocks (ino : Ext2Inode) : Ext2M (List UInt32) := do
  let single ← gather (pointers_below 0) [ino.i_block single_slot]
  let double ← gather (pointers_below 1) [ino.i_block double_slot]
  let triple ← gather (pointers_below 2) [ino.i_block triple_slot]
  pure (((List.ofFn ino.i_block).take 12) ++ single ++ double ++ triple)

/-- `sync_inode`. -/
def sync_inode (ext2inode : Ext2Inode) (inode_num : UInt32) : Ext2M Unit := do
  let inode_offset ← get_block_offset_for_inode_num inode_num
  write_at inode_offset ext2inode.serialize
  sync_superblock

/-- `let _ = x`: an error is dropped, a panic is not. -/
def ignore_error (x : Ext2M Unit) : Ext2M Unit := fun s =>
  match x s with
  | .ok _ s' => .ok () s'
  | .error (.err _) s' => .ok () s'
  | .error .panic s' => .error .panic s'

end Ext2FSInner

/-! ## The handle -/

/-- A handle that holds the lock of the volume. -/
structure ExtFileInodeOps where
  inner : Ext2FSInner
  ext2inode : Ext2Inode
  inode_num : UInt32

abbrev FileM := EStateM (Fault FileError) ExtFileInodeOps

namespace ExtFileInodeOps

variable (f : ExtFileInodeOps)

def bs : Nat := f.inner.bs

/-- A step on the volume. -/
def locked {α : Type} (x : Ext2M α) : FileM α := zoom (·.inner) (fun f s => { f with inner := s }) x

def set_block (k : Fin 15) (block : UInt32) : ExtFileInodeOps :=
  { f with ext2inode := { f.ext2inode with i_block := Function.update f.ext2inode.i_block k block } }

def set_blocks (i_blocks : UInt32) : ExtFileInodeOps :=
  { f with ext2inode := { f.ext2inode with i_blocks } }

def set_size (i_size : UInt32) : ExtFileInodeOps :=
  { f with ext2inode := { f.ext2inode with i_size } }

def set_atime (i_atime : UInt32) : ExtFileInodeOps :=
  { f with ext2inode := { f.ext2inode with i_atime } }

/-- `i_mtime` and `i_ctime`. -/
def set_times (now : UInt32) : ExtFileInodeOps :=
  { f with ext2inode := { f.ext2inode with i_mtime := now, i_ctime := now } }

/-- `i_blocks += block_size / 512`. -/
def add_blocks : FileM Unit := do
  let f ← get
  let n := f.ext2inode.i_blocks.toNat + f.bs / 512
  if n < UInt32.size then modify (·.set_blocks (UInt32.ofNat n)) else throw .panic

/-- `i_blocks -= block_size / 512`. -/
def sub_blocks : FileM Unit := do
  let f ← get
  if f.bs / 512 ≤ f.ext2inode.i_blocks.toNat then
    modify (·.set_blocks (UInt32.ofNat (f.ext2inode.i_blocks.toNat - f.bs / 512)))
  else throw .panic

/-- A new block, filled with zeros if it is to hold pointers. -/
def zero_block (zeroed : Bool) (new_block : UInt32) : FileM Unit := do
  let f ← get
  if zeroed then locked (write_block new_block (List.replicate f.bs 0)) else pure ()

/-- Slot `k` of the inode gets a block if it has none. -/
def fill_slot (k : Fin 15) (zeroed : Bool) : FileM Unit := do
  let f ← get
  if f.ext2inode.i_block k = 0 then do
    let new_block ← locked allocate_block
    modify (·.set_block k new_block)
    add_blocks
    zero_block zeroed new_block
  else pure ()

/-- Entry `index` of an indirect block gets a block if it has none. -/
def fill_entry (block : UInt32) (index : Nat) (zeroed : Bool) : FileM UInt32 := do
  let read ← locked (read_block_u32_array block)
  let ptrs := read ++ List.replicate (index + 1 - read.length) 0
  if ptrs.getD index 0 = 0 then do
    let new_block ← locked allocate_block
    add_blocks
    zero_block zeroed new_block
    locked (write_block_u32_array block (ptrs.set index new_block))
    pure new_block
  else pure (ptrs.getD index 0)

def get_or_alloc_block (block_index : Nat) : FileM UInt32 := do
  let f ← get
  let ptrs_per_block := f.bs / 4
  if h : block_index < 12 then do
    let k : Fin 15 := ⟨block_index, by omega⟩
    fill_slot k false
    let f ← get
    pure (f.ext2inode.i_block k)
  else
    let index := block_index - 12
    if index < ptrs_per_block then do
      fill_slot single_slot true
      let f ← get
      fill_entry (f.ext2inode.i_block single_slot) index false
    else
      let index := index - ptrs_per_block
      if index < ptrs_per_block * ptrs_per_block then do
        fill_slot double_slot true
        let f ← get
        let l2 ← fill_entry (f.ext2inode.i_block double_slot) (index / ptrs_per_block) true
        fill_entry l2 (index % ptrs_per_block) false
      else throw (.err (.Other "File too large (triply indirect not supported)"))

/-- `sync_inode` of the inode that the handle holds. -/
def sync_handle : FileM Unit := do
  let f ← get
  locked (sync_inode f.ext2inode f.inode_num)

/-! ## The operations -/

/-- The part of a block that one turn of the loop reads. A hole reads as zeros. -/
def read_chunk (block_num : UInt32) (offset_in_block n : Nat) : Ext2M (List UInt8) :=
  if block_num = 0 then pure (List.replicate n 0)
  else do
    let s ← get
    let offset ← u64 (s.partition_offset + block_num.toNat * s.bs + offset_in_block)
    read_at offset n

/-- The loop of `read`. Every turn but the last takes a byte, so `fuel` bytes
need at most `fuel` turns. -/
def read_loop (data_blocks : List UInt32) : Nat → Nat → Nat → Ext2M (List UInt8)
  | 0, _, _ => pure []
  | fuel + 1, current_offset, left =>
    if left = 0 then pure []
    else do
      let s ← get
      let block_index := current_offset / s.bs
      let offset_in_block := current_offset % s.bs
      if data_blocks.length ≤ block_index then pure []
      else do
        let block_num := data_blocks.getD block_index 0
        let n := min (s.bs - offset_in_block) left
        let chunk ← read_chunk block_num offset_in_block n
        let rest ← read_loop data_blocks fuel (current_offset + n) (left - n)
        pure (chunk ++ rest)

/-- The end of `read`: the access time, if bytes were read from a volume that
may be written. -/
def update_atime (wanted : Bool) : FileM Unit :=
  if wanted then do
    let now ← locked current_time
    modify (·.set_atime now.toUInt32)
    let f ← get
    locked (ignore_error (sync_inode f.ext2inode f.inode_num))
  else pure ()

/-- `read` into a buffer of `len` bytes. -/
def read (offset len : Nat) : FileM (List UInt8) := do
  let f ← get
  let file_size := f.ext2inode.i_size.toNat
  let bytes_to_read := min len (file_size - offset)
  if file_size ≤ offset ∨ bytes_to_read = 0 then pure []
  else do
    let data_blocks ← locked (collect_data_blocks f.ext2inode)
    let bytes ← locked (read_loop data_blocks bytes_to_read offset bytes_to_read)
    update_atime (bytes ≠ [] ∧ f.inner.read_only = false)
    pure bytes

/-- The block before the copy: read unless all of it will be written. -/
def block_to_change (block_num : UInt32) (offset_in_block left : Nat) : Ext2M (List UInt8) := do
  let s ← get
  if offset_in_block ≠ 0 ∨ left < s.bs then read_block block_num
  else pure (List.replicate s.bs 0)

/-- The loop of `write`. Every turn takes a byte of `buf`. -/
def write_loop : Nat → Nat → List UInt8 → FileM Unit
  | 0, _, _ => pure ()
  | fuel + 1, current_offset, buf =>
    if buf = [] then pure ()
    else do
      let f ← get
      let offset_in_block := current_offset % f.bs
      let block_num ← get_or_alloc_block (current_offset / f.bs)
      let block_buf ← locked (block_to_change block_num offset_in_block buf.length)
      let n := min (f.bs - offset_in_block) buf.length
      locked (write_block block_num (overwrite block_buf offset_in_block (buf.take n)))
      write_loop fuel (current_offset + n) (buf.drop n)

/-- The end of `write` and `truncate`: the times, and the inode to the disk. -/
def touch : FileM Unit := do
  let now ← locked current_time
  modify (·.set_times now.toUInt32)
  sync_handle

/-- `write`. The answer is the number of bytes written. -/
def write (offset : Nat) (buf : List UInt8) : FileM Nat := do
  let f ← get
  if f.inner.read_only then throw (.err .ReadOnlyFilesystem)
  else if buf = [] then pure 0
  else do
    write_loop buf.length offset buf
    let new_end := offset + buf.length
    modify (fun f =>
      if f.ext2inode.i_size.toNat < new_end then f.set_size (UInt32.ofNat new_end) else f)
    touch
    pure buf.length

/-- The loop of `truncate` that frees the data blocks from index `first` on. -/
def free_data_blocks (first : Nat) : Nat → List UInt32 → FileM Unit
  | _, [] => pure ()
  | i, block :: blocks =>
    if first ≤ i ∧ block ≠ 0 then do
      locked (free_block block)
      sub_blocks
      free_data_blocks first (i + 1) blocks
    else free_data_blocks first (i + 1) blocks

/-- `self.ext2inode.i_block[i] = 0` for `i` from `first` to 11. -/
def clear_direct (first : Nat) (f : ExtFileInodeOps) : ExtFileInodeOps :=
  { f with ext2inode := { f.ext2inode with
    i_block := fun k => if first ≤ k ∧ k < 12 then 0 else f.ext2inode.i_block k } }

def free_single : FileM Unit := do
  let f ← get
  if f.ext2inode.i_block single_slot ≠ 0 then do
    locked (free_block (f.ext2inode.i_block single_slot))
    modify (·.set_block single_slot 0)
  else pure ()

def free_double : FileM Unit := do
  let f ← get
  if f.ext2inode.i_block double_slot ≠ 0 then do
    let l1 ← locked (read_block_u32_array (f.ext2inode.i_block double_slot))
    locked (each (l1.filter (· != 0)) free_block)
    locked (free_block (f.ext2inode.i_block double_slot))
    modify (·.set_block double_slot 0)
  else pure ()

/-- The indirect blocks that are not needed for `new_block_count` blocks. -/
def free_indirect (new_block_count : Nat) : FileM Unit := do
  let f ← get
  if new_block_count ≤ 12 then do
    free_single
    free_double
  else if new_block_count ≤ 12 + f.bs / 4 then free_double
  else pure ()

def truncate (size : Nat) : FileM Unit := do
  let f ← get
  if f.inner.read_only then throw (.err .ReadOnlyFilesystem)
  else if f.ext2inode.i_size.toNat ≤ size then do
    modify (·.set_size (UInt32.ofNat size))
    touch
  else do
    let new_block_count := (size + f.bs - 1) / f.bs
    let data_blocks ← locked (collect_data_blocks f.ext2inode)
    free_data_blocks new_block_count 0 data_blocks
    modify (clear_direct new_block_count)
    free_indirect new_block_count
    modify (·.set_size (UInt32.ofNat size))
    touch

def sync : FileM Unit := sync_handle

end ExtFileInodeOps

end zenos_kernel.disk.fs.ext2
