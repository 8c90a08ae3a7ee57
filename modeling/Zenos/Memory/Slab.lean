-- The slab heap. A slab is 15 pages with a header, and blocks of one size with
-- a header each; the free blocks of a slab are a list through these headers.
-- The allocator keeps the slabs in a vector, and finds one by its block size
-- only.
import Zenos.Lib.LinkedList
import Zenos.Lib.Outcome
import Zenos.Memory.PageAllocator

namespace zenos_kernel.memory.slab

open LinkedList Outcome

def PAGE_SIZE : Nat := PAGE_4K

def MAX_SLAB_PAGES : Nat := 15

def SLAB_SIZE_CLASSES : List Nat := [8, 16, 32, 64, 128, 256, 512, 1024, 2048, 4096]

def MAX_SLABS : Nat := 32

def SLAB_BASE_ADDR : Nat := 0xFFFFFF1000000000

/-- `BlockMeta`: two pointers and a flag, aligned to 16 bytes. -/
structure BlockMeta where
  next : Option Nat
  prev : Option Nat
  used : Bool
  deriving DecidableEq, Repr

def BlockMeta.new : BlockMeta := ⟨none, none, false⟩

def size_of_block_meta : Nat := 32

structure SlabMeta where
  size : Nat
  used : Nat
  total : Nat
  magic_number : UInt64
  deriving DecidableEq, Repr

def MAGIC : UInt64 := (0x16042010 : UInt64) <<< 1 ||| 1

def size_of_slab_meta : Nat := 32

def SlabMeta.new (size total : Nat) : SlabMeta := ⟨size, 0, total, MAGIC⟩

def SlabMeta.is_full (m : SlabMeta) : Bool := m.used ≥ m.total

structure Slab where
  base_addr : Nat
  slab_size : Nat
  head : Option Nat
  deriving DecidableEq, Repr

/-- The allocator and the memory it works on. `freed_slots` is a stack, with
its top first. `slab_meta` and `block_meta` are the headers by their address,
and `mapped` says which pages are mapped, by page number. -/
structure SlabAllocator where
  slabs : List Slab
  base_addr : Nat
  freed_slots : List Nat
  slab_meta : Nat → SlabMeta
  block_meta : Nat → BlockMeta
  mapped : Nat → Bool

/-- `SlabAllocator::new`. Nothing is mapped, so the headers do not matter. -/
def SlabAllocator.new : SlabAllocator where
  slabs := []
  base_addr := SLAB_BASE_ADDR
  freed_slots := []
  slab_meta := fun _ => ⟨0, 0, 0, 0⟩
  block_meta := fun _ => BlockMeta.new
  mapped := fun _ => false

/-- What ends the kernel. -/
inductive Trap
  | page_fault
  /-- `debug_assert!` on the number of used blocks. -/
  | too_many_used
  | free_failed
  | slab_list_full
  deriving DecidableEq, Repr

abbrev HeapM := EStateM Trap SlabAllocator

/-! ## Memory -/

/-- A header at `addr` can be used: the pages of its 32 bytes are mapped. -/
def SlabAllocator.reachable (s : SlabAllocator) (addr : Nat) : Bool :=
  s.mapped (addr / PAGE_SIZE) && s.mapped ((addr + 31) / PAGE_SIZE)

variable (addr : Nat)

def access : HeapM Unit := do
  let s ← get
  if s.reachable addr then pure () else throw .page_fault

def set_slab_meta (m : SlabMeta) (s : SlabAllocator) : SlabAllocator :=
  { s with slab_meta := Function.update s.slab_meta addr m }

def set_block_meta (m : BlockMeta) (s : SlabAllocator) : SlabAllocator :=
  { s with block_meta := Function.update s.block_meta addr m }

def read_slab_meta : HeapM SlabMeta := do
  access addr
  let s ← get
  pure (s.slab_meta addr)

def write_slab_meta (m : SlabMeta) : HeapM Unit := do
  access addr
  modify (set_slab_meta addr m)

def read_block_meta : HeapM BlockMeta := do
  access addr
  let s ← get
  pure (s.block_meta addr)

/-- A change of the header at `addr`. -/
def update_block_meta (f : BlockMeta → BlockMeta) : HeapM Unit := do
  let m ← read_block_meta addr
  modify (set_block_meta addr (f m))

/-- A change of the header that `p` points to, if it points to one. -/
def update_pointee (p : Option Nat) (f : BlockMeta → BlockMeta) : HeapM Unit :=
  match p with
  | none => pure ()
  | some addr => update_block_meta addr f

def map_page (page : Nat) (present : Bool) (s : SlabAllocator) : SlabAllocator :=
  { s with mapped := Function.update s.mapped page present }

/-- `kalloc_page`, which always finds a frame here. -/
def kalloc_page (page_addr : Nat) : HeapM Unit :=
  modify (map_page (page_addr / PAGE_SIZE) true)

/-- `kfree_page`: a page that is not mapped is an error, and `Slab::free` panics. -/
def kfree_page (page_addr : Nat) : HeapM Unit := do
  let s ← get
  if s.mapped (page_addr / PAGE_SIZE) then modify (map_page (page_addr / PAGE_SIZE) false)
  else throw .free_failed

/-! ## One slab -/

def user_ptr_from_meta (meta_ptr : Nat) : Nat := meta_ptr + size_of_block_meta

def meta_ptr_from_user (user_ptr : Nat) : Nat := user_ptr - size_of_block_meta

/-- The number of blocks that fit into a slab. -/
def total_blocks (slab_size : Nat) : Nat :=
  (MAX_SLAB_PAGES * PAGE_SIZE - size_of_slab_meta) / (size_of_block_meta + slab_size)

/-- The header of block `i`. -/
def block_addr (base_addr slab_size i : Nat) : Nat :=
  base_addr + size_of_slab_meta + i * (size_of_block_meta + slab_size)

/-- The loop of `Slab::new`: `left` more blocks from block `i` on. The answer is
the head of the list. -/
def link_blocks (base_addr slab_size : Nat) :
    (left i : Nat) → (prev head : Option Nat) → HeapM (Option Nat)
  | 0, _, _, head => pure head
  | left + 1, i, prev, head => do
    let bm := block_addr base_addr slab_size i
    update_block_meta bm (fun _ => BlockMeta.new)
    update_pointee prev (fun p => { p with next := some bm })
    update_block_meta bm (fun nn => { nn with prev := prev })
    link_blocks base_addr slab_size left (i + 1) (some bm) (head.or (some bm))

/-- `Slab::new`. -/
def Slab.new (base_addr slab_size : Nat) (meta_ : SlabMeta) : HeapM Slab := do
  each (List.range MAX_SLAB_PAGES) (fun j => kalloc_page (base_addr + j * PAGE_SIZE))
  let actual_blocks := total_blocks slab_size
  write_slab_meta base_addr { meta_ with total := min meta_.total actual_blocks }
  let head ← link_blocks base_addr slab_size actual_blocks 0 none none
  pure ⟨base_addr, slab_size, head⟩

/-- `Slab::free`. -/
def Slab.free (slab : Slab) : HeapM Unit :=
  each (List.range MAX_SLAB_PAGES) (fun i => kfree_page (slab.base_addr + i * PAGE_SIZE))

/-- `Slab::alloc` takes the head of the list. `none` is the null pointer. -/
def Slab.alloc (slab : Slab) : HeapM (Option Nat × Slab) := do
  let slab_meta ← read_slab_meta slab.base_addr
  if slab_meta.magic_number ≠ MAGIC ∨ slab_meta.is_full then pure (none, slab)
  else
    match slab.head with
    | none => pure (none, slab)
    | some nn => do
      let m ← read_block_meta nn
      update_pointee m.next (fun nxt => { nxt with prev := none })
      write_slab_meta slab.base_addr { slab_meta with used := slab_meta.used + 1 }
      update_block_meta nn (fun m => { m with used := true })
      pure (some (user_ptr_from_meta nn), { slab with head := m.next })

/-- `SlabMeta::deallocate`. -/
def SlabMeta.deallocate (m : SlabMeta) : SlabMeta := { m with used := m.used - 1 }

/-- `Slab::dealloc` puts the block in front of the list of this slab. -/
def Slab.dealloc (slab : Slab) (ptr : Nat) : HeapM Slab := do
  let slab_meta ← read_slab_meta slab.base_addr
  if slab_meta.magic_number ≠ MAGIC ∨ slab_meta.used = 0 ∨ ptr = 0 then pure slab
  else do
    let nn := meta_ptr_from_user ptr
    update_block_meta nn (fun _ => ⟨slab.head, none, false⟩)
    update_pointee slab.head (fun old_head => { old_head with prev := some nn })
    if slab_meta.deallocate.used ≤ slab_meta.total then do
      write_slab_meta slab.base_addr slab_meta.deallocate
      pure { slab with head := some nn }
    else throw .too_many_used

/-! ## The allocator -/

/-- The first slab of a size. -/
def SlabAllocator.position (s : SlabAllocator) (slab_size : Nat) : Option Nat :=
  s.slabs.findIdx? (fun slab => slab.slab_size == slab_size)

def SlabAllocator.set_slab (s : SlabAllocator) (index : Nat) (slab : Slab) : SlabAllocator :=
  { s with slabs := s.slabs.set index slab }

/-- The address of a new slab: a freed one, or the next one. -/
def take_slot : HeapM Nat := do
  let s ← get
  match s.freed_slots with
  | recycled_addr :: freed_slots => do
    set { s with freed_slots := freed_slots }
    pure recycled_addr
  | [] => do
    set { s with base_addr := (s.base_addr + MAX_SLAB_PAGES * PAGE_SIZE) % UInt64.size }
    pure s.base_addr

/-- The second half of `alloc`: a block of a new slab. -/
def alloc_new_slab (slab_size : Nat) : HeapM (Option Nat) := do
  let base_addr ← take_slot
  let new_slab ← Slab.new base_addr slab_size (SlabMeta.new slab_size (total_blocks slab_size))
  let (ptr, new_slab) ← new_slab.alloc
  match ptr with
  | none => pure none
  | some ptr => do
    let s ← get
    if s.slabs.length < MAX_SLABS then do
      set { s with slabs := s.slabs ++ [new_slab] }
      pure (some ptr)
    else throw .slab_list_full

/-- The first half: a block of the first slab of the size. -/
def alloc_first_slab (slab_size : Nat) : HeapM (Option Nat) := do
  let s ← get
  match s.position slab_size with
  | none => pure none
  | some index =>
    match s.slabs[index]? with
    | none => pure none
    | some slab => do
      let (ptr, slab) ← slab.alloc
      modify (fun s => s.set_slab index slab)
      pure ptr

structure Layout where
  size : Nat
  align : Nat
  deriving DecidableEq, Repr

/-- `SlabAllocator::alloc`. -/
def SlabAllocator.alloc (layout : Layout) : HeapM (Option Nat) :=
  if layout.size = 0 ∨ layout.size > 4096 then pure none
  else
    match SLAB_SIZE_CLASSES.find? (fun s => s ≥ layout.size && s ≥ layout.align) with
    | none => pure none
    | some slab_size => do
      let ptr ← alloc_first_slab slab_size
      match ptr with
      | some ptr => pure (some ptr)
      | none => alloc_new_slab slab_size

/-- The slab at `index` has no block in use: it leaves the list, its pages are
unmapped, and its address is kept for the next slab. -/
def release_slab (index : Nat) (slab : Slab) : HeapM Unit := do
  modify (fun s => { s with slabs := swap_remove s.slabs index })
  slab.free
  modify (fun s =>
    if s.freed_slots.length < MAX_SLABS then
      { s with freed_slots := slab.base_addr :: s.freed_slots }
    else s)

/-- `SlabAllocator::dealloc`. The slab is found by the size of the block. -/
def SlabAllocator.dealloc (ptr : Nat) (layout : Layout) : HeapM Unit := do
  let s ← get
  if ptr = 0 then pure ()
  else
    match SLAB_SIZE_CLASSES.find? (fun s => s ≥ layout.size) with
    | none => pure ()
    | some slab_size =>
      match s.position slab_size with
      | none => pure ()
      | some index =>
        match s.slabs[index]? with
        | none => pure ()
        | some slab => do
          let slab ← slab.dealloc ptr
          modify (fun s => s.set_slab index slab)
          let slab_meta ← read_slab_meta slab.base_addr
          if slab_meta.used = 0 then release_slab index slab else pure ()

end zenos_kernel.memory.slab
