-- The page-frame allocator. `initialize` gives every region of physical memory
-- a bitmap of its whole pages, and puts the bitmaps one after the other at the
-- start of the higher half, which is physical address 0. A set bit is a free
-- page.
import Zenos.Lib.WordBitmap

namespace zenos_kernel.memory

open WordBitmap

def PAGE_4K : Nat := 4096

def PAGE_2M : Nat := 2 * 1024 * 1024

def HIGHER_HALF_BASE : Nat := 0xFFFF800000000000

/-- `PhysAddr`: an address of at most 52 bits. -/
structure PhysAddr where
  as_u64 : Nat
  valid : as_u64 < 0x10000000000000
  deriving DecidableEq

inductive PageSize
  | Size4KiB
  | Size2MiB
  deriving DecidableEq, Repr

/-- The number of bytes of a page. -/
def PageSize.bytes : PageSize → Nat
  | .Size4KiB => PAGE_4K
  | .Size2MiB => PAGE_2M

/-- The number of 4 KiB pages of a page. -/
def PageSize.step : PageSize → Nat
  | .Size4KiB => 1
  | .Size2MiB => PAGE_2M / PAGE_4K

inductive MapErr
  | OutOfMemory
  | NotMapped
  | Uninitialized
  | InvalidAlignment
  deriving DecidableEq, Repr

/-- What ends the kernel. -/
inductive Panic
  /-- Arithmetic that overflows. -/
  | overflow
  /-- `PhysAddr::new` of an address of more than 52 bits. -/
  | phys_addr
  deriving DecidableEq, Repr

/-- `node_virt` is the address of the node itself. -/
structure BitmapNode where
  node_virt : Nat
  map : List UInt64
  base_phys : Nat
  region_size : Nat
  deriving DecidableEq, Repr

/-- `size_of::<BitmapNode>()`: a pointer, a fat pointer and two words. -/
def size_of_bitmap_node : Nat := 40

/-- The linked list from `head` on. `next` of a node is the node after it. -/
structure PageAllocator where
  head : List BitmapNode
  deriving DecidableEq, Repr

/-! ## initialize -/

/-- A region of usable memory, as `(start, size)`. -/
structure Region where
  start_phys : UInt64
  size : UInt64
  deriving DecidableEq, Repr

/-- The two variables of the loop. -/
structure Init where
  head : List BitmapNode
  storage_offset : Nat
  deriving DecidableEq, Repr

def Init.start : Init := ⟨[], 0⟩

/-- Arithmetic of 64 bits panics when it overflows. -/
def u64 (n : Nat) : Except Panic Nat := if n < UInt64.size then .ok n else .error .overflow

/-- Subtraction panics below zero. -/
def u64_sub (a b : Nat) : Except Panic Nat := if b ≤ a then .ok (a - b) else .error .overflow

/-- One turn of the loop of `initialize`. -/
def init_region (i : Init) (r : Region) : Except Panic Init := do
  -- the sum with a whole page is checked, before the 1 is taken off
  let past ← u64 (r.start_phys.toNat + PAGE_4K)
  let aligned_start := (past - 1) / PAGE_4K * PAGE_4K
  let end_phys ← u64 (r.start_phys.toNat + r.size.toNat)
  let rest ← u64_sub end_phys aligned_start
  let aligned_size := rest / PAGE_4K * PAGE_4K
  if aligned_size < PAGE_4K then .ok i
  else
    let pages_in_region := aligned_size / PAGE_4K
    let bitmap_words := (pages_in_region + 63) / 64
    let node_virt ← u64 (HIGHER_HALF_BASE + i.storage_offset)
    let _bitmap_virt ← u64 (node_virt + size_of_bitmap_node)
    -- every word is stored as `u64::MAX`, and the last one loses the bits
    -- past the end
    let node :=
      { node_virt, map := full pages_in_region, base_phys := aligned_start,
        region_size := aligned_size }
    let storage_offset ← u64 (i.storage_offset + (size_of_bitmap_node + bitmap_words * 8))
    .ok ⟨node :: i.head, storage_offset⟩

/-- The loop of `initialize`, with the end of the storage that it used. -/
def init_regions (memory_regions : List Region) : Except Panic Init :=
  memory_regions.foldlM init_region Init.start

def initialize_allocator (memory_regions : List Region) : Except Panic PageAllocator := do
  let i ← init_regions memory_regions
  .ok ⟨i.head⟩

/-! ## alloc and dealloc -/

abbrev AllocM := EStateM Panic PageAllocator

/-- The test that picks the node of an address. The sum is at most the end of
the region, so it does not overflow. -/
def BitmapNode.holds (node : BitmapNode) (phys : Nat) : Bool :=
  node.base_phys ≤ phys && phys < node.base_phys + node.region_size

/-- The number of the page of `phys` in its node. -/
def BitmapNode.page_num (node : BitmapNode) (phys : Nat) : Nat :=
  (phys - node.base_phys) / PAGE_4K

/-- The walk along the list to the node of `phys`. The list is changed at that
node; `none` is an early return. -/
def at_node (phys : Nat) (f : BitmapNode → Option BitmapNode) :
    List BitmapNode → Option (List BitmapNode)
  | [] => none
  | node :: next =>
    if node.holds phys then (f node).map (· :: next)
    else (at_node phys f next).map (node :: ·)

/-- One page of a node is taken. The lock of the allocator is held, so the
exchange succeeds at once. -/
def BitmapNode.take_page (phys : Nat) (node : BitmapNode) : Option BitmapNode :=
  let page_num := node.page_num phys
  let word_idx := page_num / 64
  if word_idx < node.map.length then
    if node.map.getD word_idx 0 &&& mask (page_num % 64) = 0 then none
    else some { node with map := clear node.map page_num }
  else none

/-- `words_needed` words of a node are taken, if all their bits are set. -/
def BitmapNode.take_words (phys step : Nat) (node : BitmapNode) : Option BitmapNode :=
  let page_num := node.page_num phys
  if page_num % step = 0 then
    let word_idx := page_num / 64
    let words_needed := step / 64
    if word_idx + words_needed > node.map.length then none
    else if (List.range words_needed).all
        (fun i => node.map.getD (word_idx + i) 0 == 0xFFFFFFFFFFFFFFFF) then
      some { node with
        map := (List.range words_needed).foldl (fun map i => map.set (word_idx + i) 0) node.map }
    else none
  else none

def BitmapNode.take (size : PageSize) (phys : Nat) (node : BitmapNode) : Option BitmapNode :=
  match size with
  | .Size4KiB => node.take_page phys
  | .Size2MiB => node.take_words phys size.step

/-- `alloc` of a given address. -/
def alloc_at (size : PageSize) (phys_addr : PhysAddr) : AllocM (Option PhysAddr) := do
  let s ← get
  let phys := phys_addr.as_u64
  if phys % size.bytes ≠ 0 then pure none
  else
    match at_node phys (BitmapNode.take size phys) s.head with
    | none => pure none
    | some head => do
      set (PageAllocator.mk head)
      pure (some phys_addr)

/-- The loop over the bits of one word, for pages of 4 KiB. -/
def find_bit (pages word_idx : Nat) (val : UInt64) : Option Nat :=
  ((List.range 64).takeWhile (fun bit_pos => word_idx * 64 + bit_pos < pages)).find?
    (fun bit_pos => has val bit_pos)

/-- The loop over the words of one node. For pages of 2 MiB the bound
`64 - step` of the inner loop is below zero. -/
def find_word (step pages : Nat) : Nat → List UInt64 → Except Panic (Option Nat)
  | _, [] => .ok none
  | word_idx, val :: words =>
    if val = 0 then find_word step pages (word_idx + 1) words
    else if 64 < step then .error .overflow
    else
      match find_bit pages word_idx val with
      | some bit_pos => .ok (some (word_idx * 64 + bit_pos))
      | none => find_word step pages (word_idx + 1) words

/-- The loop over the nodes: the address of the first free page, and the list
without it. -/
def take_first (step : Nat) : List BitmapNode → Except Panic (Option (Nat × List BitmapNode))
  | [] => .ok none
  | node :: next => do
    match ← find_word step (node.region_size / PAGE_4K) 0 node.map with
    | some page_num =>
      .ok (some (node.base_phys + page_num * PAGE_4K,
        { node with map := clear node.map page_num } :: next))
    | none =>
      match ← take_first step next with
      | some (phys, next) => .ok (some (phys, node :: next))
      | none => .ok none

/-- `alloc` of any address. The page is taken before `PhysAddr::new` checks it. -/
def alloc_any (size : PageSize) : AllocM (Option PhysAddr) := do
  let s ← get
  match take_first size.step s.head with
  | .error e => throw e
  | .ok none => pure none
  | .ok (some (phys, head)) => do
    set (PageAllocator.mk head)
    if h : phys < 0x10000000000000 then pure (some ⟨phys, h⟩) else throw .phys_addr

def alloc (size : PageSize) (specific_addr : Option PhysAddr) : AllocM (Option PhysAddr) :=
  match specific_addr with
  | some phys_addr => alloc_at size phys_addr
  | none => alloc_any size

/-- The pages from `phys` on are free again. -/
def BitmapNode.give_page (phys : Nat) (node : BitmapNode) : Option BitmapNode :=
  let page_num := node.page_num phys
  if page_num / 64 < node.map.length then some { node with map := mark node.map page_num }
  else none

/-- `dealloc`. For pages of 2 MiB the mask is `1 << 512`, which overflows. -/
def dealloc (phys_addr : PhysAddr) (size : PageSize) : AllocM (Except MapErr Unit) := do
  let s ← get
  match size with
  | .Size4KiB =>
    match at_node phys_addr.as_u64 (BitmapNode.give_page phys_addr.as_u64) s.head with
    | none => pure (.error .NotMapped)
    | some head => do
      set (PageAllocator.mk head)
      pure (.ok ())
  | .Size2MiB =>
    match s.head.find? (fun node => node.holds phys_addr.as_u64) with
    | none => pure (.error .NotMapped)
    | some node =>
      if node.page_num phys_addr.as_u64 / size.step * size.step / 64 < node.map.length then
        throw .overflow
      else pure (.error .NotMapped)

end zenos_kernel.memory
