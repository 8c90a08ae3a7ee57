-- Pages of the kernel and the buffers for DMA: `kalloc_page`, `kfree_page`, `map_page`,
-- `kalloc_dma_pages` and `kfree_dma_pages` of `memory/mod.rs`. The addresses of the buffers only
-- grow, and a page that is mapped already counts as a success. The mapper is a parameter.
import Mathlib.Algebra.Ring.Nat
import Mathlib.Data.Finset.Max
import Mathlib.Data.Finset.Union
import Zenos.Disk.Device
import Zenos.Memory.Slab

namespace zenos_kernel.memory

open Outcome disk

/-! ## Constants -/

def KERNEL_BASE : Nat := 0xFFFFFF0000000000

def KERNEL_STACK_BASE : Nat := KERNEL_BASE + 0x100000000

/-- The start value of `DMA_BASE`. -/
def DMA_START : Nat := KERNEL_BASE + 0x10000000

def KERNEL_FB_MAPPINGS : Nat := KERNEL_BASE + 0x200000000

def LARGE_ALLOC_BASE_ADDR : Nat := KERNEL_BASE + 0x4000000000

def AHCI_VIRT_BASE : Nat := KERNEL_BASE + 0x20000000

/-- `MAX_SLOTS`, which is also the number of ports. -/
def MAX_SLOTS : Nat := 32

/-- The end of the command tables of the last port. -/
def AHCI_VIRT_END : Nat := AHCI_VIRT_BASE + 0x2000 + MAX_SLOTS * MAX_SLOTS * PAGE_4K

/-! ## The state -/

/-- Which free frame is handed out. -/
structure FramePolicy where
  choose : Finset Nat → Nat
  chosen : ∀ frames : Finset Nat, frames.Nonempty → choose frames ∈ frames

/-- The frames and the page tables. A page is a virtual address divided by its size. `page` is the
entry of a page in a level-1 table, `huge` the frame of a page under a huge page, and
`table level i` tells whether the `i`th table of the level is there. `tables` are the frames that
became tables. `managed` are the frames that the allocator knows, and `ready` is false as long as
`ALLOCATOR` is `None`. -/
structure PageTables where
  free : Finset Nat
  tables : Finset Nat
  policy : FramePolicy
  managed : Nat → Bool
  ready : Bool
  page : Nat → Option Nat
  huge : Nat → Option Nat
  table : Nat → Nat → Bool

/-! ## What a page costs -/

namespace PageTables

/-- The frame that a page leads to. -/
def leads (m : PageTables) (p : Nat) : Option Nat := (m.huge p).or (m.page p)

/-- The levels of the tables above a page. -/
def levels : PageSize → List Nat
  | .Size4KiB => [3, 2, 1]
  | .Size2MiB => [3, 2]

/-- The tables that a page is under, by level and number. A page under a huge page has no entry. -/
def needs (m : PageTables) (size : PageSize) (p : Nat) : Finset (Nat × Nat) :=
  if (m.huge p).isSome then ∅ else ((levels size).map fun l => (l, p / 512 ^ l)).toFinset

/-- Those of the tables that are not there. -/
def missing (m : PageTables) (ts : Finset (Nat × Nat)) : Finset (Nat × Nat) :=
  ts.filter fun t => m.table t.1 t.2 = false

/-- `k` frames were taken for pages, and one for each of the tables that was missing. -/
structure Spent (m m' : PageTables) (k : Nat) (ts : Finset (Nat × Nat)) : Prop where
  huge : m'.huge = m.huge
  ready : m'.ready = m.ready
  table : ∀ l i, m'.table l i = (m.table l i || decide ((l, i) ∈ ts))
  free : m'.free.card + (k + (m.missing ts).card) = m.free.card

/-- Some frames became the tables `ts`, and nothing else changed. -/
structure TookTables (m m' : PageTables) (ts : Finset (Nat × Nat)) : Prop
    extends Spent m m' 0 ts where
  managed : m'.managed = m.managed
  page : m'.page = m.page
  subset : m'.free ⊆ m.free
  tables : m.tables ⊆ m'.tables
  union : m'.free ∪ m'.tables = m.free ∪ m.tables
  count : m'.free.card + m'.tables.card ≤ m.free.card + m.tables.card

variable {m m' m1 : PageTables} {k k' : Nat} {ts ts' : Finset (Nat × Nat)}

theorem Spent.refl (m : PageTables) : Spent m m 0 ∅ := ⟨rfl, rfl, by simp, by simp [missing]⟩

theorem Spent.le (h : Spent m m' k ts) : k + (m.missing ts).card ≤ m.free.card := by
  have := h.free
  omega

theorem Spent.needs (h : Spent m m' k ts) : m'.needs = m.needs := by
  unfold PageTables.needs
  rw [h.huge]

/-- Tables that are made once are not missing later. -/
theorem Spent.missing_union (h : Spent m m1 k ts) (ts' : Finset (Nat × Nat)) :
    (m.missing (ts ∪ ts')).card = (m.missing ts).card + (m1.missing ts').card := by
  rw [← Finset.card_union_of_disjoint]
  · congr 1
    ext ⟨l, i⟩
    by_cases hmem : (l, i) ∈ ts <;> simp [missing, h.table, hmem]
  · rw [Finset.disjoint_left]
    rintro ⟨l, i⟩ hleft hright
    simp only [missing, Finset.mem_filter, h.table] at hleft hright
    simp [hleft.1] at hright

theorem Spent.trans (h : Spent m m1 k ts) (h' : Spent m1 m' k' ts') :
    Spent m m' (k + k') (ts ∪ ts') where
  huge := h'.huge.trans h.huge
  ready := h'.ready.trans h.ready
  table l i := by simp [h'.table, h.table, Bool.or_assoc]
  free := by
    have := h.free
    have := h'.free
    have := h.missing_union ts'
    omega

theorem TookTables.refl (m : PageTables) : TookTables m m ∅ :=
  ⟨Spent.refl m, rfl, rfl, Finset.Subset.refl _, Finset.Subset.refl _, rfl, Nat.le_refl _⟩

theorem TookTables.trans (h : TookTables m m1 ts) (h' : TookTables m1 m' ts') :
    TookTables m m' (ts ∪ ts') where
  toSpent := h.toSpent.trans h'.toSpent
  managed := h'.managed.trans h.managed
  page := h'.page.trans h.page
  subset := h'.subset.trans h.subset
  tables := h.tables.trans h'.tables
  union := h'.union.trans h.union
  count := Nat.le_trans h'.count h.count

theorem TookTables.leads (h : TookTables m m' ts) : m'.leads = m.leads := by
  unfold PageTables.leads
  rw [h.page, h.huge]

inductive MapToError
  | FrameAllocationFailed
  | ParentEntryHugePage
  | PageAlreadyMapped
  deriving DecidableEq

/-- The frames have run out before all of `ts` were made. -/
def RunsOut (m : PageTables) (ts : Finset (Nat × Nat)) (e : MapToError) (m' : PageTables) :
    Prop :=
  e = .FrameAllocationFailed ∧ (∃ made, TookTables m m' made) ∧ m'.free = ∅ ∧
    m.free.card < (m.missing ts).card

/-- Nothing is where the page is mapped. -/
def Vacant (m : PageTables) (p : Nat) : PageSize → Prop
  | .Size4KiB => m.leads p = none
  | .Size2MiB => m.huge p = none ∧ m.table 1 (p / 512) = false

def mapped (m : PageTables) (p frame : Nat) : PageSize → PageTables
  | .Size4KiB => { m with page := Function.update m.page p (some frame) }
  | .Size2MiB =>
    { m with huge := fun q => if q / 512 = p / 512 then some (frame + q % 512) else m.huge q }

end PageTables

open PageTables

/-- The mapper of the `x86_64` crate, with what is assumed of it. -/
structure Mapper where
  map_to : PageSize → Nat → Nat → EStateM MapToError PageTables Unit
  unmap : PageTables → Nat → PageTables
  translate_addr : PageTables → Nat → Option Nat
  translate_eq : ∀ m p, translate_addr m p = m.leads p
  /-- A page under a huge page is refused. -/
  unmap_eq : ∀ m p, unmap m p =
    if (m.huge p).isSome then m else { m with page := Function.update m.page p none }
  /-- A page is mapped only if it was not. Else all its tables are made, or the frames run out on
  the way. -/
  ends_map_to : ∀ size p frame m, Ends (map_to size p frame m)
    (fun _ m' => m.Vacant p size ∧
      ∃ m1, TookTables m m1 (m.needs size p) ∧ m' = m1.mapped p frame size)
    (fun e m' => RunsOut m (m.needs size p) e m' ∨ e ≠ .FrameAllocationFailed ∧
      TookTables m m' (m.needs size p) ∧ ¬ m.Vacant p size)

/-- The memory of the kernel. -/
structure KernelMemory extends PageTables where
  mapper : Mapper
  dma_base : Nat

abbrev MemM := EStateM (Fault MapErr) KernelMemory

namespace KernelMemory

instance : Coe KernelMemory PageTables := ⟨toPageTables⟩

/-! ## Mapping -/

/-- `alloc` of a frame of 4 KiB. -/
def alloc : EStateM Unit KernelMemory Nat := fun m =>
  if m.free.Nonempty then
    .ok (m.policy.choose m.free) { m with free := m.free.erase (m.policy.choose m.free) }
  else .error () m

/-- The mapper at work. -/
def mapping (op : Mapper → EStateM MapToError PageTables Unit) :
    EStateM MapToError KernelMemory Unit := fun m =>
  zoom toPageTables (fun m tables => { m with toPageTables := tables }) (op m.mapper) m

/-- `map_page`. A page that a huge page covers, or that is mapped already, is left as it is. -/
def map_page (p frame : Nat) : MemM Unit := fun m =>
  match mapping (·.map_to .Size4KiB p frame) m with
  | .ok _ m => .ok () m
  | .error .ParentEntryHugePage m => .ok () m
  | .error .PageAlreadyMapped m => .ok () m
  | .error .FrameAllocationFailed m => .error (.err .OutOfMemory) m

/-- `kalloc_page` with `PageType::Arbitrary`: the frame that was taken for the page. -/
def kalloc_page (p : Nat) : MemM Nat := fun m =>
  if m.ready then
    match alloc m with
    | .error _ m => .error (.err .OutOfMemory) m
    | .ok frame m => (map_page p frame >>= fun _ => pure frame) m
  else .error (.err .Uninitialized) m

variable (m : KernelMemory)

def translate_addr (p : Nat) : Option Nat := m.mapper.translate_addr m p

def unmap (p : Nat) : KernelMemory := { m with toPageTables := m.mapper.unmap m p }

def kfree_page (p : Nat) : MemM Unit := fun m =>
  if m.ready then
    match m.translate_addr p with
    | none => .error (.err .NotMapped) m
    | some phys =>
      if m.managed phys then .ok () { m.unmap p with free := insert phys m.free }
      else .error (.err .NotMapped) (m.unmap p)
  else .error (.err .Uninitialized) m

/-! ## Buffers -/

/-- What `kalloc_dma_pages` returns, with the frames that were taken for its pages. -/
structure DmaBuf where
  base : Nat
  len : Nat
  frames : List Nat
  deriving DecidableEq

/-- `len.div_ceil(PAGE_4K)`. -/
def num_pages (len : Nat) : Nat := (len + PAGE_4K - 1) / PAGE_4K

/-- The address is in one of the two halves. -/
def Canonical (addr : Nat) : Prop :=
  addr < UInt64.size ∧ (addr < 2 ^ 47 ∨ UInt64.size - 2 ^ 47 ≤ addr)

instance (addr : Nat) : Decidable (Canonical addr) := inferInstanceAs (Decidable (_ ∧ _))

/-- `VirtAddr::new` panics when the address is not canonical. The sum before it panics when it
does not fit. -/
def virt_page (addr : Nat) : MemM Nat :=
  if Canonical addr then pure (addr / PAGE_4K) else throw .panic

/-- The loop over the other pages of a buffer. -/
def kalloc_rest (virt_base : Nat) : List Nat → MemM (List Nat)
  | [] => pure []
  | i :: is => do
    let p ← virt_page (virt_base + i * PAGE_4K)
    let frame ← kalloc_page p
    let frames ← kalloc_rest virt_base is
    pure (frame :: frames)

/-- `DMA_BASE.fetch_add`, which wraps around. -/
def fetch_add (alloc_size : Nat) : KernelMemory :=
  { m with dma_base := (m.dma_base + alloc_size) % UInt64.size }

theorem fetch_add_ready (n : Nat) : (m.fetch_add n).ready = m.ready := rfl

/-- `kalloc_dma_pages`. The size in whole pages may not fit. When there is no memory for the first
page it calls itself: `stack` is the number of calls that the kernel stack has room for. -/
def kalloc_dma_pages : Nat → Nat → MemM DmaBuf
  | 0, _ => throw .panic
  | stack + 1, len => fun m =>
    if len = 0 then .error (.err .NotMapped) m
    else if UInt64.size ≤ num_pages len * PAGE_4K then .error .panic m
    else
      let virt_base := m.dma_base
      match (virt_page virt_base >>= kalloc_page) (m.fetch_add (num_pages len * PAGE_4K)) with
      | .error (.err .OutOfMemory) m => kalloc_dma_pages stack len m
      | .error e m => .error e m
      | .ok frame m =>
        (do
          let frames ← kalloc_rest virt_base (List.range' 1 (num_pages len - 1))
          pure (DmaBuf.mk virt_base len (frame :: frames))) m

/-- The loop of `kfree_dma_pages`. -/
def kfree_all (base : Nat) : List Nat → MemM Unit
  | [] => pure ()
  | i :: is => do
    let p ← virt_page (base + i * PAGE_4K)
    kfree_page p
    kfree_all base is

def kfree_dma_pages (buf : DmaBuf) : MemM Unit :=
  if buf.len = 0 then throw (.err .NotMapped)
  else kfree_all buf.base (List.range (num_pages buf.len))

/-! ## What a page gets -/

variable {m m' m1 : KernelMemory} {base i len k k' : Nat} {ts ts' : Finset (Nat × Nat)}

@[simp] theorem translate_eq (m : KernelMemory) (p : Nat) : m.translate_addr p = m.leads p :=
  m.mapper.translate_eq m p

theorem unmap_eq (m : KernelMemory) (p : Nat) : m.unmap p =
    if (m.huge p).isSome then m else { m with page := Function.update m.page p none } := by
  unfold unmap
  rw [m.mapper.unmap_eq]
  split
  · rfl
  · rfl

/-- `frame` was taken for page `p`. The page maps to it, unless it was mapped before. -/
structure TookPage (m m' : KernelMemory) (p frame : Nat) : Prop
    extends Spent m m' 1 (m.needs .Size4KiB p) where
  allocator : m.ready = true
  taken : frame ∈ m.free
  mapped : (m.leads p = none ∧ m'.page = Function.update m.page p (some frame)) ∨
    (m.leads p ≠ none ∧ m'.page = m.page)
  managed : m'.managed = m.managed
  dma_base : m'.dma_base = m.dma_base
  subset : m'.free ⊆ m.free.erase frame
  tables : m.tables ⊆ m'.tables
  union : m'.free ∪ m'.tables = m.free.erase frame ∪ m.tables
  count : m'.free.card + m'.tables.card + 1 ≤ m.free.card + m.tables.card

/-- The tables are made after the frame is taken. -/
theorem tookPage {t : PageTables} {p frame : Nat} {page : Nat → Option Nat} (hready : m.ready = true)
    (hmem : frame ∈ m.free) (h : TookTables { m with free := m.free.erase frame } t (m.needs .Size4KiB p))
    (hpage : (m.leads p = none ∧ page = Function.update m.page p (some frame)) ∨
      (m.leads p ≠ none ∧ page = m.page)) :
    TookPage m { m with toPageTables := { t with page } } p frame := by
  have hcard := Finset.card_erase_add_one hmem
  have hfree : t.free.card + (0 + (m.missing (m.needs .Size4KiB p)).card) = (m.free.erase frame).card := h.free
  have hcount := h.count
  exact ⟨⟨h.huge, h.ready, h.table, by simp only; omega⟩, hready, hmem, hpage, h.managed, rfl,
    h.subset, h.tables, h.union, by simp only at hcount ⊢; omega⟩

/-- A page fails when the frames have run out. -/
structure Failed (m m' : KernelMemory) (p : Nat) (e : Fault MapErr) : Prop where
  reason : m.ready = true ∧ e = .err .OutOfMemory ∧ m'.free = ∅ ∧
      m.free.card < 1 + (m.missing (m.needs .Size4KiB p)).card ∨
    m.ready = false ∧ e = .err .Uninitialized ∧ m' = m
  page : m'.page = m.page
  huge : m'.huge = m.huge
  ready : m'.ready = m.ready
  dma_base : m'.dma_base = m.dma_base

theorem ends_kalloc_page (p : Nat) (m : KernelMemory) :
    Ends (kalloc_page p m) (fun frame m' => TookPage m m' p frame) (fun e m' => Failed m m' p e) := by
  unfold kalloc_page
  by_cases hready : m.ready = true
  · rw [if_pos hready]
    unfold alloc
    by_cases hfree : m.free.Nonempty
    · rw [if_pos hfree]
      have hmem := m.policy.chosen m.free hfree
      have hcard := Finset.card_erase_add_one hmem
      simp only [bind, EStateM.bind, map_page, mapping, zoom]
      have hmap := m.mapper.ends_map_to .Size4KiB p (m.policy.choose m.free)
        { m with free := m.free.erase (m.policy.choose m.free) }
      revert hmap
      cases m.mapper.map_to .Size4KiB p (m.policy.choose m.free)
          { m with free := m.free.erase (m.policy.choose m.free) } with
      | ok u m' =>
        rintro ⟨hnone, m1, h1, rfl⟩
        exact tookPage hready hmem h1 (Or.inl ⟨hnone, by rw [h1.page]⟩)
      | error e m' =>
        rintro (⟨rfl, ⟨_, h1⟩, hempty, hlt⟩ | ⟨hne, h1, hmapped⟩)
        · change (m.free.erase _).card < (m.missing (m.needs .Size4KiB p)).card at hlt
          exact ⟨Or.inl ⟨hready, rfl, hempty, by omega⟩, h1.page, h1.huge, h1.ready, rfl⟩
        · have htook := tookPage hready hmem h1 (Or.inr ⟨hmapped, h1.page⟩)
          cases e with
          | FrameAllocationFailed => exact absurd rfl hne
          | ParentEntryHugePage => exact htook
          | PageAlreadyMapped => exact htook
    · rw [if_neg hfree]
      have hempty := Finset.not_nonempty_iff_eq_empty.mp hfree
      refine ⟨Or.inl ⟨hready, rfl, hempty, ?_⟩, rfl, rfl, rfl, rfl⟩
      rw [hempty, Finset.card_empty]
      omega
  · rw [if_neg hready]
    exact ⟨Or.inr ⟨by simpa using hready, rfl, rfl⟩, rfl, rfl, rfl, rfl⟩

/-! ## What a buffer gets -/

theorem ends_virt_page (addr : Nat) (m : KernelMemory) :
    Ends (virt_page addr m) (fun p m' => m' = m ∧ p = addr / PAGE_4K)
      (fun e m' => e = .panic ∧ m' = m) := by
  unfold virt_page
  split
  · exact ⟨rfl, rfl⟩
  · exact ⟨rfl, rfl⟩

/-- Page `i` of a buffer. -/
def page_at (base i : Nat) : Nat := base / PAGE_4K + i

theorem page_at_eq (base i : Nat) : (base + i * PAGE_4K) / PAGE_4K = page_at base i :=
  Nat.add_mul_div_right base i (by decide)

/-- Only entries of the pages `is` of the buffer change. -/
structure Touched (m m' : KernelMemory) (base : Nat) (is : List Nat) : Prop where
  huge : m'.huge = m.huge
  ready : m'.ready = m.ready
  dma_base : m'.dma_base = m.dma_base
  outside : ∀ p, (∀ i ∈ is, p ≠ page_at base i) → m'.page p = m.page p

theorem Touched.refl (m : KernelMemory) (base : Nat) (is : List Nat) : Touched m m base is :=
  ⟨rfl, rfl, rfl, fun _ _ => rfl⟩

theorem Touched.cons {m1 : KernelMemory} {is : List Nat} (h : Touched m m1 base [i])
    (h' : Touched m1 m' base is) : Touched m m' base (i :: is) where
  huge := h'.huge.trans h.huge
  ready := h'.ready.trans h.ready
  dma_base := h'.dma_base.trans h.dma_base
  outside p hp := by
    rw [h'.outside p (fun j hj => hp j (List.mem_cons_of_mem _ hj))]
    exact h.outside p (fun j hj => hp j (List.mem_singleton.mp hj ▸ List.mem_cons_self))

theorem TookPage.leads {p frame : Nat} (h : TookPage m m' p frame) :
    m'.leads p = (m.leads p).or (some frame) := by
  unfold PageTables.leads
  rw [h.huge]
  rcases h.mapped with ⟨hnone, hpage⟩ | ⟨hsome, hpage⟩
  · obtain ⟨hhuge, hnone⟩ := Option.or_eq_none_iff.mp hnone
    rw [hpage, hhuge, hnone, Function.update_self]
    rfl
  · rw [hpage]
    exact (Option.or_of_isSome (Option.isSome_iff_ne_none.mpr hsome)).symm

theorem TookPage.touched {frame : Nat} (h : TookPage m m' (page_at base i) frame) :
    Touched m m' base [i] where
  huge := h.huge
  ready := h.ready
  dma_base := h.dma_base
  outside p hp := by
    have hne : p ≠ page_at base i := hp i (List.mem_singleton_self i)
    rcases h.mapped with ⟨-, hpage⟩ | ⟨-, hpage⟩
    · rw [hpage, Function.update_of_ne hne]
    · rw [hpage]

theorem Failed.touched {p : Nat} {e : Fault MapErr} (h : Failed m m' p e) (base : Nat)
    (is : List Nat) : Touched m m' base is :=
  ⟨h.huge, h.ready, h.dma_base, fun _ _ => by rw [h.page]⟩

/-- The pages of the buffer that were free map to the frames. -/
def MapsTo (m m' : KernelMemory) (base : Nat) (is frames : List Nat) : Prop :=
  is.Nodup → (∀ i ∈ is, m.leads (page_at base i) = none) →
    List.Forall₂ (fun i frame => m'.leads (page_at base i) = some frame) is frames

/-- One more page in front. -/
theorem MapsTo.cons {m1 : KernelMemory} {frame : Nat} {is frames : List Nat}
    (h : TookPage m m1 (page_at base i) frame) (ht : Touched m1 m' base is)
    (h' : MapsTo m1 m' base is frames) : MapsTo m m' base (i :: is) (frame :: frames) := by
  intro hnodup hnone
  obtain ⟨hi, hnodup'⟩ := List.nodup_cons.mp hnodup
  have hne : ∀ j ∈ is, page_at base j ≠ page_at base i := by
    intro j hj heq
    have : j = i := Nat.add_left_cancel heq
    exact hi (this ▸ hj)
  have hfree := hnone i List.mem_cons_self
  refine List.Forall₂.cons ?_ (h' hnodup' ?_)
  · have hleads := h.leads
    unfold leads at hleads ⊢
    rw [ht.huge, ht.outside _ (fun j hj => (hne j hj).symm), hleads]
    exact congrArg (Option.or · (some frame)) hfree
  · intro j hj
    have hj' := hnone j (List.mem_cons_of_mem _ hj)
    unfold leads at hj' ⊢
    rw [h.huge, h.touched.outside _ (by simpa using hne j hj)]
    exact hj'

theorem ends_kalloc_rest (virt_base : Nat) (is : List Nat) (m : KernelMemory) :
    Ends (kalloc_rest virt_base is m)
      (fun frames m' => Touched m m' virt_base is ∧ MapsTo m m' virt_base is frames)
      (fun e m' => Touched m m' virt_base is ∧
        (m.ready = true → e ≠ .err .Uninitialized ∧ m'.free ⊆ m.free)) := by
  induction is generalizing m with
  | nil => exact ⟨Touched.refl m _ _, fun _ _ => List.Forall₂.nil⟩
  | cons i is ih =>
    refine ends_then (ends_virt_page _ m) ?_ ?_
    · rintro e m' ⟨rfl, rfl⟩
      exact ⟨Touched.refl _ _ _, fun _ => ⟨nofun, Finset.Subset.refl _⟩⟩
    rintro p m1 ⟨rfl, rfl⟩
    rw [page_at_eq]
    refine ends_then (ends_kalloc_page (page_at virt_base i) m1) ?_ ?_
    · intro e m' h
      refine ⟨h.touched _ _, fun hready => ?_⟩
      rcases h.reason with ⟨-, rfl, hempty, -⟩ | ⟨hno, -⟩
      · exact ⟨nofun, hempty ▸ Finset.empty_subset _⟩
      · rw [hready] at hno
        cases hno
    · intro frame m2 h2
      refine ends_then (ih m2) ?_ ?_
      · rintro e m' ⟨h, hfree⟩
        refine ⟨h2.touched.cons h, fun hready => ?_⟩
        obtain ⟨hne, hsub⟩ := hfree (h2.ready.trans hready)
        exact ⟨hne, (hsub.trans h2.subset).trans (Finset.erase_subset _ _)⟩
      · rintro frames m3 ⟨h3, hmaps⟩
        exact ⟨h2.touched.cons h3, MapsTo.cons h2 h3 hmaps⟩

/-- With no frame left, `kalloc_dma_pages` calls itself until the stack is full. -/
theorem kalloc_dma_pages_of_empty (stack : Nat) (hlen : len ≠ 0) (hfree : m.free = ∅)
    (hready : m.ready = true) : ∃ m', kalloc_dma_pages stack len m = .error .panic m' := by
  induction stack generalizing m with
  | zero => exact ⟨m, rfl⟩
  | succ stack ih =>
    unfold kalloc_dma_pages
    rw [if_neg hlen]
    by_cases hsize : UInt64.size ≤ num_pages len * PAGE_4K
    · rw [if_pos hsize]
      exact ⟨m, rfl⟩
    rw [if_neg hsize]
    simp only [bind, EStateM.bind]
    have hvirt := ends_virt_page m.dma_base (m.fetch_add (num_pages len * PAGE_4K))
    revert hvirt
    cases virt_page m.dma_base (m.fetch_add (num_pages len * PAGE_4K)) with
    | error e m1 =>
      rintro ⟨rfl, -⟩
      exact ⟨m1, rfl⟩
    | ok p m1 =>
      rintro ⟨rfl, -⟩
      have hnone : ¬ (m.fetch_add (num_pages len * PAGE_4K)).free.Nonempty :=
        Finset.not_nonempty_iff_eq_empty.mpr hfree
      have hfail : kalloc_page p (m.fetch_add (num_pages len * PAGE_4K)) =
          .error (.err .OutOfMemory) (m.fetch_add (num_pages len * PAGE_4K)) := by
        unfold kalloc_page alloc
        rw [if_pos (show (m.fetch_add (num_pages len * PAGE_4K)).ready = true from hready),
          if_neg hnone]
      simp only [hfail]
      exact ih hfree hready

/-- The pages of a buffer of `len` bytes, by number. -/
def buffer_pages (len : Nat) : List Nat := List.range (num_pages len)

theorem buffer_pages_eq (h : len ≠ 0) :
    buffer_pages len = 0 :: List.range' 1 (num_pages len - 1) := by
  unfold buffer_pages
  have hpos : num_pages len = (num_pages len - 1) + 1 := by
    unfold num_pages
    rw [show PAGE_4K = 4096 from rfl]
    omega
  rw [hpos, List.range_succ_eq_map, List.range'_eq_map_range]
  congr 1
  apply List.map_congr_left
  intro i _
  omega

theorem ends_first (base : Nat) (m : KernelMemory) : Ends ((virt_page base >>= kalloc_page) m)
    (fun frame m' => TookPage m m' (page_at base 0) frame)
    (fun e m' => e = .panic ∨ Failed m m' (page_at base 0) e) := by
  refine ends_then (ends_virt_page _ _) ?_ ?_
  · exact fun e m' h => Or.inl h.1
  · rintro p m1 ⟨rfl, rfl⟩
    exact (ends_kalloc_page _ _).mono_error (fun _ _ h => Or.inr h)

/-- The first page decides: the frames have run out and the call does not come back, or there is no
allocator, or the other pages follow. -/
theorem ends_first_page {stack : Nat} {Q : DmaBuf → KernelMemory → Prop}
    {E : Fault MapErr → KernelMemory → Prop} (hlen : len ≠ 0) (hpanic : ∀ m', E .panic m')
    (hnone : m.ready = false → E (.err .Uninitialized) (m.fetch_add (num_pages len * PAGE_4K)))
    (hrest : ∀ frame m1,
      TookPage (m.fetch_add (num_pages len * PAGE_4K)) m1 (page_at m.dma_base 0) frame →
      Ends ((kalloc_rest m.dma_base (List.range' 1 (num_pages len - 1)) >>= fun frames =>
        pure (DmaBuf.mk m.dma_base len (frame :: frames))) m1) Q E) :
    Ends (kalloc_dma_pages stack len m) Q E := by
  cases stack with
  | zero => exact hpanic m
  | succ stack =>
    unfold kalloc_dma_pages
    rw [if_neg hlen]
    by_cases hsize : UInt64.size ≤ num_pages len * PAGE_4K
    · rw [if_pos hsize]
      exact hpanic m
    rw [if_neg hsize]
    dsimp only
    have hfirst := ends_first m.dma_base (m.fetch_add (num_pages len * PAGE_4K))
    revert hfirst
    cases (virt_page m.dma_base >>= kalloc_page) (m.fetch_add (num_pages len * PAGE_4K)) with
    | ok frame m1 => exact hrest frame m1
    | error e m1 =>
      rintro (rfl | hfail)
      · exact hpanic m1
      · rcases hfail.reason with ⟨hready, rfl, hempty, -⟩ | ⟨hready, rfl, rfl⟩
        · obtain ⟨m', hrun'⟩ := kalloc_dma_pages_of_empty stack hlen hempty
            (hfail.ready.trans hready)
          simp only [hrun']
          exact hpanic m'
        · exact hnone hready

/-- A buffer is at the address that `DMA_BASE` had, and its pages that were free map to the frames
taken for them. When the call comes back with an error, the addresses are used up as well. -/
theorem ends_kalloc_dma_pages (stack len : Nat) (m : KernelMemory) :
    Ends (kalloc_dma_pages stack len m) (fun buf m' => buf.base = m.dma_base ∧ buf.len = len ∧
        Touched (m.fetch_add (num_pages len * PAGE_4K)) m' m.dma_base (buffer_pages len) ∧
        MapsTo m m' m.dma_base (buffer_pages len) buf.frames)
      (fun e m' => e = .panic ∨ len = 0 ∧ m' = m ∨
        Touched (m.fetch_add (num_pages len * PAGE_4K)) m' m.dma_base (buffer_pages len)) := by
  by_cases hlen : len = 0
  · cases stack with
    | zero => exact Or.inl rfl
    | succ stack =>
      unfold kalloc_dma_pages
      rw [if_pos hlen]
      exact Or.inr (Or.inl ⟨hlen, rfl⟩)
  · rw [buffer_pages_eq hlen]
    refine ends_first_page hlen (fun _ => Or.inl rfl) ?_ ?_
    · exact fun _ => Or.inr (Or.inr (Touched.refl _ _ _))
    · intro frame m1 hfirst
      refine ends_then (ends_kalloc_rest m.dma_base _ m1) ?_ ?_
      · exact fun e m' h => Or.inr (Or.inr (hfirst.touched.cons h.1))
      · rintro frames m2 ⟨h2, hmaps⟩
        refine ⟨rfl, rfl, hfirst.touched.cons h2, ?_⟩
        exact MapsTo.cons (m := m.fetch_add (num_pages len * PAGE_4K)) hfirst h2 hmaps

theorem num_pages_one (hlen : len ≠ 0) (hle : len ≤ PAGE_4K) : num_pages len = 1 := by
  unfold num_pages
  rw [show PAGE_4K = 4096 from rfl] at *
  omega

theorem ends_kalloc_one (stack : Nat) (hlen : len ≠ 0) (hle : len ≤ PAGE_4K) (m : KernelMemory) :
    Ends (kalloc_dma_pages stack len m) (fun buf m' => buf.base = m.dma_base ∧ buf.len = len ∧
        ∃ frame, TookPage (m.fetch_add PAGE_4K) m' (page_at m.dma_base 0) frame)
      (fun e m' => e = .panic ∨ m.ready = false ∧ m' = m.fetch_add PAGE_4K) := by
  have hone := num_pages_one hlen hle
  refine ends_first_page hlen (fun _ => Or.inl rfl) ?_ ?_
  · intro hready
    rw [hone]
    exact Or.inr ⟨hready, rfl⟩
  · intro frame m1 hfirst
    rw [hone] at hfirst
    rw [hone]
    exact ⟨rfl, rfl, frame, hfirst⟩

/-! ## What freeing changes -/

theorem ends_kfree_page (base i : Nat) (m : KernelMemory) :
    Always (kfree_page (page_at base i) m) (fun m' => Touched m m' base [i]) := by
  have hunmap : Touched m (m.unmap (page_at base i)) base [i] := by
    rw [unmap_eq]
    split
    · exact Touched.refl m base [i]
    · refine ⟨rfl, rfl, rfl, fun p hp => ?_⟩
      exact Function.update_of_ne (hp i (List.mem_singleton_self i)) _ _
  unfold kfree_page
  split
  · split
    · exact Touched.refl m base [i]
    · split
      · exact ⟨hunmap.huge, hunmap.ready, hunmap.dma_base, hunmap.outside⟩
      · exact hunmap
  · exact Touched.refl m base [i]

theorem ends_kfree_all (base : Nat) (is : List Nat) (m : KernelMemory) :
    Always (kfree_all base is m) (fun m' => Touched m m' base is) := by
  induction is generalizing m with
  | nil => exact Touched.refl m base []
  | cons i is ih =>
    refine ends_then (ends_virt_page _ m) ?_ ?_
    · rintro e m' ⟨-, rfl⟩
      exact Touched.refl _ _ _
    · rintro p m1 ⟨rfl, rfl⟩
      rw [page_at_eq]
      refine ends_then (ends_kfree_page base i m1) ?_ ?_
      · exact fun e m' h => h.cons (Touched.refl _ _ _)
      · intro _ m2 h2
        exact (ih m2).mono (fun _ _ h => h2.cons h) (fun _ _ h => h2.cons h)

theorem ends_kfree_dma_pages (buf : DmaBuf) (m : KernelMemory) :
    Always (kfree_dma_pages buf m) (fun m' => Touched m m' buf.base (buffer_pages buf.len)) := by
  unfold kfree_dma_pages
  split
  · exact Touched.refl _ _ _
  · exact ends_kfree_all _ _ _

end KernelMemory

/-! ## Calls since boot -/

open KernelMemory

inductive DmaCall
  | alloc (len : Nat)
  /-- Frees the `i`th of the buffers that are not freed. -/
  | free (i : Nat)

/-- The memory and the buffers that are not freed. -/
structure DmaState where
  kernel : KernelMemory
  out : List DmaBuf

namespace DmaState

/-- `none` when the kernel panicked. -/
def call (stack : Nat) (s : DmaState) : DmaCall → Option DmaState
  | .alloc len =>
    match kalloc_dma_pages stack len s.kernel with
    | .ok buf m => some ⟨m, buf :: s.out⟩
    | .error (.err _) m => some ⟨m, s.out⟩
    | .error .panic _ => none
  | .free i =>
    match s.out[i]? with
    | none => some s
    | some buf =>
      match kfree_dma_pages buf s.kernel with
      | .ok _ m => some ⟨m, s.out.eraseIdx i⟩
      | .error (.err _) m => some ⟨m, s.out.eraseIdx i⟩
      | .error .panic _ => none

def calls (stack : Nat) (s : DmaState) (cs : List DmaCall) : Option DmaState :=
  cs.foldlM (call stack) s

end DmaState

/-- The pages that a call asks for. -/
def DmaCall.pages : DmaCall → Nat
  | .alloc len => num_pages len
  | .free _ => 0

/-- The pages between the first buffer and the AHCI region. -/
def DMA_PAGES : Nat := (AHCI_VIRT_BASE - DMA_START) / PAGE_4K

/-- At boot no page of the buffers is mapped. -/
structure Booted (m : KernelMemory) : Prop where
  dma_base : m.dma_base = DMA_START
  unmapped : ∀ p, DMA_START / PAGE_4K ≤ p → p < AHCI_VIRT_BASE / PAGE_4K → m.translate_addr p = none

/-- The command lists, FIS and command tables of the controller, the area of the kernel stack and
the slab area. -/
def FixedRegion (addr : Nat) : Prop :=
  (AHCI_VIRT_BASE ≤ addr ∧ addr < AHCI_VIRT_END) ∨
    (KERNEL_STACK_BASE ≤ addr ∧ addr < KERNEL_FB_MAPPINGS) ∨
    (slab.SLAB_BASE_ADDR ≤ addr ∧ addr < LARGE_ALLOC_BASE_ADDR)

namespace KernelMemory

/-- An address on a page of the buffer. -/
def DmaBuf.Covers (buf : DmaBuf) (addr : Nat) : Prop :=
  buf.base ≤ addr ∧ addr < buf.base + num_pages buf.len * PAGE_4K

end KernelMemory

/-- The buffer meets no other one and no fixed region, and each of its pages maps to the frame that
was taken for it. -/
structure BufApart (out : List DmaBuf) (buf : DmaBuf) (m : KernelMemory) : Prop where
  buffers : ∀ other ∈ out, ∀ addr, buf.Covers addr → ¬ other.Covers addr
  fixed : ∀ addr, buf.Covers addr → ¬ FixedRegion addr
  maps : List.Forall₂ (fun i frame => m.translate_addr (page_at buf.base i) = some frame)
    (buffer_pages buf.len) buf.frames

namespace DmaState

/-- After `used` pages: the addresses below `DMA_BASE` are handed out, those above are free. -/
structure Inv (s : DmaState) (used : Nat) : Prop where
  dma_base : s.kernel.dma_base = DMA_START + used * PAGE_4K
  unmapped : ∀ p, DMA_START / PAGE_4K + used ≤ p → p < AHCI_VIRT_BASE / PAGE_4K →
    s.kernel.leads p = none
  below : ∀ buf ∈ s.out, ∃ first, buf.base = DMA_START + first * PAGE_4K ∧
    first + num_pages buf.len ≤ used

theorem page_of_dma (first i : Nat) :
    page_at (DMA_START + first * PAGE_4K) i = DMA_START / PAGE_4K + first + i := by
  unfold page_at
  rw [Nat.add_mul_div_right _ _ (by decide)]

variable {m' : KernelMemory} {used len stack n : Nat} {s s' : DmaState} {buf : DmaBuf}

/-- Pages that a call does not touch stay unmapped. -/
theorem unmapped_of_touched {m : KernelMemory} {first used' : Nat} (hbelow : first + n ≤ used')
    (hused : used ≤ used')
    (hm : ∀ p, DMA_START / PAGE_4K + used ≤ p → p < AHCI_VIRT_BASE / PAGE_4K →
      m.leads p = none) (h : Touched m m' (DMA_START + first * PAGE_4K) (List.range n)) :
    ∀ p, DMA_START / PAGE_4K + used' ≤ p → p < AHCI_VIRT_BASE / PAGE_4K →
      m'.leads p = none := by
  intro p hp hlt
  have hnone := hm p (by omega) hlt
  unfold leads at hnone ⊢
  rw [h.huge, h.outside p]
  · exact hnone
  · intro i hi
    rw [page_of_dma]
    have := List.mem_range.mp hi
    omega

section

variable (h : Inv s used)

include h

theorem Inv.fetch_add (hn : used + n ≤ DMA_PAGES) :
    (s.kernel.fetch_add (n * PAGE_4K)).dma_base = DMA_START + (used + n) * PAGE_4K := by
  have hpages : DMA_PAGES = 65536 := by decide
  change (s.kernel.dma_base + n * PAGE_4K) % UInt64.size = _
  rw [h.dma_base, show PAGE_4K = 4096 from rfl, show UInt64.size = 0x10000000000000000 from rfl,
    show DMA_START = 0xFFFFFF0010000000 from rfl]
  omega

/-- The buffers that are out stay below, and the pages above stay free. -/
theorem Inv.alloc (hn : used + num_pages len ≤ DMA_PAGES)
    (ht : Touched (s.kernel.fetch_add (num_pages len * PAGE_4K)) m' s.kernel.dma_base
      (buffer_pages len)) : Inv ⟨m', s.out⟩ (used + num_pages len) where
  dma_base := ht.dma_base.trans (h.fetch_add hn)
  unmapped := by
    rw [h.dma_base] at ht
    exact unmapped_of_touched (Nat.le_refl _) (Nat.le_add_right _ _)
      (m := s.kernel.fetch_add (num_pages len * PAGE_4K)) h.unmapped ht
  below buf hbuf := by
    obtain ⟨first, hfirst, hle⟩ := h.below buf hbuf
    exact ⟨first, hfirst, Nat.le_trans hle (Nat.le_add_right _ _)⟩

omit h in
theorem Inv.push {base : Nat} (h : Inv ⟨m', s.out⟩ (used + num_pages len)) (hbase : buf.base = base)
    (hfirst : base = DMA_START + used * PAGE_4K) (hlen : buf.len = len) :
    Inv ⟨m', buf :: s.out⟩ (used + num_pages len) where
  dma_base := h.dma_base
  unmapped := h.unmapped
  below := List.forall_mem_cons.mpr ⟨⟨used, hbase.trans hfirst, by rw [hlen]⟩, h.below⟩

theorem Inv.free {i : Nat} (hbuf : s.out[i]? = some buf)
    (ht : Touched s.kernel m' buf.base (buffer_pages buf.len)) :
    Inv ⟨m', s.out.eraseIdx i⟩ used where
  dma_base := ht.dma_base.trans h.dma_base
  unmapped := by
    obtain ⟨first, hfirst, hle⟩ := h.below buf (List.mem_of_getElem? hbuf)
    rw [hfirst] at ht
    exact unmapped_of_touched hle (Nat.le_refl _) h.unmapped ht
  below b hb := h.below b (List.mem_of_mem_eraseIdx hb)

theorem Inv.call {c : DmaCall} (hn : used + c.pages ≤ DMA_PAGES)
    (hcall : s.call stack c = some s') : Inv s' (used + c.pages) := by
  cases c with
  | alloc len =>
    have hends := ends_kalloc_dma_pages stack len s.kernel
    simp only [DmaState.call] at hcall
    generalize kalloc_dma_pages stack len s.kernel = r at hends hcall
    cases r with
    | ok buf m' =>
      obtain ⟨hbase, hlen, ht, -⟩ := hends
      cases hcall
      exact (h.alloc hn ht).push hbase h.dma_base hlen
    | error e m' =>
      cases e with
      | panic => cases hcall
      | err e =>
        cases hcall
        rcases hends with hpanic | ⟨rfl, rfl⟩ | ht
        · cases hpanic
        · exact h
        · exact h.alloc hn ht
  | free i =>
    simp only [DmaState.call] at hcall
    cases hbuf : s.out[i]? with
    | none =>
      rw [hbuf] at hcall
      cases hcall
      exact h
    | some buf =>
      have hends := ends_kfree_dma_pages buf s.kernel
      simp only [hbuf] at hcall
      generalize kfree_dma_pages buf s.kernel = r at hends hcall
      cases r with
      | ok u m' =>
        cases hcall
        exact h.free hbuf hends
      | error e m' =>
        cases e with
        | panic => cases hcall
        | err e =>
          cases hcall
          exact h.free hbuf hends

theorem Inv.calls {cs : List DmaCall} (hn : used + (cs.map DmaCall.pages).sum ≤ DMA_PAGES)
    (hcalls : s.calls stack cs = some s') : Inv s' (used + (cs.map DmaCall.pages).sum) := by
  induction cs generalizing s used with
  | nil =>
    cases hcalls
    exact h
  | cons c cs ih =>
    rw [List.map_cons, List.sum_cons, ← Nat.add_assoc] at hn ⊢
    obtain ⟨s1, hcall, hcalls⟩ := Option.bind_eq_some_iff.mp hcalls
    exact ih (h.call (by omega) hcall) hn hcalls

theorem Inv.apart_iff (hused : used ≤ DMA_PAGES)
    (hrun : kalloc_dma_pages stack len s.kernel = .ok buf m') :
    BufApart s.out buf m' ↔ used + num_pages len ≤ DMA_PAGES := by
  have hends := ends_kalloc_dma_pages stack len s.kernel
  rw [hrun] at hends
  obtain ⟨hbase, hlen, ht, hmaps⟩ := hends
  rw [h.dma_base] at hbase
  have hpage : PAGE_4K = 4096 := rfl
  have hahci : AHCI_VIRT_BASE = DMA_START + 65536 * 4096 := by decide
  have hpages : DMA_PAGES = 65536 := by decide
  have hcovers : ∀ addr, buf.Covers addr ↔ DMA_START + used * 4096 ≤ addr ∧
      addr < DMA_START + used * 4096 + num_pages len * 4096 := by
    intro addr
    unfold DmaBuf.Covers
    rw [hbase, hlen, hpage]
  constructor
  · intro hapart
    by_contra hover
    -- the buffer runs over the first byte of the command lists
    refine hapart.fixed AHCI_VIRT_BASE ((hcovers _).mpr ?_) (Or.inl ⟨Nat.le_refl _, by decide⟩)
    omega
  · intro hle
    refine ⟨?_, ?_, ?_⟩
    · intro other hother addr haddr hcov
      obtain ⟨first, hfirst, hbelow⟩ := h.below other hother
      unfold DmaBuf.Covers at hcov
      rw [hfirst, hpage] at hcov
      have := (hcovers addr).mp haddr
      omega
    · intro addr haddr hfixed
      have hlt := (hcovers addr).mp haddr
      have hstack : AHCI_VIRT_BASE ≤ KERNEL_STACK_BASE := by decide
      have hslab : AHCI_VIRT_BASE ≤ slab.SLAB_BASE_ADDR := by decide
      rcases hfixed with ⟨hge, -⟩ | ⟨hge, -⟩ | ⟨hge, -⟩ <;> omega
    · rw [hbase, hlen]
      rw [h.dma_base] at hmaps
      simp only [translate_eq]
      refine hmaps List.nodup_range ?_
      intro i hi
      rw [page_of_dma]
      have hlt := List.mem_range.mp hi
      refine h.unmapped _ (by omega) ?_
      have : AHCI_VIRT_BASE / PAGE_4K = DMA_START / PAGE_4K + 65536 := by decide
      omega

end

end DmaState

/-- As long as the buffers since boot fit into the pages below the AHCI region, each one is apart.
The first one that does not fit runs into the region. -/
theorem dma_buffer_apart_iff {stack : Nat} {m : KernelMemory} (hboot : Booted m)
    {cs : List DmaCall} (hfit : (cs.map DmaCall.pages).sum ≤ DMA_PAGES) {s : DmaState}
    (hcalls : DmaState.calls stack ⟨m, []⟩ cs = some s) {len : Nat} {buf : DmaBuf}
    {m' : KernelMemory} (hrun : kalloc_dma_pages stack len s.kernel = .ok buf m') :
    BufApart s.out buf m' ↔ (cs.map DmaCall.pages).sum + num_pages len ≤ DMA_PAGES := by
  have hinv : s.Inv (0 + (cs.map DmaCall.pages).sum) :=
    DmaState.Inv.calls ⟨hboot.dma_base, by simpa using hboot.unmapped, by simp⟩ (by omega) hcalls
  rw [Nat.zero_add] at hinv
  exact hinv.apart_iff hfit hrun

/-! ## Tables of four levels -/

namespace PageTables

/-- The table of the level that the page needs, made when it is missing. -/
def create_next_table (level p : Nat) : EStateM MapToError PageTables Unit := fun m =>
  if m.table level (p / 512 ^ level) then .ok () m
  else if m.free.Nonempty then
    .ok () { m with
      free := m.free.erase (m.policy.choose m.free)
      tables := insert (m.policy.choose m.free) m.tables
      table := fun l i => if l = level ∧ i = p / 512 ^ level then true else m.table l i }
  else .error .FrameAllocationFailed m

def create_tables (p : Nat) : List Nat → EStateM MapToError PageTables Unit
  | [] => pure ()
  | level :: ls => do
    create_next_table level p
    create_tables p ls

instance (m : PageTables) (p : Nat) (size : PageSize) : Decidable (m.Vacant p size) :=
  match size with
  | .Size4KiB => inferInstanceAs (Decidable (_ = _))
  | .Size2MiB => inferInstanceAs (Decidable (_ ∧ _))

/-- `map_to_with_table_flags`. All errors for a page of 2 MiB have one answer. -/
def map_to (size : PageSize) (p frame : Nat) : EStateM MapToError PageTables Unit := do
  let m ← get
  if (m.huge p).isSome then throw .ParentEntryHugePage
  else do
    create_tables p (levels size)
    let m ← get
    if m.Vacant p size then modify (·.mapped p frame size) else throw .PageAlreadyMapped

theorem ends_create_next_table (level p : Nat) (m : PageTables) :
    Ends (create_next_table level p m) (fun _ m' => TookTables m m' {(level, p / 512 ^ level)})
      (RunsOut m {(level, p / 512 ^ level)}) := by
  unfold create_next_table
  by_cases htable : m.table level (p / 512 ^ level) = true
  · rw [if_pos htable]
    refine { TookTables.refl m with table := fun l i => ?_, free := ?_ }
    · by_cases hli : (l, i) = (level, p / 512 ^ level)
      · cases hli
        simp [htable]
      · simp [hli]
    · simp [missing, Finset.filter_singleton, htable]
  rw [if_neg htable]
  have hmiss : (m.missing {(level, p / 512 ^ level)}).card = 1 := by
    simp [missing, Finset.filter_singleton, htable]
  by_cases hfree : m.free.Nonempty
  · simp only [if_pos hfree]
    have hmem := m.policy.chosen m.free hfree
    have hcard := Finset.card_erase_add_one hmem
    refine ⟨⟨rfl, rfl, fun l i => ?_, ?_⟩, rfl, rfl, Finset.erase_subset _ _,
      Finset.subset_insert _ _, ?_, ?_⟩
    · by_cases hli : l = level ∧ i = p / 512 ^ level
      · simp [hli]
      · simp [hli]
    · rw [hmiss]
      exact hcard
    · ext f
      by_cases hf : f = m.policy.choose m.free
      · simp [hf, hmem]
      · simp [hf]
    · have hinsert := Finset.card_insert_le (m.policy.choose m.free) m.tables
      simp only
      omega
  · simp only [if_neg hfree]
    have hnone := Finset.not_nonempty_iff_eq_empty.mp hfree
    exact ⟨rfl, ⟨∅, TookTables.refl m⟩, hnone, by rw [hnone, hmiss]; exact Nat.one_pos⟩

theorem ends_create_tables (p : Nat) (ls : List Nat) (m : PageTables) :
    Ends (create_tables p ls m)
      (fun _ m' => TookTables m m' (ls.map fun l => (l, p / 512 ^ l)).toFinset)
      (RunsOut m (ls.map fun l => (l, p / 512 ^ l)).toFinset) := by
  induction ls generalizing m with
  | nil => exact TookTables.refl m
  | cons level ls ih =>
    rw [List.map_cons, List.toFinset_cons, Finset.insert_eq]
    refine ends_then (ends_create_next_table level p m) ?_ fun _ m1 h1 => ?_
    · rintro e m' ⟨he, hmade, hfree, hlt⟩
      refine ⟨he, hmade, hfree, hlt.trans_le (Finset.card_le_card ?_)⟩
      exact Finset.filter_subset_filter _ Finset.subset_union_left
    · refine (ih m1).mono (fun _ _ h => h1.trans h) ?_
      rintro e m' ⟨he, ⟨made, h⟩, hfree, hlt⟩
      refine ⟨he, ⟨_, h1.trans h⟩, hfree, ?_⟩
      have hspent := h1.free
      have hunion := h1.missing_union (ls.map fun l => (l, p / 512 ^ l)).toFinset
      omega

/-- The tables above a page say nothing about its own place. -/
theorem TookTables.vacant {size : PageSize} {p : Nat}
    (h : TookTables m m' ((levels size).map fun l => (l, p / 512 ^ l)).toFinset) :
    m'.Vacant p size ↔ m.Vacant p size := by
  cases size with
  | Size4KiB => simp [Vacant, h.leads]
  | Size2MiB => simp [Vacant, h.huge, h.table, levels]

end PageTables

/-- A mapper that walks the tables. -/
def tableWalk : Mapper where
  map_to := PageTables.map_to
  unmap m p := if (m.huge p).isSome then m else { m with page := Function.update m.page p none }
  translate_addr := leads
  translate_eq _ _ := rfl
  unmap_eq _ _ := rfl
  ends_map_to size p frame m := by
    unfold map_to
    rw [get_bind]
    by_cases hhuge : (m.huge p).isSome = true
    · rw [if_pos hhuge, show m.needs size p = ∅ from if_pos hhuge]
      refine Or.inr ⟨by decide, TookTables.refl m, ?_⟩
      obtain ⟨f, hf⟩ := Option.isSome_iff_exists.mp hhuge
      cases size <;> simp [Vacant, leads, hf]
    rw [if_neg hhuge, show m.needs size p = _ from if_neg hhuge]
    refine ends_then (ends_create_tables p _ m) (fun _ _ => Or.inl) fun _ m1 h1 => ?_
    rw [get_bind]
    by_cases hvacant : m1.Vacant p size
    · rw [if_pos hvacant]
      exact ⟨h1.vacant.mp hvacant, m1, h1, rfl⟩
    · rw [if_neg hvacant]
      exact Or.inr ⟨by decide, h1, h1.vacant.not.mp hvacant⟩

/-! ## Two frames -/

/-- The frame with the lowest number. -/
def lowestFrame : FramePolicy where
  choose frames := if h : frames.Nonempty then frames.min' h else 0
  chosen frames h := by
    rw [dif_pos h]
    exact frames.min'_mem h

/-- Two free frames and all tables. The command list of the first port is at frame 7. -/
def twoFrames : KernelMemory where
  free := {1, 2}
  tables := ∅
  policy := lowestFrame
  mapper := tableWalk
  managed _ := true
  ready := true
  page p := if p = AHCI_VIRT_BASE / PAGE_4K then some 7 else none
  huge _ := none
  table _ _ := true
  dma_base := DMA_START

theorem twoFrames_booted : Booted twoFrames where
  dma_base := rfl
  unmapped p _ hlt := by
    rw [translate_eq]
    exact if_neg (Nat.ne_of_lt hlt)

/-- The second buffer, with the first one still out. -/
theorem second_buffer_apart :
    ∃ s buf m', DmaState.calls 1 ⟨twoFrames, []⟩ [.alloc 4096] = some s ∧ s.out.length = 1 ∧
      kalloc_dma_pages 1 4096 s.kernel = .ok buf m' ∧ BufApart s.out buf m' := by
  have hpasses : ((DmaState.calls 1 ⟨twoFrames, []⟩ [.alloc 4096]).any fun s =>
      s.out.length == 1 && passes (kalloc_dma_pages 1 4096 s.kernel) (fun _ _ => true)) = true := by
    decide +kernel
  obtain ⟨s, hs, hpasses⟩ := (Option.any_eq_true _ _).mp hpasses
  rw [Bool.and_eq_true, beq_iff_eq] at hpasses
  obtain ⟨buf, m', hrun, -⟩ := exists_of_passes hpasses.2
  refine ⟨s, buf, m', hs, hpasses.1, hrun, ?_⟩
  exact (dma_buffer_apart_iff twoFrames_booted (by decide) hs hrun).mpr (by decide)

/-- One page, and then a buffer of all the other pages, for which the frames do not suffice. -/
def toTheEnd : List DmaCall := [.alloc 4096, .alloc 0xFFFF000, .free 0]

/-- The next buffer is at the command list of the first port, whose frame it shares. -/
theorem a_buffer_is_the_command_list :
    ∃ s buf m', DmaState.calls 1 ⟨twoFrames, []⟩ toTheEnd = some s ∧
      kalloc_dma_pages 1 4096 s.kernel = .ok buf m' ∧ buf.base = AHCI_VIRT_BASE ∧
      m'.translate_addr (page_at buf.base 0) = some 7 ∧ ¬ BufApart s.out buf m' := by
  have hpasses : ((DmaState.calls 1 ⟨twoFrames, []⟩ toTheEnd).any fun s =>
      passes (kalloc_dma_pages 1 4096 s.kernel) (fun buf m' =>
        buf.base = AHCI_VIRT_BASE && buf.len = 4096 &&
          m'.translate_addr (page_at buf.base 0) = some 7)) = true := by
    decide +kernel
  obtain ⟨s, hs, hpasses⟩ := (Option.any_eq_true _ _).mp hpasses
  obtain ⟨buf, m', hrun, htest⟩ := exists_of_passes hpasses
  simp only [Bool.and_eq_true, decide_eq_true_eq] at htest
  obtain ⟨⟨hbase, hlen⟩, hmaps⟩ := htest
  refine ⟨s, buf, m', hs, hrun, hbase, hmaps, fun hapart => ?_⟩
  refine hapart.fixed AHCI_VIRT_BASE ?_ (Or.inl (by decide))
  unfold DmaBuf.Covers
  rw [hbase, hlen]
  decide

/-! ## Counting frames -/

namespace KernelMemory

/-- The call does so when `c` holds and there are as many frames. Else it fails with an error of
`E`. -/
def Pays {ε α : Type} (r : EStateM.Result ε KernelMemory α) (E : ε → Prop) (m : KernelMemory)
    (c : Prop) (k : Nat) (ts : Finset (Nat × Nat)) : Prop :=
  Ends r (fun _ m' => c ∧ Spent m m' k ts)
    (fun e _ => E e ∧ ¬ (c ∧ k + (m.missing ts).card ≤ m.free.card))

section

variable {ε α β : Type} {E : ε → Prop} {m m' m1 : KernelMemory} {c c' : Prop} {k k' : Nat}
  {ts ts' : Finset (Nat × Nat)}

theorem pays_bind {x : EStateM ε KernelMemory α} {f : α → EStateM ε KernelMemory β}
    (hx : Pays (x m) E m c k ts)
    (hf : ∀ a (m1 : KernelMemory), Spent m m1 k ts → Pays (f a m1) E m1 c' k' ts') :
    Pays ((x >>= f) m) E m (c ∧ c') (k + k') (ts ∪ ts') := by
  refine ends_then hx ?_ ?_
  · rintro e m1 ⟨he, hno⟩
    refine ⟨he, fun ⟨⟨hc, _⟩, hle⟩ => hno ⟨hc, ?_⟩⟩
    have hsub : m.missing ts ⊆ m.missing (ts ∪ ts') :=
      Finset.filter_subset_filter _ Finset.subset_union_left
    have := Finset.card_le_card hsub
    omega
  · rintro a m1 ⟨hc, h⟩
    refine (hf a m1 h).mono ?_ ?_
    · exact fun _ _ h' => ⟨⟨hc, h'.1⟩, h.trans h'.2⟩
    · rintro e m2 ⟨he, hno⟩
      refine ⟨he, fun ⟨⟨_, hc'⟩, hle⟩ => hno ⟨hc', ?_⟩⟩
      have := h.free
      have := h.missing_union ts'
      omega

theorem pays_kalloc_page (p : Nat) (hready : m.ready = true) :
    Pays (kalloc_page p m) (· ≠ .err .Uninitialized) m True 1 (m.needs .Size4KiB p) := by
  refine (ends_kalloc_page p m).mono (fun _ _ h => ⟨trivial, h.toSpent⟩) fun e m' h => ?_
  rcases h.reason with ⟨-, rfl, -, hlt⟩ | ⟨hno, -⟩
  · exact ⟨nofun, fun hle => absurd hle.2 (Nat.not_le.mpr hlt)⟩
  · rw [hready] at hno
    cases hno

/-- The loop gets to its end exactly when the addresses are canonical and the frames suffice. -/
theorem pays_kalloc_rest (virt_base : Nat) (is : List Nat) (hready : m.ready = true) :
    Pays (kalloc_rest virt_base is m) (· ≠ .err .Uninitialized) m
      (∀ i ∈ is, Canonical (virt_base + i * PAGE_4K)) is.length
      (is.toFinset.biUnion fun i => m.needs .Size4KiB (page_at virt_base i)) := by
  induction is generalizing m with
  | nil => exact ⟨nofun, Spent.refl m⟩
  | cons i is ih =>
    rw [List.toFinset_cons, Finset.biUnion_insert, List.length_cons, Nat.add_comm,
      List.forall_mem_cons]
    unfold kalloc_rest virt_page
    by_cases hcan : Canonical (virt_base + i * PAGE_4K)
    · rw [if_pos hcan, pure_bind, page_at_eq]
      simp only [hcan]
      refine pays_bind (pays_kalloc_page _ hready) fun frame m1 h => ?_
      have hrest := ih (h.ready.trans hready)
      rw [h.needs] at hrest
      exact ends_bind hrest fun _ _ h => h
    · rw [if_neg hcan]
      exact ⟨nofun, fun h => hcan h.1.1⟩

end

end KernelMemory

/-! ## All or nothing -/

namespace KernelMemory

/-- With a stack that is deep enough the call comes back, and an error has taken no frame. -/
def AllOrNothing (len : Nat) (m : KernelMemory) : Prop :=
  ∃ depth, ∀ stack ≥ depth, Ends (kalloc_dma_pages stack len m) (fun _ _ => True)
    (fun e m' => e ≠ .panic ∧ m'.free = m.free)

/-- There is no allocator, or there are frames for all pages of the buffer and for the tables that
they miss, and the addresses are canonical. -/
def Served (len : Nat) (m : KernelMemory) : Prop :=
  len = 0 ∨ num_pages len * PAGE_4K < UInt64.size ∧
    (m.ready = false ∧ Canonical m.dma_base ∨
      m.ready = true ∧ (∀ i < num_pages len, Canonical (m.dma_base + i * PAGE_4K)) ∧
        num_pages len + (m.missing ((Finset.range (num_pages len)).biUnion fun i =>
          m.needs .Size4KiB (page_at m.dma_base i))).card ≤ m.free.card)

theorem served_iff (len : Nat) (m : KernelMemory) : Served len m ↔
    len = 0 ∨ num_pages len * PAGE_4K < UInt64.size ∧
      Ends (kalloc_rest m.dma_base (buffer_pages len) (m.fetch_add (num_pages len * PAGE_4K)))
        (fun _ _ => True) (fun e _ => e = .err .Uninitialized) := by
  unfold Served
  refine or_congr_right' fun hlen => and_congr_right fun _ => ?_
  generalize hm0 : m.fetch_add (num_pages len * PAGE_4K) = m0
  have hsame : m0.ready = m.ready := by rw [← hm0]; rfl
  cases hready : m.ready with
  | false =>
    rw [buffer_pages_eq hlen, kalloc_rest, Nat.zero_mul, Nat.add_zero]
    simp only [true_and, Bool.false_eq_true, false_and, or_false]
    unfold virt_page
    by_cases hcan : Canonical m.dma_base
    · rw [if_pos hcan, pure_bind]
      have hfail : kalloc_page (m.dma_base / PAGE_4K) m0 = .error (.err .Uninitialized) m0 := by
        unfold kalloc_page
        rw [if_neg (by rw [hsame, hready]; exact Bool.false_ne_true)]
      rw [bind_of_error hfail]
      exact iff_of_true hcan rfl
    · rw [if_neg hcan]
      exact iff_of_false hcan nofun
  | true =>
    have hpays := pays_kalloc_rest m.dma_base (buffer_pages len) (hsame.trans hready)
    have hpages : (buffer_pages len).toFinset = Finset.range (num_pages len) := by
      ext i
      simp [buffer_pages]
    have hcount : (buffer_pages len).length = num_pages len := List.length_range
    have hcan : (∀ i ∈ buffer_pages len, Canonical (m.dma_base + i * PAGE_4K)) ↔
        ∀ i < num_pages len, Canonical (m.dma_base + i * PAGE_4K) :=
      forall_congr' fun i => by rw [buffer_pages, List.mem_range]
    rw [hpages, hcount, hcan] at hpays
    simp only [Bool.true_eq_false, false_and, false_or, true_and]
    subst hm0
    revert hpays
    cases kalloc_rest m.dma_base (buffer_pages len) (m.fetch_add (num_pages len * PAGE_4K)) with
    | ok frames m' =>
      rintro ⟨hcan, hspent⟩
      exact iff_of_true ⟨hcan, hspent.le⟩ trivial
    | error e m' =>
      rintro ⟨he, hno⟩
      exact iff_of_false hno he

theorem ends_served (len stack : Nat) (m : KernelMemory) :
    Ends (kalloc_dma_pages (stack + 1) len m) (fun _ _ => Served len m)
      (fun e m' => e ≠ .panic ∧ m'.free = m.free ↔ Served len m) := by
  rw [served_iff]
  unfold kalloc_dma_pages
  by_cases hlen : len = 0
  · rw [if_pos hlen]
    exact iff_of_true ⟨nofun, rfl⟩ (Or.inl hlen)
  rw [if_neg hlen, or_iff_right hlen, buffer_pages_eq hlen]
  by_cases hsize : UInt64.size ≤ num_pages len * PAGE_4K
  · rw [if_pos hsize]
    exact iff_of_false (fun h => h.1 rfl) (fun h => Nat.not_lt.mpr hsize h.1)
  rw [if_neg hsize, kalloc_rest, Nat.zero_mul, Nat.add_zero, ← bind_assoc]
  dsimp only
  generalize hm0 : m.fetch_add (num_pages len * PAGE_4K) = m0
  have hfree : m0.free = m.free := by
    rw [← hm0]
    rfl
  have hfirst := ends_first m.dma_base m0
  cases hrun : (virt_page m.dma_base >>= kalloc_page) m0 with
  | error e m1 =>
    rw [hrun] at hfirst
    rw [bind_of_error hrun]
    rcases hfirst with rfl | hfail
    · exact iff_of_false (fun h => h.1 rfl) (fun h => nomatch h.2)
    · rcases hfail.reason with ⟨hready, rfl, hempty, -⟩ | ⟨-, rfl, rfl⟩
      · obtain ⟨m', hpanic⟩ := kalloc_dma_pages_of_empty stack hlen hempty
          (hfail.ready.trans hready)
        simp only [hpanic]
        exact iff_of_false (fun h => h.1 rfl) (fun h => nomatch h.2)
      · exact iff_of_true ⟨nofun, hfree⟩ ⟨Nat.lt_of_not_le hsize, rfl⟩
  | ok frame m1 =>
    rw [hrun] at hfirst
    rw [bind_of_ok hrun]
    have hrest := ends_kalloc_rest m.dma_base (List.range' 1 (num_pages len - 1)) m1
    cases hrun1 : kalloc_rest m.dma_base (List.range' 1 (num_pages len - 1)) m1 with
    | ok frames m2 =>
      simp only [bind_of_ok hrun1]
      exact ⟨Nat.lt_of_not_le hsize, trivial⟩
    | error e m2 =>
      rw [hrun1] at hrest
      simp only [bind_of_error hrun1]
      obtain ⟨hne, hsub⟩ := hrest.2 (hfirst.ready.trans hfirst.allocator)
      refine iff_of_false (fun h => ?_) (fun h => hne h.2)
      -- the frame of the first page is gone
      have hmem := hfirst.taken
      rw [hfree, ← h.2] at hmem
      exact Finset.notMem_erase _ _ (hfirst.subset (hsub hmem))

/-- The call is all or nothing exactly when the frames suffice for all pages. -/
theorem dma_is_all_or_nothing_iff (len : Nat) (m : KernelMemory) :
    AllOrNothing len m ↔ Served len m := by
  constructor
  · rintro ⟨depth, hdepth⟩
    have h := hdepth (depth + 1) (Nat.le_succ depth)
    have hserved := ends_served len depth m
    generalize kalloc_dma_pages (depth + 1) len m = r at h hserved
    cases r with
    | ok buf m' => exact hserved
    | error e m' => exact hserved.mp h
  · refine fun hserved => ⟨1, fun stack hstack => ?_⟩
    obtain ⟨stack, rfl⟩ := Nat.exists_eq_add_of_le' hstack
    exact (ends_served len stack m).mono (fun _ _ _ => trivial) (fun _ _ h => h.mpr hserved)

/-- No frame is free, and a call for one byte goes on until the stack is full. -/
theorem a_call_does_not_return : ¬AllOrNothing 1 { twoFrames with free := ∅ } := by
  rintro ⟨depth, hdepth⟩
  have h := hdepth depth (Nat.le_refl depth)
  obtain ⟨m', hrun⟩ := @kalloc_dma_pages_of_empty { twoFrames with free := ∅ } 1 depth
    (by decide) rfl rfl
  rw [hrun] at h
  exact h.1 rfl

end KernelMemory

end zenos_kernel.memory
