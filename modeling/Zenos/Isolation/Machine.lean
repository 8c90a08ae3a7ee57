-- Copy-on-write address spaces, as `process/isolation.rs` has them: clone,
-- fault and teardown over physical memory, a frame allocator and the map of
-- reference counts. The MMU at the end reads the same memory.
import Zenos.Isolation.Entry
import Zenos.Lib.Outcome

namespace zenos_kernel.process.isolation

open PageTableEntry Outcome

/-- Physical memory by frame and word, and what the kernel keeps beside it.
Request number `calls` to the frame allocator gets `answers calls`, and the
request fails when that is no free frame. `freed` holds the frames passed to
`free_phys_page`, newest first. -/
structure Machine where
  mem : PhysAddr → Nat → UInt64
  free : PhysAddr → Bool
  answers : Nat → Option PhysAddr
  calls : Nat
  /-- `PAGE_REFCOUNTS`. -/
  refcounts : PhysAddr → Option UInt32
  cr3 : PhysAddr
  freed : List PhysAddr

/-- Kernel code that stops early with `None` or `Err(())`. -/
abbrev Kernel := EStateM Unit Machine

namespace Machine

variable (m : Machine) (phys : PhysAddr)

def set_entry (table : PhysAddr) (i : Nat) (e : PageTableEntry) : Machine :=
  { m with mem := fun f j => if f = table ∧ j = i then e else m.mem f j }

@[simp] theorem set_entry_same (t : PhysAddr) (i : Nat) (e : PageTableEntry) :
    (m.set_entry t i e).mem t i = e := by simp [set_entry]

theorem set_entry_other {t t' : PhysAddr} {i j : Nat} (e : PageTableEntry)
    (h : ¬ (t' = t ∧ j = i)) : (m.set_entry t i e).mem t' j = m.mem t' j := by
  simp [set_entry, h]

/-! ## Reference counts -/

def refcount_inc : Machine :=
  { m with
    refcounts := fun f =>
      if f = phys then
        match m.refcounts phys with
        | some count => some (count + 1)
        | none => some 2
      else m.refcounts f }

/-- `refcount_dec`. The answer is true when this was the last reference. -/
def refcount_dec : Bool × Machine :=
  match m.refcounts phys with
  | some old =>
    if old = 1 then (true, { m with refcounts := fun f => if f = phys then none else m.refcounts f })
    else
      (false, { m with refcounts := fun f => if f = phys then some (old - 1) else m.refcounts f })
  | none => (false, m)

def refcount_get : UInt32 := (m.refcounts phys).getD 1

/-! ## Frames -/

/-- The next request is served with the frame `phys`. -/
def take : Machine :=
  { m with free := fun f => if f = phys then false else m.free f, calls := m.calls + 1 }

/-- The next request is refused. -/
def refuse : Machine := { m with calls := m.calls + 1 }

/-- `kalloc_page` at a scratch address. The kernel's own tables, which map the
scratch address, are outside of the model. -/
def kalloc_page : Kernel PhysAddr := fun m =>
  match m.answers m.calls with
  | some phys => if m.free phys then .ok phys (m.take phys) else .error () m.refuse
  | none => .error () m.refuse

def free_phys_page : Machine :=
  { m with free := fun f => if f = phys then true else m.free f, freed := phys :: m.freed }

def zero : Machine :=
  { m with mem := fun f j => if f = phys then 0 else m.mem f j }

def copy_page (src dst : PhysAddr) : Machine :=
  { m with mem := fun f j => if f = dst then m.mem src j else m.mem f j }

def alloc_page_table : Kernel PhysAddr := do
  let phys ← kalloc_page
  modify (·.zero phys)
  pure phys

def alloc_and_copy_page (src_phys : PhysAddr) : Kernel PhysAddr := do
  let dst_phys ← kalloc_page
  modify (·.copy_page src_phys dst_phys)
  pure dst_phys

/-! ## Clone -/

/-- One turn of the loop of `cow_clone_table`. -/
def clone_entry (clone_child : PhysAddr → Kernel PhysAddr) (level : Nat)
    (src_phys new_table_phys : PhysAddr) (i : Nat) : Kernel Unit := do
  let entry := (← get).mem src_phys i
  if !(flags entry).contains PRESENT then pure ()
  else if (flags entry).contains HUGE_PAGE then modify (·.set_entry new_table_phys i entry)
  else if level = 1 then
    if (flags entry).contains WRITABLE then
      modify (·.set_entry src_phys i (cow_entry entry))
      modify (·.set_entry new_table_phys i (cow_entry entry))
      modify (·.refcount_inc (addr entry))
    else modify (·.set_entry new_table_phys i entry)
  else
    let cloned_table_phys ← clone_child (addr entry)
    modify (·.set_entry new_table_phys i (set_addr cloned_table_phys (flags entry)))

/-- `cow_clone_table`. The source calls it with level 3, 2 and 1. -/
def cow_clone_table : Nat → PhysAddr → Kernel PhysAddr
  | 0, _ => throw ()
  | level + 1, src_phys => do
    let new_table_phys ← alloc_page_table
    each (List.range 512) (clone_entry (cow_clone_table level) (level + 1) src_phys new_table_phys)
    pure new_table_phys

/-- The first loop of `clone_address_space`: entries 256 to 511 are shared. -/
def copy_kernel_half (active_l4 new_l4 : PhysAddr) : Machine :=
  { m with
    mem := fun f j => if f = new_l4 ∧ 256 ≤ j ∧ j < 512 then m.mem active_l4 j else m.mem f j }

/-- One turn of the second loop of `clone_address_space`. -/
def clone_l4_entry (active_l4 new_l4 : PhysAddr) (i : Nat) : Kernel Unit := do
  let entry := (← get).mem active_l4 i
  if !(flags entry).contains PRESENT then pure ()
  else
    let cloned_l3_phys ← cow_clone_table 3 (addr entry)
    modify (·.set_entry new_l4 i (set_addr cloned_l3_phys (flags entry)))

def clone_address_space : Kernel PhysAddr := do
  let new_l4_phys ← alloc_page_table
  let active_l4 := (← get).cr3
  modify (·.copy_kernel_half active_l4 new_l4_phys)
  each (List.range 256) (clone_l4_entry active_l4 new_l4_phys)
  modify (·.set_entry new_l4_phys 511 (set_addr new_l4_phys (PRESENT ||| WRITABLE)))
  pure new_l4_phys

/-! ## Fault -/

variable (va : Nat)

def p4_index : Nat := va / 2 ^ 39 % 512

def p3_index : Nat := va / 2 ^ 30 % 512

def p2_index : Nat := va / 2 ^ 21 % 512

def p1_index : Nat := va / 2 ^ 12 % 512

/-- `handle_cow_fault` from the point where the level-1 entry is found. -/
def own_page (p1 : PhysAddr) (i : Nat) : Bool × Machine :=
  let p1e := m.mem p1 i
  if !(flags p1e).contains PRESENT then (false, m)
  else if !(flags p1e).contains COW_FLAG then (false, m)
  else if m.refcount_get (addr p1e) = 1 then
    (true, m.set_entry p1 i (owned_entry (addr p1e) p1e))
  else
    match alloc_and_copy_page (addr p1e) m with
    | .error _ m => (false, m)
    | .ok new_phys m =>
      (true, ((m.set_entry p1 i (owned_entry new_phys p1e)).refcount_dec (addr p1e)).2)

def handle_cow_fault (fault_addr : Nat) : Bool × Machine :=
  let p4e := m.mem m.cr3 (p4_index fault_addr)
  if !(flags p4e).contains PRESENT then (false, m)
  else
    let p3e := m.mem (addr p4e) (p3_index fault_addr)
    if !(flags p3e).contains PRESENT then (false, m)
    else
      let p2e := m.mem (addr p3e) (p2_index fault_addr)
      if !(flags p2e).contains PRESENT then (false, m)
      else m.own_page (addr p2e) (p1_index fault_addr)

/-! ## Teardown -/

/-- One turn of the loop of `free_page_table_recursive`. -/
def free_entry (free_child : PhysAddr → Machine → Machine) (level : Nat) (table_phys : PhysAddr)
    (m : Machine) (i : Nat) : Machine :=
  let entry := m.mem table_phys i
  if !(flags entry).contains PRESENT then m
  else if (flags entry).contains HUGE_PAGE then m
  else if level = 1 then
    if (flags entry).contains COW_FLAG then
      match m.refcount_dec (addr entry) with
      | (true, m) => m.free_phys_page (addr entry)
      | (false, m) => m
    else m.free_phys_page (addr entry)
  else free_child (addr entry) m

def free_page_table_recursive : Nat → PhysAddr → Machine → Machine
  | 0, _, m => m
  | level + 1, table_phys, m =>
    ((List.range 512).foldl (free_entry (free_page_table_recursive level) (level + 1) table_phys)
      m).free_phys_page table_phys

/-- One turn of the loop of `teardown_address_space`. -/
def free_l4_entry (cr3 : PhysAddr) (m : Machine) (i : Nat) : Machine :=
  let entry := m.mem cr3 i
  if !(flags entry).contains PRESENT then m else free_page_table_recursive 3 (addr entry) m

def teardown_address_space (cr3 : PhysAddr) : Machine :=
  ((List.range 256).foldl (free_l4_entry cr3) m).free_phys_page cr3

/-! ## The MMU -/

/-- The MMU lets a user access through this entry. -/
def admits (e : PageTableEntry) (write : Bool) : Bool :=
  present e && user e && (!write || writable e)

/-- The frame of a huge page of `2 ^ bits` bytes that holds `va`. -/
def huge_frame (e : PageTableEntry) (bits va : Nat) : PhysAddr :=
  UInt64.ofNat ((addr e).toNat / 2 ^ bits * 2 ^ bits + va % 2 ^ bits / 4096 * 4096)

/-- The frame that holds the byte at `va`, or a fault. -/
def translate (root : PhysAddr) (va : Nat) (write : Bool) : Option PhysAddr :=
  let e4 := m.mem root (p4_index va)
  if !admits e4 write then none
  else
    let e3 := m.mem (addr e4) (p3_index va)
    if !admits e3 write then none
    else if huge e3 then some (huge_frame e3 30 va)
    else
      let e2 := m.mem (addr e3) (p2_index va)
      if !admits e2 write then none
      else if huge e2 then some (huge_frame e2 21 va)
      else
        let e1 := m.mem (addr e2) (p1_index va)
        if !admits e1 write then none else some (addr e1)

/-- Byte `k` of a word, little end first. -/
def byte_of (w : UInt64) (k : Nat) : UInt8 := (w >>> UInt64.ofNat (8 * k)).toUInt8

def set_byte_of (w : UInt64) (k : Nat) (v : UInt8) : UInt64 :=
  (w &&& ~~~(0xff <<< UInt64.ofNat (8 * k))) ||| (v.toUInt64 <<< UInt64.ofNat (8 * k))

/-- The byte that a user program reads at `va` in the space `root`. -/
def load (root : PhysAddr) (va : Nat) : Option UInt8 :=
  (m.translate root va false).map (fun f => byte_of (m.mem f (va % 4096 / 8)) (va % 8))

/-- Change one byte of a frame. -/
def write_byte (frame : PhysAddr) (offset : Nat) (v : UInt8) : Machine :=
  { m with
    mem := fun f j =>
      if f = frame ∧ j = offset / 8 then set_byte_of (m.mem f j) (offset % 8) v else m.mem f j }

/-- A user store in the active space. A fault runs `handle_cow_fault`, and the
store is tried again when that answers true; `tries` bounds the attempts. -/
def store : Nat → Nat → UInt8 → Machine → Bool × Machine
  | 0, _, _, m => (false, m)
  | tries + 1, va, v, m =>
    match m.translate m.cr3 va true with
    | some frame => (true, m.write_byte frame (va % 4096) v)
    | none =>
      match m.handle_cow_fault va with
      | (true, m) => store tries va v m
      | (false, m) => (false, m)

end Machine

end zenos_kernel.process.isolation
