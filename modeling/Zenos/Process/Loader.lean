-- The loader: `Process::internal_load` and `Process::prepare_run`. It maps the pages
-- of every segment, copies the file and clears the rest of the segment; then it maps
-- the stack and pushes the arguments. It reads nothing back, so it is the list of
-- what it does to memory.
import Zenos.Lib.PagedMemory
import Zenos.Process.Arguments

namespace zenos_kernel.process

open memory PagedMemory

/-! ## The file -/

/-- A program header. `load` tells whether its type is `Load`. -/
structure ProgramHeader where
  load : Bool
  virtual_addr : Nat
  offset : Nat
  file_size : Nat
  mem_size : Nat

/-- A file that `ElfFile::new` and `program::sanity_check` accept. -/
structure ElfFile where
  input : List UInt8
  shared_object : Bool
  program_headers : List ProgramHeader
  sane : ∀ ph ∈ program_headers, ph.offset + ph.file_size < input.length

def DEFAULT_USER_BASE : Nat := 0x400000

def compute_load_bias (elf : ElfFile) : Nat := if elf.shared_object then DEFAULT_USER_BASE else 0

/-! ## The segments -/

namespace ProgramHeader

variable (ph : ProgramHeader)

def seg_start (load_bias : Nat) : Nat := ph.virtual_addr + load_bias

def seg_end (load_bias : Nat) : Nat := ph.virtual_addr + ph.mem_size + load_bias

/-- The pages from `page_start` up to `page_end`. -/
def pages (load_bias : Nat) : List Nat :=
  List.range' (ph.seg_start load_bias / PAGE_4K)
    ((ph.seg_end load_bias + (PAGE_4K - 1)) / PAGE_4K - ph.seg_start load_bias / PAGE_4K)

/-- The turn of the loop for a segment. It panics when an address is not canonical, also
the one behind a page, or when the file has more bytes than the memory of the segment. -/
def load_segment (load_bias : Nat) (bytes : List UInt8) :
    Option (List Effect) :=
  if ph.seg_end load_bias < UInt64.size ∧ syscall.canonical (ph.seg_start load_bias) ∧
      syscall.canonical (ph.seg_end load_bias) ∧
      (∀ page ∈ ph.pages load_bias, (page + 1) * PAGE_4K < UInt64.size ∧
        syscall.canonical ((page + 1) * PAGE_4K)) ∧ ph.file_size ≤ ph.mem_size then
    let bss_len := ph.mem_size - ph.file_size
    some ((ph.pages load_bias).map .alloc ++
      [.store (ph.seg_start load_bias) ((bytes.drop ph.offset).take ph.file_size)] ++
      if 0 < bss_len then
        [.store (ph.seg_start load_bias + ph.file_size) (List.replicate bss_len 0)]
      else [])
  else none

/-- The loop over the segments. -/
def load_segments (load_bias : Nat) (bytes : List UInt8) : List ProgramHeader → Option (List Effect)
  | [] => some []
  | ph :: phs => do
    let first ← ph.load_segment load_bias bytes
    let rest ← load_segments load_bias bytes phs
    some (first ++ rest)

end ProgramHeader

namespace ElfFile

variable (elf : ElfFile)

/-- The headers that are loaded. -/
def segments : List ProgramHeader := elf.program_headers.filter (·.load)

def internal_load : Option (List Effect) :=
  ProgramHeader.load_segments (compute_load_bias elf) elf.input elf.segments

/-- `self.end` after `internal_load`: the highest end of a segment, without the bias. -/
def max_end : Nat :=
  (elf.segments.map (fun ph => ph.virtual_addr + ph.mem_size)).foldl max 0

end ElfFile

/-! ## The stack -/

def stack_gap : Nat := 0x20000

def stack_size : Nat := 0x4000

/-- Strings are pushed one below the other, each with a NUL behind it: what is stored,
the pointers, and the new stack pointer. -/
def push_strings (sp : Nat) : List (List UInt8) → List Effect × List Nat × Nat
  | [] => ([], [], sp)
  | s :: strings =>
    let sp := sp - (s.length + 1)
    let (stores, ptrs, sp') := push_strings sp strings
    (.store sp (s ++ [0]) :: stores, sp :: ptrs, sp')

/-- The eight bytes of a number, low byte first. -/
def le64 (val : Nat) : List UInt8 := (List.range 8).map (fun i => UInt8.ofNat (val / 256 ^ i))

@[simp] theorem le64_length (val : Nat) : (le64 val).length = 8 := by simp [le64]

/-- Numbers are pushed one below the other. -/
def push_all (sp : Nat) : List Nat → List Effect × Nat
  | [] => ([], sp)
  | val :: vals =>
    let (stores, sp') := push_all (sp - 8) vals
    (.store (sp - 8) (le64 val) :: stores, sp')

/-- Both steps of the alignment: down to 16 bytes, and 8 bytes more when the pointers
would end between. -/
def align_stack (sp pointer_entries : Nat) : Nat :=
  let sp := sp - sp % 16
  if (sp - pointer_entries * 8) % 16 ≠ 0 then sp - 8 else sp

namespace ElfFile

variable (elf : ElfFile)

def user_stack_top : Nat :=
  (compute_load_bias elf + elf.max_end + stack_gap + 0xFFF) / PAGE_4K * PAGE_4K

def stack_start : Nat := elf.user_stack_top - stack_size

def stack_pages : List Nat :=
  List.range' (elf.stack_start / PAGE_4K) (stack_size / PAGE_4K)

/-- `prepare_run` for an image that has no stack yet. It panics when the arguments do
not fit on the stack. -/
def prepare_run (argv envp : List (List UInt8)) : Option (List Effect) :=
  let (env_stores, envp_ptrs, sp) := push_strings elf.user_stack_top envp.reverse
  let (arg_stores, argv_ptrs, sp) := push_strings sp argv.reverse
  let sp := align_stack sp (1 + argv.length + envp.length + 2)
  let (pointer_stores, sp) :=
    push_all sp ([0, 0] ++ (0 :: envp_ptrs) ++ (0 :: argv_ptrs) ++ [argv.length])
  if compute_load_bias elf + elf.max_end + stack_gap + 0xFFF < UInt64.size ∧
      (∀ page ∈ elf.stack_pages, syscall.canonical (page * PAGE_4K)) ∧
      elf.stack_start ≤ sp ∧ sp % 16 = 0 then
    some (elf.stack_pages.map .alloc ++ env_stores ++ arg_stores ++ pointer_stores)
  else none

/-- What `load` and `prepare_run` do to the new address space. -/
def effects (argv envp : List (List UInt8)) : Option (List Effect) := do
  let loaded ← elf.internal_load
  let stack ← elf.prepare_run argv envp
  some (loaded ++ stack)

end ElfFile

/-- The pages of the lower half, which `new_user_address_space` leaves empty. -/
def USER_PAGES : Nat := 2 ^ 47 / PAGE_4K

/-- The image in the memory of a machine. `none` is a panic, or no frame is left. -/
def ElfFile.build (elf : ElfFile) (argv envp : List (List UInt8)) (m : PagedMemory.Machine) :
    Option PagedMemory.Machine :=
  (elf.effects argv envp).bind (m.run PAGE_4K)

end zenos_kernel.process
