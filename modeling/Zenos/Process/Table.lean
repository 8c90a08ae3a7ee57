-- The process table. `PROCESSES` is a `heapless::Vec` of 256 slots, and the
-- per-CPU pointer `curr_proc` is the address of one slot. So the model keeps
-- the slots themselves: a removal moves entries, the pointer does not move.
import Mathlib.Data.List.Basic
import Mathlib.Logic.Relation

namespace zenos_kernel.process

inductive ProcessStatus
  | Running
  | Ready
  | Created
  | Exited
  /-- The flag is the address of an `AtomicBool`, true while the lock is held. -/
  | Blocked (flag : Nat)
  | WaitingFor (pid : UInt64)
  deriving DecidableEq, Repr

/-- The process that a waiter waits for. -/
def ProcessStatus.target : ProcessStatus → Option UInt64
  | .WaitingFor pid => some pid
  | .Running | .Ready | .Created | .Exited | .Blocked _ => none

theorem ProcessStatus.eq_of_target {st : ProcessStatus} {pid : UInt64} (h : st.target = some pid) :
    st = .WaitingFor pid := by
  cases st with
  | WaitingFor pid' => exact congrArg _ (Option.some.inj h)
  | _ => cases h

/-- The FPU and SSE state as `fxsave` writes it. -/
structure FxSaveArea where
  data : Vector UInt8 512
  deriving Repr

theorem FxSaveArea.eq_iff (a b : FxSaveArea) : a.data.toList = b.data.toList ↔ a = b := by
  rw [Vector.toList_inj]
  cases a
  cases b
  simp

instance : DecidableEq FxSaveArea := fun a b => decidable_of_iff _ (FxSaveArea.eq_iff a b)

/-- The area before `fxsave` has written it. -/
def FxSaveArea.zeroed : FxSaveArea := ⟨Vector.replicate 512 0⟩

/-- The saved registers of a process. -/
structure ProcessState where
  rax : UInt64 := 0
  rbx : UInt64 := 0
  rcx : UInt64 := 0
  rdx : UInt64 := 0
  rsi : UInt64 := 0
  rdi : UInt64 := 0
  rbp : UInt64 := 0
  rsp : UInt64 := 0
  r8 : UInt64 := 0
  r9 : UInt64 := 0
  r10 : UInt64 := 0
  r11 : UInt64 := 0
  r12 : UInt64 := 0
  r13 : UInt64 := 0
  r14 : UInt64 := 0
  r15 : UInt64 := 0
  rip : UInt64 := 0
  rflags : UInt64 := 0
  cs : UInt64 := 0
  ss : UInt64 := 0
  fxsave : FxSaveArea := FxSaveArea.zeroed
  deriving DecidableEq, Repr

/-- `cr3` names a level-4 table. Every table that the kernel creates gets a
name of its own, so a frame that is used again is a new table; the boot table
is table 0. `file_handles` maps a descriptor to an open file. -/
structure Process where
  pid : UInt64
  parent_pid : UInt64
  name : List UInt8
  state : ProcessState
  status : ProcessStatus
  cr3 : Nat
  end_ : UInt64
  entry_point : UInt64
  file_handles : UInt32 → Option Nat
  load_bias : UInt64
  loaded : Bool
  user_stack_top : UInt64
  exit_code : Option UInt64
  envp : List (List UInt8)
  argv : List (List UInt8)
  priority : UInt8

def DEFAULT_PRIORITY : UInt8 := 15

/-- The capacity of `PROCESSES`. -/
def MAX_PROCESSES : Nat := 256

/-- The table of the boot code, shared by the idle task and by init. -/
def BOOT_TABLE : Nat := 0

structure Scheduler where
  current_pid : Option UInt64
  quantum : Nat
  time : Nat
  deriving DecidableEq, Repr

/-- Everything that the process code reads and writes. `cr3` is the register,
`next_table` the name of the next level-4 table, and `torn` the tables passed
to `teardown_address_space`, newest first. -/
structure System where
  slots : Nat → Process
  len : Nat
  sched : Scheduler
  curr_pid : UInt64
  curr_proc : Option Nat
  next_pid : UInt64
  flags : Nat → Bool
  /-- The open options of an open file, as bits. -/
  file_open_options : Nat → UInt64
  cr3 : Nat
  next_table : Nat
  torn : List Nat
  idle_loop : UInt64
  idle_stack_top : UInt64

namespace System

variable (s : System) (i : Nat) (p : Process) {test : Process → Bool}

/-- The entries of `PROCESSES` are the first `len` slots. -/
def IsEntry : Prop := i < s.len

/-- `iter().position(..)`: the first entry that passes the test. -/
def position (test : Process → Bool) : Option Nat :=
  (List.range s.len).find? (fun i => test (s.slots i))

def setSlot : System :=
  { s with slots := fun j => if j = i then p else s.slots j }

/-- `iter_mut().filter(test)` with an update of each entry found. -/
def mapEntries (f : Process → Process) : System :=
  { s with slots := fun j => if j < s.len then f (s.slots j) else s.slots j }

/-- `push`: the value goes into slot `len`; a full table gives it back. -/
def push : Option System :=
  if s.len < MAX_PROCESSES then some { s.setSlot s.len p with len := s.len + 1 } else none

/-- `swap_remove`: the last entry takes the place of entry `i`. The slot of
the last entry keeps its bytes. -/
def swap_remove : System :=
  { s.setSlot i (s.slots (s.len - 1)) with len := s.len - 1 }

/-- `remove`: the entries after `i` move down by one. The slot of the last
entry keeps its bytes. -/
def remove : System :=
  { s with
    slots := fun j => if i ≤ j ∧ j + 1 < s.len then s.slots (j + 1) else s.slots j
    len := s.len - 1 }

/-- The slot that `current_proc_mut` gives a reference to. -/
def current_proc_mut : Option Nat := s.curr_proc

/-- `teardown_address_space`, as far as the process code sees it. -/
def teardown_address_space (cr3 : Nat) : System := { s with torn := cr3 :: s.torn }

@[simp] theorem setSlot_same :
    (s.setSlot i p).slots i = p := by simp [setSlot]

theorem setSlot_other {i j : Nat} (h : j ≠ i) :
    (s.setSlot i p).slots j = s.slots j := by simp [setSlot, h]

/-- An entry found by `position` is an entry, and it passes the test. -/
theorem position_spec {s : System} {i : Nat}
    (h : s.position test = some i) : i < s.len ∧ test (s.slots i) = true := by
  have hm := List.mem_of_find?_eq_some h
  have ht := List.find?_some h
  exact ⟨List.mem_range.mp hm, ht⟩

theorem position_none {s : System} (h : s.position test = none)
    {i : Nat} (hi : i < s.len) : test (s.slots i) = false := by
  have := List.find?_eq_none.mp h i (List.mem_range.mpr hi)
  simpa using this

end System

end zenos_kernel.process
