-- What the boot code leaves behind: the idle task in slot 0, init in slot 1,
-- both on the table of the boot code, and init is the current process.
import Zenos.Process.Syscalls

namespace zenos_kernel.process

/-- `Scheduler::new`. -/
def Scheduler.new : Scheduler := ⟨none, 5, 0⟩

namespace System

/-- The system before the first process: the locks are free, and the contents
of the unused slots do not matter. -/
def empty (unused : Process) (idle_loop idle_stack_top : UInt64) : System :=
  { slots := fun _ => unused
    len := 0
    sched := Scheduler.new
    curr_pid := 0
    curr_proc := none
    next_pid := 2
    flags := fun _ => false
    file_open_options := fun _ => 2
    cr3 := BOOT_TABLE
    next_table := 1
    torn := []
    idle_loop := idle_loop
    idle_stack_top := idle_stack_top }

def create_idle_task (s : System) (fpu : FxSaveArea) : Option System :=
  s.push
    { pid := 0
      parent_pid := 0
      name := "[kidle]".toUTF8.toList
      state := s.idle_state fpu
      status := .Ready
      cr3 := s.cr3
      end_ := 0
      entry_point := s.idle_loop
      file_handles := fun _ => none
      load_bias := 0
      loaded := true
      user_stack_top := s.idle_stack_top
      exit_code := none
      envp := []
      argv := []
      priority := 255 }

/-- `init_process`. Descriptors 0, 1 and 2 are the standard streams. -/
def init_process (s : System) (load_bias : UInt64) (fpu : FxSaveArea) : Option System :=
  s.push
    { pid := 1
      parent_pid := 0
      name := "/bin/init".toUTF8.toList
      state := { fxsave := fpu }
      status := .Created
      cr3 := s.cr3
      end_ := 0
      entry_point := 0
      file_handles := fun fd => if fd ≤ 2 then some fd.toNat else none
      load_bias := load_bias
      loaded := false
      user_stack_top := 0
      exit_code := none
      envp := []
      argv := []
      priority := DEFAULT_PRIORITY }

/-- `kmain` from the creation of the idle task to the jump to user mode. -/
def kmain (unused : Process) (idle_loop idle_stack_top : UInt64) (image : Image) (fpu : FxSaveArea) :
    Option System := do
  let s ← (empty unused idle_loop idle_stack_top).create_idle_task fpu
  let s ← s.init_process image.load_bias fpu
  let s := s.setSlot 1 (load_image (s.slots 1) image)
  some (s.set_current (s.slots 1).pid 1)

/-- The state that `kmain` leaves, for some kernel, image and FPU. -/
def Booted (s : System) : Prop :=
  ∃ unused idle_loop idle_stack_top image fpu,
    kmain unused idle_loop idle_stack_top image fpu = some s

/-- What the rest of the development assumes of the first state. -/
structure Boot (s : System) : Prop where
  len : s.len = 2
  idle : (s.slots 0).cr3 = BOOT_TABLE ∧ (s.slots 0).exit_code = none ∧ (s.slots 0).priority = 255
  init : (s.slots 1).cr3 = BOOT_TABLE ∧ (s.slots 1).exit_code = none ∧ (s.slots 1).pid = 1
  current : s.curr_proc = some 1
  tables : s.next_table = 1
  torn : s.torn = []

theorem kmain_spec {s : System} (h : Booted s) : Boot s := by
  obtain ⟨_, _, _, _, _, h⟩ := h
  cases h
  exact ⟨rfl, ⟨rfl, rfl, rfl⟩, ⟨rfl, rfl, rfl⟩, rfl, rfl, rfl⟩

end System

end zenos_kernel.process
