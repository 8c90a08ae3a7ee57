-- The system calls that create, replace, end and reap processes: `fork`,
-- `exec`, `exit` and `waitpid`. `none` is a kernel panic.
import Zenos.Process.Scheduler

namespace zenos_kernel.process

def ESRCH : UInt64 := 3

def ECHILD : UInt64 := 10

def EAGAIN : UInt64 := 11

def ENOMEM : UInt64 := 12

/-- `(-e) as u64`. -/
def errno (e : UInt64) : UInt64 := 0 - e

/-- `FileOpenOptions::CLOSE_ON_EXEC`. -/
def CLOSE_ON_EXEC : UInt64 := 0o2000000

/-- The cast `rdi as i32 as u64`: the low 32 bits with their sign. -/
def exit_status (rdi : UInt64) : UInt64 :=
  if rdi.toUInt32 < 0x80000000 then rdi.toUInt32.toUInt64
  else rdi.toUInt32.toUInt64 ||| 0xFFFFFFFF00000000

namespace System

variable (s : System)

/-- `clone_address_space` and `new_user_address_space`: a new level-4 table. -/
def new_table : System := { s with next_table := s.next_table + 1 }

/-! ## fork -/

/-- `Process::fork_from` on top of `Process::new`. The child has the name, the
environment, the image and the descriptors of the parent, and no arguments. -/
def fork_from (parent : Process) (child_state : ProcessState) (child_cr3 : Nat) :
    Process :=
  { pid := s.next_pid
    parent_pid := parent.pid
    name := parent.name
    state := child_state
    status := .Ready
    cr3 := child_cr3
    end_ := parent.end_
    entry_point := parent.entry_point
    file_handles := parent.file_handles
    load_bias := parent.load_bias
    loaded := true
    user_stack_top := parent.user_stack_top
    exit_code := none
    envp := parent.envp
    argv := []
    priority := parent.priority }

/-- The state that the child starts with. -/
def child_state (parent : Process) : ProcessState :=
  let st := { parent.state with rax := 0 }
  let st := if st.cs = 0 then { st with cs := user_code_segment ||| 3 } else st
  let st := if st.ss = 0 then { st with ss := user_data_segment ||| 3 } else st
  { st with rflags := st.rflags ||| 0x200 }

/-- `fork`. `cloned` is the answer of `clone_address_space`: false when the
frames ran out. -/
def fork (cloned : Bool) : Option (UInt64 × System) :=
  match s.current_proc_mut with
  | none => some (errno EAGAIN, s)
  | some k =>
    if cloned then
      let child := s.fork_from (s.slots k) (child_state (s.slots k)) s.next_table
      if s.next_pid.toNat + 1 < UInt64.size then
        let s := { s.new_table with next_pid := s.next_pid + 1 }
        match s.push child with
        | some s' => some (child.pid, s')
        | none => some (errno ENOMEM, s)
      else none
    else some (errno ENOMEM, s)

/-! ## exec -/

/-- What `load` and `prepare_run` take from the ELF file. -/
structure Image where
  load_bias : UInt64
  end_ : UInt64
  entry_point : UInt64
  rip : UInt64
  rsp : UInt64
  user_stack_top : UInt64

/-- The display name: the suffix `.elf` of the first argument is dropped from
the head of the command line. -/
def display_name (commandline : List UInt8) (argv : List (List UInt8)) : List UInt8 :=
  let elf : List UInt8 := [0x2e, 0x65, 0x6c, 0x66]
  match argv with
  | [] => commandline
  | first :: _ =>
    if elf.isSuffixOf first ∧ first.isPrefixOf commandline then
      first.take (first.length - elf.length) ++ commandline.drop first.length
    else commandline

/-- `Process::exec_replace`. The old table is not kept anywhere, and `ProcessState::default` saves
the FPU as it is. -/
def exec_replace (p : Process) (commandline : List UInt8)
    (argv envp : List (List UInt8)) (cr3 : Nat) (fpu : FxSaveArea) : Process :=
  { p with
    argv := argv
    envp := envp
    name := display_name commandline argv
    state := { fxsave := fpu }
    status := .Created
    load_bias := 0
    end_ := 0
    entry_point := 0
    loaded := false
    user_stack_top := 0
    file_handles := fun fd =>
      (p.file_handles fd).filter (fun f => s.file_open_options f &&& CLOSE_ON_EXEC = 0)
    cr3 := cr3 }

/-- `load` and `prepare_run`, as far as the process record goes. -/
def load_image (p : Process) (image : Image) : Process :=
  { p with
    load_bias := image.load_bias
    loaded := true
    end_ := image.end_
    entry_point := image.entry_point
    state.rip := image.rip
    state.rsp := image.rsp
    user_stack_top := image.user_stack_top
    status := .Running }

/-- `exec_inner` from the point where the file is read. `image` is `none` when
the file does not load, which panics. -/
def exec (commandline : List UInt8) (argv envp : List (List UInt8))
    (image : Option Image) (fpu : FxSaveArea) : Option (UInt64 × System) :=
  match s.current_proc_mut, image with
  | none, _ => some (errno ESRCH, s)
  | some _, none => none
  | some k, some image =>
    let p := load_image (s.exec_replace (s.slots k) commandline argv envp s.next_table fpu) image
    let s := s.new_table.setSlot k p
    some (0, { s.set_current p.pid k with cr3 := p.cr3 })

/-! ## exit -/

/-- `exit` up to the switch: the entry that the pointer denotes becomes a
zombie, and its children go to init. -/
def mark_exited (k : Nat) (exit_code : UInt64) : System :=
  let pid := (s.slots k).pid
  let s := s.setSlot k { s.slots k with exit_code := some exit_code, status := .Exited }
  s.mapEntries (fun p => if p.parent_pid = pid then { p with parent_pid := 1 } else p)

/-- `switch_to_next`: schedule at once and load the table of the next process.
It panics when the process table is empty. -/
def switch_to_next (fpu : FxSaveArea) : Option System :=
  match s.force_reschedule.schedule { fxsave := fpu } with
  | (none, _) => none
  | (some (_, next_cr3, _), s) => some { s with cr3 := next_cr3 }

/-- `exit`. It ends in `switch_to_next`, which does not come back. -/
def exit (rdi : UInt64) (fpu : FxSaveArea) : Option System :=
  match s.current_proc_mut with
  | none => some s
  | some k =>
    if (s.slots k).pid = 1 then none
    else (s.mark_exited k (exit_status rdi)).switch_to_next fpu

/-! ## waitpid -/

/-- Remove entry `i` and tear its address space down. -/
def reap (i : Nat) : System :=
  (s.swap_remove i).teardown_address_space (s.slots i).cr3

/-- The second half of `waitpid`: reap the target, or go to sleep on it. The
call does not come back from `schedule_next`; the answer is then `none`. -/
def wait_for (target_pid : UInt64) : Option UInt64 × System :=
  match s.position (fun p => p.pid == target_pid && p.exit_code.isSome) with
  | some i => ((s.slots i).exit_code, s.reap i)
  | none =>
    match s.position (fun p => p.pid == target_pid) with
    | none => (some (errno ESRCH), s)
    | some _ =>
      let s :=
        match s.current_proc_mut with
        | none => s
        | some k => s.setSlot k { s.slots k with status := .WaitingFor target_pid }
      (none, s.force_reschedule)

/-- `waitpid`. The argument `-1` waits for any child. -/
def waitpid (rdi : UInt64) : Option UInt64 × System :=
  let caller_pid := s.curr_pid
  if rdi = 0xFFFFFFFFFFFFFFFF then
    match s.position (fun p => p.parent_pid == caller_pid && p.exit_code.isSome) with
    | some i => ((s.slots i).exit_code, s.reap i)
    | none =>
      match s.position (fun p => p.parent_pid == caller_pid) with
      | some i => s.wait_for (s.slots i).pid
      | none => (some (errno ECHILD), s)
  else s.wait_for rdi

end System

end zenos_kernel.process
