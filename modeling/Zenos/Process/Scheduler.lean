-- `Scheduler::schedule`: save the current process, pick the entry with the
-- smallest priority number that can run, hand an exit code to a waiter, and
-- remove the zombie it waited for.
import Zenos.Process.Table

namespace zenos_kernel.process

/-- The selectors of `GDT`, in the order in which the segments are appended. -/
def code_selector : UInt64 := 0x08

def data_selector : UInt64 := 0x10

def user_data_segment : UInt64 := 0x2b

def user_code_segment : UInt64 := 0x33

/-- `Process::save_context`. The status becomes `Ready`, whatever it was. -/
def Process.save_context (p : Process) (ctx : ProcessState) : Process :=
  { p with state := ctx, status := .Ready }

variable (s : System)

/-- `Scheduler::set_current`, with the per-CPU data it updates. -/
def System.set_current (pid : UInt64) (proc : Nat) : System :=
  { s with sched.current_pid := some pid, curr_pid := pid, curr_proc := some proc }

/-- `Scheduler::force_reschedule`. -/
def System.force_reschedule : System := { s with sched.time := s.sched.quantum }

/-- Save the state of the current process, if the table still has it. -/
def System.save_current (current_state : ProcessState) : System :=
  match s.sched.current_pid with
  | none => s
  | some current_pid =>
    match s.position (fun p => p.pid == current_pid) with
    | none => s
    | some i =>
      match (s.slots i).status with
      | .Running => s.setSlot i { (s.slots i).save_context current_state with status := .Ready }
      | .Blocked _ => s.setSlot i ((s.slots i).save_context current_state)
      | _ => s

/-! ## The scan of the table -/

/-- The four variables of the scan. -/
structure Pick where
  best_idx : Option Nat
  best_priority : UInt8
  reap_idx : Option Nat
  wake_idx : Option (Nat × UInt64)
  deriving DecidableEq, Repr

def Pick.start : Pick := ⟨none, 255, none, none⟩

/-- The entry that a waiter waits for. -/
def System.target_idx (target_pid : UInt64) : Option Nat :=
  s.position (fun t => t.pid == target_pid)

/-- A waiter can be woken when its target has exited or is gone. -/
def System.wakes (target_pid : UInt64) : Bool :=
  ((s.target_idx target_pid).bind (fun idx => (s.slots idx).exit_code)).isSome ||
    (s.target_idx target_pid).isNone

/-- One turn of the scan, for entry `i`. -/
def System.scan (pick : Pick) (i : Nat) : Pick :=
  let proc := s.slots i
  match proc.status with
  | .WaitingFor target_pid =>
    let target_idx := s.target_idx target_pid
    let exit_code := target_idx.bind (fun idx => (s.slots idx).exit_code)
    if s.wakes target_pid ∧ proc.priority < pick.best_priority then
      { best_idx := some i
        best_priority := proc.priority
        reap_idx := target_idx
        wake_idx := some (i, exit_code.getD 0xFFFFFFFFFFFFFFFF) }
    else pick
  | .Blocked flag =>
    if s.flags flag = false ∧ proc.priority < pick.best_priority then
      { pick with best_idx := some i, best_priority := proc.priority }
    else pick
  | .Ready =>
    if proc.priority < pick.best_priority then
      { pick with best_idx := some i, best_priority := proc.priority }
    else pick
  | _ => pick

def System.select : Pick := (List.range s.len).foldl s.scan Pick.start

/-- The state of the dummy process that runs when nothing else can.
`ProcessState::default` saves the FPU, which holds `fxsave`. -/
def System.idle_state (fxsave : FxSaveArea) : ProcessState :=
  { rflags := 0x202, cs := code_selector, ss := data_selector,
    rip := s.idle_loop, rsp := s.idle_stack_top, fxsave := fxsave }

/-- Dispatch entry `best`: hand over the exit code, make it current, and
remove the zombie. The pointer is taken before the removal. -/
def System.dispatch (pick : Pick) (best : Nat) : System :=
  let proc := s.slots best
  let proc :=
    match pick.wake_idx with
    | some (_, exit_code) => { proc with state.rax := exit_code }
    | none => proc
  let s := s.setSlot best { proc with status := .Running }
  let s := s.set_current proc.pid best
  let s :=
    match pick.reap_idx with
    | some idx => s.remove idx
    | none => s
  { s with sched.time := 0 }

/-- `Scheduler::schedule`. The answer is the next pid, table and state. -/
def System.schedule (current_state : ProcessState) :
    Option (UInt64 × Nat × ProcessState) × System :=
  if s.sched.quantum ≥ s.sched.time then
    let s := s.save_current current_state
    if s.len = 0 then (none, s)
    else
      let pick := s.select
      match pick.best_idx with
      | none => (some (0, s.cr3, s.idle_state current_state.fxsave), s)
      | some best =>
        let s' := s.dispatch pick best
        let rax :=
          match pick.wake_idx with
          | some (_, exit_code) => exit_code
          | none => (s.slots best).state.rax
        (some ((s.slots best).pid, (s.slots best).cr3, { (s.slots best).state with rax }), s')
  else (none, { s with sched.time := s.sched.time + 1 })

/-- What the timer interrupt and `switch_to_next` do with the answer: load the
table of the next process. -/
def System.switch (current_state : ProcessState) : System :=
  match s.schedule current_state with
  | (none, s) => s
  | (some (_, next_cr3, _), s) => { s with cr3 := next_cr3 }

end zenos_kernel.process
