-- The kernel stack of system calls. `syscall_entry` takes its stack pointer
-- from the per-CPU data, the same one at every call. So the call of one
-- process starts where the frame of a process that waits in its own call lies.
import Zenos.Process.ContextSwitch
import Zenos.Lib.Stack

namespace zenos_kernel.syscall

open zenos_kernel.process Stack

/-- `PerCpuData`: the words at `gs:[0x10]` and `gs:[0x18]`. -/
structure PerCpuData where
  kernel_stack_ptr : UInt64
  scratch : UInt64

/-- The CPU and the process table, the per-CPU data and the memory of the kernel
stacks. `rsp0` is the stack of the TSS for interrupts from user mode. -/
structure Kernel where
  machine : Machine
  percpu : PerCpuData
  rsp0 : UInt64
  mem : UInt64 → UInt8

/-! ## The entry of a system call -/

/-- What `syscall_entry` pushes, in this order. The `syscall` instruction has put
`rip` into `rcx` and `rflags` into `r11`. The last word is the return address of
`call syscall_main`. -/
def entry_words (regs : ProcessState) (return_address : UInt64) : List UInt64 :=
  [regs.rsp, regs.rflags, regs.rip, regs.r15, regs.r14, regs.r13, regs.r12, regs.rflags, regs.r10,
    regs.r9, regs.r8, regs.rbp, regs.rdi, regs.rsi, regs.rdx, regs.rip, regs.rbx, regs.rax,
    return_address]

/-- The bytes of a `SyscallFrame`. -/
def SYSCALL_FRAME_BYTES : UInt64 := 144

/-- The frame as `syscall_main` sees it through its pointer. -/
structure SyscallFrame where
  rax : UInt64
  rbx : UInt64
  rcx : UInt64
  rdx : UInt64
  rsi : UInt64
  rdi : UInt64
  rbp : UInt64
  r8 : UInt64
  r9 : UInt64
  r10 : UInt64
  r11 : UInt64
  r12 : UInt64
  r13 : UInt64
  r14 : UInt64
  r15 : UInt64
  user_rip : UInt64
  user_rflags : UInt64
  user_rsp : UInt64
  deriving DecidableEq

def SyscallFrame.read (mem : UInt64 → UInt8) (sframe : UInt64) : SyscallFrame :=
  { rax := load mem sframe, rbx := load mem (sframe + 8), rcx := load mem (sframe + 16),
    rdx := load mem (sframe + 24), rsi := load mem (sframe + 32), rdi := load mem (sframe + 40),
    rbp := load mem (sframe + 48), r8 := load mem (sframe + 56), r9 := load mem (sframe + 64),
    r10 := load mem (sframe + 72), r11 := load mem (sframe + 80), r12 := load mem (sframe + 88),
    r13 := load mem (sframe + 96), r14 := load mem (sframe + 104), r15 := load mem (sframe + 112),
    user_rip := load mem (sframe + 120), user_rflags := load mem (sframe + 128),
    user_rsp := load mem (sframe + 136) }

namespace Kernel

/-- The stores of `syscall_entry`, and the one of `syscall_main` that sets the
interrupt flag in the frame. -/
def entry_stores (k : Kernel) (return_address : UInt64) : List (UInt64 × UInt8) :=
  let top := k.percpu.kernel_stack_ptr
  let regs := k.machine.cpu
  push_all top (entry_words regs return_address) ++
    word_bytes (top - SYSCALL_FRAME_BYTES + 128) (regs.rflags ||| 0x200)

/-- `syscall_entry` up to the body of `syscall_main`. -/
def syscall_entry (k : Kernel) (return_address : UInt64) : Kernel :=
  let top := k.percpu.kernel_stack_ptr
  let regs := k.machine.cpu
  { k with
    percpu.scratch := regs.rsp
    mem := store k.mem (k.entry_stores return_address)
    machine.cpu :=
      { regs with
        rcx := regs.rip, r11 := regs.rflags, cs := code_selector, ss := data_selector
        rdi := top - SYSCALL_FRAME_BYTES, rsp := top - SYSCALL_FRAME_BYTES - 8 } }

/-- The end of `syscall_entry`: the pops and `sysretq`. -/
def syscall_exit (k : Kernel) (ret : UInt64) : Kernel :=
  let frame := SyscallFrame.read k.mem (k.percpu.kernel_stack_ptr - SYSCALL_FRAME_BYTES)
  { k with
    machine.cpu :=
      { k.machine.cpu with
        rax := ret, rbx := frame.rbx, rcx := frame.user_rip, rdx := frame.rdx, rsi := frame.rsi
        rdi := frame.rdi, rbp := frame.rbp, r8 := frame.r8, r9 := frame.r9, r10 := frame.r10
        r11 := frame.user_rflags, r12 := frame.r12, r13 := frame.r13, r14 := frame.r14
        r15 := frame.r15, rip := frame.user_rip, rflags := frame.user_rflags
        rsp := frame.user_rsp, cs := user_code_segment ||| 3, ss := user_data_segment ||| 3 } }

/-! ## Events -/

inductive Event
  /-- User code makes a system call. -/
  | syscall_entry (return_address : UInt64)
  /-- Kernel code runs, with what it stores. -/
  | kernel (sys : System) (cpu : ProcessState) (stores : List (UInt64 × UInt8))
  /-- The system call returns to user mode. -/
  | sysret (ret : UInt64)
  | user (cpu : ProcessState)
  /-- The timer interrupt, with what its handler stores below the frame. -/
  | timer (stores : List (UInt64 × UInt8))
  /-- The process gives the CPU away, with what `switch_to_next` stores. -/
  | switch_to_next (stores : List (UInt64 × UInt8))

def Event.is_syscall : Event → Bool
  | .syscall_entry _ => true
  | .kernel _ _ _ | .sysret _ | .user _ | .timer _ | .switch_to_next _ => false

/-- The frame of the timer goes to the stack of the TSS, or to the stack in use
when the kernel is interrupted, which the CPU first aligns. -/
def timer_stores (k : Kernel) (stores : List (UInt64 × UInt8)) : List (UInt64 × UInt8) :=
  let cpu := k.machine.cpu
  let rsp := if cpu.user_mode then k.rsp0 else cpu.rsp &&& 0xFFFFFFFFFFFFFFF0
  push_all rsp (pushes cpu).reverse ++ stores

def stores (k : Kernel) : Event → List (UInt64 × UInt8)
  | .syscall_entry return_address => k.entry_stores return_address
  | .kernel _ _ stores => stores
  | .sysret _ => []
  | .user _ => []
  | .timer stores => k.timer_stores stores
  | .switch_to_next stores => stores

/-- One event. `none`: it cannot happen in this mode, or the kernel panics. -/
def step (k : Kernel) : Event → Option Kernel
  | .syscall_entry return_address =>
    if k.machine.cpu.user_mode then some (k.syscall_entry return_address) else none
  | .kernel sys cpu stores =>
    if k.machine.cpu.user_mode || cpu.user_mode then none
    else some { k with machine := { k.machine with sys, cpu }, mem := store k.mem stores }
  | .sysret ret => if k.machine.cpu.user_mode then none else some (k.syscall_exit ret)
  | .user cpu =>
    if k.machine.cpu.user_mode && cpu.user_mode then
      some { k with machine := { k.machine with cpu } }
    else none
  | .timer stores =>
    k.machine.timer.map (fun machine =>
      { k with machine, mem := store k.mem (k.timer_stores stores) })
  | .switch_to_next stores =>
    if k.machine.cpu.user_mode then none
    else k.machine.switch_to_next.map (fun machine =>
      { k with machine, mem := store k.mem stores })

def run (k : Kernel) : List Event → Option Kernel
  | [] => some k
  | e :: es => (k.step e).bind (fun k' => k'.run es)

/-! ## A process that waits inside a system call -/

/-- Process `pid` runs inside `syscall_main`, below the frame and the return
address. -/
structure InSyscall (k : Kernel) (pid : UInt64) : Prop where
  running : k.machine.running = some pid
  mode : k.machine.cpu.user_mode = false
  below : 152 ≤ depth k.percpu.kernel_stack_ptr k.machine.cpu.rsp

/-- Byte `a` lies between `rsp` and the end of the frame. -/
def Protects (k : Kernel) (rsp a : UInt64) : Prop :=
  0 < depth k.percpu.kernel_stack_ptr a ∧
    depth k.percpu.kernel_stack_ptr a ≤ depth k.percpu.kernel_stack_ptr rsp

/-- The processes that have entered a system call. -/
def entered (k : Kernel) (since : UInt64 → Bool) (e : Event) : UInt64 → Bool :=
  match e.is_syscall, k.machine.running with
  | true, some pid => Function.update since pid true
  | _, _ => since

/-- A system call entered during the run stores to a byte between `rsp` and the
end of the frame. -/
def Overwrites (k : Kernel) (rsp : UInt64) (since : UInt64 → Bool) : List Event → Prop
  | [] => False
  | e :: es =>
    ((e.is_syscall = true ∨ ∃ pid, k.machine.running = some pid ∧ since pid = true) ∧
      ∃ a ∈ (k.stores e).map Prod.fst, k.Protects rsp a) ∨
    ∃ k', k.step e = some k' ∧ k'.Overwrites rsp (k.entered since e) es

/-- An entry stores to every byte of the frame. -/
theorem entry_stores_top (k : Kernel) (return_address : UInt64) {a : UInt64}
    (hpos : 0 < depth k.percpu.kernel_stack_ptr a) (hle : depth k.percpu.kernel_stack_ptr a ≤ 152) :
    a ∈ (k.entry_stores return_address).map Prod.fst := by
  unfold entry_stores
  rw [List.map_append, List.mem_append]
  apply Or.inl
  have hlen : (entry_words k.machine.cpu return_address).length = 19 := rfl
  rw [mem_push_all (by rw [hlen]; decide)]
  exact ⟨hpos, hle⟩

theorem step_percpu {k k' : Kernel} {e : Event} (h : k.step e = some k') :
    k'.percpu.kernel_stack_ptr = k.percpu.kernel_stack_ptr := by
  cases e with
  | syscall_entry _ | user _ =>
    simp only [step] at h
    split at h
    · cases h
      rfl
    · cases h
  | kernel _ _ _ | sysret _ =>
    simp only [step] at h
    split at h
    · cases h
    · cases h
      rfl
  | timer stores =>
    obtain ⟨m, _, rfl⟩ := Option.map_eq_some_iff.mp h
    rfl
  | switch_to_next stores =>
    simp only [step] at h
    split at h
    · cases h
    · obtain ⟨m, _, rfl⟩ := Option.map_eq_some_iff.mp h
      rfl

variable {since : UInt64 → Bool} {es : List Event} {rsp : UInt64}

/-- Without an entry nothing is attributed to a system call. -/
theorem not_overwrites {k : Kernel} (hsince : ∀ pid, since pid = false)
    (hnone : ∀ e ∈ es, e.is_syscall = false) : ¬ k.Overwrites rsp since es := by
  induction es generalizing k with
  | nil => exact id
  | cons e es ih =>
    have he := hnone e (by simp)
    rintro (⟨hby, _⟩ | ⟨k', _, hlater⟩)
    · rcases hby with h | ⟨pid, _, h⟩
      · rw [he] at h
        cases h
      · rw [hsince] at h
        cases h
    · have hentered : k.entered since e = since := by
        unfold entered
        rw [he]
      rw [hentered] at hlater
      exact ih (fun e' h' => hnone e' (by simp [h'])) hlater

/-- An entry anywhere in the run stores to the frame. -/
theorem overwrites_of_syscall {k k' : Kernel} (hrsp : 152 ≤ depth k.percpu.kernel_stack_ptr rsp)
    (hrun : k.run es = some k') (hentry : ∃ e ∈ es, e.is_syscall = true) :
    k.Overwrites rsp since es := by
  induction es generalizing k since with
  | nil =>
    obtain ⟨e, he, _⟩ := hentry
    cases he
  | cons e es ih =>
    obtain ⟨k1, hstep, hrest⟩ := Option.bind_eq_some_iff.mp hrun
    by_cases he : e.is_syscall = true
    · -- the byte right below the stack pointer is the last one of both frames
      apply Or.inl
      refine ⟨Or.inl he, k.percpu.kernel_stack_ptr - UInt64.ofNat 1, ?_, ?_⟩
      · cases e with
        | syscall_entry return_address =>
          apply entry_stores_top
          · rw [depth_sub _ (by decide)]
            decide
          · rw [depth_sub _ (by decide)]
            decide
        | kernel _ _ _ | sysret _ | user _ | timer _ | switch_to_next _ => cases he
      · unfold Protects
        rw [depth_sub _ (by decide)]
        omega
    · apply Or.inr
      refine ⟨k1, hstep, ih (by rw [step_percpu hstep]; exact hrsp) hrest ?_⟩
      exact ((List.exists_mem_cons_iff _ _ _).mp hentry).resolve_left he

/-- A process that the timer switches away inside its system call keeps its
stack from its stack pointer to the end of its frame exactly when no system call
is entered before it is dispatched again. -/
theorem suspended_frame_kept_iff {k1 k0 k : Kernel} {pid : UInt64}
    {handler : List (UInt64 × UInt8)} {es : List Event} (hin : k1.InSyscall pid)
    (hswitch : k1.step (.timer handler) = some k0) (hrun : k0.run es = some k) :
    ¬ k0.Overwrites k1.machine.cpu.rsp (fun _ => false) es ↔ ∀ e ∈ es, e.is_syscall = false := by
  constructor
  · intro hkept e he
    by_contra hentry
    have hrsp : 152 ≤ depth k0.percpu.kernel_stack_ptr k1.machine.cpu.rsp := by
      rw [step_percpu hswitch]
      exact hin.below
    exact hkept (overwrites_of_syscall hrsp hrun ⟨e, he, by simpa using hentry⟩)
  · intro hnone
    exact not_overwrites (fun _ => rfl) hnone

/-! ## Two readers -/

/-- Process 3 is in user mode and calls `read` on the terminal. -/
def three_calls_read : Kernel :=
  { machine := Machine.three_in_user_mode
    percpu := { kernel_stack_ptr := 0x9000, scratch := 0 }
    rsp0 := 0x7000
    mem := fun _ => 0 }

/-- `Stdin::read` has blocked process 3 and halts. -/
def three_reads : Kernel :=
  let k := three_calls_read.syscall_entry 0x1000
  let sys := (k.machine.sys.store System.STDIN_BLOCKED true).block_current_process
    System.STDIN_BLOCKED
  { k with machine := { k.machine with sys, cpu := { k.machine.cpu with rsp := 0x8E00 } } }

/-- The timer dispatches process 4. -/
def four_dispatched : Kernel := (three_reads.step (.timer [])).getD three_reads

theorem inSyscall_three_reads : three_reads.InSyscall 3 where
  running := rfl
  mode := by decide +kernel
  below := by decide +kernel

theorem timer_three_reads : three_reads.step (.timer []) = some four_dispatched :=
  System.eq_some_getD (by decide +kernel) three_reads

/-- The frame is kept while 4 computes. -/
theorem three_keeps_frame :
    ∃ k0 k, three_reads.step (.timer []) = some k0 ∧
      k0.run [.user (Machine.user_registers FxSaveArea.zeroed)] = some k ∧
      ¬ k0.Overwrites three_reads.machine.cpu.rsp (fun _ => false)
        [.user (Machine.user_registers FxSaveArea.zeroed)] := by
  have hrun := System.eq_some_getD
    (o := four_dispatched.run [.user (Machine.user_registers FxSaveArea.zeroed)])
    (by decide +kernel) four_dispatched
  refine ⟨four_dispatched, _, timer_three_reads, hrun, ?_⟩
  rw [suspended_frame_kept_iff inSyscall_three_reads timer_three_reads hrun]
  simp [Event.is_syscall]

/-- Process 4 makes a call with another stack pointer. -/
def four_calls : List Event :=
  [.user { Machine.user_registers FxSaveArea.zeroed with rsp := 0x25000 }, .syscall_entry 0x1000]

/-- The frame of 3 now holds the stack pointer of 4. -/
theorem four_overwrites_three :
    ∃ k0 k, three_calls_read.step (.syscall_entry 0x1000) =
        some (three_calls_read.syscall_entry 0x1000) ∧
      three_reads.InSyscall 3 ∧ three_reads.step (.timer []) = some k0 ∧
      k0.machine.running = some 4 ∧ k0.run four_calls = some k ∧ k.machine.running = some 4 ∧
      (SyscallFrame.read k0.mem (0x9000 - SYSCALL_FRAME_BYTES)).user_rsp = 0x24000 ∧
      (SyscallFrame.read k.mem (0x9000 - SYSCALL_FRAME_BYTES)).user_rsp = 0x25000 ∧
      k0.Overwrites three_reads.machine.cpu.rsp (fun _ => false) four_calls := by
  have hrun := System.eq_some_getD (o := four_dispatched.run four_calls) (by decide +kernel)
    four_dispatched
  refine ⟨four_dispatched, _, rfl, inSyscall_three_reads, timer_three_reads, by decide +kernel, hrun,
    by decide +kernel, by decide +kernel, by decide +kernel, ?_⟩
  exact overwrites_of_syscall (by decide +kernel) hrun
    ⟨.syscall_entry 0x1000, by simp [four_calls], rfl⟩

end Kernel

end zenos_kernel.syscall
