-- Context switches seen from the CPU. The timer interrupt saves the registers
-- in the table and rewrites the frame that `iretq` pops; `switch_to_next`
-- loads a saved state with `switch_to_next_asm`. Only the second one loads the
-- FPU, so a process that the timer brings back gets the FPU of the process
-- that ran before it.
import Zenos.Process.Blocking

namespace zenos_kernel.process

/-! ## The frame of the timer interrupt -/

/-- What the stub leaves on the stack, from the lowest address up. -/
structure InterruptContext where
  rax : UInt64
  rbx : UInt64
  rcx : UInt64
  rdx : UInt64
  rbp : UInt64
  rsi : UInt64
  rdi : UInt64
  r8 : UInt64
  r9 : UInt64
  r10 : UInt64
  r11 : UInt64
  r12 : UInt64
  r13 : UInt64
  r14 : UInt64
  r15 : UInt64
  rip : UInt64
  cs : UInt64
  rflags : UInt64
  rsp : UInt64
  ss : UInt64

/-- The CPU pushes five words and `timer_interrupt_handler_asm` fifteen. -/
def pushes (cpu : ProcessState) : List UInt64 :=
  [cpu.ss, cpu.rsp, cpu.rflags, cpu.cs, cpu.rip, cpu.r15, cpu.r14, cpu.r13, cpu.r12, cpu.r11,
    cpu.r10, cpu.r9, cpu.r8, cpu.rdi, cpu.rsi, cpu.rbp, cpu.rdx, cpu.rcx, cpu.rbx, cpu.rax].foldl
    (fun stack word => word :: stack) []

/-- The fields of an `InterruptContext` at the top of the stack. -/
def InterruptContext.at_stack (stack : List UInt64) : InterruptContext :=
  { rax := stack.getD 0 0, rbx := stack.getD 1 0, rcx := stack.getD 2 0, rdx := stack.getD 3 0,
    rbp := stack.getD 4 0, rsi := stack.getD 5 0, rdi := stack.getD 6 0, r8 := stack.getD 7 0,
    r9 := stack.getD 8 0, r10 := stack.getD 9 0, r11 := stack.getD 10 0, r12 := stack.getD 11 0,
    r13 := stack.getD 12 0, r14 := stack.getD 13 0, r15 := stack.getD 14 0,
    rip := stack.getD 15 0, cs := stack.getD 16 0, rflags := stack.getD 17 0,
    rsp := stack.getD 18 0, ss := stack.getD 19 0 }

def InterruptContext.words (c : InterruptContext) : List UInt64 :=
  [c.rax, c.rbx, c.rcx, c.rdx, c.rbp, c.rsi, c.rdi, c.r8, c.r9, c.r10, c.r11, c.r12, c.r13, c.r14,
    c.r15, c.rip, c.cs, c.rflags, c.rsp, c.ss]

/-- `current_state` of `timer_interrupt_handler_rust`. -/
def InterruptContext.to_process_state (c : InterruptContext) (fxsave : FxSaveArea) : ProcessState :=
  { rax := c.rax, rbx := c.rbx, rcx := c.rcx, rdx := c.rdx, rsi := c.rsi, rdi := c.rdi,
    rbp := c.rbp, rsp := c.rsp, r8 := c.r8, r9 := c.r9, r10 := c.r10, r11 := c.r11, r12 := c.r12,
    r13 := c.r13, r14 := c.r14, r15 := c.r15, rip := c.rip, rflags := c.rflags, cs := c.cs,
    ss := c.ss, fxsave := fxsave }

/-- The pops of `timer_interrupt_handler_asm` and its `iretq` take the words where the pushes left
them. The FPU stays. -/
def pops (stack : List UInt64) (fpu : FxSaveArea) : ProcessState :=
  (InterruptContext.at_stack stack).to_process_state fpu

/-- The handler writes the state of the next process over the frame. -/
def InterruptContext.update (new_state : ProcessState) : InterruptContext :=
  { rax := new_state.rax, rbx := new_state.rbx, rcx := new_state.rcx, rdx := new_state.rdx,
    rsi := new_state.rsi, rdi := new_state.rdi, rbp := new_state.rbp, rsp := new_state.rsp,
    r8 := new_state.r8, r9 := new_state.r9, r10 := new_state.r10, r11 := new_state.r11,
    r12 := new_state.r12, r13 := new_state.r13, r14 := new_state.r14, r15 := new_state.r15,
    rip := new_state.rip, rflags := new_state.rflags, cs := new_state.cs, ss := new_state.ss }

theorem to_process_state_pushes (cpu : ProcessState) :
    (InterruptContext.at_stack (pushes cpu)).to_process_state cpu.fxsave = cpu := rfl

/-! ## The assembly of `switch_to_next` -/

variable (state : ProcessState)

/-- The word at an offset of a `ProcessState`. -/
def ProcessState.qword : Nat → UInt64
  | 0x00 => state.rax
  | 0x08 => state.rbx
  | 0x10 => state.rcx
  | 0x18 => state.rdx
  | 0x20 => state.rsi
  | 0x28 => state.rdi
  | 0x30 => state.rbp
  | 0x38 => state.rsp
  | 0x40 => state.r8
  | 0x48 => state.r9
  | 0x50 => state.r10
  | 0x58 => state.r11
  | 0x60 => state.r12
  | 0x68 => state.r13
  | 0x70 => state.r14
  | 0x78 => state.r15
  | 0x80 => state.rip
  | 0x88 => state.rflags
  | 0x90 => state.cs
  | 0x98 => state.ss
  | _ => 0

/-- `fxrstor`, the frame of `iretq` and the moves. -/
def switch_to_next_asm : ProcessState :=
  { fxsave := state.fxsave
    ss := state.qword 0x98
    rsp := state.qword 0x38
    rflags := state.qword 0x88
    cs := state.qword 0x90
    rip := state.qword 0x80
    r15 := state.qword 0x78
    r14 := state.qword 0x70
    r13 := state.qword 0x68
    r12 := state.qword 0x60
    r11 := state.qword 0x58
    r10 := state.qword 0x50
    r9 := state.qword 0x48
    r8 := state.qword 0x40
    rbp := state.qword 0x30
    rsi := state.qword 0x20
    rdx := state.qword 0x18
    rcx := state.qword 0x10
    rbx := state.qword 0x08
    rax := state.qword 0x00
    rdi := state.qword 0x28 }

/-! ## The machine -/

/-- The test of the stub on the saved `cs`. -/
def ProcessState.user_mode (cpu : ProcessState) : Bool := cpu.cs &&& 3 != 0

/-- The process table and the CPU. `cpu.fxsave` is the FPU. `running` is the
process whose code runs, `none` in the idle loop, and `interrupted` holds what
a process had when the timer interrupted it in user mode, until it continues or
its entry is overwritten through `curr_proc`. -/
structure Machine where
  sys : System
  cpu : ProcessState
  running : Option UInt64
  interrupted : UInt64 → Option ProcessState

/-- The process that continues is no longer interrupted. -/
def forget (running : Option UInt64) (interrupted : UInt64 → Option ProcessState) :
    UInt64 → Option ProcessState :=
  match running with
  | some pid => Function.update interrupted pid none
  | none => interrupted

namespace Machine

variable (m : Machine)

/-- The timer interrupts the process that runs. -/
def interrupt : Machine :=
  match m.cpu.user_mode, m.running with
  | true, some pid =>
    { m with interrupted := Function.update m.interrupted pid (some m.cpu) }
  | _, _ => m

/-- The process that `schedule(current_state)` selects in `s` continues. -/
def resume (s : System) (current_state : ProcessState) (sys : System)
    (cpu : ProcessState) : Machine :=
  let running := (s.selected current_state).map (fun i => (s.slots i).pid)
  { sys, cpu, running, interrupted := forget running m.interrupted }

/-- The timer interrupt. `none` is the failed assertion on `rflags`. -/
def timer : Option Machine :=
  let context := InterruptContext.at_stack (pushes m.cpu)
  let current_state := context.to_process_state m.cpu.fxsave
  match m.sys.schedule current_state with
  | (none, sys) =>
    some { m with sys, cpu := pops context.words m.cpu.fxsave }
  | (some (_, new_cr3, new_state), sys) =>
    let context := InterruptContext.update new_state
    if new_state.rflags &&& 0x200 = 0 then none
    else some (m.interrupt.resume m.sys current_state { sys with cr3 := new_cr3 }
      (pops context.words m.cpu.fxsave))

/-- `switch_to_next`. It panics when `schedule` has no answer. -/
def switch_to_next : Option Machine :=
  let s := m.sys.force_reschedule
  let current_state : ProcessState := { fxsave := m.cpu.fxsave }
  match s.schedule current_state with
  | (none, _) => none
  | (some (_, next_cr3, next_state), sys) =>
    some (m.resume s current_state { sys with cr3 := next_cr3 } (switch_to_next_asm next_state))

/-- User code runs on behalf of a process whose status gets saved, or of a zombie. -/
def UserSaved (sys : System) (cpu : ProcessState) : Prop :=
  cpu.user_mode = true → m.running.isSome = true ∧ ∀ pid ∈ m.running, ∀ j < sys.len,
    (sys.slots j).pid = pid → sys.IsSaved j ∨ (sys.slots j).status = .Exited

/-- What the code that runs may do between two switches, but for stores through
`curr_proc`: anything to the registers, the FPU and the table, except to the
entries of the interrupted processes. -/
structure Allows (m : Machine) (sys : System) (cpu : ProcessState) : Prop where
  orderly : sys.Orderly
  current : sys.sched.current_pid = m.sys.sched.current_pid
  spares : ∀ j < sys.len, (m.interrupted (sys.slots j).pid).isSome = true →
    ∃ i < m.sys.len, (m.sys.slots i).pid = (sys.slots j).pid ∧
      (m.sys.slots i).state = (sys.slots j).state ∧ (m.sys.slots i).status = (sys.slots j).status
  user : m.UserSaved sys cpu

def store (k : Nat) (entry : Process) : Machine :=
  { m with
    sys := m.sys.setSlot k entry
    interrupted := Function.update m.interrupted entry.pid none }

/-- One step: code runs, the timer ticks, or a process gives the CPU away. -/
inductive Step : Machine → Machine → Prop
  | code {m : Machine} (sys : System) (cpu : ProcessState) (h : m.Allows sys cpu) :
      Step m { m with sys, cpu }
  /-- Kernel code stores to the entry at `curr_proc`, as `syscall_main` does with
  `proc.state`. The entry is another one than that of the caller when `schedule`
  has removed a zombie before it. -/
  | store {m : Machine} (k : Nat) (entry : Process) (hptr : m.sys.current_proc_mut = some k)
      (hpid : entry.pid = (m.sys.slots k).pid) (hkernel : m.cpu.user_mode = false) :
      Step m (m.store k entry)
  | timer {m m' : Machine} (h : m.timer = some m') : Step m m'
  | switch_to_next {m m' : Machine} (h : m.switch_to_next = some m') : Step m m'

/-- The first state: nothing is interrupted yet. -/
structure Start (m : Machine) : Prop where
  orderly : m.sys.Orderly
  current : ∀ pid, m.running = some pid → m.sys.sched.current_pid = some pid
  fresh : ∀ pid, m.interrupted pid = none
  user : m.UserSaved m.sys m.cpu

/-- The process that runs in `m'`, if it was interrupted before, has what it
had when it was interrupted. -/
def Resumes (m m' : Machine) : Prop :=
  ∀ pid, m'.running = some pid → ∀ state, m.interrupted pid = some state → m'.cpu = state

/-- The entry that the timer brings back was interrupted with the FPU as it is
now, and no exit code of a waiter changes its `rax`. -/
def TimerKeeps (m : Machine) : Prop :=
  ∀ i < m.sys.len, (m.sys.save_current m.cpu).Chosen i →
    ∀ state, m.interrupt.interrupted (m.sys.slots i).pid = some state →
      (∀ exit_code, (m.sys.save_current m.cpu).HandsOver exit_code → exit_code = state.rax) ∧
        m.cpu.fxsave = state.fxsave

/-- No exit code of a waiter changes the `rax` of the entry brought back. -/
def SwitchKeeps (m : Machine) : Prop :=
  let s := m.sys.force_reschedule.save_current { fxsave := m.cpu.fxsave }
  ∀ i < m.sys.len, s.Chosen i → ∀ state, m.interrupted (m.sys.slots i).pid = some state →
    ∀ exit_code, s.HandsOver exit_code → exit_code = state.rax

/-! ## The invariant -/

/-- An interrupted process waits in the table with what it had, or it is a
zombie. -/
def Parked (interrupted : UInt64 → Option ProcessState) (s : System) : Prop :=
  ∀ i < s.len, ∀ state, interrupted (s.slots i).pid = some state →
    ((s.slots i).state = state ∧ (s.slots i).status = .Ready) ∨ (s.slots i).status = .Exited

structure Good (m : Machine) : Prop where
  orderly : m.sys.Orderly
  current : ∀ pid, m.running = some pid →
    m.sys.sched.current_pid = some pid ∧ m.interrupted pid = none
  user : m.UserSaved m.sys m.cpu
  parked : Parked m.interrupted m.sys

variable {m : Machine}

theorem Start.good (h : Start m) : Good m where
  orderly := h.orderly
  current := fun pid hpid => ⟨h.current pid hpid, h.fresh pid⟩
  user := h.user
  parked := by
    intro i _ state hstate
    rw [h.fresh] at hstate
    cases hstate

theorem Good.code (g : Good m) {sys : System} {cpu : ProcessState} (h : m.Allows sys cpu) :
    Good { m with sys, cpu } where
  orderly := h.orderly
  current := by
    intro pid hpid
    rw [h.current]
    exact g.current pid hpid
  user := h.user
  parked := by
    intro j hj state hstate
    obtain ⟨i, hi, hpid, hsame, hstatus⟩ := h.spares j hj (Option.isSome_of_mem hstate)
    have hparked := g.parked i hi state (by rw [hpid]; exact hstate)
    rw [hsame, hstatus] at hparked
    exact hparked

theorem Good.store (g : Good m) {k : Nat} {entry : Process}
    (hpid : entry.pid = (m.sys.slots k).pid) (hkernel : m.cpu.user_mode = false) :
    Good (m.store k entry) where
  orderly := g.orderly.of_same (System.samePids_setSlot _ k hpid) rfl
  current := by
    intro pid hrunning
    obtain ⟨hcurrent, hnone⟩ := g.current pid hrunning
    refine ⟨hcurrent, ?_⟩
    by_cases hp : pid = entry.pid
    · rw [hp]
      exact Function.update_self ..
    · exact (Function.update_of_ne hp ..).trans hnone
  user := by
    intro huser
    rw [show m.cpu.user_mode = true from huser] at hkernel
    cases hkernel
  parked := by
    intro i hi state hstate
    unfold Machine.store at hstate ⊢
    dsimp only at hstate ⊢
    rw [(System.samePids_setSlot m.sys k hpid).pid] at hstate
    by_cases hp : (m.sys.slots i).pid = entry.pid
    · rw [hp, Function.update_self] at hstate
      cases hstate
    · rw [Function.update_of_ne hp] at hstate
      have hik : i ≠ k := by
        rintro rfl
        exact hp hpid.symm
      rw [System.setSlot_other _ _ hik]
      exact g.parked i hi state hstate

/-! ## Saving -/

variable {s : System} {interrupted : UInt64 → Option ProcessState} {pid : UInt64} {cr3 : Nat}

/-- What waits in the table is not saved again. -/
theorem parked_save (h : Parked interrupted s) (ctx : ProcessState) :
    Parked interrupted (s.save_current ctx) := by
  intro i hi state hstate
  rw [System.save_current_len] at hi
  rw [(System.samePids_save_current s ctx).pid] at hstate
  have hparked := h i hi state hstate
  have hnot : ¬ s.IsSaved i := by
    rintro ⟨_, hst⟩
    rcases hparked with ⟨_, hready⟩ | hexited
    · rw [hready] at hst
      simp at hst
    · rw [hexited] at hst
      simp at hst
  rw [System.save_current_of_not_saved hnot]
  exact hparked

/-- After the save of the timer the interrupted process waits as well. -/
theorem Good.parked_interrupt (g : Good m) :
    Parked m.interrupt.interrupted (m.sys.save_current m.cpu) := by
  unfold interrupt
  split
  · rename_i pid huser hrunning
    have hstatus := (g.user huser).2 pid hrunning
    intro i hi state hstate
    dsimp only at hstate
    rw [(System.samePids_save_current m.sys m.cpu).pid] at hstate
    have hi' : i < m.sys.len := by
      rw [System.save_current_len] at hi
      exact hi
    by_cases hpid : (m.sys.slots i).pid = pid
    · rw [hpid, Function.update_self] at hstate
      cases hstate
      rcases hstatus i hi' hpid with hsaved | hexited
      · apply Or.inl
        rw [System.save_current_of_saved g.orderly.numbered hi' hsaved]
        exact ⟨rfl, rfl⟩
      · apply Or.inr
        have hnot : ¬ m.sys.IsSaved i := by
          rintro ⟨_, hst⟩
          rw [hexited] at hst
          simp at hst
        rw [System.save_current_of_not_saved hnot]
        exact hexited
    · rw [Function.update_of_ne hpid] at hstate
      refine parked_save g.parked m.cpu i hi state ?_
      rw [(System.samePids_save_current m.sys m.cpu).pid]
      exact hstate
  · exact parked_save g.parked m.cpu

/-! ## Dispatching -/

section Dispatch

variable {m : Machine} {s sys : System} {ctx cpu : ProcessState} {b : Nat}

theorem dispatch_current (s : System) (pick : Pick) (best : Nat) :
    (s.dispatch pick best).sched.current_pid = some (s.slots best).pid := by
  rw [System.dispatch_eq]
  cases pick.reap_idx <;> rfl

/-- Everybody but the entry dispatched waits as before. -/
theorem parked_dispatch (h : s.Numbered) (hp : Parked interrupted s) (hb : b < s.len) :
    Parked (forget (some (s.slots b).pid) interrupted) (s.dispatch s.select b) := by
  intro j hj state hstate
  obtain ⟨i, hi, hslot, _⟩ := (System.filters_dispatch s b).comes_from hj
  rw [hslot] at hstate ⊢
  rw [System.running_entry_pid] at hstate
  change Function.update interrupted (s.slots b).pid none (s.slots i).pid = some state at hstate
  by_cases hib : i = b
  · subst hib
    rw [Function.update_self] at hstate
    cases hstate
  · have hpid : (s.slots i).pid ≠ (s.slots b).pid := fun heq => hib (h.distinct i hi b hb heq)
    rw [Function.update_of_ne hpid] at hstate
    have hentry : s.running_entry b i = s.slots i := if_neg hib
    rw [hentry]
    exact hp i hi state hstate

/-- The entry dispatched is the one with its pid, and it runs. -/
theorem running_dispatch (h : s.Numbered) (hb : b < s.len) {j : Nat}
    (hj : j < (s.dispatch s.select b).len)
    (hpid : ((s.dispatch s.select b).slots j).pid = (s.slots b).pid) :
    ((s.dispatch s.select b).slots j).status = .Running := by
  obtain ⟨i, hi, hslot, _⟩ := (System.filters_dispatch s b).comes_from hj
  rw [hslot, System.running_entry_pid] at hpid
  have hib := h.distinct i hi b hb hpid
  subst hib
  rw [hslot]
  unfold System.running_entry
  rw [if_pos rfl]
  rfl

/-- Whoever continues, the invariant holds. -/
theorem good_resume (h : s.Orderly) (hlen : s.len ≠ 0)
    (hp : Parked m.interrupted (s.save_current ctx))
    {state : ProcessState} (hs : s.schedule ctx = (some (pid, cr3, state), sys))
    (hcs : cpu.cs = state.cs) : Good (m.resume s ctx { sys with cr3 := cr3 } cpu) := by
  have horderly : sys.Orderly := by
    have := h.schedule ctx
    rw [hs] at this
    exact this
  have hnumbered := (System.samePids_save_current s ctx).numbered h.numbered
  cases hsel : s.selected ctx with
  | none =>
    rw [System.schedule_idle h.slice hlen hsel] at hs
    cases hs
    unfold resume
    rw [hsel]
    refine ⟨horderly.of_same ⟨rfl, fun _ => rfl, rfl⟩ rfl, ?_, ?_, hp⟩
    · intro pid hpid
      cases hpid
    -- the idle loop runs in kernel mode
    intro huser
    have hkernel : (code_selector &&& 3 != 0) = true := by
      rw [← huser]
      change _ = (cpu.cs &&& 3 != 0)
      rw [hcs]
      rfl
    cases hkernel
  | some b =>
    obtain ⟨hb, _, hdispatch⟩ := System.schedule_selected hsel
    rw [hdispatch] at hs
    cases hs
    have hb' : b < (s.save_current ctx).len := by rw [System.save_current_len]; exact hb
    have hpid := (System.samePids_save_current s ctx).pid b
    unfold resume
    rw [hsel]
    refine ⟨horderly.of_same ⟨rfl, fun _ => rfl, rfl⟩ rfl, ?_, ?_, ?_⟩
    · intro pid hrunning
      cases hrunning
      have hcurrent := dispatch_current (s.save_current ctx) (s.save_current ctx).select b
      rw [hpid] at hcurrent
      exact ⟨hcurrent, Function.update_self _ _ _⟩
    · intro _
      refine ⟨rfl, ?_⟩
      intro pid hrunning j hj hjpid
      cases hrunning
      apply Or.inl
      have hcurrent := dispatch_current (s.save_current ctx) (s.save_current ctx).select b
      refine ⟨?_, Or.inl ?_⟩
      · exact hcurrent.trans (congrArg some (hpid.trans hjpid.symm))
      · exact running_dispatch hnumbered hb' hj (hjpid.trans hpid.symm)
    · have hparked := parked_dispatch hnumbered hp hb'
      rw [hpid] at hparked
      exact hparked

/-- The process that continues has what it had when it was interrupted: a
statement about the entry that the scan chooses. -/
theorem resumes_iff (h : s.Orderly) {sys' : System}
    {P : Nat → ProcessState → Prop} (hcpu : ∀ b < s.len, (s.save_current ctx).Chosen b → ∀ state,
      m.interrupted (s.slots b).pid = some state → (cpu = state ↔ P b state)) :
    Resumes m (m.resume s ctx sys' cpu) ↔ ∀ b < s.len, (s.save_current ctx).Chosen b →
      ∀ state, m.interrupted (s.slots b).pid = some state → P b state := by
  constructor
  · intro hres b hb hchosen state hstate
    have hsome := (System.selected_iff h.slice).mpr ⟨hb, hchosen⟩
    refine (hcpu b hb hchosen state hstate).mp (hres _ ?_ state hstate)
    exact congrArg (Option.map _) hsome
  · intro hall pid hpid state hstate
    obtain ⟨b, hsome, rfl⟩ := Option.map_eq_some_iff.mp hpid
    obtain ⟨hb, hchosen⟩ := (System.selected_iff h.slice).mp hsome
    exact (hcpu b hb hchosen state hstate).mpr (hall b hb hchosen state hstate)

end Dispatch

/-! ## The two switches -/

variable {state ctx : ProcessState} {b : Nat}

/-- The chosen entry can run, so it is no zombie. -/
theorem parked_state (hp : Parked interrupted (s.save_current ctx)) (hb : b < s.len)
    (hchosen : (s.save_current ctx).Chosen b) (hstate : interrupted (s.slots b).pid = some state) :
    ((s.save_current ctx).slots b).state = state := by
  rw [← (System.samePids_save_current s ctx).pid] at hstate
  rcases hp b (by rw [System.save_current_len]; exact hb) state hstate with h | h
  · exact h.1
  · have hrun := hchosen.1
    unfold System.CanRun at hrun
    rw [h] at hrun
    cases hrun

/-- The registers come from the table and the FPU does not. -/
theorem with_fxsave_eq_iff {fpu : FxSaveArea} :
    ({ s.select.hand_over state with fxsave := fpu } : ProcessState) = state ↔
      s.select.hand_over state = state ∧ fpu = state.fxsave := by
  have hfx : (s.select.hand_over state).fxsave = state.fxsave := by
    unfold Pick.hand_over
    split <;> rfl
  constructor
  · intro heq
    have hfpu : fpu = state.fxsave := congrArg ProcessState.fxsave heq
    refine ⟨?_, hfpu⟩
    rw [hfpu, ← hfx] at heq
    exact heq
  · rintro ⟨heq, hfpu⟩
    rw [heq, hfpu]

theorem answer_of_chosen {sys : System} (h : s.Orderly)
    (hs : s.schedule ctx = (some (pid, cr3, state), sys))
    (hb : b < s.len) (hchosen : (s.save_current ctx).Chosen b) :
    state = (s.save_current ctx).select.hand_over ((s.save_current ctx).slots b).state := by
  have hsel := (System.selected_iff h.slice).mpr ⟨hb, hchosen⟩
  cases hs.symm.trans (System.schedule_selected hsel).2.2
  rfl

theorem timer_spec {m' : Machine} (g : Good m) (h : m.timer = some m') :
    Good m' ∧ (Resumes m.interrupt m' ↔ m.TimerKeeps) := by
  unfold timer at h
  dsimp only at h
  rw [to_process_state_pushes] at h
  by_cases hlen : m.sys.len = 0
  · -- an empty table: the process goes on as it was
    rw [System.schedule_empty g.orderly.slice hlen] at h
    cases h
    have hsave := g.orderly.of_same (System.samePids_save_current m.sys m.cpu)
      (System.save_current_sched m.sys m.cpu)
    have hlen' : (m.sys.save_current m.cpu).len = 0 := by rw [System.save_current_len, hlen]
    refine ⟨⟨hsave, ?_, ?_, ?_⟩, iff_of_true ?_ ?_⟩
    · intro pid hpid
      rw [System.save_current_sched]
      exact g.current pid hpid
    · intro huser
      refine ⟨(g.user huser).1, ?_⟩
      intro pid _ j hj
      change j < (m.sys.save_current m.cpu).len at hj
      omega
    · intro j hj
      change j < (m.sys.save_current m.cpu).len at hj
      omega
    · intro pid hrunning state hstate
      unfold interrupt at hstate
      split at hstate
      · rename_i pid' _ hrunning'
        cases hrunning.symm.trans hrunning'
        dsimp only at hstate
        rw [Function.update_self] at hstate
        cases hstate
        rfl
      · rw [(g.current pid hrunning).2] at hstate
        cases hstate
    · intro i hi
      omega
  · have hparked := g.parked_interrupt
    obtain ⟨pid, cr3, state, sys, hs⟩ := System.schedule_some g.orderly.slice hlen m.cpu
    rw [hs] at h
    dsimp only at h
    split at h
    · cases h
    · cases h
      refine ⟨good_resume g.orderly hlen hparked hs rfl, ?_⟩
      refine resumes_iff g.orderly ?_
      intro b hb hchosen old hold
      rw [answer_of_chosen g.orderly hs hb hchosen, ← System.hand_over_eq_iff,
        parked_state hparked hb hchosen hold]
      exact with_fxsave_eq_iff

theorem switch_to_next_spec {m' : Machine} (g : Good m) (h : m.switch_to_next = some m') :
    Good m' ∧ (Resumes m m' ↔ m.SwitchKeeps) := by
  have horderly := g.orderly.force_reschedule
  unfold switch_to_next at h
  dsimp only at h
  by_cases hlen : m.sys.force_reschedule.len = 0
  · rw [System.schedule_empty horderly.slice hlen] at h
    cases h
  have hparked : Parked m.interrupted
      (m.sys.force_reschedule.save_current { fxsave := m.cpu.fxsave }) :=
    parked_save (s := m.sys.force_reschedule) g.parked _
  obtain ⟨pid, cr3, state, sys, hs⟩ :=
    System.schedule_some horderly.slice hlen { fxsave := m.cpu.fxsave }
  rw [hs] at h
  dsimp only at h
  cases h
  refine ⟨good_resume horderly hlen hparked hs rfl, ?_⟩
  refine resumes_iff horderly ?_
  intro b hb hchosen old hold
  rw [answer_of_chosen horderly hs hb hchosen, ← System.hand_over_eq_iff,
    parked_state hparked hb hchosen hold]
  exact Iff.rfl

theorem good_of_steps {m0 : Machine} (hstart : m0.Start) (hrun : Relation.ReflTransGen Step m0 m) :
    Good m := by
  induction hrun with
  | refl => exact hstart.good
  | tail _ hstep ih =>
    cases hstep with
    | code sys cpu hallows => exact ih.code hallows
    | store k entry _ hpid hkernel => exact ih.store hpid hkernel
    | timer h => exact (timer_spec ih h).1
    | switch_to_next h => exact (switch_to_next_spec ih h).1

instance (st : ProcessStatus) : Decidable (∃ lock, st = .Blocked lock) :=
  match st with
  | .Blocked lock => isTrue ⟨lock, rfl⟩
  | .Running => isFalse (by simp)
  | .Ready => isFalse (by simp)
  | .Created => isFalse (by simp)
  | .Exited => isFalse (by simp)
  | .WaitingFor _ => isFalse (by simp)

instance (s : System) (i : Nat) : Decidable (s.IsSaved i) := inferInstanceAs (Decidable (_ ∧ _))

theorem orderly_after (as : List System.Action)
    (h : (System.bootedKernel.run as).isSome = true) : (System.bootedKernel.after as).Orderly := by
  refine System.orderly_of_moves (System.kmain_orderly System.booted_bootedKernel) ?_
  have hsteps : Relation.ReflTransGen _ _ _ := System.steps_of_run (System.eq_some_getD h
    System.bootedKernel)
  refine hsteps.lift id ?_
  rintro s s' ⟨a, ha⟩
  exact ⟨.event (.call a), ha⟩

def user_registers (fpu : FxSaveArea) : ProcessState :=
  { cs := user_code_segment, ss := user_data_segment, rflags := 0x202, rip := 0x400,
    rsp := 0x24000, fxsave := fpu }

def kernel_registers (fpu : FxSaveArea) : ProcessState :=
  { cs := code_selector, ss := data_selector, rflags := 0x202, fxsave := fpu }

/-- Init forks 2, 3 and 4 and waits for 3. Process 2 exits, and 3 reaps it, so
4 takes slot 2. -/
def three_reaps_two : List System.Action :=
  [.fork true, .fork true, .fork true, .waitpid 3, .schedule {}, .exit 0 .zeroed, .waitpid 2]

/-- Process 3 is back in user mode. -/
def three_in_user_mode : Machine :=
  { sys := System.bootedKernel.after three_reaps_two
    cpu := user_registers FxSaveArea.zeroed
    running := some 3
    interrupted := fun _ => none }

theorem start_three_in_user_mode : three_in_user_mode.Start where
  orderly := orderly_after three_reaps_two (by decide +kernel)
  current := by
    intro pid hpid
    cases hpid
    decide +kernel
  fresh := fun _ => rfl
  user := by
    intro _
    refine ⟨rfl, ?_⟩
    intro pid hpid
    cases hpid
    decide +kernel

/-- The timer switches to 4, the first entry that is ready. -/
def four_runs : Machine := three_in_user_mode.timer.getD three_in_user_mode

theorem timer_three_in_user_mode : three_in_user_mode.timer = some four_runs :=
  System.eq_some_getD (by decide +kernel) three_in_user_mode

/-- Another content of the FPU. -/
def other_fpu : FxSaveArea := ⟨Vector.replicate 512 1⟩

/-- Process 4 has used the FPU and waits for 3. -/
def four_waits : Machine :=
  { four_runs with sys := (four_runs.sys.waitpid 3).2, cpu := kernel_registers other_fpu }

theorem allows_four_waits :
    four_runs.Allows (four_runs.sys.waitpid 3).2 (kernel_registers other_fpu) where
  orderly := by
    have g := (timer_spec start_three_in_user_mode.good timer_three_in_user_mode).1
    exact g.orderly.react (e := .call (.waitpid 3)) rfl
  current := by decide +kernel
  spares := by decide +kernel
  user := by unfold Machine.UserSaved; decide +kernel

/-- The next tick brings 3 back. -/
def three_again : Machine := four_waits.timer.getD four_waits

theorem steps_four_waits : Relation.ReflTransGen Step three_in_user_mode four_waits := by
  have hcode : Step four_runs four_waits := .code _ _ allows_four_waits
  exact .tail (.single (.timer timer_three_in_user_mode)) hcode

end Machine

end zenos_kernel.process
