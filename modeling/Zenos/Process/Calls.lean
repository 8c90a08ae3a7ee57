-- What a call does to the process table, said once for each call. The invariants of
-- the table are then short case analyses.
import Zenos.Process.Boot
import Zenos.Process.Waking

namespace zenos_kernel.process

namespace System

/-- `fpu` is the FPU at the call. -/
inductive Action
  | fork (cloned : Bool)
  | exec (commandline : List UInt8) (argv envp : List (List UInt8)) (image : Option Image)
    (fpu : FxSaveArea)
  | exit (rdi : UInt64) (fpu : FxSaveArea)
  | waitpid (rdi : UInt64)
  | schedule (current_state : ProcessState)

/-- One call. `none` is a kernel panic, and nothing runs after it. -/
def step (s : System) : Action → Option System
  | .fork cloned => (s.fork cloned).map Prod.snd
  | .exec commandline argv envp image fpu => (s.exec commandline argv envp image fpu).map Prod.snd
  | .exit rdi fpu => s.exit rdi fpu
  | .waitpid rdi => some (s.waitpid rdi).2
  | .schedule current_state => some (s.switch current_state)

/-- The user-mode part of `page_fault_handler`, for a fault that copy-on-write
does not handle. The process becomes a zombie with exit code `u64::MAX`, and
the next timer tick switches away from it. -/
def page_fault (s : System) : Option System :=
  match s.sched.current_pid, s.current_proc_mut with
  | none, _ => some s
  | some _, none => none
  | some _, some k =>
    if s.curr_pid = 1 then none
    else some (s.mark_exited k 0xFFFFFFFFFFFFFFFF).force_reschedule

/-- What can happen to the process table: a call or a fault. -/
inductive Event
  | call (a : Action)
  | fault

def react (s : System) : Event → Option System
  | .call a => s.step a
  | .fault => s.page_fault

/-- The table and the state with which an event calls `Scheduler::schedule`:
a timer tick, or the end of `exit`. -/
def scheduled (s : System) : Event → Option (System × ProcessState)
  | .call (.schedule current_state) => some (s, current_state)
  | .call (.exit rdi fpu) =>
    match s.current_proc_mut with
    | none => none
    | some k =>
      if (s.slots k).pid = 1 then none
      else some ((s.mark_exited k (exit_status rdi)).force_reschedule, { fxsave := fpu })
  | .call (.fork _) | .call (.exec _ _ _ _ _) | .call (.waitpid _) | .fault => none

variable {s s' : System} {i : Nat}

/-! ## fork and exec -/

/-- `fork` has taken a level-4 table and a pid. -/
def next_process (s : System) : System := { s.new_table with next_pid := s.next_pid + 1 }

/-- The ends of `fork`: it fails, it drops the child of a full table, or the child is the
last entry. -/
theorem fork_cases {cloned : Bool} (hs : s.step (.fork cloned) = some s') :
    s' = s ∨ (s.next_pid + 1).toNat = s.next_pid.toNat + 1 ∧ (s' = s.next_process ∨
      ∃ k, s.curr_proc = some k ∧ s' = { s.next_process.setSlot s.len
        (s.fork_from (s.slots k) (child_state (s.slots k)) s.next_table) with
          len := s.len + 1 }) := by
  simp only [step, fork] at hs
  split at hs
  · cases hs
    exact Or.inl rfl
  rename_i k hk
  split at hs
  · split at hs
    · rename_i hroom
      refine Or.inr ⟨?_, ?_⟩
      · exact Nat.mod_eq_of_lt hroom
      unfold push at hs
      split at hs
      · rename_i hpush
        split at hpush
        · cases hpush
          cases hs
          exact Or.inr ⟨k, hk, rfl⟩
        · cases hpush
      · cases hs
        exact Or.inl rfl
    · cases hs
  · cases hs
    exact Or.inl rfl

/-- The ends of `exec`: there is no current process, or it gets a new image on a new table. -/
theorem exec_cases {commandline : List UInt8} {argv envp : List (List UInt8)}
    {image : Option Image} {fpu : FxSaveArea}
    (hs : s.step (.exec commandline argv envp image fpu) = some s') :
    s' = s ∨ ∃ k p, s.curr_proc = some k ∧ p.pid = (s.slots k).pid ∧
      p.exit_code = (s.slots k).exit_code ∧ p.cr3 = s.next_table ∧
      s' = { (s.new_table.setSlot k p).set_current p.pid k with cr3 := p.cr3 } := by
  simp only [step, exec] at hs
  split at hs
  · cases hs
    exact Or.inl rfl
  · cases hs
  · rename_i k image hk
    cases hs
    exact Or.inr ⟨k, load_image (s.exec_replace (s.slots k) commandline argv envp s.next_table fpu)
      image, hk, rfl, rfl, rfl, rfl⟩

/-! ## Ends of a process -/

/-- A zombie, and children that go to init. -/
theorem mark_exited_slots (s : System) (k : Nat) (code : UInt64) (j : Nat) :
    (s.mark_exited k code).slots j = { s.slots j with
      parent_pid := if j < s.len ∧ (s.slots j).parent_pid = (s.slots k).pid then 1
        else (s.slots j).parent_pid
      exit_code := if j = k then some code else (s.slots j).exit_code
      status := if j = k then .Exited else (s.slots j).status } := by
  unfold mark_exited mapEntries setSlot
  by_cases hjk : j = k
  · subst hjk
    by_cases hj : j < s.len <;> split_ifs <;> simp_all
  · by_cases hj : j < s.len <;> split_ifs <;> simp_all

/-- The ends of a fault: nobody runs, or the current process is killed. -/
theorem page_fault_cases (hs : s.page_fault = some s') :
    s' = s ∨ ∃ k, s.curr_proc = some k ∧ s.curr_pid ≠ 1 ∧
      s' = (s.mark_exited k 0xFFFFFFFFFFFFFFFF).force_reschedule := by
  unfold page_fault at hs
  split at hs
  · cases hs
    exact Or.inl rfl
  · cases hs
  · rename_i k _ hk
    split at hs
    · cases hs
    · rename_i hinit
      cases hs
      exact Or.inr ⟨k, hk, hinit, rfl⟩

/-- The ends of `exit`: there is no current process, or it becomes a zombie and `schedule`
is called. -/
theorem exit_cases {rdi : UInt64} {fpu : FxSaveArea} (hs : s.exit rdi fpu = some s') :
    s.curr_proc = none ∧ s' = s ∨ ∃ k, s.curr_proc = some k ∧ (s.slots k).pid ≠ 1 ∧
      s.scheduled (.call (.exit rdi fpu)) =
        some ((s.mark_exited k (exit_status rdi)).force_reschedule, { fxsave := fpu }) := by
  unfold exit at hs
  split at hs
  · rename_i hk
    cases hs
    exact Or.inl ⟨hk, rfl⟩
  · rename_i k hk
    split at hs
    · cases hs
    · rename_i hinit
      refine Or.inr ⟨k, hk, hinit, ?_⟩
      simp only [scheduled, hk, if_neg hinit]

/-- An event that calls `schedule` leaves what `schedule` leaves, on another level-4 table. -/
theorem react_scheduled {s1 : System} {e : Event} {ctx : ProcessState} (hs : s.react e = some s')
    (hsched : s.scheduled e = some (s1, ctx)) : ∃ cr3, s' = { (s1.schedule ctx).2 with cr3 } := by
  unfold scheduled at hsched
  split at hsched
  · cases hsched
    simp only [react, step, Option.some.injEq] at hs
    subst hs
    unfold switch
    split
    · rename_i heq
      rw [heq]
      exact ⟨_, rfl⟩
    · rename_i heq
      rw [heq]
      exact ⟨_, rfl⟩
  · split at hsched
    · cases hsched
    rename_i k hk
    split at hsched
    · cases hsched
    rename_i hpid
    cases hsched
    simp only [react, step, System.exit, hk, if_neg hpid, switch_to_next] at hs
    split at hs
    · cases hs
    · rename_i heq
      cases hs
      rw [heq]
      exact ⟨_, rfl⟩
  all_goals cases hsched

/-! ## waitpid -/

variable (s)

def HasPid (pid : UInt64) : Prop := ∃ j, j < s.len ∧ (s.slots j).pid = pid

instance (s : System) (pid : UInt64) : Decidable (s.HasPid pid) :=
  inferInstanceAs (Decidable (∃ j, j < s.len ∧ _))

/-- The caller goes to sleep on `target_pid`. -/
def sleep (target_pid : UInt64) : System :=
  match s.current_proc_mut with
  | none => s.force_reschedule
  | some k => (s.setSlot k { s.slots k with status := .WaitingFor target_pid }).force_reschedule

/-- The three ends of the second half of `waitpid`. -/
theorem wait_for_cases (target_pid : UInt64) :
    (∃ i < s.len, (s.slots i).pid = target_pid ∧ (s.slots i).exit_code.isSome = true ∧
      s.wait_for target_pid = ((s.slots i).exit_code, s.reap i)) ∨
    (¬s.HasPid target_pid ∧ s.wait_for target_pid = (some (errno ESRCH), s)) ∨
    (s.HasPid target_pid ∧
      (∀ j < s.len, (s.slots j).pid = target_pid → (s.slots j).exit_code = none) ∧
      s.wait_for target_pid = (none, s.sleep target_pid)) := by
  unfold wait_for
  cases hexited : s.position (fun p => p.pid == target_pid && p.exit_code.isSome) with
  | some i =>
    obtain ⟨hi, hpass⟩ := position_spec hexited
    simp only [Bool.and_eq_true, beq_iff_eq] at hpass
    exact Or.inl ⟨i, hi, hpass.1, hpass.2, rfl⟩
  | none =>
    have halive : ∀ j < s.len, (s.slots j).pid = target_pid → (s.slots j).exit_code = none := by
      intro j hj hpid
      simpa [hpid] using position_none hexited hj
    cases hpos : s.position (fun p => p.pid == target_pid) with
    | none =>
      refine Or.inr (Or.inl ⟨?_, rfl⟩)
      rintro ⟨j, hj, hpid⟩
      simpa [hpid] using position_none hpos hj
    | some i =>
      obtain ⟨hi, hpid⟩ := position_spec hpos
      refine Or.inr (Or.inr ⟨⟨i, hi, by simpa using hpid⟩, halive, ?_⟩)
      unfold sleep
      cases s.current_proc_mut <;> rfl

/-- What `waitpid` does to any table: it reaps a zombie, or nothing, or the caller sleeps. -/
theorem waitpid_ends (rdi : UInt64) :
    (∃ i < s.len, (s.slots i).exit_code.isSome = true ∧
      s.waitpid rdi = ((s.slots i).exit_code, s.reap i)) ∨ (∃ e, s.waitpid rdi = (some e, s)) ∨
    ∃ target_pid, s.waitpid rdi = (none, s.sleep target_pid) := by
  have hfor : ∀ target_pid, (∃ i < s.len, (s.slots i).exit_code.isSome = true ∧
      s.wait_for target_pid = ((s.slots i).exit_code, s.reap i)) ∨
      (∃ e, s.wait_for target_pid = (some e, s)) ∨
      ∃ t, s.wait_for target_pid = (none, s.sleep t) := by
    intro target_pid
    rcases wait_for_cases s target_pid with ⟨i, hi, _, hexit, heq⟩ | ⟨_, heq⟩ | ⟨_, _, heq⟩
    · exact Or.inl ⟨i, hi, hexit, heq⟩
    · exact Or.inr (Or.inl ⟨_, heq⟩)
    · exact Or.inr (Or.inr ⟨target_pid, heq⟩)
  unfold waitpid
  dsimp only
  split
  · split
    · rename_i i hpos
      obtain ⟨hi, hpass⟩ := position_spec hpos
      simp only [Bool.and_eq_true] at hpass
      exact Or.inl ⟨i, hi, hpass.2, rfl⟩
    · split
      · exact hfor _
      · exact Or.inr (Or.inl ⟨_, rfl⟩)
  · exact hfor rdi

/-! ## The context that is saved -/

/-- `save_current` gives the entry with the current pid a context, if it runs or is blocked. -/
theorem save_current_cases (ctx : ProcessState) :
    s.save_current ctx = s ∨ ∃ j, s.sched.current_pid = some (s.slots j).pid ∧
      ((s.slots j).status = .Running ∨ ∃ lock, (s.slots j).status = .Blocked lock) ∧
      s.save_current ctx = s.setSlot j ((s.slots j).save_context ctx) := by
  unfold save_current
  split
  · exact Or.inl rfl
  rename_i pid hcurr
  split
  · exact Or.inl rfl
  rename_i j hpos
  have hpid : s.sched.current_pid = some (s.slots j).pid := by
    rw [hcurr, beq_iff_eq.mp (position_spec hpos).2]
  split
  · rename_i hst
    exact Or.inr ⟨j, hpid, Or.inl hst, rfl⟩
  · rename_i lock hst
    exact Or.inr ⟨j, hpid, Or.inr ⟨lock, hst⟩, rfl⟩
  · exact Or.inl rfl

/-- The rest of the kernel stays. -/
theorem save_current_rest (ctx : ProcessState) :
    ∃ slots, s.save_current ctx = { s with slots } := by
  rcases s.save_current_cases ctx with h | ⟨j, -, -, h⟩
  · exact ⟨s.slots, h⟩
  · exact ⟨_, h⟩

/-! ## A reaped entry -/

/-- The last entry takes the place of entry `i`. -/
theorem reap_slots (i j : Nat) : (s.reap i).slots j = s.slots (if j = i then s.len - 1 else j) := by
  unfold reap teardown_address_space swap_remove setSlot
  dsimp only
  split <;> rfl

variable {s}

/-- Every other entry is still there. -/
theorem reap_goes_to {j : Nat} (hi : i < s.len) (hj : j < s.len) (hne : j ≠ i) :
    ∃ k < (s.reap i).len, (s.reap i).slots k = s.slots j := by
  refine ⟨if j = s.len - 1 then i else j, ?_, ?_⟩
  · change _ < s.len - 1
    split <;> omega
  · rw [reap_slots]
    by_cases hlast : j = s.len - 1
    · rw [if_pos hlast, if_pos rfl, hlast]
    · rw [if_neg hlast, if_neg hne]

end System

end zenos_kernel.process
