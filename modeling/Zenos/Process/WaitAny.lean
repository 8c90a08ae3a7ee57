-- `waitpid(-1)`. A call that finds no exited child picks the first child of the
-- table and sleeps on that one. So the sleeper is woken by the child that was
-- picked, and by no other child that exits before it.
import Zenos.Process.Blocking

namespace zenos_kernel.process

namespace System

variable {ctx : ProcessState} {s s0 : System} {i k : Nat}

/-! ## The waiter in the scan -/

/-- `save_current` changes nothing but a status and a saved state. -/
theorem save_current_slot (s : System) (ctx : ProcessState) (i : Nat) :
    ∃ state status, (s.save_current ctx).slots i = { s.slots i with state, status } := by
  rcases s.save_current_cases ctx with h | ⟨j, -, -, h⟩
  · rw [h]
    exact ⟨_, _, rfl⟩
  · rw [h]
    by_cases hij : i = j
    · subst hij
      exact ⟨_, _, setSlot_same s i _⟩
    · exact ⟨_, _, setSlot_other s _ hij⟩

theorem save_current_exit_code (s : System) (ctx : ProcessState) (i : Nat) :
    ((s.save_current ctx).slots i).exit_code = (s.slots i).exit_code := by
  obtain ⟨state, status, hslot⟩ := save_current_slot s ctx i
  rw [hslot]

theorem save_current_parent_pid (s : System) (ctx : ProcessState) (i : Nat) :
    ((s.save_current ctx).slots i).parent_pid = (s.slots i).parent_pid := by
  obtain ⟨state, status, hslot⟩ := save_current_slot s ctx i
  rw [hslot]

theorem SamePids.target_idx {s' : System} (h : SamePids s s') (pid : UInt64) :
    s'.target_idx pid = s.target_idx pid := by
  unfold System.target_idx position
  rw [h.len]
  congr 1
  funext i
  exact congrArg (· == pid) (h.pid i)

/-- A waiter is not saved: its slot stays as it is. -/
theorem save_current_waiter {target_pid : UInt64}
    (hst : (s.slots i).status = .WaitingFor target_pid) (ctx : ProcessState) :
    (s.save_current ctx).slots i = s.slots i := by
  refine save_current_of_not_saved ?_ ctx
  rintro ⟨_, hrunning | ⟨lock, hblocked⟩⟩
  · rw [hst] at hrunning
    cases hrunning
  · rw [hst] at hblocked
    cases hblocked

/-- Entry `i` competes in the scan for the exit code of entry `z`. -/
def Offers (s : System) (i z : Nat) (exit_code : UInt64) : Prop :=
  s.CanRun i ∧ (s.slots i).status.target.bind s.target_idx = some z ∧
    (s.slots z).exit_code = some exit_code

/-- A waiter that is dispatched is the last one woken. -/
theorem Chosen.last_woken (h : s.Chosen i) (hwaits : (s.slots i).status.target.isSome = true) :
    s.Woken i ∧ ∀ j < s.len, i < j → ¬s.Woken j := by
  obtain ⟨hrun, h255, hbefore, hall⟩ := h
  refine ⟨⟨hwaits, hrun, h255, hbefore⟩, ?_⟩
  intro j hj hij hwoken
  have hlt := UInt8.lt_of_lt_of_le (hwoken.2.2.2 i hij hrun) (hall j hj hwoken.2.1)
  exact UInt8.lt_irrefl _ hlt

/-- The scan keeps the exit code and the place of the target of a waiter that wins. -/
theorem Chosen.own (h : s.Chosen i) (hi : i < s.len) {target_pid : UInt64}
    (ht : (s.slots i).status.target = some target_pid) :
    s.select.hand_over (s.slots i).state =
        { (s.slots i).state with rax := s.exit_code_of target_pid } ∧
      s.select.reap_idx = s.target_idx target_pid := by
  obtain ⟨hwoken, hlast⟩ := h.last_woken (by rw [ht]; rfl)
  obtain ⟨j, hwake⟩ := select_wake_iff.mpr ⟨i, hi, hwoken, hlast, by rw [ht]; rfl⟩
  refine ⟨by unfold Pick.hand_over; rw [hwake], Option.ext fun z => ?_⟩
  rw [select_reap_iff, Reaps, last_woken_iff hi hwoken hlast, ht]
  rfl

/-- A waiter that wins the scan returns with the exit code, and the zombie goes. -/
theorem Offers.chosen {z : Nat} {exit_code : UInt64} (h : s.Offers i z exit_code) (hi : i < s.len)
    (hchosen : s.Chosen i) :
    s.select.hand_over (s.slots i).state = { (s.slots i).state with rax := exit_code } ∧
      s.select.reap_idx = some z := by
  obtain ⟨_, hbind, hexit⟩ := h
  obtain ⟨target_pid, htarget, hidx⟩ := Option.bind_eq_some_iff.mp hbind
  obtain ⟨hover, hreap⟩ := hchosen.own hi htarget
  rw [hover, hreap, exit_code_of, hidx, Option.bind_some, hexit]
  exact ⟨rfl, rfl⟩

/-! ## The sleeper -/

theorem wait_for_sleeps {target_pid : UInt64} (hptr : s.curr_proc = some k)
    (h : (s.wait_for target_pid).1 = none) :
    ((s.wait_for target_pid).2.slots k).status = .WaitingFor target_pid := by
  rcases wait_for_cases s target_pid with ⟨i, _, _, hexit, heq⟩ | ⟨_, heq⟩ | ⟨_, _, heq⟩
  · rw [heq] at h
    change (s.slots i).exit_code = none at h
    rw [h] at hexit
    cases hexit
  · rw [heq] at h
    cases h
  · rw [heq]
    simp only [sleep, current_proc_mut, hptr]
    exact congrArg Process.status (setSlot_same s k _)

/-- A call of `waitpid(-1)` that does not return sleeps on the child picked. -/
theorem waitpid_sleeps_on_picked (hptr : s.curr_proc = some k)
    (h : (s.waitpid 0xFFFFFFFFFFFFFFFF).1 = none) : ∃ target_pid, s.picked = some target_pid ∧
      ((s.waitpid 0xFFFFFFFFFFFFFFFF).2.slots k).status = .WaitingFor target_pid := by
  unfold waitpid at h ⊢
  unfold picked
  simp only [if_true] at h ⊢
  split at h
  · rename_i i hpos
    have hpass := (position_spec hpos).2
    simp only [Bool.and_eq_true] at hpass
    change (s.slots i).exit_code = none at h
    rw [h] at hpass
    cases hpass.2
  · split at h
    · rename_i i hchild
      rw [hchild]
      exact ⟨_, rfl, wait_for_sleeps hptr h⟩
    · cases h

/-- The current process of `s0` calls `waitpid(-1)` and goes to sleep. Some moves
later an event calls `schedule` in `s` with `ctx`; there it is entry `i`, and it
still sleeps. -/
structure Suspended (s0 s : System) (ctx : ProcessState) (i : Nat) : Prop where
  called : (s0.waitpid 0xFFFFFFFFFFFFFFFF).1 = none
  caller : s0.Denotes
  run : ∃ s1 e, (s0.waitpid 0xFFFFFFFFFFFFFFFF).2.Moves s1 ∧ s1.scheduled e = some (s, ctx)
  entry : i < s.len ∧ (s.slots i).pid = s0.curr_pid
  asleep : ∀ k ∈ s0.curr_proc,
    (s.slots i).status = ((s0.waitpid 0xFFFFFFFFFFFFFFFF).2.slots k).status

/-- Entry `z` is a child of entry `i`. -/
def IsChild (s : System) (i z : Nat) : Prop :=
  z < s.len ∧ (s.slots z).parent_pid = (s.slots i).pid

theorem Suspended.target (h : Suspended s0 s ctx i) :
    ∃ target_pid, s0.picked = some target_pid ∧ (s.slots i).status = .WaitingFor target_pid := by
  obtain ⟨k, hptr, _⟩ := h.caller
  obtain ⟨target_pid, hpicked, hst⟩ := waitpid_sleeps_on_picked hptr h.called
  exact ⟨target_pid, hpicked, (h.asleep k hptr).trans hst⟩

/-- The child that the call picked is in the table, it has exited, and it still is a
child of entry `i`. -/
def PickedExited (s0 s : System) (i : Nat) : Prop :=
  ∃ target_pid ∈ s0.picked, ∃ z, s.target_idx target_pid = some z ∧
    (s.slots z).parent_pid = (s.slots i).pid ∧ (s.slots z).exit_code.isSome = true

/-- The sleeper competes for the exit code of a child exactly when the child picked has
exited. -/
theorem Suspended.offers_iff (h : Suspended s0 s ctx i) :
    (∃ z exit_code, s.IsChild i z ∧ (s.save_current ctx).Offers i z exit_code) ↔
      PickedExited s0 s i := by
  obtain ⟨target_pid, hpicked, hst⟩ := h.target
  have hslot := save_current_waiter hst ctx
  have hidx := (samePids_save_current s ctx).target_idx target_pid
  have hbind : ((s.save_current ctx).slots i).status.target.bind (s.save_current ctx).target_idx =
      s.target_idx target_pid := by
    rw [hslot, hst]
    exact hidx
  constructor
  · rintro ⟨z, exit_code, hchild, _, hz, hexit⟩
    rw [save_current_exit_code] at hexit
    refine ⟨target_pid, hpicked, z, hbind.symm.trans hz, hchild.2, ?_⟩
    rw [hexit]
    rfl
  · rintro ⟨target_pid', hpicked', z, hz, hparent, hexit⟩
    cases hpicked.symm.trans hpicked'
    obtain ⟨exit_code, hcode⟩ := Option.isSome_iff_exists.mp hexit
    have hcode1 : ((s.save_current ctx).slots z).exit_code = some exit_code :=
      (save_current_exit_code s ctx z).trans hcode
    refine ⟨z, exit_code, ⟨(position_spec hz).1, hparent⟩, ?_, hbind.trans hz, hcode1⟩
    unfold CanRun
    rw [hslot, hst]
    change (s.save_current ctx).wakes target_pid = true
    unfold wakes
    rw [hidx, hz, Option.bind_some, hcode1]
    rfl

/-- In every run from boot, the next call of `schedule` lets a process that sleeps in
`waitpid(-1)` compete for the exit code of an exited child exactly when the child that
the call picked has exited; and when such a sleeper wins, the call returns that code. -/
theorem any_child_wakes_iff {b s0 s : System} (hboot : Booted b) (hrun : b.Moves s0)
    {ctx : ProcessState} {i : Nat} (hsleep : Suspended s0 s ctx i) :
    ((∃ z exit_code, s.IsChild i z ∧ (s.save_current ctx).Offers i z exit_code) ↔
      PickedExited s0 s i) ∧
    ∀ z exit_code, (s.save_current ctx).Offers i z exit_code → (s.save_current ctx).Chosen i →
      (s.schedule ctx).1 =
        some ((s.slots i).pid, (s.slots i).cr3, { (s.slots i).state with rax := exit_code }) := by
  refine ⟨hsleep.offers_iff, ?_⟩
  intro z exit_code hoffers hchosen
  have h0 := orderly_of_moves (kmain_orderly hboot) hrun
  obtain ⟨s1, e, hrun1, hsched⟩ := hsleep.run
  have hwait := h0.react (e := .call (.waitpid 0xFFFFFFFFFFFFFFFF)) rfl
  have h1 : Orderly s := (orderly_of_moves hwait hrun1).scheduled hsched
  obtain ⟨hi, _⟩ := hsleep.entry
  have hsel := (selected_iff h1.slice).mpr ⟨hi, hchosen⟩
  obtain ⟨target_pid, _, hst⟩ := hsleep.target
  rw [(schedule_selected hsel).2.2, (hoffers.chosen (by rw [save_current_len]; exact hi) hchosen).1,
    save_current_waiter hst]

/-! ## Init with two children -/

/-- Init forks processes 2 and 3. -/
def two_children : List Move := [.event (.call (.fork true)), .event (.call (.fork true))]

def with_children : System := (bootedKernel.moves two_children).getD bootedKernel

/-- Init sleeps in `waitpid(-1)`. -/
def init_sleeps : System := (with_children.waitpid 0xFFFFFFFFFFFFFFFF).2

/-- Process 2 is killed by a fault. -/
def first_exits : List Move := [.event (.call (.schedule {})), .event .fault]

/-- Process 2 forks process 4 and waits for it, and then process 3 exits. -/
def second_exits : List Move :=
  [.event (.call (.schedule {})), .event (.call (.fork true)), .event (.call (.waitpid 4)),
    .event (.call (.schedule {})), .event (.call (.exit 7 .zeroed))]

/-- Init is still asleep in slot 1 when the timer calls `schedule` after `ms`. -/
theorem suspended_after {ms : List Move} (hrun : init_sleeps.moves ms = some s)
    (hentry : 1 < s.len ∧ (s.slots 1).pid = 1) (hst : (s.slots 1).status = .WaitingFor 2) :
    Suspended with_children s {} 1 where
  called := by decide +kernel
  caller := ⟨1, by decide +kernel, by decide +kernel, by decide +kernel⟩
  run := ⟨s, .call (.schedule {}), moves_of_list hrun, rfl⟩
  entry := ⟨hentry.1, hentry.2.trans (by decide +kernel)⟩
  asleep := by
    intro k hk
    have hptr : with_children.curr_proc = some 1 := by decide +kernel
    cases hptr.symm.trans hk
    rw [hst]
    decide +kernel

/-- The child picked is killed: init competes for its exit code. -/
theorem init_competes_for_the_first_child :
    ∃ s, init_sleeps.moves first_exits = some s ∧ Suspended with_children s {} 1 ∧
      ∃ z exit_code, s.IsChild 1 z ∧ (s.save_current {}).Offers 1 z exit_code := by
  have hrun := eq_some_getD (o := init_sleeps.moves first_exits) (by decide +kernel) bootedKernel
  have hsleep := suspended_after hrun (by decide +kernel) (by decide +kernel)
  have hmoves : bootedKernel.Moves with_children :=
    moves_of_list (eq_some_getD (by decide +kernel) bootedKernel)
  refine ⟨_, hrun, hsleep, (any_child_wakes_iff booted_bootedKernel hmoves hsleep).1.mpr ?_⟩
  exact ⟨2, by decide +kernel, 2, by decide +kernel, by decide +kernel, by decide +kernel⟩

/-- Process 3 has exited, it is a child of init and not reaped, and init sleeps on. -/
theorem init_sleeps_on_after_the_second_child :
    ∃ s, init_sleeps.moves second_exits = some s ∧ Suspended with_children s {} 1 ∧
      (s.IsChild 1 3 ∧ (s.slots 3).exit_code = some 7) ∧ ¬(s.save_current {}).CanRun 1 := by
  have hrun := eq_some_getD (o := init_sleeps.moves second_exits) (by decide +kernel) bootedKernel
  refine ⟨_, hrun, suspended_after hrun (by decide +kernel) (by decide +kernel), ?_, ?_⟩
  · exact ⟨⟨by decide +kernel, by decide +kernel⟩, by decide +kernel⟩
  · decide +kernel

end System

end zenos_kernel.process
