-- What a call of `schedule` is for: a best process runs, what a waiter is owed goes to
-- that waiter, and a process keeps the CPU for its quantum. The choice is right; the rest
-- depends on the table.
import Zenos.Process.Reaping

namespace zenos_kernel.process

namespace System

variable {s : System} {ctx : ProcessState} {b : Nat}

/-! ## The choice -/

/-- Entry `i` can win the scan. -/
def Competes (s : System) (i : Nat) : Prop := s.CanRun i ∧ (s.slots i).priority < 255

instance (s : System) (i : Nat) : Decidable (s.Competes i) := inferInstanceAs (Decidable (_ ∧ _))

theorem selected_none_iff (ctx : ProcessState) (hslice : s.sched.time ≤ s.sched.quantum) :
    s.selected ctx = none ↔ ∀ i < s.len, ¬(s.save_current ctx).Competes i := by
  rw [selected_of_slice hslice, select_none_iff, save_current_len]
  simp only [Competes, not_and]

/-- With a runnable process below priority 255 a best one is returned. Without one the
idle context is, and an entry that changes is the one saved. -/
theorem a_best_process_is_returned (hslice : s.sched.time ≤ s.sched.quantum) (hlen : s.len ≠ 0)
    (ctx : ProcessState) :
    ((∃ i < s.len, (s.save_current ctx).Competes i) → ∃ b < s.len, (s.save_current ctx).CanRun b ∧
        (∀ j < s.len, (s.save_current ctx).CanRun j →
          ((s.save_current ctx).slots b).priority ≤ ((s.save_current ctx).slots j).priority) ∧
        ∃ state, (s.schedule ctx).1 =
          some ((s.slots b).pid, ((s.save_current ctx).slots b).cr3, state)) ∧
    ((∀ i < s.len, ¬(s.save_current ctx).Competes i) →
      (s.schedule ctx).1 = some (0, s.cr3, (s.save_current ctx).idle_state ctx.fxsave) ∧
      (s.schedule ctx).2.len = s.len ∧ ∀ i, (s.schedule ctx).2.slots i ≠ s.slots i →
        s.IsSaved i ∧ ∀ j ≠ i, (s.schedule ctx).2.slots j = s.slots j) := by
  have hnone := selected_none_iff ctx hslice
  cases hsel : s.selected ctx with
  | none =>
    refine ⟨?_, fun _ => ?_⟩
    · rintro ⟨i, hi, hcompetes⟩
      exact absurd hcompetes (hnone.mp hsel i hi)
    rw [schedule_idle hslice hlen hsel]
    refine ⟨rfl, save_current_len s ctx, ?_⟩
    intro i hi
    rcases s.save_current_cases ctx with heq | ⟨k, hpid, hst, heq⟩
    · exact absurd (congrFun (congrArg slots heq) i) hi
    · rw [heq] at hi ⊢
      obtain rfl : i = k := by
        by_contra hne
        exact hi (setSlot_other s _ hne)
      exact ⟨⟨hpid, hst⟩, fun j hj => setSlot_other s _ hj⟩
  | some b =>
    obtain ⟨hb, hchosen, hs⟩ := schedule_selected hsel
    refine ⟨fun _ => ?_, ?_⟩
    · refine ⟨b, hb, hchosen.1, ?_, _, by rw [hs]⟩
      rw [← save_current_len s ctx]
      exact hchosen.2.2.2
    · intro hall
      cases (hnone.mpr hall).symm.trans hsel

/-- Process 1 waits for process 2, which has exited with 7, and process 3 is ready. -/
def waiter_and_ready (priority : UInt8) : System :=
  { bootedKernel with
    len := 3
    slots := fun i =>
      { bootedKernel.slots 1 with
        pid := UInt64.ofNat (i + 1)
        status := [.WaitingFor 2, .Exited, .Ready].getD i .Created
        exit_code := [none, some 7].getD i none
        priority := [20, 20].getD i priority } }

/-- Process 3 has the smaller number, so it is returned and not the waiter. -/
theorem the_ready_one_is_returned : ∃ cr3 state,
    ((waiter_and_ready 10).schedule {}).1 = some (3, cr3, state) := by
  obtain ⟨b, hb, _, hbest, state, h⟩ := (a_best_process_is_returned (s := waiter_and_ready 10)
    (by decide +kernel) (by decide +kernel) {}).1 ⟨2, by decide +kernel, by decide +kernel⟩
  have hle := hbest 2 (by decide +kernel) (by decide +kernel)
  have hall : ∀ b < 3, (((waiter_and_ready 10).save_current {}).slots b).priority ≤
      (((waiter_and_ready 10).save_current {}).slots 2).priority → b = 2 := by decide +kernel
  obtain rfl := hall b hb hle
  exact ⟨_, state, h⟩

/-! ## The waiters -/

/-- Entry `i` as it should be once `b` runs: a waiter has the exit code of its own target, or
`u64::MAX` when that is gone, and nobody else is touched. -/
def woken (s : System) (b i : Nat) : Process :=
  if i = b then
    { s.slots b with
      status := .Running
      state := { (s.slots b).state with
        rax := ((s.slots b).status.target.map s.exit_code_of).getD (s.slots b).state.rax } }
  else s.slots i

/-- Entry `b` runs, and of the other entries only the target that `b` waited for is gone. -/
def WakesOnly (s s' : System) (b : Nat) : Prop :=
  Filters s s' (s.woken b) (fun i => (s.slots b).status.target.bind s.target_idx ≠ some i)

/-- Where every entry is kept, each of them is at its place. -/
theorem Filters.all_kept {s' : System} {entry : Nat → Process} {keep : Nat → Prop}
    (h : Filters s s' entry keep) (hkeep : ∀ i, keep i) {i : Nat} (hi : i < s.len) :
    i < s'.len ∧ s'.slots i = entry i := by
  obtain ⟨f, hf, hslots, hkept⟩ := h
  have hle : ∀ j, j ≤ f j := by
    intro j
    induction j with
    | zero => exact Nat.zero_le _
    | succ j ih => exact Nat.lt_of_le_of_lt ih (hf j _ (Nat.lt_succ_self j))
  have hfixed : ∀ i < s.len, i < s'.len ∧ f i = i := by
    intro i
    induction i using Nat.strongRecOn with
    | _ i ih =>
      intro hi
      obtain ⟨j, hj, hji⟩ := (hkept i).mpr ⟨hi, hkeep i⟩
      rcases Nat.lt_trichotomy j i with hlt | rfl | hgt
      · have := (ih j hlt (by omega)).2
        omega
      · exact ⟨hj, hji⟩
      · have := hle j
        omega
  obtain ⟨hlt, hfi⟩ := hfixed i hi
  exact ⟨hlt, by rw [hslots i hlt, hfi]⟩

/-- A call that dispatches entry `b` hands over what `b` waited for, and removes its target,
exactly when `b` is a waiter, or when the scan removes nobody and has no value for `rax`
but the one that `b` has. -/
theorem only_the_waiter_is_woken_iff (hsel : s.selected ctx = some b) :
    WakesOnly (s.save_current ctx) (s.schedule ctx).2 b ↔
      ((s.save_current ctx).slots b).status.target.isSome = true ∨
      (∀ z, ¬(s.save_current ctx).Reaps z) ∧ ∀ exit_code, (s.save_current ctx).HandsOver exit_code →
        exit_code = ((s.save_current ctx).slots b).state.rax := by
  obtain ⟨hb, hchosen, hs⟩ := schedule_selected hsel
  rw [hs, ← hand_over_eq_iff]
  rw [← save_current_len s ctx] at hb
  generalize s.save_current ctx = t at hb hchosen
  have hfilters := filters_dispatch t b
  unfold WakesOnly
  cases htarget : (t.slots b).status.target with
  | some target_pid =>
    obtain ⟨hover, hreap⟩ := hchosen.own hb htarget
    refine iff_of_true ?_ (Or.inl rfl)
    have hentry : t.running_entry b = t.woken b := by
      funext i
      simp only [running_entry, woken, Pick.running, hover, htarget, Option.map_some,
        Option.getD_some]
    simp only [← select_reap_iff, hreap, hentry] at hfilters
    exact hfilters
  | none =>
    simp only [Option.isSome_none, Bool.false_eq_true, false_or]
    have hwoken : (t.woken b b).state = (t.slots b).state := by simp [woken, htarget]
    constructor
    · intro h
      have hkept := fun {i} => h.all_kept (i := i) (fun _ => nofun)
      have hnone : ∀ z, ¬t.Reaps z := by
        intro z hz
        have hlast := (hkept (i := t.len - 1) (by omega)).1
        rw [dispatch_eq, select_reap_iff.mpr hz] at hlast
        change t.len - 1 < t.len - 1 at hlast
        omega
      obtain ⟨hlt, hslot⟩ := hfilters.all_kept hnone hb
      have hstate := congrArg Process.state (hslot.symm.trans (hkept hb).2)
      rw [hwoken, running_entry, if_pos rfl] at hstate
      exact ⟨hnone, hstate⟩
    · rintro ⟨hnone, hstate⟩
      have hentry : t.running_entry b = t.woken b := by
        funext i
        simp only [running_entry, woken, Pick.running, hstate, htarget, Option.map_none,
          Option.getD_none]
      simp only [hentry, hnone, not_false_eq_true] at hfilters
      simpa using hfilters

/-- Process 3 is worse than the waiter. -/
theorem a_waiter_is_woken : (((waiter_and_ready 30).schedule {}).2.slots 0).state.rax = 7 ∧
    WakesOnly ((waiter_and_ready 30).save_current {}) ((waiter_and_ready 30).schedule {}).2 0 :=
  ⟨by decide +kernel,
    (only_the_waiter_is_woken_iff (by decide +kernel)).mpr (Or.inl (by decide +kernel))⟩

/-- Process 3 is better than the waiter. It gets the exit code, and process 2 goes. -/
theorem a_ready_process_gets_the_exit_code :
    (waiter_and_ready 10).selected {} = some 2 ∧
      (((waiter_and_ready 10).schedule {}).2.slots 1).pid = 3 ∧
      (((waiter_and_ready 10).schedule {}).2.slots 1).state.rax = 7 ∧
      ¬ WakesOnly ((waiter_and_ready 10).save_current {}) ((waiter_and_ready 10).schedule {}).2
        2 := by
  refine ⟨by decide +kernel, by decide +kernel, by decide +kernel, fun h => ?_⟩
  have htarget : (((waiter_and_ready 10).save_current {}).slots 2).status.target = none := by
    decide +kernel
  have hlt := (h.all_kept (i := 2) (by simp [htarget]) (by decide +kernel)).1
  exact absurd hlt (by decide +kernel)

/-! ## The time slice -/

/-- The system after `n` timer ticks that find the contexts `ctx`. -/
def ticks (s : System) (ctx : Nat → ProcessState) : Nat → System
  | 0 => s
  | n + 1 => (s.ticks ctx n).switch (ctx n)

/-- The process that tick `n` switches to. -/
def answer (s : System) (ctx : Nat → ProcessState) (n : Nat) : Option UInt64 :=
  ((s.ticks ctx n).schedule (ctx n)).1.map (·.1)

/-- The first `quantum` ticks of a slice leave the process alone and the next one switches;
after `force_reschedule` the next call does. -/
structure KeepsSlice (s : System) (ctx : Nat → ProcessState) : Prop where
  stays : ∀ n < s.sched.quantum, s.answer ctx n = none
  switches : s.answer ctx s.sched.quantum ≠ none
  forced : ∀ ctx, (s.force_reschedule.schedule ctx).1 ≠ none

/-- The first tick of a slice switches, so a slice is kept only when it has no tick. -/
theorem slice_is_kept_iff (hlen : s.len ≠ 0) (hstart : s.sched.time = 0)
    (ctx : Nat → ProcessState) : s.KeepsSlice ctx ↔ s.sched.quantum = 0 := by
  have hfirst : s.answer ctx 0 ≠ none := by
    obtain ⟨pid, cr3, state, s', hs⟩ := schedule_some (by omega) hlen (ctx 0)
    simp [answer, ticks, hs]
  constructor
  · intro h
    by_contra hq
    exact hfirst (h.stays 0 (Nat.pos_of_ne_zero hq))
  · intro hq
    refine ⟨?_, by rw [hq]; exact hfirst, fun ctx => ?_⟩
    · intro n hn
      omega
    · obtain ⟨pid, cr3, state, s', hs⟩ :=
        schedule_some (s := s.force_reschedule) (Nat.le_refl _) hlen ctx
      simp [hs]

theorem a_slice_of_no_ticks_is_kept :
    KeepsSlice { bootedKernel with sched.quantum := 0 } (fun _ => {}) :=
  (slice_is_kept_iff (by decide) rfl _).mpr rfl

/-- The quantum is 5, and the first tick takes the CPU from init. -/
theorem init_loses_its_slice : ¬bootedKernel.KeepsSlice (fun _ => {}) := by
  intro h
  exact absurd (h.stays 0 (by decide +kernel)) (by decide +kernel)

end System

end zenos_kernel.process
