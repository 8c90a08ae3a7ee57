-- A process that waits for a flag. `block_current_process` marks it, and
-- `schedule` passes over it while the flag is true. The call that switches
-- away from the process is the exception: it saves the context, and saving
-- makes the process ready again.
import Zenos.Process.CurrentProcess

namespace zenos_kernel.process

namespace System

variable (s : System) (current_state : ProcessState)

/-- `block_current_process`. The source holds two versions of the body, one
that looks for the pid and one that follows the pointer; this is the second. -/
def block_current_process (lock : Nat) : System :=
  match s.current_proc_mut with
  | some k => s.setSlot k { s.slots k with status := .Blocked lock }
  | none => s

/-- A store to the flag at address `lock`. -/
def store (lock : Nat) (value : Bool) : System :=
  { s with flags := fun a => if a = lock then value else s.flags a }

/-- What can happen to the statuses of the table. -/
inductive Move
  | event (e : Event)
  | block (lock : Nat)
  | store (lock : Nat) (value : Bool)

def move : Move → Option System
  | .event e => s.react e
  | .block lock => some (s.block_current_process lock)
  | .store lock value => some (s.store lock value)

/-- A run of calls, faults, blocks and stores. -/
def Moves : System → System → Prop := Relation.ReflTransGen (fun s s' => ∃ m, s.move m = some s')

/-- The entry that `schedule` dispatches: `best_idx` after the scan. -/
def selected : Option Nat :=
  if s.sched.quantum ≥ s.sched.time then (s.save_current current_state).select.best_idx else none

/-! ## What should hold of one call -/

/-- No entry that waits for a true flag is dispatched, and none gets another
status. -/
def KeepsBlocked : Prop :=
  ∀ i < s.len, ∀ lock, (s.slots i).status = .Blocked lock → s.flags lock = true →
    s.selected current_state ≠ some i ∧
      ∀ j < (s.schedule current_state).2.len,
        ((s.schedule current_state).2.slots j).pid = (s.slots i).pid →
          ((s.schedule current_state).2.slots j).status = .Blocked lock

/-- An entry whose flag is false competes in the scan, and it is dispatched
when the scan prefers it. -/
def OffersUnblocked : Prop :=
  ∀ i < s.len, ∀ lock, (s.slots i).status = .Blocked lock → s.flags lock = false →
    (s.save_current current_state).CanRun i ∧
      ((s.save_current current_state).Chosen i → s.selected current_state = some i)

/-- The current process of the scheduler does not wait for a true flag. A
zombie that the same call removes is no exception to worry about. -/
def CurrentNotBlocked : Prop :=
  ∀ i < s.len, s.sched.current_pid = some (s.slots i).pid →
    ∀ lock, (s.slots i).status = .Blocked lock → s.flags lock = true →
      (s.save_current current_state).Reaps i ∧ ¬(s.save_current current_state).Chosen i

/-! ## The state that is saved -/

/-- The entry that `save_current` makes ready. -/
def IsSaved (i : Nat) : Prop :=
  s.sched.current_pid = some (s.slots i).pid ∧
    ((s.slots i).status = .Running ∨ ∃ lock, (s.slots i).status = .Blocked lock)

variable {i j : Nat} {s s' : System} {e : Event}

theorem position_pid (h : Numbered s) (hi : i < s.len) :
    s.position (fun p => p.pid == (s.slots i).pid) = some i := by
  cases hpos : s.position (fun p => p.pid == (s.slots i).pid) with
  | none =>
    have := position_none hpos hi
    simp at this
  | some j =>
    obtain ⟨hj, hpid⟩ := position_spec hpos
    rw [h.distinct j hj i hi (by simpa using hpid)]

theorem save_current_of_saved (h : Numbered s) (hi : i < s.len) (hsaved : s.IsSaved i)
    (ctx : ProcessState) : (s.save_current ctx).slots i = (s.slots i).save_context ctx := by
  unfold save_current
  rw [hsaved.1]
  dsimp only
  rw [position_pid h hi]
  dsimp only
  rcases hsaved.2 with hst | ⟨lock, hst⟩
  · rw [hst]
    exact setSlot_same s i _
  · rw [hst]
    exact setSlot_same s i _

theorem save_current_of_not_saved (hsaved : ¬ s.IsSaved i) (ctx : ProcessState) :
    (s.save_current ctx).slots i = s.slots i := by
  rcases s.save_current_cases ctx with h | ⟨j, hpid, hst, h⟩
  · rw [h]
  · rw [h]
    refine setSlot_other s _ ?_
    rintro rfl
    exact hsaved ⟨hpid, hst⟩

@[simp] theorem save_current_len (s : System) (ctx : ProcessState) :
    (s.save_current ctx).len = s.len := (samePids_save_current s ctx).len

theorem save_current_flags (s : System) (ctx : ProcessState) :
    (s.save_current ctx).flags = s.flags := by
  obtain ⟨slots, h⟩ := s.save_current_rest ctx
  rw [h]

theorem save_current_sched (s : System) (ctx : ProcessState) :
    (s.save_current ctx).sched = s.sched := by
  obtain ⟨slots, h⟩ := s.save_current_rest ctx
  rw [h]

/-! ## The entries after a dispatch -/

/-- Entry `i` of the table once `best` runs. -/
def running_entry (s : System) (best i : Nat) : Process :=
  if i = best then s.select.running (s.slots best) else s.slots i

/-- The entries of `s'` are those of `s` that `keep` names, in their order and as `entry`
has them. -/
def Filters (s s' : System) (entry : Nat → Process) (keep : Nat → Prop) : Prop :=
  ∃ f : Nat → Nat, (∀ j k, j < k → f j < f k) ∧ (∀ j < s'.len, s'.slots j = entry (f j)) ∧
    ∀ i, (∃ j < s'.len, f j = i) ↔ i < s.len ∧ keep i

theorem Filters.comes_from {entry : Nat → Process} {keep : Nat → Prop}
    (h : Filters s s' entry keep) (hj : j < s'.len) : ∃ i < s.len, s'.slots j = entry i ∧ keep i := by
  obtain ⟨f, _, hslots, hkept⟩ := h
  obtain ⟨hi, hkeep⟩ := (hkept (f j)).mp ⟨j, hj, rfl⟩
  exact ⟨f j, hi, hslots j hj, hkeep⟩

/-- A dispatch removes the zombie and nobody else. -/
theorem filters_dispatch (s : System) (best : Nat) :
    Filters s (s.dispatch s.select best) (s.running_entry best) (fun i => ¬s.Reaps i) := by
  simp only [← select_reap_iff]
  rw [dispatch_eq]
  cases hreap : s.select.reap_idx with
  | none =>
    refine ⟨id, fun _ _ h => h, fun _ _ => rfl, fun i => ?_⟩
    change (∃ j < s.len, j = i) ↔ _
    simp
  | some z =>
    have hz := (select_reap_iff.mp hreap).dispatched.1
    refine ⟨fun j => if z ≤ j then j + 1 else j, ?_, ?_, ?_⟩
    · intro j k hjk
      dsimp only
      split <;> split <;> omega
    · intro j hj
      exact remove_slots (s.make_current s.select best) hj
    intro i
    change (∃ j < s.len - 1, (if z ≤ j then j + 1 else j) = i) ↔ _
    simp only [Option.some.injEq]
    constructor
    · rintro ⟨j, hj, rfl⟩
      split <;> omega
    · rintro ⟨hi, hne⟩
      refine ⟨if z ≤ i then i - 1 else i, ?_, ?_⟩
      · split <;> omega
      · by_cases hle : z ≤ i
        · rw [if_pos hle, if_pos (by omega)]
          omega
        · rw [if_neg hle, if_neg hle]

/-! ## One call -/

theorem running_entry_pid (s : System) (best i : Nat) :
    (s.running_entry best i).pid = (s.slots i).pid := by
  unfold running_entry
  split
  · rename_i h
    rw [h]
    rfl
  · rfl

/-- A call that dispatches entry `i`. -/
theorem schedule_selected {ctx : ProcessState} (hsel : s.selected ctx = some i) :
    i < s.len ∧ (s.save_current ctx).Chosen i ∧ s.schedule ctx =
      (some ((s.slots i).pid, ((s.save_current ctx).slots i).cr3,
        (s.save_current ctx).select.hand_over ((s.save_current ctx).slots i).state),
      (s.save_current ctx).dispatch (s.save_current ctx).select i) := by
  unfold selected at hsel
  split at hsel
  · rename_i hslice
    obtain ⟨hi, hchosen⟩ := select_best_iff.mp hsel
    refine ⟨by rwa [save_current_len] at hi, hchosen, ?_⟩
    unfold schedule
    rw [if_pos hslice]
    dsimp only
    rw [if_neg (by omega), hsel, ← (samePids_save_current s ctx).pid]
    unfold Pick.hand_over
    cases (s.save_current ctx).select.wake_idx <;> rfl
  · cases hsel

section

variable (hslice : s.sched.time ≤ s.sched.quantum) {ctx : ProcessState}

include hslice

theorem selected_of_slice (ctx : ProcessState) :
    s.selected ctx = (s.save_current ctx).select.best_idx := by
  unfold selected
  rw [if_pos hslice]

/-- The entry that is dispatched is the one that `Chosen` describes. -/
theorem selected_iff : s.selected ctx = some i ↔ i < s.len ∧ (s.save_current ctx).Chosen i := by
  rw [selected_of_slice hslice, select_best_iff, save_current_len]

/-- A call that finds nobody. -/
theorem schedule_idle (hlen : s.len ≠ 0) (hsel : s.selected ctx = none) : s.schedule ctx =
      (some (0, s.cr3, (s.save_current ctx).idle_state ctx.fxsave), s.save_current ctx) := by
  have hcr3 : (s.save_current ctx).cr3 = s.cr3 := by
    obtain ⟨slots, h⟩ := s.save_current_rest ctx
    rw [h]
  rw [selected_of_slice hslice] at hsel
  unfold schedule
  rw [if_pos hslice]
  dsimp only
  rw [if_neg (by rw [save_current_len]; exact hlen), hcr3, hsel]

theorem schedule_some (hlen : s.len ≠ 0)
    (ctx : ProcessState) : ∃ pid cr3 state s', s.schedule ctx = (some (pid, cr3, state), s') := by
  cases hsel : s.selected ctx with
  | none => exact ⟨_, _, _, _, schedule_idle hslice hlen hsel⟩
  | some i => exact ⟨_, _, _, _, (schedule_selected hsel).2.2⟩

/-- Entry `i` after a call of `schedule`. -/
def scheduled_entry (s : System) (ctx : ProcessState) (i : Nat) : Process :=
  if s.selected ctx = some i then (s.save_current ctx).select.running ((s.save_current ctx).slots i)
  else (s.save_current ctx).slots i

omit hslice in
theorem scheduled_entry_pid (s : System) (ctx : ProcessState) (i : Nat) :
    (s.scheduled_entry ctx i).pid = (s.slots i).pid := by
  unfold scheduled_entry
  split <;> exact (samePids_save_current s ctx).pid i

theorem schedule_empty (hlen : s.len = 0)
    (ctx : ProcessState) : s.schedule ctx = (none, s.save_current ctx) := by
  unfold schedule
  rw [if_pos hslice]
  rw [if_pos (by rw [save_current_len]; exact hlen)]

end

section

variable (hslice : s.sched.time ≤ s.sched.quantum)

include hslice

/-- A call removes the zombie and nobody else. -/
theorem filters_schedule (ctx : ProcessState) :
    Filters s (s.schedule ctx).2 (s.scheduled_entry ctx) (fun i => ¬(s.save_current ctx).Reaps i) := by
  have hlen := save_current_len s ctx
  cases hsel : s.selected ctx with
  | none =>
    have hs : (s.schedule ctx).2 = s.save_current ctx := by
      by_cases h0 : s.len = 0
      · rw [schedule_empty hslice h0]
      · rw [schedule_idle hslice h0 hsel]
    rw [hs]
    refine ⟨id, fun _ _ h => h, fun j _ => ?_, fun i => ?_⟩
    · simp [scheduled_entry, hsel]
    · have hno : ¬(s.save_current ctx).Reaps i := fun hz =>
        hz.dispatched.2 ((selected_of_slice hslice ctx).symm.trans hsel)
      simp [hno]
  | some best =>
    rw [(schedule_selected hsel).2.2]
    obtain ⟨f, hf, hslots, hkept⟩ := filters_dispatch (s.save_current ctx) best
    rw [hlen] at hkept
    refine ⟨f, hf, fun j hj => (hslots j hj).trans ?_, hkept⟩
    unfold scheduled_entry running_entry
    rw [hsel]
    by_cases hi : f j = best
    · rw [if_pos hi, hi, if_pos rfl]
    · rw [if_neg hi, if_neg fun heq => hi (Option.some.inj heq).symm]

/-- Every entry after a call was an entry before, and it is not the zombie. -/
theorem schedule_comes_from (ctx : ProcessState) (hj : j < (s.schedule ctx).2.len) :
    ∃ i < s.len, (s.schedule ctx).2.slots j = s.scheduled_entry ctx i ∧
      ¬(s.save_current ctx).Reaps i := (filters_schedule hslice ctx).comes_from hj

/-- Every entry but the zombie is still there after a call. -/
theorem schedule_goes_to (hi : i < s.len) (ctx : ProcessState)
    (hreap : ¬(s.save_current ctx).Reaps i) :
    ∃ j < (s.schedule ctx).2.len, (s.schedule ctx).2.slots j = s.scheduled_entry ctx i := by
  obtain ⟨f, _, hslots, hkept⟩ := filters_schedule hslice ctx
  obtain ⟨j, hj, rfl⟩ := (hkept i).mpr ⟨hi, hreap⟩
  exact ⟨j, hj, hslots j hj⟩

variable (h : Numbered s)

include h

/-- What is left of an entry that is not dispatched has the status that `save_current`
gave it, and it was not removed. -/
theorem comes_from_schedule (hi : i < s.len) (ctx : ProcessState) (hsel : s.selected ctx ≠ some i)
    (hj : j < (s.schedule ctx).2.len) (hpid : ((s.schedule ctx).2.slots j).pid = (s.slots i).pid) :
    (s.schedule ctx).2.slots j = (s.save_current ctx).slots i ∧ ¬(s.save_current ctx).Reaps i := by
  obtain ⟨i', hi', hslot, hreap⟩ := schedule_comes_from hslice ctx hj
  rw [hslot, scheduled_entry_pid] at hpid
  obtain rfl := h.distinct i' hi' i hi hpid
  exact ⟨hslot.trans (if_neg hsel), hreap⟩

/-- A call of `schedule` leaves the blocked processes alone exactly when the
current process is not one of them. -/
theorem keepsBlocked_iff (ctx : ProcessState) : s.KeepsBlocked ctx ↔ s.CurrentNotBlocked ctx := by
  have hselected : ∀ i < s.len, (s.selected ctx = some i ↔ (s.save_current ctx).Chosen i) := by
    intro i hi
    rw [selected_iff hslice]
    exact and_iff_right hi
  constructor
  · intro hkeeps i hi hcurr lock hst hflag
    obtain ⟨hsel, hafter⟩ := hkeeps i hi lock hst hflag
    refine ⟨?_, fun hchosen => hsel ((hselected i hi).mpr hchosen)⟩
    -- the entry is ready now, so it can only be gone
    by_contra hreap
    obtain ⟨j, hj, hentry⟩ := schedule_goes_to hslice hi ctx hreap
    have hslot := hentry.trans (if_neg hsel)
    have hready := save_current_of_saved h hi ⟨hcurr, Or.inr ⟨lock, hst⟩⟩ ctx
    have hblocked := hafter j hj (by rw [hslot, (samePids_save_current s ctx).pid])
    rw [hslot, hready] at hblocked
    cases hblocked
  · intro hcond i hi lock hst hflag
    by_cases hcurr : s.sched.current_pid = some (s.slots i).pid
    · obtain ⟨hreap, hchosen⟩ := hcond i hi hcurr lock hst hflag
      have hsel : s.selected ctx ≠ some i := fun hsel => hchosen ((hselected i hi).mp hsel)
      refine ⟨hsel, ?_⟩
      intro j hj hpid
      exact absurd hreap (comes_from_schedule hslice h hi ctx hsel hj hpid).2
    have hslot := save_current_of_not_saved (fun hsaved => hcurr hsaved.1) ctx
    have hsel : s.selected ctx ≠ some i := by
      intro hsel
      have hrun := ((hselected i hi).mp hsel).1
      unfold CanRun at hrun
      rw [hslot, hst] at hrun
      change (s.save_current ctx).flags lock = false at hrun
      rw [save_current_flags, hflag] at hrun
      cases hrun
    refine ⟨hsel, ?_⟩
    intro j hj hpid
    rw [(comes_from_schedule hslice h hi ctx hsel hj hpid).1, hslot]
    exact hst

/-- Once the flag is false the process competes again. -/
theorem offersUnblocked (ctx : ProcessState) : s.OffersUnblocked ctx := by
  intro i hi lock hst hflag
  constructor
  · unfold CanRun
    by_cases hsaved : s.IsSaved i
    · rw [save_current_of_saved h hi hsaved]
      trivial
    · rw [save_current_of_not_saved hsaved, hst]
      change (s.save_current ctx).flags lock = false
      rw [save_current_flags]
      exact hflag
  · intro hchosen
    exact (selected_iff hslice).mpr ⟨hi, hchosen⟩

end

/-! ## Every run -/

/-- The pids are distinct, and the time slice is not used up. -/
structure Orderly (s : System) : Prop where
  numbered : Numbered s
  slice : s.sched.time ≤ s.sched.quantum

section

variable (h : Orderly s)

include h

theorem Orderly.of_same (hsame : SamePids s s') (hsched : s'.sched = s.sched) : Orderly s' :=
  ⟨hsame.numbered h.numbered, by rw [hsched]; exact h.slice⟩

theorem Orderly.force_reschedule : Orderly s.force_reschedule :=
  ⟨⟨h.numbered.distinct, h.numbered.below⟩, Nat.le_refl _⟩

theorem Orderly.schedule (ctx : ProcessState) : Orderly (s.schedule ctx).2 := by
  have hsave := h.of_same (samePids_save_current s ctx) (save_current_sched s ctx)
  unfold System.schedule
  rw [if_pos h.slice]
  dsimp only
  split
  · exact hsave
  · split
    · exact hsave
    · rename_i best hbest
      refine ⟨(leaves_dispatch hsave.numbered hbest).1, ?_⟩
      exact Nat.zero_le _

theorem Orderly.mark_exited (k : Nat) (code : UInt64) :
    Orderly (s.mark_exited k code) := h.of_same (samePids_mark_exited s k code) rfl

theorem Orderly.scheduled {s1 : System} {ctx : ProcessState}
    (hs : s.scheduled e = some (s1, ctx)) : Orderly s1 := by
  unfold System.scheduled at hs
  split at hs
  · cases hs
    exact h
  · split at hs
    · cases hs
    · split at hs
      · cases hs
      · cases hs
        exact (h.mark_exited _ _).force_reschedule
  all_goals cases hs

theorem Orderly.react (hs : s.react e = some s') : Orderly s' := by
  have hsched : ∀ {s1 ctx}, s.scheduled e = some (s1, ctx) → Orderly s' := by
    intro s1 ctx hcall
    obtain ⟨cr3, rfl⟩ := react_scheduled hs hcall
    exact ((h.scheduled hcall).schedule ctx).of_same ⟨rfl, fun _ => rfl, rfl⟩ rfl
  cases e with
  | fault =>
    rcases page_fault_cases hs with rfl | ⟨k, _, _, rfl⟩
    · exact h
    · exact (h.mark_exited k 0xFFFFFFFFFFFFFFFF).force_reschedule
  | call a =>
    cases a with
    | fork cloned =>
      refine ⟨h.numbered.fork hs, ?_⟩
      rcases fork_cases hs with rfl | ⟨_, rfl | ⟨_, _, rfl⟩⟩ <;> exact h.slice
    | exec commandline argv envp image =>
      rcases exec_cases hs with rfl | ⟨k, p, _, hpid, _, _, rfl⟩
      · exact h
      · have hset := samePids_setSlot s k hpid
        exact ⟨SamePids.numbered ⟨hset.len, hset.pid, hset.next_pid⟩ h.numbered, h.slice⟩
    | exit rdi fpu =>
      rcases exit_cases hs with ⟨_, rfl⟩ | ⟨k, _, _, hcall⟩
      · exact h
      · exact hsched hcall
    | waitpid rdi =>
      simp only [System.react, step, Option.some.injEq] at hs
      subst hs
      rcases waitpid_ends s rdi with ⟨i, hi, _, heq⟩ | ⟨_, heq⟩ | ⟨target_pid, heq⟩
      · rw [heq]
        exact ⟨(moved_reap hi).numbered h.numbered, h.slice⟩
      · rw [heq]
        exact h
      · rw [heq]
        refine ⟨(samePids_sleep s target_pid).numbered h.numbered, ?_⟩
        unfold System.sleep
        split <;> exact Nat.le_refl _
    | schedule ctx => exact hsched rfl

theorem Orderly.block (lock : Nat) : Orderly (s.block_current_process lock) := by
  unfold block_current_process
  split
  · rename_i k _
    exact h.of_same (samePids_setSlot s k rfl) rfl
  · exact h

theorem Orderly.move {m : Move} (hs : s.move m = some s') : Orderly s' := by
  cases m with
  | block lock =>
    cases hs
    exact h.block lock
  | store lock value =>
    cases hs
    exact h.of_same ⟨rfl, fun _ => rfl, rfl⟩ rfl
  | event e => exact h.react hs

end

theorem orderly_of_moves {s0 : System} (h : Orderly s0) (hrun : s0.Moves s) : Orderly s := by
  induction hrun with
  | refl => exact h
  | tail _ hstep ih =>
    obtain ⟨m, hm⟩ := hstep
    exact ih.move hm

theorem kmain_orderly (h : Booted s) : Orderly s := by
  refine ⟨(kmain_denotes h).1, ?_⟩
  obtain ⟨_, _, _, _, _, h⟩ := h
  cases h
  exact Nat.zero_le _

/-! ## While a flag is true -/

/-- What is left of process `pid` waits for the flag at `lock`. -/
def WaitsOn (s : System) (pid : UInt64) (lock : Nat) : Prop :=
  ∀ i < s.len, (s.slots i).pid = pid → (s.slots i).status = .Blocked lock

/-- A call of `schedule`, a block of another process or a store, while the
flag at `lock` is true and stays true. -/
inductive Waiting (pid : UInt64) (lock : Nat) : System → System → Prop
  | schedule (s : System) (current_state : ProcessState) (hflag : s.flags lock = true)
      (hcurrent : s.CurrentNotBlocked current_state) :
      Waiting pid lock s (s.switch current_state)
  | block (s : System) (other : Nat) (hother : ∀ k ∈ s.curr_proc, (s.slots k).pid ≠ pid) :
      Waiting pid lock s (s.block_current_process other)
  | store (s : System) (other : Nat) (value : Bool) (hkeep : other = lock → value = true) :
      Waiting pid lock s (s.store other value)

theorem switch_slots (s : System) (ctx : ProcessState) :
    (s.switch ctx).slots = (s.schedule ctx).2.slots ∧ (s.switch ctx).len = (s.schedule ctx).2.len := by
  unfold switch
  split
  · rename_i heq
    rw [heq]
    exact ⟨rfl, rfl⟩
  · rename_i heq
    rw [heq]
    exact ⟨rfl, rfl⟩

theorem waitsOn_switch (h : Orderly s) {pid : UInt64} {lock : Nat} (hwaits : s.WaitsOn pid lock)
    (hflag : s.flags lock = true) {ctx : ProcessState} (hcurrent : s.CurrentNotBlocked ctx) :
    (s.switch ctx).WaitsOn pid lock := by
  intro j hj hpid
  rw [(switch_slots s ctx).1] at hpid ⊢
  rw [(switch_slots s ctx).2] at hj
  obtain ⟨i, hi, hslot, _⟩ := schedule_comes_from h.slice ctx hj
  have hij : ((s.schedule ctx).2.slots j).pid = (s.slots i).pid := by
    rw [hslot, scheduled_entry_pid]
  have hblocked := hwaits i hi (hij.symm.trans hpid)
  have hkeeps := (keepsBlocked_iff h.slice h.numbered ctx).mpr hcurrent
  exact (hkeeps i hi lock hblocked hflag).2 j hj hij

theorem waitsOn_step (h : Orderly s) {pid : UInt64} {lock : Nat} (hwaits : s.WaitsOn pid lock)
    (hstep : Waiting pid lock s s') : Orderly s' ∧ s'.WaitsOn pid lock := by
  cases hstep with
  | schedule ctx hflag hcurrent =>
    exact ⟨h.react (e := .call (.schedule ctx)) rfl, waitsOn_switch h hwaits hflag hcurrent⟩
  | store other value hkeep => exact ⟨h.of_same ⟨rfl, fun _ => rfl, rfl⟩ rfl, hwaits⟩
  | block other hother =>
    refine ⟨h.block other, ?_⟩
    intro i hi hpid
    unfold block_current_process at hi hpid ⊢
    cases hk : s.current_proc_mut with
    | none =>
      rw [hk] at hi hpid
      exact hwaits i hi hpid
    | some k =>
      rw [hk] at hi hpid
      by_cases hik : i = k
      · subst hik
        rw [setSlot_same] at hpid
        exact absurd hpid (hother i hk)
      · rw [setSlot_other s _ hik] at hpid ⊢
        exact hwaits i hi hpid

/-- In every run from boot, a call of `schedule` leaves the processes that
wait for a true flag alone exactly when the current process is not one of
them, it offers those whose flag is false, and a process keeps waiting over a
whole run of such calls. -/
theorem blocked_until_flag_clears {s0 s : System} (hboot : Booted s0) (hrun : s0.Moves s) :
    (∀ ctx, s.KeepsBlocked ctx ↔ s.CurrentNotBlocked ctx) ∧ (∀ ctx, s.OffersUnblocked ctx) ∧
      ∀ pid lock s', s.WaitsOn pid lock → Relation.ReflTransGen (Waiting pid lock) s s' →
        s'.WaitsOn pid lock := by
  have h := orderly_of_moves (kmain_orderly hboot) hrun
  refine ⟨keepsBlocked_iff h.slice h.numbered, offersUnblocked h.slice h.numbered, ?_⟩
  intro pid lock s' hwaits hsteps
  have hlater : Orderly s' ∧ s'.WaitsOn pid lock := by
    induction hsteps with
    | refl => exact ⟨h, hwaits⟩
    | tail _ hstep ih => exact waitsOn_step ih.1 ih.2 hstep
  exact hlater.2

/-! ## Runs on given moves -/

/-- The moves one after the other. -/
def moves (s : System) (ms : List Move) : Option System := ms.foldlM move s

theorem moves_of_list {ms : List Move} (h : s.moves ms = some s') : s.Moves s' :=
  Runs.steps_of_run (fun _ m _ h => ⟨m, h⟩) h

/-- The flag of `Stdin::read`. -/
def STDIN_BLOCKED : Nat := 0

/-- Init reads from an empty terminal: the flag is true, and init blocks. -/
def init_reads : List Move := [.store STDIN_BLOCKED true, .block STDIN_BLOCKED]

/-- The next timer tick makes init ready and dispatches it. -/
theorem schedule_runs_blocked_init :
    ∃ s, bootedKernel.moves init_reads = some s ∧ ¬ s.KeepsBlocked {} := by
  have hrun := eq_some_getD (o := bootedKernel.moves init_reads) (by decide +kernel) bootedKernel
  refine ⟨_, hrun, ?_⟩
  intro hkeeps
  have hkept := hkeeps 1 (by decide +kernel) STDIN_BLOCKED (by decide +kernel) (by decide +kernel)
  exact hkept.1 (by decide +kernel)

/-- Init forks process 2 and waits for it; process 2 reads from the terminal
and the keyboard answers before the tick. -/
def child_reads : List Move :=
  [.event (.call (.fork true)), .event (.call (.waitpid 2)), .event (.call (.schedule {})),
    .store STDIN_BLOCKED true, .block STDIN_BLOCKED, .store STDIN_BLOCKED false]

theorem child_is_offered :
    ∃ s, bootedKernel.moves child_reads = some s ∧
      (s.slots 2).status = .Blocked STDIN_BLOCKED ∧ s.OffersUnblocked {} := by
  have hrun := eq_some_getD (o := bootedKernel.moves child_reads) (by decide +kernel) bootedKernel
  refine ⟨_, hrun, by decide +kernel, ?_⟩
  exact (blocked_until_flag_clears booted_bootedKernel (moves_of_list hrun)).2.1 {}

end System

end zenos_kernel.process
