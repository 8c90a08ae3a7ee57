-- Who gets the exit code of a process. `waitpid` reaps a zombie at once or goes to
-- sleep, and then the scheduler wakes the sleeper and reaps. Neither of them looks
-- at `parent_pid` when a pid was given, and the scheduler puts the code into `rax`
-- of whatever it dispatches.
import Zenos.Process.Reaping

namespace zenos_kernel.process

namespace System

/-! ## The condition -/

/-- The entry that is dispatched is the waiter that the zombie is reaped for, and it is
the parent of the zombie. -/
def ByParent (s : System) : Prop :=
  ∀ z < s.len, s.Reaps z → ∃ i < s.len, s.Chosen i ∧
    (s.slots i).status.target.bind s.target_idx = some z ∧
    (s.slots z).parent_pid = (s.slots i).pid

instance (s : System) : Decidable s.ByParent := inferInstanceAs (Decidable (∀ z < s.len, _))

/-- A `waitpid` with a pid names a child of the caller or nobody, and a call of
`schedule` reaps for the parent only. -/
def Regular (s : System) : Event → Prop
  | .call (.waitpid rdi) => rdi ≠ 0xFFFFFFFFFFFFFFFF →
      ∀ j < s.len, (s.slots j).pid = rdi → (s.slots j).parent_pid = s.curr_pid
  | e => ∀ a ∈ s.scheduled e, (a.1.save_current a.2).ByParent

/-- A `waitpid` that finds no zombie puts the caller to sleep, and nobody else. -/
def SleepsRight (s : System) : Event → Prop
  | .call (.waitpid rdi) => (∀ j < s.len, ¬s.Waited rdi j) → s.Denotes
  | _ => True

/-- The events of the table: all of them but `exec`. -/
def Plain : Event → Prop
  | .call (.exec _ _ _ _ _) => False
  | .call (.fork _) | .call (.exit _ _) | .call (.waitpid _) | .call (.schedule _) | .fault => True

/-! ## Histories -/

/-- A system with its past: `waiting` is the process that a `waitpid` in progress sleeps
on, by the pid of the caller, and `reaped` the processes that left the table, newest
first. -/
structure History where
  sys : System
  waiting : UInt64 → Option UInt64
  reaped : List UInt64

namespace History

/-- A `waitpid` that sleeps is in progress until its caller is dispatched. -/
def waits (h : History) : Event → UInt64 → Option UInt64
  | .call (.waitpid rdi), pid =>
    if (h.sys.waitpid rdi).1 = none ∧ pid = h.sys.curr_pid then h.sys.wait_target rdi
    else h.waiting pid
  | e, pid =>
    match h.sys.scheduled e with
    | none => h.waiting pid
    | some (s, ctx) =>
      if (s.selected ctx).map (fun b => (s.slots b).pid) = some pid then none else h.waiting pid

/-- The history after an event that leaves the system `s`. -/
def after (h : History) (e : Event) (s : System) : History :=
  { sys := s, waiting := h.waits e, reaped := gone (h.sys.before e) s ++ h.reaped }

/-- In this event a `waitpid` made by `caller` returns `value`: at once, or because the
scheduler dispatches the caller that was asleep in it. -/
def Returns (h : History) (e : Event) (caller value : UInt64) : Prop :=
  match e with
  | .call (.waitpid rdi) => h.sys.curr_pid = caller ∧ (h.sys.waitpid rdi).1 = some value
  | e => ∃ s ctx b, h.sys.scheduled e = some (s, ctx) ∧ s.selected ctx = some b ∧
      (s.slots b).pid = caller ∧ (h.waiting caller).isSome = true ∧
      ∃ cr3 state, (s.schedule ctx).1 = some (caller, cr3, state) ∧ state.rax = value

/-- What an event that leaves the system `s` has to do with the exit codes. -/
structure Faithful (h : History) (e : Event) (s : System) : Prop where
  /-- A process is reaped when its exit code is returned to its parent. -/
  delivered : ∀ z exit_code, Gone (h.sys.before e) s z →
    ((h.sys.before e).slots z).exit_code = some exit_code →
    h.Returns e ((h.sys.before e).slots z).parent_pid exit_code
  /-- One call returns at a time. -/
  one : ∀ caller value caller' value', h.Returns e caller value → h.Returns e caller' value' →
    caller = caller' ∧ value = value'
  /-- What it returns is the exit code of a process that is reaped, or an error. -/
  genuine : ∀ caller value, h.Returns e caller value →
    value ∈ [errno ESRCH, errno ECHILD, 0xFFFFFFFFFFFFFFFF] ∨
      ∃ z, Gone (h.sys.before e) s z ∧ ((h.sys.before e).slots z).exit_code = some value
  /-- A call that names no child of its caller fails and changes nothing. -/
  stranger : ∀ rdi, e = .call (.waitpid rdi) → rdi ≠ 0xFFFFFFFFFFFFFFFF →
    (∀ j < h.sys.len, (h.sys.slots j).pid = rdi → (h.sys.slots j).parent_pid ≠ h.sys.curr_pid) →
    (∃ e ∈ [ESRCH, ECHILD], (h.sys.waitpid rdi).1 = some (errno e)) ∧ s = h.sys

end History

/-! ## The sleepers -/

/-- The status of a process tells the `waitpid` that it sleeps in. -/
structure Follows (waiting : UInt64 → Option UInt64) (p : Process) : Prop where
  waits : ∀ target_pid, p.status = .WaitingFor target_pid → waiting p.pid = some target_pid
  asleep : ∀ target_pid, waiting p.pid = some target_pid →
    p.status = .WaitingFor target_pid ∨ p.status = .Exited

variable {p : Process} {waiting : UInt64 → Option UInt64} {s : System} {e : Event} {h : History}
  {ctx : ProcessState} {s1 : System}

theorem follows_of_exited (h : p.status = .Exited) : Follows waiting p where
  waits := by
    intro target_pid hst
    rw [h] at hst
    cases hst
  asleep := fun _ _ => Or.inr h

theorem follows_of_awake (h : waiting p.pid = none) (hst : p.status.target = none) :
    Follows waiting p where
  waits := by
    intro target_pid hw
    rw [hw] at hst
    cases hst
  asleep := by
    intro target_pid hw
    rw [h] at hw
    cases hw

theorem Follows.congr {waiting' : UInt64 → Option UInt64} {p' : Process} (h : Follows waiting p)
    (hpid : p'.pid = p.pid) (hst : p'.status = p.status) (hw : waiting' p.pid = waiting p.pid) :
    Follows waiting' p' where
  waits := by
    intro target_pid hp
    rw [hpid, hw]
    exact h.waits target_pid (hst.symm.trans hp)
  asleep := by
    intro target_pid hp
    rw [hpid, hw] at hp
    rw [hst]
    exact h.asleep target_pid hp

/-- A process that neither waits nor is a zombie is in no `waitpid`. -/
theorem Follows.awake (h : Follows waiting p) (hst : p.status.target = none)
    (hexit : p.status ≠ .Exited) : waiting p.pid = none := by
  cases hw : waiting p.pid with
  | none => rfl
  | some target_pid =>
    rcases h.asleep target_pid hw with hwaits | hexited
    · rw [hwaits] at hst
      cases hst
    · exact absurd hexited hexit

/-- All entries of a table. -/
def AllFollow (s : System) (waiting : UInt64 → Option UInt64) : Prop :=
  ∀ i < s.len, Follows waiting (s.slots i)

theorem AllFollow.mark_exited (h : s.AllFollow waiting) (k : Nat) (code : UInt64) :
    (s.mark_exited k code).AllFollow waiting := by
  intro i hi
  by_cases hik : i = k
  · subst hik
    refine follows_of_exited ?_
    rw [mark_exited_slots]
    exact if_pos rfl
  · refine (h i hi).congr ((samePids_mark_exited s k code).pid i) ?_ rfl
    rw [mark_exited_slots]
    exact if_neg hik

theorem AllFollow.save_current (h : s.AllFollow waiting) (hn : Numbered s) (ctx : ProcessState) :
    (s.save_current ctx).AllFollow waiting := by
  intro i hi
  rw [save_current_len] at hi
  by_cases hsaved : s.IsSaved i
  · have hready := save_current_of_saved hn hi hsaved ctx
    have hpid := (samePids_save_current s ctx).pid i
    refine follows_of_awake ?_ (by rw [hready]; rfl)
    rw [hpid]
    rcases hsaved.2 with hst | ⟨lock, hst⟩
    · exact (h i hi).awake (by rw [hst]; rfl) (by rw [hst]; simp)
    · exact (h i hi).awake (by rw [hst]; rfl) (by rw [hst]; simp)
  · rw [save_current_of_not_saved hsaved]
    exact h i hi

/-- The entry dispatched is in no `waitpid` any more. -/
theorem AllFollow.schedule (h : s.AllFollow waiting) (ho : Orderly s) (ctx : ProcessState) :
    (s.schedule ctx).2.AllFollow (fun pid =>
      if (s.selected ctx).map (fun b => (s.slots b).pid) = some pid then none
      else waiting pid) := by
  have h1 := h.save_current ho.numbered ctx
  intro j hj
  obtain ⟨i, hi, hslot, _⟩ := schedule_comes_from ho.slice ctx hj
  rw [hslot]
  have hpid := scheduled_entry_pid s ctx i
  by_cases hsel : s.selected ctx = some i
  · refine follows_of_awake ?_ ?_
    · rw [hpid, hsel, Option.map_some, if_pos rfl]
    · rw [scheduled_entry, if_pos hsel]
      rfl
  · have hentry : s.scheduled_entry ctx i = (s.save_current ctx).slots i := if_neg hsel
    refine (h1 i (by rw [save_current_len]; exact hi)).congr (by rw [hentry]) (by rw [hentry]) ?_
    rw [← hentry, hpid, if_neg]
    intro heq
    obtain ⟨b, hb, hbi⟩ := Option.map_eq_some_iff.mp heq
    rw [ho.numbered.distinct b ((selected_iff ho.slice).mp hb).1 i hi hbi] at hb
    exact hsel hb

/-- The caller is in its `waitpid` once it sleeps. -/
theorem AllFollow.sleep (h : s.AllFollow waiting) (hn : Numbered s) (hd : s.Denotes)
    (target_pid : UInt64) : (s.sleep target_pid).AllFollow
      (fun pid => if pid = s.curr_pid then some target_pid else waiting pid) := by
  obtain ⟨k, hk, hlt, hcurr⟩ := hd
  have hsleep : s.sleep target_pid =
      (s.setSlot k { s.slots k with status := .WaitingFor target_pid }).force_reschedule := by
    simp only [System.sleep, current_proc_mut, hk]
  rw [hsleep]
  intro i hi
  change Follows _ ((s.setSlot k { s.slots k with status := .WaitingFor target_pid }).slots i)
  by_cases hik : i = k
  · subst hik
    rw [setSlot_same]
    refine ⟨?_, ?_⟩
    · intro t ht
      cases ht
      exact if_pos hcurr
    · intro t ht
      left
      rw [if_pos hcurr] at ht
      cases ht
      rfl
  · rw [setSlot_other s _ hik]
    refine (h i hi).congr rfl rfl (if_neg ?_)
    intro hpid
    exact hik (hn.distinct i hi k hlt (hpid.trans hcurr.symm))

theorem AllFollow.reap (h : s.AllFollow waiting) {i : Nat} (hi : i < s.len) :
    (s.reap i).AllFollow waiting := by
  intro j hj
  change j < s.len - 1 at hj
  rw [reap_slots]
  exact h _ (by split <;> omega)

/-! ## The invariant -/

/-- What holds in every history in which the sleepers are the callers. -/
structure History.Kept (h : History) : Prop where
  orderly : Orderly h.sys
  follow : h.sys.AllFollow h.waiting
  fresh : ∀ pid, h.waiting pid ≠ none → pid.toNat < h.sys.next_pid.toNat
  left : ∀ pid ∈ h.reaped, pid.toNat < h.sys.next_pid.toNat ∧ ¬h.sys.HasPid pid
  once : h.reaped.Nodup

section

variable (hk : h.Kept)

include hk

/-- The processes that an event takes out of the table are new ones in the list. -/
theorem History.Kept.after (hs : h.sys.react e = some s) (hf : s.AllFollow (h.waits e))
    (hfresh : ∀ pid, h.waits e pid ≠ none → pid.toNat < s.next_pid.toNat)
    (hnext : h.sys.next_pid.toNat ≤ s.next_pid.toNat)
    (hpids : ∀ pid, s.HasPid pid → h.sys.HasPid pid ∨ pid = h.sys.next_pid) :
    (h.after e s).Kept where
  orderly := hk.orderly.move (m := .event e) hs
  follow := hf
  fresh := hfresh
  left := by
    intro pid hmem
    have hbefore := samePids_before h.sys e
    rcases List.mem_append.mp hmem with hgone | hold
    · obtain ⟨hhad, hno⟩ := hasPid_of_mem_gone hgone
      obtain ⟨j, hj, rfl⟩ := hbefore.hasPid.mp hhad
      exact ⟨Nat.lt_of_lt_of_le (hk.orderly.numbered.below j hj) hnext, hno⟩
    · obtain ⟨hlt, hno⟩ := hk.left pid hold
      refine ⟨Nat.lt_of_lt_of_le hlt hnext, fun hhas => ?_⟩
      rcases hpids pid hhas with hhad | rfl
      · exact hno hhad
      · exact Nat.lt_irrefl _ hlt
  once := by
    have hbefore := samePids_before h.sys e
    refine List.Nodup.append (nodup_gone (hbefore.numbered hk.orderly.numbered) s) hk.once ?_
    intro pid hgone hold
    exact (hk.left pid hold).2 (hbefore.hasPid.mp (hasPid_of_mem_gone hgone).1)

theorem History.Kept.after_scheduled (hs : h.sys.react e = some s)
    (hsched : h.sys.scheduled e = some (s1, ctx)) (hf : s1.AllFollow h.waiting) :
    (h.after e s).Kept := by
  have hsame := samePids_scheduled hsched
  have ho := hk.orderly.scheduled hsched
  have hwaits : h.waits e = fun pid =>
      if (s1.selected ctx).map (fun b => (s1.slots b).pid) = some pid then none
      else h.waiting pid := by
    funext pid
    unfold History.waits
    split
    · cases hsched
    · rw [hsched]
  obtain ⟨cr3, rfl⟩ := react_scheduled hs hsched
  have hpids : ∀ pid, HasPid (s1.schedule ctx).2 pid → h.sys.HasPid pid := by
    rintro pid ⟨j, hj, rfl⟩
    obtain ⟨i, hi, hslot, _⟩ := schedule_comes_from ho.slice ctx hj
    exact hsame.hasPid.mp ⟨i, hi, by rw [hslot, scheduled_entry_pid]⟩
  have hnext : (s1.schedule ctx).2.next_pid = h.sys.next_pid :=
    (schedule_next_pid s1 ctx).trans hsame.next_pid
  refine hk.after hs ?_ ?_ ?_ ?_
  · rw [hwaits]
    exact hf.schedule ho ctx
  · intro pid hw
    rw [hwaits] at hw
    rw [hnext]
    refine hk.fresh pid fun hnone => hw ?_
    simp [hnone]
  · exact Nat.le_of_eq (congrArg UInt64.toNat hnext.symm)
  · intro pid hhas
    exact Or.inl (hpids pid hhas)

theorem History.Kept.after_fork {cloned : Bool} (hs : h.sys.react (.call (.fork cloned)) = some s) :
    (h.after (.call (.fork cloned)) s).Kept := by
  obtain ⟨hnext, hold, hlen⟩ := fork_entries (s := h.sys) hs
  refine hk.after hs ?_ ?_ hnext ?_
  · intro i hi
    rcases hlen with hlen | ⟨hlen, hpid, hready, _⟩
    · rw [hlen] at hi
      rw [hold i hi]
      exact hk.follow i hi
    rw [hlen] at hi
    rcases Nat.lt_succ_iff_lt_or_eq.mp hi with hi' | rfl
    · rw [hold i hi']
      exact hk.follow i hi'
    · refine follows_of_awake ?_ (by rw [hready]; rfl)
      by_contra hw
      rw [hpid] at hw
      exact Nat.lt_irrefl _ (hk.fresh _ hw)
  · intro pid hw
    exact Nat.lt_of_lt_of_le (hk.fresh pid hw) hnext
  · rintro pid ⟨j, hj, rfl⟩
    rcases hlen with hlen | ⟨hlen, hpid, _⟩
    · rw [hlen] at hj
      exact Or.inl ⟨j, hj, by rw [hold j hj]⟩
    · rw [hlen] at hj
      rcases Nat.lt_succ_iff_lt_or_eq.mp hj with hj' | rfl
      · exact Or.inl ⟨j, hj', by rw [hold j hj']⟩
      · exact Or.inr hpid

/-- An event that keeps the pids and calls nobody. -/
theorem History.Kept.after_same (hs : h.sys.react e = some s) (hsame : SamePids h.sys s)
    (hw : h.waits e = h.waiting) (hf : s.AllFollow h.waiting) : (h.after e s).Kept := by
  have hnext := Nat.le_of_eq (congrArg UInt64.toNat hsame.next_pid.symm)
  refine hk.after hs (by rw [hw]; exact hf) ?_ hnext ?_
  · intro pid hne
    rw [hw] at hne
    rw [hsame.next_pid]
    exact hk.fresh pid hne
  · intro pid hhas
    exact Or.inl (hsame.hasPid.mp hhas)

theorem History.Kept.after_fault (hs : h.sys.react .fault = some s) : (h.after .fault s).Kept := by
  rcases page_fault_cases hs with rfl | ⟨k, _, _, rfl⟩
  · exact hk.after_same hs (SamePids.refl _) rfl hk.follow
  · refine hk.after_same hs ?_ rfl (hk.follow.mark_exited k _)
    exact (samePids_mark_exited h.sys k _).trans ⟨rfl, fun _ => rfl, rfl⟩

theorem History.Kept.after_waitpid {rdi : UInt64} (hs : h.sys.react (.call (.waitpid rdi)) = some s)
    (hright : h.sys.SleepsRight (.call (.waitpid rdi))) :
    (h.after (.call (.waitpid rdi)) s).Kept := by
  have hwaitpid := hs
  simp only [react, step, Option.some.injEq] at hs
  rcases waitpid_cases hk.orderly.numbered rdi with
    ⟨i, hi, hwaited, heq⟩ | ⟨_, _, e, _, heq⟩ | ⟨hnone, target_pid, htarget, _, heq⟩
  · -- the caller is not asleep, and the zombie leaves
    obtain ⟨code, hcode⟩ := Option.isSome_iff_exists.mp hwaited.1
    have hw : h.waits (.call (.waitpid rdi)) = h.waiting := by
      funext pid
      simp [History.waits, heq, hcode]
    rw [heq] at hs
    subst hs
    refine hk.after hwaitpid (by rw [hw]; exact hk.follow.reap hi) ?_ (Nat.le_refl _) ?_
    · rw [hw]
      exact hk.fresh
    · rintro pid ⟨j, hj, rfl⟩
      change j < h.sys.len - 1 at hj
      rw [reap_slots]
      exact Or.inl ⟨_, by split <;> omega, rfl⟩
  · have hw : h.waits (.call (.waitpid rdi)) = h.waiting := by
      funext pid
      simp [History.waits, heq]
    rw [heq] at hs
    subst hs
    exact hk.after_same hwaitpid (SamePids.refl _) hw hk.follow
  · have hd := hright hnone
    have hw : h.waits (.call (.waitpid rdi)) =
        fun pid => if pid = h.sys.curr_pid then some target_pid else h.waiting pid := by
      funext pid
      simp [History.waits, heq, htarget]
    rw [heq] at hs
    subst hs
    have hsame := samePids_sleep h.sys target_pid
    refine hk.after hwaitpid ?_ ?_ (Nat.le_of_eq (congrArg UInt64.toNat hsame.next_pid.symm)) ?_
    · rw [hw]
      exact hk.follow.sleep hk.orderly.numbered hd target_pid
    · intro pid hne
      rw [hsame.next_pid]
      rw [hw] at hne
      by_cases hpid : pid = h.sys.curr_pid
      · obtain ⟨k, _, hlt, hcurr⟩ := hd
        rw [hpid, ← hcurr]
        exact hk.orderly.numbered.below k hlt
      · exact hk.fresh pid (by simpa [hpid] using hne)
    · intro pid hhas
      exact Or.inl (hsame.hasPid.mp hhas)

theorem History.Kept.step (hp : Plain e) (hs : h.sys.react e = some s)
    (hright : h.sys.SleepsRight e) : (h.after e s).Kept := by
  cases e with
  | fault => exact hk.after_fault hs
  | call a =>
    cases a with
    | fork cloned => exact hk.after_fork hs
    | exec commandline argv envp image => exact absurd hp id
    | waitpid rdi => exact hk.after_waitpid hs hright
    | schedule ctx => exact hk.after_scheduled hs rfl hk.follow
    | exit rdi fpu =>
      rcases exit_cases hs with ⟨hptr, rfl⟩ | ⟨k, _, _, hsched⟩
      · refine hk.after_same hs (SamePids.refl _) ?_ hk.follow
        funext pid
        simp [History.waits, scheduled, current_proc_mut, hptr]
      · exact hk.after_scheduled hs hsched (hk.follow.mark_exited k _)

/-! ## What an event returns -/

omit hk in
/-- Entry `b` is dispatched and was asleep in a `waitpid`: it is a waiter that was woken. -/
theorem AllFollow.waiter (hf : s.AllFollow waiting) {b : Nat} (hb : b < s.len)
    (hchosen : s.Chosen b) (hw : (waiting (s.slots b).pid).isSome = true) :
    ∃ target_pid, (s.slots b).status = .WaitingFor target_pid := by
  obtain ⟨target_pid, ht⟩ := Option.isSome_iff_exists.mp hw
  rcases (hf b hb).asleep target_pid ht with hst | hst
  · exact ⟨target_pid, hst⟩
  · have hrun := hchosen.1
    unfold CanRun at hrun
    rw [hst] at hrun
    exact absurd hrun id

omit hk in
theorem History.returns_scheduled_iff (hsched : h.sys.scheduled e = some (s, ctx))
    {caller value : UInt64} :
    h.Returns e caller value ↔ ∃ b, s.selected ctx = some b ∧ (s.slots b).pid = caller ∧
      (h.waiting caller).isSome = true ∧
      ((s.save_current ctx).select.hand_over ((s.save_current ctx).slots b).state).rax = value := by
  unfold History.Returns
  split
  · cases hsched
  constructor
  · rintro ⟨s', ctx', b, hsched', hsel, hpid, hw, cr3, state, hanswer, hrax⟩
    cases hsched.symm.trans hsched'
    rw [(schedule_selected hsel).2.2] at hanswer
    cases hanswer
    exact ⟨b, hsel, hpid, hw, hrax⟩
  · rintro ⟨b, hsel, rfl, hw, hrax⟩
    have hanswer := congrArg Prod.fst (schedule_selected hsel).2.2
    exact ⟨s, ctx, b, hsched, hsel, rfl, hw, _, _, hanswer, hrax⟩

/-- A call of `schedule` delivers the exit codes to the parents exactly when the entry that
it dispatches waits for the zombie and is its parent. -/
theorem History.Kept.faithful_scheduled_iff
    (hs : h.sys.react e = some s) (hsched : h.sys.scheduled e = some (s1, ctx))
    (hf : s1.AllFollow h.waiting) : h.Faithful e s ↔ (s1.save_current ctx).ByParent := by
  have ho := hk.orderly.scheduled hsched
  have hf1 := hf.save_current ho.numbered ctx
  have hsame := samePids_save_current s1 ctx
  have hbefore : h.sys.before e = s1 := by
    unfold before
    rw [hsched]
  have hgone : ∀ z, Gone (h.sys.before e) s z ↔ (s1.save_current ctx).Reaps z := by
    intro z
    obtain ⟨cr3, rfl⟩ := react_scheduled hs hsched
    rw [hbefore]
    exact gone_schedule_iff ho
  -- who returns from a `waitpid` is a waiter that wins the scan
  have hwaiter : ∀ b, s1.selected ctx = some b → (h.waiting (s1.slots b).pid).isSome = true →
      ∃ target_pid, ((s1.save_current ctx).slots b).status = .WaitingFor target_pid := by
    intro b hsel hw
    obtain ⟨hb, hchosen, _⟩ := schedule_selected hsel
    rw [← hsame.len] at hb
    exact hf1.waiter hb hchosen (by rw [hsame.pid]; exact hw)
  constructor
  · intro hfaithful z hz hreaps
    obtain ⟨exit_code, hcode⟩ := Option.isSome_iff_exists.mp hreaps.exited
    rw [save_current_exit_code] at hcode
    have hreturns := hfaithful.delivered z exit_code ((hgone z).mpr hreaps) (by rw [hbefore, hcode])
    obtain ⟨b, hsel, hpid, hw, _⟩ := (History.returns_scheduled_iff hsched).mp hreturns
    obtain ⟨hb, hchosen, _⟩ := schedule_selected hsel
    rw [← hsame.len] at hb
    rw [hbefore] at hpid hw
    obtain ⟨target_pid, hst⟩ := hwaiter b hsel (by rw [hpid]; exact hw)
    refine ⟨b, hb, hchosen, ?_, ?_⟩
    · rcases hchosen.handed hb hst with ⟨_, hno⟩ | ⟨z', code, hoffers, hreaps', _⟩
      · exact absurd hreaps (hno z)
      · have hzz : z' = z := by
          have := (select_reap_iff.mpr hreaps').symm.trans (select_reap_iff.mpr hreaps)
          exact Option.some.inj this
        rw [← hzz]
        exact hoffers.2.1
    · rw [save_current_parent_pid, hsame.pid]
      exact hpid.symm
  · intro hparent
    refine ⟨?_, ?_, ?_, ?_⟩
    · intro z exit_code hz hcode
      have hreaps := (hgone z).mp hz
      obtain ⟨i, hi, hchosen, hbind, hpid⟩ := hparent z hreaps.dispatched.1 hreaps
      have hsel : s1.selected ctx = some i := by
        rw [selected_of_slice ho.slice]
        exact select_best_iff.mpr ⟨hi, hchosen⟩
      obtain ⟨target_pid, htarget, _⟩ := Option.bind_eq_some_iff.mp hbind
      rw [hbefore] at hcode ⊢
      rw [save_current_parent_pid, hsame.pid] at hpid
      have hoffers : (s1.save_current ctx).Offers i z exit_code :=
        ⟨hchosen.1, hbind, (save_current_exit_code s1 ctx z).trans hcode⟩
      refine (History.returns_scheduled_iff hsched).mpr ⟨i, hsel, hpid.symm, ?_, ?_⟩
      · have hwaits := (hf1 i hi).waits target_pid (ProcessStatus.eq_of_target htarget)
        rw [hpid, ← hsame.pid, hwaits]
        rfl
      · rw [(hoffers.chosen hi hchosen).1]
    · intro caller value caller' value' h1 h2
      obtain ⟨b, hsel, rfl, _, rfl⟩ := (History.returns_scheduled_iff hsched).mp h1
      obtain ⟨b', hsel', rfl, _, rfl⟩ := (History.returns_scheduled_iff hsched).mp h2
      cases hsel.symm.trans hsel'
      exact ⟨rfl, rfl⟩
    · intro caller value hreturns
      obtain ⟨b, hsel, rfl, hw, rfl⟩ := (History.returns_scheduled_iff hsched).mp hreturns
      obtain ⟨hb, hchosen, _⟩ := schedule_selected hsel
      rw [← hsame.len] at hb
      obtain ⟨target_pid, hst⟩ := hwaiter b hsel hw
      rcases hchosen.handed hb hst with ⟨hmax, _⟩ | ⟨z, code, hoffers, hreaps, hrax⟩
      · left
        rw [hmax]
        simp
      · right
        refine ⟨z, (hgone z).mpr hreaps, ?_⟩
        rw [hbefore, ← save_current_exit_code s1 ctx z, hrax]
        exact hoffers.2.2
    · rintro rdi rfl
      cases hsched

/-- `waitpid` keeps to the children of its caller exactly when the pid that it is given
belongs to a child or to nobody. -/
theorem History.Kept.faithful_waitpid_iff {rdi : UInt64}
    (hs : h.sys.react (.call (.waitpid rdi)) = some s) :
    h.Faithful (.call (.waitpid rdi)) s ↔ h.sys.Regular (.call (.waitpid rdi)) := by
  simp only [react, System.step, Option.some.injEq] at hs
  have hone : ∀ caller value caller' value', h.Returns (.call (.waitpid rdi)) caller value →
      h.Returns (.call (.waitpid rdi)) caller' value' → caller = caller' ∧ value = value' := by
    rintro caller value caller' value' ⟨hc, hv⟩ ⟨hc', hv'⟩
    exact ⟨hc.symm.trans hc', Option.some.inj (hv.symm.trans hv')⟩
  rcases waitpid_cases hk.orderly.numbered rdi with
    ⟨i, hi, hwaited, heq⟩ | ⟨_, hno, e, he, heq⟩ |
      ⟨_, target_pid, htarget, ⟨i, hi, hpid⟩, heq⟩
  · have hgone : ∀ z, Gone h.sys s z ↔ z = i := by
      intro z
      rw [← hs, heq]
      exact gone_reap_iff hk.orderly.numbered hi hwaited.1
    constructor
    · intro hfaithful hrdi j hj hjpid
      by_contra hstranger
      obtain ⟨_, hsame⟩ := hfaithful.stranger rdi rfl hrdi (by
        intro j' hj' hjpid' hparent
        rw [hk.orderly.numbered.distinct j' hj' j hj (hjpid'.trans hjpid.symm)] at hparent
        exact hstranger hparent)
      rw [hsame] at hgone
      exact (SamePids.refl h.sys).not_gone i ((hgone i).mpr rfl)
    · intro hregular
      have hparent : (h.sys.slots i).parent_pid = h.sys.curr_pid := by
        have hw := hwaited.2
        split at hw
        · exact hw.1
        · rename_i hrdi
          exact hregular hrdi i hi hw
      refine ⟨?_, hone, ?_, ?_⟩
      · intro z code hz hzcode
        cases (hgone z).mp hz
        refine ⟨hparent.symm, ?_⟩
        rw [heq]
        exact hzcode
      · rintro caller value ⟨_, hvalue⟩
        rw [heq] at hvalue
        exact Or.inr ⟨i, (hgone i).mpr rfl, hvalue⟩
      · rintro rdi' hrdi' hany hstranger
        cases hrdi'
        have hw := hwaited.2
        rw [if_neg hany] at hw
        exact absurd hparent (hstranger i hi hw)
  · have hsame : s = h.sys := by
      rw [← hs, heq]
    subst hsame
    refine iff_of_true ⟨?_, hone, ?_, ?_⟩ ?_
    · intro z code hz
      exact absurd hz ((SamePids.refl h.sys).not_gone z)
    · rintro caller value ⟨_, hvalue⟩
      rw [heq] at hvalue
      cases hvalue
      left
      simp only [List.mem_cons, List.not_mem_nil, or_false] at he
      rcases he with rfl | rfl
      · simp
      · simp
    · rintro rdi' hrdi' _ _
      cases hrdi'
      exact ⟨⟨e, he, by rw [heq]⟩, rfl⟩
    · intro hrdi j hj hjpid
      exact absurd ⟨j, hj, hjpid⟩ (hno hrdi)
  · have hgone : ∀ z, ¬Gone h.sys s z := by
      intro z
      rw [← hs, heq]
      exact (samePids_sleep h.sys target_pid).not_gone z
    constructor
    · intro hfaithful hrdi j hj hjpid
      by_contra hstranger
      obtain ⟨⟨e, _, hanswer⟩, _⟩ := hfaithful.stranger rdi rfl hrdi (by
        intro j' hj' hjpid' hparent
        rw [hk.orderly.numbered.distinct j' hj' j hj (hjpid'.trans hjpid.symm)] at hparent
        exact hstranger hparent)
      rw [heq] at hanswer
      cases hanswer
    · intro hregular
      refine ⟨?_, hone, ?_, ?_⟩
      · intro z code hz
        exact absurd hz (hgone z)
      · rintro caller value ⟨_, hvalue⟩
        rw [heq] at hvalue
        cases hvalue
      · rintro rdi' hrdi' hany hstranger
        cases hrdi'
        unfold wait_target at htarget
        rw [if_neg hany] at htarget
        cases htarget
        exact absurd (hregular hany i hi hpid) (hstranger i hi hpid)

omit hk in
/-- An event that calls neither `waitpid` nor `schedule` has nothing to do with exit codes. -/
theorem History.faithful_of_same (hsched : h.sys.scheduled e = none) (hgone : ∀ z, ¬Gone h.sys s z)
    (hwait : ∀ rdi, e ≠ .call (.waitpid rdi)) : h.Faithful e s := by
  have hbefore : h.sys.before e = h.sys := by
    unfold before
    rw [hsched]
  have hreturns : ∀ caller value, ¬h.Returns e caller value := by
    intro caller value hr
    unfold History.Returns at hr
    split at hr
    · rename_i rdi
      exact hwait rdi rfl
    · obtain ⟨s1, ctx, b, hs1, _⟩ := hr
      rw [hsched] at hs1
      cases hs1
  refine ⟨?_, ?_, ?_, ?_⟩
  · intro z code hz
    rw [hbefore] at hz
    exact absurd hz (hgone z)
  · intro caller value caller' value' hr
    exact absurd hr (hreturns caller value)
  · intro caller value hr
    exact absurd hr (hreturns caller value)
  · intro rdi he
    exact absurd he (hwait rdi)

/-- One event, in a history in which the sleepers are the callers. -/
theorem History.Kept.faithful_iff (hp : Plain e) (hs : h.sys.react e = some s) :
    h.Faithful e s ↔ h.sys.Regular e := by
  cases e with
  | fault =>
    refine iff_of_true (h.faithful_of_same rfl ?_ (by simp)) (by simp [Regular, scheduled])
    intro z
    rcases page_fault_cases hs with rfl | ⟨k, _, _, rfl⟩
    · exact (SamePids.refl h.sys).not_gone z
    · exact (samePids_mark_exited h.sys k _).not_gone z
  | call a =>
    cases a with
    | fork cloned =>
      refine iff_of_true (h.faithful_of_same rfl ?_ (by simp)) (by simp [Regular, scheduled])
      rintro z ⟨hz, _, hno⟩
      obtain ⟨_, hold, hlen⟩ := fork_entries (s := h.sys) hs
      refine hno ⟨z, ?_, by rw [hold z hz]⟩
      rcases hlen with hlen | ⟨hlen, _⟩ <;> omega
    | exec commandline argv envp image => exact absurd hp id
    | waitpid rdi => exact hk.faithful_waitpid_iff hs
    | schedule ctx =>
      rw [hk.faithful_scheduled_iff hs rfl hk.follow]
      simp [Regular, scheduled]
    | exit rdi fpu =>
      rcases exit_cases hs with ⟨hptr, rfl⟩ | ⟨k, _, _, hsched⟩
      · have hsched : h.sys.scheduled (.call (.exit rdi fpu)) = none := by
          simp [scheduled, current_proc_mut, hptr]
        refine iff_of_true (h.faithful_of_same hsched ?_ (by simp)) (by simp [Regular, hsched])
        exact (SamePids.refl h.sys).not_gone
      · rw [hk.faithful_scheduled_iff hs hsched (hk.follow.mark_exited k _)]
        simp [Regular, hsched]

end

/-! ## Runs -/

/-- A run of events in which a `waitpid` that sleeps puts its caller to sleep. -/
def History.Run : History → History → Prop :=
  Relation.ReflTransGen (fun h h' => ∃ e s, Plain e ∧ h.sys.SleepsRight e ∧
    h.sys.react e = some s ∧ h' = h.after e s)

/-- The boot state has no past. -/
def History.start (s : System) : History := ⟨s, fun _ => none, []⟩

theorem kept_start (h : Booted s) : (History.start s).Kept where
  orderly := kmain_orderly h
  follow := by
    have hawake : ∀ i < 2, (s.slots i).status.target = none := by
      obtain ⟨_, _, _, _, _, h⟩ := h
      cases h
      intro i hi
      have : i = 0 ∨ i = 1 := by omega
      rcases this with rfl | rfl <;> rfl
    intro i hi
    refine follows_of_awake rfl (hawake i ?_)
    rw [← (kmain_pids h).1]
    exact hi
  fresh := fun _ hne => absurd rfl hne
  left := by simp [History.start]
  once := List.nodup_nil

theorem kept_of_run {h0 : History} (hk : h0.Kept) (hrun : h0.Run h) : h.Kept := by
  induction hrun with
  | refl => exact hk
  | tail _ hstep ih =>
    obtain ⟨e, s, hp, hright, hs, rfl⟩ := hstep
    exact ih.step hp hs hright

/-- In every run from boot in which the sleepers are the callers, no process is reaped
twice, and the next event gives the exit codes to the parents exactly when it is regular. -/
theorem exit_codes_reach_the_parent_iff {b : System} {h : History} (hboot : Booted b)
    (hrun : (History.start b).Run h) :
    (h.reaped.Nodup ∧ ∀ pid ∈ h.reaped, ¬h.sys.HasPid pid) ∧
      ∀ e s, Plain e → h.sys.react e = some s → (h.Faithful e s ↔ h.sys.Regular e) := by
  have hk := kept_of_run (kept_start hboot) hrun
  refine ⟨⟨hk.once, fun pid hmem => (hk.left pid hmem).2⟩, ?_⟩
  intro e s hp hs
  exact hk.faithful_iff hp hs

/-! ## Runs on given events -/

instance (s : System) : Decidable s.Denotes :=
  match h : s.curr_proc with
  | none => isFalse (by rintro ⟨k, hk, _⟩; rw [h] at hk; cases hk)
  | some k => decidable_of_iff (k < s.len ∧ (s.slots k).pid = s.curr_pid)
      ⟨fun hd => ⟨k, h, hd⟩, by rintro ⟨k', hk', hd⟩; cases h.symm.trans hk'; exact hd⟩

instance : ∀ e, Decidable (Plain e)
  | .call (.exec _ _ _ _ _) => isFalse id
  | .call (.fork _) | .call (.exit _ _) | .call (.waitpid _) | .call (.schedule _) | .fault =>
    isTrue trivial

instance (s : System) : ∀ e, Decidable (s.SleepsRight e)
  | .call (.waitpid _) => inferInstanceAs (Decidable (_ → _))
  | .call (.exec _ _ _ _ _) | .call (.fork _) | .call (.exit _ _) | .call (.schedule _) | .fault =>
    isTrue trivial

/-- The events one after the other. -/
def History.runs (h : History) (es : List Event) : Option History :=
  es.foldlM (Runs.guarded (fun h e => Plain e ∧ h.sys.SleepsRight e)
    fun h e => (h.sys.react e).map (h.after e)) h

theorem History.run_of_runs {h' : History} {es : List Event} (hr : h.runs es = some h') :
    h.Run h' := by
  refine (Runs.steps_of_guarded hr).lift id ?_
  rintro h1 h2 ⟨e, hcond, hstep⟩
  obtain ⟨s, hs, rfl⟩ := Option.map_eq_some_iff.mp hstep
  exact ⟨e, s, hcond.1, hcond.2, hs, rfl⟩

/-- Init forks process 2 and waits for it, and process 2 is killed. -/
def child_is_killed : List Event :=
  [.call (.fork true), .call (.waitpid 2), .call (.schedule {}), .fault]

/-- The next tick gives the exit code of process 2 to init, its parent. -/
theorem init_gets_the_exit_code :
    ∃ h, (History.start bootedKernel).runs child_is_killed = some h ∧
      h.Faithful (.call (.schedule {})) (h.sys.switch {}) ∧ Gone h.sys (h.sys.switch {}) 2 := by
  have hrun := eq_some_getD (o := (History.start bootedKernel).runs child_is_killed)
    (by decide +kernel) (History.start bootedKernel)
  refine ⟨_, hrun, ?_, by decide +kernel⟩
  have hnext := (exit_codes_reach_the_parent_iff booted_bootedKernel (History.run_of_runs hrun)).2
  refine (hnext (.call (.schedule {})) _ trivial rfl).mpr ?_
  rintro _ ⟨⟩
  decide +kernel

/-- Init forks processes 2 and 3 and waits for 3, and process 2 exits. -/
def sibling_exits : List Event :=
  [.call (.fork true), .call (.fork true), .call (.waitpid 3), .call (.schedule {}),
    .call (.exit 0 .zeroed)]

/-- Process 3 calls `waitpid(2)`. Process 2 is a child of init, but the call returns its
exit code and takes it out of the table. -/
theorem a_sibling_takes_the_exit_code :
    ∃ h, (History.start bootedKernel).runs sibling_exits = some h ∧ h.sys.curr_pid = 3 ∧
      (h.sys.slots 2).pid = 2 ∧ (h.sys.slots 2).parent_pid = 1 ∧
      (h.sys.waitpid 2).1 = some 0 ∧ Gone h.sys (h.sys.waitpid 2).2 2 ∧
      ¬h.Faithful (.call (.waitpid 2)) (h.sys.waitpid 2).2 := by
  have hrun := eq_some_getD (o := (History.start bootedKernel).runs sibling_exits)
    (by decide +kernel) (History.start bootedKernel)
  generalize hh : ((History.start bootedKernel).runs sibling_exits).getD
    (History.start bootedKernel) = h at hrun
  have hcurr : h.sys.curr_pid = 3 := by rw [← hh]; decide +kernel
  have hparent : (h.sys.slots 2).parent_pid = 1 := by rw [← hh]; decide +kernel
  have hcode : (h.sys.slots 2).exit_code = some 0 := by rw [← hh]; decide +kernel
  have hgone : Gone h.sys (h.sys.waitpid 2).2 2 := by rw [← hh]; decide +kernel
  refine ⟨h, hrun, hcurr, by rw [← hh]; decide +kernel, hparent, by rw [← hh]; decide +kernel,
    hgone, ?_⟩
  intro hfaithful
  have hreturns : h.sys.curr_pid = (h.sys.slots 2).parent_pid :=
    (hfaithful.delivered 2 0 hgone hcode).1
  rw [hcurr, hparent] at hreturns
  cases hreturns

end System

end zenos_kernel.process
