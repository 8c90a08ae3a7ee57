-- Orphans. A process that ends gives its children to init, and only zombies leave the
-- table. So the parent of every process is in the table, and it has not exited.
import Zenos.Process.ExitCodes

namespace zenos_kernel.process

/-- The process has not exited, neither by `exit` nor by a fault. -/
def Process.Alive (p : Process) : Prop := p.status ≠ .Exited ∧ p.exit_code = none

namespace System

def HasAlive (s : System) (pid : UInt64) : Prop :=
  ∃ j < s.len, (s.slots j).pid = pid ∧ (s.slots j).Alive

/-- The events of a run. A process that has exited forks no more: a fault that killed it
takes it back to the faulting instruction until the next tick. -/
def Performs (s : System) : Event → Prop
  | .call (.fork _) => ∀ k ∈ s.curr_proc, (s.slots k).Alive
  | .call (.exec _ _ _ _ _) => False
  | .call (.exit _ _) | .call (.waitpid _) | .call (.schedule _) | .fault => True

/-- A run in which `curr_proc` denotes the current process before every event. -/
def Runs : System → System → Prop :=
  Relation.ReflTransGen (fun s s' => ∃ e, s.Denotes ∧ s.Performs e ∧ s.react e = some s')

/-- Init is alive, and so is the parent of every process but idle and init. -/
structure Adopted (s : System) : Prop where
  init : s.HasAlive 1
  parent : ∀ i < s.len, (s.slots i).pid ≠ 0 → (s.slots i).pid ≠ 1 →
    s.HasAlive (s.slots i).parent_pid

variable {s s' : System} {i : Nat}

/-! ## Steps that give nobody another parent -/

section

variable (h : s.Adopted)

include h

/-- Every entry was there with its parent, and who was alive still is. -/
theorem Adopted.of_entries (hfrom : ∀ i < s'.len, ∃ j < s.len, (s'.slots i).pid = (s.slots j).pid ∧
      (s'.slots i).parent_pid = (s.slots j).parent_pid)
    (hto : ∀ j < s.len, (s.slots j).Alive → s'.HasAlive (s.slots j).pid) : s'.Adopted := by
  have hlive : ∀ pid, s.HasAlive pid → s'.HasAlive pid := by
    rintro _ ⟨j, hj, rfl, halive⟩
    exact hto j hj halive
  refine ⟨hlive 1 h.init, fun i hi h0 h1 => ?_⟩
  obtain ⟨j, hj, hpid, hparent⟩ := hfrom i hi
  rw [hpid] at h0 h1
  rw [hparent]
  exact hlive _ (h.parent j hj h0 h1)

theorem Adopted.save_current (hn : Numbered s) (ctx : ProcessState) :
    (s.save_current ctx).Adopted := by
  have hsame := samePids_save_current s ctx
  refine h.of_entries (fun i hi => ?_) (fun j hj halive => ?_)
  · rw [hsame.len] at hi
    exact ⟨i, hi, hsame.pid i, save_current_parent_pid s ctx i⟩
  · refine ⟨j, by rw [hsame.len]; exact hj, hsame.pid j, ?_⟩
    by_cases hsaved : s.IsSaved j
    · have hslot := save_current_of_saved hn hj hsaved ctx
      exact ⟨by rw [hslot]; exact nofun, (save_current_exit_code s ctx j).trans halive.2⟩
    · rw [save_current_of_not_saved hsaved]
      exact halive

theorem Adopted.sleep (target_pid : UInt64) : (s.sleep target_pid).Adopted := by
  have hsame := samePids_sleep s target_pid
  have hslot : ∀ i, (s.sleep target_pid).slots i = s.slots i ∨
      (s.sleep target_pid).slots i = { s.slots i with status := .WaitingFor target_pid } := by
    intro i
    unfold System.sleep
    split
    · exact Or.inl rfl
    · rename_i k _
      by_cases hik : i = k
      · subst hik
        exact Or.inr (setSlot_same s i _)
      · exact Or.inl (setSlot_other s _ hik)
  refine h.of_entries (fun i hi => ?_) (fun j hj halive => ?_)
  · rw [hsame.len] at hi
    refine ⟨i, hi, hsame.pid i, ?_⟩
    rcases hslot i with heq | heq <;> rw [heq]
  · refine ⟨j, by rw [hsame.len]; exact hj, hsame.pid j, ?_⟩
    rcases hslot j with heq | heq <;> rw [heq]
    · exact halive
    · exact ⟨by simp, halive.2⟩

/-- A zombie leaves the table. -/
theorem Adopted.reap (hi : i < s.len) (hexit : (s.slots i).exit_code.isSome = true) :
    (s.reap i).Adopted := by
  refine h.of_entries (fun j hj => ?_) (fun j hj halive => ?_)
  · change j < s.len - 1 at hj
    rw [reap_slots]
    exact ⟨_, by split <;> omega, rfl, rfl⟩
  · have hne : j ≠ i := by
      rintro rfl
      rw [halive.2] at hexit
      cases hexit
    obtain ⟨k, hk, hslot⟩ := reap_goes_to hi hj hne
    exact ⟨k, hk, by rw [hslot]; exact ⟨rfl, halive⟩⟩

theorem Adopted.schedule (ho : Orderly s) (ctx : ProcessState) : (s.schedule ctx).2.Adopted := by
  refine (h.save_current ho.numbered ctx).of_entries (fun j hj => ?_) (fun j hj halive => ?_)
  · obtain ⟨i, hi, hslot, _⟩ := schedule_comes_from ho.slice ctx hj
    refine ⟨i, by rw [save_current_len]; exact hi, ?_⟩
    rw [hslot]
    unfold scheduled_entry
    split <;> exact ⟨rfl, rfl⟩
  rw [save_current_len] at hj
  have hkept : ¬(s.save_current ctx).Reaps j := by
    intro hreap
    have hexit := hreap.exited
    rw [halive.2] at hexit
    cases hexit
  obtain ⟨i, hi, hslot⟩ := schedule_goes_to ho.slice hj ctx hkept
  refine ⟨i, hi, ?_⟩
  rw [hslot]
  unfold scheduled_entry
  split
  · exact ⟨rfl, by simp [Pick.running], halive.2⟩
  · exact ⟨rfl, halive⟩

/-! ## Steps that change the family -/

/-- The children of the process that ends get a parent that is alive: init. -/
theorem Adopted.mark_exited {k : Nat} (hinit : (s.slots k).pid ≠ 1) (code : UInt64) :
    (s.mark_exited k code).Adopted := by
  have hpids := (samePids_mark_exited s k code).pid
  have hlive : ∀ pid ≠ (s.slots k).pid, s.HasAlive pid → (s.mark_exited k code).HasAlive pid := by
    rintro _ hne ⟨j, hj, rfl, halive⟩
    have hjk : j ≠ k := fun heq => hne (by rw [heq])
    refine ⟨j, hj, hpids j, ?_⟩
    rw [mark_exited_slots]
    simp only [if_neg hjk]
    exact halive
  have hadopts := hlive 1 hinit.symm h.init
  refine ⟨hadopts, fun i hi h0 h1 => ?_⟩
  rw [hpids] at h0 h1
  rw [mark_exited_slots]
  split
  · exact hadopts
  · rename_i hother
    exact hlive _ (fun heq => hother ⟨hi, heq⟩) (h.parent i hi h0 h1)

/-- The parent of the new process is the caller. -/
theorem Adopted.fork {cloned : Bool} (hd : s.Denotes)
    (halive : ∀ k ∈ s.curr_proc, (s.slots k).Alive) (hs : s.step (.fork cloned) = some s') :
    s'.Adopted := by
  obtain ⟨_, hold, hlen⟩ := fork_entries hs
  have hlive : ∀ pid, s.HasAlive pid → s'.HasAlive pid := by
    rintro pid ⟨j, hj, hp⟩
    exact ⟨j, by omega, by rw [hold j hj]; exact hp⟩
  refine ⟨hlive 1 h.init, fun i hi h0 h1 => ?_⟩
  by_cases hi' : i < s.len
  · rw [hold i hi'] at h0 h1 ⊢
    exact hlive _ (h.parent i hi' h0 h1)
  · rcases hlen with hlen | ⟨hlen, _, _, _, k, hk, hparent⟩
    · omega
    · obtain rfl : i = s.len := by omega
      obtain ⟨k', hk', hlt, _⟩ := hd
      cases hk.symm.trans hk'
      rw [hparent]
      exact hlive _ ⟨k, hlt, rfl, halive k hk⟩

theorem Adopted.react (ho : Orderly s) (hd : s.Denotes) {e : Event} (hp : s.Performs e)
    (hs : s.react e = some s') : s'.Adopted := by
  have hsched : ∀ {s1 ctx}, s.scheduled e = some (s1, ctx) → s1.Adopted → s'.Adopted := by
    intro s1 ctx hcall h1
    obtain ⟨cr3, rfl⟩ := react_scheduled hs hcall
    have hleft := h1.schedule (ho.scheduled hcall) ctx
    exact ⟨hleft.init, hleft.parent⟩
  cases e with
  | fault =>
    rcases page_fault_cases hs with rfl | ⟨k, hk, hinit, rfl⟩
    · exact h
    · obtain ⟨k', hk', _, hcurr⟩ := hd
      cases hk.symm.trans hk'
      have hleft := h.mark_exited (by rw [hcurr]; exact hinit) 0xFFFFFFFFFFFFFFFF
      exact ⟨hleft.init, hleft.parent⟩
  | call a =>
    cases a with
    | fork cloned => exact h.fork hd hp hs
    | exec commandline argv envp image => exact absurd hp id
    | schedule ctx => exact hsched rfl h
    | waitpid rdi =>
      simp only [System.react, step, Option.some.injEq] at hs
      subst hs
      rcases waitpid_ends s rdi with ⟨i, hi, hexit, heq⟩ | ⟨_, heq⟩ | ⟨target_pid, heq⟩
      · rw [heq]
        exact h.reap hi hexit
      · rw [heq]
        exact h
      · rw [heq]
        exact h.sleep target_pid
    | exit rdi fpu =>
      rcases exit_cases hs with ⟨_, rfl⟩ | ⟨k, _, hinit, hcall⟩
      · exact h
      · have hleft := h.mark_exited hinit (exit_status rdi)
        exact hsched hcall ⟨hleft.init, hleft.parent⟩

end

/-! ## Runs -/

/-- In every run from boot the parent of every process but idle and init is in the table,
and it has not exited. -/
theorem orphans_have_a_live_parent {b s : System} (hboot : Booted b) (hrun : b.Runs s) :
    ∀ i < s.len, (s.slots i).pid ≠ 0 → (s.slots i).pid ≠ 1 →
      ∃ j < s.len, (s.slots j).pid = (s.slots i).parent_pid ∧ (s.slots j).status ≠ .Exited := by
  have hstart : b.Adopted := by
    obtain ⟨hlen, hidle, hinit, _⟩ := kmain_pids hboot
    have hstatus : (b.slots 1).status = .Running := by
      obtain ⟨_, _, _, _, _, h⟩ := hboot
      cases h
      rfl
    refine ⟨⟨1, by omega, hinit, by simp [hstatus], (kmain_spec hboot).init.2.1⟩, ?_⟩
    intro i hi h0 h1
    have : i = 0 ∨ i = 1 := by omega
    rcases this with rfl | rfl
    · exact absurd hidle h0
    · exact absurd hinit h1
  have hkept : Orderly s ∧ s.Adopted := by
    induction hrun with
    | refl => exact ⟨kmain_orderly hboot, hstart⟩
    | tail _ hstep ih =>
      obtain ⟨e, hd, hp, hs⟩ := hstep
      exact ⟨ih.1.move (m := .event e) hs, ih.2.react ih.1 hd hp hs⟩
  intro i hi h0 h1
  obtain ⟨j, hj, hpid, halive⟩ := hkept.2.parent i hi h0 h1
  exact ⟨j, hj, hpid, halive.1⟩

instance (s : System) : ∀ e, Decidable (s.Performs e)
  | .call (.fork _) => inferInstanceAs (Decidable (∀ k ∈ s.curr_proc, _ ≠ _ ∧ _ = _))
  | .call (.exec _ _ _ _ _) => isFalse id
  | .call (.exit _ _) | .call (.waitpid _) | .call (.schedule _) | .fault => isTrue trivial

/-- The events one after the other. -/
def performs (s : System) (es : List Event) : Option System :=
  es.foldlM (Runs.guarded (fun s e => s.Denotes ∧ s.Performs e) react) s

theorem runs_of_performs {es : List Event} (h : s.performs es = some s') : s.Runs s' := by
  refine (Runs.steps_of_guarded h).lift id ?_
  rintro s1 s2 ⟨e, hcond, hs⟩
  exact ⟨e, hcond.1, hcond.2, hs⟩

/-- Init forks process 2 and waits for it, and process 2 forks process 3 and is killed. -/
def parent_is_killed : List Event :=
  [.call (.fork true), .call (.waitpid 2), .call (.schedule {}), .call (.fork true), .fault]

/-- Process 3 goes to init. -/
theorem init_adopts :
    ∃ s, bootedKernel.performs parent_is_killed = some s ∧ (s.slots 3).pid = 3 ∧
      (s.slots 3).parent_pid = 1 ∧
      ∃ j < s.len, (s.slots j).pid = (s.slots 3).parent_pid ∧ (s.slots j).status ≠ .Exited := by
  have hrun := eq_some_getD (o := bootedKernel.performs parent_is_killed) (by decide +kernel)
    bootedKernel
  refine ⟨_, hrun, by decide +kernel, by decide +kernel, ?_⟩
  exact orphans_have_a_live_parent booted_bootedKernel (runs_of_performs hrun) 3 (by decide +kernel)
    (by decide +kernel) (by decide +kernel)

end System

end zenos_kernel.process
