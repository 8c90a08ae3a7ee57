-- What leaves the process table. `waitpid` and the scheduler each remove one zombie,
-- by different ways through the table; here is what every call removes, and what it
-- returns to whom.
import Zenos.Process.WaitAny

namespace zenos_kernel.process

namespace System

/-! ## Processes that leave the table -/

/-- Entry `z` of `s` has exited, and the table of `s'` does not have it. -/
def Gone (s s' : System) (z : Nat) : Prop :=
  z < s.len ∧ (s.slots z).exit_code.isSome = true ∧ ¬s'.HasPid (s.slots z).pid

instance (s s' : System) (z : Nat) : Decidable (Gone s s' z) :=
  inferInstanceAs (Decidable (_ ∧ _))

/-- The pids of the processes that are gone. -/
def gone (s s' : System) : List UInt64 :=
  ((List.range s.len).filter (fun z => Gone s s' z)).map (fun z => (s.slots z).pid)

/-- The table in which an event reaps: `exit` first marks the process and gives its
children to init. -/
def before (s : System) (e : Event) : System :=
  match s.scheduled e with
  | some (s1, _) => s1
  | none => s

/-! ## Which processes an event takes out of the table -/

variable {pid : UInt64} {s s' : System} {z : Nat} {ctx : ProcessState}

theorem SamePids.hasPid (h : SamePids s s') : s'.HasPid pid ↔ s.HasPid pid := by
  unfold HasPid
  simp only [h.len, h.pid]

theorem SamePids.not_gone (h : SamePids s s') (z : Nat) : ¬Gone s s' z := by
  rintro ⟨hz, _, hno⟩
  exact hno (h.hasPid.mpr ⟨z, hz, rfl⟩)

theorem hasPid_of_mem_gone (h : pid ∈ gone s s') : s.HasPid pid ∧ ¬s'.HasPid pid := by
  unfold gone at h
  simp only [List.mem_map, List.mem_filter, decide_eq_true_eq] at h
  obtain ⟨z, ⟨_, hz, _, hno⟩, rfl⟩ := h
  exact ⟨⟨z, hz, rfl⟩, hno⟩

theorem nodup_gone (h : Numbered s) (s' : System) : (gone s s').Nodup := by
  refine List.Nodup.map_on ?_ (List.nodup_range.filter _)
  intro i hi j hj hij
  simp only [List.mem_filter, List.mem_range] at hi hj
  exact h.distinct i hi.1 j hj.1 hij

/-- A reaped entry, and only that entry, leaves the table. -/
theorem gone_reap_iff (h : Numbered s) {i : Nat} (hi : i < s.len)
    (hexit : (s.slots i).exit_code.isSome = true) : Gone s (s.reap i) z ↔ z = i := by
  constructor
  · rintro ⟨hz, _, hno⟩
    by_contra hne
    obtain ⟨k, hk, hslot⟩ := reap_goes_to hi hz hne
    exact hno ⟨k, hk, by rw [hslot]⟩
  · rintro rfl
    refine ⟨hi, hexit, ?_⟩
    rintro ⟨j, hj, hpid⟩
    change j < s.len - 1 at hj
    rw [reap_slots] at hpid
    have := h.distinct _ (by split <;> omega) z hi hpid
    split at this <;> omega

theorem Reaps.exited (h : s.Reaps z) : (s.slots z).exit_code.isSome = true := by
  obtain ⟨i, _, hwoken, _, htarget⟩ := h
  obtain ⟨target_pid, ht, hidx⟩ := Option.bind_eq_some_iff.mp htarget
  have hrun := hwoken.2.1
  unfold CanRun at hrun
  rw [ProcessStatus.eq_of_target ht] at hrun
  change s.wakes target_pid = true at hrun
  simpa [wakes, hidx] using hrun

/-- The zombie of the scan, and only that entry, leaves the table in `schedule`. -/
theorem gone_schedule_iff (h : Orderly s) :
    Gone s (s.schedule ctx).2 z ↔ (s.save_current ctx).Reaps z := by
  constructor
  · rintro ⟨hz, _, hno⟩
    by_contra hreap
    obtain ⟨j, hj, hslot⟩ := schedule_goes_to h.slice hz ctx hreap
    exact hno ⟨j, hj, by rw [hslot, scheduled_entry_pid]⟩
  · intro hreap
    have hz : z < s.len := by rw [← save_current_len s ctx]; exact hreap.dispatched.1
    have hexit := hreap.exited
    rw [save_current_exit_code] at hexit
    refine ⟨hz, hexit, ?_⟩
    rintro ⟨j, hj, hpid⟩
    obtain ⟨i, hi, hslot, hkept⟩ := schedule_comes_from h.slice ctx hj
    rw [hslot, scheduled_entry_pid] at hpid
    rw [h.numbered.distinct i hi z hz hpid] at hkept
    exact hkept hreap

/-! ## Events -/

theorem samePids_scheduled {s1 : System} {e : Event} (hs : s.scheduled e = some (s1, ctx)) :
    SamePids s s1 := by
  unfold scheduled at hs
  split at hs
  · cases hs
    exact SamePids.refl s
  · split at hs
    · cases hs
    · split at hs
      · cases hs
      · cases hs
        exact (samePids_mark_exited s _ _).trans ⟨rfl, fun _ => rfl, rfl⟩
  all_goals cases hs

theorem samePids_before (s : System) (e : Event) : SamePids s (s.before e) := by
  unfold before
  split
  · rename_i hs
    exact samePids_scheduled hs
  · exact SamePids.refl s

theorem schedule_next_pid (s : System) (ctx : ProcessState) :
    (s.schedule ctx).2.next_pid = s.next_pid := by
  have hsave := (samePids_save_current s ctx).next_pid
  unfold schedule
  split
  · dsimp only
    split
    · exact hsave
    · split
      · exact hsave
      · rw [dispatch_eq]
        cases (s.save_current ctx).select.reap_idx <;> exact hsave
  · rfl

/-- What `fork` leaves in the table: the same entries, and a new one with the next pid. -/
theorem fork_entries {cloned : Bool} (hs : s.step (.fork cloned) = some s') :
    s.next_pid.toNat ≤ s'.next_pid.toNat ∧ (∀ i < s.len, s'.slots i = s.slots i) ∧ (s'.len = s.len ∨
        (s'.len = s.len + 1 ∧ (s'.slots s.len).pid = s.next_pid ∧
          (s'.slots s.len).status = .Ready ∧ s.next_pid.toNat < s'.next_pid.toNat ∧
          ∃ k, s.curr_proc = some k ∧ (s'.slots s.len).parent_pid = (s.slots k).pid)) := by
  rcases fork_cases hs with rfl | ⟨hnext, rfl | ⟨k, hk, rfl⟩⟩
  · exact ⟨Nat.le_refl _, fun _ _ => rfl, Or.inl rfl⟩
  · refine ⟨?_, fun _ _ => rfl, Or.inl rfl⟩
    change _ ≤ (s.next_pid + 1).toNat
    omega
  refine ⟨?_, fun i hi => if_neg (Nat.ne_of_lt hi), Or.inr ⟨rfl, ?_, ?_, ?_, k, hk, ?_⟩⟩
  · change _ ≤ (s.next_pid + 1).toNat
    omega
  · exact congrArg Process.pid (if_pos rfl)
  · exact congrArg Process.status (if_pos rfl)
  · change _ < (s.next_pid + 1).toNat
    omega
  · exact congrArg Process.parent_pid (if_pos rfl)

/-! ## What `schedule` returns -/

/-- A waiter that is dispatched gets the exit code of the zombie that goes with it, or the
code for a target that is gone. -/
theorem Chosen.handed {b : Nat} (hchosen : s.Chosen b) (hb : b < s.len) {target_pid : UInt64}
    (hst : (s.slots b).status = .WaitingFor target_pid) :
    ((s.select.hand_over (s.slots b).state).rax = 0xFFFFFFFFFFFFFFFF ∧ ∀ z, ¬s.Reaps z) ∨
    ∃ z exit_code, s.Offers b z exit_code ∧ s.Reaps z ∧
      (s.select.hand_over (s.slots b).state).rax = exit_code := by
  have htarget : (s.slots b).status.target = some target_pid := by rw [hst]; rfl
  obtain ⟨hover, hreap⟩ := hchosen.own hb htarget
  cases hidx : s.target_idx target_pid with
  | none =>
    left
    refine ⟨by rw [hover, exit_code_of, hidx]; rfl, ?_⟩
    intro z hz
    cases (hreap.trans hidx).symm.trans (select_reap_iff.mpr hz)
  | some z =>
    right
    have hreaps : s.Reaps z := select_reap_iff.mp (hreap.trans hidx)
    obtain ⟨exit_code, hcode⟩ := Option.isSome_iff_exists.mp hreaps.exited
    have hoffers : s.Offers b z exit_code := ⟨hchosen.1, by rw [htarget]; exact hidx, hcode⟩
    refine ⟨z, exit_code, hoffers, hreaps, ?_⟩
    rw [(hoffers.chosen hb hchosen).1]

end System

end zenos_kernel.process
