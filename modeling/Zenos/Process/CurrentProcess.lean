-- The pointer to the current process. `curr_proc` is the address of a slot,
-- and a removal moves entries from slot to slot. So the pointer denotes the
-- current process until a call removes an entry on the wrong side of it.
import Zenos.Process.AddressSpaces

namespace zenos_kernel.process

namespace System

/-! ## What the pointer should denote -/

variable (s : System)

/-- `current_proc_mut` gives the one entry whose pid is `CURRENT_PID`. -/
def PointsToCurrent : Prop :=
  ∃ k, s.current_proc_mut = some k ∧ s.IsEntry k ∧
    ∀ j, s.IsEntry j → ((s.slots j).pid = s.curr_pid ↔ j = k)

/-- The zombie that the scan removes comes after the entry that it dispatches. -/
def ReapsAbove : Prop :=
  ∀ b < s.len, s.Chosen b → ∀ z < s.len, s.Reaps z → b < z

instance (s : System) : Decidable s.ReapsAbove := inferInstanceAs (Decidable (∀ b < s.len, _))

/-- Entry `i` is the zombie that `waitpid(rdi)` reaps: the first child that
has exited, or the process with the given pid. -/
def Waited (rdi : UInt64) (i : Nat) : Prop :=
  (s.slots i).exit_code.isSome = true ∧
    if rdi = 0xFFFFFFFFFFFFFFFF then
      (s.slots i).parent_pid = s.curr_pid ∧
        ∀ j < i, (s.slots j).parent_pid = s.curr_pid → (s.slots j).exit_code = none
    else (s.slots i).pid = rdi

instance (s : System) (rdi : UInt64) (i : Nat) : Decidable (s.Waited rdi i) :=
  inferInstanceAs (Decidable (_ ∧ _))

/-- The events that leave the pointer right, by the state before them. -/
def Careful : Event → Prop
  | .fault => True
  | .call (.fork _) => True
  | .call (.exec _ _ _ _ _) => True
  | .call (.waitpid rdi) =>
      ∀ i < s.len, s.Waited rdi i → ∀ k ∈ s.curr_proc, k ≠ i ∧ k + 1 < s.len
  | .call (.exit rdi fpu) => ∀ k ∈ s.curr_proc,
      ((s.mark_exited k (exit_status rdi)).force_reschedule.save_current
        { fxsave := fpu }).ReapsAbove
  | .call (.schedule current_state) => s.sched.time ≤ s.sched.quantum →
      (s.save_current current_state).ReapsAbove

instance (s : System) : ∀ e, Decidable (s.Careful e)
  | .fault => isTrue trivial
  | .call (.fork _) => isTrue trivial
  | .call (.exec _ _ _ _ _) => isTrue trivial
  | .call (.waitpid _) => inferInstanceAs (Decidable (∀ i < s.len, _))
  | .call (.exit _ _) => inferInstanceAs (Decidable (∀ k ∈ s.curr_proc, _))
  | .call (.schedule _) => inferInstanceAs (Decidable (_ → _))

/-- A run of events that all meet `Careful`. -/
def CarefulSteps : System → System → Prop :=
  Relation.ReflTransGen (fun s s' => ∃ e, s.Careful e ∧ s.react e = some s')

/-! ## The pids of the table -/

/-- The entries have different pids, all of them given out. -/
structure Numbered (s : System) : Prop where
  distinct : ∀ i < s.len, ∀ j < s.len, (s.slots i).pid = (s.slots j).pid → i = j
  below : ∀ i < s.len, (s.slots i).pid.toNat < s.next_pid.toNat

/-- The pointer denotes an entry with the current pid. -/
def Denotes (s : System) : Prop :=
  ∃ k, s.curr_proc = some k ∧ k < s.len ∧ (s.slots k).pid = s.curr_pid

variable {s s' : System} {i k z : Nat} {cloned : Bool}

theorem Numbered.pointsToCurrent_iff (h : Numbered s) : s.PointsToCurrent ↔ s.Denotes := by
  constructor
  · rintro ⟨k, hk, hlt, hall⟩
    exact ⟨k, hk, hlt, (hall k hlt).mpr rfl⟩
  · rintro ⟨k, hk, hlt, hpid⟩
    refine ⟨k, hk, hlt, fun j hj => ⟨fun hj' => ?_, fun hj' => by rw [hj', hpid]⟩⟩
    exact h.distinct j hj k hlt (hj'.trans hpid.symm)

/-- A step that keeps every entry in its slot with its pid. -/
structure SamePids (s s' : System) : Prop where
  len : s'.len = s.len
  pid : ∀ i, (s'.slots i).pid = (s.slots i).pid
  next_pid : s'.next_pid = s.next_pid

theorem SamePids.refl (s : System) : SamePids s s := ⟨rfl, fun _ => rfl, rfl⟩

theorem SamePids.trans {s'' : System} (h : SamePids s s') (h' : SamePids s' s'') :
    SamePids s s'' where
  len := h'.len.trans h.len
  pid := fun i => (h'.pid i).trans (h.pid i)
  next_pid := h'.next_pid.trans h.next_pid

theorem SamePids.symm (h : SamePids s s') : SamePids s' s :=
  ⟨h.len.symm, fun i => (h.pid i).symm, h.next_pid.symm⟩

theorem SamePids.numbered (h : SamePids s s') (hn : Numbered s) : Numbered s' where
  distinct := by
    intro i hi j hj hij
    rw [h.len] at hi hj
    rw [h.pid, h.pid] at hij
    exact hn.distinct i hi j hj hij
  below := by
    intro i hi
    rw [h.len] at hi
    rw [h.pid, h.next_pid]
    exact hn.below i hi

/-- The pointer and the current pid stay as well. -/
theorem SamePids.denotes (h : SamePids s s') (hptr : s'.curr_proc = s.curr_proc)
    (hpid : s'.curr_pid = s.curr_pid) (hd : Denotes s) : Denotes s' := by
  obtain ⟨k, hk, hlt, hcur⟩ := hd
  refine ⟨k, hptr.trans hk, by rw [h.len]; exact hlt, ?_⟩
  rw [h.pid, hpid]
  exact hcur

theorem samePids_setSlot (s : System) (i : Nat) {p : Process} (hp : p.pid = (s.slots i).pid) :
    SamePids s (s.setSlot i p) := by
  refine ⟨rfl, fun j => ?_, rfl⟩
  by_cases hj : j = i
  · subst hj
    rw [setSlot_same, hp]
  · rw [setSlot_other s p hj]

theorem samePids_save_current (s : System) (ctx : ProcessState) :
    SamePids s (s.save_current ctx) := by
  rcases s.save_current_cases ctx with h | ⟨j, -, -, h⟩
  · rw [h]
    exact SamePids.refl s
  · rw [h]
    exact samePids_setSlot s _ rfl

theorem samePids_mark_exited (s : System) (k : Nat) (code : UInt64) :
    SamePids s (s.mark_exited k code) := ⟨rfl, fun i => by rw [mark_exited_slots], rfl⟩

/-! ## Removals -/

/-- `remove` keeps the order: entry `j` comes from `j` or from `j + 1`. -/
theorem remove_slots (s : System) {j : Nat} (hj : j < s.len - 1) :
    (s.remove z).slots j = s.slots (if z ≤ j then j + 1 else j) := by
  unfold remove
  dsimp only
  by_cases hz : z ≤ j
  · rw [if_pos ⟨hz, by omega⟩, if_pos hz]
  · rw [if_neg (fun h => hz h.1), if_neg hz]

/-- Entry `j` of `s'` was entry `f j` of `s`. The pointer is as before. -/
structure Moved (s s' : System) (f : Nat → Nat) : Prop where
  lt : ∀ j < s'.len, f j < s.len
  inj : ∀ i < s'.len, ∀ j < s'.len, f i = f j → i = j
  pid : ∀ j < s'.len, (s'.slots j).pid = (s.slots (f j)).pid
  next_pid : s'.next_pid = s.next_pid
  curr_proc : s'.curr_proc = s.curr_proc
  curr_pid : s'.curr_pid = s.curr_pid

theorem moved_remove (s : System) (z : Nat) :
    Moved s (s.remove z) (fun j => if z ≤ j then j + 1 else j) := by
  have hlen : (s.remove z).len = s.len - 1 := rfl
  refine ⟨?_, ?_, ?_, rfl, rfl, rfl⟩
  · intro j hj
    split <;> omega
  · intro i hi j hj hij
    split at hij <;> split at hij <;> omega
  · intro j hj
    rw [remove_slots s (by omega)]

theorem moved_reap (hi : i < s.len) :
    Moved s (s.reap i) (fun j => if j = i then s.len - 1 else j) := by
  have hlen : (s.reap i).len = s.len - 1 := rfl
  refine ⟨?_, ?_, ?_, rfl, rfl, rfl⟩
  · intro j hj
    split <;> omega
  · intro j hj k hk hjk
    split at hjk <;> split at hjk <;> omega
  · intro j hj
    rw [reap_slots]

section

variable (h : Numbered s)

include h

theorem Moved.numbered {f : Nat → Nat} (m : Moved s s' f) : Numbered s' where
  distinct := by
    intro i hi j hj hij
    rw [m.pid i hi, m.pid j hj] at hij
    exact m.inj i hi j hj (h.distinct _ (m.lt i hi) _ (m.lt j hj) hij)
  below := by
    intro i hi
    rw [m.pid i hi, m.next_pid]
    exact h.below _ (m.lt i hi)

section

variable (hk : s.curr_proc = some k) (hlt : k < s.len) (hpid : (s.slots k).pid = s.curr_pid)

include hk hlt hpid

/-- The pointer survives when its entry stays where it is. -/
theorem Moved.denotes_iff {f : Nat → Nat} (m : Moved s s' f) :
    Denotes s' ↔ k < s'.len ∧ f k = k := by
  constructor
  · rintro ⟨k', hk', hlt', hpid'⟩
    cases hk'.symm.trans (m.curr_proc.trans hk)
    rw [m.pid k hlt', m.curr_pid, ← hpid] at hpid'
    exact ⟨hlt', h.distinct _ (m.lt k hlt') _ hlt hpid'⟩
  · rintro ⟨hlt', hfk⟩
    refine ⟨k, m.curr_proc.trans hk, hlt', ?_⟩
    rw [m.pid k hlt', hfk, m.curr_pid, hpid]

/-- The pointer survives a `remove` behind it, and no other. -/
theorem denotes_remove_iff (hz : z < s.len) : Denotes (s.remove z) ↔ k < z := by
  have hlen : (s.remove z).len = s.len - 1 := rfl
  rw [(moved_remove s z).denotes_iff h hk hlt hpid]
  split <;> omega

/-- The pointer survives a `swap_remove` when it denotes neither the entry
removed nor the one moved. -/
theorem denotes_reap_iff (hi : i < s.len) : Denotes (s.reap i) ↔ k ≠ i ∧ k + 1 < s.len := by
  have hlen : (s.reap i).len = s.len - 1 := rfl
  rw [(moved_reap hi).denotes_iff h hk hlt hpid]
  split <;> omega

end

/-! ## The scheduler -/

/-- What an event leaves: the pids stay numbered, and the pointer denotes the
current process exactly under the condition `c`. -/
def Leaves (s' : System) (c : Prop) : Prop := Numbered s' ∧ (Denotes s' ↔ c)

omit h in
theorem Leaves.congr {c : Prop} (h : Leaves s c) (hsame : SamePids s s')
    (hptr : s'.curr_proc = s.curr_proc) (hpid : s'.curr_pid = s.curr_pid) : Leaves s' c := by
  refine ⟨hsame.numbered h.1, ?_⟩
  rw [← h.2]
  exact ⟨hsame.symm.denotes hptr.symm hpid.symm, hsame.denotes hptr hpid⟩

theorem leaves_dispatch {best : Nat} (hbest : s.select.best_idx = some best) :
    Leaves (s.dispatch s.select best) s.ReapsAbove := by
  obtain ⟨hlt, hchosen⟩ := select_best_iff.mp hbest
  rw [dispatch_eq]
  have hset := samePids_setSlot s best (p := s.select.running (s.slots best)) rfl
  have hsame : SamePids s (s.make_current s.select best) := ⟨hset.len, hset.pid, hset.next_pid⟩
  generalize hs1 : s.make_current s.select best = s1 at hsame
  have hn1 := hsame.numbered h
  have hptr1 : s1.curr_proc = some best := by rw [← hs1]; rfl
  have hcur1 : (s1.slots best).pid = s1.curr_pid := by
    rw [hsame.pid, ← hs1]
    rfl
  have hlt1 : best < s1.len := by rw [hsame.len]; exact hlt
  refine Leaves.congr (s := s1.remove_zombie s.select.reap_idx) ?_ ⟨rfl, fun _ => rfl, rfl⟩ rfl rfl
  -- the pointer denotes `best` until the zombie goes
  cases hreap : s.select.reap_idx with
  | none =>
    refine ⟨hn1, iff_of_true ⟨best, hptr1, hlt1, hcur1⟩ ?_⟩
    intro _ _ _ z _ hz
    rw [select_reap_iff.mpr hz] at hreap
    cases hreap
  | some z =>
    have hz := select_reap_iff.mp hreap
    have hzlt := hz.dispatched.1
    refine ⟨(moved_remove s1 z).numbered hn1, ?_⟩
    refine (denotes_remove_iff hn1 hptr1 hlt1 hcur1 (by rw [hsame.len]; exact hzlt)).trans ?_
    constructor
    · intro hb b hblt hbchosen z' _ hz'
      rw [hbchosen.unique hchosen hblt hlt]
      rw [select_reap_iff.mpr hz'] at hreap
      cases hreap
      exact hb
    · intro habove
      exact habove best hlt hchosen z hzlt hz

/-- `schedule` makes the pointer right, unless it removes a zombie before the
entry that it dispatches. -/
theorem leaves_schedule (hd : Denotes s) (ctx : ProcessState) :
    Leaves (s.schedule ctx).2 (s.sched.time ≤ s.sched.quantum → (s.save_current ctx).ReapsAbove) := by
  unfold schedule
  split
  · rename_i hq
    have hsave := samePids_save_current s ctx
    obtain ⟨slots, hrest⟩ := s.save_current_rest ctx
    have hd1 := hsave.denotes (by rw [hrest]) (by rw [hrest]) hd
    have hn1 := hsave.numbered h
    have hcond : (s.sched.time ≤ s.sched.quantum → (s.save_current ctx).ReapsAbove) ↔
        (s.save_current ctx).ReapsAbove := ⟨fun h => h hq, fun h _ => h⟩
    rw [hcond]
    dsimp only
    split
    · obtain ⟨k, _, hlt, _⟩ := hd1
      omega
    split
    · rename_i hbest
      refine ⟨hn1, iff_of_true hd1 ?_⟩
      intro b hb hchosen
      rw [select_best_iff.mpr ⟨hb, hchosen⟩] at hbest
      cases hbest
    · rename_i best hbest
      exact leaves_dispatch hn1 hbest
  · rename_i hq
    refine ⟨⟨h.distinct, h.below⟩, iff_of_true hd ?_⟩
    intro hle
    exact absurd hle hq

omit h in
/-- An event that calls `schedule` in the table `s1`. -/
theorem leaves_scheduled {e : Event} {s1 : System} {ctx : ProcessState} (hs : s.react e = some s')
    (hsched : s.scheduled e = some (s1, ctx)) (h : Numbered s1) (hd : Denotes s1) :
    Leaves s' (s1.sched.time ≤ s1.sched.quantum → (s1.save_current ctx).ReapsAbove) := by
  obtain ⟨cr3, rfl⟩ := react_scheduled hs hsched
  exact (leaves_schedule h hd ctx).congr ⟨rfl, fun _ => rfl, rfl⟩ rfl rfl

/-! ## The other calls -/

/-- The child is the last entry, with the pid that was next. -/
theorem numbered_push {child : Process} (hpid : child.pid = s.next_pid)
    (hnext : (s.next_pid + 1).toNat = s.next_pid.toNat + 1) :
    Numbered { s.next_process.setSlot s.len child with len := s.len + 1 } := by
  have hold : ∀ i < s.len, (if i = s.len then child else s.slots i) = s.slots i :=
    fun i hi => if_neg (Nat.ne_of_lt hi)
  have hlast : (if s.len = s.len then child else s.slots s.len) = child := if_pos rfl
  constructor
  · intro i hi j hj hij
    change Process.pid (if i = s.len then child else s.slots i) =
      Process.pid (if j = s.len then child else s.slots j) at hij
    rcases Nat.lt_succ_iff_lt_or_eq.mp hi with hi' | rfl
    · rcases Nat.lt_succ_iff_lt_or_eq.mp hj with hj' | rfl
      · rw [hold i hi', hold j hj'] at hij
        exact h.distinct i hi' j hj' hij
      · rw [hold i hi', hlast, hpid] at hij
        have := h.below i hi'
        rw [hij] at this
        omega
    · rcases Nat.lt_succ_iff_lt_or_eq.mp hj with hj' | rfl
      · rw [hlast, hold j hj', hpid] at hij
        have := h.below j hj'
        rw [← hij] at this
        omega
      · rfl
  · intro i hi
    change Nat.succ (Process.pid (if i = s.len then child else s.slots i)).toNat ≤
      (s.next_pid + 1).toNat
    rw [hnext]
    rcases Nat.lt_succ_iff_lt_or_eq.mp hi with hi' | rfl
    · rw [hold i hi']
      have := h.below i hi'
      omega
    · exact Nat.le_of_eq (by rw [hlast, hpid])

theorem Numbered.fork (hs : s.step (.fork cloned) = some s') : Numbered s' := by
  rcases fork_cases hs with rfl | ⟨hnext, rfl | ⟨k, _, rfl⟩⟩
  · exact h
  · refine ⟨h.distinct, fun i hi => ?_⟩
    have := h.below i hi
    change (s.slots i).pid.toNat < (s.next_pid + 1).toNat
    omega
  · exact numbered_push h rfl hnext

theorem leaves_fork (hd : Denotes s) (hs : s.step (.fork cloned) = some s') : Leaves s' True := by
  refine ⟨h.fork hs, iff_of_true ?_ trivial⟩
  obtain ⟨k, hk, hlt, hpid⟩ := hd
  rcases fork_cases hs with rfl | ⟨_, rfl | ⟨_, _, rfl⟩⟩
  · exact ⟨k, hk, hlt, hpid⟩
  · exact ⟨k, hk, hlt, hpid⟩
  · refine ⟨k, hk, Nat.lt_succ_of_lt hlt, ?_⟩
    exact (congrArg Process.pid (setSlot_other s _ (Nat.ne_of_lt hlt))).trans hpid

theorem leaves_exec {commandline : List UInt8} {argv envp : List (List UInt8)}
    {image : Option Image} {fpu : FxSaveArea} (hd : Denotes s)
    (hs : s.step (.exec commandline argv envp image fpu) = some s') : Leaves s' True := by
  rcases exec_cases hs with rfl | ⟨k, p, hk, hpid, _, _, rfl⟩
  · exact ⟨h, iff_of_true hd trivial⟩
  · obtain ⟨k', hk', hlt, _⟩ := hd
    cases hk.symm.trans hk'
    have hset := samePids_setSlot s k hpid
    refine ⟨SamePids.numbered ⟨hset.len, hset.pid, hset.next_pid⟩ h, iff_of_true ?_ trivial⟩
    exact ⟨k, rfl, hlt, congrArg Process.pid (setSlot_same s k p)⟩

end

variable {rdi : UInt64} {fpu : FxSaveArea}

theorem leaves_exit (h : Numbered s) (hd : Denotes s) (hs : s.step (.exit rdi fpu) = some s') :
    Leaves s' (s.Careful (.call (.exit rdi fpu))) := by
  rcases exit_cases hs with ⟨hk, _⟩ | ⟨k, hk, _, hsched⟩
  · obtain ⟨k, hk', _⟩ := hd
    rw [hk] at hk'
    cases hk'
  have hsame := samePids_mark_exited s k (exit_status rdi)
  have hn1 := hsame.numbered h
  have hd1 := hsame.denotes rfl rfl hd
  have hleaves := leaves_scheduled (e := .call (.exit rdi fpu)) hs hsched
    ⟨hn1.distinct, hn1.below⟩ hd1
  refine ⟨hleaves.1, hleaves.2.trans ?_⟩
  unfold Careful
  rw [hk]
  simp [force_reschedule]

theorem leaves_page_fault (h : Numbered s) (hd : Denotes s) (hs : s.page_fault = some s') :
    Leaves s' True := by
  rcases page_fault_cases hs with rfl | ⟨k, _, _, rfl⟩
  · exact ⟨h, iff_of_true hd trivial⟩
  · have hsame := samePids_mark_exited s k 0xFFFFFFFFFFFFFFFF
    have hd1 := hsame.denotes rfl rfl hd
    refine Leaves.congr (s := s.mark_exited k 0xFFFFFFFFFFFFFFFF)
      ⟨hsame.numbered h, iff_of_true hd1 trivial⟩ ⟨rfl, fun _ => rfl, rfl⟩ rfl rfl

/-! ## waitpid -/

/-- The child that `waitpid(-1)` sleeps on: the first one of the table. -/
def picked (s : System) : Option UInt64 :=
  (s.position (fun p => p.parent_pid == s.curr_pid)).map (fun i => (s.slots i).pid)

/-- The process that a `waitpid` sleeps on. -/
def wait_target (s : System) (rdi : UInt64) : Option UInt64 :=
  if rdi = 0xFFFFFFFFFFFFFFFF then s.picked else some rdi

theorem samePids_sleep (s : System) (target_pid : UInt64) : SamePids s (s.sleep target_pid) := by
  unfold sleep
  split
  · exact ⟨rfl, fun _ => rfl, rfl⟩
  · rename_i k _
    have hset := samePids_setSlot s k
      (p := { s.slots k with status := .WaitingFor target_pid }) rfl
    exact ⟨hset.len, hset.pid, hset.next_pid⟩

/-- The three ends of `waitpid`: it reaps a zombie, it fails, or it goes to sleep. -/
theorem waitpid_cases (h : Numbered s) (rdi : UInt64) :
    (∃ i < s.len, s.Waited rdi i ∧ s.waitpid rdi = ((s.slots i).exit_code, s.reap i)) ∨
    ((∀ j < s.len, ¬s.Waited rdi j) ∧ (rdi ≠ 0xFFFFFFFFFFFFFFFF → ¬s.HasPid rdi) ∧
      ∃ e ∈ [ESRCH, ECHILD], s.waitpid rdi = (some (errno e), s)) ∨
    ((∀ j < s.len, ¬s.Waited rdi j) ∧ ∃ target_pid, s.wait_target rdi = some target_pid ∧
      s.HasPid target_pid ∧ s.waitpid rdi = (none, s.sleep target_pid)) := by
  unfold waitpid Waited wait_target
  by_cases hrdi : rdi = 0xFFFFFFFFFFFFFFFF
  · simp only [if_pos hrdi]
    cases hzombie : s.position (fun p => p.parent_pid == s.curr_pid && p.exit_code.isSome) with
    | some i =>
      obtain ⟨hi, hpass⟩ := position_spec hzombie
      simp only [Bool.and_eq_true, beq_iff_eq] at hpass
      refine Or.inl ⟨i, hi, ⟨hpass.2, hpass.1, ?_⟩, rfl⟩
      intro j hj hparent
      simpa [hparent] using (List.find?_range_eq_some.mp hzombie).2.2 j hj
    | none =>
      have halive : ∀ j < s.len, (s.slots j).parent_pid = s.curr_pid →
          (s.slots j).exit_code = none := by
        intro j hj hparent
        simpa [hparent] using position_none hzombie hj
      have hnone : ∀ j < s.len, ¬((s.slots j).exit_code.isSome = true ∧
          (s.slots j).parent_pid = s.curr_pid ∧
            ∀ k < j, (s.slots k).parent_pid = s.curr_pid → (s.slots k).exit_code = none) := by
        rintro j hj ⟨hexited, hparent, _⟩
        rw [halive j hj hparent] at hexited
        cases hexited
      cases hchild : s.position (fun p => p.parent_pid == s.curr_pid) with
      | none => exact Or.inr (Or.inl ⟨hnone, fun hne => absurd hrdi hne, ECHILD, by simp, rfl⟩)
      | some i =>
        obtain ⟨hi, hparent⟩ := position_spec hchild
        have hexit := halive i hi (by simpa using hparent)
        refine Or.inr (Or.inr ⟨hnone, (s.slots i).pid, ?_, ⟨i, hi, rfl⟩, ?_⟩)
        · unfold picked
          rw [hchild]
          rfl
        · rcases wait_for_cases s (s.slots i).pid with
            ⟨j, hj, hpid, hexited, _⟩ | ⟨hno, _⟩ | ⟨_, _, heq⟩
          · rw [h.distinct j hj i hi hpid, hexit] at hexited
            cases hexited
          · exact absurd ⟨i, hi, rfl⟩ hno
          · exact heq
  · simp only [if_neg hrdi]
    rcases wait_for_cases s rdi with ⟨i, hi, hpid, hexit, heq⟩ | ⟨hno, heq⟩ | ⟨hhas, halive, heq⟩
    · exact Or.inl ⟨i, hi, ⟨hexit, hpid⟩, heq⟩
    · refine Or.inr (Or.inl ⟨?_, fun _ => hno, ESRCH, by simp, heq⟩)
      rintro j hj ⟨_, hpid⟩
      exact hno ⟨j, hj, hpid⟩
    · refine Or.inr (Or.inr ⟨?_, rdi, rfl, hhas, heq⟩)
      rintro j hj ⟨hexited, hpid⟩
      rw [halive j hj hpid] at hexited
      cases hexited

/-- `waitpid` has one zombie to reap, or none. -/
theorem Waited.unique {j : Nat} (hw : s.Waited rdi i) (hw' : s.Waited rdi j) (h : Numbered s)
    (hi : i < s.len) (hj : j < s.len) : j = i := by
  obtain ⟨hexit, hw⟩ := hw
  obtain ⟨hexit', hw'⟩ := hw'
  by_cases hrdi : rdi = 0xFFFFFFFFFFFFFFFF
  · rw [if_pos hrdi] at hw hw'
    rcases Nat.lt_trichotomy i j with hij | hij | hij
    · rw [hw'.2 i hij hw.1] at hexit
      cases hexit
    · exact hij.symm
    · rw [hw.2 j hij hw'.1] at hexit'
      cases hexit'
  · rw [if_neg hrdi] at hw hw'
    exact h.distinct j hj i hi (hw'.trans hw.symm)

/-- No entry is reaped, and the table keeps its pids. -/
theorem leaves_asleep (h : Numbered s) (hd : Denotes s) (hnone : ∀ j < s.len, ¬s.Waited rdi j)
    (hsame : SamePids s s') (hptr : s'.curr_proc = s.curr_proc) (hpid : s'.curr_pid = s.curr_pid) :
    Leaves s' (s.Careful (.call (.waitpid rdi))) :=
  ⟨hsame.numbered h, iff_of_true (hsame.denotes hptr hpid hd)
    fun j hj hw => absurd hw (hnone j hj)⟩

theorem leaves_waitpid (h : Numbered s) (hd : Denotes s) (hs : s.step (.waitpid rdi) = some s') :
    Leaves s' (s.Careful (.call (.waitpid rdi))) := by
  simp only [step, Option.some.injEq] at hs
  subst hs
  rcases waitpid_cases h rdi with ⟨i, hi, hwaited, heq⟩ | ⟨hnone, _, _, _, heq⟩ |
    ⟨hnone, target_pid, _, _, heq⟩
  · rw [heq]
    obtain ⟨k, hk, hlt, hpid⟩ := hd
    refine ⟨(moved_reap hi).numbered h, (denotes_reap_iff h hk hlt hpid hi).trans ?_⟩
    unfold Careful
    rw [hk]
    constructor
    · rintro hside j hj hw k' ⟨⟩
      rw [hwaited.unique hw h hi hj]
      exact hside
    · intro hall
      exact hall i hi hwaited k rfl
  · rw [heq]
    exact leaves_asleep h hd hnone (SamePids.refl s) rfl rfl
  · rw [heq]
    have hcurr : (s.sleep target_pid).curr_proc = s.curr_proc ∧
        (s.sleep target_pid).curr_pid = s.curr_pid := by
      unfold sleep
      split <;> exact ⟨rfl, rfl⟩
    exact leaves_asleep h hd hnone (samePids_sleep s target_pid) hcurr.1 hcurr.2

/-! ## Runs -/

theorem leaves_react {e : Event} (h : Numbered s) (hd : Denotes s) (hs : s.react e = some s') :
    Leaves s' (s.Careful e) := by
  cases e with
  | fault => exact leaves_page_fault h hd hs
  | call a =>
    cases a with
    | fork cloned => exact leaves_fork h hd hs
    | exec commandline argv envp image => exact leaves_exec h hd hs
    | exit rdi fpu => exact leaves_exit h hd hs
    | waitpid rdi => exact leaves_waitpid h hd hs
    | schedule ctx => exact leaves_scheduled hs rfl h hd

theorem leaves_steps {s0 : System} (h : Numbered s0) (hd : Denotes s0) (hrun : CarefulSteps s0 s) :
    Numbered s ∧ Denotes s := by
  induction hrun with
  | refl => exact ⟨h, hd⟩
  | tail _ hstep ih =>
    obtain ⟨e, hcare, he⟩ := hstep
    have hleaves := leaves_react ih.1 ih.2 he
    exact ⟨hleaves.1, hleaves.2.mpr hcare⟩

theorem kmain_pids (h : Booted s) :
    s.len = 2 ∧ (s.slots 0).pid = 0 ∧ (s.slots 1).pid = 1 ∧ s.next_pid = 2 ∧
      s.curr_proc = some 1 ∧ s.curr_pid = 1 := by
  obtain ⟨_, _, _, _, _, h⟩ := h
  cases h
  exact ⟨rfl, rfl, rfl, rfl, rfl, rfl⟩

theorem kmain_denotes (h : Booted s) : Numbered s ∧ Denotes s := by
  obtain ⟨hlen, hidle, hinit, hnext, hptr, hcurr⟩ := kmain_pids h
  have hpid : ∀ i < s.len, (s.slots i).pid.toNat = i := by
    intro i hi
    have hi' : i = 0 ∨ i = 1 := by omega
    rcases hi' with rfl | rfl
    · rw [hidle]
      rfl
    · rw [hinit]
      rfl
  refine ⟨⟨?_, ?_⟩, 1, hptr, by omega, by rw [hinit, hcurr]⟩
  · intro i hi j hj hij
    rw [← hpid i hi, ← hpid j hj, hij]
  · intro i hi
    rw [hpid i hi, hnext]
    rw [hlen] at hi
    exact hi

/-- In every careful run from boot the pointer denotes the current process,
and the next event leaves it so exactly when it is careful too. -/
theorem pointer_denotes_current_iff {s0 s : System} (hboot : Booted s0) (hrun : s0.CarefulSteps s) :
    s.PointsToCurrent ∧ ∀ e s', s.react e = some s' → (s'.PointsToCurrent ↔ s.Careful e) := by
  obtain ⟨hn0, hd0⟩ := kmain_denotes hboot
  obtain ⟨hn, hd⟩ := leaves_steps hn0 hd0 hrun
  refine ⟨hn.pointsToCurrent_iff.mpr hd, ?_⟩
  intro e s' hs
  have hleaves := leaves_react hn hd hs
  rw [hleaves.1.pointsToCurrent_iff]
  exact hleaves.2

/-- The events one after the other. -/
def reacts (s : System) (es : List Event) : Option System := es.foldlM react s

/-- The events one after the other, as long as they are careful. -/
def careful_reacts (s : System) (es : List Event) : Option System :=
  es.foldlM (Runs.guarded Careful react) s

/-- Init forks process 2 and waits for it. Process 2 faults, and the scheduler
wakes init and removes the zombie behind it. -/
def fault_and_wake : List Event :=
  [.call (.fork true), .call (.waitpid 2), .call (.schedule {}), .fault, .call (.schedule {})]

theorem pointer_denotes_init :
    ∃ s, bootedKernel.careful_reacts fault_and_wake = some s ∧ s.curr_pid = 1 ∧
      s.PointsToCurrent := by
  have hrun := eq_some_getD (o := bootedKernel.careful_reacts fault_and_wake) (by decide +kernel)
    bootedKernel
  refine ⟨_, hrun, by decide +kernel, ?_⟩
  exact (pointer_denotes_current_iff booted_bootedKernel (Runs.steps_of_guarded hrun)).1

/-- Init forks processes 2 and 3 and waits for 3. Process 2 exits, and 3, the
last entry, reaps it: 3 moves to slot 2, and the pointer stays at slot 3. -/
def reap_from_the_end : List Event :=
  [.call (.fork true), .call (.fork true), .call (.waitpid 3), .call (.schedule {}),
    .call (.exit 0 .zeroed), .call (.waitpid 2)]

theorem pointer_left_behind :
    ∃ s, bootedKernel.reacts reap_from_the_end = some s ∧ s.curr_pid = 3 ∧
      (∃ j, s.IsEntry j ∧ (s.slots j).pid = 3) ∧ ¬ s.PointsToCurrent := by
  have hrun := eq_some_getD (o := bootedKernel.reacts reap_from_the_end) (by decide +kernel)
    bootedKernel
  refine ⟨_, hrun, by decide +kernel, ⟨2, by decide +kernel, by decide +kernel⟩, ?_⟩
  rintro ⟨k, hk, hentry, _⟩
  have hptr : ((bootedKernel.reacts reap_from_the_end).getD bootedKernel).curr_proc = some 3 := by
    decide +kernel
  have hout : ¬ ((bootedKernel.reacts reap_from_the_end).getD bootedKernel).IsEntry 3 := by
    decide +kernel
  cases hptr.symm.trans hk
  exact hout hentry

end System

end zenos_kernel.process
