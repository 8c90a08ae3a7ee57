-- Who releases an address space. `waitpid` tears down the table of the
-- process it reaps. The scheduler also reaps, and `exec` also drops a table,
-- and neither of them calls `teardown_address_space`. In every run that stays
-- clear of these two, each table is released exactly once.
import Zenos.Process.Calls
import Zenos.Lib.Runs
import Mathlib.Data.List.Nodup

namespace zenos_kernel.process

namespace System

/-- Table `t` is the `cr3` of an entry of `PROCESSES`. -/
def HasTable (s : System) (t : Nat) : Prop := ∃ i, s.IsEntry i ∧ (s.slots i).cr3 = t

/-- Table `t` was made by `clone_address_space` or `new_user_address_space`. -/
def Created (s : System) (t : Nat) : Prop := BOOT_TABLE < t ∧ t < s.next_table

/-- The steps that neither drop a table in `exec` nor reap in the scheduler. -/
def Clear (s : System) : Action → Prop
  | .fork _ => True
  | .waitpid _ => True
  | .exec _ _ _ _ _ => ∀ k ∈ s.curr_proc, s.IsEntry k → (s.slots k).cr3 = BOOT_TABLE
  | .exit rdi fpu => ∀ k ∈ s.curr_proc,
      ((s.mark_exited k (exit_status rdi)).force_reschedule.save_current
        { fxsave := fpu }).ReapsNothing
  | .schedule current_state => s.sched.time ≤ s.sched.quantum →
      (s.save_current current_state).ReapsNothing

instance (s : System) (i : Nat) : Decidable (s.IsEntry i) := inferInstanceAs (Decidable (i < s.len))

instance (s : System) (t : Nat) : Decidable (s.HasTable t) :=
  inferInstanceAs (Decidable (∃ i, i < s.len ∧ _))

instance (s : System) : ∀ a, Decidable (s.Clear a)
  | .fork _ => isTrue trivial
  | .waitpid _ => isTrue trivial
  | .exec _ _ _ _ _ => inferInstanceAs (Decidable (∀ k ∈ s.curr_proc, _))
  | .exit _ _ => inferInstanceAs (Decidable (∀ k ∈ s.curr_proc, _))
  | .schedule _ => inferInstanceAs (Decidable (_ → _))

/-- A run of calls. -/
def Steps : System → System → Prop := Relation.ReflTransGen (fun s s' => ∃ a, s.step a = some s')

/-- A run of calls that all meet `Clear`. -/
def ClearSteps : System → System → Prop :=
  Relation.ReflTransGen (fun s s' => ∃ a, s.Clear a ∧ s.step a = some s')

/-! ## The invariant -/

/-- The tables in use are distinct, none of them was torn down, and what was
torn down was torn down once. -/
structure Good (s : System) : Prop where
  two : 2 ≤ s.len
  idle : (s.slots 0).exit_code = none ∧ (s.slots 0).priority = 255
  init : (s.slots 1).exit_code = none ∧ (s.slots 1).pid = 1
  below : ∀ i < s.len, (s.slots i).cr3 < s.next_table
  created : ∀ i < s.len, 2 ≤ i → BOOT_TABLE < (s.slots i).cr3
  distinct : ∀ i < s.len, ∀ j < s.len, i ≠ j → BOOT_TABLE < (s.slots i).cr3 →
    (s.slots i).cr3 ≠ (s.slots j).cr3
  torn_old : ∀ t ∈ s.torn, BOOT_TABLE < t ∧ t < s.next_table
  torn_gone : ∀ t ∈ s.torn, ¬ s.HasTable t
  torn_once : s.torn.Nodup
  pointer : ∀ k, s.curr_proc = some k → 1 ≤ k

variable {s s' s'' : System} {as : List Action} {rdi : UInt64} {fpu : FxSaveArea}
  {i k : Nat}

theorem good_of_boot (h : Boot s) : Good s where
  two := Nat.le_of_eq h.len.symm
  idle := ⟨h.idle.2.1, h.idle.2.2⟩
  init := h.init.2
  below := by
    intro i hi
    rw [h.len] at hi
    rw [h.tables]
    have : i = 0 ∨ i = 1 := by omega
    rcases this with rfl | rfl
    · rw [h.idle.1]; exact Nat.one_pos
    · rw [h.init.1]; exact Nat.one_pos
  created := by intro i hi h2; rw [h.len] at hi; omega
  distinct := by
    intro i hi j hj hij hb
    rw [h.len] at hi
    have : i = 0 ∨ i = 1 := by omega
    rcases this with rfl | rfl
    · rw [h.idle.1] at hb; exact absurd hb (Nat.lt_irrefl _)
    · rw [h.init.1] at hb; exact absurd hb (Nat.lt_irrefl _)
  torn_old := by simp [h.torn]
  torn_gone := by simp [h.torn]
  torn_once := by simp [h.torn]
  pointer := by intro k hk; rw [h.current] at hk; cases hk; exact Nat.le_refl 1

/-- A step that keeps the entries in their slots, with their tables, and that
spares the idle task and init. -/
structure Keeps (s s' : System) : Prop where
  len : s'.len = s.len
  cr3 : ∀ i < s.len, (s'.slots i).cr3 = (s.slots i).cr3
  idle : (s'.slots 0).exit_code = (s.slots 0).exit_code ∧ (s'.slots 0).priority = (s.slots 0).priority
  init : (s'.slots 1).exit_code = (s.slots 1).exit_code ∧ (s'.slots 1).pid = (s.slots 1).pid
  tables : s'.next_table = s.next_table
  torn : s'.torn = s.torn
  pointer : ∀ k, s'.curr_proc = some k → s.curr_proc = some k ∨ 1 ≤ k

theorem Keeps.refl (s : System) : Keeps s s :=
  ⟨rfl, fun _ _ => rfl, ⟨rfl, rfl⟩, ⟨rfl, rfl⟩, rfl, rfl, fun _ h => Or.inl h⟩

theorem Keeps.trans (h : Keeps s s') (h' : Keeps s' s'') : Keeps s s'' where
  len := h'.len.trans h.len
  cr3 := fun i hi => (h'.cr3 i (by rw [h.len]; exact hi)).trans (h.cr3 i hi)
  idle := ⟨h'.idle.1.trans h.idle.1, h'.idle.2.trans h.idle.2⟩
  init := ⟨h'.init.1.trans h.init.1, h'.init.2.trans h.init.2⟩
  tables := h'.tables.trans h.tables
  torn := h'.torn.trans h.torn
  pointer := by
    intro k hk
    rcases h'.pointer k hk with h1 | h1
    · exact h.pointer k h1
    · exact Or.inr h1

theorem Keeps.hasTable (h : Keeps s s') (t : Nat) : s'.HasTable t ↔ s.HasTable t := by
  constructor
  · rintro ⟨i, hi, hc⟩
    have hi' : i < s.len := by rw [← h.len]; exact hi
    exact ⟨i, hi', by rw [← h.cr3 i hi', hc]⟩
  · rintro ⟨i, hi, hc⟩
    exact ⟨i, by unfold IsEntry; rw [h.len]; exact hi, by rw [h.cr3 i hi, hc]⟩

theorem Keeps.good (h : Keeps s s') (g : Good s) : Good s' where
  two := by rw [h.len]; exact g.two
  idle := by rw [h.idle.1, h.idle.2]; exact g.idle
  init := by rw [h.init.1, h.init.2]; exact g.init
  below := by intro i hi; rw [h.len] at hi; rw [h.cr3 i hi, h.tables]; exact g.below i hi
  created := by intro i hi h2; rw [h.len] at hi; rw [h.cr3 i hi]; exact g.created i hi h2
  distinct := by
    intro i hi j hj hij
    rw [h.len] at hi hj
    rw [h.cr3 i hi, h.cr3 j hj]
    exact g.distinct i hi j hj hij
  torn_old := by rw [h.torn, h.tables]; exact g.torn_old
  torn_gone := by intro t ht; rw [h.torn] at ht; rw [h.hasTable]; exact g.torn_gone t ht
  torn_once := by rw [h.torn]; exact g.torn_once
  pointer := by
    intro k hk
    rcases h.pointer k hk with h1 | h1
    · exact g.pointer k h1
    · exact h1

/-- A change of one slot that keeps its table, its exit code, its pid and its
priority. -/
theorem keeps_setSlot (s : System) (i : Nat) (p : Process) (hc : p.cr3 = (s.slots i).cr3)
    (he : p.exit_code = (s.slots i).exit_code) (hp : p.pid = (s.slots i).pid)
    (hq : p.priority = (s.slots i).priority) : Keeps s (s.setSlot i p) := by
  have hall : ∀ j, ((s.setSlot i p).slots j).cr3 = (s.slots j).cr3 ∧
      ((s.setSlot i p).slots j).exit_code = (s.slots j).exit_code ∧
      ((s.setSlot i p).slots j).pid = (s.slots j).pid ∧
      ((s.setSlot i p).slots j).priority = (s.slots j).priority := by
    intro j
    by_cases hj : j = i
    · subst hj; simp [hc, he, hp, hq]
    · simp [setSlot_other s p hj]
  exact ⟨rfl, fun j _ => (hall j).1, ⟨(hall 0).2.1, (hall 0).2.2.2⟩, ⟨(hall 1).2.1, (hall 1).2.2.1⟩,
    rfl, rfl, fun _ h => Or.inl h⟩

/-! ## What a call does to the tables -/

/-- What a clear call can do: the invariant stays, and a table that leaves the
process table is torn down. -/
structure Releases (s s' : System) : Prop where
  good : Good s'
  left : ∀ t, BOOT_TABLE < t → s.HasTable t → s'.HasTable t ∨ t ∈ s'.torn
  kept : ∀ t ∈ s.torn, t ∈ s'.torn
  tables : s.next_table ≤ s'.next_table

theorem Keeps.releases (h : Keeps s s') (g : Good s) : Releases s s' where
  good := h.good g
  left := fun t _ ht => Or.inl ((h.hasTable t).mpr ht)
  kept := by rw [h.torn]; exact fun _ ht => ht
  tables := Nat.le_of_eq h.tables.symm

section

variable (g : Good s)

include g

/-- An entry with an exit code is neither the idle task nor init. -/
theorem two_le_of_exited (h : (s.slots i).exit_code.isSome = true) : 2 ≤ i := by
  by_contra hc
  have : i = 0 ∨ i = 1 := by omega
  rcases this with rfl | rfl
  · rw [g.idle.1] at h; cases h
  · rw [g.init.1] at h; cases h

theorem releases_reap (hi : i < s.len)
    (hx : (s.slots i).exit_code.isSome = true) : Releases s (s.reap i) := by
  have h2 := two_le_of_exited g hx
  have hlen : (s.reap i).len = s.len - 1 := rfl
  have htorn : (s.reap i).torn = (s.slots i).cr3 :: s.torn := rfl
  have hslot := reap_slots s i
  -- the slot that entry `j` of the new table comes from
  have hfrom : ∀ j < (s.reap i).len, (if j = i then s.len - 1 else j) < s.len ∧
      (if j = i then s.len - 1 else j) ≠ i := by
    intro j hj
    split <;> omega
  have hlow : ∀ j < 2, (s.reap i).slots j = s.slots j := by
    intro j hj
    rw [hslot, if_neg (by omega)]
  have hgone : ¬ (s.reap i).HasTable (s.slots i).cr3 := by
    rintro ⟨j, hj, hc⟩
    rw [hslot] at hc
    have hf := hfrom j hj
    exact g.distinct i hi _ hf.1 (Ne.symm hf.2) (g.created i hi h2) hc.symm
  have hsub : ∀ t, (s.reap i).HasTable t → s.HasTable t := by
    rintro t ⟨j, hj, hc⟩
    rw [hslot] at hc
    exact ⟨_, (hfrom j hj).1, hc⟩
  refine ⟨?_, ?_, ?_, Nat.le_refl _⟩
  · refine ⟨by omega, ?_, ?_, ?_, ?_, ?_, ?_, ?_, ?_, g.pointer⟩
    · rw [hlow 0 (by omega)]; exact g.idle
    · rw [hlow 1 (by omega)]; exact g.init
    · intro j hj
      rw [hslot]
      exact g.below _ (hfrom j hj).1
    · intro j hj hj2
      rw [hslot]
      refine g.created _ (hfrom j hj).1 ?_
      split <;> omega
    · intro j hj k hk hjk
      rw [hslot, hslot]
      refine g.distinct _ (hfrom j hj).1 _ (hfrom k hk).1 ?_
      split <;> split <;> omega
    · exact List.forall_mem_cons.mpr ⟨⟨g.created i hi h2, g.below i hi⟩, g.torn_old⟩
    · refine List.forall_mem_cons.mpr ⟨hgone, ?_⟩
      exact fun t h hh => g.torn_gone t h (hsub t hh)
    · rw [htorn, List.nodup_cons]
      exact ⟨fun h => g.torn_gone _ h ⟨i, hi, rfl⟩, g.torn_once⟩
  · rintro t _ ⟨j, hj, hc⟩
    by_cases hji : j = i
    · right
      subst hji
      rw [htorn, hc]
      exact List.mem_cons_self
    · left
      obtain ⟨k, hk, hkj⟩ := reap_goes_to hi hj hji
      exact ⟨k, hk, by rw [hkj, hc]⟩
  · intro t ht
    exact List.mem_cons_of_mem _ ht

omit g in
theorem Releases.trans (h : Releases s s') (h' : Releases s' s'') : Releases s s'' where
  good := h'.good
  left := by
    intro t hb ht
    rcases h.left t hb ht with h1 | h1
    · exact h'.left t hb h1
    · exact Or.inr (h'.kept t h1)
  kept := fun t ht => h'.kept t (h.kept t ht)
  tables := Nat.le_trans h.tables h'.tables

/-- A new table that no entry has yet. -/
theorem releases_new_table (next_pid : UInt64) :
    Releases s { s.new_table with next_pid := next_pid } where
  good :=
    ⟨g.two, g.idle, g.init, fun i hi => Nat.lt_succ_of_lt (g.below i hi), g.created, g.distinct,
      fun t ht => ⟨(g.torn_old t ht).1, Nat.lt_succ_of_lt (g.torn_old t ht).2⟩, g.torn_gone,
      g.torn_once, g.pointer⟩
  left := fun _ _ ht => Or.inl ht
  kept := fun _ ht => ht
  tables := Nat.le_succ _

/-- Table `t` exists, and it is neither in use nor torn down. -/
structure Spare (s : System) (t : Nat) : Prop where
  created : s.Created t
  unused : ¬ s.HasTable t
  not_torn : t ∉ s.torn

theorem spare_new_table (next_pid : UInt64) :
    Spare { s.new_table with next_pid := next_pid } s.next_table where
  created := by
    refine ⟨?_, Nat.lt_succ_self _⟩
    have := g.below 0 (by have := g.two; omega)
    exact Nat.lt_of_le_of_lt (Nat.zero_le _) this
  unused := by
    rintro ⟨i, hi, hc⟩
    have hlt := g.below i hi
    change (s.slots i).cr3 = s.next_table at hc
    omega
  not_torn := fun ht => Nat.lt_irrefl _ (g.torn_old _ ht).2

/-- An entry gets table `t`: a new entry at the end, or an entry that was on
the boot table. -/
theorem releases_install (hk : 1 ≤ k) (hspare : Spare s (s'.slots k).cr3)
    (hother : ∀ j < s.len, j ≠ k → (s'.slots j).cr3 = (s.slots j).cr3)
    (hold : k < s.len → (s.slots k).cr3 = BOOT_TABLE)
    (hlen : s'.len = s.len ∨ (s'.len = s.len + 1 ∧ k = s.len)) (hidle : s'.slots 0 = s.slots 0)
    (hinit : (s'.slots 1).exit_code = none ∧ (s'.slots 1).pid = 1)
    (htab : s'.next_table = s.next_table) (htorn : s'.torn = s.torn)
    (hptr : ∀ k, s'.curr_proc = some k → 1 ≤ k) : Releases s s' := by
  have hcase : ∀ j < s'.len, j = k ∨ (j ≠ k ∧ j < s.len) := by
    intro j hj
    rcases hlen with h | ⟨h, h'⟩
    · omega
    · omega
  have hne : ∀ j < s.len, (s.slots j).cr3 ≠ (s'.slots k).cr3 :=
    fun j hj hc => hspare.unused ⟨j, hj, hc⟩
  have hle : s.len ≤ s'.len := by
    rcases hlen with h | ⟨h, _⟩
    · omega
    · omega
  have htable : ∀ t, s'.HasTable t → s.HasTable t ∨ t = (s'.slots k).cr3 := by
    rintro t ⟨j, hj, hc⟩
    rcases hcase j hj with h | ⟨h, hj'⟩
    · subst h; exact Or.inr hc.symm
    · rw [hother j hj' h] at hc; exact Or.inl ⟨j, hj', hc⟩
  refine ⟨⟨by have := g.two; omega, by rw [hidle]; exact g.idle, hinit, ?_, ?_, ?_, ?_, ?_, ?_, hptr⟩,
    ?_, ?_, Nat.le_of_eq htab.symm⟩
  · intro j hj
    rw [htab]
    rcases hcase j hj with h | ⟨h, hj'⟩
    · subst h; exact hspare.created.2
    · rw [hother j hj' h]; exact g.below j hj'
  · intro j hj h2
    rcases hcase j hj with h | ⟨h, hj'⟩
    · subst h; exact hspare.created.1
    · rw [hother j hj' h]; exact g.created j hj' h2
  · intro i hi j hj hij hb
    rcases hcase i hi with h | ⟨h, hi'⟩ <;> rcases hcase j hj with h' | ⟨h', hj'⟩
    · omega
    · subst h
      rw [hother j hj' h']
      exact (hne j hj').symm
    · subst h'
      rw [hother i hi' h]
      exact hne i hi'
    · rw [hother i hi' h] at hb ⊢
      rw [hother j hj' h']
      exact g.distinct i hi' j hj' hij hb
  · rw [htorn, htab]; exact g.torn_old
  · intro t ht
    rw [htorn] at ht
    intro hh
    rcases htable t hh with h | h
    · exact g.torn_gone t ht h
    · subst h; exact hspare.not_torn ht
  · rw [htorn]; exact g.torn_once
  · rintro t hb ⟨j, hj, hc⟩
    left
    by_cases hjk : j = k
    · subst hjk
      rw [hold hj] at hc
      subst hc
      exact absurd hb (Nat.lt_irrefl _)
    · exact ⟨j, Nat.lt_of_lt_of_le hj hle, by rw [hother j hj hjk, hc]⟩
  · rw [htorn]; exact fun _ ht => ht

theorem releases_fork {cloned : Bool} (h : s.step (.fork cloned) = some s') : Releases s s' := by
  have hnew : Releases s s.next_process := releases_new_table g (s.next_pid + 1)
  have hspare : Spare s.next_process s.next_table := spare_new_table g (s.next_pid + 1)
  rcases fork_cases h with rfl | ⟨_, rfl | ⟨k, _, rfl⟩⟩
  · exact (Keeps.refl s').releases g
  · exact hnew
  -- the table has room: the child is the last entry
  generalize hchild : s.fork_from (s.slots k) (child_state (s.slots k)) s.next_table = child
  have hcr3 : child.cr3 = s.next_table := by rw [← hchild]; rfl
  have hlen : s.next_process.len = s.len := rfl
  have h2 := g.two
  refine hnew.trans (releases_install hnew.good (k := s.len) (by omega) ?_ ?_ ?_
    (Or.inr ⟨rfl, rfl⟩) ?_ ?_ rfl rfl hnew.good.pointer)
  · simpa [hcr3] using hspare
  · intro j hj hne
    simp [setSlot_other s.next_process child hne]
  · intro hlt; omega
  · simp [setSlot_other s.next_process child (show 0 ≠ s.len by omega)]
  · simpa [setSlot_other s.next_process child (show 1 ≠ s.len by omega)] using hnew.good.init

theorem releases_exec {commandline : List UInt8} {argv envp : List (List UInt8)}
    {image : Option Image} (hc : s.Clear (.exec commandline argv envp image fpu))
    (h : s.step (.exec commandline argv envp image fpu) = some s') : Releases s s' := by
  rcases exec_cases h with rfl | ⟨k, p, hk, hpid, hexit, hcr3, rfl⟩
  · exact (Keeps.refl s').releases g
  have hk1 : 1 ≤ k := g.pointer k hk
  have hnew := releases_new_table g s.next_pid
  have hspare := spare_new_table g s.next_pid
  refine hnew.trans (releases_install hnew.good hk1 ?_ ?_ ?_ (Or.inl rfl) ?_ ?_ rfl rfl ?_)
  · simpa [set_current, hcr3] using hspare
  · intro j _ hne
    simp [set_current, setSlot, hne]
  · intro hlt
    exact hc k hk hlt
  · have : (0 : Nat) ≠ k := by omega
    simp [set_current, setSlot, this]
  · by_cases h1 : 1 = k
    · subst h1
      simpa [set_current, hexit, hpid] using g.init
    · simpa [set_current, setSlot, h1, new_table] using g.init
  · intro j hj
    simp only [set_current, Option.some.injEq] at hj
    omega

/-! ## exit, waitpid and schedule -/

omit g in
theorem keeps_save_current (s : System) (ctx : ProcessState) : Keeps s (s.save_current ctx) := by
  rcases s.save_current_cases ctx with h | ⟨j, -, -, h⟩
  · rw [h]
    exact Keeps.refl s
  · rw [h]
    exact keeps_setSlot s _ _ rfl rfl rfl rfl

/-- Without a zombie to remove, a dispatch changes a status, a register and
the current process. -/
theorem keeps_dispatch {best : Nat} (hbest : s.select.best_idx = some best)
    (hreap : s.select.reap_idx = none) : Keeps s (s.dispatch s.select best) := by
  have h1 : 1 ≤ best := by
    have hb := ((scanned_range s s.len).best best hbest).2
    rcases Nat.eq_zero_or_pos best with h | h
    · subst h
      rw [g.idle.2] at hb
      exact absurd hb (by decide)
    · exact h
  have hset := keeps_setSlot s best (s.select.running (s.slots best)) rfl rfl rfl rfl
  rw [dispatch_eq, hreap]
  refine ⟨hset.len, hset.cr3, hset.idle, hset.init, hset.tables, hset.torn, ?_⟩
  rintro k hk
  cases hk
  exact Or.inr h1

theorem keeps_schedule (ctx : ProcessState)
    (h : s.sched.time ≤ s.sched.quantum → (s.save_current ctx).ReapsNothing) :
    Keeps s (s.schedule ctx).2 := by
  unfold schedule
  split
  · rename_i hq
    have hsave := keeps_save_current s ctx
    have hr := select_reap_none (h hq)
    dsimp only
    split
    · exact hsave
    · split
      · exact hsave
      · rename_i best hbest
        exact hsave.trans (keeps_dispatch (hsave.good g) hbest hr)
  · exact ⟨rfl, fun _ _ => rfl, ⟨rfl, rfl⟩, ⟨rfl, rfl⟩, rfl, rfl, fun _ h => Or.inl h⟩

omit g in
theorem keeps_force_reschedule (s : System) : Keeps s s.force_reschedule :=
  ⟨rfl, fun _ _ => rfl, ⟨rfl, rfl⟩, ⟨rfl, rfl⟩, rfl, rfl, fun _ h => Or.inl h⟩

/-- An event that calls `schedule` where the scan reaps nothing. -/
theorem keeps_scheduled {e : Event} {s1 : System} {ctx : ProcessState}
    (hkeeps : Keeps s s1) (hs : s.react e = some s') (hsched : s.scheduled e = some (s1, ctx))
    (h : s1.sched.time ≤ s1.sched.quantum → (s1.save_current ctx).ReapsNothing) : Keeps s s' := by
  obtain ⟨cr3, rfl⟩ := react_scheduled hs hsched
  have hleft := hkeeps.trans (keeps_schedule (hkeeps.good g) ctx h)
  exact ⟨hleft.len, hleft.cr3, hleft.idle, hleft.init, hleft.tables, hleft.torn, hleft.pointer⟩

omit g in
/-- A zombie is never the idle task and never init. -/
theorem keeps_mark_exited (hk : 2 ≤ k) (code : UInt64) : Keeps s (s.mark_exited k code) := by
  have hslot := mark_exited_slots s k code
  refine ⟨rfl, fun i _ => by rw [hslot], ⟨?_, by rw [hslot]⟩, ⟨?_, by rw [hslot]⟩, rfl, rfl,
    fun _ h => Or.inl h⟩
  · rw [hslot]
    exact if_neg (by omega)
  · rw [hslot]
    exact if_neg (by omega)

theorem releases_exit (hc : s.Clear (.exit rdi fpu))
    (h : s.step (.exit rdi fpu) = some s') : Releases s s' := by
  rcases exit_cases h with ⟨_, rfl⟩ | ⟨k, hk, hpid, hsched⟩
  · exact (Keeps.refl s').releases g
  have hk2 : 2 ≤ k := by
    have hk1 := g.pointer k hk
    by_contra hlt
    have hk0 : k = 1 := by omega
    subst hk0
    exact hpid g.init.2
  have hmark := keeps_mark_exited (s := s) hk2 (exit_status rdi)
  exact (keeps_scheduled (e := .call (.exit rdi fpu)) g (hmark.trans (keeps_force_reschedule _)) h
    hsched (fun _ => hc k hk)).releases g

omit g in
theorem keeps_sleep (s : System) (target_pid : UInt64) : Keeps s (s.sleep target_pid) := by
  unfold sleep
  split
  · exact keeps_force_reschedule s
  · rename_i k _
    have hset := keeps_setSlot s k { s.slots k with status := .WaitingFor target_pid }
      rfl rfl rfl rfl
    exact hset.trans (keeps_force_reschedule _)

theorem releases_waitpid (h : s.step (.waitpid rdi) = some s') : Releases s s' := by
  simp only [step, Option.some.injEq] at h
  subst h
  rcases waitpid_ends s rdi with ⟨i, hi, hexit, heq⟩ | ⟨_, heq⟩ | ⟨target_pid, heq⟩
  · rw [heq]
    exact releases_reap g hi hexit
  · rw [heq]
    exact (Keeps.refl s).releases g
  · rw [heq]
    exact (keeps_sleep s target_pid).releases g

theorem releases_step {a : Action} (hc : s.Clear a) (h : s.step a = some s') : Releases s s' := by
  cases a with
  | fork cloned => exact releases_fork g h
  | exec commandline argv envp image => exact releases_exec g hc h
  | exit rdi fpu => exact releases_exit g hc h
  | waitpid rdi => exact releases_waitpid g h
  | schedule ctx =>
    exact (keeps_scheduled (e := .call (.schedule ctx)) g (Keeps.refl s) h rfl hc).releases g

theorem releases_steps (h : s.ClearSteps s') : Releases s s' := by
  induction h with
  | refl => exact (Keeps.refl s).releases g
  | tail _ hstep ih =>
    obtain ⟨a, hc, ha⟩ := hstep
    exact ih.trans (releases_step ih.good hc ha)

end

/-! ## Runs on given calls -/

/-- The calls one after the other. -/
def run (s : System) (as : List Action) : Option System := as.foldlM step s

/-- Every call of the list meets `Clear` where it is made. -/
def ClearRun (s : System) : List Action → Prop
  | [] => True
  | a :: as => s.Clear a ∧ ∀ s' ∈ s.step a, s'.ClearRun as

instance decidableClearRun (s : System) : ∀ as, Decidable (s.ClearRun as)
  | [] => isTrue trivial
  | a :: as =>
    have : DecidablePred (fun s' : System => s'.ClearRun as) := fun s' => decidableClearRun s' as
    inferInstanceAs (Decidable (s.Clear a ∧ ∀ s' ∈ s.step a, _))

theorem steps_of_run (h : s.run as = some s') : s.Steps s' :=
  Runs.steps_of_run (fun _ a _ h => ⟨a, h⟩) h

theorem clearSteps_of_run (hc : s.ClearRun as) (h : s.run as = some s') : s.ClearSteps s' := by
  induction as generalizing s with
  | nil => cases h; exact .refl
  | cons a as ih =>
    obtain ⟨s1, h1, h2⟩ := Option.bind_eq_some_iff.mp h
    exact Relation.ReflTransGen.head ⟨a, hc.1, h1⟩ (ih (hc.2 s1 h1) h2)

/-! ## The law -/

/-- Every address space is released exactly once, in every run of clear calls:
a created table that was the `cr3` of an entry and no longer is one was torn
down exactly once, and a table in use was never torn down. -/
theorem every_table_is_released_once {s0 s s' : System} (hboot : Boot s0)
    (hrun : s0.ClearSteps s) (hrun' : s.ClearSteps s') :
    (∀ t, s.Created t → s.HasTable t → ¬ s'.HasTable t → s'.torn.count t = 1) ∧
      ∀ t, s'.HasTable t → t ∉ s'.torn := by
  have g := (releases_steps (good_of_boot hboot) hrun).good
  have r := releases_steps g hrun'
  refine ⟨?_, fun t ht htorn => r.good.torn_gone t htorn ht⟩
  intro t hcreated ht hgone
  rcases r.left t hcreated.1 ht with h | h
  · exact absurd h hgone
  · exact List.count_eq_one_of_mem r.good.torn_once h

/-- A kernel that has just booted. -/
def bootedKernel : System :=
  let unused : Process :=
    ⟨0, 0, [], {}, .Created, 0, 0, 0, fun _ => none, 0, false, 0, none, [], [], 0⟩
  (kmain unused 0x1000 0x9000 ⟨0, 0x4000, 0x400, 0x400, 0x24000, 0x24000⟩ .zeroed).getD
    (empty unused 0x1000 0x9000)

theorem booted_bootedKernel : Booted bootedKernel := ⟨_, _, _, _, _, rfl⟩

/-- The state after the calls, for a run without a panic. -/
def after (s : System) (as : List Action) : System := (s.run as).getD s

theorem eq_some_getD {α : Type} {o : Option α} (h : o.isSome = true) (a : α) :
    o = some (o.getD a) := by
  cases o with
  | none => cases h
  | some _ => rfl

/-- Init forks processes 2, 3 and 4 and waits for 2, which waits for 4. So 3
runs; it exits, 4 runs, and 4 reaps 3. -/
theorem waitpid_releases_the_table_of_process_three :
    let s := bootedKernel.after
      [.fork true, .fork true, .fork true, .waitpid 2, .schedule {}, .waitpid 4, .schedule {}]
    let s' := s.after [.exit 0 .zeroed, .waitpid 3]
    s.HasTable 2 ∧ ¬ s'.HasTable 2 ∧ s'.torn.count 2 = 1 := by
  intro s s'
  have hs : bootedKernel.ClearSteps s :=
    clearSteps_of_run (by decide +kernel) (eq_some_getD (by decide +kernel) _)
  have hs' : s.ClearSteps s' :=
    clearSteps_of_run (by decide +kernel) (eq_some_getD (by decide +kernel) _)
  have hin : s.HasTable 2 := by decide +kernel
  have hout : ¬ s'.HasTable 2 := by decide +kernel
  have hcreated : s.Created 2 := ⟨by decide, by decide +kernel⟩
  exact ⟨hin, hout,
    (every_table_is_released_once (kmain_spec booted_bootedKernel) hs hs').1 2 hcreated hin hout⟩

/-- Init forks process 2 and waits for it. Process 2 exits, and the scheduler
removes it: its table is never torn down. -/
theorem the_scheduler_drops_a_table :
    ¬ ∀ s0 s s' : System, Boot s0 → s0.Steps s → s.Steps s' →
      (∀ t, s.Created t → s.HasTable t → ¬ s'.HasTable t → s'.torn.count t = 1) ∧
        ∀ t, s'.HasTable t → t ∉ s'.torn := by
  intro h
  let s := bootedKernel.after [.fork true, .waitpid 2, .schedule {}]
  let s' := s.after [.exit 0 .zeroed]
  have hs : bootedKernel.Steps s := steps_of_run (eq_some_getD (by decide +kernel) _)
  have hs' : s.Steps s' := steps_of_run (eq_some_getD (by decide +kernel) _)
  have hcount := (h bootedKernel s s' (kmain_spec booted_bootedKernel) hs hs').1 1
    ⟨by decide, by decide +kernel⟩ (by decide +kernel) (by decide +kernel)
  have hzero : s'.torn.count 1 = 0 := by decide +kernel
  omega

end System

end zenos_kernel.process
