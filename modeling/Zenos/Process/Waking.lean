-- What the scan of `Scheduler::schedule` decides about waiters: the last
-- waiter that beats every entry before it names the zombie to remove.
import Zenos.Process.Scheduler

namespace zenos_kernel.process

namespace System

variable (s : System)

/-- An entry of status `st` competes in the scan. -/
def Runnable : ProcessStatus → Prop
  | .Ready => True
  | .Blocked flag => s.flags flag = false
  | .WaitingFor target_pid => s.wakes target_pid = true
  | .Running | .Created | .Exited => False

instance (s : System) : ∀ st, Decidable (s.Runnable st)
  | .Ready => isTrue trivial
  | .Blocked flag => inferInstanceAs (Decidable (s.flags flag = false))
  | .WaitingFor target_pid => inferInstanceAs (Decidable (s.wakes target_pid = true))
  | .Running | .Created | .Exited => isFalse id

/-- Entry `j` competes in the scan. -/
def CanRun (j : Nat) : Prop := s.Runnable (s.slots j).status

instance (s : System) (j : Nat) : Decidable (s.CanRun j) :=
  inferInstanceAs (Decidable (s.Runnable (s.slots j).status))

/-- Entry `i` is a waiter that can be woken, and it beats every entry before
it that can run. -/
def Woken (i : Nat) : Prop :=
  (s.slots i).status.target.isSome = true ∧ s.CanRun i ∧ (s.slots i).priority < 255 ∧
    ∀ j < i, s.CanRun j → (s.slots i).priority < (s.slots j).priority

instance (s : System) (i : Nat) : Decidable (s.Woken i) := inferInstanceAs (Decidable (_ ∧ _))

/-- No zombie is removed by the next scan: the last waiter woken waits for a
process that is no longer in the table. -/
def ReapsNothing : Prop :=
  ∀ i < s.len, s.Woken i → (∀ j < s.len, i < j → ¬ s.Woken j) →
    ∀ target_pid ∈ (s.slots i).status.target, s.target_idx target_pid = none

instance (s : System) : ∀ target : Option UInt64,
    Decidable (∀ target_pid ∈ target, s.target_idx target_pid = none)
  | none => isTrue (fun _ h => by cases h)
  | some target_pid => decidable_of_iff (s.target_idx target_pid = none) (by simp)

instance (s : System) : Decidable s.ReapsNothing := inferInstanceAs (Decidable (∀ i < s.len, _))

/-- The exit code that a waiter gets. -/
def exit_code_of (target_pid : UInt64) : UInt64 :=
  ((s.target_idx target_pid).bind (fun idx => (s.slots idx).exit_code)).getD 0xFFFFFFFFFFFFFFFF

/-- One turn takes entry `n` as the best, and a waiter then names the zombie and the exit
code; or it leaves all four variables alone. -/
theorem scan_cases (pick : Pick) (n : Nat) :
    (s.CanRun n ∧ (s.slots n).priority < pick.best_priority ∧ (s.scan pick n).best_idx = some n ∧
      (s.scan pick n).best_priority = (s.slots n).priority ∧
      ((s.slots n).status.target = none ∧ (s.scan pick n).reap_idx = pick.reap_idx ∧
          (s.scan pick n).wake_idx = pick.wake_idx ∨
        ∃ target_pid, (s.slots n).status.target = some target_pid ∧
          (s.scan pick n).reap_idx = s.target_idx target_pid ∧
          (s.scan pick n).wake_idx = some (n, s.exit_code_of target_pid))) ∨
    s.scan pick n = pick ∧ (s.CanRun n → ¬ (s.slots n).priority < pick.best_priority) := by
  unfold scan CanRun
  dsimp only
  cases hst : (s.slots n).status with
  | Running | Created | Exited => exact Or.inr ⟨rfl, nofun⟩
  | Ready =>
    dsimp only
    split
    · rename_i hlt
      exact Or.inl ⟨trivial, hlt, rfl, rfl, Or.inl ⟨rfl, rfl, rfl⟩⟩
    · rename_i hle
      exact Or.inr ⟨rfl, fun _ => hle⟩
  | Blocked flag =>
    dsimp only
    split
    · rename_i h
      exact Or.inl ⟨h.1, h.2, rfl, rfl, Or.inl ⟨rfl, rfl, rfl⟩⟩
    · rename_i hle
      exact Or.inr ⟨rfl, fun hrun hlt => hle ⟨hrun, hlt⟩⟩
  | WaitingFor target_pid =>
    dsimp only
    split
    · rename_i h
      exact Or.inl ⟨h.1, h.2, rfl, rfl, Or.inr ⟨target_pid, rfl, rfl, rfl⟩⟩
    · rename_i hle
      exact Or.inr ⟨rfl, fun hrun hlt => hle ⟨hrun, hlt⟩⟩

/-- What the four variables hold after the first `n` entries. -/
structure Scanned (s : System) (n : Nat) (pick : Pick) : Prop where
  below : ∀ j < n, s.CanRun j → pick.best_priority ≤ (s.slots j).priority
  reached : pick.best_priority = 255 ∨
    ∃ j < n, s.CanRun j ∧ pick.best_priority = (s.slots j).priority
  best : ∀ i, pick.best_idx = some i → i < n ∧ (s.slots i).priority < 255
  reap : ((∀ j < n, ¬ s.Woken j) ∧ pick.reap_idx = none ∧ pick.wake_idx = none) ∨
    ∃ i < n, s.Woken i ∧ (∀ j < n, i < j → ¬ s.Woken j) ∧
      ∃ target_pid ∈ (s.slots i).status.target, pick.reap_idx = s.target_idx target_pid ∧
        pick.wake_idx = some (i, s.exit_code_of target_pid)

theorem scanned_start : Scanned s 0 Pick.start where
  below := fun j hj => absurd hj (Nat.not_lt_zero j)
  reached := Or.inl rfl
  best := fun i hi => by simp [Pick.start] at hi
  reap := Or.inl ⟨fun j hj => absurd hj (Nat.not_lt_zero j), rfl, rfl⟩

variable {n b : Nat} {pick : Pick} {s : System}

section

variable (h : Scanned s n pick)

include h

/-- An entry that beats the best so far beats every entry before it. -/
theorem beats_all (hlt : (s.slots n).priority < pick.best_priority) : (s.slots n).priority < 255 ∧
      ∀ j < n, s.CanRun j → (s.slots n).priority < (s.slots j).priority := by
  constructor
  · rcases h.reached with h1 | ⟨j, _, _, h1⟩
    · rw [h1] at hlt; exact hlt
    · refine UInt8.lt_of_lt_of_le hlt ?_
      rw [UInt8.le_iff_toNat_le]
      have := pick.best_priority.toNat_lt
      show _ ≤ 255
      omega
  · intro j hj hr
    exact UInt8.lt_of_lt_of_le hlt (h.below j hj hr)

/-- An entry that does not beat the best so far is not woken. -/
theorem not_woken_of_le (hle : ¬ (s.slots n).priority < pick.best_priority) : ¬ s.Woken n := by
  rintro ⟨_, _, h255, hall⟩
  rcases h.reached with h1 | ⟨j, hj, hr, h1⟩
  · rw [h1] at hle; exact hle h255
  · rw [h1] at hle; exact hle (hall j hj hr)

/-- Taking entry `n` as the best keeps the first three parts. -/
theorem below_take (hlt : (s.slots n).priority < pick.best_priority) :
    ∀ j < n + 1, s.CanRun j → (s.slots n).priority ≤ (s.slots j).priority := by
  refine Nat.forall_lt_succ_right.mpr ⟨fun j hj hr => ?_, fun _ => UInt8.le_refl _⟩
  exact UInt8.le_of_lt ((beats_all h hlt).2 j hj hr)

/-- An entry that is not woken leaves the zombie and the exit code as they were. -/
theorem reap_skip (hn : ¬ s.Woken n) :
    ((∀ j < n + 1, ¬ s.Woken j) ∧ pick.reap_idx = none ∧ pick.wake_idx = none) ∨
      ∃ i < n + 1, s.Woken i ∧ (∀ j < n + 1, i < j → ¬ s.Woken j) ∧
        ∃ target_pid ∈ (s.slots i).status.target, pick.reap_idx = s.target_idx target_pid ∧
          pick.wake_idx = some (i, s.exit_code_of target_pid) := by
  rcases h.reap with ⟨h1, h2⟩ | ⟨i, hi, hw, hl, ht⟩
  · exact Or.inl ⟨Nat.forall_lt_succ_right.mpr ⟨h1, hn⟩, h2⟩
  · exact Or.inr ⟨i, by omega, hw, Nat.forall_lt_succ_right.mpr ⟨hl, fun _ => hn⟩, ht⟩

/-- The scan passes over entry `n`: it cannot run, or it does not beat the
best so far. -/
theorem scanned_skip (hn : s.CanRun n → ¬ (s.slots n).priority < pick.best_priority) :
    Scanned s (n + 1) pick where
  below := Nat.forall_lt_succ_right.mpr ⟨h.below, fun hr => UInt8.not_lt.mp (hn hr)⟩
  reached := by
    rcases h.reached with h1 | ⟨j, hj, hr, h1⟩
    · exact Or.inl h1
    · exact Or.inr ⟨j, by omega, hr, h1⟩
  best := fun i hi => ⟨by have := (h.best i hi).1; omega, (h.best i hi).2⟩
  reap := by
    refine reap_skip h ?_
    intro hw
    exact not_woken_of_le h (hn hw.2.1) hw

theorem scanned_step : Scanned s (n + 1) (s.scan pick n) := by
  rcases scan_cases s pick n with ⟨hrun, hlt, hb, hp, hwho⟩ | ⟨hskip, hn⟩
  · have hbeats := beats_all h hlt
    refine ⟨by rw [hp]; exact below_take h hlt, Or.inr ⟨n, by omega, hrun, hp⟩, ?_, ?_⟩
    · intro i hi
      rw [hb] at hi
      cases hi
      exact ⟨by omega, hbeats.1⟩
    · rcases hwho with ⟨hno, hreap, hwake⟩ | ⟨target_pid, ht, hwho⟩
      · have hn : ¬ s.Woken n := fun hw => by rw [Woken, hno] at hw; cases hw.1
        rw [hreap, hwake]
        exact reap_skip h hn
      · exact Or.inr ⟨n, by omega, ⟨by rw [ht]; rfl, hrun, hbeats⟩, fun j hj hnj => by omega,
          target_pid, ht, hwho⟩
  · rw [hskip]
    exact scanned_skip h hn

end

theorem scanned_range (s : System) (n : Nat) :
    Scanned s n ((List.range n).foldl s.scan Pick.start) := by
  induction n with
  | zero => exact scanned_start s
  | succ n ih =>
    rw [List.range_succ, List.foldl_append]
    exact scanned_step ih

theorem select_reap_none (h : s.ReapsNothing) : s.select.reap_idx = none := by
  rcases (scanned_range s s.len).reap with ⟨_, h1, _⟩ | ⟨i, hi, hw, hl, t, ht, hr, _⟩
  · exact h1
  · unfold select
    rw [hr]
    exact h i hi hw hl t ht

/-! ## The entry that is dispatched and the zombie that is removed -/

/-- Entry `b` can run, beats every entry before it, and no entry after it
beats it. -/
def Chosen (s : System) (b : Nat) : Prop :=
  s.CanRun b ∧ (s.slots b).priority < 255 ∧
    (∀ j < b, s.CanRun j → (s.slots b).priority < (s.slots j).priority) ∧
    ∀ j < s.len, s.CanRun j → (s.slots b).priority ≤ (s.slots j).priority

instance (s : System) (b : Nat) : Decidable (s.Chosen b) := inferInstanceAs (Decidable (_ ∧ _))

/-- Entry `z` is the process that the last waiter woken waits for. -/
def Reaps (s : System) (z : Nat) : Prop :=
  ∃ i < s.len, s.Woken i ∧ (∀ j < s.len, i < j → ¬ s.Woken j) ∧
    (s.slots i).status.target.bind s.target_idx = some z

instance (s : System) (z : Nat) : Decidable (s.Reaps z) :=
  inferInstanceAs (Decidable (∃ i, i < s.len ∧ _))

/-- The scan hands `exit_code` to a waiter: the last one woken gets it. -/
def HandsOver (s : System) (exit_code : UInt64) : Prop :=
  ∃ i < s.len, s.Woken i ∧ (∀ j < s.len, i < j → ¬ s.Woken j) ∧
    (s.slots i).status.target.map s.exit_code_of = some exit_code

/-- The best entry so far can run and beats every entry before it. -/
structure Leads (s : System) (pick : Pick) : Prop where
  nobody : pick.best_idx = none → pick.best_priority = 255
  best : ∀ b, pick.best_idx = some b → s.CanRun b ∧ pick.best_priority = (s.slots b).priority ∧
    ∀ j < b, s.CanRun j → (s.slots b).priority < (s.slots j).priority

theorem leads_range (s : System) (n : Nat) : Leads s ((List.range n).foldl s.scan Pick.start) := by
  induction n with
  | zero => exact ⟨fun _ => rfl, fun b hb => by cases hb⟩
  | succ n ih =>
    have hscanned := scanned_range s n
    rw [List.range_succ, List.foldl_append]
    change Leads s (s.scan _ n)
    rcases scan_cases s ((List.range n).foldl s.scan Pick.start) n with
      ⟨hrun, hlt, hb, hp, _⟩ | ⟨hskip, _⟩
    · refine ⟨?_, ?_⟩
      · intro hnone
        rw [hb] at hnone
        cases hnone
      · intro b hsome
        rw [hb] at hsome
        cases hsome
        exact ⟨hrun, hp, (beats_all hscanned hlt).2⟩
    · rw [hskip]
      exact ih

theorem Chosen.unique {b' : Nat} (h : s.Chosen b) (h' : s.Chosen b') (hb : b < s.len)
    (hb' : b' < s.len) : b = b' := by
  have h1 := h.2.2.2 b' hb' h'.1
  have h2 := h'.2.2.2 b hb h.1
  rw [UInt8.le_iff_toNat_le] at h1 h2
  rcases Nat.lt_trichotomy b b' with hlt | heq | hgt
  · have h3 := h'.2.2.1 b hlt h.1
    rw [UInt8.lt_iff_toNat_lt] at h3
    omega
  · exact heq
  · have h3 := h.2.2.1 b' hgt h'.1
    rw [UInt8.lt_iff_toNat_lt] at h3
    omega

theorem chosen_of_best (h : s.select.best_idx = some b) : b < s.len ∧ s.Chosen b := by
  have hscanned := scanned_range s s.len
  obtain ⟨hlen, h255⟩ := hscanned.best b h
  obtain ⟨hrun, hprio, hbefore⟩ := (leads_range s s.len).best b h
  refine ⟨hlen, hrun, h255, hbefore, ?_⟩
  intro j hj hrunj
  rw [← hprio]
  exact hscanned.below j hj hrunj

theorem select_none_iff : s.select.best_idx = none ↔
    ∀ i < s.len, s.CanRun i → ¬(s.slots i).priority < 255 := by
  constructor
  · intro hnone i hi hrun hlt
    have hle := (scanned_range s s.len).below i hi hrun
    rw [(leads_range s s.len).nobody hnone] at hle
    exact UInt8.lt_irrefl _ (UInt8.lt_of_lt_of_le hlt hle)
  · intro hall
    cases hbest : s.select.best_idx with
    | none => rfl
    | some b =>
      obtain ⟨hb, hrun, h255, _⟩ := chosen_of_best hbest
      exact absurd h255 (hall b hb hrun)

/-- The scan picks the entry that `Chosen` describes. -/
theorem select_best_iff : s.select.best_idx = some b ↔ b < s.len ∧ s.Chosen b := by
  constructor
  · exact chosen_of_best
  · rintro ⟨hb, hchosen⟩
    cases hbest : s.select.best_idx with
    | none => exact absurd hchosen.2.1 (select_none_iff.mp hbest b hb hchosen.1)
    | some b' =>
      obtain ⟨hb', hchosen'⟩ := chosen_of_best hbest
      rw [hchosen.unique hchosen' hb hb']

/-- The zombie of the scan is an entry, and somebody is dispatched with it. -/
theorem Reaps.dispatched {z : Nat} (h : s.Reaps z) : z < s.len ∧ s.select.best_idx ≠ none := by
  obtain ⟨i, hi, hw, _, htarget⟩ := h
  obtain ⟨t, _, ht⟩ := Option.bind_eq_some_iff.mp htarget
  refine ⟨(position_spec ht).1, ?_⟩
  intro hnone
  exact select_none_iff.mp hnone i hi hw.2.1 hw.2.2.1

theorem last_woken_iff {P : Nat → Prop} {i : Nat} (hi : i < s.len) (hw : s.Woken i)
    (hlast : ∀ j < s.len, i < j → ¬ s.Woken j) :
    (∃ i' < s.len, s.Woken i' ∧ (∀ j < s.len, i' < j → ¬ s.Woken j) ∧ P i') ↔ P i := by
  constructor
  · rintro ⟨i', hi', hw', hlast', h⟩
    rcases Nat.lt_trichotomy i i' with hlt | rfl | hgt
    · exact absurd hw' (hlast i' hi' hlt)
    · exact h
    · exact absurd hw (hlast' i hi hgt)
  · exact fun h => ⟨i, hi, hw, hlast, h⟩

theorem select_reap_iff {z : Nat} : s.select.reap_idx = some z ↔ s.Reaps z := by
  rcases (scanned_range s s.len).reap with ⟨hnone, hreap, _⟩ | ⟨i, hi, hw, hlast, t, ht, hreap, _⟩
  · change s.select.reap_idx = none at hreap
    rw [hreap]
    refine iff_of_false nofun ?_
    rintro ⟨i, hi, hw, _⟩
    exact hnone i hi hw
  · change s.select.reap_idx = _ at hreap
    rw [hreap, Reaps, last_woken_iff hi hw hlast, Option.mem_def.mp ht]
    rfl

theorem select_wake_iff {exit_code : UInt64} :
    (∃ i, s.select.wake_idx = some (i, exit_code)) ↔ s.HandsOver exit_code := by
  rcases (scanned_range s s.len).reap with ⟨hnone, _, hwake⟩ | ⟨i, hi, hw, hlast, t, ht, _, hwake⟩
  · change s.select.wake_idx = none at hwake
    rw [hwake]
    refine iff_of_false nofun ?_
    rintro ⟨i, hi, hw, _⟩
    exact hnone i hi hw
  · change s.select.wake_idx = _ at hwake
    rw [hwake, HandsOver, last_woken_iff hi hw hlast, Option.mem_def.mp ht]
    simp

end System

/-! ## What a dispatch does with the choice -/

/-- The exit code goes to `rax` of the entry that is dispatched, whoever was
woken. -/
def Pick.hand_over (pick : Pick) (state : ProcessState) : ProcessState :=
  match pick.wake_idx with
  | some (_, exit_code) => { state with rax := exit_code }
  | none => state

/-- Handing over an exit code changes nothing when `rax` holds it already. -/
theorem System.hand_over_eq_iff {s : System} {state : ProcessState} :
    s.select.hand_over state = state ↔ ∀ exit_code, s.HandsOver exit_code → exit_code = state.rax := by
  simp only [← System.select_wake_iff]
  unfold Pick.hand_over
  cases s.select.wake_idx with
  | none => simp
  | some w =>
    obtain ⟨i, code⟩ := w
    constructor
    · rintro heq exit_code ⟨_, hsome⟩
      cases hsome
      exact congrArg ProcessState.rax heq
    · intro hall
      have hcode := hall code ⟨i, rfl⟩
      subst hcode
      rfl

def Pick.running (pick : Pick) (p : Process) : Process :=
  { p with state := pick.hand_over p.state, status := .Running }

namespace System

variable (s : System)

/-- Entry `best` runs, and it is the current process. -/
def make_current (pick : Pick) (best : Nat) : System :=
  (s.setSlot best (pick.running (s.slots best))).set_current (s.slots best).pid best

/-- The zombie of the scan leaves the table. -/
def remove_zombie : Option Nat → System
  | some idx => s.remove idx
  | none => s

def reset_time : System := { s with sched.time := 0 }

theorem dispatch_eq (pick : Pick) (best : Nat) :
    s.dispatch pick best = ((s.make_current pick best).remove_zombie pick.reap_idx).reset_time := by
  unfold dispatch make_current Pick.running Pick.hand_over
  cases pick.wake_idx with
  | none => cases pick.reap_idx <;> rfl
  | some w => cases pick.reap_idx <;> rfl

end System

end zenos_kernel.process
