-- The GS base. In the kernel it is the per-CPU area, in ring 3 the value of the
-- user, and only `swapgs` changes it. The model follows every way into the
-- kernel and out of it, with the places between the instruction that changes
-- the ring and the one that swaps: an interrupt that arrives there comes from
-- ring 0, so the timer handler does not swap.
import Mathlib.Logic.Relation
import Mathlib.Tactic.ByContra

namespace zenos_kernel.percpu

/-- The two values that the bases can hold. -/
inductive Base
  | area
  | user
  deriving DecidableEq

def Base.other : Base → Base
  | .area => .user
  | .user => .area

/-- Where the CPU is. -/
inductive Point
  /-- Ring 3. -/
  | user
  /-- Ring 0, before the first instruction of `syscall_entry`. -/
  | entering
  /-- Ring 0, in code that may use the per-CPU area. -/
  | kernel
  /-- Ring 0, in `switch_to_next` behind its `swapgs`, on the way to `next`. -/
  | leaving (next : Point)
  deriving DecidableEq

/-- The bases, where the CPU is, and the places where processes were
interrupted and can be resumed. -/
structure Cpu where
  gs : Base
  kernel_gs : Base
  point : Point
  saved : List Point

def Cpu.swapgs (c : Cpu) : Cpu := { c with gs := c.kernel_gs, kernel_gs := c.gs }

/-- `init_percpu`: the area is the kernel base, the base is 0, and then they are swapped. -/
def Cpu.init_percpu : Cpu :=
  Cpu.swapgs { gs := .user, kernel_gs := .area, point := .kernel, saved := [] }

/-- What the scheduler answers. -/
inductive Switch
  /-- `None`: the interrupted code goes on. -/
  | stay
  /-- The dummy state with the idle loop. Nobody becomes current. -/
  | idle
  /-- The state of a process, which becomes current. -/
  | dispatch (next : Point)

/-- How `page_fault_handler` ends. -/
inductive Fault
  /-- `handle_cow_fault` handles it. -/
  | cow
  /-- A fault of ring 3, and the scheduler has no current process. -/
  | nobody
  /-- A fault of ring 3: the current process becomes a zombie. -/
  | kill

inductive Event
  | enter_user_mode
  /-- The instruction `syscall`. -/
  | syscall
  /-- The start of `syscall_entry`, which fetches the kernel stack from the area. -/
  | syscall_entry
  | sysret
  /-- `get_percpu_data`, `PerCpuVar::read` or `PerCpuVar::write`. -/
  | access
  /-- The timer; `save` tells whether the interrupted place is kept. -/
  | timer (switch : Switch) (save : Bool)
  | switch_to_next (switch : Switch)
  /-- `switch_to_next_asm`. -/
  | iretq
  | page_fault (fault : Fault)

namespace Cpu

variable (c : Cpu)

/-- `swapgs` when the code segment is one of ring 3. -/
def swap_for (p : Point) : Cpu := if p = .user then c.swapgs else c

def go (p : Point) : Cpu := { c with point := p }

/-- A process can be resumed where it was interrupted, or where its system
call was made. -/
def CanResume (p : Point) : Prop := p = .user ∨ p ∈ c.saved

instance (c : Cpu) (p : Point) : Decidable (c.CanResume p) := inferInstanceAs (Decidable (_ ∨ _))

/-- The timer handler between its two tests of the code segment. -/
def handler (save : Bool) : Cpu :=
  let c' := c.swap_for c.point
  if save then { c' with saved := c.point :: c'.saved } else c'

/-- One event: the bases at the accesses to the area, and the CPU after it.
`none`: the event is not possible here. -/
def react : Event → Option (List Base × Cpu)
  | .enter_user_mode => if c.point = .kernel then some ([], c.swapgs.go .user) else none
  | .syscall => if c.point = .user then some ([], c.go .entering) else none
  | .syscall_entry =>
    if c.point = .entering then some ([c.swapgs.gs], c.swapgs.go .kernel) else none
  | .sysret => if c.point = .kernel then some ([], c.swapgs.go .user) else none
  | .access => if c.point = .kernel then some ([c.gs], c) else none
  | .timer .stay _ => some ([], (c.swap_for c.point).swap_for c.point)
  | .timer .idle save => some ([], (c.handler save).go .kernel)
  | .timer (.dispatch next) save =>
    if (c.handler save).CanResume next then
      some ([(c.handler save).gs], ((c.handler save).swap_for next).go next)
    else none
  | .switch_to_next .stay => none
  | .switch_to_next .idle =>
    if c.point = .kernel then some ([], c.go (.leaving .kernel)) else none
  | .switch_to_next (.dispatch next) =>
    if c.point = .kernel ∧ c.CanResume next then
      some ([c.gs], (c.swap_for next).go (.leaving next))
    else none
  | .iretq =>
    match c.point with
    | .leaving next => some ([], c.go next)
    | _ => none
  | .page_fault .cow =>
    if c.point = .user ∨ c.point = .kernel then some ([], c) else none
  | .page_fault .nobody => if c.point = .user then some ([], c) else none
  | .page_fault .kill => if c.point = .user then some ([c.gs], c) else none

end Cpu

/-! ## The discipline -/

/-- The base that belongs to a place. It is the one of the user in ring 3, and in
ring 0 before the swap of an entry and behind the swap of an exit. -/
def Point.base : Point → Base
  | .user | .entering => .user
  | .kernel => .area
  | .leaving next => next.base

/-- Ring 3, or a place of ring 0 with the area as its base: the test of the code
segment tells whether to swap. -/
def Point.Settled (p : Point) : Prop := p = .user ∨ p.base = .area

namespace Cpu

variable (c : Cpu) (p : Point)

/-- The bases are right for a place. -/
def RightFor : Prop := c.gs = p.base ∧ c.kernel_gs = p.base.other

/-- The bases are right for the place where the CPU is. -/
def Right : Prop := c.RightFor c.point

/-- Every access finds the area, and the bases are right afterwards. -/
def Orderly (accesses : List Base) (c : Cpu) : Prop := (∀ b ∈ accesses, b = .area) ∧ c.Right

/-- The events that keep the discipline, by the place where they happen: no switch
between a change of the ring and its swap, and no process dies of a page fault. -/
def Disciplined : Event → Prop
  | .timer .idle _ | .timer (.dispatch _) _ => c.point.Settled
  | .page_fault .kill => False
  | _ => True

/-- What holds in every state of a disciplined run. -/
structure Kept (c : Cpu) : Prop where
  right : c.Right
  saved : ∀ p ∈ c.saved, p.Settled

/-! ### The parts of the handlers -/

@[simp] theorem go_saved : (c.go p).saved = c.saved := rfl

theorem swap_for_saved : (c.swap_for p).saved = c.saved := by
  unfold swap_for
  split <;> rfl

theorem swap_for_twice : (c.swap_for p).swap_for p = c := by
  unfold swap_for
  split <;> rfl

variable {p : Point} {save : Bool}

/-- A swap for ring 3 brings the bases from ring 3 to the kernel. -/
theorem rightFor_swap_iff {c : Cpu} (hp : p.Settled) :
    (c.swap_for p).RightFor .kernel ↔ c.RightFor p := by
  unfold swap_for
  rcases hp with rfl | harea
  · exact and_comm
  · have hne : p ≠ .user := by
      rintro rfl
      cases harea
    rw [if_neg hne, RightFor, RightFor, harea]
    rfl

theorem RightFor.swap_out {c : Cpu} (h : c.RightFor .kernel) (hp : p.Settled) :
    (c.swap_for p).RightFor p := by
  rw [← rightFor_swap_iff hp, swap_for_twice]
  exact h

/-- Between the ring and the swap the base is the one of the user. -/
theorem RightFor.gs_of_unsettled {c : Cpu} (h : c.RightFor p) (hp : ¬p.Settled) :
    (c.swap_for p).gs = .user := by
  have hbase : p.base = .user := by
    cases hb : p.base with
    | area => exact absurd (Or.inr hb) hp
    | user => rfl
  unfold swap_for
  rw [if_neg fun hu => hp (Or.inl hu)]
  exact h.1.trans hbase

theorem handler_gs (save : Bool) : (c.handler save).gs = (c.swap_for c.point).gs := by
  cases save <;> rfl

theorem handler_right {c : Cpu} :
    (c.handler save).RightFor p ↔ (c.swap_for c.point).RightFor p := by
  cases save <;> rfl

theorem Kept.handler_saved {c : Cpu} (h : c.Kept) (hp : c.point.Settled) (save : Bool) :
    ∀ p ∈ (c.handler save).saved, p.Settled := by
  intro p hmem
  unfold handler at hmem
  cases save with
  | false => exact h.saved p (by simpa [swap_for_saved] using hmem)
  | true =>
    simp only [if_true, List.mem_cons, swap_for_saved] at hmem
    rcases hmem with rfl | hold
    · exact hp
    · exact h.saved p hold

theorem CanResume.settled {c : Cpu} (hp : c.CanResume p) (h : ∀ q ∈ c.saved, q.Settled) :
    p.Settled := by
  rcases hp with rfl | hmem
  · exact Or.inl rfl
  · exact h p hmem

/-! ### One event -/

variable {c c' : Cpu} {e : Event} {accesses : List Base} {switch : Switch}

/-- An event that is possible under a condition. -/
theorem guarded {P : Prop} [Decidable P] {accesses' : List Base}
    (h : (if P then some (accesses', c') else none) = some (accesses, c)) :
    P ∧ accesses' = accesses ∧ c' = c := by
  simpa using h

/-- `swapgs` on the way between the kernel and ring 3. -/
theorem RightFor.cross {q : Point} (h : c.RightFor p) (hpq : q.base = p.base.other) :
    (c.swapgs.go q).Right := by
  have hother : q.base.other = p.base := by
    rw [hpq]
    cases p.base <;> rfl
  exact ⟨h.2.trans hpq.symm, h.1.trans hother.symm⟩

theorem Orderly.of_access {b : Base} (hb : b = .area) (hc : c.Right) : Orderly [b] c :=
  ⟨by simpa using hb, hc⟩

theorem Kept.timer_orderly (h : c.Kept) (hd : c.Disciplined (.timer switch save))
    (hr : c.react (.timer switch save) = some (accesses, c')) :
    Orderly accesses c' ∧ ∀ p ∈ c'.saved, p.Settled := by
  cases switch with
  | stay =>
    simp only [react, swap_for_twice] at hr
    obtain ⟨rfl, rfl⟩ := hr
    exact ⟨⟨by simp, h.right⟩, h.saved⟩
  | idle =>
    obtain ⟨rfl, rfl⟩ := hr
    exact ⟨⟨by simp, handler_right.mpr ((rightFor_swap_iff hd).mpr h.right)⟩, h.handler_saved hd save⟩
  | dispatch next =>
    obtain ⟨hnext, rfl, rfl⟩ := guarded hr
    have hin : (c.handler save).RightFor .kernel :=
      handler_right.mpr ((rightFor_swap_iff hd).mpr h.right)
    have hsaved := h.handler_saved hd save
    refine ⟨.of_access hin.1 (hin.swap_out (hnext.settled hsaved)), ?_⟩
    simpa [swap_for_saved] using hsaved

theorem Kept.switch_orderly (h : c.Kept)
    (hr : c.react (.switch_to_next switch) = some (accesses, c')) :
    Orderly accesses c' ∧ ∀ p ∈ c'.saved, p.Settled := by
  cases switch with
  | stay => cases hr
  | idle =>
    obtain ⟨hk, rfl, rfl⟩ := guarded hr
    have hin : c.RightFor .kernel := hk ▸ h.right
    exact ⟨⟨by simp, hin⟩, h.saved⟩
  | dispatch next =>
    obtain ⟨⟨hk, hnext⟩, rfl, rfl⟩ := guarded hr
    have hin : c.RightFor .kernel := hk ▸ h.right
    refine ⟨.of_access hin.1 (hin.swap_out (hnext.settled h.saved)), ?_⟩
    simpa [swap_for_saved] using h.saved

theorem Kept.fault_orderly (h : c.Kept) {fault : Fault} (hd : c.Disciplined (.page_fault fault))
    (hr : c.react (.page_fault fault) = some (accesses, c')) :
    Orderly accesses c' ∧ ∀ p ∈ c'.saved, p.Settled := by
  cases fault with
  | kill => exact absurd hd id
  | cow | nobody =>
    obtain ⟨_, rfl, rfl⟩ := guarded hr
    exact ⟨⟨by simp, h.right⟩, h.saved⟩

/-- A disciplined event finds the area at every access and keeps the discipline. -/
theorem Kept.orderly (h : c.Kept) (hd : c.Disciplined e) (hr : c.react e = some (accesses, c')) :
    Orderly accesses c' ∧ ∀ p ∈ c'.saved, p.Settled := by
  cases e with
  | timer switch save => exact h.timer_orderly hd hr
  | switch_to_next switch => exact h.switch_orderly hr
  | page_fault fault => exact h.fault_orderly hd hr
  | iretq =>
    cases hp : c.point with
    | leaving next =>
      simp only [react, hp] at hr
      obtain ⟨rfl, rfl⟩ := hr
      have hleaving : c.RightFor (.leaving next) := hp ▸ h.right
      exact ⟨⟨by simp, hleaving⟩, h.saved⟩
    | user | entering | kernel =>
      simp [react, hp] at hr
  | enter_user_mode | sysret =>
    obtain ⟨hk, rfl, rfl⟩ := guarded hr
    exact ⟨⟨by simp, h.right.cross (by rw [hk]; rfl)⟩, h.saved⟩
  | syscall =>
    obtain ⟨hu, rfl, rfl⟩ := guarded hr
    have hin : c.RightFor .user := hu ▸ h.right
    exact ⟨⟨by simp, hin⟩, h.saved⟩
  | syscall_entry =>
    obtain ⟨hentering, rfl, rfl⟩ := guarded hr
    have hin : c.RightFor .entering := hentering ▸ h.right
    exact ⟨.of_access hin.2 (hin.cross rfl), h.saved⟩
  | access =>
    obtain ⟨hk, rfl, rfl⟩ := guarded hr
    have hin : c.RightFor .kernel := hk ▸ h.right
    exact ⟨.of_access hin.1 h.right, h.saved⟩

/-- An event that is orderly in such a state is a disciplined one. -/
theorem Kept.disciplined_of_orderly (h : c.Kept) (hr : c.react e = some (accesses, c'))
    (ho : Orderly accesses c') : c.Disciplined e := by
  obtain ⟨harea, hright⟩ := ho
  cases e with
  | timer switch save =>
    cases switch with
    | stay => trivial
    | idle =>
      by_contra hp
      obtain ⟨rfl, rfl⟩ := hr
      have hgs : (c.swap_for c.point).gs = .area := (handler_gs c save).symm.trans hright.1
      rw [h.right.gs_of_unsettled hp] at hgs
      cases hgs
    | dispatch next =>
      by_contra hp
      obtain ⟨_, rfl, rfl⟩ := guarded hr
      have hgs : (c.handler save).gs = .area := harea _ (List.mem_singleton_self _)
      rw [handler_gs, h.right.gs_of_unsettled hp] at hgs
      cases hgs
  | page_fault fault =>
    cases fault with
    | cow | nobody => trivial
    | kill =>
      -- the handler has no `swapgs`, and looks for the current process
      obtain ⟨hu, rfl, rfl⟩ := guarded hr
      have huser : c.RightFor .user := hu ▸ h.right
      have hgs : c.gs = .area := harea _ (List.mem_singleton_self _)
      rw [huser.1] at hgs
      cases hgs
  | _ => trivial

/-! ### Runs -/

/-- A disciplined event that happens. -/
def Step (c c' : Cpu) : Prop :=
  ∃ e accesses, c.Disciplined e ∧ c.react e = some (accesses, c')

theorem kept_of_run (hrun : Relation.ReflTransGen Step init_percpu c) : c.Kept := by
  induction hrun with
  | refl => exact ⟨⟨rfl, rfl⟩, by simp [init_percpu, swapgs]⟩
  | tail _ hstep ih =>
    obtain ⟨e, accesses, hd, hr⟩ := hstep
    obtain ⟨ho, hsaved⟩ := ih.orderly hd hr
    exact ⟨ho.2, hsaved⟩

/-- In every run of disciplined events the bases are right in every state, so that
ring 3 has the base of the user; and the next event finds the area at each of its
accesses and keeps the bases right exactly when it is disciplined. -/
theorem gs_base_right_iff_disciplined (hrun : Relation.ReflTransGen Step init_percpu c) :
    c.Right ∧ ∀ e accesses c', c.react e = some (accesses, c') →
      (Orderly accesses c' ↔ c.Disciplined e) := by
  have hkept := kept_of_run hrun
  refine ⟨hkept.right, fun e accesses c' hr => ⟨hkept.disciplined_of_orderly hr, fun hd => ?_⟩⟩
  exact (hkept.orderly hd hr).1

/-- Ring 3 after the boot, as `enter_user_mode` leaves it. -/
def first_user : Cpu := { gs := .user, kernel_gs := .area, point := .user, saved := [] }

/-- A timer that arrives in ring 3 and dispatches a process is orderly there. -/
theorem a_timer_in_ring_three :
    Relation.ReflTransGen Step init_percpu first_user ∧ first_user.Right ∧
      Orderly [.area] { first_user with saved := [.user] } := by
  have hrun := Relation.ReflTransGen.single
    (show Step init_percpu first_user from ⟨.enter_user_mode, [], trivial, rfl⟩)
  obtain ⟨hright, hnext⟩ := gs_base_right_iff_disciplined hrun
  refine ⟨hrun, hright, (hnext (.timer (.dispatch .user) true) _ _ rfl).mpr ?_⟩
  exact Or.inl rfl

/-- The first process touches an address that is not mapped: the handler looks for
the current process at the base of the user. -/
theorem a_fault_reads_at_the_base_of_the_user :
    init_percpu.react .enter_user_mode = some ([], first_user) ∧
      first_user.react (.page_fault .kill) = some ([.user], first_user) ∧
      ¬Orderly [.user] first_user := by
  refine ⟨rfl, rfl, fun ho => ?_⟩
  simpa using ho.1

end Cpu

end zenos_kernel.percpu
