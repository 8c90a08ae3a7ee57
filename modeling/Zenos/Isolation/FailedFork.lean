-- What a failed `fork` leaves behind. The answers of the frame allocator to `clone_address_space`
-- come from the memory of the kernel, where each request also maps and unmaps a scratch page.
import Zenos.Isolation.Roles
import Zenos.Memory.Dma
import Zenos.Process.AddressSpaces

namespace zenos_kernel.process.isolation

open Outcome memory Machine

/-! ## Frames for page tables -/

def KERNEL_CR3_SCRATCH : Nat := KERNEL_BASE + 0x7000000000

variable (counter : Nat)

/-- `get_scratch_addr` for a value of `SCRATCH_COUNTER`. -/
def get_scratch_addr : Nat :=
  KERNEL_CR3_SCRATCH + 0x100000 + counter % 256 * PAGE_4K

/-- `kleak_page` with `PageType::Arbitrary`. A page under a huge page stays mapped. -/
def kleak_page (p : Nat) : MemM Unit := fun m =>
  if m.ready then
    if (m.huge p).isSome then .ok () m
    else if (m.page p).isSome then .ok () (m.unmap p)
    else .error (.err .NotMapped) m
  else .error (.err .Uninitialized) m

/-- What `alloc_page_table` does to the memory of the kernel. The answer of `kleak_page` is
dropped. -/
def scratch_frame : MemM Nat := fun m =>
  match KernelMemory.kalloc_page (get_scratch_addr counter / PAGE_4K) m with
  | .ok phys m => .ok phys (final (kleak_page (get_scratch_addr counter / PAGE_4K) m))
  | .error e m => .error e m

theorem kleak_page_free (p : Nat) (m : KernelMemory) : (final (kleak_page p m)).free = m.free := by
  unfold kleak_page
  rw [KernelMemory.unmap_eq]
  split
  · split
    · rfl
    · split <;> rfl
  · rfl

/-- A request to an allocator that has frames takes some of them, also when it fails. -/
theorem ends_scratch_frame (m : KernelMemory) :
    Ends (scratch_frame counter m)
      (fun frame m' => frame ∈ m.free ∧ m'.free ⊆ m.free.erase frame ∧ m.ready = true)
      (fun _ m' => m.ready = true ∧ m'.free = ∅ ∨ m.ready = false ∧ m' = m) := by
  unfold scratch_frame
  have hpage := KernelMemory.ends_kalloc_page (get_scratch_addr counter / PAGE_4K) m
  cases hrun : KernelMemory.kalloc_page (get_scratch_addr counter / PAGE_4K) m with
  | ok frame m1 =>
    have htook := hpage.of_ok hrun
    refine ⟨htook.taken, ?_, htook.allocator⟩
    rw [kleak_page_free]
    exact htook.subset
  | error e m1 =>
    rw [hrun] at hpage
    refine hpage.reason.imp ?_ ?_
    · rintro ⟨hready, -, hfree, -⟩
      exact ⟨hready, hfree⟩
    · rintro ⟨hready, -, hm⟩
      exact ⟨hready, hm⟩

theorem scratch_frame_subset (m : KernelMemory) :
    (final (scratch_frame counter m)).free ⊆ m.free := by
  refine Ends.final (P := fun m' : KernelMemory => m'.free ⊆ m.free) ?_
  refine (ends_scratch_frame counter m).mono ?_ ?_
  · rintro frame m' ⟨-, hsub, -⟩
    exact hsub.trans (Finset.erase_subset _ _)
  · rintro e m' (⟨-, hfree⟩ | ⟨-, rfl⟩)
    · simp [hfree]
    · exact Finset.Subset.refl _

theorem scratch_frame_takes {m : KernelMemory} (hready : m.ready = true)
    (hfree : m.free ≠ ∅) : ∃ f ∈ m.free, f ∉ (final (scratch_frame counter m)).free := by
  refine Ends.final (P := fun m' : KernelMemory => ∃ f ∈ m.free, f ∉ m'.free) ?_
  refine (ends_scratch_frame counter m).mono ?_ ?_
  · rintro frame m' ⟨hmem, hsub, -⟩
    exact ⟨frame, hmem, fun h => Finset.notMem_erase _ _ (hsub h)⟩
  · rintro e m' (⟨-, hempty⟩ | ⟨hnot, -⟩)
    · obtain ⟨f, hf⟩ := Finset.nonempty_iff_ne_empty.mpr hfree
      exact ⟨f, hf, by simp [hempty]⟩
    · rw [hready] at hnot
      cases hnot

/-! ## The kernel around fork -/

/-- The process table, the memory of the kernel, and the page tables and the counts of the address
spaces. `cr3` is the address of the active level-4 table. A frame is named by its number, and its
address has at most 52 bits. -/
structure KernelState where
  procs : System
  memory : KernelMemory
  scratch_counter : Nat
  mem : PhysAddr → Nat → UInt64
  refcounts : PhysAddr → Option UInt32
  cr3 : PhysAddr
  fits : ∀ f ∈ memory.free, f < 2 ^ 40

def frame_addr (frame : Nat) : PhysAddr := UInt64.ofNat (frame * PAGE_4K)

namespace KernelState

/-- The memory of the kernel after `n` requests of one fork. -/
def after (s : KernelState) : Nat → KernelMemory
  | 0 => s.memory
  | n + 1 => final (scratch_frame (s.scratch_counter + n) (s.after n))

theorem after_subset (s : KernelState) {n k : Nat} (h : n ≤ k) :
    (s.after k).free ⊆ (s.after n).free := by
  induction h with
  | refl => exact Finset.Subset.refl _
  | step _ ih => exact (scratch_frame_subset _ _).trans ih

/-- The answer to request `n`. -/
def answer (s : KernelState) (n : Nat) : Option PhysAddr :=
  match scratch_frame (s.scratch_counter + n) (s.after n) with
  | .ok frame _ => some (frame_addr frame)
  | .error _ _ => none

/-- The state as `clone_address_space` sees it. -/
def machine (s : KernelState) : Machine where
  mem := s.mem
  free f := decide (f.toNat / PAGE_4K ∈ s.memory.free)
  answers := s.answer
  calls := 0
  refcounts := s.refcounts
  cr3 := s.cr3
  freed := []

/-- The state that a clone has left. -/
def cloned (s : KernelState) (m : Machine) : KernelState where
  procs := s.procs
  memory := s.after m.calls
  scratch_counter := s.scratch_counter + m.calls
  mem := m.mem
  refcounts := m.refcounts
  cr3 := m.cr3
  fits f hf := s.fits f (s.after_subset (Nat.zero_le _) hf)

/-- `fork`. The clone is dropped, but not torn down, when the process table has no room for the
child. -/
def fork (s : KernelState) : Option (UInt64 × KernelState) :=
  match s.procs.current_proc_mut with
  | none => some (errno EAGAIN, s)
  | some _ =>
    let (cloned, s) :=
      match Machine.clone_address_space s.machine with
      | .ok _ m => (true, s.cloned m)
      | .error _ m => (false, s.cloned m)
    (s.procs.fork cloned).map fun (answer, procs) => (answer, { s with procs := procs })

end KernelState

/-! ## The requests of a clone -/

namespace Machine

section Requests

-- `P` does not speak of page tables or counts, and the requests keep it.
variable {P : Machine → Prop}
  (hP : ∀ m mem refcounts, P m → P { m with mem := mem, refcounts := refcounts })

include hP in
theorem ends_clone_entry {clone_child : PhysAddr → Kernel PhysAddr} {level : Nat}
    (hchild : ∀ t m, P m → Always (clone_child t m) P) (src new : PhysAddr) (i : Nat) {m : Machine}
    (h : P m) : Always (clone_entry clone_child level src new i m) P := by
  unfold clone_entry
  rw [get_bind]
  split
  · exact h
  split
  · exact hP _ _ _ h
  · split
    · split
      · exact hP _ _ _ (hP _ _ _ (hP _ _ _ h))
      · exact hP _ _ _ h
    · refine ends_bind (hchild _ _ h) fun _ m1 h1 => ?_
      exact hP _ _ _ h1

include hP in
/-- The table is zeroed after the request. -/
theorem ends_requested_table {m : Machine} (h : Always (kalloc_page m) P) :
    Always (alloc_page_table m) P := by
  refine ends_bind h fun _ m1 h1 => ?_
  exact hP _ _ _ h1

variable (hrequest : ∀ m, P m → Always (kalloc_page m) P)

include hP hrequest

theorem ends_cow_clone_table (level : Nat) (src : PhysAddr) {m : Machine} (h : P m) :
    Always (cow_clone_table level src m) P := by
  induction level generalizing src m with
  | zero => exact h
  | succ level ih =>
    refine ends_bind (ends_requested_table hP (hrequest m h)) fun new m1 h1 => ?_
    generalize List.range 512 = is
    refine ends_bind (ends_each_inv ?_ h1) fun _ m2 h2 => h2
    intro i m2 h2
    exact ends_clone_entry hP (fun t _ h3 => ih t h3) src new i h2

/-- The clone keeps what holds after its first request. -/
theorem ends_clone_requests {m : Machine} (h : Always (kalloc_page m) P) :
    Always (clone_address_space m) P := by
  refine ends_bind (ends_requested_table hP h) fun new m1 h1 => ?_
  rw [get_bind, modify_bind]
  refine ends_bind (ends_each_inv ?_ (hP _ _ _ h1)) fun _ m2 h2 => hP _ _ _ h2
  intro i m2 h2
  unfold clone_l4_entry
  rw [get_bind]
  split
  · exact h2
  · refine ends_bind (ends_cow_clone_table hP hrequest 3 _ h2) fun _ m3 h3 => ?_
    exact hP _ _ _ h3

end Requests

theorem ends_kalloc_page_calls (m : Machine) : Always (kalloc_page m) (fun m' => 1 ≤ m'.calls) := by
  unfold kalloc_page
  split
  · split <;> exact Nat.le_add_left 1 m.calls
  · exact Nat.le_add_left 1 m.calls

theorem clone_refused {m : Machine} (h : m.answers m.calls = none) :
    clone_address_space m = .error () m.refuse := by
  have hrun : kalloc_page m = .error () m.refuse := by
    unfold kalloc_page
    rw [h]
  have htable : alloc_page_table m = .error () m.refuse := bind_of_error hrun
  exact bind_of_error htable

end Machine

namespace KernelState

variable {s : KernelState}

/-! ## No trace -/

/-- The entries of the parent at every level, the counts and the free frames are as before. -/
structure NoTrace (s s' : KernelState) : Prop where
  entries : ∀ p i, p.length ≤ 3 →
    (walk s'.mem s.cr3 p).map (s'.mem · i) = (walk s.mem s.cr3 p).map (s.mem · i)
  counts : ∀ f, s'.machine.refcount_get f = s.machine.refcount_get f
  free : s'.memory.free = s.memory.free

/-- Apart from the process table, a fork leaves what its clone has left. -/
theorem fork_cloned {s' : KernelState} {k : Nat} {a : UInt64}
    (hcur : s.procs.current_proc_mut = some k) (h : s.fork = some (a, s')) :
    ∃ procs, s' = { s.cloned (final (clone_address_space s.machine)) with
      procs := procs } := by
  unfold fork at h
  rw [hcur] at h
  cases hrun : clone_address_space s.machine with
  | ok n m | error e m =>
    simp only [hrun, Option.map_eq_some_iff, Prod.mk.injEq] at h
    obtain ⟨⟨_, procs⟩, -, -, hs'⟩ := h
    exact ⟨procs, hs'.symm⟩

theorem answer_eq_none (h : s.memory.ready = false ∨ s.memory.free = ∅) : s.answer 0 = none := by
  have hreq := ends_scratch_frame (s.scratch_counter + 0) (s.after 0)
  unfold answer
  cases hrun : scratch_frame (s.scratch_counter + 0) (s.after 0) with
  | error e m => rfl
  | ok frame m =>
    obtain ⟨hmem, -, hready⟩ := hreq.of_ok hrun
    rcases h with hnot | hempty
    · exact absurd hready (by simp [after, hnot])
    · simp [after, hempty] at hmem

/-- A refused request takes no frame when there was none to take. -/
theorem after_one (h : s.memory.ready = false ∨ s.memory.free = ∅) :
    (s.after 1).free = s.memory.free := by
  have hreq := ends_scratch_frame (s.scratch_counter + 0) s.memory
  have hsub := s.after_subset (Nat.zero_le 1)
  rcases h with hnot | hempty
  · refine Ends.final (P := fun m' : KernelMemory => m'.free = s.memory.free) (hreq.mono ?_ ?_)
    · rintro frame m' ⟨-, -, hready⟩
      rw [hnot] at hready
      cases hready
    · rintro e m' (⟨hready, -⟩ | ⟨-, rfl⟩)
      · rw [hnot] at hready
        cases hready
      · rfl
  · rw [hempty]
    exact Finset.subset_empty.mp (hempty ▸ hsub)

/-- A fork that returns has left no trace exactly if it did not get to its first request for a
frame or there was no frame at all. -/
theorem failed_fork_leaves_no_trace_iff {s s' : KernelState} {e : UInt64}
    (h : s.fork = some (errno e, s')) :
    NoTrace s s' ↔
      s.procs.current_proc_mut = none ∨ s.memory.ready = false ∨ s.memory.free = ∅ := by
  cases hcur : s.procs.current_proc_mut with
  | none =>
    unfold fork at h
    rw [hcur] at h
    simp only [Option.some.injEq, Prod.mk.injEq] at h
    obtain ⟨-, rfl⟩ := h
    exact ⟨fun _ => Or.inl rfl, fun _ => ⟨fun _ _ _ => rfl, fun _ => rfl, rfl⟩⟩
  | some k =>
    obtain ⟨procs, rfl⟩ := fork_cloned hcur h
    simp only [reduceCtorEq, false_or]
    constructor
    · intro htrace
      by_contra hno
      rw [not_or, Bool.not_eq_false] at hno
      -- the first request has taken a frame, and no later one gives it back
      obtain ⟨f, hf, hgone⟩ := scratch_frame_takes (s.scratch_counter + 0) hno.1 hno.2
      have hcalls := (ends_clone_requests (P := fun m1 => 1 ≤ m1.calls) (fun _ _ _ h => h)
        (fun m1 _ => ends_kalloc_page_calls m1) (ends_kalloc_page_calls s.machine)).final
      rw [← htrace.free] at hf
      exact hgone (s.after_subset hcalls hf)
    · intro hnone
      have hrefused : clone_address_space s.machine = .error () s.machine.refuse :=
        clone_refused (answer_eq_none hnone)
      rw [hrefused]
      exact ⟨fun _ _ _ => rfl, fun _ => rfl, after_one hnone⟩

/-! ## Four frames -/

/-- Init runs, with two level-1 tables of one page each, and the memory has the given frames. All
tables of the scratch pages are there. -/
def parent (frames : Finset Nat) (hframes : ∀ f ∈ frames, f < 2 ^ 40) : KernelState where
  procs := System.bootedKernel
  memory :=
    { free := frames
      tables := ∅
      policy := lowestFrame
      mapper := tableWalk
      managed := fun _ => true
      ready := true
      page := fun _ => none
      huge := fun _ => none
      table := fun _ _ => true
      dma_base := DMA_START }
  scratch_counter := 0
  mem f j :=
    if f = 0x1000 ∧ j = 0 then 0x2007
    else if f = 0x2000 ∧ j = 0 then 0x3007
    else if f = 0x3000 ∧ j = 0 then 0x4007
    else if f = 0x3000 ∧ j = 1 then 0x6007
    else if f = 0x4000 ∧ j = 0 then 0x5007
    else if f = 0x6000 ∧ j = 0 then 0x7007
    else 0
  refcounts _ := none
  cr3 := 0x1000
  fits := hframes

theorem a_fork_without_frames :
    ∃ s', (parent ∅ (by decide)).fork = some (errno ENOMEM, s') ∧
      NoTrace (parent ∅ (by decide)) s' := by
  have hrun : ((parent ∅ (by decide)).fork.any fun r => r.1 == errno ENOMEM) = true := by
    decide +kernel
  obtain ⟨⟨a, s'⟩, h, ha⟩ := (Option.any_eq_true _ _).mp hrun
  rw [beq_iff_eq] at ha
  subst ha
  exact ⟨s', h, (failed_fork_leaves_no_trace_iff h).mpr (Or.inr (Or.inr rfl))⟩

/-- The clone runs out of frames at the second level-1 table. The page of the first one is left
copy-on-write and counted twice, and the four frames are lost. -/
theorem a_failed_fork_leaves_traces :
    ∃ s', (parent {16, 17, 18, 19} (by decide)).fork = some (errno ENOMEM, s') ∧
      (walk s'.mem 0x1000 [0, 0, 0]).map (s'.mem · 0) = some 0x5205 ∧
      s'.machine.refcount_get 0x5000 = 2 ∧ s'.memory.free = ∅ ∧
      ¬ NoTrace (parent {16, 17, 18, 19} (by decide)) s' := by
  have hrun : ((parent {16, 17, 18, 19} (by decide)).fork.any fun r =>
      r.1 == errno ENOMEM && (walk r.2.mem 0x1000 [0, 0, 0]).map (r.2.mem · 0) == some 0x5205 &&
        r.2.machine.refcount_get 0x5000 == 2 && r.2.memory.free == ∅) = true := by
    decide +kernel
  obtain ⟨⟨a, s'⟩, h, ha⟩ := (Option.any_eq_true _ _).mp hrun
  simp only [Bool.and_eq_true, beq_iff_eq] at ha
  obtain ⟨⟨⟨rfl, hentry⟩, hcount⟩, hfree⟩ := ha
  refine ⟨s', h, hentry, hcount, hfree, ?_⟩
  intro htrace
  have hsame := htrace.free
  rw [hfree] at hsame
  exact absurd hsame (by decide)

end KernelState

end zenos_kernel.process.isolation
