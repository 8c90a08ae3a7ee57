-- `Process::internal_load` and the start of `Process::prepare_run` step by step, with the panics of
-- checked arithmetic and of `VirtAddr`: what was done before a panic is done. With frames for all
-- pages, a run without a panic does what the list of effects in `Loader` says.
import Zenos.Process.FreshImage

namespace zenos_kernel.process

open Outcome memory PagedMemory syscall

/-! ## The loader, step by step -/

inductive LoadPanic
  /-- A sum or a difference of `u64` has no value. -/
  | overflow
  /-- `VirtAddr` refuses an address. -/
  | non_canonical
  /-- `ualloc_page_flags(...).unwrap()` without a frame. -/
  | out_of_frames
  deriving DecidableEq

/-- The state is what was done to memory so far, oldest first. -/
abbrev Loading := EStateM LoadPanic (List Effect)

/-- Whether the allocator has a frame, after what was done so far. -/
abbrev Grants := List Effect → Bool

namespace Loading

def checked_add (a b : Nat) : Loading Nat :=
  if a + b < UInt64.size then pure (a + b) else throw .overflow

def checked_sub (a b : Nat) : Loading Nat := if b ≤ a then pure (a - b) else throw .overflow

/-- `VirtAddr::new`. -/
def virt_addr (a : Nat) : Loading Nat :=
  if syscall.canonical a then pure a else throw .non_canonical

/-- `VirtAddr::new_truncate`: bit 47 is copied to the bits above it. -/
def new_truncate (a : Nat) : Nat :=
  if a % 2 ^ 48 < 2 ^ 47 then a % 2 ^ 48 else 2 ^ 64 - 2 ^ 48 + a % 2 ^ 48

/-- `VirtAddr::align_up` to a page. -/
def align_up (a : Nat) : Loading Nat :=
  if a % PAGE_4K = 0 then pure (new_truncate a)
  else do
    let aligned ← checked_add (a / PAGE_4K * PAGE_4K) PAGE_4K
    pure (new_truncate aligned)

def emit (e : Effect) : Loading Unit := modify (· ++ [e])

variable (grants : Grants) (page : Nat)

/-- `ualloc_page_flags(addr, ...).unwrap()`. -/
def ualloc_page : Loading Unit := do
  if grants (← get) then emit (.alloc page) else throw .out_of_frames

/-- `addr += PAGE_4K` for the address of a page. -/
def next_page : Loading Unit := do
  let addr ← checked_add (page * PAGE_4K) PAGE_4K
  let _ ← virt_addr addr
  pure ()

def map_page : Loading Unit := do
  ualloc_page grants page
  next_page page

/-- The loop that maps the pages from `page_start` up to `page_end`. -/
def map_pages (pages : List Nat) : Loading Unit :=
  each pages (map_page grants)

/-- One turn of the loop of `prepare_run` that maps the stack. -/
def map_stack_page : Loading Unit := do
  let _ ← virt_addr (page * PAGE_4K)
  ualloc_page grants page
  let _ ← checked_add (page * PAGE_4K) PAGE_4K
  pure ()

end Loading

open Loading

namespace ProgramHeader

variable (ph : ProgramHeader)

/-- The first page of a segment, and the page at which the loop ends. -/
def page_range (load_bias : Nat) : Loading (Nat × Nat) := do
  let _end_addr ← checked_add ph.virtual_addr ph.file_size
  let start ← checked_add ph.virtual_addr load_bias
  let seg_start ← virt_addr start
  let mem_end ← checked_add ph.virtual_addr ph.mem_size
  let end_ ← checked_add mem_end load_bias
  let seg_end ← virt_addr end_
  let page_end ← align_up seg_end
  pure (seg_start / PAGE_4K, page_end / PAGE_4K)

/-- The copy of the file, and the part of the segment that is cleared. -/
def copy_segment (load_bias : Nat) (bytes : List UInt8) : Loading Unit := do
  let dst ← checked_add ph.virtual_addr load_bias
  emit (.store dst ((bytes.drop ph.offset).take ph.file_size))
  let bss_len ← checked_sub ph.mem_size ph.file_size
  if 0 < bss_len then do
    let file_end ← checked_add ph.virtual_addr ph.file_size
    let bss ← checked_add file_end load_bias
    emit (.store bss (List.replicate bss_len 0))
  else pure ()

/-- The turn of the loop for a segment. The second loop over the pages repeats the additions of the
first one and does nothing else, so it is left out. -/
def load_step (grants : Grants) (load_bias : Nat) (bytes : List UInt8) :
    Loading Unit := do
  let (first, last) ← ph.page_range load_bias
  map_pages grants (List.range' first (last - first))
  ph.copy_segment load_bias bytes

/-- The loop over the segments. -/
def load_steps (grants : Grants) (load_bias : Nat) (bytes : List UInt8)
    (phs : List ProgramHeader) : Loading Unit :=
  each phs fun ph => ph.load_step grants load_bias bytes

/-- The loop that finds `self.end`. -/
def highest_end (max_end : Nat) : List ProgramHeader → Loading Nat
  | [] => pure max_end
  | ph :: phs => do
    let end_ ← checked_add ph.virtual_addr ph.mem_size
    highest_end (if max_end < end_ then end_ else max_end) phs

end ProgramHeader

namespace ElfFile

variable (elf : ElfFile)

/-- `internal_load`. The value is `self.end`. -/
def load (grants : Grants) : Loading Nat := do
  ProgramHeader.load_steps grants (compute_load_bias elf) elf.input elf.segments
  ProgramHeader.highest_end 0 elf.segments

/-- `user_stack_top` as `prepare_run` computes it from `self.end`. -/
def stack_top (end_ : Nat) : Nat :=
  (compute_load_bias elf + end_ + stack_gap + 0xFFF) / PAGE_4K * PAGE_4K

/-- `prepare_run` up to the point where the stack is mapped. -/
def place_stack (grants : Grants) (end_ : Nat) : Loading Nat := do
  let a ← checked_add (compute_load_bias elf) end_
  let a ← checked_add a stack_gap
  let a ← checked_add a 0xFFF
  let user_stack_top := a / PAGE_4K * PAGE_4K
  let stack_start ← checked_sub user_stack_top stack_size
  each (List.range' (stack_start / PAGE_4K) (stack_size / PAGE_4K)) (map_stack_page grants)
  pure user_stack_top

end ElfFile

/-! ## Arithmetic -/

namespace Loading

variable {α : Type} {es : List Effect} {a : Nat}

theorem checked_add_bind (a b : Nat) (f : Nat → Loading α) : (checked_add a b >>= f) es =
    if a + b < UInt64.size then f (a + b) es else .error .overflow es := by
  unfold checked_add
  split <;> rfl

theorem checked_sub_bind (a b : Nat) (f : Nat → Loading α) : (checked_sub a b >>= f) es =
    if b ≤ a then f (a - b) es else .error .overflow es := by
  unfold checked_sub
  split <;> rfl

theorem virt_addr_bind (a : Nat) (f : Nat → Loading α) : (virt_addr a >>= f) es =
    if canonical a then f a es else .error .non_canonical es := by
  unfold virt_addr
  split <;> rfl

/-- An address rounded up to a page. -/
def page_up (a : Nat) : Nat := (a + (PAGE_4K - 1)) / PAGE_4K * PAGE_4K

theorem align_up_bind (ha : a < UInt64.size) (f : Nat → Loading α) :
    (align_up a >>= f) es = if page_up a < UInt64.size then f (new_truncate (page_up a)) es
      else .error .overflow es := by
  unfold align_up
  by_cases hmod : a % PAGE_4K = 0
  · have hup : page_up a = a := by
      unfold page_up
      unfold PAGE_4K at *
      omega
    rw [if_pos hmod, hup, if_pos ha]
    rfl
  · have hup : a / PAGE_4K * PAGE_4K + PAGE_4K = page_up a := by
      unfold page_up
      unfold PAGE_4K at *
      omega
    rw [if_neg hmod, ← hup, bind_assoc, checked_add_bind]
    rfl

theorem emit_bind (e : Effect) (f : Unit → Loading α) : (emit e >>= f) es = f () (es ++ [e]) := rfl

theorem new_truncate_of_canonical (ha : a < UInt64.size)
    (h : canonical a = true) : new_truncate a = a := by
  unfold canonical at h
  unfold new_truncate
  simp only [UInt64.size] at ha
  simp at h
  split <;> omega

/-! ## Mapping -/

theorem next_page_run (page : Nat) (es : List Effect) : next_page page es =
    if (page + 1) * PAGE_4K < UInt64.size then
      if canonical ((page + 1) * PAGE_4K) then .ok () es else .error .non_canonical es
    else .error .overflow es := by
  unfold next_page
  rw [checked_add_bind, Nat.add_one_mul]
  simp only [virt_addr_bind, pure_run]

theorem ualloc_page_run (grants : Grants) (page : Nat) (es : List Effect) :
    ualloc_page grants page es =
      if grants es then .ok () (es ++ [.alloc page]) else .error .out_of_frames es := by
  unfold ualloc_page
  rw [get_bind]
  split <;> rfl

theorem map_page_run (grants : Grants) (page : Nat) (es : List Effect) :
    map_page grants page es =
      if grants es then next_page page (es ++ [.alloc page]) else .error .out_of_frames es := by
  have hrun := ualloc_page_run grants page es
  by_cases hgrant : grants es = true
  · rw [if_pos hgrant] at hrun ⊢
    exact bind_of_ok hrun
  · rw [if_neg hgrant] at hrun ⊢
    exact bind_of_error hrun

/-- With frames for all of them, the loop maps the pages whose ends are canonical. -/
theorem map_pages_run {pages : List Nat} (es : List Effect)
    (h : ∀ page ∈ pages, (page + 1) * PAGE_4K < UInt64.size ∧
      canonical ((page + 1) * PAGE_4K) = true) :
    map_pages (fun _ => true) pages es = .ok () (es ++ pages.map .alloc) := by
  induction pages generalizing es with
  | nil => exact congrArg _ (List.append_nil es).symm
  | cons page pages ih =>
    have hpage := h page List.mem_cons_self
    have hrun : map_page (fun _ => true) page es = .ok () (es ++ [.alloc page]) := by
      rw [map_page_run, if_pos rfl, next_page_run, if_pos hpage.1, if_pos hpage.2]
    refine (bind_of_ok hrun).trans ?_
    refine (ih (es ++ [.alloc page]) fun p hp => h p (List.mem_cons_of_mem _ hp)).trans ?_
    simp

section Grown

-- `P` holds of what was done, and more of it does no harm.
variable {P : List Effect → Prop} (hP : ∀ es e, P es → P (es ++ [e]))

include hP

theorem ends_map_page_grown (grants : Grants) (page : Nat) {es : List Effect} (h : P es) :
    Always (map_page grants page es) P := by
  rw [map_page_run, next_page_run]
  split_ifs
  · exact hP es _ h
  · exact hP es _ h
  · exact hP es _ h
  · exact h

theorem ends_map_pages_grown (grants : Grants) (pages : List Nat) {es : List Effect} (h : P es) :
    Always (map_pages grants pages es) P :=
  ends_each_inv (fun page _ h1 => ends_map_page_grown hP grants page h1) h

end Grown

end Loading

/-! ## Segments -/

namespace ProgramHeader

variable {ph : ProgramHeader} {load_bias : Nat} {bytes : List UInt8} {es added : List Effect}
  {phs : List ProgramHeader}

theorem page_range_run (ph : ProgramHeader) (load_bias : Nat) (es : List Effect) :
    ph.page_range load_bias es = if ph.virtual_addr + ph.file_size < UInt64.size then
        if ph.seg_start load_bias < UInt64.size then if canonical (ph.seg_start load_bias) then
            if ph.seg_end load_bias < UInt64.size then if canonical (ph.seg_end load_bias) then
                if page_up (ph.seg_end load_bias) < UInt64.size then
                  .ok (ph.seg_start load_bias / PAGE_4K,
                    new_truncate (page_up (ph.seg_end load_bias)) / PAGE_4K) es
                else .error .overflow es else .error .non_canonical es else .error .overflow es
          else .error .non_canonical es else .error .overflow es else .error .overflow es := by
  unfold page_range seg_start seg_end
  simp only [checked_add_bind, virt_addr_bind]
  by_cases hend : ph.virtual_addr + ph.mem_size + load_bias < UInt64.size
  · have hmem : ph.virtual_addr + ph.mem_size < UInt64.size := by omega
    simp only [if_pos hmem, align_up_bind hend, pure_run]
  · simp only [if_neg hend, ite_self]

theorem seg_end_eq (ph : ProgramHeader) (load_bias : Nat) :
    ph.seg_end load_bias = ph.seg_start load_bias + ph.mem_size := by
  unfold seg_end seg_start
  omega

theorem of_pages_nil (h : ph.pages load_bias = []) :
    ph.mem_size = 0 ∧ ph.seg_start load_bias % PAGE_4K = 0 := by
  unfold pages at h
  rw [List.range'_eq_nil_iff, seg_end_eq] at h
  unfold PAGE_4K at *
  omega

theorem page_up_of_nil (h : ph.pages load_bias = []) :
    page_up (ph.seg_end load_bias) = ph.seg_start load_bias := by
  obtain ⟨hmem, hmod⟩ := of_pages_nil h
  rw [seg_end_eq]
  unfold page_up
  unfold PAGE_4K at *
  omega

/-- The copy of the file and the cleared rest. -/
def copied (ph : ProgramHeader) (load_bias : Nat) (bytes : List UInt8) : List Effect :=
  .store (ph.seg_start load_bias) ((bytes.drop ph.offset).take ph.file_size) ::
    if 0 < ph.mem_size - ph.file_size then
      [.store (ph.seg_start load_bias + ph.file_size)
        (List.replicate (ph.mem_size - ph.file_size) 0)]
    else []

theorem load_segment_eq (ph : ProgramHeader) (load_bias : Nat) (bytes : List UInt8) :
    ph.load_segment load_bias bytes =
      if ph.seg_end load_bias < UInt64.size ∧ canonical (ph.seg_start load_bias) ∧
          canonical (ph.seg_end load_bias) ∧
          (∀ page ∈ ph.pages load_bias, (page + 1) * PAGE_4K < UInt64.size ∧
            canonical ((page + 1) * PAGE_4K)) ∧ ph.file_size ≤ ph.mem_size then
        some ((ph.pages load_bias).map .alloc ++ ph.copied load_bias bytes) else none := by
  unfold load_segment copied
  simp only [List.append_assoc, List.cons_append, List.nil_append]

theorem copy_segment_run (hsize : ph.file_size ≤ ph.mem_size)
    (hend : ph.seg_end load_bias < UInt64.size) :
    ph.copy_segment load_bias bytes es = .ok () (es ++ ph.copied load_bias bytes) := by
  have hstart : ph.virtual_addr + load_bias < UInt64.size := by
    unfold seg_end at hend
    omega
  have hfile : ph.virtual_addr + ph.file_size + load_bias < UInt64.size := by
    unfold seg_end at hend
    omega
  have hbss : ph.virtual_addr + ph.file_size + load_bias =
      ph.seg_start load_bias + ph.file_size := by
    unfold seg_start
    omega
  unfold copy_segment copied
  rw [checked_add_bind, if_pos hstart, emit_bind, checked_sub_bind, if_pos hsize]
  split
  · rw [checked_add_bind, if_pos (by omega), checked_add_bind, if_pos hfile, hbss]
    exact congrArg (EStateM.Result.ok ()) (List.append_assoc es [_] [_])
  · rfl

/-- The difference of the sizes underflows, but only after the copy. -/
theorem copy_segment_underflow (hsize : ¬ ph.file_size ≤ ph.mem_size)
    (hstart : ph.seg_start load_bias < UInt64.size) :
    Fails (ph.copy_segment load_bias bytes es) .overflow := by
  unfold seg_start at hstart
  unfold copy_segment
  rw [checked_add_bind, if_pos hstart, emit_bind, checked_sub_bind, if_neg hsize]
  exact ⟨_, rfl⟩

/-- The ends of the pages are canonical, so the last one is the end of the loop. -/
theorem page_up_canonical (hstart : ph.seg_start load_bias < UInt64.size)
    (hcanonical : canonical (ph.seg_start load_bias) = true)
    (hpages : ∀ page ∈ ph.pages load_bias, (page + 1) * PAGE_4K < UInt64.size ∧
      canonical ((page + 1) * PAGE_4K) = true) :
    page_up (ph.seg_end load_bias) < UInt64.size ∧
      canonical (page_up (ph.seg_end load_bias)) = true := by
  by_cases hempty : ph.pages load_bias = []
  · rw [page_up_of_nil hempty]
    exact ⟨hstart, hcanonical⟩
  · obtain ⟨page, hpage⟩ := List.exists_mem_of_ne_nil _ hempty
    rw [mem_pages] at hpage
    have hlast := hpages ((ph.seg_end load_bias + (PAGE_4K - 1)) / PAGE_4K - 1)
      (mem_pages.mpr (by omega))
    rw [Nat.sub_add_cancel (by omega)] at hlast
    exact hlast

/-- What the model of the whole image says of a segment is what its steps do, with frames for all
pages. -/
theorem load_step_run (h : ph.load_segment load_bias bytes = some added) :
    ph.load_step (fun _ => true) load_bias bytes es = .ok () (es ++ added) := by
  rw [load_segment_eq] at h
  split at h
  · rename_i hcond
    obtain ⟨hend, hscan, hecan, hpages, hsize⟩ := hcond
    simp only [Option.some.injEq] at h
    have hstart : ph.seg_start load_bias < UInt64.size := by
      rw [seg_end_eq] at hend
      omega
    have hfile : ph.virtual_addr + ph.file_size < UInt64.size := by
      unfold seg_end at hend
      omega
    obtain ⟨hup, hupcan⟩ := page_up_canonical hstart hscan hpages
    have hrange : ph.page_range load_bias es = .ok (ph.seg_start load_bias / PAGE_4K,
        (ph.seg_end load_bias + (PAGE_4K - 1)) / PAGE_4K) es := by
      rw [page_range_run, if_pos hfile, if_pos hstart, if_pos hscan, if_pos hend, if_pos hecan,
        if_pos hup, new_truncate_of_canonical hup hupcan]
      unfold page_up
      rw [Nat.mul_div_cancel _ (by decide)]
    refine (bind_of_ok hrange).trans ?_
    refine (bind_of_ok (map_pages_run es hpages)).trans ?_
    refine (copy_segment_run hsize hend).trans ?_
    rw [← h, List.append_assoc]
  · cases h

theorem load_steps_run (h : load_segments load_bias bytes phs = some added) :
    load_steps (fun _ => true) load_bias bytes phs es = .ok () (es ++ added) := by
  induction phs generalizing es added with
  | nil =>
    cases h
    exact congrArg (EStateM.Result.ok ()) (List.append_nil es).symm
  | cons ph phs ih =>
    simp only [load_segments, Option.bind_eq_bind, Option.bind_eq_some_iff, Option.some.injEq] at h
    obtain ⟨first, hfirst, rest, hrest, rfl⟩ := h
    refine (bind_of_ok (load_step_run hfirst)).trans ?_
    rw [← List.append_assoc]
    exact ih hrest

theorem highest_end_run (h : ∀ ph ∈ phs, ph.virtual_addr + ph.mem_size < UInt64.size)
    (max_end : Nat) (es : List Effect) :
    highest_end max_end phs es =
      .ok ((phs.map (fun ph => ph.virtual_addr + ph.mem_size)).foldl max max_end) es := by
  induction phs generalizing max_end with
  | nil => rfl
  | cons ph phs ih =>
    unfold highest_end
    rw [checked_add_bind, if_pos (h ph List.mem_cons_self),
      ih (fun ph' hph' => h ph' (List.mem_cons_of_mem _ hph')), List.map_cons, List.foldl_cons]
    congr 2
    split <;> omega

section Grown

variable {P : List Effect → Prop} (hP : ∀ es e, P es → P (es ++ [e]))

theorem ends_highest_end_grown (max_end : Nat) (phs : List ProgramHeader) (h : P es) :
    Always (highest_end max_end phs es) P := by
  induction phs generalizing max_end with
  | nil => exact h
  | cons ph phs ih =>
    unfold highest_end
    rw [checked_add_bind]
    split
    · exact ih _
    · exact h

include hP

theorem ends_copy_segment_grown (h : P es) : Always (ph.copy_segment load_bias bytes es) P := by
  unfold copy_segment
  simp only [checked_add_bind, emit_bind, checked_sub_bind]
  split_ifs
  · simp only [checked_add_bind]
    split_ifs
    · exact hP _ _ (hP _ _ h)
    · exact hP _ _ h
    · exact hP _ _ h
  · exact hP _ _ h
  · exact hP _ _ h
  · exact h

end Grown

end ProgramHeader

/-- The steps of `internal_load`, with frames for all pages, are its effects. -/
theorem ElfFile.load_run {elf : ElfFile} {es : List Effect} (h : elf.internal_load = some es)
    (hend : ∀ ph ∈ elf.segments, ph.virtual_addr + ph.mem_size < UInt64.size) :
    elf.load (fun _ => true) [] = .ok elf.max_end es := by
  refine (bind_of_ok (ProgramHeader.load_steps_run h)).trans ?_
  exact ProgramHeader.highest_end_run hend 0 ([] ++ es)

end zenos_kernel.process
