-- Where the loader maps and writes. The addresses and the sizes of a segment come from the file,
-- and only `VirtAddr` and the checks of arithmetic stand between them and the kernel.
import Zenos.Process.LoaderSteps

namespace zenos_kernel.process

open Outcome memory PagedMemory Loading ProgramHeader syscall

/-- The end of the lower half. -/
def USER_LIMIT : Nat := 0x0000800000000000

/-! ## Staying in user space -/

namespace ElfFile

/-- What the loader may do, after what it has done: map a page below the limit, or write bytes of a
segment all pages of which it has mapped. -/
def Allowed (elf : ElfFile) (done : List Effect) : Effect → Prop
  | .alloc page => (page + 1) * PAGE_4K ≤ USER_LIMIT
  | .store addr bytes => ∀ a, addr ≤ a → a < addr + bytes.length →
      ∃ ph ∈ elf.segments, ph.seg_start (compute_load_bias elf) ≤ a ∧
        a < ph.seg_end (compute_load_bias elf) ∧
        ∀ page ∈ ph.pages (compute_load_bias elf), .alloc page ∈ done

def Contained (elf : ElfFile) (es : List Effect) : Prop :=
  ∀ done e rest, es = done ++ e :: rest → elf.Allowed done e

/-- Whatever the frame allocator does, `internal_load` does only what it may and no arithmetic
overflows, and the stack is placed below the limit. -/
structure InUserSpace (elf : ElfFile) : Prop where
  contained : ∀ grants, elf.Contained (final (elf.load grants []))
  no_overflow : ∀ grants, ¬ Fails (elf.load grants []) .overflow
  stack : ∀ grants end_ es, elf.load grants [] = .ok end_ es →
    elf.stack_top end_ ≤ USER_LIMIT ∧ elf.Contained (final (elf.place_stack grants end_ es)) ∧
      ¬ Fails (elf.place_stack grants end_ es) .overflow

end ElfFile

namespace ProgramHeader

variable (ph : ProgramHeader)

/-- A segment ends before the last page of the lower half, and the file does not fill more than the
segment; or it starts in the lower half and reaches further, which panics. An empty segment at a
page boundary may be anywhere. -/
def Placed (load_bias : Nat) : Prop :=
  (ph.seg_start load_bias < USER_LIMIT ∧
    (ph.seg_end load_bias + PAGE_4K ≤ USER_LIMIT → ph.file_size ≤ ph.mem_size)) ∨
  (ph.pages load_bias = [] ∧ ph.file_size ≤ ph.mem_size)

/-- No sum overflows up to the first address that is not canonical, and a segment with canonical
addresses is placed well. -/
def Harmless (load_bias : Nat) : Prop :=
  ph.virtual_addr + ph.file_size < UInt64.size ∧ ph.seg_start load_bias < UInt64.size ∧
    (syscall.canonical (ph.seg_start load_bias) → ph.seg_end load_bias < UInt64.size ∧
      (syscall.canonical (ph.seg_end load_bias) →
        page_up (ph.seg_end load_bias) < UInt64.size ∧ ph.Placed load_bias))

/-- A harmless segment that is loaded without a panic, as long as there are frames. -/
def Passes (load_bias : Nat) : Prop :=
  syscall.canonical (ph.seg_start load_bias) ∧ ph.seg_end load_bias < UInt64.size ∧
    ph.file_size ≤ ph.mem_size ∧
    (ph.seg_end load_bias + PAGE_4K ≤ USER_LIMIT ∨ ph.pages load_bias = [])

/-- Every segment is harmless, up to the first one at which the loader panics. -/
def AllHarmless (load_bias : Nat) : List ProgramHeader → Prop
  | [] => True
  | ph :: phs => ph.Harmless load_bias ∧ (ph.Passes load_bias → AllHarmless load_bias phs)

variable {ph : ProgramHeader} {load_bias : Nat} {bytes : List UInt8} {es : List Effect}

/-! ## Addresses -/

theorem canonical_low {a : Nat} (h : a < USER_LIMIT) : canonical a = true := by
  unfold canonical
  unfold USER_LIMIT at h
  simp [h]

theorem Passes.end_canonical (h : ph.Passes load_bias) :
    canonical (ph.seg_end load_bias) = true := by
  obtain ⟨hstart, -, -, hend | hpages⟩ := h
  · apply canonical_low
    unfold PAGE_4K at hend
    omega
  · rw [seg_end_eq, (of_pages_nil hpages).1]
    exact hstart

/-- What is known of a segment when its pages are. -/
structure Ranged (ph : ProgramHeader) (load_bias : Nat) : Prop where
  file_end : ph.virtual_addr + ph.file_size < UInt64.size
  start : ph.seg_start load_bias < UInt64.size
  start_canonical : syscall.canonical (ph.seg_start load_bias) = true
  end_ : ph.seg_end load_bias < UInt64.size
  end_canonical : syscall.canonical (ph.seg_end load_bias) = true
  page_end : page_up (ph.seg_end load_bias) < UInt64.size

/-- A segment is harmless when its addresses stop the loader, and not when they overflow. -/
theorem ends_page_range (ph : ProgramHeader) (load_bias : Nat) (es : List Effect) :
    Ends (ph.page_range load_bias es)
      (fun r es' => es' = es ∧ ph.Ranged load_bias ∧ r = (ph.seg_start load_bias / PAGE_4K,
        new_truncate (page_up (ph.seg_end load_bias)) / PAGE_4K))
      (fun e es' => es' = es ∧ (e = .overflow ∧ ¬ ph.Harmless load_bias ∨
        e = .non_canonical ∧ ph.Harmless load_bias ∧ ¬ ph.Passes load_bias)) := by
  rw [page_range_run]
  split_ifs with hfile hstart hscan hend hecan hup
  · exact ⟨rfl, ⟨hfile, hstart, hscan, hend, hecan, hup⟩, rfl⟩
  · exact ⟨rfl, Or.inl ⟨rfl, fun h => hup ((h.2.2 hscan).2 hecan).1⟩⟩
  · refine ⟨rfl, Or.inr ⟨rfl, ⟨hfile, hstart, fun _ => ⟨hend, fun h => absurd h hecan⟩⟩, ?_⟩⟩
    exact fun h => hecan h.end_canonical
  · exact ⟨rfl, Or.inl ⟨rfl, fun h => hend (h.2.2 hscan).1⟩⟩
  · exact ⟨rfl, Or.inr ⟨rfl, ⟨hfile, hstart, fun h => absurd h hscan⟩, fun h => hscan h.1⟩⟩
  · exact ⟨rfl, Or.inl ⟨rfl, fun h => hstart h.2.1⟩⟩
  · exact ⟨rfl, Or.inl ⟨rfl, fun h => hfile h.1⟩⟩

/-- The pages of the loop for a segment that ends before the last page of the lower half. -/
theorem range_low (hend : ph.seg_end load_bias + PAGE_4K ≤ USER_LIMIT) :
    List.range' (ph.seg_start load_bias / PAGE_4K)
      (new_truncate (page_up (ph.seg_end load_bias)) / PAGE_4K -
        ph.seg_start load_bias / PAGE_4K) = ph.pages load_bias := by
  have htrunc : new_truncate (page_up (ph.seg_end load_bias)) = page_up (ph.seg_end load_bias) := by
    apply new_truncate_of_canonical
    · unfold page_up
      unfold USER_LIMIT PAGE_4K at *
      simp only [UInt64.size]
      omega
    · apply canonical_low
      unfold page_up
      unfold PAGE_4K at *
      omega
  rw [htrunc]
  unfold page_up pages
  rw [Nat.mul_div_cancel _ (by decide)]

theorem range_empty (hstart : ph.seg_start load_bias < UInt64.size)
    (hcanonical : canonical (ph.seg_start load_bias) = true) (hpages : ph.pages load_bias = []) :
    new_truncate (page_up (ph.seg_end load_bias)) / PAGE_4K -
      ph.seg_start load_bias / PAGE_4K = 0 := by
  rw [page_up_of_nil hpages, new_truncate_of_canonical hstart hcanonical, Nat.sub_self]

/-- For any other segment that starts in the lower half, the loop would have to leave it. -/
theorem range_high (hr : ph.Ranged load_bias)
    (hend : ¬ ph.seg_end load_bias + PAGE_4K ≤ USER_LIMIT) :
    USER_PAGES ≤ ph.seg_start load_bias / PAGE_4K +
      (new_truncate (page_up (ph.seg_end load_bias)) / PAGE_4K -
        ph.seg_start load_bias / PAGE_4K) := by
  have hup : page_up (ph.seg_end load_bias) = 2 ^ 47 ∨
      2 ^ 64 - 2 ^ 47 ≤ page_up (ph.seg_end load_bias) := by
    have hcanonical := hr.end_canonical
    unfold canonical at hcanonical
    simp at hcanonical
    unfold page_up
    unfold USER_LIMIT PAGE_4K at *
    omega
  have hsize := hr.page_end
  have htop : 2 ^ 47 ≤ new_truncate (page_up (ph.seg_end load_bias)) := by
    unfold new_truncate
    simp only [UInt64.size] at hsize
    split <;> omega
  unfold USER_PAGES PAGE_4K at *
  omega

/-- The loop has a page for every other segment in the upper half. -/
theorem range_upper (hr : ph.Ranged load_bias) (hlow : ¬ ph.seg_start load_bias < USER_LIMIT)
    (hpages : ph.pages load_bias ≠ []) :
    ∃ n, new_truncate (page_up (ph.seg_end load_bias)) / PAGE_4K -
      ph.seg_start load_bias / PAGE_4K = n + 1 := by
  have hend := ph.seg_end_eq load_bias
  have hcanonical : canonical (page_up (ph.seg_end load_bias)) = true := by
    have hstart := hr.start_canonical
    unfold canonical at hstart ⊢
    simp at hstart ⊢
    unfold page_up
    unfold USER_LIMIT PAGE_4K at *
    omega
  rw [new_truncate_of_canonical hr.page_end hcanonical]
  obtain ⟨page, hpage⟩ := List.exists_mem_of_ne_nil _ hpages
  rw [mem_pages] at hpage
  unfold page_up
  rw [Nat.mul_div_cancel _ (by decide)]
  exact ⟨_, (Nat.sub_add_cancel (by omega)).symm⟩

theorem Placed.size_of_empty (h : ph.Placed load_bias) (hpages : ph.pages load_bias = []) :
    ph.file_size ≤ ph.mem_size := by
  obtain ⟨hmem, hmod⟩ := of_pages_nil hpages
  rcases h with ⟨hlow, hsize⟩ | ⟨-, hsize⟩
  · apply hsize
    rw [seg_end_eq]
    unfold USER_LIMIT PAGE_4K at *
    omega
  · exact hsize

theorem pages_low (hend : ph.seg_end load_bias + PAGE_4K ≤ USER_LIMIT) :
    ∀ page ∈ ph.pages load_bias, (page + 1) * PAGE_4K < UInt64.size ∧
      canonical ((page + 1) * PAGE_4K) = true := by
  intro page hpage
  rw [mem_pages] at hpage
  have hbelow : (page + 1) * PAGE_4K < USER_LIMIT := by
    unfold PAGE_4K at *
    omega
  exact ⟨Nat.lt_trans hbelow (by decide), canonical_low hbelow⟩

theorem Passes.load_segment (h : ph.Passes load_bias) (bytes : List UInt8) :
    ∃ added, ph.load_segment load_bias bytes = some added := by
  have hecan := h.end_canonical
  obtain ⟨hscan, hend, hsize, hplace⟩ := h
  rw [load_segment_eq, if_pos]
  · exact ⟨_, rfl⟩
  · refine ⟨hend, hscan, hecan, fun page hpage => ?_, hsize⟩
    rcases hplace with hlow | hempty
    · exact pages_low hlow page hpage
    · rw [hempty] at hpage
      cases hpage

theorem load_segments_of_passes {phs : List ProgramHeader} (h : ∀ ph ∈ phs, ph.Passes load_bias)
    (bytes : List UInt8) : ∃ added, load_segments load_bias bytes phs = some added := by
  induction phs with
  | nil => exact ⟨[], rfl⟩
  | cons ph phs ih =>
    obtain ⟨first, hfirst⟩ := (h ph List.mem_cons_self).load_segment bytes
    obtain ⟨rest, hrest⟩ := ih fun ph' hph' => h ph' (List.mem_cons_of_mem _ hph')
    exact ⟨first ++ rest, by simp [load_segments, hfirst, hrest]⟩

theorem Passes.mem_end (h : ph.Passes load_bias) : ph.virtual_addr + ph.mem_size < UInt64.size := by
  have hend := h.2.1
  unfold seg_end at hend
  omega

end ProgramHeader

/-! ## Harmless segments -/

/-- A page of the lower half is mapped, and the next one may be outside. -/
theorem Loading.ends_map_page (grants : Grants) {page : Nat} (h : page < USER_PAGES)
    (es : List Effect) :
    Ends (map_page grants page es) (fun _ es' => es' = es ++ [.alloc page] ∧ page + 1 < USER_PAGES)
      (fun e es' => e ≠ .overflow ∧ ∃ k ≤ 1, es' = es ++ (List.range' page k).map .alloc) := by
  have hsmall : (page + 1) * PAGE_4K < UInt64.size := by
    unfold USER_PAGES PAGE_4K at *
    simp only [UInt64.size]
    omega
  rw [map_page_run, next_page_run]
  split_ifs with hgrant hcanonical
  · refine ⟨rfl, ?_⟩
    unfold canonical at hcanonical
    unfold USER_PAGES PAGE_4K at *
    simp at hcanonical
    omega
  · exact ⟨by decide, 1, Nat.le_refl 1, rfl⟩
  · exact ⟨by decide, 0, Nat.zero_le 1, (List.append_nil es).symm⟩

/-- From a page of the lower half on, the loop maps pages of the lower half, and it does not get
past the last one. -/
theorem Loading.ends_map_pages (grants : Grants) {first : Nat} (n : Nat)
    (hfirst : first < USER_PAGES) (es : List Effect) :
    Ends (map_pages grants (List.range' first n) es)
      (fun _ es' => es' = es ++ (List.range' first n).map .alloc ∧ first + n < USER_PAGES)
      (fun e es' => e ≠ .overflow ∧ ∃ k, es' = es ++ (List.range' first k).map .alloc ∧
        first + k ≤ USER_PAGES) := by
  induction n generalizing first es with
  | zero => exact ⟨(List.append_nil es).symm, hfirst⟩
  | succ n ih =>
    rw [List.range'_succ]
    refine ends_then (ends_map_page grants hfirst es) ?_ ?_
    · rintro e es' ⟨he, k, hk, hes'⟩
      exact ⟨he, k, hes', by omega⟩
    · rintro _ es' ⟨rfl, hnext⟩
      refine (ih hnext _).mono ?_ ?_
      · rintro _ es' ⟨rfl, hlast⟩
        exact ⟨by simp, by omega⟩
      · rintro e es' ⟨he, k, rfl, hk⟩
        exact ⟨he, k + 1, by simp [List.range'_succ], by omega⟩

namespace ElfFile

variable {elf : ElfFile} {es : List Effect}

theorem Contained.snoc {e : Effect} (h : elf.Contained es) (he : elf.Allowed es e) :
    elf.Contained (es ++ [e]) := by
  intro done e' rest hsplit
  rcases List.eq_nil_or_concat rest with rfl | ⟨rest, last, rfl⟩
  · obtain ⟨rfl, hlast⟩ := List.append_inj' hsplit rfl
    cases hlast
    exact he
  · rw [List.concat_eq_append, ← List.cons_append, ← List.append_assoc] at hsplit
    obtain ⟨rfl, -⟩ := List.append_inj' hsplit rfl
    exact h done e' rest rfl

theorem Contained.allocs {first n : Nat} (h : elf.Contained es) (hlast : first + n ≤ USER_PAGES) :
    elf.Contained (es ++ (List.range' first n).map .alloc) := by
  induction n with
  | zero => rwa [List.range'_zero, List.map_nil, List.append_nil]
  | succ n ih =>
    rw [List.range'_1_concat, List.map_append, ← List.append_assoc]
    refine (ih (by omega)).snoc ?_
    change (first + n + 1) * PAGE_4K ≤ USER_LIMIT
    unfold USER_PAGES PAGE_4K at *
    unfold USER_LIMIT
    omega

end ElfFile

namespace ProgramHeader

variable {ph : ProgramHeader} {load_bias : Nat} {bytes : List UInt8} {es : List Effect}
  {elf : ElfFile}

/-- The bytes of a segment may be written once its pages are mapped. -/
theorem contained_copied (hph : ph ∈ elf.segments) (hload_bias : load_bias = compute_load_bias elf)
    (hsize : ph.file_size ≤ ph.mem_size) (hmapped : ∀ page ∈ ph.pages load_bias, .alloc page ∈ es)
    (h : elf.Contained es) : elf.Contained (es ++ ph.copied load_bias bytes) := by
  subst hload_bias
  have hend := ph.seg_end_eq (compute_load_bias elf)
  have hlen := List.length_take_le ph.file_size (bytes.drop ph.offset)
  have hfile : elf.Contained (es ++ [.store (ph.seg_start (compute_load_bias elf))
      ((bytes.drop ph.offset).take ph.file_size)]) := by
    apply h.snoc
    intro a hlo hhi
    exact ⟨ph, hph, hlo, by omega, hmapped⟩
  unfold copied
  split
  · rw [List.append_cons]
    apply hfile.snoc
    intro a hlo hhi
    rw [List.length_replicate] at hhi
    refine ⟨ph, hph, by omega, by omega, fun page hpage => ?_⟩
    exact List.mem_append_left _ (hmapped page hpage)
  · exact hfile

/-- A harmless segment is loaded, or the loader panics in time. -/
theorem ends_load_step (hph : ph ∈ elf.segments)
    (h : ph.Harmless (compute_load_bias elf)) (grants : Grants) (hes : elf.Contained es) :
    Ends (ph.load_step grants (compute_load_bias elf) elf.input es)
      (fun _ es' => ph.Passes (compute_load_bias elf) ∧ elf.Contained es')
      (fun e es' => e ≠ .overflow ∧ elf.Contained es') := by
  refine ends_then (ends_page_range ph _ es) ?_ ?_
  · rintro e es' ⟨rfl, ⟨-, hnot⟩ | ⟨rfl, -, -⟩⟩
    · exact absurd h hnot
    · exact ⟨by decide, hes⟩
  rintro _ es' ⟨rfl, hr, rfl⟩
  dsimp only
  have hplaced := ((h.2.2 hr.start_canonical).2 hr.end_canonical).2
  by_cases hpages : ph.pages (compute_load_bias elf) = []
  · -- nothing is mapped, and nothing is written
    have hsize := hplaced.size_of_empty hpages
    rw [range_empty hr.start hr.start_canonical hpages]
    refine (congrArg (Ends · _ _) (copy_segment_run hsize hr.end_)).mpr ?_
    refine ⟨⟨hr.start_canonical, hr.end_, hsize, Or.inr hpages⟩, ?_⟩
    exact contained_copied hph rfl hsize (by simp [hpages]) hes
  obtain ⟨hlow, hsize⟩ := hplaced.resolve_right (fun h => hpages h.1)
  have hfirst : ph.seg_start (compute_load_bias elf) / PAGE_4K < USER_PAGES :=
    Nat.div_lt_of_lt_mul hlow
  refine ends_then (ends_map_pages grants _ hfirst es') ?_ ?_
  · rintro e es'' ⟨he, k, rfl, hk⟩
    exact ⟨he, hes.allocs hk⟩
  rintro _ es'' ⟨rfl, hlast⟩
  by_cases hend : ph.seg_end (compute_load_bias elf) + PAGE_4K ≤ USER_LIMIT
  · rw [copy_segment_run (hsize hend) hr.end_]
    refine ⟨⟨hr.start_canonical, hr.end_, hsize hend, Or.inl hend⟩, ?_⟩
    refine contained_copied hph rfl (hsize hend) ?_ (hes.allocs (Nat.le_of_lt hlast))
    intro page hpage
    rw [range_low hend]
    exact List.mem_append_right _ (List.mem_map_of_mem hpage)
  · exact absurd hlast (Nat.not_lt.mpr (range_high hr hend))

theorem ends_load_steps {phs : List ProgramHeader} (hphs : ∀ ph ∈ phs, ph ∈ elf.segments)
    (h : AllHarmless (compute_load_bias elf) phs) (grants : Grants) (hes : elf.Contained es) :
    Ends (load_steps grants (compute_load_bias elf) elf.input phs es)
      (fun _ es' => (∀ ph ∈ phs, ph.Passes (compute_load_bias elf)) ∧ elf.Contained es')
      (fun e es' => e ≠ .overflow ∧ elf.Contained es') := by
  induction phs generalizing es with
  | nil => exact ⟨by simp, hes⟩
  | cons ph phs ih =>
    refine ends_bind (ends_load_step (hphs ph List.mem_cons_self) h.1 grants hes) ?_
    rintro _ es1 ⟨hpasses, hes1⟩
    have hrest := ih (fun ph' hph' => hphs ph' (List.mem_cons_of_mem _ hph')) (h.2 hpasses) hes1
    refine hrest.mono_ok ?_
    rintro _ es2 ⟨hall, hes2⟩
    exact ⟨List.forall_mem_cons.mpr ⟨hpasses, hall⟩, hes2⟩

end ProgramHeader

/-! ## Segments that do harm -/

namespace Loading

/-- Arithmetic has overflowed, or a page outside of the lower half was mapped. -/
def Harm {α : Type} (r : EStateM.Result LoadPanic (List Effect) α) : Prop :=
  Fails r .overflow ∨ ∃ page, ¬ (page + 1) * PAGE_4K ≤ USER_LIMIT ∧ .alloc page ∈ final r

/-- Harm is not undone. -/
theorem Harm.bind {α β : Type} {x : Loading α} {f : α → Loading β} {es : List Effect}
    (h : Harm (x es)) (hf : ∀ (P : List Effect → Prop), (∀ es e, P es → P (es ++ [e])) →
      ∀ a es1, P es1 → Always (f a es1) P) : Harm ((x >>= f) es) := by
  rcases h with hfails | ⟨page, hpage, hmem⟩
  · exact Or.inl (fails_bind.mpr (Or.inl hfails))
  refine Or.inr ⟨page, hpage, ?_⟩
  cases hrun : x es with
  | error e es1 =>
    rw [hrun] at hmem
    rw [bind_of_error hrun]
    exact hmem
  | ok a es1 =>
    rw [hrun] at hmem
    rw [bind_of_ok hrun]
    exact (hf (.alloc page ∈ ·) (fun _ _ h => List.mem_append_left _ h) a es1 hmem).final

/-- A page is mapped before the loop looks at the next one. -/
theorem harm_map_pages {page : Nat} (h : ¬ (page + 1) * PAGE_4K ≤ USER_LIMIT) (pages : List Nat)
    (es : List Effect) : Harm (map_pages (fun _ => true) (page :: pages) es) := by
  have hfirst : .alloc page ∈ final (map_page (fun _ => true) page es) := by
    rw [map_page_run, next_page_run, if_pos rfl]
    split_ifs <;> simp [final]
  refine Harm.bind (f := fun _ => map_pages (fun _ => true) pages) (Or.inr ⟨page, h, hfirst⟩) ?_
  intro P hP _ es1 h1
  exact ends_map_pages_grown hP _ pages h1

end Loading

namespace ProgramHeader

variable {ph : ProgramHeader} {load_bias : Nat} {bytes : List UInt8} {es : List Effect}

section Grown

variable {P : List Effect → Prop} (hP : ∀ es e, P es → P (es ++ [e]))

include hP

theorem ends_load_step_grown (grants : Grants) (h : P es) :
    Always (ph.load_step grants load_bias bytes es) P := by
  refine ends_bind (Q := fun _ => P) ((ends_page_range ph load_bias es).mono ?_ ?_) ?_
  · rintro _ es' ⟨rfl, -⟩
    exact h
  · rintro _ es' ⟨rfl, -⟩
    exact h
  · intro r es1 h1
    refine ends_bind (ends_map_pages_grown hP grants _ h1) fun _ es2 h2 => ?_
    exact ends_copy_segment_grown hP h2

end Grown

theorem harm_load_step (h : ¬ ph.Harmless load_bias) :
    Harm (ph.load_step (fun _ => true) load_bias bytes es) := by
  have hrange := ends_page_range ph load_bias es
  cases hrun : ph.page_range load_bias es with
  | error e es1 =>
    rw [hrun] at hrange
    obtain ⟨rfl, ⟨rfl, -⟩ | ⟨-, hharmless, -⟩⟩ := hrange
    · exact Or.inl ⟨_, bind_of_error hrun⟩
    · exact absurd hharmless h
  | ok r es1 =>
    rw [hrun] at hrange
    obtain ⟨rfl, hr, rfl⟩ := hrange
    have hplaced : ¬ ph.Placed load_bias := by
      intro hp
      exact h ⟨hr.file_end, hr.start, fun _ => ⟨hr.end_, fun _ => ⟨hr.page_end, hp⟩⟩⟩
    have hstep := bind_of_ok (f := fun r => map_pages (fun _ => true) (List.range' r.1 (r.2 - r.1))
      >>= fun _ => ph.copy_segment load_bias bytes) hrun
    refine (congrArg Harm hstep).mpr ?_
    by_cases hpages : ph.pages load_bias = []
    · -- nothing is mapped, and the copy is too long
      rw [range_empty hr.start hr.start_canonical hpages]
      exact Or.inl (copy_segment_underflow (fun hsize => hplaced (Or.inr ⟨hpages, hsize⟩)) hr.start)
    by_cases hlow : ph.seg_start load_bias < USER_LIMIT
    · have hend : ph.seg_end load_bias + PAGE_4K ≤ USER_LIMIT := by
        by_contra hend
        exact hplaced (Or.inl ⟨hlow, fun h => absurd h hend⟩)
      have hsize : ¬ ph.file_size ≤ ph.mem_size := fun hsize =>
        hplaced (Or.inl ⟨hlow, fun _ => hsize⟩)
      rw [range_low hend, bind_of_ok (map_pages_run es1 (pages_low hend))]
      exact Or.inl (copy_segment_underflow hsize hr.start)
    · -- the first page is in the upper half
      obtain ⟨n, hn⟩ := range_upper hr hlow hpages
      rw [hn]
      refine Harm.bind (harm_map_pages ?_ _ _) ?_
      · unfold PAGE_4K at *
        omega
      · intro P hP _ es2 h2
        exact ends_copy_segment_grown hP h2

theorem harm_load_steps {phs : List ProgramHeader} (h : ¬ AllHarmless load_bias phs) :
    Harm (load_steps (fun _ => true) load_bias bytes phs es) := by
  induction phs generalizing es with
  | nil => exact absurd trivial h
  | cons ph phs ih =>
    by_cases hharmless : ph.Harmless load_bias
    · have hrest : ¬ (ph.Passes load_bias → AllHarmless load_bias phs) := fun hrest =>
        h ⟨hharmless, hrest⟩
      rw [Classical.not_imp] at hrest
      obtain ⟨added, hadded⟩ := hrest.1.load_segment bytes
      exact (congrArg Harm (bind_of_ok (load_step_run hadded))).mpr (ih hrest.2)
    · refine Harm.bind (f := fun _ => load_steps (fun _ => true) load_bias bytes phs)
        (harm_load_step hharmless) ?_
      intro P hP _ es1 h1
      exact ends_each_inv (fun _ _ h2 => ends_load_step_grown hP _ h2) h1

end ProgramHeader

/-! ## The whole image -/

namespace ElfFile

variable {elf : ElfFile} {es : List Effect}

theorem ends_load (h : AllHarmless (compute_load_bias elf) elf.segments) (grants : Grants) :
    Ends (elf.load grants []) (fun end_ es' => end_ = elf.max_end ∧ elf.Contained es' ∧
        ∀ ph ∈ elf.segments, ph.Passes (compute_load_bias elf))
      (fun e es' => e ≠ .overflow ∧ elf.Contained es') := by
  refine ends_bind (ends_load_steps (fun _ h => h) h grants (by simp [Contained])) ?_
  rintro _ es1 ⟨hpasses, hes1⟩
  rw [highest_end_run fun ph hph => (hpasses ph hph).mem_end]
  exact ⟨rfl, hes1, hpasses⟩

theorem ends_map_stack_page {page : Nat} (h : (page + 1) * PAGE_4K ≤ USER_LIMIT)
    (grants : Grants) (hes : elf.Contained es) :
    Ends (map_stack_page grants page es) (fun _ es' => elf.Contained es')
      (fun e es' => e ≠ .overflow ∧ elf.Contained es') := by
  have hsum : page * PAGE_4K + PAGE_4K < UInt64.size := by
    unfold USER_LIMIT PAGE_4K at *
    simp only [UInt64.size]
    omega
  unfold map_stack_page
  rw [virt_addr_bind]
  split_ifs
  · refine ends_bind (Q := fun _ es' => elf.Contained es') ?_ fun _ es1 h1 => ?_
    · rw [ualloc_page_run]
      split_ifs
      · exact hes.snoc h
      · exact ⟨by decide, hes⟩
    · rw [checked_add_bind, if_pos hsum]
      exact h1
  · exact ⟨by decide, hes⟩

/-- A stack below the limit is mapped below the limit. -/
theorem ends_place_stack (htop : elf.user_stack_top ≤ USER_LIMIT) (grants : Grants)
    (hes : elf.Contained es) :
    Ends (elf.place_stack grants elf.max_end es) (fun _ es' => elf.Contained es')
      (fun e es' => e ≠ .overflow ∧ elf.Contained es') := by
  have hsum : compute_load_bias elf + elf.max_end + stack_gap + 0xFFF < UInt64.size := by
    unfold user_stack_top at htop
    unfold USER_LIMIT PAGE_4K at htop
    simp only [UInt64.size]
    omega
  have hsize : stack_size ≤ elf.user_stack_top := by
    unfold user_stack_top stack_size stack_gap PAGE_4K
    omega
  have hloop : Ends (each elf.stack_pages (map_stack_page grants) es)
      (fun _ es' => elf.Contained es') (fun e es' => e ≠ .overflow ∧ elf.Contained es') := by
    refine ends_each (fun _ es' => elf.Contained es') hes ?_
    intro done page rest es1 hpages hes1
    refine ends_map_stack_page ?_ grants hes1
    have hpage : page ∈ elf.stack_pages := by simp [hpages]
    rw [← Nat.mul_div_cancel page (by decide : 0 < PAGE_4K), mem_stack_pages] at hpage
    have hlast := hpage.2
    unfold user_stack_top at hlast htop
    rw [Nat.mul_lt_mul_right (by decide)] at hlast
    exact Nat.le_trans (Nat.mul_le_mul_right _ hlast) htop
  unfold user_stack_top at hsize
  unfold place_stack
  rw [checked_add_bind, if_pos (by omega), checked_add_bind, if_pos (by omega), checked_add_bind,
    if_pos hsum, checked_sub_bind, if_pos hsize]
  exact ends_bind hloop fun _ es1 h1 => h1

/-- The loader stays in user space exactly if every segment is harmless, up to the first one at
which the loader panics, and the stack above the segments is below the limit. -/
theorem in_user_space_iff (elf : ElfFile) :
    elf.InUserSpace ↔ AllHarmless (compute_load_bias elf) elf.segments ∧
      ((∀ ph ∈ elf.segments, ph.Passes (compute_load_bias elf)) →
        elf.user_stack_top ≤ USER_LIMIT) := by
  constructor
  · intro h
    refine ⟨?_, ?_⟩
    · by_contra hharm
      have hload : Harm (elf.load (fun _ => true) []) := by
        refine Harm.bind (harm_load_steps hharm) ?_
        intro P _ _ es1 h1
        exact ends_highest_end_grown 0 _ h1
      rcases hload with hoverflow | ⟨page, hpage, hmem⟩
      · exact h.no_overflow _ hoverflow
      · obtain ⟨done, rest, hsplit⟩ := List.append_of_mem hmem
        exact hpage (h.contained _ done _ rest hsplit)
    · intro hpasses
      obtain ⟨es, hes⟩ := load_segments_of_passes hpasses elf.input
      exact (h.stack _ _ _ (load_run hes fun ph hph => (hpasses ph hph).mem_end)).1
  · rintro ⟨hharmless, hstack⟩
    have hload := ends_load hharmless
    refine ⟨fun grants => ?_, fun grants => ?_, fun grants end_ es hrun => ?_⟩
    · apply Ends.final
      exact (hload grants).mono (fun _ _ h => h.2.1) (fun _ _ h => h.2)
    · rintro ⟨es, hrun⟩
      have hends := hload grants
      rw [hrun] at hends
      exact hends.1 rfl
    · obtain ⟨rfl, hes, hpasses⟩ := (hload grants).of_ok hrun
      have hplace := ends_place_stack (hstack hpasses) grants hes
      refine ⟨hstack hpasses, ?_, ?_⟩
      · apply Ends.final
        exact hplace.mono_error (fun _ _ h => h.2)
      · rintro ⟨es', hrun'⟩
        rw [hrun'] at hplace
        exact hplace.1 rfl

/-- A byte of the file at the start of the kernel. -/
def kernelSegment : ElfFile where
  input := [7, 0]
  shared_object := false
  program_headers := [⟨true, 0xFFFFFF0000000000, 0, 1, 1⟩]
  sane := by simp

/-- Two bytes of the file for a segment of one byte, the last one of its page. -/
def longFile : ElfFile where
  input := [7, 8, 0]
  shared_object := false
  program_headers := [⟨true, 0x1FFF, 0, 2, 1⟩]
  sane := by simp

/-- A page of the kernel is mapped and written; and a byte behind a segment is written, on a page
that is not mapped, before the difference of the sizes underflows. -/
theorem the_loader_leaves_user_space :
    kernelSegment.load (fun _ => true) [] =
      .ok 0xFFFFFF0000000001 [.alloc 0xFFFFFF0000000, .store 0xFFFFFF0000000000 [7]] ∧
    longFile.load (fun _ => true) [] = .error .overflow [.alloc 1, .store 0x1FFF [7, 8]] ∧
    ¬ kernelSegment.InUserSpace ∧ ¬ longFile.InUserSpace := by
  have hkernel : kernelSegment.load (fun _ => true) [] =
      .ok 0xFFFFFF0000000001 [.alloc 0xFFFFFF0000000, .store 0xFFFFFF0000000000 [7]] := rfl
  have hlong : longFile.load (fun _ => true) [] =
      .error .overflow [.alloc 1, .store 0x1FFF [7, 8]] := rfl
  refine ⟨hkernel, hlong, fun h => ?_, fun h => h.no_overflow _ ⟨_, hlong⟩⟩
  have hpage := h.contained (fun _ => true) [] (.alloc 0xFFFFFF0000000)
    [.store 0xFFFFFF0000000000 [7]]
  have hbelow : (0xFFFFFF0000000 + 1) * PAGE_4K ≤ USER_LIMIT := hpage rfl
  exact absurd hbelow (by decide)

end ElfFile

end zenos_kernel.process
