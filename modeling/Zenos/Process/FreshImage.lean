-- What a new program can read of earlier memory. The loader clears the part of a
-- segment that the file does not fill, and nothing else: neither the ends of the
-- pages nor the stack. So the new image shows the frames it got, unless every byte of
-- its pages is written.
import Zenos.Process.Loader
import Mathlib.Algebra.BigOperators.Group.List.Basic

namespace zenos_kernel.process

open memory PagedMemory Image ProgramHeader

/-! ## The layout of an image -/

/-- The bytes that strings take on the stack. -/
def strings_len (strings : List (List UInt8)) : Nat := (strings.map (fun s => s.length + 1)).sum

namespace ElfFile

variable (elf : ElfFile)

/-- A byte of a page of a segment. -/
def InPages (a : Nat) : Prop :=
  ∃ ph ∈ elf.segments, a / PAGE_4K ∈ ph.pages (compute_load_bias elf)

/-- A byte of a segment: of the file, or cleared. -/
def InSegment (a : Nat) : Prop :=
  ∃ ph ∈ elf.segments, ph.seg_start (compute_load_bias elf) ≤ a ∧
    a < ph.seg_end (compute_load_bias elf)

def InStack (a : Nat) : Prop := elf.stack_start ≤ a ∧ a < elf.user_stack_top

variable (elf : ElfFile) (argv envp : List (List UInt8))

/-- The stack pointer below the strings. -/
def string_sp : Nat := elf.user_stack_top - strings_len envp - strings_len argv

/-- The stack pointer above the numbers: the four zeros, the pointers and `argc`. -/
def pointer_sp : Nat := align_stack (elf.string_sp argv envp) (1 + argv.length + envp.length + 2)

/-- The stack pointer of the new program. -/
def final_sp : Nat := elf.pointer_sp argv envp - 8 * (argv.length + envp.length + 5)

/-- A byte of the strings or of the numbers. The bytes of the alignment are neither. -/
def InArguments (a : Nat) : Prop :=
  (elf.string_sp argv envp ≤ a ∧ a < elf.user_stack_top) ∨
    (elf.final_sp argv envp ≤ a ∧ a < elf.pointer_sp argv envp)

/-- Every byte of the pages of the image comes from the file, is cleared as a part of a
segment, or belongs to the arguments. -/
def Covered : Prop :=
  ∀ a, elf.InPages a ∨ elf.InStack a → elf.InSegment a ∨ elf.InArguments argv envp a

/-- The segments and the stack lie in the lower half. -/
def LowerHalf : Prop :=
  (∀ ph ∈ elf.segments, ph.seg_end (compute_load_bias elf) + PAGE_4K ≤ 2 ^ 47) ∧
    elf.user_stack_top ≤ 2 ^ 47

/-- There is a memory in which the image is built. -/
def Loads : Prop :=
  ∃ phys others free m, free.Nodup ∧
    elf.build argv envp (start USER_PAGES phys others free) = some m

/-- Two memories in which the image is built show the new program the same bytes. The
contents of the frames and the choice of the frames may differ. -/
def Fresh : Prop :=
  ∀ (others : Nat → Option Nat) (phys phys' : Nat → UInt8) (free free' : List Nat)
    (m m' : PagedMemory.Machine), free.Nodup → free'.Nodup →
    elf.build argv envp (start USER_PAGES phys others free) = some m →
    elf.build argv envp (start USER_PAGES phys' others free') = some m' →
    ∀ a < 2 ^ 47, m.load PAGE_4K a = m'.load PAGE_4K a

end ElfFile

/-! ## Segments -/

variable {a hi lo : Nat} {pages : List Nat} {es : List Effect}

theorem not_covers_allocs : ¬Covers (pages.map .alloc) a := by
  rintro ⟨addr, bytes, hmem, _⟩
  simp at hmem

/-- A list of stores between `lo` and `hi`. -/
def StoresIn (lo hi : Nat) (es : List Effect) : Prop :=
  ∀ e ∈ es, ∃ addr bytes, e = .store addr bytes ∧ lo ≤ addr ∧ addr + bytes.length ≤ hi

theorem StoresIn.mono {lo' hi' : Nat} (h : StoresIn lo hi es) (hlo : lo' ≤ lo) (hhi : hi ≤ hi') :
    StoresIn lo' hi' es := by
  intro e he
  obtain ⟨addr, bytes, rfl, h1, h2⟩ := h e he
  exact ⟨addr, bytes, rfl, by omega, by omega⟩

/-- Stores that fill the bytes from `lo` to `hi`. -/
def Fills (lo hi : Nat) (es : List Effect) : Prop :=
  StoresIn lo hi es ∧ ∀ a, Covers es a ↔ lo ≤ a ∧ a < hi

theorem fills_nil (lo : Nat) : Fills lo lo [] := by
  simp [Fills, StoresIn, Covers]

/-- One more store above the bytes that are filled. -/
theorem Fills.push {mid : Nat} (h : Fills lo mid es) (hlo : lo ≤ mid) (bytes : List UInt8) :
    Fills lo (mid + bytes.length) (.store mid bytes :: es) := by
  refine ⟨?_, fun a => ?_⟩
  · refine List.forall_mem_cons.mpr ⟨⟨mid, bytes, rfl, hlo, Nat.le_refl _⟩, ?_⟩
    exact h.1.mono (Nat.le_refl _) (Nat.le_add_right _ _)
  · rw [← List.singleton_append, covers_append, covers_store, h.2]
    omega

theorem StoresIn.not_alloc (h : StoresIn lo hi es) (page : Nat) : .alloc page ∉ es := by
  intro hmem
  obtain ⟨addr, bytes, heq, _⟩ := h _ hmem
  cases heq

/-- What a part of the loader does: it maps `pages`, and then it stores between `lo` and
`hi`, where the stored bytes are the ones of `bytes`. -/
structure Part (pages : List Nat) (lo hi : Nat) (bytes : Nat → Prop) (es : List Effect) : Prop where
  split : ∃ stores, es = pages.map .alloc ++ stores ∧ StoresIn lo hi stores
  covers : ∀ a, Covers es a ↔ bytes a

variable {bytes : Nat → Prop} {phs : List ProgramHeader}

theorem Part.alloc_iff (h : Part pages lo hi bytes es) (page : Nat) :
    .alloc page ∈ es ↔ page ∈ pages := by
  obtain ⟨stores, rfl, hstores⟩ := h.split
  simp [hstores.not_alloc page]

theorem Part.ready (h : Part pages lo hi bytes es)
    (hpages : ∀ a, lo ≤ a → a < hi → a / PAGE_4K ∈ pages) (mapped : Nat → Prop) :
    Ready PAGE_4K mapped es := by
  obtain ⟨stores, rfl, hstores⟩ := h.split
  refine ready_append.mpr ⟨ready_allocs mapped pages, ready_stores hstores ?_⟩
  intro a hlo hhi
  left
  exact List.mem_map.mpr ⟨_, hpages a hlo hhi, rfl⟩

theorem Part.below {limit : Nat} (h : Part pages lo hi bytes es)
    (hpages : ∀ page ∈ pages, page < limit) (hhi : hi ≤ limit * PAGE_4K) :
    ∀ e ∈ es, e.Below PAGE_4K limit := by
  obtain ⟨stores, rfl, hstores⟩ := h.split
  refine List.forall_mem_append.mpr ⟨List.forall_mem_map.mpr hpages, fun e he => ?_⟩
  obtain ⟨addr, bytes, rfl, _, hend⟩ := hstores e he
  exact Nat.le_trans hend hhi

namespace ProgramHeader

variable {ph : ProgramHeader} {load_bias : Nat} {bytes : List UInt8}

theorem mem_pages {page : Nat} :
    page ∈ ph.pages load_bias ↔ ph.seg_start load_bias / PAGE_4K ≤ page ∧
      page < (ph.seg_end load_bias + (PAGE_4K - 1)) / PAGE_4K := by
  unfold pages
  rw [List.mem_range'_1]
  omega

theorem load_segment_part (h : ph.load_segment load_bias bytes = some es)
    (hfile : ph.offset + ph.file_size < bytes.length) :
    Part (ph.pages load_bias) (ph.seg_start load_bias) (ph.seg_end load_bias)
      (fun a => ph.seg_start load_bias ≤ a ∧ a < ph.seg_end load_bias) es := by
  unfold load_segment at h
  split at h
  · have hlen : ((bytes.drop ph.offset).take ph.file_size).length = ph.file_size := by
      rw [List.length_take, List.length_drop]
      omega
    have hend : ph.seg_end load_bias = ph.seg_start load_bias + ph.mem_size := by
      unfold seg_end seg_start
      omega
    simp only [Option.some.injEq] at h
    subst h
    by_cases hbss : 0 < ph.mem_size - ph.file_size
    · rw [if_pos hbss, List.append_assoc]
      refine ⟨⟨_, rfl, ?_⟩, ?_⟩
      · intro e he
        simp only [List.cons_append, List.nil_append, List.mem_cons, List.not_mem_nil,
          or_false] at he
        rcases he with rfl | rfl
        · exact ⟨_, _, rfl, Nat.le_refl _, by omega⟩
        · exact ⟨_, _, rfl, by omega, by rw [List.length_replicate]; omega⟩
      · intro a
        rw [covers_append, covers_append, covers_store, covers_store, List.length_replicate, hlen]
        simp only [not_covers_allocs, false_or]
        omega
    · rw [if_neg hbss, List.append_nil]
      refine ⟨⟨_, rfl, ?_⟩, ?_⟩
      · intro e he
        rw [List.mem_singleton] at he
        subst he
        exact ⟨_, _, rfl, Nat.le_refl _, by omega⟩
      · intro a
        rw [covers_append, covers_store, hlen]
        simp only [not_covers_allocs, false_or]
        omega
  · cases h

end ProgramHeader

/-- What the loop over the segments does. -/
structure Loaded (load_bias : Nat) (phs : List ProgramHeader) (es : List Effect) : Prop where
  alloc_iff : ∀ page, .alloc page ∈ es ↔ ∃ ph ∈ phs, page ∈ ph.pages load_bias
  covers : ∀ a, Covers es a ↔
    ∃ ph ∈ phs, ph.seg_start load_bias ≤ a ∧ a < ph.seg_end load_bias
  ready : ∀ mapped, Ready PAGE_4K mapped es
  below : ∀ limit, (∀ ph ∈ phs, ph.seg_end load_bias + PAGE_4K ≤ limit * PAGE_4K) →
    ∀ e ∈ es, e.Below PAGE_4K limit

theorem loaded_cons {load_bias : Nat} {ph : ProgramHeader} {first rest : List Effect}
    (hfirst : Part (ph.pages load_bias) (ph.seg_start load_bias) (ph.seg_end load_bias)
      (fun a => ph.seg_start load_bias ≤ a ∧ a < ph.seg_end load_bias) first)
    (hrest : Loaded load_bias phs rest) : Loaded load_bias (ph :: phs) (first ++ rest) := by
  refine ⟨?_, ?_, ?_, ?_⟩
  · intro page
    simp only [List.mem_append, hfirst.alloc_iff, hrest.alloc_iff, List.exists_mem_cons_iff]
  · intro a
    simp only [covers_append, hfirst.covers, hrest.covers, List.exists_mem_cons_iff]
  · intro mapped
    refine ready_append.mpr ⟨hfirst.ready (fun a => ?_) mapped, hrest.ready _⟩
    rw [mem_pages]
    unfold PAGE_4K
    omega
  · intro limit hlimit e he
    have hend := hlimit ph List.mem_cons_self
    rcases List.mem_append.mp he with he | he
    · refine hfirst.below (fun page hpage => ?_) (by omega) e he
      rw [mem_pages] at hpage
      unfold PAGE_4K at hpage hend
      omega
    · exact hrest.below limit (fun ph' hph' => hlimit ph' (List.mem_cons_of_mem _ hph')) e he

theorem ProgramHeader.load_segments_loaded {load_bias : Nat} {bytes : List UInt8}
    (hsane : ∀ ph ∈ phs, ph.offset + ph.file_size < bytes.length)
    (h : load_segments load_bias bytes phs = some es) : Loaded load_bias phs es := by
  induction phs generalizing es with
  | nil =>
    cases h
    exact ⟨by simp, by simp [Covers], fun _ => trivial, by simp⟩
  | cons ph phs ih =>
    simp only [load_segments, Option.bind_eq_bind, Option.bind_eq_some_iff, Option.some.injEq] at h
    obtain ⟨first, hfirst, rest, hrest, rfl⟩ := h
    refine loaded_cons (load_segment_part hfirst (hsane ph List.mem_cons_self)) ?_
    exact ih (fun ph' hph' => hsane ph' (List.mem_cons_of_mem _ hph')) hrest

/-! ## The stack -/

theorem strings_len_reverse (strings : List (List UInt8)) :
    strings_len strings.reverse = strings_len strings := by
  unfold strings_len
  rw [List.map_reverse, List.sum_reverse]

variable (sp : Nat)

theorem push_strings_sp (strings : List (List UInt8)) :
    (push_strings sp strings).2.2 = sp - strings_len strings := by
  induction strings generalizing sp with
  | nil => simp [push_strings, strings_len]
  | cons s strings ih =>
    simp only [push_strings, ih, strings_len, List.map_cons, List.sum_cons]
    omega

theorem push_strings_ptrs_length (strings : List (List UInt8)) :
    (push_strings sp strings).2.1.length = strings.length := by
  induction strings generalizing sp with
  | nil => rfl
  | cons s strings ih => simp only [push_strings, List.length_cons, ih]

/-- The strings fill the stack from the stack pointer down. -/
theorem push_strings_stores (strings : List (List UInt8)) (h : strings_len strings ≤ sp) :
    Fills (sp - strings_len strings) sp (push_strings sp strings).1 := by
  induction strings generalizing sp with
  | nil => exact fills_nil sp
  | cons s strings ih =>
    have hcons : strings_len (s :: strings) = s.length + 1 + strings_len strings := by
      simp [strings_len]
    have hfill := (ih (sp - (s.length + 1)) (by omega)).push (Nat.sub_le _ _) (s ++ [0])
    rw [List.length_append, List.length_singleton, Nat.sub_add_cancel (by omega),
      Nat.sub_sub] at hfill
    exact hfill

theorem push_all_sp (vals : List Nat) : (push_all sp vals).2 = sp - 8 * vals.length := by
  induction vals generalizing sp with
  | nil => rfl
  | cons val vals ih =>
    simp only [push_all, ih, List.length_cons]
    omega

theorem push_all_stores (vals : List Nat) (h : 8 * vals.length ≤ sp) :
    Fills (sp - 8 * vals.length) sp (push_all sp vals).1 := by
  induction vals generalizing sp with
  | nil => exact fills_nil sp
  | cons val vals ih =>
    rw [List.length_cons] at h ⊢
    have hfill := (ih (sp - 8) (by omega)).push (Nat.sub_le _ _) (le64 val)
    rw [le64_length, Nat.sub_add_cancel (by omega), Nat.sub_sub, Nat.add_comm 8,
      ← Nat.mul_succ] at hfill
    exact hfill

theorem align_stack_le (sp entries : Nat) : align_stack sp entries ≤ sp := by
  unfold align_stack
  dsimp only
  split <;> omega

namespace ElfFile

variable {elf : ElfFile} {argv envp : List (List UInt8)} {es : List Effect}

theorem mem_stack_pages {a : Nat} : a / PAGE_4K ∈ elf.stack_pages ↔ elf.InStack a := by
  unfold stack_pages InStack stack_start user_stack_top stack_size stack_gap PAGE_4K
  rw [List.mem_range'_1]
  omega

/-- The arguments are stored in the stack, which is mapped before. -/
theorem prepare_run_part (h : elf.prepare_run argv envp = some es) :
    Part elf.stack_pages elf.stack_start elf.user_stack_top (elf.InArguments argv envp) es := by
  have hpos : 0 < elf.stack_start := by
    unfold stack_start user_stack_top stack_gap stack_size PAGE_4K
    omega
  unfold prepare_run at h
  simp only [push_all_sp, push_strings_sp, strings_len_reverse, Option.ite_none_right_eq_some,
    Option.some.injEq, List.length_append, List.length_cons, List.length_nil,
    push_strings_ptrs_length, List.length_reverse] at h
  obtain ⟨⟨_, _, hfits, _⟩, rfl⟩ := h
  generalize hvals : ([0, 0] ++ (0 :: _) ++ (0 :: _) ++ [argv.length]) = vals
  have hlen : vals.length = argv.length + envp.length + 5 := by
    rw [← hvals]
    simp only [List.length_append, List.length_cons, List.length_nil, push_strings_ptrs_length,
      List.length_reverse]
    omega
  change elf.stack_start ≤ elf.pointer_sp argv envp - _ at hfits
  have hfinal : elf.pointer_sp argv envp - 8 * vals.length = elf.final_sp argv envp := by
    rw [hlen]
    rfl
  have hptr : elf.pointer_sp argv envp ≤ elf.string_sp argv envp := align_stack_le _ _
  have hstr : elf.string_sp argv envp =
      elf.user_stack_top - strings_len envp - strings_len argv := rfl
  have henv : strings_len envp.reverse = strings_len envp := strings_len_reverse envp
  have harg : strings_len argv.reverse = strings_len argv := strings_len_reverse argv
  obtain ⟨hes, hec⟩ := push_strings_stores elf.user_stack_top envp.reverse (by omega)
  obtain ⟨has, hac⟩ := push_strings_stores (elf.user_stack_top - strings_len envp) argv.reverse
    (by omega)
  obtain ⟨hps, hpc⟩ := push_all_stores (elf.pointer_sp argv envp) vals (by omega)
  rw [List.append_assoc, List.append_assoc]
  refine ⟨⟨_, rfl, ?_⟩, ?_⟩
  · refine List.forall_mem_append.mpr ⟨hes.mono (by omega) (Nat.le_refl _), ?_⟩
    refine List.forall_mem_append.mpr ⟨has.mono (by omega) (by omega), ?_⟩
    exact hps.mono (by omega) (by omega)
  · intro a
    change Covers (_ ++ (_ ++ (_ ++ (push_all (elf.pointer_sp argv envp) vals).1))) a ↔ _
    rw [covers_append, covers_append, covers_append, hec, hac, hpc, hfinal]
    simp only [not_covers_allocs, false_or]
    unfold InArguments
    omega

/-! ## The image -/

section

variable (h : elf.effects argv envp = some es)

include h

theorem effects_parts : ∃ loaded stack, es = loaded ++ stack ∧
      Loaded (compute_load_bias elf) elf.segments loaded ∧
      Part elf.stack_pages elf.stack_start elf.user_stack_top (elf.InArguments argv envp)
        stack := by
  simp only [effects, Option.bind_eq_bind, Option.bind_eq_some_iff, Option.some.injEq] at h
  obtain ⟨loaded, hloaded, stack, hstack, rfl⟩ := h
  refine ⟨loaded, stack, rfl, load_segments_loaded (fun ph hph => ?_) hloaded,
    prepare_run_part hstack⟩
  exact elf.sane ph (List.mem_filter.mp hph).1

theorem effects_alloc_iff (a : Nat) :
    .alloc (a / PAGE_4K) ∈ es ↔ elf.InPages a ∨ elf.InStack a := by
  obtain ⟨loaded, stack, rfl, hloaded, hstack⟩ := effects_parts h
  rw [List.mem_append, hloaded.alloc_iff, hstack.alloc_iff, mem_stack_pages]
  rfl

theorem effects_covers (a : Nat) : Covers es a ↔ elf.InSegment a ∨ elf.InArguments argv envp a := by
  obtain ⟨loaded, stack, rfl, hloaded, hstack⟩ := effects_parts h
  rw [covers_append, hloaded.covers, hstack.covers]
  rfl

theorem effects_ready (mapped : Nat → Prop) : Ready PAGE_4K mapped es := by
  obtain ⟨loaded, stack, rfl, hloaded, hstack⟩ := effects_parts h
  refine ready_append.mpr ⟨hloaded.ready mapped, hstack.ready (fun a hlo hhi => ?_) _⟩
  exact mem_stack_pages.mpr ⟨hlo, hhi⟩

theorem effects_below (hlow : elf.LowerHalf) : ∀ e ∈ es, e.Below PAGE_4K USER_PAGES := by
  have hlimit : USER_PAGES * PAGE_4K = 2 ^ 47 := by decide
  obtain ⟨loaded, stack, rfl, hloaded, hstack⟩ := effects_parts h
  intro e he
  rcases List.mem_append.mp he with he | he
  · exact hloaded.below USER_PAGES (by rw [hlimit]; exact hlow.1) e he
  · refine hstack.below (fun page hpage => ?_) (by rw [hlimit]; exact hlow.2) e he
    have htop := hlow.2
    have hin := hpage
    rw [← Nat.mul_div_cancel page (by decide : 0 < PAGE_4K), mem_stack_pages] at hin
    exact Nat.lt_of_mul_lt_mul_right (Nat.lt_of_lt_of_le hin.2 htop)

/-- With enough frames the image is built. -/
theorem loads_of_effects : elf.Loads argv envp := by
  have hruns := run_ok (m := start USER_PAGES (fun _ => 0) (fun _ => none) (List.range (frames es)))
    (effects_ready h _) (Nat.le_of_eq List.length_range.symm)
  obtain ⟨m, hm⟩ := hruns
  refine ⟨fun _ => 0, fun _ => none, List.range (frames es), m, List.nodup_range, ?_⟩
  unfold build
  rw [h]
  exact hm

end

theorem fresh_iff_independent (h : elf.effects argv envp = some es) :
    elf.Fresh argv envp ↔ Independent PAGE_4K USER_PAGES es := by
  have hrange : ∀ a, a / PAGE_4K < USER_PAGES ↔ a < 2 ^ 47 := by
    intro a
    unfold USER_PAGES PAGE_4K
    omega
  unfold Fresh Independent build
  simp only [h, Option.bind_some, hrange]

/-- Nothing of earlier memory is readable in a new image of the lower half exactly when
every byte of its pages is written: the segments end with their pages, and the arguments
fill the stack. -/
theorem fresh_iff_covered (hlow : elf.LowerHalf) (hloads : elf.Loads argv envp) :
    elf.Fresh argv envp ↔ elf.Covered argv envp := by
  obtain ⟨_, _, _, _, _, hm⟩ := id hloads
  obtain ⟨es, hes, _⟩ := Option.bind_eq_some_iff.mp hm
  have hruns : ∃ phys others free m, free.Nodup ∧
      (start USER_PAGES phys others free).run PAGE_4K es = some m := by
    obtain ⟨phys, others, free, m, hfree, hm⟩ := hloads
    unfold build at hm
    rw [hes] at hm
    exact ⟨phys, others, free, m, hfree, hm⟩
  rw [fresh_iff_independent hes, independent_iff_covered (by decide) (effects_below hes hlow) hruns]
  unfold PagedMemory.Covered ElfFile.Covered
  simp only [effects_alloc_iff hes, effects_covers hes]

/-- One page that is cleared, and arguments of four pages less the numbers. -/
def onePage : ElfFile where
  input := [0]
  shared_object := false
  program_headers := [⟨true, 0x1000, 0, 0, 0x1000⟩]
  sane := by simp

def fourPages : List (List UInt8) :=
  [4095, 4095, 4095, 2007, 2007].map (fun n => List.replicate n 1)

/-- The segment is its page, and the strings and the numbers are the stack. -/
theorem onePage_covered : onePage.Covered fourPages [] := by
  have hsegments : onePage.segments = [⟨true, 0x1000, 0, 0, 0x1000⟩] := rfl
  have hstart : onePage.stack_start = 0x1E000 := by decide +kernel
  have hstring : onePage.string_sp fourPages [] = 0x1E050 := by decide +kernel
  have hpointer : onePage.pointer_sp fourPages [] = 0x1E050 := by decide +kernel
  have hfinal : onePage.final_sp fourPages [] = 0x1E000 := by decide +kernel
  rintro a (⟨ph, hph, hpage⟩ | hstack)
  · left
    refine ⟨ph, hph, ?_⟩
    rw [hsegments, List.mem_singleton] at hph
    subst hph
    rw [mem_pages] at hpage
    simp [seg_start, seg_end, compute_load_bias, onePage, PAGE_4K] at hpage ⊢
    omega
  · right
    unfold InStack at hstack
    unfold InArguments
    omega

theorem a_page_and_full_arguments : onePage.Fresh fourPages [] := by
  have hsome : (onePage.effects fourPages []).isSome = true := by decide +kernel
  obtain ⟨es, hes⟩ := Option.isSome_iff_exists.mp hsome
  have hlow : onePage.LowerHalf := by
    unfold LowerHalf
    decide +kernel
  exact (fresh_iff_covered hlow (loads_of_effects hes)).mpr onePage_covered

/-- One byte that is loaded. -/
def oneByte : ElfFile where
  input := [7, 0]
  shared_object := false
  program_headers := [⟨true, 0x1000, 0, 1, 1⟩]
  sane := by simp

def readAt (byte : UInt8) (a : Nat) : Option (Option UInt8) :=
  (oneByte.build [] [] (start USER_PAGES (fun _ => byte) (fun _ => none) (List.range 5))).map
    (·.load PAGE_4K a)

/-- The program gets a stack page with what the frame held. -/
theorem the_stack_shows_the_frame :
    ¬∀ elf argv envp, Loads elf argv envp → Fresh elf argv envp := by
  intro hall
  have h0 : readAt 0 0x1E000 = some (some 0) := by decide +kernel
  have h1 : readAt 1 0x1E000 = some (some 1) := by decide +kernel
  obtain ⟨m, hm, hload⟩ := Option.map_eq_some_iff.mp h0
  obtain ⟨m', hm', hload'⟩ := Option.map_eq_some_iff.mp h1
  have hfree : (List.range 5).Nodup := List.nodup_range
  have hsame := hall oneByte [] [] ⟨_, _, _, m, hfree, hm⟩ _ _ _ _ _ m m' hfree hfree hm hm'
    0x1E000 (by decide)
  rw [hload, hload'] at hsame
  exact absurd hsame (by decide)

end ElfFile

end zenos_kernel.process
