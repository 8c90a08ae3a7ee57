-- Where the bitmaps lie. `initialize` puts them at the start of physical
-- memory without taking those bytes out of the regions, so a region that
-- starts low enough hands its own bookkeeping out.
import Mathlib.Algebra.Ring.Nat
import Zenos.Memory.Outstanding

namespace zenos_kernel.memory

open WordBitmap Outcome BitmapNode Region

/-- What the nodes and bitmaps of all regions take. -/
def bookkeeping (regions : List Region) : Nat := (regions.map Region.storage).sum

section

variable {regions : List Region} {i : Init} (h : init_regions regions = .ok i)

include h

theorem init_storage_offset : i.storage_offset = bookkeeping regions := by
  refine init_regions_induction (P := fun done i => i.storage_offset = bookkeeping done) rfl ?_ h
  intro done r i ih _
  simp [Init.next, bookkeeping, ih]

/-- The bookkeeping ends below 2^52, whatever the regions are: the last bitmap
starts in the higher half, and 2^64 bytes have 2^52 pages. -/
theorem init_storage_lt : i.storage_offset < 0x10000000000000 := by
  refine init_regions_induction (P := fun _ i => i.storage_offset < 0x10000000000000)
    (by decide) ?_ h
  rintro done r i ih ⟨_, hend, _, hnode⟩
  unfold Init.next storage
  dsimp only
  split
  · exact ih
  · rename_i hbig
    have hnode := hnode (Nat.not_lt.mp hbig)
    have hsize := r.aligned_size_le
    change _ < 0x10000000000000000 at hend hnode
    unfold HIGHER_HALF_BASE at hnode
    unfold size_of_bitmap_node PAGE_4K
    omega

end

/-! ## The regions that `initialize` can set up -/

variable (regions : List Region)

/-- Every region fits after the bookkeeping of those before it. -/
def Storable : Prop :=
  ∀ done r, done ++ [r] <+: regions → r.Fits (bookkeeping done)

theorem storable_snoc {regions : List Region} {r : Region} :
    Storable (regions ++ [r]) ↔ r.Fits (bookkeeping regions) ∧ Storable regions := by
  simp only [Storable, List.prefix_concat_iff, or_imp, forall_and]
  refine and_congr_left fun _ => ⟨fun h => h regions r rfl, ?_⟩
  intro h done r' heq
  obtain ⟨rfl, hr⟩ := List.append_inj' heq rfl
  cases hr
  exact h

theorem init_regions_ok_iff : (∃ i, init_regions regions = .ok i) ↔ Storable regions := by
  induction regions using List.reverseRecOn with
  | nil => simp [init_regions, Storable, pure, Except.pure]
  | append_singleton done r ih =>
    rw [storable_snoc, ← ih, init_regions_snoc]
    cases hi : init_regions done with
    | error e => simp [bind, Except.bind]
    | ok i0 =>
      rw [← init_storage_offset hi]
      simp only [bind, Except.bind, init_region_iff, exists_and_left, exists_eq,
        Except.ok.injEq, exists_eq']

/-- `initialize` ends and frees exactly the whole pages of the regions, or one of the
regions does not fit. -/
theorem whole_pages_are_free_iff :
    (∃ s, initialize_allocator regions = .ok s ∧
      ∀ a, Free s.head a ↔ ∃ r ∈ regions, r.WholePage a) ↔ Storable regions := by
  rw [← init_regions_ok_iff]
  constructor
  · rintro ⟨s, hs, _⟩
    obtain ⟨i, hi, _⟩ := initialize_ok hs
    exact ⟨i, hi⟩
  · rintro ⟨i, hi⟩
    refine ⟨⟨i.head⟩, ?_, fun a => (init_free_iff hi a).trans (init_managed hi a)⟩
    unfold initialize_allocator
    rw [hi]
    rfl

/-- Sixteen bytes in the middle of a page: the page boundary after the start is behind
the end, and the subtraction overflows. -/
theorem region_inside_a_page_panics :
    ¬∀ regions : List Region, regions.Pairwise Region.Apart →
      (∀ r ∈ regions, r.start_phys.toNat + r.size.toNat < UInt64.size) →
      ∃ s, initialize_allocator regions = .ok s ∧
        ∀ a, Free s.head a ↔ ∃ r ∈ regions, r.WholePage a := by
  intro h
  obtain ⟨s, hs, _⟩ := h [⟨0x100, 0x10⟩] (by simp) (by decide)
  have hpanic : initialize_allocator [⟨0x100, 0x10⟩] = .error .overflow := by decide +kernel
  cases hpanic.symm.trans hs

/-! ## Runs of arbitrary calls -/

/-- One call that comes back. -/
def Moves (s s' : PageAllocator) : Prop :=
  (∃ size specific_addr r, alloc size specific_addr s = .ok r s') ∨
    ∃ f size r, dealloc f size s = .ok r s'

def Reaches : PageAllocator → PageAllocator → Prop := Relation.ReflTransGen Moves

/-- The nodes stay what they are, up to their bits. -/
theorem moves_sound {s s' : PageAllocator} (hs : Sound s.head) (h : Moves s s') :
    Sound s'.head ∧ s'.head.map range = s.head.map range := by
  rcases h with ⟨size, specific_addr, r, h⟩ | ⟨f, size, r, h⟩
  · have hcases := (alloc_cases hs size specific_addr).of_ok h
    cases r with
    | none =>
      rw [hcases.1]
      exact ⟨hs, rfl⟩
    | some f =>
      obtain ⟨pre, n, n', post, hsplit, hsplit', _, hb⟩ := hcases.at_one
      rw [hsplit, hsplit']
      exact sound_replace (hsplit ▸ hs) hb
  · rcases (dealloc_cases hs f size).of_ok h with ⟨_, _, rfl⟩ | ⟨_, _, hgives⟩
    · exact ⟨hs, rfl⟩
    · obtain ⟨pre, n, n', post, hsplit, hsplit', _, hb⟩ := hgives.at_one
      rw [hsplit, hsplit']
      exact sound_replace (hsplit ▸ hs) hb

theorem reaches_sound {s s' : PageAllocator} (hs : Sound s.head) (h : Reaches s s') :
    Sound s'.head ∧ s'.head.map range = s.head.map range := by
  induction h with
  | refl => exact ⟨hs, rfl⟩
  | tail _ hmove ih =>
    obtain ⟨hsound, hrange⟩ := moves_sound ih.1 hmove
    exact ⟨hsound, hrange.trans ih.2⟩

theorem managed_of_alloc {s s' : PageAllocator} (hs : Sound s.head) {size : PageSize}
    {specific_addr : Option PhysAddr} {f : PhysAddr}
    (h : alloc size specific_addr s = .ok (some f) s') : Managed s.head f.as_u64 := by
  have htakes := (alloc_cases hs size specific_addr).of_ok h
  exact (htakes.free (self_mem_frames size _)).managed hs

/-- Every managed frame can be had from a fresh allocator. -/
theorem alloc_at_fresh {nodes : List BitmapNode} (hs : Sound nodes)
    (hfree : ∀ n ∈ nodes, ∀ k < n.pages, bit n.map k = true) {f : PhysAddr}
    (hf : Managed nodes f.as_u64) : ∃ s', alloc .Size4KiB (some f) ⟨nodes⟩ = .ok (some f) s' := by
  have haligned : f.as_u64 % PageSize.Size4KiB.bytes = 0 := hf.aligned hs
  have htake : ∀ n ∈ nodes, n.holds f.as_u64 = true →
      ∃ n', n.take .Size4KiB f.as_u64 = some n' := by
    intro n hn hheld
    have hk := page_num_of_holds (hs n hn) hheld
    have hbit := hfree n hn _ hk
    refine ⟨{ n with map := clear n.map (n.page_num f.as_u64) }, ?_⟩
    change n.take_page f.as_u64 = _
    unfold take_page
    rw [if_pos (word_lt (hs n hn) hk), if_neg]
    rw [and_mask_eq_zero (Nat.mod_lt _ (by decide)), Bool.not_eq_false]
    exact hbit
  have hheld : ∃ n ∈ nodes, n.holds f.as_u64 = true := by
    obtain ⟨n, hn, h⟩ := hf
    exact ⟨n, hn, holds_of_managed h⟩
  obtain ⟨head, hwalk⟩ := at_node_some hheld htake
  refine ⟨⟨head⟩, ?_⟩
  change alloc_at .Size4KiB f ⟨nodes⟩ = _
  unfold alloc_at
  rw [get_bind, if_neg (not_not.mpr haligned), hwalk]
  rfl

/-- The page at `f` has a byte below `limit`. -/
def Overlaps (size : PageSize) (f limit : Nat) : Prop :=
  ∃ b, f ≤ b ∧ b < f + size.bytes ∧ b < limit

theorem overlaps_iff (size : PageSize) (f limit : Nat) : Overlaps size f limit ↔ f < limit := by
  constructor
  · rintro ⟨b, h1, _, h2⟩
    omega
  · intro h
    refine ⟨f, Nat.le_refl f, ?_, h⟩
    cases size with
    | Size4KiB => exact Nat.lt_add_of_pos_right (by decide)
    | Size2MiB => exact Nat.lt_add_of_pos_right (by decide)

/-- The first page of a region is a whole page of it. -/
theorem Region.wholePage_first {r : Region} (h : PAGE_4K ≤ r.aligned_size) :
    r.WholePage r.aligned_start := by
  unfold WholePage
  unfold aligned_size at h
  unfold aligned_start at *
  unfold PAGE_4K at *
  omega

theorem Region.WholePage.start_le {r : Region} {a : Nat} (h : r.WholePage a) :
    r.aligned_start ≤ a ∧ PAGE_4K ≤ r.aligned_size := by
  unfold WholePage at h
  unfold aligned_size
  unfold aligned_start
  unfold PAGE_4K at *
  omega

/-- No run hands out a page over the bookkeeping exactly when every region with
a whole page starts behind it. -/
theorem bookkeeping_stays_in_iff {regions : List Region} {i : Init}
    (hinit : init_regions regions = .ok i) :
    (∀ s, Reaches ⟨i.head⟩ s → ∀ size specific_addr f s',
      alloc size specific_addr s = .ok (some f) s' → ¬Overlaps size f.as_u64 i.storage_offset) ↔
    ∀ r ∈ regions, PAGE_4K ≤ r.aligned_size → bookkeeping regions ≤ r.aligned_start := by
  have hsound : Sound i.head := init_sound hinit
  constructor
  · intro hnever r hr hbig
    by_contra hlow
    have hoffset := init_storage_offset hinit
    have hlt := init_storage_lt hinit
    have hphys : r.aligned_start < 0x10000000000000 := by omega
    have hman : Managed i.head r.aligned_start :=
      (init_managed hinit _).mpr ⟨r, hr, wholePage_first hbig⟩
    obtain ⟨s', hs'⟩ := alloc_at_fresh (f := ⟨r.aligned_start, hphys⟩) hsound
      (init_free hinit) hman
    refine hnever ⟨i.head⟩ Relation.ReflTransGen.refl .Size4KiB _ _ s' hs' ?_
    rw [overlaps_iff, hoffset]
    exact Nat.lt_of_not_le hlow
  · intro hregions s hrun size specific_addr f s' h
    obtain ⟨hs, hrange⟩ := reaches_sound hsound hrun
    have hman := managed_of_alloc hs h
    rw [managed_congr hrange, init_managed hinit] at hman
    obtain ⟨r, hr, hpage⟩ := hman
    obtain ⟨hstart, hbig⟩ := hpage.start_le
    have := hregions r hr hbig
    rw [overlaps_iff, init_storage_offset hinit]
    omega

theorem bookkeeping_stays_in_two_regions :
    bookkeeping two_regions ≤ 0x100000 ∧ ∀ s, Reaches two_regions_start s →
      ∀ f s', alloc .Size4KiB none s = .ok (some f) s' → ¬Overlaps .Size4KiB f.as_u64 0xd8 := by
  have hinit : init_regions two_regions = .ok ⟨two_regions_start.head, 0xd8⟩ := by decide +kernel
  have h := bookkeeping_stays_in_iff hinit
  refine ⟨by decide +kernel, fun s hs f s' => h.mpr ?_ s hs .Size4KiB none f s'⟩
  decide +kernel

/-- The node of 64 KiB at address 0, with the pages of `word` free. -/
def low_node (word : UInt64) : BitmapNode :=
  { node_virt := HIGHER_HALF_BASE, map := [word], base_phys := 0, region_size := 0x10000 }

/-- One region of 64 KiB at address 0. The bookkeeping takes 48 bytes, and the
first page that `alloc` returns is page 0. -/
theorem low_region_hands_out_bookkeeping : ∃ i f s',
    init_regions [⟨0, 0x10000⟩] = .ok i ∧ i.storage_offset = 48 ∧
      alloc .Size4KiB none ⟨i.head⟩ = .ok (some f) s' ∧ f.as_u64 = 0 ∧
      Overlaps .Size4KiB f.as_u64 i.storage_offset := by
  refine ⟨⟨[low_node 0xFFFF], 48⟩, ⟨0, by decide⟩, ⟨[low_node 0xFFFE]⟩, by decide +kernel, rfl,
    rfl, rfl, ?_⟩
  rw [overlaps_iff]
  decide

/-! ## Pages of 2 MiB -/

/-- What the calls for 2 MiB are for, with the blocks `out` outstanding. -/
structure Serves2M (s : PageAllocator) (out : PhysAddr → Prop) : Prop where
  returns : ∃ r s', alloc .Size2MiB none s = .ok r s'
  finds : (∃ f s', alloc .Size2MiB none s = .ok (some f) s') ↔
    ∃ n ∈ s.head, ∃ k, k % 512 = 0 ∧ ∀ j < 512, bit n.map (k + j) = true
  takes : ∀ f s', alloc .Size2MiB none s = .ok (some f) s' →
    ∀ a, Free s'.head a ↔ Free s.head a ∧ a ∉ frames .Size2MiB f.as_u64
  gives : ∀ f, out f → ∃ s', dealloc f .Size2MiB s = .ok (.ok ()) s' ∧
    ∀ a, Free s'.head a ↔ Free s.head a ∨ a ∈ frames .Size2MiB f.as_u64

theorem alloc_2m (s : PageAllocator) : alloc .Size2MiB none s =
    if s.head.all (·.map.all (· == 0)) then .ok none s else .error .overflow s := by
  change alloc_any .Size2MiB s = _
  unfold alloc_any
  rw [get_bind, take_first_2m]
  split <;> rfl

theorem dealloc_2m {s : PageAllocator} (hs : Sound s.head) {f : PhysAddr}
    (hf : ∃ n ∈ s.head, n.holds f.as_u64 = true) : dealloc f .Size2MiB s = .error .overflow s := by
  unfold dealloc
  rw [get_bind]
  cases hfind : s.head.find? (fun n => n.holds f.as_u64) with
  | none =>
    obtain ⟨n, hn, hheld⟩ := hf
    exact absurd hheld (List.find?_eq_none.mp hfind n hn)
  | some n =>
    have hn := hs n (List.mem_of_find?_eq_some hfind)
    have hheld : n.holds f.as_u64 = true :=
      List.find?_some (p := (holds · f.as_u64)) hfind
    have hword := word_lt hn (page_num_of_holds hn hheld)
    have hstep : PageSize.Size2MiB.step = 512 := rfl
    dsimp only
    rw [if_pos (by rw [hstep]; omega)]
    rfl

/-- The calls for 2 MiB do what they are for only while no page is free and no block of
2 MiB is out. -/
theorem two_mib_calls_serve_iff {s : PageAllocator} (hs : Sound s.head) {out : PhysAddr → Prop}
    (hout : ∀ f, out f → ∃ n ∈ s.head, n.holds f.as_u64 = true) :
    Serves2M s out ↔ (∀ n ∈ s.head, ∀ w ∈ n.map, w = 0) ∧ ∀ f, ¬out f := by
  constructor
  · intro h
    refine ⟨?_, ?_⟩
    · by_contra hfree
      obtain ⟨r, s', heq⟩ := h.returns
      rw [alloc_2m, if_neg (by simpa using hfree)] at heq
      cases heq
    · intro f hf
      obtain ⟨s', heq, _⟩ := h.gives f hf
      rw [dealloc_2m hs (hout f hf)] at heq
      cases heq
  · rintro ⟨hzero, hnone⟩
    have halloc : alloc .Size2MiB none s = .ok none s := by
      rw [alloc_2m, if_pos (by simpa using hzero)]
    refine ⟨⟨none, s, halloc⟩, ⟨?_, ?_⟩, ?_, fun f hf => absurd hf (hnone f)⟩
    · rintro ⟨f, s', heq⟩
      rw [halloc] at heq
      cases heq
    · rintro ⟨n, hn, k, _, hbits⟩
      have hbit := hbits 0 (by decide)
      have hlt := lt_length_of_bit _ hbit
      unfold bit at hbit
      rw [List.getD_eq_getElem?_getD, List.getElem?_eq_getElem hlt, Option.getD_some,
        hzero n hn _ (List.getElem_mem hlt), has_zero (Nat.mod_lt _ (by decide))] at hbit
      cases hbit
    · intro f s' heq
      rw [halloc] at heq
      cases heq

theorem low_region_that_is_out_serves_2m : Serves2M ⟨[low_node 0]⟩ (fun _ => False) := by
  refine (two_mib_calls_serve_iff ?_ (fun _ h => h.elim)).mpr ⟨by simp [low_node], fun _ h => h⟩
  intro n hn
  cases List.mem_singleton.mp hn
  refine ⟨rfl, rfl, rfl, fun k hk => ?_⟩
  have hlt : k / 64 < 1 := lt_length_of_bit _ hk
  change has ([0].getD (k / 64) 0) _ = true at hk
  rw [Nat.lt_one_iff.mp hlt] at hk
  cases (has_zero (Nat.mod_lt k (by decide))).symm.trans hk

/-- All pages of the two regions are free, and a search for 2 MiB panics. -/
theorem free_memory_does_not_serve_2m : ¬Serves2M two_regions_start (fun _ => False) := by
  intro h
  obtain ⟨r, s', heq⟩ := h.returns
  cases heq

end zenos_kernel.memory
