-- Pages of every type: `kalloc_page` and `kfree_page` with all variants of `PageType`. A frame is
-- taken before the page is mapped, and some errors of the mapper count as a success.
import Zenos.Memory.Dma

namespace zenos_kernel.memory

open Outcome KernelMemory PageTables

inductive PageType
  | Mmio
  | Identity
  | Recursive
  | Huge
  | Arbitrary
  | ArbitraryPhys (phys : PhysAddr)
  | MmioRecursive
  deriving DecidableEq

/-- The frames of a page at `phys`. -/
def frames_at (size : PageSize) (phys : Nat) : Finset Nat :=
  (Finset.range size.step).image (phys / PAGE_4K + ·)

/-- The address has at most 52 bits. -/
def Short (addr : UInt64) : Prop := addr.toNat < 0x10000000000000

instance (addr : UInt64) : Decidable (Short addr) := inferInstanceAs (Decidable (_ < _))

/-- `PhysAddr::new` panics when the address is too long. -/
def phys_addr_new (addr : UInt64) : MemM Nat :=
  if Short addr then pure addr.toNat else throw .panic

-- `blocks` tells which 2 MiB are eight whole words of one bitmap.
variable (blocks : Nat → Bool)

/-- The page at `phys` can be allocated. -/
def FreeAt (size : PageSize) (phys : Nat) (m : KernelMemory) : Prop :=
  phys % size.bytes = 0 ∧ (size = .Size2MiB → blocks (phys / PAGE_2M) = true) ∧
    frames_at size phys ⊆ m.free

instance (size : PageSize) (phys : Nat) (m : KernelMemory) : Decidable (FreeAt blocks size phys m) :=
  inferInstanceAs (Decidable (_ ∧ _))

/-- `alloc` of the frames at a given address. -/
def alloc_frames_at (size : PageSize) (phys : Nat) : MemM Nat := fun m =>
  if FreeAt blocks size phys m then
    .ok phys { m with free := m.free \ frames_at size phys }
  else .error (.err .OutOfMemory) m

namespace PageType

def size : PageType → PageSize
  | .Huge => .Size2MiB
  | _ => .Size4KiB

def allocate_frame (virtaddr : UInt64) : PageType → MemM Nat
  | .Huge => phys_addr_new virtaddr >>= alloc_frames_at blocks .Size2MiB
  | .Mmio => phys_addr_new virtaddr
  | .Identity => phys_addr_new virtaddr >>= alloc_frames_at blocks .Size4KiB
  | .Recursive =>
    phys_addr_new (virtaddr - UInt64.ofNat HIGHER_HALF_BASE) >>= alloc_frames_at blocks .Size4KiB
  | .Arbitrary => fun m =>
    match KernelMemory.alloc m with
    | .ok frame m => .ok (frame * PAGE_4K) m
    | .error _ m => .error (.err .OutOfMemory) m
  | .ArbitraryPhys phys => pure phys.as_u64
  | .MmioRecursive => phys_addr_new (virtaddr - UInt64.ofNat HIGHER_HALF_BASE)

/-- The errors of the mapper that `map_page` takes for a success. -/
def Ignores (ptype : PageType) (e : MapToError) : Prop :=
  ptype.size = .Size4KiB ∧ e ≠ .FrameAllocationFailed

instance (ptype : PageType) (e : MapToError) : Decidable (ptype.Ignores e) :=
  inferInstanceAs (Decidable (_ ∧ _))

def map_page (ptype : PageType) (p frame : Nat) : MemM Unit := fun m =>
  match mapping (·.map_to ptype.size p frame) m with
  | .ok _ m => .ok () m
  | .error e m => if ptype.Ignores e then .ok () m else .error (.err .OutOfMemory) m

/-- `kalloc_page` up to the frame. -/
def take (ptype : PageType) (virtaddr : UInt64) : MemM Nat := do
  let m ← get
  if m.ready then
    if ptype = .Huge ∧ virtaddr.toNat % PAGE_2M ≠ 0 then throw (.err .InvalidAlignment)
    else ptype.allocate_frame blocks virtaddr
  else throw (.err .Uninitialized)

def kalloc_page (ptype : PageType) (virtaddr : UInt64) : MemM Nat := do
  let phys ← ptype.take blocks virtaddr
  ptype.map_page (virtaddr.toNat / PAGE_4K) (phys / PAGE_4K)
  pure phys

/-! ## What an answer means -/

/-- After an `Ok` the page leads to the frame. After an error the page leads where it did, and the
frames that are no longer free became tables. -/
def Means (ptype : PageType) (virtaddr : UInt64) (m : KernelMemory) : Prop :=
  Ends (ptype.kalloc_page blocks virtaddr m)
    (fun phys m' => m'.translate_addr (virtaddr.toNat / PAGE_4K) = some (phys / PAGE_4K))
    (fun _ m' => m.free ⊆ m'.free ∪ m'.tables ∧
      m'.translate_addr (virtaddr.toNat / PAGE_4K) = m.translate_addr (virtaddr.toNat / PAGE_4K))

/-- The address of the frame, and the frames that are taken. -/
def wants (virtaddr : UInt64) (m : KernelMemory) : PageType → Nat × Finset Nat
  | .Huge => (virtaddr.toNat, frames_at .Size2MiB virtaddr.toNat)
  | .Mmio => (virtaddr.toNat, ∅)
  | .Identity => (virtaddr.toNat, frames_at .Size4KiB virtaddr.toNat)
  | .Recursive =>
    let phys := (virtaddr - UInt64.ofNat HIGHER_HALF_BASE).toNat
    (phys, frames_at .Size4KiB phys)
  | .Arbitrary => (m.policy.choose m.free * PAGE_4K, {m.policy.choose m.free})
  | .ArbitraryPhys phys => (phys.as_u64, ∅)
  | .MmioRecursive => ((virtaddr - UInt64.ofNat HIGHER_HALF_BASE).toNat, ∅)

/-- There is an allocator, the address is not too long, and the frames are free. -/
def Granted (virtaddr : UInt64) (m : KernelMemory) (ptype : PageType) : Prop :=
  m.ready = true ∧
    match ptype with
    | .Huge => Short virtaddr ∧ FreeAt blocks .Size2MiB virtaddr.toNat m
    | .Mmio => Short virtaddr
    | .Identity => Short virtaddr ∧ FreeAt blocks .Size4KiB virtaddr.toNat m
    | .Recursive =>
      let phys := virtaddr - UInt64.ofNat HIGHER_HALF_BASE
      Short phys ∧ FreeAt blocks .Size4KiB phys.toNat m
    | .Arbitrary => m.free.Nonempty
    | .ArbitraryPhys _ => True
    | .MmioRecursive => Short (virtaddr - UInt64.ofNat HIGHER_HALF_BASE)

/-- The frames suffice for the tables of the page. -/
def Enough (ptype : PageType) (p : Nat) (m : KernelMemory) : Prop :=
  (m.missing (m.needs ptype.size p)).card ≤ m.free.card

/-- The memory without the frames of the page. -/
def granted (ptype : PageType) (virtaddr : UInt64) (m : KernelMemory) : KernelMemory :=
  { m with free := m.free \ (ptype.wants virtaddr m).2 }

/-- If the page gets its frames, the others suffice for its tables, and nothing is where it is
mapped or it leads to its frame already. If they do not suffice, none was taken. -/
def Clean (ptype : PageType) (virtaddr : UInt64) (m : KernelMemory) : Prop :=
  ptype.Granted blocks virtaddr m →
    (ptype.Enough (virtaddr.toNat / PAGE_4K) (ptype.granted virtaddr m) →
      m.Vacant (virtaddr.toNat / PAGE_4K) ptype.size ∨ ptype ≠ .Huge ∧
        m.translate_addr (virtaddr.toNat / PAGE_4K) =
          some ((ptype.wants virtaddr m).1 / PAGE_4K)) ∧
    (¬ ptype.Enough (virtaddr.toNat / PAGE_4K) (ptype.granted virtaddr m) →
      (ptype.wants virtaddr m).2 = ∅)

variable {blocks} {ptype : PageType} {virtaddr : UInt64} {m : KernelMemory}

theorem ends_phys_addr_new (addr : UInt64) (m : KernelMemory) :
    Ends (phys_addr_new addr m) (fun phys m1 => Short addr ∧ phys = addr.toNat ∧ m1 = m)
      (fun _ m1 => ¬ Short addr ∧ m1 = m) := by
  unfold phys_addr_new
  split
  · exact ⟨‹_›, rfl, rfl⟩
  · exact ⟨‹_›, rfl⟩

theorem ends_frames_at (size : PageSize) (addr : UInt64) (m : KernelMemory) :
    Ends ((phys_addr_new addr >>= alloc_frames_at blocks size) m)
      (fun phys m1 => (Short addr ∧ FreeAt blocks size addr.toNat m) ∧ phys = addr.toNat ∧
        m1 = { m with free := m.free \ frames_at size addr.toNat })
      (fun _ m1 => ¬ (Short addr ∧ FreeAt blocks size addr.toNat m) ∧ m1 = m) := by
  refine ends_then (ends_phys_addr_new addr m) (fun _ _ h => ⟨fun hs => h.1 hs.1, h.2⟩) ?_
  rintro _ _ ⟨hshort, rfl, rfl⟩
  unfold alloc_frames_at
  split
  · exact ⟨⟨hshort, ‹_›⟩, rfl, rfl⟩
  · exact ⟨fun h => absurd h.2 ‹_›, rfl⟩

theorem ends_allocate_frame (hready : m.ready = true) : Ends (ptype.allocate_frame blocks virtaddr m)
    (fun phys m1 => ptype.Granted blocks virtaddr m ∧ phys = (ptype.wants virtaddr m).1 ∧
      m1 = ptype.granted virtaddr m)
    (fun _ m1 => ¬ ptype.Granted blocks virtaddr m ∧ m1 = m) := by
  have hnone : { m with free := m.free \ ∅ } = m := by rw [Finset.sdiff_empty]
  unfold Granted
  simp only [hready, true_and]
  cases ptype with
  | Mmio | MmioRecursive =>
    refine (ends_phys_addr_new _ m).mono_ok ?_
    rintro phys _ ⟨hshort, rfl, rfl⟩
    exact ⟨hshort, rfl, hnone.symm⟩
  | Identity | Recursive | Huge => exact ends_frames_at _ _ m
  | ArbitraryPhys phys => exact ⟨trivial, rfl, hnone.symm⟩
  | Arbitrary =>
    unfold allocate_frame KernelMemory.alloc
    by_cases hfree : m.free.Nonempty
    · simp only [if_pos hfree]
      refine ⟨hfree, rfl, ?_⟩
      rw [Finset.erase_eq]
      rfl
    · simp only [if_neg hfree]
      exact ⟨hfree, rfl⟩

theorem ends_take : Ends (ptype.take blocks virtaddr m)
    (fun phys m1 => ptype.Granted blocks virtaddr m ∧ phys = (ptype.wants virtaddr m).1 ∧
      m1 = ptype.granted virtaddr m)
    (fun _ m1 => ¬ ptype.Granted blocks virtaddr m ∧ m1 = m) := by
  unfold take
  rw [get_bind]
  split
  · split
    · rename_i hbad
      obtain ⟨rfl, hbad⟩ := hbad
      exact ⟨fun h => hbad h.2.2.1, rfl⟩
    · exact ends_allocate_frame ‹_›
  · exact ⟨fun h => absurd h.1 ‹_›, rfl⟩

theorem granted_free (h : ptype.Granted blocks virtaddr m) : (ptype.wants virtaddr m).2 ⊆ m.free := by
  cases ptype with
  | Identity | Recursive | Huge => exact h.2.2.2.2
  | Arbitrary => exact Finset.singleton_subset_iff.mpr (m.policy.chosen _ h.2)
  | _ => exact Finset.empty_subset _

/-- For a page of 4 KiB no other frame than its own is taken. -/
theorem wants_subset (hne : ptype ≠ .Huge) :
    (ptype.wants virtaddr m).2 ⊆ {(ptype.wants virtaddr m).1 / PAGE_4K} := by
  cases ptype with
  | Huge => exact absurd rfl hne
  | Identity | Recursive => simp [wants, frames_at, PageSize.step]
  | Arbitrary => simp [wants, PAGE_4K]
  | _ => exact Finset.empty_subset _

/-- A page of 2 MiB takes frames. -/
theorem wants_huge (virtaddr : UInt64) (m : KernelMemory) : (Huge.wants virtaddr m).2 ≠ ∅ := by
  apply Finset.Nonempty.ne_empty
  exact (Finset.nonempty_range_iff.mpr (by decide)).image _

theorem size_of_ne (h : ptype ≠ .Huge) : ptype.size = .Size4KiB := by
  cases ptype with
  | Huge => exact absurd rfl h
  | _ => rfl

/-- The mapper maps the page if the frames suffice and nothing is there. It makes tables and no
other change if not, and the errors that are ignored say that something is there. -/
theorem ends_map (p frame : Nat) (m : KernelMemory) :
    Ends (mapping (·.map_to ptype.size p frame) m)
      (fun _ m' => (ptype.Enough p m ∧ m.Vacant p ptype.size) ∧
        ((ptype = .Huge → p % 512 = 0) → m'.leads p = some frame))
      (fun e m' => (¬ (ptype.Enough p m ∧ m.Vacant p ptype.size) ∧
        (ptype ≠ .Huge → (ptype.Ignores e ↔ ptype.Enough p m))) ∧ ∃ ts, TookTables m m' ts) := by
  refine ends_zoom ((m.mapper.ends_map_to ptype.size p frame m).mono ?_ ?_)
  · rintro _ _ ⟨hvacant, m1, h1, rfl⟩
    refine ⟨⟨by simpa [Enough] using h1.toSpent.le, hvacant⟩, fun haligned => ?_⟩
    by_cases hhuge : ptype = .Huge
    · subst hhuge
      simp [leads, mapped, size, haligned rfl]
    · rw [size_of_ne hhuge] at hvacant ⊢
      simp [leads, mapped, h1.huge, (Option.or_eq_none_iff.mp hvacant).1]
  · rintro e m' (⟨rfl, hts, -, hlt⟩ | ⟨hne, h1, hsome⟩)
    · exact ⟨⟨fun h => absurd h.1 (Nat.not_le.mpr hlt), fun _ =>
        iff_of_false (fun h => h.2 rfl) (Nat.not_le.mpr hlt)⟩, hts⟩
    · refine ⟨⟨fun h => hsome h.2, fun hhuge => ?_⟩, _, h1⟩
      exact iff_of_true ⟨size_of_ne hhuge, hne⟩ (by simpa [Enough] using h1.toSpent.le)

/-- Tables cost nothing, and a frame that the page took is lost. -/
theorem free_subset_iff (hm : Disjoint m.free m.tables) (h : ptype.Granted blocks virtaddr m)
    {m' : KernelMemory} {ts : Finset (Nat × Nat)}
    (htook : TookTables (ptype.granted virtaddr m) m' ts) :
    m.free ⊆ m'.free ∪ m'.tables ↔ (ptype.wants virtaddr m).2 = ∅ := by
  have hsub := granted_free h
  rw [htook.union]
  constructor
  · intro hfree
    refine Finset.eq_empty_of_forall_notMem fun f hf => ?_
    rcases Finset.mem_union.mp (hfree (hsub hf)) with hleft | htable
    · exact (Finset.mem_sdiff.mp hleft).2 hf
    · exact Finset.disjoint_left.mp hm (hsub hf) htable
  · intro hnone
    unfold granted
    rw [hnone, Finset.sdiff_empty]
    exact Finset.subset_union_left

/-- What `kalloc_page` returns is what it did, exactly when the frames suffice and nothing else is
where the page is mapped, or no frame was taken. -/
theorem kalloc_page_means_iff (hm : Disjoint m.free m.tables) :
    ptype.Means blocks virtaddr m ↔ ptype.Clean blocks virtaddr m := by
  have htake := @ends_take blocks ptype virtaddr m
  unfold Means Clean kalloc_page
  cases hrun : ptype.take blocks virtaddr m with
  | error e m1 =>
    rw [hrun] at htake
    obtain ⟨hno, rfl⟩ := htake
    rw [bind_of_error hrun]
    exact iff_of_true ⟨Finset.subset_union_left, rfl⟩ fun h => absurd h hno
  | ok phys m1 =>
    rw [hrun] at htake
    obtain ⟨hgranted, rfl, rfl⟩ := htake
    simp only [translate_eq]
    rw [bind_of_ok hrun, forall_prop_of_true hgranted]
    generalize hp : virtaddr.toNat / PAGE_4K = p
    have hmap := @ends_map ptype p ((ptype.wants virtaddr m).1 / PAGE_4K)
      (ptype.granted virtaddr m)
    change Ends ((ptype.map_page _ _ >>= _) _) _ _ ↔ _
    unfold map_page
    simp only [bind, EStateM.bind]
    generalize mapping _ (ptype.granted virtaddr m) = r at hmap ⊢
    cases r with
    | ok u m2 =>
      obtain ⟨⟨henough, hvacant⟩, hleads⟩ := hmap
      refine iff_of_true (hleads fun hhuge => ?_) ⟨fun _ => Or.inl hvacant, fun h => absurd henough h⟩
      subst hhuge
      have haligned : virtaddr.toNat % PAGE_2M = 0 := hgranted.2.2.1
      unfold PAGE_2M at haligned
      unfold PAGE_4K at hp
      omega
    | error e m2 =>
      obtain ⟨⟨hno, hignored⟩, ts, htook⟩ := hmap
      have hvacant : ptype.Enough p (ptype.granted virtaddr m) → ¬ m.Vacant p ptype.size :=
        fun h hv => hno ⟨h, hv⟩
      by_cases hig : ptype.Ignores e
      · have hne : ptype ≠ .Huge := by
          rintro rfl
          exact absurd hig.1 (by decide)
        have henough := (hignored hne).mp hig
        simp only [Ends, if_pos hig]
        change m2.leads _ = _ ↔ _
        rw [htook.leads]
        simp [henough, hvacant henough, hne]
        rfl
      simp only [Ends, if_neg hig]
      have hsame : m2.leads p = m.leads p := congrFun htook.leads p
      rw [free_subset_iff hm hgranted htook, and_iff_left hsame]
      by_cases hhuge : ptype = .Huge
      · subst hhuge
        refine iff_of_false (wants_huge virtaddr m) fun h => ?_
        by_cases henough : Huge.Enough p (Huge.granted virtaddr m)
        · rcases h.1 henough with hv | hv
          · exact hvacant henough hv
          · exact hv.1 rfl
        · exact wants_huge virtaddr m (h.2 henough)
      · have henough := (hignored hhuge).not.mp hig
        exact ⟨fun h => ⟨fun h' => absurd h' henough, fun _ => h⟩, fun h => h.2 henough⟩

/-- A page that is not mapped gets the first of two frames. -/
theorem a_new_page_leads_to_its_frame : Arbitrary.Means (fun _ => false) 0x1000 twoFrames := by
  refine (kalloc_page_means_iff (Finset.disjoint_empty_right _)).mpr fun _ => ?_
  have henough : Arbitrary.Enough (UInt64.toNat 0x1000 / PAGE_4K)
      (Arbitrary.granted 0x1000 twoFrames) := by
    unfold Enough
    decide +kernel
  exact ⟨fun _ => Or.inl rfl, fun h => absurd henough h⟩

/-- The page of the command list is mapped: the answer is another frame. -/
theorem a_mapped_page_keeps_its_frame :
    ¬∀ (blocks : Nat → Bool) (ptype : PageType) (virtaddr : UInt64) (m : KernelMemory),
      Disjoint m.free m.tables → ptype.Means blocks virtaddr m := by
  intro hall
  have hmeans := hall (fun _ => false) .Arbitrary (UInt64.ofNat AHCI_VIRT_BASE) twoFrames
    (Finset.disjoint_empty_right _)
  have hother : passes (Arbitrary.kalloc_page (fun _ => false) (UInt64.ofNat AHCI_VIRT_BASE)
      twoFrames) (fun phys m' => phys / PAGE_4K = 1 && m'.translate_addr
        ((UInt64.ofNat AHCI_VIRT_BASE).toNat / PAGE_4K) = some 7) = true := by
    decide +kernel
  obtain ⟨phys, m', hrun, hother⟩ := exists_of_passes hother
  have hleads := hmeans.of_ok hrun
  simp only [Bool.and_eq_true, decide_eq_true_eq] at hother
  rw [hother.1, hother.2] at hleads
  cases hleads

/-! ## Giving a page back -/

/-- The page is not mapped, and the free frames are those of before, but for new tables. -/
structure Undone (m m' : KernelMemory) (p : Nat) : Prop where
  unmapped : m'.translate_addr p = none
  only : m'.free ⊆ m.free
  all : m.free ⊆ m'.free ∪ m'.tables

theorem kfree_page_ok {p : Nat} {m' : KernelMemory} (h : kfree_page p m = .ok () m') :
    ∃ frame, m.translate_addr p = some frame ∧
      m' = { m.unmap p with free := insert frame m.free } := by
  unfold kfree_page at h
  split at h
  · split at h
    · cases h
    · split at h
      · cases h
        exact ⟨_, ‹_›, rfl⟩
      · cases h
  · cases h

/-- `kfree_page` does not ask for the type. It unmaps 4 KiB, and the frame that the page led to
is free then. -/
theorem kfree_undoes_iff {phys : Nat} {m1 m2 : KernelMemory}
    (hnone : m.translate_addr (virtaddr.toNat / PAGE_4K) = none)
    (halloc : ptype.kalloc_page blocks virtaddr m = .ok phys m1)
    (hfree : kfree_page (virtaddr.toNat / PAGE_4K) m1 = .ok () m2) :
    Undone m m2 (virtaddr.toNat / PAGE_4K) ↔ ptype ≠ .Huge ∧ phys / PAGE_4K ∈ m.free := by
  obtain ⟨phys', m0, htake, hrest⟩ := bind_ok.mp halloc
  obtain ⟨_, m1', hmap, hpure⟩ := bind_ok.mp hrest
  cases hpure
  obtain ⟨-, hphys, rfl⟩ := ends_take.of_ok htake
  obtain ⟨frame, hframe, rfl⟩ := kfree_page_ok hfree
  generalize virtaddr.toNat / PAGE_4K = p at *
  rw [translate_eq] at hnone
  simp only [map_page, mapping, zoom] at hmap
  have hto := (ptype.granted virtaddr m).mapper.ends_map_to ptype.size p (phys / PAGE_4K)
    (ptype.granted virtaddr m)
  generalize (ptype.granted virtaddr m).mapper.map_to ptype.size p _ _ = r at hto hmap
  by_cases hhuge : ptype = .Huge
  · -- the page of 2 MiB stays
    subst hhuge
    refine iff_of_false (fun h => ?_) (fun h => h.1 rfl)
    cases r with
    | error e m' => simp [size, Ignores] at hmap
    | ok u m' =>
      obtain ⟨-, m3, -, rfl⟩ := hto
      cases hmap
      have hleft := h.unmapped
      simp [unmap_eq, leads, mapped, size] at hleft
  rw [size_of_ne hhuge] at hto
  cases r with
  | error e m' =>
    rcases hto with ⟨rfl, -⟩ | ⟨-, -, hsome⟩
    · simp [Ignores] at hmap
    · exact absurd hnone hsome
  | ok u m' =>
    obtain ⟨-, m3, htables, rfl⟩ := hto
    cases hmap
    have hsmall : m3.huge p = none := by
      rw [htables.huge]
      exact (Option.or_eq_none_iff.mp hnone).1
    obtain rfl : frame = phys / PAGE_4K := by simpa [leads, mapped, hsmall] using hframe.symm
    rw [unmap_eq, if_neg (by simp [mapped, hsmall])]
    constructor
    · exact fun h => ⟨hhuge, h.only (Finset.mem_insert_self _ _)⟩
    · rintro ⟨-, hmem⟩
      refine ⟨by simp [leads, mapped, hsmall], ?_, fun f hf => ?_⟩
      · exact Finset.insert_subset hmem (htables.subset.trans Finset.sdiff_subset)
      · by_cases htaken : f ∈ (ptype.wants virtaddr m).2
        · rw [Finset.mem_singleton.mp (wants_subset hhuge htaken), ← hphys]
          exact Finset.mem_union_left _ (Finset.mem_insert_self _ _)
        · have hleft : f ∈ (ptype.granted virtaddr m).free := Finset.mem_sdiff.mpr ⟨hf, htaken⟩
          refine Finset.union_subset_union_left (Finset.subset_insert _ _) ?_
          change f ∈ m3.free ∪ m3.tables
          rw [htables.union]
          exact Finset.mem_union_left _ hleft

theorem a_page_goes_back : ∃ phys m1 m2,
    Arbitrary.kalloc_page (fun _ => false) 0x1000 twoFrames = .ok phys m1 ∧
      kfree_page 1 m1 = .ok () m2 ∧ Undone twoFrames m2 1 := by
  have hruns : passes (Arbitrary.kalloc_page (fun _ => false) 0x1000 twoFrames) (fun phys m1 =>
      phys / PAGE_4K = 1 && passes (kfree_page 1 m1) fun _ _ => true) = true := by
    decide +kernel
  obtain ⟨phys, m1, halloc, hruns⟩ := exists_of_passes hruns
  rw [Bool.and_eq_true, decide_eq_true_eq] at hruns
  obtain ⟨_, m2, hfree, _⟩ := exists_of_passes hruns.2
  refine ⟨phys, m1, m2, halloc, hfree, ?_⟩
  refine (@kfree_undoes_iff _ _ 0x1000 _ _ _ _ rfl halloc hfree).mpr ?_
  rw [hruns.1]
  decide

/-- A page of device memory: frame 3 was in use, and it is free afterwards. -/
theorem a_device_frame_is_freed : twoFrames.translate_addr 3 = none ∧ ∃ phys m1 m2,
    Mmio.kalloc_page (fun _ => false) 0x3000 twoFrames = .ok phys m1 ∧
      kfree_page 3 m1 = .ok () m2 ∧ ¬Undone twoFrames m2 3 := by
  have hruns : passes (Mmio.kalloc_page (fun _ => false) 0x3000 twoFrames)
      (fun _ m1 => passes (kfree_page 3 m1) fun _ m2 => 3 ∈ m2.free) = true := by
    decide +kernel
  obtain ⟨phys, m1, halloc, hruns⟩ := exists_of_passes hruns
  obtain ⟨_, m2, hfree, hthree⟩ := exists_of_passes hruns
  refine ⟨rfl, phys, m1, m2, halloc, hfree, fun h => ?_⟩
  exact absurd (h.only (of_decide_eq_true hthree)) (by decide)

end PageType

end zenos_kernel.memory
