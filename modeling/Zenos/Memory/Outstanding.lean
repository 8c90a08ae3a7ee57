-- The frames that are out. Over every run of the calls the frames handed out
-- and not given back are exactly the managed frames whose bit is clear, so no
-- frame is out twice, and the search fails only when everything is out. So
-- `KernelMemory` takes and frees the frames as the bitmaps do.
import Zenos.Memory.Frames
import Zenos.Memory.Dma

namespace zenos_kernel.memory

open WordBitmap Outcome BitmapNode Region

/-- The 4 KiB frames of a page at `f`. -/
def frames (size : PageSize) (f : Nat) : Finset Nat :=
  (Finset.range size.step).image (fun i => f + i * PAGE_4K)

variable {a : Nat} {s : PageAllocator} {i : Init} {regions : List Region} {α : Type}

theorem mem_frames_4k {f : Nat} : a ∈ frames .Size4KiB f ↔ a = f := by
  simp [frames, PageSize.step]

theorem mem_frames_2m {f : Nat} : a ∈ frames .Size2MiB f ↔ ∃ i < 512, a = f + i * PAGE_4K := by
  unfold frames
  rw [Finset.mem_image, show PageSize.Size2MiB.step = 512 from rfl]
  simp only [Finset.mem_range, eq_comm]

theorem self_mem_frames (size : PageSize) (f : Nat) : f ∈ frames size f := by
  cases size with
  | Size4KiB => exact mem_frames_4k.mpr rfl
  | Size2MiB => exact mem_frames_2m.mpr ⟨0, by decide, by simp⟩

/-! ## What a call can do -/

/-- The frames of `taken` leave one node, where all of them were free. -/
structure Takes (nodes nodes' : List BitmapNode) (taken : Finset Nat) : Prop where
  at_one : ∃ pre n n' post, nodes = pre ++ n :: post ∧ nodes' = pre ++ n' :: post ∧
    (∀ a ∈ taken, n.Free a) ∧ n.Becomes n' (fun a => n.Free a ∧ a ∉ taken)

theorem Takes.free {nodes nodes' : List BitmapNode} {taken : Finset Nat}
    (h : Takes nodes nodes' taken) (ha : a ∈ taken) : Free nodes a := by
  obtain ⟨pre, n, n', post, rfl, -, htaken, -⟩ := h.at_one
  exact ⟨n, by simp, htaken a ha⟩

theorem BitmapNode.take_spec {n n' : BitmapNode} (hn : n.Good) {size : PageSize} {phys : Nat}
    (hheld : n.holds phys = true) (ha : phys % size.bytes = 0) (h : n.take size phys = some n') :
    (∀ a ∈ frames size phys, n.Free a) ∧
      n.Becomes n' (fun a => n.Free a ∧ a ∉ frames size phys) := by
  cases size with
  | Size4KiB =>
    obtain ⟨hfree, hb⟩ := take_page_spec hn hheld ha h
    simp only [mem_frames_4k]
    exact ⟨fun a h => h ▸ hfree, hb⟩
  | Size2MiB =>
    have h2m : phys % (2 * 1024 * 1024) = 0 := ha
    have ha' : phys % 4096 = 0 := by omega
    obtain ⟨hfree, hb⟩ := take_words_spec hn hheld ha' h
    simp only [mem_frames_2m]
    refine ⟨?_, hb.good, hb.range, ?_⟩
    · rintro a ⟨i, hi, rfl⟩
      exact hfree i hi
    · intro a
      rw [hb.free]
      simp only [not_exists, not_and]

/-- What `alloc` answers. -/
def Allocates (size : PageSize) (specific_addr : Option PhysAddr) (s : PageAllocator) :
    Option PhysAddr → PageAllocator → Prop
  | some f, s' => Takes s.head s'.head (frames size f.as_u64)
  | none, s' => s' = s ∧ (size = .Size4KiB → specific_addr = none → ∀ a, ¬Free s.head a)

/-- What `alloc` panics on: the search for 2 MiB, and a frame above 52 bits. -/
def AllocPanics (size : PageSize) (specific_addr : Option PhysAddr) (s : PageAllocator) : Prop :=
  specific_addr = none ∧ (size = .Size2MiB ∨ ∃ a, Managed s.head a ∧ 0x10000000000000 ≤ a)

section

variable (hs : Sound s.head) (size : PageSize)

include hs

theorem alloc_at_cases (phys_addr : PhysAddr) :
    Ends (alloc_at size phys_addr s) (Allocates size (some phys_addr) s)
      (fun _ _ => AllocPanics size (some phys_addr) s) := by
  have hrefused : Allocates size (some phys_addr) s none s := ⟨rfl, fun _ h => by cases h⟩
  unfold alloc_at
  rw [get_bind]
  by_cases ha : phys_addr.as_u64 % size.bytes = 0
  · rw [if_neg (not_not.mpr ha)]
    cases hwalk : at_node phys_addr.as_u64 (take size phys_addr.as_u64) s.head with
    | none => exact hrefused
    | some head =>
      obtain ⟨pre, n, n', post, hsplit, hheld, hf, rfl⟩ := at_node_split hwalk
      have hn : n.Good := hs n (by rw [hsplit]; simp)
      exact ⟨pre, n, n', post, hsplit, rfl, take_spec hn hheld ha hf⟩
  · rw [if_pos ha]
    exact hrefused

theorem alloc_any_cases :
    Ends (alloc_any size s) (Allocates size none s) (fun _ _ => AllocPanics size none s) := by
  unfold alloc_any
  rw [get_bind]
  cases size with
  | Size2MiB =>
    rw [take_first_2m]
    split
    · exact ⟨rfl, fun h => by cases h⟩
    · exact ⟨rfl, Or.inl rfl⟩
  | Size4KiB =>
    rw [show PageSize.Size4KiB.step = 1 from rfl]
    rcases take_first_spec s.head hs with ⟨pre, n, k, post, hsplit, hbit, hk, h⟩ | ⟨h, hnone⟩
    · rw [h]
      have hn : n.Good := hs n (by rw [hsplit]; simp)
      by_cases hphys : n.frame k < 0x10000000000000
      · simp only [hphys]
        refine ⟨pre, n, _, post, hsplit, rfl, ?_⟩
        simp only [mem_frames_4k]
        refine ⟨?_, becomes_clear hn hk⟩
        rintro a rfl
        exact free_frame.mpr hbit
      · simp only [hphys]
        exact ⟨rfl, Or.inr ⟨n.frame k, ⟨n, by rw [hsplit]; simp, k, hk, rfl⟩, by omega⟩⟩
    · rw [h]
      exact ⟨rfl, fun _ _ => hnone⟩

/-- What `alloc` can do. -/
theorem alloc_cases (specific_addr : Option PhysAddr) :
    Ends (alloc size specific_addr s) (Allocates size specific_addr s)
      (fun _ _ => AllocPanics size specific_addr s) := by
  cases specific_addr with
  | some phys_addr => exact alloc_at_cases hs size phys_addr
  | none => exact alloc_any_cases hs size

end

/-- One node gets a page back. -/
structure Gives (nodes nodes' : List BitmapNode) (phys : Nat) : Prop where
  at_one : ∃ pre n n' post, nodes = pre ++ n :: post ∧ nodes' = pre ++ n' :: post ∧
    n.holds phys = true ∧ n.Becomes n' (fun a => n.Free a ∨ a = n.frame (n.page_num phys))

/-- What `dealloc` can do. -/
theorem dealloc_cases (hs : Sound s.head) (f : PhysAddr) (size : PageSize) : Ends (dealloc f size s)
      (fun r s' => (∃ e, r = .error e ∧ s' = s) ∨
        (r = .ok () ∧ size = .Size4KiB ∧ Gives s.head s'.head f.as_u64))
      (fun _ _ => size = .Size2MiB) := by
  unfold dealloc
  rw [get_bind]
  cases size with
  | Size4KiB =>
    cases hwalk : at_node f.as_u64 (give_page f.as_u64) s.head with
    | none => exact Or.inl ⟨_, rfl, rfl⟩
    | some head =>
      obtain ⟨pre, n, n', post, hsplit, hheld, hf, rfl⟩ := at_node_split hwalk
      have hn : n.Good := hs n (by rw [hsplit]; simp)
      refine Or.inr ⟨rfl, rfl, pre, n, n', post, hsplit, rfl, hheld, ?_⟩
      unfold give_page at hf
      rw [if_pos (word_lt hn (page_num_of_holds hn hheld))] at hf
      cases hf
      exact becomes_mark hn (page_num_of_holds hn hheld)
  | Size2MiB =>
    cases s.head.find? (fun node => node.holds f.as_u64) with
    | none => exact Or.inl ⟨_, rfl, rfl⟩
    | some node =>
      dsimp only
      split
      · exact rfl
      · exact Or.inl ⟨_, rfl, rfl⟩

/-! ## The nodes that `initialize` makes -/

namespace Region

variable (r : Region)

/-- The first page boundary of the region. -/
def aligned_start : Nat := (r.start_phys.toNat + PAGE_4K - 1) / PAGE_4K * PAGE_4K

/-- The bytes of the whole pages of the region. -/
def aligned_size : Nat :=
  (r.start_phys.toNat + r.size.toNat - r.aligned_start) / PAGE_4K * PAGE_4K

/-- A page-aligned page inside the region. -/
def WholePage (a : Nat) : Prop :=
  a % PAGE_4K = 0 ∧ r.start_phys.toNat ≤ a ∧ a + PAGE_4K ≤ r.start_phys.toNat + r.size.toNat

/-- Two regions have no byte in common. -/
def Apart (r r' : Region) : Prop :=
  r.start_phys.toNat + r.size.toNat ≤ r'.start_phys.toNat ∨
    r'.start_phys.toNat + r'.size.toNat ≤ r.start_phys.toNat

/-- What the bookkeeping of the region takes: a node and its bitmap. -/
def storage : Nat :=
  if r.aligned_size < PAGE_4K then 0
  else size_of_bitmap_node + (r.aligned_size / PAGE_4K + 63) / 64 * 8

/-- The node of the region, at address `node_virt`. -/
def node (node_virt : Nat) : BitmapNode :=
  { node_virt, map := full (r.aligned_size / PAGE_4K), base_phys := r.aligned_start,
    region_size := r.aligned_size }

theorem node_good (node_virt : Nat) : (r.node node_virt).Good where
  aligned := Nat.mul_mod_left _ _
  whole := Nat.mul_mod_left _ _
  words := length_full _
  inside := by
    intro k hk
    change bit (full _) k = true at hk
    rw [bit_full, decide_eq_true_iff] at hk
    exact hk

theorem wholePage_iff (node_virt a : Nat) : r.WholePage a ↔ (r.node node_virt).Managed a := by
  unfold WholePage BitmapNode.Managed BitmapNode.pages BitmapNode.frame node aligned_size
    aligned_start PAGE_4K
  dsimp only
  constructor
  · rintro ⟨ha, hlo, hhi⟩
    exact ⟨(a - (r.start_phys.toNat + (4096 - 1)) / 4096 * 4096) / 4096, by omega, by omega⟩
  · rintro ⟨k, hk, rfl⟩
    omega

theorem no_wholePage {r : Region} (h : r.aligned_size < PAGE_4K) (a : Nat) : ¬r.WholePage a := by
  unfold aligned_size aligned_start PAGE_4K at h
  rintro ⟨ha, hlo, hhi⟩
  unfold PAGE_4K at ha hhi
  omega

end Region

theorem u64_bind {n : Nat} {f : Nat → Except Panic α} {r : α} :
    (u64 n >>= f) = .ok r ↔ n < UInt64.size ∧ f n = .ok r := by
  unfold u64
  split <;> simp [except_bind_ok, *]

theorem u64_sub_bind {b : Nat} {f : Nat → Except Panic α} {r : α} :
    (u64_sub a b >>= f) = .ok r ↔ b ≤ a ∧ f (a - b) = .ok r := by
  unfold u64_sub
  split <;> simp [except_bind_ok, *]

/-- The sums of the turn for the region do not overflow, and the region reaches the page
boundary that its start is rounded up to. -/
def Region.Fits (r : Region) (storage_offset : Nat) : Prop :=
  r.start_phys.toNat + PAGE_4K < UInt64.size ∧
    r.start_phys.toNat + r.size.toNat < UInt64.size ∧
    r.aligned_start ≤ r.start_phys.toNat + r.size.toNat ∧
    (PAGE_4K ≤ r.aligned_size →
      HIGHER_HALF_BASE + storage_offset + size_of_bitmap_node < UInt64.size)

/-- The loop variables after the turn for the region. -/
def Init.next (i : Init) (r : Region) : Init where
  head := if r.aligned_size < PAGE_4K then i.head
    else r.node (HIGHER_HALF_BASE + i.storage_offset) :: i.head
  storage_offset := i.storage_offset + r.storage

theorem Region.aligned_size_le (r : Region) :
    r.aligned_size ≤ r.start_phys.toNat + r.size.toNat := by
  unfold aligned_size PAGE_4K
  omega

/-- What one turn of the loop does. -/
theorem init_region_iff {i' : Init} {r : Region} :
    init_region i r = .ok i' ↔ r.Fits i.storage_offset ∧ i' = i.next r := by
  unfold init_region Fits
  rw [u64_bind, u64_bind, u64_sub_bind, and_assoc, and_assoc, and_assoc]
  refine and_congr_right fun _ => and_congr_right fun hend => and_congr_right fun _ => ?_
  change (if r.aligned_size < PAGE_4K then _ else _) = _ ↔ _
  unfold Init.next storage
  by_cases hsmall : r.aligned_size < PAGE_4K
  · simp only [if_pos hsmall, Nat.not_le.mpr hsmall, false_imp_iff, true_and, Except.ok.injEq]
    exact eq_comm
  have hsize := r.aligned_size_le
  simp only [if_neg hsmall, u64_bind]
  constructor
  · rintro ⟨_, hnode, _, h⟩
    cases h
    exact ⟨fun _ => hnode, rfl⟩
  · rintro ⟨hnode, rfl⟩
    have hnode := hnode (Nat.not_lt.mp hsmall)
    refine ⟨by omega, hnode, ?_, rfl⟩
    change _ < 0x10000000000000000 at hend hnode ⊢
    unfold HIGHER_HALF_BASE size_of_bitmap_node at hnode
    unfold size_of_bitmap_node PAGE_4K
    omega

theorem init_regions_snoc {r : Region} :
    init_regions (regions ++ [r]) = init_regions regions >>= (init_region · r) := by
  simp [init_regions]

/-- What every turn of the loop keeps holds at its end. -/
theorem init_regions_induction {P : List Region → Init → Prop} (h0 : P [] Init.start)
    (hstep : ∀ done r i, P done i → r.Fits i.storage_offset → P (done ++ [r]) (i.next r))
    (h : init_regions regions = .ok i) : P regions i := by
  induction regions using List.reverseRecOn generalizing i with
  | nil =>
    cases h
    exact h0
  | append_singleton done r ih =>
    rw [init_regions_snoc] at h
    obtain ⟨i0, hi, hr⟩ := except_bind_ok.mp h
    obtain ⟨hfits, rfl⟩ := init_region_iff.mp hr
    exact hstep done r i0 (ih hi) hfits

section

variable (h : init_regions regions = .ok i)

include h

/-- The regions with a whole page have a node, the last one first. -/
theorem init_ranges : i.head.map range = ((regions.filter (fun r => PAGE_4K ≤ r.aligned_size)).map
      (fun r => (r.aligned_start, r.aligned_size))).reverse := by
  refine init_regions_induction (P := fun done i => i.head.map range =
    ((done.filter (fun r => PAGE_4K ≤ r.aligned_size)).map
      (fun r => (r.aligned_start, r.aligned_size))).reverse) rfl ?_ h
  intro done r i ih _
  unfold Init.next
  by_cases hsmall : r.aligned_size < PAGE_4K
  · simp [hsmall, Nat.not_le.mpr hsmall, ih]
  · simp [hsmall, Nat.not_lt.mp hsmall, ih, range, node]

theorem init_nodes : ∀ n ∈ i.head, ∃ r node_virt, n = node r node_virt := by
  refine init_regions_induction
    (P := fun _ i => ∀ n ∈ i.head, ∃ r node_virt, n = node r node_virt)
    (by simp [Init.start]) ?_ h
  intro done r i ih _
  unfold Init.next
  split
  · exact ih
  · exact List.forall_mem_cons.mpr ⟨⟨r, _, rfl⟩, ih⟩

theorem init_sound : Sound i.head := by
  intro n hn
  obtain ⟨r, node_virt, rfl⟩ := init_nodes h n hn
  exact r.node_good node_virt

/-- The frames managed are the whole pages of the regions. -/
theorem init_managed (a : Nat) : Managed i.head a ↔ ∃ r ∈ regions, r.WholePage a := by
  rw [managed_iff_range, init_ranges h]
  simp only [List.mem_reverse, List.mem_map, List.mem_filter, decide_eq_true_eq, and_assoc]
  constructor
  · rintro ⟨_, ⟨r, hr, _, rfl⟩, hpage⟩
    exact ⟨r, hr, (r.wholePage_iff 0 a).mpr hpage⟩
  · rintro ⟨r, hr, hpage⟩
    refine ⟨_, ⟨r, hr, ?_, rfl⟩, (r.wholePage_iff 0 a).mp hpage⟩
    by_contra hsmall
    exact no_wholePage (Nat.not_le.mp hsmall) a hpage

theorem init_free : ∀ n ∈ i.head, ∀ k < n.pages, bit n.map k = true := by
  intro n hn k hk
  obtain ⟨r, node_virt, rfl⟩ := init_nodes h n hn
  change bit (full _) k = true
  rw [bit_full, decide_eq_true_iff]
  exact hk

theorem init_free_iff (a : Nat) : Free i.head a ↔ Managed i.head a := by
  constructor
  · exact Free.managed (init_sound h)
  · rintro ⟨n, hn, k, hk, rfl⟩
    exact ⟨n, hn, free_frame.mpr (init_free h n hn k hk)⟩

theorem init_disjoint (hd : regions.Pairwise Region.Apart) : memory.Disjoint i.head := by
  unfold memory.Disjoint
  rw [init_ranges h, List.pairwise_reverse, List.pairwise_map]
  refine (hd.filter _).imp_of_mem ?_
  intro r r' hr hr' hapart
  have hin : ∀ r : Region, PAGE_4K ≤ r.aligned_size → r.start_phys.toNat ≤ r.aligned_start ∧
      r.aligned_start + r.aligned_size ≤ r.start_phys.toNat + r.size.toNat := by
    intro r hbig
    unfold Region.aligned_size at hbig ⊢
    unfold Region.aligned_start at hbig ⊢
    unfold PAGE_4K at hbig ⊢
    omega
  have h1 := hin r (by simpa using (List.mem_filter.mp hr).2)
  have h2 := hin r' (by simpa using (List.mem_filter.mp hr').2)
  unfold Region.Apart at hapart
  unfold Apart
  omega

end

/-! ## Runs -/

/-- The allocator together with the frames that are out. -/
structure Tracked where
  alloc : PageAllocator
  out : Finset Nat
  deriving DecidableEq

inductive Call
  | alloc_4k (specific_addr : Option PhysAddr)
  | alloc_2m (specific_addr : PhysAddr)
  | dealloc_4k (f : PhysAddr)
  deriving DecidableEq

namespace Tracked

/-- The frames of an answer of `alloc` go out. -/
def took (t : Tracked) (size : PageSize) :
    EStateM.Result Panic PageAllocator (Option PhysAddr) → Option Tracked
  | .ok (some f) s => some ⟨s, t.out ∪ frames size f.as_u64⟩
  | .ok none s => some ⟨s, t.out⟩
  | .error _ _ => none

/-- One call. `none` is a panic, or the return of a frame that is not out. -/
def step (t : Tracked) : Call → Option Tracked
  | .alloc_4k specific_addr => t.took .Size4KiB (memory.alloc .Size4KiB specific_addr t.alloc)
  | .alloc_2m specific_addr => t.took .Size2MiB (memory.alloc .Size2MiB (some specific_addr) t.alloc)
  | .dealloc_4k f =>
    if f.as_u64 ∈ t.out then
      match dealloc f .Size4KiB t.alloc with
      | .ok (.ok ()) s => some ⟨s, t.out.erase f.as_u64⟩
      | .ok (.error _) s => some ⟨s, t.out⟩
      | .error _ _ => none
    else none

/-- A run of calls. -/
def Steps : Tracked → Tracked → Prop := Relation.ReflTransGen (fun t t' => ∃ c, t.step c = some t')

/-- The frames that are out are the managed frames that are not free. -/
structure Good (t : Tracked) : Prop where
  sound : Sound t.alloc.head
  disjoint : memory.Disjoint t.alloc.head
  out : ∀ a, a ∈ t.out ↔ Managed t.alloc.head a ∧ ¬Free t.alloc.head a

variable {t t' : Tracked}

theorem good_took (g : t.Good) {s' : PageAllocator} {taken : Finset Nat}
    (h : Takes t.alloc.head s'.head taken) :
    (mk s' (t.out ∪ taken)).Good ∧ s'.head.map range = t.alloc.head.map range := by
  obtain ⟨pre, n, n', post, hs, hs', htaken, hb⟩ := h.at_one
  have hbec := becomes_took (hs ▸ g.sound) (hs ▸ g.disjoint) htaken hb
  rw [← hs, ← hs'] at hbec
  refine ⟨⟨hbec.sound, hbec.disjoint g.disjoint, ?_⟩, hbec.range⟩
  intro a
  rw [Finset.mem_union, g.out, managed_congr hbec.range, hbec.free]
  have hman : a ∈ taken → Managed t.alloc.head a := fun ha => (h.free ha).managed g.sound
  tauto

/-- A frame that is out goes back. -/
theorem good_gave (g : t.Good) {s' : PageAllocator} {f : Nat} (hf : f ∈ t.out)
    (h : Gives t.alloc.head s'.head f) :
    (mk s' (t.out.erase f)).Good ∧ s'.head.map range = t.alloc.head.map range := by
  obtain ⟨pre, n, n', post, hs, hs', hheld, hb⟩ := h.at_one
  have hn : n.Good := g.sound n (by rw [hs]; simp)
  have haligned : f % PAGE_4K = 0 := ((g.out f).mp hf).1.aligned g.sound
  rw [← (holds_frame hn hheld haligned).2] at hb
  have hbec := becomes_gave (hs ▸ g.sound) hb
  rw [← hs, ← hs'] at hbec
  refine ⟨⟨hbec.sound, hbec.disjoint g.disjoint, ?_⟩, hbec.range⟩
  intro a
  rw [Finset.mem_erase, g.out, managed_congr hbec.range, hbec.free]
  tauto

theorem dealloc_out (g : t.Good) {f : PhysAddr} (hf : f.as_u64 ∈ t.out) :
    ∃ s', dealloc f .Size4KiB t.alloc = .ok (.ok ()) s' := by
  have hman := ((g.out _).mp hf).1
  have haligned := hman.aligned g.sound
  obtain ⟨head, hwalk⟩ := at_node_some (f := give_page f.as_u64) (by
      obtain ⟨n, hn, h⟩ := hman
      exact ⟨n, hn, holds_of_managed h⟩) (by
      intro n hn hheld
      obtain ⟨n', hn', _⟩ := give_page_spec (g.sound n hn) hheld haligned
      exact ⟨n', hn'⟩)
  refine ⟨⟨head⟩, ?_⟩
  unfold dealloc
  rw [get_bind]
  rw [hwalk]
  rfl

theorem good_of_took (g : t.Good) {size : PageSize} {specific_addr : Option PhysAddr}
    (h : t.took size (memory.alloc size specific_addr t.alloc) = some t') :
    t'.Good ∧ t'.alloc.head.map range = t.alloc.head.map range := by
  have hcases := alloc_cases g.sound size specific_addr
  generalize memory.alloc size specific_addr t.alloc = r at h hcases
  cases r with
  | error e s' => cases h
  | ok r s' =>
    cases r with
    | none =>
      cases h
      obtain ⟨rfl, _⟩ := hcases
      exact ⟨g, rfl⟩
    | some f =>
      cases h
      exact good_took g hcases

theorem good_step (g : t.Good) {c : Call} (h : t.step c = some t') :
    t'.Good ∧ t'.alloc.head.map range = t.alloc.head.map range := by
  cases c with
  | alloc_4k specific_addr => exact good_of_took g h
  | alloc_2m specific_addr => exact good_of_took g h
  | dealloc_4k f =>
    unfold step at h
    dsimp only at h
    split at h
    · rename_i hf
      obtain ⟨s', hs'⟩ := dealloc_out g hf
      have hcases := dealloc_cases g.sound f .Size4KiB
      rw [hs'] at h hcases
      cases h
      rcases hcases with ⟨e, he, _⟩ | ⟨_, _, hgives⟩
      · cases he
      · exact good_gave g hf hgives
    · cases h

theorem good_steps (g : t.Good) (h : Steps t t') :
    t'.Good ∧ t'.alloc.head.map range = t.alloc.head.map range := by
  induction h with
  | refl => exact ⟨g, rfl⟩
  | tail _ hstep ih =>
    obtain ⟨c, hc⟩ := hstep
    obtain ⟨hgood, hrange⟩ := good_step ih.1 hc
    exact ⟨hgood, hrange.trans ih.2⟩

theorem good_init {regions : List Region} {i : Init} (h : init_regions regions = .ok i)
    (hd : regions.Pairwise Region.Apart) : (mk ⟨i.head⟩ ∅).Good where
  sound := init_sound h
  disjoint := init_disjoint h hd
  out := by
    intro a
    simp only [Finset.notMem_empty, false_iff, not_and, not_not, init_free_iff h, imp_self]

end Tracked

theorem initialize_ok (h : initialize_allocator regions = .ok s) :
    ∃ i, init_regions regions = .ok i ∧ s = ⟨i.head⟩ := by
  obtain ⟨i, hi, h⟩ := except_bind_ok.mp h
  cases h
  exact ⟨i, hi, rfl⟩

/-- At every point of every run of the calls the frames that are out are
page-aligned and lie in the regions. A frame that `alloc` returns was not out,
the search for any page fails only when every whole page of every region is
out, and a call that fails changes nothing. -/
theorem frames_out_are_safe {regions : List Region} {s0 : PageAllocator}
    (hd : regions.Pairwise Region.Apart) (hinit : initialize_allocator regions = .ok s0)
    {t : Tracked} (hrun : Tracked.Steps ⟨s0, ∅⟩ t) :
    (∀ f ∈ t.out, f % PAGE_4K = 0 ∧ ∃ r ∈ regions, r.WholePage f) ∧
    (∀ size specific_addr f s', alloc size specific_addr t.alloc = .ok (some f) s' →
      ∀ a ∈ frames size f.as_u64, a ∉ t.out) ∧ (∀ s', alloc .Size4KiB none t.alloc = .ok none s' →
      ∀ r ∈ regions, ∀ f, r.WholePage f → f ∈ t.out) ∧
    (∀ size specific_addr s', alloc size specific_addr t.alloc = .ok none s' → s' = t.alloc) ∧
    (∀ f size e s', dealloc f size t.alloc = .ok (.error e) s' → s' = t.alloc) := by
  obtain ⟨i, hi, rfl⟩ := initialize_ok hinit
  obtain ⟨g, hrange⟩ := Tracked.good_steps (Tracked.good_init hi hd) hrun
  have hman : ∀ a, Managed t.alloc.head a ↔ ∃ r ∈ regions, r.WholePage a := by
    intro a
    rw [managed_congr hrange a, ← init_managed hi]
  refine ⟨?_, ?_, ?_, ?_, ?_⟩
  · intro f hf
    have hf' := ((g.out f).mp hf).1
    exact ⟨hf'.aligned g.sound, (hman f).mp hf'⟩
  · intro size specific_addr f s' h a ha hout
    have htakes := (alloc_cases g.sound size specific_addr).of_ok h
    exact ((g.out a).mp hout).2 (htakes.free ha)
  · intro s' h r hr f hf
    have hnone := ((alloc_cases g.sound .Size4KiB none).of_ok h).2 rfl rfl f
    exact (g.out f).mpr ⟨(hman f).mpr ⟨r, hr, hf⟩, hnone⟩
  · intro size specific_addr s' h
    exact ((alloc_cases g.sound size specific_addr).of_ok h).1
  · intro f size e s' h
    rcases (dealloc_cases g.sound f size).of_ok h with ⟨_, _, hs⟩ | ⟨he, _, _⟩
    · exact hs
    · cases he

/-- 64 KiB at 1 MiB, and 4 MiB at 2 MiB. -/
def two_regions : List Region := [⟨0x100000, 0x10000⟩, ⟨0x200000, 0x400000⟩]

/-- The allocator of the two regions, with `map` the bitmap of the second. -/
def two_regions_with (map : List UInt64) : PageAllocator :=
  ⟨[{ node_virt := 0xFFFF800000000030, map, base_phys := 0x200000, region_size := 0x400000 },
    { node_virt := 0xFFFF800000000000, map := full 16, base_phys := 0x100000,
      region_size := 0x10000 }]⟩

def two_regions_start : PageAllocator := two_regions_with (full 1024)

/-- The allocator of the two regions after one call. -/
def two_regions_one_out : Tracked := ⟨two_regions_with (clear (full 1024) 0), {0x200000}⟩

theorem two_regions_frames_are_safe :
    (∀ f ∈ two_regions_one_out.out, f % PAGE_4K = 0 ∧ ∃ r ∈ two_regions, r.WholePage f) ∧
    ∀ f s', alloc .Size4KiB none two_regions_one_out.alloc = .ok (some f) s' →
      ∀ a ∈ frames .Size4KiB f.as_u64, a ∉ two_regions_one_out.out := by
  have h := @frames_out_are_safe two_regions two_regions_start
    (by simp [two_regions, Region.Apart]) (by decide +kernel) two_regions_one_out
    (Relation.ReflTransGen.single ⟨.alloc_4k none, by decide +kernel⟩)
  exact ⟨h.1, fun f s' => h.2.1 .Size4KiB none f s'⟩

/-! ## The frames as the mappings see them -/

/-- The frames of `m` are those of the bitmaps. -/
structure Shows (t : Tracked) (m : KernelMemory) : Prop extends t.Good where
  managed : ∀ a, m.managed a = true ↔ Managed t.alloc.head a
  free : ∀ a, a ∈ m.free ↔ Managed t.alloc.head a ∧ a ∉ t.out

/-- At the start all whole pages are free. -/
theorem shows_init (hi : init_regions regions = .ok i) (hd : regions.Pairwise Region.Apart)
    {m : KernelMemory} (hman : ∀ a, m.managed a = true ↔ ∃ r ∈ regions, r.WholePage a)
    (hfree : ∀ a, a ∈ m.free ↔ m.managed a = true) : Shows ⟨⟨i.head⟩, ∅⟩ m where
  toGood := Tracked.good_init hi hd
  managed a := (hman a).trans (init_managed hi a).symm
  free a := by simp [hfree, hman, init_managed hi]

namespace Shows

variable {t t' : Tracked} {m : KernelMemory} {f : PhysAddr} (h : Shows t m)

include h

theorem of_good (hgood : t'.Good ∧ t'.alloc.head.map range = t.alloc.head.map range)
    (free : Finset Nat) (hfree : ∀ a, a ∈ free ↔ Managed t.alloc.head a ∧ a ∉ t'.out) :
    Shows t' { m with free } := by
  refine ⟨hgood.1, fun a => ?_, fun a => ?_⟩
  · rw [managed_congr hgood.2, ← h.managed]
  · rw [managed_congr hgood.2, ← hfree]

/-- `alloc` gives a free frame, and so does `KernelMemory.alloc` with a policy that chooses it. They
run out of frames together. -/
theorem alloc {r : Option PhysAddr} {s' : PageAllocator}
    (hrun : memory.alloc .Size4KiB none t.alloc = .ok r s') :
    match r with
    | some f => f.as_u64 ∈ m.free ∧ (m.policy.choose m.free = f.as_u64 → ∃ m',
        m.alloc = .ok f.as_u64 m' ∧ Shows ⟨s', t.out ∪ frames .Size4KiB f.as_u64⟩ m')
    | none => m.alloc = .error () m := by
  have hcases := (alloc_cases h.sound .Size4KiB none).of_ok hrun
  cases r with
  | none =>
    refine if_neg ?_
    rintro ⟨a, ha⟩
    obtain ⟨hman, hout⟩ := (h.free a).mp ha
    exact hout ((h.out a).mpr ⟨hman, hcases.2 rfl rfl a⟩)
  | some f =>
    have hfree := hcases.free (self_mem_frames _ _)
    have hmem : f.as_u64 ∈ m.free :=
      (h.free _).mpr ⟨hfree.managed h.sound, fun hout => ((h.out _).mp hout).2 hfree⟩
    refine ⟨hmem, fun hchoose => ⟨{ m with free := m.free.erase f.as_u64 }, ?_, ?_⟩⟩
    · rw [← hchoose]
      exact if_pos ⟨_, hmem⟩
    · refine h.of_good (Tracked.good_took h.toGood hcases) _ fun a => ?_
      simp only [Finset.mem_erase, Finset.mem_union, mem_frames_4k, h.free]
      tauto

/-- A frame that is out goes back as in `kfree_page`. -/
theorem dealloc (hf : f.as_u64 ∈ t.out) : m.managed f.as_u64 = true ∧
    ∃ s', memory.dealloc f .Size4KiB t.alloc = .ok (.ok ()) s' ∧
      Shows ⟨s', t.out.erase f.as_u64⟩ { m with free := insert f.as_u64 m.free } := by
  have hman := ((h.out _).mp hf).1
  obtain ⟨s', hs'⟩ := Tracked.dealloc_out h.toGood hf
  have hstep : t.step (.dealloc_4k f) = some ⟨s', t.out.erase f.as_u64⟩ := by
    simp only [Tracked.step, if_pos hf, hs']
  refine ⟨(h.managed _).mpr hman, s', hs', h.of_good (Tracked.good_step h.toGood hstep) _ fun a => ?_⟩
  by_cases ha : a = f.as_u64
  · simp [ha, hman]
  · simp [ha, h.free]

end Shows

end zenos_kernel.memory
