-- The invariant of the slab heap. Every block is live or on at most one list,
-- and lies in a slab of its size that is mapped; but a list can hold blocks of
-- another slab, since a block goes back to the first slab of its size.
import Zenos.Memory.SlabOps
import Mathlib.Data.List.Perm.Lattice

namespace zenos_kernel.memory.slab

open LinkedList Outcome

/-! ## Slots -/

/-- Address `a` lies in the slab at `base_addr`. -/
def Within (base_addr a : Nat) : Prop := base_addr ≤ a ∧ a < base_addr + SLAB_BYTES

instance (base_addr a : Nat) : Decidable (Within base_addr a) := inferInstanceAs (Decidable (_ ∧ _))

/-- The slabs and the freed slots are the first slots of the heap, each once. -/
structure Slots (s : SlabAllocator) : Prop where
  base_addr : s.base_addr = SLAB_BASE_ADDR + (s.slabs.length + s.freed_slots.length) * SLAB_BYTES
  count : s.slabs.length + s.freed_slots.length ≤ MAX_SLABS
  nodup : (s.slabs.map Slab.base_addr ++ s.freed_slots).Nodup
  slot : ∀ b ∈ s.slabs.map Slab.base_addr ++ s.freed_slots,
    ∃ k < s.slabs.length + s.freed_slots.length, b = SLAB_BASE_ADDR + k * SLAB_BYTES

/-- The address of a slot. -/
def IsSlot (b : Nat) : Prop := ∃ k, b = SLAB_BASE_ADDR + k * SLAB_BYTES

theorem IsSlot.aligned {b : Nat} (h : IsSlot b) : b % PAGE_SIZE = 0 := by
  obtain ⟨k, rfl⟩ := h
  unfold SLAB_BASE_ADDR SLAB_BYTES MAX_SLAB_PAGES PAGE_SIZE PAGE_4K
  omega

/-- Two slots have no byte in common. -/
theorem IsSlot.apart {b b' : Nat} (h : IsSlot b) (h' : IsSlot b') (hne : b ≠ b') :
    b + SLAB_BYTES ≤ b' ∨ b' + SLAB_BYTES ≤ b := by
  obtain ⟨k, rfl⟩ := h
  obtain ⟨k', rfl⟩ := h'
  unfold SLAB_BYTES MAX_SLAB_PAGES PAGE_SIZE PAGE_4K at *
  omega

theorem IsSlot.pages_apart {b b' : Nat} (h : IsSlot b) (h' : IsSlot b') (hne : b ≠ b')
    {page : Nat} (hpage : InSlab b page) : ¬InSlab b' page := by
  have hapart := h.apart h' hne
  unfold InSlab at *
  unfold SLAB_BYTES at hapart
  unfold PAGE_SIZE PAGE_4K at *
  omega

/-! ## Slabs with their lists -/

/-- A slab together with its list of free blocks. -/
abbrev Entry := Slab × List Nat

/-- What places a slab: its address and the size of its blocks. -/
def Entry.key (e : Entry) : Nat × Nat := (e.1.base_addr, e.1.slab_size)

@[simp] theorem Entry.key_fst (e : Entry) : e.key.1 = e.1.base_addr := rfl

/-- Block `a` of size `c` lies in one of the slabs. -/
def BlockIn (G : List Entry) (c a : Nat) : Prop :=
  ∃ k ∈ G.map Entry.key, k.2 = c ∧ ∃ i < total_blocks c, a = block_addr k.1 c i

structure EntryGood (s : SlabAllocator) (e : Entry) : Prop where
  size : e.1.slab_size ∈ SLAB_SIZE_CLASSES
  magic : (s.slab_meta e.1.base_addr).magic_number = MAGIC
  total : (s.slab_meta e.1.base_addr).total = total_blocks e.1.slab_size
  count : (s.slab_meta e.1.base_addr).used + e.2.length = total_blocks e.1.slab_size
  mapped : ∀ page, InSlab e.1.base_addr page → s.mapped page = true
  chain : Chain s.next e.1.head e.2

theorem EntryGood.head_of_full {s : SlabAllocator} {e : Entry} (h : EntryGood s e)
    (hfull : (s.slab_meta e.1.base_addr).total ≤ (s.slab_meta e.1.base_addr).used) :
    e.1.head = none := by
  have hcount := h.count
  rw [h.total] at hfull
  have hnil : e.2 = [] := List.eq_nil_of_length_eq_zero (by omega)
  have hchain := h.chain.head_eq
  rw [hnil] at hchain
  exact hchain

/-- `live` are the live blocks, each with the size of its slab. -/
structure Good (s : SlabAllocator) (G : List Entry) (live : List (Nat × Nat)) : Prop where
  slabs : s.slabs = G.map Prod.fst
  slots : Slots s
  entry : ∀ e ∈ G, EntryGood s e
  free_in : ∀ e ∈ G, ∀ a ∈ e.2, BlockIn G e.1.slab_size a
  live_in : ∀ b ∈ live, BlockIn G b.2 b.1
  nodup : (live.map Prod.fst ++ G.flatMap Prod.snd).Nodup

/-- No slab in the list is without a used block. -/
def InUse (s : SlabAllocator) : Prop := ∀ σ ∈ s.slabs, 0 < (s.slab_meta σ.base_addr).used

section Facts

variable {s s' : SlabAllocator} {G G' pre post : List Entry} {live live' : List (Nat × Nat)}
  {e : Entry} {a c : Nat} {σ : Slab} {l : List Nat}

theorem mem_key (he : e ∈ G) : Entry.key e ∈ G.map Entry.key := List.mem_map_of_mem he

theorem BlockIn.perm (h : BlockIn G c a) (hsub : ∀ k ∈ G.map Entry.key, k ∈ G'.map Entry.key) :
    BlockIn G' c a := by
  obtain ⟨k, hk, hblock⟩ := h
  exact ⟨k, hsub k hk, hblock⟩

/-- A block lies in its slab with its header and all its bytes. -/
theorem BlockIn.within (h : BlockIn G c a) : ∃ k ∈ G.map Entry.key, k.2 = c ∧
    k.1 + size_of_slab_meta ≤ a ∧ a + size_of_block_meta + c ≤ k.1 + SLAB_BYTES := by
  obtain ⟨k, hk, hc, i, hi, rfl⟩ := h
  exact ⟨k, hk, hc, block_addr_lt k.1 hi⟩

section

variable (g : Good s G live)

include g

theorem Good.bases : s.slabs.map Slab.base_addr = (G.map Entry.key).map Prod.fst := by
  rw [g.slabs, List.map_map, List.map_map]
  rfl

theorem Good.isSlot {k : Nat × Nat} (hk : k ∈ G.map Entry.key) : IsSlot k.1 := by
  have hmem : k.1 ∈ s.slabs.map Slab.base_addr := by
    rw [g.bases]
    exact List.mem_map_of_mem hk
  obtain ⟨n, _, h⟩ := g.slots.slot k.1 (List.mem_append_left _ hmem)
  exact ⟨n, h⟩

/-- Slabs at one address are one slab. -/
theorem Good.key_eq {k k' : Nat × Nat} (hk : k ∈ G.map Entry.key)
    (hk' : k' ∈ G.map Entry.key) (h : k.1 = k'.1) : k = k' := by
  have hnodup := (List.nodup_append.mp g.slots.nodup).1
  rw [g.bases] at hnodup
  exact List.inj_on_of_nodup_map hnodup hk hk' h

theorem Good.blocks_apart {c' a' : Nat} (h : BlockIn G c a) (h' : BlockIn G c' a') (hne : a ≠ a') :
    a + size_of_block_meta + c ≤ a' ∨ a' + size_of_block_meta + c' ≤ a := by
  obtain ⟨k, hk, hc, i, hi, rfl⟩ := h
  obtain ⟨k', hk', hc', j, hj, rfl⟩ := h'
  have hlt := block_addr_lt k.1 hi
  have hlt' := block_addr_lt k'.1 hj
  by_cases hsame : k.1 = k'.1
  · have hkk := g.key_eq hk hk' hsame
    subst hkk
    subst hc
    subst hc'
    -- two blocks of one slab: the strides between them
    have hij : i ≠ j := fun h => hne (by rw [h])
    unfold block_addr
    unfold size_of_block_meta
    have hmul := Bytes.records_apart hij (32 + k.2)
    omega
  · have := (g.isSlot hk).apart (g.isSlot hk') hsame
    omega

theorem Good.reachable_block (h : BlockIn G c a) : s.reachable a = true := by
  obtain ⟨k, hk, -, i, hi, rfl⟩ := h
  obtain ⟨e, he, rfl⟩ := List.mem_map.mp hk
  exact block_reachable (g.isSlot hk).aligned (g.entry e he).mapped hi

theorem Good.reachable_base (he : e ∈ G) : s.reachable e.1.base_addr = true := by
  have halign := (g.isSlot (mem_key he)).aligned
  exact base_reachable halign (g.entry e he).mapped

/-- The live blocks can be listed in any order. -/
theorem Good.perm_live (h : live.Perm live') : Good s G live' where
  slabs := g.slabs
  slots := g.slots
  entry := g.entry
  free_in := g.free_in
  live_in := fun b hb => g.live_in b (h.mem_iff.mpr hb)
  nodup := ((h.map Prod.fst).append_right _).nodup_iff.mp g.nodup

end

/-- The slots can change their order and their use. -/
theorem Slots.perm (h : Slots s) (hbase : s'.base_addr = s.base_addr)
    (hslots : (s'.slabs.map Slab.base_addr ++ s'.freed_slots).Perm
      (s.slabs.map Slab.base_addr ++ s.freed_slots)) : Slots s' := by
  have hcount : s'.slabs.length + s'.freed_slots.length =
      s.slabs.length + s.freed_slots.length := by
    simpa using hslots.length_eq
  refine ⟨?_, ?_, hslots.nodup_iff.mpr h.nodup, ?_⟩
  · rw [hbase, hcount]
    exact h.base_addr
  · rw [hcount]
    exact h.count
  · intro b hb
    rw [hcount]
    exact h.slot b (hslots.mem_iff.mp hb)

theorem Good.base_ne (g : Good s (pre ++ e :: post) live) {d : Entry} (hd : d ∈ pre ++ post) :
    d.1.base_addr ≠ e.1.base_addr := by
  intro heq
  have hnodup := (List.nodup_append.mp g.slots.nodup).1
  rw [g.slabs, List.map_map, List.map_append] at hnodup
  have hnotin := List.nodup_middle.mp hnodup
  rw [List.nodup_cons] at hnotin
  apply hnotin.1
  rw [← List.map_append]
  exact List.mem_map.mpr ⟨d, hd, heq⟩

/-- An entry whose header and links are as before stays good. -/
theorem EntryGood.keep (h : EntryGood s e)
    (hm : s'.slab_meta e.1.base_addr = s.slab_meta e.1.base_addr)
    (hmapped : ∀ page, InSlab e.1.base_addr page → s'.mapped page = true)
    (hnext : ∀ x ∈ e.2, s'.next x = s.next x) : EntryGood s' e where
  size := h.size
  magic := by rw [hm]; exact h.magic
  total := by rw [hm]; exact h.total
  count := by rw [hm]; exact h.count
  mapped := hmapped
  chain := h.chain.congr hnext

theorem mem_middle (pre post : List Entry) (e : Entry) : e ∈ pre ++ e :: post := by simp

theorem mem_sides {d : Entry} (e : Entry) (hd : d ∈ pre ++ post) : d ∈ pre ++ e :: post := by
  simp only [List.mem_append] at hd ⊢
  tauto

/-- One slab gets a new list and a new count. Its blocks are those before, up to the live ones. -/
theorem Good.recount {l' : List Nat} {head : Option Nat} {used : Nat}
    (g : Good s (pre ++ (σ, l) :: post) live) (hk : Keeps s s')
    (hmeta : s'.slab_meta = Function.update s.slab_meta σ.base_addr
      { s.slab_meta σ.base_addr with used := used })
    (hnext : ∀ d ∈ pre ++ post, ∀ x ∈ d.2, s'.next x = s.next x)
    (hcount : used + l'.length = total_blocks σ.slab_size) (hchain : Chain s'.next head l')
    (hperm : (live'.map Prod.fst ++ l').Perm (live.map Prod.fst ++ l))
    (hfree : ∀ a ∈ l', BlockIn (pre ++ (σ, l) :: post) σ.slab_size a)
    (hlive : ∀ b ∈ live', BlockIn (pre ++ (σ, l) :: post) b.2 b.1) :
    Good (s'.set_slab pre.length { σ with head := head })
      (pre ++ ({ σ with head := head }, l') :: post) live' := by
  have ge := g.entry (σ, l) (mem_middle pre post _)
  have hslabs : (s'.set_slab pre.length { σ with head := head }).slabs =
      (pre ++ ({ σ with head := head }, l') :: post).map Prod.fst := by
    change s'.slabs.set _ _ = _
    rw [hk.slabs, g.slabs]
    simp
  have hkeys : (pre ++ ({ σ with head := head }, l') :: post).map Entry.key =
      (pre ++ (σ, l) :: post).map Entry.key := by
    simp [Entry.key]
  have hin : ∀ {c a}, BlockIn (pre ++ (σ, l) :: post) c a →
      BlockIn (pre ++ ({ σ with head := head }, l') :: post) c a :=
    fun h => h.perm (fun k hk => by rw [hkeys]; exact hk)
  have hbases : (s'.set_slab pre.length { σ with head := head }).slabs.map Slab.base_addr =
      s.slabs.map Slab.base_addr := by
    rw [g.bases, ← hkeys, hslabs, List.map_map, List.map_map]
    rfl
  refine ⟨hslabs, g.slots.perm hk.base_addr (.of_eq ?_), ?_, ?_, ?_, ?_⟩
  · exact congrArg₂ (· ++ ·) hbases hk.freed_slots
  · intro d hd
    rcases List.mem_cons.mp (List.perm_middle.mem_iff.mp hd) with rfl | hd
    · have hm : s'.slab_meta σ.base_addr = { s.slab_meta σ.base_addr with used := used } := by
        rw [hmeta, Function.update_self]
      refine ⟨ge.size, ?_, ?_, ?_, ?_, hchain⟩
      · exact (congrArg SlabMeta.magic_number hm).trans ge.magic
      · exact (congrArg SlabMeta.total hm).trans ge.total
      · exact (congrArg (SlabMeta.used · + l'.length) hm).trans hcount
      · change ∀ page, _ → s'.mapped page = true
        rw [hk.mapped]
        exact ge.mapped
    · have gd := g.entry d (mem_sides _ hd)
      refine gd.keep ?_ ?_ (hnext d hd)
      · change s'.slab_meta _ = _
        rw [hmeta, Function.update_of_ne (g.base_ne hd)]
      · change ∀ page, _ → s'.mapped page = true
        rw [hk.mapped]
        exact gd.mapped
  · intro d hd x hx
    apply hin
    rcases List.mem_cons.mp (List.perm_middle.mem_iff.mp hd) with rfl | hd
    · exact hfree x hx
    · exact g.free_in d (mem_sides _ hd) x hx
  · intro b hb
    exact hin (hlive b hb)
  · have hmid : ∀ (X : List Nat) (e : Entry), (X ++ (pre ++ e :: post).flatMap Prod.snd).Perm
        (X ++ e.2 ++ (pre ++ post).flatMap Prod.snd) := by
      intro X e
      rw [List.append_assoc]
      exact (List.perm_middle.flatMap_right Prod.snd).append_left X
    refine ((hmid _ _).trans ?_).nodup_iff.mpr g.nodup
    exact (hperm.append_right _).trans (hmid _ (σ, l)).symm

/-- The first slab of a size, with what stands before it. -/
theorem Good.position_split (g : Good s G live) {index : Nat} (h : s.position c = some index) :
    ∃ pre e post, G = pre ++ e :: post ∧ pre.length = index ∧ e.1.slab_size = c ∧
      s.slabs[index]? = some e.1 := by
  unfold SlabAllocator.position at h
  rw [g.slabs, List.findIdx?_map] at h
  obtain ⟨hlt, hsize, _⟩ := List.findIdx?_eq_some_iff_getElem.mp h
  refine ⟨G.take index, G[index], G.drop (index + 1), ?_, ?_, by simpa using hsize, ?_⟩
  · rw [List.getElem_cons_drop, List.take_append_drop]
  · rw [List.length_take]
    omega
  · rw [g.slabs, List.getElem?_map, List.getElem?_eq_getElem hlt]
    rfl

theorem Good.position_some (g : Good s G live) (h : BlockIn G c a) :
    ∃ index, s.position c = some index := by
  unfold SlabAllocator.position
  obtain ⟨k, hk, hc, _⟩ := h
  obtain ⟨e, he, rfl⟩ := List.mem_map.mp hk
  rw [← Option.isSome_iff_exists, List.findIdx?_isSome, List.any_eq_true]
  refine ⟨e.1, ?_, ?_⟩
  · rw [g.slabs]
    exact List.mem_map_of_mem he
  · simpa [Entry.key] using hc

/-! ## A block of an old slab -/

/-- The head of the list of `e` becomes live. -/
theorem Good.took (g : Good s (pre ++ (σ, a :: l) :: post) live)
    (hk : Keeps s s') (hnext : s'.next = s.next)
    (hmeta : s'.slab_meta = Function.update s.slab_meta σ.base_addr
      { s.slab_meta σ.base_addr with used := (s.slab_meta σ.base_addr).used + 1 }) :
    Good (s'.set_slab pre.length { σ with head := s.next a })
      (pre ++ ({ σ with head := s.next a }, l) :: post) ((a, σ.slab_size) :: live) := by
  have ge := g.entry (σ, a :: l) (mem_middle pre post _)
  have hcount := ge.count
  rw [List.length_cons] at hcount
  refine g.recount hk hmeta (fun _ _ _ _ => by rw [hnext]) ?_ ?_ List.perm_middle.symm ?_ ?_
  · dsimp only at hcount
    omega
  · rw [hnext]
    exact ge.chain.2
  · intro x hx
    exact g.free_in _ (mem_middle pre post _) x (by simp [hx])
  · exact List.forall_mem_cons.mpr
      ⟨g.free_in _ (mem_middle pre post _) a (by simp), g.live_in⟩

/-- The lists of `Good` are read off the headers. -/
theorem Good.walk_eq (g : Good s G live) (he : e ∈ G) :
    walk s.next (total_blocks e.1.slab_size) e.1.head = e.2 := by
  have ge := g.entry e he
  have hcount := ge.count
  exact ge.chain.walk_eq (by omega)

/-! ## A block goes back -/

/-- A live block becomes the head of the list of `e`, whichever slab it lies in. -/
theorem Good.gave (g : Good s (pre ++ (σ, l) :: post) ((a, σ.slab_size) :: live))
    (hused : 0 < (s.slab_meta σ.base_addr).used) (hk : Keeps s s')
    (hnext : ∀ x, s'.next x = if x = a then σ.head else s.next x)
    (hmeta : s'.slab_meta = Function.update s.slab_meta σ.base_addr
      { s.slab_meta σ.base_addr with used := (s.slab_meta σ.base_addr).used - 1 }) :
    Good (s'.set_slab pre.length { σ with head := some a })
      (pre ++ ({ σ with head := some a }, a :: l) :: post) live := by
  have ge := g.entry (σ, l) (mem_middle pre post _)
  have hcount := ge.count
  -- the block is on no list
  have hnot : ∀ d ∈ pre ++ (σ, l) :: post, a ∉ d.2 := by
    intro d hd ha
    have hnodup := g.nodup
    rw [List.map_cons, List.cons_append, List.nodup_cons] at hnodup
    exact hnodup.1 (List.mem_append_right _ (List.mem_flatMap.mpr ⟨d, hd, ha⟩))
  have hsame : ∀ d ∈ pre ++ (σ, l) :: post, ∀ x ∈ d.2, s'.next x = s.next x := by
    intro d hd x hx
    rw [hnext, if_neg]
    rintro rfl
    exact hnot d hd hx
  refine g.recount hk hmeta ?_ ?_ ?_ List.perm_middle ?_ ?_
  · exact fun d hd => hsame d (mem_sides _ hd)
  · rw [List.length_cons]
    dsimp only at hcount
    omega
  · refine ge.chain.push ?_ (hsame _ (mem_middle pre post _))
    rw [hnext, if_pos rfl]
  · exact List.forall_mem_cons.mpr
      ⟨g.live_in (_, σ.slab_size) (by simp), g.free_in _ (mem_middle pre post _)⟩
  · intro b hb
    exact g.live_in b (by simp [hb])

/-! ## A slab goes away -/

/-- The slab `e` leaves the list and its pages are unmapped. No live block and
no block of another list lies in it. -/
theorem Good.released (g : Good s (pre ++ e :: post) live)
    (hlive : ∀ b ∈ live, ¬Within e.1.base_addr b.1)
    (hfree : ∀ d ∈ pre ++ post, ∀ x ∈ d.2, ¬Within e.1.base_addr x) :
    ∃ G', Good (s.without pre.length e.1.base_addr) G' live ∧ ∀ d ∈ G', d ∈ pre ++ post := by
  have hperm : (pre ++ e :: post).Perm (e :: swap_remove (pre ++ e :: post) pre.length) :=
    swap_remove_perm pre post e
  generalize hG : swap_remove (pre ++ e :: post) pre.length = G' at hperm
  have hslabs' : swap_remove s.slabs pre.length = G'.map Prod.fst := by
    rw [g.slabs, swap_remove_map, hG]
  have hmem : ∀ d, d ∈ G' ↔ d ∈ pre ++ post := by
    intro d
    have h : (pre ++ e :: post).Perm (e :: (pre ++ post)) := List.perm_middle
    have := (hperm.symm.trans h).cons_inv
    exact this.mem_iff
  have heslot := g.isSlot (mem_key (mem_middle pre post e))
  have hbases : (s.slabs.map Slab.base_addr).Perm
      (e.1.base_addr :: (G'.map Prod.fst).map Slab.base_addr) := by
    rw [g.slabs]
    exact (hperm.map Prod.fst).map Slab.base_addr
  have hblock : ∀ {c a}, BlockIn (pre ++ e :: post) c a → ¬Within e.1.base_addr a →
      BlockIn G' c a := by
    intro c a h hout
    obtain ⟨k, hk, hc, i, hi, rfl⟩ := h
    obtain ⟨d, hd, rfl⟩ := List.mem_map.mp hk
    refine ⟨Entry.key d, List.mem_map_of_mem ?_, hc, i, hi, rfl⟩
    rcases List.mem_cons.mp (hperm.mem_iff.mp hd) with rfl | hd
    · exfalso
      apply hout
      have hlt := block_addr_lt (Entry.key d).1 hi
      rw [Entry.key_fst] at hlt ⊢
      unfold Within
      unfold size_of_block_meta at hlt
      omega
    · exact hd
  refine ⟨G', ⟨hslabs', ?_, ?_, ?_, ?_, ?_⟩, fun d hd => (hmem d).mp hd⟩
  · refine g.slots.perm rfl ?_
    change ((swap_remove s.slabs pre.length).map Slab.base_addr ++
      e.1.base_addr :: s.freed_slots).Perm _
    rw [hslabs']
    refine List.perm_middle.trans ?_
    exact (hbases.append_right s.freed_slots).symm
  · intro d hd
    have gd := g.entry d (hperm.mem_iff.mpr (by simp [hd]))
    refine ⟨gd.size, gd.magic, gd.total, gd.count, ?_, gd.chain⟩
    intro page hpage
    have hdslot := g.isSlot (mem_key (hperm.mem_iff.mpr (List.mem_cons_of_mem e hd)))
    have hnot := hdslot.pages_apart heslot (g.base_ne ((hmem d).mp hd)) hpage
    exact (mapped_with_pages_out _ false hnot).trans (gd.mapped page hpage)
  · intro d hd x hx
    refine hblock (g.free_in d (hperm.mem_iff.mpr (by simp [hd])) x hx) ?_
    exact hfree d ((hmem d).mp hd) x hx
  · intro b hb
    exact hblock (g.live_in b hb) (hlive b hb)
  · have hp : (live.map Prod.fst ++ (pre ++ e :: post).flatMap Prod.snd).Perm
        (live.map Prod.fst ++ (e :: G').flatMap Prod.snd) :=
      (hperm.flatMap_right Prod.snd).append_left _
    have hnodup := hp.nodup_iff.mp g.nodup
    refine hnodup.sublist ?_
    exact (List.sublist_append_right e.2 _).append_left _

/-! ## A new slab -/

/-- The slot of a new slab is not in use, and with it the slots are in order again. -/
theorem Slots.take_slot (h : Slots s) : ∃ b s1, take_slot s = .ok b s1 ∧ IsSlot b ∧
    b ∉ s.slabs.map Slab.base_addr ∧ s1.slabs = s.slabs ∧ s1.slab_meta = s.slab_meta ∧
    s1.next = s.next ∧ s1.mapped = s.mapped ∧
    ∀ s' : SlabAllocator, s'.slabs.map Slab.base_addr = s.slabs.map Slab.base_addr ++ [b] →
      s'.base_addr = s1.base_addr → s'.freed_slots = s1.freed_slots →
      s.slabs.length < MAX_SLABS → Slots s' := by
  unfold slab.take_slot
  rw [get_bind]
  cases hfreed : s.freed_slots with
  | cons recycled freed =>
    have hmem : recycled ∈ s.freed_slots := by simp [hfreed]
    obtain ⟨k, _, hk⟩ := h.slot recycled (List.mem_append_right _ hmem)
    refine ⟨recycled, _, rfl, ⟨k, hk⟩, ?_, rfl, rfl, rfl, rfl, ?_⟩
    · intro hbase
      exact (List.nodup_append.mp h.nodup).2.2 recycled hbase recycled hmem rfl
    · intro s' hs' hb hf _
      refine h.perm hb (.of_eq ?_)
      rw [hs', hf, hfreed, List.append_assoc]
      rfl
  | nil =>
    obtain ⟨hbase, hcount, hnodup, hslot⟩ := h
    rw [hfreed] at hbase hcount hnodup hslot
    rw [List.length_nil] at hbase hcount hslot
    rw [List.append_nil] at hnodup hslot
    have hnew : s.base_addr ∉ s.slabs.map Slab.base_addr := by
      intro hmem
      obtain ⟨k, hk, heq⟩ := hslot _ hmem
      rw [hbase] at heq
      unfold SLAB_BYTES MAX_SLAB_PAGES PAGE_SIZE PAGE_4K at heq
      omega
    refine ⟨s.base_addr,
      { s with base_addr := (s.base_addr + MAX_SLAB_PAGES * PAGE_SIZE) % UInt64.size,
               freed_slots := [] }, rfl,
      ⟨s.slabs.length, hbase⟩, hnew, rfl, rfl, next_congr rfl, rfl, ?_⟩
    · intro s' hs' hb hf hroom
      have hlen' : s'.slabs.length = s.slabs.length + 1 := by
        simpa using congrArg List.length hs'
      have hb' : s'.base_addr = SLAB_BASE_ADDR + (s.slabs.length + 1) * SLAB_BYTES := by
        rw [hb]
        dsimp only
        rw [hbase]
        unfold SLAB_BASE_ADDR SLAB_BYTES MAX_SLAB_PAGES PAGE_SIZE PAGE_4K
        unfold MAX_SLABS at hroom
        rw [show UInt64.size = 0x10000000000000000 from rfl]
        omega
      have hf' : s'.freed_slots = [] := hf
      refine ⟨?_, ?_, ?_, ?_⟩
      · rw [hb', hlen', hf', List.length_nil]
      · rw [hlen', hf', List.length_nil]
        omega
      · rw [hs', hf', List.append_nil, ← List.concat_eq_append]
        exact hnodup.concat hnew
      · intro b hbm
        rw [hs', hf', List.append_nil, List.mem_append, List.mem_singleton] at hbm
        rcases hbm with hbm | rfl
        · obtain ⟨k, hk, heq⟩ := hslot b hbm
          exact ⟨k, by omega, heq⟩
        · exact ⟨s.slabs.length, by omega, hbase⟩

theorem nodup_blocks (base_addr slab_size i n : Nat) :
    ((List.range' i n).map (block_addr base_addr slab_size)).Nodup := by
  refine (List.nodup_range' (s := i) (n := n)).map ?_
  intro j k h
  exact block_addr_inj h

/-- The slab at `b` with all blocks but the first on its list. -/
def fresh_entry (head : Option Nat) (b c : Nat) : Entry :=
  (⟨b, c, head⟩, (List.range' 1 (total_blocks c - 1)).map (block_addr b c))

/-- A fresh slab at an unused slot, with its first block live. -/
theorem Good.fresh (g : Good s G live) {b : Nat} (hb : IsSlot b)
    (hnew : b ∉ s.slabs.map Slab.base_addr) (hc : c ∈ SLAB_SIZE_CLASSES)
    (hslabs : s'.slabs = s.slabs ++ [⟨b, c, s'.next (block_addr b c 0)⟩]) (hslots : Slots s')
    (hmapped : s'.mapped = (with_pages s b MAX_SLAB_PAGES true).mapped)
    (hmeta : s'.slab_meta = Function.update s.slab_meta b
      { SlabMeta.new c (total_blocks c) with used := 1 })
    (hlinks : ∀ j < total_blocks c, s'.next (block_addr b c j) =
      if j + 1 < total_blocks c then some (block_addr b c (j + 1)) else none)
    (hother : ∀ x, (∀ j < total_blocks c, x ≠ block_addr b c j) → s'.next x = s.next x) :
    Good s' (G ++ [fresh_entry (s'.next (block_addr b c 0)) b c])
      ((block_addr b c 0, c) :: live) := by
  generalize hhead : s'.next (block_addr b c 0) = head at hslabs
  have hpos := total_blocks_pos hc
  -- the old blocks lie in other slabs
  have hbase : ∀ k ∈ G.map Entry.key, k.1 ≠ b := by
    intro k hk heq
    apply hnew
    rw [g.bases, ← heq]
    exact List.mem_map_of_mem hk
  have hold : ∀ {c' a}, BlockIn G c' a → ∀ j < total_blocks c, a ≠ block_addr b c j := by
    intro c' a h j hj heq
    obtain ⟨k, hk, _, hlo, hhi⟩ := h.within
    have hlt := block_addr_lt b hj
    have hapart := (g.isSlot hk).apart hb (hbase k hk)
    unfold size_of_slab_meta size_of_block_meta at *
    omega
  have hsub : ∀ {c' a}, BlockIn G c' a → BlockIn (G ++ [fresh_entry head b c]) c' a :=
    fun h => h.perm (fun k hk => by rw [List.map_append]; exact List.mem_append_left _ hk)
  have hself : ∀ j < total_blocks c, BlockIn (G ++ [fresh_entry head b c]) c (block_addr b c j) :=
    fun j hj => ⟨(b, c), by simp [Entry.key, fresh_entry], rfl, j, hj, rfl⟩
  have hrest : ∀ x ∈ (fresh_entry head b c).2,
      ∃ j < total_blocks c, 0 < j ∧ x = block_addr b c j := by
    intro x hx
    obtain ⟨j, hj, rfl⟩ := List.mem_map.mp hx
    rw [List.mem_range'_1] at hj
    exact ⟨j, by omega, by omega, rfl⟩
  refine ⟨?_, hslots, ?_, ?_, ?_, ?_⟩
  · rw [hslabs, g.slabs]
    simp [fresh_entry]
  · refine List.forall_mem_append.mpr ⟨fun e he => ?_, List.forall_mem_singleton.mpr ?_⟩
    · have ge := g.entry e he
      have hne : e.1.base_addr ≠ b := hbase _ (mem_key he)
      have hm : s'.slab_meta e.1.base_addr = s.slab_meta e.1.base_addr := by
        rw [hmeta, Function.update_of_ne hne]
      refine ge.keep hm ?_ ?_
      · intro page hpage
        rw [hmapped, mapped_with_pages_out s true
          ((g.isSlot (mem_key he)).pages_apart hb hne hpage)]
        exact ge.mapped page hpage
      · intro x hx
        exact hother x (hold (g.free_in e he x hx))
    · have hm : s'.slab_meta b = { SlabMeta.new c (total_blocks c) with used := 1 } := by
        rw [hmeta, Function.update_self]
      refine ⟨hc, congrArg SlabMeta.magic_number hm, congrArg SlabMeta.total hm, ?_, ?_, ?_⟩
      · change (s'.slab_meta b).used + (List.map _ (List.range' _ _)).length = total_blocks c
        rw [hm, List.length_map, List.length_range']
        dsimp only
        omega
      · intro page hpage
        rw [hmapped]
        exact if_pos hpage
      · have hchain := chain_of_links (block_addr b c) (total_blocks c) 0 hpos hlinks
        rw [Nat.sub_zero, show total_blocks c = (total_blocks c - 1) + 1 by omega,
          List.range'_succ, List.map_cons] at hchain
        rw [← hhead]
        exact hchain.2
  · refine List.forall_mem_append.mpr ⟨fun e he x hx => hsub (g.free_in e he x hx), ?_⟩
    refine List.forall_mem_singleton.mpr fun x hx => ?_
    obtain ⟨j, hj, _, rfl⟩ := hrest x hx
    exact hself j hj
  · exact List.forall_mem_cons.mpr ⟨hself 0 hpos, fun x hx => hsub (g.live_in x hx)⟩
  · -- the old blocks, and the new ones
    have hblocks : (List.range' 0 (total_blocks c)).map (block_addr b c) =
        block_addr b c 0 :: (fresh_entry head b c).2 := by
      rw [show total_blocks c = (total_blocks c - 1) + 1 by omega, List.range'_succ, List.map_cons]
      rfl
    have hperm : (((block_addr b c 0, c) :: live).map Prod.fst ++
        (G ++ [fresh_entry head b c]).flatMap Prod.snd).Perm
        ((live.map Prod.fst ++ G.flatMap Prod.snd) ++
          (List.range' 0 (total_blocks c)).map (block_addr b c)) := by
      rw [hblocks, List.map_cons, List.flatMap_append, List.flatMap_singleton, List.cons_append,
        ← List.append_assoc]
      exact List.perm_middle.symm
    refine hperm.nodup_iff.mpr (List.nodup_append.mpr ⟨g.nodup, nodup_blocks b c 0 _, ?_⟩)
    intro x hx y hy hxy
    subst hxy
    obtain ⟨j, hj, rfl⟩ := List.mem_map.mp hy
    rw [List.mem_range'_1] at hj
    rcases List.mem_append.mp hx with hx | hx
    · obtain ⟨d, hd, heq⟩ := List.mem_map.mp hx
      have := hold (g.live_in d hd) j (by omega)
      exact this heq
    · obtain ⟨e, he, hx⟩ := List.mem_flatMap.mp hx
      exact hold (g.free_in e he _ hx) j (by omega) rfl

end Facts

end zenos_kernel.memory.slab
