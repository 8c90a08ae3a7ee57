-- What the operations on one slab do: which headers they change, and how the
-- list of free blocks looks afterwards.
import Zenos.Lib.Bytes
import Zenos.Memory.Slab

namespace zenos_kernel.memory.slab

open LinkedList Outcome SlabAllocator

/-- The size of a slab in bytes. -/
def SLAB_BYTES : Nat := MAX_SLAB_PAGES * PAGE_SIZE

variable {s s' : SlabAllocator} {σ : Slab}

/-- Everything but the headers is as before. -/
structure Keeps (s s' : SlabAllocator) : Prop where
  slabs : s'.slabs = s.slabs
  base_addr : s'.base_addr = s.base_addr
  freed_slots : s'.freed_slots = s.freed_slots
  mapped : s'.mapped = s.mapped

theorem Keeps.refl (s : SlabAllocator) : Keeps s s := ⟨rfl, rfl, rfl, rfl⟩

theorem Keeps.trans {s'' : SlabAllocator} (h : Keeps s s') (h' : Keeps s' s'') : Keeps s s'' :=
  ⟨h'.slabs.trans h.slabs, h'.base_addr.trans h.base_addr, h'.freed_slots.trans h.freed_slots,
    h'.mapped.trans h.mapped⟩

theorem Keeps.reachable (h : Keeps s s') {addr : Nat} (hr : s.reachable addr = true) :
    s'.reachable addr = true := by
  unfold SlabAllocator.reachable at *
  rw [h.mapped]
  exact hr

theorem keeps_set_block_meta (addr : Nat) (m : BlockMeta) (s : SlabAllocator) :
    Keeps s (set_block_meta addr m s) := ⟨rfl, rfl, rfl, rfl⟩

theorem keeps_set_slab_meta (addr : Nat) (m : SlabMeta) (s : SlabAllocator) :
    Keeps s (set_slab_meta addr m s) := ⟨rfl, rfl, rfl, rfl⟩

/-- The pointer of the header at `a` to the next free block. -/
def SlabAllocator.next (s : SlabAllocator) (a : Nat) : Option Nat := (s.block_meta a).next

theorem next_congr (h : s'.block_meta = s.block_meta) : s'.next = s.next := by
  unfold next
  rw [h]

theorem next_set_block_meta (addr : Nat) (m : BlockMeta) (s : SlabAllocator) (a : Nat) :
    (set_block_meta addr m s).next a = if a = addr then m.next else s.next a := by
  unfold next set_block_meta
  by_cases h : a = addr
  · subst h
    simp
  · simp [h]

theorem next_set_same {addr : Nat} {m : BlockMeta} (h : m.next = s.next addr) :
    (set_block_meta addr m s).next = s.next := by
  funext a
  rw [next_set_block_meta]
  split
  · rename_i ha
    rw [ha, h]
  · rfl

/-! ## Headers in mapped memory -/

section Headers

variable {addr : Nat}

section

variable (h : s.reachable addr = true)

include h

theorem access_ok : access addr s = .ok () s := by
  unfold access
  rw [get_bind, if_pos h]
  rfl

theorem read_slab_meta_ok : read_slab_meta addr s = .ok (s.slab_meta addr) s := by
  unfold read_slab_meta
  rw [bind_of_ok (access_ok h), get_bind, pure_run]

theorem write_slab_meta_ok (m : SlabMeta) :
    write_slab_meta addr m s = .ok () (set_slab_meta addr m s) := by
  unfold write_slab_meta
  rw [bind_of_ok (access_ok h)]
  rfl

theorem read_block_meta_ok : read_block_meta addr s = .ok (s.block_meta addr) s := by
  unfold read_block_meta
  rw [bind_of_ok (access_ok h), get_bind, pure_run]

theorem update_block_meta_ok (f : BlockMeta → BlockMeta) :
    update_block_meta addr f s = .ok () (set_block_meta addr (f (s.block_meta addr)) s) := by
  unfold update_block_meta
  rw [bind_of_ok (read_block_meta_ok h)]
  rfl

end

/-- A change of a back pointer does not touch the list. -/
theorem update_pointee_spec {p : Option Nat} (hp : ∀ a ∈ p, s.reachable a = true)
    {f : BlockMeta → BlockMeta} (hf : ∀ m, (f m).next = m.next) :
    ∃ s', update_pointee p f s = .ok () s' ∧ Keeps s s' ∧ s'.slab_meta = s.slab_meta ∧
      s'.next = s.next := by
  cases p with
  | none => exact ⟨s, rfl, Keeps.refl s, rfl, rfl⟩
  | some a =>
    exact ⟨_, update_block_meta_ok (hp a rfl) f, keeps_set_block_meta _ _ _, rfl,
      next_set_same (hf _)⟩

end Headers

/-! ## The blocks of a slab -/

variable {base_addr slab_size i : Nat}

theorem block_addr_inj {j : Nat}
    (h : block_addr base_addr slab_size i = block_addr base_addr slab_size j) : i = j := by
  unfold block_addr size_of_block_meta at h
  have hmul : i * (32 + slab_size) = j * (32 + slab_size) := by omega
  exact Nat.eq_of_mul_eq_mul_right (by omega) hmul

/-- The header and the bytes of a block lie in the slab, behind its header. -/
theorem block_addr_lt (base_addr : Nat) (hi : i < total_blocks slab_size) :
    base_addr + size_of_slab_meta ≤ block_addr base_addr slab_size i ∧
      block_addr base_addr slab_size i + size_of_block_meta + slab_size ≤ base_addr + SLAB_BYTES := by
  have hmul : i * (32 + slab_size) + (32 + slab_size) ≤
      MAX_SLAB_PAGES * PAGE_SIZE - size_of_slab_meta :=
    Nat.le_trans (Bytes.record_le hi _) (Nat.div_mul_le_self _ _)
  unfold block_addr SLAB_BYTES size_of_block_meta
  omega

theorem total_blocks_pos (h : slab_size ∈ SLAB_SIZE_CLASSES) : 0 < total_blocks slab_size := by
  have hall : ∀ c ∈ SLAB_SIZE_CLASSES, 0 < total_blocks c := by decide
  exact hall slab_size h

/-! ## Making a slab -/

/-- The loop of `Slab::new` from block `i` on links the blocks that are left, and the block before
them to the first one. -/
theorem link_blocks_spec (base_addr slab_size left i : Nat) {s : SlabAllocator}
    (hreach : ∀ j < i + left, s.reachable (block_addr base_addr slab_size j) = true)
    (prev : Option Nat) (hprev : ∀ p ∈ prev, s.reachable p = true ∧
      ∀ j ≥ i, p ≠ block_addr base_addr slab_size j) (head : Option Nat) :
    ∃ s', link_blocks base_addr slab_size left i prev head s =
        .ok (if left = 0 then head else head.or (some (block_addr base_addr slab_size i))) s' ∧
      Keeps s s' ∧ s'.slab_meta = s.slab_meta ∧
      (∀ j ≥ i, j < i + left → s'.next (block_addr base_addr slab_size j) =
        if j + 1 < i + left then some (block_addr base_addr slab_size (j + 1)) else none) ∧
      (∀ p ∈ prev, s'.next p =
        if left = 0 then s.next p else some (block_addr base_addr slab_size i)) ∧
      ∀ x, prev ≠ some x → (∀ j ≥ i, j < i + left → x ≠ block_addr base_addr slab_size j) →
        s'.next x = s.next x := by
  induction left generalizing i s prev head with
  | zero =>
    refine ⟨s, rfl, Keeps.refl s, rfl, ?_, fun _ _ => rfl, fun _ _ _ => rfl⟩
    intro j hge hlt
    omega
  | succ left ih =>
    unfold link_blocks
    generalize hbm : block_addr base_addr slab_size i = bm
    have hbm_reach : s.reachable bm = true := hbm ▸ hreach i (by omega)
    have hlater : ∀ j ≥ i + 1, bm ≠ block_addr base_addr slab_size j := by
      intro j hj heq
      have := block_addr_inj (hbm.trans heq)
      omega
    rw [bind_of_ok (update_block_meta_ok hbm_reach _)]
    -- the block before this one gets its pointer
    obtain ⟨s2, hrun, hk2, hmeta2, hnext2⟩ : ∃ s2,
        update_pointee prev (fun p => { p with next := some bm })
          (set_block_meta bm BlockMeta.new s) = .ok () s2 ∧ Keeps s s2 ∧
        s2.slab_meta = s.slab_meta ∧
        ∀ x, s2.next x = if x = bm then none else if prev = some x then some bm else s.next x := by
      cases prev with
      | none =>
        refine ⟨_, rfl, keeps_set_block_meta _ _ _, rfl, ?_⟩
        intro x
        rw [next_set_block_meta]
        simp [BlockMeta.new]
      | some p =>
        obtain ⟨hp, hne⟩ := hprev p rfl
        refine ⟨_, update_block_meta_ok ((keeps_set_block_meta bm _ s).reachable hp) _,
          ⟨rfl, rfl, rfl, rfl⟩, rfl, ?_⟩
        intro x
        rw [next_set_block_meta, next_set_block_meta]
        grind [BlockMeta.new]
    rw [bind_of_ok hrun, bind_of_ok (update_block_meta_ok (hk2.reachable hbm_reach) _)]
    generalize hs3 : set_block_meta bm _ s2 = s3
    have hk3 : Keeps s s3 := by
      rw [← hs3]
      exact hk2.trans (keeps_set_block_meta _ _ _)
    have hnext3 : ∀ x, s3.next x =
        if x = bm then none else if prev = some x then some bm else s.next x := by
      intro x
      rw [← hnext2 x, ← hs3, next_set_same]
      rfl
    obtain ⟨s', hrun', hk', hmeta', hlinks', hlast', hother'⟩ := ih (i + 1) (s := s3)
      (fun j hj => hk3.reachable (hreach j (by omega))) (some bm)
      (by
        rintro p hp
        cases hp
        exact ⟨hk3.reachable hbm_reach, hlater⟩) (head.or (some bm))
    have hmeta3 : s3.slab_meta = s.slab_meta := by
      rw [← hs3]
      exact hmeta2
    refine ⟨s', ?_, hk3.trans hk', hmeta'.trans hmeta3, ?_, ?_, ?_⟩
    · rw [hrun']
      cases head <;> simp
    · intro j hge hlt
      rcases Nat.eq_or_lt_of_le hge with rfl | hgt
      · rw [hbm, hlast' bm rfl, hnext3, if_pos rfl]
        grind
      · rw [hlinks' j hgt (by omega)]
        congr 1
        simp only [eq_iff_iff]
        omega
    · intro p hp
      have hne := (hprev p hp).2
      have hpbm : p ≠ bm := hbm ▸ hne i (Nat.le_refl i)
      rw [hother' p (by simp [Ne.symm hpbm]) fun j hj _ => hne j (by omega), hnext3, if_neg hpbm,
        if_pos (show prev = some p from hp)]
      rfl
    · intro x hx hout
      have hxbm : x ≠ bm := hbm ▸ hout i (Nat.le_refl i) (by omega)
      rw [hother' x (by simp [Ne.symm hxbm]) fun j hj hlt => hout j (by omega) (by omega), hnext3,
        if_neg hxbm, if_neg hx]

/-- The pages of the slab at `base_addr`. -/
def InSlab (base_addr page : Nat) : Prop :=
  base_addr / PAGE_SIZE ≤ page ∧ page < base_addr / PAGE_SIZE + MAX_SLAB_PAGES

instance (base_addr page : Nat) : Decidable (InSlab base_addr page) :=
  inferInstanceAs (Decidable (_ ∧ _))

/-- A header inside a mapped slab can be used. -/
theorem reachable_in_slab {addr : Nat} (halign : base_addr % PAGE_SIZE = 0)
    (hmapped : ∀ page, InSlab base_addr page → s.mapped page = true) (hlo : base_addr ≤ addr)
    (hhi : addr + 32 ≤ base_addr + SLAB_BYTES) : s.reachable addr = true := by
  unfold reachable
  unfold InSlab at hmapped
  unfold SLAB_BYTES at hhi
  unfold PAGE_SIZE PAGE_4K at *
  rw [hmapped (addr / 4096) (by omega), hmapped ((addr + 31) / 4096) (by omega)]
  rfl

section

variable (halign : base_addr % PAGE_SIZE = 0)
  (hmapped : ∀ page, InSlab base_addr page → s.mapped page = true)

include halign hmapped

theorem base_reachable : s.reachable base_addr = true :=
  reachable_in_slab halign hmapped (Nat.le_refl _) (by
    unfold SLAB_BYTES MAX_SLAB_PAGES PAGE_SIZE PAGE_4K
    omega)

theorem block_reachable (hi : i < total_blocks slab_size) :
    s.reachable (block_addr base_addr slab_size i) = true := by
  obtain ⟨hlo, hhi⟩ := block_addr_lt base_addr hi
  unfold size_of_block_meta at hhi
  exact reachable_in_slab halign hmapped (by omega) (by omega)

end

/-- Some pages of a slab get a new state. -/
def with_pages (s : SlabAllocator) (base_addr k : Nat) (present : Bool) : SlabAllocator :=
  { s with mapped := fun page =>
      if base_addr / PAGE_SIZE ≤ page ∧ page < base_addr / PAGE_SIZE + k then present
      else s.mapped page }

variable (s)

theorem mapped_with_pages_out (present : Bool) {page : Nat} (h : ¬InSlab base_addr page) :
    (with_pages s base_addr MAX_SLAB_PAGES present).mapped page = s.mapped page := if_neg h

theorem with_pages_zero (base_addr : Nat) (present : Bool) :
    with_pages s base_addr 0 present = s := by
  unfold with_pages
  congr
  funext page
  rw [if_neg (by omega)]

theorem map_page_with_pages {k : Nat} (halign : base_addr % PAGE_SIZE = 0) (present : Bool) :
    map_page ((base_addr + k * PAGE_SIZE) / PAGE_SIZE) present (with_pages s base_addr k present) =
      with_pages s base_addr (k + 1) present := by
  have hpage : (base_addr + k * PAGE_SIZE) / PAGE_SIZE = base_addr / PAGE_SIZE + k := by
    unfold PAGE_SIZE PAGE_4K at *
    omega
  unfold map_page with_pages
  rw [hpage]
  congr
  funext page
  by_cases hp : page = base_addr / PAGE_SIZE + k
  · subst hp
    rw [Function.update_self, if_pos (by omega)]
  · rw [Function.update_of_ne hp]
    dsimp only
    by_cases hin : base_addr / PAGE_SIZE ≤ page ∧ page < base_addr / PAGE_SIZE + k
    · rw [if_pos hin, if_pos (by omega)]
    · rw [if_neg hin, if_neg (by omega)]

theorem map_slab_ok (halign : base_addr % PAGE_SIZE = 0) :
    each (List.range MAX_SLAB_PAGES) (fun j => kalloc_page (base_addr + j * PAGE_SIZE)) s =
      .ok () (with_pages s base_addr MAX_SLAB_PAGES true) := by
  obtain ⟨_, s', hrun, rfl⟩ := (ends_each_range (n := MAX_SLAB_PAGES)
    (b := fun j => kalloc_page (base_addr + j * PAGE_SIZE)) (E := fun _ _ => False)
    (fun k s1 => s1 = with_pages s base_addr k true) (with_pages_zero s base_addr true).symm (by
      intro k s1 _ hs1
      subst hs1
      exact map_page_with_pages s halign true)).returns
  exact hrun

variable {s}

/-- `Slab::free` unmaps the 15 pages of the slab. -/
theorem Slab.free_ok (halign : σ.base_addr % PAGE_SIZE = 0)
    (hmapped : ∀ page, InSlab σ.base_addr page → s.mapped page = true) :
    σ.free s = .ok () (with_pages s σ.base_addr MAX_SLAB_PAGES false) := by
  obtain ⟨_, s', hrun, rfl⟩ := (ends_each_range (n := MAX_SLAB_PAGES)
    (b := fun i => kfree_page (σ.base_addr + i * PAGE_SIZE)) (E := fun _ _ => False)
    (fun k s1 => s1 = with_pages s σ.base_addr k false)
    (with_pages_zero s σ.base_addr false).symm (by
      intro k s1 hk hs1
      subst hs1
      have hpage : (σ.base_addr + k * PAGE_SIZE) / PAGE_SIZE = σ.base_addr / PAGE_SIZE + k := by
        unfold PAGE_SIZE PAGE_4K at *
        omega
      have hstill : (with_pages s σ.base_addr k false).mapped
          ((σ.base_addr + k * PAGE_SIZE) / PAGE_SIZE) = true := by
        unfold with_pages
        dsimp only
        rw [if_neg (by omega)]
        exact hmapped _ ⟨by omega, by omega⟩
      unfold kfree_page
      rw [get_bind, if_pos hstill]
      exact map_page_with_pages s halign false)).returns
  exact hrun

/-- The allocator without the slab at `index`, whose pages are at `base_addr`. -/
def SlabAllocator.without (s : SlabAllocator) (index base_addr : Nat) : SlabAllocator :=
  { with_pages s base_addr MAX_SLAB_PAGES false with
    slabs := swap_remove s.slabs index
    freed_slots := base_addr :: s.freed_slots }

theorem release_slab_ok (index : Nat) (halign : σ.base_addr % PAGE_SIZE = 0)
    (hmapped : ∀ page, InSlab σ.base_addr page → s.mapped page = true)
    (hroom : s.freed_slots.length < MAX_SLABS) :
    release_slab index σ s = .ok () (s.without index σ.base_addr) := by
  unfold release_slab
  rw [modify_bind, bind_of_ok (Slab.free_ok (s := { s with slabs := swap_remove s.slabs index })
    halign hmapped)]
  change EStateM.Result.ok () (if s.freed_slots.length < MAX_SLABS then _ else _) = _
  rw [if_pos hroom]
  rfl

/-- A new slab: its pages are mapped, its header is fresh, and all its blocks
are on its list, the first one first. -/
theorem Slab.new_spec (s : SlabAllocator) (halign : base_addr % PAGE_SIZE = 0)
    (hsize : slab_size ∈ SLAB_SIZE_CLASSES) :
    ∃ s', Slab.new base_addr slab_size (SlabMeta.new slab_size (total_blocks slab_size)) s =
        .ok ⟨base_addr, slab_size, some (block_addr base_addr slab_size 0)⟩ s' ∧
      Keeps (with_pages s base_addr MAX_SLAB_PAGES true) s' ∧
      s'.slab_meta = Function.update s.slab_meta base_addr
        (SlabMeta.new slab_size (total_blocks slab_size)) ∧
      (∀ j < total_blocks slab_size, s'.next (block_addr base_addr slab_size j) =
        if j + 1 < total_blocks slab_size then some (block_addr base_addr slab_size (j + 1))
        else none) ∧ ∀ x, (∀ j < total_blocks slab_size, x ≠ block_addr base_addr slab_size j) →
        s'.next x = s.next x := by
  have hpos := total_blocks_pos hsize
  generalize hn : total_blocks slab_size = n at hpos
  have hmapped : ∀ page, InSlab base_addr page →
      (with_pages s base_addr MAX_SLAB_PAGES true).mapped page = true :=
    fun _ hin => if_pos hin
  obtain ⟨s', hrun, hk, hmeta, hlinks, -, hother⟩ := link_blocks_spec base_addr slab_size n 0
    (s := set_slab_meta base_addr (SlabMeta.new slab_size n)
      (with_pages s base_addr MAX_SLAB_PAGES true))
    (fun j hj => (keeps_set_slab_meta _ _ _).reachable
      (block_reachable halign hmapped (by omega))) none nofun none
  rw [if_neg (by omega)] at hrun
  rw [Nat.zero_add] at hlinks hother
  refine ⟨s', ?_, (keeps_set_slab_meta _ _ _).trans hk, hmeta, fun j => hlinks j (Nat.zero_le j),
    fun x hx => hother x nofun fun j _ => hx j⟩
  unfold Slab.new
  rw [bind_of_ok (map_slab_ok s halign), hn]
  simp only [SlabMeta.new, Nat.min_self]
  rw [bind_of_ok (write_slab_meta_ok (base_reachable halign hmapped) _)]
  exact bind_of_ok hrun

/-! ## Taking a block and giving it back -/

theorem Slab.alloc_spec (hbase : s.reachable σ.base_addr = true)
    (hmagic : (s.slab_meta σ.base_addr).magic_number = MAGIC)
    (hhead : ∀ nn ∈ σ.head, s.reachable nn = true ∧ ∀ nxt ∈ s.next nn, s.reachable nxt = true) :
    σ.alloc s = .ok (none, σ) s ∧
        ((s.slab_meta σ.base_addr).total ≤ (s.slab_meta σ.base_addr).used ∨ σ.head = none) ∨
      ∃ nn s', σ.head = some nn ∧ (s.slab_meta σ.base_addr).used < (s.slab_meta σ.base_addr).total ∧
        σ.alloc s = .ok (some (user_ptr_from_meta nn), { σ with head := s.next nn }) s' ∧
        Keeps s s' ∧ s'.next = s.next ∧
        s'.slab_meta = Function.update s.slab_meta σ.base_addr
          { s.slab_meta σ.base_addr with used := (s.slab_meta σ.base_addr).used + 1 } := by
  generalize hm : s.slab_meta σ.base_addr = m at hmagic
  unfold Slab.alloc
  rw [bind_of_ok (read_slab_meta_ok hbase), hm]
  by_cases hfull : m.total ≤ m.used
  · have hfull' : m.is_full = true := decide_eq_true hfull
    refine Or.inl ⟨?_, Or.inl hfull⟩
    rw [if_pos (Or.inr hfull')]
    rfl
  rw [if_neg (by simp [hmagic, SlabMeta.is_full]; omega)]
  cases hh : σ.head with
  | none => exact Or.inl ⟨by rfl, Or.inr rfl⟩
  | some nn =>
    obtain ⟨hnn, hnxt⟩ := hhead nn hh
    refine Or.inr ?_
    dsimp only
    rw [bind_of_ok (read_block_meta_ok hnn)]
    obtain ⟨s1, hrun1, hk1, hmeta1, hnext1⟩ := update_pointee_spec (p := s.next nn) hnxt
      (f := fun nxt => { nxt with prev := none }) (fun _ => rfl)
    unfold next at hrun1
    rw [bind_of_ok hrun1, bind_of_ok (write_slab_meta_ok (hk1.reachable hbase) _)]
    rw [bind_of_ok (update_block_meta_ok
      ((keeps_set_slab_meta _ _ _).reachable (hk1.reachable hnn)) _)]
    refine ⟨nn, _, rfl, by omega, rfl, ?_, ?_, ?_⟩
    · exact (hk1.trans (keeps_set_slab_meta _ _ _)).trans (keeps_set_block_meta _ _ _)
    · exact (next_set_same (by rfl)).trans hnext1
    · unfold set_block_meta set_slab_meta
      rw [hmeta1]

/-- What `Slab::dealloc` does: the block becomes the first of the list. -/
theorem Slab.dealloc_spec (ptr : Nat) (hbase : s.reachable σ.base_addr = true)
    (hmagic : (s.slab_meta σ.base_addr).magic_number = MAGIC)
    (hused : 0 < (s.slab_meta σ.base_addr).used)
    (htotal : (s.slab_meta σ.base_addr).used ≤ (s.slab_meta σ.base_addr).total) (hptr : ptr ≠ 0)
    (hblock : s.reachable (meta_ptr_from_user ptr) = true)
    (hhead : ∀ nn ∈ σ.head, s.reachable nn = true) :
    ∃ s', σ.dealloc ptr s = .ok { σ with head := some (meta_ptr_from_user ptr) } s' ∧
      Keeps s s' ∧
      (∀ x, s'.next x = if x = meta_ptr_from_user ptr then σ.head else s.next x) ∧
      s'.slab_meta = Function.update s.slab_meta σ.base_addr
        { s.slab_meta σ.base_addr with used := (s.slab_meta σ.base_addr).used - 1 } := by
  generalize hm : s.slab_meta σ.base_addr = m at hmagic hused htotal
  unfold Slab.dealloc
  rw [bind_of_ok (read_slab_meta_ok hbase), hm,
    if_neg (by simp only [hmagic, ne_eq, not_true_eq_false, false_or]; omega)]
  rw [bind_of_ok (update_block_meta_ok hblock _)]
  generalize hs1 : set_block_meta (meta_ptr_from_user ptr) _ s = s1
  have hk1 : Keeps s s1 := by
    rw [← hs1]
    exact keeps_set_block_meta _ _ _
  obtain ⟨s2, hrun2, hk2, hmeta2, hnext2⟩ := update_pointee_spec (s := s1) (p := σ.head)
    (fun a ha => hk1.reachable (hhead a ha))
    (f := fun old_head => { old_head with prev := some (meta_ptr_from_user ptr) }) (fun _ => rfl)
  have hle : m.deallocate.used ≤ m.total := Nat.le_trans (Nat.sub_le _ _) htotal
  rw [bind_of_ok hrun2, if_pos hle,
    bind_of_ok (write_slab_meta_ok (hk2.reachable (hk1.reachable hbase)) _)]
  refine ⟨_, rfl, (hk1.trans hk2).trans (keeps_set_slab_meta _ _ _), ?_, ?_⟩
  · intro x
    change s2.next x = _
    rw [hnext2, ← hs1, next_set_block_meta]
  · unfold set_slab_meta
    rw [hmeta2, ← hs1]
    rfl

end zenos_kernel.memory.slab
