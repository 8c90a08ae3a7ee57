-- Runs of the slab heap. A slab counts the blocks that went out of its list and
-- not those that lie in it, so the call that brings its counter to zero may
-- unmap a block that is live. Runs in which this call finds the slab empty are
-- safe.
import Zenos.Memory.SlabSafety
import Zenos.Lib.Runs
import Mathlib.Algebra.Ring.Nat

namespace zenos_kernel.memory.slab

open LinkedList Outcome SlabAllocator

section Calls

variable {s s' : SlabAllocator} {G : List Entry} {live : List (Nat × Nat)} {c a n : Nat}

theorem Good.inUse_iff (g : Good s G live) :
    InUse s ↔ ∀ e ∈ G, 0 < (s.slab_meta e.1.base_addr).used := by
  unfold InUse
  rw [g.slabs, List.forall_mem_map]

/-- The header of one slab changes, and the slab is in use. -/
theorem InUse.update {b : Nat} {m : SlabMeta} (h : InUse s)
    (hmeta : s'.slab_meta = Function.update s.slab_meta b m) (hpos : 0 < m.used)
    (hbases : ∀ x ∈ s'.slabs.map Slab.base_addr, x ≠ b → x ∈ s.slabs.map Slab.base_addr) :
    InUse s' := by
  intro σ hσ
  rw [hmeta]
  by_cases hb : σ.base_addr = b
  · rw [hb, Function.update_self]
    exact hpos
  · obtain ⟨τ, hτ, heq⟩ := List.mem_map.mp (hbases _ (List.mem_map_of_mem hσ) hb)
    rw [Function.update_of_ne hb, ← heq]
    exact h τ hτ

/-- The head of a list and what comes after it lie in mapped memory. -/
theorem Good.reachable_head (g : Good s G live) {e : Entry} (he : e ∈ G) :
    ∀ nn ∈ e.1.head, s.reachable nn = true ∧ ∀ nxt ∈ s.next nn, s.reachable nxt = true := by
  have hchain := (g.entry e he).chain
  have hin : ∀ {i x}, e.2[i]? = some x → s.reachable x = true := fun h =>
    g.reachable_block (g.free_in e he _ (List.mem_of_getElem? h))
  intro nn hnn
  have hhead : e.2[0]? = some nn := hchain.head_eq.symm.trans hnn
  refine ⟨hin hhead, ?_⟩
  intro nxt hnxt
  rw [hchain.next_eq hhead] at hnxt
  exact hin hnxt

/-- What a block of the first slab of the size comes with. -/
def Allocated (s : SlabAllocator) (c : Nat) (live : List (Nat × Nat)) (ptr : Nat)
    (s' : SlabAllocator) : Prop :=
  ∃ a G', ptr = user_ptr_from_meta a ∧ Good s' G' ((a, c) :: live) ∧ (InUse s → InUse s')

/-- The first slab of the size has no free block. -/
def SlabAllocator.FirstFull (s : SlabAllocator) (c : Nat) : Prop :=
  ∀ index ∈ s.position c, ∀ σ ∈ s.slabs[index]?, σ.head = none

theorem Good.alloc_first_slab (g : Good s G live) (c : Nat) :
    Ends (alloc_first_slab c s) (fun r s' => (r = none ∧ s' = s ∧ s.FirstFull c) ∨
        ∃ ptr, r = some ptr ∧ Allocated s c live ptr s' ∧ s'.slabs.length = s.slabs.length ∧
          ¬s.FirstFull c ∧ ∀ index ∈ s.position c, ∀ σ ∈ s.slabs[index]?,
            σ.head.map user_ptr_from_meta = some ptr) (fun _ _ => False) := by
  unfold slab.alloc_first_slab FirstFull
  rw [get_bind]
  cases hpos : s.position c with
  | none => exact Or.inl ⟨rfl, rfl, nofun⟩
  | some index =>
    obtain ⟨pre, e, post, rfl, rfl, rfl, hget⟩ := g.position_split hpos
    have he := mem_middle pre post e
    simp only [Option.mem_some_iff, forall_eq', hget]
    rcases Slab.alloc_spec (g.reachable_base he) (g.entry e he).magic (g.reachable_head he) with
      ⟨hrun, hfull⟩ | ⟨nn, s', hhead, _, hrun, hk, hnext, hmeta⟩
    · rw [bind_of_ok hrun]
      refine Or.inl ⟨rfl, ?_, hfull.elim (g.entry e he).head_of_full id⟩
      -- the slab is put back as it was
      have hset : s.slabs.set pre.length e.1 = s.slabs := by
        rw [g.slabs]
        simp
      change { s with slabs := s.slabs.set pre.length e.1 } = s
      rw [hset]
    · rw [bind_of_ok hrun]
      refine Or.inr ⟨_, rfl, ?_⟩
      obtain ⟨σ, l⟩ := e
      have hchain := (g.entry (σ, l) he).chain
      rw [hhead] at hchain
      cases l with
      | nil => cases hchain
      | cons x l =>
        cases hchain.1
        have g' := g.took hk hnext hmeta
        refine ⟨⟨nn, _, rfl, g', ?_⟩, by simp [set_slab, hk.slabs],
          by rw [hhead]; nofun, by rw [hhead]; rfl⟩
        intro huse
        refine huse.update hmeta (Nat.succ_pos _) ?_
        rw [g'.bases, g.bases]
        intro x hx _
        simpa [Entry.key] using hx

theorem Good.alloc_new_slab (g : Good s G live) (hc : c ∈ SLAB_SIZE_CLASSES) :
    Ends (alloc_new_slab c s) (fun r s' => ∃ ptr, r = some ptr ∧ Allocated s c live ptr s' ∧
        ∃ b, b % PAGE_SIZE = 0 ∧ s'.slabs = s.slabs ++
          [⟨b, c, if 1 < total_blocks c then some (block_addr b c 1) else none⟩])
      (fun e _ => e = .slab_list_full ∧ MAX_SLABS ≤ s.slabs.length) := by
  unfold slab.alloc_new_slab
  obtain ⟨b, s1, hrun1, hb, hnew, hslabs1, hmeta1, hnext1, hmapped1, hslots⟩ := g.slots.take_slot
  rw [bind_of_ok hrun1]
  obtain ⟨s2, hrun2, hk2, hmeta2, hlinks2, hother2⟩ := Slab.new_spec s1 hb.aligned hc
  rw [bind_of_ok hrun2]
  have hpos := total_blocks_pos hc
  -- the first block of the new slab
  have hmapped2 : ∀ page, InSlab b page → s2.mapped page = true := by
    intro page hpage
    rw [hk2.mapped]
    exact if_pos hpage
  have hreach : ∀ j < total_blocks c, s2.reachable (block_addr b c j) = true :=
    fun j hj => block_reachable hb.aligned hmapped2 hj
  have hm2 : s2.slab_meta b = SlabMeta.new c (total_blocks c) := by
    rw [hmeta2, Function.update_self]
  rcases Slab.alloc_spec (s := s2) (σ := ⟨b, c, some (block_addr b c 0)⟩)
    (base_reachable hb.aligned hmapped2) (by rw [hm2]; rfl) (by
      rintro nn hnn
      cases hnn
      refine ⟨hreach 0 hpos, ?_⟩
      intro nxt hnxt
      rw [hlinks2 0 hpos] at hnxt
      split at hnxt
      · cases hnxt
        exact hreach 1 (by assumption)
      · cases hnxt) with ⟨_, hfull | hnone⟩ | ⟨nn, s3, hhead, _, hrun3, hk3, hnext3, hmeta3⟩
  · rw [hm2] at hfull
    unfold SlabMeta.new at hfull
    dsimp only at hfull
    omega
  · cases hnone
  cases hhead
  rw [bind_of_ok hrun3]
  dsimp only
  rw [get_bind]
  have hslabs3 : s3.slabs = s.slabs := hk3.slabs.trans (hk2.slabs.trans hslabs1)
  have hmeta : s3.slab_meta = Function.update s.slab_meta b
      { SlabMeta.new c (total_blocks c) with used := 1 } := by
    rw [hmeta3, hmeta2, hmeta1]
    simp only [Function.update_self, Function.update_idem]
    rfl
  split
  · rename_i hroom
    rw [hslabs3] at hroom
    refine ⟨_, rfl, ⟨block_addr b c 0, _, rfl, Good.fresh g hb hnew hc ?_
      (hslots _ ?_ ?_ ?_ hroom) ?_ hmeta ?_ ?_, ?_⟩, b, hb.aligned,
      by rw [hslabs3, hlinks2 0 hpos]⟩
    · rw [hslabs3]
      have hnext : (next { s3 with slabs := s3.slabs ++
          [⟨b, c, s2.next (block_addr b c 0)⟩] }) = s2.next := (next_congr rfl).trans hnext3
      rw [hslabs3] at hnext
      rw [hnext]
    · rw [hslabs3, List.map_append]
      rfl
    · exact hk3.base_addr.trans hk2.base_addr
    · exact hk3.freed_slots.trans hk2.freed_slots
    · rw [hk3.mapped, hk2.mapped]
      unfold with_pages
      rw [hmapped1]
    · intro j hj
      change s3.next _ = _
      rw [hnext3]
      exact hlinks2 j hj
    · intro x hx
      change s3.next _ = _
      rw [hnext3, hother2 x hx, hnext1]
    · intro huse
      refine huse.update hmeta Nat.one_pos ?_
      rw [hslabs3, List.map_append, List.forall_mem_append, List.map_singleton,
        List.forall_mem_singleton]
      exact ⟨fun _ hx _ => hx, fun hne => absurd rfl hne⟩
  · rename_i hfull
    exact ⟨rfl, hslabs3 ▸ Nat.not_lt.mp hfull⟩

/-! ## The sizes -/

/-- The size of the blocks for `n` bytes. -/
def size_class (n : Nat) : Nat := (SLAB_SIZE_CLASSES.find? (fun s => s ≥ n)).getD 0

/-- A layout that the slabs serve. -/
structure Layout.Valid (layout : Layout) : Prop where
  pos : 1 ≤ layout.size
  le : layout.size ≤ 4096
  align : layout.align ≤ size_class layout.size

instance (layout : Layout) : Decidable layout.Valid :=
  decidable_of_iff (1 ≤ layout.size ∧ layout.size ≤ 4096 ∧ layout.align ≤ size_class layout.size)
    ⟨fun h => ⟨h.1, h.2.1, h.2.2⟩, fun h => ⟨h.pos, h.le, h.align⟩⟩

theorem find_size_class (h : n ≤ 4096) :
    SLAB_SIZE_CLASSES.find? (fun s => s ≥ n) = some (size_class n) := by
  have hsome : (SLAB_SIZE_CLASSES.find? (fun s => s ≥ n)).isSome = true := by
    rw [List.find?_isSome]
    exact ⟨4096, by decide, by simpa using h⟩
  unfold size_class
  obtain ⟨c, hc⟩ := Option.isSome_iff_exists.mp hsome
  rw [hc]
  rfl

theorem le_size_class (h : n ≤ 4096) : n ≤ size_class n := by
  have := List.find?_some (find_size_class h)
  simpa using this

variable {layout : Layout}

theorem Layout.Valid.find (h : layout.Valid) :
    SLAB_SIZE_CLASSES.find? (fun s => s ≥ layout.size && s ≥ layout.align) =
      some (size_class layout.size) := by
  -- the first hit for the size passes the other test as well
  obtain ⟨hp, as, bs, heq, hno⟩ := List.find?_eq_some_iff_append.mp (find_size_class h.le)
  refine List.find?_eq_some_iff_append.mpr ⟨by simp [hp, h.align], as, bs, heq, ?_⟩
  intro a ha
  rw [Bool.not_and, hno a ha, Bool.true_or]

/-- `alloc` of a layout: a new live block of its size, or the list of slabs is full. -/
theorem Good.alloc (g : Good s G live) (hpos : 1 ≤ layout.size) (hle : layout.size ≤ 4096)
    (hfind : SLAB_SIZE_CLASSES.find? (fun s => s ≥ layout.size && s ≥ layout.align) = some c) :
    Ends (SlabAllocator.alloc layout s)
      (fun r s' => ∃ ptr, r = some ptr ∧ Allocated s c live ptr s' ∧
        (s.slabs.length < s'.slabs.length ↔ s.FirstFull c))
      (fun e _ => e = .slab_list_full ∧ s.FirstFull c) := by
  unfold SlabAllocator.alloc
  rw [if_neg (by omega), hfind]
  refine ends_then (g.alloc_first_slab c) (fun _ _ h => h.elim) ?_
  rintro r s1 (⟨rfl, rfl, hfull⟩ | ⟨ptr, rfl, h, hlen, hroom, -⟩)
  · refine (g.alloc_new_slab (List.mem_of_find?_eq_some hfind)).mono ?_ (fun _ _ h => ⟨h.1, hfull⟩)
    rintro _ s' ⟨ptr, rfl, h, b, -, hslabs⟩
    exact ⟨ptr, rfl, h, iff_of_true (by simp [hslabs]) hfull⟩
  · exact ⟨ptr, rfl, h, iff_of_false (by omega) hroom⟩

/-! ## The return of a block -/

/-- The blocks on the list of a slab. -/
def Slab.free_list (σ : Slab) (s : SlabAllocator) : List Nat :=
  walk s.next (total_blocks σ.slab_size) σ.head

theorem Good.size_pos (g : Good s G live) (h : BlockIn G c a) : 0 < c := by
  obtain ⟨k, hk, rfl, _⟩ := h
  obtain ⟨e, he, rfl⟩ := List.mem_map.mp hk
  have hall : ∀ n ∈ SLAB_SIZE_CLASSES, 0 < n := by decide
  exact hall _ (g.entry e he).size

/-- Where a block starts and where its bytes start is the same slab. -/
theorem Good.within_iff (g : Good s G live) (h : BlockIn G c a) {e : Entry} (he : e ∈ G) :
    Within e.1.base_addr (user_ptr_from_meta a) ↔ Within e.1.base_addr a := by
  have hc := g.size_pos h
  obtain ⟨k, hk, _, hlo, hhi⟩ := h.within
  have hslot := g.isSlot (mem_key he)
  rw [Entry.key_fst] at hslot
  unfold user_ptr_from_meta Within
  by_cases hsame : k.1 = e.1.base_addr
  · omega
  · have := (g.isSlot hk).apart hslot hsame
    omega

theorem getElem?_sides {pre post : List Entry} {e d : Entry} (hd : d ∈ pre ++ post) :
    ∃ j < ((pre ++ e :: post).map Prod.fst).length, j ≠ pre.length ∧
      ((pre ++ e :: post).map Prod.fst)[j]? = some d.1 := by
  have hmem : d.1 ∈ ((pre ++ e :: post).map Prod.fst).eraseIdx pre.length := by
    simpa [List.eraseIdx_append_of_length_le] using List.mem_map_of_mem (f := Prod.fst) hd
  obtain ⟨j, hne, hj⟩ := List.mem_eraseIdx_iff_getElem?.mp hmem
  exact ⟨j, (List.getElem?_eq_some_iff.mp hj).1, hne, hj⟩

/-- What must hold before a block goes back: if this call brings the counter of
the slab that it picks to zero, no other live block lies in that slab, and no
block on the list of another slab does. `live` are the pointers of the blocks
that stay. -/
def SlabAllocator.Careful (s : SlabAllocator) (live : List Nat) (layout : Layout) : Prop :=
  ∀ index ∈ s.position (size_class layout.size), ∀ σ ∈ s.slabs[index]?,
    (s.slab_meta σ.base_addr).used = 1 →
      (∀ ptr ∈ live, ¬Within σ.base_addr ptr) ∧
      ∀ j < s.slabs.length, j ≠ index → ∀ τ ∈ s.slabs[j]?, ∀ x ∈ τ.free_list s,
        ¬Within σ.base_addr x

instance (s : SlabAllocator) (live : List Nat) (layout : Layout) :
    Decidable (s.Careful live layout) := inferInstanceAs (Decidable (∀ index ∈ _, _))

/-- What a block that went back leaves: the blocks of `live`, and every page
that is gone lies in no slab with a live block. -/
def Returned (s : SlabAllocator) (live : List (Nat × Nat)) (s' : SlabAllocator) : Prop :=
  ∃ G', Good s' G' live ∧ InUse s' ∧
    ∀ page, s.mapped page = true → s'.mapped page = false →
      ∃ b, IsSlot b ∧ InSlab b page ∧ ∀ x ∈ live, ¬Within b (user_ptr_from_meta x.1)

theorem Good.dealloc (g : Good s G ((a, c) :: live)) (huse : InUse s) (hl : layout.Valid)
    (hc : c = size_class layout.size)
    (hcare : s.Careful (live.map (fun b => user_ptr_from_meta b.1)) layout) :
    Ends (SlabAllocator.dealloc (user_ptr_from_meta a) layout s) (fun _ s' => Returned s live s')
      (fun _ _ => False) := by
  have hblock : BlockIn G c a := g.live_in (a, c) (by simp)
  obtain ⟨index, hindex⟩ := g.position_some hblock
  obtain ⟨pre, e, post, rfl, rfl, hsize, hget⟩ := g.position_split hindex
  have he := mem_middle pre post e
  have hptr : user_ptr_from_meta a ≠ 0 := by
    unfold user_ptr_from_meta size_of_block_meta
    omega
  have hmeta_ptr : meta_ptr_from_user (user_ptr_from_meta a) = a := by
    unfold meta_ptr_from_user user_ptr_from_meta
    omega
  have ge := g.entry e he
  have hused : 0 < (s.slab_meta e.1.base_addr).used := (g.inUse_iff.mp huse) e he
  have hcount := ge.count
  unfold SlabAllocator.dealloc
  rw [get_bind, if_neg hptr, find_size_class hl.le]
  dsimp only
  rw [← hc, hindex]
  dsimp only
  rw [hget]
  dsimp only
  obtain ⟨s1, hrun, hk, hnext, hmeta⟩ := Slab.dealloc_spec (user_ptr_from_meta a)
    (g.reachable_base he) ge.magic hused (by rw [ge.total]; omega) hptr
    (by rw [hmeta_ptr]; exact g.reachable_block hblock) (fun nn hnn => (g.reachable_head he nn hnn).1)
  rw [hmeta_ptr] at hrun hnext
  rw [bind_of_ok hrun, modify_bind]
  obtain ⟨σ, l⟩ := e
  dsimp only at hsize hget hused hmeta hnext ⊢
  subst hsize
  have g1 := g.gave hused hk hnext hmeta
  -- the slab is the first of its size still
  generalize hs2 : s1.set_slab pre.length { σ with head := some a } = s2 at g1
  have hmeta2 : s2.slab_meta = s1.slab_meta := by
    rw [← hs2]
    rfl
  have hmapped2 : s2.mapped = s.mapped := by
    rw [← hs2]
    exact hk.mapped
  rw [bind_of_ok (read_slab_meta_ok (g1.reachable_base (mem_middle pre post _)))]
  dsimp only
  have huse2 : ∀ d ∈ pre ++ post, 0 < (s2.slab_meta d.1.base_addr).used := by
    intro d hd
    rw [hmeta2, hmeta, Function.update_of_ne (g.base_ne hd)]
    exact g.inUse_iff.mp huse d (mem_sides _ hd)
  have hself : (s2.slab_meta σ.base_addr).used = (s.slab_meta σ.base_addr).used - 1 := by
    rw [hmeta2, hmeta, Function.update_self]
  split
  · obtain ⟨hcare_live, hcare_free⟩ := hcare pre.length (hc ▸ hindex) σ hget (by omega)
    -- no live block and no other list reaches into the slab
    have hlive : ∀ b ∈ live, ¬Within σ.base_addr b.1 := by
      intro b hb
      have hbin := g.live_in b (by simp [hb])
      rw [← g.within_iff hbin he]
      exact hcare_live _ (List.mem_map.mpr ⟨b, hb, rfl⟩)
    have hfree : ∀ d ∈ pre ++ post, ∀ x ∈ d.2, ¬Within σ.base_addr x := by
      intro d hd x hx
      obtain ⟨j, hj, hne, hjd⟩ := getElem?_sides (e := (σ, l)) hd
      rw [← g.slabs] at hj hjd
      refine hcare_free j hj hne d.1 hjd x ?_
      change x ∈ walk _ _ _
      rw [g.walk_eq (mem_sides _ hd)]
      exact hx
    obtain ⟨G', g', hsub⟩ := g1.released hlive hfree
    have hslot : IsSlot σ.base_addr := g.isSlot (mem_key he)
    have hpages : ∀ page, InSlab σ.base_addr page → s2.mapped page = true :=
      (g1.entry _ (mem_middle pre post _)).mapped
    have hroom : s2.freed_slots.length < MAX_SLABS := by
      have hcount2 := g1.slots.count
      rw [g1.slabs] at hcount2
      simp only [List.length_map, List.length_append, List.length_cons] at hcount2
      omega
    rw [release_slab_ok (σ := { σ with head := some a }) pre.length hslot.aligned hpages hroom]
    refine ⟨G', g', ?_, ?_⟩
    · rw [g'.inUse_iff]
      intro d hd
      exact huse2 d (hsub d hd)
    · intro page hbefore hafter
      refine ⟨σ.base_addr, hslot, ?_, fun b hb => hcare_live _ (List.mem_map.mpr ⟨b, hb, rfl⟩)⟩
      by_contra hout
      have hkept := mapped_with_pages_out s2 false hout
      rw [hmapped2, hbefore] at hkept
      have hstill : (s2.without pre.length σ.base_addr).mapped page = true := hkept
      exact Bool.noConfusion (hstill.symm.trans hafter)
  · rename_i hzero
    refine ⟨_, g1, ?_, ?_⟩
    · rw [List.forall_mem_append] at huse2
      rw [g1.inUse_iff, List.forall_mem_append, List.forall_mem_cons]
      exact ⟨huse2.1, Nat.pos_of_ne_zero hzero, huse2.2⟩
    · intro page hbefore hafter
      rw [hmapped2, hbefore] at hafter
      cases hafter

end Calls

/-! ## Runs -/

/-- The allocator together with the live blocks, by pointer and layout. -/
structure Tracked where
  heap : SlabAllocator
  live : List (Nat × Layout)

inductive Call
  | alloc (layout : Layout)
  | dealloc (ptr : Nat) (layout : Layout)
  deriving DecidableEq, Repr

namespace Tracked

def start : Tracked := ⟨SlabAllocator.new, []⟩

/-- One call. `none` is a panic, or a call that no user of the heap makes: a
layout that the slabs do not serve, or the return of a block that is not live. -/
def step (t : Tracked) : Call → Option Tracked
  | .alloc layout =>
    if layout.Valid then
      match SlabAllocator.alloc layout t.heap with
      | .ok (some ptr) s => some ⟨s, (ptr, layout) :: t.live⟩
      | .ok none s => some ⟨s, t.live⟩
      | .error _ _ => none
    else none
  | .dealloc ptr layout =>
    if (ptr, layout) ∈ t.live then
      match SlabAllocator.dealloc ptr layout t.heap with
      | .ok () s => some ⟨s, t.live.erase (ptr, layout)⟩
      | .error _ _ => none
    else none

/-- The condition on a call, in the state before it. -/
def Careful (t : Tracked) : Call → Prop
  | .alloc _ => True
  | .dealloc ptr layout => t.heap.Careful ((t.live.erase (ptr, layout)).map Prod.fst) layout

instance (t : Tracked) : ∀ c, Decidable (t.Careful c)
  | .alloc _ => isTrue trivial
  | .dealloc _ _ => inferInstanceAs (Decidable (SlabAllocator.Careful _ _ _))

def run (t : Tracked) (calls : List Call) : Option Tracked := calls.foldlM step t

/-- A run of calls that all meet the condition. -/
def CarefulSteps : Tracked → Tracked → Prop :=
  Relation.ReflTransGen (fun t t' => ∃ c, t.Careful c ∧ t.step c = some t')

/-- The header of a live block, with the size of its slab. -/
def block (b : Nat × Layout) : Nat × Nat := (meta_ptr_from_user b.1, size_class b.2.size)

/-- The invariant of a run. -/
structure Sound (t : Tracked) : Prop where
  good : ∃ G, Good t.heap G (t.live.map block)
  in_use : InUse t.heap
  layouts : ∀ b ∈ t.live, b.2.Valid ∧ size_of_block_meta ≤ b.1

theorem sound_start : Sound start where
  good := by
    refine ⟨[], rfl, ⟨rfl, by decide, by simp [start, new], ?_⟩, nofun, nofun, nofun,
      by simp [start]⟩
    intro b hb
    simp [start, new] at hb
  in_use := nofun
  layouts := nofun

variable {t t' : Tracked} {layout : Layout}

theorem Sound.alloc (h : t.Sound) (hl : layout.Valid) : Ends (SlabAllocator.alloc layout t.heap)
      (fun r s' => ∃ ptr, r = some ptr ∧ Sound ⟨s', (ptr, layout) :: t.live⟩)
      (fun e _ => e = .slab_list_full) := by
  obtain ⟨G, g⟩ := h.good
  refine (g.alloc hl.pos hl.le hl.find).mono ?_ (fun _ _ h => h.1)
  rintro r s' ⟨ptr, rfl, ⟨a, G', rfl, g', huse⟩, -⟩
  refine ⟨_, rfl, ⟨G', ?_⟩, huse h.in_use, ?_⟩
  · exact g'
  · exact List.forall_mem_cons.mpr ⟨⟨hl, Nat.le_add_left _ _⟩, h.layouts⟩

theorem user_ptr_of_block {b : Nat × Layout} (h : size_of_block_meta ≤ b.1) :
    user_ptr_from_meta (block b).1 = b.1 := by
  exact Nat.sub_add_cancel h

theorem Sound.dealloc (h : t.Sound) {ptr : Nat} (hmem : (ptr, layout) ∈ t.live)
    (hcare : t.Careful (.dealloc ptr layout)) : Ends (SlabAllocator.dealloc ptr layout t.heap)
      (fun _ s' => Sound ⟨s', t.live.erase (ptr, layout)⟩ ∧
        ∀ page, t.heap.mapped page = true → s'.mapped page = false →
          ∃ base, IsSlot base ∧ InSlab base page ∧
            ∀ b ∈ t.live.erase (ptr, layout), ¬Within base b.1) (fun _ _ => False) := by
  obtain ⟨G, g⟩ := h.good
  have hperm : t.live.Perm ((ptr, layout) :: t.live.erase (ptr, layout)) :=
    List.perm_cons_erase hmem
  have hl := h.layouts _ hmem
  have hrest : ∀ b ∈ t.live.erase (ptr, layout), b ∈ t.live := fun b hb => List.mem_of_mem_erase hb
  have g1 := g.perm_live (hperm.map block)
  have hptr : user_ptr_from_meta (meta_ptr_from_user ptr) = ptr :=
    user_ptr_of_block (b := (ptr, layout)) hl.2
  have hlive : ((t.live.erase (ptr, layout)).map block).map (fun b => user_ptr_from_meta b.1) =
      (t.live.erase (ptr, layout)).map Prod.fst := by
    rw [List.map_map]
    refine List.map_congr_left ?_
    intro b hb
    exact user_ptr_of_block (h.layouts b (hrest b hb)).2
  have hdealloc := g1.dealloc h.in_use hl.1 rfl (by rw [hlive]; exact hcare)
  rw [hptr] at hdealloc
  refine hdealloc.mono_ok ?_
  rintro _ s' ⟨G', g', huse', hgone⟩
  refine ⟨⟨⟨G', g'⟩, huse', fun b hb => h.layouts b (hrest b hb)⟩, ?_⟩
  intro page hbefore hafter
  obtain ⟨base, hslot, hin, hnone⟩ := hgone page hbefore hafter
  refine ⟨base, hslot, hin, ?_⟩
  intro b hb
  rw [← user_ptr_of_block (h.layouts b (hrest b hb)).2]
  exact hnone _ (List.mem_map_of_mem hb)

theorem Sound.step (h : t.Sound) {c : Call} (hcare : t.Careful c) (hstep : t.step c = some t') :
    t'.Sound := by
  cases c with
  | alloc layout =>
    unfold Tracked.step at hstep
    dsimp only at hstep
    split at hstep
    · rename_i hl
      have hends := h.alloc hl
      generalize SlabAllocator.alloc layout t.heap = r at hstep hends
      cases r with
      | error e s' => cases hstep
      | ok r s' =>
        obtain ⟨ptr, rfl, hsound⟩ := hends
        cases hstep
        exact hsound
    · cases hstep
  | dealloc ptr layout =>
    unfold Tracked.step at hstep
    dsimp only at hstep
    split at hstep
    · rename_i hmem
      obtain ⟨_, s', hr, hsound, _⟩ := (h.dealloc hmem hcare).returns
      rw [hr] at hstep
      cases hstep
      exact hsound
    · cases hstep

theorem sound_of_steps (h : CarefulSteps start t) : t.Sound := by
  induction h with
  | refl => exact sound_start
  | tail _ hstep ih =>
    obtain ⟨c, hcare, hc⟩ := hstep
    exact ih.step hcare hc

/-- The bytes of two blocks do not overlap. -/
def Apart (b b' : Nat × Layout) : Prop := b.1 + b.2.size ≤ b'.1 ∨ b'.1 + b'.2.size ≤ b.1

theorem Sound.pairwise (h : t.Sound) : t.live.Pairwise Apart := by
  obtain ⟨G, g⟩ := h.good
  have hnodup := (List.nodup_append.mp g.nodup).1
  rw [List.map_map] at hnodup
  refine (List.pairwise_map.mp hnodup).imp_of_mem ?_
  intro b b' hb hb' hne
  have hl := h.layouts b hb
  have hl' := h.layouts b' hb'
  have hapart := g.blocks_apart (g.live_in _ (List.mem_map_of_mem hb))
    (g.live_in _ (List.mem_map_of_mem hb')) hne
  have hsize := le_size_class hl.1.le
  have hsize' := le_size_class hl'.1.le
  have hptr := user_ptr_of_block hl.2
  have hptr' := user_ptr_of_block hl'.2
  unfold Apart
  unfold user_ptr_from_meta at hptr hptr'
  unfold block at hapart hptr hptr'
  omega

/-- The bytes of a live block lie in the pages of one slab, and they are mapped. -/
theorem Sound.inside (h : t.Sound) {b : Nat × Layout} (hb : b ∈ t.live) :
    ∃ σ ∈ t.heap.slabs, σ.base_addr ≤ b.1 ∧ b.1 + b.2.size ≤ σ.base_addr + SLAB_BYTES ∧
      ∀ x, b.1 ≤ x → x < b.1 + b.2.size → t.heap.mapped (x / PAGE_SIZE) = true := by
  obtain ⟨G, g⟩ := h.good
  have hl := h.layouts b hb
  obtain ⟨k, hk, hc, hlo, hhi⟩ := (g.live_in _ (List.mem_map_of_mem hb)).within
  have hslot := g.isSlot hk
  obtain ⟨e, he, rfl⟩ := List.mem_map.mp hk
  have hsize := le_size_class hl.1.le
  have hptr := user_ptr_of_block hl.2
  unfold user_ptr_from_meta at hptr
  have hclass : (block b).2 = size_class b.2.size := rfl
  rw [Entry.key_fst] at hlo hhi hslot
  have halign := hslot.aligned
  refine ⟨e.1, ?_, by omega, by omega, ?_⟩
  · rw [g.slabs]
    exact List.mem_map_of_mem he
  · intro x hx1 hx2
    refine (g.entry e he).mapped _ ?_
    unfold InSlab
    unfold SLAB_BYTES at hhi
    unfold PAGE_SIZE PAGE_4K at *
    omega

/-- In every run that is careful at each return of a block: the live blocks do
not overlap and lie in mapped pages of slabs, `alloc` returns no live block, and
a page that a return unmaps is one of a slab without a live block. -/
theorem heap_is_safe (hrun : CarefulSteps start t) :
    t.live.Pairwise Apart ∧ (∀ b ∈ t.live, ∃ σ ∈ t.heap.slabs, σ.base_addr ≤ b.1 ∧
      b.1 + b.2.size ≤ σ.base_addr + SLAB_BYTES ∧
      ∀ x, b.1 ≤ x → x < b.1 + b.2.size → t.heap.mapped (x / PAGE_SIZE) = true) ∧
    (∀ layout ptr s', layout.Valid → SlabAllocator.alloc layout t.heap = .ok (some ptr) s' →
      ∀ b ∈ t.live, Apart b (ptr, layout) ∧ b.1 ≠ ptr) ∧
    (∀ ptr layout s', (ptr, layout) ∈ t.live → t.Careful (.dealloc ptr layout) →
      SlabAllocator.dealloc ptr layout t.heap = .ok () s' →
      ∀ page, t.heap.mapped page = true → s'.mapped page = false →
        ∃ base, IsSlot base ∧ InSlab base page ∧
          ∀ b ∈ t.live.erase (ptr, layout), ¬Within base b.1) := by
  have hsound := sound_of_steps hrun
  refine ⟨hsound.pairwise, fun b hb => hsound.inside hb, ?_, ?_⟩
  · intro layout ptr s' hl halloc b hb
    obtain ⟨ptr', hptr, hsound'⟩ := (hsound.alloc hl).of_ok halloc
    cases hptr
    have hapart := (List.pairwise_cons.mp hsound'.pairwise).1 b hb
    have hpos := hl.pos
    have hpos' := (hsound.layouts b hb).1.pos
    unfold Apart at hapart ⊢
    dsimp only at hapart ⊢
    omega
  · intro ptr layout s' hmem hcare hdealloc
    exact ((hsound.dealloc hmem hcare).of_ok hdealloc).2

/-- The calls one after the other, as long as each meets the condition. -/
def careful_run (t : Tracked) (calls : List Call) : Option Tracked :=
  calls.foldlM (Runs.guarded Careful step) t

/-- The state after a run of calls, if none of them panics. -/
def after (calls : List Call) : Tracked := (start.run calls).getD start

def block_4096 : Layout := ⟨4096, 8⟩

/-- Two blocks of one slab, the first of which goes back. -/
def two_blocks : List Call :=
  (.alloc block_4096) :: (.alloc block_4096) ::
    ((after [.alloc block_4096]).live.map (fun b => .dealloc b.1 b.2))

theorem two_blocks_runs : (start.careful_run two_blocks).isSome = true := by decide +kernel

theorem two_blocks_are_safe :
    ∃ t, start.careful_run two_blocks = some t ∧ t.live.length = 1 ∧ t.live.Pairwise Apart ∧
      ∀ b ∈ t.live, t.heap.mapped (b.1 / PAGE_SIZE) = true := by
  have hrun : start.careful_run two_blocks =
      some ((start.careful_run two_blocks).get two_blocks_runs) :=
    (Option.some_get _).symm
  have hsafe := heap_is_safe (Runs.steps_of_guarded hrun)
  refine ⟨_, hrun, by decide +kernel, hsafe.1, ?_⟩
  intro b hb
  have hsize : 0 < b.2.size := by
    have hall : ∀ b ∈ ((start.careful_run two_blocks).get two_blocks_runs).live,
        0 < b.2.size := by decide +kernel
    exact hall b hb
  obtain ⟨_, _, _, _, hmapped⟩ := hsafe.2.1 b hb
  exact hmapped b.1 (Nat.le_refl _) (by omega)

/-- Fifteen blocks of the largest class: fourteen fill the first slab. -/
def fifteen_blocks : List Call := List.replicate 15 (.alloc block_4096)

/-- All of them but the first go back, the last one before the others. -/
def fourteen_returns : List Call :=
  ((after fifteen_blocks).live.take 14).map (fun b => .dealloc b.1 b.2)

/-- The first block is live, and its page is not mapped. -/
theorem live_block_unmapped :
    ∃ t, start.run (fifteen_blocks ++ fourteen_returns) = some t ∧
      ∃ b ∈ t.live, t.heap.mapped (b.1 / PAGE_SIZE) = false := by
  have hany : ((start.run (fifteen_blocks ++ fourteen_returns)).any
      (fun t => t.live.any (fun b => !t.heap.mapped (b.1 / PAGE_SIZE)))) = true := by
    decide +kernel
  obtain ⟨t, hrun, hany⟩ := (Option.any_eq_true _ _).mp hany
  obtain ⟨b, hb, hpage⟩ := List.any_eq_true.mp hany
  exact ⟨t, hrun, b, hb, by simpa using hpage⟩

/-! ## Alignment -/

/-- After every careful run, a block for the layout starts at a multiple of its alignment. -/
def Aligns (layout : Layout) : Prop :=
  ∀ t ptr s', CarefulSteps start t → SlabAllocator.alloc layout t.heap = .ok (some ptr) s' →
    layout.align ∣ ptr

theorem powers : ∀ k ≤ 12, (2 ^ k ∣ 32 ∨ 64 ∣ 2 ^ k) ∧ 2 ^ k ∣ 4096 ∧
    ∀ c ∈ SLAB_SIZE_CLASSES, 2 ^ k ≤ c → 2 ^ k ∣ c := by
  decide

theorem large_classes : ∀ c ∈ SLAB_SIZE_CLASSES, 64 ≤ c → Layout.Valid ⟨c, 1⟩ ∧
    size_class c = c ∧ 1 < total_blocks c ∧ c % 64 = 0 := by
  decide

/-- The second block of a slab, with two headers in front of it and one block. -/
theorem second_block {c : Nat} (hc : c ∈ SLAB_SIZE_CLASSES) (h64 : 64 ≤ c) :
    ∃ t ptr s', CarefulSteps start t ∧ alloc_first_slab c t.heap = .ok (some ptr) s' ∧
      ptr % 64 = 32 := by
  obtain ⟨hvalid, hsize, hblocks, hmod⟩ := large_classes c hc h64
  obtain ⟨G, g⟩ := sound_start.good
  -- the first one is from a new slab
  have hnew := g.alloc_new_slab hc
  have hfirst : SlabAllocator.alloc ⟨c, 1⟩ start.heap = alloc_new_slab c start.heap := by
    unfold SlabAllocator.alloc
    rw [if_neg (not_or.mpr ⟨Nat.ne_of_gt hvalid.pos, Nat.not_lt.mpr hvalid.le⟩), hvalid.find, hsize]
    rfl
  cases hrun : alloc_new_slab c start.heap with
  | error e s =>
    rw [hrun] at hnew
    exact absurd hnew.2 (by decide)
  | ok r s =>
    obtain ⟨ptr, rfl, ⟨a, G', -, g', -⟩, b, hb, hslabs⟩ := hnew.of_ok hrun
    rw [if_pos hblocks] at hslabs
    have hposition : s.position c = some 0 := by simp [SlabAllocator.position, hslabs, start, new]
    have hstep : start.step (.alloc ⟨c, 1⟩) = some ⟨s, [(ptr, ⟨c, 1⟩)]⟩ := by
      simp only [step, if_pos hvalid, hfirst, hrun]
      rfl
    have hsecond := g'.alloc_first_slab c
    cases hrun' : alloc_first_slab c s with
    | error e s' =>
      rw [hrun'] at hsecond
      exact hsecond.elim
    | ok r s' =>
      rcases hsecond.of_ok hrun' with ⟨-, -, hfull⟩ | ⟨ptr', rfl, -, -, -, hptr⟩
      · have hnone := hfull 0 hposition
        simp [hslabs, start, new] at hnone
      · have hptr' := hptr 0 hposition
        refine ⟨_, ptr', s', .single ⟨.alloc ⟨c, 1⟩, trivial, hstep⟩, hrun', ?_⟩
        simp only [hslabs, start, new, List.nil_append, List.getElem?_cons_zero, Option.mem_some_iff,
          forall_eq', Option.map_some, Option.some.injEq] at hptr'
        rw [← hptr']
        unfold user_ptr_from_meta block_addr size_of_block_meta size_of_slab_meta
        unfold PAGE_SIZE PAGE_4K at hb
        omega

/-- The headers are of 32 bytes, so larger alignments are not kept. -/
theorem blocks_are_aligned_iff {k : Nat} (hpos : 1 ≤ layout.size) (hle : layout.size ≤ 4096)
    (hk : k ≤ 12) (halign : layout.align = 2 ^ k) : Aligns layout ↔ layout.align ≤ 32 := by
  obtain ⟨hheader, hpage, hclass⟩ := powers k hk
  have hmax := Nat.le_of_dvd (by decide) hpage
  have hsome : (SLAB_SIZE_CLASSES.find? (fun s => s ≥ layout.size && s ≥ layout.align)).isSome :=
    List.find?_isSome.mpr ⟨4096, by decide, by simp [hle, halign, hmax]⟩
  obtain ⟨c, hfind⟩ := Option.isSome_iff_exists.mp hsome
  have hmem := List.mem_of_find?_eq_some hfind
  have hge : layout.size ≤ c ∧ layout.align ≤ c := by simpa using List.find?_some hfind
  rw [halign] at hge ⊢
  have hdvd := hclass c hmem hge.2
  rcases hheader with h32 | h64
  · refine iff_of_true ?_ (Nat.le_of_dvd (by decide) h32)
    intro t ptr s' hrun halloc
    obtain ⟨G, g⟩ := (sound_of_steps hrun).good
    obtain ⟨_, hsome, ⟨a, G', rfl, g', -⟩, -⟩ := (g.alloc hpos hle hfind).of_ok halloc
    cases hsome
    obtain ⟨b, hb, -, i, -, hi⟩ := g'.live_in (a, c) List.mem_cons_self
    have hbase := Nat.dvd_of_mod_eq_zero (g'.isSlot hb).aligned
    rw [halign, show a = block_addr b.1 c i from hi]
    exact Nat.dvd_add (Nat.dvd_add (Nat.dvd_add (Nat.dvd_trans hpage hbase) h32)
      (Nat.dvd_mul_left_of_dvd (Nat.dvd_add h32 hdvd) i)) h32
  · have h64' := Nat.le_of_dvd (Nat.two_pow_pos k) h64
    refine iff_of_false ?_ (by omega)
    intro h
    obtain ⟨t, ptr, s', hrun, hr, hmod⟩ := second_block hmem (Nat.le_trans h64' hge.2)
    have hptr := h t _ s' hrun (by
      unfold SlabAllocator.alloc
      rw [if_neg (by omega), hfind]
      exact bind_of_ok hr)
    rw [halign] at hptr
    have hptr64 := Nat.dvd_trans h64 hptr
    omega

theorem small_alignments_are_kept : Aligns ⟨24, 16⟩ :=
  (blocks_are_aligned_iff (k := 4) (by decide) (by decide) (by decide) rfl).mpr (by decide)

theorem a_page_is_not_aligned :
    ∃ ptr s', SlabAllocator.alloc ⟨4096, 4096⟩ start.heap = .ok (some ptr) s' ∧ ¬ 4096 ∣ ptr := by
  have hrun : passes (SlabAllocator.alloc ⟨4096, 4096⟩ start.heap)
      (fun r _ => r == some (SLAB_BASE_ADDR + 64)) = true := by decide +kernel
  obtain ⟨r, s', hr, htest⟩ := exists_of_passes hrun
  cases eq_of_beq htest
  exact ⟨_, s', hr, by decide⟩

/-! ## New slabs -/

/-- `alloc` adds a slab, or panics because the list of slabs is full. -/
def Grows (layout : Layout) (s : SlabAllocator) : Prop :=
  match SlabAllocator.alloc layout s with
  | .ok _ s' => s.slabs.length < s'.slabs.length
  | .error e _ => e = .slab_list_full

/-- No slab of the size has a free block. -/
def Full (s : SlabAllocator) (c : Nat) : Prop := ∀ σ ∈ s.slabs, σ.slab_size = c → σ.head = none

/-- Only the first slab of the size is asked for a block. -/
theorem grows_when_full_iff {c : Nat} (hrun : CarefulSteps start t) (hpos : 1 ≤ layout.size)
    (hle : layout.size ≤ 4096)
    (hfind : SLAB_SIZE_CLASSES.find? (fun s => s ≥ layout.size && s ≥ layout.align) = some c) :
    (Grows layout t.heap → Full t.heap c) ↔ (t.heap.FirstFull c → Full t.heap c) := by
  obtain ⟨G, g⟩ := (sound_of_steps hrun).good
  have hends := g.alloc hpos hle hfind
  have hgrows : Grows layout t.heap ↔ t.heap.FirstFull c := by
    unfold Grows
    revert hends
    cases SlabAllocator.alloc layout t.heap with
    | ok r s' =>
      rintro ⟨-, -, -, hiff⟩
      exact hiff
    | error e s' => exact fun hends => iff_of_true hends.1 hends.2
  rw [hgrows]

theorem not_full {s : SlabAllocator} {c : Nat}
    (h : s.slabs.any (fun σ => σ.slab_size == c && σ.head.isSome) = true) : ¬Full s c := by
  obtain ⟨σ, hσ, hfree⟩ := List.any_eq_true.mp h
  intro hfull
  simp only [Bool.and_eq_true, beq_iff_eq] at hfree
  rw [hfull σ hσ hfree.1] at hfree
  cases hfree.2

/-- The first block goes back to its slab, which was full. -/
def first_return : List Call :=
  ((after fifteen_blocks).live.drop 14).map (fun b => .dealloc b.1 b.2)

/-- Both slabs have free blocks, and the next block is from the first one. -/
theorem a_returned_block_is_found :
    ∃ t, start.careful_run (fifteen_blocks ++ first_return) = some t ∧
      t.heap.slabs.length = 2 ∧ ¬Full t.heap 4096 ∧ ¬Grows block_4096 t.heap := by
  have hany : ((start.careful_run (fifteen_blocks ++ first_return)).any fun t =>
      t.heap.slabs.length == 2 &&
        t.heap.slabs.any (fun σ => σ.slab_size == 4096 && σ.head.isSome) &&
        (t.heap.position 4096).any (fun index => t.heap.slabs[index]?.any (·.head.isSome))) =
          true := by
    decide +kernel
  obtain ⟨t, hrun, htest⟩ := (Option.any_eq_true _ _).mp hany
  simp only [Bool.and_eq_true, beq_iff_eq] at htest
  obtain ⟨⟨hlen, hfree⟩, hfirst⟩ := htest
  have hgrows : (Grows block_4096 t.heap → Full t.heap 4096) ↔
      (t.heap.FirstFull 4096 → Full t.heap 4096) :=
    grows_when_full_iff (Runs.steps_of_guarded hrun) (by decide) (by decide) rfl
  refine ⟨t, hrun, hlen, not_full hfree, fun h => not_full hfree (hgrows.mpr ?_ h)⟩
  obtain ⟨index, hindex, hhead⟩ := (Option.any_eq_true _ _).mp hfirst
  obtain ⟨σ, hσ, hsome⟩ := (Option.any_eq_true _ _).mp hhead
  intro hfull
  rw [hfull index hindex σ hσ] at hsome
  cases hsome

/-- The second slab has thirteen free blocks, and the next block is from a third one. -/
theorem free_blocks_passed_over : ∃ t, start.run fifteen_blocks = some t ∧
    Grows block_4096 t.heap ∧ ¬Full t.heap 4096 := by
  have hany : ((start.run fifteen_blocks).any (fun t =>
      passes (SlabAllocator.alloc block_4096 t.heap) (fun _ s' =>
        t.heap.slabs.length < s'.slabs.length) &&
      t.heap.slabs.any (fun σ => σ.slab_size == 4096 && σ.head.isSome))) = true := by
    decide +kernel
  obtain ⟨t, hrun, htest⟩ := (Option.any_eq_true _ _).mp hany
  obtain ⟨hpass, hfree⟩ := Bool.and_eq_true_iff.mp htest
  obtain ⟨r, s', hr, hlen⟩ := exists_of_passes hpass
  refine ⟨t, hrun, ?_, not_full hfree⟩
  unfold Grows
  rw [hr]
  exact of_decide_eq_true hlen

end Tracked

end zenos_kernel.memory.slab
