-- The frames that a disk transfer takes and gives back. The buffer of a chunk is freed on every way
-- out, the page of a command is not.
import Zenos.Disk.AhciDriver

namespace zenos_kernel.disk.block.ahci

open Bytes Outcome
open memory (KernelMemory MapErr)
open memory.KernelMemory (DmaBuf TookPage page_at)

/-- The functions of the kernel, with room for `stack` calls of `kalloc_dma_pages` in each other. -/
def kernelDma (stack : Nat) : DmaOps KernelMemory where
  kalloc_dma_pages := KernelMemory.kalloc_dma_pages stack
  kfree_dma_pages := KernelMemory.kfree_dma_pages
  virt_to_phys m addr := m.translate_addr (addr / memory.PAGE_4K)

/-- The free frames are the same, but for those that became tables. -/
def Conserved (m m' : KernelMemory) : Prop := m'.free ∪ (m'.tables \ m.tables) = m.free

/-! ## Counting -/

/-- The frames that are free or tables. -/
def frames (m : KernelMemory) : Nat := m.free.card + m.tables.card

/-- At most `z` frames have come back, and no table was given up. -/
structure Gained (z : Int) (m m' : KernelMemory) : Prop where
  tables : m.tables ⊆ m'.tables
  count : (frames m' : Int) ≤ frames m + z

variable {m m' : KernelMemory} {dma : DmaOps KernelMemory}

theorem gained_of_eq (hfree : m'.free = m.free) (htables : m'.tables = m.tables) :
    Gained 0 m m' := by
  refine ⟨by rw [htables], ?_⟩
  unfold frames
  rw [hfree, htables]
  omega

theorem gained_fetch_add (m : KernelMemory) (n : Nat) : Gained 0 m (m.fetch_add n) :=
  gained_of_eq rfl rfl

theorem Gained.trans {y z : Int} {m'' : KernelMemory} (h : Gained y m m') (h' : Gained z m' m'') :
    Gained (y + z) m m'' := by
  have hc := h.count
  have hc' := h'.count
  exact ⟨h.tables.trans h'.tables, by omega⟩

theorem Gained.le {y z : Int} (h : Gained y m m') (hle : y ≤ z) : Gained z m m' := by
  have hc := h.count
  exact ⟨h.tables, by omega⟩

/-- With a frame less the free frames are not the same. -/
theorem Gained.not_conserved (h : Gained (-1) m m') : ¬ Conserved m m' := by
  intro hcons
  have hfree : m.free.card ≤ m'.free.card + (m'.tables \ m.tables).card := by
    rw [← hcons]
    exact Finset.card_union_le _ _
  have htables := Finset.card_sdiff_add_card_eq_card h.tables
  have hcount := h.count
  unfold frames at hcount
  omega

theorem TookPage.gained {p frame n : Nat} (h : TookPage (m.fetch_add n) m' p frame) :
    Gained (-1) m m' := by
  have hcount := h.count
  refine ⟨h.tables, ?_⟩
  unfold frames
  change m'.free.card + m'.tables.card + 1 ≤ m.free.card + m.tables.card at hcount
  omega

/-- A buffer of one page is freed, or its page is unmapped at most. -/
theorem ends_kfree_one {buf : DmaBuf} (hlen : buf.len ≠ 0) (hle : buf.len ≤ memory.PAGE_4K)
    (m : KernelMemory) :
    Ends (KernelMemory.kfree_dma_pages buf m)
      (fun _ m' => ∃ g, m.translate_addr (page_at buf.base 0) = some g ∧
        m'.free = insert g m.free ∧ m'.tables = m.tables)
      (fun e m' => e = .panic ∨ m'.free = m.free ∧ m'.tables = m.tables ∧
        ∀ g, m.ready = true → m.translate_addr (page_at buf.base 0) = some g →
          m.managed g = false) := by
  have hunmap : ∀ p, (m.unmap p).free = m.free ∧ (m.unmap p).tables = m.tables := by
    intro p
    rw [KernelMemory.unmap_eq]
    split
    · exact ⟨rfl, rfl⟩
    · exact ⟨rfl, rfl⟩
  unfold KernelMemory.kfree_dma_pages
  rw [if_neg hlen, KernelMemory.num_pages_one hlen hle]
  refine ends_then (KernelMemory.ends_virt_page _ m) ?_ ?_
  · exact fun _ _ h => Or.inl h.1
  rintro p m1 ⟨rfl, rfl⟩
  rw [KernelMemory.page_at_eq]
  refine ends_bind (Q := fun _ m' => ∃ g, m1.translate_addr (page_at buf.base 0) = some g ∧
    m'.free = insert g m1.free ∧ m'.tables = m1.tables) ?_ (fun _ _ h => ends_pure h)
  unfold KernelMemory.kfree_page
  by_cases hready : m1.ready = true
  · rw [if_pos hready]
    cases hphys : m1.translate_addr (page_at buf.base 0) with
    | none => exact Or.inr ⟨rfl, rfl, fun g _ h => by cases h⟩
    | some phys =>
      by_cases hmanaged : m1.managed phys = true
      · simp only [if_pos hmanaged]
        exact ⟨phys, rfl, rfl, (hunmap _).2⟩
      · simp only [if_neg hmanaged]
        refine Or.inr ⟨(hunmap _).1, (hunmap _).2, fun g _ h => ?_⟩
        cases h
        simpa using hmanaged
  · rw [if_neg hready]
    exact Or.inr ⟨rfl, rfl, fun g h => absurd h hready⟩

theorem ends_kfree_gained {buf : DmaBuf} (hlen : buf.len ≠ 0) (hle : buf.len ≤ memory.PAGE_4K)
    (m : KernelMemory) :
    Ends (KernelMemory.kfree_dma_pages buf m) (fun _ m' => Gained 1 m m')
      (fun e m' => e = .panic ∨ Gained 1 m m') := by
  refine (ends_kfree_one hlen hle m).mono ?_ ?_
  · rintro _ m' ⟨g, -, hfree, htables⟩
    refine ⟨by rw [htables], ?_⟩
    have := Finset.card_insert_le g m.free
    unfold frames
    rw [hfree, htables]
    omega
  · rintro e m' (h | ⟨hfree, htables, -⟩)
    · exact Or.inl h
    · exact Or.inr ((gained_of_eq hfree htables).le (by decide))

/-! ## What a call costs -/

namespace Driver

variable {α β ε : Type} {stack : Nat}

/-- The call panics or gives at most `z` frames back. -/
def Costs (z : Int) (d : Driver KernelMemory)
    (r : EStateM.Result (Fault ε) (Driver KernelMemory) α) : Prop :=
  Ends r (fun _ d' => Gained z d.memory d'.memory)
    (fun e d' => e = .panic ∨ Gained z d.memory d'.memory)

/-- The next command gets as far as its page. -/
structure Starts (d : Driver KernelMemory) : Prop where
  known : d.known = true
  slot_free : d.slot_free d.commands = true
  ready : d.memory.ready = true

/-- The price of a call whose first command may be the next one. -/
def Bill (z : Int) (d : Driver KernelMemory) : Prop := z = 0 ∨ z = -1 ∧ Starts d

variable {d : Driver KernelMemory} {z : Int} {n bytes_left frame size : Nat}
  {body : EStateM (Fault Unit) (Driver KernelMemory) α}
  {x : EStateM (Fault ε) (Driver KernelMemory) α}

theorem costs_of_keeps (hz : z = 0) (h : Keeps Driver.memory x) : Costs z d (x d) := by
  subst hz
  refine (h d).mono ?_ ?_
  · intro _ d' hd
    rw [hd]
    exact gained_of_eq rfl rfl
  · intro _ d' hd
    rw [hd]
    exact Or.inr (gained_of_eq rfl rfl)

/-- What follows gives nothing back. -/
theorem costs_bind {f : α → EStateM (Fault ε) (Driver KernelMemory) β} (hx : Costs z d (x d))
    (hf : ∀ a d', Costs 0 d' (f a d')) : Costs z d ((x >>= f) d) := by
  refine ends_bind hx fun a d1 h1 => ?_
  refine (hf a d1).mono ?_ ?_
  · intro _ d2 h2
    exact (h1.trans h2).le (by omega)
  · exact fun _ d2 => Or.imp_right fun h2 => (h1.trans h2).le (by omega)

section

variable (hbill : Bill z d)

include hbill

theorem costs_send_command (lba : Nat) (buf : List UInt8) {count : Nat}
    (hpos : 0 < count) (hle : count ≤ 8) (write : Bool) :
    Costs z d (send_command (kernelDma stack) lba buf count write d) := by
  have hsize := command_size hpos hle
  unfold send_command
  rw [get_bind, modify_bind]
  by_cases hslot : d.slot_free d.commands = false
  · rw [if_pos hslot]
    rcases hbill with rfl | ⟨rfl, hstarts⟩
    · exact Or.inr (gained_of_eq rfl rfl)
    · rw [hstarts.slot_free] at hslot
      cases hslot
  rw [if_neg hslot, if_neg hsize]
  refine ends_bind (Q := fun _ d' => Gained (-1) d.memory d'.memory) (ends_on_memory ?_) ?_
  · refine (KernelMemory.ends_kalloc_one stack (fun h => hsize (Or.inl h))
      (Nat.le_of_not_lt fun h => hsize (Or.inr h)) d.memory).mono ?_ ?_
    · rintro b m1 ⟨-, -, frame, htook⟩
      exact TookPage.gained htook
    · rintro e m1 (rfl | ⟨hready, rfl⟩)
      · exact Or.inl rfl
      · rcases hbill with rfl | ⟨rfl, hstarts⟩
        · exact Or.inr (gained_fetch_add d.memory _)
        · rw [hstarts.ready] at hready
          cases hready
  · intro b d1 h1
    have hz : (-1 : Int) ≤ z := by
      rcases hbill with rfl | ⟨rfl, -⟩
      · decide
      · decide
    rw [get_bind]
    split
    · refine ((keeps_issue (fun _ _ => rfl) _ _ _ : Keeps Driver.memory _) d1).mono ?_ ?_
      · intro _ d2 h2
        rw [h2]
        exact h1.le hz
      · intro _ d2 h2
        rw [h2]
        exact Or.inr (h1.le hz)
    · exact Or.inl rfl

section

variable (current_cursor : Nat) (hne : bytes_left ≠ 0)

include hne

/-- A command for the sectors of a chunk, and nothing else. -/
theorem costs_sectors (ubuf : List UInt8) (write : Bool) (f : List UInt8 → List UInt8) :
    Costs z d ((send_command (kernelDma stack) (current_cursor / SECTOR_SIZE) ubuf
      (sectors_at current_cursor bytes_left) write >>= fun page => pure (f page)) d) :=
  costs_bind (costs_send_command hbill _ _ (chunk_sectors_pos _ hne) (chunk_sectors_le _ _) _)
    fun _ _ => costs_of_keeps rfl (keeps_pure _)

theorem costs_read_chunk :
    Costs z d (read_chunk (kernelDma stack) current_cursor bytes_left d) :=
  costs_sectors hbill current_cursor hne _ _ _

theorem costs_write_chunk (src : List UInt8) :
    Costs z d (write_chunk (kernelDma stack) current_cursor bytes_left src d) := by
  unfold write_chunk chunk_buffer
  dsimp only
  split
  · refine costs_bind (costs_send_command hbill _ _ (chunk_sectors_pos _ hne)
      (chunk_sectors_le _ _) _) ?_
    exact fun ubuf d' => costs_sectors (Or.inl rfl) current_cursor hne _ _ fun _ => []
  · exact costs_sectors hbill current_cursor hne _ _ fun _ => []

end

/-- The buffer comes back, so a chunk costs what its commands cost. -/
theorem costs_with_buffer (e : BlockError) (hsize : size ≠ 0) (hpage : size ≤ memory.PAGE_4K)
    (hbody : ∀ d1, Bill z d1 → Costs z d1 (body d1)) :
    Costs z d (with_buffer (kernelDma stack) e size body d) := by
  refine ends_bind (Q := fun ubuf d1 => Gained (-1) d.memory d1.memory ∧ Bill z d1 ∧
    (z = 0 ∨ d1.known = true) ∧ ubuf.len = size) (ends_on_memory ?_) ?_
  · refine (KernelMemory.ends_kalloc_one stack hsize hpage d.memory).mono ?_ ?_
    · rintro ubuf m1 ⟨-, hlen, frame, htook⟩
      refine ⟨TookPage.gained htook, ?_, ?_, hlen⟩
      · rcases hbill with rfl | ⟨rfl, hstarts⟩
        · exact Or.inl rfl
        · have hready := htook.ready
          rw [KernelMemory.fetch_add_ready] at hready
          exact Or.inr ⟨rfl, hstarts.known, hstarts.slot_free, hready.trans hstarts.ready⟩
      · exact hbill.imp id (fun h => h.2.known)
    · rintro f m1 (rfl | ⟨hready, rfl⟩)
      · exact Or.inl rfl
      · rcases hbill with rfl | ⟨rfl, hstarts⟩
        · exact Or.inr (gained_fetch_add d.memory _)
        · rw [hstarts.ready] at hready
          cases hready
  · rintro ubuf d1 ⟨h1, hbill1, hknown, hlen⟩
    have hfree : ∀ m, Gained (-1 + z) d.memory m → Ends (KernelMemory.kfree_dma_pages ubuf m)
        (fun _ m' => Gained z d.memory m') (fun e m' => e = .panic ∨ Gained z d.memory m') := by
      intro m h2
      have hback : ∀ m', Gained 1 m m' → Gained z d.memory m' :=
        fun m' h3 => (h2.trans h3).le (by omega)
      exact (ends_kfree_gained (by rw [hlen]; exact hsize) (by rw [hlen]; exact hpage) m).mono
        (fun _ => hback) (fun _ m' => Or.imp_right (hback m'))
    rw [get_bind]
    split
    · refine ends_bind (ends_caught_unless_panic ((hbody d1 hbill1).mono (fun _ _ => h1.trans)
        (fun _ _ => Or.imp_right h1.trans)) (fun _ => Or.inl rfl)) ?_
      intro res d2 h2
      refine ends_bind (ends_memory_unless_panic (hfree _ h2)) ?_
      intro _ d3 h3
      cases res with
      | ok a => exact h3
      | error _ => exact Or.inr h3
    · rename_i hunknown
      have hzero : z = 0 := hknown.resolve_right hunknown
      subst hzero
      refine ends_bind (ends_caught_unless_panic (ends_memory_unless_panic (hfree _ h1))
        (fun _ => Or.inl rfl)) ?_
      exact fun _ d2 h2 => Or.inr h2

end

/-! ## Calls that take no page for a command -/

/-- A free frame is managed, is no table, and is not mapped at the address of the next buffer. -/
structure WellFormed (m : KernelMemory) : Prop where
  disjoint : Disjoint m.free m.tables
  managed : ∀ f ∈ m.free, m.managed f = true
  fresh : ∀ g, m.translate_addr (page_at m.dma_base 0) = some g → g ∉ m.free

/-- There is no allocator, or no command is sent and the page of the buffer was free. -/
def Spares (d : Driver KernelMemory) : Prop :=
  d.memory.ready = false ∨ (d.known = false ∨ d.slot_free d.commands = false) ∧
    d.memory.translate_addr (page_at d.memory.dma_base 0) = none

/-- A page is taken and its mapping freed. -/
theorem conserved_iff {m m1 m2 : KernelMemory} (hwf : WellFormed m)
    (htook : TookPage (m.fetch_add n) m1 (page_at m.dma_base 0) frame)
    (hfreed : (∃ g, m1.translate_addr (page_at m.dma_base 0) = some g ∧
        m2.free = insert g m1.free ∧ m2.tables = m1.tables) ∨
      m2.free = m1.free ∧ m2.tables = m1.tables ∧
        ∀ g, m1.translate_addr (page_at m.dma_base 0) = some g → m1.managed g = false) :
    Conserved m m2 ↔ m.translate_addr (page_at m.dma_base 0) = none := by
  have hmaps : m1.translate_addr (page_at m.dma_base 0) =
      (m.translate_addr (page_at m.dma_base 0)).or (some frame) := by
    simp only [KernelMemory.translate_eq]
    exact htook.leads
  obtain ⟨-, -, hframe, -, hmanaged, -, hsubset, -, hunion, -⟩ := htook
  simp only [KernelMemory.fetch_add] at hframe hmanaged hsubset hunion
  cases hwas : m.translate_addr (page_at m.dma_base 0) with
  | none =>
    -- the page maps to the frame that was taken, which comes back
    rw [hwas, Option.none_or] at hmaps
    refine iff_of_true ?_ rfl
    rcases hfreed with ⟨g, hg, hfree, htables⟩ | ⟨-, -, hno⟩
    · have hgf : g = frame := by
        rw [hmaps] at hg
        cases hg
        rfl
      subst hgf
      unfold Conserved
      rw [hfree, htables]
      ext f
      have hf := Finset.ext_iff.mp hunion f
      have hdisj : f ∈ m.free → f ∉ m.tables := fun h => Finset.disjoint_left.mp hwf.disjoint h
      have hsub := @hsubset f
      simp only [Finset.mem_union, Finset.mem_erase, Finset.mem_insert, Finset.mem_sdiff]
        at hf hsub ⊢
      by_cases hfg : f = g
      · subst hfg
        simp [hframe]
      · tauto
    · have := hno frame hmaps
      rw [hmanaged, hwf.managed frame hframe] at this
      cases this
  | some f =>
    -- the frame that was taken stays behind
    refine iff_of_false ?_ nofun
    rw [hwas, Option.some_or] at hmaps
    have hnot1 : frame ∉ m1.free := fun h => Finset.notMem_erase frame _ (hsubset h)
    have hnot2 : frame ∈ m1.tables → frame ∈ m.tables := by
      intro h
      have hmem : frame ∈ m.free.erase frame ∪ m.tables := by
        rw [← hunion]
        exact Finset.mem_union_right _ h
      exact (Finset.mem_union.mp hmem).resolve_left (Finset.notMem_erase frame _)
    intro hcons
    have hmem : frame ∈ m2.free ∪ (m2.tables \ m.tables) := by
      rw [hcons]
      exact hframe
    have htables : m2.tables = m1.tables := by
      rcases hfreed with ⟨_, -, -, h⟩ | ⟨-, h, -⟩
      · exact h
      · exact h
    rw [htables] at hmem
    rcases Finset.mem_union.mp hmem with h | h
    · rcases hfreed with ⟨g, hg, hfree, -⟩ | ⟨hfree, -, -⟩
      · rw [hfree, Finset.mem_insert] at h
        rcases h with rfl | h
        · rw [hmaps] at hg
          exact hwf.fresh frame (hwas.trans hg) hframe
        · exact hnot1 h
      · rw [hfree] at h
        exact hnot1 h
    · exact (Finset.mem_sdiff.mp h).2 (hnot2 (Finset.mem_sdiff.mp h).1)

theorem ends_kfree_taken {m m1 : KernelMemory} {ubuf : DmaBuf} (hwf : WellFormed m)
    (hready : m.ready = true) (hbase : ubuf.base = m.dma_base) (hlen : ubuf.len ≠ 0)
    (hle : ubuf.len ≤ memory.PAGE_4K)
    (htook : TookPage (m.fetch_add n) m1 (page_at m.dma_base 0) frame) :
    Ends (KernelMemory.kfree_dma_pages ubuf m1)
      (fun _ m2 => Conserved m m2 ↔ m.translate_addr (page_at m.dma_base 0) = none)
      (fun e m2 => e = .panic ∨
        (Conserved m m2 ↔ m.translate_addr (page_at m.dma_base 0) = none)) := by
  have hready1 : m1.ready = true := by
    rw [htook.ready]
    exact hready
  have hfree := ends_kfree_one hlen hle m1
  rw [hbase] at hfree
  refine hfree.mono ?_ ?_
  · exact fun _ m2 h => conserved_iff hwf htook (Or.inl h)
  · rintro e m2 (he | ⟨hf, ht, hno⟩)
    · exact Or.inl he
    · exact Or.inr (conserved_iff hwf htook (Or.inr ⟨hf, ht, fun g hg => hno g hready1 hg⟩))

/-- A chunk whose first command does not get its page: the call fails. -/
theorem ends_with_buffer_stops (hwf : WellFormed d.memory) (hstops : ¬ Starts d) (e : BlockError)
    (hsize : size ≠ 0) (hpage : size ≤ memory.PAGE_4K)
    (hbody : ∀ d1, d1.slot_free d1.commands = false →
      Ends (body d1) (fun _ _ => False) (fun f d2 => f = .err () ∧ d2.memory = d1.memory)) :
    Ends (with_buffer (kernelDma stack) e size body d) (fun _ _ => False)
      (fun f d' => f = .panic ∨ (Conserved d.memory d'.memory ↔ Spares d)) := by
  refine ends_bind (Q := fun ubuf d1 => d.memory.ready = true ∧
    ∃ m1 frame, d1 = { d with memory := m1 } ∧ ubuf.base = d.memory.dma_base ∧ ubuf.len = size ∧
      TookPage (d.memory.fetch_add memory.PAGE_4K) m1 (page_at d.memory.dma_base 0) frame)
    (ends_on_memory ?_) ?_
  · refine (KernelMemory.ends_kalloc_one stack hsize hpage d.memory).mono ?_ ?_
    · rintro ubuf m1 ⟨hbase, hlen, frame, htook⟩
      have hready := htook.allocator
      rw [KernelMemory.fetch_add_ready] at hready
      exact ⟨hready, m1, frame, rfl, hbase, hlen, htook⟩
    · rintro f m1 (rfl | ⟨hready, rfl⟩)
      · exact Or.inl rfl
      · refine Or.inr (iff_of_true ?_ (Or.inl hready))
        simp [Conserved, KernelMemory.fetch_add]
  rintro ubuf d1 ⟨hready, m1, frame, rfl, hbase, hlen, htook⟩
  have hidle : d.known = false ∨ d.slot_free d.commands = false := by
    by_contra hno
    rw [not_or, Bool.not_eq_false, Bool.not_eq_false] at hno
    exact hstops ⟨hno.1, hno.2, hready⟩
  have hspares : Spares d ↔ d.memory.translate_addr (page_at d.memory.dma_base 0) = none := by
    simp [Spares, hready, hidle]
  have hfree := ends_kfree_taken hwf hready hbase (by rw [hlen]; exact hsize)
    (by rw [hlen]; exact hpage) htook
  rw [get_bind]
  split
  · rename_i hknown
    have hslot : d.slot_free d.commands = false :=
      hidle.resolve_left (fun h => by rw [h] at hknown; cases hknown)
    refine ends_bind (Q := fun res d2 => (∃ u, res = .error u) ∧ d2.memory = m1)
      (ends_caught ?_) ?_
    · refine (hbody { d with memory := m1 } hslot).mono (fun _ _ h => h.elim) ?_
      rintro f d2 ⟨rfl, hm⟩
      exact ⟨fun u _ => ⟨⟨u, rfl⟩, hm⟩, fun h => by cases h⟩
    · rintro res d2 ⟨⟨u, rfl⟩, hm⟩
      rw [← hm, ← hspares] at hfree
      exact ends_bind (ends_memory_unless_panic hfree) (fun _ d3 h => Or.inr h)
  · rw [← hspares] at hfree
    refine ends_bind (ends_caught_unless_panic (ends_memory_unless_panic hfree)
      (fun _ => Or.inl rfl)) ?_
    exact fun _ d3 h => Or.inr h

/-- Without a slot the first command fails before it takes anything. -/
theorem ends_send_command_stops (hslot : d.slot_free d.commands = false)
    (lba : Nat) (buf : List UInt8) (count : Nat) (write : Bool) :
    Ends (send_command dma lba buf count write d) (fun _ _ => False)
      (fun f d' => f = .err () ∧ d'.memory = d.memory) := by
  unfold send_command
  rw [get_bind, if_pos hslot]
  exact ⟨rfl, rfl⟩

theorem ends_write_chunk_stops (hslot : d.slot_free d.commands = false)
    (current_cursor bytes_left : Nat) (src : List UInt8) :
    Ends (write_chunk dma current_cursor bytes_left src d) (fun _ _ => False)
      (fun f d' => f = .err () ∧ d'.memory = d.memory) := by
  unfold write_chunk chunk_buffer
  dsimp only
  split
  · exact ends_bind (ends_send_command_stops hslot _ _ _ _) (fun _ _ h => h.elim)
  · rw [pure_bind_run]
    exact ends_bind (ends_send_command_stops hslot _ _ _ _) (fun _ _ h => h.elim)

/-- What a transfer of `n` bytes leaves of the free frames. -/
def Settles (n : Nat) (d : Driver KernelMemory)
    (r : EStateM.Result (Fault BlockError) (Driver KernelMemory) α) : Prop :=
  Ends r (fun _ d' => Conserved d.memory d'.memory ↔ n = 0 ∨ Spares d)
    (fun f d' => f = .panic ∨ (Conserved d.memory d'.memory ↔ n = 0 ∨ Spares d))

/-- The first chunk settles it: its first command gets a page, which stays, or the call ends. -/
theorem settles_transfer {e : BlockError} {breaks : Bool} {len : Nat}
    {chunk : Nat → Nat → EStateM (Fault Unit) (Driver KernelMemory) (List UInt8)}
    (hwf : WellFormed d.memory)
    (hcosts : ∀ {z : Int} {d1 : Driver KernelMemory} (current_cursor : Nat) {total : Nat},
      total < len → Bill z d1 → Costs z d1 (chunk current_cursor total d1))
    (hstops : ∀ (current_cursor total : Nat) {d1 : Driver KernelMemory},
      d1.slot_free d1.commands = false → Ends (chunk current_cursor total d1) (fun _ _ => False)
        (fun f d2 => f = .err () ∧ d2.memory = d1.memory)) :
    Settles len d (transfer (kernelDma stack) e breaks len chunk d) := by
  -- a frame less, and the call started with a command
  have hless : ∀ {d' : Driver KernelMemory}, len ≠ 0 → Starts d → Gained (-1) d.memory d'.memory →
      (Conserved d.memory d'.memory ↔ len = 0 ∨ Spares d) := by
    intro d' hlen hstarts h
    refine iff_of_false h.not_conserved ?_
    simp [hlen, Spares, hstarts.known, hstarts.slot_free, hstarts.ready]
  refine ends_transfer (I := fun total _ d1 => total = 0 ∧ d1 = d ∨
    0 < total ∧ Starts d ∧ Gained (-1) d.memory d1.memory) (fun _ _ _ _ _ _ => Or.inl rfl) ?_ ?_
    (Or.inl ⟨rfl, rfl⟩)
  · intro total _ d1 h hlt
    have hne : len - total ≠ 0 := by omega
    have hlen : len ≠ 0 := by omega
    have hpos := chunk_pos (d1.cursor + total) hne
    have hcosts1 : ∀ {z : Int}, Bill z d1 → Costs z d1 (with_buffer (kernelDma stack) e _ _ d1) :=
      fun hbill => costs_with_buffer hbill e (chunk_size_ne_zero (d1.cursor + total) hne)
        (chunk_size_le _ _) fun d2 hbill2 => hcosts (d1.cursor + total) hlt hbill2
    rcases h with ⟨rfl, rfl⟩ | ⟨-, hstarts, h1⟩
    · by_cases hstarts : Starts d1
      · refine (hcosts1 (Or.inr ⟨rfl, hstarts⟩)).mono ?_ ?_
        · exact fun _ d2 h2 => Or.inr ⟨by omega, hstarts, h2⟩
        · exact fun _ d2 => Or.imp_right (hless hlen hstarts)
      · refine (ends_with_buffer_stops hwf hstarts e (chunk_size_ne_zero _ hne)
          (chunk_size_le _ _) fun d2 => hstops _ _).mono (fun _ _ h => h.elim) ?_
        exact fun _ d2 => Or.imp_right fun h => by simpa [hlen] using h
    · have hmore : ∀ {m2 : KernelMemory}, Gained 0 d1.memory m2 → Gained (-1) d.memory m2 :=
        fun h2 => (h1.trans h2).le (by decide)
      refine (hcosts1 (Or.inl rfl)).mono ?_ ?_
      · exact fun _ d2 h2 => Or.inr ⟨by omega, hstarts, hmore h2⟩
      · exact fun _ d2 => Or.imp_right fun h2 => hless hlen hstarts (hmore h2)
  · rintro _ d1 (⟨hzero, rfl⟩ | ⟨hpos, hstarts, h1⟩)
    · exact iff_of_true (by simp [Conserved]) (Or.inl hzero)
    · exact hless (Nat.ne_of_gt hpos) hstarts h1

theorem settles_read (hwf : WellFormed d.memory) (n : Nat) :
    Settles n d (read (kernelDma stack) n d) := by
  refine settles_transfer hwf ?_ ?_
  · intro z d1 current_cursor total hlt hbill
    exact costs_read_chunk hbill _ (by omega)
  · intro current_cursor total d1 hslot
    exact ends_bind (ends_send_command_stops hslot _ _ _ _) (fun _ _ h => h.elim)

theorem settles_write (hwf : WellFormed d.memory) (buf : List UInt8) :
    Settles buf.length d (write (kernelDma stack) buf d) := by
  refine ends_bind (settles_transfer hwf ?_ ?_) fun _ _ h => h
  · intro z d1 current_cursor total hlt hbill
    exact costs_write_chunk hbill _ (by omega) _
  · exact fun current_cursor total d1 hslot => ends_write_chunk_stops hslot _ _ _

end Driver

open Driver in
/-- A call that comes back has conserved the frames exactly if it had no byte to move, or sent no
command and its buffer had a free address. -/
theorem disk_io_conserves_iff (stack : Nat) {d : Driver KernelMemory} (hwf : WellFormed d.memory) :
    (∀ n, (∀ d', Driver.read (kernelDma stack) n d ≠ .error .panic d') →
      (Conserved d.memory (final (Driver.read (kernelDma stack) n d)).memory ↔ n = 0 ∨ Spares d)) ∧
    (∀ buf, (∀ d', Driver.write (kernelDma stack) buf d ≠ .error .panic d') →
      (Conserved d.memory (final (Driver.write (kernelDma stack) buf d)).memory ↔
        buf.length = 0 ∨ Spares d)) := by
  have hfinal : ∀ {α : Type} {n : Nat}
      {r : EStateM.Result (Fault BlockError) (Driver KernelMemory) α}, Settles n d r →
      (∀ d', r ≠ .error .panic d') → (Conserved d.memory (final r).memory ↔ n = 0 ∨ Spares d) := by
    intro α n r h hreturns
    cases r with
    | ok a d' => exact h
    | error f d' =>
      rcases h with rfl | h
      · exact absurd rfl (hreturns d')
      · exact h
  exact ⟨fun n hreturns => hfinal (settles_read hwf n) hreturns,
    fun buf hreturns => hfinal (settles_write hwf buf) hreturns⟩

/-! ## One sector -/

/-- A disk of one sector whose commands complete, and two free frames. -/
def oneSector : Driver KernelMemory where
  bytes _ := 0
  sectors := 1
  known := true
  slot_free _ := true
  running _ := true
  completes _ := true
  stored _ := false
  commands := 0
  cursor := 0
  memory := memory.twoFrames

theorem wellFormed_oneSector : Driver.WellFormed oneSector.memory where
  disjoint := Finset.disjoint_empty_right _
  managed _ _ := rfl
  fresh g hg := by
    have hnone : oneSector.memory.translate_addr
        (page_at oneSector.memory.dma_base 0) = none := by decide +kernel
    cases hg

/-- The port is not known: the buffer comes back. -/
theorem an_unknown_port_conserves :
    Conserved oneSector.memory
      (final (Driver.read (kernelDma 1) 1 { oneSector with known := false })).memory := by
  have hwf : Driver.WellFormed ({ oneSector with known := false } : Driver KernelMemory).memory :=
    wellFormed_oneSector
  refine ((disk_io_conserves_iff 1 hwf).1 1 ?_).mpr (Or.inr (Or.inr ⟨Or.inl rfl, ?_⟩))
  · intro d' hpanic
    have hreturns : (match Driver.read (kernelDma 1) 1 { oneSector with known := false } with
        | .error .panic _ => true
        | _ => false) = false := by decide +kernel
    rw [hpanic] at hreturns
    cases hreturns
  · decide +kernel

/-- Reading a byte succeeds and costs a frame. -/
theorem a_read_loses_a_frame :
    passes (Driver.read (kernelDma 1) 1 oneSector) (fun r _ => r.1 = 1) = true ∧
      ¬ Conserved oneSector.memory (final (Driver.read (kernelDma 1) 1 oneSector)).memory := by
  unfold Conserved
  decide +kernel

end zenos_kernel.disk.block.ahci
