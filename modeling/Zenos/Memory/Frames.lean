-- Which frames are free. The bitmaps of the nodes are one set of addresses: a
-- successful `alloc` takes the frames it returns out of the set, `dealloc` puts
-- one back, and a call that fails leaves the set alone.
import Zenos.Memory.PageAllocator
import Mathlib.Data.Finset.Image

namespace zenos_kernel.memory

open WordBitmap BitmapNode

namespace BitmapNode

variable (n : BitmapNode)

def pages : Nat := n.region_size / PAGE_4K

/-- The address of page `k` of the node. -/
def frame (k : Nat) : Nat := n.base_phys + k * PAGE_4K

/-- The part of physical memory that the node stands for. -/
def range : Nat × Nat := (n.base_phys, n.region_size)

/-- What `initialize` leaves and every call keeps. -/
structure Good (n : BitmapNode) : Prop where
  aligned : n.base_phys % PAGE_4K = 0
  whole : n.region_size % PAGE_4K = 0
  words : n.map.length = (n.pages + 63) / 64
  inside : ∀ k, bit n.map k = true → k < n.pages

def Managed (a : Nat) : Prop := ∃ k < n.pages, a = n.frame k

def Free (a : Nat) : Prop := ∃ k, bit n.map k = true ∧ a = n.frame k

variable {n m : BitmapNode} {k a phys : Nat}

theorem frame_inj {j : Nat} (h : n.frame j = n.frame k) : j = k := by
  unfold frame PAGE_4K at h
  omega

theorem Free.managed (hn : n.Good) (h : n.Free a) : n.Managed a := by
  obtain ⟨k, hk, rfl⟩ := h
  exact ⟨k, hn.inside k hk, rfl⟩

theorem free_frame : n.Free (n.frame k) ↔ bit n.map k = true := by
  constructor
  · rintro ⟨j, hj, h⟩
    rw [frame_inj h]
    exact hj
  · intro h
    exact ⟨k, h, rfl⟩

theorem Managed.lt (h : n.Managed a) :
    n.base_phys ≤ a ∧ a + PAGE_4K ≤ n.base_phys + n.region_size := by
  obtain ⟨k, hk, rfl⟩ := h
  unfold pages at hk
  unfold frame
  unfold PAGE_4K at *
  omega

theorem Managed.aligned (hn : n.Good) (h : n.Managed a) : a % PAGE_4K = 0 := by
  obtain ⟨k, hk, rfl⟩ := h
  have := hn.aligned
  unfold frame
  unfold PAGE_4K at *
  omega

/-- An aligned address that the node holds is one of its frames. -/
theorem holds_frame (hn : n.Good) (h : n.holds phys = true) (ha : phys % PAGE_4K = 0) :
    n.page_num phys < n.pages ∧ phys = n.frame (n.page_num phys) := by
  unfold holds at h
  rw [Bool.and_eq_true, decide_eq_true_iff, decide_eq_true_iff] at h
  have haligned := hn.aligned
  have hwhole := hn.whole
  unfold pages frame page_num
  unfold PAGE_4K at *
  omega

theorem holds_of_managed (h : n.Managed a) : n.holds a = true := by
  have hlt := h.lt
  unfold holds
  rw [Bool.and_eq_true, decide_eq_true_iff, decide_eq_true_iff]
  unfold PAGE_4K at hlt
  omega

theorem page_num_of_holds (hn : n.Good) (h : n.holds phys = true) : n.page_num phys < n.pages := by
  unfold holds at h
  rw [Bool.and_eq_true, decide_eq_true_iff, decide_eq_true_iff] at h
  have hwhole := hn.whole
  unfold pages page_num
  unfold PAGE_4K at *
  omega

theorem word_lt (hn : n.Good) (hk : k < n.pages) : k / 64 < n.map.length := by
  rw [hn.words]
  omega

/-! ## What a call does to one node -/

/-- The node keeps its range, and its free frames are those of `free`. -/
structure Becomes (n n' : BitmapNode) (free : Nat → Prop) : Prop where
  good : n'.Good
  range : n'.range = n.range
  free : ∀ a, n'.Free a ↔ free a

/-- The bits of a node change, and no bit past the end is set. -/
theorem becomes_of_bits (hn : n.Good) {map : List UInt64} (hlen : map.length = n.map.length)
    (keep : Nat → Prop) (hbit : ∀ k, bit map k = true ↔ keep k) (hin : ∀ k, keep k → k < n.pages) :
    Becomes n { n with map := map } (fun a => ∃ k, keep k ∧ a = n.frame k) where
  good := ⟨hn.aligned, hn.whole, hlen.trans hn.words, fun k hk => hin k ((hbit k).mp hk)⟩
  range := rfl
  free _ := exists_congr (fun k => and_congr_left' (hbit k))

theorem becomes_clear (hn : n.Good) (hk : k < n.pages) :
    Becomes n { n with map := clear n.map k } (fun a => n.Free a ∧ a ≠ n.frame k) := by
  have h := becomes_of_bits hn (length_clear n.map k) (fun j => bit n.map j = true ∧ j ≠ k)
    (by simp [bit_clear n.map (word_lt hn hk)])
    (fun j hj => hn.inside j hj.1)
  refine ⟨h.good, h.range, ?_⟩
  intro a
  rw [h.free]
  constructor
  · rintro ⟨j, ⟨hj, hne⟩, rfl⟩
    exact ⟨⟨j, hj, rfl⟩, fun h => hne (frame_inj h)⟩
  · rintro ⟨⟨j, hj, rfl⟩, hne⟩
    exact ⟨j, ⟨hj, fun h => hne (by rw [h])⟩, rfl⟩

theorem becomes_mark (hn : n.Good) (hk : k < n.pages) :
    Becomes n { n with map := mark n.map k } (fun a => n.Free a ∨ a = n.frame k) := by
  have h := becomes_of_bits hn (length_mark n.map k) (fun j => bit n.map j = true ∨ j = k)
    (by simp [bit_mark n.map (word_lt hn hk)])
    (fun j hj => hj.elim (hn.inside j) (fun h => h ▸ hk))
  refine ⟨h.good, h.range, ?_⟩
  intro a
  rw [h.free]
  simp only [or_and_right, exists_or, exists_eq_left]
  rfl

/-- `m` words from word `w` on are cleared. -/
theorem bit_clear_words (map : List UInt64) {w m : Nat} (hm : w + m ≤ map.length) (j : Nat) :
    ((List.range m).foldl (fun map i => map.set (w + i) 0) map).length = map.length ∧
    bit ((List.range m).foldl (fun map i => map.set (w + i) 0) map) j =
      (bit map j && !decide (w ≤ j / 64 ∧ j / 64 < w + m)) := by
  induction m with
  | zero =>
    rw [decide_eq_false (by omega)]
    simp
  | succ m ih =>
    obtain ⟨hlen, hbit⟩ := ih (by omega)
    rw [List.range_succ, List.foldl_append, List.foldl_cons, List.foldl_nil]
    refine ⟨by rw [List.length_set, hlen], ?_⟩
    rw [bit_set _ _ (by rw [hlen]; omega), hbit]
    split
    · rw [has_zero (Nat.mod_lt _ (by decide)), decide_eq_true (by omega)]
      simp
    · congr 2
      rw [decide_eq_decide]
      omega

section

variable (hn : n.Good) (hphys : n.holds phys = true) (ha : phys % PAGE_4K = 0)

include hn hphys ha

theorem take_page_spec {n' : BitmapNode} (h : n.take_page phys = some n') :
    n.Free phys ∧ Becomes n n' (fun a => n.Free a ∧ a ≠ phys) := by
  obtain ⟨hk, hframe⟩ := holds_frame hn hphys ha
  unfold take_page at h
  rw [if_pos (word_lt hn hk)] at h
  split at h
  · cases h
  · rename_i hbit
    cases h
    rw [and_mask_eq_zero (Nat.mod_lt _ (by decide)), Bool.not_eq_false] at hbit
    have hfree : n.Free (n.frame (n.page_num phys)) := free_frame.mpr hbit
    have hb := becomes_clear hn hk
    rw [← hframe] at hfree hb
    exact ⟨hfree, hb⟩

/-- The pages of a block of 2 MiB are taken: all were free. -/
theorem take_words_spec {n' : BitmapNode} (h : n.take_words phys PageSize.Size2MiB.step = some n') :
    (∀ i < 512, n.Free (phys + i * PAGE_4K)) ∧
      Becomes n n' (fun a => n.Free a ∧ ∀ i < 512, a ≠ phys + i * PAGE_4K) := by
  obtain ⟨hk, hframe⟩ := holds_frame hn hphys ha
  have hstep : PageSize.Size2MiB.step = 512 := rfl
  rw [hstep] at h
  unfold take_words at h
  dsimp only at h
  split at h
  · rename_i hmod
    split at h
    · cases h
    rename_i hlen
    split at h
    · rename_i hall
      cases h
      generalize hp : n.page_num phys = p at hk hframe hmod hlen hall
      have hfour : ∀ i, phys + i * PAGE_4K = n.frame (p + i) := by
        intro i
        rw [hframe]
        unfold frame PAGE_4K
        omega
      -- every bit of the eight words is set
      have hset : ∀ i < 512, bit n.map (p + i) = true := by
        intro i hi
        have hw := List.all_eq_true.mp hall ((p + i) / 64 - p / 64)
          (List.mem_range.mpr (by omega))
        rw [beq_iff_eq, show p / 64 + ((p + i) / 64 - p / 64) = (p + i) / 64 by omega] at hw
        unfold bit
        rw [hw]
        exact has_max (Nat.mod_lt _ (by decide))
      have hb := becomes_of_bits hn (bit_clear_words n.map (w := p / 64) (m := 512 / 64)
        (by omega) 0).1 (fun j => bit n.map j = true ∧ ¬(p ≤ j ∧ j < p + 512)) (by
          intro j
          rw [(bit_clear_words n.map (by omega) j).2, Bool.and_eq_true, Bool.not_eq_true',
            decide_eq_false_iff_not]
          apply and_congr_right
          intro _
          omega) (fun j hj => hn.inside j hj.1)
      refine ⟨fun i hi => ?_, hb.good, hb.range, fun a => ?_⟩
      · rw [hfour]
        exact free_frame.mpr (hset i hi)
      rw [hb.free]
      constructor
      · rintro ⟨j, ⟨hj, hout⟩, rfl⟩
        refine ⟨⟨j, hj, rfl⟩, fun i hi h => ?_⟩
        rw [hfour] at h
        have := frame_inj h
        omega
      · rintro ⟨⟨j, hj, rfl⟩, hout⟩
        refine ⟨j, ⟨hj, fun hin => ?_⟩, rfl⟩
        refine hout (j - p) (by omega) ?_
        rw [hfour]
        congr 1
        omega
    · cases h
  · cases h

theorem give_page_spec :
    ∃ n', n.give_page phys = some n' ∧ Becomes n n' (fun a => n.Free a ∨ a = phys) := by
  obtain ⟨hk, hframe⟩ := holds_frame hn hphys ha
  have hb := becomes_mark hn hk
  rw [← hframe] at hb
  refine ⟨_, ?_, hb⟩
  unfold give_page
  rw [if_pos (word_lt hn hk)]

end

end BitmapNode

/-! ## The list of nodes -/

section Nodes

variable {nodes nodes' pre post : List BitmapNode} {n n' : BitmapNode}

def Managed (nodes : List BitmapNode) (a : Nat) : Prop := ∃ n ∈ nodes, n.Managed a

def Free (nodes : List BitmapNode) (a : Nat) : Prop := ∃ n ∈ nodes, n.Free a

def Sound (nodes : List BitmapNode) : Prop := ∀ n ∈ nodes, n.Good

/-- The ranges of two nodes have no byte in common. -/
def Apart (r r' : Nat × Nat) : Prop := r.1 + r.2 ≤ r'.1 ∨ r'.1 + r'.2 ≤ r.1

/-- The ranges do not overlap. -/
protected def Disjoint (nodes : List BitmapNode) : Prop := (nodes.map BitmapNode.range).Pairwise Apart

variable {a phys : Nat} {f : BitmapNode → Option BitmapNode} {free : Nat → Prop}

theorem Managed.aligned (hs : Sound nodes) (h : Managed nodes a) : a % PAGE_4K = 0 := by
  obtain ⟨n, hn, hman⟩ := h
  exact hman.aligned (hs n hn)

theorem Free.managed (hs : Sound nodes) (h : Free nodes a) : Managed nodes a := by
  obtain ⟨n, hn, hfree⟩ := h
  exact ⟨n, hn, hfree.managed (hs n hn)⟩

/-- Which frames are managed is a matter of the ranges. -/
theorem managed_iff_range (nodes : List BitmapNode) (a : Nat) : Managed nodes a ↔
    ∃ r ∈ nodes.map range, ∃ k < r.2 / PAGE_4K, a = r.1 + k * PAGE_4K := by
  simp only [List.mem_map, exists_exists_and_eq_and]
  rfl

theorem managed_congr (h : nodes'.map range = nodes.map range) (a : Nat) :
    Managed nodes' a ↔ Managed nodes a := by
  rw [managed_iff_range, managed_iff_range, h]

theorem free_split (a : Nat) : Free (pre ++ n :: post) a ↔ n.Free a ∨ Free pre a ∨ Free post a := by
  simp only [Free, List.mem_append, List.mem_cons, or_and_right, exists_or, exists_eq_left]
  exact or_left_comm

section

variable (hs : Sound (pre ++ n :: post))

include hs

theorem not_free_elsewhere (hd : memory.Disjoint (pre ++ n :: post))
    (ha : n.Managed a) : ¬Free pre a ∧ ¬Free post a := by
  have hlt := ha.lt
  have clash : ∀ m ∈ pre ++ n :: post, (Apart m.range n.range ∨ Apart n.range m.range) →
      ¬m.Free a := by
    intro m hm hapart hfree
    have hm' := (hfree.managed (hs m hm)).lt
    unfold Apart range at hapart
    unfold PAGE_4K at hlt hm'
    omega
  unfold memory.Disjoint at hd
  rw [List.map_append, List.map_cons, List.pairwise_append, List.pairwise_cons] at hd
  obtain ⟨_, ⟨hpost, _⟩, hpre⟩ := hd
  refine ⟨?_, ?_⟩
  · rintro ⟨m, hm, hfree⟩
    refine clash m (List.mem_append_left _ hm) (Or.inl ?_) hfree
    exact hpre m.range (List.mem_map_of_mem hm) n.range (by simp)
  · rintro ⟨m, hm, hfree⟩
    refine clash m (by simp [hm]) (Or.inr ?_) hfree
    exact hpost m.range (List.mem_map_of_mem hm)

/-- The nodes keep their ranges, and the free frames are those of `free`. -/
structure Becomes (nodes nodes' : List BitmapNode) (free : Nat → Prop) : Prop where
  sound : Sound nodes'
  range : nodes'.map BitmapNode.range = nodes.map BitmapNode.range
  free : ∀ a, Free nodes' a ↔ free a

omit hs in
theorem Becomes.disjoint {nodes' : List BitmapNode}
    (h : Becomes nodes nodes' free) (hd : memory.Disjoint nodes) : memory.Disjoint nodes' := by
  unfold memory.Disjoint
  rwa [h.range]

/-- One node is replaced. -/
theorem sound_replace (h : n.Becomes n' free) :
    Sound (pre ++ n' :: post) ∧ (pre ++ n' :: post).map range = (pre ++ n :: post).map range := by
  unfold Sound at hs ⊢
  rw [List.forall_mem_append, List.forall_mem_cons] at hs ⊢
  exact ⟨⟨hs.1, h.good, hs.2.2⟩, by simp [h.range]⟩

theorem becomes_took (hd : memory.Disjoint (pre ++ n :: post)) {taken : Nat → Prop}
    (htaken : ∀ a, taken a → n.Free a) (h : n.Becomes n' (fun a => n.Free a ∧ ¬taken a)) :
    Becomes (pre ++ n :: post) (pre ++ n' :: post)
      (fun a => Free (pre ++ n :: post) a ∧ ¬taken a) := by
  obtain ⟨hsound, hrange⟩ := sound_replace hs h
  refine ⟨hsound, hrange, ?_⟩
  intro a
  have helse : taken a → ¬Free pre a ∧ ¬Free post a := fun ht =>
    not_free_elsewhere hs hd ((htaken a ht).managed (hs n (by simp)))
  rw [free_split, free_split, h.free]
  tauto

theorem becomes_gave {f : Nat} (h : n.Becomes n' (fun a => n.Free a ∨ a = f)) :
    Becomes (pre ++ n :: post) (pre ++ n' :: post)
      (fun a => Free (pre ++ n :: post) a ∨ a = f) := by
  obtain ⟨hsound, hrange⟩ := sound_replace hs h
  refine ⟨hsound, hrange, ?_⟩
  intro a
  rw [free_split, free_split, h.free]
  tauto

end

/-- The walk changes the first node that holds the address. -/
theorem at_node_split (h : at_node phys f nodes = some nodes') :
    ∃ pre n n' post, nodes = pre ++ n :: post ∧ n.holds phys = true ∧ f n = some n' ∧
      nodes' = pre ++ n' :: post := by
  induction nodes generalizing nodes' with
  | nil => cases h
  | cons m next ih =>
    unfold at_node at h
    split at h
    · rename_i hm
      obtain ⟨m', hf, rfl⟩ := Option.map_eq_some_iff.mp h
      exact ⟨[], m, m', next, rfl, hm, hf, rfl⟩
    · obtain ⟨next', hnext, rfl⟩ := Option.map_eq_some_iff.mp h
      obtain ⟨pre, n, n', post, rfl, hn, hf, rfl⟩ := ih hnext
      exact ⟨m :: pre, n, n', post, rfl, hn, hf, rfl⟩

/-- The walk comes to an end with a change when the address is held and the change applies. -/
theorem at_node_some (hheld : ∃ n ∈ nodes, n.holds phys = true)
    (hf : ∀ n ∈ nodes, n.holds phys = true → ∃ n', f n = some n') :
    ∃ nodes', at_node phys f nodes = some nodes' := by
  induction nodes with
  | nil =>
    obtain ⟨n, hn, _⟩ := hheld
    cases hn
  | cons m next ih =>
    unfold at_node
    split
    · rename_i hm
      obtain ⟨m', hm'⟩ := hf m (by simp) hm
      exact ⟨m' :: next, by rw [hm']; rfl⟩
    · rename_i hm
      have hheld' := ((List.exists_mem_cons_iff _ _ _).mp hheld).resolve_left hm
      obtain ⟨next', hnext⟩ := ih hheld' (fun n hn => hf n (by simp [hn]))
      exact ⟨m :: next', by rw [hnext]; rfl⟩

end Nodes

/-! ## The search for a free page -/

theorem find_bit_some {pages word_idx : Nat} {val : UInt64} {b : Nat}
    (h : find_bit pages word_idx val = some b) :
    b < 64 ∧ word_idx * 64 + b < pages ∧ has val b = true := by
  have hmem := List.mem_of_find?_eq_some h
  have hpages := List.all_eq_true.mp List.all_takeWhile b hmem
  exact ⟨List.mem_range.mp (List.takeWhile_subset _ hmem), by simpa using hpages, List.find?_some h⟩

theorem find_bit_none {pages word_idx : Nat} {val : UInt64} (h : find_bit pages word_idx val = none)
    {b : Nat} (hb : b < 64) (hpages : word_idx * 64 + b < pages) : has val b = false := by
  unfold find_bit at h
  -- all bits up to this one are inside the region
  have hsplit := @List.range_add (b + 1) (63 - b)
  rw [show b + 1 + (63 - b) = 64 by omega] at hsplit
  rw [hsplit, List.takeWhile_append_of_pos] at h
  · have := List.find?_eq_none.mp h b (by simp)
    simpa using this
  · simp
    omega

/-- What the loop over the words finds, for pages of 4 KiB. The words are those
of a bitmap from word `word_idx` on. -/
theorem find_word_spec (map : List UInt64) (pages : Nat) (words : List UInt64) (word_idx : Nat)
    (hwords : words = map.drop word_idx) :
    (∃ k, find_word 1 pages word_idx words = .ok (some k) ∧ bit map k = true ∧ k < pages) ∨
      (find_word 1 pages word_idx words = .ok none ∧
        ∀ k < pages, word_idx ≤ k / 64 → bit map k = false) := by
  induction words generalizing word_idx with
  | nil =>
    refine Or.inr ⟨rfl, ?_⟩
    intro k _ hk
    have hlen := List.drop_eq_nil_iff.mp hwords.symm
    cases hbit : bit map k with
    | false => rfl
    | true =>
      have := lt_length_of_bit map hbit
      omega
  | cons val words ih =>
    have hget : map.getD word_idx 0 = val := by
      have h := congrArg (fun l => l.head?) hwords
      simp only [List.head?_drop] at h
      rw [List.getD_eq_getElem?_getD, ← h]
      rfl
    have hrest : words = map.drop (word_idx + 1) := by
      rw [← List.tail_drop, ← hwords]
      rfl
    -- the bits of this word are clear, and so are those of the rest
    have hnone : (∀ b < 64, word_idx * 64 + b < pages → has val b = false) →
        (∀ k < pages, word_idx + 1 ≤ k / 64 → bit map k = false) →
        ∀ k < pages, word_idx ≤ k / 64 → bit map k = false := by
      intro hword hafter k hk hle
      by_cases heq : k / 64 = word_idx
      · unfold bit
        rw [heq, hget]
        exact hword (k % 64) (Nat.mod_lt _ (by decide)) (by omega)
      · exact hafter k hk (by omega)
    unfold find_word
    split
    · rename_i hzero
      rcases ih (word_idx + 1) hrest with h | ⟨h, hafter⟩
      · exact Or.inl h
      · refine Or.inr ⟨h, hnone ?_ hafter⟩
        intro b hb _
        rw [hzero]
        exact has_zero hb
    · rw [if_neg (by decide)]
      split
      · rename_i b hb
        obtain ⟨hlt, hpages, hhas⟩ := find_bit_some hb
        refine Or.inl ⟨_, rfl, ?_, hpages⟩
        unfold bit
        rw [show (word_idx * 64 + b) / 64 = word_idx by omega, hget,
          show (word_idx * 64 + b) % 64 = b by omega]
        exact hhas
      · rename_i hb
        rcases ih (word_idx + 1) hrest with h | ⟨h, hafter⟩
        · exact Or.inl h
        · exact Or.inr ⟨h, hnone (fun b h64 hp => find_bit_none hb h64 hp) hafter⟩

/-- The search takes the first free frame, or there is none. -/
theorem take_first_spec (nodes : List BitmapNode) (hs : Sound nodes) :
    (∃ pre n k post, nodes = pre ++ n :: post ∧ bit n.map k = true ∧ k < n.pages ∧
        take_first 1 nodes = .ok (some (n.frame k,
          pre ++ { n with map := clear n.map k } :: post))) ∨
      (take_first 1 nodes = .ok none ∧ ∀ a, ¬Free nodes a) := by
  induction nodes with
  | nil =>
    refine Or.inr ⟨rfl, ?_⟩
    rintro a ⟨n, hn, _⟩
    cases hn
  | cons n next ih =>
    unfold take_first
    rcases find_word_spec n.map n.pages n.map 0 rfl with ⟨k, hfind, hbit, hk⟩ | ⟨hfind, hnone⟩
    · unfold pages at hfind
      rw [hfind]
      exact Or.inl ⟨[], n, k, next, rfl, hbit, hk, rfl⟩
    unfold pages at hfind
    rw [hfind]
    rcases ih (fun m hm => hs m (by simp [hm])) with ⟨pre, m, k, post, rfl, hbit, hk, h⟩ | ⟨h, hrest⟩
    · refine Or.inl ⟨n :: pre, m, k, post, rfl, hbit, hk, ?_⟩
      rw [h]
      rfl
    · refine Or.inr ⟨by rw [h]; rfl, ?_⟩
      intro a hfree
      rcases (List.exists_mem_cons_iff _ _ _).mp hfree with ⟨k, hbit, rfl⟩ | hfree
      · have := hnone k ((hs n (by simp)).inside k hbit) (Nat.zero_le _)
        rw [hbit] at this
        cases this
      · exact hrest a hfree

theorem find_word_2m (pages : Nat) (words : List UInt64) (word_idx : Nat) :
    find_word PageSize.Size2MiB.step pages word_idx words =
      if words.all (· == 0) then .ok none else .error .overflow := by
  induction words generalizing word_idx with
  | nil => rfl
  | cons val words ih =>
    unfold find_word
    by_cases hval : val = 0
    · rw [if_pos hval, ih]
      simp [hval]
    · rw [if_neg hval, if_pos (by decide), if_neg (by simp [hval])]

/-- The search for 2 MiB never succeeds: at the first word with a free page it
panics. -/
theorem take_first_2m (nodes : List BitmapNode) :
    take_first PageSize.Size2MiB.step nodes =
      if nodes.all (·.map.all (· == 0)) then .ok none else .error .overflow := by
  induction nodes with
  | nil => rfl
  | cons n next ih =>
    unfold take_first
    rw [find_word_2m, ih, List.all_cons]
    cases n.map.all (· == 0) with
    | false => rfl
    | true => cases next.all (·.map.all (· == 0)) <;> rfl

end zenos_kernel.memory
