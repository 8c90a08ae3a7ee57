-- What `truncate` frees. The data blocks behind the new end are freed wherever they
-- stand, but only the slots of the inode are cleared. A pointer to a freed block stays
-- when the block of pointers that holds it does.
import Zenos.Ext2.ByteArray
import Mathlib.Data.List.FinRange

namespace zenos_kernel.disk.fs.ext2

open Bytes Outcome Ext2FSInner PointerTree Volume

/-! ## The places of the data blocks -/

namespace ExtFileInodeOps

variable {I : Finset UInt32} {f : ExtFileInodeOps}

/-- The slot `k` of the inode. -/
def slot (f : ExtFileInodeOps) (k : Fin 15) : Place Tree := ⟨(f.inode_num, k), []⟩

/-- The places below `P`. -/
def children (f : ExtFileInodeOps) (P : Place Tree) : List (Place Tree) :=
  (List.range f.volume.geometry.width).map P.child

/-- The places of the blocks that `pointers_below` lists. -/
def places_below (f : ExtFileInodeOps) (I : Finset UInt32) : Nat → Place Tree → List (Place Tree)
  | 0, P => f.children P
  | level + 1, P =>
    ((f.children P).filter (fun Q => f.own I Q != 0)).flatMap (f.places_below I level)

/-- The places of the blocks below slot `k`. -/
def tree_places (f : ExtFileInodeOps) (I : Finset UInt32) (k : Fin 15) (level : Nat) :
    List (Place Tree) :=
  ([f.slot k].filter (fun Q => f.own I Q != 0)).flatMap (f.places_below I level)

/-- The places of the blocks that `collect_data_blocks` lists. -/
def data_places (f : ExtFileInodeOps) (I : Finset UInt32) : List (Place Tree) :=
  (List.ofFn f.slot).take 12 ++
    (f.tree_places I single_slot 0 ++
    (f.tree_places I double_slot 1 ++ f.tree_places I triple_slot 2))

variable {P Q : Place Tree} {level : Nat}

theorem map_children (hP : P.path.length < P.tree.depth) (hne : f.own I P ≠ 0) :
    (f.children P).map (f.own I) = f.volume.pointers (f.own I P) := by
  unfold children
  rw [List.map_map]
  apply List.map_congr_left
  intro j hj
  change f.own I (P.child j) = _
  rw [own_child hP (List.mem_range.mp hj), if_neg hne]

/-- The blocks at the places that hold one. -/
theorem map_flatMap_filter {g : Place Tree → List (Place Tree)} {h : UInt32 → List UInt32}
    {Ps : List (Place Tree)} (hg : ∀ Q ∈ Ps, f.own I Q ≠ 0 → (g Q).map (f.own I) = h (f.own I Q)) :
    ((Ps.filter (fun Q => f.own I Q != 0)).flatMap g).map (f.own I) =
      ((Ps.map (f.own I)).filter (· != 0)).flatMap h := by
  rw [List.filter_map, List.flatMap_map, List.map_flatMap]
  refine List.flatMap_congr ?_
  intro Q hQ
  obtain ⟨hmem, hne⟩ := List.mem_filter.mp hQ
  exact hg Q hmem (by simpa using hne)

theorem mem_children (h : Q ∈ f.children P) : ∃ j < f.volume.geometry.width, Q = P.child j := by
  obtain ⟨j, hj, rfl⟩ := List.mem_map.mp h
  exact ⟨j, List.mem_range.mp hj, rfl⟩

theorem map_places_below (hP : P.path.length + level + 1 = P.tree.depth) (hne : f.own I P ≠ 0) :
    (f.places_below I level P).map (f.own I) = f.volume.below level (f.own I P) := by
  induction level generalizing P with
  | zero => exact map_children (by omega) hne
  | succ level ih =>
    unfold places_below below
    rw [map_flatMap_filter (h := f.volume.below level), map_children (by omega) hne]
    intro Q hQ hQne
    obtain ⟨j, -, rfl⟩ := mem_children hQ
    refine ih ?_ hQne
    rw [Place.child_path, Place.child_tree, List.length_append, List.length_singleton]
    omega

/-- The blocks at the data places are those that `collect_data_blocks` lists. -/
theorem map_data_places (f : ExtFileInodeOps) (I : Finset UInt32) :
    (f.data_places I).map (f.own I) = f.volume.data_list f.ext2inode := by
  have hslot : ∀ k, f.own I (f.slot k) = f.ext2inode.i_block k := own_slot f I
  have htree : ∀ (k : Fin 15) (level : Nat), level + 1 = Tree.depth (f.inode_num, k) →
      (f.tree_places I k level).map (f.own I) =
        ([f.ext2inode.i_block k].filter (· != 0)).flatMap (f.volume.below level) := by
    intro k level hdepth
    unfold tree_places
    rw [map_flatMap_filter (h := f.volume.below level), List.map_singleton, hslot]
    intro Q hQ hQne
    rw [List.mem_singleton] at hQ
    subst hQ
    refine map_places_below ?_ hQne
    change 0 + level + 1 = Tree.depth (f.inode_num, k)
    omega
  unfold data_places data_list
  rw [List.map_append, List.map_append, List.map_append, htree single_slot 0 rfl,
    htree double_slot 1 rfl, htree triple_slot 2 rfl, List.map_take, List.map_ofFn]
  rw [show f.own I ∘ f.slot = f.ext2inode.i_block from funext hslot]

/-! ### They are different -/

theorem mem_places_below (h : Q ∈ f.places_below I level P) :
    OnWay P Q ∧ Q.path.length = P.path.length + level + 1 := by
  induction level generalizing P with
  | zero =>
    obtain ⟨j, -, rfl⟩ := mem_children h
    exact ⟨onWay_child.mpr (Or.inl (onWay_refl P)), by simp⟩
  | succ level ih =>
    obtain ⟨R, hR, hQ⟩ := List.mem_flatMap.mp h
    obtain ⟨j, -, rfl⟩ := mem_children (List.mem_of_mem_filter hR)
    obtain ⟨hway, hlen⟩ := ih hQ
    refine ⟨⟨hway.1, (List.prefix_append _ _).trans hway.2⟩, ?_⟩
    rw [hlen]
    simp
    omega

theorem nodup_children (f : ExtFileInodeOps) (P : Place Tree) : (f.children P).Nodup := by
  refine List.Nodup.map ?_ List.nodup_range
  intro i j h
  exact (Place.child_inj h).2

theorem nodup_places_below (level : Nat) (P : Place Tree) : (f.places_below I level P).Nodup := by
  induction level generalizing P with
  | zero => exact nodup_children f P
  | succ level ih =>
    refine List.nodup_flatMap.mpr ⟨fun Q _ => ih Q, ?_⟩
    refine ((nodup_children f P).filter _).pairwise_of_forall_ne ?_
    intro Q hQ R hR hne S hSQ hSR
    obtain ⟨i, -, rfl⟩ := mem_children (List.mem_of_mem_filter hQ)
    obtain ⟨j, -, rfl⟩ := mem_children (List.mem_of_mem_filter hR)
    have h1 := (mem_places_below hSQ).1
    have h2 := (mem_places_below hSR).1
    have hle := List.prefix_of_prefix_length_le h1.2 h2.2 (by simp)
    exact hne (Place.ext rfl (hle.eq_of_length (by simp)))

theorem mem_tree_places {k : Fin 15} (h : Q ∈ f.tree_places I k level) :
    Q.tree = (f.inode_num, k) ∧ Q.path.length = level + 1 ∧ f.own I (f.slot k) ≠ 0 := by
  obtain ⟨P, hP, hQ⟩ := List.mem_flatMap.mp h
  rw [List.mem_filter, List.mem_singleton] at hP
  obtain ⟨rfl, hne⟩ := hP
  obtain ⟨hway, hlen⟩ := mem_places_below hQ
  refine ⟨hway.1.symm, ?_, by simpa using hne⟩
  rw [hlen]
  change 0 + level + 1 = level + 1
  omega

theorem nodup_tree_places (k : Fin 15) (level : Nat) : (f.tree_places I k level).Nodup := by
  refine List.nodup_flatMap.mpr ⟨fun Q _ => nodup_places_below level Q, ?_⟩
  exact ((List.nodup_singleton _).filter _).pairwise_of_forall_ne
    (fun P hP Q hQ hne => by
      rw [List.mem_filter, List.mem_singleton] at hP hQ
      exact absurd (hP.1.trans hQ.1.symm) hne)

theorem mem_direct (h : Q ∈ (List.ofFn f.slot).take 12) :
    ∃ k : Fin 15, k.val < 12 ∧ Q = f.slot k := by
  obtain ⟨i, hi, rfl⟩ := List.mem_iff_getElem.mp h
  have hlen : i < 12 := by
    rw [List.length_take] at hi
    omega
  refine ⟨⟨i, by omega⟩, hlen, ?_⟩
  rw [List.getElem_take, List.getElem_ofFn]

theorem nodup_data_places (f : ExtFileInodeOps) (I : Finset UInt32) : (f.data_places I).Nodup := by
  have hslot : Function.Injective f.slot := fun k k' h => congrArg (fun P => P.tree.2) h
  have htrees : ∀ {P : Place Tree} {k k' : Fin 15}, P.tree = (f.inode_num, k) →
      P.tree = (f.inode_num, k') → k = k' := fun h h' => congrArg Prod.snd (h.symm.trans h')
  unfold data_places
  rw [List.nodup_append, List.nodup_append, List.nodup_append]
  refine ⟨?_, ⟨nodup_tree_places _ _, ⟨nodup_tree_places _ _, nodup_tree_places _ _, ?_⟩, ?_⟩, ?_⟩
  · exact (List.nodup_ofFn.mpr hslot).sublist (List.take_sublist _ _)
  · rintro P hP Q hQ rfl
    exact absurd (htrees (mem_tree_places hP).1 (mem_tree_places hQ).1) (by decide)
  · rintro P hP Q hQ rfl
    rcases List.mem_append.mp hQ with hQ | hQ
    · exact absurd (htrees (mem_tree_places hP).1 (mem_tree_places hQ).1) (by decide)
    · exact absurd (htrees (mem_tree_places hP).1 (mem_tree_places hQ).1) (by decide)
  · rintro P hP Q hQ rfl
    -- a slot has no path, and the others do
    obtain ⟨k, -, rfl⟩ := mem_direct hP
    have hpath : (f.slot k).path.length = 0 := rfl
    rw [List.mem_append, List.mem_append] at hQ
    rcases hQ with hQ | hQ | hQ
    all_goals
      have := (mem_tree_places hQ).2.1
      omega

end ExtFileInodeOps

/-! ## Giving blocks back -/

/-- The bit of a block is clear. -/
def Volume.Cleared (v : Volume) (b : UInt32) : Prop :=
  ∃ g i, g < v.geometry.groups.length ∧ i < 8 * v.geometry.bs ∧ i < v.geometry.blocks_per_grp ∧
    b.toNat = v.first_block g + i ∧ v.clear g i = true

namespace Volume

variable {v v' : Volume} {b b' : UInt32}

theorem Cleared.not_marked (h : v.Cleared b) : ¬ v.Marked b := by
  rintro ⟨g', i', -, -, hbpg', hb', hset⟩
  obtain ⟨g, i, -, -, hbpg, hb, hclear⟩ := h
  obtain ⟨rfl, rfl⟩ := bit_unique hbpg hbpg' (hb.symm.trans hb')
  rw [hclear] at hset
  cases hset

/-- A bit that is clear stays so when others are cleared. -/
theorem Cleared.freed (h : v.Cleared b) (hG : v.geometry.Layout) (hf : Freed v b' v') :
    v'.Cleared b := by
  obtain ⟨g', i', hg', hi', -, -, -, -, rfl⟩ := hf
  obtain ⟨g, i, hg, hi, hbpg, hb, hclear⟩ := h
  refine bit_of_eq (freed_geometry v g' i') hg hi hbpg hb ?_
  exact (clear_freed hG hg' hg hi' hi).mpr (Or.inl hclear)

theorem cleared_of_freed (hG : v.geometry.Layout) (hf : Freed v b v') : v'.Cleared b := by
  obtain ⟨g, i, hg, hi, hbpg, hb, -, -, rfl⟩ := hf
  refine bit_of_eq (freed_geometry v g i) hg hi hbpg hb ?_
  exact (clear_freed hG hg hg hi hi).mpr (Or.inr ⟨rfl, rfl⟩)

end Volume

/-- The blocks of the places `R` were given back, and nothing else was written. -/
structure Released (v v' : Volume) (own : Place Tree → UInt32) (R : Place Tree → Prop) : Prop where
  kept : Volume.Kept v v' (fun _ => False)
  booked : Booked v' (fun P => ¬ R P) own
  cleared : ∀ P, R P → own P ≠ 0 → v'.Cleared (own P)

namespace Released

variable {v v' v'' : Volume} {own : Place Tree → UInt32} {R R' : Place Tree → Prop}
  {P0 : Place Tree}

theorem refl (h : Booked v (fun _ => True) own) : Released v v own (fun _ => False) :=
  ⟨Kept.refl v _, h.mono (fun _ _ _ => ⟨trivial, rfl⟩), fun _ h => h.elim⟩

section

variable (h : Released v v' own R)

include h

/-- Places that hold nothing have nothing to give back. -/
theorem widen (hR : ∀ P, R P → R' P)
    (hzero : ∀ P, R' P → R P ∨ own P = 0) : Released v v' own R' := by
  refine ⟨h.kept, h.booked.mono (fun P hP _ => ⟨fun hRP => hP (hR P hRP), rfl⟩), ?_⟩
  intro P hP hne
  exact h.cleared P ((hzero P hP).resolve_right hne) hne

theorem congr (hR : ∀ P, R' P ↔ R P) : Released v v' own R' :=
  h.widen (fun P => (hR P).mpr) (fun P hP => Or.inl ((hR P).mp hP))

theorem skip (h0 : own P0 = 0) : Released v v' own (fun P => R P ∨ P = P0) := by
  refine h.widen (fun _ => Or.inl) ?_
  rintro P (hP | rfl)
  · exact Or.inl hP
  · exact Or.inr h0

theorem free (hG : v.geometry.Layout) (hnot : ¬ R P0) (hne0 : own P0 ≠ 0)
    (hf : Freed v' (own P0) v'') : Released v v'' own (fun P => R P ∨ P = P0) := by
  have hG' : v'.geometry.Layout := by rw [h.kept.geometry]; exact hG
  refine ⟨?_, ?_, ?_⟩
  · refine (h.kept.trans (kept_freed hG' hf (fun _ => False))).mono ?_
    simp
  · refine (h.booked.freed hG' hnot hne0 hf).1.mono (fun P hP _ => ⟨⟨?_, ?_⟩, rfl⟩)
    · exact fun hRP => hP (Or.inl hRP)
    · exact fun hP0 => hP (Or.inr hP0)
  · rintro P (hP | rfl) hne
    · exact (h.cleared P hP hne).freed hG' hf
    · exact cleared_of_freed hG' hf

end

end Released

/-- The places after the first one, when that one was given back. -/
theorem nodup_rest {R : Place Tree → Prop} {P : Place Tree} {Ps : List (Place Tree)}
    (hnodup : (P :: Ps).Nodup) (hnot : ∀ Q ∈ P :: Ps, ¬ R Q) :
    Ps.Nodup ∧ ∀ Q ∈ Ps, ¬ (R Q ∨ Q = P) := by
  obtain ⟨hP, hnodup⟩ := List.nodup_cons.mp hnodup
  refine ⟨hnodup, ?_⟩
  rintro Q hQ (hRQ | rfl)
  · exact hnot Q (List.mem_cons_of_mem _ hQ) hRQ
  · exact hP hQ

namespace Ext2FSInner

variable {v : Volume} {own : Place Tree → UInt32} {R : Place Tree → Prop}

theorem ends_each_free (hG : v.geometry.Layout) {Ps : List (Place Tree)} (hnodup : Ps.Nodup)
    (hnot : ∀ P ∈ Ps, ¬ R P) {s : Ext2FSInner} (h : Released v s.volume own R) :
    Yields (each ((Ps.map own).filter (· != 0)) free_block s)
      (fun _ s' => Released v s'.volume own (fun P => R P ∨ P ∈ Ps)) := by
  induction Ps generalizing s R with
  | nil => exact ends_pure (h.congr (fun P => by simp))
  | cons P Ps ih =>
    obtain ⟨hnodup, hrest⟩ := nodup_rest hnodup hnot
    have hlast : ∀ {s' : Ext2FSInner},
        Released v s'.volume own (fun Q => (R Q ∨ Q = P) ∨ Q ∈ Ps) →
        Released v s'.volume own (fun Q => R Q ∨ Q ∈ P :: Ps) :=
      fun h => h.congr (fun Q => by rw [List.mem_cons, or_assoc])
    rw [List.map_cons]
    by_cases h0 : own P = 0
    · rw [List.filter_cons_of_neg (by simpa using h0)]
      exact (ih hnodup hrest (h.skip h0)).mono_ok (fun _ _ h => hlast h)
    · rw [List.filter_cons_of_pos (by simpa using h0)]
      refine ends_bind (s.ends_free_block (own P)) ?_
      intro _ s1 hf
      have hfree := h.free hG (hnot P List.mem_cons_self) h0 hf
      exact (ih hnodup hrest hfree).mono_ok (fun _ _ h => hlast h)

end Ext2FSInner

/-! ## `truncate` -/

namespace ExtFileInodeOps

variable {I : Finset UInt32} {f f' : ExtFileInodeOps} {v : Volume} {own : Place Tree → UInt32}
  {R : Place Tree → Prop} {Ps : List (Place Tree)}

theorem ends_sub_blocks (f : ExtFileInodeOps) :
    Yields (sub_blocks f) (fun _ f' => SameHandle f f' ∧ f'.volume = f.volume) := by
  unfold sub_blocks
  rw [get_bind]
  split
  · exact ⟨⟨rfl, rfl, rfl⟩, rfl⟩
  · exact trivial

theorem ends_free_data_blocks (hG : v.geometry.Layout) {first i : Nat}
    (hnodup : Ps.Nodup) (hnot : ∀ P ∈ Ps, ¬ R P) (h : Released v f.volume own R) :
    Yields (free_data_blocks first i (Ps.map own) f) (fun _ f' => SameHandle f f' ∧
        Released v f'.volume own (fun P => R P ∨ P ∈ Ps.drop (first - i))) := by
  induction Ps generalizing f i R with
  | nil => exact ends_pure ⟨⟨rfl, rfl, rfl⟩, h.congr (fun P => by simp)⟩
  | cons P Ps ih =>
    obtain ⟨hnodup, hrest⟩ := nodup_rest hnodup hnot
    rw [List.map_cons]
    unfold free_data_blocks
    by_cases hi : first ≤ i
    · -- this one and all that follow
      have hdrop : first - i = 0 := by omega
      have hdrop' : first - (i + 1) = 0 := by omega
      have hlast : ∀ {f' : ExtFileInodeOps},
          Released v f'.volume own (fun Q => (R Q ∨ Q = P) ∨ Q ∈ Ps.drop (first - (i + 1))) →
          Released v f'.volume own (fun Q => R Q ∨ Q ∈ (P :: Ps).drop (first - i)) := by
        intro f' h
        refine h.congr (fun Q => ?_)
        rw [hdrop, hdrop', List.drop_zero, List.drop_zero, List.mem_cons, or_assoc]
      split
      · rename_i hfree
        refine ends_bind (ends_locked (f.inner.ends_free_block (own P))).forget ?_
        rintro _ f1 ⟨hf, hino, hnum⟩
        refine ends_bind (ends_sub_blocks f1) ?_
        rintro _ f2 ⟨hs2, hv2⟩
        have hreleased : Released v f2.volume own (fun Q => R Q ∨ Q = P) := by
          rw [hv2]
          exact h.free hG (hnot P List.mem_cons_self) hfree.2 hf
        refine (ih hnodup hrest hreleased).mono_ok ?_
        rintro _ f3 ⟨hs3, h3⟩
        exact ⟨((SameHandle.of_eq hino hnum).trans hs2).trans hs3, hlast h3⟩
      · rename_i hfree
        have h0 : own P = 0 := Decidable.byContradiction (fun hne => hfree ⟨hi, hne⟩)
        refine (ih hnodup hrest (h.skip h0)).mono_ok ?_
        exact fun _ f3 h3 => ⟨h3.1, hlast h3.2⟩
    · rw [if_neg (fun h => hi h.1)]
      refine (ih hnodup (fun Q hQ => hnot Q (List.mem_cons_of_mem _ hQ)) h).mono_ok ?_
      rintro _ f3 ⟨hs3, h3⟩
      refine ⟨hs3, ?_⟩
      rwa [show first - i = first - (i + 1) + 1 by omega, List.drop_succ_cons]

/-- The handle is as before but for slot `k`, which is empty now. -/
structure SlotCleared (f f' : ExtFileInodeOps) (k : Fin 15) : Prop where
  inode_num : f'.inode_num = f.inode_num
  i_block : f'.ext2inode.i_block = Function.update f.ext2inode.i_block k 0

theorem slotCleared_refl {k : Fin 15} (h : f.ext2inode.i_block k = 0) : SlotCleared f f k := by
  refine ⟨rfl, ?_⟩
  rw [← h, Function.update_eq_self]

variable {f1 : ExtFileInodeOps} {nbc w size : Nat} {R' : Place Tree → Prop} {D : Fin 15 → Prop}
  {P0 : Place Tree}

theorem slotCleared_set (k : Fin 15) (hino : f1.ext2inode = f.ext2inode)
    (hnum : f1.inode_num = f.inode_num) : SlotCleared f (f1.set_block k 0) k := by
  refine ⟨hnum, ?_⟩
  rw [← hino]
  rfl

theorem ends_free_single (hG : v.geometry.Layout) (hslot : f.ext2inode.i_block single_slot = own P0)
    (hnot : ¬ R P0) (h : Released v f.volume own R) :
    Yields (free_single f) (fun _ f' => SlotCleared f f' single_slot ∧
      Released v f'.volume own (fun P => R P ∨ P = P0)) := by
  unfold free_single
  rw [get_bind]
  split
  · rename_i hne
    refine ends_bind (ends_locked (f.inner.ends_free_block _)).forget ?_
    rintro _ f1 ⟨hf, hino, hnum⟩
    rw [hslot] at hf hne
    exact ⟨slotCleared_set _ hino hnum, h.free hG hnot hne hf⟩
  · rename_i h0
    have h0 : f.ext2inode.i_block single_slot = 0 := Decidable.not_not.mp h0
    exact ends_pure ⟨slotCleared_refl h0, h.skip (hslot ▸ h0)⟩

/-- The double indirect block is freed with the blocks of pointers that it holds. -/
theorem ends_free_double (hG : v.geometry.Layout) (hslot : f.ext2inode.i_block double_slot = own P0)
    (hptrs : own P0 ≠ 0 → v.geometry.DataBlock (own P0) ∧ Ps.map own = v.pointers (own P0))
    (hzero : own P0 = 0 → ∀ P ∈ Ps, own P = 0) (hnodup : Ps.Nodup) (hP0 : P0 ∉ Ps) (hnot : ¬ R P0)
    (hnots : ∀ P ∈ Ps, ¬ R P) (h : Released v f.volume own R) :
    Yields (free_double f) (fun _ f' => SlotCleared f f' double_slot ∧
      Released v f'.volume own (fun P => R P ∨ P = P0 ∨ P ∈ Ps)) := by
  unfold free_double
  rw [get_bind]
  split
  · rename_i hne
    rw [hslot] at hne
    obtain ⟨hdata, hptrs⟩ := hptrs hne
    refine ends_bind (ends_locked (f.inner.ends_read_array _)).forget ?_
    rintro l1 f1 ⟨⟨hv1, hl1⟩, hino1, hnum1⟩
    have hv1 : f1.volume = f.volume := hv1
    -- the block of pointers is as it was
    have hlist : l1 = Ps.map own := by
      rw [hl1, hptrs, hslot]
      change f.volume.pointers (own P0) = _
      unfold pointers
      rw [h.kept.geometry]
      exact List.map_congr_left (fun j _ => h.kept.pointer hdata id j)
    have h1 : Released v f1.inner.volume own R := by
      change Released v f1.volume own R
      rw [hv1]
      exact h
    rw [hlist]
    refine ends_bind (ends_locked (ends_each_free hG hnodup hnots h1)).forget ?_
    rintro _ f2 ⟨h2, hino2, hnum2⟩
    refine ends_bind (ends_locked (f2.inner.ends_free_block _)).forget ?_
    rintro _ f3 ⟨hf3, hino3, hnum3⟩
    rw [hslot] at hf3
    refine ⟨slotCleared_set _ (hino3.trans (hino2.trans hino1))
      (hnum3.trans (hnum2.trans hnum1)), ?_⟩
    refine (h2.free hG ?_ hne hf3).congr (fun P => ?_)
    · rintro (hR | hmem)
      · exact hnot hR
      · exact hP0 hmem
    · rw [or_assoc, or_comm (a := P ∈ Ps)]
  · rename_i h0
    have h0 : f.ext2inode.i_block double_slot = 0 := Decidable.not_not.mp h0
    refine ends_pure ⟨slotCleared_refl h0, h.widen (fun _ => Or.inl) ?_⟩
    rw [hslot] at h0
    rintro P (hP | rfl | hP)
    · exact Or.inl hP
    · exact Or.inr h0
    · exact Or.inr (hzero h0 P hP)

theorem leaf_of_mem_data_places {Q : Place Tree} (h : Q ∈ f.data_places I) :
    Q.tree.1 = f.inode_num ∧ Q.path.length = Q.tree.depth := by
  unfold data_places at h
  rw [List.mem_append, List.mem_append, List.mem_append] at h
  rcases h with h | h | h | h
  · obtain ⟨k, hk, rfl⟩ := mem_direct h
    refine ⟨rfl, ?_⟩
    change 0 = k.val - 11
    omega
  all_goals
    obtain ⟨htree, hlen, -⟩ := mem_tree_places h
    rw [htree, hlen]
    exact ⟨rfl, rfl⟩

/-- The slots that are cleared when `nbc` data blocks are left and a block holds `w`
pointers. -/
def Dropped (w nbc : Nat) (k : Fin 15) : Prop :=
  (nbc ≤ k.val ∧ k.val < 12) ∨ (nbc ≤ 12 ∧ k = single_slot) ∨ (nbc ≤ 12 + w ∧ k = double_slot)

instance (w nbc : Nat) (k : Fin 15) : Decidable (Dropped w nbc k) :=
  inferInstanceAs (Decidable (_ ∨ _ ∨ _))

theorem dropped_single : Dropped w nbc single_slot ↔ nbc ≤ 12 := by
  simp [Dropped, single_slot, double_slot]

theorem dropped_double : Dropped w nbc double_slot ↔ nbc ≤ 12 + w := by
  simp [Dropped, single_slot, double_slot]

theorem dropped_other {k : Fin 15} (hs : k ≠ single_slot) (hd : k ≠ double_slot) :
    Dropped w nbc k ↔ nbc ≤ k.val ∧ k.val < 12 := by
  simp [Dropped, hs, hd]

/-- The places whose blocks are freed when `nbc` data blocks are left. -/
def GivenBack (I : Finset UInt32) (f : ExtFileInodeOps) (nbc : Nat) (P : Place Tree) : Prop :=
  P ∈ (f.data_places I).drop nbc ∨ (nbc ≤ 12 ∧ P = f.slot single_slot) ∨
    (nbc ≤ 12 + f.volume.geometry.width ∧
      (P = f.slot double_slot ∨ P ∈ f.children (f.slot double_slot)))

/-- The slots `D` are cleared, and the blocks at the places `R` are freed. -/
structure Shrunk (I : Finset UInt32) (f f' : ExtFileInodeOps) (D : Fin 15 → Prop)
    [DecidablePred D] (R : Place Tree → Prop) : Prop where
  inode_num : f'.inode_num = f.inode_num
  i_block : ∀ k, f'.ext2inode.i_block k = if D k then 0 else f.ext2inode.i_block k
  released : Released f.volume f'.volume (f.own I) R

theorem Shrunk.clear [DecidablePred D] {k0 : Fin 15} (h : Shrunk I f f1 D R)
    (hs : SlotCleared f1 f' k0) (hr : Released f.volume f'.volume (f.own I) R') :
    Shrunk I f f' (fun k => D k ∨ k = k0) R' := by
  refine ⟨hs.inode_num.trans h.inode_num, ?_, hr⟩
  intro k
  rw [hs.i_block]
  by_cases hk : k = k0
  · simp [hk]
  · simp [hk, h.i_block]

theorem Shrunk.congr {D' : Fin 15 → Prop} [DecidablePred D] [DecidablePred D']
    (h : Shrunk I f f' D R) (hD : ∀ k, D' k ↔ D k)
    (hR : ∀ P, R' P ↔ R P) : Shrunk I f f' D' R' := by
  refine ⟨h.inode_num, ?_, h.released.congr hR⟩
  intro k
  rw [h.i_block]
  simp only [hD]

/-- What `free_double` needs to know of the double indirect block. -/
theorem ends_free_double_of (hf : Good I f)
    (hslot : f1.ext2inode.i_block double_slot = f.ext2inode.i_block double_slot)
    (hleaf : ∀ P, R P → P.path.length = P.tree.depth ∨ P = f.slot single_slot)
    (h : Released f.volume f1.volume (f.own I) R) :
    Yields (free_double f1) (fun _ f' => SlotCleared f1 f' double_slot ∧
      Released f.volume f'.volume (f.own I) (fun P => R P ∨ P = f.slot double_slot ∨
        P ∈ f.children (f.slot double_slot))) := by
  have hinner : (f.slot double_slot).path.length < (f.slot double_slot).tree.depth := by
    change 0 < 2
    omega
  have hnot : ¬ R (f.slot double_slot) := by
    intro hR
    rcases hleaf _ hR with hlen | heq
    · omega
    · have hslots : double_slot = single_slot := congrArg (fun P => P.tree.2) heq
      exact absurd hslots (by decide)
  have hchild : ∀ P ∈ f.children (f.slot double_slot), P.tree = (f.inode_num, double_slot) ∧
      P.path.length = 1 := by
    intro P hP
    obtain ⟨j, -, rfl⟩ := mem_children hP
    exact ⟨rfl, rfl⟩
  refine ends_free_double hf.layout ?_ ?_ ?_ (nodup_children _ _) ?_ hnot ?_ h
  · rw [hslot]
    exact (own_slot f I double_slot).symm
  · exact fun hne => ⟨hf.data hne, map_children hinner hne⟩
  · intro h0 P hP
    obtain ⟨j, hj, rfl⟩ := mem_children hP
    rw [own_child hinner hj, if_pos h0]
  · intro hmem
    have hlen : 0 = 1 := (hchild _ hmem).2
    cases hlen
  · intro P hP hR
    obtain ⟨htree, hlen⟩ := hchild P hP
    rcases hleaf P hR with hlen' | rfl
    · rw [htree, hlen] at hlen'
      cases hlen'
    · cases hlen

theorem ends_free_indirect (hf : Good I f)
    (h : Shrunk I f f1 (fun k => nbc ≤ k.val ∧ k.val < 12) (· ∈ (f.data_places I).drop nbc)) :
    Yields (free_indirect nbc f1) (fun _ f' => Shrunk I f f'
      (Dropped f.volume.geometry.width nbc) (GivenBack I f nbc)) := by
  have hw : f1.bs / 4 = f.volume.geometry.width :=
    congrArg Geometry.width h.released.kept.geometry
  have hslot : ∀ k : Fin 15, ¬ k.val < 12 → f1.ext2inode.i_block k = f.ext2inode.i_block k := by
    intro k hk
    rw [h.i_block, if_neg (fun h => hk h.2)]
  have hleaf : ∀ P ∈ (f.data_places I).drop nbc, P.path.length = P.tree.depth :=
    fun P hP => (leaf_of_mem_data_places (List.mem_of_mem_drop hP)).2
  unfold free_indirect
  rw [get_bind, hw]
  split
  · rename_i h12
    have hsingle : f1.ext2inode.i_block single_slot = f.own I (f.slot single_slot) := by
      rw [hslot single_slot (by decide)]
      exact (own_slot f I single_slot).symm
    refine ends_bind (ends_free_single hf.layout hsingle ?_ h.released) ?_
    · intro hmem
      exact absurd (hleaf _ hmem) (by change ¬ 0 = 1; decide)
    rintro _ f2 ⟨hs2, h2⟩
    refine (ends_free_double_of hf ?_ ?_ h2).mono_ok ?_
    · rw [hs2.i_block, Function.update_of_ne (by decide), hslot double_slot (by decide)]
    · rintro P (hP | rfl)
      · exact Or.inl (hleaf P hP)
      · exact Or.inr rfl
    · rintro _ f3 ⟨hs3, h3⟩
      have hp : nbc ≤ 12 + f.volume.geometry.width := by omega
      refine ((h.clear hs2 h2).clear hs3 h3).congr (fun k => ?_) (fun P => ?_)
      · simp [Dropped, h12, hp, or_assoc]
      · simp [GivenBack, h12, hp, or_assoc]
  · rename_i h12
    split
    · rename_i hp
      refine (ends_free_double_of hf (hslot double_slot (by decide))
        (fun P hP => Or.inl (hleaf P hP)) h.released).mono_ok ?_
      rintro _ f3 ⟨hs3, h3⟩
      refine (h.clear hs3 h3).congr (fun k => ?_) (fun P => ?_)
      · simp [Dropped, h12, hp]
      · simp [GivenBack, h12, hp]
    · rename_i hp
      refine ends_pure (h.congr (fun k => ?_) (fun P => ?_))
      · simp [Dropped, h12, hp]
      · simp [GivenBack, h12, hp]

/-- What `truncate` leaves. -/
structure Truncated (I : Finset UInt32) (f f' : ExtFileInodeOps) (size : Nat) (D : Fin 15 → Prop)
    [DecidablePred D] (R : Place Tree → Prop) : Prop extends SameOthers f f' where
  i_size : f'.ext2inode.i_size = UInt32.ofNat size
  i_block : ∀ k, f'.ext2inode.i_block k = if D k then 0 else f.ext2inode.i_block k
  stored : f'.Stored
  data : ∀ b, f.volume.geometry.DataBlock b → ∀ i, f.volume.geometry.InBlock b.toNat i →
    f'.volume.bytes i = f.volume.bytes i
  booked : Booked f'.volume (fun P => ¬ R P) (f.own I)
  cleared : ∀ P, R P → f.own I P ≠ 0 → f'.volume.Cleared (f.own I P)

theorem Cleared.synced {v' : Volume} {n b : UInt32} {data : List UInt8} (h : v.Cleared b)
    (hs : Synced v v' n data) (hG : v.geometry.Layout) (hn : v.geometry.HasInode n) :
    v'.Cleared b := by
  obtain ⟨g, i, hg, hi, hbpg, hb, hclear⟩ := h
  refine bit_of_eq hs.geometry hg hi hbpg hb ?_
  rw [← hclear]
  unfold clear
  rw [hs.geometry]
  have hin : v.geometry.InBlock (v.geometry.group g).block_bitmap.toNat
    (v.geometry.bitmap_at g + i / 8) := Geometry.inBlock_offset (by omega)
  refine Bitmap.clear_congr _ (hs.keeps hG hn (hG.bitmap_metadata g hg _ hin) ?_)
  intro g' hg' htable
  exact hG.table_bitmap g' hg' g hg _ htable hin

/-- The size is set, and the inode is written. -/
theorem ends_set_size (hf : Good I f) [DecidablePred D] (h : Shrunk I f f1 D R)
    (size : Nat) : Yields ((do modify (·.set_size (UInt32.ofNat size)); touch : FileM Unit) f1)
      (fun _ f' => Truncated I f f' size D R) := by
  have hgeo : f1.volume.geometry = f.volume.geometry := h.released.kept.geometry
  have hG : f1.volume.geometry.Layout := by rw [hgeo]; exact hf.layout
  have hn : f1.volume.geometry.HasInode f1.inode_num := by
    rw [hgeo, h.inode_num]
    exact hf.inodes _ hf.mem
  refine (ends_touch (f := f1.set_size (UInt32.ofNat size)) hG hn).mono_ok ?_
  rintro _ f2 ⟨hnum, hblock, hsize, hstored, hsync⟩
  have hsync : Synced f1.volume f2.volume f1.inode_num f2.ext2inode.serialize := hsync
  have hkept := h.released.kept
  have hothers := sameOthers_of_table hkept.toAlike h.inode_num hf.layout hkept.table
  refine ⟨hothers.trans (sameOthers_of_synced hsync hG hn hnum), hsize, ?_, hstored, ?_, ?_, ?_⟩
  · intro k
    rw [hblock]
    exact h.i_block k
  · intro b hb i hi
    rw [hsync.data_block hG hn (b := b) (by rw [hgeo]; exact hb) (by rw [hgeo]; exact hi)]
    exact hkept.data b hb id i hi
  · exact hsync.booked hG hn h.released.booked
  · intro P hP hne
    exact Cleared.synced (h.released.cleared P hP hne) hsync hG hn

theorem ends_truncate_longer (hf : Good I f) (hle : f.ext2inode.i_size.toNat ≤ size) :
    Yields (truncate size f)
      (fun _ f' => Truncated I f f' size (fun _ => False) (fun _ => False)) := by
  unfold truncate
  rw [get_bind]
  split
  · exact trivial
  · refine ends_set_size hf ⟨rfl, ?_, Released.refl hf.booked⟩ size
    intro k
    rw [if_neg id]

theorem ends_truncate_shorter (hf : Good I f) (hlt : size < f.ext2inode.i_size.toNat) :
    Yields (truncate size f) (fun _ f' => Truncated I f f' size
      (Dropped f.volume.geometry.width (f.count size)) (GivenBack I f (f.count size))) := by
  unfold truncate
  rw [get_bind]
  split
  · exact trivial
  rw [if_neg (by omega)]
  refine ends_bind (ends_locked
    (ends_collect_data_blocks hf.layout f.ext2inode f.inner rfl)).forget ?_
  rintro blocks f1 ⟨⟨hv1, rfl⟩, hino1, hnum1⟩
  have hv1 : f1.volume = f.volume := hv1
  have hstart : Released f.volume f1.volume (f.own I) (fun _ => False) := by
    rw [hv1]
    exact Released.refl hf.booked
  change Ends ((free_data_blocks (f.count size) 0
    (f.volume.data_list f.ext2inode) >>= fun _ => _) f1) _ _
  rw [← map_data_places f I]
  refine ends_bind (ends_free_data_blocks hf.layout (nodup_data_places f I)
    (fun _ _ h => h) hstart) ?_
  rintro _ f2 ⟨hs2, h2⟩
  rw [modify_bind]
  refine ends_bind (ends_free_indirect hf ⟨hs2.inode_num.trans hnum1, ?_,
    h2.congr (fun P => by rw [false_or, Nat.sub_zero]; rfl)⟩) ?_
  · intro k
    rw [← hino1, ← hs2.i_block]
    rfl
  intro _ f3 h3
  exact ends_set_size hf h3 size

end ExtFileInodeOps

end zenos_kernel.disk.fs.ext2
