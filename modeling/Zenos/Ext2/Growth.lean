-- `get_or_alloc_block` puts new blocks at empty places on the way to a data
-- block. Nothing that was stored moves, and no data block of any file changes.
import Zenos.Ext2.Ownership

namespace zenos_kernel.disk.fs.ext2

open Bytes Outcome Ext2FSInner PointerTree Volume

namespace ExtFileInodeOps

variable (f : ExtFileInodeOps)

/-- The volume under the handle. -/
def volume : Volume := f.inner.volume

/-- The slots of the inodes in use. For its own inode the handle decides. -/
def roots (I : Finset UInt32) (x : Tree) : UInt32 :=
  if x.1 = f.inode_num then f.ext2inode.i_block x.2 else f.volume.roots I x

/-- The block that is stored at a place. -/
def own (I : Finset UInt32) (P : Place Tree) : UInt32 :=
  f.volume.own (f.roots I) P

/-- The accounts of the volume are right for the inodes `I`, of which the handle
has one. -/
structure Good (I : Finset UInt32) (f : ExtFileInodeOps) : Prop where
  layout : f.volume.geometry.Layout
  inodes : ∀ n ∈ I, f.volume.geometry.HasInode n
  mem : f.inode_num ∈ I
  booked : Booked f.volume (fun _ => True) (f.own I)

/-- Blocks were put at the empty places `new`. -/
structure Grew (I : Finset UInt32) (f f' : ExtFileInodeOps) (new : Place Tree → Prop) : Prop
    extends Alike f.volume f'.volume where
  good : Good I f'
  inode_num : f'.inode_num = f.inode_num
  size : f'.ext2inode.i_size = f.ext2inode.i_size
  keep : ∀ P, f.own I P ≠ 0 → f'.own I P = f.own I P
  fill : ∀ P, f.own I P = 0 → (f'.own I P ≠ 0 ↔ new P)
  content : ∀ P, f.own I P ≠ 0 → (P.tree.1 = f.inode_num → P.path.length = P.tree.depth) →
    ∀ i, f.volume.geometry.InBlock (f.own I P).toNat i → f'.volume.bytes i = f.volume.bytes i
  table : ∀ g < f.volume.geometry.groups.length, ∀ i, f.volume.geometry.TableByte g i →
    f'.volume.bytes i = f.volume.bytes i

variable {I : Finset UInt32} {f f' f'' : ExtFileInodeOps} {P : Place Tree}

theorem Good.data (hf : Good I f) (h : f.own I P ≠ 0) :
    f.volume.geometry.DataBlock (f.own I P) := (hf.booked.used P trivial h).1

theorem Good.of_booked (hf : Good I f) (hgeo : f'.volume.geometry = f.volume.geometry)
    (hn : f'.inode_num = f.inode_num) (hb : Booked f'.volume (fun _ => True) (f'.own I)) :
    Good I f' :=
  ⟨by rw [hgeo]; exact hf.layout, by rw [hgeo]; exact hf.inodes, by rw [hn]; exact hf.mem, hb⟩

namespace Grew

variable {new new' : Place Tree → Prop}

/-- Nothing happened, and the place was not empty. -/
theorem refl (hf : Good I f) (h : ∀ P, new P → f.own I P ≠ 0) : Grew I f f new := by
  refine ⟨⟨rfl, rfl, rfl⟩, hf, rfl, rfl, fun _ _ => rfl, ?_, fun _ _ _ _ _ => rfl,
    fun _ _ _ _ => rfl⟩
  intro P hP
  exact ⟨fun hne => absurd hP hne, h P⟩

theorem trans (h : Grew I f f' new) (h' : Grew I f' f'' new') :
    Grew I f f'' (fun P => new P ∨ new' P) := by
  refine ⟨h.toAlike.trans h'.toAlike, h'.good, h'.inode_num.trans h.inode_num, h'.size.trans h.size,
    ?_, ?_, ?_, ?_⟩
  · intro P hP
    have h1 := h.keep P hP
    rw [h'.keep P (by rw [h1]; exact hP), h1]
  · intro P hP
    have hfill := h.fill P hP
    by_cases h1 : f'.own I P = 0
    · have hnot : ¬ new P := fun hn => hfill.mpr hn h1
      rw [h'.fill P h1]
      simp [hnot]
    · rw [h'.keep P h1]
      simp [h1, hfill.mp h1]
  · intro P hP hleaf i hi
    have h1 := h.keep P hP
    rw [← h.content P hP hleaf i hi]
    apply h'.content P (by rw [h1]; exact hP)
    · rw [h.inode_num]
      exact hleaf
    · rw [h.geometry, h1]
      exact hi
  · intro g hg i hi
    rw [← h.table g hg i hi]
    exact h'.table g (by rw [h.geometry]; exact hg) i (by rw [h.geometry]; exact hi)

theorem congr (h : Grew I f f' new) (hnew : ∀ P, new' P ↔ new P) : Grew I f f' new' :=
  { h with fill := fun P hP => (h.fill P hP).trans (hnew P).symm }

end Grew

/-! ## Steps that move no pointer -/

/-- The handle is as before but for the volume and the counters of its inode. -/
structure SameHandle (f f' : ExtFileInodeOps) : Prop where
  inode_num : f'.inode_num = f.inode_num
  i_block : f'.ext2inode.i_block = f.ext2inode.i_block
  i_size : f'.ext2inode.i_size = f.ext2inode.i_size

variable {C : UInt32 → Prop}

theorem roots_of_disk (hn : f'.inode_num = f.inode_num) {x : Tree} (hx : x.1 ≠ f.inode_num)
    (hroot : x.1 ∈ I → f'.volume.disk_root x = f.volume.disk_root x) :
    f'.roots I x = f.roots I x := by
  unfold roots Volume.roots
  rw [hn, if_neg hx, if_neg hx]
  by_cases hI : x.1 ∈ I
  · rw [if_pos hI, if_pos hI]
    exact hroot hI
  · rw [if_neg hI, if_neg hI]

section

variable (hf : Good I f) (hk : Volume.Kept f.volume f'.volume C)

include hf hk

theorem roots_of_kept (hn : f'.inode_num = f.inode_num) (x : Tree) (hx : x.1 ≠ f.inode_num) :
    f'.roots I x = f.roots I x :=
  roots_of_disk hn hx (fun hI => hk.disk_root hf.layout (hf.inodes _ hI))

theorem roots_of_same (hs : SameHandle f f') (x : Tree) : f'.roots I x = f.roots I x := by
  by_cases hx : x.1 = f.inode_num
  · unfold roots
    rw [hs.inode_num, if_pos hx, if_pos hx, hs.i_block]
  · exact roots_of_kept hf hk hs.inode_num x hx

/-- When no block of pointers changed, the same blocks are stored everywhere. -/
theorem own_of_kept (hs : SameHandle f f')
    (hinner : ∀ P : Place Tree, P.path.length < P.tree.depth → f.own I P ≠ 0 → ¬ C (f.own I P)) :
    f'.own I = f.own I :=
  hk.own (roots_of_same hf hk hs) (fun _ hP => hf.data hP) hinner

/-- A block that belongs to no place. -/
structure Fresh (I : Finset UInt32) (f : ExtFileInodeOps) (c : UInt32) : Prop where
  data : f.volume.geometry.DataBlock c
  marked : f.volume.Marked c
  free : ∀ P, f.own I P ≠ c

/-- The accounts, the pointers and the data are as before. -/
theorem grew_nothing (hs : SameHandle f f')
    (hC : ∀ P, f.own I P ≠ 0 → ¬ C (f.own I P)) (hb : Booked f'.volume (fun _ => True) (f.own I)) :
    Grew I f f' (fun _ => False) ∧ f'.own I = f.own I := by
  have hown : f'.own I = f.own I := own_of_kept hf hk hs (fun P _ hP => hC P hP)
  refine ⟨⟨hk.toAlike, hf.of_booked hk.geometry hs.inode_num (by rw [hown]; exact hb), hs.inode_num,
    hs.i_size, ?_, ?_, ?_, hk.table⟩, hown⟩
  · intro P _
    rw [hown]
  · intro P hP
    rw [hown]
    exact ⟨fun h => h hP, False.elim⟩
  · intro P hP _ i hi
    exact hk.data _ (hf.data hP) (hC P hP) i hi

end

theorem grew_same_volume (hf : Good I f) (hv : f'.volume = f.volume) (hs : SameHandle f f') :
    Grew I f f' (fun _ => False) ∧ f'.own I = f.own I := by
  refine grew_nothing hf (C := fun _ => False) ?_ hs (fun _ _ h => h) ?_
  · rw [hv]
    exact Kept.refl _ _
  · rw [hv]
    exact hf.booked

theorem ends_locked {α : Type} {x : Ext2M α} {Q : α → Ext2FSInner → Prop}
    {E : Fault FileError → Ext2FSInner → Prop} (h : Ends (x f.inner) Q E) :
    Ends (locked x f)
      (fun a f' => Q a f'.inner ∧ f'.ext2inode = f.ext2inode ∧ f'.inode_num = f.inode_num)
      (fun e f' => E e f'.inner ∧ f'.ext2inode = f.ext2inode ∧ f'.inode_num = f.inode_num) :=
  ends_zoom (h.mono (fun _ _ h => ⟨h, rfl, rfl⟩) (fun _ _ h => ⟨h, rfl, rfl⟩))

theorem SameHandle.of_eq (hino : f'.ext2inode = f.ext2inode) (hnum : f'.inode_num = f.inode_num) :
    SameHandle f f' := ⟨hnum, by rw [hino], by rw [hino]⟩

theorem SameHandle.trans {f'' : ExtFileInodeOps} (h : SameHandle f f') (h' : SameHandle f' f'') :
    SameHandle f f'' :=
  ⟨h'.inode_num.trans h.inode_num, h'.i_block.trans h.i_block, h'.i_size.trans h.i_size⟩

theorem ends_allocate (hf : Good I f) :
    Yields (locked allocate_block f)
      (fun c f' => Grew I f f' (fun _ => False) ∧ Fresh I f' c ∧ f'.own I = f.own I ∧
        SameHandle f f') := by
  refine (ends_locked (ends_allocate_in _ f.inner)).mono ?_ (fun _ _ _ => trivial)
  rintro c f1 ⟨ht, hino, hnum⟩
  have hk : Kept f.volume f1.volume (fun _ => False) := kept_took hf.layout ht _
  obtain ⟨hb, hdata, hmarked, hfree, hgeo⟩ := hf.booked.took hf.layout ht
  have hs := SameHandle.of_eq hino hnum
  obtain ⟨hgrew, hown⟩ := grew_nothing hf hk hs (fun _ _ h => h) hb
  refine ⟨hgrew, ⟨?_, hmarked, ?_⟩, hown, hs⟩
  · rw [hgrew.geometry]
    exact hdata
  · intro P
    rw [hown]
    exact hfree P trivial

/-! ## A block is put at an empty place -/

variable {c : UInt32}

/-- The new block stands at `P0`. Besides it only blocks of pointers of the same
inode were written to. -/
theorem grew_put (hf : Good I f) (hc : Fresh I f c) {P0 : Place Tree}
    (hk : Kept f.volume f'.volume C) (hn : f'.inode_num = f.inode_num)
    (hsize : f'.ext2inode.i_size = f.ext2inode.i_size) (h0 : f.own I P0 = 0)
    (hown : ∀ P, f'.own I P = if P = P0 then c else f.own I P)
    (hC : ∀ b, C b → b = c ∨ ∃ Q : Place Tree, Q.path.length < Q.tree.depth ∧
      Q.tree.1 = f.inode_num ∧ f.own I Q = b)
    (hb : ∀ own : Place Tree → UInt32, Booked f.volume (fun _ => True) own →
      Booked f'.volume (fun _ => True) own) : Grew I f f' (· = P0) := by
  have hbooked := hb _ (hf.booked.put hc.data hc.marked (fun P _ => hc.free P) hown)
  refine ⟨hk.toAlike, hf.of_booked hk.geometry hn hbooked, hn, hsize, ?_, ?_, ?_, hk.table⟩
  · intro P hP
    rw [hown, if_neg]
    intro hP0
    exact hP (hP0 ▸ h0)
  · intro P hP
    rw [hown]
    by_cases hP0 : P = P0
    · simp [hP0, hc.data.1]
    · simp [hP0, hP]
  · intro P hP hleaf i hi
    refine hk.data _ (hf.data hP) (fun hCP => ?_) i hi
    rcases hC _ hCP with h | ⟨Q, hQ, hQn, hQP⟩
    · exact hc.free P h
    · -- a block of pointers is stored nowhere else
      have hPQ : P = Q := hf.booked.unique P Q trivial trivial hP hQP.symm
      subst hPQ
      have := hleaf hQn
      omega

/-- What `zero_block` does to the volume. -/
structure Zeroed (zeroed : Bool) (c : UInt32) (v v' : Volume) : Prop where
  kept : Volume.Kept v v' (· = c)
  booked : ∀ {X : Type} {live : X → Prop} {own : X → UInt32}, Booked v live own → Booked v' live own
  empty : zeroed = true → ∀ j, v'.pointer c j = 0

theorem ends_zero_block (hc : f.volume.geometry.DataBlock c) (zeroed : Bool) :
    Yields (zero_block zeroed c f)
      (fun _ f' => Zeroed zeroed c f.volume f'.volume ∧ f'.ext2inode = f.ext2inode ∧
        f'.inode_num = f.inode_num) := by
  cases zeroed with
  | false => exact ⟨⟨Kept.refl _ _, id, fun h => by cases h⟩, rfl, rfl⟩
  | true =>
    refine (ends_locked (f.inner.ends_write_block c _)).mono ?_ (fun _ _ _ => trivial)
    rintro _ f1 ⟨hs, hino, hnum⟩
    have hs : f1.volume = f.volume.write (f.volume.geometry.at_ c.toNat)
      (List.replicate f.bs 0) := hs
    have hlen : (List.replicate f.bs (0 : UInt8)).length ≤ f.volume.geometry.bs := by
      rw [List.length_replicate]
      exact Nat.le_refl _
    refine ⟨⟨?_, ?_, ?_⟩, hino, hnum⟩
    · rw [hs]
      exact kept_write_inside (o := 0) hc (by omega)
    · intro X live own hb
      rw [hs]
      exact booked_write_inside (o := 0) hc (by omega) hb
    · intro _ j
      rw [hs]
      exact pointer_write_zeros f.volume c j

theorem ends_add_blocks (f : ExtFileInodeOps) :
    Yields (add_blocks f) (fun _ f' => ∃ n, f' = f.set_blocks n) := by
  unfold add_blocks
  rw [get_bind]
  split
  · exact ⟨_, rfl⟩
  · trivial

variable {zeroed : Bool} {j : Nat}

/-- A slot of the inode is filled. A slot that leads to pointers needs a block
of zeros. -/
theorem ends_fill_slot (hf : Good I f) {k : Fin 15} (hz : 11 < k.val → zeroed = true) :
    Yields (fill_slot k zeroed f) (fun _ f' => Grew I f f' (· = ⟨(f.inode_num, k), []⟩)) := by
  have hroot : f.own I ⟨(f.inode_num, k), []⟩ = f.ext2inode.i_block k := by
    exact if_pos rfl
  unfold fill_slot
  rw [get_bind]
  split
  · rename_i hempty
    refine ends_bind (ends_allocate hf) ?_
    rintro c f1 ⟨hg1, hfresh, hown1, hs1⟩
    rw [modify_bind]
    refine ends_bind (ends_add_blocks _) ?_
    rintro _ f2 ⟨n, rfl⟩
    refine (ends_zero_block (f := (f1.set_block k c).set_blocks n) hfresh.data zeroed).mono ?_
      (fun _ _ _ => trivial)
    rintro _ f3 ⟨hzero, hino, hnum⟩
    have hnum1 : f3.inode_num = f1.inode_num := hnum
    have hk : Kept f1.volume f3.volume (· = c) := hzero.kept
    have hblock : f3.ext2inode.i_block = Function.update f1.ext2inode.i_block k c := by rw [hino]; rfl
    have h0 : f1.own I ⟨(f1.inode_num, k), []⟩ = 0 := by
      rw [hown1, hs1.inode_num, hroot]
      exact hempty
    -- the new root, and nothing below it
    have hown3 : ∀ P, f3.own I P = if P = ⟨(f1.inode_num, k), []⟩ then c else f1.own I P := by
      refine own_put rfl rfl ?_ hfresh.data.1 (by simp [Forest.Valid]) h0 ?_ ?_ ?_ ?_
      · change f3.volume.geometry.width = f1.volume.geometry.width
        rw [hk.geometry]
      · intro P j hP
        exact absurd hP (Place.child_ne_root P j _)
      · intro x
        change f3.roots I x = if _ then c else f1.roots I x
        by_cases hx : x.1 = f1.inode_num
        · unfold roots
          rw [hnum1, if_pos hx, if_pos hx, hblock]
          by_cases hxk : x.2 = k
          · rw [hxk, Function.update_self, if_pos]
            rw [← hx, ← hxk]
          · rw [Function.update_of_ne hxk, if_neg]
            intro h
            exact hxk (congrArg (fun P => P.tree.2) h).symm
        · rw [roots_of_kept hg1.good hk hnum1 x hx, if_neg]
          intro h
          exact hx (congrArg (fun P => P.tree.1) h).symm
      · intro P hP hne j _
        rw [if_neg]
        · exact hk.pointer (hg1.good.data hne) (hfresh.free P) j
        · exact Place.child_ne_root _ _ _
      · intro hin j _
        refine hzero.empty (hz ?_) j
        change 0 < k.val - 11 at hin
        omega
    have hput : Grew I f1 f3 (· = ⟨(f1.inode_num, k), []⟩) :=
      grew_put hg1.good hfresh hk hnum1 (by rw [hino]; rfl) h0 hown3 (fun b hb => Or.inl hb)
        (fun _ hb => hzero.booked hb)
    refine (hg1.trans hput).congr (fun P => ?_)
    rw [hs1.inode_num]
    simp
  · rename_i hfull
    refine Grew.refl hf ?_
    rintro P rfl
    rw [hroot]
    exact hfull

theorem own_child (hP : P.path.length < P.tree.depth) (hj : j < f.volume.geometry.width) :
    f.own I (P.child j) = if f.own I P = 0 then 0 else f.volume.pointer (f.own I P) j :=
  Forest.own_child _ hP hj

variable {index : Nat} {v : Volume}

/-- The pointers of block `b` with one of them set. -/
theorem getD_set_pointers (b c : UInt32) (hj : j < v.geometry.width) :
    ((v.pointers b).set index c).getD j 0 = if j = index then c else v.pointer b j := by
  rw [List.getD_eq_getElem?_getD]
  by_cases h : j = index
  · subst h
    simp [v.length_pointers, hj]
  · rw [if_neg h, List.getElem?_set_ne (fun h' => h h'.symm), v.getElem?_pointers b hj]
    rfl

/-- Pointer `index` of block `own P` is set to a fresh block. -/
theorem grew_entry (hf : Good I f) (hc : Fresh I f c)
    (hP : P.path.length < P.tree.depth) (hPn : P.tree.1 = f.inode_num) (hne : f.own I P ≠ 0)
    (hidx : index < f.volume.geometry.width) (hz : P.path.length + 1 < P.tree.depth → zeroed = true)
    (hzero : Zeroed zeroed c f.volume v) (hs : SameHandle f f')
    (hempty : f.volume.pointer (f.own I P) index = 0)
    (hv : f'.volume = v.write (v.geometry.at_ (f.own I P).toNat)
      (ofWords ((f.volume.pointers (f.own I P)).set index c))) :
    Grew I f f' (· = P.child index) ∧ f'.own I (P.child index) = c := by
  generalize hb : f.own I P = b at hne hempty hv
  have hgeo : v.geometry = f.volume.geometry := hzero.kept.geometry
  have hdata : f.volume.geometry.DataBlock b := hb ▸ hf.data (hb ▸ hne)
  have hbc : b ≠ c := fun h => hc.free P (hb.trans h)
  have hlen : ((f.volume.pointers b).set index c).length = v.geometry.width := by
    simp [length_pointers, hgeo]
  have hG : v.geometry.Layout := by rw [hgeo]; exact hf.layout
  have hbytes : (ofWords ((f.volume.pointers b).set index c)).length ≤ v.geometry.bs := by
    rw [length_ofWords, hlen, hG.bs_width]
  have hkw : Kept v f'.volume (· = b) := by
    rw [hv]
    exact kept_write_inside (o := 0) (hgeo ▸ hdata) (by omega)
  have hk := hzero.kept.trans hkw
  -- the pointers of the block itself
  have hptr : ∀ j < f.volume.geometry.width,
      f'.volume.pointer b j = if j = index then c else f.volume.pointer b j := by
    intro j hj
    rw [hv, pointer_write_array hG b hlen (by rw [hgeo]; exact hj)]
    exact getD_set_pointers _ c hj
  have h0 : f.own I (P.child index) = 0 := by
    rw [own_child hP hidx, hb, if_neg hne, hempty]
  have hown : ∀ Q, f'.own I Q = if Q = P.child index then c else f.own I Q := by
    refine own_put rfl rfl ?_ hc.data.1 ?_ h0 ?_ ?_ ?_ ?_
    · change f'.volume.geometry.width = f.volume.geometry.width
      rw [hk.geometry]
    · refine (Forest.valid_child _).mpr ⟨Forest.valid_of_own _ ?_, hP, hidx⟩
      change f.own I P ≠ 0
      rw [hb]
      exact hne
    · intro Q j hQ
      rw [(Place.child_inj hQ).1]
      change f.own I P ≠ 0
      rw [hb]
      exact hne
    · intro x
      rw [if_neg]
      · exact roots_of_same hf hk hs x
      · exact Place.child_ne_root _ _ _
    · intro Q hQ hQne j hj
      change f'.volume.pointer (f.own I Q) j = if _ then c else f.volume.pointer (f.own I Q) j
      by_cases hQP : Q = P
      · subst hQP
        rw [hb, hptr j hj]
        by_cases hj' : j = index
        · rw [if_pos hj', if_pos (by rw [hj'])]
        · rw [if_neg hj', if_neg (fun h => hj' (Place.child_inj h).2)]
      · rw [if_neg (fun h => hQP (Place.child_inj h).1)]
        refine hk.pointer (hf.data hQne) ?_ j
        rintro (h | h)
        · exact hc.free Q h
        · exact hQP (hf.booked.unique Q P trivial trivial hQne (h.trans hb.symm))
    · intro hin j hj
      have hin' : P.path.length + 1 < P.tree.depth := by
        have h : (P.child index).path.length < (P.child index).tree.depth := hin
        simpa using h
      change f'.volume.pointer c j = 0
      rw [hkw.pointer (hgeo ▸ hc.data) (fun h => hbc h.symm) j]
      exact hzero.empty (hz hin') j
  refine ⟨grew_put hf hc hk hs.inode_num hs.i_size h0 hown ?_ ?_, ?_⟩
  · exact fun x => Or.imp_right fun hx => ⟨P, hP, hPn, hb.trans hx.symm⟩
  · intro own hown'
    rw [hv]
    exact booked_write_inside (o := 0) (hgeo ▸ hdata) (by omega) (hzero.booked hown')
  · rw [hown, if_pos rfl]

theorem ends_fill_entry (hf : Good I f) (hP : P.path.length < P.tree.depth)
    (hPn : P.tree.1 = f.inode_num) (hne : f.own I P ≠ 0) (hidx : index < f.volume.geometry.width)
    (hz : P.path.length + 1 < P.tree.depth → zeroed = true) :
    Yields (fill_entry (f.own I P) index zeroed f)
      (fun b f' => Grew I f f' (· = P.child index) ∧ b = f'.own I (P.child index) ∧ b ≠ 0) := by
  refine ends_bind (ends_locked (f.inner.ends_read_array _)).forget ?_
  rintro ptrs f1 ⟨⟨hv1, hptrs⟩, hino1, hnum1⟩
  have hptrs : ptrs = f.volume.pointers (f.own I P) := hptrs
  subst hptrs
  have hs1 := SameHandle.of_eq hino1 hnum1
  obtain ⟨hg1, hown1⟩ := grew_same_volume hf hv1 hs1
  have hpad : index + 1 - (f.volume.pointers (f.own I P)).length = 0 := by
    rw [length_pointers]
    omega
  have hget : (f.volume.pointers (f.own I P)).getD index 0 =
      f.volume.pointer (f.own I P) index := by
    rw [List.getD_eq_getElem?_getD, getElem?_pointers _ _ hidx]
    rfl
  simp only [hpad, List.replicate_zero, List.append_nil, hget]
  have hchild : f.own I (P.child index) = f.volume.pointer (f.own I P) index := by
    rw [own_child hP hidx, if_neg hne]
  split
  · rename_i hempty
    refine ends_bind (ends_allocate hg1.good) ?_
    rintro c f2 ⟨hg2, hfresh, hown2, hs2⟩
    refine ends_bind (ends_add_blocks f2) ?_
    rintro _ f3 ⟨n, rfl⟩
    refine ends_bind ((ends_zero_block (f := f2.set_blocks n) hfresh.data zeroed)) ?_
    rintro _ f4 ⟨hzero, hino, hnum⟩
    -- the block of pointers is the same since it was read
    have hgeo2 : f2.volume.geometry = f.volume.geometry := hg2.geometry.trans hg1.geometry
    have hown : f2.own I = f.own I := hown2.trans hown1
    have hptr : ∀ j < f.volume.geometry.width,
        f.volume.pointer (f.own I P) j = f2.volume.pointer (f2.own I P) j := by
      intro j hj
      have h := congrFun hown (P.child j)
      rw [own_child hP hj, own_child hP (by rw [hgeo2]; exact hj), hown, if_neg hne,
        if_neg hne] at h
      rw [hown]
      exact h.symm
    have hptrs : f.volume.pointers (f.own I P) = f2.volume.pointers (f2.own I P) := by
      unfold pointers
      rw [hgeo2]
      exact List.map_congr_left (fun j hj => hptr j (List.mem_range.mp hj))
    have hgeo4 : f4.volume.geometry = f2.volume.geometry := hzero.kept.geometry
    have hlen : ((f.volume.pointers (f.own I P)).set index c).length =
        f4.volume.geometry.width := by
      simp [length_pointers, hgeo4, hgeo2]
    have hG4 : f4.volume.geometry.Layout := by
      rw [hgeo4]
      exact hg2.good.layout
    refine ends_bind (ends_locked (ends_write_array hG4 (f.own I P) hlen)).forget ?_
    rintro _ f5 ⟨hv5, hino5, hnum5⟩
    have hv5 : f5.volume = f4.volume.write (f4.volume.geometry.at_ (f.own I P).toNat)
      (ofWords ((f.volume.pointers (f.own I P)).set index c)) := hv5
    have hempty2 : f2.volume.pointer (f2.own I P) index = 0 := by
      rw [← hptr index hidx]
      exact hempty
    have hs5 : SameHandle f2 f5 := by
      refine ⟨hnum5.trans hnum, ?_, ?_⟩
      · rw [hino5, hino]
        rfl
      · rw [hino5, hino]
        rfl
    have hput := grew_entry hg2.good hfresh hP
      (hPn.trans (hs1.inode_num.symm.trans hs2.inode_num.symm)) (by rw [hown]; exact hne)
      (by rw [hgeo2]; exact hidx) hz hzero hs5 hempty2
      (by rw [hv5, hptrs, hown])
    refine ⟨((hg1.trans hg2).trans hput.1).congr (fun Q => by simp), hput.2.symm, hfresh.data.1⟩
  · rename_i hfull
    have hrefl : Grew I f1 f1 (· = P.child index) := by
      apply Grew.refl hg1.good
      rintro Q rfl
      rw [hown1, hchild]
      exact hfull
    exact ⟨(hg1.trans hrefl).congr (fun Q => by simp), by rw [hown1, hchild], hfull⟩

end ExtFileInodeOps

end zenos_kernel.disk.fs.ext2
