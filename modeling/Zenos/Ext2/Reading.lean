-- What `read` finds in a file. `collect_data_blocks` lists the data blocks without
-- regard to the blocks of pointers that are missing, so the blocks are where they
-- should be as long as no block of pointers is missing before them.
import Zenos.Ext2.Syncing

namespace zenos_kernel.disk.fs.ext2

open Bytes Outcome Ext2FSInner PointerTree

/-! ## The list of data blocks -/

namespace Volume

/-- What `pointers_below` lists. -/
def below (v : Volume) : Nat → UInt32 → List UInt32
  | 0, b => v.pointers b
  | level + 1, b => ((v.pointers b).filter (· != 0)).flatMap (v.below level)

/-- What `collect_data_blocks` lists. -/
def data_list (v : Volume) (ino : Ext2Inode) : List UInt32 :=
  (List.ofFn ino.i_block).take 12 ++
    (([ino.i_block single_slot].filter (· != 0)).flatMap (v.below 0) ++
    (([ino.i_block double_slot].filter (· != 0)).flatMap (v.below 1) ++
    ([ino.i_block triple_slot].filter (· != 0)).flatMap (v.below 2)))

end Volume

namespace Ext2FSInner

variable {v : Volume}

theorem fails_of_blockFails (hG : v.geometry.Layout) {b : UInt32} (h : BlockFails v b) :
    v.Fails := by
  rcases h with hf | hover
  · exact Or.inl hf
  · refine Or.inr fun hfits => ?_
    have := Volume.at_lt hfits hG b
    omega

theorem ends_gather {g : UInt32 → Ext2M (List UInt32)} {list : UInt32 → List UInt32}
    {bs : List UInt32}
    (hg : ∀ b s, s.volume = v → Ends (g b s) (fun l s' => s'.volume = v ∧ l = list b)
      (fun _ _ => v.Fails)) (s : Ext2FSInner) (hs : s.volume = v) :
    Ends (gather g bs s) (fun l s' => s'.volume = v ∧ l = (bs.filter (· != 0)).flatMap list)
      (fun _ _ => v.Fails) := by
  induction bs generalizing s with
  | nil => exact ends_pure ⟨hs, rfl⟩
  | cons b bs ih =>
    unfold gather
    split
    · rename_i hb
      refine ends_bind (hg b s hs) ?_
      rintro blocks s1 ⟨hs1, rfl⟩
      refine ends_bind (ih s1 hs1) ?_
      rintro rest s2 ⟨hs2, rfl⟩
      refine ends_pure ⟨hs2, ?_⟩
      rw [List.filter_cons_of_pos (by simpa using hb), List.flatMap_cons]
    · rename_i hb
      rw [List.filter_cons_of_neg (by simpa using hb)]
      exact ih s hs

theorem ends_read_pointers (hG : v.geometry.Layout) (b : UInt32) (s : Ext2FSInner)
    (hs : s.volume = v) :
    Ends (read_block_u32_array b s) (fun l s' => s'.volume = v ∧ l = v.pointers b)
      (fun _ _ => v.Fails) := by
  refine (s.ends_read_array b).mono ?_ ?_
  · rintro l s' ⟨hv, rfl⟩
    rw [hs] at hv ⊢
    exact ⟨hv, rfl⟩
  · rintro _ s' ⟨-, hfails⟩
    rw [hs] at hfails
    exact fails_of_blockFails hG hfails

theorem ends_pointers_below (hG : v.geometry.Layout) (level : Nat) (b : UInt32) (s : Ext2FSInner)
    (hs : s.volume = v) :
    Ends (pointers_below level b s) (fun l s' => s'.volume = v ∧ l = v.below level b)
      (fun _ _ => v.Fails) := by
  induction level generalizing b s with
  | zero => exact ends_read_pointers hG b s hs
  | succ level ih =>
    refine ends_bind (ends_read_pointers hG b s hs) ?_
    rintro ptrs s1 ⟨hv, rfl⟩
    exact ends_gather ih s1 hv

theorem ends_collect_data_blocks (hG : v.geometry.Layout) (ino : Ext2Inode) (s : Ext2FSInner)
    (hs : s.volume = v) :
    Ends (collect_data_blocks ino s) (fun l s' => s'.volume = v ∧ l = v.data_list ino)
      (fun _ _ => v.Fails) := by
  refine ends_bind (ends_gather (ends_pointers_below hG 0) s hs) ?_
  rintro single s1 ⟨hv1, rfl⟩
  refine ends_bind (ends_gather (ends_pointers_below hG 1) s1 hv1) ?_
  rintro double s2 ⟨hv2, rfl⟩
  refine ends_bind (ends_gather (ends_pointers_below hG 2) s2 hv2) ?_
  rintro triple s3 ⟨hv3, rfl⟩
  refine ends_pure ⟨hv3, ?_⟩
  unfold Volume.data_list
  simp only [List.append_assoc]

end Ext2FSInner

/-! ## The index of a data block -/

/-- Lists of the same length after one another, one for every entry that is not null. -/
theorem getElem?_flatMap_filter {g : UInt32 → List UInt32} {w : Nat} (hg : ∀ b, (g b).length = w)
    {ps : List UInt32} {i j : Nat} {b : UInt32} (hi : ps[i]? = some b)
    (hne : ∀ i' ≤ i, ps.getD i' 0 ≠ 0) (hj : j < w) :
    ((ps.filter (· != 0)).flatMap g)[i * w + j]? = (g b)[j]? := by
  induction ps generalizing i with
  | nil => simp at hi
  | cons p ps ih =>
    have hp : p ≠ 0 := hne 0 (Nat.zero_le i)
    rw [List.filter_cons_of_pos (by simpa using hp), List.flatMap_cons]
    cases i with
    | zero =>
      cases hi
      rw [Nat.zero_mul, Nat.zero_add, List.getElem?_append_left (by rw [hg]; exact hj)]
    | succ i =>
      rw [List.getElem?_append_right (by rw [hg, Nat.succ_mul]; omega), hg, Nat.succ_mul,
        show i * w + w + j - w = i * w + j by omega]
      exact ih hi (fun i' hi' => hne (i' + 1) (by omega))

namespace ExtFileInodeOps

variable {I : Finset UInt32} {f f' : ExtFileInodeOps} {j i : Nat}

/-- No block of pointers is missing on the way to the first `count` data blocks. Longer
files than the double indirect block allows are not spoken of. -/
structure Mapped (I : Finset UInt32) (f : ExtFileInodeOps) (count : Nat) : Prop where
  short : count ≤ f.max_blocks
  inner : ∀ k < count, ∀ P : Place Tree, P.path.length < P.tree.depth → OnWay P (f.place k) →
    f.own I P ≠ 0

theorem place_direct (f : ExtFileInodeOps) {k : Nat} (hk : k < 12) :
    f.place k = ⟨(f.inode_num, ⟨k, direct_lt hk⟩), []⟩ := dif_pos hk

theorem place_single (f : ExtFileInodeOps) (hj : j < f.volume.geometry.width) :
    f.place (12 + j) = Place.child ⟨(f.inode_num, single_slot), []⟩ j := by
  unfold place data_place
  rw [dif_neg (by omega), Nat.add_sub_cancel_left, if_pos hj]
  rfl

theorem place_double (f : ExtFileInodeOps) (hi : i < f.volume.geometry.width)
    (hj : j < f.volume.geometry.width) :
    f.place (12 + f.volume.geometry.width + (i * f.volume.geometry.width + j)) =
      Place.child (Place.child ⟨(f.inode_num, double_slot), []⟩ i) j := by
  unfold place data_place
  generalize f.volume.geometry.width = w at hi hj
  have hlt : i * w + j < w * w := by
    have := record_le hi w
    omega
  have hsub : 12 + w + (i * w + j) - 12 - w = i * w + j := by omega
  have hdiv : (i * w + j) / w = i := by
    rw [Nat.mul_comm, Nat.mul_add_div (by omega), Nat.div_eq_of_lt hj, Nat.add_zero]
  have hmod : (i * w + j) % w = j := Nat.mul_add_mod_of_lt hj
  rw [dif_neg (by omega), if_neg (by omega), hsub, if_pos hlt, hdiv, hmod]
  rfl

theorem onWay_refl (P : Place Tree) : OnWay P P := ⟨rfl, List.prefix_rfl⟩

section DataList

variable {count : Nat} (h : Mapped I f count)
include h

theorem Mapped.single (hj : j < f.volume.geometry.width) (hk : 12 + j < count) :
    f.ext2inode.i_block single_slot ≠ 0 := by
  rw [← own_slot f I]
  refine h.inner _ hk _ (by simp) ?_
  rw [place_single f hj]
  exact onWay_child.mpr (Or.inl (onWay_refl _))

/-- The block of pointers for the data blocks from `i * width` on. -/
theorem Mapped.double (hi : i < f.volume.geometry.width) (hj : j < f.volume.geometry.width)
    (hk : 12 + f.volume.geometry.width + (i * f.volume.geometry.width + j) < count) :
    f.ext2inode.i_block double_slot ≠ 0 ∧ f.own I (Place.child ⟨(f.inode_num, double_slot), []⟩ i) =
        f.volume.pointer (f.ext2inode.i_block double_slot) i ∧
      f.volume.pointer (f.ext2inode.i_block double_slot) i ≠ 0 := by
  have hway := place_double f hi hj
  have hroot : f.ext2inode.i_block double_slot ≠ 0 := by
    rw [← own_slot f I]
    refine h.inner _ hk _ (by simp) ?_
    rw [hway]
    exact onWay_child.mpr (Or.inl (onWay_child.mpr (Or.inl (onWay_refl _))))
  have hown : f.own I (Place.child ⟨(f.inode_num, double_slot), []⟩ i) =
      f.volume.pointer (f.ext2inode.i_block double_slot) i := by
    rw [own_child (by simp) hi, own_slot, if_neg hroot]
  refine ⟨hroot, hown, ?_⟩
  rw [← hown]
  refine h.inner _ hk _ (by simp) ?_
  rw [hway]
  exact onWay_child.mpr (Or.inl (onWay_refl _))

/-- Every data block below `count` is in the list under its index. -/
theorem Mapped.data_list {k : Nat} (hk : k < count) :
    (f.volume.data_list f.ext2inode)[k]? = some (f.block I k) := by
  have hdirect : ((List.ofFn f.ext2inode.i_block).take 12).length = 12 := by
    rw [List.length_take, List.length_ofFn]
    decide
  unfold Volume.data_list block
  by_cases h12 : k < 12
  · rw [List.getElem?_append_left (by omega), List.getElem?_take_of_lt h12, place_direct f h12,
      own_slot, List.getElem?_ofFn, dif_pos (by omega)]
  obtain ⟨q, rfl⟩ : ∃ q, k = 12 + q := ⟨k - 12, by omega⟩
  rw [List.getElem?_append_right (by omega), hdirect, Nat.add_sub_cancel_left]
  have hw : 0 < f.volume.geometry.width := by
    apply Nat.pos_of_ne_zero
    intro h0
    have hshort := h.short
    unfold max_blocks at hshort
    rw [h0] at hshort
    omega
  have hs := h.single hw (by omega)
  rw [List.filter_cons_of_pos (by simpa using hs), List.filter_nil, List.flatMap_singleton]
  by_cases hq : q < f.volume.geometry.width
  · rw [List.getElem?_append_left (by rw [Volume.below, Volume.length_pointers]; exact hq), Volume.below,
      Volume.getElem?_pointers _ _ hq, place_single f hq, own_child (by simp) hq, own_slot, if_neg hs]
  obtain ⟨r, rfl⟩ : ∃ r, q = f.volume.geometry.width + r :=
    ⟨q - f.volume.geometry.width, by omega⟩
  rw [List.getElem?_append_right (by rw [Volume.below, Volume.length_pointers]; omega), Volume.below,
    Volume.length_pointers, Nat.add_sub_cancel_left, ← Nat.add_assoc]
  -- the rows before the one of the block are all there
  obtain ⟨i, j, hi, hj, rfl⟩ : ∃ i j, i < f.volume.geometry.width ∧
      j < f.volume.geometry.width ∧ r = i * f.volume.geometry.width + j := by
    have hshort := h.short
    unfold max_blocks at hshort
    exact ⟨r / _, r % _, Nat.div_lt_of_lt_mul (by omega), Nat.mod_lt _ hw,
      (Nat.div_add_mod' r _).symm⟩
  rw [← Nat.add_assoc] at hk
  have hrow : ∀ i' ≤ i, f.volume.pointer (f.ext2inode.i_block double_slot) i' ≠ 0 := by
    intro i' hi'
    have hle := Nat.mul_le_mul_right f.volume.geometry.width hi'
    exact (h.double (by omega) hw (by omega)).2.2
  obtain ⟨hroot, hown, hne⟩ := h.double hi hj hk
  rw [List.filter_cons_of_pos (by simpa using hroot), List.filter_nil, List.flatMap_singleton]
  have hget : (f.volume.below 1 (f.ext2inode.i_block double_slot))[
      i * f.volume.geometry.width + j]? = some (f.volume.pointer
        (f.volume.pointer (f.ext2inode.i_block double_slot) i) j) := by
    rw [← Volume.getElem?_pointers _ _ hj]
    refine getElem?_flatMap_filter (Volume.length_pointers f.volume)
      (Volume.getElem?_pointers _ _ hi) ?_ hj
    intro i' hi'
    rw [List.getD_eq_getElem?_getD, Volume.getElem?_pointers _ _ (by omega)]
    exact hrow i' hi'
  obtain ⟨hlt, -⟩ := List.getElem?_eq_some_iff.mp hget
  rw [List.getElem?_append_left hlt, hget, place_double f hi hj, own_child (by simp) hj, hown,
    if_neg hne]

end DataList

/-! ## Reading -/

/-- The bytes of the file from `offset` on. -/
def content (f : ExtFileInodeOps) (I : Finset UInt32) (offset len : Nat) : List UInt8 :=
  (List.range len).map (fun q => f.byte I (offset + q))

theorem content_append (f : ExtFileInodeOps) (I : Finset UInt32) (offset len len' : Nat) :
    f.content I offset len ++ f.content I (offset + len) len' = f.content I offset (len + len') :=
  slice_append (f.byte I) offset len len'

/-- The bytes of one block, or zeros for a missing one. -/
theorem content_block {k o n : Nat} (hn : o + n ≤ f.bs) (hpos : 0 < n) :
    f.content I (k * f.bs + o) n = if f.block I k = 0 then List.replicate n 0
      else slice f.volume.bytes (f.volume.geometry.at_ (f.block I k).toNat + o) n := by
  have hbyte : ∀ q < n, f.byte I (k * f.bs + o + q) = if f.block I k = 0 then 0
      else f.volume.bytes (f.volume.geometry.at_ (f.block I k).toNat + o + q) := by
    intro q hq
    unfold byte
    rw [Nat.add_assoc, Nat.add_assoc, Nat.mul_add_mod_of_lt (by omega), Nat.mul_comm,
      Nat.mul_add_div (by omega), Nat.div_eq_of_lt (by omega), Nat.add_zero]
  unfold content
  rw [List.map_congr_left (fun q hq => hbyte q (List.mem_range.mp hq))]
  split
  · rw [List.map_const', List.length_range]
  · rfl

theorem ends_read_chunk (hG : f.volume.geometry.Layout) {k o n : Nat} (hn : o + n ≤ f.bs)
    (hpos : 0 < n) (s : Ext2FSInner) (hs : s.volume = f.volume) :
    Ends (read_chunk (f.block I k) o n s)
      (fun bytes s' => s'.volume = f.volume ∧ bytes = f.content I (k * f.bs + o) n)
      (fun _ _ => f.volume.Fails) := by
  rw [content_block hn hpos]
  unfold read_chunk
  split
  · exact ends_pure ⟨hs, rfl⟩
  rw [get_bind]
  have haddr : s.partition_offset + (f.block I k).toNat * s.bs + o =
      f.volume.geometry.at_ (f.block I k).toNat + o := by
    rw [← hs]
    rfl
  rw [haddr]
  refine ends_then (s.ends_u64 _) ?_ ?_
  · rintro _ _ ⟨hover, -⟩
    refine Or.inr fun hfits => ?_
    have hlt := Volume.at_lt hfits hG (f.block I k)
    have hbs : f.bs ≤ 65536 := hG.bs_le
    omega
  · rintro _ s1 ⟨rfl, rfl⟩
    refine (s1.ends_read_at _ _).mono ?_ ?_
    · rintro bytes s2 ⟨hv, rfl⟩
      rw [hs] at hv ⊢
      exact ⟨hv, rfl⟩
    · rintro _ s2 ⟨-, hf⟩
      rw [hs] at hf
      exact Or.inl hf

theorem ends_read_loop (hG : f.volume.geometry.Layout) {data_blocks : List UInt32}
    {fuel offset left : Nat} (hfuel : left ≤ fuel)
    (hlist : ∀ k, k * f.bs < offset + left → data_blocks[k]? = some (f.block I k))
    (s : Ext2FSInner) (hs : s.volume = f.volume) :
    Ends (read_loop data_blocks fuel offset left s)
      (fun bytes s' => s'.volume = f.volume ∧ bytes = f.content I offset left)
      (fun _ _ => f.volume.Fails) := by
  have hbspos : 0 < f.bs := hG.bs_pos
  induction fuel generalizing s offset left with
  | zero =>
    have hleft : left = 0 := by omega
    subst hleft
    exact ends_pure ⟨hs, rfl⟩
  | succ fuel ih =>
    unfold read_loop
    split
    · rename_i hleft
      subst hleft
      exact ends_pure ⟨hs, rfl⟩
    rw [get_bind]
    have hbs : s.bs = f.bs := by
      change s.volume.bs = f.volume.bs
      rw [hs]
    rw [hbs]
    have hmod := Nat.mod_lt offset hbspos
    have hdm := Nat.div_add_mod' offset f.bs
    have hblock := hlist (offset / f.bs) (by omega)
    obtain ⟨hlt, -⟩ := List.getElem?_eq_some_iff.mp hblock
    rw [if_neg (by omega), List.getD_eq_getElem?_getD, hblock]
    refine ends_bind (ends_read_chunk hG (by omega) (by omega) s hs) ?_
    rintro chunk s1 ⟨hs1, rfl⟩
    refine ends_bind (ih (by omega) (fun k hk => hlist k (by omega)) s1 hs1) ?_
    rintro rest s2 ⟨hs2, rfl⟩
    refine ends_pure ⟨hs2, ?_⟩
    rw [hdm, content_append]
    congr 1
    omega

/-- At most the cursor of the device is another. -/
structure Untouched (f f' : ExtFileInodeOps) : Prop where
  volume : f'.volume = f.volume
  ext2inode : f'.ext2inode = f.ext2inode
  inode_num : f'.inode_num = f.inode_num

/-- The inode was written with a new access time, or could not be written. -/
structure Visited (f f' : ExtFileInodeOps) : Prop extends SameHandle f f' where
  synced : Synced f.volume f'.volume f.inode_num f'.ext2inode.serialize ∨
    (f'.volume = f.volume ∧ f.volume.Fails)

theorem ends_ignore_error {x : Ext2M Unit} {s : Ext2FSInner} {Q E : Ext2FSInner → Prop}
    (h : Ends (x s) (fun _ s' => Q s') (fun _ s' => E s')) :
    Ends (ignore_error x s) (fun _ s' => Q s' ∨ E s') (fun _ s' => E s') := by
  unfold ignore_error
  revert h
  cases x s with
  | ok a s' => exact Or.inl
  | error e s' =>
    cases e with
    | err e => exact Or.inr
    | panic => exact id

theorem ends_update_atime (hf : Good I f) (wanted : Bool) :
    Ends (update_atime wanted f) (fun _ f' => if wanted then Visited f f' else f' = f)
      (fun _ _ => f.volume.Fails) := by
  unfold update_atime
  split
  · refine ends_bind (Q := fun _ f1 => f1.volume = f.volume ∧ f1.ext2inode = f.ext2inode ∧
      f1.inode_num = f.inode_num) (ends_zoom ⟨rfl, rfl, rfl⟩) ?_
    rintro now f1 ⟨hv1, hino1, hnum1⟩
    have hG : f1.volume.geometry.Layout := by rw [hv1]; exact hf.layout
    have hn : f1.volume.geometry.HasInode f1.inode_num := by
      rw [hv1, hnum1]
      exact hf.inodes _ hf.mem
    refine (ends_locked (ends_ignore_error (ends_sync_inode (f1.set_atime now.toUInt32).inner hG
      (f1.set_atime now.toUInt32).ext2inode hn))).mono ?_ ?_
    · rintro _ f2 ⟨hcase, hino2, hnum2⟩
      refine ⟨⟨hnum2.trans hnum1, ?_, ?_⟩, ?_⟩
      · rw [hino2, ← hino1]
        rfl
      · rw [hino2, ← hino1]
        rfl
      · rw [← hv1, ← hnum1, hino2]
        rcases hcase with h | ⟨h | h, hfails⟩
        · exact Or.inl h
        · exact Or.inl h
        · exact Or.inr ⟨h, hfails⟩
    · rintro _ f2 ⟨⟨-, hfails⟩, -⟩
      rw [← hv1]
      exact hfails
  · exact ends_pure rfl

/-- `read` returns the bytes of the file, as many as there are. -/
theorem ends_read (hf : Good I f) {count : Nat} (hm : Mapped I f count)
    (hsize : f.ext2inode.i_size.toNat ≤ count * f.bs) (offset len : Nat) :
    Ends (read offset len f)
      (fun bytes f' => bytes = f.content I offset (min len (f.ext2inode.i_size.toNat - offset)) ∧
        if bytes ≠ [] ∧ f.inner.read_only = false then Visited f f' else Untouched f f')
      (fun _ _ => f.volume.Fails) := by
  obtain ⟨n, hn⟩ : ∃ n, n = min len (f.ext2inode.i_size.toNat - offset) := ⟨_, rfl⟩
  unfold read
  rw [get_bind, ← hn]
  split
  · have hz : n = 0 := by omega
    subst hz
    refine ends_pure ⟨rfl, ?_⟩
    exact ⟨rfl, rfl, rfl⟩
  refine ends_bind (ends_locked (ends_collect_data_blocks hf.layout f.ext2inode f.inner rfl)
    |>.mono_error (fun _ _ h => h.1)) ?_
  rintro blocks f1 ⟨⟨hv1, rfl⟩, hino1, hnum1⟩
  refine ends_bind (ends_locked (ends_read_loop (I := I) hf.layout (Nat.le_refl n) ?_ f1.inner hv1)
    |>.mono_error (fun _ _ h => h.1)) ?_
  · intro k hk
    refine hm.data_list ?_
    apply Nat.lt_of_mul_lt_mul_right (a := f.bs)
    omega
  rintro bytes f2 ⟨⟨hv2, rfl⟩, hino2, hnum2⟩
  have hv : f2.volume = f.volume := hv2
  have hino : f2.ext2inode = f.ext2inode := hino2.trans hino1
  have hnum : f2.inode_num = f.inode_num := hnum2.trans hnum1
  have hgood := (grew_same_volume hf hv (SameHandle.of_eq hino hnum)).1.good
  refine ends_then (ends_update_atime hgood _) ?_ ?_
  · intro _ _ hfails
    rw [← hv]
    exact hfails
  intro _ f3 h3
  refine ends_pure ⟨rfl, ?_⟩
  simp only [decide_eq_true_eq] at h3
  split
  · rename_i hwanted
    rw [if_pos hwanted] at h3
    refine ⟨(SameHandle.of_eq hino hnum).trans h3.toSameHandle, ?_⟩
    rw [← hv, ← hnum]
    exact h3.synced
  · rename_i hwanted
    rw [if_neg hwanted] at h3
    subst h3
    exact ⟨hv, hino, hnum⟩

end ExtFileInodeOps

end zenos_kernel.disk.fs.ext2
