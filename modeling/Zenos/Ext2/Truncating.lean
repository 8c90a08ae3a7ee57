-- `truncate` and the accounts of the volume. A file that is cut keeps the accounts
-- right when every pointer to a freed block goes with its slot, and not otherwise.
import Zenos.Ext2.Freeing

namespace zenos_kernel.disk.fs.ext2

open Bytes Outcome Ext2FSInner PointerTree

namespace ExtFileInodeOps

variable {I : Finset UInt32} {f f' : ExtFileInodeOps} {size : Nat} {D : Fin 15 → Prop}
  [DecidablePred D] {R : Place Tree → Prop}

/-! ## The blocks after `truncate` -/

/-- The trees of the slots that were cleared are gone. -/
theorem Truncated.own_eq (h : Truncated I f f' size D R) (hf : Good I f) (P : Place Tree) :
    f'.own I P = if P.tree.1 = f.inode_num ∧ D P.tree.2 then 0 else f.own I P := by
  refine @own_drop Tree UInt32 _ (f.volume.forest (f.roots I)) (f'.volume.forest (f'.roots I))
    rfl rfl ?_ (fun x => x.1 = f.inode_num ∧ D x.2) _ ?_ ?_ P
  · change f'.volume.geometry.width = f.volume.geometry.width
    rw [h.geometry]
  · intro x
    change f'.roots I x = if _ then 0 else f.roots I x
    unfold roots Volume.roots
    rw [h.inode_num]
    by_cases hx : x.1 = f.inode_num
    · simp only [hx, true_and]
      exact h.i_block x.2
    · simp only [hx, if_false, false_and]
      by_cases hI : x.1 ∈ I
      · unfold Volume.disk_root
        rw [h.geometry, h.inodes x.1 (hf.inodes _ hI) hx]
      · rw [if_neg hI, if_neg hI]
  · intro P _ hne j _
    change u32At (slice f'.volume.bytes _ _) _ = u32At (slice f.volume.bytes _ _) _
    rw [h.geometry]
    congr 1
    exact slice_congr (fun i h1 h2 => h.data _ (hf.data hne) i ⟨h1, h2⟩)

/-- The accounts are right just when no pointer to a freed block is left. -/
theorem Truncated.good_iff (h : Truncated I f f' size D R) (hf : Good I f) :
    Good I f' ↔ ∀ P, R P → f.own I P ≠ 0 → P.tree.1 = f.inode_num ∧ D P.tree.2 := by
  constructor
  · intro hf' P hR hne
    by_contra hstays
    have hown := h.own_eq hf P
    rw [if_neg hstays] at hown
    have hmarked := (hf'.booked.used P trivial (by rw [hown]; exact hne)).2
    rw [hown] at hmarked
    exact (h.cleared P hR hne).not_marked hmarked
  · intro hgone
    refine hf.of_booked h.geometry h.inode_num (h.booked.mono ?_)
    intro P _ hne
    have hown := h.own_eq hf P
    split at hown
    · exact absurd hown hne
    · rename_i hstays
      rw [hown] at hne
      exact ⟨fun hR => hstays (hgone P hR hne), hown⟩

/-- Every data block from `nbc` on in the list of `collect_data_blocks` has its pointer in
a tree of which the slot is cleared. -/
def Uncut (I : Finset UInt32) (f : ExtFileInodeOps) (nbc : Nat) : Prop :=
  ∀ P ∈ (f.data_places I).drop nbc, f.own I P ≠ 0 → Dropped f.volume.geometry.width nbc P.tree.2

theorem uncut_iff {nbc : Nat} : Uncut I f nbc ↔ ∀ P, GivenBack I f nbc P → f.own I P ≠ 0 →
    P.tree.1 = f.inode_num ∧ Dropped f.volume.geometry.width nbc P.tree.2 := by
  constructor
  · rintro huncut P (hP | ⟨h12, rfl⟩ | ⟨hw, rfl | hP⟩) hne
    · exact ⟨(leaf_of_mem_data_places (List.mem_of_mem_drop hP)).1, huncut P hP hne⟩
    · exact ⟨rfl, dropped_single.mpr h12⟩
    · exact ⟨rfl, dropped_double.mpr hw⟩
    · obtain ⟨j, -, rfl⟩ := mem_children hP
      exact ⟨rfl, dropped_double.mpr hw⟩
  · intro hgone P hP hne
    exact (hgone P (Or.inl hP) hne).2

/-- A file without indirect blocks has its pointers in the slots. -/
theorem uncut_of_direct (h : ∀ k : Fin 15, 12 ≤ k.val → f.ext2inode.i_block k = 0) (nbc : Nat) :
    Uncut I f nbc := by
  have hslot : ∀ k : Fin 15, 12 ≤ k.val → f.own I (f.slot k) = 0 := by
    intro k hk
    rw [← h k hk]
    exact own_slot f I k
  have htrees : f.data_places I = (List.ofFn f.slot).take 12 := by
    simp [data_places, tree_places, hslot single_slot (by decide), hslot double_slot (by decide),
      hslot triple_slot (by decide)]
  intro P hP hne
  rw [htrees] at hP
  obtain ⟨i, hi, rfl⟩ := List.mem_iff_getElem.mp hP
  simp only [List.length_drop, List.length_take] at hi
  left
  simp only [List.getElem_drop, List.getElem_take, List.getElem_ofFn, slot]
  omega

/-- The file gets longer, or it is cut where no pointer is left behind. -/
def CutsClean (I : Finset UInt32) (f : ExtFileInodeOps) (size : Nat) : Prop :=
  f.ext2inode.i_size.toNat ≤ size ∨ Uncut I f (f.count size)

/-- Whatever `truncate` does to the file, what it leaves of the volume. -/
structure Resized (I : Finset UInt32) (f f' : ExtFileInodeOps) (size : Nat) : Prop
    extends SameOthers f f' where
  i_size : f'.ext2inode.i_size = UInt32.ofNat size
  stored : f'.Stored
  good_iff : Good I f' ↔ CutsClean I f size

theorem ends_truncate (hf : Good I f) (size : Nat) :
    Yields (truncate size f) (fun _ f' => Resized I f f' size) := by
  by_cases hle : f.ext2inode.i_size.toNat ≤ size
  · refine (ends_truncate_longer hf hle).mono_ok ?_
    intro _ f' h
    refine ⟨h.toSameOthers, h.i_size, h.stored, ?_⟩
    rw [h.good_iff hf]
    exact ⟨fun _ => Or.inl hle, fun _ P hR => hR.elim⟩
  · refine (ends_truncate_shorter hf (Nat.lt_of_not_le hle)).mono_ok ?_
    intro _ f' h
    refine ⟨h.toSameOthers, h.i_size, h.stored, ?_⟩
    rw [h.good_iff hf, ← uncut_iff]
    exact ⟨Or.inr, fun h => h.resolve_left hle⟩

end ExtFileInodeOps

/-! ## Several files -/

/-- A volume and its files in use: one handle for each inode, with its copy. -/
structure OpenFiles where
  inner : Ext2FSInner
  copy : UInt32 → Ext2Inode

namespace OpenFiles

open ExtFileInodeOps

def file (s : OpenFiles) (n : UInt32) : ExtFileInodeOps := ⟨s.inner, s.copy n, n⟩

/-- The handle has done something. -/
def put (s : OpenFiles) (f : ExtFileInodeOps) : OpenFiles :=
  ⟨f.inner, Function.update s.copy f.inode_num f.ext2inode⟩

theorem file_put_self (s : OpenFiles) (f : ExtFileInodeOps) : (s.put f).file f.inode_num = f := by
  simp [file, put]

variable {f : ExtFileInodeOps}

theorem file_put_of_ne (s : OpenFiles) {m : UInt32} (h : m ≠ f.inode_num) :
    (s.put f).file m = ⟨f.inner, s.copy m, m⟩ := by
  simp [file, put, h]

/-- A `write` or a `truncate` that came back, through a handle of `H`. -/
inductive Step (H : Finset UInt32) (Cond : ExtFileInodeOps → Nat → Prop) :
    OpenFiles → OpenFiles → Prop
  | write {s : OpenFiles} {n : UInt32} {offset k : Nat} {buf : List UInt8} {f' : ExtFileInodeOps} :
      n ∈ H → write offset buf (s.file n) = .ok k f' → Step H Cond s (s.put f')
  | truncate {s : OpenFiles} {n : UInt32} {size : Nat} {f' : ExtFileInodeOps} :
      n ∈ H → Cond (s.file n) size → truncate size (s.file n) = .ok () f' → Step H Cond s (s.put f')

/-- The accounts are right, and every handle has the inode of the disk. -/
structure Sound (I H : Finset UInt32) (s : OpenFiles) : Prop where
  consistent : s.inner.volume.Consistent I
  first_data_blk : s.inner.volume.geometry.first_data_blk = 0
  handles : H ⊆ I
  stored : ∀ n ∈ H, (s.file n).Stored

variable {I H : Finset UInt32} {s s' : OpenFiles} {n : UInt32} {f' : ExtFileInodeOps}

theorem Sound.good (h : Sound I H s) (hn : n ∈ H) : Good I (s.file n) :=
  (h.stored n hn).good (h.handles hn) h.consistent h.first_data_blk

/-- A call through one handle leaves the inodes of the others alone. -/
theorem Sound.put (h : Sound I H s) (ho : SameOthers (s.file n) f') (hgood : Good I f')
    (hstored : f'.Stored) : Sound I H (s.put f') := by
  have hgeo : f'.volume.geometry = s.inner.volume.geometry := ho.geometry
  refine ⟨hstored.consistent hgood, ?_, h.handles, ?_⟩
  · rw [← h.first_data_blk, ← hgeo]
    rfl
  intro m hm
  obtain rfl : f'.inode_num = n := ho.inode_num
  by_cases hmn : m = f'.inode_num
  · rw [hmn, file_put_self]
    exact hstored
  · rw [file_put_of_ne s hmn]
    change slice f'.volume.bytes (f'.volume.geometry.inode_at m) 128 = _
    rw [hgeo]
    exact (ho.inodes m (h.consistent.inodes m (h.handles hm)) hmn).trans (h.stored m hm)

theorem Sound.step (h : Sound I H s) (hstep : Step H (CutsClean I) s s') : Sound I H s' := by
  cases hstep with
  | write hn hrun =>
    obtain ⟨-, hw, -, hstored⟩ := (ends_write (h.good hn) _ _).of_ok hrun
    exact h.put hw.toSameOthers hw.good (hstored (h.stored _ hn))
  | truncate hn hcut hrun =>
    have hr := (ends_truncate (h.good hn) _).of_ok hrun
    exact h.put hr.toSameOthers (hr.good_iff.mpr hcut) hr.stored

theorem Sound.run (h : Sound I H s) (hrun : Relation.ReflTransGen (Step H (CutsClean I)) s s') :
    Sound I H s' := by
  induction hrun with
  | refl => exact h
  | tail _ hstep ih => exact ih.step hstep

/-- The volume stays consistent as long as every cut is clean, and the first one that is
not makes it inconsistent. -/
theorem clean_cuts_keep_blocks_owned (hc : s.inner.volume.Consistent I)
    (hfirst : s.inner.superblock.first_data_blk = 0) (hH : H ⊆ I)
    (hcopies : ∀ n ∈ H, s.inner.volume.disk_inode n = some (s.copy n))
    (hrun : Relation.ReflTransGen (Step H (CutsClean I)) s s') :
    s'.inner.volume.Consistent I ∧ ∀ n ∈ H, ∀ size f', truncate size (s'.file n) = .ok () f' →
      (f'.volume.Consistent I ↔ CutsClean I (s'.file n) size) := by
  have hstart : Sound I H s :=
    ⟨hc, congrArg UInt32.toNat hfirst, hH, fun n hn => stored_of_disk_inode (hcopies n hn)⟩
  have h := hstart.run hrun
  refine ⟨h.consistent, ?_⟩
  intro n hn size f' hcall
  have hr := (ends_truncate (h.good hn) _).of_ok hcall
  rw [← hr.good_iff]
  constructor
  · intro hc'
    refine hr.stored.good ?_ hc' ?_
    · rw [hr.inode_num]
      exact h.handles hn
    · rw [hr.geometry]
      exact h.first_data_blk
  · exact fun hgood => hr.stored.consistent hgood

/-- A file of one block is cut to nothing. -/
theorem one_block_is_cut : ∃ k f1 f2, write 0 [1] emptyFile = .ok k f1 ∧
    truncate 0 f1 = .ok () f2 ∧ f2.volume.Consistent {5} := by
  have hrun : passes (write 0 [1] emptyFile) (fun _ f1 =>
      decide (f1.inode_num = 5 ∧ ∀ k : Fin 15, 12 ≤ k.val → f1.ext2inode.i_block k = 0) &&
      passes (truncate 0 f1) (fun _ _ => true)) = true := by
    decide +kernel
  obtain ⟨k, f1, h1, hpass⟩ := exists_of_passes hrun
  rw [Bool.and_eq_true, decide_eq_true_eq] at hpass
  obtain ⟨⟨hnum, hdirect⟩, hpass⟩ := hpass
  obtain ⟨_, f2, h2, -⟩ := exists_of_passes hpass
  refine ⟨k, f1, f2, h1, h2, ?_⟩
  obtain ⟨s, hs⟩ : ∃ s : OpenFiles, s = ⟨smallVolume, fun _ => emptyInode⟩ := ⟨_, rfl⟩
  have hfile : s.file 5 = emptyFile := by rw [hs]; rfl
  have hfile1 : (s.put f1).file 5 = f1 := by rw [← hnum, file_put_self]
  have hmem : (5 : UInt32) ∈ ({5} : Finset UInt32) := Finset.mem_singleton_self 5
  have hstored : emptyFile.Stored := slice_splice _ _ _
  have hcopies : ∀ n ∈ ({5} : Finset UInt32), s.inner.volume.disk_inode n = some (s.copy n) := by
    intro n hn
    rw [Finset.mem_singleton.mp hn, hs]
    exact hstored.deserialize
  have hsteps : Relation.ReflTransGen (Step {5} (CutsClean {5})) s ((s.put f1).put f2) := by
    refine (Relation.ReflTransGen.single (.write hmem (by rw [hfile]; exact h1))).tail
      (.truncate hmem ?_ (by rw [hfile1]; exact h2))
    rw [hfile1]
    exact Or.inr (uncut_of_direct hdirect _)
  exact (clean_cuts_keep_blocks_owned (s := s) (by rw [hs]; exact consistent_small)
    (by rw [hs]; rfl) (Finset.Subset.refl _) hcopies hsteps).1

/-! ### A block behind an indirect block -/

/-- The rest of `truncate`, once the data blocks are known. -/
def cut_blocks (nbc size : Nat) (data_blocks : List UInt32) : FileM Unit := do
  free_data_blocks nbc 0 data_blocks
  modify (clear_direct nbc)
  free_indirect nbc
  modify (·.set_size (UInt32.ofNat size))
  touch

/-- The blocks of a file with one data block, number 13. -/
def blocks13 : List UInt32 :=
  List.replicate 12 0 ++ (List.range 512).map (fun j => if j = 1 then 6 else 0)

/-- After a write to block 13 of an empty file, only that one is there. -/
theorem data_list_of_write (hw : Wrote {5} emptyFile f (13 * 2048) [1])
    (hslots : ∀ k, f.ext2inode.i_block k = if k = single_slot then 5 else 0)
    (h1 : f.volume.pointer 5 1 = 6) : f.volume.data_list f.ext2inode = blocks13 := by
  have hwidth : f.volume.geometry.width = 512 := by
    rw [hw.geometry]
    decide
  have hslot : f.own {5} (f.slot single_slot) = 5 := by
    exact (own_slot f {5} single_slot).trans (hslots single_slot)
  have hpointer : ∀ j < 512, f.volume.pointer 5 j = if j = 1 then 6 else 0 := by
    intro j hj
    split
    · rename_i hj1
      rw [hj1, h1]
    rename_i hj1
    have hchild := own_child (I := {5}) (f := f) (P := f.slot single_slot) (j := j)
      (by change 0 < 1; omega) (by rw [hwidth]; exact hj)
    rw [hslot, if_neg (by decide)] at hchild
    rw [← hchild]
    by_contra hne
    obtain ⟨p, hp1, hp2, -, hway⟩ := (hw.fill _ (own_emptyFile _)).mp hne
    rw [List.length_singleton] at hp2
    obtain rfl : p = 13 * 2048 := by omega
    have hpath : [j] = [1] := hway.eq_of_length rfl
    exact hj1 (List.singleton_inj.mp hpath)
  have hbelow : f.volume.below 0 5 = (List.range 512).map (fun j => if j = 1 then 6 else 0) := by
    change f.volume.pointers 5 = _
    unfold Volume.pointers
    rw [hwidth]
    exact List.map_congr_left (fun j hj => hpointer j (List.mem_range.mp hj))
  unfold Volume.data_list blocks13
  simp [hslots, hbelow, single_slot, double_slot, triple_slot]

/-- The data block is cut off. Its pointer stays in the indirect block, and its bit is
clear. -/
theorem a_freed_block_is_still_owned : emptyFile.volume.Consistent {5} ∧
    emptyFile.inner.superblock.first_data_blk = 0 ∧
    emptyFile.volume.disk_inode 5 = some emptyFile.ext2inode ∧
    ∃ k f1 f2, write (13 * 2048) [1] emptyFile = .ok k f1 ∧
      truncate (12 * 2048 + 1) f1 = .ok () f2 ∧ ¬ f2.volume.Consistent {5} := by
  have hstored : emptyFile.Stored := slice_splice _ _ _
  refine ⟨consistent_small, rfl, hstored.deserialize, ?_⟩
  have hrun : passes (write (13 * 2048) [1] emptyFile) (fun _ f1 =>
      decide ((∀ k, f1.ext2inode.i_block k = if k = single_slot then 5 else 0) ∧
        f1.volume.pointer 5 1 = 6 ∧ f1.inner.read_only = false ∧
        12 * 2048 + 1 < f1.ext2inode.i_size.toNat) &&
      passes (locked (collect_data_blocks f1.ext2inode) f1) (fun _ f1' =>
      passes (cut_blocks (f1.count (12 * 2048 + 1)) (12 * 2048 + 1) blocks13 f1') (fun _ f2 =>
        decide (f2.volume.own (f2.volume.roots {5}) ⟨(5, single_slot), [1]⟩ = 6 ∧
          0 < f2.volume.geometry.groups.length ∧ 6 < 8 * f2.volume.geometry.bs ∧
          6 < f2.volume.geometry.blocks_per_grp ∧ (6 : UInt32).toNat = f2.volume.first_block 0 + 6 ∧
          f2.volume.clear 0 6 = true)))) = true := by
    decide +kernel
  obtain ⟨k, f1, h1, hpass⟩ := exists_of_passes hrun
  rw [Bool.and_eq_true, decide_eq_true_eq] at hpass
  obtain ⟨⟨hslots, hpointer, hro, hlt⟩, hpass⟩ := hpass
  obtain ⟨l, f1', hl, hpass⟩ := exists_of_passes hpass
  obtain ⟨_, f2, h2, hpass⟩ := exists_of_passes hpass
  rw [decide_eq_true_eq] at hpass
  obtain ⟨hown, hg, hbs, hbpg, hfirst, hclear⟩ := hpass
  have hgood : Good {5} emptyFile :=
    hstored.good (Finset.mem_singleton_self 5) consistent_small rfl
  obtain ⟨-, hw, -, -⟩ := (ends_write hgood _ _).of_ok h1
  have hlist : l = blocks13 := by
    have hcollect := (ends_locked
      (ends_collect_data_blocks hw.good.layout f1.ext2inode f1.inner rfl)).of_ok hl
    rw [hcollect.1.2]
    exact data_list_of_write hw hslots hpointer
  rw [← hlist] at h2
  have htruncate : truncate (12 * 2048 + 1) f1 = .ok () f2 := by
    unfold truncate
    rw [get_bind, if_neg (by rw [hro]; decide), if_neg (by omega)]
    exact bind_ok.mpr ⟨l, _, hl, h2⟩
  refine ⟨k, f1, f2, h1, htruncate, fun hc => ?_⟩
  have hmarked := (hc.booked.used _ trivial (by rw [hown]; decide)).2
  rw [hown] at hmarked
  exact Volume.Cleared.not_marked ⟨0, 6, hg, hbs, hbpg, hfirst, hclear⟩ hmarked

end OpenFiles

end zenos_kernel.disk.fs.ext2
