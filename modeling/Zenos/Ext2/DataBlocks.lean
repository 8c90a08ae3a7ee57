-- The data blocks of a file by their index: where each one stands, and that
-- `get_or_alloc_block` fills the way to it and nothing else.
import Zenos.Ext2.Growth

namespace zenos_kernel.disk.fs.ext2

open Outcome PointerTree

/-! ## Places -/

@[simp] theorem depth_single (n : UInt32) : Tree.depth (n, single_slot) = 1 := rfl

@[simp] theorem depth_double (n : UInt32) : Tree.depth (n, double_slot) = 2 := rfl

@[simp] theorem depth_triple (n : UInt32) : Tree.depth (n, triple_slot) = 3 := rfl

theorem direct_lt {k : Nat} (h : k < 12) : k < 15 := by omega

/-- The place of data block `k` of inode `n`, when a block holds `w` pointers. -/
def data_place (n : UInt32) (w k : Nat) : Place Tree :=
  if h : k < 12 then ⟨(n, ⟨k, direct_lt h⟩), []⟩
  else if k - 12 < w then ⟨(n, single_slot), [k - 12]⟩
  else if k - 12 - w < w * w then
    ⟨(n, double_slot), [(k - 12 - w) / w, (k - 12 - w) % w]⟩
  else
    ⟨(n, triple_slot), [(k - 12 - w - w * w) / w / w, (k - 12 - w - w * w) / w % w,
      (k - 12 - w - w * w) % w]⟩

/-- The index of the data block at a place. -/
def data_index (w : Nat) (P : Place Tree) : Nat :=
  match P.path with
  | [] => P.tree.2
  | [j] => 12 + j
  | [i, j] => 12 + w + (i * w + j)
  | [h, i, j] => 12 + w + w * w + ((h * w + i) * w + j)
  | _ => 0

variable {n : UInt32} {w k : Nat} {P Q : Place Tree}

/-- Every index is the index of its place. -/
theorem data_index_data_place (n : UInt32) (w k : Nat) : data_index w (data_place n w k) = k := by
  unfold data_place
  split
  · rfl
  split
  · change 12 + (k - 12) = k
    omega
  split
  · change 12 + w + ((k - 12 - w) / w * w + (k - 12 - w) % w) = k
    rw [Nat.div_add_mod']
    omega
  · change 12 + w + w * w + (((k - 12 - w - w * w) / w / w * w +
      (k - 12 - w - w * w) / w % w) * w + (k - 12 - w - w * w) % w) = k
    rw [Nat.div_add_mod', Nat.div_add_mod']
    omega

theorem data_place_inj {k' : Nat} (h : data_place n w k = data_place n w k') : k = k' := by
  rw [← data_index_data_place n w k, h, data_index_data_place]

@[simp] theorem data_place_inode (n : UInt32) (w k : Nat) : (data_place n w k).tree.1 = n := by
  unfold data_place
  split
  · rfl
  · split
    · rfl
    · split <;> rfl

theorem data_place_leaf (n : UInt32) (w k : Nat) :
    (data_place n w k).path.length = (data_place n w k).tree.depth := by
  unfold data_place
  split
  · change 0 = k - 11
    omega
  · split
    · rfl
    · split <;> rfl

/-- `P` stands on the way to `Q`, or is `Q`. -/
def OnWay (P Q : Place Tree) : Prop := P.tree = Q.tree ∧ P.path <+: Q.path

theorem onWay_root {x : Tree} : OnWay P ⟨x, []⟩ ↔ P = ⟨x, []⟩ := by
  unfold OnWay
  rw [List.prefix_nil, Place.ext_iff]

theorem onWay_child {j : Nat} : OnWay P (Q.child j) ↔ OnWay P Q ∨ P = Q.child j := by
  unfold OnWay
  rw [Place.child_path, List.prefix_concat_iff, and_or_left, or_comm, Place.ext_iff]
  rfl

/-- A leaf is on no way but its own. -/
theorem onWay_leaf (h : OnWay P Q) (hP : P.path.length = P.tree.depth)
    (hQ : Q.path.length = Q.tree.depth) : P = Q := by
  refine Place.ext h.1 (h.2.eq_of_length ?_)
  rw [hP, hQ, h.1]

namespace ExtFileInodeOps

variable {I : Finset UInt32} {f f' : ExtFileInodeOps}

variable (f)

/-- The place of data block `k` of the file. -/
def place (k : Nat) : Place Tree :=
  data_place f.inode_num f.volume.geometry.width k

/-- Data block `k` of the file, or 0. -/
def block (I : Finset UInt32) (k : Nat) : UInt32 := f.own I (f.place k)

/-! ## `get_or_alloc_block` -/

theorem own_slot (I : Finset UInt32) (k : Fin 15) :
    f.own I ⟨(f.inode_num, k), []⟩ = f.ext2inode.i_block k := by
  exact if_pos rfl

variable {f}

/-- A place that was filled holds a block. -/
theorem Grew.filled {new : Place Tree → Prop} (h : Grew I f f' new)
    (hP : new P) : f'.own I P ≠ 0 := by
  by_cases h0 : f.own I P = 0
  · exact (h.fill P h0).mpr hP
  · rw [h.keep P h0]
    exact h0

theorem ends_fill_root (hf : Good I f) {k : Fin 15} :
    Yields (fill_slot k true f) (fun _ f' => Grew I f f' (OnWay · ⟨(f.inode_num, k), []⟩) ∧
      f'.ext2inode.i_block k = f'.own I ⟨(f.inode_num, k), []⟩ ∧
      f'.own I ⟨(f.inode_num, k), []⟩ ≠ 0) := by
  refine (ends_fill_slot hf (fun _ => rfl)).mono_ok ?_
  intro _ f1 hg
  refine ⟨hg.congr (fun P => onWay_root), ?_, hg.filled rfl⟩
  rw [← hg.inode_num, own_slot]

theorem ends_fill_next (hf : Good I f) (hP : P.path.length < P.tree.depth)
    (hPn : P.tree.1 = f.inode_num) (hne : f.own I P ≠ 0) {index : Nat}
    (hidx : index < f.volume.geometry.width) {zeroed : Bool}
    (hz : P.path.length + 1 < P.tree.depth → zeroed = true) {f0 : ExtFileInodeOps}
    (h0 : Grew I f0 f (OnWay · P)) :
    Yields (fill_entry (f.own I P) index zeroed f)
      (fun b f' => Grew I f0 f' (OnWay · (P.child index)) ∧ b = f'.own I (P.child index) ∧ b ≠ 0) := by
  refine (ends_fill_entry hf hP hPn hne hidx hz).mono_ok ?_
  rintro b f1 ⟨hg, hb, hb0⟩
  exact ⟨(h0.trans hg).congr (fun Q => onWay_child), hb, hb0⟩

/-- The number of data blocks that the direct, single and double indirect slots give. -/
def max_blocks (f : ExtFileInodeOps) : Nat :=
  12 + f.volume.geometry.width + f.volume.geometry.width * f.volume.geometry.width

/-- The way to data block `k` is filled. Blocks behind the triple indirect slot are
refused. -/
theorem ends_get_or_alloc_block (hf : Good I f) (k : Nat) :
    Yields (get_or_alloc_block k f)
      (fun b f' => (Grew I f f' (OnWay · (f.place k)) ∧ b = f'.own I (f.place k) ∧ b ≠ 0) ∧
        k < f.max_blocks) := by
  have hw : f.bs / 4 = f.volume.geometry.width := rfl
  have hmax : f.max_blocks =
    12 + f.volume.geometry.width + f.volume.geometry.width * f.volume.geometry.width := rfl
  unfold get_or_alloc_block place data_place
  rw [get_bind]
  dsimp only
  rw [hw]
  split
  · have hz : 11 < k → false = true := fun h => by omega
    refine ends_bind (ends_fill_slot hf hz) ?_
    intro _ f1 hg
    have hb : f1.ext2inode.i_block ⟨k, by omega⟩ =
        f1.own I ⟨(f.inode_num, ⟨k, by omega⟩), []⟩ := by
      rw [← hg.inode_num, own_slot]
    refine ⟨⟨hg.congr (fun P => onWay_root), hb, ?_⟩, by omega⟩
    rw [hb]
    exact hg.filled rfl
  split
  · rename_i hk
    refine ends_bind (ends_fill_root hf) ?_
    rintro _ f1 ⟨hg, hslot, hne⟩
    rw [get_bind, hslot]
    refine (ends_fill_next hg.good (by simp) hg.inode_num.symm hne
      (by rw [hg.geometry]; exact hk) (fun h => absurd h (by simp)) hg).mono_ok ?_
    exact fun _ _ h => ⟨h, by omega⟩
  split
  · rename_i hk
    have hwpos : 0 < f.volume.geometry.width := Nat.pos_of_lt_mul_left hk
    refine ends_bind (ends_fill_root hf) ?_
    rintro _ f1 ⟨hg, hslot, hne⟩
    rw [get_bind, hslot]
    refine ends_bind (ends_fill_next hg.good (by simp) hg.inode_num.symm hne ?_
      (fun _ => rfl) hg) ?_
    · rw [hg.geometry]
      exact Nat.div_lt_of_lt_mul hk
    · rintro l2 f2 ⟨hg2, rfl, hne2⟩
      refine (ends_fill_next hg2.good (by simp) hg2.inode_num.symm hne2 ?_
        (fun h => absurd h (by simp)) hg2).mono_ok ?_
      · rw [hg2.geometry]
        exact Nat.mod_lt _ hwpos
      · exact fun _ _ h => ⟨h, by omega⟩
  · exact trivial

end ExtFileInodeOps

end zenos_kernel.disk.fs.ext2
