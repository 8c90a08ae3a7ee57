-- Which block stands where: the trees of pointers of the inodes, and what a
-- write to the volume leaves of them.
import Zenos.Ext2.Blocks
import Zenos.Ext2.File
import Zenos.Lib.PointerTree

namespace zenos_kernel.disk.fs.ext2

open Bytes Outcome Ext2FSInner PointerTree

/-- A slot of an inode is the root of a tree of pointers. -/
abbrev Tree := UInt32 × Fin 15

/-- The slots 12, 13 and 14 lead over one, two and three blocks of pointers. -/
def Tree.depth (x : Tree) : Nat := x.2.val - 11

namespace Volume

/-- Pointer `j` of block `b`. -/
def pointer (v : Volume) (b : UInt32) (j : Nat) : UInt32 :=
  u32At (slice v.bytes (v.geometry.at_ b.toNat) v.geometry.bs) (4 * j)

/-- The pointers of a block. -/
def pointers (v : Volume) (b : UInt32) : List UInt32 :=
  (List.range v.geometry.width).map (v.pointer b)

/-- A slot as it is on the disk. -/
def disk_root (v : Volume) (x : Tree) : UInt32 :=
  u32At (slice v.bytes (v.geometry.inode_at x.1) 128) (40 + x.2 * 4)

/-- The slots of the inodes in use. -/
def roots (v : Volume) (I : Finset UInt32) (x : Tree) : UInt32 :=
  if x.1 ∈ I then v.disk_root x else 0

def forest (v : Volume) (roots : Tree → UInt32) : Forest Tree UInt32 where
  null := 0
  root := roots
  next := v.pointer
  depth := Tree.depth
  width := v.geometry.width

/-- The block that is stored at a place. -/
def own (v : Volume) (roots : Tree → UInt32) (P : Place Tree) : UInt32 := (v.forest roots).own P

variable {v v' : Volume} {r r' : Tree → UInt32} {j : Nat}

theorem length_pointers (v : Volume) (b : UInt32) : (v.pointers b).length = v.geometry.width := by
  simp [pointers]

theorem getElem?_pointers (v : Volume) (b : UInt32) (hj : j < v.geometry.width) :
    (v.pointers b)[j]? = some (v.pointer b j) := by
  simp [pointers, hj]

/-- Only the blocks in `C` may change. The bitmaps are not spoken of. -/
structure Kept (v v' : Volume) (C : UInt32 → Prop) : Prop extends Alike v v' where
  data : ∀ b, v.geometry.DataBlock b → ¬ C b → ∀ i, v.geometry.InBlock b.toNat i →
    v'.bytes i = v.bytes i
  table : ∀ g < v.geometry.groups.length, ∀ i, v.geometry.TableByte g i → v'.bytes i = v.bytes i

namespace Kept

variable {v'' : Volume} {C C' : UInt32 → Prop}

theorem refl (v : Volume) (C : UInt32 → Prop) : Kept v v C :=
  ⟨⟨rfl, rfl, rfl⟩, fun _ _ _ _ _ => rfl, fun _ _ _ _ => rfl⟩

theorem trans (h : Kept v v' C) (h' : Kept v' v'' C') : Kept v v'' (fun b => C b ∨ C' b) := by
  have hgeo := h.geometry
  refine ⟨h.toAlike.trans h'.toAlike, ?_, ?_⟩
  · intro b hb hC i hi
    rw [h'.data b (by rw [hgeo]; exact hb) (fun hc => hC (Or.inr hc)) i (by rw [hgeo]; exact hi)]
    exact h.data b hb (fun hc => hC (Or.inl hc)) i hi
  · intro g hg i hi
    rw [h'.table g (by rw [hgeo]; exact hg) i (by rw [hgeo]; exact hi)]
    exact h.table g hg i hi

theorem mono (h : Kept v v' C) (hC : ∀ b, C b → C' b) : Kept v v' C' :=
  ⟨h.toAlike, fun b hb hc => h.data b hb (fun hb' => hc (hC b hb')), h.table⟩

/-- The pointers of a block that did not change. -/
theorem pointer (h : Kept v v' C) {b : UInt32} (hb : v.geometry.DataBlock b) (hC : ¬ C b)
    (j : Nat) : v'.pointer b j = v.pointer b j := by
  unfold Volume.pointer
  rw [h.geometry]
  congr 1
  exact slice_congr (fun i h1 h2 => h.data b hb hC i ⟨h1, h2⟩)

theorem disk_root (h : Kept v v' C) (hG : v.geometry.Layout) {x : Tree}
    (hx : v.geometry.HasInode x.1) : v'.disk_root x = v.disk_root x := by
  unfold Volume.disk_root
  rw [h.geometry]
  congr 1
  exact slice_congr (fun i h1 h2 => h.table _ hx.2 i (hG.tableByte_of_inode h1 h2))

/-- The same blocks are stored at all places when no block of pointers changed. -/
theorem own (h : Kept v v' C) (hr : ∀ x, r' x = r x)
    (hdata : ∀ P, v.own r P ≠ 0 → v.geometry.DataBlock (v.own r P))
    (hinner : ∀ P, P.path.length < P.tree.depth → v.own r P ≠ 0 → ¬ C (v.own r P)) :
    v'.own r' = v.own r := by
  have hw : (v'.forest r').width = (v.forest r).width := by
    change v'.geometry.width = v.geometry.width
    rw [h.geometry]
  refine own_congr rfl rfl hw hr ?_
  intro P hP hne j _
  exact h.pointer (hdata P hne) (hinner P hP hne) j

end Kept

variable {b : UInt32} {data : List UInt8} {X : Type} {o : Nat}

theorem kept_write_inside (hb : v.geometry.DataBlock b) (hlen : o + data.length ≤ v.geometry.bs) :
    Kept v (v.write (v.geometry.at_ b.toNat + o) data) (· = b) := by
  have hin : ∀ i, v.geometry.at_ b.toNat + o ≤ i ∧
      i < v.geometry.at_ b.toNat + o + data.length → v.geometry.InBlock b.toNat i := by
    intro i hi
    exact ⟨by omega, by omega⟩
  refine ⟨⟨rfl, rfl, rfl⟩, ?_, ?_⟩
  · intro b' _ hne i hi
    refine splice_outside _ (fun hi' => hne ?_)
    exact UInt32.toNat.inj (Geometry.inBlock_inj hi (hin i hi'))
  · intro g hg i hi
    exact splice_outside _ (fun hi' => hb.not_table (hin i hi') hg hi)

/-- A change of the bitmap changes no block. -/
theorem kept_bitmap {g i : Nat} (hG : v.geometry.Layout) (hg : g < v.geometry.groups.length)
    (hi : i < 8 * v.geometry.bs) (halike : Alike v v')
    (hbytes : ∀ k, k ≠ v.geometry.bitmap_at g + i / 8 → v'.bytes k = v.bytes k)
    (C : UInt32 → Prop) : Kept v v' C := by
  have hin : v.geometry.InBlock (v.geometry.group g).block_bitmap.toNat
      (v.geometry.bitmap_at g + i / 8) := Geometry.inBlock_offset (by omega)
  refine ⟨halike, ?_, ?_⟩
  · intro b hb _ k hk
    exact hbytes k (fun hkeq => hb.not_bitmap hk hg (hkeq ▸ hin))
  · intro g' hg' k hk
    exact hbytes k (fun hkeq => hG.table_bitmap g' hg' g hg k hk (hkeq ▸ hin))

theorem kept_took {c : UInt32} (hG : v.geometry.Layout) (h : Took v c v') : ∀ C, Kept v v' C := by
  obtain ⟨g, i, hg, hi, _, _, _, rfl⟩ := h
  exact kept_bitmap hG hg hi ⟨took_geometry v g i, rfl, rfl⟩ (fun _ => Bitmap.mark_outside _ _)

theorem kept_freed (hG : v.geometry.Layout) (h : Freed v b v') : ∀ C, Kept v v' C := by
  obtain ⟨g, i, hg, hi, _, _, _, _, rfl⟩ := h
  exact kept_bitmap hG hg hi ⟨freed_geometry v g i, rfl, rfl⟩ (fun _ => Bitmap.unmark_outside _ _)

variable {own : X → UInt32} {live : X → Prop}

theorem booked_write_inside (hb : v.geometry.DataBlock b) (hlen : o + data.length ≤ v.geometry.bs)
    (h : Booked v live own) : Booked (v.write (v.geometry.at_ b.toNat + o) data) live own := by
  refine h.congr rfl rfl rfl ?_
  intro g hg k hk
  refine splice_outside _ (fun hi => hb.not_bitmap ⟨?_, ?_⟩ hg hk)
  · omega
  · omega

end Volume

/-! ## Reading and writing blocks -/

namespace Ext2FSInner

/-- Why a read or write of block `b` may fail. -/
def BlockFails (v : Volume) (b : UInt32) : Prop :=
  v.Faulty ∨ UInt64.size ≤ v.geometry.at_ b.toNat

variable (s : Ext2FSInner)

theorem ends_read_block (b : UInt32) :
    Ends (read_block b s) (fun buf s' => s'.volume = s.volume ∧
        buf = slice s.volume.bytes (s.volume.geometry.at_ b.toNat) s.volume.geometry.bs)
      (fun _ s' => s'.volume = s.volume ∧ BlockFails s.volume b) := by
  unfold read_block
  rw [get_bind]
  refine ends_then (s.ends_block_offset b) ?_ ?_
  · rintro _ s' ⟨rfl, h⟩
    exact ⟨rfl, Or.inr h⟩
  · rintro off s1 ⟨rfl, rfl⟩
    refine (s1.ends_read_at _ _).mono_error ?_
    intro _ s' h
    exact ⟨h.1, Or.inl h.2⟩

theorem ends_write_block (b : UInt32) (data : List UInt8) :
    Ends (write_block b data s)
      (fun _ s' => s'.volume = s.volume.write (s.volume.geometry.at_ b.toNat) data)
      (fun _ s' => s'.volume = s.volume ∧ BlockFails s.volume b) := by
  refine ends_then (s.ends_block_offset b) ?_ ?_
  · rintro _ s' ⟨rfl, h⟩
    exact ⟨rfl, Or.inr h⟩
  · rintro off s1 ⟨rfl, rfl⟩
    refine (s1.ends_write_at _ _).mono_error ?_
    intro _ s' h
    exact ⟨h.1, Or.inl h.2⟩

/-- The pointers of a block. -/
theorem ends_read_array (b : UInt32) :
    Ends (read_block_u32_array b s) (fun ptrs s' => s'.volume = s.volume ∧
        ptrs = s.volume.pointers b) (fun _ s' => s'.volume = s.volume ∧ BlockFails s.volume b) := by
  unfold read_block_u32_array
  rw [get_bind]
  refine ends_bind (s.ends_read_block b) ?_
  rintro buf s1 ⟨hv, rfl⟩
  exact ⟨hv, rfl⟩

theorem ends_write_array {s : Ext2FSInner} (hG : s.volume.geometry.Layout) (b : UInt32)
    {ptrs : List UInt32} (hlen : ptrs.length = s.volume.geometry.width) :
    Ends (write_block_u32_array b ptrs s)
      (fun _ s' => s'.volume = s.volume.write (s.volume.geometry.at_ b.toNat) (ofWords ptrs))
      (fun _ s' => s'.volume = s.volume ∧ BlockFails s.volume b) := by
  have hbs : s.bs = 4 * ptrs.length := by
    rw [hlen]
    exact hG.bs_width
  unfold write_block_u32_array
  rw [get_bind]
  have htake : ptrs.take (s.bs / 4) = ptrs := by
    apply List.take_of_length_le
    omega
  rw [htake, length_ofWords, ← hbs, Nat.sub_self, List.replicate_zero, List.append_nil]
  exact s.ends_write_block b _

end Ext2FSInner

namespace Volume

theorem pointer_write_array {v : Volume} (hG : v.geometry.Layout) (b : UInt32) {ptrs : List UInt32}
    (hlen : ptrs.length = v.geometry.width) {j : Nat} (hj : j < v.geometry.width) :
    (v.write (v.geometry.at_ b.toNat) (ofWords ptrs)).pointer b j = ptrs.getD j 0 := by
  have hbs : v.geometry.bs = (ofWords ptrs).length := by
    rw [length_ofWords, hlen]
    exact hG.bs_width
  have hslice : slice (v.write (v.geometry.at_ b.toNat) (ofWords ptrs)).bytes
      (v.geometry.at_ b.toNat) v.geometry.bs = ofWords ptrs := by
    rw [hbs]
    exact slice_splice _ _ _
  unfold pointer
  rw [write_geometry, hslice]
  have h := u32At_ofWords (show j < ptrs.length by omega) []
  rwa [List.append_nil] at h

theorem pointer_write_zeros (v : Volume) (b : UInt32) (j : Nat) :
    (v.write (v.geometry.at_ b.toNat) (List.replicate v.geometry.bs 0)).pointer b j = 0 := by
  have hslice : slice (v.write (v.geometry.at_ b.toNat) (List.replicate v.geometry.bs 0)).bytes
      (v.geometry.at_ b.toNat) v.geometry.bs = List.replicate v.geometry.bs 0 := by
    have h := slice_splice v.bytes (v.geometry.at_ b.toNat) (List.replicate v.geometry.bs 0)
    rwa [List.length_replicate] at h
  unfold pointer
  rw [write_geometry, hslice]
  unfold u32At
  have hget : ∀ k, (List.replicate v.geometry.bs (0 : UInt8)).getD k 0 = 0 := by
    intro k
    rw [List.getD_eq_getElem?_getD, List.getElem?_replicate]
    split
    · rfl
    · rfl
  rw [hget, hget, hget, hget]
  rfl

end Volume

end zenos_kernel.disk.fs.ext2
