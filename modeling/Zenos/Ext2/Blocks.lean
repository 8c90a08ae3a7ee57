-- The accounts of the blocks: bitmaps, the counts of the groups and the count of
-- the volume, and which place holds which block. `allocate_block` and
-- `free_block` keep them.
import Zenos.Ext2.Superblock
import Zenos.Lib.Bitmap
import Mathlib.Algebra.BigOperators.Group.List.Basic

namespace zenos_kernel.disk.fs.ext2

open Bytes Outcome Ext2FSInner Volume zenos_kernel.disk.fs.ext2.Geometry

namespace Volume

variable (v : Volume)

/-- The counts of free blocks are changed for a group and for the volume. -/
def with_counts (g : Nat) (count : UInt16 → UInt16) (total : UInt32 → UInt32) :
    Volume :=
  { v with
    block_group_descriptors := v.block_group_descriptors.modify g (fun bgdt =>
      { bgdt with bg_free_blocks_count := count bgdt.bg_free_blocks_count })
    superblock := { v.superblock with free_blocks := total v.superblock.free_blocks } }

def set_bytes (bytes : Nat → UInt8) : Volume := { v with bytes }

variable (g i : Nat)

/-- Bit `i` of group `g` is set, and the block is counted as used. -/
def took : Volume :=
  (v.set_bytes (Bitmap.mark v.bytes (v.geometry.bitmap_at g) i)).with_counts g (· - 1) (· - 1)

/-- Bit `i` of group `g` is cleared, and the block is counted as free. -/
def freed : Volume :=
  (v.set_bytes (Bitmap.unmark v.bytes (v.geometry.bitmap_at g) i)).with_counts g (· + 1) (· + 1)

theorem places_modify (ds : List BlockGroupDescriptorTable) (g : Nat) (count : UInt16 → UInt16) :
    (ds.modify g (fun bgdt =>
      { bgdt with bg_free_blocks_count := count bgdt.bg_free_blocks_count })).map (·.places) =
      ds.map (·.places) := by
  apply List.ext_getElem?
  intro k
  rw [List.getElem?_map, List.getElem?_map, List.getElem?_modify]
  by_cases h : g = k
  · cases hk : ds[k]? with
    | none => simp [h]
    | some d => simp [h, BlockGroupDescriptorTable.places]
  · simp [h]

theorem with_counts_geometry (g : Nat) (count : UInt16 → UInt16)
    (total : UInt32 → UInt32) : (v.with_counts g count total).geometry = v.geometry := by
  unfold geometry
  congr 1
  exact places_modify _ g count

@[simp] theorem took_geometry : (v.took g i).geometry = v.geometry :=
  with_counts_geometry _ g _ _

@[simp] theorem freed_geometry : (v.freed g i).geometry = v.geometry :=
  with_counts_geometry _ g _ _

@[simp] theorem took_bytes :
    (v.took g i).bytes = Bitmap.mark v.bytes (v.geometry.bitmap_at g) i := rfl

@[simp] theorem freed_bytes :
    (v.freed g i).bytes = Bitmap.unmark v.bytes (v.geometry.bitmap_at g) i := rfl

/-- The bits of the block bitmap of a group. -/
def clear (v : Volume) (g i : Nat) : Bool := Bitmap.clear v.bytes (v.geometry.bitmap_at g) i

/-- The block numbers of group `g` start at this one. -/
def first_block (g : Nat) : Nat :=
  v.geometry.first_data_blk + g * v.geometry.blocks_per_grp

end Volume

/-! ## What the functions do -/

namespace Ext2FSInner

variable {bitmap : List UInt8}

theorem find_clear_some {byte_idx bit : Nat} (h : find_clear bitmap = some (byte_idx, bit)) :
    byte_idx < bitmap.length ∧ bit < 8 ∧ bit_is_clear (bitmap.getD byte_idx 0) bit = true := by
  obtain ⟨k, hk, h⟩ := List.exists_of_findSome?_eq_some h
  dsimp only at h
  split at h
  · cases h
  · obtain ⟨j, hj, h⟩ := List.exists_of_findSome?_eq_some h
    split at h
    · rename_i hclear
      cases h
      exact ⟨List.mem_range.mp hk, List.mem_range.mp hj, hclear⟩
    · cases h

theorem ends_block_offset (s : Ext2FSInner) (b : UInt32) :
    Ends (block_offset b s) (fun off s' => s' = s ∧ off = s.volume.geometry.at_ b.toNat)
      (fun _ s' => s' = s ∧ UInt64.size ≤ s.volume.geometry.at_ b.toNat) := by
  exact (s.ends_u64 _).mono (fun _ _ h => ⟨h.2, h.1⟩) (fun _ _ h => ⟨h.2, h.1⟩)

variable {bgdt : BlockGroupDescriptorTable} {s s1 : Ext2FSInner} {g : Nat}

/-- The descriptor of a group says where its bitmap is. -/
theorem bitmap_at_of_descriptor (h : s.block_group_descriptors[g]? = some bgdt) :
    g < s.volume.geometry.groups.length ∧
      s.volume.geometry.at_ bgdt.bg_block_bitmap.toNat = s.volume.geometry.bitmap_at g := by
  have hget : s.volume.geometry.groups[g]? = some bgdt.places := by
    change (s.block_group_descriptors.map (·.places))[g]? = _
    rw [List.getElem?_map, h]
    rfl
  refine ⟨(List.getElem?_eq_some_iff.mp hget).1, ?_⟩
  unfold bitmap_at group
  rw [List.getD_eq_getElem?_getD, hget]
  rfl

theorem volume_set_counts {bgdt' : BlockGroupDescriptorTable}
    {bytes : Nat → UInt8} {count : UInt16 → UInt16} {total : UInt32 → UInt32}
    (hs : s1.volume = s.volume.set_bytes bytes) (hg : s.block_group_descriptors[g]? = some bgdt)
    (hbgdt : bgdt' = { bgdt with bg_free_blocks_count := count bgdt.bg_free_blocks_count }) :
    ((s1.set_descriptor g bgdt').set_free_blocks (total s.superblock.free_blocks)).volume =
      (s.volume.set_bytes bytes).with_counts g count total := by
  have hds : s1.block_group_descriptors = s.block_group_descriptors :=
    congrArg (·.block_group_descriptors) hs
  have hsb : s1.superblock = s.superblock := congrArg (·.superblock) hs
  have hmod : s.block_group_descriptors.set g bgdt' = s.block_group_descriptors.modify g (fun bgdt =>
      { bgdt with bg_free_blocks_count := count bgdt.bg_free_blocks_count }) := by
    rw [List.modify_eq_set_getElem?, hg, hbgdt]
    rfl
  change ({ s1.volume with
    block_group_descriptors := s1.block_group_descriptors.set g bgdt'
    superblock := { s1.superblock with free_blocks := total s.superblock.free_blocks } } : Volume) = _
  rw [hs, hds, hsb, hmod]
  rfl

/-- A block that was free is taken. -/
structure Took (v : Volume) (c : UInt32) (v' : Volume) : Prop where
  taken : ∃ g i, g < v.geometry.groups.length ∧ i < 8 * v.geometry.bs ∧ v.clear g i = true ∧
    c.toNat = v.first_block g + i ∧ v.superblock.free_blocks ≠ 0 ∧ v' = v.took g i

/-- The bit that was found is set, and the counts go down. Bit `bit` of byte `byte_idx` is
bit `8 * byte_idx + bit` of the bitmap. -/
theorem volume_took {byte_idx bit : Nat} (hg : s.block_group_descriptors[g]? = some bgdt)
    (hbitmap : bitmap = slice s.volume.bytes (s.volume.geometry.bitmap_at g) s.bs)
    (hlen : byte_idx < s.bs) (hbit : bit < 8)
    (hs1 : s1.volume = s.volume.write (s.volume.geometry.bitmap_at g)
      (bitmap.set byte_idx (bitmap.getD byte_idx 0 ||| (1 <<< UInt8.ofNat bit)))) :
    ((s1.set_descriptor g { bgdt with
      bg_free_blocks_count := bgdt.bg_free_blocks_count - 1 }).set_free_blocks
        (s.superblock.free_blocks - 1)).volume = s.volume.took g (byte_idx * 8 + bit) := by
  have hdiv : (byte_idx * 8 + bit) / 8 = byte_idx := by omega
  have hmod : (byte_idx * 8 + bit) % 8 = bit := by omega
  have hbytes : s1.volume = s.volume.set_bytes
      (Bitmap.mark s.volume.bytes (s.volume.geometry.bitmap_at g) (byte_idx * 8 + bit)) := by
    rw [hs1, hbitmap, getD_slice _ _ hlen]
    unfold write set_bytes Bitmap.mark
    rw [Bitmap.splice_set _ _ _ hlen, hdiv, hmod]
  exact @volume_set_counts _ _ _ _ _ _ (· - 1) (· - 1) hbytes hg rfl

theorem ends_allocate_in (groups : List Nat) (s : Ext2FSInner) :
    Yields (allocate_in groups s) (fun c s' => Took s.volume c s'.volume) := by
  induction groups generalizing s with
  | nil => trivial
  | cons g groups ih =>
    unfold allocate_in
    rw [get_bind]
    cases hg : s.block_group_descriptors[g]? with
    | none => exact ih s
    | some bgdt =>
      dsimp only
      split
      · exact ih s
      obtain ⟨hlt, hat⟩ := bitmap_at_of_descriptor hg
      refine ends_then (s.ends_block_offset _) (fun _ _ _ => trivial) ?_
      rintro off s1 ⟨rfl, rfl⟩
      rw [hat]
      refine ends_then (s1.ends_read_at _ _) (fun _ _ _ => trivial) ?_
      rintro bitmap s2 ⟨hv2, hbitmap⟩
      cases hfind : find_clear bitmap with
      | none =>
        rw [← hv2]
        exact ih s2
      | some found =>
        obtain ⟨byte_idx, bit⟩ := found
        obtain ⟨hbyte, hbit, hclear⟩ := find_clear_some hfind
        have hlen : byte_idx < s1.bs := by simpa [hbitmap] using hbyte
        have hget : bitmap.getD byte_idx 0 =
            s1.volume.bytes (s1.volume.geometry.bitmap_at g + byte_idx) := by
          rw [hbitmap, getD_slice _ _ hlen]
        refine ends_then (s2.ends_write_at _ _) (fun _ _ _ => trivial) ?_
        intro _ s3 hv3
        split
        · trivial
        rename_i hfree
        rw [hv2] at hv3
        refine (ends_u32 _ _).mono ?_ (fun _ _ _ => trivial)
        rintro c s4 ⟨hc, rfl⟩
        refine ⟨g, byte_idx * 8 + bit, hlt, ?_, ?_, ?_, hfree,
          volume_took hg hbitmap hlen hbit hv3⟩
        · change byte_idx * 8 + bit < 8 * s1.bs
          omega
        · unfold clear Bitmap.clear
          rw [show (byte_idx * 8 + bit) / 8 = byte_idx by omega,
            show (byte_idx * 8 + bit) % 8 = bit by omega, ← hget]
          exact hclear
        · exact hc

/-- A block is given back. -/
structure Freed (v : Volume) (b : UInt32) (v' : Volume) : Prop where
  given : ∃ g i, g < v.geometry.groups.length ∧ i < 8 * v.geometry.bs ∧
    i < v.geometry.blocks_per_grp ∧ b.toNat = v.first_block g + i ∧
    (∀ bgdt, v.block_group_descriptors[g]? = some bgdt → bgdt.bg_free_blocks_count ≠ 0xFFFF) ∧
    v.superblock.free_blocks ≠ 0xFFFFFFFF ∧ v' = v.freed g i

theorem ends_free_block (s : Ext2FSInner) (b : UInt32) :
    Yields (free_block b s) (fun _ s' => Freed s.volume b s'.volume) := by
  unfold free_block
  rw [get_bind]
  split
  · trivial
  rename_i hlow
  obtain ⟨hfirst, hbpg⟩ := not_or.mp hlow
  have hpos : 0 < s.superblock.blocks_per_grp.toNat :=
    Nat.pos_of_ne_zero (fun h0 => hbpg (UInt32.toNat.inj h0))
  dsimp only
  generalize hrel : b.toNat - s.superblock.first_data_blk.toNat = rel
  have hb : b.toNat = s.superblock.first_data_blk.toNat + rel := by
    have : s.superblock.first_data_blk.toNat ≤ b.toNat := UInt32.not_lt.mp hfirst
    omega
  have hidx : rel % s.superblock.blocks_per_grp.toNat < s.superblock.blocks_per_grp.toNat :=
    Nat.mod_lt _ hpos
  have hdm : rel / s.superblock.blocks_per_grp.toNat * s.superblock.blocks_per_grp.toNat +
      rel % s.superblock.blocks_per_grp.toNat = rel := Nat.div_add_mod' _ _
  generalize rel / s.superblock.blocks_per_grp.toNat = g at hdm
  generalize rel % s.superblock.blocks_per_grp.toNat = i at hdm hidx
  cases hg : s.block_group_descriptors[g]? with
  | none => trivial
  | some bgdt =>
    obtain ⟨hlt, hat⟩ := bitmap_at_of_descriptor hg
    refine ends_then (s.ends_block_offset _) (fun _ _ _ => trivial) ?_
    rintro off s1 ⟨rfl, rfl⟩
    rw [hat]
    refine ends_then (s1.ends_read_at _ _) (fun _ _ _ => trivial) ?_
    rintro bitmap s2 ⟨hv2, hbitmap⟩
    split
    · trivial
    rename_i hlen
    have hlen : i / 8 < s1.bs := by simpa [hbitmap] using hlen
    have hget : bitmap.getD (i / 8) 0 =
        s1.volume.bytes (s1.volume.geometry.bitmap_at g + i / 8) := by
      rw [hbitmap, getD_slice _ _ hlen]
    refine ends_then (s2.ends_write_at _ _) (fun _ _ _ => trivial) ?_
    intro _ s3 hv3
    have hv3' : s3.volume = s1.volume.set_bytes
        (Bitmap.unmark s1.volume.bytes (s1.volume.geometry.bitmap_at g) i) := by
      rw [hv3, hv2, hget, hbitmap]
      unfold write set_bytes Bitmap.unmark
      rw [Bitmap.splice_set _ _ _ hlen]
    split
    · trivial
    rename_i hcount
    split
    · trivial
    rename_i hfree
    have hv4 := @volume_set_counts _ _ _ _ _ _ (· + 1) (· + 1) hv3' hg rfl
    refine ⟨g, i, hlt, ?_, hidx, ?_, ?_, hfree, hv4⟩
    · change i < 8 * s1.bs
      omega
    · change b.toNat = s1.superblock.first_data_blk.toNat + g * s1.superblock.blocks_per_grp.toNat + i
      omega
    · intro bgdt' h'
      have heq : bgdt = bgdt' := Option.some.inj (hg.symm.trans h')
      rw [← heq]
      exact hcount

end Ext2FSInner

/-! ## The accounts -/

namespace Volume

variable {v v' : Volume} {g i g' i' : Nat}

section

variable (hG : v.geometry.Layout) (hg : g < v.geometry.groups.length)
  (hg' : g' < v.geometry.groups.length) (hi : i < 8 * v.geometry.bs) (hi' : i' < 8 * v.geometry.bs)

include hG hg hg' hi

/-- A byte of one bitmap is in no other. -/
theorem bitmap_apart (hne : g' ≠ g) {k : Nat}
    (hk : v.geometry.InBlock (v.geometry.group g').block_bitmap.toNat k) :
    k ≠ v.geometry.bitmap_at g + i / 8 := by
  rintro rfl
  have h : v.geometry.InBlock (v.geometry.group g).block_bitmap.toNat
      (v.geometry.bitmap_at g + i / 8) := inBlock_offset (by omega)
  exact hG.bitmaps g' hg' g hg hne (UInt32.toNat.inj (inBlock_inj hk h))

include hi'

theorem bitmap_bytes_apart (hne : g' ≠ g) :
    v.geometry.bitmap_at g' + i' / 8 ≠ v.geometry.bitmap_at g + i / 8 :=
  bitmap_apart hG hg hg' hi hne (inBlock_offset (by omega))

theorem clear_took :
    (v.took g i).clear g' i' = true ↔ v.clear g' i' = true ∧ ¬ (g' = g ∧ i' = i) := by
  unfold clear
  rw [took_geometry, took_bytes]
  by_cases h : g' = g
  · subst h
    rw [Bitmap.clear_mark]
    simp
  · have hne := bitmap_bytes_apart hG hg hg' hi hi' h
    rw [Bitmap.clear_congr _ (Bitmap.mark_outside _ _ hne)]
    simp [h]

theorem clear_freed :
    (v.freed g i).clear g' i' = true ↔ v.clear g' i' = true ∨ (g' = g ∧ i' = i) := by
  unfold clear
  rw [freed_geometry, freed_bytes]
  by_cases h : g' = g
  · subst h
    rw [Bitmap.clear_unmark]
    simp
  · have hne := bitmap_bytes_apart hG hg hg' hi hi' h
    rw [Bitmap.clear_congr _ (Bitmap.unmark_outside _ _ hne)]
    simp [h]

end

/-- The free blocks of a group. -/
def free_bits (v : Volume) (g : Nat) : Finset Nat :=
  Bitmap.free v.bytes (v.geometry.bitmap_at g) (8 * v.geometry.bs)

theorem free_bits_congr (hgeo : v'.geometry = v.geometry)
    (h : ∀ k, v.geometry.InBlock (v.geometry.group g).block_bitmap.toNat k →
      v'.bytes k = v.bytes k) : v'.free_bits g = v.free_bits g := by
  unfold free_bits
  rw [hgeo]
  apply Bitmap.free_congr
  intro k hk1 hk2
  exact h k ⟨hk1, by unfold bitmap_at at hk2; omega⟩

/-- The bit of a block is set. -/
def Marked (v : Volume) (b : UInt32) : Prop :=
  ∃ g i, g < v.geometry.groups.length ∧ i < 8 * v.geometry.bs ∧ i < v.geometry.blocks_per_grp ∧
    b.toNat = v.first_block g + i ∧ v.clear g i = false

theorem first_block_congr (hgeo : v'.geometry = v.geometry) (g : Nat) :
    v'.first_block g = v.first_block g := by
  unfold first_block
  rw [hgeo]

/-- The bit of a block in a volume of the same geometry. -/
theorem bit_of_eq (hgeo : v'.geometry = v.geometry) {b : UInt32} {c : Bool}
    (hg : g < v.geometry.groups.length) (hi : i < 8 * v.geometry.bs)
    (hi' : i < v.geometry.blocks_per_grp) (hb : b.toNat = v.first_block g + i)
    (hc : v'.clear g i = c) :
    ∃ g i, g < v'.geometry.groups.length ∧ i < 8 * v'.geometry.bs ∧
      i < v'.geometry.blocks_per_grp ∧ b.toNat = v'.first_block g + i ∧ v'.clear g i = c := by
  rw [hgeo]
  refine ⟨g, i, hg, hi, hi', ?_, hc⟩
  rw [first_block_congr hgeo]
  exact hb

theorem bit_unique (hi : i < v.geometry.blocks_per_grp) (hi' : i' < v.geometry.blocks_per_grp)
    (h : v.first_block g + i = v.first_block g' + i') : g = g' ∧ i = i' := by
  unfold first_block at h
  have hg : g = g' := by
    by_contra hne
    have := records_apart hne v.geometry.blocks_per_grp
    omega
  subst hg
  exact ⟨rfl, by omega⟩

end Volume

/-- The accounts of a volume. `own` says which block each place holds, and `live`
which places count. -/
structure Booked {X : Type} (v : Volume) (live : X → Prop) (own : X → UInt32) : Prop where
  counts : ∀ g bgdt, v.block_group_descriptors[g]? = some bgdt →
    bgdt.bg_free_blocks_count.toNat = (v.free_bits g).card
  total : v.superblock.free_blocks.toNat =
    (v.block_group_descriptors.map (·.bg_free_blocks_count.toNat)).sum
  free : ∀ g < v.geometry.groups.length, ∀ i < 8 * v.geometry.bs, v.clear g i = true →
    i < v.geometry.blocks_per_grp ∧
      ∃ b : UInt32, b.toNat = v.first_block g + i ∧ v.geometry.DataBlock b
  used : ∀ P, live P → own P ≠ 0 → v.geometry.DataBlock (own P) ∧ v.Marked (own P)
  unique : ∀ P Q, live P → live Q → own P ≠ 0 → own P = own Q → P = Q

namespace Booked

variable {X : Type} {v v' : Volume} {live live' : X → Prop} {own own' : X → UInt32}
  {bgdt : BlockGroupDescriptorTable} {g : Nat} {x : UInt16}

theorem lt_of_descriptor (hg : v.block_group_descriptors[g]? = some bgdt) :
    g < v.geometry.groups.length := by
  change g < (v.block_group_descriptors.map (·.places)).length
  rw [List.length_map]
  exact (List.getElem?_eq_some_iff.mp hg).1

/-- The accounts depend on the bitmaps and the counts only. -/
theorem congr (h : Booked v live own) (hgeo : v'.geometry = v.geometry)
    (hds : v'.block_group_descriptors = v.block_group_descriptors)
    (hfree : v'.superblock.free_blocks = v.superblock.free_blocks)
    (hbytes : ∀ g < v.geometry.groups.length, ∀ k,
      v.geometry.InBlock (v.geometry.group g).block_bitmap.toNat k → v'.bytes k = v.bytes k) :
    Booked v' live own := by
  have hclear : ∀ g < v.geometry.groups.length, ∀ i < 8 * v.geometry.bs,
      v'.clear g i = v.clear g i := by
    intro g hg i hi
    unfold clear
    rw [hgeo]
    exact Bitmap.clear_congr _ (hbytes g hg _ (inBlock_offset (by omega)))
  refine ⟨?_, ?_, ?_, ?_, h.unique⟩
  · intro g bgdt hg
    rw [hds] at hg
    rw [free_bits_congr hgeo (hbytes g (lt_of_descriptor hg))]
    exact h.counts g bgdt hg
  · rw [hfree, hds]
    exact h.total
  · rw [hgeo]
    intro g hg i hi hc
    rw [hclear g hg i hi] at hc
    rw [first_block_congr hgeo]
    exact h.free g hg i hi hc
  · intro P hP hne
    rw [hgeo]
    obtain ⟨hdata, g, i, hg, hi, hi', hb, hc⟩ := h.used P hP hne
    refine ⟨hdata, bit_of_eq hgeo hg hi hi' hb ?_⟩
    rw [hclear g hg i hi]
    exact hc

theorem sum_modify {α : Type} (F : α → Nat) (f : α → α) {l : List α} {d : α} (hg : l[g]? = some d) :
    ((l.modify g f).map F).sum + F d = (l.map F).sum + F (f d) := by
  have hsum := ((l.getD_set_perm_cons g (f d)).map F).sum_eq
  rw [hg, Option.getD_some, List.map_cons, List.map_cons, List.sum_cons, List.sum_cons] at hsum
  rw [List.modify_eq_set_getElem?, hg]
  change ((l.set g (f d)).map F).sum + F d = _
  omega

theorem toNat_sub_one16 (h : x.toNat ≠ 0) : (x - 1).toNat + 1 = x.toNat := by
  rw [UInt16.toNat_sub_of_le x 1 (by change 1 ≤ x.toNat; omega)]
  change x.toNat - 1 + 1 = x.toNat
  omega

theorem toNat_sub_one32 {x : UInt32} (h : x.toNat ≠ 0) : (x - 1).toNat + 1 = x.toNat := by
  rw [UInt32.toNat_sub_of_le x 1 (by change 1 ≤ x.toNat; omega)]
  change x.toNat - 1 + 1 = x.toNat
  omega

theorem toNat_add_one16 (h : x ≠ 0xFFFF) : (x + 1).toNat = x.toNat + 1 := by
  have hne : x.toNat ≠ 65535 := fun h' => h (UInt16.toNat.inj h')
  have hlt := x.toNat_lt
  change (x.toNat + 1) % 65536 = _
  omega

theorem toNat_add_one32 {x : UInt32} (h : x ≠ 0xFFFFFFFF) : (x + 1).toNat = x.toNat + 1 := by
  have hne : x.toNat ≠ 4294967295 := fun h' => h (UInt32.toNat.inj h')
  have hlt := x.toNat_lt
  change (x.toNat + 1) % 4294967296 = _
  omega

variable {bytes : Nat → UInt8} {c : UInt32}

theorem descriptor_of_lt (hg : g < v.geometry.groups.length) :
    ∃ bgdt, v.block_group_descriptors[g]? = some bgdt := by
  change g < (v.block_group_descriptors.map (·.places)).length at hg
  rw [List.length_map] at hg
  exact ⟨_, List.getElem?_eq_getElem hg⟩

section

variable (h : Booked v live own)

include h

/-- The counts follow when one bit of group `g` changes. -/
theorem recount (hG : v.geometry.Layout) {count : UInt16 → UInt16}
    {total : UInt32 → UInt32} {i : Nat} (hg : v.block_group_descriptors[g]? = some bgdt)
    (hi : i < 8 * v.geometry.bs)
    (hbytes : ∀ k, k ≠ v.geometry.bitmap_at g + i / 8 → bytes k = v.bytes k)
    (hcount : (count bgdt.bg_free_blocks_count).toNat =
      (((v.set_bytes bytes).with_counts g count total).free_bits g).card) :
    ∀ g' bgdt', ((v.set_bytes bytes).with_counts g count total).block_group_descriptors[g']? =
      some bgdt' → bgdt'.bg_free_blocks_count.toNat =
        (((v.set_bytes bytes).with_counts g count total).free_bits g').card := by
  intro g' bgdt' hg'
  change (v.block_group_descriptors.modify g _)[g']? = _ at hg'
  rw [List.getElem?_modify] at hg'
  by_cases heq : g = g'
  · subst heq
    rw [hg] at hg'
    simp only [Option.map_eq_map, Option.map_some, if_true, Option.some.injEq] at hg'
    rw [← hg', hcount]
  · simp only [heq, if_false, Option.map_eq_map, Option.map_id'] at hg'
    have hbits : ((v.set_bytes bytes).with_counts g count total).free_bits g' =
        (v.set_bytes bytes).free_bits g' :=
      free_bits_congr (with_counts_geometry _ _ _ _) (fun _ _ => rfl)
    rw [hbits, h.counts g' bgdt' hg']
    refine congrArg Finset.card (free_bits_congr (by rfl) (fun k hk => hbytes k ?_)).symm
    exact bitmap_apart hG (lt_of_descriptor hg) (lt_of_descriptor hg') hi (Ne.symm heq) hk

/-- A free block is taken: the accounts stay right, and no place holds it. -/
theorem took (hG : v.geometry.Layout) (ht : Took v c v') :
    Booked v' live own ∧ v.geometry.DataBlock c ∧ v'.Marked c ∧ (∀ P, live P → own P ≠ c) ∧
      v'.geometry = v.geometry := by
  obtain ⟨g, i, hg, hi, hclear, hc, hfree, rfl⟩ := ht
  obtain ⟨bgdt, hbgdt⟩ := descriptor_of_lt hg
  obtain ⟨hbpg, b, hb, hdata⟩ := h.free g hg i hi hclear
  have hcb : c = b := UInt32.toNat.inj (hc.trans hb.symm)
  subst hcb
  have hgeo := took_geometry v g i
  have hcount := h.counts g bgdt hbgdt
  have hmark : ((v.took g i).free_bits g).card + 1 = (v.free_bits g).card := by
    unfold free_bits
    rw [took_geometry]
    exact Bitmap.card_free_mark _ _ hi hclear
  have hsub := toNat_sub_one16 (x := bgdt.bg_free_blocks_count) (by omega)
  refine ⟨⟨?_, ?_, ?_, ?_, h.unique⟩, hdata, ?_, ?_, took_geometry v g i⟩
  · refine h.recount hG hbgdt hi (fun k hk => Bitmap.mark_outside _ _ hk) ?_
    change _ = ((v.took g i).free_bits g).card
    omega
  · have hsum : ((v.took g i).block_group_descriptors.map (·.bg_free_blocks_count.toNat)).sum +
        bgdt.bg_free_blocks_count.toNat =
          (v.block_group_descriptors.map (·.bg_free_blocks_count.toNat)).sum +
            (bgdt.bg_free_blocks_count - 1).toNat := sum_modify _ _ hbgdt
    have htot := toNat_sub_one32 (x := v.superblock.free_blocks)
      (fun h0 => hfree (UInt32.toNat.inj h0))
    have htotal := h.total
    have hsb : (v.took g i).superblock.free_blocks = v.superblock.free_blocks - 1 := rfl
    rw [hsb]
    omega
  · intro g' hg' i' hi' hc'
    rw [hgeo] at hg' hi' ⊢
    exact h.free g' hg' i' hi' ((clear_took hG hg hg' hi hi').mp hc').1
  · intro P hP hne
    rw [hgeo]
    obtain ⟨hdataP, g', i', hg', hi', hbpg', hb', hset⟩ := h.used P hP hne
    refine ⟨hdataP, bit_of_eq hgeo hg' hi' hbpg' hb' ?_⟩
    rw [Bool.eq_false_iff]
    intro hc'
    rw [((clear_took hG hg hg' hi hi').mp hc').1] at hset
    cases hset
  · refine bit_of_eq hgeo hg hi hbpg hc ?_
    rw [Bool.eq_false_iff]
    intro hc'
    exact ((clear_took hG hg hg hi hi).mp hc').2 ⟨rfl, rfl⟩
  · -- a block that a place holds has its bit set
    intro P hP hPc
    obtain ⟨_, g', i', hg', hi', hbpg', hb', hset⟩ := h.used P hP (by rw [hPc]; exact hdata.1)
    rw [hPc, hc] at hb'
    obtain ⟨rfl, rfl⟩ := bit_unique hbpg hbpg' hb'
    rw [hclear] at hset
    cases hset

/-- The block of a place is given back: the place no longer counts. -/
theorem freed (hG : v.geometry.Layout) {P0 : X} (hlive : live P0)
    (hne0 : own P0 ≠ 0) (hf : Freed v (own P0) v') :
    Booked v' (fun P => live P ∧ P ≠ P0) own ∧ v'.geometry = v.geometry := by
  obtain ⟨g, i, hg, hi, hbpg, hb, hroom, hroom32, rfl⟩ := hf
  obtain ⟨bgdt, hbgdt⟩ := descriptor_of_lt hg
  -- the bit was set before
  obtain ⟨hdata, g1, i1, hg1, hi1, hbpg1, hb1, hset⟩ := h.used P0 hlive hne0
  obtain ⟨rfl, rfl⟩ := bit_unique hbpg hbpg1 (hb.symm.trans hb1)
  have hgeo := freed_geometry v g i
  have hcount := h.counts g bgdt hbgdt
  have hadd := toNat_add_one16 (hroom bgdt hbgdt)
  have hunmark : ((v.freed g i).free_bits g).card = (v.free_bits g).card + 1 := by
    unfold free_bits
    rw [freed_geometry]
    exact Bitmap.card_free_unmark _ _ hi hset
  refine ⟨⟨?_, ?_, ?_, ?_, ?_⟩, freed_geometry v g i⟩
  · refine h.recount hG hbgdt hi (fun k hk => Bitmap.unmark_outside _ _ hk) ?_
    change _ = ((v.freed g i).free_bits g).card
    omega
  · have hsum : ((v.freed g i).block_group_descriptors.map (·.bg_free_blocks_count.toNat)).sum +
        bgdt.bg_free_blocks_count.toNat =
          (v.block_group_descriptors.map (·.bg_free_blocks_count.toNat)).sum +
            (bgdt.bg_free_blocks_count + 1).toNat := sum_modify _ _ hbgdt
    have htot := toNat_add_one32 hroom32
    have htotal := h.total
    have hsb : (v.freed g i).superblock.free_blocks = v.superblock.free_blocks + 1 := rfl
    rw [hsb]
    omega
  · intro g' hg' i' hi' hc'
    rw [hgeo] at hg' hi' ⊢
    rcases (clear_freed hG hg hg' hi hi').mp hc' with hc' | ⟨rfl, rfl⟩
    · exact h.free g' hg' i' hi' hc'
    · exact ⟨hbpg, own P0, hb, hdata⟩
  · intro P hP hne
    rw [hgeo]
    obtain ⟨hdataP, g', i', hg', hi', hbpg', hb', hset'⟩ := h.used P hP.1 hne
    refine ⟨hdataP, bit_of_eq hgeo hg' hi' hbpg' hb' ?_⟩
    rw [Bool.eq_false_iff]
    intro hc'
    rcases (clear_freed hG hg hg' hi hi').mp hc' with hc' | ⟨rfl, rfl⟩
    · rw [hc'] at hset'
      cases hset'
    · -- that would be the block of `P0`
      have heq : own P = own P0 := UInt32.toNat.inj (hb'.trans hb.symm)
      exact hP.2 (h.unique P P0 hP.1 hlive hne heq)
  · intro P Q hP hQ
    exact h.unique P Q hP.1 hQ.1

/-- Fewer places count, and those that do hold what they held. -/
theorem mono
    (hown : ∀ P, live' P → own' P ≠ 0 → live P ∧ own' P = own P) : Booked v live' own' := by
  refine ⟨h.counts, h.total, h.free, ?_, ?_⟩
  · intro P hP hne
    obtain ⟨hl, heq⟩ := hown P hP hne
    rw [heq] at hne ⊢
    exact h.used P hl hne
  · intro P Q hP hQ hne heq
    obtain ⟨hl, hP'⟩ := hown P hP hne
    obtain ⟨hl', hQ'⟩ := hown Q hQ (heq ▸ hne)
    exact h.unique P Q hl hl' (hP' ▸ hne) (hP'.symm.trans (heq.trans hQ'))

/-- A block that no place holds is put somewhere. -/
theorem put [DecidableEq X] {P0 : X}
    (hdata : v.geometry.DataBlock c) (hmarked : v.Marked c) (hfresh : ∀ P, live P → own P ≠ c)
    (hown : ∀ P, own' P = if P = P0 then c else own P) : Booked v live own' := by
  refine ⟨h.counts, h.total, h.free, ?_, ?_⟩
  · intro P hP hne
    rw [hown] at hne ⊢
    by_cases hP0 : P = P0
    · rw [if_pos hP0]
      exact ⟨hdata, hmarked⟩
    · rw [if_neg hP0] at hne ⊢
      exact h.used P hP hne
  intro P Q hP hQ hne heq
  rw [hown] at hne heq
  rw [hown] at heq
  by_cases hP0 : P = P0
  · by_cases hQ0 : Q = P0
    · rw [hP0, hQ0]
    · rw [if_pos hP0, if_neg hQ0] at heq
      exact absurd heq.symm (hfresh Q hQ)
  · rw [if_neg hP0] at hne heq
    by_cases hQ0 : Q = P0
    · rw [if_pos hQ0] at heq
      exact absurd heq (hfresh P hP)
    · rw [if_neg hQ0] at heq
      exact h.unique P Q hP hQ hne heq

end

end Booked

end zenos_kernel.disk.fs.ext2
