-- What `write` leaves in a file. The bytes of the buffer stand where they were
-- written, other bytes of blocks that were there before stay, and no block of
-- another inode changes.
import Zenos.Ext2.DataBlocks

namespace zenos_kernel.disk.fs.ext2

open Bytes Outcome PointerTree

namespace ExtFileInodeOps

variable {I : Finset UInt32} {f f' f'' : ExtFileInodeOps} {b : UInt32} {p k off : Nat}

/-- Byte `p` of the file. A missing block counts as zeros. -/
def byte (f : ExtFileInodeOps) (I : Finset UInt32) (p : Nat) : UInt8 :=
  if f.block I (p / f.bs) = 0 then 0
  else f.volume.bytes (f.volume.geometry.at_ (f.block I (p / f.bs)).toNat + p % f.bs)

/-- The place stands on the way to a data block that holds one of the bytes. -/
def Reached (f : ExtFileInodeOps) (offset len : Nat) (P : Place Tree) : Prop :=
  ∃ p, offset ≤ p ∧ p < offset + len ∧ OnWay P (f.place (p / f.bs))

/-- A handle of the same file. The inodes of the other files are on the disk as before. -/
structure SameOthers (f f' : ExtFileInodeOps) : Prop extends Alike f.volume f'.volume where
  inode_num : f'.inode_num = f.inode_num
  inodes : ∀ m, f.volume.geometry.HasInode m → m ≠ f.inode_num →
    slice f'.volume.bytes (f.volume.geometry.inode_at m) 128 =
      slice f.volume.bytes (f.volume.geometry.inode_at m) 128

theorem SameOthers.trans (h : SameOthers f f') (h' : SameOthers f' f'') : SameOthers f f'' := by
  refine ⟨h.toAlike.trans h'.toAlike, h'.inode_num.trans h.inode_num, ?_⟩
  intro m hm hne
  have hinode := h'.inodes m (by rw [h.geometry]; exact hm) (by rw [h.inode_num]; exact hne)
  rw [h.geometry] at hinode
  rw [hinode, h.inodes m hm hne]

theorem sameOthers_of_table (h : Alike f.volume f'.volume) (hnum : f'.inode_num = f.inode_num)
    (hG : f.volume.geometry.Layout) (htable : ∀ g < f.volume.geometry.groups.length, ∀ i,
      f.volume.geometry.TableByte g i → f'.volume.bytes i = f.volume.bytes i) : SameOthers f f' := by
  refine ⟨h, hnum, fun m hm _ => slice_congr ?_⟩
  intro i h1 h2
  exact htable _ hm.2 i (hG.tableByte_of_inode h1 h2)

/-- `buf` was written to the file at `offset`. -/
structure Wrote (I : Finset UInt32) (f f' : ExtFileInodeOps) (offset : Nat) (buf : List UInt8) :
    Prop extends SameOthers f f' where
  good : Good I f'
  keep : ∀ P, f.own I P ≠ 0 → f'.own I P = f.own I P
  fill : ∀ P, f.own I P = 0 → (f'.own I P ≠ 0 ↔ f.Reached offset buf.length P)
  others : ∀ P, f.own I P ≠ 0 → P.tree.1 ≠ f.inode_num →
    ∀ i, f.volume.geometry.InBlock (f.own I P).toNat i → f'.volume.bytes i = f.volume.bytes i
  inside : ∀ q < buf.length, f'.byte I (offset + q) = buf.getD q 0
  outside : ∀ p, ¬ (offset ≤ p ∧ p < offset + buf.length) → f.block I (p / f.bs) ≠ 0 →
    f'.byte I p = f.byte I p
  short : ∀ p, offset ≤ p → p < offset + buf.length → p / f.bs < f.max_blocks

theorem bs_of_geometry (h : f'.volume.geometry = f.volume.geometry) : f'.bs = f.bs :=
  congrArg Geometry.bs h

theorem place_of_geometry (h : f'.volume.geometry = f.volume.geometry)
    (hn : f'.inode_num = f.inode_num) (k : Nat) : f'.place k = f.place k := by
  unfold place
  rw [h, hn]

namespace Wrote

variable {offset : Nat} {buf buf' : List UInt8}

theorem nil (hf : Good I f) (offset : Nat) : Wrote I f f offset [] := by
  refine ⟨⟨⟨rfl, rfl, rfl⟩, rfl, fun _ _ _ => rfl⟩, hf, fun _ _ => rfl, ?_,
    fun _ _ _ _ _ => rfl, ?_, fun _ _ _ => rfl, ?_⟩
  · intro P hP
    refine iff_of_false (fun h => h hP) ?_
    rintro ⟨p, h1, h2, _⟩
    rw [List.length_nil] at h2
    omega
  · intro q hq
    simp at hq
  · intro p h1 h2
    rw [List.length_nil] at h2
    omega

variable (h : Wrote I f f' offset buf)

include h

theorem bs_eq : f'.bs = f.bs := bs_of_geometry h.geometry

theorem place_eq (k : Nat) : f'.place k = f.place k :=
  place_of_geometry h.geometry h.inode_num k

theorem max_blocks_eq : f'.max_blocks = f.max_blocks := by
  unfold max_blocks
  rw [h.geometry]

theorem reached_eq (start len : Nat) : f'.Reached start len = f.Reached start len := by
  unfold Reached
  simp only [h.bs_eq, h.place_eq]

/-- The blocks that were written to are there. -/
theorem present (hp : offset ≤ p ∧ p < offset + buf.length) : f'.block I (p / f.bs) ≠ 0 := by
  unfold block
  rw [h.place_eq]
  by_cases h0 : f.own I (f.place (p / f.bs)) = 0
  · exact (h.fill _ h0).mpr ⟨p, hp.1, hp.2, rfl, List.prefix_rfl⟩
  · rw [h.keep _ h0]
    exact h0

theorem block_eq (hk : f.block I k ≠ 0) : f'.block I k = f.block I k := by
  unfold block
  rw [h.place_eq]
  exact h.keep _ hk

theorem append (h' : Wrote I f' f'' (offset + buf.length) buf') :
    Wrote I f f'' offset (buf ++ buf') := by
  refine ⟨h.toSameOthers.trans h'.toSameOthers, h'.good, ?_, ?_, ?_, ?_, ?_, ?_⟩
  · intro P hP
    have h1 := h.keep P hP
    rw [h'.keep P (by rw [h1]; exact hP), h1]
  · intro P hP
    have hsplit : f.Reached offset (buf ++ buf').length P ↔
        f.Reached offset buf.length P ∨ f.Reached (offset + buf.length) buf'.length P := by
      rw [List.length_append]
      constructor
      · rintro ⟨p, h1, h2, hway⟩
        by_cases hp : p < offset + buf.length
        · exact Or.inl ⟨p, h1, hp, hway⟩
        · exact Or.inr ⟨p, by omega, by omega, hway⟩
      · rintro (⟨p, h1, h2, hway⟩ | ⟨p, h1, h2, hway⟩)
        · exact ⟨p, h1, by omega, hway⟩
        · exact ⟨p, by omega, by omega, hway⟩
    have hfill := h.fill P hP
    rw [hsplit]
    by_cases h1 : f'.own I P = 0
    · have hnot : ¬ f.Reached offset buf.length P := fun hr => hfill.mpr hr h1
      rw [h'.fill P h1, h.reached_eq]
      simp [hnot]
    · rw [h'.keep P h1]
      simp [h1, hfill.mp h1]
  · intro P hP hn i hi
    have h1 := h.keep P hP
    rw [← h.others P hP hn i hi]
    refine h'.others P (by rw [h1]; exact hP) (by rw [h.inode_num]; exact hn) i ?_
    rw [h.geometry, h1]
    exact hi
  · intro q hq
    rw [List.length_append] at hq
    rw [List.getD_eq_getElem?_getD]
    by_cases hq1 : q < buf.length
    · rw [List.getElem?_append_left hq1, ← List.getD_eq_getElem?_getD, ← h.inside q hq1]
      apply h'.outside
      · omega
      · rw [h.bs_eq]
        exact h.present ⟨by omega, by omega⟩
    · have hin := h'.inside (q - buf.length) (by omega)
      rw [show offset + buf.length + (q - buf.length) = offset + q by omega] at hin
      rw [List.getElem?_append_right (by omega), ← List.getD_eq_getElem?_getD, hin]
  · intro p hp hk
    rw [List.length_append] at hp
    rw [← h.outside p (by omega) hk]
    refine h'.outside p (by omega) ?_
    rw [h.bs_eq, h.block_eq hk]
    exact hk
  · intro p h1 h2
    rw [List.length_append] at h2
    by_cases hp : p < offset + buf.length
    · exact h.short p h1 hp
    · have hshort := h'.short p (by omega) (by omega)
      rwa [h.bs_eq, h.max_blocks_eq] at hshort

end Wrote

/-! ## One block -/

theorem byte_of_block (hb : f.block I (p / f.bs) = b) (hne : b ≠ 0) :
    f.byte I p = f.volume.bytes (f.volume.geometry.at_ b.toNat + p % f.bs) := by
  unfold byte
  rw [hb, if_neg hne]

theorem wrote_block {f1 f2 : ExtFileInodeOps} {data : List UInt8}
    (hg : Grew I f f1 (OnWay · (f.place k))) (hk : k < f.max_blocks)
    (hoff : off + data.length ≤ f.bs) (hdata : 0 < data.length) (hs : SameHandle f1 f2)
    (hv : f2.volume = f1.volume.write
      (f1.volume.geometry.at_ (f1.own I (f.place k)).toNat + off) data) :
    Wrote I f f2 (k * f.bs + off) data := by
  generalize hb : f1.own I (f.place k) = b at hv
  have hne : b ≠ 0 := hb ▸ hg.filled ⟨rfl, List.prefix_rfl⟩
  have hgood := hg.good
  have hbs1 : f1.volume.geometry.bs = f.bs := bs_of_geometry hg.geometry
  have hblock : f1.volume.geometry.DataBlock b := hb ▸ hgood.data (by rw [hb]; exact hne)
  have hlen : off + data.length ≤ f1.volume.geometry.bs := by omega
  have hkept : Volume.Kept f1.volume f2.volume (· = b) := by
    rw [hv]
    exact Volume.kept_write_inside hblock hlen
  -- the block is stored at the place of data block `k` only
  have honly : ∀ P, f1.own I P = b → P = f.place k := by
    intro P hP
    exact hgood.booked.unique P _ trivial trivial (by rw [hP]; exact hne) (hP.trans hb.symm)
  have hown : f2.own I = f1.own I := by
    refine own_of_kept hgood hkept hs ?_
    intro P hP _ hPb
    rw [honly P hPb, place, data_place_leaf] at hP
    omega
  have hgeo : f2.volume.geometry = f.volume.geometry := hkept.geometry.trans hg.geometry
  have hnum : f2.inode_num = f.inode_num := hs.inode_num.trans hg.inode_num
  have hbs : f2.bs = f.bs := bs_of_geometry hgeo
  have hbspos : 0 < f.bs := by omega
  have hplace : ∀ j, f2.place j = f.place j := place_of_geometry hgeo hnum
  have hpos : ∀ p, k * f.bs + off ≤ p → p < k * f.bs + off + data.length → p / f.bs = k := by
    intro p h1 h2
    rw [Nat.div_eq_iff hbspos]
    constructor
    · omega
    · omega
  -- bytes that were in the file and are not written
  have hbytes : ∀ P, f.own I P ≠ 0 → (P.tree.1 = f.inode_num → P.path.length = P.tree.depth) →
      f.own I P ≠ b → ∀ i, f.volume.geometry.InBlock (f.own I P).toNat i →
      f2.volume.bytes i = f.volume.bytes i := by
    intro P hP hleaf hPb i hi
    rw [← hg.content P hP hleaf i hi]
    refine hkept.data (f.own I P) ?_ hPb i (by rw [hg.geometry]; exact hi)
    have hkeep := hg.keep P hP
    rw [← hkeep]
    exact hgood.data (by rw [hkeep]; exact hP)
  have hothers := sameOthers_of_table hg.toAlike hg.inode_num (hg.geometry ▸ hgood.layout) hg.table
  have hothers2 := sameOthers_of_table hkept.toAlike hs.inode_num hgood.layout hkept.table
  refine ⟨hothers.trans hothers2, hgood.of_booked hkept.geometry hs.inode_num ?_, ?_, ?_, ?_, ?_, ?_,
    ?_⟩
  · rw [hown, hv]
    exact Volume.booked_write_inside hblock hlen hgood.booked
  · intro P hP
    rw [hown]
    exact hg.keep P hP
  · intro P hP
    rw [hown, hg.fill P hP]
    constructor
    · intro hway
      exact ⟨k * f.bs + off, Nat.le_refl _, by omega, by rw [hpos _ (by omega) (by omega)]; exact hway⟩
    · rintro ⟨p, h1, h2, hway⟩
      rw [hpos p h1 h2] at hway
      exact hway
  · intro P hP hn i hi
    refine hbytes P hP (fun h => absurd h hn) ?_ i hi
    intro hPb
    rw [← hg.keep P hP] at hPb
    rw [honly P hPb, place, data_place_inode] at hn
    exact hn rfl
  · intro q hq
    have hb2 : f2.block I ((k * f.bs + off + q) / f2.bs) = b := by
      unfold block
      rw [hown, hplace, hbs, hpos _ (by omega) (by omega), hb]
    rw [byte_of_block hb2 hne, hbs, Nat.add_assoc, Nat.mul_add_mod_of_lt (by omega), hv,
      ← Nat.add_assoc]
    exact splice_at _ _ hq
  · intro p hp hpk
    have ho : f.volume.geometry.InBlock (f.block I (p / f.bs)).toNat
        (f.volume.geometry.at_ (f.block I (p / f.bs)).toNat + p % f.bs) :=
      Geometry.inBlock_offset (Nat.mod_lt p hbspos)
    have hj : f2.block I (p / f2.bs) = f.block I (p / f.bs) := by
      unfold block at hpk ⊢
      rw [hown, hplace, hbs, hg.keep _ hpk]
    rw [byte_of_block hj hpk, byte_of_block rfl hpk, hgeo, hbs]
    by_cases hjk : p / f.bs = k
    · -- the same block, outside of the data
      have hbj : f.block I (p / f.bs) = b := by
        unfold block at hpk ⊢
        rw [← hg.keep _ hpk, hjk, hb]
      rw [← hg.content _ hpk (fun _ => data_place_leaf _ _ _) _ ho, hv, hbj, hg.geometry]
      have hp' := Nat.div_add_mod' p f.bs
      rw [hjk] at hp'
      exact splice_outside _ (by omega)
    · refine hbytes _ hpk (fun _ => data_place_leaf _ _ _) ?_ _ ho
      intro hjb
      rw [← hg.keep _ hpk] at hjb
      exact hjk (data_place_inj (honly _ hjb))
  · intro p h1 h2
    rw [hpos p h1 h2]
    exact hk

/-! ## The loop -/

/-- The block that is changed: with the data in it, it is written back as before but for
the data. -/
theorem ends_block_to_change (s : Ext2FSInner) (b : UInt32) {left n : Nat} (hoff : off < s.bs)
    (hn : n = min (s.bs - off) left) :
    Yields (block_to_change b off left s)
      (fun buf s' => s'.volume = s.volume ∧ ∀ data : List UInt8, data.length = n →
        s.volume.write (s.volume.geometry.at_ b.toNat) (overwrite buf off data) =
          s.volume.write (s.volume.geometry.at_ b.toNat + off) data) := by
  have hbs : s.volume.geometry.bs = s.bs := rfl
  unfold block_to_change
  rw [get_bind]
  split
  · refine (s.ends_read_block b).mono ?_ (fun _ _ _ => trivial)
    rintro buf s' ⟨hv, rfl⟩
    refine ⟨hv, ?_⟩
    intro data hdata
    unfold Volume.write
    congr 1
    exact splice_overwrite _ _ (by omega)
  · -- all of the block is replaced
    refine ⟨rfl, ?_⟩
    intro data hdata
    have hzero : off = 0 := by omega
    have hlen : data.length = s.bs := by omega
    subst hzero
    unfold overwrite
    rw [List.take_zero, List.nil_append, Nat.zero_add, Nat.add_zero, hlen,
      List.drop_of_length_le (by rw [List.length_replicate]), List.append_nil]

/-- One turn of the loop, from what its three calls do. -/
theorem wrote_turn {f1 f2 f3 : ExtFileInodeOps} {block_buf : List UInt8}
    {offset n : Nat} {buf : List UInt8} (hf : Good I f) (hne : buf ≠ [])
    (hn : n = min (f.bs - offset % f.bs) buf.length)
    (h1 : (Grew I f f1 (OnWay · (f.place (offset / f.bs))) ∧
      b = f1.own I (f.place (offset / f.bs)) ∧ b ≠ 0) ∧ offset / f.bs < f.max_blocks)
    (h2 : (f2.inner.volume = f1.inner.volume ∧ ∀ data : List UInt8, data.length = n →
      f1.inner.volume.write (f1.inner.volume.geometry.at_ b.toNat)
          (overwrite block_buf (offset % f.bs) data) =
        f1.inner.volume.write (f1.inner.volume.geometry.at_ b.toNat + offset % f.bs) data) ∧
      f2.ext2inode = f1.ext2inode ∧ f2.inode_num = f1.inode_num)
    (h3 : f3.inner.volume = f2.inner.volume.write (f2.inner.volume.geometry.at_ b.toNat)
        (overwrite block_buf (offset % f.bs) (buf.take n)) ∧
      f3.ext2inode = f2.ext2inode ∧ f3.inode_num = f2.inode_num) :
    Wrote I f f3 offset (buf.take n) ∧ f3.ext2inode.i_size = f.ext2inode.i_size := by
  obtain ⟨⟨hg, rfl, -⟩, hk⟩ := h1
  obtain ⟨⟨hv2, hover⟩, hino2, hnum2⟩ := h2
  obtain ⟨hv3, hino3, hnum3⟩ := h3
  have hpos : 0 < buf.length := List.length_pos_iff.mpr hne
  have hmod := Nat.mod_lt offset hf.layout.bs_pos
  change offset % f.bs < f.bs at hmod
  have htake : (buf.take n).length = n := by
    rw [List.length_take]
    omega
  have hs : SameHandle f1 f3 := SameHandle.of_eq (hino3.trans hino2) (hnum3.trans hnum2)
  have hv : f3.volume = f1.volume.write
      (f1.volume.geometry.at_ (f1.own I (f.place (offset / f.bs))).toNat + offset % f.bs)
      (buf.take n) := by
    rw [hv2, hover _ htake] at hv3
    exact hv3
  have hwrote := wrote_block hg hk (by omega) (by omega) hs hv
  rw [Nat.div_add_mod'] at hwrote
  exact ⟨hwrote, hs.i_size.trans hg.size⟩

theorem ends_write_loop (hf : Good I f) {fuel offset : Nat} {buf : List UInt8}
    (hfuel : buf.length ≤ fuel) :
    Yields (write_loop fuel offset buf f)
      (fun _ f' => Wrote I f f' offset buf ∧ f'.ext2inode.i_size = f.ext2inode.i_size) := by
  induction fuel generalizing f offset buf with
  | zero =>
    have hnil : buf = [] := List.eq_nil_of_length_eq_zero (by omega)
    subst hnil
    exact ends_pure ⟨Wrote.nil hf offset, rfl⟩
  | succ fuel ih =>
    unfold write_loop
    split
    · rename_i hnil
      subst hnil
      exact ends_pure ⟨Wrote.nil hf offset, rfl⟩
    rename_i hne
    have hmod : offset % f.bs < f.bs := Nat.mod_lt offset hf.layout.bs_pos
    rw [get_bind]
    refine ends_bind (ends_get_or_alloc_block hf (offset / f.bs)) ?_
    intro b f1 h1
    have hbs1 : f1.inner.bs = f.bs := bs_of_geometry h1.1.1.geometry
    obtain ⟨n, hn⟩ : ∃ n, n = min (f.bs - offset % f.bs) buf.length := ⟨_, rfl⟩
    refine ends_bind (ends_locked (ends_block_to_change (n := n) f1.inner _
      (by rw [hbs1]; exact hmod) (by rw [hbs1]; exact hn))).forget ?_
    intro block_buf f2 h2
    rw [← hn]
    refine ends_bind (ends_locked (f2.inner.ends_write_block _ _)).forget ?_
    intro _ f3 h3
    obtain ⟨hfirst, hsize3⟩ := wrote_turn hf hne hn h1 h2 h3
    refine (ih hfirst.good (by rw [List.length_drop]; omega)).mono_ok ?_
    rintro _ f4 ⟨hrest, hsize⟩
    have htake : (buf.take n).length = n := by
      rw [List.length_take]
      omega
    have hall := hfirst.append (by rw [htake]; exact hrest)
    rw [List.take_append_drop] at hall
    exact ⟨hall, hsize.trans hsize3⟩

end ExtFileInodeOps

end zenos_kernel.disk.fs.ext2
