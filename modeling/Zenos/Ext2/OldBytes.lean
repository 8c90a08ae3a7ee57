-- What a file shows where nothing was written. A new block keeps the bytes that it had
-- on the disk, and so does the end of a block that was cut; a file that grows over one
-- of them shows these bytes.
import Zenos.Ext2.Truncating

namespace zenos_kernel.disk.fs.ext2

open Bytes Outcome PointerTree

namespace ExtFileInodeOps

variable {I : Finset UInt32} {f f' f0 : ExtFileInodeOps} {C : Set Nat} {size offset : Nat}
  {buf : List UInt8}

/-- In the first `size` bytes no pointer block is missing, and a position outside of `C`
holds 0. -/
structure Quiet (I : Finset UInt32) (f : ExtFileInodeOps) (C : Set Nat) (size : Nat) : Prop where
  mapped : Mapped I f (f.count size)
  zeros : ∀ p < size, p ∉ C → f.byte I p = 0

theorem count_mono (f : ExtFileInodeOps) {n m : Nat} (h : n ≤ m) : f.count n ≤ f.count m :=
  Nat.div_le_div_right (by omega)

theorem quiet_zero (hf : Good I f) (C : Set Nat) : Quiet I f C 0 := by
  have hnone : ∀ k, ¬ k < f.count 0 := by
    intro k hk
    exact Nat.not_lt_zero _ ((lt_count_iff hf).mp hk)
  refine ⟨⟨?_, fun k hk => absurd hk (hnone k)⟩, fun p hp => absurd hp (Nat.not_lt_zero p)⟩
  exact Nat.le_of_not_lt (fun h => hnone _ h)

/-- A read of a quiet file is as long as it can be. -/
theorem Quiet.ends_read (h : Quiet I f C f.ext2inode.i_size.toNat) (hf : Good I f)
    (offset len : Nat) :
    Ends (read offset len f) (fun bytes _ =>
      bytes.length = min len (f.ext2inode.i_size.toNat - offset) ∧
      ∀ q < bytes.length, offset + q ∉ C → bytes.getD q 0 = 0) (fun _ _ => f.volume.Fails) := by
  refine (ExtFileInodeOps.ends_read hf h.mapped (le_count hf _) offset len).mono ?_
    (fun _ _ hfails => hfails)
  rintro bytes _ ⟨rfl, -⟩
  have hlen : ∀ n, (f.content I offset n).length = n := by simp [content]
  refine ⟨hlen _, ?_⟩
  intro q hq hC
  rw [hlen] at hq
  simp only [content, List.getD_eq_getElem?_getD, List.getElem?_map, List.getElem?_range hq]
  exact h.zeros _ (by omega) hC

/-! ## Calls that show nothing old -/

/-- The positions of a write. -/
def written (offset : Nat) (buf : List UInt8) : Set Nat :=
  {p | offset ≤ p ∧ p < offset + buf.length}

/-- Below the new size no pointer block is missing after the write. A position that is not
covered holds 0 or stands in a missing block, and such a block stays missing. -/
structure WriteSafe (I : Finset UInt32) (f : ExtFileInodeOps) (C : Set Nat) (offset : Nat)
    (buf : List UInt8) : Prop where
  short : f.count (f.size_after offset buf).toNat ≤ f.max_blocks
  inner : ∀ k < f.count (f.size_after offset buf).toNat, ∀ P : Place Tree,
    P.path.length < P.tree.depth → OnWay P (f.place k) →
      f.own I P ≠ 0 ∨ f.Reached offset buf.length P
  zeros : ∀ p < (f.size_after offset buf).toNat, p ∉ C ∪ written offset buf → f.byte I p = 0
  missing : ∀ p < (f.size_after offset buf).toNat, p ∉ C ∪ written offset buf →
    f.block I (p / f.bs) = 0 → ∀ q ∈ written offset buf, q / f.bs ≠ p / f.bs

/-- A block that no byte is written to stays missing. -/
theorem Wrote.still_missing (hw : Wrote I f f' offset buf) {k : Nat} (hk : f.block I k = 0)
    (hq : ∀ q ∈ written offset buf, q / f.bs ≠ k) : f'.block I k = 0 := by
  unfold block at hk ⊢
  rw [hw.place_eq]
  by_contra hne
  obtain ⟨q, h1, h2, hway⟩ := (hw.fill _ hk).mp hne
  have hplace := onWay_leaf hway (data_place_leaf _ _ _) (data_place_leaf _ _ _)
  exact hq q ⟨h1, h2⟩ (data_place_inj hplace).symm

theorem Quiet.of_wrote (hs : WriteSafe I f C offset buf) (hw : Wrote I f f' offset buf)
    (hsize : f'.ext2inode.i_size = f.size_after offset buf) :
    Quiet I f' (C ∪ written offset buf) f'.ext2inode.i_size.toNat := by
  have hcount : f'.count f'.ext2inode.i_size.toNat = f.count (f.size_after offset buf).toNat := by
    unfold count
    rw [hw.bs_eq, hsize]
  refine ⟨⟨?_, ?_⟩, ?_⟩
  · rw [hcount, hw.max_blocks_eq]
    exact hs.short
  · intro k hk P hP hway
    rw [hcount] at hk
    rw [hw.place_eq] at hway
    by_cases h0 : f.own I P = 0
    · exact (hw.fill P h0).mpr ((hs.inner k hk P hP hway).resolve_left (fun h => h h0))
    · rw [hw.keep P h0]
      exact h0
  · intro p hp hC
    rw [hsize] at hp
    by_cases h0 : f.block I (p / f.bs) = 0
    · have hmissing := hw.still_missing h0 (hs.missing p hp hC h0)
      unfold byte
      rw [hw.bs_eq, if_pos hmissing]
    · rw [hw.outside p (fun hin => hC (Or.inr hin)) h0]
      exact hs.zeros p hp hC

/-! ### `truncate` -/

section Truncate

variable {D : Fin 15 → Prop} [DecidablePred D] {R : Place Tree → Prop}

theorem Truncated.block_eq (h : Truncated I f f' size D R) (hf : Good I f) {k : Nat}
    (hk : ¬ D (f.place k).tree.2) : f'.block I k = f.block I k := by
  unfold block
  rw [place_of_geometry h.geometry h.inode_num, h.own_eq hf, if_neg (fun hd => hk hd.2)]

/-- A block of which the slot stays has the bytes that it had. -/
theorem Truncated.byte_eq (h : Truncated I f f' size D R) (hf : Good I f) {p : Nat}
    (hp : ¬ D (f.place (p / f.bs)).tree.2) : f'.byte I p = f.byte I p := by
  unfold byte
  rw [bs_of_geometry h.geometry, h.block_eq hf hp, h.geometry]
  split
  · rfl
  · rename_i hne
    exact h.data _ (hf.data hne) _ (Geometry.inBlock_offset (Nat.mod_lt p hf.layout.bs_pos))

/-- A part of a quiet file in which no slot is cleared. -/
theorem Quiet.cut {n m : Nat} (hq : Quiet I f C n) (h : Truncated I f f' size D R)
    (hf : Good I f) (hmn : m ≤ n) (hkeep : ∀ k < f.count m, ¬ D (f.place k).tree.2)
    {C' : Set Nat} (hC : ∀ p < m, p ∉ C' → p ∉ C) : Quiet I f' C' m := by
  have hcount : f'.count m = f.count m := by
    unfold count
    rw [bs_of_geometry h.geometry]
  have hle := count_mono f hmn
  refine ⟨⟨?_, ?_⟩, ?_⟩
  · have hmax : f'.max_blocks = f.max_blocks := by
      unfold max_blocks
      rw [h.geometry]
    rw [hcount, hmax]
    exact hle.trans hq.mapped.short
  · intro k hk P hP hway
    rw [hcount] at hk
    rw [place_of_geometry h.geometry h.inode_num] at hway
    have htree : P.tree = (f.place k).tree := hway.1
    rw [h.own_eq hf, htree, if_neg (fun hd => hkeep k hk hd.2)]
    exact hq.mapped.inner k (by omega) P hP hway
  · intro p hp hpC
    have hk : p / f.bs < f.count m :=
      (lt_count_iff hf).mpr (Nat.lt_of_le_of_lt (Nat.div_mul_le_self p f.bs) hp)
    rw [h.byte_eq hf (hkeep _ hk)]
    exact hq.zeros p (by omega) (hC p hp hpC)

end Truncate

theorem not_dropped {nbc k : Nat} (hk : k < nbc) (hmax : k < f.max_blocks) :
    ¬ Dropped f.volume.geometry.width nbc (f.place k).tree.2 := by
  unfold max_blocks at hmax
  unfold place data_place
  split
  · have hs : (⟨k, by omega⟩ : Fin 15) ≠ single_slot := fun h => absurd (congrArg Fin.val h) (by
      change ¬ k = 12
      omega)
    have hd : (⟨k, by omega⟩ : Fin 15) ≠ double_slot := fun h => absurd (congrArg Fin.val h) (by
      change ¬ k = 13
      omega)
    rw [dropped_other hs hd]
    change ¬ (nbc ≤ k ∧ k < 12)
    omega
  · split
    · rw [dropped_single]
      omega
    · rw [if_pos (by omega), dropped_double]
      omega

/-- A file that grows shows nothing old, and one that is cut leaves no pointer behind. -/
def TruncateSafe (I : Finset UInt32) (f : ExtFileInodeOps) (C : Set Nat) (size : Nat) : Prop :=
  if f.ext2inode.i_size.toNat ≤ size then Quiet I f C size else Uncut I f (f.count size)

/-- What is still covered. -/
def still_covered (f : ExtFileInodeOps) (C : Set Nat) (size : Nat) : Set Nat :=
  if f.ext2inode.i_size.toNat ≤ size then C else {p | p ∈ C ∧ p < size}

theorem Quiet.ends_truncate (h : Quiet I f C f.ext2inode.i_size.toNat) (hf : Good I f)
    (hsize : size < UInt32.size) (hs : TruncateSafe I f C size) :
    Yields (truncate size f) (fun _ f' => Good I f' ∧ f'.inode_num = f.inode_num ∧
      Alike f.volume f'.volume ∧ Quiet I f' (still_covered f C size) f'.ext2inode.i_size.toNat) := by
  have hnat : (UInt32.ofNat size).toNat = size := UInt32.toNat_ofNat_of_lt' hsize
  unfold TruncateSafe at hs
  unfold still_covered
  split at hs
  · rename_i hle
    rw [if_pos hle]
    refine (ends_truncate_longer hf hle).mono_ok ?_
    intro _ f' ht
    refine ⟨(ht.good_iff hf).mpr (fun P hR => hR.elim), ht.inode_num, ht.toAlike, ?_⟩
    rw [ht.i_size, hnat]
    exact hs.cut ht hf (Nat.le_refl _) (fun k _ => id) (fun p _ => id)
  · rename_i hlt
    rw [if_neg hlt]
    refine (ends_truncate_shorter hf (Nat.lt_of_not_le hlt)).mono_ok ?_
    intro _ f' ht
    refine ⟨(ht.good_iff hf).mpr (uncut_iff.mp hs), ht.inode_num, ht.toAlike, ?_⟩
    rw [ht.i_size, hnat]
    refine h.cut ht hf (by omega) ?_ (fun p hp hC hpC => hC ⟨hpC, hp⟩)
    intro k hk
    have hle : f.count size ≤ f.count f.ext2inode.i_size.toNat := count_mono f (by omega)
    exact not_dropped hk (Nat.lt_of_lt_of_le hk (hle.trans h.mapped.short))

/-! ## Runs -/

/-- A call that came back and meets its condition, and the positions that are covered. -/
inductive Safe (I : Finset UInt32) : ExtFileInodeOps × Set Nat → ExtFileInodeOps × Set Nat → Prop
  | write {f f' : ExtFileInodeOps} {C : Set Nat} {offset n : Nat} {buf : List UInt8} :
      WriteSafe I f C offset buf → write offset buf f = .ok n f' →
      Safe I (f, C) (f', C ∪ written offset buf)
  | truncate {f f' : ExtFileInodeOps} {C : Set Nat} {size : Nat} :
      size < UInt32.size → TruncateSafe I f C size → truncate size f = .ok () f' →
      Safe I (f, C) (f', still_covered f C size)

/-- What holds all along a run. -/
structure Hidden (I : Finset UInt32) (f0 : ExtFileInodeOps) (s : ExtFileInodeOps × Set Nat) :
    Prop extends Alike f0.volume s.1.volume where
  good : Good I s.1
  quiet : Quiet I s.1 s.2 s.1.ext2inode.i_size.toNat

theorem Hidden.step {s s' : ExtFileInodeOps × Set Nat}
    (h : Hidden I f0 s) (hstep : Safe I s s') : Hidden I f0 s' := by
  obtain ⟨halike, hgood, hquiet⟩ := h
  cases hstep with
  | write hs hrun =>
    obtain ⟨-, hw, hsize, -⟩ := (ends_write hgood _ _).of_ok hrun
    exact ⟨halike.trans hw.toAlike, hw.good, Quiet.of_wrote hs hw hsize⟩
  | truncate hlt hs hrun =>
    obtain ⟨hgood', -, halike', hquiet'⟩ := (hquiet.ends_truncate hgood hlt hs).of_ok hrun
    exact ⟨halike.trans halike', hgood', hquiet'⟩

theorem Hidden.run {s s' : ExtFileInodeOps × Set Nat}
    (h : Hidden I f0 s) (hrun : Relation.ReflTransGen (Safe I) s s') : Hidden I f0 s' := by
  induction hrun with
  | refl => exact h
  | tail _ hstep ih => exact ih.step hstep

/-- Calls that meet their conditions, on a file that starts empty: a read gives as many
bytes as the size allows, and 0 at every position that is not covered. -/
theorem reads_show_nothing_old (hc : f.volume.Consistent I)
    (hlayout : f.volume.geometry.Layout) (hmem : f.inode_num ∈ I)
    (hcopy : f.volume.disk_inode f.inode_num = some f.ext2inode) (hsize : f.ext2inode.i_size = 0)
    (hrun : Relation.ReflTransGen (Safe I) (f, ∅) (f', C)) (offset len : Nat) :
    Ends (read offset len f') (fun bytes _ =>
      bytes.length = min len (f'.ext2inode.i_size.toNat - offset) ∧
      ∀ q < bytes.length, offset + q ∉ C → bytes.getD q 0 = 0) (fun _ _ => f.volume.Fails) := by
  have hgood := (stored_of_disk_inode hcopy).good_of_layout hmem hc hlayout
  have hzero : f.ext2inode.i_size.toNat = 0 := congrArg UInt32.toNat hsize
  have hquiet : Quiet I f ∅ f.ext2inode.i_size.toNat := by
    rw [hzero]
    exact quiet_zero hgood ∅
  have hstart : Hidden I f (f, ∅) := ⟨⟨rfl, rfl, rfl⟩, hgood, hquiet⟩
  have h := hstart.run hrun
  refine (h.quiet.ends_read h.good offset len).mono_error ?_
  intro _ _ hfails
  exact (Volume.fails_congr h.toAlike).mp hfails

/-- A whole block is written behind a missing one, and the missing one is read. -/
theorem a_hole_reads_as_zeros : ∃ n f1, write 2048 (List.replicate 2048 7) emptyFile = .ok n f1 ∧
    Ends (read 0 3 f1) (fun bytes _ => bytes.length = min 3 (f1.ext2inode.i_size.toNat - 0) ∧
      ∀ q < bytes.length, 0 + q ∉ (∅ ∪ written 2048 (List.replicate 2048 7) : Set Nat) →
        bytes.getD q 0 = 0) (fun _ _ => emptyFile.volume.Fails) := by
  have hrun : passes (write 2048 (List.replicate 2048 7) emptyFile) (fun _ _ => true) = true := by
    decide +kernel
  obtain ⟨n, f1, h1, -⟩ := exists_of_passes hrun
  have hstored : emptyFile.Stored := slice_splice _ _ _
  have hsize : (emptyFile.size_after 2048 (List.replicate 2048 7)).toNat = 4096 := by
    decide +kernel
  have hbs : emptyFile.bs = 2048 := by decide
  have hblock : ∀ k, emptyFile.block {5} k = 0 := fun k => own_emptyFile _
  have hsafe : WriteSafe {5} emptyFile ∅ 2048 (List.replicate 2048 7) := by
    refine ⟨?_, ?_, ?_, ?_⟩
    · rw [hsize]
      decide
    · intro k hk P hP hway
      rw [hsize, count, hbs] at hk
      have hplace : emptyFile.place k = ⟨(5, ⟨k, by omega⟩), []⟩ :=
        place_direct emptyFile (by omega)
      rw [hplace, onWay_root] at hway
      rw [hway] at hP
      exact absurd hP (by change ¬ 0 < k - 11; omega)
    · intro p _ _
      unfold byte
      rw [if_pos (hblock _)]
    · intro p hp hC _ q hq heq
      have hp : ¬ (2048 ≤ p ∧ p < 2048 + (List.replicate 2048 (7 : UInt8)).length) :=
        fun h => hC (Or.inr h)
      have hq : 2048 ≤ q ∧ q < 2048 + (List.replicate 2048 (7 : UInt8)).length := hq
      rw [List.length_replicate] at hp hq
      rw [hbs] at heq
      omega
  refine ⟨n, f1, h1, ?_⟩
  exact reads_show_nothing_old (f := emptyFile) consistent_small (regions_small.layout rfl)
    (Finset.mem_singleton_self 5) hstored.deserialize rfl (.single (.write hsafe h1)) 0 3

/-- One byte at 100 shows the old byte at 0, and a file that grows over a missing indirect
block reads short. -/
theorem old_bytes_and_short_reads : emptyFile.volume.Consistent {5} ∧
    emptyFile.volume.disk_inode 5 = some emptyFile.ext2inode ∧ emptyFile.ext2inode.i_size = 0 ∧
    (∃ n f1 bytes f2, write 100 [1] emptyFile = .ok n f1 ∧ 0 < f1.ext2inode.i_size ∧
      read 0 1 f1 = .ok bytes f2 ∧ bytes = [0xFF]) ∧
    ∃ f1 bytes f2, truncate (13 * 2048) emptyFile = .ok () f1 ∧
      12 * 2048 < f1.ext2inode.i_size.toNat ∧ read (12 * 2048) 1 f1 = .ok bytes f2 ∧
      bytes = [] := by
  have hstored : emptyFile.Stored := slice_splice _ _ _
  refine ⟨consistent_small, hstored.deserialize, rfl, ?_, ?_⟩
  · have hrun : passes (write 100 [1] emptyFile) (fun _ f1 => decide (0 < f1.ext2inode.i_size) &&
        passes (read 0 1 f1) (fun bytes _ => decide (bytes = [0xFF]))) = true := by
      decide +kernel
    obtain ⟨n, f1, h1, hpass⟩ := exists_of_passes hrun
    rw [Bool.and_eq_true, decide_eq_true_eq] at hpass
    obtain ⟨bytes, f2, h2, hbytes⟩ := exists_of_passes hpass.2
    exact ⟨n, f1, bytes, f2, h1, hpass.1, h2, of_decide_eq_true hbytes⟩
  · have hrun : passes (truncate (13 * 2048) emptyFile) (fun _ f1 =>
        decide (12 * 2048 < f1.ext2inode.i_size.toNat) &&
        passes (read (12 * 2048) 1 f1) (fun bytes _ => decide (bytes = []))) = true := by
      decide +kernel
    obtain ⟨_, f1, h1, hpass⟩ := exists_of_passes hrun
    rw [Bool.and_eq_true, decide_eq_true_eq] at hpass
    obtain ⟨bytes, f2, h2, hbytes⟩ := exists_of_passes hpass.2
    exact ⟨f1, bytes, f2, h1, hpass.1, h2, of_decide_eq_true hbytes⟩

end ExtFileInodeOps

end zenos_kernel.disk.fs.ext2
