-- The files of the two drivers as arrays of bytes. A write at the end of a file puts
-- its bytes behind those that are there. On ext2 every `open` makes a copy of the inode,
-- and a copy that is not like the disk any more undoes what others wrote.
import Zenos.Disk.Append
import Zenos.Disk.DriverSizes

/-! ## FAT -/

namespace zenos_kernel.disk.fs.fat

open Bytes Outcome vfs

theorem overwrite_end (bs buf : List UInt8) : overwrite bs bs.length buf = bs ++ buf := by
  simp [overwrite]

namespace FatFile

open Volume

variable {f f' : FatFile} {l dl : List Nat} {pos : Nat} {bs : List UInt8}

/-- The entry of the file is written, and nothing of its clusters. -/
theorem Shows.slot_written (h : f.Placed l dl pos) (hs : Shows f l bs)
    (he : Extends f f' l l (InSlot pos)) (hdata : f'.toFatFileData = f.toFatFileData) :
    Shows f' l bs := by
  have hsame := he.grows.same
  refine ⟨?_, ?_, ?_⟩
  · rw [← hs.size, show f'.entry = f.entry from congrArg FatFileData.entry hdata]
  · rw [hsame.cluster_size]
    exact hs.room
  · intro q hq
    have hroom := hs.room
    rw [hsame.pos, ← hs.bytes q hq]
    refine he.grows.bytes _ (Or.inr (f.volume.fat_end_le_pos _ _)) ?_
    exact h.slot.not_pos h.chain h.apart (by omega)

end FatFile

namespace FatFileSystem

open Volume

/-- A file with the volume that it is on. -/
def on_disk (fs : FatFileSystem) (f : FatFileData) : FatFile :=
  { toFatFileData := f, inner := fs.inner }

/-- The file holds the bytes `bs`. -/
def Holds (p : FatFileSystem × FatData) (bs : List UInt8) : Prop :=
  ∃ f l dl pos, p.2 = .file f ∧ (on_disk p.1 f).Placed l dl pos ∧
    FatFile.Shows (on_disk p.1 f) l bs

variable {p : FatFileSystem × FatData} {bs buf : List UInt8}

/-- The bytes depend on the volume, the entry and the slot. -/
theorem Holds.congr {p' : FatFileSystem × FatData} {f f' : FatFileData} (h : Holds p bs)
    (hp : p.2 = .file f) (hp' : p'.2 = .file f') (hv : p'.1.inner.volume = p.1.inner.volume)
    (hentry : f'.entry = f.entry) (hslot : f'.slot = f.slot) : Holds p' bs := by
  obtain ⟨f1, l, dl, pos, hp1, hplaced, hshows⟩ := h
  cases hp.symm.trans hp1
  have hv : (on_disk p'.1 f').volume = (on_disk p.1 f).volume := hv
  refine ⟨f', l, dl, pos, hp', hplaced.congr hv (congrArg FatDirEntry.first_cluster hentry)
    hslot, ?_, ?_, ?_⟩
  · rw [← hshows.size]
    exact congrArg (fun e => UInt32.toNat (FatDirEntry.file_size e)) hentry
  · rw [hv]
    exact hshows.room
  · rw [hv]
    exact hshows.bytes

theorem Holds.ends_append (h : Holds p bs) (hsmall : bs.length + buf.length < UInt32.size) :
    Yields (by_kind (FatFile.write bs.length buf) (fun _ => throw (.err .IsADirectory)) p)
      (fun _ p' => Holds p' (bs ++ buf)) := by
  obtain ⟨f, l, dl, pos, hp, hplaced, hshows⟩ := h
  refine ends_by_kind hp ((FatFile.ends_write hplaced bs.length buf).forget.mono_ok ?_)
  rintro n f' ⟨-, l', hw, hsize, -⟩
  refine ⟨f'.toFatFileData, l', dl, pos, rfl, hplaced.grown hw.toExtends, ?_⟩
  rw [← overwrite_end]
  exact hshows.write hplaced (Nat.le_refl _) hsmall hw hsize

theorem Holds.ends_sync (h : Holds p bs) :
    Yields (by_kind FatFile.sync (fun _ => pure ()) p) (fun _ p' => Holds p' bs) := by
  obtain ⟨f, l, dl, pos, hp, hplaced, hshows⟩ := h
  refine ends_by_kind hp ((FatFile.ends_sync hplaced).forget.mono_ok ?_)
  rintro _ f' ⟨he, hdata, -⟩
  exact ⟨f'.toFatFileData, l, dl, pos, rfl, hplaced.grown he, hshows.slot_written hplaced he hdata⟩

/-- A file of a sound volume holds bytes if its chain is as long as its size needs. -/
theorem holds_of_opened {s : FatFileSystem} {f : FatFileData} {up dl : List Nat}
    {d : FatDirectory} {i : Nat} (hwf : (on_disk s f).volume.Sound)
    (hopen : (on_disk s f).Opened up d dl i) (hu : (on_disk s f).volume.Unsplit)
    (hroom : ∀ l, (on_disk s f).volume.IsChain f.entry.first_cluster l →
      f.entry.file_size.toNat ≤ l.length * (on_disk s f).volume.cluster_size) :
    ∃ bs, bs.length = f.entry.file_size.toNat ∧ Holds (s, .file f) bs := by
  obtain ⟨l, hplaced⟩ := hopen.placed hwf hu
  refine ⟨(on_disk s f).volume.content l 0 f.entry.file_size.toNat, length_content _ _ _ _,
    f, l, dl, _, rfl, hplaced, ?_, ?_, ?_⟩
  · rw [length_content]
    rfl
  · rw [length_content]
    exact hroom l hplaced.chain
  · intro q hq
    rw [length_content] at hq
    rw [getD_content _ _ _ hq, Nat.zero_add]

def arrays (table : CaseTable) :
    @Arrays FatFileSystem FatData (inodeOps table) (sized table) :=
  let _ := inodeOps table
  { Holds := Holds
    Ready := fun _ => True
    size := by
      rintro p bs ⟨f, l, dl, pos, hp, -, hshows⟩
      exact ⟨f.entry.file_size, by rw [hp]; rfl, hshows.size⟩
    append := fun _ _ _ h _ hsmall => h.ends_append hsmall
    nothing := by
      intro p _ _ h
      obtain ⟨f, l, dl, pos, hp, -⟩ := id h
      refine ends_by_kind hp ?_
      exact h.congr hp rfl rfl rfl rfl
    sync := fun _ _ h => h.ends_sync
    current_time := by
      intro p bs h
      obtain ⟨f, l, dl, pos, hp, -⟩ := id h
      exact h.congr hp hp rfl rfl rfl }

end FatFileSystem

end zenos_kernel.disk.fs.fat

/-! ## ext2 -/

namespace zenos_kernel.disk.fs.ext2

open Outcome vfs

namespace ExtFileInodeOps

variable {I : Finset UInt32} {f f' : ExtFileInodeOps} {bs buf : List UInt8}

/-- The block in which the file ends is there, unless the file ends with a block. -/
def EndPresent (I : Finset UInt32) (f : ExtFileInodeOps) : Prop :=
  f.ext2inode.i_size.toNat % f.bs = 0 ∨ f.block I (f.ext2inode.i_size.toNat / f.bs) ≠ 0

/-- A missing block stays missing unless a byte of it is written. -/
theorem Wrote.missing {offset k : Nat} (hw : Wrote I f f' offset buf) (hk : f.block I k = 0)
    (hout : ∀ p, offset ≤ p → p < offset + buf.length → p / f.bs ≠ k) : f'.block I k = 0 := by
  by_contra hne
  unfold block at hk hne
  rw [hw.place_eq] at hne
  obtain ⟨p, h1, h2, hway⟩ := (hw.fill _ hk).mp hne
  have heq := onWay_leaf hway (data_place_leaf _ _ _) (data_place_leaf _ _ _)
  exact hout p h1 h2 (data_place_inj heq).symm

theorem Reads.append (h : Reads I f bs) (hf : Good I f) (hend : EndPresent I f)
    (hsmall : bs.length + buf.length < UInt32.size) (hw : Wrote I f f' bs.length buf)
    (hsize : f'.ext2inode.i_size = f.size_after bs.length buf) : Reads I f' (bs ++ buf) := by
  have hpos : 0 < f.bs := hf.layout.bs_pos
  have hcount : f'.count (bs ++ buf).length = f.count (bs ++ buf).length := by
    unfold count
    rw [hw.bs_eq]
  have hwritten : ∀ k, k < f.count (bs ++ buf).length → ¬ k < f.count bs.length →
      bs.length ≤ k * f.bs ∧ k * f.bs < bs.length + buf.length := by
    intro k hk hnot
    rw [lt_count_iff hf] at hk hnot
    rw [List.length_append] at hk
    omega
  have hdiv : ∀ k, k * f.bs / f.bs = k := fun k => Nat.mul_div_cancel k hpos
  refine ⟨?_, ⟨?_, ?_⟩, ?_⟩
  · rw [size_of_write hsize h.size (Nat.le_refl _) hsmall, List.length_append]
    omega
  · rw [hcount, hw.max_blocks_eq]
    by_contra hlt
    have hold : ¬ f.max_blocks < f.count bs.length := Nat.not_lt.mpr h.mapped.short
    obtain ⟨h1, h2⟩ := hwritten _ (Nat.lt_of_not_le hlt) hold
    have hshort := hw.short _ h1 h2
    rw [hdiv] at hshort
    exact Nat.lt_irrefl _ hshort
  · intro k hk P hP hway
    rw [hcount] at hk
    rw [hw.place_eq] at hway
    by_cases hold : k < f.count bs.length
    · have hne := h.mapped.inner k hold P hP hway
      rw [hw.keep P hne]
      exact hne
    · have hpresent := hw.present (hwritten k hk hold)
      rw [hdiv] at hpresent
      unfold block at hpresent
      rw [hw.place_eq] at hpresent
      exact own_of_onWay hpresent hway
  · intro p hp
    rw [List.length_append] at hp
    by_cases hin : p < bs.length
    · rw [List.getD_append _ _ _ _ hin, ← h.bytes p hin]
      by_cases hblock : f.block I (p / f.bs) = 0
      · -- the block is not the one in which the file ends
        have hmiss : f'.block I (p / f.bs) = 0 := by
          refine hw.missing hblock ?_
          intro q h1 _ heq
          have hsame : bs.length / f.bs = p / f.bs :=
            Nat.le_antisymm (heq ▸ Nat.div_le_div_right h1)
              (Nat.div_le_div_right (Nat.le_of_lt hin))
          unfold EndPresent at hend
          rw [h.size, hsame] at hend
          have hmod := hend.resolve_right (fun hne => hne hblock)
          have hdm := Nat.div_add_mod' bs.length f.bs
          have hdp := Nat.div_mul_le_self p f.bs
          rw [hsame] at hdm
          omega
        unfold byte
        rw [hw.bs_eq, hmiss, hblock]
        rfl
      · exact hw.outside p (by omega) hblock
    · have hdata := hw.inside (p - bs.length) (by omega)
      rw [show bs.length + (p - bs.length) = p by omega] at hdata
      rw [hdata, List.getD_append_right _ _ _ _ (by omega)]

/-! ### Other handles of the file -/

theorem Reads.congr (h : Reads I f bs) (hgeo : f'.volume.geometry = f.volume.geometry)
    (hnum : f'.inode_num = f.inode_num) (hsize : f'.ext2inode.i_size = f.ext2inode.i_size)
    (hown : f'.own I = f.own I) (hbyte : ∀ p, f'.byte I p = f.byte I p) : Reads I f' bs := by
  have hcount : f'.count bs.length = f.count bs.length := by
    unfold count
    rw [bs_of_geometry hgeo]
  refine ⟨by rw [hsize, h.size], ⟨?_, ?_⟩, ?_⟩
  · have hmax : f'.max_blocks = f.max_blocks := by
      unfold max_blocks
      rw [hgeo]
    rw [hcount, hmax]
    exact h.mapped.short
  · intro k hk P hP hway
    rw [hcount] at hk
    rw [place_of_geometry hgeo hnum] at hway
    rw [hown]
    exact h.mapped.inner k hk P hP hway
  · intro p hp
    rw [hbyte]
    exact h.bytes p hp

theorem Reads.same_volume (h : Reads I f bs) (hf : Good I f) (hv : f'.volume = f.volume)
    (hs : SameHandle f f') : Good I f' ∧ Reads I f' bs := by
  obtain ⟨hgrew, hown⟩ := grew_same_volume hf hv hs
  refine ⟨hgrew.good, h.congr hgrew.geometry hs.inode_num hs.i_size hown ?_⟩
  intro p
  unfold byte block
  rw [hown, place_of_geometry hgrew.geometry hs.inode_num, bs_of_geometry hgrew.geometry, hv]

/-- The size and the slots on the disk are those of the handle. -/
def Current (f : ExtFileInodeOps) : Prop :=
  ∃ ino, f.volume.disk_inode f.inode_num = some ino ∧ ino.i_size = f.ext2inode.i_size ∧
    ino.i_block = f.ext2inode.i_block

theorem ends_sync_reads (hf : Good I f) (h : Reads I f bs) :
    Yields (sync f)
      (fun _ f' => f'.inode_num = f.inode_num ∧ Good I f' ∧ Reads I f' bs ∧ f'.Stored) := by
  refine (ends_sync_handle hf.layout (hf.inodes _ hf.mem)).mono_ok ?_
  rintro _ f' ⟨hnum, hino, hstored, hsync⟩
  have hblock : f'.ext2inode.i_block = f.ext2inode.i_block := by rw [hino]
  refine ⟨hnum, good_of_synced hf hsync hnum hblock, ?_, hstored⟩
  exact h.congr hsync.geometry hnum (by rw [hino]) (own_of_synced hf hsync hnum hblock)
    (byte_of_synced hf hsync hnum hblock)

end ExtFileInodeOps

open ExtFileInodeOps

variable (I : Finset UInt32) (n : UInt32)

/-- Inode `n` holds the bytes `bs`, as the copy of it says. -/
def Holds (p : Ext2FSInner × Ext2Data) (bs : List UInt8) : Prop :=
  ∃ ino, p.2 = .file ino n ∧ Good I ⟨p.1, ino, n⟩ ∧ Reads I ⟨p.1, ino, n⟩ bs

/-- The copy is like the inode on the disk. -/
def CurrentCopy (p : Ext2FSInner × Ext2Data) : Prop :=
  ∃ ino, p.2 = .file ino n ∧ Current ⟨p.1, ino, n⟩

variable {I n} {p : Ext2FSInner × Ext2Data} {bs buf : List UInt8}

theorem Holds.ends_append (h : Holds I n p bs)
    (hend : ∀ ino, p.2 = .file ino n → EndPresent I ⟨p.1, ino, n⟩)
    (hsmall : bs.length + buf.length < UInt32.size) :
    Yields (InodeOps.write bs.length buf p) (fun _ p' => Holds I n p' (bs ++ buf)) := by
  obtain ⟨ino, hp, hgood, hreads⟩ := h
  refine ends_by_kind hp ((ends_write hgood bs.length buf).mono_ok ?_)
  rintro _ f' ⟨-, hw, hsize, -⟩
  obtain ⟨inner', ino', num'⟩ := f'
  obtain rfl : num' = n := hw.inode_num
  exact ⟨ino', rfl, hw.good, hreads.append hgood (hend ino hp) hsmall hw hsize⟩

theorem Holds.ends_nothing (h : Holds I n p bs) (offset : Nat) :
    Yields (InodeOps.write offset [] p) (fun _ p' => Holds I n p' bs) := by
  obtain ⟨ino, hp, hgood, hreads⟩ := h
  refine ends_by_kind hp ?_
  unfold ExtFileInodeOps.write
  rw [get_bind]
  split
  · exact trivial
  · exact ⟨ino, rfl, hgood, hreads⟩

theorem Holds.ends_sync (h : Holds I n p bs) :
    Yields (InodeOps.sync p) (fun _ p' => Holds I n p' bs ∧ CurrentCopy n p') := by
  obtain ⟨ino, hp, hgood, hreads⟩ := h
  refine ends_by_kind hp ((ends_sync_reads hgood hreads).mono_ok ?_)
  rintro _ f' ⟨hnum, hgood', hreads', hstored⟩
  obtain ⟨inner', ino', num'⟩ := f'
  obtain rfl : num' = n := hnum
  exact ⟨⟨ino', rfl, hgood', hreads'⟩, ino', rfl, _, hstored.deserialize, rfl, rfl⟩

/-- The bytes of inode `n` as long as the volume is good for the inodes `I`. -/
def arrays (I : Finset UInt32) (n : UInt32) : Arrays sized where
  Holds := Holds I n
  Ready p := ∀ ino, p.2 = .file ino n → EndPresent I ⟨p.1, ino, n⟩
  size := by
    rintro p bs ⟨ino, hp, -, hreads⟩
    exact ⟨ino.i_size, by rw [hp]; rfl, hreads.size⟩
  append := fun _ _ _ h hend hsmall => h.ends_append hend hsmall
  nothing := fun _ _ _ h => h.ends_nothing _
  sync := fun _ _ h => h.ends_sync.mono_ok (fun _ _ h => h.1)
  current_time := by
    rintro p bs ⟨ino, hp, hgood, hreads⟩
    exact ⟨ino, hp, hreads.same_volume hgood rfl ⟨rfl, rfl, rfl⟩⟩

/-- Every copy that is like the disk holds the same bytes. -/
def copied (I : Finset UInt32) (n : UInt32) : Copied (arrays I n) where
  Seen s bs := ∃ ino, Current ⟨s, ino, n⟩ ∧ Holds I n (s, .file ino n) bs
  Current := CurrentCopy n
  holds := by
    rintro p bs ⟨ino, ⟨disk, hdisk, hsize, hblock⟩, ino1, hino1, hgood, hreads⟩
      ⟨ino', hp, disk', hdisk', hsize', hblock'⟩
    cases hino1
    cases hdisk.symm.trans hdisk'
    refine ⟨ino', hp, hreads.same_volume hgood rfl ⟨rfl, ?_, ?_⟩⟩
    · exact hblock'.symm.trans hblock
    · exact hsize'.symm.trans hsize
  seen := by
    rintro p bs hholds ⟨ino, hp, hcur⟩
    refine ⟨ino, hcur, ?_⟩
    rw [← hp]
    exact hholds
  sync := fun _ _ h => h.ends_sync.mono_ok (fun _ _ h => h.2)

end zenos_kernel.disk.fs.ext2

namespace zenos_kernel.disk.vfs

open Outcome syscall

/-! ## Appending -/

/-- Writes at the end of a file append, and no others do. -/
structure AppendsAtEnd {σ δ : Type} {_ : InodeOps σ δ} {law : Sized σ δ} (A : Arrays law) :
    Prop where
  run : ∀ (s s' : SharedInode σ δ) (ws : List (Nat × List UInt8)) (bs : List UInt8),
    A.Holds (s.fs, s.inode.data) bs →
    SharedInode.Writes (fun o buf => (buf = [] ∨ A.Ready o.driver) ∧ o.AtEnd law buf) s ws s' →
    A.Holds (s'.fs, s'.inode.data) (bs ++ (ws.map Prod.snd).flatten)
  only : ∀ (o o' : Opened σ δ) (bs buf : List UInt8) (n : Nat), A.Holds o.driver bs →
    OpenFile.write buf o = .ok n o' → o.file.cursor + buf.length < UInt32.size →
    ¬ o.AtEnd law buf → ¬ A.Holds o'.driver (bs ++ buf)

theorem appendsAtEnd {σ δ : Type} {_ : InodeOps σ δ} {law : Sized σ δ} (A : Arrays law) :
    AppendsAtEnd A where
  run := fun _ _ _ _ h hrun => hrun.appended h
  only := fun _ _ _ _ _ h hwrite hsmall hend => A.not_appended h hwrite hsmall hend

/-- Bytes are appended to a file of FAT or ext2 exactly by the writes whose cursor is at
its end. With an inode for every handle, as on ext2, the inode must be like the disk. -/
theorem writes_append_at_the_end (table : fs.fat.CaseTable) (I : Finset UInt32) (n : UInt32) :
    AppendsAtEnd (fs.fat.FatFileSystem.arrays table) ∧ AppendsAtEnd (fs.ext2.arrays I n) ∧
      ∀ (s s' : Copies fs.ext2.Ext2FSInner fs.ext2.Ext2Data) (ws : List (Nat × List UInt8))
        (bs : List UInt8), (fs.ext2.copied I n).Seen s.fs bs →
        Copies.Writes (fun o buf => (fs.ext2.copied I n).Current o.driver ∧
          (buf = [] ∨ (fs.ext2.arrays I n).Ready o.driver) ∧ o.AtEnd fs.ext2.sized buf) s ws s' →
        (fs.ext2.copied I n).Seen s'.fs (bs ++ (ws.map Prod.snd).flatten) :=
  ⟨appendsAtEnd _, appendsAtEnd _, fun _ _ _ _ h hrun => hrun.appended h⟩

section Latin

local instance : InodeOps fs.fat.FatFileSystem fs.fat.FatData :=
  fs.fat.FatFileSystem.inodeOps latinTable

/-- An empty file, opened twice with `APPEND`. -/
def twoHandles : SharedInode fs.fat.FatFileSystem fs.fat.FatData where
  fs := (emptyFile (WRITE_ONLY ||| APPEND) 0o600).fs
  inode := (emptyFile (WRITE_ONLY ||| APPEND) 0o600).inode
  files := List.replicate 2 (emptyFile (WRITE_ONLY ||| APPEND) 0o600).file

theorem twoHandles_holds :
    fs.fat.FatFileSystem.Holds (twoHandles.fs, twoHandles.inode.data) [] := by
  have hunsplit : (fs.fat.FatFile.oneFile 0).volume.Unsplit := by
    apply fs.fat.Volume.unsplit_of_fat_type
    decide
  have hsound := (fs.fat.FatFile.oneFile_wellFormed 0).toSound
  obtain ⟨bs, hlen, h⟩ := fs.fat.FatFileSystem.holds_of_opened (s := twoHandles.fs)
    (f := (fs.fat.FatFile.oneFile 0).toFatFileData) hsound (fs.fat.FatFile.oneFile_opened 0)
    hunsplit (fun _ _ => Nat.zero_le _)
  have hnil : bs = [] := List.eq_nil_of_length_eq_zero hlen
  rw [← hnil]
  exact h

/-- The handle `i` writes and returns, and what comes then passes the test. -/
def writes (s : SharedInode fs.fat.FatFileSystem fs.fat.FatData) (i : Nat) (buf : List UInt8)
    (test : Opened fs.fat.FatFileSystem fs.fat.FatData →
      SharedInode fs.fat.FatFileSystem fs.fat.FatData → Bool) : Bool :=
  match s.files[i]? with
  | none => false
  | some file =>
    passes (OpenFile.write buf (s.opened file)) fun _ o => test (s.opened file) (s.after i o)

theorem step_of_writes {s : SharedInode fs.fat.FatFileSystem fs.fat.FatData} {i : Nat}
    {buf : List UInt8} {test : Opened fs.fat.FatFileSystem fs.fat.FatData →
      SharedInode fs.fat.FatFileSystem fs.fat.FatData → Bool} (h : writes s i buf test = true) :
    ∃ file n o, s.files[i]? = some file ∧ OpenFile.write buf (s.opened file) = .ok n o ∧
      test (s.opened file) (s.after i o) = true := by
  unfold writes at h
  generalize s.files[i]? = found at h ⊢
  cases found with
  | none => cases h
  | some file =>
    obtain ⟨n, o, ho, htest⟩ := exists_of_passes h
    exact ⟨file, n, o, rfl, ho, htest⟩

def sizeOf (o : SharedInode fs.fat.FatFileSystem fs.fat.FatData) : Option UInt32 :=
  fs.fat.FatFileSystem.file_size o.inode.data

/-- The first handle goes on where it stopped. -/
theorem one_handle_appends : ∃ s', fs.fat.FatFileSystem.Holds (s'.fs, s'.inode.data) [1, 2, 3] ∧
    SharedInode.Writes (fun _ _ => True) twoHandles [(0, [1, 2]), (0, [3])] s' := by
  have hrun : writes twoHandles 0 [1, 2] (fun _ s1 => sizeOf s1 == some 2 &&
      writes s1 0 [3] (fun o _ => o.file.cursor == 2)) = true := by decide +kernel
  obtain ⟨file, n, o, hi, hw, htest⟩ := step_of_writes hrun
  rw [Bool.and_eq_true, beq_iff_eq] at htest
  obtain ⟨file', n', o', hi', hw', hcursor⟩ := step_of_writes htest.2
  rw [beq_iff_eq] at hcursor
  have hfile : file.cursor = 0 := by
    cases hi
    rfl
  refine ⟨_, ?_, .cons hi trivial hw (.cons hi' trivial hw' .nil)⟩
  refine (writes_append_at_the_end latinTable ∅ 0).1.run twoHandles _ [(0, [1, 2]), (0, [3])] []
    twoHandles_holds (.cons hi ⟨Or.inr trivial, Or.inr ⟨0, rfl, hfile, by decide⟩⟩ hw
      (.cons hi' ⟨Or.inr trivial, Or.inr ⟨2, htest.1, hcursor, by decide⟩⟩ hw' .nil))

/-- The second handle starts at 0 and overwrites what the first one wrote. -/
theorem a_second_handle_overwrites : ¬ ∀ (s s' : SharedInode fs.fat.FatFileSystem fs.fat.FatData)
    (ws : List (Nat × List UInt8)) (bs : List UInt8),
    (∀ file ∈ s.files, has file.file_open_options APPEND = true) →
    fs.fat.FatFileSystem.Holds (s.fs, s.inode.data) bs →
    SharedInode.Writes (fun _ _ => True) s ws s' →
    fs.fat.FatFileSystem.Holds (s'.fs, s'.inode.data) (bs ++ (ws.map Prod.snd).flatten) := by
  intro hall
  have hrun : writes twoHandles 0 [1, 2, 3] (fun _ s1 =>
      writes s1 1 [9] (fun _ s2 => sizeOf s2 == some 3)) = true := by decide +kernel
  obtain ⟨file, n, o, hi, hw, htest⟩ := step_of_writes hrun
  obtain ⟨file', n', o', hi', hw', hsize⟩ := step_of_writes htest
  rw [beq_iff_eq] at hsize
  have hflags : ∀ file ∈ twoHandles.files, has file.file_open_options APPEND = true := by
    intro file hfile
    rw [List.eq_of_mem_replicate hfile]
    decide
  have hholds := hall twoHandles _ [(0, [1, 2, 3]), (1, [9])] [] hflags twoHandles_holds
    (.cons hi trivial hw (.cons hi' trivial hw' .nil))
  obtain ⟨z, hz, hlen⟩ := (fs.fat.FatFileSystem.arrays latinTable).size _ _ hholds
  cases hsize.symm.trans hz
  cases hlen

end Latin

end zenos_kernel.disk.vfs
