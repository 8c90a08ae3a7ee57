-- The sizes of the two drivers. Both set the size of a file to the end of a write
-- that passes it, and `truncate` sets it to what it is asked for, both in 32 bits.
import Zenos.Disk.FileSize
import Zenos.Disk.OpenModes
import Zenos.Ext2.ByteArray
import Zenos.Ext2.ReadOnly

/-! ## FAT -/

namespace zenos_kernel.disk.fs.fat

open Outcome vfs

namespace FatFile

variable {f : FatFile}

theorem keeps_locked_data {α : Type} (x : FatM α) :
    Keeps FatFile.toFatFileData (locked x) := keeps_zoom (by intros; rfl) x

theorem keeps_sync_entry : Keeps FatFile.toFatFileData sync_entry :=
  keeps_get_bind fun _ => keeps_locked_data _

variable (f : FatFile)

/-- What a write goes by besides the volume: the size and the cursor. -/
theorem ends_allocate_first_size :
    Yields (allocate_first f) (fun _ f' => f'.entry.file_size = f.entry.file_size ∧
      f'.cursor = f.cursor) := by
  unfold allocate_first
  rw [get_bind]
  split
  · refine ends_bind (keeps_locked_data _ f).forget ?_
    intro c f1 h1
    change f1.entry.file_size = _ ∧ f1.cursor = _
    rw [h1]
    exact ⟨rfl, rfl⟩
  · exact ends_pure ⟨rfl, rfl⟩

theorem ends_grow_size :
    Yields (grow f) (fun _ f' => f'.entry.file_size =
      if f.cursor ≤ f.entry.file_size.toNat then f.entry.file_size else UInt32.ofNat f.cursor) := by
  unfold grow
  rw [get_bind]
  split
  · rw [if_neg (by omega)]
    refine (keeps_sync_entry _).forget.mono_ok ?_
    intro _ f' h
    rw [h]
    rfl
  · rw [if_pos (by omega)]
    exact ends_pure rfl

theorem ends_write_size (offset : Nat) (buf : List UInt8) :
    Yields (write offset buf f) (fun n f' => n = buf.length ∧
      f'.entry.file_size = grown f.entry.file_size offset buf) := by
  unfold write grown
  rw [modify_bind]
  split
  · rename_i hbuf
    rw [if_pos (Or.inl hbuf), hbuf]
    exact ends_pure ⟨rfl, rfl⟩
  rename_i hbuf
  refine ends_bind (ends_allocate_first_size _) ?_
  rintro _ f1 ⟨hsize1, hcursor1⟩
  rw [get_bind]
  refine ends_bind (keeps_locked_data _ f1).forget ?_
  intro _ f2 h2
  refine ends_bind (Q := fun _ f3 => f3.entry = f2.entry ∧ f3.cursor = offset + buf.length) ?_ ?_
  · unfold advance
    rw [get_bind]
    split
    · refine ⟨rfl, ?_⟩
      rw [h2, hcursor1]
      rfl
    · exact trivial
  · rintro _ f3 ⟨hentry3, hcursor3⟩
    refine ends_bind (ends_grow_size f3) ?_
    intro _ f4 h4
    refine ends_pure ⟨rfl, ?_⟩
    rw [h4, hcursor3, hentry3, h2, hsize1]
    simp only [hbuf, false_or]
    rfl

theorem ends_truncate_size (size : Nat) :
    Yields (truncate size f) (fun _ f' => f'.entry.file_size = UInt32.ofNat size) := by
  refine ends_bind (yields_true _) fun bytes f1 _ => ?_
  rw [modify_bind]
  refine ends_bind (yields_true _) fun _ f2 _ => ?_
  refine (keeps_sync_entry _).forget.mono_ok ?_
  intro _ f' h
  rw [h]
  rfl

end FatFile

namespace FatFileSystem

def file_size : FatData → Option UInt32
  | .file f => some f.entry.file_size
  | .dir _ => none

/-- The clusters of a file are as many as its size needs. -/
def Complete (p : FatFileSystem × FatData) : Prop :=
  ∃ f, p.2 = .file f ∧ p.1.inner.volume.Layout ∧
    ∃ l, p.1.inner.volume.IsChain f.entry.first_cluster l ∧
      f.entry.file_size.toNat ≤ l.length * p.1.inner.volume.cluster_size

variable {α : Type} {p : FatFileSystem × FatData} {z : UInt32}

theorem file_of_size {data : FatData} (h : file_size data = some z) :
    ∃ f, data = .file f ∧ f.entry.file_size = z := by
  cases data with
  | dir d => cases h
  | file f => exact ⟨f, rfl, Option.some.inj h⟩

/-- A call of a file. -/
theorem ends_by_kind {f : FatFileData} (hp : p.2 = .file f) {file : FileM α}
    {dir : FatDirectory → FsM α} {Q : α → FatFileSystem × FatData → Prop}
    (h : Yields (file { toFatFileData := f, inner := p.1.inner })
      (fun a f' => Q a ({ p.1 with inner := f'.inner }, .file f'.toFatFileData))) :
    Yields (by_kind file dir p) Q := by
  unfold by_kind
  rw [get_bind, hp]
  exact ends_zoom h

theorem ends_on_volume_data {x : FsM α} : Yields (on_volume x p) (fun _ p' => p'.2 = p.2) :=
  (keeps_zoom (by intros; rfl) x : Keeps Prod.snd (on_volume x)) p |>.forget

theorem ends_stat_of (ino : UInt64) (mode : UInt32) (nlink : UInt64) (size : Nat)
    (s : FatFileSystemInner) :
    Yields (stat_of ino mode nlink size s) (fun st _ => st.st_size = size) := by
  unfold stat_of
  rw [get_bind]
  exact ends_bind (yields_true _) fun dev_id s1 _ => ends_pure rfl

def sized (table : CaseTable) : @Sized FatFileSystem FatData (inodeOps table) :=
  let _ := inodeOps table
  { size := file_size
    Complete := Complete
    write := by
      intro p z offset buf hz
      obtain ⟨f, hp, hf⟩ := file_of_size hz
      refine ends_by_kind hp ((FatFile.ends_write_size _ offset buf).mono ?_ ?_)
      · rintro n f' ⟨hn, hsize⟩
        refine ⟨hn, congrArg some ?_⟩
        rw [hsize, ← hf]
      · exact fun _ _ h => h
    truncate := by
      intro p z n hz
      obtain ⟨f, hp, -⟩ := file_of_size hz
      refine ends_by_kind hp ((FatFile.ends_truncate_size _ n).mono ?_ ?_)
      · exact fun _ f' hsize => congrArg some hsize
      · exact fun _ _ h => h
    sync := by
      intro p
      change Ends (by_kind FatFile.sync _ p) _ _
      unfold by_kind
      rw [get_bind]
      cases hp : p.2 with
      | dir d => exact ends_on_volume_data.mono_ok (fun _ _ h => by rw [h, hp])
      | file f =>
        refine ends_zoom ((FatFile.keeps_sync_entry _).forget.mono_ok ?_)
        intro _ f' h
        rw [h]
    current_time := fun p => ends_on_volume_data.mono_ok (fun _ _ h => congrArg _ h)
    stat := by
      intro p z hz
      change Ends (stat p) _ _
      obtain ⟨f, hp, rfl⟩ := file_of_size hz
      unfold stat
      rw [get_bind, hp]
      exact ends_zoom (ends_zoom (ends_stat_of _ _ _ _ _))
    read := by
      rintro p z hz ⟨f, hf, hlayout, l, hchain, hroom⟩
      rw [hf] at hz
      cases hz
      refine ends_by_kind hf ((FatFile.ends_read (f := { toFatFileData := f, inner := p.1.inner })
        hlayout hchain hroom 0 f.entry.file_size.toNat).forget.mono_ok ?_)
      rintro bytes f1 ⟨-, -, -, rfl⟩
      rw [Volume.length_content]
      simp }

end FatFileSystem

end zenos_kernel.disk.fs.fat

/-! ## ext2 -/

namespace zenos_kernel.disk.fs.ext2

open Outcome vfs Ext2FSInner

namespace ExtFileInodeOps

variable {f : ExtFileInodeOps}

def i_size (f : ExtFileInodeOps) : UInt32 := f.ext2inode.i_size

theorem keeps_size_locked {α : Type} (x : Ext2M α) : Keeps i_size (locked x) :=
  keeps_zoom (by intros; rfl) x

theorem keeps_size_add_blocks : Keeps i_size add_blocks := by
  refine keeps_get_bind fun f => ?_
  dsimp only
  split
  · exact keeps_modify fun _ => rfl
  · exact keeps_throw _

theorem keeps_size_zero_block (zeroed : Bool) (new_block : UInt32) :
    Keeps i_size (zero_block zeroed new_block) := by
  refine keeps_get_bind fun f => ?_
  split
  · exact keeps_size_locked _
  · exact keeps_pure _

theorem keeps_size_fill_slot (k : Fin 15) (zeroed : Bool) : Keeps i_size (fill_slot k zeroed) := by
  refine keeps_get_bind fun f => ?_
  split
  · refine keeps_bind (keeps_size_locked _) fun new_block => ?_
    refine keeps_bind (keeps_modify fun _ => rfl) fun _ => ?_
    exact keeps_bind keeps_size_add_blocks fun _ => keeps_size_zero_block zeroed new_block
  · exact keeps_pure _

theorem keeps_size_fill_entry (block : UInt32) (index : Nat) (zeroed : Bool) :
    Keeps i_size (fill_entry block index zeroed) := by
  refine keeps_bind (keeps_size_locked _) fun read => ?_
  dsimp only
  split
  · refine keeps_bind (keeps_size_locked _) fun new_block => ?_
    refine keeps_bind keeps_size_add_blocks fun _ => ?_
    refine keeps_bind (keeps_size_zero_block zeroed new_block) fun _ => ?_
    exact keeps_bind (keeps_size_locked _) fun _ => keeps_pure _
  · exact keeps_pure _

theorem keeps_size_get_or_alloc_block (block_index : Nat) :
    Keeps i_size (get_or_alloc_block block_index) := by
  refine keeps_get_bind fun f => ?_
  dsimp only
  split
  · refine keeps_bind (keeps_size_fill_slot _ _) fun _ => ?_
    exact keeps_get_bind fun _ => keeps_pure _
  split
  · refine keeps_bind (keeps_size_fill_slot _ _) fun _ => ?_
    exact keeps_get_bind fun _ => keeps_size_fill_entry _ _ _
  · split
    · refine keeps_bind (keeps_size_fill_slot _ _) fun _ => ?_
      refine keeps_get_bind fun _ => ?_
      exact keeps_bind (keeps_size_fill_entry _ _ _) fun _ => keeps_size_fill_entry _ _ _
    · exact keeps_throw _

theorem keeps_size_write_loop (fuel current_offset : Nat) (buf : List UInt8) :
    Keeps i_size (write_loop fuel current_offset buf) := by
  induction fuel generalizing current_offset buf with
  | zero => exact keeps_pure _
  | succ fuel ih =>
    unfold write_loop
    split
    · exact keeps_pure _
    · refine keeps_get_bind fun f => ?_
      refine keeps_bind (keeps_size_get_or_alloc_block _) fun block_num => ?_
      refine keeps_bind (keeps_size_locked _) fun block_buf => ?_
      exact keeps_bind (keeps_size_locked _) fun _ => ih _ _

theorem keeps_size_touch : Keeps i_size touch := by
  refine keeps_bind (keeps_size_locked _) fun now => ?_
  refine keeps_bind (keeps_modify fun _ => rfl) fun _ => ?_
  exact keeps_get_bind fun _ => keeps_size_locked _

variable (f : ExtFileInodeOps)

theorem ends_write_size (offset : Nat) (buf : List UInt8) :
    Yields (write offset buf f) (fun n f' => n = buf.length ∧
      f'.i_size = grown f.i_size offset buf) := by
  unfold write grown
  rw [get_bind]
  split
  · exact trivial
  split
  · rename_i hbuf
    rw [if_pos (Or.inl hbuf), hbuf]
    exact ends_pure ⟨rfl, rfl⟩
  rename_i hbuf
  refine ends_bind (keeps_size_write_loop _ _ _ f).forget ?_
  intro _ f1 h1
  rw [modify_bind]
  refine ends_bind (keeps_size_touch _).forget ?_
  intro _ f2 h2
  refine ends_pure ⟨rfl, ?_⟩
  simp only [hbuf, false_or]
  rw [h2, ← h1]
  change (if f1.i_size.toNat < _ then _ else f1).i_size = _
  by_cases hlt : f1.i_size.toNat < offset + buf.length
  · rw [if_pos hlt, if_neg (Nat.not_le.mpr hlt)]
    rfl
  · rw [if_neg hlt, if_pos (Nat.not_lt.mp hlt)]

theorem ends_truncate_size (size : Nat) :
    Yields (truncate size f) (fun _ f' => f'.i_size = UInt32.ofNat size) := by
  unfold truncate
  rw [get_bind]
  split
  · exact trivial
  · split
    · exact (keeps_size_touch (f.set_size _)).forget
    · refine ends_bind (yields_true _) fun data_blocks f1 _ => ?_
      refine ends_bind (yields_true _) fun _ f2 _ => ?_
      rw [modify_bind]
      refine ends_bind (yields_true _) fun _ f3 _ => ?_
      exact (keeps_size_touch (f3.set_size _)).forget

variable {f}

/-! ### Reading -/

theorem ends_read_chunk_length (s : Ext2FSInner) (block_num : UInt32) (offset_in_block n : Nat) :
    Yields (read_chunk block_num offset_in_block n s)
      (fun bytes s' => bytes.length = n ∧ s'.bs = s.bs) := by
  unfold read_chunk
  split
  · exact ends_pure ⟨List.length_replicate, rfl⟩
  · rw [get_bind]
    refine ends_bind (s.ends_u64 _).forget ?_
    rintro offset s1 ⟨rfl, rfl⟩
    refine (s1.ends_read_at _ _).forget.mono_ok ?_
    rintro bytes s2 ⟨hv, rfl⟩
    have hbs : s2.volume.bs = s1.volume.bs := by rw [hv]
    exact ⟨Bytes.length_slice _ _ _, hbs⟩

/-- Blocks that reach to the end give all bytes. -/
theorem ends_read_loop_length {data_blocks : List UInt32} (s : Ext2FSInner) (hbs : 0 < s.bs)
    {fuel current_offset left : Nat} (hfuel : left ≤ fuel)
    (hroom : current_offset + left ≤ data_blocks.length * s.bs) :
    Yields (read_loop data_blocks fuel current_offset left s)
      (fun bytes _ => bytes.length = left) := by
  induction fuel generalizing s current_offset left with
  | zero =>
    have hleft : left = 0 := by omega
    subst hleft
    exact ends_pure rfl
  | succ fuel ih =>
    unfold read_loop
    split
    · rename_i hleft
      exact ends_pure hleft.symm
    have hmod := Nat.mod_lt current_offset hbs
    have hblock : current_offset / s.bs < data_blocks.length := by
      rw [Nat.div_lt_iff_lt_mul hbs]
      omega
    rw [get_bind]
    rw [if_neg (by omega)]
    refine ends_bind (ends_read_chunk_length s _ _ _) ?_
    rintro chunk s1 ⟨hchunk, hbs1⟩
    refine ends_bind (ih s1 (by omega) (by omega) (by rw [hbs1]; omega)) ?_
    intro rest s2 hrest
    refine ends_pure ?_
    rw [List.length_append]
    omega

/-- The blocks that `read` finds are as many as the size needs. -/
def Complete (s : Ext2FSInner) (ino : Ext2Inode) : Prop :=
  0 < s.bs ∧ ∀ blocks s', collect_data_blocks ino s = .ok blocks s' →
    ino.i_size.toNat ≤ blocks.length * s.bs

theorem ends_read_length (h : Complete f.inner f.ext2inode) :
    Yields (read 0 f.i_size.toNat f) (fun bytes _ => bytes.length = f.i_size.toNat) := by
  have hmin : min f.i_size.toNat (f.ext2inode.i_size.toNat - 0) = f.i_size.toNat :=
    Nat.min_self f.i_size.toNat
  unfold read
  rw [get_bind, hmin]
  split
  · refine ends_pure ?_
    rw [List.length_nil]
    omega
  refine ends_bind (Q := fun blocks f1 => f.i_size.toNat ≤ blocks.length * f.bs ∧
    f1.bs = f.bs) ?_ ?_
  · refine ends_zoom ?_
    have hkeeps := keeps_collect_data_blocks f.ext2inode f.inner
    cases hr : collect_data_blocks f.ext2inode f.inner with
    | ok blocks s =>
      rw [hr] at hkeeps
      have hbs : s.volume.bs = f.inner.volume.bs := by rw [hkeeps.of_ok rfl]
      exact ⟨h.2 blocks s hr, hbs⟩
    | error e s => trivial
  · rintro blocks f1 ⟨hroom, hbs⟩
    refine ends_bind (Q := fun bytes _ => bytes.length = f.i_size.toNat) ?_ ?_
    · refine ends_zoom ?_
      refine ends_read_loop_length f1.inner ?_ (Nat.le_refl _) ?_
      · rw [show f1.inner.bs = f.bs from hbs]
        exact h.1
      · change _ ≤ blocks.length * f1.bs
        rw [hbs]
        omega
    · intro bytes f2 hlen
      exact ends_bind (yields_true _) fun _ _ _ => ends_pure hlen

end ExtFileInodeOps

def file_size : Ext2Data → Option UInt32
  | .file ino _ => some ino.i_size
  | .dir _ _ => none

variable {α : Type} {p : Ext2FSInner × Ext2Data} {z : UInt32}

theorem file_of_size {data : Ext2Data} (h : file_size data = some z) :
    ∃ ino num, data = .file ino num ∧ ino.i_size = z := by
  cases data with
  | dir ino num => cases h
  | file ino num => exact ⟨ino, num, rfl, Option.some.inj h⟩

theorem ends_by_kind {ino : Ext2Inode} {num : UInt32} (hp : p.2 = .file ino num) {file : FileM α}
    {dir : Ext2Inode → UInt32 → Ext2M α} {Q : α → Ext2FSInner × Ext2Data → Prop}
    (h : Yields (file ⟨p.1, ino, num⟩)
      (fun a f' => Q a (f'.inner, .file f'.ext2inode f'.inode_num))) :
    Yields (by_kind file dir p) Q := by
  unfold by_kind
  rw [get_bind, hp]
  exact ends_zoom h

theorem ends_on_volume_data {x : Ext2M α} : Yields (on_volume x p) (fun _ p' => p'.2 = p.2) :=
  (keeps_zoom (by intros; rfl) x : Keeps Prod.snd (on_volume x)) p |>.forget

theorem ends_stat_size (ino : Ext2Inode) (inode_num : UInt32) (s : Ext2FSInner) :
    Yields (stat ino inode_num s) (fun st _ => st.st_size = ino.i_size.toNat) := by
  unfold stat
  rw [get_bind]
  split
  · exact trivial
  · exact ends_pure rfl

def sized : Sized Ext2FSInner Ext2Data where
  size := file_size
  Complete p := ∃ ino num, p.2 = .file ino num ∧ ExtFileInodeOps.Complete p.1 ino
  write := by
    intro p z offset buf hz
    obtain ⟨ino, num, hp, hino⟩ := file_of_size hz
    refine ends_by_kind hp ((ExtFileInodeOps.ends_write_size _ offset buf).mono_ok ?_)
    rintro n f' ⟨hn, hsize⟩
    refine ⟨hn, congrArg some ?_⟩
    rw [← hino]
    exact hsize
  truncate := by
    intro p z n hz
    obtain ⟨ino, num, hp, -⟩ := file_of_size hz
    refine ends_by_kind hp ((ExtFileInodeOps.ends_truncate_size _ n).mono_ok ?_)
    exact fun _ f' hsize => congrArg some hsize
  sync := by
    intro p
    change Ends (by_kind ExtFileInodeOps.sync _ p) _ _
    unfold by_kind
    rw [get_bind]
    cases hp : p.2 with
    | dir ino num => exact ends_on_volume_data.mono_ok (fun _ _ h => by rw [h, hp])
    | file ino num =>
      have hsync : Keeps ExtFileInodeOps.i_size ExtFileInodeOps.sync :=
        keeps_get_bind fun _ => ExtFileInodeOps.keeps_size_locked _
      refine ends_zoom ((hsync _).forget.mono_ok ?_)
      exact fun _ f' h => congrArg some h
  current_time := fun p => ends_on_volume_data.mono_ok (fun _ _ h => congrArg _ h)
  stat := by
    intro p z hz
    change Ends ((get >>= fun p => match p.2 with
      | .file ino num => on_volume (stat ino num)
      | .dir ino num => on_volume (stat ino num) : DriverM Ext2FSInner Ext2Data Stat) p) _ _
    obtain ⟨ino, num, hp, rfl⟩ := file_of_size hz
    rw [get_bind, hp]
    exact ends_zoom (ends_stat_size ino num p.1)
  read := by
    rintro p z hz ⟨ino, num, hp, hcomplete⟩
    rw [hp] at hz
    cases hz
    refine ends_by_kind hp ?_
    exact ExtFileInodeOps.ends_read_length (f := ⟨p.1, ino, num⟩) hcomplete

end zenos_kernel.disk.fs.ext2

namespace zenos_kernel.disk.vfs

open Outcome syscall

/-! ## One size -/

namespace SharedInode

variable {σ δ : Type} {_ : InodeOps σ δ} (law : Sized σ δ) (s : SharedInode σ δ)

/-- In every run of calls that return `Ok`, the sizes stay one exactly when each call fits. -/
def StaysOne : Prop :=
  ∀ run, SharedInode.Run s run → ((∀ x ∈ run, x.2.Agrees law) ↔ s.RunFits run)

/-- `seek` to the end is the size that `stat` gives. -/
def SeeksSize (_ : Sized σ δ) : Prop :=
  ∀ file n o st p, OpenFile.seek (.End 0) (s.opened file) = .ok n o →
    InodeOps.stat (s.fs, s.inode.data) = .ok st p → (n : Int) = st.st_size

/-- The blocks of the file are as many as its size needs. -/
def IsComplete : Prop := law.Complete (s.fs, s.inode.data)

/-- `exec` gets all bytes of the file when the driver reads them. -/
def ReadsWhole (_ : Sized σ δ) : Prop :=
  ∀ bytes p, InodeOps.read 0 s.inode.size.toNat (s.fs, s.inode.data) = .ok bytes p →
    ∃ p', exec_read (s.fs, s.inode) = .ok bytes p'

variable {law s}

theorem Agrees.one_size (h : s.Agrees law) :
    s.StaysOne law ∧ s.SeeksSize law ∧ (s.IsComplete law → s.ReadsWhole law) :=
  ⟨fun _ => h.run, fun _ _ _ _ _ => h.seek_end, fun hc _ _ => h.exec_read hc⟩

end SharedInode

/-- The sizes of an inode of ext2 or FAT are one exactly as long as no call changes the
size that the driver keeps, `open` apart. -/
theorem one_size_iff_fits (table : fs.fat.CaseTable)
    {s : SharedInode fs.ext2.Ext2FSInner fs.ext2.Ext2Data}
    {t : SharedInode fs.fat.FatFileSystem fs.fat.FatData} (hs : s.Agrees fs.ext2.sized)
    (ht : t.Agrees (fs.fat.FatFileSystem.sized table)) :
    (s.StaysOne fs.ext2.sized ∧ s.SeeksSize fs.ext2.sized ∧
      (s.IsComplete fs.ext2.sized → s.ReadsWhole fs.ext2.sized)) ∧
    t.StaysOne (fs.fat.FatFileSystem.sized table) ∧
      t.SeeksSize (fs.fat.FatFileSystem.sized table) ∧
      (t.IsComplete (fs.fat.FatFileSystem.sized table) →
        t.ReadsWhole (fs.fat.FatFileSystem.sized table)) :=
  ⟨hs.one_size, ht.one_size⟩

section Latin

local instance : InodeOps fs.fat.FatFileSystem fs.fat.FatData :=
  fs.fat.FatFileSystem.inodeOps latinTable

def latinSized : Sized fs.fat.FatFileSystem fs.fat.FatData :=
  fs.fat.FatFileSystem.sized latinTable

variable (size : UInt32)

/-- A file of `size` bytes in one cluster, with a handle at its start. -/
def sharedFile : SharedInode fs.fat.FatFileSystem fs.fat.FatData where
  fs := (emptyFile READ_WRITE 0o600).fs
  inode := { (emptyFile READ_WRITE 0o600).inode with
    size := size.toUInt64
    data := .file ((fs.fat.FatFile.oneFile 0).set_size size |>.set_first_cluster 2).toFatFileData }
  files := [(emptyFile READ_WRITE 0o600).file]

theorem sharedFile_agrees : (sharedFile size).Agrees latinSized :=
  ⟨size, rfl, UInt32.toNat_toUInt64 size⟩

/-- The write to the file returns, in a state that passes the test. -/
def written (buf : List UInt8)
    (test : Opened fs.fat.FatFileSystem fs.fat.FatData → Bool) : Bool :=
  passes (OpenFile.write buf ((sharedFile size).opened (emptyFile READ_WRITE 0o600).file))
    (fun _ o => test o)

theorem step_of_written {size : UInt32} {buf : List UInt8}
    {test : Opened fs.fat.FatFileSystem fs.fat.FatData → Bool} (h : written size buf test = true) :
    ∃ o, (sharedFile size).Step (.write 0 buf) ((sharedFile size).after 0 o) ∧ test o = true := by
  obtain ⟨n, o, ho, htest⟩ := exists_of_passes h
  exact ⟨o, .write rfl ho, htest⟩

open fs.ext2.ExtFileInodeOps in
/-- An empty file of ext2. -/
def sharedEmpty : SharedInode fs.ext2.Ext2FSInner fs.ext2.Ext2Data where
  fs := smallVolume
  inode := ⟨5, .File, 0, 0o600, 1, 0, 0, 0, 0, 0, .file emptyInode 5⟩
  files := []

/-- The first byte of three is replaced. The end of an empty file is at 0. -/
theorem a_byte_inside_fits : (∃ s', (sharedFile 3).Step (.write 0 [9]) s' ∧
    s'.Agrees latinSized) ∧ sharedEmpty.SeeksSize fs.ext2.sized := by
  have hwritten : written 3 [9] (fun _ => true) = true := by decide +kernel
  obtain ⟨o, hstep, -⟩ := step_of_written hwritten
  obtain ⟨⟨-, hseek, -⟩, hrun, -⟩ := one_size_iff_fits latinTable (s := sharedEmpty)
    ⟨0, rfl, rfl⟩ (sharedFile_agrees 3)
  refine ⟨⟨_, hstep, (hrun _ (.cons hstep .nil)).mpr ⟨?_, trivial⟩ _ List.mem_cons_self⟩, hseek⟩
  intro file hfile
  cases hfile
  right
  left
  decide

/-- A byte is written to an empty file: its inode keeps the size 0. -/
theorem a_write_parts_the_sizes : ∃ s', (sharedFile 0).Agrees latinSized ∧
    (sharedFile 0).Step (.write 0 [9]) s' ∧ ¬s'.Agrees latinSized := by
  have hwritten : written 0 [9] (fun o => o.inode.size == 0 &&
      fs.fat.FatFileSystem.file_size o.inode.data == some 1) = true := by decide +kernel
  obtain ⟨o, hstep, htest⟩ := step_of_written hwritten
  rw [Bool.and_eq_true, beq_iff_eq, beq_iff_eq] at htest
  refine ⟨_, sharedFile_agrees 0, hstep, ?_⟩
  rintro ⟨z, hz, hsize⟩
  cases htest.2.symm.trans hz
  change o.inode.size.toNat = 1 at hsize
  rw [htest.1] at hsize
  cases hsize

end Latin

/-! ## Sizes that do not fit -/

/-- A call that sets the size of a file. -/
inductive Resize
  | write (offset : Nat) (buf : List UInt8)
  | truncate (size : Nat)

namespace Resize

variable {σ δ : Type}

/-- The call, with the number of bytes that it writes. -/
def run [InodeOps σ δ] : Resize → DriverM σ δ Nat
  | write offset buf => InodeOps.write offset buf
  | truncate size => do
    InodeOps.truncate size
    pure 0

def len : Resize → Nat
  | write _ buf => buf.length
  | truncate _ => 0

/-- The size that a file of `z` bytes should get from `n` bytes. -/
def asked (z : UInt32) (n : Nat) : Resize → Nat
  | write offset _ => max z.toNat (offset + n)
  | truncate size => size

/-- The size is the one that was asked for, and stays when that one does not fit. -/
structure Exact {_ : InodeOps σ δ} (law : Sized σ δ) (p : σ × δ) (z : UInt32) (r : Resize) :
    Prop where
  ok : ∀ n p', r.run p = .ok n p' → ∃ z', law.size p'.2 = some z' ∧ z'.toNat = r.asked z n
  error : ∀ e p', r.run p = .error e p' → UInt32.size ≤ r.asked z r.len → law.size p'.2 = some z

/-- The size that is asked for fits, and a call without bytes asks for none. -/
def Fits (z : UInt32) : Resize → Prop
  | write offset buf => offset + buf.length < UInt32.size ∧ (buf = [] → offset ≤ z.toNat)
  | truncate size => size < UInt32.size

/-- The call returns `Ok`. -/
def Returns {_ : InodeOps σ δ} (_ : Sized σ δ) (p : σ × δ) (r : Resize) : Prop :=
  ∃ n p', r.run p = .ok n p'

variable {_ : InodeOps σ δ} {law : Sized σ δ} {p : σ × δ} {z : UInt32} {r : Resize}

theorem grown_eq_max_iff {offset : Nat} {buf : List UInt8} :
    (grown z offset buf).toNat = max z.toNat (offset + buf.length) ↔
      offset + buf.length < UInt32.size ∧ (buf = [] → offset ≤ z.toNat) := by
  have hz := z.toNat_lt_size
  unfold grown
  split
  · rename_i h
    rcases h with rfl | hle
    · simp
      omega
    · simp [Nat.max_eq_left hle]
      omega
  · rename_i h
    obtain ⟨hbuf, hlt⟩ := not_or.mp h
    rw [Nat.max_eq_right (by omega)]
    simp only [hbuf, false_implies, and_true]
    exact Nat.mod_eq_iff_lt (by decide)

theorem Fits.lt (h : r.Fits z) : r.asked z r.len < UInt32.size := by
  cases r with
  | write offset buf => exact Nat.max_lt.mpr ⟨z.toNat_lt_size, h.1⟩
  | truncate size => exact h

theorem ends_run (hz : law.size p.2 = some z) : Yields (r.run p)
    (fun n p' => ∃ z', law.size p'.2 = some z' ∧ (z'.toNat = r.asked z n ↔ r.Fits z)) := by
  cases r with
  | write offset buf =>
    refine (law.write p z offset buf hz).mono_ok ?_
    rintro n p' ⟨rfl, hsize⟩
    exact ⟨_, hsize, grown_eq_max_iff⟩
  | truncate size =>
    refine ends_bind (law.truncate p z size hz) fun _ p' hsize => ⟨_, hsize, ?_⟩
    exact Nat.mod_eq_iff_lt (by decide)

theorem Fits.exact (h : r.Fits z) (hz : law.size p.2 = some z) : r.Exact law p z := by
  refine ⟨fun n p' hr => ?_, fun _ _ _ hbig => absurd h.lt (Nat.not_lt.mpr hbig)⟩
  obtain ⟨z', hz', hiff⟩ := (ends_run hz).of_ok hr
  exact ⟨z', hz', hiff.mpr h⟩

theorem Returns.exact_iff (h : r.Returns law p) (hz : law.size p.2 = some z) :
    r.Exact law p z ↔ r.Fits z := by
  refine ⟨fun hexact => ?_, fun hfits => hfits.exact hz⟩
  obtain ⟨n, p', hr⟩ := h
  obtain ⟨z', hz', hiff⟩ := (ends_run hz).of_ok hr
  obtain ⟨z1, hz1, hasked⟩ := hexact.ok n p' hr
  cases hz1.symm.trans hz'
  exact hiff.mp hasked

end Resize

end zenos_kernel.disk.vfs
