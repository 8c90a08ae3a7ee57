-- A volume that is mounted read-only. `write` and `truncate` refuse it, but
-- `sync` of a file does not ask, and `OpenFile::read` calls `sync`.
import Zenos.Ext2.Mount

namespace zenos_kernel.disk.fs.ext2

open Outcome block Ext2FSInner vfs ExtDirInodeOps OpenFile

/-! ## Calls that only read the volume -/

namespace Ext2FSInner

theorem keeps_on_device {α : Type} {x : EStateM BlockError Device α} (e : FileError)
    (hx : ∀ d, Ends (x d) (fun _ d' => Device.Same d d') (fun _ d' => Device.Failed d d')) :
    Keeps volume (on_device x e) := by
  intro s
  refine (ends_on_device (Q := fun _ _ => True) ((hx s.device).mono_ok ?_)).mono ?_ ?_
  · exact fun _ _ h => ⟨h, trivial⟩
  · exact fun _ _ h => h.1
  · exact fun _ _ h => h.1

theorem keeps_read_at (offset len : Nat) : Keeps volume (read_at offset len) := by
  intro s
  exact (s.ends_read_at offset len).mono (fun _ _ h => h.1) (fun _ _ h => h.1)

theorem keeps_u64 (n : Nat) : Keeps volume (u64 n) := by
  unfold u64
  split
  · exact keeps_pure _
  · exact keeps_throw _

theorem keeps_block_offset (block_num : UInt32) : Keeps volume (block_offset block_num) :=
  keeps_get_bind (fun _ => keeps_u64 _)

theorem keeps_read_block_u32_array (block : UInt32) : Keeps volume (read_block_u32_array block) :=
  keeps_get_bind (fun _ => keeps_bind (keeps_get_bind fun _ =>
    keeps_bind (keeps_block_offset _) fun _ => keeps_read_at _ _) (fun _ => keeps_pure _))

theorem keeps_gather {f : UInt32 → Ext2M (List UInt32)} (hf : ∀ b, Keeps volume (f b))
    (bs : List UInt32) : Keeps volume (gather f bs) := by
  induction bs with
  | nil => exact keeps_pure _
  | cons b bs ih =>
    unfold gather
    split
    · exact keeps_bind (hf b) (fun _ => keeps_bind ih (fun _ => keeps_pure _))
    · exact ih

theorem keeps_pointers_below (level : Nat) (b : UInt32) : Keeps volume (pointers_below level b) := by
  induction level generalizing b with
  | zero => exact keeps_read_block_u32_array b
  | succ level ih =>
    exact keeps_bind (keeps_read_block_u32_array b) (fun ptrs => keeps_gather ih ptrs)

theorem keeps_collect_data_blocks (ino : Ext2Inode) : Keeps volume (collect_data_blocks ino) := by
  apply keeps_bind (keeps_gather (keeps_pointers_below 0) _)
  intro _
  apply keeps_bind (keeps_gather (keeps_pointers_below 1) _)
  intro _
  exact keeps_bind (keeps_gather (keeps_pointers_below 2) _) (fun _ => keeps_pure _)

theorem keeps_get_block_offset (inode_num : UInt32) :
    Keeps volume (get_block_offset_for_inode_num inode_num) := by
  apply keeps_get_bind
  intro s
  split
  · exact keeps_throw _
  · dsimp only
    split
    · exact keeps_throw _
    · exact keeps_u64 _

end Ext2FSInner

namespace ExtDirInodeOps

theorem keeps_gather_all {f : UInt32 → Ext2M (List UInt32)} (hf : ∀ b, Keeps volume (f b))
    (bs : List UInt32) : Keeps volume (gather_all f bs) := by
  induction bs with
  | nil => exact keeps_pure _
  | cons b bs ih => exact keeps_bind (hf b) (fun _ => keeps_bind ih (fun _ => keeps_pure _))

theorem keeps_pointers_below (level : Nat) (b : UInt32) : Keeps volume (pointers_below level b) := by
  induction level generalizing b with
  | zero => exact keeps_read_block_u32_array b
  | succ level ih =>
    exact keeps_bind (keeps_read_block_u32_array b) (fun ptrs => keeps_gather_all ih ptrs)

variable (ino : Ext2Inode)

theorem keeps_collect_data_blocks : Keeps volume (collect_data_blocks ino) := by
  have hslot : ∀ level b, Keeps volume (slot_pointers level b) := by
    intro level b
    unfold slot_pointers
    split
    · exact keeps_pointers_below level b
    · exact keeps_pure _
  apply keeps_bind (hslot 0 _)
  intro _
  apply keeps_bind (hslot 1 _)
  intro _
  exact keeps_bind (hslot 2 _) (fun _ => keeps_pure _)

theorem keeps_parse_block (block_buf : List UInt8) (fuel offset : Nat) :
    Keeps volume (parse_block block_buf fuel offset) := by
  induction fuel generalizing offset with
  | zero => exact keeps_pure _
  | succ fuel ih =>
    unfold parse_block
    split
    · exact keeps_pure _
    · split
      · exact keeps_throw _
      · exact keeps_pure _
      · dsimp only
        split
        · exact keeps_pure _
        · exact keeps_bind (ih _) (fun _ => keeps_pure _)

theorem keeps_parse_blocks (dir_size : Nat) (blocks : List UInt32) (bytes_read : Nat) :
    Keeps volume (parse_blocks dir_size blocks bytes_read) := by
  induction blocks generalizing bytes_read with
  | nil => exact keeps_pure _
  | cons block_ptr blocks ih =>
    unfold parse_blocks
    split
    · exact keeps_pure _
    apply keeps_get_bind
    intro s
    apply keeps_bind (keeps_block_offset _)
    intro _
    apply keeps_bind (keeps_on_device _ (fun d => (d.ends_seek _).mono_ok (fun _ _ h => h.1)))
    intro _
    apply keeps_bind (keeps_on_device _ (fun d =>
      (d.ends_read s.bs).mono_ok (fun _ _ h => h.1)))
    intro block_buf
    apply keeps_bind (keeps_parse_block _ _ _)
    intro parsed
    exact keeps_bind (ih _) (fun _ => keeps_pure _)

theorem keeps_get_dentries : Keeps volume (get_dentries ino) :=
  keeps_bind (keeps_collect_data_blocks ino) (fun _ => keeps_parse_blocks _ _ _)

theorem keeps_read_inode (inode_num : UInt32) (message : String) :
    Keeps volume (read_inode inode_num message) := by
  apply keeps_bind (keeps_get_block_offset _)
  intro _
  apply keeps_get_bind
  intro s
  apply keeps_bind (keeps_read_at _ _)
  intro buf
  split
  · exact keeps_throw _
  · exact keeps_pure _

theorem keeps_convert (ino_num : UInt64) (data : Ext2Data) :
    Keeps volume (convert_ext2_inode_to_vfs_inode ino ino_num data) := by
  unfold convert_ext2_inode_to_vfs_inode
  split
  · exact keeps_throw _
  · exact keeps_pure _

theorem keeps_lookup (name : String) : Keeps volume (lookup ino name) := by
  apply keeps_bind (keeps_get_dentries ino)
  intro entries
  split
  · exact keeps_throw _
  apply keeps_bind (keeps_read_inode _ _)
  intro ino
  split
  · exact keeps_convert _ _ _
  split
  · exact keeps_convert _ _ _
  split
  · exact keeps_throw _
  · exact keeps_throw _

theorem keeps_list_entries (is : List DirEntry) (offset : Nat) :
    Keeps volume (list_entries is offset) := by
  induction is generalizing offset with
  | nil => exact keeps_pure _
  | cons i is ih =>
    apply keeps_bind (keeps_read_inode _ _)
    intro ino
    refine keeps_bind ?_ (fun data => keeps_bind (keeps_convert _ _ _) (fun _ =>
      keeps_bind (ih _) (fun _ => keeps_pure _)))
    unfold ops_of
    split
    · exact keeps_pure _
    split
    · exact keeps_pure _
    · exact keeps_throw _

theorem keeps_read_dir : Keeps volume (read_dir ino) :=
  keeps_bind (keeps_get_dentries ino) (fun _ => keeps_list_entries _ _)

theorem keeps_create : Keeps volume create := by
  apply keeps_get_bind
  intro s
  split
  · exact keeps_throw _
  · exact keeps_throw _

end ExtDirInodeOps

theorem keeps_stat (ino : Ext2Inode) (inode_num : UInt32) : Keeps volume (stat ino inode_num) := by
  apply keeps_get_bind
  intro s
  dsimp only
  split
  · exact keeps_throw _
  · exact keeps_pure _

/-! ## The calls of the driver -/

/-- The call leaves the volume as it is. -/
def Quiet {α : Type} (x : DriverM Ext2FSInner Ext2Data α) (p : Ext2FSInner × Ext2Data) : Prop :=
  Ends (x p) (fun _ p' => p'.1.volume = p.1.volume) (fun _ p' => p'.1.volume = p.1.volume)

section Driver

variable {α : Type} {p : Ext2FSInner × Ext2Data}

theorem quiet_on_volume {x : Ext2M α} (hx : Keeps volume x) : Quiet (on_volume x) p :=
  ends_zoom (hx p.1)

/-- A call is quiet when that of the kind of inode is. -/
theorem quiet_by_kind {file : FileM α} {dir : Ext2Inode → UInt32 → Ext2M α}
    (hfile : ∀ ino num, p.2 = .file ino num →
      Always (file ⟨p.1, ino, num⟩) (fun f => f.inner.volume = p.1.volume))
    (hdir : ∀ ino num, Always (dir ino num p.1)
      (fun s => s.volume = p.1.volume)) : Quiet (by_kind file dir) p := by
  obtain ⟨s, data⟩ := p
  unfold Quiet by_kind
  rw [get_bind]
  cases data with
  | file ino num => exact ends_zoom (hfile ino num rfl)
  | dir ino num => exact ends_zoom (hdir ino num)

theorem quiet_stat : Quiet InodeOps.stat p := by
  obtain ⟨s, data⟩ := p
  cases data with
  | file ino num => exact quiet_on_volume (keeps_stat ino num)
  | dir ino num => exact quiet_on_volume (keeps_stat ino num)

theorem quiet_unlink (hro : p.1.read_only = true) (name : String) :
    Quiet (InodeOps.unlink name) p := by
  refine quiet_by_kind (fun _ _ _ => rfl) (fun _ _ => ?_)
  unfold unlink
  rw [get_bind, if_pos hro]
  rfl

theorem quiet_truncate (hro : p.1.read_only = true) (size : Nat) :
    Quiet (InodeOps.truncate size) p := by
  refine quiet_by_kind (fun ino num _ => ?_) (fun _ _ => rfl)
  unfold ExtFileInodeOps.truncate
  rw [get_bind, if_pos hro]
  rfl

theorem write_fails (hro : p.1.read_only = true) (offset : Nat) (buf : List UInt8) :
    Ends (InodeOps.write offset buf p) (fun _ _ => False)
      (fun _ p' => p'.1.volume = p.1.volume) := by
  obtain ⟨s, data⟩ := p
  cases data with
  | file ino num =>
    change Ends (on_file ino num (ExtFileInodeOps.write offset buf) (s, .file ino num)) _ _
    apply ends_zoom
    unfold ExtFileInodeOps.write
    rw [get_bind, if_pos hro]
    rfl
  | dir ino num => rfl

end Driver

/-! ## Sessions -/

/-- The inodes that were looked up, and the files opened on them. -/
structure Session where
  inner : Ext2FSInner
  inodes : List (Inode Ext2Data)
  files : List (Nat × OpenFile)

inductive Call
  | root_dir
  | lookup (i : Nat) (name : String)
  | read_dir (i : Nat)
  | stat (i : Nat)
  | truncate (i : Nat) (size : Nat)
  | sync (i : Nat)
  | create (i : Nat) (name : String) (kind : FileType) (perms : UInt16)
  | unlink (i : Nat) (name : String)
  | open_ (i : Nat) (file_open_options : UInt64)
  | seek (k : Nat) (target : SeekFrom)
  | read (k : Nat) (len : Nat)
  | write (k : Nat) (buf : List UInt8)

namespace Session

variable {α : Type}

/-- A call on inode `i`. What it returns may bring new inodes. -/
def call (s : Session) (i : Nat) (x : DriverM Ext2FSInner Ext2Data α)
    (found : α → List (Inode Ext2Data)) : Session :=
  match s.inodes[i]? with
  | none => s
  | some inode =>
    match x (s.inner, inode.data) with
    | .ok a p => { s with
        inner := p.1, inodes := s.inodes.set i { inode with data := p.2 } ++ found a }
    | .error _ p => { s with inner := p.1, inodes := s.inodes.set i { inode with data := p.2 } }

/-- A call on open file `k`. -/
def use (s : Session) (k : Nat) (x : OpenM Ext2FSInner Ext2Data α) : Session :=
  match s.files[k]? with
  | none => s
  | some (i, file) =>
    match s.inodes[i]? with
    | none => s
    | some inode =>
      let o := final (x ⟨s.inner, inode, file⟩)
      { inner := o.fs, inodes := s.inodes.set i o.inode, files := s.files.set k (i, o.file) }

def step (s : Session) : Call → Session
  | .root_dir =>
    match Ext2.root_dir s.inner with
    | .ok inode inner => { s with inner, inodes := s.inodes ++ [inode] }
    | .error _ inner => { s with inner }
  | .lookup i name => s.call i (InodeOps.lookup name) (fun inode => [inode])
  | .read_dir i => s.call i InodeOps.read_dir (fun entries => entries.map (·.inode))
  | .stat i => s.call i InodeOps.stat (fun _ => [])
  | .truncate i size => s.call i (InodeOps.truncate size) (fun _ => [])
  | .sync i => s.call i InodeOps.sync (fun _ => [])
  | .create i name kind perms => s.call i (InodeOps.create name kind perms) (fun inode => [inode])
  | .unlink i name => s.call i (InodeOps.unlink name) (fun _ => [])
  | .open_ i file_open_options => { s with files := s.files ++ [(i, ⟨0, file_open_options⟩)] }
  | .seek k target => s.use k (OpenFile.seek target)
  | .read k len => s.use k (OpenFile.read len)
  | .write k buf => s.use k (OpenFile.write buf)

def run (s : Session) (calls : List Call) : Session := calls.foldl step s

/-- The call does not come to `sync` of a file: it is neither that itself nor a
read of a file that the caller may read. -/
def NoFileSync (s : Session) : Call → Prop
  | .sync i => ∀ inode ∈ s.inodes[i]?, ∀ ino num, inode.data ≠ .file ino num
  | .read k _ => ∀ f ∈ s.files[k]?, ∀ inode ∈ s.inodes[f.1]?,
      f.2.may_read inode.perms = true → ∀ ino num, inode.data ≠ .file ino num
  | _ => True

/-- Every call of the run meets the condition in the state that it starts in. -/
def RunNoFileSync (s : Session) : List Call → Prop
  | [] => True
  | c :: calls => s.NoFileSync c ∧ (s.step c).RunNoFileSync calls

variable {s : Session} {file : OpenFile} {fs : Ext2FSInner} {inode : Inode Ext2Data}

theorem call_volume {i : Nat} {x : DriverM Ext2FSInner Ext2Data α}
    (found : α → List (Inode Ext2Data))
    (hx : ∀ inode, s.inodes[i]? = some inode → Quiet x (s.inner, inode.data)) :
    (s.call i x found).inner.volume = s.inner.volume := by
  unfold call
  cases hi : s.inodes[i]? with
  | none => rfl
  | some inode =>
    have h := hx inode hi
    unfold Quiet at h
    cases hr : x (s.inner, inode.data) with
    | ok a p => rw [hr] at h; simp only [hr]; exact h
    | error e p => rw [hr] at h; simp only [hr]; exact h

theorem use_volume {k : Nat} {x : OpenM Ext2FSInner Ext2Data α}
    (hx : ∀ i file inode, s.files[k]? = some (i, file) → s.inodes[i]? = some inode →
      Always (x ⟨s.inner, inode, file⟩) (fun o => o.fs.volume = s.inner.volume)) :
    (s.use k x).inner.volume = s.inner.volume := by
  unfold use
  cases hk : s.files[k]? with
  | none => rfl
  | some f =>
    obtain ⟨i, file⟩ := f
    cases hi : s.inodes[i]? with
    | none => simp only [hi]
    | some inode =>
      simp only [hi]
      exact (hx i file inode hk hi).final

/-- A read that is refused, or of a directory. -/
theorem read_volume (len : Nat)
    (h : file.may_read inode.perms = true → ∀ ino num, inode.data ≠ .file ino num) :
    Always (OpenFile.read len ⟨fs, inode, file⟩) (fun o => o.fs.volume = fs.volume) := by
  unfold OpenFile.read
  rw [get_bind]
  split
  · rename_i hmay
    have hdir := h hmay
    -- a directory answers `IsADirectory`
    have hread : Ends (on_data (InodeOps.read file.cursor len) (⟨fs, inode, file⟩ : Opened _ _))
        (fun _ _ => False) (fun _ o => o.fs.volume = fs.volume) := by
      refine ends_zoom ?_
      cases hd : inode.data with
      | file ino num => exact absurd hd (hdir ino num)
      | dir ino num => rfl
    exact ends_bind hread (fun _ _ hfalse => hfalse.elim)
  · rfl

theorem write_volume (hro : fs.read_only = true) (buf : List UInt8) :
    Always (write buf ⟨fs, inode, file⟩) (fun o => o.fs.volume = fs.volume) := by
  unfold write
  rw [get_bind]
  split
  · refine ends_bind (ends_zoom (Q := fun _ _ => False) ?_) (fun _ _ hfalse => hfalse.elim)
    exact write_fails (p := (fs, inode.data)) hro file.cursor buf
  · rfl

theorem seek_volume (target : SeekFrom) :
    Always (seek target ⟨fs, inode, file⟩) (fun o => o.fs.volume = fs.volume) := by
  unfold seek
  rw [get_bind]
  cases new_pos (⟨fs, inode, file⟩ : Opened _ _) target with
  | none => rfl
  | some pos => rfl

theorem keeps_root_dir : Keeps volume Ext2.root_dir := by
  apply keeps_bind (keeps_get_block_offset _)
  intro _
  apply keeps_get_bind
  intro s
  apply keeps_bind (Ext2FSInner.keeps_read_at _ _)
  intro buf
  split
  · exact keeps_throw _
  · exact keeps_convert _ _ _

/-- One call on a read-only volume that does not come to `sync` of a file. -/
theorem step_volume (hro : s.inner.read_only = true) {c : Call} (hc : s.NoFileSync c) :
    (s.step c).inner.volume = s.inner.volume := by
  cases c with
  | root_dir =>
    have h := keeps_root_dir s.inner
    unfold step
    revert h
    cases Ext2.root_dir s.inner with
    | ok inode fs => exact id
    | error e fs => exact id
  | lookup i name =>
    refine call_volume _ (fun inode _ => ?_)
    exact quiet_by_kind (fun _ _ _ => rfl) (fun ino _ => keeps_lookup ino name _)
  | read_dir i =>
    refine call_volume _ (fun inode _ => ?_)
    exact quiet_by_kind (fun _ _ _ => rfl) (fun ino _ => keeps_read_dir ino _)
  | stat i => exact call_volume _ (fun _ _ => quiet_stat)
  | truncate i size => exact call_volume _ (fun _ _ => quiet_truncate hro size)
  | sync i =>
    refine call_volume _ (fun inode hi => ?_)
    exact quiet_by_kind (fun ino num h => absurd h (hc inode hi ino num)) (fun _ _ => rfl)
  | create i name kind perms =>
    refine call_volume _ (fun inode _ => ?_)
    exact quiet_by_kind (fun _ _ _ => rfl) (fun _ _ => keeps_create _)
  | unlink i name => exact call_volume _ (fun _ _ => quiet_unlink hro name)
  | open_ i file_open_options => rfl
  | seek k target => exact use_volume (fun _ _ _ _ _ => seek_volume target)
  | read k len => exact use_volume (fun i file inode hk hi => read_volume len (hc (i, file) hk inode hi))
  | write k buf => exact use_volume (fun _ _ _ _ _ => write_volume hro buf)

theorem run_volume (hro : s.inner.read_only = true) {calls : List Call}
    (hcalls : s.RunNoFileSync calls) : (s.run calls).inner.volume = s.inner.volume := by
  induction calls generalizing s with
  | nil => rfl
  | cons c calls ih =>
    obtain ⟨hc, hrest⟩ := hcalls
    have hstep := step_volume hro hc
    have hro' : (s.step c).inner.read_only = true := (congrArg (·.read_only) hstep).trans hro
    exact (ih hro' hrest).trans hstep

end Session

/-! ## The law -/

/-- A read-only mount is not written, by the mount itself or by any call after
it, as long as no call comes to `sync` of a file. -/
theorem a_read_only_volume_is_not_written {partition_offset : Nat} {clock : Nat → UInt64}
    {readings : Nat} {d d' : Device} {inner : Ext2FSInner}
    (hmount : Ext2.mount partition_offset clock readings d = .ok inner d')
    (hro : inner.read_only = true) {calls : List Call}
    (hcalls : Session.RunNoFileSync ⟨inner, [], []⟩ calls) :
    (Session.run ⟨inner, [], []⟩ calls).inner.device.bytes = d.bytes := by
  have hrun := Session.run_volume hro hcalls
  have hbytes : (Session.run ⟨inner, [], []⟩ calls).inner.device.bytes = inner.device.bytes :=
    congrArg (·.bytes) hrun
  rw [hbytes]
  exact (Ext2.mount_ok hmount).2 hro

/-- A volume of eight blocks of 1024 bytes with an unknown `ro_compat` feature. The
root directory has one entry, the empty file `f`. -/
def readOnlyBytes : Nat → UInt8
  -- superblock: blk_count, first_data_blk, blocks_per_grp, inodes_per_grp, magic,
  -- first_ino, inode_size, feature_ro_compat
  | 1028 => 8
  | 1044 => 1
  | 1056 => 8
  | 1064 => 8
  | 1080 => 0x53
  | 1081 => 0xEF
  | 1108 => 11
  | 1112 => 128
  | 1124 => 2
  -- descriptor: the inode table is in block 3
  | 2056 => 3
  -- inode 2: a directory of 1024 bytes in block 4
  | 3201 => 0x41
  | 3205 => 4
  | 3240 => 4
  -- inode 3: an empty file that its owner may read
  | 3329 => 0x81
  -- the entry of inode 3
  | 4096 => 3
  | 4101 => 4
  | 4102 => 1
  | 4103 => 1
  | 4104 => 102
  | _ => 0

def readOnlyDevice : Device := ⟨readOnlyBytes, 0, 0, fun _ => false, 512⟩

/-- What the mount of that volume gives. -/
def readOnlyMount : EStateM.Result (Fault FsMountError) Device Ext2FSInner :=
  Ext2.mount 0 (fun _ => 0) 0 readOnlyDevice

/-- The mount is read-only, and a test of what it gave is passed. -/
def mountPasses (test : Ext2FSInner → Bool) : Bool :=
  match readOnlyMount with
  | .ok inner _ => inner.read_only && test inner
  | .error _ _ => false

theorem exists_of_mountPasses {test : Ext2FSInner → Bool} (h : mountPasses test = true) :
    ∃ inner d', Ext2.mount 0 (fun _ => 0) 0 readOnlyDevice = .ok inner d' ∧
      inner.read_only = true ∧ test inner = true := by
  unfold mountPasses at h
  cases hm : readOnlyMount with
  | ok inner d' =>
    rw [hm] at h
    exact ⟨inner, d', hm, Bool.and_eq_true_iff.mp h⟩
  | error e d' =>
    rw [hm] at h
    cases h

/-- The file is looked up, opened and refused to a writer, and no byte changes. -/
theorem a_refused_writer_changes_nothing : ∃ inner d',
    Ext2.mount 0 (fun _ => 0) 0 readOnlyDevice = .ok inner d' ∧ inner.read_only = true ∧
    (Session.run ⟨inner, [], []⟩ [.root_dir, .lookup 0 "f", .stat 1, .truncate 1 7, .open_ 1 3,
      .write 0 [7]]).inner.device.bytes = readOnlyDevice.bytes := by
  obtain ⟨inner, d', hmount, hro, _⟩ := exists_of_mountPasses
    (show mountPasses (fun _ => true) = true by decide +kernel)
  refine ⟨inner, d', hmount, hro, a_read_only_volume_is_not_written hmount hro ?_⟩
  exact ⟨trivial, trivial, trivial, trivial, trivial, trivial, trivial⟩

/-- A read of the file through an open file counts the mount in the superblock. -/
theorem a_read_writes_a_read_only_volume : ∃ inner d',
    Ext2.mount 0 (fun _ => 0) 0 readOnlyDevice = .ok inner d' ∧ inner.read_only = true ∧
    (Session.run ⟨inner, [], []⟩ [.root_dir, .lookup 0 "f", .open_ 1 0,
      .read 0 1]).inner.device.bytes 1076 ≠ readOnlyDevice.bytes 1076 := by
  obtain ⟨inner, d', hmount, hro, hbyte⟩ := exists_of_mountPasses
    (show mountPasses (fun inner => (Session.run ⟨inner, [], []⟩ [.root_dir, .lookup 0 "f",
      .open_ 1 0, .read 0 1]).inner.device.bytes 1076 != readOnlyDevice.bytes 1076) = true by
        decide +kernel)
  exact ⟨inner, d', hmount, hro, by simpa using hbyte⟩

end zenos_kernel.disk.fs.ext2
