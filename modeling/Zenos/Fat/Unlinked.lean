-- Handles of files that have been unlinked. The inode keeps its slot and its
-- first cluster, although both are free for others, and every call that writes
-- the entry back puts the old entry into the slot.
import Zenos.Disk.OpenModes

namespace zenos_kernel.disk.fs.fat

open Bytes Outcome vfs
open zenos_kernel.syscall (latinTable write_refused)

/-! ## What a call must not do -/

namespace Volume

variable {v v' : Volume} {d : FatDirectory} {dl : List Nat} {c i : Nat}

/-- `find_entry` has an entry to find. -/
def Findable (v : Volume) (table : CaseTable) (d : FatDirectory) (name : List Char) : Prop :=
  ∃ dl i e, v.DirAt d dl ∧ v.Live d dl i e ∧
    table.to_uppercase e.short_name = table.to_uppercase name

/-- A call takes the volume from `v` to `v'` and does no damage to the files of `v`. -/
structure Undamaged (table : CaseTable) (v v' : Volume) : Prop where
  names : ∀ up d name, Dir v up d → v'.Findable table d name → v.Findable table d name
  slots : ∀ up d dl i e, Dir v up d → v.DirAt d dl → v.Live d dl i e →
    v'.chunk d dl i = v.chunk d dl i
  clusters : ∀ slot p, v.Belongs (some slot) p → v'.bytes p = v.bytes p

theorem Undamaged.refl (table : CaseTable) (v : Volume) : Undamaged table v v where
  names := fun _ _ _ _ h => h
  slots := fun _ _ _ _ _ _ _ _ => rfl
  clusters := fun _ _ _ => rfl

/-- Nothing but the bytes of a free cluster changes. -/
structure FreeOnly (v v' : Volume) (c : Nat) : Prop where
  layout : v.Layout
  range : v.InRange c
  free : v.entry c = 0
  same : Same v v'
  bytes : ∀ p, ¬ v.InCluster c p → v'.bytes p = v.bytes p

namespace FreeOnly

theorem entry_eq (h : FreeOnly v v' c) {a : Nat} (ha : v.InRange a) : v'.entry a = v.entry a := by
  apply h.same.entry_eq h.layout ha.2
  intro p _ hp
  apply h.bytes
  intro hin
  have := v.fat_end_le c
  have := hin.1
  omega

theorem dirAt_iff (h : FreeOnly v v' c) : v'.DirAt d dl ↔ v.DirAt d dl := by
  constructor
  · intro hd
    have hback : Same v' v := ⟨h.same.bpb.symm, h.same.partition_offset.symm, h.same.faulty.symm⟩
    exact hd.congr hback fun a ha => (h.entry_eq ((h.same.inRange a).mp (hd.range ha))).symm
  · intro hd
    exact hd.congr h.same fun a ha => h.entry_eq (hd.range ha)

/-- A free cluster is in no directory. -/
theorem chunk_eq (h : FreeOnly v v' c) (hd : v.DirAt d dl) (hi : i < v.slot_count d dl) :
    v'.chunk d dl i = v.chunk d dl i := by
  have hap := (hd.slotIn hi).apart h.range (fun hc => hd.used hc h.free)
  unfold chunk
  rw [h.same.slot_pos]
  exact slice_congr fun p h1 h2 => h.bytes p (hap.outside ⟨h1, h2⟩)

theorem undamaged (h : FreeOnly v v' c) (table : CaseTable) : Undamaged table v v' where
  names := by
    rintro up d name - ⟨dl, i, e, hd, hlive, hname⟩
    have hd' := h.dirAt_iff.mp hd
    have hlt : i < v.slot_count d dl := by
      rw [← h.same.slot_count]
      exact hlive.lt
    refine ⟨dl, i, e, hd', hlive.congr hlt ?_, hname⟩
    intro j hj
    exact (h.chunk_eq hd' (by omega)).symm
  slots := fun _ _ _ _ _ _ hd hlive => h.chunk_eq hd hlive.lt
  clusters := by
    rintro slot p (⟨first, l, _, hch, a, ha, hp⟩ | ⟨hnone, _⟩)
    · have hne : a ≠ c := by
        rintro rfl
        exact hch.used ha h.free
      exact h.bytes p ((clusters_apart (hch.range a ha) h.range hne).outside hp)
    · cases hnone

end FreeOnly

/-- The bytes lie in the file as it is and in its first cluster, which is free. -/
structure InPlace (v : Volume) (entry : FatDirEntry) (offset len : Nat) : Prop where
  layout : v.Layout
  range : v.InRange entry.first_cluster
  free : v.entry entry.first_cluster = 0
  cluster : offset + len ≤ v.cluster_size
  size : offset + len ≤ entry.file_size.toNat

end Volume

open Volume

namespace FatFile

/-- A write in place goes to the first cluster only, and leaves the entry. -/
theorem ends_write_in_place (f : FatFile) {offset : Nat} {buf : List UInt8}
    (h : f.volume.InPlace f.entry offset buf.length) :
    Always (write offset buf f)
      (fun f' => f'.volume = f.volume ∨ FreeOnly f.volume f'.volume f.entry.first_cluster) := by
  unfold write
  rw [modify_bind]
  split
  · exact ends_pure (Or.inl rfl)
  rename_i hne
  have hpos := List.length_pos_iff.mpr hne
  have hcl : offset + buf.length ≤ f.inner.cluster_size := h.cluster
  have hlt : offset < f.inner.cluster_size := by omega
  have hfirst : allocate_first (f.set_cursor offset) = .ok () (f.set_cursor offset) := by
    unfold allocate_first
    rw [get_bind, if_neg (show ¬ (f.set_cursor offset).entry.first_cluster < 2 from
      Nat.not_lt.mpr h.range.1)]
    rfl
  rw [bind_of_ok hfirst, get_bind]
  refine ends_bind (Q := fun _ f1 => f1.entry = f.entry ∧ f1.cursor = offset ∧
    FreeOnly f.volume f1.volume f.entry.first_cluster) ?_ ?_
  · apply ends_locked
    change Ends ((skip_extending (offset / f.inner.cluster_size) _ >>= _) f.inner) _ _
    rw [Nat.div_eq_of_lt hlt]
    obtain ⟨n, hn⟩ : ∃ n, buf.length = n + 1 := ⟨buf.length - 1, by omega⟩
    change Ends (write_loop buf.length _ (offset % f.inner.cluster_size) _ _ f.inner) _ _
    rw [Nat.mod_eq_of_lt hlt, hn, write_loop, get_bind]
    refine ends_then (f.inner.ends_write_chunk List.length_replicate hlt rfl)
      (fun _ _ h => Or.inl h) ?_
    rintro b s1 ⟨-, hv⟩
    rw [if_pos (show buf.length ≤ min (f.inner.cluster_size - offset) buf.length by omega)]
    refine ends_pure ⟨rfl, rfl, h.layout, h.range, h.free, ?_, ?_⟩
    · change Same f.volume s1.volume
      rw [hv]
      exact f.volume.same_write _ _
    intro p hp
    change s1.volume.bytes p = f.volume.bytes p
    rw [hv]
    refine splice_outside _ fun hin => hp ?_
    rw [List.length_take] at hin
    change f.inner.volume.InCluster (f.set_cursor offset).entry.first_cluster p
    unfold InCluster
    have hlt : offset + buf.length ≤ f.inner.volume.cluster_size := h.cluster
    omega
  · rintro _ f1 ⟨hentry, hcursor, hfree⟩
    refine ends_then (ends_advance _) ?_ ?_
    · rintro _ f' ⟨rfl, _⟩
      exact Or.inr hfree
    rintro _ f2 rfl
    have hgrow : grow (f1.set_cursor (f1.cursor + buf.length)) =
        .ok () (f1.set_cursor (f1.cursor + buf.length)) := by
      unfold grow
      rw [get_bind, if_neg]
      · rfl
      · change ¬ f1.entry.file_size.toNat < f1.cursor + buf.length
        rw [hentry, hcursor]
        exact Nat.not_lt.mpr h.size
    rw [bind_of_ok hgrow]
    exact Or.inr hfree

end FatFile

/-! ## Calls -/

/-- The calls through a handle: those of the inode, and those of an open file. -/
inductive HandleCall
  | read (offset len : Nat)
  | write (offset : Nat) (buf : List UInt8)
  | truncate (size : Nat)
  | sync
  | open_read (len : Nat)
  | open_write (buf : List UInt8)

/-- The calls of a directory, and those through the inode `id`. -/
inductive FsCall
  | lookup (d : FatDirectory) (name : List Char)
  | create (d : FatDirectory) (name : List Char) (kind : FileType)
  | unlink (d : FatDirectory) (name : List Char)
  | through (id : Nat) (file : OpenFile) (c : HandleCall)

section Calls

variable (table : CaseTable)

def HandleCall.run (c : HandleCall) : OpenM FatFileSystem FatData Unit :=
  let _ := FatFileSystem.inodeOps table
  match c with
  | .read offset len => do
    let _ ← on_data (InodeOps.read offset len)
  | .write offset buf => do
    let _ ← on_data (InodeOps.write offset buf)
  | .truncate size => on_data (InodeOps.truncate size)
  | .sync => on_data InodeOps.sync
  | .open_read len => do
    let _ ← OpenFile.read len
  | .open_write buf => do
    let _ ← OpenFile.write buf

/-- The volume, and which inodes are those of a file that has been unlinked since. -/
structure World where
  sys : FatFileSystem
  unlinked : Nat → Bool

namespace World

variable (w : World)

def volume : Volume := w.sys.inner.volume

/-- The inode is one of the file in the slot. -/
def has_slot (slot : Slot) (id : Nat) : Bool :=
  match w.sys.inodes[id]? with
  | some inode =>
    match inode.data with
    | .file f => f.slot = slot
    | .dir _ => false
  | none => false

/-- A call through a handle. -/
def call (id : Nat) (file : OpenFile) (c : HandleCall) : World :=
  match w.sys.inodes[id]? with
  | none => w
  | some inode =>
    let o := final (c.run table ⟨w.sys, inode, file⟩)
    { w with sys := { o.fs with inodes := o.fs.inodes.set id o.inode } }

/-- A call, whether it returns `Ok` or an error. -/
def after : FsCall → World
  | .lookup d name => { w with sys := final (FatFileSystem.lookup table d name w.sys) }
  | .create d name kind => { w with sys := final (FatFileSystem.create table d name kind w.sys) }
  | .unlink d name =>
    { sys := final (FatFileSystem.unlink table d name w.sys)
      unlinked := match d.unlink table name w.sys.inner with
        | .ok slot _ => fun id => w.unlinked id || w.has_slot slot id
        | .error _ _ => w.unlinked }
  | .through id file c => w.call table id file c

/-- No call through the handle of an unlinked file does damage. -/
def Safe : World → List FsCall → Prop
  | _, [] => True
  | w, c :: cs => (∀ id file h, c = .through id file h → w.unlinked id = true →
      Undamaged table w.volume (w.after table c).volume) ∧ Safe (w.after table c) cs

end World

end Calls

/-! ## Careful calls -/

/-- The call does not write the entry back: it reads, or writes in place, or is refused. -/
def HandleCall.Careful (c : HandleCall) (o : Opened FatFileSystem FatData) : Prop :=
  match c with
  | .read _ _ => True
  | .write offset buf => buf = [] ∨
      ∀ f, o.inode.data = .file f → o.fs.inner.volume.InPlace f.entry offset buf.length
  | .truncate _ => False
  | .sync => False
  | .open_read _ => o.file.may_read o.inode.perms = false
  | .open_write _ => o.file.may_write o.inode.perms = false

def World.Careful (table : CaseTable) : World → List FsCall → Prop
  | _, [] => True
  | w, c :: cs => (∀ id file h inode, c = .through id file h → w.unlinked id = true →
      w.sys.inodes[id]? = some inode → h.Careful ⟨w.sys, inode, file⟩) ∧
      World.Careful table (w.after table c) cs

variable {table : CaseTable} {o : Opened FatFileSystem FatData}

/-- A call of the driver on a file. -/
theorem ends_on_file {α : Type} {file : FileM α} {P : Volume → Prop} (hrefl : P o.fs.inner.volume)
    (hfile : ∀ f, o.inode.data = .file f → Always (file ⟨f, o.fs.inner⟩) (fun f' => P f'.volume)) :
    Always (on_data (FatFileSystem.by_kind file (fun _ => throw (.err .IsADirectory))) o)
      (fun o' => P o'.fs.inner.volume) := by
  refine ends_zoom ?_
  unfold FatFileSystem.by_kind
  rw [get_bind]
  cases hdata : o.inode.data with
  | file f => exact ends_zoom (hfile f hdata)
  | dir d => exact hrefl

theorem HandleCall.Careful.ends_run {c : HandleCall} (h : c.Careful o) :
    Always (c.run table o) (fun o' => Undamaged table o.fs.inner.volume o'.fs.inner.volume) := by
  have hrefl := Undamaged.refl table o.fs.inner.volume
  cases c with
  | read offset len =>
    refine ends_bind (ends_on_file hrefl ?_) (fun _ _ h => h)
    intro f _
    refine (FatFile.keeps_read offset len).mono ?_ ?_
    · rintro _ f' ⟨hv, -⟩
      rw [hv]
      exact hrefl
    · intro _ f' hv
      rw [hv]
      exact hrefl
  | write offset buf =>
    refine ends_bind (ends_on_file hrefl ?_) (fun _ _ h => h)
    intro f hf
    rcases h with rfl | hin
    · exact hrefl
    have himp : ∀ f' : FatFile, f'.volume = o.fs.inner.volume ∨
        FreeOnly o.fs.inner.volume f'.volume f.entry.first_cluster →
        Undamaged table o.fs.inner.volume f'.volume := by
      rintro f' (hv | hfree)
      · rw [hv]
        exact hrefl
      · exact hfree.undamaged table
    exact (FatFile.ends_write_in_place ⟨f, o.fs.inner⟩ (hin f hf)).mono (fun _ => himp)
      (fun _ => himp)
  | truncate size => exact h.elim
  | sync => exact h.elim
  | open_read len =>
    let _ := FatFileSystem.inodeOps table
    have hrun : OpenFile.read len o = .error (.err .PermissionDenied) o := by
      rw [OpenFile.read_eq, h]
      rfl
    change Ends ((OpenFile.read len >>= _) o) _ _
    rw [bind_of_error hrun]
    exact hrefl
  | open_write buf =>
    let _ := FatFileSystem.inodeOps table
    change Ends ((OpenFile.write buf >>= _) o) _ _
    rw [bind_of_error (write_refused h buf)]
    exact hrefl

/-- A careful call through the handle of an unlinked file does no damage. -/
theorem World.careful_calls_are_safe (table : CaseTable) (w : World) (calls : List FsCall)
    (h : w.Careful table calls) : w.Safe table calls := by
  induction calls generalizing w with
  | nil => trivial
  | cons c cs ih =>
    obtain ⟨hc, hcs⟩ := h
    refine ⟨?_, ih _ hcs⟩
    rintro id file c rfl hun
    change Undamaged table w.volume (w.call table id file c).volume
    unfold World.call
    cases hi : w.sys.inodes[id]? with
    | none => exact Undamaged.refl table w.volume
    | some inode => exact (hc id file c inode rfl hun hi).ends_run.final

/-- The volume of one empty file, with no inode yet. -/
def noHandles : World where
  sys := { inner := (FatFile.oneFile 0).inner, ino_cache := fun _ => none, inodes := [],
           dropped := fun _ => false }
  unlinked := fun _ => false

/-- The root directory of FAT12 and FAT16. -/
def fixedRoot : FatDirectory := ⟨0, true⟩

/-- `A` is opened and unlinked. -/
def unlinkedA : World :=
  (noHandles.after latinTable (.lookup fixedRoot ['A'])).after latinTable (.unlink fixedRoot ['A'])

/-- `A` is opened, gets a byte and is unlinked. -/
def writtenA : World :=
  ((noHandles.after latinTable (.lookup fixedRoot ['A'])).after latinTable
    (.through 0 ⟨0, 0⟩ (.write 0 [7]))).after latinTable (.unlink fixedRoot ['A'])

/-- The byte is read through the handle after `A` is unlinked. -/
theorem a_late_read_is_safe :
    (writtenA.unlinked 0 = true ∧ writtenA.sys.inodes[0]?.any (fun inode =>
      passes (on_data ((FatFileSystem.inodeOps latinTable).read 0 1) ⟨writtenA.sys, inode, ⟨0, 0⟩⟩)
        fun bytes _ => bytes = [7]) = true) ∧
    noHandles.Safe latinTable [.lookup fixedRoot ['A'], .through 0 ⟨0, 0⟩ (.write 0 [7]),
      .unlink fixedRoot ['A'], .through 0 ⟨0, 0⟩ (.read 0 1)] := by
  refine ⟨by decide +kernel, World.careful_calls_are_safe _ _ _ ⟨?_, ?_, ?_, ?_, trivial⟩⟩
  · intro id file h inode hc
    cases hc
  · intro id file h inode hc hun
    cases hc
    exact absurd hun Bool.false_ne_true
  · intro id file h inode hc
    cases hc
  · intro id file h inode hc _ _
    cases hc
    trivial

/-- `B` gets the slot of `A`. -/
@[irreducible] def reused : World := unlinkedA.after latinTable (.create fixedRoot ['B'] .File)

def entryB : FatDirEntry := FatDirectory.new_entry latinTable ['B'] false 0

theorem reused_root : Dir reused.volume [] fixedRoot ∧ reused.volume.DirAt fixedRoot [] := by
  have htype : reused.volume.fat_type = .Fat16 := by decide +kernel
  generalize reused.volume = v at htype ⊢
  have hroot : v.root = fixedRoot := by simp [Volume.root, fixedRoot, htype]
  rw [← hroot]
  exact ⟨Dir.root, dirAt_root (by simp [fixed_root, htype])⟩

theorem reused_live : reused.volume.Live fixedRoot [] 0 entryB := by
  have hchunk : reused.volume.chunk fixedRoot [] 0 = entryB.serialize := by decide +kernel
  refine ⟨⟨by decide +kernel, ?_, by decide, by decide⟩, fun j hj => absurd hj (Nat.not_lt_zero j)⟩
  rw [hchunk]
  exact FatDirEntry.parse_serialize _ (by decide) (by decide)

/-- A late read of `A` through an open file takes the slot back. -/
theorem a_late_read_overwrites_an_entry : noHandles.volume.WellFormed ∧
    (∀ id, noHandles.unlinked id = false) ∧
    ¬ noHandles.Safe latinTable [.lookup fixedRoot ['A'], .unlink fixedRoot ['A'],
      .create fixedRoot ['B'] .File, .through 0 ⟨0, 0⟩ (.open_read 1)] := by
  refine ⟨FatFile.oneFile_wellFormed 0, fun _ => rfl, ?_⟩
  rintro ⟨-, -, -, hlate, -⟩
  rw [show (noHandles.after latinTable (.lookup fixedRoot ['A'])).after latinTable
    (.unlink fixedRoot ['A']) = unlinkedA from rfl] at hlate
  rw [show unlinkedA.after latinTable (.create fixedRoot ['B'] .File) = reused by
    unfold reused
    rfl] at hlate
  have hsafe := hlate 0 _ _ rfl (by decide +kernel)
  have hslot := hsafe.slots [] fixedRoot [] 0 entryB reused_root.1 reused_root.2 reused_live
  revert hslot
  decide +kernel

end zenos_kernel.disk.fs.fat
