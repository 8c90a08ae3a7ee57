-- Access modes. A handle should not write when it was opened for reading, and
-- not read when it was opened for writing. `OpenFile` asks for one of two
-- things, the right option or the permission of the file, and `open_file` wants
-- the file to be readable in any case.
import Zenos.Disk.Open
import Zenos.Fat.ByteArray

namespace zenos_kernel.syscall

open Outcome disk disk.vfs fs.fat.FatFileSystem OpenFile

/-- The access mode: the low two bits of the flags. -/
def access_mode (f : UInt64) : UInt64 := f &&& 3

def allows (perms flag : UInt16) : Bool := contains perms.toBitVec flag.toBitVec

section Handles

variable {φ σ δ α : Type}

/-- The part of an open file that decides what it may be used for. -/
def rights (o : Opened σ δ) : UInt64 × UInt16 := (o.file.file_open_options, o.inode.perms)

/-- A handle that `open` gave out for flags `f` and a file with `perms`. -/
structure Handle (f : UInt64) (perms : UInt16) (o : Opened σ δ) : Prop where
  rights : rights o = (from_bits_truncate f, perms)
  readable : allows perms OWNER_READ = true

/-! ## The rights stay -/

theorem keeps_rights_on_data (x : DriverM σ δ α) :
    Keeps (rights (σ := σ) (δ := δ)) (on_data x) := keeps_zoom (by intros; rfl) x

theorem keeps_rights_seek (target : SeekFrom) : Keeps (rights (σ := σ) (δ := δ)) (seek target) := by
  apply keeps_get_bind
  intro o
  split
  · exact keeps_throw _
  · exact keeps_bind (keeps_modify (fun _ => rfl)) (fun _ => keeps_pure _)

variable {inode : Inode δ} {s s' : σ} {file_name : List Char} {vfs : VFS φ}

theorem readable_ok {inode' : Inode δ} (h : VFS.readable inode s = .ok inode' s') :
    allows inode'.perms OWNER_READ = true := by
  unfold VFS.readable at h
  split at h
  · rename_i hperms
    obtain ⟨rfl, -⟩ := pure_ok.mp h
    exact hperms
  · cases h

variable [InodeOps σ δ] [FileSystem φ σ δ]

theorem keeps_rights_transfer (may : Bool) (x : DriverM σ δ α) (n : α → Nat)
    {g : UInt64 → Opened σ δ → Opened σ δ} (hg : ∀ now o, rights (g now o) = rights o) :
    Keeps (rights (σ := σ) (δ := δ)) (transfer may x n g) := by
  unfold transfer
  split
  · apply keeps_bind (keeps_rights_on_data _)
    intro a
    refine keeps_bind (keeps_get_bind fun o => ?_) fun _ => ?_
    · split
      · exact keeps_modify (fun _ => rfl)
      · exact keeps_throw _
    apply keeps_bind (keeps_rights_on_data _)
    intro now
    apply keeps_bind (keeps_modify (hg now))
    intro _
    exact keeps_bind (keeps_rights_on_data _) (fun _ => keeps_pure _)
  · exact keeps_throw _

/-- What can happen to an open file: a call through it, or what others do to
the volume, the inode and a cursor that they share. -/
inductive Happens : Opened σ δ → Opened σ δ → Prop
  | seek (o : Opened σ δ) (target : SeekFrom) : Happens o (final (OpenFile.seek target o))
  | read (o : Opened σ δ) (len : Nat) : Happens o (final (OpenFile.read len o))
  | write (o : Opened σ δ) (buf : List UInt8) : Happens o (final (OpenFile.write buf o))
  | others {o o' : Opened σ δ} (h : rights o' = rights o) : Happens o o'

theorem Happens.rights_eq {o o' : Opened σ δ} (h : Happens o o') : rights o' = rights o := by
  cases h with
  | seek target => exact (keeps_rights_seek target o).final
  | read len =>
    exact (keeps_rights_transfer (g := set_access_time) _ _ _ (fun _ _ => rfl) o).final
  | write buf =>
    exact (keeps_rights_transfer (g := set_change_times) _ _ _ (fun _ _ => rfl) o).final
  | others h => exact h

variable {f foo : UInt64}

/-- A handle stays one, whatever happens. -/
theorem Handle.run {perms : UInt16} {o o' : Opened σ δ} (h : Handle f perms o)
    (hrun : Relation.ReflTransGen Happens o o') : Handle f perms o' := by
  induction hrun with
  | refl => exact h
  | tail _ hstep ih => exact ⟨hstep.rights_eq.trans ih.rights, ih.readable⟩

/-! ## What `open` gives out -/

/-- The path names something below its mount point. -/
def NamesFile (vfs : VFS φ) (file_name : List Char) : Prop :=
  ∀ e ∈ vfs.path_to_fs (normalize_path file_name),
    VFS.relative_parts (normalize_path file_name) e.1 ≠ []

theorem open_file_readable (hname : NamesFile vfs file_name)
    (h : vfs.open_file file_name s = .ok inode s') : allows inode.perms OWNER_READ = true := by
  unfold VFS.open_file at h
  cases hfs : vfs.path_to_fs (normalize_path file_name) with
  | none => rw [hfs] at h; cases h
  | some e =>
    have hne := hname e hfs
    rw [hfs] at h
    obtain ⟨dir_inode, s1, -, h⟩ := bind_ok.mp h
    rw [List.getLast?_eq_some_getLast hne] at h
    obtain ⟨dir_inode', s2, -, h⟩ := bind_ok.mp h
    obtain ⟨file_inode, s3, -, h⟩ := bind_ok.mp h
    exact readable_ok h

theorem truncate_found_perms :
    Yields (truncate_found foo (s, inode)) (fun _ p => p.2.perms = inode.perms) := by
  unfold truncate_found
  split
  · rw [modify_bind]
    apply ends_zoom
    cases InodeOps.truncate (σ := σ) 0 (s, inode.data) with
    | ok a p => rfl
    | error e p => trivial
  · rfl

theorem open_inode_readable (hname : NamesFile vfs file_name)
    (h : open_inode vfs file_name foo s = .ok inode s') : allows inode.perms OWNER_READ = true := by
  unfold open_inode at h
  split at h
  · cases h
  split at h
  · rename_i found s1 hopen
    have hread := open_file_readable hname hopen
    unfold with_errno open_found at h
    cases htrunc : truncate_found foo (s1, found) with
    | ok a p =>
      rw [htrunc] at h
      cases h
      have hperms := truncate_found_perms.of_ok htrunc
      rw [hperms]
      exact hread
    | error e p =>
      rw [htrunc] at h
      cases h
  · cases h
  · split at h
    · obtain ⟨_, s1, -, h⟩ := bind_ok.mp h
      unfold unwrap at h
      split at h
      · rename_i hopen
        cases h
        exact open_file_readable hname hopen
      · cases h
    · cases h

/-- What `open` returns for a file is a handle. -/
theorem handle_of_open_inner (hname : NamesFile vfs file_name) {fds : Option (List UInt32)}
    {fd : Nat} {file : OpenFile}
    (h : open_inner vfs file_name (from_bits_truncate f) fds s = .ok (fd, inode, file) s') :
    Handle f inode.perms ⟨s', inode, file⟩ := by
  obtain ⟨found, s1, hopen, h⟩ := bind_ok.mp h
  split at h
  · cases h
  · split at h
    · cases h
    · split at h
      · cases h
        exact ⟨rfl, open_inode_readable hname hopen⟩
      · cases h

end Handles

/-! ## The law -/

/-- The access mode is respected, whatever the driver does and whatever
happens to the handle in between. -/
structure Enforced (f : UInt64) (perms : UInt16) : Prop where
  read_only : access_mode f = 0 → ∀ (σ δ : Type) [InodeOps σ δ] (o o' : Opened σ δ),
    Handle f perms o → Relation.ReflTransGen Happens o o' → ∀ buf,
      Ends (OpenFile.write buf o') (fun _ _ => False)
        (fun _ o'' => o''.fs = o'.fs ∧ o''.inode = o'.inode)
  write_only : access_mode f = 1 → ∀ (σ δ : Type) [InodeOps σ δ] (o o' : Opened σ δ),
    Handle f perms o → Relation.ReflTransGen Happens o o' → ∀ len,
      Ends (OpenFile.read len o') (fun _ _ => False) (fun _ _ => True)
  opens : (access_mode f = 0 ∧ allows perms OWNER_READ) ∨
    ((access_mode f = 1 ∨ access_mode f = 2) ∧ allows perms OWNER_WRITE) →
    ∀ (σ δ : Type) (inode : Inode δ) (s : σ), inode.perms = perms →
      VFS.readable inode s = .ok inode s
  reads : access_mode f = 0 → allows perms OWNER_READ →
    ∀ (σ δ : Type) [InodeOps σ δ] (o o' : Opened σ δ), Handle f perms o →
      Relation.ReflTransGen Happens o o' → o'.file.may_read o'.inode.perms = true
  writes : access_mode f = 1 ∨ access_mode f = 2 → allows perms OWNER_WRITE →
    ∀ (σ δ : Type) [InodeOps σ δ] (o o' : Opened σ δ), Handle f perms o →
      Relation.ReflTransGen Happens o o' → o'.file.may_write o'.inode.perms = true

/-- The flags and the permissions for which the mode is respected. -/
def Respected (f : UInt64) (perms : UInt16) : Prop :=
  (access_mode f = 0 → ¬ (allows perms OWNER_READ ∧ allows perms OWNER_WRITE)) ∧
  (access_mode f = 1 → allows perms OWNER_READ = false ∧ allows perms OWNER_WRITE = false) ∧
  (access_mode f = 2 → allows perms OWNER_WRITE → allows perms OWNER_READ)

instance (f : UInt64) (perms : UInt16) : Decidable (Respected f perms) :=
  inferInstanceAs (Decidable (_ ∧ _))

/-! ## The tests of a handle -/

theorem options_mode (f : UInt64) : from_bits_truncate f &&& 3 = access_mode f := by
  rw [from_bits_truncate, UInt64.and_assoc]
  rfl

section Tests

variable {σ δ : Type} {f : UInt64} {perms : UInt16} {o : Opened σ δ}

section

variable (h : Handle f perms o)

include h

theorem Handle.options : o.file.file_open_options = from_bits_truncate f :=
  congrArg Prod.fst h.rights

theorem Handle.perms_eq : o.inode.perms = perms := congrArg Prod.snd h.rights

/-- Opened for reading, a handle may write when the file may be written. -/
theorem Handle.may_write_of_read_only (hmode : access_mode f = 0) :
    o.file.may_write o.inode.perms = allows perms OWNER_WRITE := by
  have hbits : contains o.file.file_open_options.toBitVec (WRITE_ONLY ||| READ_WRITE).toBitVec
      = false := by
    rw [h.options]
    change ((from_bits_truncate f &&& 3).toBitVec == _) = false
    rw [options_mode, hmode]
    decide
  rw [may_write, hbits, h.perms_eq]
  exact Bool.false_or _

theorem Handle.may_write_of_allowed (hw : allows perms OWNER_WRITE = true) :
    o.file.may_write o.inode.perms = true := by
  rw [h.perms_eq]
  exact Bool.or_eq_true_iff.mpr (Or.inr hw)

/-- Every handle may read: the file had to be readable. -/
theorem Handle.may_read : o.file.may_read o.inode.perms = true := by
  rw [h.perms_eq]
  exact Bool.or_eq_true_iff.mpr (Or.inr h.readable)

end

theorem readable_eq {inode : Inode δ} (s : σ) (h : allows inode.perms OWNER_READ = true) :
    VFS.readable inode s = .ok inode s := by
  rw [VFS.readable, if_pos (show contains _ _ = true from h)]
  rfl

theorem write_refused [InodeOps σ δ] (h : o.file.may_write o.inode.perms = false)
    (buf : List UInt8) : write buf o = .error (.err .PermissionDenied) o := by
  unfold write
  rw [get_bind, if_neg (by simp [h])]
  rfl

/-- A transfer that is not refused succeeds when the driver does. -/
theorem transfer_returns [InodeOps σ δ] {α : Type} {x : DriverM σ δ α} {n : α → Nat} {a : α}
    {g : UInt64 → Opened σ δ → Opened σ δ} {now : UInt64} {p1 p2 p3 : σ × δ} (hg : KeepsData g)
    (hx : x (o.fs, o.inode.data) = .ok a p1) (hroom : o.file.cursor + n a < UInt64.size)
    (htime : InodeOps.current_time p1 = .ok now p2) (hsync : InodeOps.sync p2 = .ok () p3) :
    ∃ o', transfer true x n g o = .ok a o' := by
  unfold transfer settled
  rw [if_pos rfl, bind_of_ok (on_data_of_ok hx)]
  rw [bind_of_ok (advance_of_lt (o := put_data o p1) hroom)]
  rw [bind_of_ok (on_data_of_ok htime)]
  refine ⟨_, bind_of_ok (on_data_of_ok (a := ()) (p := p3) ?_)⟩
  rw [(hg _ _).1, (hg _ _).2]
  exact hsync

end Tests

/-! ## A file that does as it is told -/

/-- A volume with one empty file, opened with flags `f` and made to have `perms`. -/
def emptyFile (f : UInt64) (perms : UInt16) : Opened fs.fat.FatFileSystem fs.fat.FatData where
  fs := {
    inner := (fs.fat.FatFile.oneFile 0).inner
    ino_cache := fun _ => none
    inodes := []
    dropped := fun _ => false }
  inode := ⟨0, .File, 0, perms, 1, 0, 0, 0, 0, 0, .file (fs.fat.FatFile.oneFile 0).toFatFileData⟩
  file := { cursor := 0, file_open_options := from_bits_truncate f }

def latinTable : fs.fat.CaseTable := ⟨fs.fat.latin_uppercase, fun _ _ => rfl⟩

variable {f : UInt64} {perms : UInt16}

theorem handle_emptyFile (h : allows perms OWNER_READ = true) :
    Handle f perms (emptyFile f perms) := ⟨rfl, h⟩

section EmptyFile

variable {f : UInt64} {perms : UInt16}

/-- A transfer of at most one byte at the start of the file. -/
theorem emptyFile_transfer {α : Type} (x : DriverM fs.fat.FatFileSystem fs.fat.FatData α)
    (n : α → Nat) {g : UInt64 → Opened fs.fat.FatFileSystem fs.fat.FatData → Opened _ _}
    (hg : KeepsData g) [ops : InodeOps fs.fat.FatFileSystem fs.fat.FatData]
    (hx : passes (x ((emptyFile 0 0).fs, (emptyFile 0 0).inode.data)) (fun a p => n a < 2 &&
      passes (InodeOps.current_time p) (fun _ p => passes (InodeOps.sync p) (fun _ _ => true)))
      = true) : ∃ a o, transfer true x n g (emptyFile f perms) = .ok a o := by
  obtain ⟨a, p1, hx, h1⟩ := exists_of_passes hx
  rw [Bool.and_eq_true, decide_eq_true_iff] at h1
  obtain ⟨now, p2, htime, h2⟩ := exists_of_passes h1.2
  obtain ⟨_, p3, hsync, -⟩ := exists_of_passes h2
  obtain ⟨o', ho'⟩ := transfer_returns (o := emptyFile f perms) (n := n) hg hx
    (by have := h1.1; change 0 + n a < 2 ^ 64; omega) htime hsync
  exact ⟨a, o', ho'⟩

theorem emptyFile_write (h : (emptyFile f perms).file.may_write perms = true) :
    ∃ n o, @write _ _ (inodeOps latinTable) [1] (emptyFile f perms) = .ok n o := by
  let _ := inodeOps latinTable
  rw [write_eq, show may_write _ (emptyFile f perms).inode.perms = true from h]
  exact emptyFile_transfer (InodeOps.write 0 [1]) _ keepsData_change (by decide +kernel)

theorem emptyFile_read (h : (emptyFile f perms).file.may_read perms = true) :
    ∃ bytes o, @read _ _ (inodeOps latinTable) 1 (emptyFile f perms) = .ok bytes o := by
  let _ := inodeOps latinTable
  rw [read_eq, show may_read _ (emptyFile f perms).inode.perms = true from h]
  exact emptyFile_transfer (InodeOps.read 0 1) _ keepsData_access (by decide +kernel)

end EmptyFile

/-! ## The law and its limit -/

theorem Respected.enforced (h : Respected f perms) : Enforced f perms := by
  obtain ⟨hro, hwo, hrw⟩ := h
  refine ⟨?_, ?_, ?_, ?_, ?_⟩
  · intro hmode σ δ _ o o' ho hrun buf
    have ho' := ho.run hrun
    have hno : o'.file.may_write o'.inode.perms = false := by
      rw [ho'.may_write_of_read_only hmode]
      by_contra hw
      exact hro hmode ⟨ho.readable, by simpa using hw⟩
    rw [write_refused hno]
    exact ⟨rfl, rfl⟩
  · intro hmode σ δ _ o o' ho hrun len
    have hr := (hwo hmode).1
    rw [ho.readable] at hr
    cases hr
  · intro hmode σ δ inode s hperms
    apply readable_eq
    rw [hperms]
    rcases hmode with ⟨_, hr⟩ | ⟨h1 | h2, hw⟩
    · exact hr
    · rw [(hwo h1).2] at hw
      cases hw
    · exact hrw h2 hw
  · intro _ _ σ δ _ o o' ho hrun
    exact (ho.run hrun).may_read
  · intro _ hw σ δ _ o o' ho hrun
    exact (ho.run hrun).may_write_of_allowed hw

theorem Enforced.respected (h : Enforced f perms) : Respected f perms := by
  have hopens : (access_mode f = 1 ∨ access_mode f = 2) → allows perms OWNER_WRITE →
      allows perms OWNER_READ := by
    intro hmode hw
    have hok := h.opens (Or.inr ⟨hmode, hw⟩) _ _ (emptyFile f perms).inode () rfl
    exact readable_ok hok
  have hread : access_mode f = 1 → allows perms OWNER_READ = false := by
    intro hmode
    by_contra hr
    have hr : allows perms OWNER_READ = true := by simpa using hr
    have hhandle := handle_emptyFile (f := f) hr
    obtain ⟨bytes, o, hok⟩ := emptyFile_read hhandle.may_read
    let _ := inodeOps latinTable
    exact (h.write_only hmode _ _ _ _ hhandle Relation.ReflTransGen.refl 1).of_ok hok
  refine ⟨?_, ?_, fun hmode => hopens (Or.inr hmode)⟩
  · rintro hmode ⟨hr, hw⟩
    have hhandle := handle_emptyFile (f := f) hr
    obtain ⟨n, o, hok⟩ := emptyFile_write (hhandle.may_write_of_allowed hw)
    let _ := inodeOps latinTable
    exact (h.read_only hmode _ _ _ _ hhandle Relation.ReflTransGen.refl [1]).of_ok hok
  · intro hmode
    refine ⟨hread hmode, ?_⟩
    by_contra hw
    have hr := hopens (Or.inl hmode) (by simpa using hw)
    rw [hread hmode] at hr
    cases hr

/-- The access mode is respected for exactly the flags and permissions of
`Respected`, and what `open` gives out for a file is a handle in this sense. -/
theorem access_modes_respected_iff (f : UInt64) (perms : UInt16) :
    (Enforced f perms ↔ Respected f perms) ∧
    ∀ (φ σ δ : Type) [InodeOps σ δ] [FileSystem φ σ δ] (vfs : VFS φ) (file_name : List Char)
      (fds : Option (List UInt32)) (s s' : σ) (fd : Nat) (inode : Inode δ)
      (file : OpenFile), NamesFile vfs file_name →
      open_inner vfs file_name (from_bits_truncate f) fds s = .ok (fd, inode, file) s' →
      Handle f inode.perms ⟨s', inode, file⟩ := by
  refine ⟨⟨Enforced.respected, Respected.enforced⟩, ?_⟩
  intro φ σ δ _ _ vfs file_name fds s s' fd inode file hname hopen
  exact handle_of_open_inner hname hopen

theorem a_protected_file_is_only_read : Respected READ_ONLY 0o444 ∧ Enforced READ_ONLY 0o444 :=
  ⟨by decide, (access_modes_respected_iff READ_ONLY 0o444).1.mpr (by decide)⟩

/-- A file of mode 0644 that is opened for reading is written. -/
theorem a_reader_writes : access_mode READ_ONLY = 0 ∧
    Handle READ_ONLY 0o644 (emptyFile READ_ONLY 0o644) ∧ (∃ n o, @write _ _ (inodeOps latinTable) [1]
      (emptyFile READ_ONLY 0o644) = .ok n o) ∧ ¬ Enforced READ_ONLY 0o644 := by
  have hhandle : Handle READ_ONLY 0o644 (emptyFile READ_ONLY 0o644) := handle_emptyFile (by decide)
  refine ⟨rfl, hhandle, emptyFile_write (hhandle.may_write_of_allowed (by decide)), ?_⟩
  intro h
  exact absurd h.respected (by decide)

end zenos_kernel.syscall
