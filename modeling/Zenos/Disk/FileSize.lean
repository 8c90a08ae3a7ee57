-- The size of a file is kept twice: in the `Inode` of the virtual file system, which
-- `seek` and `exec` read, and by the driver, which `read` and `stat` go by. `open`
-- sets both, while `write` and `truncate` set the one of the driver only.
import Zenos.Disk.Open

namespace zenos_kernel.disk.vfs

open Outcome syscall OpenFile

/-! ## The size of the driver -/

/-- The size after a write: it follows the end of what is written. -/
def grown (size : UInt32) (offset : Nat) (buf : List UInt8) : UInt32 :=
  if buf = [] ∨ offset + buf.length ≤ size.toNat then size else UInt32.ofNat (offset + buf.length)

/-- A driver whose regular files have a size of 32 bits, which its calls set. `Complete`
tells that the blocks of a file are as many as its size needs. -/
structure Sized (σ δ : Type) [InodeOps σ δ] where
  size : δ → Option UInt32
  Complete : σ × δ → Prop
  write : ∀ (p : σ × δ) (z : UInt32) (offset : Nat) (buf : List UInt8), size p.2 = some z →
    Ends (InodeOps.write offset buf p)
      (fun n p' => n = buf.length ∧ size p'.2 = some (grown z offset buf)) (fun _ _ => True)
  truncate : ∀ (p : σ × δ) (z : UInt32) (n : Nat), size p.2 = some z →
    Ends (InodeOps.truncate n p) (fun _ p' => size p'.2 = some (UInt32.ofNat n)) (fun _ _ => True)
  sync : ∀ p : σ × δ,
    Ends (InodeOps.sync p) (fun _ p' => size p'.2 = size p.2) (fun _ _ => True)
  current_time : ∀ p : σ × δ,
    Ends (InodeOps.current_time p) (fun _ p' => size p'.2 = size p.2) (fun _ _ => True)
  stat : ∀ (p : σ × δ) (z : UInt32), size p.2 = some z →
    Ends (InodeOps.stat p) (fun st _ => st.st_size = z.toNat) (fun _ _ => True)
  read : ∀ (p : σ × δ) (z : UInt32), size p.2 = some z → Complete p →
    Ends (InodeOps.read 0 z.toNat p) (fun bytes _ => bytes.length = z.toNat) (fun _ _ => True)

/-! ## Handles of one inode -/

variable {σ δ : Type} {p : σ × Inode δ}

/-- The call of the driver that `open` and `exec` make under the lock of the inode. -/
def on_inode {α : Type} (x : DriverM σ δ α) : EStateM (Fault FileError) (σ × Inode δ) α :=
  zoom (fun p => (p.1, p.2.data)) (fun p q => (q.1, { p.2 with data := q.2 })) x

theorem ends_on_inode {α : Type} {x : DriverM σ δ α} {Q : α → σ × δ → Prop}
    (h : Yields (x (p.1, p.2.data)) Q) :
    Yields (on_inode x p) (fun a p' => p'.2.size = p.2.size ∧ Q a (p'.1, p'.2.data)) :=
  ends_zoom (h.mono (fun _ _ hq => ⟨rfl, hq⟩) (fun _ _ _ => trivial))

variable [InodeOps σ δ] {o : Opened σ δ}

/-- The inode with the files that are open on it. -/
structure SharedInode (σ δ : Type) where
  fs : σ
  inode : Inode δ
  files : List OpenFile

inductive SizeCall (σ : Type)
  /-- `open` finds the inode. -/
  | open_ (foo : UInt64)
  | seek (i : Nat) (target : SeekFrom)
  | write (i : Nat) (buf : List UInt8)
  | truncate (size : Nat)
  /-- Anything that happens to the rest of the volume. -/
  | others (fs : σ)

namespace SharedInode

variable (s : SharedInode σ δ)

def opened (file : OpenFile) : Opened σ δ := ⟨s.fs, s.inode, file⟩

/-- Handle `i` after a call through it. -/
def after (i : Nat) (o : Opened σ δ) : SharedInode σ δ :=
  ⟨o.fs, o.inode, s.files.set i o.file⟩

/-- A call that returns `Ok`. -/
inductive Step (s : SharedInode σ δ) : SizeCall σ → SharedInode σ δ → Prop
  | open_ {foo : UInt64} {p : σ × Inode δ} (h : truncate_found foo (s.fs, s.inode) = .ok () p) :
      Step s (.open_ foo) ⟨p.1, p.2, s.files ++ [⟨0, foo⟩]⟩
  | seek {i n : Nat} {file : OpenFile} {target : SeekFrom} {o : Opened σ δ}
      (hi : s.files[i]? = some file) (h : OpenFile.seek target (s.opened file) = .ok n o) :
      Step s (.seek i target) (s.after i o)
  | write {i n : Nat} {file : OpenFile} {buf : List UInt8} {o : Opened σ δ}
      (hi : s.files[i]? = some file) (h : OpenFile.write buf (s.opened file) = .ok n o) :
      Step s (.write i buf) (s.after i o)
  | truncate {size : Nat} {p : σ × Inode δ}
      (h : on_inode (InodeOps.truncate size) (s.fs, s.inode) = .ok () p) :
      Step s (.truncate size) ⟨p.1, p.2, s.files⟩
  | others {fs : σ} : Step s (.others fs) { s with fs := fs }

omit [InodeOps σ δ] in
/-- The inode and the driver have the same size. -/
def Agrees {_ : InodeOps σ δ} (law : Sized σ δ) (s : SharedInode σ δ) : Prop :=
  ∃ z, law.size s.inode.data = some z ∧ s.inode.size.toNat = z.toNat

/-- The call leaves the size of the driver: a write ends inside of the file (or wraps
around to its size), and `truncate` is asked for the size the file has. -/
def Fits : SizeCall σ → Prop
  | .write i buf => ∀ file, s.files[i]? = some file → buf = [] ∨
      file.cursor + buf.length ≤ s.inode.size.toNat ∨
      (file.cursor + buf.length) % UInt32.size = s.inode.size.toNat
  | .truncate size => size % UInt32.size = s.inode.size.toNat
  | _ => True

end SharedInode

/-- How `exec_inner` reads the file: as many bytes as the inode says. It panics when
the driver returns fewer. -/
def exec_read : EStateM (Fault FileError) (σ × Inode δ) (List UInt8) := do
  let p ← get
  let file_len := p.2.size.toNat
  let file_buf ← on_inode (InodeOps.read 0 file_len)
  if file_buf.length ≠ file_len then throw .panic else pure file_buf

/-! ## What a call does to both sizes -/

theorem grown_eq_iff (z : UInt32) (offset : Nat) (buf : List UInt8) :
    (grown z offset buf).toNat = z.toNat ↔ buf = [] ∨ offset + buf.length ≤ z.toNat ∨
      (offset + buf.length) % UInt32.size = z.toNat := by
  unfold grown
  split
  · rename_i h
    rw [← or_assoc]
    simp [h]
  · rename_i h
    rw [← or_assoc]
    simp [h]

namespace Sized

variable (law : Sized σ δ) {z : UInt32}

/-- `write` leaves the size of the inode. -/
theorem ends_open_write (hz : law.size o.inode.data = some z) (buf : List UInt8) :
    Yields (OpenFile.write buf o) (fun _ o' => o'.inode.size = o.inode.size ∧
      law.size o'.inode.data = some (grown z o.file.cursor buf)) := by
  cases h : OpenFile.write buf o with
  | error e o' => trivial
  | ok n o' =>
    obtain ⟨p, now, p', hwrite, htime, hsync, hsize⟩ := write_ok h
    have hz1 := ((law.write _ z o.file.cursor buf hz).of_ok hwrite).2
    have hz2 := (law.current_time p).of_ok htime
    exact ⟨hsize, ((law.sync p').of_ok hsync).trans (hz2.trans hz1)⟩

theorem ends_truncate_found (hz : law.size p.2.data = some z) (foo : UInt64)
    (h : p.2.size.toNat = z.toNat) :
    Yields (truncate_found foo p) (fun _ p' => ∃ z', law.size p'.2.data = some z' ∧
      p'.2.size.toNat = z'.toNat) := by
  unfold truncate_found
  split
  · refine (ends_on_inode (p := (p.1, { p.2 with size := 0 })) (law.truncate _ z 0 hz)).mono_ok ?_
    rintro _ p' ⟨hsize, hz'⟩
    exact ⟨_, hz', by rw [hsize]; rfl⟩
  · exact ends_pure ⟨z, hz, h⟩

end Sized

namespace SharedInode

variable {law : Sized σ δ} {s s' : SharedInode σ δ} {c : SizeCall σ}

/-- The sizes stay the same exactly when the call fits. -/
theorem Agrees.step (h : s.Agrees law) (hstep : s.Step c s') : s'.Agrees law ↔ s.Fits c := by
  obtain ⟨z, hz, hsize⟩ := h
  cases hstep with
  | open_ hopen => exact iff_of_true ((law.ends_truncate_found hz _ hsize).of_ok hopen) trivial
  | @seek i n file target o hi hseek =>
    refine iff_of_true ?_ trivial
    have hinode : o.inode = s.inode := by
      unfold OpenFile.seek at hseek
      rw [get_bind] at hseek
      generalize OpenFile.new_pos (s.opened file) target = pos at hseek
      cases pos with
      | none => cases hseek
      | some pos =>
        cases hseek
        rfl
    exact ⟨z, by rw [after, hinode]; exact hz, by rw [after, hinode]; exact hsize⟩
  | @write i n file buf o hi hwrite =>
    obtain ⟨hsize', hz'⟩ := (law.ends_open_write hz buf).of_ok hwrite
    have hfits : s.Fits (.write i buf) ↔ (grown z file.cursor buf).toNat = z.toNat := by
      rw [grown_eq_iff, ← hsize]
      unfold Fits
      simp [hi]
    rw [hfits]
    unfold Agrees after
    rw [hsize', hz']
    change (∃ z', some (grown z file.cursor buf) = some z' ∧ s.inode.size.toNat = z'.toNat) ↔ _
    simp [hsize, eq_comm]
  | @truncate size p htruncate =>
    obtain ⟨hsize', hz'⟩ := (ends_on_inode (law.truncate _ z size hz)).of_ok htruncate
    unfold Agrees Fits
    rw [hsize', hz']
    simp [eq_comm]
  | others => exact iff_of_true ⟨z, hz, hsize⟩ trivial

/-! ## Runs -/

/-- A run, as the calls and the states after them. -/
inductive Run : SharedInode σ δ → List (SizeCall σ × SharedInode σ δ) → Prop
  | nil {s : SharedInode σ δ} : Run s []
  | cons {s s' : SharedInode σ δ} {c : SizeCall σ} {rest : List (SizeCall σ × SharedInode σ δ)}
      (hstep : s.Step c s') (hrest : Run s' rest) : Run s ((c, s') :: rest)

/-- Every call fits the state in which it is made. -/
def RunFits (s : SharedInode σ δ) : List (SizeCall σ × SharedInode σ δ) → Prop
  | [] => True
  | (c, s') :: rest => s.Fits c ∧ RunFits s' rest

theorem Agrees.run {run : List (SizeCall σ × SharedInode σ δ)} (h : s.Agrees law)
    (hrun : Run s run) : (∀ x ∈ run, x.2.Agrees law) ↔ s.RunFits run := by
  induction hrun with
  | nil => simp [RunFits]
  | cons hstep hrest ih =>
    rw [List.forall_mem_cons, h.step hstep]
    refine and_congr_right fun hfits => ih ?_
    exact (h.step hstep).mpr hfits

/-! ## What goes by the sizes -/

/-- `seek` to the end is the size that `stat` gives. -/
theorem Agrees.seek_end (h : s.Agrees law) {file : OpenFile} {n : Nat}
    {st : Stat} {p : σ × δ} (hseek : seek (.End 0) (s.opened file) = .ok n o)
    (hstat : InodeOps.stat (s.fs, s.inode.data) = .ok st p) : (n : Int) = st.st_size := by
  obtain ⟨z, hz, hsize⟩ := h
  have hst := (law.stat (s.fs, s.inode.data) z hz).of_ok hstat
  have hlt := s.inode.size.toNat_lt
  have hpos : new_pos (s.opened file) (.End 0) = some s.inode.size.toNat := by
    change moved s.inode.size.toNat 0 = _
    unfold moved
    rw [if_neg (by decide), if_neg (by decide), show (0 : Int64).toInt.natAbs = 0 from rfl]
    rw [Nat.add_zero, Nat.min_eq_left (by change _ ≤ 2 ^ 64 - 1; omega)]
  unfold seek at hseek
  rw [get_bind, hpos] at hseek
  cases hseek
  rw [hst, hsize]

theorem Agrees.exec_read (h : s.Agrees law) (hc : law.Complete (s.fs, s.inode.data))
    {bytes : List UInt8} {p : σ × δ}
    (hread : InodeOps.read 0 s.inode.size.toNat (s.fs, s.inode.data) = .ok bytes p) :
    ∃ p', vfs.exec_read (s.fs, s.inode) = .ok bytes p' := by
  obtain ⟨z, hz, hsize⟩ := h
  have hlen : bytes.length = s.inode.size.toNat := by
    rw [hsize] at hread ⊢
    exact (law.read (s.fs, s.inode.data) z hz hc).of_ok hread
  have hon : on_inode (InodeOps.read 0 s.inode.size.toNat) (s.fs, s.inode) =
      .ok bytes (p.1, { s.inode with data := p.2 }) := by
    unfold on_inode zoom
    rw [hread]
  unfold vfs.exec_read
  rw [get_bind, bind_of_ok hon, if_neg (by simpa using hlen)]
  exact ⟨_, rfl⟩

end SharedInode

end zenos_kernel.disk.vfs
