-- Appending. `APPEND` is one of the options of `open`, but no code looks at it: a write
-- goes to the cursor of its handle, which `open` sets to 0. So bytes are appended by
-- those writes only whose cursor is at the end of the file.
import Zenos.Disk.FileSize

namespace zenos_kernel.disk.vfs

open Outcome

variable {σ δ : Type} [InodeOps σ δ] {ws : List (Nat × List UInt8)}

/-! ## Files as arrays -/

/-- A driver whose files are arrays of bytes. `Holds` tells the bytes that the file has
as the inode knows it, and `Ready` that no block is missing where the file ends. -/
structure Arrays (law : Sized σ δ) where
  Holds : σ × δ → List UInt8 → Prop
  Ready : σ × δ → Prop
  size : ∀ (p : σ × δ) (bs : List UInt8), Holds p bs →
    ∃ z, law.size p.2 = some z ∧ z.toNat = bs.length
  append : ∀ (p : σ × δ) (bs buf : List UInt8), Holds p bs → Ready p →
    bs.length + buf.length < UInt32.size →
    Ends (InodeOps.write bs.length buf p) (fun _ p' => Holds p' (bs ++ buf)) (fun _ _ => True)
  nothing : ∀ (p : σ × δ) (bs : List UInt8) (offset : Nat), Holds p bs →
    Ends (InodeOps.write offset [] p) (fun _ p' => Holds p' bs) (fun _ _ => True)
  sync : ∀ (p : σ × δ) (bs : List UInt8), Holds p bs →
    Ends (InodeOps.sync p) (fun _ p' => Holds p' bs) (fun _ _ => True)
  current_time : ∀ (p : σ × δ) (bs : List UInt8), Holds p bs →
    Ends (InodeOps.current_time p) (fun _ p' => Holds p' bs) (fun _ _ => True)

/-- The write starts where the file ends, and the new size has 32 bits. -/
def Opened.AtEnd (law : Sized σ δ) (o : Opened σ δ) (buf : List UInt8) : Prop :=
  buf = [] ∨ ∃ z, law.size o.inode.data = some z ∧ o.file.cursor = z.toNat ∧
    z.toNat + buf.length < UInt32.size

namespace Arrays

variable {law : Sized σ δ} (A : Arrays law) {o o' : Opened σ δ} {bs buf : List UInt8} {n : Nat}

section

variable (h : A.Holds o.driver bs) (hready : buf = [] ∨ A.Ready o.driver) (hend : o.AtEnd law buf)

include h hready hend

/-- The bytes that the driver holds before `sync`. -/
theorem appended_unsynced
    {p p' : σ × δ} {now : UInt64} (hwrite : InodeOps.write o.file.cursor buf o.driver = .ok n p)
    (hnow : InodeOps.current_time p = .ok now p') : A.Holds p' (bs ++ buf) := by
  refine (A.current_time p _ ?_).of_ok hnow
  by_cases hbuf : buf = []
  · subst hbuf
    rw [List.append_nil]
    exact (A.nothing _ bs _ h).of_ok hwrite
  · obtain ⟨z, hz, hcursor, hsmall⟩ := hend.resolve_left hbuf
    obtain ⟨z', hz', hlen⟩ := A.size _ bs h
    cases hz.symm.trans hz'
    rw [hcursor, hlen] at hwrite
    exact (A.append _ bs buf h (hready.resolve_left hbuf) (by omega)).of_ok hwrite

theorem appended (hwrite : OpenFile.write buf o = .ok n o') : A.Holds o'.driver (bs ++ buf) := by
  obtain ⟨p, now, p', hw, hnow, hsync, -⟩ := write_ok hwrite
  exact (A.sync p' _ (A.appended_unsynced h hready hend hw hnow)).of_ok hsync

end

theorem not_appended (h : A.Holds o.driver bs)
    (hwrite : OpenFile.write buf o = .ok n o') (hsmall : o.file.cursor + buf.length < UInt32.size)
    (hend : ¬ o.AtEnd law buf) : ¬ A.Holds o'.driver (bs ++ buf) := by
  intro h'
  obtain ⟨z, hz, hlen⟩ := A.size _ bs h
  obtain ⟨z', hz', hlen'⟩ := A.size _ _ h'
  obtain ⟨-, hgrown⟩ := (law.ends_open_write hz buf).of_ok hwrite
  cases hgrown.symm.trans hz'
  have hbuf : buf ≠ [] := fun h0 => hend (Or.inl h0)
  have hpos : 0 < buf.length := List.length_pos_iff.mpr hbuf
  rw [List.length_append] at hlen'
  unfold grown at hlen'
  split at hlen'
  · omega
  · rw [UInt32.toNat_ofNat_of_lt' hsmall] at hlen'
    exact hend (Or.inr ⟨z, hz, by omega, by omega⟩)

end Arrays

/-! ## Handles of one inode -/

namespace SharedInode

/-- Writes that return `Ok`, through the handles of one inode. `Cond` holds before each. -/
inductive Writes (Cond : Opened σ δ → List UInt8 → Prop) :
    SharedInode σ δ → List (Nat × List UInt8) → SharedInode σ δ → Prop
  | nil {s : SharedInode σ δ} : Writes Cond s [] s
  | cons {s s' : SharedInode σ δ} {i n : Nat} {file : OpenFile} {buf : List UInt8}
      {o : Opened σ δ} {rest : List (Nat × List UInt8)} (hi : s.files[i]? = some file)
      (hcond : Cond (s.opened file) buf) (h : OpenFile.write buf (s.opened file) = .ok n o)
      (hrest : Writes Cond (s.after i o) rest s') : Writes Cond s ((i, buf) :: rest) s'

/-- All buffers follow the bytes that were there, in the order of the calls. -/
theorem Writes.appended {law : Sized σ δ} {A : Arrays law} {s s' : SharedInode σ δ}
    {bs : List UInt8}
    (hrun : Writes (fun o buf => (buf = [] ∨ A.Ready o.driver) ∧ o.AtEnd law buf) s ws s')
    (h : A.Holds (s.fs, s.inode.data) bs) :
    A.Holds (s'.fs, s'.inode.data) (bs ++ (ws.map Prod.snd).flatten) := by
  induction hrun generalizing bs with
  | nil => simpa using h
  | @cons s s' i n file buf o rest _ hcond hwrite _ ih =>
    have hnext := A.appended (o := s.opened file) h hcond.1 hcond.2 hwrite
    simpa using ih hnext

end SharedInode

/-! ## Handles with an inode each -/

/-- A driver that makes a new inode for every `open`. `Seen` tells the bytes that the file
has as a new inode would know it, and `Current` that an inode is like a new one. -/
structure Copied {law : Sized σ δ} (A : Arrays law) where
  Seen : σ → List UInt8 → Prop
  Current : σ × δ → Prop
  holds : ∀ (p : σ × δ) (bs : List UInt8), Seen p.1 bs → Current p → A.Holds p bs
  seen : ∀ (p : σ × δ) (bs : List UInt8), A.Holds p bs → Current p → Seen p.1 bs
  sync : ∀ (p : σ × δ) (bs : List UInt8), A.Holds p bs →
    Ends (InodeOps.sync p) (fun _ p' => Current p') (fun _ _ => True)

/-- The handles of a file when every `open` made an inode of its own. -/
structure Copies (σ δ : Type) where
  fs : σ
  handles : List (Inode δ × OpenFile)

namespace Copies

def opened (s : Copies σ δ) (h : Inode δ × OpenFile) : Opened σ δ := ⟨s.fs, h.1, h.2⟩

/-- Handle `i` after a call through it. -/
def after (s : Copies σ δ) (i : Nat) (o : Opened σ δ) : Copies σ δ :=
  ⟨o.fs, s.handles.set i (o.inode, o.file)⟩

inductive Writes (Cond : Opened σ δ → List UInt8 → Prop) :
    Copies σ δ → List (Nat × List UInt8) → Copies σ δ → Prop
  | nil {s : Copies σ δ} : Writes Cond s [] s
  | cons {s s' : Copies σ δ} {i n : Nat} {h : Inode δ × OpenFile} {buf : List UInt8}
      {o : Opened σ δ} {rest : List (Nat × List UInt8)} (hi : s.handles[i]? = some h)
      (hcond : Cond (s.opened h) buf) (hwrite : OpenFile.write buf (s.opened h) = .ok n o)
      (hrest : Writes Cond (s.after i o) rest s') : Writes Cond s ((i, buf) :: rest) s'

/-- As for one inode, if every inode is like a new one when it is used. -/
theorem Writes.appended {law : Sized σ δ} {A : Arrays law} {C : Copied A} {s s' : Copies σ δ}
    {bs : List UInt8}
    (hrun : Writes (fun o buf => C.Current o.driver ∧ (buf = [] ∨ A.Ready o.driver) ∧
      o.AtEnd law buf) s ws s') (h : C.Seen s.fs bs) :
    C.Seen s'.fs (bs ++ (ws.map Prod.snd).flatten) := by
  induction hrun generalizing bs with
  | nil => simpa using h
  | @cons s s' i n handle buf o rest _ hcond hwrite _ ih =>
    obtain ⟨hcur, hready, hend⟩ := hcond
    have hholds : A.Holds (s.opened handle).driver bs := C.holds _ bs h hcur
    obtain ⟨p, now, p', hw, hnow, hsync, -⟩ := write_ok hwrite
    have hp' := A.appended_unsynced hholds hready hend hw hnow
    have hcur' : C.Current o.driver := (C.sync p' _ hp').of_ok hsync
    have hnext : C.Seen o.fs (bs ++ buf) :=
      C.seen o.driver _ (A.appended hholds hready hend hwrite) hcur'
    simpa using ih hnext

end Copies

end zenos_kernel.disk.vfs
