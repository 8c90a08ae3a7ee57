-- The count that a `write` reports. Callers loop on it, and the cursor of an open file moves
-- by it. A driver reports the length of the buffer; the console reports that of the text it
-- has printed, which stands in for a buffer that is not UTF-8.
import Zenos.Disk.DriverSizes
import Zenos.Syscall.Caller

namespace zenos_kernel.disk.vfs

open Outcome

variable {σ δ : Type} {buf : List UInt8} {write : Nat → List UInt8 → DriverM σ δ Nat}
  {reached : σ × δ → σ × δ → List UInt8 → Prop}

/-- A `write` of `buf` reports at most `buf`, and `reached` holds of what it reports. An open
file moves its cursor by no more, whatever the other calls of its inode are. -/
structure NeverMore (write : Nat → List UInt8 → DriverM σ δ Nat)
    (reached : σ × δ → σ × δ → List UInt8 → Prop) (buf : List UInt8) : Prop where
  count : ∀ offset p, Yields (write offset buf p)
    (fun n p' => n ≤ buf.length ∧ reached p p' (buf.take n))
  cursor : ∀ ops : InodeOps σ δ, ops.write = write → ∀ o : Opened σ δ,
    Always (OpenFile.write buf o) (fun o' => o'.file.cursor ≤ o.file.cursor + buf.length)

theorem keeps_cursor_settled [InodeOps σ δ] (n : Nat) :
    Keeps (fun o : Opened σ δ => o.file.cursor) (settled set_change_times n) := by
  have hdata {α : Type} (x : DriverM σ δ α) :
      Keeps (fun o : Opened σ δ => o.file.cursor) (on_data x) := keeps_zoom (by intros; rfl) x
  refine keeps_bind (hdata _) fun now => keeps_bind (keeps_modify fun _ => rfl) fun _ => ?_
  exact keeps_bind (hdata _) fun _ => keeps_pure n

/-- The cursor moves by the count. -/
theorem NeverMore.of_count (h : ∀ offset p, Yields (write offset buf p)
      (fun n p' => n ≤ buf.length ∧ reached p p' (buf.take n))) :
    NeverMore write reached buf := by
  refine ⟨h, ?_⟩
  rintro ops rfl o
  rw [OpenFile.write_eq]
  unfold transfer
  split
  · cases hx : ops.write o.file.cursor buf (o.fs, o.inode.data) with
    | error e p =>
      rw [bind_of_error (on_data_of_error hx)]
      exact Nat.le_add_right _ _
    | ok n p =>
      have hn := ((h _ _).of_ok hx).1
      rw [bind_of_ok (on_data_of_ok hx)]
      by_cases hroom : (put_data o p).file.cursor + id n < UInt64.size
      · rw [bind_of_ok (advance_of_lt hroom)]
        have hle := Nat.add_le_add_left hn o.file.cursor
        refine (keeps_cursor_settled n _).mono (fun _ _ h => ?_) fun _ _ h => ?_
        · exact h.trans_le hle
        · exact h.trans_le hle
      · rw [bind_of_error (advance_of_ge (Nat.le_of_not_lt hroom))]
        exact Nat.le_add_right _ _
  · exact Nat.le_add_right _ _

/-- A driver whose files report the length of the buffer. -/
theorem Sized.neverMore {ops : InodeOps σ δ} (law : Sized σ δ)
    (hdir : ∀ offset p, law.size p.2 = none → Yields (ops.write offset buf p) (fun _ _ => False)) :
    NeverMore ops.write (fun _ _ _ => True) buf := by
  refine .of_count fun offset p => ?_
  cases hz : law.size p.2 with
  | none => exact (hdir offset p hz).mono_ok fun _ _ hno => hno.elim
  | some z => exact (law.write p z offset buf hz).mono_ok fun n _ h => ⟨h.1.le, trivial⟩

end zenos_kernel.disk.vfs

namespace zenos_kernel.disk.fs.proc

open vfs

/-- The inodes of `/proc`. -/
inductive ProcNode
  | ProcRootDir
  | ProcessDir
  | ProcFile

def ProcNode.write {σ : Type} (_offset : Nat) (_buf : List UInt8) : DriverM σ ProcNode Nat := do
  let p ← get
  match p.2 with
  | .ProcRootDir => throw (.err .IsADirectory)
  | .ProcessDir => throw (.err .IsADirectory)
  | .ProcFile => throw (.err .ReadOnlyFilesystem)

end zenos_kernel.disk.fs.proc

namespace zenos_kernel.syscall

open disk.vfs disk.fs

/-- The bytes come first of what the call adds to the screen. -/
def Console.Reached (p p' : List UInt8 × Console) (bytes : List UInt8) : Prop :=
  p.1 ++ bytes <+: p'.1

/-- The console keeps to it exactly when it prints the buffer, or the buffer starts with the
text that is printed in its place. -/
theorem console_neverMore_iff (buf : List UInt8) :
    NeverMore (InodeOps.write (σ := List UInt8) (δ := Console)) Console.Reached buf ↔
      Utf8.valid buf = true ∨ "<invalid utf-8>".toUTF8.toList <+: buf := by
  have htext : "<invalid utf-8>".toUTF8.toList = printed [0xff] := by decide +kernel
  have hprinted : printed buf <+: buf ↔ Utf8.valid buf = true ∨ printed [0xff] <+: buf := by
    by_cases hv : Utf8.valid buf = true
    · simp [printed, hv]
    · rw [printed, if_neg hv]
      exact (or_iff_right hv).symm
  rw [htext, ← hprinted, List.prefix_iff_eq_take]
  constructor
  · intro h
    have hreached : buf.take (printed buf).length <+: printed buf :=
      ((h.count 0 ([], .Stdout)).of_ok rfl).2
    have hle : (printed buf).length ≤ buf.length := ((h.count 0 ([], .Stdout)).of_ok rfl).1
    refine (hreached.eq_of_length ?_).symm
    rw [List.length_take, Nat.min_eq_left hle]
  · intro h
    refine .of_count fun offset p => ⟨?_, ?_⟩
    · rw [h, List.length_take]
      exact Nat.min_le_right _ _
    · rw [← h]
      change _ <+: p.1 ++ p.2.screen (printed buf)
      rw [List.prefix_append_right_inj]
      cases p.2 with
      | Stdout => exact List.prefix_rfl
      | Stderr => exact List.prefix_append _ _

/-- No driver reports more than it was given, and the console does not as far as it can print
the buffer. -/
theorem writes_report_at_most_iff (buf : List UInt8) :
    NeverMore (InodeOps.write (σ := ext2.Ext2FSInner) (δ := ext2.Ext2Data))
      (fun _ _ _ => True) buf ∧
    (∀ table, NeverMore (fat.FatFileSystem.inodeOps table).write (fun _ _ _ => True) buf) ∧
    (∀ σ, NeverMore (σ := σ) proc.ProcNode.write (fun _ _ _ => True) buf) ∧
    (NeverMore (InodeOps.write (σ := List UInt8) (δ := Console)) Console.Reached buf ↔
      Utf8.valid buf = true ∨ "<invalid utf-8>".toUTF8.toList <+: buf) := by
  refine ⟨ext2.sized.neverMore ?_, fun table => (fat.FatFileSystem.sized table).neverMore ?_,
    fun σ => .of_count ?_, console_neverMore_iff buf⟩
  · rintro offset ⟨s, data⟩ hdir
    cases data with
    | file ino num => cases hdir
    | dir ino num => exact trivial
  · rintro offset ⟨s, data⟩ hdir
    cases data with
    | file f => cases hdir
    | dir d => exact trivial
  · rintro offset ⟨s, node⟩
    cases node with
    | ProcRootDir => exact trivial
    | ProcessDir => exact trivial
    | ProcFile => exact trivial

/-- One byte is reported as fifteen. -/
theorem a_byte_is_reported_as_fifteen :
    ¬ NeverMore (InodeOps.write (σ := List UInt8) (δ := Console)) Console.Reached [0xff] := by
  intro h
  have hle : 15 ≤ 1 := ((h.count 0 ([], .Stdout)).of_ok rfl).1
  exact absurd hle (by decide)

end zenos_kernel.syscall
