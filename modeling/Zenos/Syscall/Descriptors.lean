-- The descriptors that `open`, `dup`, `dup2` and `close` give out and take back:
-- `syscall/open.rs`, `syscall/dup.rs`, `syscall/close.rs`. The arguments are `u64`, and the
-- keys of the table are `u32`.
import Zenos.Syscall.Caller

namespace zenos_kernel.syscall

open Outcome disk disk.vfs process FileHandles Caller

/-! ## The handlers -/

def MAX_PATH_LEN : Nat := 4096

/-- The characters of a string that `copy_string` accepted. -/
def as_str (buf : List UInt8) : List Char := Utf8.lossy buf.length buf

section Handlers

variable {φ σ δ : Type}

def dup (rdi : UInt64) : Handler φ σ δ :=
  answer (on_process (or_errno EBADF (FileHandles.dup_file_handle rdi none)))

def dup2 (rdi rsi : UInt64) : Handler φ σ δ :=
  answer <| on_process do
    let t ← get
    if rdi = rsi then
      if (t.get_file_handle rdi).isNone then throw (.err (errno EBADF)) else pure rsi
    else or_errno EBADF (FileHandles.dup_file_handle rdi (some rsi))

def close (rdi : UInt64) : Handler φ σ δ :=
  answer <| on_process do
    or_errno EBADF (FileHandles.close_file_handle rdi)
    pure 0

/-- The open file that `add_file_handle` makes, under the descriptor `fd`. -/
def Caller.add_file_handle (k : Caller φ σ δ) (fd : Nat) (inode : Inode δ) (file : OpenFile) :
    Caller φ σ δ :=
  { k with
    inodes := Function.update k.inodes k.next_inode inode
    opened := Function.update k.opened k.next_file ⟨k.next_inode, file⟩
    next_inode := k.next_inode + 1
    next_file := k.next_file + 1
    file_handles := k.file_handles.map (fun t => t.insert (UInt32.ofNat fd) k.next_file) }

variable [InodeOps σ δ] [FileSystem φ σ δ]

def open_ (rdi rsi : UInt64) : Handler φ σ δ :=
  answer fun k =>
    match copy_string k.memory rdi.toNat MAX_PATH_LEN with
    | .error e => .error (.err e) k
    | .ok buf =>
      let fds := k.file_handles.map AList.keys
      match open_inner k.vfs (as_str buf) (from_bits_truncate rsi) fds k.fs with
      | .ok (fd, inode, file) fs =>
        .ok (UInt64.ofNat fd) ({ k with fs }.add_file_handle fd inode file)
      | .error e fs => .error e { k with fs }

end Handlers

/-! ## The laws -/

namespace FileHandles

variable {ρ : Type} (t : FileHandles ρ)

/-- The table with a descriptor as a full `u64`. -/
def view (fd : UInt64) : Option ρ :=
  if fd.toNat < UInt32.size then t.lookup fd.toUInt32 else none

variable (key : UInt32)

theorem view_toUInt64 : t.view key.toUInt64 = t.lookup key := by
  have hkey : key.toUInt64.toNat < UInt32.size := by
    exact key.toNat_lt
  rw [view, if_pos hkey, UInt32.toUInt32_toUInt64]

variable {fd old_fd : UInt64} {f : ρ}

theorem toUInt64_toUInt32 (h : fd.toNat < UInt32.size) : fd.toUInt32.toUInt64 = fd := by
  apply UInt64.toNat_inj.mp
  exact Nat.mod_eq_of_lt h

theorem view_of_lt (h : fd.toNat < UInt32.size) :
    t.view fd = t.lookup fd.toUInt32 := if_pos h

theorem view_of_ge (h : ¬ fd.toNat < UInt32.size) : t.view fd = none := if_neg h

theorem view_edit {t' : FileHandles ρ} {key : UInt32} (h : ∀ k ≠ key, t'.lookup k = t.lookup k) :
    view t' = Function.update t.view key.toUInt64 (t'.lookup key) := by
  funext fd
  by_cases hfd : fd = key.toUInt64
  · rw [hfd, Function.update_self, view_toUInt64]
  · rw [Function.update_of_ne hfd]
    by_cases hlt : fd.toNat < UInt32.size
    · rw [view_of_lt _ hlt, view_of_lt _ hlt]
      exact h _ (fun hkey => hfd (by rw [← hkey, toUInt64_toUInt32 hlt]))
    · rw [view_of_ge _ hlt, view_of_ge _ hlt]

theorem view_insert (f : ρ) :
    view (t.insert key f) = Function.update t.view key.toUInt64 (some f) := by
  rw [view_edit t fun k => AList.lookup_insert_ne, AList.lookup_insert]

theorem view_erase : view (t.erase key) = Function.update t.view key.toUInt64 none := by
  rw [view_edit t fun k => AList.lookup_erase_ne, AList.lookup_erase]

/-! ## The next descriptor -/

theorem lt_new_fd {fds : List UInt32} {fd : UInt32} (h : fd ∈ fds) : fd.toNat < new_fd fds := by
  have hmem : fd.toNat ∈ fds.map UInt32.toNat := List.mem_map_of_mem h
  unfold new_fd
  cases hmax : (fds.map UInt32.toNat).max? with
  | none =>
    rw [List.max?_eq_none_iff.mp hmax] at hmem
    cases hmem
  | some m => exact Nat.lt_succ_of_le ((List.max?_eq_some_iff.mp hmax).2 _ hmem)

/-- The next descriptor is out of range exactly when the last one is in use. -/
theorem next_fd_eq_none_iff : t.next_fd = none ↔ 0xFFFFFFFF ∈ t := by
  have hsize : UInt32.size = 4294967296 := rfl
  have hlast : (0xFFFFFFFF : UInt32).toNat = 4294967295 := rfl
  unfold next_fd
  rw [ite_eq_right_iff]
  constructor
  · intro h
    have hbig : ¬ new_fd t.keys < UInt32.size := fun hlt => by cases h hlt
    unfold new_fd at hbig
    cases hmax : (t.keys.map UInt32.toNat).max? with
    | none =>
      rw [hmax] at hbig
      exact absurd (by decide) hbig
    | some m =>
      rw [hmax] at hbig
      obtain ⟨fd, hfd, hm⟩ := List.mem_map.mp (List.max?_eq_some_iff.mp hmax).1
      have hlt := fd.toNat_lt
      simp only [Option.getD_some] at hbig
      have heq : fd = 0xFFFFFFFF := by
        apply UInt32.toNat_inj.mp
        omega
      rw [← heq]
      exact hfd
  · intro hmem hlt
    have := lt_new_fd (AList.mem_keys.mp hmem)
    omega

variable {t : FileHandles ρ}

theorem next_fd_spec {fd : UInt32} (h : t.next_fd = some fd) :
    fd.toNat = new_fd t.keys ∧ t.lookup fd = none := by
  unfold next_fd at h
  split at h
  · rename_i hlt
    cases h
    have hval : (UInt32.ofNat (new_fd t.keys)).toNat = new_fd t.keys :=
      UInt32.toNat_ofNat_of_lt' hlt
    refine ⟨hval, AList.lookup_eq_none.mpr fun hmem => ?_⟩
    have := lt_new_fd (AList.mem_keys.mp hmem)
    omega
  · cases h

/-! ## The methods -/

theorem dup_file_handle_of_none (h : t.lookup old_fd.toUInt32 = none) (new_fd : Option UInt64) :
    dup_file_handle old_fd new_fd t = .error (.err ()) t := by
  unfold dup_file_handle
  simp only [get_bind, h, throw_run]

/-- The entry `key` becomes `f`, by way of a removal when there was one. -/
def replace (key : UInt32) (f : ρ) : FileHandles ρ :=
  (if key ∈ t then t.erase key else t).insert key f

theorem view_replace (f : ρ) :
    view (t.replace key f) = Function.update t.view key.toUInt64 (some f) := by
  unfold replace
  split
  · rw [view_insert, view_erase, Function.update_idem]
  · rw [view_insert]

section

variable (h : t.lookup old_fd.toUInt32 = some f)

include h

theorem dup_file_handle_to (new_fd : UInt64) :
    dup_file_handle old_fd (some new_fd) t = .ok new_fd (t.replace new_fd.toUInt32 f) := by
  unfold dup_file_handle replace
  simp only [get_bind, h, pure_bind_run]
  by_cases hmem : new_fd.toUInt32 ∈ t
  · simp only [if_pos hmem, modify_bind, pure_run]
  · simp only [if_neg hmem, modify_bind, pure_run]

theorem dup_file_handle_next {fd : UInt32} (hfd : t.next_fd = some fd) :
    dup_file_handle old_fd none t = .ok fd.toUInt64 (t.replace fd f) := by
  rw [show t.replace fd f = t.replace fd.toUInt64.toUInt32 f by rw [UInt32.toUInt32_toUInt64],
    ← dup_file_handle_to h]
  unfold dup_file_handle
  simp only [get_bind, hfd]

theorem dup_file_handle_panics (hfd : t.next_fd = none) :
    dup_file_handle old_fd none t = .error .panic t := by
  unfold dup_file_handle
  simp only [get_bind, h, hfd]
  rfl

end

theorem close_file_handle_of_none (h : t.lookup fd.toUInt32 = none) :
    close_file_handle fd t = .error (.err .InvalidFileDescriptor) t := by
  unfold close_file_handle
  simp only [get_bind, AList.extract_eq_lookup_erase, h, throw_run]

theorem close_file_handle_of_some (h : t.lookup fd.toUInt32 = some f) :
    close_file_handle fd t = .ok () (t.erase fd.toUInt32) := by
  unfold close_file_handle
  simp only [get_bind, AList.extract_eq_lookup_erase, h]
  rfl

end FileHandles

/-- `(ret as i64) < 0`. -/
def negative (ret : UInt64) : Bool := 2 ^ 63 ≤ ret.toNat

inductive DescriptorCall
  | open_ (rdi rsi : UInt64)
  | dup (old_fd : UInt64)
  | dup2 (old_fd new_fd : UInt64)
  | close (fd : UInt64)

section Laws

variable {φ σ δ : Type} [InodeOps σ δ] [FileSystem φ σ δ]

def Caller.call : DescriptorCall → Handler φ σ δ
  | .open_ rdi rsi => zenos_kernel.syscall.open_ rdi rsi
  | .dup old_fd => zenos_kernel.syscall.dup old_fd
  | .dup2 old_fd new_fd => zenos_kernel.syscall.dup2 old_fd new_fd
  | .close fd => zenos_kernel.syscall.close fd

variable (k : Caller φ σ δ)

/-- The call answers `v` and leaves the descriptors `after`. -/
def Caller.Answers (c : DescriptorCall) (v : UInt64)
    (after : UInt64 → Option Nat) : Prop :=
  ∃ k' t', Caller.call c k = .ok v k' ∧ k'.file_handles = some t' ∧ t'.view = after

/-- The file systems find or create the file, and it may be opened with these flags. -/
def Caller.Finds (rdi rsi : UInt64) : Prop :=
  ∃ buf inode fs, copy_string k.memory rdi.toNat MAX_PATH_LEN = .ok buf ∧
    (open_inode k.vfs (as_str buf) (from_bits_truncate rsi) k.fs :
      EStateM.Result _ σ (Inode δ)) = .ok inode fs ∧
    ¬(inode.kind = .Directory ∧ wants_write (from_bits_truncate rsi) = true)

/-- The file systems panic while they look for the file. -/
def Caller.FilesPanic (rdi rsi : UInt64) : Prop :=
  ∃ buf fs, copy_string k.memory rdi.toNat MAX_PATH_LEN = .ok buf ∧
    (open_inode k.vfs (as_str buf) (from_bits_truncate rsi) k.fs :
      EStateM.Result _ σ (Inode δ)) = .error .panic fs

/-- What the call has to do when the descriptors are `t`. -/
def Caller.Lawful (t : FileHandles Nat) : DescriptorCall → Prop
  | .open_ rdi rsi => k.FilesPanic rdi rsi ∨
      (∃ v, negative v ∧ k.Answers (.open_ rdi rsi) v t.view) ∨
      ∃ v, t.view v = none ∧
        k.Answers (.open_ rdi rsi) v (Function.update t.view v (some k.next_file))
  | .dup old_fd =>
      match t.view old_fd with
      | some f => ∃ v, t.view v = none ∧
          k.Answers (.dup old_fd) v (Function.update t.view v (some f))
      | none => k.Answers (.dup old_fd) (errno EBADF) t.view
  | .dup2 old_fd new_fd =>
      match t.view old_fd with
      | some f => k.Answers (.dup2 old_fd new_fd) new_fd (Function.update t.view new_fd (some f))
      | none => k.Answers (.dup2 old_fd new_fd) (errno EBADF) t.view
  | .close fd =>
      match t.view fd with
      | some _ => k.Answers (.close fd) 0 (Function.update t.view fd none)
      | none => k.Answers (.close fd) (errno EBADF) t.view

/-- The numbers fit the table. An argument of more than 32 bits must not name an entry by its
low half, except that the answer of `dup2` can be the number `EBADF` itself. -/
def Caller.Fits (t : FileHandles Nat) : DescriptorCall → Prop
  | .open_ rdi rsi => k.Finds rdi rsi → 0xFFFFFFFF ∉ t
  | .dup old_fd => old_fd.toUInt32 ∈ t → old_fd.toNat < UInt32.size ∧ 0xFFFFFFFF ∉ t
  | .dup2 old_fd new_fd => old_fd.toUInt32 ∈ t →
      (old_fd.toNat < UInt32.size ∧ new_fd.toNat < UInt32.size) ∨
      (¬ old_fd.toNat < UInt32.size ∧ new_fd = errno EBADF ∧
        t.lookup new_fd.toUInt32 = t.lookup old_fd.toUInt32)
  | .close fd => fd.toUInt32 ∈ t → fd.toNat < UInt32.size

end Laws

/-! ## What the handlers do -/

section Runs

variable {φ σ δ : Type} {k : Caller φ σ δ} {t t' : FileHandles Nat} {v e : UInt64}
  {x : EStateM (Fault UInt64) (FileHandles Nat) UInt64}

theorem answer_of_ok (hk : k.file_handles = some t) (h : x t = .ok v t') :
    answer (on_process x) k = .ok v { k with file_handles := some t' } := by
  simp only [answer, on_process, hk, h]

theorem answer_of_err (hk : k.file_handles = some t) (h : x t = .error (.err e) t') :
    answer (on_process x) k = .ok e { k with file_handles := some t' } := by
  simp only [answer, on_process, hk, h]

variable {ε τ α : Type} {y : EStateM (Fault ε) τ α} {s s' : τ} {a : α} {c : ε}

theorem or_errno_ok (h : y s = .ok a s') : or_errno e y s = .ok a s' := by
  simp only [or_errno, h]

theorem or_errno_err (h : y s = .error (.err c) s') :
    or_errno e y s = .error (.err (errno e)) s' := by
  simp only [or_errno, h]

end Runs

section Laws

variable {φ σ δ : Type} [InodeOps σ δ] [FileSystem φ σ δ] {k k' : Caller φ σ δ}
  {t t' : FileHandles Nat} {c : DescriptorCall} {v w e : UInt64} {after : UInt64 → Option Nat}
  {m : AddressSpace} {key : UInt32} {f : Nat}

theorem Caller.answers_iff (h : call c k = .ok v k') (hk' : k'.file_handles = some t') :
    k.Answers c w after ↔ w = v ∧ after = t'.view := by
  constructor
  · rintro ⟨k'', t'', hrun, ht, hafter⟩
    rw [h] at hrun
    cases hrun
    rw [hk'] at ht
    cases ht
    exact ⟨rfl, hafter.symm⟩
  · rintro ⟨rfl, rfl⟩
    exact ⟨k', t', h, hk', rfl⟩

theorem Caller.not_answers (h : call c k = .error .panic k') : ¬ k.Answers c w after := by
  rintro ⟨k'', t'', hrun, -, -⟩
  rw [h] at hrun
  cases hrun

theorem view_eq_none_of_lookup {fd : UInt64} (h : t.lookup fd.toUInt32 = none) :
    t.view fd = none := by
  unfold view
  rw [h, ite_self]

theorem mem_of_lookup (h : t.lookup key = some f) : key ∈ t :=
  AList.lookup_isSome.mp (by rw [h]; rfl)

theorem not_mem_of_lookup (h : t.lookup key = none) : key ∉ t :=
  AList.lookup_eq_none.mp h

section

variable (hk : k.file_handles = some t)

include hk

theorem lawful_close_iff (fd : UInt64) : k.Lawful t (.close fd) ↔ k.Fits t (.close fd) := by
  simp only [Lawful, Fits]
  cases hfd : t.lookup fd.toUInt32 with
  | none =>
    have hrun : call (.close fd) k =
        .ok (errno EBADF) { k with file_handles := some t } := by
      apply answer_of_err hk
      simp only [bind, EStateM.bind, or_errno_err (close_file_handle_of_none hfd)]
    simp only [view_eq_none_of_lookup hfd, answers_iff hrun rfl, not_mem_of_lookup hfd,
      and_self, false_implies]
  | some f =>
    have hrun : call (.close fd) k =
        .ok 0 { k with file_handles := some (t.erase fd.toUInt32) } := by
      apply answer_of_ok hk
      exact bind_of_ok (or_errno_ok (close_file_handle_of_some hfd))
    simp only [mem_of_lookup hfd, true_implies]
    by_cases hlt : fd.toNat < UInt32.size
    · simp only [view_of_lt t hlt, hfd, answers_iff hrun rfl, hlt, true_and,
         view_erase, toUInt64_toUInt32 hlt]
    · have hne : errno EBADF ≠ 0 := by decide
      simp only [view_of_ge t hlt, answers_iff hrun rfl, hlt, hne, false_and]

theorem lawful_dup_iff (old_fd : UInt64) : k.Lawful t (.dup old_fd) ↔ k.Fits t (.dup old_fd) := by
  simp only [Lawful, Fits]
  cases hold : t.lookup old_fd.toUInt32 with
  | none =>
    have hrun : call (.dup old_fd) k = .ok (errno EBADF) { k with file_handles := some t } :=
      answer_of_err hk (or_errno_err (dup_file_handle_of_none hold none))
    simp only [view_eq_none_of_lookup hold, answers_iff hrun rfl, not_mem_of_lookup hold,
      and_self, false_implies]
  | some f =>
    simp only [mem_of_lookup hold, true_implies]
    cases hnext : t.next_fd with
    | none =>
      have hrun : call (.dup old_fd) k = .error .panic { k with file_handles := some t } := by
        simp only [call, dup, answer, on_process, hk, or_errno, dup_file_handle_panics hold hnext]
      have hlast := (next_fd_eq_none_iff t).mp hnext
      simp only [not_answers hrun, hlast, not_true, and_false, exists_false, iff_false]
      split <;> exact id
    | some fd =>
      have hrun : call (.dup old_fd) k =
          .ok fd.toUInt64 { k with file_handles := some (t.replace fd f) } :=
        answer_of_ok hk (or_errno_ok (dup_file_handle_next hold hnext))
      have hlast : 0xFFFFFFFF ∉ t := fun hmem => by
        rw [(next_fd_eq_none_iff t).mpr hmem] at hnext
        cases hnext
      have hfree := (next_fd_spec hnext).2
      simp only [hlast, not_false_eq_true, and_true]
      by_cases hlt : old_fd.toNat < UInt32.size
      · simp only [view_of_lt t hlt, hold, answers_iff hrun rfl, hlt, iff_true]
        refine ⟨fd.toUInt64, ?_, rfl, (view_replace fd f).symm⟩
        rw [view_toUInt64, hfree]
      have hne : errno EBADF ≠ fd.toUInt64 := by
        intro heq
        have hval := congrArg UInt64.toNat heq
        rw [UInt32.toNat_toUInt64] at hval
        have := fd.toNat_lt
        have hebadf : (errno EBADF).toNat = 18446744073709551607 := by decide
        omega
      simp only [view_of_ge t hlt, answers_iff hrun rfl, hlt, hne, false_and]

/-- `dup2` of an open descriptor, whether the two arguments are the same or not. -/
theorem call_dup2 {old_fd : UInt64} (hold : t.lookup old_fd.toUInt32 = some f) (new_fd : UInt64) :
    ∃ t', call (.dup2 old_fd new_fd) k = .ok new_fd { k with file_handles := some t' } ∧
      t'.view = Function.update t.view new_fd.toUInt32.toUInt64 (some f) := by
  by_cases heq : old_fd = new_fd
  · subst heq
    have hget : t.get_file_handle old_fd = some f := hold
    refine ⟨t, answer_of_ok hk (by simp [hget]), ?_⟩
    rw [eq_comm, Function.update_eq_self_iff, view_toUInt64, hold]
  · refine ⟨t.replace new_fd.toUInt32 f, answer_of_ok hk ?_, view_replace _ f⟩
    simp only [if_neg heq]
    exact or_errno_ok (dup_file_handle_to hold new_fd)

theorem lawful_dup2_iff (old_fd new_fd : UInt64) :
    k.Lawful t (.dup2 old_fd new_fd) ↔ k.Fits t (.dup2 old_fd new_fd) := by
  simp only [Lawful, Fits]
  cases hold : t.lookup old_fd.toUInt32 with
  | none =>
    have hrun : call (.dup2 old_fd new_fd) k =
        .ok (errno EBADF) { k with file_handles := some t } := by
      apply answer_of_err hk
      simp only [get_bind, get_file_handle, hold]
      split
      · rfl
      · exact or_errno_err (dup_file_handle_of_none hold _)
    simp only [view_eq_none_of_lookup hold, answers_iff hrun rfl, not_mem_of_lookup hold,
      and_self, false_implies]
  | some f =>
    obtain ⟨t', hrun, hview⟩ := call_dup2 hk hold new_fd
    simp only [mem_of_lookup hold, true_implies]
    by_cases hlt : old_fd.toNat < UInt32.size
    · simp only [view_of_lt t hlt, hold, answers_iff hrun rfl, hlt, true_and,
        not_true, false_and, or_false, hview]
      constructor
      · intro h
        by_contra hbig
        have hat := congrFun (h.trans hview.symm) new_fd
        rw [Function.update_self, view_of_ge t' hbig] at hat
        cases hat
      · intro hnew
        rw [toUInt64_toUInt32 hnew]
    · simp only [view_of_ge t hlt, answers_iff hrun rfl, hlt, false_and,
        false_or, not_false_eq_true, true_and, hview, eq_comm (a := errno EBADF)]
      rw [eq_comm (a := t.view), Function.update_eq_self_iff, view_toUInt64, eq_comm (a := some f)]

/-! ## open -/

omit hk in
theorem negative_file_error (e : FileError) : negative (file_error_to_errno e) = true := by
  cases e <;> rfl

omit hk in
theorem negative_of_copy_bytes {n ptr : Nat}
    (h : copy_bytes m n ptr = .error e) : negative e = true := by
  rcases copy_bytes_cases m n ptr with ⟨-, hrun⟩ | ⟨-, hrun⟩
  · rw [hrun] at h
    cases h
    decide
  · rw [hrun] at h
    cases h

omit hk in
theorem negative_of_copy_string {ptr max_len : Nat}
    (h : copy_string m ptr max_len = .error e) : negative e = true := by
  rcases except_bind_error h with hbytes | ⟨r, h⟩
  · exact negative_of_copy_bytes hbytes
  dsimp only at h
  split at h
  · split at h
    · cases h
    · cases h
      decide
  · cases h
    decide

omit hk in
theorem negative_of_with_errno {α : Type} {x : EStateM (Fault FileError) σ α} {s s' : σ}
    (h : with_errno x s = .error (.err e) s') : negative e = true := by
  unfold with_errno at h
  split at h
  · cases h
  · rename_i f s'' hx
    cases f with
    | err e' =>
      cases h
      exact negative_file_error e'
    | panic => cases h

omit hk in
theorem negative_of_open_inode {vfs : VFS φ} {file_name : List Char} {foo : UInt64} {s s' : σ}
    (h : (open_inode vfs file_name foo s : EStateM.Result _ σ (Inode δ)) = .error (.err e) s') :
    negative e = true := by
  unfold open_inode at h
  split at h
  · cases h
    decide
  split at h
  · exact negative_of_with_errno h
  · cases h
  split at h
  · rename_i s1 _ _
    cases hcreate : with_errno (vfs.create_file (δ := δ) file_name created_perms) s1 with
    | error f s2 =>
      simp only [bind, EStateM.bind, hcreate] at h
      cases h
      exact negative_of_with_errno hcreate
    | ok inode s2 =>
      simp only [bind, EStateM.bind, hcreate, unwrap] at h
      split at h <;> cases h
  · cases h
    exact negative_file_error _

/-- What `open` does with the file that the file systems found. -/
theorem call_open_of_finds {rdi rsi : UInt64} (h : k.Finds rdi rsi) :
    (∀ fd, t.next_fd = some fd → ∃ k', call (.open_ rdi rsi) k = .ok fd.toUInt64 k' ∧
      k'.file_handles = some (t.insert fd k.next_file)) ∧
    (t.next_fd = none → ∃ k', call (.open_ rdi rsi) k = .error .panic k') := by
  obtain ⟨buf, inode, fs, hbuf, hinode, hdir⟩ := h
  have hinner : ∀ fds, open_inner k.vfs (as_str buf) (from_bits_truncate rsi) (some fds) k.fs =
      (if new_fd fds < UInt32.size then
        pure (new_fd fds, inode, { cursor := 0, file_open_options := from_bits_truncate rsi })
      else throw .panic : EStateM (Fault UInt64) σ (Nat × Inode δ × OpenFile)) fs := by
    intro fds
    unfold open_inner
    rw [bind_of_ok hinode, if_neg hdir]
  constructor
  · intro fd hfd
    unfold next_fd at hfd
    split at hfd
    · rename_i hlt
      cases hfd
      have hrun := hinner t.keys
      rw [if_pos hlt] at hrun
      let file : OpenFile := ⟨0, from_bits_truncate rsi⟩
      refine ⟨{ k with fs }.add_file_handle (new_fd t.keys) inode file, ?_, ?_⟩
      · simp only [call, open_, answer, hbuf, hk, Option.map_some, hrun, pure_run]
        congr 1
        apply UInt64.toNat_inj.mp
        rw [UInt32.toNat_toUInt64, UInt32.toNat_ofNat_of_lt' hlt]
        exact UInt64.toNat_ofNat_of_lt' (Nat.lt_trans hlt (by decide))
      · simp only [add_file_handle, hk, Option.map_some]
    · cases hfd
  · intro hfd
    have hbig : ¬ new_fd t.keys < UInt32.size := by
      intro hlt
      rw [next_fd, if_pos hlt] at hfd
      cases hfd
    have hrun := hinner t.keys
    rw [if_neg hbig] at hrun
    refine ⟨{ k with fs }, ?_⟩
    simp only [call, open_, answer, hbuf, hk, Option.map_some, hrun, throw_run]

/-- When there is no file to open, the answer is an error and the descriptors stay. -/
theorem call_open_of_not_finds {rdi rsi : UInt64}
    (h : ¬ k.Finds rdi rsi) (hfs : ¬ k.FilesPanic rdi rsi) :
    ∃ v k', negative v = true ∧ call (.open_ rdi rsi) k = .ok v k' ∧ k'.file_handles = some t := by
  cases hbuf : copy_string k.memory rdi.toNat MAX_PATH_LEN with
  | error e =>
    refine ⟨e, k, negative_of_copy_string hbuf, ?_, hk⟩
    simp only [call, open_, answer, hbuf]
  | ok buf =>
    cases hinode : (open_inode k.vfs (as_str buf) (from_bits_truncate rsi) k.fs :
      EStateM.Result _ σ (Inode δ)) with
    | error e fs =>
      cases e with
      | panic => exact absurd ⟨buf, fs, hbuf, hinode⟩ hfs
      | err e =>
        have hinner : (open_inner k.vfs (as_str buf) (from_bits_truncate rsi) (some t.keys) k.fs :
            EStateM.Result _ σ (Nat × Inode δ × OpenFile)) = .error (.err e) fs := by
          simp only [open_inner, bind, EStateM.bind, hinode]
        refine ⟨e, { k with fs }, negative_of_open_inode hinode, ?_, hk⟩
        simp only [call, open_, answer, hbuf, hk, Option.map_some, hinner]
    | ok inode fs =>
      have hdir : inode.kind = .Directory ∧ wants_write (from_bits_truncate rsi) = true := by
        by_contra hdir
        exact h ⟨buf, inode, fs, hbuf, hinode, hdir⟩
      have hinner : (open_inner k.vfs (as_str buf) (from_bits_truncate rsi) (some t.keys) k.fs :
          EStateM.Result _ σ (Nat × Inode δ × OpenFile)) = .error (.err (errno EISDIR)) fs := by
        unfold open_inner
        rw [bind_of_ok hinode, if_pos hdir, throw_run]
      refine ⟨errno EISDIR, { k with fs }, by decide, ?_, hk⟩
      simp only [call, open_, answer, hbuf, hk, Option.map_some, hinner]

theorem lawful_open_iff (rdi rsi : UInt64) :
    k.Lawful t (.open_ rdi rsi) ↔ k.Fits t (.open_ rdi rsi) := by
  simp only [Lawful, Fits]
  by_cases hfinds : k.Finds rdi rsi
  · obtain ⟨hok, hpanic⟩ := call_open_of_finds hk hfinds
    have hfs : ¬ k.FilesPanic rdi rsi := by
      obtain ⟨buf, inode, fs, hbuf, hinode, -⟩ := hfinds
      rintro ⟨buf', fs', hbuf', hinode'⟩
      rw [hbuf] at hbuf'
      cases hbuf'
      rw [hinode] at hinode'
      cases hinode'
    simp only [hfinds, hfs, false_or, true_implies]
    rw [← next_fd_eq_none_iff]
    cases hnext : t.next_fd with
    | none =>
      obtain ⟨k', hrun⟩ := hpanic hnext
      simp only [not_answers hrun, and_false, exists_false, or_false, not_true]
    | some fd =>
      obtain ⟨k', hrun, hk'⟩ := hok fd hnext
      simp only [reduceCtorEq, not_false_eq_true, iff_true]
      refine Or.inr ⟨fd.toUInt64, ?_, ⟨k', _, hrun, hk', view_insert t fd _⟩⟩
      rw [view_toUInt64, (next_fd_spec hnext).2]
  · simp only [hfinds, false_implies, iff_true]
    by_cases hfs : k.FilesPanic rdi rsi
    · exact Or.inl hfs
    · obtain ⟨v, k', hneg, hrun, hk'⟩ := call_open_of_not_finds hk hfinds hfs
      exact Or.inr (Or.inl ⟨v, hneg, k', t, hrun, hk', rfl⟩)

end

/-- The descriptors follow their laws exactly when the numbers fit the table. -/
theorem descriptor_laws_iff (hk : k.file_handles = some t) (c : DescriptorCall) :
    k.Lawful t c ↔ k.Fits t c := by
  cases c with
  | open_ rdi rsi => exact lawful_open_iff hk rdi rsi
  | dup old_fd => exact lawful_dup_iff hk old_fd
  | dup2 old_fd new_fd => exact lawful_dup2_iff hk old_fd new_fd
  | close fd => exact lawful_close_iff hk fd

end Laws

/-- A process whose descriptors are the entries of `t`, and nothing is mounted. -/
def consoleCaller (t : FileHandles Nat) : Caller Empty (List UInt8) Console where
  vfs := VFS.new
  fs := []
  inodes _ := ⟨0, .CharDevice, 0, OWNER_WRITE, 0, 0, 0, 0, 0, 0, .Stdout⟩
  opened _ := ⟨0, 0, READ_WRITE⟩
  next_inode := 1
  next_file := 3
  file_handles := some t
  memory := ⟨fun _ => false, fun _ => 0⟩

/-- Three descriptors of the console, as a new process has them. -/
def consoleHandles : FileHandles Nat :=
  (((∅ : FileHandles Nat).insert 0 0).insert 1 1).insert 2 2

/-- `dup2(1, 7)` makes 7 a descriptor of the same open file. -/
theorem descriptor_seven_is_stdout :
    (consoleCaller consoleHandles).Fits consoleHandles (.dup2 1 7) ∧
      (consoleCaller consoleHandles).Lawful consoleHandles (.dup2 1 7) := by
  have hfits : (consoleCaller consoleHandles).Fits consoleHandles (.dup2 1 7) :=
    fun _ => Or.inl (by decide)
  exact ⟨hfits, (descriptor_laws_iff rfl (.dup2 1 7)).mpr hfits⟩

/-- 2³² + 1 is not open, but `close` takes descriptor 1 away. `dup2` puts 2³² − 1 into the table,
and after that `dup` overflows. -/
theorem a_long_number_closes_stdout :
    ¬ (consoleCaller consoleHandles).Lawful consoleHandles (.close 0x100000001) ∧
      (consoleCaller consoleHandles).Lawful consoleHandles (.dup2 1 0xFFFFFFFF) ∧
      ¬ (consoleCaller (consoleHandles.insert 0xFFFFFFFF 1)).Lawful
        (consoleHandles.insert 0xFFFFFFFF 1) (.dup 1) := by
  refine ⟨?_, ?_, ?_⟩
  · rw [lawful_close_iff rfl]
    exact fun h => absurd (h (by decide)) (by decide)
  · rw [lawful_dup2_iff rfl]
    exact fun _ => Or.inl (by decide)
  · rw [lawful_dup_iff rfl]
    exact fun h => (h (by decide)).2 (by decide)

end zenos_kernel.syscall
