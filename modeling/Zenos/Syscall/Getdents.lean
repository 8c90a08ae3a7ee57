-- `getdents64`: `syscall/getdents.rs`. The loop counts the aligned length of a record
-- against the buffer of the caller, and copies the whole struct.
import Zenos.Ext2.ByteArray
import Zenos.Ext2.Mount
import Zenos.Process.Loader
import Zenos.Syscall.UserCopy
import Zenos.Syscall.Descriptors

namespace zenos_kernel.syscall

open Outcome Bytes disk disk.vfs process Caller

/-! ## Records -/

def filetype_to_dtype : FileType → UInt8
  | .Fifo => 1
  | .CharDevice => 2
  | .Directory => 4
  | .BlockDevice => 6
  | .File => 8
  | .Symlink => 10
  | .Socket => 12

/-- `(len + 7) & !7`. -/
def align_up (len : Nat) : Nat := (len + 7) / 8 * 8

section Records

variable {δ : Type}

/-- The bytes of the name that go into the record. -/
def DirEntry.name_bytes (dentry : DirEntry δ) : List UInt8 :=
  dentry.name.toUTF8.data.toList.take 255

def DirEntry.reclen (dentry : DirEntry δ) : Nat :=
  align_up (8 + 8 + 2 + 1 + (DirEntry.name_bytes dentry).length + 1)

/-- The bytes of a `LinuxDirent64`. The struct has five bytes behind `d_name` that belong to no
field, and nothing sets them. -/
def linux_dirent (padding : Vector UInt8 5) (offset : Nat) (dentry : DirEntry δ) : List UInt8 :=
  le64 dentry.inode.num.toNat ++ le64 (offset + 1) ++
    le16 (UInt16.ofNat (DirEntry.reclen dentry)) ++ [filetype_to_dtype dentry.file_type] ++
    (DirEntry.name_bytes dentry ++ List.replicate (256 - (DirEntry.name_bytes dentry).length) 0) ++
    padding.toList

/-- `size_of::<LinuxDirent64>()`. -/
def size_of_dirent : Nat := 280

end Records

/-! ## The loop -/

/-- The variables of the loop, with the memory of the caller. -/
structure Fill where
  memory : AddressSpace
  user_buf : Nat
  bytes_written : Nat
  offset : Nat

section Loop

variable {φ σ δ : Type}

/-- The loop over the entries that are left. `padding` is what the struct of a record holds
behind its fields. -/
def fill (padding : Nat → Vector UInt8 5) (buf_size : Nat) :
    List (DirEntry δ) → EStateM (Fault UInt64) Fill Unit
  | [] => pure ()
  | dentry :: dentries => do
    let f ← get
    if f.bytes_written + DirEntry.reclen dentry > buf_size then pure ()
    else
      match copy_to_user f.memory f.user_buf (linux_dirent (padding f.offset) f.offset dentry) with
      | none => throw (.err (errno EFAULT))
      | some memory => do
        set { memory
              user_buf := f.user_buf + DirEntry.reclen dentry
              bytes_written := f.bytes_written + DirEntry.reclen dentry
              offset := f.offset + 1 : Fill }
        fill padding buf_size dentries

variable (k : Caller φ σ δ)

/-- The driver has worked on the data of an inode. -/
def Caller.set_data (inode : Nat) (p : σ × δ) : Caller φ σ δ :=
  { k with
    fs := p.1
    inodes := Function.update k.inodes inode { k.inodes inode with data := p.2 } }

@[simp] theorem Caller.set_data_opened (inode : Nat) (p : σ × δ) :
    (k.set_data inode p).opened = k.opened := rfl

@[simp] theorem Caller.set_data_memory (inode : Nat) (p : σ × δ) :
    (k.set_data inode p).memory = k.memory := rfl

/-- The loop has left `f`. -/
def Caller.after_fill (file : Nat) (f : Fill) : Caller φ σ δ :=
  { k with
    memory := f.memory
    opened := Function.update k.opened file
      { k.opened file with file := { (k.opened file).file with cursor := f.offset } } }

/-- What is left of the call once the directory is read. -/
def list_dir (padding : Nat → Vector UInt8 5) (file user_buf buf_size : Nat)
    (dentries : List (DirEntry δ)) : CallerM φ σ δ UInt64 := fun k =>
  let cursor := (k.opened file).file.cursor
  match fill padding buf_size (dentries.drop cursor) ⟨k.memory, user_buf, 0, cursor⟩ with
  | .error e f => .error e { k with memory := f.memory }
  | .ok () f => .ok (UInt64.ofNat f.bytes_written) (k.after_fill file f)

def getdents64 [InodeOps σ δ] (padding : Nat → Vector UInt8 5) (rdi rsi rdx : UInt64) :
    Handler φ σ δ :=
  answer fun k =>
    match k.file_handles with
    | none => .error (.err (errno ESRCH)) k
    | some t =>
      match t.get_file_handle rdi with
      | none => .error (.err (errno EBADF)) k
      | some file =>
        let inode := (k.opened file).inode
        match InodeOps.read_dir (k.fs, (k.inodes inode).data) with
        | .error e p => .error (errno_fault e) (k.set_data inode p)
        | .ok dentries p =>
          list_dir padding file rsi.toNat rdx.toNat dentries (k.set_data inode p)

end Loop

/-! ## What the loop writes -/

section Spec

variable {δ : Type} (d : DirEntry δ)

theorem length_name_bytes : (DirEntry.name_bytes d).length ≤ 255 := by
  unfold DirEntry.name_bytes
  rw [List.length_take]
  exact Nat.min_le_left _ _

theorem length_linux_dirent (padding : Vector UInt8 5) (offset : Nat) (d : DirEntry δ) :
    (linux_dirent padding offset d).length = size_of_dirent := by
  have := length_name_bytes d
  simp [linux_dirent, size_of_dirent]
  omega

theorem reclen_bounds :
    20 + (DirEntry.name_bytes d).length ≤ DirEntry.reclen d ∧
      DirEntry.reclen d ≤ size_of_dirent := by
  have := length_name_bytes d
  unfold DirEntry.reclen align_up size_of_dirent
  omega

/-- The length of the records of some entries. -/
def total (ds : List (DirEntry δ)) : Nat := (ds.map DirEntry.reclen).sum

@[simp] theorem total_nil : total ([] : List (DirEntry δ)) = 0 := rfl

@[simp] theorem total_cons (ds : List (DirEntry δ)) :
    total (d :: ds) = DirEntry.reclen d + total ds := by simp [total]

@[simp] theorem total_append (ds ds' : List (DirEntry δ)) :
    total (ds ++ ds') = total ds + total ds' := by simp [total]

/-- The structs of the records for entries `offset`, `offset + 1` and so on, from `addr` on. -/
def structs (padding : Nat → Vector UInt8 5) (addr offset : Nat) :
    List (DirEntry δ) → List (Nat × List UInt8)
  | [] => []
  | d :: ds => (addr, linux_dirent (padding offset) offset d) ::
      structs padding (addr + DirEntry.reclen d) (offset + 1) ds

/-- The loop has put the records of `done` into the buffer. -/
structure Filled (padding : Nat → Vector UInt8 5) (f f' : Fill)
    (done : List (DirEntry δ)) : Prop where
  mapped : f'.memory.mapped = f.memory.mapped
  byte : f'.memory.byte = applyWrites (structs padding f.user_buf f.offset done) f.memory.byte
  user_buf : f'.user_buf = f.user_buf + total done
  bytes_written : f'.bytes_written = f.bytes_written + total done
  offset : f'.offset = f.offset + done.length

variable (padding : Nat → Vector UInt8 5)

theorem Filled.refl (f : Fill) : Filled padding f f ([] : List (DirEntry δ)) where
  mapped := rfl
  byte := rfl
  user_buf := rfl
  bytes_written := rfl
  offset := rfl

variable {d : DirEntry δ}

/-- One more record at the front. -/
theorem Filled.cons {padding : Nat → Vector UInt8 5} {f f1 f' : Fill} {done : List (DirEntry δ)}
    (h : Filled padding f1 f' done) (hf : f1 = ⟨⟨f.memory.mapped,
      splice f.memory.byte f.user_buf (linux_dirent (padding f.offset) f.offset d)⟩,
      f.user_buf + DirEntry.reclen d, f.bytes_written + DirEntry.reclen d, f.offset + 1⟩) :
    Filled padding f f' (d :: done) := by
  subst hf
  refine ⟨h.mapped, h.byte, ?_, ?_, ?_⟩
  · simp [h.user_buf, Nat.add_assoc]
  · simp [h.bytes_written, Nat.add_assoc]
  · simp [h.offset, Nat.add_assoc, Nat.add_comm 1]

/-- The entries whose records the loop delivers. -/
def delivered (m : AddressSpace) (buf_size : Nat) :
    Nat → Nat → List (DirEntry δ) → List (DirEntry δ)
  | _, _, [] => []
  | user_buf, bytes_written, d :: ds =>
    if bytes_written + DirEntry.reclen d > buf_size then []
    else if user_range_is_mapped m user_buf size_of_dirent then
      d :: delivered m buf_size (user_buf + DirEntry.reclen d)
        (bytes_written + DirEntry.reclen d) ds
    else []

theorem delivered_congr {m m' : AddressSpace} (h : m'.mapped = m.mapped)
    (buf_size user_buf bytes_written : Nat) (ds : List (DirEntry δ)) :
    delivered m' buf_size user_buf bytes_written ds =
      delivered m buf_size user_buf bytes_written ds := by
  induction ds generalizing user_buf bytes_written with
  | nil => rfl
  | cons d ds ih => simp only [delivered, user_range_is_mapped_congr h, ih]

/-- The entries delivered from the state of the loop. -/
def Fill.delivered (f : Fill) (buf_size : Nat) (ds : List (DirEntry δ)) : List (DirEntry δ) :=
  zenos_kernel.syscall.delivered f.memory buf_size f.user_buf f.bytes_written ds

/-- How the loop ends: at the end of the directory, before a record that does not fit, or at a
struct that cannot be copied. -/
theorem ends_fill (buf_size : Nat) (ds : List (DirEntry δ)) (f : Fill) :
    Ends (fill padding buf_size ds f) (fun _ f' => Filled padding f f' (f.delivered buf_size ds) ∧
        ∃ rest, ds = f.delivered buf_size ds ++ rest ∧
          ∀ d ∈ rest.head?, buf_size < f'.bytes_written + DirEntry.reclen d)
      (fun e f' => e = .err (errno EFAULT) ∧ Filled padding f f' (f.delivered buf_size ds) ∧
        ∃ d rest, ds = f.delivered buf_size ds ++ d :: rest ∧
          f'.bytes_written + DirEntry.reclen d ≤ buf_size ∧
          ¬ user_range_is_mapped f.memory f'.user_buf size_of_dirent = true) := by
  induction ds generalizing f with
  | nil => exact ⟨Filled.refl padding f, [], rfl, by simp⟩
  | cons d ds ih =>
    unfold fill
    simp only [get_bind]
    have hlen := length_linux_dirent (padding f.offset) f.offset d
    split
    · rename_i hbig
      have hnone : f.delivered buf_size (d :: ds) = [] := if_pos hbig
      rw [hnone]
      exact ⟨Filled.refl padding f, d :: ds, rfl, by simpa using hbig⟩
    rename_i hsmall
    have hfit : f.bytes_written + DirEntry.reclen d ≤ buf_size := Nat.le_of_not_lt hsmall
    by_cases hmapped : user_range_is_mapped f.memory f.user_buf size_of_dirent = true
    · rw [copy_to_user_eq (by rw [hlen]; exact hmapped)]
      -- what the rest of the loop delivers depends on the mappings only
      have hmore : f.delivered buf_size (d :: ds) = d :: Fill.delivered
          ⟨⟨f.memory.mapped,
            splice f.memory.byte f.user_buf (linux_dirent (padding f.offset) f.offset d)⟩,
            f.user_buf + DirEntry.reclen d, f.bytes_written + DirEntry.reclen d, f.offset + 1⟩
          buf_size ds := by
        unfold Fill.delivered
        rw [delivered, if_neg hsmall, if_pos hmapped]
        apply congrArg (d :: ·)
        apply delivered_congr
        rfl
      rw [hmore]
      refine (ih _).mono ?_ ?_
      · rintro - f' ⟨hfilled, rest, hds, hrest⟩
        exact ⟨hfilled.cons rfl, rest, congrArg (d :: ·) hds, hrest⟩
      · rintro e f' ⟨he, hfilled, d', rest, hds, hroom, hno⟩
        refine ⟨he, hfilled.cons rfl, d', rest, congrArg (d :: ·) hds, hroom, ?_⟩
        rwa [user_range_is_mapped_congr rfl] at hno
    · rw [copy_to_user_refused (by rw [hlen]; decide) (by rw [hlen]; exact hmapped)]
      have hnone : f.delivered buf_size (d :: ds) = [] := by
        unfold Fill.delivered
        rw [delivered, if_neg hsmall, if_neg hmapped]
      rw [hnone]
      exact ⟨rfl, Filled.refl padding f, d, ds, rfl, hfit, hmapped⟩

/-! ## Which bytes change -/

theorem covered_structs (addr offset : Nat) (ds : List (DirEntry δ)) (i : Nat) :
    Covered (structs padding addr offset ds) i ↔ ∃ before d after, ds = before ++ d :: after ∧
      addr + total before ≤ i ∧ i < addr + total before + size_of_dirent := by
  induction ds generalizing addr offset with
  | nil => simp [Covered, structs]
  | cons d ds ih =>
    have hhead : Covered (structs padding addr offset (d :: ds)) i ↔
        (addr ≤ i ∧ i < addr + size_of_dirent) ∨
          Covered (structs padding (addr + DirEntry.reclen d) (offset + 1) ds) i := by
      simp [Covered, structs, length_linux_dirent]
    rw [hhead, ih]
    constructor
    · rintro (hin | ⟨before, d', after, rfl, hlow, hhigh⟩)
      · exact ⟨[], d, ds, rfl, by simpa using hin⟩
      · refine ⟨d :: before, d', after, rfl, ?_⟩
        rw [total_cons]
        omega
    · rintro ⟨before, d', after, hds, hlow, hhigh⟩
      cases before with
      | nil =>
        left
        simpa using ⟨hlow, hhigh⟩
      | cons x before =>
        injection hds with hx hrest
        subst hx
        rw [total_cons] at hlow hhigh
        exact Or.inr ⟨before, d', after, hrest, by omega, by omega⟩

variable {ds : List (DirEntry δ)} {m : AddressSpace} {buf_size user_buf bytes_written : Nat}

/-- The first entry is delivered when its record fits and the memory of its struct is mapped. -/
theorem delivered_cons_iff {more : List (DirEntry δ)} :
    delivered m buf_size user_buf bytes_written ds = d :: more ↔ ∃ after, ds = d :: after ∧
      bytes_written + DirEntry.reclen d ≤ buf_size ∧
      user_range_is_mapped m user_buf size_of_dirent = true ∧
      delivered m buf_size (user_buf + DirEntry.reclen d) (bytes_written + DirEntry.reclen d) after
        = more := by
  cases ds with
  | nil => simp [delivered]
  | cons d' ds =>
    rw [delivered]
    split
    · simp only [reduceCtorEq, false_iff]
      rintro ⟨after, hds, hfit, -⟩
      cases hds
      omega
    · split
      · grind
      · grind

/-- An entry is delivered exactly when the records up to it fit and the memory up to the end of
its struct is mapped. -/
theorem delivered_iff {before : List (DirEntry δ)} :
    (∃ more, delivered m buf_size user_buf bytes_written ds = before ++ d :: more) ↔
      (∃ after, ds = before ++ d :: after) ∧
        bytes_written + total before + DirEntry.reclen d ≤ buf_size ∧
        user_range_is_mapped m user_buf (total before + size_of_dirent) = true := by
  induction before generalizing user_buf bytes_written ds with
  | nil =>
    simp only [List.nil_append, delivered_cons_iff, total_nil, Nat.zero_add]
    constructor
    · rintro ⟨_, after, rfl, hfit, hmapped, -⟩
      exact ⟨⟨after, rfl⟩, hfit, hmapped⟩
    · rintro ⟨⟨after, rfl⟩, hfit, hmapped⟩
      exact ⟨_, after, rfl, hfit, hmapped, rfl⟩
  | cons x before ih =>
    have hx := (reclen_bounds x).2
    simp only [List.cons_append, delivered_cons_iff, total_cons]
    constructor
    · rintro ⟨more, _, rfl, _, hmapped, hmore⟩
      obtain ⟨⟨after, rfl⟩, hfit, hrest⟩ := ih.mp ⟨more, hmore⟩
      refine ⟨⟨after, rfl⟩, by omega, ?_⟩
      rw [Nat.add_assoc]
      exact mapped_append hmapped hrest hx
    · rintro ⟨⟨after, rfl⟩, hfit, hrest⟩
      have hin : total before + size_of_dirent ≠ 0 := by simp [size_of_dirent]
      obtain ⟨more, hmore⟩ := ih.mpr ⟨⟨after, rfl⟩,
        show bytes_written + DirEntry.reclen x + _ + _ ≤ _ by omega,
        mapped_sub (o := DirEntry.reclen x) hrest hin (by omega)⟩
      exact ⟨more, _, rfl, by omega, mapped_sub (o := 0) hrest (by decide) (by omega), hmore⟩

theorem total_delivered_le (m : AddressSpace) (buf_size user_buf bytes_written : Nat)
    (ds : List (DirEntry δ)) :
    total (delivered m buf_size user_buf bytes_written ds) ≤ LOWER_HALF_END := by
  cases hdone : delivered m buf_size user_buf bytes_written ds using List.reverseRecOn with
  | nil => exact Nat.zero_le _
  | append_singleton before d =>
    have hmapped := (delivered_iff.mp ⟨[], hdone⟩).2.2
    have hend := ((user_range_is_mapped_iff _ _ _).mp hmapped).2.2.1
    have hle := (reclen_bounds d).2
    rw [total_append, total_cons, total_nil]
    omega

/-! ## What the records say -/

/-- The bytes of a record: the header, and the name with a NUL behind it. -/
structure IsRecord (offset : Nat) (d : DirEntry δ) (bytes : List UInt8) : Prop where
  length : bytes.length = DirEntry.reclen d
  header : bytes.take 19 = le64 d.inode.num.toNat ++ le64 (offset + 1) ++
    le16 (UInt16.ofNat (DirEntry.reclen d)) ++ [filetype_to_dtype d.file_type]
  name : (bytes.drop 19).take ((DirEntry.name_bytes d).length + 1) = DirEntry.name_bytes d ++ [0]

/-- The bytes are the records of the entries `offset`, `offset + 1` and so on, one after the
other. -/
def AreRecords (offset : Nat) : List (DirEntry δ) → List UInt8 → Prop
  | [], bytes => bytes = []
  | d :: ds, bytes => ∃ first rest, bytes = first ++ rest ∧ IsRecord offset d first ∧
      AreRecords (offset + 1) ds rest

variable {offset : Nat} {bytes : List UInt8}

theorem AreRecords.append {ds' : List (DirEntry δ)} {bytes' : List UInt8}
    (h : AreRecords offset ds bytes) (h' : AreRecords (offset + ds.length) ds' bytes') :
    AreRecords offset (ds ++ ds') (bytes ++ bytes') := by
  induction ds generalizing offset bytes with
  | nil =>
    have hnil : bytes = [] := h
    rw [hnil]
    exact h'
  | cons d ds ih =>
    obtain ⟨first, rest, rfl, hfirst, hrest⟩ := h
    refine ⟨first, rest ++ bytes', by rw [List.append_assoc], hfirst, ih hrest ?_⟩
    rwa [Nat.add_assoc, Nat.add_comm 1]

theorem isRecord_take (padding : Vector UInt8 5) (offset : Nat) (d : DirEntry δ) :
    IsRecord offset d ((linux_dirent padding offset d).take (DirEntry.reclen d)) := by
  obtain ⟨hlow, hhigh⟩ := reclen_bounds d
  have hlen := length_linux_dirent padding offset d
  have hname := length_name_bytes d
  have h19 : (le64 d.inode.num.toNat ++ le64 (offset + 1) ++
      le16 (UInt16.ofNat (DirEntry.reclen d)) ++ [filetype_to_dtype d.file_type]).length = 19 := by
    simp
  refine ⟨?_, ?_, ?_⟩
  · rw [List.length_take, hlen]
    exact Nat.min_eq_left hhigh
  · rw [List.take_take]
    unfold linux_dirent
    rw [List.append_assoc _ _ padding.toList, List.take_append_of_le_length (by omega)]
    exact List.take_of_length_le (by omega)
  · rw [List.drop_take, List.take_take, Nat.min_eq_left (by omega)]
    unfold linux_dirent
    rw [List.append_assoc _ _ padding.toList, ← h19, List.drop_left, List.append_assoc]
    rw [List.take_append, List.take_of_length_le (by omega)]
    congr 1
    have hone : (DirEntry.name_bytes d).length + 1 - (DirEntry.name_bytes d).length = 1 := by omega
    have hmore : 256 - (DirEntry.name_bytes d).length =
        (255 - (DirEntry.name_bytes d).length) + 1 := by omega
    rw [hone, hmore]
    rfl

/-- The bytes that the loop has counted are the records of the entries delivered. -/
theorem areRecords_structs (mem : Nat → UInt8) (addr offset : Nat) (ds : List (DirEntry δ)) :
    AreRecords offset ds
      (slice (applyWrites (structs padding addr offset ds) mem) addr (total ds)) := by
  induction ds generalizing mem addr offset with
  | nil => rfl
  | cons d ds ih =>
    have hle : DirEntry.reclen d ≤ (linux_dirent (padding offset) offset d).length := by
      rw [length_linux_dirent]
      exact (reclen_bounds d).2
    rw [total_cons, ← slice_append]
    refine ⟨_, _, rfl, ?_, ih _ _ _⟩
    -- the structs behind it start at its end
    have hfirst :
        slice (applyWrites (structs padding addr offset (d :: ds)) mem) addr (DirEntry.reclen d) =
          (linux_dirent (padding offset) offset d).take (DirEntry.reclen d) := by
      rw [← slice_splice_front mem addr hle]
      apply slice_congr
      intro i hlow hhigh
      refine applyWrites_outside _ (?_ : ¬ Covered (structs padding _ _ ds) i)
      rw [covered_structs]
      rintro ⟨before, d, after, -, hfrom, -⟩
      omega
    rw [hfirst]
    exact isRecord_take (padding offset) offset d

/-- A sequence of records, as the reader steps through it by `d_reclen`. -/
inductive RecordSeq : List UInt8 → Prop
  | nil : RecordSeq []
  | cons {first rest : List UInt8} : 0 < first.length → (u16At first 16).toNat = first.length →
      RecordSeq rest → RecordSeq (first ++ rest)

theorem IsRecord.d_reclen (h : IsRecord offset d bytes) :
    (u16At bytes 16).toNat = bytes.length := by
  obtain ⟨hlow, hhigh⟩ := reclen_bounds d
  have hlen := h.length
  have hsplit := List.take_append_drop 19 bytes
  have hval : u16At bytes 16 = UInt16.ofNat (DirEntry.reclen d) := by
    rw [← hsplit, h.header]
    have hskip := u16At_append (le64 d.inode.num.toNat ++ le64 (offset + 1))
      (le16 (UInt16.ofNat (DirEntry.reclen d))) 0
    exact hskip.trans (u16At_le16 _)
  rw [hval, hlen, UInt16.toNat_ofNat_of_lt']
  unfold size_of_dirent at hhigh
  have : UInt16.size = 65536 := rfl
  omega

theorem AreRecords.recordSeq (h : AreRecords offset ds bytes) : RecordSeq bytes := by
  induction ds generalizing offset bytes with
  | nil =>
    have hnil : bytes = [] := h
    rw [hnil]
    exact RecordSeq.nil
  | cons d ds ih =>
    obtain ⟨first, rest, rfl, hfirst, hrest⟩ := h
    refine RecordSeq.cons ?_ hfirst.d_reclen (ih hrest)
    rw [hfirst.length]
    have := (reclen_bounds d).1
    omega

end Spec

/-! ## The call -/

section Call

variable {φ σ δ : Type} [InodeOps σ δ] (k : Caller φ σ δ)

/-- The entries that a call has still to deliver: those of the directory behind the cursor. -/
def Caller.pending (rdi : UInt64) : List (DirEntry δ) :=
  match k.file_handles.bind (fun t => t.get_file_handle rdi) with
  | none => []
  | some file =>
    match InodeOps.read_dir (k.fs, (k.inodes (k.opened file).inode).data) with
    | .error _ _ => []
    | .ok dentries _ => dentries.drop (k.opened file).file.cursor

/-- The position of the first of them. -/
def Caller.position (rdi : UInt64) : Nat :=
  match k.file_handles.bind (fun t => t.get_file_handle rdi) with
  | none => 0
  | some file => (k.opened file).file.cursor

/-- The loop variables at the start of a call. -/
def Caller.fill_start (rdi rsi : UInt64) : Fill :=
  ⟨k.memory, rsi.toNat, 0, k.position rdi⟩

/-- The records of `done` are in memory, and nothing else was written. -/
def Caller.Wrote (k k' : Caller φ σ δ) (padding : Nat → Vector UInt8 5) (rdi rsi : UInt64)
    (done : List (DirEntry δ)) : Prop :=
  k'.memory.byte = applyWrites (structs padding rsi.toNat (k.position rdi) done) k.memory.byte

variable (k : Caller φ σ δ) (padding : Nat → Vector UInt8 5) (rdi rsi rdx : UInt64)

/-- `rdi` is a descriptor of the open file `file`, and the driver lists the directory. -/
structure Caller.Lists (file : Nat) (dentries : List (DirEntry δ)) (p : σ × δ) : Prop where
  file_eq : k.file_handles.bind (fun t => t.get_file_handle rdi) = some file
  read_dir : InodeOps.read_dir (k.fs, (k.inodes (k.opened file).inode).data) = .ok dentries p

variable {k rdi} {file : Nat} {dentries : List (DirEntry δ)} {p : σ × δ}

theorem Caller.Lists.pending (h : k.Lists rdi file dentries p) :
    k.pending rdi = dentries.drop (k.opened file).file.cursor := by
  simp only [Caller.pending, h.file_eq, h.read_dir]

theorem Caller.Lists.position (h : k.Lists rdi file dentries p) :
    k.position rdi = (k.opened file).file.cursor := by
  simp only [Caller.position, h.file_eq]

/-- A call on a directory is the loop over the entries behind the cursor. -/
theorem Caller.Lists.getdents64_eq (h : k.Lists rdi file dentries p) :
    getdents64 padding rdi rsi rdx k =
      match fill padding rdx.toNat (k.pending rdi) (k.fill_start rdi rsi) with
      | .ok () f => .ok (UInt64.ofNat f.bytes_written)
          ((k.set_data (k.opened file).inode p).after_fill file f)
      | .error (.err e) f => .ok e { k.set_data (k.opened file).inode p with memory := f.memory }
      | .error .panic f =>
        .error .panic { k.set_data (k.opened file).inode p with memory := f.memory } := by
  obtain ⟨t, ht, hfile⟩ := Option.bind_eq_some_iff.mp h.file_eq
  simp only [getdents64, answer, ht, hfile, h.read_dir, list_dir, h.pending, fill_start,
    h.position, set_data_opened, set_data_memory]
  cases fill padding rdx.toNat (List.drop (k.opened file).file.cursor dentries)
    ⟨k.memory, rsi.toNat, 0, (k.opened file).file.cursor⟩ with
  | ok u f => rfl
  | error e f => cases e <;> rfl

/-- Without a directory to read, the call is an error and the memory stays. -/
theorem ends_getdents64_of_not_lists (h : ∀ file dentries p, ¬ k.Lists rdi file dentries p) :
    k.pending rdi = [] ∧
      Ends (getdents64 padding rdi rsi rdx k) (fun v k' => negative v = true ∧ k'.memory = k.memory)
        (fun _ k' => k'.memory = k.memory) := by
  cases ht : k.file_handles with
  | none =>
    simp only [pending, getdents64, answer, ht]
    exact ⟨rfl, by decide, rfl⟩
  | some t =>
    cases hfile : t.get_file_handle rdi with
    | none =>
      simp only [pending, getdents64, answer, ht, hfile, Option.bind_some]
      exact ⟨trivial, by decide, rfl⟩
    | some file =>
      cases hdir : (InodeOps.read_dir (k.fs, (k.inodes (k.opened file).inode).data) :
        EStateM.Result _ (σ × δ) (List (DirEntry δ))) with
      | ok dentries p => exact absurd ⟨by simp [ht, hfile], hdir⟩ (h file dentries p)
      | error e p =>
        simp only [pending, getdents64, answer, ht, hfile, hdir, Option.bind_some]
        cases e with
        | panic => exact ⟨trivial, rfl⟩
        | err e => exact ⟨trivial, negative_file_error e, rfl⟩

variable (k rdi)

/-- The entries that the call delivers. -/
def Caller.done : List (DirEntry δ) :=
  (k.fill_start rdi rsi).delivered rdx.toNat (k.pending rdi)

/-- A call writes the structs of the entries delivered. Its answer is an error or the length of
their records. -/
theorem ends_getdents64 :
    Ends (getdents64 padding rdi rsi rdx k)
      (fun v k' => k.Wrote k' padding rdi rsi (k.done rdi rsi rdx) ∧
        (negative v = true ∨ v.toNat = total (k.done rdi rsi rdx)))
      (fun _ k' => k.Wrote k' padding rdi rsi (k.done rdi rsi rdx)) := by
  by_cases h : ∃ file dentries p, k.Lists rdi file dentries p
  · obtain ⟨file, dentries, p, h⟩ := h
    rw [h.getdents64_eq]
    have hfill := ends_fill padding rdx.toNat (k.pending rdi) (k.fill_start rdi rsi)
    revert hfill
    cases fill padding rdx.toNat (k.pending rdi) (k.fill_start rdi rsi) with
    | ok u f =>
      rintro ⟨hfilled, -⟩
      refine ⟨hfilled.byte, Or.inr ?_⟩
      have hval : f.bytes_written = total (k.done rdi rsi rdx) := by
        rw [hfilled.bytes_written]
        exact Nat.zero_add _
      have hle : total (k.done rdi rsi rdx) ≤ LOWER_HALF_END := total_delivered_le _ _ _ _ _
      rw [hval, UInt64.toNat_ofNat_of_lt']
      exact Nat.lt_of_le_of_lt hle (by decide)
    | error e f =>
      rintro ⟨rfl, hfilled, -⟩
      exact ⟨hfilled.byte, Or.inl (by decide)⟩
  · have hno : ∀ file dentries p, ¬ k.Lists rdi file dentries p :=
      fun file dentries p hl => h ⟨file, dentries, p, hl⟩
    obtain ⟨hpending, hends⟩ := ends_getdents64_of_not_lists padding rsi rdx hno
    have hnone : k.done rdi rsi rdx = [] := by
      unfold done
      rw [hpending]
      rfl
    rw [hnone]
    refine hends.mono ?_ ?_
    · rintro v k' ⟨hneg, hmem⟩
      exact ⟨by rw [Wrote, hmem]; rfl, Or.inl hneg⟩
    · intro e k' hmem
      rw [Wrote, hmem]
      rfl

/-! ## The buffer of the caller -/

/-- The same caller with other bytes in its memory. -/
def Caller.with_bytes (byte : Nat → UInt8) : Caller φ σ δ :=
  { k with memory := { k.memory with byte } }

theorem Caller.done_with_bytes (byte : Nat → UInt8) :
    (k.with_bytes byte).done rdi rsi rdx = k.done rdi rsi rdx := by
  apply delivered_congr
  rfl

/-- Whatever the memory holds, no byte outside the buffer changes. -/
def Caller.StaysInside : Prop :=
  ∀ byte i, ¬ (rsi.toNat ≤ i ∧ i < rsi.toNat + rdx.toNat) →
    (final (getdents64 padding rdi rsi rdx (k.with_bytes byte))).memory.byte i = byte i

/-- An answer that is not an error is the length of a sequence of records. -/
def Caller.GivesRecords : Prop :=
  ∀ v k', getdents64 padding rdi rsi rdx k = .ok v k' → negative v = false →
    RecordSeq (slice k'.memory.byte rsi.toNat v.toNat)

/-- Where the record of an entry still fits, the whole struct does, unless the memory for it is
not mapped. -/
def Caller.Roomy : Prop :=
  ∀ before d after, k.pending rdi = before ++ d :: after →
    total before + DirEntry.reclen d ≤ rdx.toNat →
    user_range_is_mapped k.memory rsi.toNat (total before + size_of_dirent) = true →
    total before + size_of_dirent ≤ rdx.toNat

theorem Caller.mem_done_iff {before : List (DirEntry δ)} {d : DirEntry δ} :
    (∃ more, k.done rdi rsi rdx = before ++ d :: more) ↔
      (∃ after, k.pending rdi = before ++ d :: after) ∧
        total before + DirEntry.reclen d ≤ rdx.toNat ∧
        user_range_is_mapped k.memory rsi.toNat (total before + size_of_dirent) = true := by
  unfold done Fill.delivered
  rw [delivered_iff]
  simp only [fill_start, Nat.zero_add]

/-- The bytes of the memory after a call. -/
theorem final_byte (byte : Nat → UInt8) :
    (final (getdents64 padding rdi rsi rdx (k.with_bytes byte))).memory.byte =
      applyWrites (structs padding rsi.toNat (k.position rdi) (k.done rdi rsi rdx)) byte := by
  have h := ends_getdents64 (k.with_bytes byte) padding rdi rsi rdx
  rw [done_with_bytes] at h
  exact Ends.final (h.mono (fun _ _ hw => hw.1) (fun _ _ hw => hw))

theorem givesRecords : k.GivesRecords padding rdi rsi rdx := by
  intro v k' hrun hpos
  have h := ends_getdents64 k padding rdi rsi rdx
  rw [hrun] at h
  obtain ⟨hwrote, hneg | hval⟩ := h
  · rw [hpos] at hneg
    cases hneg
  · rw [hval, hwrote]
    exact (areRecords_structs padding _ _ _ _).recordSeq

/-- `getdents64` stays inside the buffer exactly when there is room for the struct of every record
that fits. -/
theorem getdents64_stays_inside_iff :
    k.StaysInside padding rdi rsi rdx ∧ k.GivesRecords padding rdi rsi rdx ↔
      k.Roomy rdi rsi rdx := by
  constructor
  · rintro ⟨hinside, -⟩ before d after hpending hfit hmapped
    by_contra hout
    obtain ⟨more, hdone⟩ := (k.mem_done_iff rdi rsi rdx).mpr ⟨⟨after, hpending⟩, hfit, hmapped⟩
    have hcovered : Covered (structs padding rsi.toNat (k.position rdi) (k.done rdi rsi rdx))
        (rsi.toNat + rdx.toNat) := by
      rw [covered_structs]
      exact ⟨before, d, more, hdone, by omega, by omega⟩
    -- the byte behind the buffer does not depend on what was there
    have hzero := hinside (fun _ => 0) (rsi.toNat + rdx.toNat) (by omega)
    have hone := hinside (fun _ => 1) (rsi.toNat + rdx.toNat) (by omega)
    rw [final_byte] at hzero hone
    rw [applyWrites_covered _ (fun _ => 1) hcovered, hone] at hzero
    exact absurd hzero (by decide)
  · intro hroom
    refine ⟨fun byte i hi => ?_, givesRecords k padding rdi rsi rdx⟩
    rw [final_byte]
    apply applyWrites_outside
    rw [covered_structs]
    rintro ⟨before, d, more, hdone, hlow, hhigh⟩
    obtain ⟨⟨after, hpending⟩, hfit, hmapped⟩ := (k.mem_done_iff rdi rsi rdx).mp ⟨more, hdone⟩
    have := hroom before d after hpending hfit hmapped
    omega

end Call

/-! ## A directory of two entries -/

open fs.ext2 ExtFileInodeOps in
/-- A directory on the small volume, with its entries in block 5. -/
def dirInode : Ext2Inode :=
  { emptyInode with i_mode := 0x41ED, i_size := 2048, i_block := fun j => if j.val = 0 then 5 else 0 }

open fs.ext2 ExtFileInodeOps in
/-- The entries are `a` and `b`, and both are inode 5. -/
def dirVolume : Ext2FSInner :=
  { smallVolume with
    device := { smallVolume.device with
      bytes := splice smallBytes 10240
        [5, 0, 0, 0, 12, 0, 1, 1, 0x61, 0, 0, 0, 5, 0, 0, 0, 0xF4, 7, 1, 1, 0x62] } }

open fs.ext2 ExtFileInodeOps in
/-- Descriptor 3 is the directory, and all the memory is mapped. -/
def dirCaller : Caller Unit Ext2FSInner Ext2Data where
  vfs := VFS.new
  fs := dirVolume
  inodes _ := ⟨2, .Directory, 2048, 0o755, 2, 0, 0, 0, 0, 0, .dir dirInode 2⟩
  opened _ := ⟨0, 0, READ_ONLY⟩
  next_inode := 1
  next_file := 1
  file_handles := some ((∅ : FileHandles Nat).insert 3 0)
  memory := ⟨fun _ => true, fun _ => 0⟩

/-- A buffer of 24 bytes is filled by the record of `a`, and the byte behind it is overwritten. -/
theorem a_record_overruns :
    ¬ dirCaller.StaysInside (fun _ => Vector.replicate 5 0) 3 0x1000 24 := by
  intro h
  have hbyte := h (fun _ => 0xFF) 0x1018 (by decide)
  revert hbyte
  decide +kernel

end zenos_kernel.syscall
