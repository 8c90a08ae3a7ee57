-- A directory read by a sequence of `getdents64` calls on one descriptor. The cursor counts
-- entries, and the answer 0 stands both for the end of the directory and for a buffer that is too
-- small for the next record.
import Zenos.Syscall.Getdents

namespace zenos_kernel.syscall

open Outcome Bytes disk disk.vfs

section Enumeration

variable {φ σ δ : Type} [InodeOps σ δ]

/-- A call of `getdents64`: the memory of the caller is whatever it is by then. -/
structure DirCall where
  padding : Nat → Vector UInt8 5
  memory : AddressSpace
  rsi : UInt64
  rdx : UInt64

/-- A call with the states around it and its answer. -/
structure DirEvent (φ σ δ : Type) where
  call : DirCall
  before : Caller φ σ δ
  ret : UInt64
  after : Caller φ σ δ

/-- The state of the kernel in which the call starts. -/
def DirEvent.start (e : DirEvent φ σ δ) : Caller φ σ δ := { e.before with memory := e.call.memory }

/-- The calls of one descriptor, one after the other, and the events that they are. -/
inductive DirCalls (rdi : UInt64) (k : Caller φ σ δ) :
    List (DirEvent φ σ δ) → Caller φ σ δ → Prop
  | nil : DirCalls rdi k [] k
  | snoc {es : List (DirEvent φ σ δ)} {e : DirEvent φ σ δ} : DirCalls rdi k es e.before →
      getdents64 e.call.padding rdi e.call.rsi e.call.rdx e.start = .ok e.ret e.after →
      DirCalls rdi k (es ++ [e]) e.after

/-- The bytes that a call returns. -/
def DirEvent.returned (e : DirEvent φ σ δ) : List UInt8 :=
  if negative e.ret then [] else slice e.after.memory.byte e.call.rsi.toNat e.ret.toNat

/-- The position of the open file. -/
def Caller.cursor (k : Caller φ σ δ) (file : Nat) : Nat := (k.opened file).file.cursor

variable {ds : List (DirEntry δ)} {file : Nat} {rdi : UInt64}

/-- 0 is the answer at the end only, and a buffer too small for the next record is an error. -/
def DirEvent.Honest (ds : List (DirEntry δ)) (file : Nat) (e : DirEvent φ σ δ) : Prop :=
  (e.ret = 0 → ds.length ≤ e.before.cursor file) ∧
    ∀ d ∈ (ds.drop (e.before.cursor file)).head?, e.call.rdx.toNat < DirEntry.reclen d →
      negative e.ret = true

/-- The buffer has room for the next record. -/
def DirEvent.HasRoom (ds : List (DirEntry δ)) (file : Nat) (e : DirEvent φ σ δ) : Prop :=
  ∀ d ∈ (ds.drop (e.before.cursor file)).head?, DirEntry.reclen d ≤ e.call.rdx.toNat

/-- The directory is the same at every call. -/
def Unchanging (ds : List (DirEntry δ)) (file : Nat) (rdi : UInt64) (es : List (DirEvent φ σ δ)) :
    Prop :=
  ∀ e ∈ es, ∃ p, e.before.Lists rdi file ds p

/-- The bytes returned are the records of the entries up to the cursor, and no call misleads. -/
structure Enumerated (ds : List (DirEntry δ)) (file : Nat) (es : List (DirEvent φ σ δ))
    (k' : Caller φ σ δ) : Prop where
  records : AreRecords 0 (ds.take (k'.cursor file)) (es.flatMap DirEvent.returned)
  honest : ∀ e ∈ es, e.Honest ds file

/-! ## One call -/

variable {k k' : Caller φ σ δ} {p : σ × δ} {done : List (DirEntry δ)} {e : DirEvent φ σ δ}
  {es : List (DirEvent φ σ δ)}

/-- A call fails and leaves the cursor, although the next record would fit. -/
def DirEvent.Failed (ds : List (DirEntry δ)) (file : Nat) (e : DirEvent φ σ δ) : Prop :=
  negative e.ret = true ∧ e.after.cursor file = e.before.cursor file ∧
    ∃ d ∈ (ds.drop (e.before.cursor file)).head?, DirEntry.reclen d ≤ e.call.rdx.toNat

/-- A call delivers the records of `done`, and the next one does not fit. -/
structure DirEvent.Delivered (ds : List (DirEntry δ)) (file : Nat) (e : DirEvent φ σ δ)
    (done rest : List (DirEntry δ)) : Prop where
  ret : e.ret.toNat = total done
  cursor : e.after.cursor file = e.before.cursor file + done.length
  split : ds.drop (e.before.cursor file) = done ++ rest
  full : ∀ d ∈ rest.head?, e.call.rdx.toNat < total done + DirEntry.reclen d
  records : AreRecords (e.before.cursor file) done
    (slice e.after.memory.byte e.call.rsi.toNat e.ret.toNat)
  positive : negative e.ret = false

/-- The first of some entries is no longer than all of them. -/
theorem head_le_of_total_le {rest : List (DirEntry δ)} {d : DirEntry δ} {n : Nat}
    (h : 0 + total done + DirEntry.reclen d ≤ n) :
    ∃ x ∈ (done ++ d :: rest).head?, DirEntry.reclen x ≤ n := by
  cases done with
  | nil => exact ⟨d, rfl, by simpa using h⟩
  | cons x done =>
    rw [total_cons] at h
    exact ⟨x, rfl, by omega⟩

theorem DirEvent.cases (h : e.before.Lists rdi file ds p)
    (hrun : getdents64 e.call.padding rdi e.call.rsi e.call.rdx e.start = .ok e.ret e.after) :
    e.Failed ds file ∨ ∃ done rest, e.Delivered ds file done rest := by
  have hl : e.start.Lists rdi file ds p := ⟨h.file_eq, h.read_dir⟩
  have hpending : e.start.pending rdi = ds.drop (e.before.cursor file) := hl.pending
  have hposition : e.start.position rdi = e.before.cursor file := hl.position
  have hfill := ends_fill e.call.padding e.call.rdx.toNat (e.start.pending rdi)
    (e.start.fill_start rdi e.call.rsi)
  rw [hl.getdents64_eq] at hrun
  generalize fill e.call.padding e.call.rdx.toNat (e.start.pending rdi)
    (e.start.fill_start rdi e.call.rsi) = r at hfill hrun
  cases r with
  | error err f =>
    obtain ⟨rfl, hfilled, d, rest, hsplit, hfit, -⟩ := hfill
    injection hrun with hret hafter
    left
    refine ⟨by rw [← hret]; decide, by rw [← hafter]; rfl, ?_⟩
    have hfit' : 0 + total ((e.start.fill_start rdi e.call.rsi).delivered e.call.rdx.toNat
        (e.start.pending rdi)) + DirEntry.reclen d ≤ e.call.rdx.toNat := by
      rw [hfilled.bytes_written] at hfit
      exact hfit
    rw [← hpending, hsplit]
    exact head_le_of_total_le hfit'
  | ok u f =>
    obtain ⟨hfilled, rest, hsplit, hfull⟩ := hfill
    injection hrun with hret hafter
    have hwritten : f.bytes_written = total (e.start.done rdi e.call.rsi e.call.rdx) := by
      rw [hfilled.bytes_written]
      exact Nat.zero_add _
    have hle : total (e.start.done rdi e.call.rsi e.call.rdx) ≤ LOWER_HALF_END :=
      total_delivered_le _ _ _ _ _
    have hval : e.ret.toNat = total (e.start.done rdi e.call.rsi e.call.rdx) := by
      rw [← hret, hwritten]
      exact UInt64.toNat_ofNat_of_lt' (Nat.lt_of_le_of_lt hle (by decide))
    refine Or.inr ⟨e.start.done rdi e.call.rsi e.call.rdx, rest, hval, ?_, ?_, ?_, ?_, ?_⟩
    · rw [← hafter]
      unfold Caller.cursor Caller.after_fill
      simp only [Function.update_self, hfilled.offset]
      exact congrArg (· + _) hposition
    · rw [← hpending]
      exact hsplit
    · rw [← hwritten]
      exact hfull
    · rw [hval, ← hafter, ← hposition]
      change AreRecords _ _ (slice f.memory.byte _ _)
      rw [hfilled.byte]
      exact areRecords_structs _ _ _ _ _
    · unfold negative
      rw [hval, decide_eq_false_iff_not, Nat.not_le]
      exact Nat.lt_of_le_of_lt hle (by decide)

/-! ## The whole sequence -/

theorem total_pos (h : done ≠ []) : 0 < total done := by
  cases done with
  | nil => exact absurd rfl h
  | cons d done =>
    rw [total_cons]
    have := (reclen_bounds d).1
    omega

/-- A call is honest exactly when its buffer has room for the next record. -/
theorem DirEvent.honest_iff (h : e.before.Lists rdi file ds p)
    (hrun : getdents64 e.call.padding rdi e.call.rsi e.call.rdx e.start = .ok e.ret e.after) :
    e.Honest ds file ↔ e.HasRoom ds file := by
  rcases DirEvent.cases h hrun with ⟨hneg, -, d, hd, hfit⟩ | ⟨done, rest, hdel⟩
  · have hroom : e.HasRoom ds file := fun d' hd' => by
      rw [Option.mem_unique hd' hd]
      exact hfit
    have hhonest : e.Honest ds file := by
      refine ⟨fun hzero => ?_, fun _ _ _ => hneg⟩
      rw [hzero] at hneg
      exact absurd hneg (by decide)
    exact ⟨fun _ => hroom, fun _ => hhonest⟩
  have hzero : e.ret = 0 ↔ done = [] := by
    rw [← UInt64.toNat_inj, hdel.ret]
    constructor
    · intro hz
      by_contra hne
      exact absurd hz (Nat.ne_of_gt (total_pos hne))
    · rintro rfl
      rfl
  have hsplit := hdel.split
  constructor
  · rintro ⟨-, hsmall⟩ d hd
    by_contra hbig
    have hneg := hsmall d hd (Nat.lt_of_not_le hbig)
    rw [hdel.positive] at hneg
    cases hneg
  · intro hroom
    refine ⟨fun hret => ?_, fun d hd hsmall => absurd (hroom d hd) (Nat.not_le.mpr hsmall)⟩
    have hnil := hzero.mp hret
    subst hnil
    cases rest with
    | nil => exact List.drop_eq_nil_iff.mp hsplit
    | cons d rest =>
      have hd : d ∈ (ds.drop (e.before.cursor file)).head? := by rw [hsplit]; rfl
      have hfits := hroom d hd
      have hfull := hdel.full d rfl
      rw [total_nil] at hfull
      omega

/-- The records that a sequence of calls returns are those of the entries up to the cursor. -/
theorem DirCalls.records (h : DirCalls rdi k es k')
    (hsame : Unchanging ds file rdi es) (hstart : k.cursor file = 0) : k'.cursor file ≤ ds.length ∧
      AreRecords 0 (ds.take (k'.cursor file)) (es.flatMap DirEvent.returned) := by
  induction h with
  | nil =>
    rw [hstart]
    exact ⟨Nat.zero_le _, rfl⟩
  | @snoc es e hes hrun ih =>
    obtain ⟨hle, hrecords⟩ := ih (fun e' he' => hsame e' (List.mem_append_left _ he'))
    obtain ⟨p, hp⟩ := hsame e (List.mem_append_right _ (List.mem_singleton_self e))
    rw [List.flatMap_append, List.flatMap_singleton]
    rcases DirEvent.cases hp hrun with ⟨hneg, hcursor, -⟩ | ⟨done, rest, hdel⟩
    · rw [hcursor, DirEvent.returned, if_pos hneg, List.append_nil]
      exact ⟨hle, hrecords⟩
    have hlen := congrArg List.length hdel.split
    rw [List.length_drop, List.length_append] at hlen
    have hdone : done = (ds.drop (e.before.cursor file)).take done.length := by
      rw [hdel.split, List.take_left]
    rw [hdel.cursor, DirEvent.returned, hdel.positive]
    refine ⟨by omega, ?_⟩
    rw [List.take_add, ← hdone]
    apply hrecords.append
    rw [List.length_take, Nat.min_eq_left hle, Nat.zero_add]
    exact hdel.records

theorem DirCalls.mem (h : DirCalls rdi k es k') (he : e ∈ es) :
    getdents64 e.call.padding rdi e.call.rsi e.call.rdx e.start = .ok e.ret e.after := by
  induction h with
  | nil => cases he
  | snoc _ hrun ih =>
    rcases List.mem_append.mp he with he | he
    · exact ih he
    · rw [List.mem_singleton.mp he]
      exact hrun

/-- A directory is enumerated exactly when every call has room for the next record. -/
theorem directory_enumerated_iff {k k' : Caller φ σ δ} {es : List (DirEvent φ σ δ)}
    (h : DirCalls rdi k es k') (hsame : Unchanging ds file rdi es) (hstart : k.cursor file = 0) :
    Enumerated ds file es k' ↔ ∀ e ∈ es, e.HasRoom ds file := by
  have hiff : ∀ e ∈ es, (e.Honest ds file ↔ e.HasRoom ds file) := by
    intro e he
    obtain ⟨p, hp⟩ := hsame e he
    exact DirEvent.honest_iff hp (h.mem he)
  constructor
  · intro hall e he
    exact (hiff e he).mp (hall.honest e he)
  · intro hroom
    exact ⟨(h.records hsame hstart).2, fun e he => (hiff e he).mpr (hroom e he)⟩

end Enumeration

/-! ## The directory of two entries -/

open fs.ext2

deriving instance DecidableEq for Ext2Inode, Ext2Data, Inode, vfs.DirEntry

/-- What the driver lists. -/
def dirEntries : List (vfs.DirEntry Ext2Data) :=
  match (InodeOps.read_dir (dirVolume, Ext2Data.dir dirInode 2) :
    EStateM.Result _ (Ext2FSInner × Ext2Data) _) with
  | .ok ds _ => ds
  | .error _ _ => []

variable (k : Caller Unit Ext2FSInner Ext2Data) (rdx : UInt64)

/-- A call with a buffer of `rdx` bytes. -/
def dirRun : EStateM.Result (Fault Empty) (Caller Unit Ext2FSInner Ext2Data) UInt64 :=
  getdents64 (fun _ => Vector.replicate 5 0) 3 0x1000 rdx k

def dirEvent : DirEvent Unit Ext2FSInner Ext2Data where
  call := ⟨fun _ => Vector.replicate 5 0, k.memory, 0x1000, rdx⟩
  before := k
  ret := match dirRun k rdx with
    | .ok v _ => v
    | .error _ _ => 0
  after := final (dirRun k rdx)

/-- The descriptor still lists the entries, and the call comes back. -/
def comesBack : Bool :=
  k.file_handles.bind (fun t => t.get_file_handle 3) = some 0 ∧
    passes (InodeOps.read_dir (k.fs, (k.inodes (k.opened 0).inode).data))
      (fun ds _ => ds = dirEntries) ∧ passes (dirRun k rdx) (fun _ _ => true)

variable {k} {es : List (DirEvent Unit Ext2FSInner Ext2Data)}

theorem dirCalls_snoc (hcalls : DirCalls 3 dirCaller es k ∧ Unchanging dirEntries 0 3 es)
    (h : comesBack k rdx = true) :
    DirCalls 3 dirCaller (es ++ [dirEvent k rdx]) (dirEvent k rdx).after ∧
      Unchanging dirEntries 0 3 (es ++ [dirEvent k rdx]) := by
  obtain ⟨hfile, hlist, hback⟩ := of_decide_eq_true h
  constructor
  · refine DirCalls.snoc (e := dirEvent k rdx) hcalls.1 ?_
    obtain ⟨v, k', hrun, -⟩ := exists_of_passes hback
    have hret : (dirEvent k rdx).ret = v := by simp only [dirEvent, hrun]
    have hafter : (dirEvent k rdx).after = k' := by simp only [dirEvent, hrun, final]
    rw [hret, hafter]
    exact hrun
  · intro e he
    rcases List.mem_append.mp he with he | he
    · exact hcalls.2 e he
    · rw [List.mem_singleton.mp he]
      obtain ⟨ds, p, hrun, hds⟩ := exists_of_passes hlist
      rw [of_decide_eq_true hds] at hrun
      exact ⟨p, hfile, hrun⟩

theorem dirCalls_nil : DirCalls 3 dirCaller [] dirCaller ∧
    @Unchanging Unit Ext2FSInner Ext2Data _ dirEntries 0 3 [] :=
  ⟨.nil, fun _ he => absurd he List.not_mem_nil⟩

def firstCall : DirEvent Unit Ext2FSInner Ext2Data := dirEvent dirCaller 24

def secondCall : DirEvent Unit Ext2FSInner Ext2Data := dirEvent firstCall.after 24

def lastCall : DirEvent Unit Ext2FSInner Ext2Data := dirEvent secondCall.after 24

/-- Each entry is delivered by a call with 24 bytes, and the third call answers 0. -/
theorem two_entries_are_enumerated :
    (firstCall.ret = 24 ∧ secondCall.ret = 24 ∧ lastCall.ret = 0) ∧
      (∀ e ∈ [firstCall, secondCall, lastCall], e.HasRoom dirEntries 0) ∧
      Enumerated dirEntries 0 [firstCall, secondCall, lastCall] lastCall.after := by
  have hroom : ∀ e ∈ [firstCall, secondCall, lastCall], e.HasRoom dirEntries 0 := by
    unfold DirEvent.HasRoom
    decide +kernel
  have hfirst := dirCalls_snoc 24 dirCalls_nil (by decide +kernel)
  have hsecond := dirCalls_snoc 24 hfirst (by decide +kernel)
  have hcalls := dirCalls_snoc 24 hsecond (by decide +kernel)
  exact ⟨by decide +kernel, hroom, (directory_enumerated_iff hcalls.1 hcalls.2 rfl).mpr hroom⟩

/-- With 16 bytes the call answers 0, which means the end of the directory, and no entry was
delivered. -/
theorem a_small_buffer_ends_the_directory :
    DirCalls 3 dirCaller [dirEvent dirCaller 16] (dirEvent dirCaller 16).after ∧
      Unchanging dirEntries 0 3 [dirEvent dirCaller 16] ∧ dirCaller.cursor 0 = 0 ∧
      (dirEvent dirCaller 16).ret = 0 ∧ dirEntries.length = 2 ∧
      ¬ Enumerated dirEntries 0 [dirEvent dirCaller 16] (dirEvent dirCaller 16).after := by
  obtain ⟨hcalls, hsame⟩ := dirCalls_snoc 16 dirCalls_nil (by decide +kernel)
  have hret : (dirEvent dirCaller 16).ret = 0 := by decide +kernel
  have hlen : dirEntries.length = 2 := by decide +kernel
  refine ⟨hcalls, hsame, rfl, hret, hlen, fun h => ?_⟩
  have hend := (h.honest _ (List.mem_singleton_self _)).1 hret
  rw [hlen] at hend
  exact absurd hend (by decide)

end zenos_kernel.syscall
