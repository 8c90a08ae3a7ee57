-- The arguments of `exec`: `syscall/exec.rs`, and the first half of
-- `Process::exec_replace`. The strings are copied from the user without their NUL,
-- and then read a second time from the addresses of the copies, as C strings.
import Zenos.Lib.Utf8
import Zenos.Memory.PageAllocator
import Zenos.Disk.Open
import Zenos.Process.AddressSpaces
import Mathlib.Data.List.DropRight

namespace zenos_kernel.syscall

open Bytes process memory

/-! ## Memory as the kernel sees it -/

/-- The memory under one level-4 table: which pages are mapped, and the bytes. -/
structure AddressSpace where
  mapped : Nat → Bool
  byte : Nat → UInt8

variable (m : AddressSpace)

/-- A load of the kernel. `none` is a page fault, which panics in ring 0. -/
def AddressSpace.load (addr : Nat) : Option UInt8 :=
  if m.mapped (addr / PAGE_4K) then some (m.byte addr) else none

/-- `VirtAddr::try_new` accepts the address. -/
def canonical (addr : Nat) : Bool := addr < 2 ^ 47 || 2 ^ 64 - 2 ^ 47 ≤ addr

/-- The loop of `user_range_is_mapped`, page by page. -/
def pages_are_mapped (m : AddressSpace) (end_ : Nat) : Nat → Nat → Bool
  | 0, _ => true
  | fuel + 1, addr =>
    if addr < end_ then
      canonical addr && m.mapped (addr / PAGE_4K) && addr + PAGE_4K < UInt64.size &&
        pages_are_mapped m end_ fuel (addr + PAGE_4K)
    else true

def user_range_is_mapped (user_ptr len : Nat) : Bool :=
  user_ptr ≠ 0 && len ≠ 0 && user_ptr < HIGHER_HALF_BASE && user_ptr + len < UInt64.size &&
    pages_are_mapped m (user_ptr + len) (len / PAGE_4K + 2) (user_ptr / PAGE_4K * PAGE_4K)

/-- `copy_from_user` of `count` bytes. -/
def copy_from_user (user_ptr count : Nat) : Option (List UInt8) :=
  if count = 0 then some []
  else if user_range_is_mapped m user_ptr count then some (slice m.byte user_ptr count)
  else none

/-! ## The first copy -/

def EFAULT : UInt64 := 14

def ENAMETOOLONG : UInt64 := 36

def MAX_ARGC : Nat := 256

def MAX_ARG_LEN : Nat := 4096

/-- The loop of `copy_string`: the bytes up to a NUL, and whether there was one. -/
def copy_bytes (m : AddressSpace) : Nat → Nat → Except UInt64 (List UInt8 × Bool)
  | 0, _ => .ok ([], false)
  | n + 1, user_ptr =>
    match copy_from_user m user_ptr 1 with
    | none => .error (errno EFAULT)
    | some bytes =>
      if bytes.headD 0 = 0 then .ok ([0], true)
      else do
        let (rest, found_null) ← copy_bytes m n (user_ptr + 1)
        .ok (bytes.headD 0 :: rest, found_null)

def copy_string (user_ptr max_len : Nat) : Except UInt64 (List UInt8) := do
  let (vec, found_null) ← copy_bytes m max_len user_ptr
  if Utf8.valid vec then
    if found_null then .ok (vec.rdropWhile (· = 0)) else .error (errno ENAMETOOLONG)
  else .error (errno EINVAL)

/-- A pointer from its bytes, low byte first. -/
def pointer (bytes : List UInt8) : Nat := bytes.foldr (fun b n => b.toNat + 256 * n) 0

/-- The loop of `copy_string_array` over the pointers that are left. -/
def copy_strings (m : AddressSpace) : Nat → Nat → Except UInt64 (List (List UInt8))
  | 0, _ => .ok []
  | n + 1, ptr_addr =>
    match copy_from_user m ptr_addr 8 with
    | none => .error (errno EFAULT)
    | some ptr_bytes =>
      if pointer ptr_bytes = 0 then .ok []
      else do
        let buf ← copy_string m (pointer ptr_bytes) MAX_ARG_LEN
        let result ← copy_strings m n (ptr_addr + 8)
        .ok (buf :: result)

def copy_string_array (ptr : Nat) : Except UInt64 (List (List UInt8)) :=
  copy_strings m MAX_ARGC ptr

/-! ## The second copy -/

/-- `Vec::as_ptr` of a copy that the heap put at `addr`. An empty vector has no
memory: its pointer is dangling, and 1 is the alignment of a byte. -/
def as_ptr (copy : List UInt8) (addr : Nat) : Nat := if copy = [] then 1 else addr

/-- The pointers of the copies, with a null pointer at the end. -/
def as_ptrs (copies : List (List UInt8)) (addrs : List Nat) : List Nat :=
  List.zipWith as_ptr copies addrs ++ [0]

/-- The bytes up to the next NUL, within the `n` bytes that the address space has left. -/
def until_null (m : AddressSpace) : Nat → Nat → Option (List UInt8)
  | 0, _ => none
  | n + 1, ptr =>
    match m.load ptr with
    | none => none
    | some b => if b = 0 then some [] else (until_null m n (ptr + 1)).map (b :: ·)

/-- `CStr::from_ptr(ptr).to_bytes()`. -/
def from_ptr (ptr : Nat) : Option (List UInt8) :=
  until_null m (UInt64.size - ptr) ptr

/-- The loop over `argv` passes over a null pointer. -/
def read_argv (m : AddressSpace) : List Nat → Option (List (List UInt8))
  | [] => some []
  | ptr :: ptrs =>
    if ptr = 0 then read_argv m ptrs
    else do
      let bytes ← from_ptr m ptr
      let rest ← read_argv m ptrs
      some (bytes :: rest)

/-- The loop over `envp` ends at a null pointer; there is one at the end. -/
def read_envp (m : AddressSpace) : List Nat → Option (List (List UInt8))
  | [] => none
  | ptr :: ptrs =>
    if ptr = 0 then some []
    else do
      let bytes ← from_ptr m ptr
      let rest ← read_envp m ptrs
      some (bytes :: rest)

/-- How a call of `exec` ends. -/
inductive ExecEnd
  | error (e : UInt64)
  | panic
  /-- The jump to user mode. -/
  | entered (s : System)

/-- `exec` once the path is copied. `m` is the memory of the caller, and `m'` the one
after the copies, which the heap put at `argv_at` and `envp_at`. `file` is what comes
of opening and reading the file: an error, or the image, which is `none` when the file
does not load. -/
def exec (s : System) (m m' : AddressSpace) (path : List UInt8) (argv_ptr envp_ptr : Nat)
    (argv_at envp_at : List Nat) (file : Except UInt64 (Option System.Image)) (fpu : FxSaveArea) :
    ExecEnd :=
  match copy_string_array m argv_ptr, copy_string_array m envp_ptr, file with
  | .error e, _, _ => .error e
  | .ok _, .error e, _ => .error e
  | .ok _, .ok _, .error e => .error e
  | .ok kargv, .ok kenvp, .ok image =>
    match s.current_proc_mut with
    | none => .error (errno ESRCH)
    | some _ =>
      match read_argv m' (as_ptrs kargv argv_at), read_envp m' (as_ptrs kenvp envp_at) with
      | some argv, some envp =>
        match s.exec path argv envp image fpu with
        | none => .panic
        | some (_, s') => .entered s'
      | _, _ => .panic

/-! ## What the user has in memory -/

/-- A string of fewer than `MAX_ARG_LEN` bytes with a NUL behind it. -/
structure UserString (m : AddressSpace) (ptr : Nat) (s : List UInt8) : Prop where
  no_null : ∀ b ∈ s, b ≠ 0
  short : s.length < MAX_ARG_LEN
  bytes : slice m.byte ptr (s.length + 1) = s ++ [0]

/-- An array of pointers to strings, with a null pointer at the end. -/
def UserArray (m : AddressSpace) : Nat → List (List UInt8) → Prop
  | addr, [] => pointer (slice m.byte addr 8) = 0
  | addr, s :: strings =>
    pointer (slice m.byte addr 8) ≠ 0 ∧ UserString m (pointer (slice m.byte addr 8)) s ∧
      UserArray m (addr + 8) strings

/-- The heap keeps a copy at `addr`. -/
def Stored (copy : List UInt8) (addr : Nat) : Prop :=
  addr ≠ 0 ∧ slice m.byte addr copy.length = copy

/-- There is a NUL behind a copy. -/
def Ended (copy : List UInt8) (addr : Nat) : Prop :=
  m.load (as_ptr copy addr + copy.length) = some 0

instance (m : AddressSpace) (copy : List UInt8) (addr : Nat) : Decidable (Stored m copy addr) :=
  inferInstanceAs (Decidable (_ ∧ _))

instance (m : AddressSpace) (copy : List UInt8) (addr : Nat) : Decidable (Ended m copy addr) :=
  inferInstanceAs (Decidable (_ = _))

variable {m m' : AddressSpace}

/-! ## The first copy is right -/

variable {bytes s copy : List UInt8} {n addr : Nat} {copies strings : List (List UInt8)}
  {addrs : List Nat} {argv : List (List UInt8)} {ptr user_ptr : Nat}

theorem copy_from_user_eq {count : Nat} (hcount : count ≠ 0)
    (h : copy_from_user m user_ptr count = some bytes) : bytes = slice m.byte user_ptr count := by
  unfold copy_from_user at h
  rw [if_neg hcount] at h
  split at h
  · exact (Option.some.inj h).symm
  · cases h

/-- A byte cannot be copied, and no NUL comes before it. -/
def Faults (m : AddressSpace) (n user_ptr : Nat) : Prop :=
  ∃ i < n, copy_from_user m (user_ptr + i) 1 = none ∧ ∀ j < i, m.byte (user_ptr + j) ≠ 0

/-- The bytes up to the first NUL, and whether there is one. -/
def up_to_null (bytes : List UInt8) : List UInt8 × Bool :=
  if 0 ∈ bytes then (bytes.takeWhile (· ≠ 0) ++ [0], true) else (bytes, false)

theorem faults_succ : Faults m (n + 1) user_ptr ↔ copy_from_user m user_ptr 1 = none ∨
      m.byte user_ptr ≠ 0 ∧ Faults m n (user_ptr + 1) := by
  unfold Faults
  rw [Nat.exists_lt_succ_left]
  simp only [Nat.forall_lt_succ_left, Nat.not_lt_zero, false_implies, implies_true, and_true,
    Nat.add_zero, Nat.add_right_comm _ 1, ← Nat.add_assoc]
  refine or_congr_right ⟨?_, ?_⟩
  · rintro ⟨i, hi, hnone, h0, hbefore⟩
    exact ⟨h0, i, hi, hnone, hbefore⟩
  · rintro ⟨h0, i, hi, hnone, hbefore⟩
    exact ⟨i, hi, hnone, h0, hbefore⟩

/-- The loop stops at the first byte that cannot be copied, or at the first NUL. -/
theorem copy_bytes_cases (m : AddressSpace) (n user_ptr : Nat) :
    Faults m n user_ptr ∧ copy_bytes m n user_ptr = .error (errno EFAULT) ∨
      ¬ Faults m n user_ptr ∧
        copy_bytes m n user_ptr = .ok (up_to_null (slice m.byte user_ptr n)) := by
  induction n generalizing user_ptr with
  | zero => exact Or.inr ⟨fun ⟨_, hi, _⟩ => absurd hi (Nat.not_lt_zero _), rfl⟩
  | succ n ih =>
    rw [faults_succ, slice_cons]
    unfold copy_bytes
    cases hcopy : copy_from_user m user_ptr 1 with
    | none => exact Or.inl ⟨Or.inl rfl, rfl⟩
    | some bytes =>
      have hbyte : bytes.headD 0 = m.byte user_ptr := by
        rw [copy_from_user_eq (by decide) hcopy]
        rfl
      simp only [hbyte, reduceCtorEq, false_or]
      by_cases h0 : m.byte user_ptr = 0
      · simp [h0, up_to_null]
      · rcases ih (user_ptr + 1) with ⟨hf, hrun⟩ | ⟨hf, hrun⟩
        · exact Or.inl ⟨⟨h0, hf⟩, by rw [if_neg h0, hrun]; rfl⟩
        · refine Or.inr ⟨fun h => hf h.2, ?_⟩
          rw [if_neg h0, hrun]
          by_cases hmem : 0 ∈ slice m.byte (user_ptr + 1) n
          · simp [up_to_null, hmem, h0]
            rfl
          · simp [up_to_null, hmem, Ne.symm h0]
            rfl

theorem copy_bytes_eq (hno : ∀ b ∈ s, b ≠ 0) (hlen : s.length < n)
    (hbytes : slice m.byte user_ptr (s.length + 1) = s ++ [0]) {vec : List UInt8}
    {found_null : Bool} (h : copy_bytes m n user_ptr = .ok (vec, found_null)) :
    vec = s ++ [0] ∧ found_null = true := by
  have hcut : up_to_null (slice m.byte user_ptr n) = (s ++ [0], true) := by
    obtain ⟨k, rfl⟩ := Nat.exists_eq_add_of_le hlen
    rw [← slice_append, hbytes, up_to_null, if_pos (by simp), List.append_assoc,
      List.takeWhile_append_of_pos (by simpa using hno)]
    simp
  rcases copy_bytes_cases m n user_ptr with ⟨-, hrun⟩ | ⟨-, hrun⟩
  · rw [hrun] at h
    cases h
  · rw [hrun, hcut] at h
    cases h
    exact ⟨rfl, rfl⟩

/-- `trim_end_matches` takes the NUL off and nothing else. -/
theorem trim_null (hno : ∀ b ∈ s, b ≠ 0) : (s ++ [0]).rdropWhile (· = 0) = s := by
  rw [List.rdropWhile_concat_pos _ _ _ (by simp), List.rdropWhile_eq_self_iff]
  intro hne hlast
  exact hno _ (List.getLast_mem hne) (by simpa using hlast)

theorem copy_string_eq (hs : UserString m ptr s)
    (h : copy_string m ptr MAX_ARG_LEN = .ok copy) : copy = s := by
  obtain ⟨⟨vec, found_null⟩, hloop, h⟩ := Outcome.except_bind_ok.mp h
  obtain ⟨rfl, rfl⟩ := copy_bytes_eq hs.no_null hs.short hs.bytes hloop
  dsimp only at h
  split at h
  · cases h
    exact trim_null hs.no_null
  · cases h

/-- The copies are the strings of the user, up to `MAX_ARGC` of them. -/
theorem copy_strings_eq (hs : UserArray m addr strings) (h : copy_strings m n addr = .ok copies) :
    copies = strings.take n := by
  induction strings generalizing n addr copies with
  | nil =>
    cases n with
    | zero =>
      cases h
      rfl
    | succ n =>
      unfold copy_strings at h
      split at h
      · cases h
      · rename_i bytes hcopy
        have hnull : pointer bytes = 0 := by
          rw [copy_from_user_eq (by decide) hcopy]
          exact hs
        rw [if_pos hnull] at h
        cases h
        rfl
  | cons s strings ih =>
    obtain ⟨hptr, hstring, hrest⟩ := hs
    cases n with
    | zero =>
      cases h
      rfl
    | succ n =>
      unfold copy_strings at h
      split at h
      · cases h
      rename_i bytes hcopy
      cases copy_from_user_eq (by decide) hcopy
      rw [if_neg hptr] at h
      obtain ⟨buf, hcopied, h⟩ := Outcome.except_bind_ok.mp h
      obtain ⟨result, hloop, h⟩ := Outcome.except_bind_ok.mp h
      cases h
      rw [copy_string_eq hstring hcopied, ih hrest hloop]
      rfl

theorem UserArray.no_null (h : UserArray m addr strings) : ∀ s ∈ strings, ∀ b ∈ s, b ≠ 0 := by
  induction strings generalizing addr with
  | nil => simp
  | cons s strings ih =>
    obtain ⟨_, hs, hrest⟩ := h
    exact List.forall_mem_cons.mpr ⟨hs.no_null, ih hrest⟩

/-! ## The second copy goes on to the next NUL -/

theorem until_null_eq_iff (hno : ∀ b ∈ copy, b ≠ 0) (hbytes : slice m.byte ptr copy.length = copy)
    (h : until_null m n ptr = some bytes) : bytes = copy ↔ m.load (ptr + copy.length) = some 0 := by
  induction copy generalizing n ptr bytes with
  | nil =>
    cases n with
    | zero => cases h
    | succ n =>
      unfold until_null at h
      split at h
      · cases h
      rename_i b hload
      rw [List.length_nil, Nat.add_zero, hload]
      by_cases hb : b = 0
      · rw [if_pos hb] at h
        cases h
        simp [hb]
      · rw [if_neg hb] at h
        obtain ⟨rest, _, rfl⟩ := Option.map_eq_some_iff.mp h
        simp [hb]
  | cons c copy ih =>
    rw [List.length_cons, slice_cons] at hbytes
    injection hbytes with hc hrest
    cases n with
    | zero => cases h
    | succ n =>
      unfold until_null at h
      split at h
      · cases h
      rename_i b hload
      have hbc : b = c := by
        unfold AddressSpace.load at hload
        split at hload
        · exact (Option.some.inj hload).symm.trans hc
        · cases hload
      rw [hbc, if_neg (hno c List.mem_cons_self)] at h
      obtain ⟨rest, hrun, rfl⟩ := Option.map_eq_some_iff.mp h
      have hih := ih (fun b hb => hno b (List.mem_cons_of_mem _ hb)) hrest hrun
      rw [List.cons.injEq, eq_self, true_and, hih, List.length_cons, Nat.add_assoc, Nat.add_comm 1]

theorem as_ptr_ne_zero (h : Stored m copy addr) : as_ptr copy addr ≠ 0 := by
  unfold as_ptr
  split
  · exact Nat.one_ne_zero
  · exact h.1

theorem from_ptr_eq_iff (hno : ∀ b ∈ copy, b ≠ 0) (hstored : Stored m copy addr)
    (h : from_ptr m (as_ptr copy addr) = some bytes) : bytes = copy ↔ Ended m copy addr := by
  refine until_null_eq_iff hno ?_ h
  unfold as_ptr
  split
  · rename_i hnil
    rw [hnil]
    rfl
  · exact hstored.2

/-- Both loops read the same from the pointers of the copies. -/
theorem read_envp_eq (h : List.Forall₂ (Stored m) copies addrs) :
    read_envp m (as_ptrs copies addrs) = read_argv m (as_ptrs copies addrs) := by
  unfold as_ptrs
  induction h with
  | nil => rfl
  | cons hstored _ ih =>
    rw [List.zipWith_cons_cons, List.cons_append, read_envp, read_argv,
      if_neg (as_ptr_ne_zero hstored), if_neg (as_ptr_ne_zero hstored), ih]

theorem read_argv_eq_iff (hno : ∀ s ∈ copies, ∀ b ∈ s, b ≠ 0)
    (h : List.Forall₂ (Stored m) copies addrs)
    (hread : read_argv m (as_ptrs copies addrs) = some argv) :
    argv.length = copies.length ∧ (argv = copies ↔ List.Forall₂ (Ended m) copies addrs) := by
  unfold as_ptrs at hread
  induction h generalizing argv with
  | nil =>
    cases hread
    simp
  | cons hstored _ ih =>
    rename_i copy addr copies addrs _
    rw [List.zipWith_cons_cons, List.cons_append, read_argv,
      if_neg (as_ptr_ne_zero hstored)] at hread
    obtain ⟨bytes, hfirst, hread⟩ := Option.bind_eq_some_iff.mp hread
    obtain ⟨rest, hrest, hread⟩ := Option.bind_eq_some_iff.mp hread
    cases hread
    obtain ⟨hlen, hiff⟩ := ih (fun s hs => hno s (List.mem_cons_of_mem _ hs)) hrest
    refine ⟨congrArg (· + 1) hlen, ?_⟩
    rw [List.cons.injEq, List.forall₂_cons, hiff,
      from_ptr_eq_iff (hno copy List.mem_cons_self) hstored hfirst]

/-- One array through both copies. -/
theorem passed_eq_iff (huser : UserArray m addr strings)
    (hcopy : copy_string_array m addr = .ok copies)
    (hstored : List.Forall₂ (Stored m') copies addrs)
    (hread : read_argv m' (as_ptrs copies addrs) = some argv) :
    argv = strings ↔ strings.length ≤ MAX_ARGC ∧ List.Forall₂ (Ended m') copies addrs := by
  have hcopies : copies = strings.take MAX_ARGC := copy_strings_eq huser hcopy
  have hno : ∀ s ∈ copies, ∀ b ∈ s, b ≠ 0 := by
    intro s hs
    rw [hcopies] at hs
    exact huser.no_null s (List.mem_of_mem_take hs)
  obtain ⟨hlen, hiff⟩ := read_argv_eq_iff hno hstored hread
  by_cases hshort : strings.length ≤ MAX_ARGC
  · rw [List.take_of_length_le hshort] at hcopies
    rw [← hcopies, hiff, hcopies]
    exact (and_iff_right hshort).symm
  · refine iff_of_false ?_ (fun h => hshort h.1)
    rintro rfl
    rw [hcopies, List.length_take] at hlen
    omega

/-! ## What the new image gets -/

/-- For every call of `exec` that enters user mode: the process gets the strings of the
user exactly when there are at most `MAX_ARGC` of each kind and the heap has a NUL behind
every copy. -/
theorem arguments_arrive_iff {s s' : System} {path : List UInt8} {argv_ptr envp_ptr : Nat}
    {argv envp kargv kenvp : List (List UInt8)} {argv_at envp_at : List Nat}
    {file : Except UInt64 (Option System.Image)} {fpu : FxSaveArea}
    (hargv : UserArray m argv_ptr argv) (henvp : UserArray m envp_ptr envp)
    (hkargv : copy_string_array m argv_ptr = .ok kargv)
    (hkenvp : copy_string_array m envp_ptr = .ok kenvp)
    (hargv_at : List.Forall₂ (Stored m') kargv argv_at)
    (henvp_at : List.Forall₂ (Stored m') kenvp envp_at)
    (hexec : exec s m m' path argv_ptr envp_ptr argv_at envp_at file fpu = .entered s') :
    ∃ k, s.curr_proc = some k ∧ ((s'.slots k).argv = argv ∧ (s'.slots k).envp = envp ↔
        (argv.length ≤ MAX_ARGC ∧ List.Forall₂ (Ended m') kargv argv_at) ∧
          envp.length ≤ MAX_ARGC ∧ List.Forall₂ (Ended m') kenvp envp_at) := by
  unfold exec at hexec
  rw [hkargv, hkenvp] at hexec
  cases file with
  | error e => cases hexec
  | ok image =>
    dsimp only at hexec
    cases hptr : s.current_proc_mut with
    | none =>
      rw [hptr] at hexec
      cases hexec
    | some k =>
      rw [hptr, read_envp_eq henvp_at] at hexec
      refine ⟨k, hptr, ?_⟩
      dsimp only at hexec
      split at hexec
      · rename_i argv1 envp1 hra hre
        rw [← passed_eq_iff hargv hkargv hargv_at hra, ← passed_eq_iff henvp hkenvp henvp_at hre]
        cases image with
        | none => simp [System.exec, hptr] at hexec
        | some image =>
          simp only [System.exec, hptr] at hexec
          cases hexec
          change ((s.new_table.setSlot k _).slots k).argv = argv ∧
            ((s.new_table.setSlot k _).slots k).envp = envp ↔ _
          rw [System.setSlot_same]
          rfl
      · cases hexec

/-! ## One argument -/

/-- The array at `0x1000` has a pointer to `ls` at `0x1020`, and it ends at `0x1008`. -/
def callerMemory : AddressSpace where
  mapped := fun page => page = 1
  byte := splice (splice (fun _ => 0) 0x1000 [0x20, 0x10]) 0x1020 [0x6c, 0x73]

variable (tail : List UInt8)

/-- The heap has the copy of `ls` at an address of the kernel, and `tail` behind it. -/
def heapWith : AddressSpace where
  mapped := fun page => page = 1 || page = 0xFFFF900000000
  byte := splice (fun _ => 0) 0xFFFF900000000000 ([0x6c, 0x73] ++ tail)

theorem caller_envp : UserArray callerMemory 0x1008 [] := by
  change pointer _ = 0
  decide

theorem caller_argv : UserArray callerMemory 0x1000 [[0x6c, 0x73]] :=
  ⟨by decide, ⟨by decide +kernel, by decide, by decide⟩, caller_envp⟩

/-- Init calls `exec` with the one argument `ls`. -/
def exec_ls : ExecEnd :=
  exec System.bootedKernel callerMemory (heapWith tail) [] 0x1000 0x1008 [0xFFFF900000000000] []
    (.ok (some ⟨0, 0, 0, 0, 0, 0⟩)) .zeroed

/-- The system after a call that enters user mode. -/
def ExecEnd.system : ExecEnd → Option System
  | .entered s => some s
  | .error _ | .panic => none

theorem exec_ls_enters (h : (exec_ls tail).system.isSome = true) :
    ∃ s, exec_ls tail = .entered s := by
  cases he : exec_ls tail with
  | entered s => exact ⟨s, rfl⟩
  | error _ | panic =>
    rw [he] at h
    cases h

/-- With a NUL in the heap the argument arrives. -/
theorem ls_arrives :
    ∃ s, exec_ls [0] = .entered s ∧ (s.slots 1).argv = [[0x6c, 0x73]] ∧ (s.slots 1).envp = [] := by
  obtain ⟨s, hs⟩ := exec_ls_enters [0] (by decide +kernel)
  have hcopies : copy_string_array callerMemory 0x1000 = .ok [[0x6c, 0x73]] := by decide +kernel
  have hnone : copy_string_array callerMemory 0x1008 = .ok [] := by decide +kernel
  obtain ⟨k, hk, hiff⟩ := arguments_arrive_iff caller_argv caller_envp hcopies hnone
    (.cons (by decide +kernel) .nil) .nil hs
  have hinit : System.bootedKernel.curr_proc = some 1 := rfl
  cases hinit.symm.trans hk
  exact ⟨s, hs, hiff.mpr ⟨⟨by decide, .cons (by decide +kernel) .nil⟩, by decide, .nil⟩⟩

/-- With an `x` and then a NUL in the heap the program gets `lsx`. -/
theorem ls_becomes_lsx :
    UserArray callerMemory 0x1000 [[0x6c, 0x73]] ∧
      Stored (heapWith [0x78]) [0x6c, 0x73] 0xFFFF900000000000 ∧
      (exec_ls [0x78]).system.map (fun s => (s.slots 1).argv) = some [[0x6c, 0x73, 0x78]] :=
  ⟨caller_argv, by decide +kernel, by decide +kernel⟩

end zenos_kernel.syscall
