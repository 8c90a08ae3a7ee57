-- `exec` as a whole, from the path to the jump to user mode: `syscall/exec.rs` with
-- `Process::exec_replace`, `load` and `prepare_run`. What goes wrong before the image of the caller
-- is given up becomes an errno, and what goes wrong after that is a panic.
import Zenos.Process.FreshImage
import Zenos.Syscall.Descriptors
import Zenos.Syscall.UserCopy

namespace zenos_kernel.syscall

open process disk PagedMemory

def ENOEXEC : UInt64 := 8

/-- A file that `open_file` has found. `data` is what `read` gives from offset 0, and `executable`
tells whether the owner may execute it. -/
structure ExecFile where
  size : Nat
  data : Except (Fault FileError) (List UInt8)
  executable : Bool

structure Program where
  elf : ElfFile
  entry_point : Nat

/-- The memory under every level-4 table, beside the processes. -/
structure ExecState where
  sys : System
  spaces : Nat → AddressSpace

/-- What `exec` meets: the files, the parser, the heap with the copies of the arguments, whether
there is a frame for the new level-4 table, how many pages `ualloc_page` serves before the frames
run out, what the frames hold, and the FPU. `parse` is `ElfFile::new` with the checks of all program
headers; it refuses a file that is shorter than the identification of ELF. -/
structure ExecEnv where
  open_file : List UInt8 → Except (Fault FileError) ExecFile
  parse : List UInt8 → Option Program
  parse_short : ∀ bytes, bytes.length < 16 → parse bytes = none
  heap : AddressSpace
  argv_at : List Nat
  envp_at : List Nat
  table_frame : Bool
  page_frames : Nat
  frame_byte : Nat → UInt8
  fpu : FxSaveArea

abbrev ExecM := EStateM (Fault UInt64) ExecState

/-! ## exec -/

def or_return {α : Type} : Except UInt64 α → ExecM α
  | .ok a => pure a
  | .error e => throw (.err e)

def or_file_error {α : Type} : Except (Fault FileError) α → ExecM α
  | .ok a => pure a
  | .error e => throw (errno_fault e)

def or_panic {α : Type} : Option α → ExecM α
  | some a => pure a
  | none => throw .panic

def copy_path (m : AddressSpace) (path_ptr : Nat) : Except UInt64 (List UInt8) :=
  match copy_from_user m path_ptr MAX_PATH_LEN with
  | none => .error (errno EFAULT)
  | some path_buf =>
    if 0 ∈ path_buf then
      if Utf8.valid (path_buf.takeWhile (· ≠ 0)) then .ok (path_buf.takeWhile (· ≠ 0))
      else .error (errno EINVAL)
    else .error (errno ENAMETOOLONG)

/-- The memory that the effects build in an empty address space. -/
def space_of (frame_byte : Nat → UInt8) (es : List Effect) : AddressSpace where
  mapped page := es.any fun | .alloc p => p = page | .store _ _ => false
  byte a := ((Image.empty.run es).byte a).getD (frame_byte a)

/-- `self.entry_point + self.load_bias`. -/
def Program.rip (prog : Program) : Option Nat :=
  if prog.entry_point + compute_load_bias prog.elf < UInt64.size then
    some (prog.entry_point + compute_load_bias prog.elf)
  else none

/-- What `load` and `prepare_run` write to the process. -/
def Program.image (prog : Program) (argv envp : List (List UInt8)) (rip : Nat) :
    System.Image where
  load_bias := UInt64.ofNat (compute_load_bias prog.elf)
  end_ := UInt64.ofNat prog.elf.max_end
  entry_point := UInt64.ofNat prog.entry_point
  rip := UInt64.ofNat rip
  rsp := UInt64.ofNat (prog.elf.final_sp argv envp)
  user_stack_top := UInt64.ofNat prog.elf.user_stack_top

namespace ExecEnv

variable (env : ExecEnv)

/-- `load`: parse the file and build its segments in the new address space. -/
def load (file_buf : List UInt8) : ExecM (Program × List Effect) := do
  let prog ← or_panic (env.parse file_buf)
  let loaded ← or_panic prog.elf.internal_load
  if frames loaded ≤ env.page_frames then pure (prog, loaded) else throw .panic

/-- `prepare_run`: map the stack and push the arguments. The entry point is a checked sum. -/
@[irreducible] def prepare_run (prog : Program) (loaded : List Effect)
    (argv envp : List (List UInt8)) : ExecM (System.Image × List Effect) := do
  let stack ← or_panic (prog.elf.prepare_run argv envp)
  if frames (loaded ++ stack) ≤ env.page_frames then do
    let rip ← or_panic prog.rip
    pure (prog.image argv envp rip, loaded ++ stack)
  else throw .panic

def build (file_buf : List UInt8) (argv envp : List (List UInt8)) :
    ExecM (System.Image × List Effect) := do
  let r ← env.load file_buf
  env.prepare_run r.1 r.2 argv envp

/-- The commit of `exec_replace`: the process has the new arguments and a new table. -/
def commit (st : ExecState) (k : Nat) (path : List UInt8) (argv envp : List (List UInt8)) :
    ExecState :=
  { st with
    sys := st.sys.new_table.setSlot k
      (st.sys.exec_replace (st.sys.slots k) path argv envp st.sys.next_table env.fpu) }

/-- The jump to user mode: the image is in the memory under the new table, and the process runs. -/
def enter (st : ExecState) (k : Nat) (image : System.Image) (es : List Effect) : ExecState :=
  let p := System.load_image (st.sys.slots k) image
  let sys := st.sys.setSlot k p
  { sys := { sys.set_current p.pid k with cr3 := p.cr3 }
    spaces := Function.update st.spaces p.cr3 (space_of env.frame_byte es) }

/-- `exec_inner` from the point where the caller is known. `new_user_address_space().unwrap()` is
the end of `exec_replace`. -/
def replace (k : Nat) (path : List UInt8) (kargv kenvp : List (List UInt8))
    (file_buf : List UInt8) : ExecM Unit := do
  let envp ← or_panic (read_envp env.heap (as_ptrs kenvp env.envp_at))
  let argv ← or_panic (read_argv env.heap (as_ptrs kargv env.argv_at))
  modify (env.commit · k path argv envp)
  if env.table_frame then do
    let r ← env.build file_buf argv envp
    modify (env.enter · k r.1 r.2)
  else throw .panic

def replace_caller (proc : Option Nat) (path : List UInt8) (kargv kenvp : List (List UInt8))
    (file_buf : List UInt8) : ExecM Unit :=
  match proc with
  | none => throw (.err (errno ESRCH))
  | some k => env.replace k path kargv kenvp file_buf

def exec_inner (file : ExecFile) (path : List UInt8) (kargv kenvp : List (List UInt8)) :
    ExecM Unit := do
  let file_buf ← or_file_error file.data
  if file_buf.length = file.size then
    if file.executable then do
      let st ← get
      env.replace_caller st.sys.current_proc_mut path kargv kenvp file_buf
    else throw (.err (errno ENOEXEC))
  else throw .panic

def exec (path_ptr argv_ptr envp_ptr : Nat) : ExecM Unit := do
  let st ← get
  let path ← or_return (copy_path (st.spaces st.sys.cr3) path_ptr)
  let kargv ← or_return (copy_string_array (st.spaces st.sys.cr3) argv_ptr)
  let kenvp ← or_return (copy_string_array (st.spaces st.sys.cr3) envp_ptr)
  let file ← or_file_error (env.open_file path)
  env.exec_inner file path kargv kenvp

end ExecEnv

end zenos_kernel.syscall

/-! ## Images that can be built -/

namespace zenos_kernel.process

open PagedMemory
open memory (PAGE_4K)

/-- The addresses of a segment are canonical, as are the ends of its pages, and the file does not
fill more than the segment. -/
def ProgramHeader.Loadable (ph : ProgramHeader) (load_bias : Nat) : Prop :=
  ph.seg_end load_bias < UInt64.size ∧ syscall.canonical (ph.seg_start load_bias) ∧
    syscall.canonical (ph.seg_end load_bias) ∧
    (∀ page ∈ ph.pages load_bias, (page + 1) * PAGE_4K < UInt64.size ∧
      syscall.canonical ((page + 1) * PAGE_4K)) ∧ ph.file_size ≤ ph.mem_size

namespace ElfFile

/-- The stack has canonical addresses, and the arguments fit on it. -/
def StackFits (elf : ElfFile) (argv envp : List (List UInt8)) : Prop :=
  compute_load_bias elf + elf.max_end + stack_gap + 0xFFF < UInt64.size ∧
    (∀ page ∈ elf.stack_pages, syscall.canonical (page * PAGE_4K)) ∧
    elf.stack_start ≤ elf.final_sp argv envp

/-- The pages of the segments and of the stack. -/
def page_count (elf : ElfFile) : Nat :=
  (elf.segments.map fun ph => (ph.pages (compute_load_bias elf)).length).sum +
    elf.stack_pages.length

end ElfFile

theorem frames_append (es es' : List Effect) : frames (es ++ es') = frames es + frames es' := by
  induction es with
  | nil => simp [frames]
  | cons e es ih =>
    cases e with
    | alloc page =>
      rw [List.cons_append, frames, frames]
      omega
    | store addr bytes =>
      rw [List.cons_append, frames, frames, ih]

theorem frames_allocs (pages : List Nat) : frames (pages.map .alloc) = pages.length := by
  induction pages with
  | nil => rfl
  | cons page pages ih => rw [List.map_cons, frames, ih, List.length_cons]

theorem frames_stores {lo hi : Nat} {es : List Effect} (h : StoresIn lo hi es) : frames es = 0 := by
  induction es with
  | nil => rfl
  | cons e es ih =>
    obtain ⟨addr, bytes, rfl, -⟩ := h e List.mem_cons_self
    exact ih fun e he => h e (List.mem_cons_of_mem _ he)

theorem Part.frames_eq {pages : List Nat} {lo hi : Nat} {written : Nat → Prop}
    {es : List Effect} (h : Part pages lo hi written es) : frames es = pages.length := by
  obtain ⟨stores, rfl, hstores⟩ := h.split
  rw [frames_append, frames_allocs, frames_stores hstores, Nat.add_zero]

namespace ProgramHeader

variable {ph : ProgramHeader} {load_bias : Nat} {bytes : List UInt8} {phs : List ProgramHeader}

theorem load_segment_iff :
    (∃ es, ph.load_segment load_bias bytes = some es) ↔ ph.Loadable load_bias := by
  unfold load_segment
  rw [← Option.isSome_iff_exists, Option.isSome_ite]
  rfl

theorem load_segments_iff :
    (∃ es, load_segments load_bias bytes phs = some es) ↔ ∀ ph ∈ phs, ph.Loadable load_bias := by
  induction phs with
  | nil => simp [load_segments]
  | cons ph phs ih =>
    have hfirst : (∃ es, ph.load_segment load_bias bytes = some es) ↔ ph.Loadable load_bias :=
      load_segment_iff
    rw [List.forall_mem_cons, ← hfirst, ← ih]
    simp only [load_segments, Option.bind_eq_bind, Option.bind_eq_some_iff]
    constructor
    · rintro ⟨_, first, hfirst, rest, hrest, -⟩
      exact ⟨⟨first, hfirst⟩, rest, hrest⟩
    · rintro ⟨⟨first, hfirst⟩, rest, hrest⟩
      exact ⟨_, first, hfirst, rest, hrest, rfl⟩

theorem load_segments_frames {es : List Effect}
    (hsane : ∀ ph ∈ phs, ph.offset + ph.file_size < bytes.length)
    (h : load_segments load_bias bytes phs = some es) :
    frames es = (phs.map fun ph => (ph.pages load_bias).length).sum := by
  induction phs generalizing es with
  | nil =>
    cases h
    rfl
  | cons ph phs ih =>
    simp only [load_segments, Option.bind_eq_bind, Option.bind_eq_some_iff, Option.some.injEq] at h
    obtain ⟨first, hfirst, rest, hrest, rfl⟩ := h
    have hpart := load_segment_part hfirst (hsane ph List.mem_cons_self)
    rw [frames_append, hpart.frames_eq,
      ih (fun ph' hph' => hsane ph' (List.mem_cons_of_mem _ hph')) hrest, List.map_cons,
      List.sum_cons]

end ProgramHeader

namespace ElfFile

variable {elf : ElfFile} {argv envp : List (List UInt8)}

theorem prepare_run_iff :
    (∃ es, elf.prepare_run argv envp = some es) ↔ elf.StackFits argv envp := by
  have haligned : elf.final_sp argv envp % 16 = 0 := by
    unfold final_sp pointer_sp align_stack
    dsimp only
    split <;> omega
  have hsp : elf.final_sp argv envp = elf.pointer_sp argv envp -
      8 * (2 + (envp.length + 1) + (argv.length + 1) + 1) := by
    unfold final_sp
    omega
  unfold prepare_run StackFits
  rw [hsp] at haligned ⊢
  simp only [push_all_sp, push_strings_sp, strings_len_reverse, Option.ite_none_right_eq_some,
    List.length_append, List.length_cons, push_strings_ptrs_length, List.length_reverse]
  constructor
  · rintro ⟨_, ⟨hsum, hpages, hfits, -⟩, -⟩
    exact ⟨hsum, hpages, hfits⟩
  · rintro ⟨hsum, hpages, hfits⟩
    exact ⟨_, ⟨hsum, hpages, hfits, haligned⟩, rfl⟩

/-- All that is stored lies on the stack, and the kernel does not panic before the entry point, whose
checked sum is in `ExecEnv.prepare_run`. -/
def StaysOnStack (elf : ElfFile) (argv envp : List (List UInt8)) : Prop :=
  ∃ stores, elf.prepare_run argv envp = some (elf.stack_pages.map .alloc ++ stores) ∧
    StoresIn elf.stack_start elf.user_stack_top stores

theorem stays_on_stack_iff (elf : ElfFile) (argv envp : List (List UInt8)) :
    elf.StaysOnStack argv envp ↔ elf.StackFits argv envp := by
  rw [← prepare_run_iff]
  constructor
  · rintro ⟨stores, h, -⟩
    exact ⟨_, h⟩
  · rintro ⟨es, h⟩
    obtain ⟨stores, rfl, hstores⟩ := (prepare_run_part h).split
    exact ⟨stores, h, hstores⟩

/-- Five arguments of 4095 bytes are more than the stack, whatever the file is. -/
theorem long_arguments_panic :
    ∃ argv : List (List UInt8), argv.length ≤ syscall.MAX_ARGC ∧
      (∀ s ∈ argv, s.length < syscall.MAX_ARG_LEN) ∧
      ∀ elf : ElfFile, elf.prepare_run argv [] = none := by
  refine ⟨List.replicate 5 (List.replicate 4095 1), by decide, by decide +kernel, fun elf => ?_⟩
  rw [Option.eq_none_iff_forall_ne_some]
  intro es h
  have hfits := (prepare_run_iff.mp ⟨es, h⟩).2.2
  have hlen : strings_len (List.replicate 5 (List.replicate 4095 1)) = 20480 := by decide +kernel
  have htop : 0x20000 ≤ elf.user_stack_top := by
    unfold user_stack_top stack_gap PAGE_4K
    omega
  unfold stack_start stack_size final_sp pointer_sp align_stack string_sp at hfits
  rw [hlen] at hfits
  dsimp only at hfits
  split at hfits <;> omega

end ElfFile

end zenos_kernel.process

/-! ## A failed exec -/

namespace zenos_kernel.syscall

open Outcome process disk PagedMemory

/-- The current process runs in the new address space. -/
def Started (st st' : ExecState) : Prop :=
  ∃ k, st.sys.current_proc_mut = some k ∧ (st'.sys.slots k).status = .Running ∧
    (st'.sys.slots k).loaded = true ∧ (st'.sys.slots k).cr3 = st.sys.next_table ∧
    st'.sys.cr3 = st.sys.next_table

/-- The address of the first instruction is below `2 ^ 64`. -/
def Program.EntryFits (prog : Program) : Prop :=
  prog.entry_point + compute_load_bias prog.elf < UInt64.size

theorem Program.rip_iff {prog : Program} : (∃ rip, prog.rip = some rip) ↔ prog.EntryFits := by
  unfold Program.rip
  rw [← Option.isSome_iff_exists, Option.isSome_ite]
  rfl

namespace ExecEnv

variable {env : ExecEnv} {st : ExecState} {loaded : List Effect} {m : AddressSpace}

variable (st)

/-- The call has started the program, or it has returned a negative errno and nothing has changed:
neither the processes nor any address space. -/
def EndsWell (r : EStateM.Result (Fault UInt64) ExecState Unit) : Prop :=
  Ends r (fun _ st' => Started st st') (fun f st' => ∃ e, f = .err e ∧ negative e = true ∧ st' = st)

variable (env)

def Harmless (path_ptr argv_ptr envp_ptr : Nat) : Prop :=
  EndsWell st (env.exec path_ptr argv_ptr envp_ptr st)

/-- The file is a program, its segments and its stack can be built, and there are frames for all
their pages. -/
def Builds (bytes : List UInt8) (argv envp : List (List UInt8)) : Prop :=
  ∃ prog, env.parse bytes = some prog ∧
    (∀ ph ∈ prog.elf.segments, ph.Loadable (compute_load_bias prog.elf)) ∧
    prog.elf.StackFits argv envp ∧ prog.elf.page_count ≤ env.page_frames ∧ prog.EntryFits

/-- The copies of the arguments end with a NUL somewhere, there is a frame for the table, and the
image can be built. -/
def Replaces (kargv kenvp : List (List UInt8)) (bytes : List UInt8) : Prop :=
  ∃ argv envp, read_envp env.heap (as_ptrs kenvp env.envp_at) = some envp ∧
    read_argv env.heap (as_ptrs kargv env.argv_at) = some argv ∧ env.table_frame = true ∧
    env.Builds bytes argv envp

/-- A file that can be read is read as a whole, and if it is executable and there is a caller, it
replaces the caller. -/
def Runs (file : ExecFile) (kargv kenvp : List (List UInt8)) :
    Prop :=
  file.data ≠ .error .panic ∧ ∀ bytes, file.data = .ok bytes → bytes.length = file.size ∧
    (file.executable = true → ∀ k, st.sys.current_proc_mut = some k →
      env.Replaces kargv kenvp bytes)

variable {st}

variable {env}

section Stages

variable {α β : Type} {Q : β → ExecState → Prop} {E : Fault UInt64 → ExecState → Prop}
  {f : α → ExecM β}

theorem ends_or_panic {x : Option α} (hnone : x = none → E .panic st)
    (hsome : ∀ a, x = some a → Ends (f a st) Q E) : Ends ((or_panic x >>= f) st) Q E := by
  cases x with
  | none => exact hnone rfl
  | some a => exact hsome a rfl

theorem ends_or_return {x : Except UInt64 α} (hE : ∀ e, x = .error e → E (.err e) st) :
    Ends ((or_return x >>= f) st) Q E ↔ ∀ a, x = .ok a → Ends (f a st) Q E := by
  cases x with
  | error e =>
    have hrun : (or_return (.error e) >>= f) st = .error (.err e) st := rfl
    simp [hrun, hE]
  | ok a => simp [or_return]

theorem ends_or_file_error {x : Except (Fault FileError) α}
    (hE : ∀ e, E (.err (file_error_to_errno e)) st) (hp : ¬ E .panic st) :
    Ends ((or_file_error x >>= f) st) Q E ↔
      x ≠ .error .panic ∧ ∀ a, x = .ok a → Ends (f a st) Q E := by
  cases x with
  | error e =>
    cases e with
    | err e =>
      have hrun : (or_file_error (.error (.err e)) >>= f) st =
        .error (.err (file_error_to_errno e)) st := rfl
      simp [hrun, hE]
    | panic =>
      have hrun : (or_file_error (.error .panic) >>= f) st = .error .panic st := rfl
      simp [hrun, hp]
  | ok a => simp [or_file_error]

end Stages

theorem negative_of_copy_path {path_ptr : Nat} {e : UInt64}
    (h : copy_path m path_ptr = .error e) : negative e = true := by
  unfold copy_path at h
  split at h
  · cases h
    decide
  · split at h
    · split at h
      · cases h
      · cases h
        decide
    · cases h
      decide

theorem negative_of_copy_strings {n ptr : Nat} {e : UInt64}
    (h : copy_strings m n ptr = .error e) : negative e = true := by
  induction n generalizing ptr with
  | zero => cases h
  | succ n ih =>
    unfold copy_strings at h
    split at h
    · cases h
      decide
    · split at h
      · cases h
      · rcases except_bind_error h with hbuf | ⟨buf, h⟩
        · exact negative_of_copy_string hbuf
        · rcases except_bind_error h with hrest | ⟨result, h⟩
          · exact ih hrest
          · cases h

/-! ## Building the image -/

theorem loaded_frames {elf : ElfFile} (h : elf.internal_load = some loaded) :
    frames loaded + elf.stack_pages.length = elf.page_count := by
  unfold ElfFile.page_count
  rw [ProgramHeader.load_segments_frames (fun ph hph => ?_) h]
  exact elf.sane ph (List.mem_filter.mp hph).1

/-- A file that is not loaded does not build. -/
theorem ends_load (bytes : List UInt8) :
    Ends (env.load bytes st)
      (fun r st' => st' = st ∧ env.parse bytes = some r.1 ∧ r.1.elf.internal_load = some r.2)
      (fun f _ => f = .panic ∧ ∀ argv envp, ¬ env.Builds bytes argv envp) := by
  refine ends_or_panic ?_ fun prog hparse => ends_or_panic ?_ fun loaded hload => ?_
  · intro hnone
    refine ⟨rfl, ?_⟩
    rintro argv envp ⟨prog, hparse, -⟩
    rw [hnone] at hparse
    cases hparse
  · intro hnone
    refine ⟨rfl, ?_⟩
    rintro argv envp ⟨prog', hparse', hsegments, -⟩
    cases hparse.symm.trans hparse'
    obtain ⟨es, hes⟩ := ProgramHeader.load_segments_iff.mpr hsegments
    cases hnone.symm.trans hes
  · split
    · exact ⟨rfl, hparse, hload⟩
    · refine ⟨rfl, ?_⟩
      rintro argv envp ⟨prog', hparse', -, -, hcount, -⟩
      cases hparse.symm.trans hparse'
      have hpages := loaded_frames hload
      omega

/-- A loaded file builds exactly if the stack can be prepared. -/
theorem ends_prepare_run {prog : Program} {bytes : List UInt8}
    (hparse : env.parse bytes = some prog) (hload : prog.elf.internal_load = some loaded)
    (argv envp : List (List UInt8)) :
    Ends (env.prepare_run prog loaded argv envp st)
      (fun _ st' => st' = st ∧ env.Builds bytes argv envp)
      (fun f _ => f = .panic ∧ ¬ env.Builds bytes argv envp) := by
  have hpages := loaded_frames hload
  have hiff : env.Builds bytes argv envp ↔ prog.elf.StackFits argv envp ∧
      prog.elf.page_count ≤ env.page_frames ∧ prog.EntryFits := by
    constructor
    · rintro ⟨prog', hparse', -, hrest⟩
      cases hparse.symm.trans hparse'
      exact hrest
    · intro hrest
      exact ⟨prog, hparse, ProgramHeader.load_segments_iff.mp ⟨loaded, hload⟩, hrest⟩
  have hfits : (∃ es, prog.elf.prepare_run argv envp = some es) ↔
      prog.elf.StackFits argv envp := ElfFile.prepare_run_iff
  have hpart : ∀ stack, prog.elf.prepare_run argv envp = some stack →
      frames stack = prog.elf.stack_pages.length :=
    fun _ hstack => (ElfFile.prepare_run_part hstack).frames_eq
  rw [hiff, ← hfits]
  unfold prepare_run
  generalize prog.elf.prepare_run argv envp = prepared at hpart
  refine ends_or_panic ?_ fun stack hstack => ?_
  · rintro rfl
    exact ⟨rfl, by simp⟩
  have hframes : frames (loaded ++ stack) = prog.elf.page_count := by
    rw [frames_append, hpart stack hstack, hpages]
  rw [hframes]
  split
  · rename_i hcount
    refine ends_or_panic ?_ fun rip hrip => ?_
    · intro hnone
      refine ⟨rfl, fun h => ?_⟩
      obtain ⟨rip, hrip⟩ := Program.rip_iff.mpr h.2.2
      rw [hnone] at hrip
      cases hrip
    · exact ⟨rfl, ⟨stack, hstack⟩, hcount, Program.rip_iff.mp ⟨rip, hrip⟩⟩
  · rename_i hcount
    exact ⟨rfl, fun h => hcount h.2.1⟩

theorem ends_build (bytes : List UInt8) (argv envp : List (List UInt8)) :
    Ends (env.build bytes argv envp st) (fun _ st' => st' = st ∧ env.Builds bytes argv envp)
      (fun f _ => f = .panic ∧ ¬ env.Builds bytes argv envp) := by
  refine ends_then (ends_load bytes) ?_ ?_
  · rintro f st' ⟨hf, hbuilds⟩
    exact ⟨hf, hbuilds argv envp⟩
  · rintro r st' ⟨rfl, hparse, hload⟩
    exact ends_prepare_run hparse hload argv envp

/-- From the commit on, the program starts or the kernel panics. -/
theorem ends_replace {k : Nat} (hcur : st.sys.current_proc_mut = some k) (path : List UInt8)
    (kargv kenvp : List (List UInt8)) (bytes : List UInt8) :
    Ends (env.replace k path kargv kenvp bytes st)
      (fun _ st' => Started st st' ∧ env.Replaces kargv kenvp bytes)
      (fun f _ => f = .panic ∧ ¬ env.Replaces kargv kenvp bytes) := by
  refine ends_or_panic ?_ fun envp henvp => ends_or_panic ?_ fun argv hargv => ?_
  · intro hnone
    refine ⟨rfl, ?_⟩
    rintro ⟨argv, envp, henvp, -⟩
    rw [hnone] at henvp
    cases henvp
  · intro hnone
    refine ⟨rfl, ?_⟩
    rintro ⟨argv, envp, -, hargv, -⟩
    rw [hnone] at hargv
    cases hargv
  have hiff : env.Replaces kargv kenvp bytes ↔
      env.table_frame = true ∧ env.Builds bytes argv envp := by
    constructor
    · rintro ⟨argv', envp', henvp', hargv', hrest⟩
      cases henvp.symm.trans henvp'
      cases hargv.symm.trans hargv'
      exact hrest
    · intro hrest
      exact ⟨argv, envp, henvp, hargv, hrest⟩
  rw [hiff, modify_bind]
  split
  · rename_i htable
    refine ends_then (ends_build bytes argv envp) ?_ ?_
    · rintro f st' ⟨hf, hbuilds⟩
      exact ⟨hf, fun h => hbuilds h.2⟩
    · rintro r st' ⟨rfl, hbuilds⟩
      refine ⟨⟨k, hcur, ?_⟩, htable, hbuilds⟩
      simp [enter, commit, System.set_current, System.load_image, System.exec_replace]
  · rename_i htable
    exact ⟨rfl, fun h => htable h.1⟩

theorem ends_replace_caller (path : List UInt8) (kargv kenvp : List (List UInt8))
    (bytes : List UInt8) :
    EndsWell st (env.replace_caller st.sys.current_proc_mut path kargv kenvp bytes st) ↔
      ∀ k, st.sys.current_proc_mut = some k → env.Replaces kargv kenvp bytes := by
  cases hcur : st.sys.current_proc_mut with
  | none =>
    have herr : EndsWell st (.error (.err (errno ESRCH)) st) := ⟨_, rfl, by decide, rfl⟩
    exact ⟨fun _ k hk => absurd hk (by simp), fun _ => herr⟩
  | some k =>
    have hreplace : Ends (env.replace k path kargv kenvp bytes st) _ _ :=
      ends_replace hcur path kargv kenvp bytes
    constructor
    · intro hwell _ _
      change EndsWell st (env.replace k path kargv kenvp bytes st) at hwell
      generalize env.replace k path kargv kenvp bytes st = r at hreplace hwell
      cases r with
      | ok a st' => exact hreplace.2
      | error f st' =>
        obtain ⟨e, he, -⟩ := hwell
        rw [hreplace.1] at he
        cases he
    · intro hreplaces
      exact hreplace.mono (fun _ _ h => h.1) fun _ _ h => absurd (hreplaces k rfl) h.2

theorem ends_exec_inner (file : ExecFile) (path : List UInt8) (kargv kenvp : List (List UInt8)) :
    EndsWell st (env.exec_inner file path kargv kenvp st) ↔ env.Runs st file kargv kenvp := by
  refine (ends_or_file_error (fun e => ⟨_, rfl, negative_file_error e, rfl⟩) (by simp)).trans ?_
  refine and_congr_right' (forall_congr' fun bytes => imp_congr_right fun _ => ?_)
  by_cases hlen : bytes.length = file.size
  · by_cases hexec : file.executable = true
    · simp only [hlen, hexec, true_and, forall_const]
      exact ends_replace_caller path kargv kenvp bytes
    · have herr : negative (errno ENOEXEC) = true := by decide
      simp [hlen, hexec, herr]
  · simp [hlen]

/-- The process table after a call that starts the program is the one of `System.exec`. -/
theorem exec_eq_enter {k : Nat} (hcur : st.sys.current_proc_mut = some k) (path : List UInt8)
    (argv envp : List (List UInt8)) (image : System.Image) (es : List Effect) :
    st.sys.exec path argv envp (some image) env.fpu =
      some (0, (env.enter (env.commit st k path argv envp) k image es).sys) := by
  unfold System.exec
  rw [hcur]
  simp only [enter, commit, System.setSlot, System.set_current, Option.some.injEq, Prod.mk.injEq,
    true_and, if_true]
  congr 1
  funext j
  by_cases hj : j = k
  · simp only [if_pos hj]
  · simp only [if_neg hj]

/-- Every path leads to an empty file that may be executed. -/
def emptyFile : ExecEnv where
  open_file _ := .ok ⟨0, .ok [], true⟩
  parse _ := none
  parse_short _ _ := rfl
  heap := heapWith [0]
  argv_at := []
  envp_at := []
  table_frame := true
  page_frames := 100
  frame_byte _ := 0
  fpu := .zeroed

def initState : ExecState := ⟨System.bootedKernel, fun _ => callerMemory⟩

end ExecEnv

/-! ## The path -/

theorem not_faults {m : AddressSpace} {ptr n : Nat} (hn : n ≠ 0) {bytes : List UInt8}
    (h : copy_from_user m ptr n = some bytes) : ¬ Faults m n ptr := by
  rintro ⟨i, hi, hnone, -⟩
  rw [copy_from_user, if_neg hn] at h
  split at h
  · rename_i hmapped
    rw [copy_from_user, if_neg (by decide), if_pos (mapped_sub hmapped (by decide) hi)] at hnone
    cases hnone
  · cases h

/-- `exec` reads a path as `open` does exactly when all `MAX_PATH_LEN` bytes can be copied and have a
NUL or are UTF-8, or when `open` meets a byte that cannot be copied. -/
theorem paths_are_read_alike_iff (m : AddressSpace) (ptr : Nat) :
    copy_path m ptr = copy_string m ptr MAX_PATH_LEN ↔
      match copy_from_user m ptr MAX_PATH_LEN with
      | some bytes => 0 ∈ bytes ∨ Utf8.valid bytes = true
      | none => Faults m MAX_PATH_LEN ptr := by
  have hlong : errno ENAMETOOLONG ≠ errno EFAULT ∧ errno EINVAL ≠ errno EFAULT ∧
      errno ENAMETOOLONG ≠ errno EINVAL := by decide
  unfold copy_path copy_string
  cases hcopy : copy_from_user m ptr MAX_PATH_LEN with
  | none =>
    rcases copy_bytes_cases m MAX_PATH_LEN ptr with ⟨hf, hrun⟩ | ⟨hf, hrun⟩
    · rw [hrun]
      exact iff_of_true rfl hf
    · rw [hrun]
      refine iff_of_false (fun h => ?_) hf
      dsimp only [bind, Except.bind] at h
      split at h
      · split at h
        · cases h
        · exact hlong.1 (Except.error.inj h).symm
      · exact hlong.2.1 (Except.error.inj h).symm
  | some bytes =>
    rw [((copy_bytes_cases m MAX_PATH_LEN ptr).resolve_left
      fun h => not_faults (by decide) hcopy h.1).2, ← copy_from_user_eq (by decide) hcopy]
    dsimp only [bind, Except.bind]
    by_cases h0 : 0 ∈ bytes
    · have htrim := trim_null (s := bytes.takeWhile (· ≠ 0)) fun b hb => by
        simpa using List.mem_takeWhile_imp hb
      refine iff_of_true ?_ (Or.inl h0)
      simp only [up_to_null, if_pos h0, Utf8.valid_append_null, htrim]
      split
      · rfl
      · rfl
    · simp only [up_to_null, if_neg h0]
      split
      · rename_i hv
        simp [hv]
      · rename_i hv
        simp [h0, hv, hlong.2.2]

/-- Only page 1 is mapped, and a path of one character ends with it. -/
def lastBytes : AddressSpace := ⟨fun page => page == 1, fun a => if a = 0x1ffe then 0x61 else 0⟩

theorem a_path_before_an_unmapped_page :
    copy_path lastBytes 0x1ffe = .error (errno EFAULT) ∧
      copy_string lastBytes 0x1ffe MAX_PATH_LEN = .ok [0x61] := by decide +kernel

end zenos_kernel.syscall
