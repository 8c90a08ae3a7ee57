-- The disk driver down to the commands of the port: `Port::send_command` and `AhciBlockDevice` of
-- `block/ahci.rs`, over the kernel's buffers for DMA. A transfer is a loop over chunks of at most a
-- page, each with a buffer of its own, and every command takes one more page.
import Zenos.Memory.Dma

namespace zenos_kernel.disk.block.ahci

open Bytes Outcome
open memory (MapErr)
open memory.KernelMemory (DmaBuf)

def SECTOR_SIZE : Nat := 512

def PAGE_4K : Nat := 4096

/-! ## Commands -/

/-- The fields of the command packet that carry data. -/
structure RegFis where
  write : Bool
  lba0 : Nat
  lba1 : Nat
  lba2 : Nat
  lba3 : Nat
  lba4 : Nat
  lba5 : Nat
  countl : Nat
  counth : Nat

namespace RegFis

def new_dma_command (lba count : Nat) (write : Bool) : RegFis where
  write := write
  lba0 := lba &&& 0xFF
  lba1 := (lba >>> 8) &&& 0xFF
  lba2 := (lba >>> 16) &&& 0xFF
  lba3 := (lba >>> 24) &&& 0xFF
  lba4 := (lba >>> 32) &&& 0xFF
  lba5 := (lba >>> 40) &&& 0xFF
  countl := count &&& 0xFF
  counth := (count >>> 8) &&& 0xFF

/-- The first sector, as the disk reads it. -/
def lba (fis : RegFis) : Nat :=
  fis.lba0 + fis.lba1 * 2 ^ 8 + fis.lba2 * 2 ^ 16 + fis.lba3 * 2 ^ 24 + fis.lba4 * 2 ^ 32 +
    fis.lba5 * 2 ^ 40

def count (fis : RegFis) : Nat := fis.countl + fis.counth * 2 ^ 8

theorem and_byte (n : Nat) : n &&& 0xFF = n % 256 := Nat.and_two_pow_sub_one_eq_mod n 8

/-- The packet has room for 48 bits. -/
theorem lba_new_dma_command (lba count : Nat) (write : Bool) :
    (new_dma_command lba count write).lba = lba % 2 ^ 48 := by
  simp only [RegFis.lba, new_dma_command, and_byte]
  omega

theorem count_new_dma_command (lba count : Nat) (write : Bool) :
    (new_dma_command lba count write).count = count % 2 ^ 16 := by
  simp only [RegFis.count, new_dma_command, and_byte]
  omega

end RegFis

/-- The kernel's functions for DMA buffers. -/
structure DmaOps (μ : Type) where
  kalloc_dma_pages : Nat → EStateM (Fault MapErr) μ DmaBuf
  kfree_dma_pages : DmaBuf → EStateM (Fault MapErr) μ Unit
  virt_to_phys : μ → Nat → Option Nat

/-- The driver, its port and the disk behind it. Command number `commands` is the next one. Of each
command, `slot_free` tells whether `allocate_slot` finds a slot, `running` whether the engine runs,
`completes` whether the port reports success, and `stored` whether a write that fails has reached
the disk. `known` tells whether the port is one of `PORTS`. -/
structure Driver (μ : Type) where
  bytes : Nat → UInt8
  sectors : Nat
  known : Bool
  slot_free : Nat → Bool
  running : Nat → Bool
  completes : Nat → Bool
  stored : Nat → Bool
  commands : Nat
  cursor : Nat
  memory : μ

variable {μ α ε ε' : Type} {x : EStateM (Fault ε) (Driver μ) α} {E : Fault ε' → Driver μ → Prop}

namespace Driver

/-- `map_err(|_| e)`. -/
def map_err (e : ε) : Fault MapErr → Fault ε
  | .err _ => .err e
  | .panic => .panic

/-- A call into the memory, with the error that the driver makes of its errors. -/
def on_memory (e : ε) (x : EStateM (Fault MapErr) μ α) : EStateM (Fault ε) (Driver μ) α := fun d =>
  match x d.memory with
  | .ok a m => .ok a { d with memory := m }
  | .error f m => .error (map_err e f) { d with memory := m }

/-- An error as a value; a panic stays one. -/
def caught (x : EStateM (Fault ε) (Driver μ) α) : EStateM (Fault ε') (Driver μ) (Except ε α) :=
  fun d =>
    match x d with
    | .ok a d => .ok (.ok a) d
    | .error (.err e) d => .ok (.error e) d
    | .error .panic d => .error .panic d

/-- The port runs command number `k`. A command beyond the end of the disk fails. -/
def issue (k : Nat) (fis : RegFis) (page : List UInt8) :
    EStateM (Fault Unit) (Driver μ) (List UInt8) := fun d =>
  let inside := decide (fis.lba + fis.count ≤ d.sectors)
  let start := fis.lba * SECTOR_SIZE
  let len := fis.count * SECTOR_SIZE
  if d.running k = false then .error (.err ()) d
  else if fis.write then
    let written := { d with bytes := splice d.bytes start (page.take len) }
    if d.completes k && inside then .ok page written
    else .error (.err ()) (if d.stored k && inside then written else d)
  else if d.completes k && inside then .ok (slice d.bytes start len) d
  else .error (.err ()) d

variable (dma : DmaOps μ)

/-- `Port::send_command`. The result is what `buf` holds afterwards. -/
def send_command (lba : Nat) (buf : List UInt8) (sector_count : Nat) (write : Bool) :
    EStateM (Fault Unit) (Driver μ) (List UInt8) := do
  let d ← get
  modify (fun d => { d with commands := d.commands + 1 })
  if d.slot_free d.commands = false then throw (.err ())
  else do
    let total_bytes := sector_count * SECTOR_SIZE
    if total_bytes = 0 ∨ PAGE_4K < total_bytes then throw (.err ())
    else do
      let dma_buf ← on_memory () (dma.kalloc_dma_pages total_bytes)
      let d' ← get
      if (dma.virt_to_phys d'.memory dma_buf.base).isSome then
        issue d.commands (RegFis.new_dma_command lba sector_count write) buf
      else throw .panic

/-- `read_sectors` into a buffer of the sectors' size. -/
def read_sectors (lba count : Nat) : EStateM (Fault Unit) (Driver μ) (List UInt8) :=
  send_command dma lba (List.replicate (count * SECTOR_SIZE) 0) count false

def write_sectors (lba : Nat) (ubuf : List UInt8) (count : Nat) :
    EStateM (Fault Unit) (Driver μ) (List UInt8) :=
  send_command dma lba ubuf count true

/-! ## Transfers -/

/-- The sectors of so many bytes, as a `u16`. -/
def sectors_for_bytes (bytes : Nat) : Nat := (bytes + SECTOR_SIZE - 1) / SECTOR_SIZE % 2 ^ 16

/-- How many of the bytes that are left fit into one command. -/
def chunk_len (current_cursor bytes_left : Nat) : Nat :=
  min bytes_left (PAGE_4K - current_cursor % SECTOR_SIZE)

/-- The sectors of a chunk. -/
def sectors_at (current_cursor bytes_left : Nat) : Nat :=
  sectors_for_bytes (current_cursor % SECTOR_SIZE + chunk_len current_cursor bytes_left)

/-- What `read` and `write` do for a chunk: the buffer is taken, the port looked up, and the buffer
given back on every way out. -/
def with_buffer (e : BlockError) (sector_aligned_size : Nat)
    (body : EStateM (Fault Unit) (Driver μ) α) : EStateM (Fault BlockError) (Driver μ) α := do
  let ubuf ← on_memory e (dma.kalloc_dma_pages sector_aligned_size)
  let d ← get
  if d.known then do
    let res ← caught body
    on_memory e (dma.kfree_dma_pages ubuf)
    match res with
    | .ok a => pure a
    | .error _ => throw (.err e)
  else do
    let _ ← caught (ε := Unit) (on_memory () (dma.kfree_dma_pages ubuf))
    throw (.err .DeviceNotFound)

/-- The bytes of a chunk. -/
def read_chunk (current_cursor bytes_left : Nat) :
    EStateM (Fault Unit) (Driver μ) (List UInt8) := do
  let ubuf ← read_sectors dma (current_cursor / SECTOR_SIZE) (sectors_at current_cursor bytes_left)
  pure ((ubuf.drop (current_cursor % SECTOR_SIZE)).take (chunk_len current_cursor bytes_left))

/-- The cursor moves at the end. -/
def advance (total : Nat) : EStateM (Fault BlockError) (Driver μ) Unit := do
  let d ← get
  if UInt64.size ≤ d.cursor + total then throw .panic
  else modify (fun d => { d with cursor := d.cursor + total })

/-- The buffer of a chunk before the copy: `read` first when `need_read`. The bytes of a fresh
buffer do not matter, since all of them are overwritten. -/
def chunk_buffer (current_cursor bytes_left : Nat) :
    EStateM (Fault Unit) (Driver μ) (List UInt8) :=
  let sectors := sectors_at current_cursor bytes_left
  if current_cursor % SECTOR_SIZE ≠ 0 ∨ chunk_len current_cursor bytes_left ≠ sectors * SECTOR_SIZE
  then read_sectors dma (current_cursor / SECTOR_SIZE) sectors
  else pure (List.replicate (sectors * SECTOR_SIZE) 0)

/-- The sectors of the chunk are written back with the new bytes on top. No bytes are returned. -/
def write_chunk (current_cursor bytes_left : Nat) (src : List UInt8) :
    EStateM (Fault Unit) (Driver μ) (List UInt8) := do
  let ubuf ← chunk_buffer dma current_cursor bytes_left
  let _ ← write_sectors dma (current_cursor / SECTOR_SIZE)
    (overwrite ubuf (current_cursor % SECTOR_SIZE) src) (sectors_at current_cursor bytes_left)
  pure []

/-- The loop of `read` and of `write`: the bytes it moved, and those it read. Every turn moves a
byte. `read` alone has the test for an empty chunk. -/
def transfer_loop (e : BlockError) (breaks : Bool) (len : Nat)
    (chunk : Nat → Nat → EStateM (Fault Unit) (Driver μ) (List UInt8)) :
    Nat → Nat → EStateM (Fault BlockError) (Driver μ) (Nat × List UInt8)
  | 0, total => pure (total, [])
  | fuel + 1, total =>
    if len ≤ total then pure (total, [])
    else do
      let d ← get
      let current_cursor := d.cursor + total
      let bytes_left := len - total
      if UInt64.size ≤ current_cursor then throw .panic
      else if breaks = true ∧ chunk_len current_cursor bytes_left = 0 then pure (total, [])
      else do
        let bytes ← with_buffer dma e (sectors_at current_cursor bytes_left * SECTOR_SIZE)
          (chunk current_cursor total)
        let rest ← transfer_loop e breaks len chunk fuel
          (total + chunk_len current_cursor bytes_left)
        pure (rest.1, bytes ++ rest.2)

def transfer (e : BlockError) (breaks : Bool) (len : Nat)
    (chunk : Nat → Nat → EStateM (Fault Unit) (Driver μ) (List UInt8)) :
    EStateM (Fault BlockError) (Driver μ) (Nat × List UInt8) := do
  let r ← transfer_loop dma e breaks len chunk len 0
  advance r.1
  pure r

def read (len : Nat) : EStateM (Fault BlockError) (Driver μ) (Nat × List UInt8) :=
  transfer dma .ReadError true len fun current_cursor total_read =>
    read_chunk dma current_cursor (len - total_read)

def write (buf : List UInt8) : EStateM (Fault BlockError) (Driver μ) Nat := do
  let r ← transfer dma .WriteError false buf.length fun current_cursor total_written =>
    write_chunk dma current_cursor (buf.length - total_written)
      ((buf.drop total_written).take (chunk_len current_cursor (buf.length - total_written)))
  pure r.1

/-- `seek(SeekFrom::Start(offset))`. -/
def seek (offset : Nat) : EStateM (Fault BlockError) (Driver μ) Unit :=
  modify (fun d => { d with cursor := offset })

/-! ## What no command changes -/

variable {dma}

variable {d d' d'' : Driver μ} {k bytes_left current_cursor : Nat} {out : List DmaBuf}
  {buf : List UInt8} {body : EStateM (Fault Unit) (Driver μ) α} {Q : α → Driver μ → Prop}
  {e : BlockError} {breaks : Bool} {len : Nat}
  {chunk : Nat → Nat → EStateM (Fault Unit) (Driver μ) (List UInt8)}

theorem ends_on_memory {e : ε} {x : EStateM (Fault MapErr) μ α}
    {E : Fault ε → Driver μ → Prop} (h : Ends (x d.memory) (fun a m => Q a { d with memory := m })
      (fun f m => E (map_err e f) { d with memory := m })) : Ends (on_memory e x d) Q E := by
  unfold on_memory
  revert h
  cases x d.memory with
  | ok a m => exact id
  | error f m => exact id

theorem ends_caught {Q : Except ε α → Driver μ → Prop} (h : Ends (x d) (fun a d' => Q (.ok a) d')
      (fun f d' => (∀ e, f = .err e → Q (.error e) d') ∧ (f = .panic → E .panic d'))) :
    Ends (caught x d) Q E := by
  unfold caught
  revert h
  cases x d with
  | ok a d' => exact id
  | error f d' =>
    cases f with
    | err f => exact fun h => h.1 f rfl
    | panic => exact fun h => h.2 rfl

theorem ends_memory_unless_panic {P : μ → Prop} {e : ε} {x : EStateM (Fault MapErr) μ α}
    (h : Ends (x d.memory) (fun _ m => P m) (fun f m => f = .panic ∨ P m)) :
    Ends (on_memory e x d) (fun _ d' => P d'.memory) (fun f d' => f = .panic ∨ P d'.memory) := by
  refine ends_on_memory (h.mono_error ?_)
  rintro f m (rfl | hm)
  · exact Or.inl rfl
  · exact Or.inr hm

theorem ends_caught_unless_panic {P : Driver μ → Prop}
    (h : Ends (x d) (fun _ => P) (fun f d' => f = .panic ∨ P d'))
    (hE : ∀ d', E .panic d') : Ends (caught x d) (fun _ => P) E := by
  refine ends_caught (h.mono_error ?_)
  rintro f d' (rfl | hd)
  · exact ⟨fun _ h => (nomatch h), fun _ => hE d'⟩
  · exact ⟨fun _ _ => hd, fun _ => hE d'⟩

/-- A command changes bytes of the disk and nothing else. -/
theorem keeps_issue {υ : Type} {v : Driver μ → υ}
    (hview : ∀ d bytes, v { d with bytes := bytes } = v d) (k : Nat) (fis : RegFis)
    (page : List UInt8) : Keeps v (issue k fis page) := by
  intro d
  unfold issue
  dsimp only
  split
  · rfl
  split
  · split
    · exact hview d _
    · split
      · exact hview d _
      · rfl
  · split
    · rfl
    · rfl

theorem keeps_on_memory {υ : Type} {v : Driver μ → υ}
    (hview : ∀ (d : Driver μ) memory, v { d with memory } = v d) (e : ε)
    (x : EStateM (Fault MapErr) μ α) : Keeps v (on_memory e x) := by
  intro d
  apply ends_on_memory
  cases x d.memory with
  | ok a m => exact hview d m
  | error f m => exact hview d m

theorem keeps_caught {υ : Type} {v : Driver μ → υ} (h : Keeps v x) :
    Keeps v (caught x : EStateM (Fault ε') (Driver μ) (Except ε α)) := by
  intro d
  apply ends_caught
  exact (h d).mono_error (fun _ _ h => ⟨fun _ _ => h, fun _ => h⟩)

section

variable {υ : Type} {v : Driver μ → υ}
  (hview : ∀ (d : Driver μ) bytes commands memory,
    v { d with bytes, commands, memory } = v d)

include hview

theorem keeps_send_command (lba : Nat) (buf : List UInt8) (sector_count : Nat)
    (write : Bool) : Keeps v (send_command dma lba buf sector_count write) := by
  apply keeps_get_bind
  intro d
  refine keeps_bind (keeps_modify fun d => hview d d.bytes _ d.memory) fun _ => ?_
  dsimp only
  split
  · exact keeps_throw _
  split
  · exact keeps_throw _
  · refine keeps_bind (keeps_on_memory (fun d => hview d d.bytes d.commands) _ _) fun dma_buf => ?_
    apply keeps_get_bind
    intro d'
    split
    · exact keeps_issue (fun d bytes => hview d bytes d.commands d.memory) _ _ _
    · exact keeps_throw _

theorem keeps_chunk_buffer (current_cursor bytes_left : Nat) :
    Keeps v (chunk_buffer dma current_cursor bytes_left) := by
  unfold chunk_buffer
  dsimp only
  split
  · exact keeps_send_command hview _ _ _ _
  · exact keeps_pure _

theorem keeps_write_chunk (current_cursor bytes_left : Nat) (src : List UInt8) :
    Keeps v (write_chunk dma current_cursor bytes_left src) :=
  keeps_bind (keeps_chunk_buffer hview _ _) fun _ =>
    keeps_bind (keeps_send_command hview _ _ _ _) fun _ => keeps_pure _

theorem keeps_read_chunk (current_cursor bytes_left : Nat) :
    Keeps v (read_chunk dma current_cursor bytes_left) :=
  keeps_bind (keeps_send_command hview _ _ _ _) fun _ => keeps_pure _

theorem keeps_with_buffer (e : BlockError) (size : Nat) (h : Keeps v body) :
    Keeps v (with_buffer dma e size body) := by
  refine keeps_bind (keeps_on_memory (fun d => hview d d.bytes d.commands) _ _) fun ubuf => ?_
  apply keeps_get_bind
  intro d
  split
  · refine keeps_bind (keeps_caught h) fun res => ?_
    refine keeps_bind (keeps_on_memory (fun d => hview d d.bytes d.commands) _ _) fun _ => ?_
    cases res with
    | ok a => exact keeps_pure _
    | error _ => exact keeps_throw _
  · exact keeps_bind (keeps_caught (keeps_on_memory (fun d => hview d d.bytes d.commands) _ _))
      fun _ => keeps_throw _

end

theorem chunk_pos (current_cursor : Nat) (h : bytes_left ≠ 0) :
    0 < chunk_len current_cursor bytes_left := by
  unfold chunk_len PAGE_4K SECTOR_SIZE
  omega

theorem chunk_le (current_cursor bytes_left : Nat) :
    chunk_len current_cursor bytes_left ≤ bytes_left := Nat.min_le_left _ _

/-! ## The loop -/

section

variable {I : Nat → List UInt8 → Driver μ → Prop} {E : Fault BlockError → Driver μ → Prop}
  (hpanic : ∀ total bytes d, I total bytes d → total ≤ len → UInt64.size ≤ d.cursor + total →
    E .panic d)
  (hchunk : ∀ total bytes d, I total bytes d → total < len →
    Ends (with_buffer dma e (sectors_at (d.cursor + total) (len - total) * SECTOR_SIZE)
        (chunk (d.cursor + total) total) d)
      (fun more => I (total + chunk_len (d.cursor + total) (len - total)) (bytes ++ more)) E)

include hpanic hchunk

/-- The invariant is about the bytes moved so far and those that were read. -/
theorem ends_transfer_loop {fuel total : Nat} {bytes : List UInt8} (hfuel : len - total ≤ fuel)
    (hle : total ≤ len) (h : I total bytes d) :
    Ends (transfer_loop dma e breaks len chunk fuel total d)
      (fun r d' => r.1 = len ∧ I len (bytes ++ r.2) d') E := by
  induction fuel generalizing d total bytes with
  | zero =>
    obtain rfl : total = len := by omega
    exact ⟨rfl, (List.append_nil bytes).symm ▸ h⟩
  | succ fuel ih =>
    unfold transfer_loop
    split
    · obtain rfl : total = len := by omega
      exact ⟨rfl, (List.append_nil bytes).symm ▸ h⟩
    have hpos : 0 < chunk_len (d.cursor + total) (len - total) := chunk_pos _ (by omega)
    have hmost := chunk_le (d.cursor + total) (len - total)
    rw [get_bind]
    split
    · rename_i hsize
      exact hpanic total bytes d h hle hsize
    rw [if_neg (fun hempty => Nat.ne_of_gt hpos hempty.2)]
    refine ends_bind (hchunk total bytes d h (by omega)) fun more d1 h1 => ?_
    refine ends_bind (ih (by omega) (by omega) h1) fun rest d2 h2 => ?_
    rwa [List.append_assoc] at h2

theorem ends_transfer {Q : Nat × List UInt8 → Driver μ → Prop}
    (hend : ∀ bytes d', I len bytes d' → Q (len, bytes) { d' with cursor := d'.cursor + len })
    (h : I 0 [] d) : Ends (transfer dma e breaks len chunk d) Q E := by
  refine ends_bind (ends_transfer_loop hpanic hchunk (Nat.le_refl _) (Nat.zero_le len) h) ?_
  rintro ⟨_, bytes⟩ d1 ⟨rfl, h1⟩
  rw [List.nil_append] at h1
  unfold advance
  rw [bind_assoc, get_bind]
  split
  · rename_i hsize
    exact hpanic _ bytes d1 h1 (Nat.le_refl _) hsize
  · exact hend bytes d1 h1

end

/-- The cursor moves at the end only. -/
theorem cursor_of_failed (hkeeps : ∀ current_cursor total,
      Keeps Driver.cursor (chunk current_cursor total)) (d : Driver μ) :
    Ends (transfer dma e breaks len chunk d) (fun _ _ => True)
      (fun _ d' => d'.cursor = d.cursor) := by
  refine ends_transfer (I := fun _ _ d' => d'.cursor = d.cursor) (fun _ _ _ h _ _ => h) ?_
    (fun _ _ _ => trivial) rfl
  intro total bytes d1 h1 _
  rw [← h1]
  exact keeps_with_buffer (fun _ _ _ _ => rfl) _ _ (hkeeps _ _) d1

/-! ## What a transfer does to the disk -/

theorem chunk_sectors_pos (current_cursor : Nat) (h : bytes_left ≠ 0) :
    0 < sectors_at current_cursor bytes_left := by
  unfold sectors_at sectors_for_bytes chunk_len PAGE_4K SECTOR_SIZE
  omega

theorem chunk_sectors_le (current_cursor bytes_left : Nat) :
    sectors_at current_cursor bytes_left ≤ 8 := by
  unfold sectors_at sectors_for_bytes chunk_len PAGE_4K SECTOR_SIZE
  omega

/-- A chunk lies in the sectors that are moved. -/
theorem chunk_fits (current_cursor bytes_left : Nat) :
    current_cursor % SECTOR_SIZE + chunk_len current_cursor bytes_left ≤
      sectors_at current_cursor bytes_left * SECTOR_SIZE := by
  unfold sectors_at sectors_for_bytes chunk_len PAGE_4K SECTOR_SIZE
  omega

theorem chunk_inside {sectors : Nat} (h : current_cursor + bytes_left ≤ sectors * SECTOR_SIZE) :
    current_cursor / SECTOR_SIZE + sectors_at current_cursor bytes_left ≤ sectors := by
  unfold sectors_at sectors_for_bytes chunk_len
  unfold SECTOR_SIZE at *
  omega

theorem sector_start (current_cursor : Nat) :
    current_cursor / SECTOR_SIZE * SECTOR_SIZE + current_cursor % SECTOR_SIZE = current_cursor := by
  unfold SECTOR_SIZE
  omega

/-- How many bytes the 48 bits of a command can tell apart. -/
def REACH : Nat := 2 ^ 48 * SECTOR_SIZE

theorem lba_lt (h : current_cursor < REACH) : current_cursor / SECTOR_SIZE < 2 ^ 48 :=
  Nat.div_lt_of_lt_mul (by rwa [Nat.mul_comm])

/-- A command that fails may have stored its sectors all the same. -/
theorem bytes_send_command {lba count : Nat} (hlba : lba < 2 ^ 48) (hcount : count ≤ 8)
    (buf : List UInt8) (write : Bool) :
    Ends (send_command dma lba buf count write d)
      (fun page d' => if write then
          d'.bytes = splice d.bytes (lba * SECTOR_SIZE) (buf.take (count * SECTOR_SIZE))
        else page = slice d.bytes (lba * SECTOR_SIZE) (count * SECTOR_SIZE) ∧ d'.bytes = d.bytes)
      (fun _ d' => d'.bytes = d.bytes ∨ write = true ∧
        d'.bytes = splice d.bytes (lba * SECTOR_SIZE) (buf.take (count * SECTOR_SIZE))) := by
  unfold send_command
  rw [get_bind, modify_bind]
  by_cases hslot : d.slot_free d.commands = false
  · rw [if_pos hslot]
    exact Or.inl rfl
  rw [if_neg hslot]
  by_cases hsize : count * SECTOR_SIZE = 0 ∨ PAGE_4K < count * SECTOR_SIZE
  · simp only [if_pos hsize]
    exact Or.inl rfl
  simp only [if_neg hsize]
  refine ends_then (keeps_on_memory (v := Driver.bytes) (fun _ _ => rfl) _ _ _)
    (fun _ _ => Or.inl) ?_
  intro dma_buf d1 h1
  rw [get_bind]
  split
  · unfold issue
    rw [RegFis.lba_new_dma_command, RegFis.count_new_dma_command, Nat.mod_eq_of_lt hlba,
      Nat.mod_eq_of_lt (by omega : count < 2 ^ 16), ← show d1.bytes = d.bytes from h1]
    cases write with
    | false =>
      simp only [RegFis.new_dma_command, Bool.false_eq_true, if_false]
      split
      · exact Or.inl rfl
      · split
        · exact ⟨rfl, rfl⟩
        · exact Or.inl rfl
    | true =>
      simp only [RegFis.new_dma_command, if_true]
      split
      · exact Or.inl rfl
      · split
        · exact rfl
        · split
          · exact Or.inr ⟨trivial, rfl⟩
          · exact Or.inl rfl
  · exact Or.inl h1

section

variable (hreach : current_cursor < REACH)

include hreach

theorem bytes_read_sectors (bytes_left : Nat) :
    Ends (read_sectors dma (current_cursor / SECTOR_SIZE) (sectors_at current_cursor bytes_left) d)
      (fun ubuf d' => ubuf = slice d.bytes (current_cursor / SECTOR_SIZE * SECTOR_SIZE)
        (sectors_at current_cursor bytes_left * SECTOR_SIZE) ∧ d'.bytes = d.bytes)
      (fun _ d' => d'.bytes = d.bytes) :=
  (bytes_send_command (lba_lt hreach) (chunk_sectors_le _ _) _ false).mono_error
    fun _ _ h => h.elim id fun h => nomatch h.1

theorem bytes_read_chunk (bytes_left : Nat) : Ends (read_chunk dma current_cursor bytes_left d)
      (fun bytes d' => bytes = slice d.bytes current_cursor (chunk_len current_cursor bytes_left) ∧
        d'.bytes = d.bytes) (fun _ d' => d'.bytes = d.bytes) := by
  refine ends_bind (bytes_read_sectors hreach bytes_left) ?_
  rintro page d' ⟨rfl, hsame⟩
  refine ⟨?_, hsame⟩
  rw [take_drop_slice _ _ (chunk_fits current_cursor bytes_left), sector_start]

/-- Writing the sectors of a chunk back writes the chunk. -/
theorem bytes_chunk_buffer (bytes_left : Nat) : Ends (chunk_buffer dma current_cursor bytes_left d)
      (fun ubuf d' => d'.bytes = d.bytes ∧
        ubuf.length = sectors_at current_cursor bytes_left * SECTOR_SIZE ∧
        ∀ src : List UInt8, src.length = chunk_len current_cursor bytes_left →
          splice d.bytes (current_cursor / SECTOR_SIZE * SECTOR_SIZE)
            (overwrite ubuf (current_cursor % SECTOR_SIZE) src) = splice d.bytes current_cursor src)
      (fun _ d' => d'.bytes = d.bytes) := by
  have hsector := sector_start current_cursor
  unfold chunk_buffer
  split
  · refine (bytes_read_sectors hreach bytes_left).mono_ok ?_
    rintro ubuf d' ⟨rfl, hsame⟩
    refine ⟨hsame, length_slice _ _ _, fun src hsrc => ?_⟩
    rw [splice_overwrite, hsector]
    rw [hsrc]
    exact chunk_fits current_cursor bytes_left
  · -- a chunk of whole sectors overwrites the whole buffer
    rename_i hwhole
    simp only [not_or, Decidable.not_not] at hwhole
    refine ⟨rfl, List.length_replicate, fun src hsrc => ?_⟩
    rw [hwhole.1, Nat.add_zero] at hsector
    rw [hwhole.1, hsector]
    simp [overwrite, hsrc, hwhole.2]

theorem bytes_write_chunk {src : List UInt8}
    (hsrc : src.length = chunk_len current_cursor bytes_left) :
    Ends (write_chunk dma current_cursor bytes_left src d)
      (fun _ d' => d'.bytes = splice d.bytes current_cursor src)
      (fun _ d' => d'.bytes = d.bytes ∨ d'.bytes = splice d.bytes current_cursor src) := by
  refine ends_then (bytes_chunk_buffer hreach bytes_left) (fun _ _ => Or.inl) ?_
  rintro ubuf d1 ⟨h1, hlen, hchunk⟩
  have hfits := chunk_fits current_cursor bytes_left
  have htake : (overwrite ubuf (current_cursor % SECTOR_SIZE) src).take
      (sectors_at current_cursor bytes_left * SECTOR_SIZE) =
        overwrite ubuf (current_cursor % SECTOR_SIZE) src := by
    apply List.take_of_length_le
    rw [length_overwrite (by omega), hlen]
  have hsend : Ends (send_command dma _ _ _ true d1) _ _ := bytes_send_command (lba_lt hreach)
    (chunk_sectors_le current_cursor bytes_left)
    (overwrite ubuf (current_cursor % SECTOR_SIZE) src) true
  rw [htake, h1, hchunk src hsrc] at hsend
  exact ends_then hsend (fun _ _ h => h.imp_right And.right) fun _ _ h => h

end

/-- The bytes after a chunk are those after its commands. -/
theorem bytes_with_buffer {Q : α → (Nat → UInt8) → Prop} {E : (Nat → UInt8) → Prop}
    (e : BlockError) (size : Nat) (hE : ∀ a bytes, Q a bytes → E bytes) (h0 : E d.bytes)
    (hbody : ∀ d1, d1.bytes = d.bytes →
      Ends (body d1) (fun a d' => Q a d'.bytes) (fun _ d' => E d'.bytes)) :
    Ends (with_buffer dma e size body d) (fun a d' => Q a d'.bytes) (fun _ d' => E d'.bytes) := by
  have hmemory {δ ε : Type} (e : ε) (x : EStateM (Fault MapErr) μ δ) :
      Keeps Driver.bytes (on_memory e x) := keeps_on_memory (fun _ _ => rfl) e x
  refine ends_then (hmemory _ _ d) (fun _ d1 h => h.symm ▸ h0) ?_
  intro ubuf d1 h1
  rw [get_bind]
  split
  · refine ends_bind (Q := fun res d2 => E d2.bytes ∧ ∀ a, res = .ok a → Q a d2.bytes)
      (ends_caught ((hbody d1 h1).mono ?_ ?_)) ?_
    · rintro a d2 h2
      exact ⟨hE a _ h2, fun _ h => Except.ok.inj h ▸ h2⟩
    · exact fun f d2 h2 => ⟨fun _ _ => ⟨h2, fun _ h => nomatch h⟩, fun _ => h2⟩
    · rintro res d2 ⟨h2, hres⟩
      refine ends_then (hmemory _ _ d2) (fun _ d3 h => h.symm ▸ h2) ?_
      intro _ d3 h3
      cases res with
      | ok a => exact (congrArg (Q a) h3).mpr (hres a rfl)
      | error _ => exact (congrArg E h3).mpr h2
  · refine ends_then (keeps_caught (hmemory _ _) d1) ?_ fun _ d2 h2 => ?_
    · exact fun _ d2 h2 => (h2.trans h1).symm ▸ h0
    · exact (congrArg E (h2.trans h1)).mpr h0

/-- A read that returns has the bytes at the cursor, and no read changes the disk. -/
theorem bytes_read (hreach : len ≠ 0 → d.cursor + len ≤ REACH) :
    Ends (read dma len d)
      (fun r d' => r = (len, slice d.bytes d.cursor len) ∧ d'.bytes = d.bytes ∧
        d'.cursor = d.cursor + len) (fun _ d' => d'.bytes = d.bytes) := by
  refine ends_transfer (I := fun total bytes d' => d'.cursor = d.cursor ∧
    bytes = slice d.bytes d.cursor total ∧ d'.bytes = d.bytes) ?_ ?_ ?_ ⟨rfl, rfl, rfl⟩
  · exact fun _ _ _ h _ _ => h.2.2
  · rintro total _ d1 ⟨hcursor, rfl, h1⟩ hlt
    rw [hcursor]
    refine ((keeps_with_buffer (v := Driver.cursor) (fun _ _ _ _ => rfl) _ _
      (keeps_read_chunk (fun _ _ _ _ => rfl) _ _) d1).and
      (bytes_with_buffer (Q := fun more disk => more = slice d.bytes (d.cursor + total)
        (chunk_len (d.cursor + total) (len - total)) ∧ disk = d.bytes)
        (E := fun disk => disk = d.bytes) _ _ (fun _ _ h => h.2) h1 ?_)).mono ?_
      fun _ _ h => h.2
    · intro d2 h2
      rw [← h1, ← h2]
      exact bytes_read_chunk (by have := hreach (by omega); omega) _
    · rintro _ d2 ⟨h2, rfl, hbytes⟩
      exact ⟨Eq.trans h2 hcursor, slice_append _ _ _ _, hbytes⟩
  · rintro _ d' ⟨hcursor, rfl, hbytes⟩
    exact ⟨rfl, hbytes, congrArg (· + len) hcursor⟩

/-- A write that fails has changed bytes of its range only. -/
theorem bytes_write (hreach : buf.length ≠ 0 → d.cursor + buf.length ≤ REACH) :
    Ends (write dma buf d)
      (fun r d' => r = buf.length ∧ d'.bytes = splice d.bytes d.cursor buf ∧
        d'.cursor = d.cursor + buf.length)
      (fun _ d' => ∀ i, ¬ (d.cursor ≤ i ∧ i < d.cursor + buf.length) → d'.bytes i = d.bytes i) := by
  have houtside : ∀ total i, ¬ (d.cursor ≤ i ∧ i < d.cursor + buf.length) →
      splice d.bytes d.cursor (buf.take total) i = d.bytes i := by
    intro total i hi
    have := List.length_take_le' total buf
    exact splice_outside _ (by omega)
  refine ends_bind (ends_transfer (I := fun total _ d' => d'.cursor = d.cursor ∧
    d'.bytes = splice d.bytes d.cursor (buf.take total)) ?_ ?_ ?_
    ⟨rfl, (splice_nil _ _).symm⟩) fun _ _ h => h
  · intro total _ d' h _ _ i hi
    rw [h.2, houtside total i hi]
  · rintro total _ d1 ⟨hcursor, h1⟩ hlt
    rw [hcursor]
    -- the chunk continues what was written before it
    have hmore : splice d1.bytes (d.cursor + total) ((buf.drop total).take
        (chunk_len (d.cursor + total) (buf.length - total))) = splice d.bytes d.cursor
          (buf.take (total + chunk_len (d.cursor + total) (buf.length - total))) := by
      have hlen : (buf.take total).length = total := List.length_take_of_le hlt.le
      rw [h1, List.take_add, ← splice_append, hlen]
    refine ((keeps_with_buffer (v := Driver.cursor) (fun _ _ _ _ => rfl) _ _
      (keeps_write_chunk (fun _ _ _ _ => rfl) _ _ _) d1).and
      (bytes_with_buffer (Q := fun _ disk => disk = splice d1.bytes (d.cursor + total)
        ((buf.drop total).take (chunk_len (d.cursor + total) (buf.length - total))))
        (E := fun disk => disk = d1.bytes ∨ disk = splice d1.bytes (d.cursor + total)
          ((buf.drop total).take (chunk_len (d.cursor + total) (buf.length - total))))
        _ _ (fun _ _ => Or.inr) (Or.inl rfl) ?_)).mono ?_ ?_
    · intro d2 h2
      rw [← h2]
      refine bytes_write_chunk (by have := hreach (by omega); omega) ?_
      rw [List.length_take_of_le]
      rw [List.length_drop]
      exact chunk_le _ _
    · rintro _ d2 ⟨h2, hbytes⟩
      exact ⟨Eq.trans h2 hcursor, hbytes.trans hmore⟩
    · rintro _ d2 ⟨-, hbytes | hbytes⟩ i hi
      · rw [hbytes, h1, houtside total i hi]
      · rw [hbytes, hmore, houtside _ i hi]
  · rintro _ d' ⟨hcursor, hbytes⟩
    rw [List.take_length] at hbytes
    exact ⟨rfl, hbytes, congrArg (· + buf.length) hcursor⟩

/-! ## A port that works -/

/-- Memory that has a buffer for each of the next `k` calls, with the buffers that are out. -/
structure Supply (dma : DmaOps μ) (Inv : Nat → List DmaBuf → μ → Prop) : Prop where
  kalloc : ∀ {k out m len}, Inv (k + 1) out m → len ≠ 0 → len ≤ PAGE_4K →
    ∃ buf m', dma.kalloc_dma_pages len m = .ok buf m' ∧ Inv k (buf :: out) m' ∧
      (dma.virt_to_phys m' buf.base).isSome = true
  kfree : ∀ {k out m buf}, Inv k out m → buf ∈ out →
    ∃ m', dma.kfree_dma_pages buf m = .ok () m' ∧ Inv k (out.erase buf) m'
  less : ∀ {k out m}, Inv (k + 1) out m → Inv k out m

theorem Supply.le {Inv : Nat → List DmaBuf → μ → Prop} (hs : Supply dma Inv) {k' : Nat} {m : μ}
    (h : Inv k out m) (hle : k' ≤ k) : Inv k' out m := by
  induction hle with
  | refl => exact h
  | step _ ih => exact ih (hs.less h)

/-- Commands complete. The disk has no more sectors than a command can name. -/
structure Works (d : Driver μ) : Prop where
  known : d.known = true
  slot_free : ∀ k, d.slot_free k = true
  running : ∀ k, d.running k = true
  completes : ∀ k, d.completes k = true
  sectors : d.sectors ≤ 2 ^ 48

/-- What no command changes. -/
def settings (d : Driver μ) :=
  (d.cursor, d.sectors, d.known, d.slot_free, d.running, d.completes)

theorem Works.of_settings (hw : Works d) (h : d'.settings = d.settings) : Works d' := by
  simp only [settings, Prod.mk.injEq] at h
  obtain ⟨-, hsectors, hknown, hslot, hrunning, hcompletes⟩ := h
  exact ⟨hknown ▸ hw.known, hslot ▸ hw.slot_free, hrunning ▸ hw.running,
    hcompletes ▸ hw.completes, hsectors ▸ hw.sectors⟩

variable {Inv : Nat → List DmaBuf → μ → Prop}

/-- The call succeeds, and then `k` pages are left and no page that was out has gone back. -/
def Serves (Inv : Nat → List DmaBuf → μ → Prop) (k : Nat) (out : List DmaBuf)
    (r : EStateM.Result (Fault Unit) (Driver μ) α) : Prop :=
  Ends r (fun _ d' => ∃ out', Inv k out' d'.memory ∧ ∀ b ∈ out, b ∈ out') (fun _ _ => False)

theorem command_size {count : Nat} (hpos : 0 < count) (hle : count ≤ 8) :
    ¬ (count * SECTOR_SIZE = 0 ∨ PAGE_4K < count * SECTOR_SIZE) := by
  unfold SECTOR_SIZE PAGE_4K
  omega

/-- A command that lies inside the disk. -/
theorem ends_send_command (hs : Supply dma Inv) (hw : Works d) (hinv : Inv (k + 1) out d.memory)
    {lba count : Nat} (buf : List UInt8) (hpos : 0 < count) (hle : count ≤ 8)
    (hinside : lba + count ≤ d.sectors) (write : Bool) :
    Serves Inv k out (send_command dma lba buf count write d) := by
  have hsize := command_size hpos hle
  have hin : (RegFis.new_dma_command lba count write).lba +
      (RegFis.new_dma_command lba count write).count ≤ d.sectors := by
    rw [RegFis.lba_new_dma_command, RegFis.count_new_dma_command]
    exact (Nat.add_le_add (Nat.mod_le _ _) (Nat.mod_le _ _)).trans hinside
  obtain ⟨dma_buf, m', hrun, hinv', hphys⟩ := hs.kalloc hinv (fun h => hsize (Or.inl h))
    (Nat.le_of_not_lt fun h => hsize (Or.inr h))
  unfold send_command
  rw [get_bind]
  simp only [hw.slot_free, if_neg hsize]
  refine ends_bind (Q := fun b d' => b = dma_buf ∧
    d' = { d with commands := d.commands + 1, memory := m' }) (ends_on_memory ?_) ?_
  · rw [hrun]
    exact ⟨rfl, rfl⟩
  rintro b d' ⟨rfl, rfl⟩
  rw [get_bind]
  have hout : ∃ out', Inv k out' m' ∧ ∀ b ∈ out, b ∈ out' :=
    ⟨_, hinv', fun _ h => List.mem_cons_of_mem _ h⟩
  simp only [hphys, if_true, issue, hw.running, hw.completes, hin]
  cases write with
  | false => exact hout
  | true => exact hout

section

variable (hs : Supply dma Inv) (hw : Works d) (hne : bytes_left ≠ 0)
  (hinside : current_cursor + bytes_left ≤ d.sectors * SECTOR_SIZE)

include hs hw hne hinside

theorem ends_read_chunk (hinv : Inv (k + 1) out d.memory) :
    Serves Inv k out (read_chunk dma current_cursor bytes_left d) :=
  ends_bind (ends_send_command hs hw hinv _ (chunk_sectors_pos _ hne) (chunk_sectors_le _ _)
    (chunk_inside hinside) false) fun _ _ h => h

theorem ends_chunk_buffer (hinv : Inv (k + 1) out d.memory) :
    Serves Inv k out (chunk_buffer dma current_cursor bytes_left d) := by
  unfold chunk_buffer
  split
  · exact ends_send_command hs hw hinv _ (chunk_sectors_pos _ hne) (chunk_sectors_le _ _)
      (chunk_inside hinside) false
  · exact ⟨out, hs.less hinv, fun _ h => h⟩

theorem ends_write_chunk (hinv : Inv (k + 2) out d.memory) (src : List UInt8) :
    Serves Inv k out (write_chunk dma current_cursor bytes_left src d) := by
  refine ends_then ((ends_chunk_buffer hs hw hne hinside hinv).and
    (keeps_chunk_buffer (v := settings) (fun _ _ _ _ => rfl) _ _ d)) (fun _ _ h => h.1) ?_
  rintro ubuf d1 ⟨⟨out1, hinv1, hout1⟩, hsame⟩
  have hsectors : d1.sectors = d.sectors := congrArg (fun t => t.2.1) hsame
  refine ends_bind (ends_send_command hs (hw.of_settings hsame) hinv1 _ (chunk_sectors_pos _ hne)
    (chunk_sectors_le _ _) (by rw [hsectors]; exact chunk_inside hinside) true) ?_
  rintro page d2 ⟨out2, hinv2, hout2⟩
  exact ⟨out2, hinv2, fun b hb => hout2 b (hout1 b hb)⟩

end

theorem ends_with_buffer (hs : Supply dma Inv) (hw : Works d) (k' : Nat)
    (hinv : Inv (k + 1) out d.memory) {size : Nat} (hsize : size ≠ 0) (hpage : size ≤ PAGE_4K)
    (e : BlockError)
    (hbody : ∀ m out1, Inv k out1 m → Serves Inv k' out1 (body { d with memory := m })) :
    Ends (with_buffer dma e size body d) (fun _ d' => ∃ out', Inv k' out' d'.memory)
      (fun _ _ => False) := by
  obtain ⟨ubuf, m1, hrun, hinv1, -⟩ := hs.kalloc hinv hsize hpage
  refine ends_bind (Q := fun b d' => b = ubuf ∧ d' = { d with memory := m1 }) (ends_on_memory ?_) ?_
  · rw [hrun]
    exact ⟨rfl, rfl⟩
  rintro b d1 ⟨rfl, rfl⟩
  rw [get_bind, if_pos hw.known]
  refine ends_bind (Q := fun res d' => (∃ a, res = .ok a) ∧
    ∃ out', Inv k' out' d'.memory ∧ b ∈ out') (ends_caught ?_) ?_
  · refine (hbody m1 _ hinv1).mono ?_ (fun _ _ h => h.elim)
    rintro a d' ⟨out', hinv', hout'⟩
    exact ⟨⟨a, rfl⟩, out', hinv', hout' b List.mem_cons_self⟩
  · rintro res d2 ⟨⟨a, rfl⟩, out2, hinv2, hmem⟩
    obtain ⟨m3, hfree, hinv3⟩ := hs.kfree hinv2 hmem
    refine ends_bind (Q := fun _ d' => d' = { d2 with memory := m3 }) (ends_on_memory ?_) ?_
    · rw [hfree]
      exact rfl
    · rintro _ d3 rfl
      exact ⟨_, hinv3⟩

theorem chunk_size_ne_zero (current_cursor : Nat) (h : bytes_left ≠ 0) :
    sectors_at current_cursor bytes_left * SECTOR_SIZE ≠ 0 := by
  have := chunk_sectors_pos current_cursor h
  unfold SECTOR_SIZE
  omega

theorem chunk_size_le (current_cursor bytes_left : Nat) :
    sectors_at current_cursor bytes_left * SECTOR_SIZE ≤ PAGE_4K := by
  have := chunk_sectors_le current_cursor bytes_left
  unfold SECTOR_SIZE PAGE_4K
  omega

theorem Works.cursor_lt (hw : Works d) {c : Nat} (h : c ≤ d.sectors * SECTOR_SIZE) :
    ¬ UInt64.size ≤ c := by
  have hsectors := hw.sectors
  rw [show UInt64.size = 0x10000000000000000 from rfl]
  unfold SECTOR_SIZE at h
  omega

/-- A transfer whose chunks send at most `c` commands. -/
theorem ends_transfer_works (hs : Supply dma Inv) (hw : Works d) (c : Nat)
    (hinv : Inv ((c + 1) * len) out d.memory)
    (hinside : d.cursor + len ≤ d.sectors * SECTOR_SIZE)
    (hkeeps : ∀ current_cursor total, Keeps settings (chunk current_cursor total))
    (hchunk : ∀ total k out d1, d1.settings = d.settings → total < len →
      Inv (k + c) out d1.memory → Serves Inv k out (chunk (d.cursor + total) total d1)) :
    Ends (transfer dma e breaks len chunk d) (fun _ _ => True) (fun _ _ => False) := by
  refine ends_transfer (I := fun total _ d' => d'.settings = d.settings ∧
    ∃ out, Inv ((c + 1) * (len - total)) out d'.memory) ?_ ?_ (fun _ _ _ => trivial) ⟨rfl, out, hinv⟩
  · rintro total _ d1 ⟨hsame, -⟩ hle hsize
    rw [show d1.cursor = d.cursor from congrArg Prod.fst hsame] at hsize
    exact hw.cursor_lt (by omega) hsize
  · rintro total _ d1 ⟨hsame, out1, hinv1⟩ hlt
    have hne : len - total ≠ 0 := by omega
    have hpos := chunk_pos (d1.cursor + total) hne
    -- the buffer, the commands of the chunk, and what the other bytes need
    have hneed : (c + 1) * (len - (total + chunk_len (d1.cursor + total) (len - total))) + c + 1 ≤
        (c + 1) * (len - total) := by
      rw [Nat.add_assoc, ← Nat.mul_succ]
      exact Nat.mul_le_mul_left _ (by omega)
    refine ((keeps_with_buffer (v := settings) (fun _ _ _ _ => rfl) _ _ (hkeeps _ _) d1).and
      (ends_with_buffer hs (hw.of_settings hsame) _ (hs.le hinv1 hneed) (chunk_size_ne_zero _ hne)
        (chunk_size_le _ _) _ fun m out2 hinv2 => ?_)).mono (fun _ _ h => ⟨h.1.trans hsame, h.2⟩)
      fun _ _ h => h.2
    have hends := hchunk total _ out2 { d1 with memory := m } hsame hlt hinv2
    rwa [← show d1.cursor = d.cursor from congrArg Prod.fst hsame] at hends

theorem Works.reach (hw : Works d) {n : Nat} (h : d.cursor + n ≤ d.sectors * SECTOR_SIZE) :
    n ≠ 0 → d.cursor + n ≤ REACH := fun _ => h.trans (Nat.mul_le_mul_right _ hw.sectors)

section

variable (hs : Supply dma Inv) (hw : Works d)

include hs hw

variable (out) in
theorem read_returns {n : Nat} (hinside : d.cursor + n ≤ d.sectors * SECTOR_SIZE)
    (hinv : Inv (2 * n) out d.memory) :
    ∃ d', read dma n d = .ok (n, slice d.bytes d.cursor n) d' ∧
      d'.bytes = d.bytes ∧ d'.cursor = d.cursor + n := by
  have hends : Ends (read dma n d) (fun _ _ => True) (fun _ _ => False) := by
    refine ends_transfer_works hs hw 1 hinv hinside
      (fun _ _ => keeps_read_chunk (fun _ _ _ _ => rfl) _ _) fun total k out1 d1 hsame hlt hinv1 => ?_
    have hsectors : d1.sectors = d.sectors := congrArg (fun t => t.2.1) hsame
    exact ends_read_chunk hs (hw.of_settings hsame) (by omega) (by rw [hsectors]; omega) hinv1
  obtain ⟨r, d', hrun, -⟩ := hends.returns
  obtain ⟨rfl, h⟩ := (bytes_read (hw.reach hinside)).of_ok hrun
  exact ⟨d', hrun, h⟩

theorem write_returns (hinside : d.cursor + buf.length ≤ d.sectors * SECTOR_SIZE)
    (hinv : Inv (3 * buf.length) out d.memory) :
    ∃ d', write dma buf d = .ok buf.length d' ∧
      d'.bytes = splice d.bytes d.cursor buf ∧ d'.cursor = d.cursor + buf.length := by
  have hends : Ends (write dma buf d) (fun _ _ => True) (fun _ _ => False) := by
    refine ends_bind (ends_transfer_works hs hw 2 hinv hinside
      (fun _ _ => keeps_write_chunk (fun _ _ _ _ => rfl) _ _ _) ?_) fun _ _ h => h
    intro total k out1 d1 hsame hlt hinv1
    have hsectors : d1.sectors = d.sectors := congrArg (fun t => t.2.1) hsame
    exact ends_write_chunk hs (hw.of_settings hsame) (by omega) (by rw [hsectors]; omega) hinv1 _
  obtain ⟨r, d', hrun, -⟩ := hends.returns
  obtain ⟨rfl, h⟩ := (bytes_write (hw.reach hinside)).of_ok hrun
  exact ⟨d', hrun, h⟩

end

end Driver

/-- Memory that never runs out. -/
def plenty : DmaOps Unit where
  kalloc_dma_pages len := pure ⟨0, len, []⟩
  kfree_dma_pages _ := pure ()
  virt_to_phys _ _ := some 0

theorem supply_plenty : Driver.Supply plenty (fun _ _ _ => True) :=
  ⟨fun _ _ _ => ⟨_, _, rfl, trivial, rfl⟩, fun _ _ => ⟨_, rfl, trivial⟩, id⟩

/-- A disk of three sectors whose commands complete, with the cursor in the first one. -/
def threeSectors : Driver Unit where
  bytes i := UInt8.ofNat i
  sectors := 3
  known := true
  slot_free _ := true
  running _ := true
  completes _ := true
  stored _ := false
  commands := 0
  cursor := 500
  memory := ()

end zenos_kernel.disk.block.ahci
