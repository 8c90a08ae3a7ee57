-- Two file systems on one disk. `disk::init` gives each of them a clone of the
-- device behind its lock, and both move the one cursor: a transfer is a `seek`
-- and then a `read` or a `write`, and the lock is free in between.
import Mathlib.Logic.Function.Basic
import Zenos.Disk.AhciDriver

namespace zenos_kernel.disk.block

open Bytes Outcome ahci ahci.Driver
open memory.KernelMemory (DmaBuf)

/-- The two file systems. -/
inductive Client
  | first
  | second
  deriving DecidableEq

inductive Transfer
  | read (len : Nat)
  | write (buf : List UInt8)

/-- What a client does while it holds the lock. -/
inductive Act
  | seek (offset : Nat)
  | transfer (t : Transfer)

def Transfer.length : Transfer → Nat
  | .read len => len
  | .write buf => buf.length

variable {μ : Type} (dma : DmaOps μ)

/-- The device after a transfer, whether it failed or not. -/
def Transfer.after (t : Transfer) (d : Driver μ) : Driver μ :=
  match t with
  | .read len => final (Driver.read dma len d)
  | .write buf => final (Driver.write dma buf d)

/-- The device, and the offset of the seek that was the last step of a client. -/
structure Shared (μ : Type) where
  device : Driver μ
  sought : Client → Option Nat

def Shared.step (s : Shared μ) (c : Client) : Act → Shared μ
  | .seek offset => ⟨final (seek offset s.device), Function.update s.sought c (some offset)⟩
  | .transfer t => ⟨t.after dma s.device, Function.update s.sought c none⟩

/-! ## Transfers at an offset -/

/-- The transfer reads or writes the bytes at `offset`, and no others. -/
def AtOffset (d : Driver μ) (offset : Nat) : Transfer → Prop
  | .read len => Ends (read dma len d)
      (fun r d' => r = (len, slice d.bytes offset len) ∧ d'.bytes = d.bytes)
      (fun _ d' => d'.bytes = d.bytes)
  | .write buf => Ends (write dma buf d)
      (fun r d' => r = buf.length ∧ d'.bytes = splice d.bytes offset buf)
      (fun _ d' => ∀ i, ¬ (offset ≤ i ∧ i < offset + buf.length) → d'.bytes i = d.bytes i)

/-- The cursor is at the offset and a command can name the sectors, or there is nothing to
transfer. -/
def Aimed (d : Driver μ) (offset : Nat) (t : Transfer) : Prop :=
  t.length = 0 ∨ d.cursor = offset ∧ offset + t.length ≤ REACH

instance (d : Driver μ) (offset : Nat) (t : Transfer) : Decidable (Aimed d offset t) :=
  inferInstanceAs (Decidable (_ ∨ _))

variable {dma} {buf : List UInt8} {d d' : Driver μ} {len offset : Nat}

theorem Aimed.reach {t : Transfer} (h : Aimed d offset t) (hlen : t.length ≠ 0) :
    d.cursor + t.length ≤ REACH := by
  obtain ⟨rfl, hreach⟩ := h.resolve_left hlen
  exact hreach

theorem Aimed.atOffset {t : Transfer} (h : Aimed d offset t) : AtOffset dma d offset t := by
  cases t with
  | read len =>
    refine (bytes_read h.reach).mono_ok ?_
    rintro r d' ⟨rfl, hbytes, -⟩
    refine ⟨?_, hbytes⟩
    rcases h with h | h
    · have hlen : len = 0 := h
      rw [hlen]
      rfl
    · rw [h.1]
      rfl
  | write buf =>
    refine (bytes_write h.reach).mono ?_ ?_
    · rintro r d' ⟨rfl, hbytes, -⟩
      refine ⟨rfl, hbytes.trans ?_⟩
      rcases h with h | h
      · rw [List.length_eq_zero_iff.mp h, splice_nil, splice_nil]
      · rw [h.1]
    · intro _ d' hout i hi
      apply hout
      rcases h with h | h
      · have hlen : buf.length = 0 := h
        omega
      · rw [h.1]
        exact hi

/-- A device that works, with the cursor and the memory of `d`. -/
def onDisk (d : Driver μ) (bytes : Nat → UInt8) : Driver μ where
  bytes := bytes
  sectors := 2 ^ 48
  known := true
  slot_free _ := true
  running _ := true
  completes _ := true
  stored _ := true
  commands := 0
  cursor := d.cursor
  memory := d.memory

theorem works_onDisk (d : Driver μ) (bytes : Nat → UInt8) : Works (onDisk d bytes) :=
  ⟨rfl, fun _ => rfl, fun _ => rfl, fun _ => rfl, Nat.le_refl _⟩

section

variable {Inv : Nat → List DmaBuf → μ → Prop} (hs : Supply dma Inv) {out : List DmaBuf}

include hs

/-- A read that is right on every disk is aimed. -/
theorem aimed_of_read (hinv : Inv (3 * len) out d.memory) (hreach : d.cursor + len ≤ REACH)
    (h : ∀ bytes, AtOffset dma (onDisk d bytes) offset (.read len)) : Aimed d offset (.read len) := by
  by_contra hno
  have hlen : len ≠ 0 := fun h0 => hno (Or.inl h0)
  have hcursor : d.cursor ≠ offset := fun heq => hno (Or.inr ⟨heq, heq ▸ hreach⟩)
  -- a disk with a mark at the cursor
  let bytes : Nat → UInt8 := fun i => if i = d.cursor then 1 else 0
  obtain ⟨d', hrun, -⟩ := read_returns out hs (works_onDisk d bytes) hreach (hs.le hinv (by omega))
  have hat : slice bytes d.cursor len = slice bytes offset len :=
    (Prod.mk.inj ((h bytes).of_ok hrun).1).2
  have hfirst := congrArg (·.getD 0 0) hat
  have hpos : 0 < len := Nat.pos_of_ne_zero hlen
  simp only [getD_slice _ _ hpos] at hfirst
  simp [bytes, Ne.symm hcursor] at hfirst

/-- A write that is right on every disk is aimed. -/
theorem aimed_of_write (hinv : Inv (3 * buf.length) out d.memory)
    (hreach : d.cursor + buf.length ≤ REACH)
    (h : ∀ bytes, AtOffset dma (onDisk d bytes) offset (.write buf)) :
    Aimed d offset (.write buf) := by
  by_contra hno
  have hlen : buf.length ≠ 0 := fun h0 => hno (Or.inl h0)
  have hcursor : d.cursor ≠ offset := fun heq => hno (Or.inr ⟨heq, heq ▸ hreach⟩)
  cases buf with
  | nil => exact hlen rfl
  | cons b buf =>
    -- a disk without the first byte of the buffer
    let bytes : Nat → UInt8 := fun _ => b + 1
    have hb : b ≠ b + 1 := by simp
    obtain ⟨d', hrun, hbytes, -⟩ := write_returns hs (works_onDisk d bytes) hreach hinv
    have heq : splice bytes d.cursor (b :: buf) = splice bytes offset (b :: buf) :=
      hbytes.symm.trans ((h bytes).of_ok hrun).2
    rcases Nat.lt_or_gt_of_ne hcursor with hlt | hgt
    · have hat := congrFun heq d.cursor
      rw [splice_inside _ (by simp), splice_outside _ (by omega), Nat.sub_self] at hat
      exact hb hat
    · have hat := congrFun heq offset
      rw [splice_outside _ (by omega), splice_inside _ (by simp), Nat.sub_self] at hat
      exact hb hat.symm

theorem atOffset_iff_aimed {t : Transfer} (hinv : Inv (3 * t.length) out d.memory)
    (hreach : d.cursor + t.length ≤ REACH) (offset : Nat) :
    (∀ d' : Driver μ, d'.cursor = d.cursor → d'.memory = d.memory → AtOffset dma d' offset t) ↔
      Aimed d offset t := by
  constructor
  · intro h
    cases t with
    | read len => exact aimed_of_read hs hinv hreach fun bytes => h _ rfl rfl
    | write buf => exact aimed_of_write hs hinv hreach fun bytes => h _ rfl rfl
  · intro h d' hcursor _
    refine Aimed.atOffset (d := d') ?_
    unfold Aimed
    rwa [hcursor]

end

/-! ## Interleavings -/

/-- Every transfer of the run is at the offset that its client sought just before. -/
def Hits (dma : DmaOps μ) (s : Shared μ) : List (Client × Act) → Prop
  | [] => True
  | (c, .seek offset) :: steps => Hits dma (s.step dma c (.seek offset)) steps
  | (c, .transfer t) :: steps =>
    (∀ offset ∈ s.sought c, AtOffset dma s.device offset t) ∧
      Hits dma (s.step dma c (.transfer t)) steps

/-- At every transfer the cursor is where its client left it. -/
def Undisturbed (dma : DmaOps μ) (s : Shared μ) : List (Client × Act) → Prop
  | [] => True
  | (c, .seek offset) :: steps => Undisturbed dma (s.step dma c (.seek offset)) steps
  | (c, .transfer t) :: steps =>
    (∀ offset ∈ s.sought c, Aimed s.device offset t) ∧
      Undisturbed dma (s.step dma c (.transfer t)) steps

theorem hits_of_undisturbed {s : Shared μ} {steps : List (Client × Act)}
    (h : Undisturbed dma s steps) : Hits dma s steps := by
  induction steps generalizing s with
  | nil => trivial
  | cons step steps ih =>
    obtain ⟨c, act⟩ := step
    cases act with
    | seek offset => exact ih h
    | transfer t => exact ⟨fun offset ho => (h.1 offset ho).atOffset, ih h.2⟩

/-- No step of the other client comes between a seek and its transfer, and commands can name the
sectors. `last` is the seek just before. -/
def Paired : Option (Client × Nat) → List (Client × Act) → Prop
  | _, [] => True
  | _, (c, .seek offset) :: steps => Paired (some (c, offset)) steps
  | last, (c, .transfer t) :: steps =>
    (∃ offset, last = some (c, offset) ∧ offset + t.length ≤ REACH) ∧ Paired none steps

theorem undisturbed_of_paired {s : Shared μ} {last : Option (Client × Nat)}
    {steps : List (Client × Act)}
    (hlast : ∀ p ∈ last, s.sought p.1 = some p.2 ∧ s.device.cursor = p.2) (h : Paired last steps) :
    Undisturbed dma s steps := by
  induction steps generalizing s last with
  | nil => trivial
  | cons step steps ih =>
    obtain ⟨c, act⟩ := step
    cases act with
    | seek offset =>
      refine ih ?_ h
      intro p hp
      cases hp
      exact ⟨Function.update_self _ _ _, rfl⟩
    | transfer t =>
      obtain ⟨⟨offset, rfl, hreach⟩, hrest⟩ := h
      refine ⟨?_, ih (fun p hp => by cases hp) hrest⟩
      intro offset' ho
      obtain ⟨hsought, hcursor⟩ := hlast (c, offset) rfl
      rw [Option.mem_def, hsought, Option.some.injEq] at ho
      exact Or.inr ⟨hcursor.trans ho, ho ▸ hreach⟩

/-- Every interleaving in which the cursor is where a client left it, at each
of its transfers, reads and writes the right bytes. On some device with the same
cursor any other transfer is wrong, as long as there are buffers and the sectors have
numbers. Seeks and transfers that are not torn apart are enough. -/
theorem transfers_hit_their_offset_iff (dma : DmaOps μ) (s : Shared μ)
    (steps : List (Client × Act)) :
    (Undisturbed dma s steps → Hits dma s steps) ∧
    (∀ (Inv : Nat → List DmaBuf → μ → Prop) (out : List DmaBuf), Supply dma Inv →
      ∀ (c : Client) (offset : Nat) (t : Transfer), s.sought c = some offset →
        Inv (3 * t.length) out s.device.memory → s.device.cursor + t.length ≤ REACH →
          ((∀ d : Driver μ, d.cursor = s.device.cursor → d.memory = s.device.memory →
            AtOffset dma d offset t) ↔ Aimed s.device offset t)) ∧
    (Paired none steps → Undisturbed dma s steps) := by
  refine ⟨hits_of_undisturbed, ?_, ?_⟩
  · intro Inv out hs c offset t _ hinv hreach
    exact atOffset_iff_aimed hs hinv hreach offset
  · intro h
    exact undisturbed_of_paired (fun p hp => by cases hp) h

/-- Two volumes that take turns read what they asked for. -/
theorem turns_do_not_mix :
    Paired none [(.first, .seek 0), (.first, .transfer (.read 1)), (.second, .seek 512),
      (.second, .transfer (.write [7]))] ∧
    ∀ (μ : Type) (dma : DmaOps μ) (s : Shared μ),
      Hits dma s [(.first, .seek 0), (.first, .transfer (.read 1)), (.second, .seek 512),
        (.second, .transfer (.write [7]))] := by
  have hpaired : Paired none [(.first, .seek 0), (.first, .transfer (.read 1)), (.second, .seek 512),
      (.second, .transfer (.write [7]))] :=
    ⟨⟨0, rfl, by decide⟩, ⟨512, rfl, by decide⟩, trivial⟩
  exact ⟨hpaired, fun μ dma s => (transfers_hit_their_offset_iff dma s _).1
    ((transfers_hit_their_offset_iff dma s _).2.2 hpaired)⟩

/-- A disk with a mark in its second sector. -/
def markedDisk : Driver Unit :=
  { threeSectors with bytes := fun i => if i = 512 then 7 else 0, cursor := 0 }

/-- The other volume seeks in between, and the first one reads its sector. -/
theorem a_seek_in_between_moves_the_cursor :
    ¬ Hits plenty ⟨markedDisk, fun _ => none⟩
      [(.first, .seek 0), (.second, .seek 512), (.first, .transfer (.read 1))] := by
  intro h
  let d : Driver Unit := { markedDisk with cursor := 512 }
  have hat : AtOffset plenty d 0 (.read 1) := h.1 0 rfl
  obtain ⟨d', hrun, -⟩ := read_returns (d := d) (n := 1) [] supply_plenty
    ⟨rfl, fun _ => rfl, fun _ => rfl, fun _ => rfl, by decide⟩ (by decide) trivial
  have hbytes : slice d.bytes 512 1 = slice d.bytes 0 1 := (Prod.mk.inj (hat.of_ok hrun).1).2
  exact absurd hbytes (by decide)

end zenos_kernel.disk.block
