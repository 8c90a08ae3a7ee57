-- What the calls on a volume depend on: everything but the cursor of the
-- device and the number of operations so far. The specs of the steps that all
-- functions share are stated over it.
import Zenos.Ext2.Inner

namespace zenos_kernel.disk.fs.ext2

open Bytes Outcome block

structure Volume where
  bytes : Nat → UInt8
  partition_offset : Nat
  superblock : Ext2Superblock
  block_group_descriptors : List BlockGroupDescriptorTable
  read_only : Bool
  /-- The device operations that fail. -/
  faulty : Nat → Bool
  clock : Nat → UInt64

namespace Volume

variable (v : Volume)

def bs : Nat := v.superblock.block_size.toNat

/-- The bytes `buf` are written at `off`. -/
def write (off : Nat) (buf : List UInt8) : Volume :=
  { v with bytes := splice v.bytes off buf }

/-- Some device operation fails. -/
def Faulty : Prop := ∃ k, v.faulty k = true

end Volume

namespace Ext2FSInner

def volume (s : Ext2FSInner) : Volume where
  bytes := s.device.bytes
  partition_offset := s.partition_offset
  superblock := s.superblock
  block_group_descriptors := s.block_group_descriptors
  read_only := s.read_only
  faulty := s.device.faulty
  clock := s.clock

variable {α : Type}

@[simp] theorem current_time_bind (f : UInt64 → Ext2M α) (s : Ext2FSInner) :
    (current_time >>= f) s = f (s.clock s.readings) s.tick := rfl

theorem volume_of_same {s : Ext2FSInner} {d : Device} (h : Device.Same s.device d) :
    ({ s with device := d } : Ext2FSInner).volume = s.volume := by
  unfold volume
  rw [h.bytes, h.faulty]

/-- A device operation that leaves the bytes alone. -/
theorem ends_on_device {x : EStateM BlockError Device α} {s : Ext2FSInner} {e : FileError}
    {Q : α → Device → Prop} (h : Ends (x s.device) (fun a d => Device.Same s.device d ∧ Q a d)
      (fun _ d => Device.Failed s.device d)) :
    Ends (on_device x e s) (fun a s' => s'.volume = s.volume ∧ Q a s'.device)
      (fun _ s' => s'.volume = s.volume ∧ s.volume.Faulty) := by
  unfold on_device
  revert h
  cases x s.device with
  | ok a d => exact fun h => ⟨volume_of_same h.1, h.2⟩
  | error b d => exact fun h => ⟨volume_of_same h.toSame, h.fault⟩

variable (s : Ext2FSInner)

theorem ends_read_at (offset len : Nat) :
    Ends (read_at offset len s)
      (fun buf s' => s'.volume = s.volume ∧ buf = slice s.volume.bytes offset len)
      (fun _ s' => s'.volume = s.volume ∧ s.volume.Faulty) := by
  refine ends_bind (ends_on_device (s.device.ends_seek offset)) ?_
  rintro _ s1 ⟨hv, hc⟩
  refine (ends_on_device (s1.device.ends_read_exact len)).mono ?_ ?_
  · rintro buf s' ⟨hv', rfl⟩
    rw [hv', hc, ← hv]
    exact ⟨rfl, rfl⟩
  · rintro _ s' ⟨hv', hf⟩
    rw [hv', ← hv]
    exact ⟨rfl, hf⟩

theorem ends_write_at (offset : Nat) (buf : List UInt8) :
    Ends (write_at offset buf s) (fun _ s' => s'.volume = s.volume.write offset buf)
      (fun _ s' => s'.volume = s.volume ∧ s.volume.Faulty) := by
  refine ends_bind (ends_on_device (s.device.ends_seek offset)) ?_
  rintro _ s1 ⟨hv, hc⟩
  have h := s1.device.ends_write buf
  unfold on_device
  generalize Device.write buf s1.device = r at h
  cases r with
  | ok a d =>
    change ({ s1 with device := d } : Ext2FSInner).volume = _
    rw [← hv, ← hc]
    unfold volume Volume.write
    rw [h.1, h.2]
  | error b d =>
    rw [← hv]
    exact ⟨volume_of_same h.toSame, h.fault⟩

theorem ends_u64 (n : Nat) :
    Ends (u64 n s) (fun m s' => m = n ∧ s' = s) (fun _ s' => UInt64.size ≤ n ∧ s' = s) := by
  unfold u64
  split
  · exact ⟨rfl, rfl⟩
  · rename_i h
    exact ⟨Nat.le_of_not_lt h, rfl⟩

theorem ends_u32 (n : Nat) :
    Ends (u32 n s) (fun m s' => m.toNat = n ∧ s' = s) (fun _ s' => UInt32.size ≤ n ∧ s' = s) := by
  unfold u32
  split
  · rename_i h
    exact ⟨UInt32.toNat_ofNat_of_lt' h, rfl⟩
  · rename_i h
    exact ⟨Nat.le_of_not_lt h, rfl⟩

end Ext2FSInner

end zenos_kernel.disk.fs.ext2
