-- What the calls on a FAT volume depend on: everything but the cursor of the
-- device, the number of operations and the clock. The entries of the table and
-- the clusters are functions of it, and the specs of the steps that all
-- functions share are stated over it.
import Zenos.Fat.Plumbing

namespace zenos_kernel.disk.fs.fat

open Bytes Outcome block

structure Volume where
  bytes : Nat → UInt8
  /-- The device operations that fail. -/
  faulty : Nat → Bool
  bpb : BiosParameterBlock
  partition_offset : Nat
  valid : bpb.validate = .ok ()

namespace Volume

def fat_type (v : Volume) : FatType := v.bpb.fat_type

variable (v : Volume) (cluster : Nat)

def bps : Nat := v.bpb.bytes_per_sector.toNat

def spc : Nat := v.bpb.sectors_per_cluster.toNat

def cluster_size : Nat := v.bpb.bytes_per_cluster

/-- Some device operation fails. -/
def Faulty : Prop := ∃ k, v.faulty k = true

/-- The bytes `buf` are written at `off`. -/
def write (off : Nat) (buf : List UInt8) : Volume :=
  { v with bytes := splice v.bytes off buf }

def sector_pos (sector : Nat) : Nat := sector * v.bps + v.partition_offset

/-- Where the first copy of the table starts. -/
def fat_start : Nat := v.sector_pos v.bpb.first_fat_sector

/-- Where the copies of the table end. -/
def fat_end : Nat :=
  v.sector_pos (v.bpb.first_fat_sector + v.bpb.num_fats.toNat * v.bpb.fat_size)

/-- Where a cluster starts. -/
def cluster_pos : Nat :=
  v.sector_pos ((cluster - 2) * v.spc + v.bpb.first_data_sector)

/-- Where the entry of a cluster starts in the first copy of the table. -/
def entry_pos : Nat :=
  v.fat_start + FatTable.fat_offset v.fat_type cluster

/-- The number of `n` bytes at `pos`. -/
def number (v : Volume) (pos : Nat) : Nat → Nat
  | 0 => 0
  | n + 1 => (v.bytes pos).toNat + 256 * v.number (pos + 1) n

/-- The entry of a cluster. -/
def entry : Nat :=
  let pos := v.entry_pos cluster
  match v.fat_type with
  | .Fat12 =>
    if cluster % 2 = 1 then v.number pos 2 / 16 else v.number pos 2 % 4096
  | .Fat16 => v.number pos 2
  | .Fat32 => v.number pos 4 % 268435456

/-- The sector of the first copy that holds the start of the entry. -/
def entry_sector : Nat :=
  v.bpb.first_fat_sector + FatTable.fat_offset v.fat_type cluster / v.bps

variable (cluster value : Nat)

/-- What `write_entry` makes of that sector. -/
def new_sector : List UInt8 :=
  FatTable.set_entry v.fat_type cluster value (FatTable.fat_offset v.fat_type cluster % v.bps)
    (slice v.bytes (v.sector_pos (v.entry_sector cluster)) v.bps)

/-- That sector as it goes to the copies `is` of the table. -/
def copies (is : List Nat) : List (Nat × List UInt8) :=
  is.map (fun i =>
    (v.sector_pos (v.entry_sector cluster + i * v.bpb.fat_size), v.new_sector cluster value))

/-- The writes of `write_entry`. -/
def entry_writes : List (Nat × List UInt8) :=
  v.copies cluster value (List.range v.bpb.num_fats.toNat)

/-- The volume after `write_entry`. -/
def put : Volume :=
  { v with bytes := applyWrites (v.entry_writes cluster value) v.bytes }

/-- The place of the entry is out of reach of the arithmetic. -/
def Unreachable : Prop :=
  UInt32.size ≤ FatTable.fat_offset v.fat_type cluster ∨
    UInt64.size ≤ v.sector_pos (v.entry_sector cluster + 1)

/-- The cluster has no place that the arithmetic reaches. -/
def NoCluster : Prop :=
  cluster < 2 ∨ UInt32.size ≤ (cluster - 2) * v.spc + v.bpb.first_data_sector ∨
    UInt64.size ≤ v.cluster_pos cluster

/-! ## The sizes of a valid volume -/

theorem ite_error_ok {ε α : Type} {c : Prop} [Decidable c] {e : ε} {x : Except ε α} {a : α} :
    (if c then .error e else x) = .ok a ↔ ¬ c ∧ x = .ok a := by
  by_cases h : c
  · simp [h]
  · simp [h]

/-- What the checks of `validate` say. -/
theorem valid_spec : v.bpb.bytes_per_sector ∈ [512, 1024, 2048, 4096] ∧
    v.bpb.sectors_per_cluster ≠ 0 ∧ v.bpb.num_fats ≠ 0 ∧
    v.bpb.first_data_sector < v.bpb.total_sectors ∧
    (v.fat_type = .Fat32 → ¬ v.bpb.root_cluster < 2) := by
  have h := v.valid
  unfold BiosParameterBlock.validate at h
  simp only [ite_error_ok] at h
  obtain ⟨hbps, hspc, _, hfats, _, _, _, _, _, hroot, _, htotal, _⟩ := h
  refine ⟨Decidable.not_not.mp hbps, fun h0 => hspc (Or.inl h0), hfats, Nat.lt_of_not_le htotal, ?_⟩
  exact fun hfat hlt => hroot ⟨hfat, hlt⟩

theorem bps_cases : v.bps = 512 ∨ v.bps = 1024 ∨ v.bps = 2048 ∨ v.bps = 4096 := by
  have h := v.valid_spec.1
  simp only [List.mem_cons, List.not_mem_nil, or_false] at h
  unfold bps
  rcases h with hb | hb | hb | hb
  · rw [hb]; decide
  · rw [hb]; decide
  · rw [hb]; decide
  · rw [hb]; decide

theorem bps_ge : 512 ≤ v.bps := by
  have h := v.bps_cases
  omega

theorem spc_pos : 0 < v.spc := by
  have h := v.valid_spec.2.1
  apply Nat.pos_of_ne_zero
  exact fun h0 => h (UInt8.toNat_inj.mp h0)

theorem num_fats_pos : 0 < v.bpb.num_fats.toNat := by
  have h := v.valid_spec.2.2.1
  apply Nat.pos_of_ne_zero
  exact fun h0 => h (UInt8.toNat_inj.mp h0)

theorem first_data_sector_lt : v.bpb.first_data_sector < v.bpb.total_sectors :=
  v.valid_spec.2.2.2.1

theorem cluster_size_eq : v.cluster_size = v.bps * v.spc := rfl

theorem sector_pos_add (m n : Nat) : v.sector_pos (m + n) = v.sector_pos m + n * v.bps := by
  unfold sector_pos
  rw [Nat.add_mul]
  omega

theorem entry_pos_eq :
    v.sector_pos (v.entry_sector cluster) + FatTable.fat_offset v.fat_type cluster % v.bps =
      v.entry_pos cluster := by
  unfold entry_sector entry_pos fat_start
  rw [sector_pos_add, Nat.add_assoc, Nat.mul_comm, Nat.div_add_mod]

end Volume

namespace FatFileSystemInner

variable (s : FatFileSystemInner)

def volume : Volume where
  bytes := s.device.bytes
  faulty := s.device.faulty
  bpb := s.bpb
  partition_offset := s.partition_offset
  valid := s.valid

variable {α : Type}

/-! ## The device -/

/-- An error of the device, or a panic. -/
def Hard (e : Fault FileError) : Prop := ∀ m, e ≠ .err (.Other m)

variable {s} in
theorem volume_of_same {d : Device} (h : Device.Same s.device d) :
    ({ s with device := d } : FatFileSystemInner).volume = s.volume := by
  unfold volume
  simp only [h.bytes, h.faulty]

/-- A device operation that leaves the bytes alone. -/
theorem ends_on_device {x : EStateM BlockError Device α} {s : FatFileSystemInner} {e : FileError}
    {Q : α → Device → Prop} (he : Hard (.err e))
    (h : Ends (x s.device) (fun a d => Device.Same s.device d ∧ Q a d)
      (fun _ d => Device.Failed s.device d)) :
    Ends (on_device x e s) (fun a s' => s'.volume = s.volume ∧ Q a s'.device)
      (fun e s' => Hard e ∧ s'.volume = s.volume ∧ s.volume.Faulty) := by
  unfold on_device
  revert h
  cases x s.device with
  | ok a d => exact fun h => ⟨volume_of_same h.1, h.2⟩
  | error b d => exact fun h => ⟨he, volume_of_same h.toSame, h.fault⟩

theorem ends_read_at (offset len : Nat) :
    Ends (read_at offset len s)
      (fun buf s' => s'.volume = s.volume ∧ buf = slice s.volume.bytes offset len)
      (fun e s' => Hard e ∧ s'.volume = s.volume ∧ (s.volume.Faulty ∨ UInt64.size ≤ offset)) := by
  unfold read_at
  split
  · rename_i h
    exact ⟨nofun, rfl, Or.inr h⟩
  refine ends_then (ends_on_device nofun (s.device.ends_seek offset))
    (fun _ _ h => ⟨h.1, h.2.1, Or.inl h.2.2⟩) ?_
  rintro _ s1 ⟨hv, hc⟩
  refine (ends_on_device (e := .ReadError) nofun (s1.device.ends_read len)).mono ?_ ?_
  · rintro buf s' ⟨hv', rfl⟩
    rw [hv', hc, ← hv]
    exact ⟨rfl, rfl⟩
  · rintro _ s' ⟨he, hv', hf⟩
    rw [hv', ← hv]
    exact ⟨he, rfl, Or.inl hf⟩

/-- A write that fails leaves the bytes alone. -/
theorem ends_write_at (offset : Nat) (buf : List UInt8) :
    Ends (write_at offset buf s) (fun _ s' => s'.volume = s.volume.write offset buf)
      (fun e s' => Hard e ∧ s'.volume = s.volume ∧ (s.volume.Faulty ∨ UInt64.size ≤ offset)) := by
  unfold write_at
  split
  · rename_i h
    exact ⟨nofun, rfl, Or.inr h⟩
  refine ends_then (ends_on_device nofun (s.device.ends_seek offset))
    (fun _ _ h => ⟨h.1, h.2.1, Or.inl h.2.2⟩) ?_
  rintro _ s1 ⟨hv, hc⟩
  have h := s1.device.ends_write buf
  unfold on_device
  generalize Device.write buf s1.device = r at h
  cases r with
  | ok a d =>
    change ({ s1 with device := d } : FatFileSystemInner).volume = _
    rw [← hv, ← hc]
    unfold volume Volume.write
    simp only [h.1, h.2]
  | error b d =>
    rw [← hv]
    exact ⟨nofun, volume_of_same h.toSame, Or.inl h.fault⟩

theorem ends_u32 (n : Nat) :
    Ends (u32 n s) (fun m s' => m = n ∧ s' = s)
      (fun e s' => Hard e ∧ UInt32.size ≤ n ∧ s' = s) := by
  unfold u32
  split
  · exact ⟨rfl, rfl⟩
  · rename_i h
    exact ⟨nofun, Nat.le_of_not_lt h, rfl⟩

/-! ## Clusters -/

variable (cluster : Nat)

theorem ends_cluster_to_sector :
    Ends (cluster_to_sector cluster s) (fun sector s' => s' = s ∧ 2 ≤ cluster ∧
        s.volume.sector_pos sector = s.volume.cluster_pos cluster)
      (fun _ s' => s' = s ∧ s.volume.NoCluster cluster) := by
  unfold cluster_to_sector
  split
  · rename_i h
    exact ⟨rfl, Or.inl h⟩
  · rename_i h
    refine (s.ends_u32 _).mono ?_ ?_
    · rintro sector s' ⟨rfl, rfl⟩
      exact ⟨rfl, Nat.le_of_not_lt h, rfl⟩
    · rintro _ s' ⟨-, hbig, rfl⟩
      exact ⟨rfl, Or.inr (Or.inl hbig)⟩

theorem ends_read_cluster :
    Ends (read_cluster cluster s) (fun buf s' => s'.volume = s.volume ∧ 2 ≤ cluster ∧
        buf = slice s.volume.bytes (s.volume.cluster_pos cluster) s.volume.cluster_size)
      (fun _ s' => s'.volume = s.volume ∧ (s.volume.Faulty ∨ s.volume.NoCluster cluster)) := by
  unfold read_cluster
  rw [get_bind]
  refine ends_then (s.ends_cluster_to_sector cluster)
    (fun _ s' h => ⟨by rw [h.1], Or.inr h.2⟩) ?_
  rintro sector s1 ⟨rfl, h2, hpos⟩
  refine (s1.ends_read_at _ _).mono ?_ ?_
  · rintro buf s' ⟨hv, rfl⟩
    refine ⟨hv, h2, ?_⟩
    rw [← hpos]
    rfl
  · rintro _ s' ⟨-, hv, hf | hbig⟩
    · exact ⟨hv, Or.inl hf⟩
    · refine ⟨hv, Or.inr (Or.inr (Or.inr ?_))⟩
      rw [← hpos]
      exact hbig

theorem ends_write_cluster (buf : List UInt8) :
    Ends (write_cluster cluster buf s)
      (fun _ s' => s'.volume = s.volume.write (s.volume.cluster_pos cluster) buf ∧ 2 ≤ cluster)
      (fun _ s' => s'.volume = s.volume) := by
  unfold write_cluster
  rw [get_bind]
  refine ends_then (s.ends_cluster_to_sector cluster)
    (fun _ s' h => by rw [h.1]) ?_
  rintro sector s1 ⟨rfl, h2, hpos⟩
  refine (s1.ends_write_at _ _).mono ?_ (fun _ _ h => h.2.1)
  intro _ s' hv
  refine ⟨?_, h2⟩
  rw [hv, ← hpos]
  rfl

/-! ## The table -/

theorem ends_read_sector (sector : Nat) :
    Ends (FatTable.read_sector sector s) (fun buf s' => s'.volume = s.volume ∧
        buf = slice s.volume.bytes (s.volume.sector_pos sector) s.volume.bps)
      (fun e s' => Hard e ∧ s'.volume = s.volume ∧
        (s.volume.Faulty ∨ UInt64.size ≤ s.volume.sector_pos sector)) := by
  exact s.ends_read_at _ _

theorem ends_write_sector (sector : Nat) (buf : List UInt8) :
    Ends (FatTable.write_sector sector buf s)
      (fun _ s' => s'.volume = s.volume.write (s.volume.sector_pos sector) buf)
      (fun e s' => Hard e ∧ s'.volume = s.volume ∧
        (s.volume.Faulty ∨ UInt64.size ≤ s.volume.sector_pos sector)) := by
  exact s.ends_write_at _ _

end FatFileSystemInner

end zenos_kernel.disk.fs.fat
