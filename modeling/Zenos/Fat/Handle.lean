-- What the calls of a file handle do: `FatFile::read`, `write`, `truncate` and
-- `sync` over the chain of the file and the slot of its entry.
import Zenos.Fat.Content

namespace zenos_kernel.disk.fs.fat

open Bytes Outcome FatTable FatDirEntry

/-! ## Entries -/

namespace FatDirEntry

variable (e : FatDirEntry)

@[simp] theorem length_serialize : e.serialize.length = SIZE := by
  simp [serialize, SIZE]

/-- What is written to a slot is read back, unless its first byte is a mark. -/
theorem parse_serialize (h0 : e.name 0 ≠ 0x00) (h1 : e.name 0 ≠ 0xE5) :
    parse e.serialize = some e := by
  have hname : ∀ i : Fin 11, e.serialize.getD i 0 = e.name i := by
    intro i
    unfold serialize
    rw [List.getD_eq_getElem?_getD, List.getElem?_append_left (by simp), List.getElem?_ofFn,
      dif_pos i.isLt, Option.getD_some]
  -- the name and the three bytes behind it come before the numbers
  obtain ⟨a, b, hab, hlen, hb⟩ : ∃ a b, e.serialize = a ++ b ∧ a.length = 14 ∧
      b = le16 e.create_time ++ (le16 e.create_date ++ (le16 e.last_access_date ++
        (le16 e.first_cluster_high ++ (le16 e.write_time ++ (le16 e.write_date ++
        (le16 e.first_cluster_low ++ le32 e.file_size)))))) :=
    ⟨List.ofFn e.name ++ [e.attr, e.nt_reserved, e.create_time_tenth], _,
      (List.append_assoc _ _ _).symm, by simp, rfl⟩
  have h16 : ∀ k, u16At e.serialize (14 + k) = u16At b k := by
    intro k
    rw [hab, ← hlen, u16At_append]
  have h32 : ∀ k, u32At e.serialize (14 + k) = u32At b k := by
    intro k
    rw [hab, ← hlen, u32At_append]
  have hattr : e.serialize.getD 11 0 = e.attr := by simp [serialize]
  have hnt : e.serialize.getD 12 0 = e.nt_reserved := by simp [serialize]
  have htenth : e.serialize.getD 13 0 = e.create_time_tenth := by simp [serialize]
  have hfirst := hname 0
  unfold parse
  rw [if_neg (by rw [length_serialize]; decide), show e.serialize.getD 0 0 = e.name 0 from hfirst,
    if_neg h0, if_neg h1, hattr, hnt, htenth]
  simp only [hname]
  rw [h16 0, h16 2, h16 4, h16 6, h16 8, h16 10, h16 12, h32 14, hb]
  simp only [u16At_skip16, u16At_head, u32At_skip16]
  rw [show u32At (le32 e.file_size) 0 = e.file_size from u32At_le32 _]

theorem not_mark_of_parse {data : List UInt8} {e : FatDirEntry} (h : parse data = some e) :
    data.getD 0 0 ≠ 0x00 ∧ data.getD 0 0 ≠ 0xE5 := by
  unfold parse at h
  split at h
  · cases h
  · split at h
    · cases h
    · split at h
      · cases h
      · exact ⟨‹_›, ‹_›⟩

theorem first_cluster_eq :
    e.first_cluster = 65536 * e.first_cluster_high.toNat + e.first_cluster_low.toNat := by
  have hlow := e.first_cluster_low.toNat_lt
  unfold first_cluster
  rw [Nat.shiftLeft_eq, Nat.mul_comm, ← Nat.two_pow_add_eq_or_of_lt (i := 16) hlow]

theorem first_cluster_set {c : Nat} (hc : c < UInt32.size) :
    (e.set_first_cluster c).first_cluster = c := by
  have hsize : UInt32.size = 4294967296 := rfl
  rw [first_cluster_eq]
  unfold set_first_cluster
  rw [Nat.and_two_pow_sub_one_eq_mod _ 16, Nat.and_two_pow_sub_one_eq_mod _ 16,
    UInt16.toNat_ofNat_of_lt' (by change _ < 65536; omega),
    UInt16.toNat_ofNat_of_lt' (by change _ < 65536; omega)]
  omega

end FatDirEntry

/-! ## Slots -/

namespace Volume

variable {v v' : Volume} {c first q : Nat} {l dl : List Nat} {slot : Slot} {pos : Nat}

variable (v)

/-- The root directory of FAT12 and FAT16 lies behind the table. -/
def fixed_root (in_root : Bool) : Bool := in_root && v.fat_type != .Fat32

def entries_per_cluster : Nat := v.cluster_size / FatDirEntry.SIZE

/-- The slot starts at `pos`. It lies in a directory with the clusters `dl`, or in
the root directory of FAT12 and FAT16. -/
def SlotIn (slot : Slot) (dl : List Nat) (pos : Nat) : Prop :=
  if v.fixed_root slot.in_root = true then
    dl = [] ∧ slot.entry_index < v.bpb.root_entry_count.toNat ∧
      pos = v.fat_end + slot.entry_index * FatDirEntry.SIZE
  else
    v.IsChain slot.dir_cluster dl ∧ ∃ c, dl[slot.entry_index / v.entries_per_cluster]? = some c ∧
      pos = v.cluster_pos c + slot.entry_index % v.entries_per_cluster * FatDirEntry.SIZE

/-- A byte of the slot that starts at `pos`. -/
def InSlot (pos p : Nat) : Prop := pos ≤ p ∧ p < pos + FatDirEntry.SIZE

theorem entries_mul : v.entries_per_cluster * SIZE = v.cluster_size := by
  have h : SIZE ∣ v.cluster_size := by
    rw [cluster_size_eq]
    apply Dvd.dvd.mul_right
    rcases v.bps_cases with h | h | h | h
    · rw [h]; decide
    · rw [h]; decide
    · rw [h]; decide
    · rw [h]; decide
  exact Nat.div_mul_cancel h

theorem entries_pos : 0 < v.entries_per_cluster := by
  have h := v.entries_mul
  have hpos := v.cluster_size_gt
  apply Nat.pos_of_ne_zero
  intro h0
  rw [h0] at h
  omega

/-- A slot of a cluster ends in the cluster. -/
theorem slot_end (n : Nat) : n % v.entries_per_cluster * SIZE + SIZE ≤ v.cluster_size := by
  have hlt := Nat.mod_lt n v.entries_pos
  have hmul := record_le hlt SIZE
  rw [entries_mul] at hmul
  exact hmul

/-- The root directory of FAT12 and FAT16 ends before the clusters. -/
theorem fixed_root_end (c : Nat) :
    v.fat_end + v.bpb.root_entry_count.toNat * SIZE ≤ v.cluster_pos c := by
  have hdata : v.sector_pos v.bpb.first_data_sector ≤ v.cluster_pos c :=
    v.sector_pos_mono (Nat.le_add_left _ _)
  have hroot : v.bpb.root_entry_count.toNat * SIZE ≤ v.bpb.root_dir_sectors * v.bps := by
    have hpos := v.bps_ge
    have hdiv := Nat.lt_div_mul_add (a := v.bpb.root_entry_count.toNat * 32 + (v.bps - 1))
      (b := v.bps) (by omega)
    change v.bpb.root_entry_count.toNat * 32 ≤
      (v.bpb.root_entry_count.toNat * 32 + (v.bps - 1)) / v.bps * v.bps
    omega
  have hsum : v.sector_pos v.bpb.first_data_sector = v.fat_end + v.bpb.root_dir_sectors * v.bps := by
    unfold BiosParameterBlock.first_data_sector
    rw [sector_pos_add]
    rfl
  omega

variable {v}

section

variable (h : v.SlotIn slot dl pos)

include h

/-- The clusters of the directory are in use. -/
theorem SlotIn.used (hc : c ∈ dl) : v.InRange c ∧ c ∉ v.free := by
  unfold SlotIn at h
  split at h
  · rw [h.1] at hc
    cases hc
  · exact ⟨h.1.range c hc, fun hfree => not_mem_free h.1 hfree hc⟩

theorem SlotIn.fat_end_le : v.fat_end ≤ pos := by
  unfold SlotIn at h
  split at h
  · omega
  · obtain ⟨_, c, _, hpos⟩ := h
    rw [hpos]
    exact Nat.le_trans (v.fat_end_le c) (Nat.le_add_right _ _)

/-- The slot has no byte in common with a cluster that is not of its directory. -/
theorem SlotIn.apart (hc : v.InRange c) (hnot : c ∉ dl) :
    Apart pos SIZE (v.cluster_pos c) v.cluster_size := by
  unfold SlotIn at h
  split at h
  · obtain ⟨_, hidx, hpos⟩ := h
    have hend := v.fixed_root_end c
    have hmul := record_le hidx SIZE
    apply Or.inl
    omega
  · obtain ⟨hch, d, hd, hpos⟩ := h
    have hmem := List.mem_of_getElem? hd
    have hap := clusters_apart (hch.range d hmem) hc (fun h0 => hnot (h0 ▸ hmem))
    have hend := v.slot_end slot.entry_index
    unfold Apart at *
    omega

/-- A chain of which no cluster is in the directory has no byte in the slot. -/
theorem SlotIn.not_pos (hch : v.IsChain first l) (hdisj : ∀ c ∈ l, c ∉ dl)
    (hq : q < l.length * v.cluster_size) : ¬ InSlot pos (v.pos l q) := by
  obtain ⟨c, hc, heq⟩ := v.exists_cluster hq
  have hmem := List.mem_of_getElem? hc
  have hap := h.apart (hch.range c hmem) (hdisj c hmem)
  have hmod := Nat.mod_lt q v.cluster_size_gt
  exact Apart.outside (Or.symm hap) (by omega)

/-- The directory stays where it is when its chain does. -/
theorem SlotIn.congr (hs : Same v v')
    (heq : ∀ c ∈ dl, v'.entry c = v.entry c) : v'.SlotIn slot dl pos := by
  unfold SlotIn at h ⊢
  have hroot : v'.fixed_root slot.in_root = v.fixed_root slot.in_root := by
    unfold fixed_root
    rw [hs.fat_type]
  have hentries : v'.entries_per_cluster = v.entries_per_cluster := by
    unfold entries_per_cluster
    rw [hs.cluster_size]
  rw [hroot, hentries, hs.bpb, hs.fat_end]
  split at h
  · rw [if_pos ‹_›]
    exact h
  · rw [if_neg ‹_›]
    obtain ⟨hch, c, hc, hpos⟩ := h
    refine ⟨hch.congr hs heq, c, hc, ?_⟩
    rw [hs.cluster_pos]
    exact hpos

end

end Volume

namespace FatFileSystemInner

open Volume

variable {first i c : Nat} {l dl : List Nat} {slot : Slot} {pos : Nat} (s : FatFileSystemInner)

theorem ends_nth_cluster (n : Nat) {d : Nat}
    (h : s.volume.IsChain first l) (hi : l[i]? = some c) (hd : l[i + n]? = some d) :
    Ends (nth_cluster n c s) (fun r s' => s'.volume = s.volume ∧ r = d)
      (fun _ s' => s'.volume = s.volume) := by
  induction n generalizing s c i with
  | zero =>
    refine ends_pure ⟨rfl, ?_⟩
    exact Option.some.inj (hi.symm.trans hd)
  | succ n ih =>
    have hlt := (List.getElem?_eq_some_iff.mp hd).1
    refine ends_then (s.ends_read_entry c) (fun _ _ h => h.1) ?_
    rintro next s1 ⟨hv, rfl⟩
    have hnext := h.entry_next hi (by omega)
    have hih := ih s1 (by rw [hv]; exact h) hnext (by rw [← hd]; congr 1; omega)
    rw [hv] at hih
    exact hih

theorem ends_write_slot {data : List UInt8}
    (hdata : data.length = SIZE) (h : s.volume.SlotIn slot dl pos) :
    Ends (write_slot slot data s) (fun _ s' => s'.volume = s.volume.write pos data)
      (fun _ s' => s'.volume = s.volume) := by
  unfold write_slot
  rw [get_bind]
  unfold SlotIn at h
  split
  · rename_i hroot
    rw [if_pos (show s.volume.fixed_root slot.in_root = true from hroot)] at h
    refine (s.ends_write_at _ _).mono ?_ (fun _ _ h => h.2.1)
    intro _ s' hv
    rw [hv, h.2.2]
    rfl
  rename_i hroot
  rw [if_neg (show ¬ s.volume.fixed_root slot.in_root = true from hroot)] at h
  obtain ⟨hch, d, hd, hpos⟩ := h
  have hhead := hch.getElem_zero
    (Nat.lt_of_le_of_lt (Nat.zero_le _) (List.getElem?_eq_some_iff.mp hd).1)
  have hend := s.volume.slot_end slot.entry_index
  refine ends_bind (s.ends_nth_cluster _ hch hhead (d := d) (by rw [Nat.zero_add]; exact hd)) ?_
  rintro r s1 ⟨hv, rfl⟩
  refine ends_then (s1.ends_read_cluster r)
    (fun _ _ h => h.1.trans hv) ?_
  rintro buf s2 ⟨hv2, _, rfl⟩
  refine (s2.ends_write_cluster r _).mono ?_ (fun _ _ h => h.trans (hv2.trans hv))
  rintro _ s3 ⟨hv3, _⟩
  rw [hv3, hv2, hv]
  unfold Volume.write
  rw [hpos]
  congr 1
  exact splice_overwrite _ _ (by rw [hdata]; exact hend)

/-! ## Reading leaves the volume -/

theorem keeps_skip_to (n c : Nat) :
    Always (FatFile.skip_to n c s) (fun s' => s'.volume = s.volume) := by
  induction n generalizing s c with
  | zero => rfl
  | succ n ih =>
    unfold FatFile.skip_to
    split
    · rfl
    rw [get_bind]
    refine ends_then (s.ends_read_entry c) (fun _ _ h => h.1) ?_
    rintro next s1 ⟨hv, _⟩
    split
    · exact ends_pure hv
    · have hih := ih s1 next
      rw [hv] at hih
      exact hih

theorem keeps_read_loop (file_size fuel c o pos remaining : Nat) :
    Ends (FatFile.read_loop file_size fuel c o pos remaining s)
      (fun bytes s' => s'.volume = s.volume ∧ bytes.length ≤ remaining)
      (fun _ s' => s'.volume = s.volume) := by
  induction fuel generalizing s c o pos remaining with
  | zero => exact ends_pure ⟨rfl, Nat.zero_le _⟩
  | succ fuel ih =>
    unfold FatFile.read_loop
    split
    · exact ends_pure ⟨rfl, Nat.zero_le _⟩
    split
    · exact ends_pure ⟨rfl, Nat.zero_le _⟩
    rw [get_bind]
    generalize hn : min (min (s.cluster_size - o) (file_size - pos)) remaining = n
    refine ends_then (s.ends_read_cluster c) (fun _ _ h => h.1) ?_
    rintro buf s1 ⟨hv, _, _⟩
    refine ends_then (s1.ends_read_entry c) (fun _ _ h => h.1.trans hv) ?_
    rintro next s2 ⟨hv2, _⟩
    have hlen : ((buf.drop o).take n).length ≤ n := List.length_take_le _ _
    split
    · exact ends_pure ⟨hv2.trans hv, by omega⟩
    · refine ends_then (ih s2 next 0 (pos + n) (remaining - n))
        (fun _ _ h => h.trans (hv2.trans hv)) ?_
      rintro rest s3 ⟨hv3, hrest⟩
      refine ends_pure ⟨hv3.trans (hv2.trans hv), ?_⟩
      rw [List.length_append]
      omega

theorem keeps_read_chain (entry : FatDirEntry) (offset len : Nat) :
    Ends (FatFile.read_chain entry offset len s)
      (fun r s' => s'.volume = s.volume ∧ ∀ bytes, r = some bytes → bytes.length ≤ len)
      (fun _ s' => s'.volume = s.volume) := by
  unfold FatFile.read_chain
  rw [get_bind]
  refine ends_bind (s.keeps_skip_to _ _) ?_
  intro r s1 hv
  cases r with
  | none => exact ends_pure ⟨hv, fun _ h => by cases h⟩
  | some cluster =>
    refine ends_then (s1.keeps_read_loop _ _ _ _ _ _)
      (fun _ _ h => h.trans hv) ?_
    rintro bytes s2 ⟨hv2, hlen⟩
    refine ends_pure ⟨hv2.trans hv, ?_⟩
    rintro _ ⟨rfl⟩
    exact hlen

end FatFileSystemInner

/-! ## The calls -/

namespace FatFile

open Volume

variable {f : FatFile} {l dl : List Nat} {pos : Nat}

def volume (f : FatFile) : Volume := f.inner.volume

/-- The file has the clusters `l`, and its slot is in a directory that has none
of them. -/
structure Placed (f : FatFile) (l dl : List Nat) (pos : Nat) : Prop where
  layout : f.volume.Layout
  unsplit : f.volume.Unsplit
  chain : f.volume.IsChain f.entry.first_cluster l
  slot : f.volume.SlotIn f.slot dl pos
  apart : ∀ c ∈ l, c ∉ dl

variable {f' f1 : FatFile} {changed : Nat → Prop} {l' : List Nat} {buf : List UInt8} {offset : Nat}

/-- Of the handle, only the first cluster and the slot count. -/
theorem Placed.congr (h : f.Placed l dl pos) (hv : f'.volume = f.volume)
    (hfirst : f'.entry.first_cluster = f.entry.first_cluster) (hslot : f'.slot = f.slot) :
    f'.Placed l dl pos where
  layout := by rw [hv]; exact h.layout
  unsplit := by rw [hv]; exact h.unsplit
  chain := by rw [hv, hfirst]; exact h.chain
  slot := by rw [hv, hslot]; exact h.slot
  apart := h.apart

theorem ends_locked {α : Type} {x : FatM α} {Q : α → FatFile → Prop}
    {E : Fault FileError → FatFile → Prop}
    (h : Ends (x f.inner) (fun a s => Q a { f with inner := s })
      (fun e s => E e { f with inner := s })) :
    Ends (locked x f) Q E := ends_zoom h

theorem ends_sync_entry (hslot : f.volume.SlotIn f.slot dl pos) :
    Ends (sync_entry f) (fun _ f' => f'.toFatFileData = f.toFatFileData ∧
        f'.volume = f.volume.write pos f.entry.serialize)
      (fun _ f' => f'.toFatFileData = f.toFatFileData ∧ f'.volume = f.volume) := by
  apply ends_locked
  refine (f.inner.ends_write_slot (length_serialize _) hslot).mono ?_ ?_
  · exact fun _ s hv => ⟨rfl, hv⟩
  · exact fun _ s hv => ⟨rfl, hv⟩

theorem ends_advance (n : Nat) :
    Ends (advance n f) (fun _ f' => f' = f.set_cursor (f.cursor + n))
      (fun _ f' => f' = f ∧ UInt64.size ≤ f.cursor + n) := by
  unfold advance
  rw [get_bind]
  split
  · rfl
  · rename_i h
    exact ⟨rfl, Nat.le_of_not_lt h⟩

/-- The bytes of the file. Only the cursor of the handle changes. -/
theorem ends_read (hl : f.volume.Layout) (h : f.volume.IsChain f.entry.first_cluster l)
    (hsize : f.entry.file_size.toNat ≤ l.length * f.volume.cluster_size) (offset len : Nat) :
    Ends (read offset len f)
      (fun bytes f' => f'.volume = f.volume ∧ f'.entry = f.entry ∧ f'.slot = f.slot ∧
        bytes = f.volume.content l offset (min len (f.entry.file_size.toNat - offset)))
      (fun _ _ => f.volume.Faulty) := by
  have h32 := f.entry.file_size.toNat_lt
  unfold read
  rw [modify_bind, get_bind]
  split
  · rename_i hend
    change f.entry.file_size.toNat ≤ offset at hend
    refine ends_pure ⟨rfl, rfl, rfl, ?_⟩
    rw [show min len (f.entry.file_size.toNat - offset) = 0 by omega]
    rfl
  rename_i hlt
  change ¬ f.entry.file_size.toNat ≤ offset at hlt
  refine ends_bind (Q := fun r f1 => f1.volume = f.volume ∧ f1.entry = f.entry ∧
    f1.slot = f.slot ∧ f1.cursor = offset ∧
    r = some (f.volume.content l offset (min len (f.entry.file_size.toNat - offset)))) ?_ ?_
  · apply ends_locked
    refine (f.inner.ends_read_chain hl h len hsize (Nat.lt_of_not_le hlt)).mono ?_ ?_
    · rintro r s ⟨hv, rfl⟩
      exact ⟨hv, rfl, rfl, rfl, rfl⟩
    · exact fun _ s h0 => h0.2
  · rintro r f1 ⟨hv, hentry, hslot, hcursor, rfl⟩
    refine ends_then (ends_advance _) ?_ ?_
    · -- the cursor is below the size of the file
      rintro _ f' ⟨_, hbig⟩
      rw [length_content] at hbig
      have hsize64 : UInt64.size = 2 ^ 64 := rfl
      omega
    · rintro _ f2 rfl
      exact ends_pure ⟨hv, hentry, hslot, rfl⟩

/-- Whatever the chain is, the volume and the entry stay. -/
theorem keeps_read (offset len : Nat) :
    Ends (read offset len f)
      (fun bytes f' => f'.volume = f.volume ∧ f'.entry = f.entry ∧ f'.slot = f.slot ∧
        bytes.length ≤ len) (fun _ f' => f'.volume = f.volume) := by
  unfold read
  rw [modify_bind, get_bind]
  split
  · exact ends_pure ⟨rfl, rfl, rfl, Nat.zero_le _⟩
  refine ends_bind (Q := fun r f1 => f1.volume = f.volume ∧ f1.entry = f.entry ∧
    f1.slot = f.slot ∧ ∀ bytes, r = some bytes → bytes.length ≤ len) ?_ ?_
  · apply ends_locked
    refine (f.inner.keeps_read_chain _ _ _).mono_ok ?_
    exact fun r s h => ⟨h.1, rfl, rfl, h.2⟩
  rintro r f1 ⟨hv, hentry, hslot, hlen⟩
  cases r with
  | none => exact ends_pure ⟨hv, hentry, hslot, Nat.zero_le _⟩
  | some bytes =>
    refine ends_then (ends_advance _) ?_ ?_
    · rintro _ f' ⟨rfl, _⟩
      exact hv
    · rintro _ f2 rfl
      exact ends_pure ⟨hv, hentry, hslot, hlen bytes rfl⟩

/-! ### Writing -/

/-- The file gets longer by free clusters, and its entry keeps its name. -/
structure Extends (f f' : FatFile) (l l' : List Nat) (changed : Nat → Prop) : Prop where
  grows : Grows f.volume f'.volume f'.entry.first_cluster l l' changed
  slot : f'.slot = f.slot
  name : f'.entry.name = f.entry.name
  attr : f'.entry.attr = f.entry.attr

section

variable (h : f.Placed l dl pos)

include h

/-- The free clusters are not those of the directory. -/
theorem Placed.grown (he : Extends f f' l l' changed) : f'.Placed l' dl pos := by
  have hs := he.grows.same
  have hdl : ∀ c ∈ dl, c ∉ l' := by
    intro c hc hmem
    rw [he.grows.new, List.mem_append] at hmem
    rcases hmem with hmem | hmem
    · exact h.apart c hmem hc
    · exact (h.slot.used hc).2 (List.mem_of_mem_take hmem)
  exact {
    layout := hs.layout h.layout
    unsplit := hs.unsplit h.unsplit
    chain := he.grows.chain
    slot := by
      rw [he.slot]
      exact h.slot.congr hs (fun c hc => he.grows.others c (h.slot.used hc).1.2 (hdl c hc))
    apart := fun c hc hmem => hdl c hmem hc }

theorem ends_allocate_first (changed : Nat → Prop) :
    Yields (allocate_first f)
      (fun _ f' => ∃ l', Extends f f' l l' changed ∧ l'.length = max l.length 1 ∧
        f'.entry.file_size = f.entry.file_size ∧ f'.cursor = f.cursor) := by
  unfold allocate_first
  rw [get_bind]
  by_cases hfirst : f.entry.first_cluster < 2
  · rw [if_pos hfirst]
    have hnil := h.chain.eq_nil_iff.mpr hfirst
    subst hnil
    refine ends_bind (Q := fun new f1 => ∃ rest s, f.volume.free = new :: rest ∧
      s.volume = f.volume.put new (eoc f.volume.fat_type) ∧ f1 = { f with inner := s }) ?_ ?_
    · apply ends_locked
      refine f.inner.ends_allocate_cluster.forget.mono_ok ?_
      rintro new s ⟨rest, hfree, hv⟩
      exact ⟨rest, s, hfree, hv, rfl⟩
    rintro new _ ⟨rest, s, hfree, hv, rfl⟩
    have hnew := (mem_free.mp (show new ∈ f.volume.free by rw [hfree]; exact List.mem_cons_self)).1
    have hset : (f.entry.set_first_cluster new).first_cluster = new := by
      apply first_cluster_set
      have hcount := h.layout.count
      have hlt := hnew.2
      have hsize : UInt32.size = 4294967296 := rfl
      omega
    refine ⟨[new], ⟨?_, rfl, rfl, rfl⟩, rfl, rfl, rfl⟩
    change Grows f.volume s.volume (f.entry.set_first_cluster new).first_cluster [] [new] changed
    rw [hset, hv]
    exact Grows.allocate h.layout h.unsplit hfree
  · rw [if_neg hfirst]
    have hpos : 0 < l.length := by
      apply List.length_pos_of_ne_nil
      exact fun h0 => hfirst (h.chain.eq_nil_iff.mp h0)
    exact ends_pure ⟨l, ⟨Grows.refl h.chain, rfl, rfl, rfl⟩, by omega, rfl, rfl⟩

omit h in
theorem Extends.mono {changed' : Nat → Prop} (h : Extends f f' l l' changed)
    (hc : ∀ p, changed p → changed' p) : Extends f f' l l' changed' :=
  { h with grows := h.grows.mono hc }

omit h in
theorem Extends.trans {f'' : FatFile} {l'' : List Nat} (h : Extends f f' l l' changed)
    (h' : Extends f' f'' l' l'' changed) (hfirst : f''.entry.first_cluster = f'.entry.first_cluster)
    : Extends f f'' l l'' changed where
  grows := by
    have hg := h.grows
    rw [← hfirst] at hg
    exact hg.trans h'.grows
  slot := h'.slot.trans h.slot
  name := h'.name.trans h.name
  attr := h'.attr.trans h.attr

theorem ends_sync :
    Ends (sync_entry f)
      (fun _ f' => Extends f f' l l (InSlot pos) ∧ f'.toFatFileData = f.toFatFileData ∧
        slice f'.volume.bytes pos SIZE = f.entry.serialize) (fun _ f' => f'.volume = f.volume) := by
  refine (ends_sync_entry h.slot).mono ?_ (fun _ _ h => h.2)
  rintro _ f' ⟨hdata, hv⟩
  have hentry : f'.entry = f.entry := congrArg FatFileData.entry hdata
  have hlen : f.entry.serialize.length = SIZE := length_serialize _
  refine ⟨⟨?_, congrArg FatFileData.slot hdata, by rw [hentry], by rw [hentry]⟩, hdata, ?_⟩
  · rw [hentry, hv]
    refine Grows.write h.chain h.layout h.slot.fat_end_le ?_
    intro p h1 h2
    exact ⟨h1, h2⟩
  · rw [hv]
    exact slice_splice _ _ _

/-- The new size goes to the disk with the entry. -/
theorem ends_sync_size (n : UInt32) :
    Yields (sync_entry (f.set_size n)) (fun _ f' => Extends f f' l l (InSlot pos) ∧
      f'.entry = { f.entry with file_size := n } ∧
      slice f'.volume.bytes pos SIZE = f'.entry.serialize) := by
  have hset : (f.set_size n).Placed l dl pos := h.congr rfl rfl rfl
  refine (ends_sync hset).forget.mono_ok ?_
  rintro _ f' ⟨he, hdata, hslice⟩
  have hentry : f'.entry = { f.entry with file_size := n } := congrArg FatFileData.entry hdata
  refine ⟨⟨he.grows, he.slot, he.name, he.attr⟩, hentry, ?_⟩
  rw [hslice, hentry]
  rfl

theorem ends_grow :
    Yields (grow f) (fun _ f' => Extends f f' l l (InSlot pos) ∧
        f'.entry.first_cluster = f.entry.first_cluster ∧
        f'.entry.file_size = (if f.entry.file_size.toNat < f.cursor then UInt32.ofNat f.cursor
          else f.entry.file_size) ∧
        slice f'.volume.bytes pos SIZE = (if f.entry.file_size.toNat < f.cursor then
          f'.entry.serialize else slice f.volume.bytes pos SIZE)) := by
  unfold grow
  rw [get_bind]
  by_cases hlt : f.entry.file_size.toNat < f.cursor
  · rw [if_pos hlt]
    refine (ends_sync_size h _).mono_ok ?_
    rintro _ f' ⟨he, hentry, hslice⟩
    rw [if_pos hlt, if_pos hlt]
    refine ⟨he, ?_, ?_, hslice⟩
    · rw [hentry]
      rfl
    · rw [hentry]
  · rw [if_neg hlt, if_neg hlt]
    exact ends_pure ⟨⟨Grows.refl h.chain, rfl, rfl, rfl⟩, rfl, rfl, (if_neg hlt).symm⟩

/-- What a call that puts the bytes `buf` at `offset` leaves. -/
structure Wrote (f f' : FatFile) (l l' : List Nat) (pos offset : Nat) (buf : List UInt8) : Prop
    extends Extends f f' l l' (fun p => f.volume.InFile l' offset buf.length p ∨ InSlot pos p) where
  room : buf ≠ [] → offset + buf.length ≤ l'.length * f.volume.cluster_size
  data : ∀ k < buf.length, f'.volume.bytes (f.volume.pos l' (offset + k)) = buf.getD k 0

omit h in
theorem Wrote.congr (hw : Wrote f1 f' l l' pos offset buf)
    (hv : f1.volume = f.volume) (hentry : f1.entry = f.entry) (hslot : f1.slot = f.slot) :
    Wrote f f' l l' pos offset buf where
  grows := by
    have hg := hw.grows
    rw [hv] at hg
    exact hg
  slot := hw.slot.trans hslot
  name := by rw [hw.name, hentry]
  attr := by rw [hw.attr, hentry]
  room := by rw [← hv]; exact hw.room
  data := by rw [← hv]; exact hw.data

omit h in
/-- A call that changes bytes of the file only leaves the slot. -/
theorem Extends.slot_kept (he : Extends f f' l l' (f.volume.InFile l' offset buf.length))
    (h : f.Placed l dl pos)
    (hroom : buf ≠ [] → offset + buf.length ≤ l'.length * f.volume.cluster_size) :
    slice f'.volume.bytes pos SIZE = slice f.volume.bytes pos SIZE := by
  apply slice_congr
  intro p h1 h2
  have hs := he.grows.same
  have hplaced := h.grown he
  refine he.grows.bytes p (Or.inr (Nat.le_trans h.slot.fat_end_le h1)) ?_
  rintro ⟨q, hq1, hq2, rfl⟩
  have hroom := hroom (List.ne_nil_of_length_pos (by omega))
  rw [← hs.pos] at h1 h2
  refine hplaced.slot.not_pos hplaced.chain hplaced.apart ?_ ⟨h1, h2⟩
  rw [hs.cluster_size]
  omega

/-- The write goes past the end. -/
def Passes (f : FatFile) (offset : Nat) (buf : List UInt8) : Prop :=
  buf ≠ [] ∧ f.entry.file_size.toNat < offset + buf.length

instance (offset : Nat) (buf : List UInt8) : Decidable (f.Passes offset buf) :=
  inferInstanceAs (Decidable (_ ∧ _))

/-- The slot is written after the bytes, and leaves them. -/
theorem Wrote.then_slot {f2 : FatFile}
    (hw : Wrote f f1 l l' pos offset buf) (he : Extends f1 f2 l' l' (InSlot pos))
    (hfirst : f2.entry.first_cluster = f1.entry.first_cluster) :
    Wrote f f2 l l' pos offset buf where
  toExtends := hw.toExtends.trans (he.mono (fun _ h => Or.inr h)) hfirst
  room := hw.room
  data := by
    intro k hk
    have hs := hw.grows.same
    have hplaced := h.grown hw.toExtends
    have hroom := hw.room (List.ne_nil_of_length_pos (by omega))
    have hnot : ¬ InSlot pos (f.volume.pos l' (offset + k)) := by
      rw [← hs.pos]
      refine hplaced.slot.not_pos hplaced.chain hplaced.apart ?_
      rw [hs.cluster_size]
      omega
    rw [he.grows.bytes _ (Or.inr ?_) hnot, hw.data k hk]
    rw [hs.fat_end]
    exact f.volume.fat_end_le_pos _ _

theorem ends_write (offset : Nat) (buf : List UInt8) :
    Yields (write offset buf f) (fun n f' => n = buf.length ∧ ∃ l', Wrote f f' l l' pos offset buf ∧
        f'.entry.file_size = (if f.Passes offset buf then UInt32.ofNat (offset + buf.length)
          else f.entry.file_size) ∧
        slice f'.volume.bytes pos SIZE = (if f.Passes offset buf then f'.entry.serialize
          else slice f.volume.bytes pos SIZE)) := by
  unfold write
  rw [modify_bind]
  by_cases hbuf : buf = []
  · subst hbuf
    have hno : ¬ f.Passes offset [] := fun h0 => h0.1 rfl
    refine ends_pure ⟨rfl, l, ⟨⟨Grows.refl h.chain, rfl, rfl, rfl⟩, fun h0 => absurd rfl h0, ?_⟩,
      (if_neg hno).symm, (if_neg hno).symm⟩
    exact fun k hk => absurd hk (Nat.not_lt_zero k)
  rw [if_neg hbuf]
  have hlen : 0 < buf.length := List.length_pos_of_ne_nil hbuf
  have h0 : (f.set_cursor offset).Placed l dl pos := h.congr rfl rfl rfl
  refine ends_bind (ends_allocate_first h0 (fun _ => False)) ?_
  rintro _ f1 ⟨l1, he1, hlen1, hsize1, hcursor1⟩
  have h1 := h0.grown he1
  have hs1 : Same f.volume f1.volume := he1.grows.same
  rw [get_bind]
  refine ends_bind (Q := fun _ f2 => f2.toFatFileData = f1.toFatFileData ∧ ∃ l2,
    Wrote f f2 l l2 pos offset buf ∧
    Extends f f2 l l2 (f.volume.InFile l2 offset buf.length)) ?_ ?_
  · apply ends_locked
    refine (f1.inner.ends_write_chain h1.layout h1.unsplit h1.chain (by omega) offset hlen).mono_ok ?_
    rintro _ s2 ⟨l2, hg, hlen2, hdata⟩
    change l2.length = max l1.length ((offset + buf.length - 1) / f1.volume.cluster_size + 1) at hlen2
    have he2 : Extends f { f1 with inner := s2 } l l2 (f.volume.InFile l2 offset buf.length) := by
      refine ⟨?_, he1.slot, he1.name, he1.attr⟩
      refine (he1.grows.mono (fun _ h0 => h0.elim)).trans (hg.mono ?_)
      exact fun p hp => (hs1.inFile l2 offset buf.length p).mp hp
    refine ⟨rfl, l2, ⟨he2.mono (fun _ hp => Or.inl hp), ?_, ?_⟩, he2⟩
    · -- the last byte lies in the last cluster that was asked for
      intro _
      have hlt := (Nat.div_lt_iff_lt_mul f1.volume.cluster_size_gt).mp
        (show (offset + buf.length - 1) / f1.volume.cluster_size < l2.length by omega)
      rw [← hs1.cluster_size]
      omega
    · intro k hk
      rw [← hs1.pos]
      exact hdata k hk
  · rintro _ f2 ⟨hfile, l2, hw, he2⟩
    have hcursor2 : f2.cursor = offset :=
      (congrArg FatFileData.cursor hfile).trans hcursor1
    have hsize2 : f2.entry.file_size = f.entry.file_size := by
      rw [show f2.entry = f1.entry from congrArg FatFileData.entry hfile]
      exact hsize1
    have h2 := h.grown hw.toExtends
    refine ends_bind (ends_advance _).forget ?_
    rintro _ f3 rfl
    have h3 : (f2.set_cursor (f2.cursor + buf.length)).Placed l2 dl pos := h2.congr rfl rfl rfl
    refine ends_bind (ends_grow h3) ?_
    rintro _ f4 ⟨he4, hfirst4, hsize4, hslice4⟩
    have he4' : Extends f2 f4 l2 l2 (InSlot pos) := ⟨he4.grows, he4.slot, he4.name, he4.attr⟩
    have hpasses : f.Passes offset buf ↔ f.entry.file_size.toNat < offset + buf.length :=
      ⟨fun hp => hp.2, fun hlt => ⟨hbuf, hlt⟩⟩
    have hslice2 : slice f2.volume.bytes pos SIZE =
        slice f.volume.bytes pos SIZE := he2.slot_kept h hw.room
    refine ends_pure ⟨rfl, l2, hw.then_slot h he4' hfirst4, ?_, ?_⟩
    · rw [hsize4]
      change (if f2.entry.file_size.toNat < f2.cursor + buf.length then
        UInt32.ofNat (f2.cursor + buf.length) else f2.entry.file_size) = _
      simp only [hpasses, hcursor2, hsize2]
    · rw [hslice4]
      change (if f2.entry.file_size.toNat < f2.cursor + buf.length then f4.entry.serialize else
        slice f2.volume.bytes pos SIZE) = _
      simp only [hpasses, hcursor2, hsize2, hslice2]

/-- The file keeps its first bytes and gets zeros behind them. -/
theorem ends_truncate (size : Nat) :
    Yields (truncate size f)
      (fun _ f' => ∃ l' data, data.length = size ∧ Wrote f f' l l' pos 0 data ∧
        f'.entry.file_size = UInt32.ofNat size ∧
        slice f'.volume.bytes pos SIZE = f'.entry.serialize ∧
        (f.entry.file_size.toNat ≤ l.length * f.volume.cluster_size → ∃ n,
          n = min size f.entry.file_size.toNat ∧
          data = f.volume.content l 0 n ++ List.replicate (size - n) 0)) := by
  refine ends_bind (Q := fun bytes f1 => f1.volume = f.volume ∧ f1.entry = f.entry ∧
    f1.slot = f.slot ∧ bytes.length ≤ size ∧
    (f.entry.file_size.toNat ≤ l.length * f.volume.cluster_size →
      bytes = f.volume.content l 0 (min size f.entry.file_size.toNat))) ?_ ?_
  · by_cases hsize : f.entry.file_size.toNat ≤ l.length * f.volume.cluster_size
    · refine (ends_read h.layout h.chain hsize 0 size).forget.mono_ok ?_
      rintro bytes f1 ⟨hv, hentry, hslot, rfl⟩
      refine ⟨hv, hentry, hslot, ?_, fun _ => rfl⟩
      rw [length_content]
      exact Nat.min_le_left _ _
    · refine (keeps_read 0 size).forget.mono_ok ?_
      exact fun bytes f1 h0 => ⟨h0.1, h0.2.1, h0.2.2.1, h0.2.2.2, fun h1 => absurd h1 hsize⟩
  rintro bytes f1 ⟨hv, hentry, hslot, hlen, hcontent⟩
  rw [modify_bind]
  have h1 : (f1.set_cursor 0).Placed l dl pos :=
    h.congr hv (congrArg first_cluster hentry) hslot
  generalize hdata : bytes ++ List.replicate (size - bytes.length) 0 = data
  have hdlen : data.length = size := by
    rw [← hdata, List.length_append, List.length_replicate]
    omega
  refine ends_bind (ends_write h1 0 data) ?_
  rintro n f2 ⟨_, l2, hw, _, _⟩
  have hw2 : Wrote f f2 l l2 pos 0 data := hw.congr hv hentry hslot
  have h2 := h.grown hw2.toExtends
  refine (ends_sync_size h2 _).mono_ok ?_
  rintro _ f4 ⟨he4, hentry4, hslice⟩
  refine ⟨l2, data, hdlen, hw2.then_slot h he4 (by rw [hentry4]; rfl), by rw [hentry4], hslice, ?_⟩
  intro hsize
  refine ⟨_, rfl, ?_⟩
  rw [← hdata, hcontent hsize, length_content]

end

end FatFile

end zenos_kernel.disk.fs.fat
