-- A file as an array of bytes. Writes that start inside of the file or at its end,
-- and truncations, behave as on a list of bytes.
import Zenos.Fat.Tree

namespace zenos_kernel.disk.fs.fat

open Bytes Outcome

/-! ## What a call of a file can reach -/

namespace Volume

variable {v v' v'' : Volume} {l l' l'' : List Nat} {pos c first p : Nat} {o : Option Slot}

/-- The clusters of a file go from `l` to `l'`. Besides, only the slot at `pos` changes. -/
structure Confined (v v' : Volume) (l l' : List Nat) (pos : Nat) : Prop where
  same : Same v v'
  taken : ∀ c ∈ l', c ∈ l ∨ v.entry c = 0
  longer : ∀ c ∈ l, c ∈ l'
  entries : ∀ c, v.InRange c → c ∉ l' → v'.entry c = v.entry c
  bytes : ∀ p, v.fat_end ≤ p → ¬ InSlot pos p → (∀ c ∈ l', ¬ v.InCluster c p) →
    v'.bytes p = v.bytes p

theorem Confined.refl (v : Volume) (l : List Nat) (pos : Nat) : Confined v v l l pos where
  same := Same.refl v
  taken := fun _ hc => Or.inl hc
  longer := fun _ hc => hc
  entries := fun _ _ _ => rfl
  bytes := fun _ _ _ _ => rfl

theorem Confined.trans (h : Confined v v' l l' pos) (h' : Confined v' v'' l' l'' pos)
    (hrange : ∀ c ∈ l'', v.InRange c) : Confined v v'' l l'' pos where
  same := h.same.trans h'.same
  taken := by
    intro c hc
    by_cases hcl : c ∈ l'
    · exact h.taken c hcl
    · have hfree := (h'.taken c hc).resolve_left hcl
      rw [h.entries c (hrange c hc) hcl] at hfree
      exact Or.inr hfree
  longer := fun c hc => h'.longer c (h.longer c hc)
  entries := by
    intro c hc hcl
    have hcl' : c ∉ l' := fun h0 => hcl (h'.longer c h0)
    rw [h'.entries c ((h.same.inRange c).mpr hc) hcl, h.entries c hc hcl']
  bytes := by
    intro p hp hslot hcl
    have hp' : v'.fat_end ≤ p := by rw [h.same.fat_end]; exact hp
    rw [h'.bytes p hp' hslot (fun c hc => by rw [h.same.inCluster]; exact hcl c hc),
      h.bytes p hp hslot (fun c hc => hcl c (h'.longer c hc))]

/-- A position of the file lies in one of its clusters. -/
theorem InFile.inCluster {start len : Nat} (h : v.InFile l start len p)
    (hroom : start + len ≤ l.length * v.cluster_size) : ∃ c ∈ l, v.InCluster c p := by
  obtain ⟨q, _, h2, rfl⟩ := h
  obtain ⟨c, hc, hpos⟩ := v.exists_cluster (l := l) (q := q) (by omega)
  have hmod := Nat.mod_lt q v.cluster_size_gt
  refine ⟨c, List.mem_of_getElem? hc, ?_⟩
  unfold InCluster
  omega

theorem Confined.others (h : Confined v v' l l' pos) (hwf : v.Sound) {slot : Slot}
    (hown : Owner v (some slot) first) (hl : v.IsChain first l) (hl' : ∀ c ∈ l', v.InRange c)
    (hne : o ≠ some slot) (hp : v.Belongs o p) (hslot : ¬ InSlot pos p) :
    v'.bytes p = v.bytes p := by
  rcases hp with ⟨fo, lo, ho, hlo, c, hc, hpc⟩ | ⟨_, _, h1, h2⟩
  · refine h.bytes p (Nat.le_trans (v.fat_end_le c) hpc.1) hslot ?_
    intro a ha hpa
    have hac : a ≠ c := by
      rintro rfl
      rcases h.taken a ha with hal | hfree
      · exact hwf.disjoint _ _ _ _ _ _ ho hown hne hlo hl a hc hal
      · exact hlo.used hc hfree
    have hap := clusters_apart (hl' a ha) (hlo.range c hc) hac
    exact hap.outside hpa hpc
  · refine h.bytes p h1 hslot ?_
    intro a _ hpa
    have hend := v.fixed_root_end a
    have := hpa.1
    omega

theorem unsplit_of_fat_type (h : v.fat_type ≠ .Fat12) : v.Unsplit := fun _ _ h0 => h h0.1

end Volume

namespace FatFile

open Volume

variable {f f' : FatFile} {l l' dl up : List Nat} {pos offset size i : Nat} {buf : List UInt8}
  {d : FatDirectory}

theorem Wrote.confined (hw : Wrote f f' l l' pos offset buf) :
    Confined f.volume f'.volume l l' pos where
  same := hw.grows.same
  taken := by
    intro c hc
    rw [hw.grows.new, List.mem_append] at hc
    exact hc.imp_right fun hc => (mem_free.mp (List.mem_of_mem_take hc)).2
  longer := fun c hc => hw.grows.keeps_front.subset hc
  entries := fun c hc hcl => hw.grows.others c hc.2 hcl
  bytes := by
    intro p hp hslot hcl
    refine hw.grows.bytes p (Or.inr hp) ?_
    rintro (hin | hin)
    · have hne : buf ≠ [] := by
        rintro rfl
        obtain ⟨q, h1, h2, _⟩ := hin
        simp at h2
        omega
      obtain ⟨c, hc, hpc⟩ := hin.inCluster (hw.room hne)
      exact hcl c hc hpc
    · exact hslot hin

/-- The handle that `lookup` gives for the file in slot `i` of the directory. -/
structure Opened (f : FatFile) (up : List Nat) (d : FatDirectory) (dl : List Nat) (i : Nat) :
    Prop where
  dir : Dir f.volume up d
  clusters : f.volume.DirAt d dl
  live : f.volume.Live d dl i f.entry
  slot : f.slot = d.slot i
  file : f.entry.is_directory = false

theorem Opened.owner (h : f.Opened up d dl i) : Owner f.volume (some f.slot) f.entry.first_cluster := by
  rw [h.slot]
  refine Owner.entry h.dir h.clusters h.live ?_
  rintro ⟨hdir, _⟩
  rw [h.file] at hdir
  cases hdir

/-- The chain of the file is apart from that of its directory. -/
theorem Opened.placed (h : f.Opened up d dl i) (hwf : f.volume.Sound) (hu : f.volume.Unsplit) :
    ∃ l, f.Placed l dl (f.volume.slot_pos d dl i) := by
  obtain ⟨l, hl⟩ := hwf.chain _ _ h.owner
  refine ⟨l, hwf.layout, hu, hl, ?_, ?_⟩
  · rw [h.slot]
    exact h.clusters.slotIn h.live.lt
  obtain ⟨o, ho⟩ := h.dir.owner
  have hne : o ≠ some f.slot := by
    rintro rfl
    rw [h.slot] at ho
    have hdir := ho.not_file h.clusters h.live
    rw [h.file] at hdir
    cases hdir
  intro c hc hmem
  exact hwf.dir_disjoint h.clusters ho h.owner hne hl c hmem hc

/-- Positions that are not written keep their bytes, in the clusters that were
there and in those that are new. -/
theorem Wrote.kept (h : f.Placed l dl pos) (hw : Wrote f f' l l' pos offset buf) {q : Nat}
    (hq : q < l'.length * f.volume.cluster_size) (hout : ¬ (offset ≤ q ∧ q < offset + buf.length)) :
    f'.volume.bytes (f.volume.pos l' q) = f.volume.bytes (f.volume.pos l' q) := by
  have hs := hw.grows.same
  have hplaced := h.grown hw.toExtends
  have hq' : q < l'.length * f'.volume.cluster_size := by
    rw [hs.cluster_size]
    exact hq
  refine hw.grows.bytes _ (Or.inr (f.volume.fat_end_le_pos _ _)) ?_
  rintro (⟨r, h1, h2, heq⟩ | hslot)
  · have hroom := hw.room (List.ne_nil_of_length_pos (by omega))
    rw [← hs.pos, ← hs.pos] at heq
    have hqr := hplaced.chain.pos_inj hq' (by rw [hs.cluster_size]; omega) heq
    omega
  · rw [← hs.pos] at hslot
    exact hplaced.slot.not_pos hplaced.chain hplaced.apart hq' hslot

/-! ## Files without gaps -/

/-- The file holds the bytes `bs`. -/
structure Shows (f : FatFile) (l : List Nat) (bs : List UInt8) : Prop where
  size : f.entry.file_size.toNat = bs.length
  room : bs.length ≤ l.length * f.volume.cluster_size
  bytes : ∀ q < bs.length, f.volume.bytes (f.volume.pos l q) = bs.getD q 0

variable {bs : List UInt8} {l0 : List Nat}

theorem Shows.write (h : f.Placed l dl pos) (hs : Shows f l bs) (hoff : offset ≤ bs.length)
    (hend : offset + buf.length < UInt32.size) (hw : Wrote f f' l l' pos offset buf)
    (hsize : f'.entry.file_size = if f.Passes offset buf then UInt32.ofNat (offset + buf.length)
      else f.entry.file_size) : Shows f' l' (overwrite bs offset buf) := by
  have hlen : (overwrite bs offset buf).length = max bs.length (offset + buf.length) :=
    length_overwrite_max hoff
  have hroom : max bs.length (offset + buf.length) ≤ l'.length * f.volume.cluster_size := by
    have h1 := Nat.mul_le_mul_right f.volume.cluster_size hw.grows.length_le
    have h2 := hs.room
    by_cases hbuf : buf = []
    · subst hbuf
      rw [List.length_nil]
      omega
    · have h3 := hw.room hbuf
      omega
  refine ⟨?_, ?_, ?_⟩
  · rw [hlen, hsize, ← hs.size]
    exact toNat_size_after (by rw [hs.size]; exact hoff) hend
  · rw [hlen, hw.grows.same.cluster_size]
    exact hroom
  intro q hq
  rw [hw.grows.same.pos, getD_overwrite hoff]
  by_cases hin : offset ≤ q ∧ q < offset + buf.length
  · rw [if_pos hin]
    have hdata := hw.data (q - offset) (by omega)
    rw [show offset + (q - offset) = q by omega] at hdata
    exact hdata
  · rw [if_neg hin, hw.kept h (by omega) hin]
    have hlt : q < bs.length := by omega
    have hroom0 := hs.room
    rw [f.volume.pos_front hw.grows.keeps_front (by omega)]
    exact hs.bytes q hlt

/-- `truncate` on a list: the first bytes, and zeros behind them. -/
def truncated (bs : List UInt8) (size : Nat) : List UInt8 :=
  bs.take size ++ List.replicate (size - bs.length) 0

theorem length_truncated (bs : List UInt8) (size : Nat) : (truncated bs size).length = size := by
  unfold truncated
  rw [List.length_append, List.length_take, List.length_replicate]
  omega

theorem Shows.truncate (hs : Shows f l bs) (hsize : size < UInt32.size) {data : List UInt8}
    (hdata : ∃ n, n = min size f.entry.file_size.toNat ∧
      data = f.volume.content l 0 n ++ List.replicate (size - n) 0)
    (hw : Wrote f f' l l' pos 0 data) (hfile : f'.entry.file_size = UInt32.ofNat size) :
    Shows f' l' (truncated bs size) := by
  have hlen := length_truncated bs size
  have heq : data = truncated bs size := by
    obtain ⟨n, hn, hdata⟩ := hdata
    have hcontent := slice_of_getD hs.bytes 0 size
    rw [hs.size] at hn
    rw [hdata, hn]
    congr 2
    omega
  rw [heq] at hw
  refine ⟨?_, ?_, ?_⟩
  · rw [hfile, UInt32.toNat_ofNat_of_lt' hsize, hlen]
  · rw [hw.grows.same.cluster_size]
    by_cases hnil : truncated bs size = []
    · rw [hnil]
      exact Nat.zero_le _
    · have := hw.room hnil
      omega
  · intro q hq
    have hq' := hw.data q hq
    rw [Nat.zero_add] at hq'
    rw [hw.grows.same.pos]
    exact hq'

/-- A call on the file that came back, and what it does to the list of bytes. -/
inductive Gapless : FatFile × List UInt8 → FatFile × List UInt8 → Prop
  | write {f f' : FatFile} {bs buf : List UInt8} {offset n : Nat} :
      offset ≤ f.entry.file_size.toNat → offset + buf.length < UInt32.size →
      write offset buf f = .ok n f' → Gapless (f, bs) (f', overwrite bs offset buf)
  | truncate {f f' : FatFile} {bs : List UInt8} {size : Nat} :
      size < UInt32.size → truncate size f = .ok () f' → Gapless (f, bs) (f', truncated bs size)

/-- What holds all along a run of such calls. -/
structure Follows (f0 f : FatFile) (l0 dl : List Nat) (pos : Nat) (bs : List UInt8) (l : List Nat) :
    Prop where
  placed : f.Placed l dl pos
  shows : Shows f l bs
  confined : Confined f0.volume f.volume l0 l pos

theorem Follows.step {f0 f f' : FatFile} {bs' : List UInt8} (h : Follows f0 f l0 dl pos bs l)
    (hstep : Gapless (f, bs) (f', bs')) : ∃ l', Follows f0 f' l0 dl pos bs' l' := by
  have hnext : ∀ {l' offset data}, Wrote f f' l l' pos offset data → Shows f' l' bs' →
      ∃ l', Follows f0 f' l0 dl pos bs' l' := by
    intro l' offset data hw hshows
    have hplaced := h.placed.grown hw.toExtends
    have hs := h.confined.same.trans hw.grows.same
    refine ⟨l', hplaced, hshows, h.confined.trans hw.confined ?_⟩
    intro c hc
    exact (hs.inRange c).mp (hplaced.chain.range c hc)
  cases hstep with
  | write hoff hend hrun =>
    obtain ⟨_, l', hw, hsize, _⟩ := (ends_write h.placed _ _).of_ok hrun
    rw [h.shows.size] at hoff
    exact hnext hw (h.shows.write h.placed hoff hend hw hsize)
  | truncate hlt hrun =>
    obtain ⟨l', data, _, hw, hsize, _, hdata⟩ := (ends_truncate h.placed _).of_ok hrun
    have hroom : f.entry.file_size.toNat ≤ l.length * f.volume.cluster_size := by
      rw [h.shows.size]
      exact h.shows.room
    exact hnext hw (h.shows.truncate hlt (hdata hroom) hw hsize)

theorem Follows.run {f0 : FatFile} {x y : FatFile × List UInt8} (h : Follows f0 x.1 l0 dl pos x.2 l)
    (hrun : Relation.ReflTransGen Gapless x y) : ∃ l', Follows f0 y.1 l0 dl pos y.2 l' := by
  induction hrun with
  | refl => exact ⟨l, h⟩
  | tail _ hstep ih =>
    obtain ⟨l1, h1⟩ := ih
    exact h1.step hstep

/-- Writes that leave no gap and truncations, on a file that starts empty: its size is
the number of the bytes, a read gives those bytes, and no other file or directory changes. -/
theorem a_gapless_file_is_an_array {f f' : FatFile} {bs : List UInt8}
    (hwf : f.volume.Sound) (hopen : f.Opened up d dl i) (hfat : f.volume.fat_type ≠ .Fat12)
    (hempty : f.entry.file_size = 0) (hrun : Relation.ReflTransGen Gapless (f, []) (f', bs)) :
    f'.entry.file_size.toNat = bs.length ∧
    (¬ f.volume.Faulty → ∀ offset len, ∃ bytes f'', read offset len f' = .ok bytes f'' ∧
      bytes.length = min len (f'.entry.file_size.toNat - offset) ∧
      bytes = (bs.drop offset).take len) ∧
    ∀ o p, o ≠ some f.slot → f.volume.Belongs o p → ¬ InSlot (f.volume.slot_pos d dl i) p →
      f'.volume.bytes p = f.volume.bytes p := by
  obtain ⟨l, hplaced⟩ := hopen.placed hwf (unsplit_of_fat_type hfat)
  have hstart : Shows f l [] := by
    refine ⟨?_, Nat.zero_le _, fun q hq => absurd hq (Nat.not_lt_zero q)⟩
    rw [hempty]
    rfl
  obtain ⟨l', h⟩ := Follows.run (x := (f, [])) ⟨hplaced, hstart, Confined.refl _ _ _⟩ hrun
  have hs := h.confined.same
  have hsize := h.shows.size
  refine ⟨hsize, ?_, ?_⟩
  · intro hok offset len
    have hroom : f'.entry.file_size.toNat ≤ l'.length * f'.volume.cluster_size := by
      rw [hsize]
      exact h.shows.room
    have hfault : ¬ f'.volume.Faulty := by
      unfold Volume.Faulty
      rw [hs.faulty]
      exact hok
    have hread := ends_read h.placed.layout h.placed.chain hroom offset len
    obtain ⟨bytes, f'', heq, _, _, _, hbytes⟩ :=
      (hread.mono_error (fun _ _ h0 => hfault h0)).returns
    refine ⟨bytes, f'', heq, ?_, ?_⟩
    · rw [hbytes, length_content]
    · rw [hbytes, hsize]
      exact slice_of_getD h.shows.bytes offset len
  · intro o p hne hp hslot
    have hrange : ∀ c ∈ l', f.volume.InRange c :=
      fun c hc => (hs.inRange c).mp (h.placed.chain.range c hc)
    exact h.confined.others hwf hopen.owner hplaced.chain hrange hne hp hslot

/-! ### A volume of FAT16 with one empty file -/

def fat16Bpb : BiosParameterBlock where
  bytes_per_sector := 512
  sectors_per_cluster := 1
  reserved_sector_count := 1
  num_fats := 1
  root_entry_count := 16
  total_sectors_16 := 4103
  fat_size_16 := 16
  total_sectors_32 := 0
  fat_size_32 := 0
  root_cluster := 0

/-- The file `A`. -/
def emptyEntry : FatDirEntry where
  name := fun i => if i.val = 0 then 0x41 else 0x20
  attr := FatDirEntry.ATTR_ARCHIVE
  nt_reserved := 0
  create_time_tenth := 0
  create_time := 0
  create_date := 0
  last_access_date := 0
  first_cluster_high := 0
  write_time := 0
  write_date := 0
  first_cluster_low := 0
  file_size := 0

/-- The root directory starts at 8704 and the clusters at 9216, with the byte `old`. -/
def oneFileBytes (old : UInt8) : Nat → UInt8 :=
  splice (splice (fun _ => 0) 9216 [old]) 8704 emptyEntry.serialize

def oneFile (old : UInt8) : FatFile where
  entry := emptyEntry
  cursor := 0
  slot := ⟨0, 0, true⟩
  inner := {
    device := ⟨oneFileBytes old, 0, 0, fun _ => false, 512⟩
    bpb := fat16Bpb
    partition_offset := 0
    dev_id := none
    clock := fun _ => 0
    readings := 0
    valid := rfl }

theorem fat16Bpb_total_clusters : fat16Bpb.total_clusters = 4085 := by decide

theorem fat16Bpb_fat_type : fat16Bpb.fat_type = .Fat16 := by decide

variable (old : UInt8)

theorem oneFile_fixed_root : (oneFile old).volume.fixed_root true = true := by
  change (true && fat16Bpb.fat_type != .Fat32) = true
  decide

theorem oneFile_slot_pos (i : Nat) :
    (oneFile old).volume.slot_pos (oneFile old).volume.root [] i = 8704 + i * 32 := by
  have hend : (oneFile old).volume.fat_end = 8704 := by
    change (fat16Bpb.first_fat_sector + fat16Bpb.num_fats.toNat * fat16Bpb.fat_size) *
      fat16Bpb.bytes_per_sector.toNat + 0 = 8704
    decide
  rw [slot_pos_root (oneFile_fixed_root old), hend]
  rfl

theorem oneFile_live {i : Nat} {e : FatDirEntry} :
    (oneFile old).volume.Live (oneFile old).volume.root [] i e ↔ i = 0 ∧ e = emptyEntry := by
  have hchunk : (oneFile old).volume.chunk (oneFile old).volume.root [] 0 = emptyEntry.serialize := by
    unfold chunk
    rw [oneFile_slot_pos]
    exact slice_splice _ _ _
  have hparse : FatDirEntry.parse emptyEntry.serialize = some emptyEntry :=
    FatDirEntry.parse_serialize _ (by decide) (by decide)
  constructor
  · intro h
    have hi : i = 0 := by
      by_contra hne
      refine h.mark_ne (j := 1) (by omega) ?_
      unfold mark
      rw [oneFile_slot_pos]
      change splice (splice (fun _ => 0) 9216 [old]) 8704 emptyEntry.serialize 8736 = 0
      rw [splice_outside _ (by simp [FatDirEntry.SIZE]), splice_outside _ (by simp)]
    subst hi
    have hp := h.parsed
    rw [hchunk, hparse] at hp
    exact ⟨rfl, (Option.some.inj hp).symm⟩
  · rintro ⟨rfl, rfl⟩
    have hcount : 0 < (oneFile old).volume.slot_count (oneFile old).volume.root [] := by
      rw [slot_count_root (oneFile_fixed_root old)]
      change 0 < fat16Bpb.root_entry_count.toNat
      decide
    refine ⟨⟨hcount, ?_, by decide, by decide⟩, fun j hj => absurd hj (Nat.not_lt_zero j)⟩
    rw [hchunk]
    exact hparse

theorem oneFile_entry {c : Nat} (hc : (oneFile old).volume.InRange c) :
    (oneFile old).volume.entry c = 0 := by
  have hlt : c < fat16Bpb.total_clusters + 2 := hc.2
  rw [fat16Bpb_total_clusters] at hlt
  have hzero : ∀ p < 8704, (oneFile old).volume.bytes p = 0 := by
    intro p hp
    change splice (splice (fun _ => 0) 9216 [old]) 8704 emptyEntry.serialize p = 0
    rw [splice_outside _ (by omega), splice_outside _ (by omega)]
  have hpos : (oneFile old).volume.entry_pos c = 512 + c * 2 := by
    have hstart : (oneFile old).volume.fat_start = 512 := by
      change fat16Bpb.first_fat_sector * fat16Bpb.bytes_per_sector.toNat + 0 = 512
      decide
    unfold entry_pos
    rw [show (oneFile old).volume.fat_type = .Fat16 from fat16Bpb_fat_type, hstart]
    rfl
  unfold Volume.entry
  rw [show (oneFile old).volume.fat_type = .Fat16 from fat16Bpb_fat_type]
  dsimp only
  rw [number_two, hzero _ (by omega), hzero _ (by omega)]
  rfl

theorem oneFile_wellFormed : (oneFile old).volume.WellFormed := by
  refine wellFormed_of_flat (oneFile_fixed_root old) ?_ ?_ ?_ ?_ ?_
  · intro i e h
    rw [((oneFile_live old).mp h).2]
    decide
  · refine ⟨?_, ?_, ?_⟩
    · intro c hc
      change c < fat16Bpb.total_clusters + 2 at hc
      rw [fat16Bpb_total_clusters] at hc
      rw [show (oneFile old).volume.fat_type = .Fat16 from fat16Bpb_fat_type]
      change c * 2 + 2 ≤ 16 * 512
      omega
    · change fat16Bpb.total_clusters < _
      decide
    · change fat16Bpb.total_sectors * 512 + 0 < UInt64.size
      decide
  · intro i e h
    rw [((oneFile_live old).mp h).2]
    exact ⟨[], isChain_zero _⟩
  · intro i e l i' e' l' h h' hne
    exact absurd (((oneFile_live old).mp h).1.trans ((oneFile_live old).mp h').1.symm) hne
  · intro c hc hne
    exact absurd (oneFile_entry old hc) hne

theorem oneFile_opened : (oneFile old).Opened [] (oneFile old).volume.root [] 0 where
  dir := Dir.root
  clusters := dirAt_root (oneFile_fixed_root old)
  live := (oneFile_live old).mpr ⟨rfl, rfl⟩
  slot := by
    unfold Volume.root FatDirectory.slot
    rw [show (oneFile old).volume.fat_type = .Fat16 from fat16Bpb_fat_type]
    rfl
  file := by
    change emptyEntry.is_directory = false
    decide

/-- Three bytes are written, one of them again, and read. -/
theorem three_bytes_read_back : ∃ f', Relation.ReflTransGen Gapless (oneFile 0, []) (f', [1, 7, 3]) ∧
    ∃ f'', read 1 5 f' = .ok [7, 3] f'' := by
  obtain ⟨_, f1, h1, hsize⟩ := exists_of_passes 
    (show passes (FatFile.write 0 [1, 2, 3] (oneFile 0)) (fun _ f => f.entry.file_size == 3 &&
      passes (FatFile.write 1 [7] f) (fun _ _ => true)) = true by decide +kernel)
  rw [Bool.and_eq_true] at hsize
  obtain ⟨_, f2, h2, _⟩ := exists_of_passes hsize.2
  have hrun : Relation.ReflTransGen Gapless (oneFile 0, []) (f2, [1, 7, 3]) := by
    refine (Relation.ReflTransGen.single (Gapless.write (Nat.zero_le _) (by decide) h1)).tail ?_
    refine Gapless.write ?_ (by decide) h2
    rw [beq_iff_eq.mp hsize.1]
    decide
  obtain ⟨_, hread, _⟩ := a_gapless_file_is_an_array (oneFile_wellFormed 0).toSound
    (oneFile_opened 0) (by rw [show (oneFile 0).volume.fat_type = .Fat16 from fat16Bpb_fat_type]; decide)
    rfl hrun
  obtain ⟨bytes, f'', heq, _, rfl⟩ := hread (fun ⟨k, hk⟩ => by cases hk) 1 5
  exact ⟨f2, hrun, f'', heq⟩

end FatFile

end zenos_kernel.disk.fs.fat
