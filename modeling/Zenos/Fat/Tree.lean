-- The directories and files of a volume as they can be read off the disk, and
-- when the volume is well-formed: every cluster that is in use belongs to the
-- chain of one of them.
import Zenos.Fat.Handle
import Zenos.Fat.Directory

namespace zenos_kernel.disk.fs.fat

open Bytes FatDirEntry

namespace Volume

variable {v v' : Volume} {d d' : FatDirectory} {dl dl' l l' up : List Nat}
  {i j c first : Nat} {e : FatDirEntry} {o o' : Option Slot}

/-! ## Directories -/

variable (v)

/-- The directory that `root_dir` gives. -/
def root : FatDirectory where
  cluster := if v.fat_type = .Fat32 then v.bpb.root_cluster.toNat else 0
  is_root := true

variable (d)

variable (dl)

/-- The directory has the clusters `dl`. The root of FAT12 and FAT16 has none. -/
def DirAt : Prop :=
  if v.fixed_root d.is_root = true then dl = [] else v.IsChain d.cluster dl ∧ dl ≠ []

def slot_count : Nat :=
  if v.fixed_root d.is_root = true then v.bpb.root_entry_count.toNat
  else dl.length * v.entries_per_cluster

/-- Where a slot starts. -/
def slot_pos (i : Nat) : Nat :=
  if v.fixed_root d.is_root = true then v.fat_end + i * FatDirEntry.SIZE
  else v.pos dl (i * FatDirEntry.SIZE)

/-- The first byte of a slot tells the end of the directory and deleted entries. -/
def mark (i : Nat) : UInt8 :=
  v.bytes (v.slot_pos d dl i)

def chunk (i : Nat) : List UInt8 :=
  slice v.bytes (v.slot_pos d dl i) FatDirEntry.SIZE

variable {dl}

variable {d}

variable {v}

/-- The slot holds an entry that is not part of a long name or the name of the volume. -/
structure Holds (v : Volume) (d : FatDirectory) (dl : List Nat) (i : Nat) (e : FatDirEntry) :
    Prop where
  lt : i < v.slot_count d dl
  parsed : FatDirEntry.parse (v.chunk d dl i) = some e
  short : e.is_long_name = false
  not_label : e.is_volume_id = false

/-- The slot holds an entry, and the directory does not end before it. -/
structure Live (v : Volume) (d : FatDirectory) (dl : List Nat) (i : Nat) (e : FatDirEntry) :
    Prop extends Holds v d dl i e where
  before : ∀ j < i, v.mark d dl j ≠ 0x00

/-- The name of one dot or of two. -/
def dot_name (n : Nat) : Fin 11 → UInt8 := fun i => if i.val < n then 0x2E else 0x20

/-- An entry that leads back: to the directory itself, to one above it, or to the
root, which is written as 0. -/
def Alias (up : List Nat) (e : FatDirEntry) : Prop :=
  e.is_directory = true ∧ (e.name = dot_name 1 ∨ e.name = dot_name 2) ∧
    (e.first_cluster = 0 ∨ e.first_cluster ∈ up)

/-- The directories of the volume. `up` has the clusters of the way from the root. -/
inductive Dir (v : Volume) : List Nat → FatDirectory → Prop
  | root : Dir v [] v.root
  | sub {up : List Nat} {d : FatDirectory} {dl : List Nat} {i : Nat} {e : FatDirEntry} :
      Dir v up d → v.DirAt d dl → v.Live d dl i e → e.is_directory = true → ¬ Alias up e →
      Dir v (e.first_cluster :: up) ⟨e.first_cluster, false⟩

/-- What has a chain of its own, with its first cluster: the root, and the entry in a slot. -/
inductive Owner (v : Volume) : Option Slot → Nat → Prop
  | root : Owner v none v.root.cluster
  | entry {up : List Nat} {d : FatDirectory} {dl : List Nat} {i : Nat} {e : FatDirEntry} :
      Dir v up d → v.DirAt d dl → v.Live d dl i e → ¬ Alias up e →
      Owner v (some (d.slot i)) e.first_cluster

/-- The mark of a cluster that is not to be used. -/
def bad_cluster (fat_type : FatType) : Nat :=
  match fat_type with
  | .Fat12 => 0x0FF7
  | .Fat16 => 0xFFF7
  | .Fat32 => 0x0FFFFFF7

/-- The chains of the tree are there, and they do not meet. -/
structure Sound (v : Volume) : Prop where
  layout : v.Layout
  chain : ∀ o first, Owner v o first → ∃ l, v.IsChain first l
  dir : ∀ up d, Dir v up d → ∃ dl, v.DirAt d dl
  disjoint : ∀ o first l o' first' l', Owner v o first → Owner v o' first' → o ≠ o' →
    v.IsChain first l → v.IsChain first' l' → ∀ c ∈ l, c ∉ l'

/-- Besides, no other cluster is in use. -/
structure WellFormed (v : Volume) : Prop extends Sound v where
  used : ∀ c, v.InRange c → v.entry c ≠ 0 → v.entry c ≠ bad_cluster v.fat_type →
    ∃ o first l, Owner v o first ∧ v.IsChain first l ∧ c ∈ l

/-- A byte of the cluster. -/
def InCluster (v : Volume) (c p : Nat) : Prop :=
  v.cluster_pos c ≤ p ∧ p < v.cluster_pos c + v.cluster_size

theorem Same.inCluster (h : Same v v') (c p : Nat) : v'.InCluster c p ↔ v.InCluster c p := by
  rw [h.eq]
  rfl

/-- A byte that belongs to a directory or to the file of an entry. -/
def Belongs (v : Volume) (o : Option Slot) (p : Nat) : Prop :=
  (∃ first l, Owner v o first ∧ v.IsChain first l ∧ ∃ c ∈ l, v.InCluster c p) ∨
    (o = none ∧ v.fixed_root true = true ∧ v.fat_end ≤ p ∧
      p < v.fat_end + v.bpb.root_entry_count.toNat * FatDirEntry.SIZE)

/-! ## Slots -/

theorem IsChain.unique (h : v.IsChain first l) (h' : v.IsChain first l') : l = l' :=
  h.links.unique h'.links

theorem DirAt.unique (h : v.DirAt d dl) (h' : v.DirAt d dl') : dl = dl' := by
  unfold DirAt at h h'
  split at h
  · rw [if_pos ‹_›] at h'
    rw [h, h']
  · rw [if_neg ‹_›] at h'
    exact h.1.unique h'.1

/-- The chain of a directory: the fixed root has none. -/
theorem DirAt.fixed_or (h : v.DirAt d dl) :
    (v.fixed_root d.is_root = true ∧ dl = []) ∨
      (v.fixed_root d.is_root ≠ true ∧ v.IsChain d.cluster dl ∧ dl ≠ []) := by
  unfold DirAt at h
  split at h
  · exact Or.inl ⟨‹_›, h⟩
  · exact Or.inr ⟨‹_›, h⟩

theorem DirAt.range (h : v.DirAt d dl) (hc : c ∈ dl) : v.InRange c := by
  rcases h.fixed_or with ⟨_, rfl⟩ | ⟨_, hch, _⟩
  · cases hc
  · exact hch.range c hc

theorem DirAt.used (h : v.DirAt d dl) (hc : c ∈ dl) : v.entry c ≠ 0 := by
  rcases h.fixed_or with ⟨_, rfl⟩ | ⟨_, hch, _⟩
  · cases hc
  · exact hch.used hc

theorem slot_mul (v : Volume) (i : Nat) : i * SIZE =
    i / v.entries_per_cluster * v.cluster_size + i % v.entries_per_cluster * SIZE := by
  have hdiv := Nat.div_add_mod i v.entries_per_cluster
  have hmul := v.entries_mul
  calc i * SIZE
      = (v.entries_per_cluster * (i / v.entries_per_cluster) + i % v.entries_per_cluster) *
          SIZE := by rw [hdiv]
    _ = i / v.entries_per_cluster * v.cluster_size +
          i % v.entries_per_cluster * SIZE := by
        rw [Nat.add_mul, Nat.mul_right_comm, hmul, Nat.mul_comm]

theorem DirAt.slotIn (h : v.DirAt d dl) (hi : i < v.slot_count d dl) :
    v.SlotIn (d.slot i) dl (v.slot_pos d dl i) := by
  unfold slot_pos
  unfold slot_count at hi
  change if v.fixed_root d.is_root = true then _ else _
  rcases h.fixed_or with ⟨hroot, rfl⟩ | ⟨hroot, hch, _⟩
  · rw [if_pos hroot] at hi
    rw [if_pos hroot, if_pos hroot]
    exact ⟨rfl, hi, rfl⟩
  rw [if_neg hroot] at hi
  rw [if_neg hroot, if_neg hroot]
  have hlt : i / v.entries_per_cluster < dl.length := by
    rw [Nat.div_lt_iff_lt_mul v.entries_pos]
    exact hi
  have hget := List.getElem?_eq_getElem hlt
  refine ⟨hch, _, hget, ?_⟩
  have hend := v.slot_end i
  have hsize : 0 < SIZE := by decide
  rw [slot_mul, v.pos_eq hget (by omega)]
  rfl

/-- The directory does not end at an entry or before it. -/
theorem Live.mark_ne (h : v.Live d dl i e) (hj : j ≤ i) : v.mark d dl j ≠ 0x00 := by
  rcases Nat.lt_or_eq_of_le hj with hlt | rfl
  · exact h.before j hlt
  · exact (not_mark_of_parse h.parsed).1

theorem slot_inj (h : d.slot i = d'.slot j) : d = d' ∧ i = j := by
  cases d
  obtain ⟨rfl, rfl, rfl⟩ := h
  exact ⟨rfl, rfl⟩

/-! ## Slots of another volume -/

theorem Same.fixed_root (h : Same v v') (in_root : Bool) :
    v'.fixed_root in_root = v.fixed_root in_root := by
  rw [h.eq]
  rfl

theorem Same.slot_count (h : Same v v') (d : FatDirectory) (dl : List Nat) :
    v'.slot_count d dl = v.slot_count d dl := by
  rw [h.eq]
  rfl

theorem Same.slot_pos (h : Same v v') (d : FatDirectory) (dl : List Nat) (i : Nat) :
    v'.slot_pos d dl i = v.slot_pos d dl i := by
  rw [h.eq]
  rfl

theorem DirAt.congr (h : v.DirAt d dl) (hs : Same v v')
    (heq : ∀ c ∈ dl, v'.entry c = v.entry c) : v'.DirAt d dl := by
  unfold DirAt
  rw [hs.fixed_root]
  rcases h.fixed_or with ⟨hroot, hnil⟩ | ⟨hroot, hch, hne⟩
  · rw [if_pos hroot]
    exact hnil
  · rw [if_neg hroot]
    exact ⟨hch.congr hs heq, hne⟩

/-- Slots that hold the same bytes up to this one. -/
theorem Live.congr (h : v.Live d dl i e) (hcount : i < v'.slot_count d dl')
    (hchunk : ∀ j ≤ i, v'.chunk d dl' j = v.chunk d dl j) : v'.Live d dl' i e where
  lt := hcount
  parsed := by
    rw [hchunk i (Nat.le_refl i)]
    exact h.parsed
  short := h.short
  not_label := h.not_label
  before := by
    intro j hj
    change (v'.chunk d dl' j).getD 0 0 ≠ 0
    rw [hchunk j (by omega)]
    exact h.before j hj

/-! ## Owners -/

/-- The owner of a directory. -/
inductive DirOwner (v : Volume) : Option Slot → FatDirectory → Prop
  | root : DirOwner v none v.root
  | entry {up : List Nat} {d : FatDirectory} {dl : List Nat} {i : Nat} {e : FatDirEntry} :
      Dir v up d → v.DirAt d dl → v.Live d dl i e → e.is_directory = true → ¬ Alias up e →
      DirOwner v (some (d.slot i)) ⟨e.first_cluster, false⟩

theorem Dir.owner (h : Dir v up d) : ∃ o, DirOwner v o d := by
  cases h with
  | root => exact ⟨none, DirOwner.root⟩
  | sub hd hdl hlive hdir hal => exact ⟨_, DirOwner.entry hd hdl hlive hdir hal⟩

theorem DirOwner.toOwner (h : DirOwner v o d) : Owner v o d.cluster := by
  cases h with
  | root => exact Owner.root
  | entry hd hdl hlive _ hal => exact Owner.entry hd hdl hlive hal

/-- A slot with a file does not own a directory. -/
theorem DirOwner.not_file (h : DirOwner v (some (d.slot i)) d') (hdl : v.DirAt d dl)
    (hlive : v.Live d dl i e) : e.is_directory = true := by
  generalize ho : some (d.slot i) = o at h
  cases h with
  | root => cases ho
  | entry _ hdl' hlive' hdir _ =>
    obtain ⟨rfl, rfl⟩ := slot_inj (Option.some.inj ho)
    have heq := hdl.unique hdl'
    subst heq
    rw [Option.some.inj (hlive.parsed.symm.trans hlive'.parsed)]
    exact hdir

theorem Sound.dir_disjoint (hwf : v.Sound) (hdl : v.DirAt d dl) (ho : DirOwner v o d)
    (ho' : Owner v o' first) (hne : o ≠ o') (hl : v.IsChain first l) : ∀ c ∈ dl, c ∉ l := by
  rcases hdl.fixed_or with ⟨_, rfl⟩ | ⟨_, hch, _⟩
  · intro c hc
    cases hc
  · exact hwf.disjoint o d.cluster dl o' first l ho.toOwner ho' hne hch hl

theorem isChain_zero (v : Volume) : v.IsChain 0 [] where
  links := rfl
  range := fun c hc => by cases hc

/-- Only the root lies outside of the clusters. -/
theorem Dir.eq_root (h : Dir v up d) (hroot : v.fixed_root d.is_root = true) : d = v.root := by
  cases h with
  | root => rfl
  | sub _ _ _ _ _ =>
    unfold fixed_root at hroot
    simp at hroot

theorem Dir.isChain (h : Dir v up d) (hdl : v.DirAt d dl) : v.IsChain d.cluster dl := by
  rcases hdl.fixed_or with ⟨hroot, rfl⟩ | ⟨_, hch, _⟩
  · have hzero : d.cluster = 0 := by
      rw [h.eq_root hroot]
      unfold Volume.root
      unfold fixed_root at hroot
      simp at hroot
      simp [hroot.2]
    rw [hzero]
    exact v.isChain_zero
  · exact hch

/-! ## Volumes without directories -/

section Flat

variable (hroot : v.fixed_root true = true)
  (hfiles : ∀ i e, v.Live v.root [] i e → e.is_directory = false)

include hroot

theorem dirAt_root : v.DirAt v.root [] := by
  unfold DirAt
  rw [if_pos (show v.fixed_root v.root.is_root = true from hroot)]

theorem slot_pos_root (i : Nat) : v.slot_pos v.root [] i = v.fat_end + i * SIZE := by
  unfold slot_pos
  rw [if_pos (show v.fixed_root v.root.is_root = true from hroot)]

theorem slot_count_root : v.slot_count v.root [] = v.bpb.root_entry_count.toNat := by
  unfold slot_count
  rw [if_pos (show v.fixed_root v.root.is_root = true from hroot)]

include hfiles

theorem flat_dir (h : Dir v up d) : up = [] ∧ d = v.root := by
  induction h with
  | root => exact ⟨rfl, rfl⟩
  | sub _ hdl hlive hdir _ ih =>
    obtain ⟨rfl, rfl⟩ := ih
    have heq := hdl.unique (dirAt_root hroot)
    subst heq
    rw [hfiles _ _ hlive] at hdir
    cases hdir

theorem flat_owner (h : Owner v o first) : (o = none ∧ first = v.root.cluster) ∨
    ∃ i e, v.Live v.root [] i e ∧ o = some (v.root.slot i) ∧ first = e.first_cluster := by
  cases h with
  | root => exact Or.inl ⟨rfl, rfl⟩
  | entry hd hdl hlive _ =>
    obtain ⟨_, rfl⟩ := flat_dir hroot hfiles hd
    have heq := hdl.unique (dirAt_root hroot)
    subst heq
    exact Or.inr ⟨_, _, hlive, rfl, rfl⟩

/-- On a volume that has only files, in the fixed root, the chains are those of the files. -/
theorem wellFormed_of_flat (hl : v.Layout)
    (hchain : ∀ i e, v.Live v.root [] i e → ∃ l, v.IsChain e.first_cluster l)
    (hdisj : ∀ i e l i' e' l', v.Live v.root [] i e → v.Live v.root [] i' e' → i ≠ i' →
      v.IsChain e.first_cluster l → v.IsChain e'.first_cluster l' → ∀ c ∈ l, c ∉ l')
    (hused : ∀ c, v.InRange c → v.entry c ≠ 0 → v.entry c ≠ bad_cluster v.fat_type →
      ∃ i e l, v.Live v.root [] i e ∧ v.IsChain e.first_cluster l ∧ c ∈ l) : v.WellFormed where
  layout := hl
  chain := by
    intro o first ho
    rcases flat_owner hroot hfiles ho with ⟨_, rfl⟩ | ⟨i, e, hlive, _, rfl⟩
    · exact ⟨[], Dir.root.isChain (dirAt_root hroot)⟩
    · exact hchain i e hlive
  dir := by
    intro up d hd
    obtain ⟨_, rfl⟩ := flat_dir hroot hfiles hd
    exact ⟨[], dirAt_root hroot⟩
  disjoint := by
    intro o first l o' first' l' ho ho' hne hch hch' c hc
    have hrootc := Dir.root.isChain (dirAt_root hroot)
    rcases flat_owner hroot hfiles ho with ⟨_, rfl⟩ | ⟨i, e, hlive, rfl, rfl⟩
    · rw [hch.unique hrootc] at hc
      cases hc
    · rcases flat_owner hroot hfiles ho' with ⟨_, rfl⟩ | ⟨i', e', hlive', rfl, rfl⟩
      · rw [hch'.unique hrootc]
        exact List.not_mem_nil
      · exact hdisj _ _ _ _ _ _ hlive hlive' (fun h0 => hne (by rw [h0])) hch hch' c hc
  used := by
    intro c hc hne hbad
    obtain ⟨i, e, l, hlive, hch, hmem⟩ := hused c hc hne hbad
    refine ⟨_, _, l, Owner.entry Dir.root (dirAt_root hroot) hlive ?_, hch, hmem⟩
    rintro ⟨hdir, _⟩
    rw [hfiles i e hlive] at hdir
    cases hdir

end Flat

end Volume

end zenos_kernel.disk.fs.fat
