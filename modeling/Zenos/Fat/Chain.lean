-- The cluster chains of a FAT volume: how a chain is read off the table, and
-- what the steps that follow or extend one do to the table.
import Zenos.Fat.File
import Zenos.Fat.Table
import Zenos.Lib.LinkedList

namespace zenos_kernel.disk.fs.fat

open Bytes Outcome FatTable

namespace Volume

/-! ## Volumes of one layout -/

/-- The volumes differ in their bytes only. -/
structure Same (v v' : Volume) : Prop where
  bpb : v'.bpb = v.bpb
  partition_offset : v'.partition_offset = v.partition_offset
  faulty : v'.faulty = v.faulty

namespace Same

variable {v v' v'' : Volume}

theorem refl (v : Volume) : Same v v := ⟨rfl, rfl, rfl⟩

variable (h : Same v v')

include h

theorem eq : v' = { v with bytes := v'.bytes } := by
  cases v
  cases v'
  cases h.bpb
  cases h.partition_offset
  cases h.faulty
  rfl

theorem trans (h' : Same v' v'') : Same v v'' :=
  ⟨h'.bpb.trans h.bpb, h'.partition_offset.trans h.partition_offset, h'.faulty.trans h.faulty⟩

theorem cluster_size : v'.cluster_size = v.cluster_size := by
  rw [h.eq]
  rfl

theorem fat_type : v'.fat_type = v.fat_type := by
  rw [h.eq]
  rfl

theorem cluster_pos (c : Nat) : v'.cluster_pos c = v.cluster_pos c := by
  rw [h.eq]
  rfl

theorem fat_start : v'.fat_start = v.fat_start := by
  rw [h.eq]
  rfl

theorem fat_end : v'.fat_end = v.fat_end := by
  rw [h.eq]
  rfl

theorem entry_pos (c : Nat) : v'.entry_pos c = v.entry_pos c := by
  rw [h.eq]
  rfl

theorem inRange (c : Nat) : v'.InRange c ↔ v.InRange c := by
  rw [h.eq]
  rfl

theorem straddles (c : Nat) : v'.Straddles c ↔ v.Straddles c := by
  rw [h.eq]
  rfl

theorem layout (hl : v.Layout) : v'.Layout := by
  rw [h.eq]
  exact ⟨hl.room, hl.count, hl.fits⟩

end Same

theorem same_put (v : Volume) (c x : Nat) : Same v (v.put c x) := ⟨rfl, rfl, rfl⟩

theorem same_write (v : Volume) (off : Nat) (buf : List UInt8) : Same v (v.write off buf) :=
  ⟨rfl, rfl, rfl⟩

variable {v v' : Volume} {c d first off i : Nat} {l : List Nat} {buf : List UInt8}

/-- No entry spans two sectors. So it is on FAT16 and FAT32. -/
def Unsplit (v : Volume) : Prop := ∀ c, v.InRange c → ¬ v.Straddles c

theorem Same.unsplit (h : Same v v') (hu : v.Unsplit) : v'.Unsplit := by
  intro c hc
  rw [h.straddles]
  exact hu c ((h.inRange c).mp hc)

/-- Bytes outside of the table do not matter for its entries. -/
theorem Same.entry_eq (h : Same v v') (hl : v.Layout) (hc : c < v.bpb.total_clusters + 2)
    (hbytes : ∀ p, v.fat_start ≤ p → p < v.fat_end → v'.bytes p = v.bytes p) :
    v'.entry c = v.entry c := by
  have hend := (hl.inFat hc).entry_end
  have hstart : v.fat_start ≤ v.entry_pos c := Nat.le_add_right _ _
  have hcopy : v.fat_start + v.bpb.fat_size * v.bps ≤ v.fat_end := by
    have hle := v.sector_pos_mono (Nat.add_le_add_left
      (Nat.le_mul_of_pos_left v.bpb.fat_size v.num_fats_pos) v.bpb.first_fat_sector)
    rw [sector_pos_add] at hle
    exact hle
  have hnum : v'.number (v.entry_pos c) (entry_width v.fat_type) =
      v.number (v.entry_pos c) (entry_width v.fat_type) :=
    number_congr v' v (fun p h1 h2 => hbytes p (by omega) (by omega))
  exact entry_congr h.fat_type (h.entry_pos c) hnum

theorem Layout.entry_write (hl : v.Layout) (hoff : v.fat_end ≤ off)
    (hc : c < v.bpb.total_clusters + 2) : (v.write off buf).entry c = v.entry c := by
  apply (v.same_write off buf).entry_eq hl hc
  intro p _ hp
  exact splice_outside _ (by omega)

/-! ## Chains -/

/-- The cluster that the entry leads to. -/
def link (v : Volume) (c : Nat) : Option Nat :=
  if is_eoc v.fat_type (v.entry c) then none else some (v.entry c)

/-- The first cluster of a directory entry. Below 2 there is none. -/
def head (first : Nat) : Option Nat := if first < 2 then none else some first

/-- From the first cluster on, the table runs through the clusters `l`. -/
structure IsChain (v : Volume) (first : Nat) (l : List Nat) : Prop where
  links : LinkedList.Chain v.link (head first) l
  range : ∀ c ∈ l, v.InRange c

section

variable (h : v.IsChain first l)

include h

theorem IsChain.congr (hs : Same v v') (heq : ∀ c ∈ l, v'.entry c = v.entry c) :
    v'.IsChain first l where
  links := by
    apply h.links.congr
    intro c hc
    unfold link
    rw [hs.fat_type, heq c hc]
  range := fun c hc => (hs.inRange c).mpr (h.range c hc)

/-- The clusters of a chain are in use. -/
theorem IsChain.used (hc : c ∈ l) : v.entry c ≠ 0 := by
  obtain ⟨i, hi, rfl⟩ := List.getElem_of_mem hc
  have hnext := h.links.next_eq (List.getElem?_eq_getElem hi)
  intro h0
  unfold link at hnext
  rw [h0, is_eoc_zero] at hnext
  have hmem := h.range 0 (List.mem_of_getElem? hnext.symm)
  exact absurd hmem.1 (by decide)

theorem IsChain.eq_nil_iff : l = [] ↔ first < 2 := by
  have hlinks := h.links
  unfold head at hlinks
  constructor
  · rintro rfl
    by_contra hge
    rw [if_neg hge] at hlinks
    cases hlinks
  · intro hlt
    rw [if_pos hlt] at hlinks
    cases l with
    | nil => rfl
    | cons c l => cases hlinks.1

theorem IsChain.getElem_zero (hpos : 0 < l.length) : l[0]? = some first := by
  have hge : ¬ first < 2 := by
    rw [← h.eq_nil_iff]
    exact List.ne_nil_of_length_pos hpos
  have hlinks := h.links
  unfold head at hlinks
  rw [if_neg hge] at hlinks
  cases l with
  | nil => cases hpos
  | cons c l => exact hlinks.1.symm

theorem IsChain.entry_last (hi : l[i]? = some c) :
    is_eoc v.fat_type (v.entry c) = true ↔ i + 1 = l.length := by
  have hlt : i < l.length := (List.getElem?_eq_some_iff.mp hi).1
  have hnext := h.links.next_eq hi
  unfold link at hnext
  split at hnext
  · rename_i heoc
    have hnone : l.length ≤ i + 1 := List.getElem?_eq_none_iff.mp hnext.symm
    exact ⟨fun _ => by omega, fun _ => heoc⟩
  · rename_i heoc
    have hsome : i + 1 < l.length := (List.getElem?_eq_some_iff.mp hnext.symm).1
    exact ⟨fun h0 => absurd h0 heoc, fun h0 => by omega⟩

theorem IsChain.entry_next (hi : l[i]? = some c) (hlt : i + 1 < l.length) :
    l[i + 1]? = some (v.entry c) := by
  have hnext := h.links.next_eq hi
  have heoc : is_eoc v.fat_type (v.entry c) = false := by
    rw [← Bool.not_eq_true, h.entry_last hi]
    omega
  unfold link at hnext
  rw [heoc] at hnext
  exact hnext.symm

end

/-- The volume when a free cluster was chained to the last one. -/
def chained (v : Volume) (last new : Nat) : Volume := (v.put new (eoc v.fat_type)).put last new

theorem same_chained (v : Volume) (last new : Nat) : Same v (v.chained last new) :=
  (v.same_put _ _).trans (Volume.same_put _ _ _)

theorem not_mem_free (h : v.IsChain first l) (hc : c ∈ v.free) : c ∉ l :=
  fun hmem => h.used hmem (mem_free.mp hc).2

section Extend

variable {new : Nat} {rest : List Nat}

/-- A chain gets a cluster from the front of the free ones. -/
theorem Layout.entry_chained (hl : v.Layout) (hu : v.Unsplit) (hc : v.InRange c)
    (hnew : v.InRange new) (hne : c ≠ new) (hd : d < v.bpb.total_clusters + 2) :
    (v.chained c new).entry d =
      if d = c then new else if d = new then eoc v.fat_type else v.entry d := by
  have hs := v.same_put new (eoc v.fat_type)
  have hl1 := hs.layout hl
  have hu1 := hs.unsplit hu
  unfold chained
  by_cases h1 : d = c
  · subst h1
    rw [if_pos rfl]
    exact hl1.entry_put hd (hu1 d hc) (hl1.number hnew).1
  · rw [if_neg h1, (hl1.inFat hc.2).entry_put_ne (hl1.inFat hd) (hu1 c hc) h1]
    by_cases h2 : d = new
    · subst h2
      rw [if_pos rfl]
      exact hl.entry_put hd (hu d hnew) v.fits_eoc
    · rw [if_neg h2]
      exact (hl.inFat hnew.2).entry_put_ne (hl.inFat hd) (hu new hnew) h2

theorem IsChain.extend (h : v.IsChain first l) (hl : v.Layout) (hu : v.Unsplit)
    (hfree : new ∈ v.free) (hlast : l.getLast? = some c) :
    (v.chained c new).IsChain first (l ++ [new]) := by
  obtain ⟨pre, rfl⟩ := List.getLast?_eq_some_iff.mp hlast
  have hnew := (mem_free.mp hfree).1
  have hnot := not_mem_free h hfree
  have hc : v.InRange c := h.range c (by simp)
  have hne : c ≠ new := fun h0 => hnot (by simp [h0])
  have hs := v.same_chained c new
  have hentry := fun d (hd : v.InRange d) => hl.entry_chained hu hc hnew hne hd.2
  have hnodup := h.links.nodup
  constructor
  · rw [List.append_assoc]
    apply h.links.snoc
    · unfold link
      rw [hs.fat_type, hentry c hc, if_pos rfl, (hl.number hnew).2, if_neg (by decide)]
    · unfold link
      rw [hs.fat_type, hentry new hnew, if_neg (Ne.symm hne), if_pos rfl, is_eoc_eoc, if_pos rfl]
    intro d hd
    have hdc : d ≠ c := by
      rintro rfl
      rw [List.nodup_append] at hnodup
      exact hnodup.2.2 d hd d (by simp) rfl
    have hdn : d ≠ new := fun h0 => hnot (by simp [h0 ▸ hd])
    unfold link
    rw [hs.fat_type, hentry d (h.range d (by simp [hd])), if_neg hdc, if_neg hdn]
  · exact List.forall_mem_append.mpr ⟨h.range, List.forall_mem_singleton.mpr hnew⟩

theorem Layout.free_chained (hl : v.Layout) (hu : v.Unsplit) (hfree : v.free = new :: rest)
    (hc : v.InRange c) (hused : v.entry c ≠ 0) : (v.chained c new).free = rest := by
  have hnew := mem_free.mp (show new ∈ v.free by rw [hfree]; exact List.mem_cons_self)
  have hs := v.same_put new (eoc v.fat_type)
  have hl1 := hs.layout hl
  have hne : c ≠ new := fun h0 => hused (h0 ▸ hnew.2)
  have hused1 : (v.put new (eoc v.fat_type)).entry c ≠ 0 := by
    rw [(hl.inFat hnew.1.2).entry_put_ne (hl.inFat hc.2) (hu new hnew.1) hne]
    exact hused
  unfold chained
  rw [hl1.free_put hc (hs.unsplit hu c hc) (hl1.number hnew.1).1 (by have := hnew.1.1; omega) hused1,
    hl.free_take hfree (hu new hnew.1) v.fits_eoc (eoc_ne_zero _)]

theorem Layout.chained_outside (hl : v.Layout) (hc : v.InRange c) (hnew : v.InRange new) {p : Nat}
    (hp : p < v.fat_start ∨ v.fat_end ≤ p) : (v.chained c new).bytes p = v.bytes p := by
  have hs := v.same_put new (eoc v.fat_type)
  unfold chained
  rw [((hs.layout hl).inFat hc.2).put_outside hp, (hl.inFat hnew.2).put_outside hp]

end Extend

/-! ## Growth -/

/-- A chain gets longer by the first free clusters. The entries of the other
clusters stay, and outside of the table only the bytes in `changed` change. -/
structure Grows (v v' : Volume) (first : Nat) (l l' : List Nat) (changed : Nat → Prop) : Prop where
  same : Same v v'
  chain : v'.IsChain first l'
  new : l' = l ++ v.free.take (l'.length - l.length)
  free : v'.free = v.free.drop (l'.length - l.length)
  others : ∀ d, d < v.bpb.total_clusters + 2 → d ∉ l' → v'.entry d = v.entry d
  bytes : ∀ p, p < v.fat_start ∨ v.fat_end ≤ p → ¬ changed p → v'.bytes p = v.bytes p

namespace Grows

variable {v v' v'' : Volume} {first new : Nat} {l l' l'' rest : List Nat}
  {changed changed' : Nat → Prop}

theorem refl (h : v.IsChain first l) : Grows v v first l l changed where
  same := Same.refl v
  chain := h
  new := by simp
  free := by simp
  others := fun _ _ _ => rfl
  bytes := fun _ _ _ => rfl

section

variable (h : Grows v v' first l l' changed)

include h

theorem mono (hc : ∀ p, changed p → changed' p) : Grows v v' first l l' changed' :=
  { h with bytes := fun p hp hne => h.bytes p hp (fun h0 => hne (hc p h0)) }

theorem length_le : l.length ≤ l'.length := by
  have hlen := congrArg List.length h.new
  rw [List.length_append] at hlen
  omega

theorem keeps_front : l <+: l' := ⟨_, h.new.symm⟩

theorem trans (h' : Grows v' v'' first l' l'' changed) : Grows v v'' first l l'' changed where
  same := h.same.trans h'.same
  chain := h'.chain
  new := by
    have h1 := h.length_le
    have h2 := h'.length_le
    calc l'' = l' ++ v'.free.take (l''.length - l'.length) := h'.new
      _ = l ++ (v.free.take (l'.length - l.length) ++
          (v.free.drop (l'.length - l.length)).take (l''.length - l'.length)) := by
        rw [← List.append_assoc, ← h.new, h.free]
      _ = l ++ v.free.take (l''.length - l.length) := by
        rw [← List.take_add, show l'.length - l.length + (l''.length - l'.length) =
          l''.length - l.length by omega]
  free := by
    have h1 := h.length_le
    have h2 := h'.length_le
    rw [h'.free, h.free, List.drop_drop, show l'.length - l.length + (l''.length - l'.length) =
      l''.length - l.length by omega]
  others := by
    intro d hd hne
    have hne' : d ∉ l' := fun h0 => hne (h'.keeps_front.subset h0)
    rw [h'.others d (by rw [h.same.bpb]; exact hd) hne, h.others d hd hne']
  bytes := by
    intro p hp hne
    rw [h'.bytes p (by rw [h.same.fat_start, h.same.fat_end]; exact hp) hne, h.bytes p hp hne]

end

/-- What is written to the data area does not concern the chain. -/
theorem write (h : v.IsChain first l) (hl : v.Layout)
    (hoff : v.fat_end ≤ off) (hc : ∀ p, off ≤ p → p < off + buf.length → changed p) :
    Grows v (v.write off buf) first l l changed where
  same := v.same_write off buf
  chain := h.congr (v.same_write off buf) (fun c hmem => hl.entry_write hoff (h.range c hmem).2)
  new := by simp
  free := by
    rw [Nat.sub_self, List.drop_zero]
    apply List.filter_congr
    intro d hd
    have hd : d < v.bpb.total_clusters + 2 := by
      have := (List.mem_range'_1.mp hd).2
      change d < 2 + v.bpb.total_clusters at this
      omega
    rw [hl.entry_write hoff hd]
  others := fun d hd _ => hl.entry_write hoff hd
  bytes := fun p _ hne => splice_outside _ (fun hp => hne (hc p hp.1 hp.2))

/-- The first free cluster becomes a chain of its own. -/
theorem allocate (hl : v.Layout) (hu : v.Unsplit) (hfree : v.free = new :: rest) :
    Grows v (v.put new (eoc v.fat_type)) new [] [new] changed := by
  have hnew := (mem_free.mp (show new ∈ v.free by rw [hfree]; exact List.mem_cons_self)).1
  have hs := v.same_put new (eoc v.fat_type)
  exact {
    same := hs
    chain := {
      links := by
        refine ⟨?_, ?_⟩
        · unfold head
          rw [if_neg (Nat.not_lt.mpr hnew.1)]
        · change link _ new = none
          unfold link
          rw [hl.entry_put hnew.2 (hu new hnew) v.fits_eoc, hs.fat_type, is_eoc_eoc, if_pos rfl]
      range := by
        intro c hc
        rw [List.mem_singleton.mp hc]
        exact hnew }
    new := by rw [hfree]; rfl
    free := by
      rw [hfree]
      exact hl.free_take hfree (hu new hnew) v.fits_eoc (eoc_ne_zero _)
    others := fun d hd hne => (hl.inFat hnew.2).entry_put_ne (hl.inFat hd) (hu new hnew)
      (fun h0 => hne (List.mem_singleton.mpr h0))
    bytes := fun p hp _ => (hl.inFat hnew.2).put_outside hp }

theorem chained (h : v.IsChain first l) (hl : v.Layout) (hu : v.Unsplit) {c : Nat}
    (hfree : v.free = new :: rest) (hlast : l.getLast? = some c) :
    Grows v (v.chained c new) first l (l ++ [new]) changed := by
  have hmem : new ∈ v.free := by rw [hfree]; exact List.mem_cons_self
  have hnew := (mem_free.mp hmem).1
  have hcl : c ∈ l := List.mem_of_getLast? hlast
  have hc := h.range c hcl
  have hne : c ≠ new := fun h0 => h.used hcl (h0 ▸ (mem_free.mp hmem).2)
  have hlen : (l ++ [new]).length - l.length = 1 := by simp
  exact {
    same := v.same_chained c new
    chain := h.extend hl hu hmem hlast
    new := by rw [hlen, hfree]; rfl
    free := by rw [hlen, hfree]; exact hl.free_chained hu hfree hc (h.used hcl)
    others := by
      intro d hd hnot
      rw [List.mem_append, List.mem_singleton, not_or] at hnot
      rw [hl.entry_chained hu hc hnew hne hd, if_neg (fun h0 : d = c => hnot.1 (h0 ▸ hcl)),
        if_neg hnot.2]
    bytes := fun p hp _ => hl.chained_outside hc hnew hp }

end Grows

end Volume

namespace FatFileSystemInner

open Volume

variable {first i c : Nat} {l : List Nat}

section

variable (s : FatFileSystemInner) (changed : Nat → Prop) (hl : s.volume.Layout) (hu : s.volume.Unsplit)

include hl hu

theorem ends_follow_or_extend (h : s.volume.IsChain first l) (hi : l[i]? = some c) :
    Yields (follow_or_extend c s)
      (fun n s' => ∃ l', Grows s.volume s'.volume first l l' changed ∧ l'[i + 1]? = some n ∧
        l'.length = max l.length (i + 2)) := by
  have hlt : i < l.length := (List.getElem?_eq_some_iff.mp hi).1
  unfold follow_or_extend
  rw [get_bind]
  refine ends_bind (s.ends_read_entry c).forget ?_
  rintro n s1 ⟨hv, rfl⟩
  split
  · rename_i heoc
    have hend : i + 1 = l.length := (h.entry_last hi).mp heoc
    refine ends_bind s1.ends_allocate_cluster.forget ?_
    rintro new s2 ⟨rest, hfree, hv2⟩
    refine ends_bind (s2.ends_write_entry c new).forget ?_
    intro _ s3 hv3
    rw [hv] at hfree hv2
    rw [hv2] at hv3
    have hlast : l.getLast? = some c := by
      rw [List.getLast?_eq_getElem?, ← hend]
      exact hi
    refine ends_pure ⟨l ++ [new], ?_, ?_, ?_⟩
    · rw [hv3]
      exact Grows.chained h hl hu hfree hlast
    · rw [hend, List.getElem?_concat_length]
    · rw [List.length_append, List.length_singleton]
      omega
  · rename_i heoc
    have hnot : i + 1 ≠ l.length := fun h0 => heoc ((h.entry_last hi).mpr h0)
    refine ends_pure ⟨l, ?_, h.entry_next hi (by omega), by omega⟩
    rw [hv]
    exact Grows.refl h

theorem ends_skip_extending (n : Nat) (h : s.volume.IsChain first l) (hi : l[i]? = some c) :
    Yields (FatFile.skip_extending n c s)
      (fun c' s' => ∃ l', Grows s.volume s'.volume first l l' changed ∧ l'[i + n]? = some c' ∧
        l'.length = max l.length (i + n + 1)) := by
  induction n generalizing s c i l with
  | zero =>
    have hlt : i < l.length := (List.getElem?_eq_some_iff.mp hi).1
    exact ⟨l, Grows.refl h, hi, by omega⟩
  | succ n ih =>
    refine ends_bind (s.ends_follow_or_extend changed hl hu h hi) ?_
    rintro d s1 ⟨l1, hg, hd, hlen⟩
    refine (ih s1 (hg.same.layout hl) (hg.same.unsplit hu) hg.chain hd).mono_ok ?_
    rintro c' s2 ⟨l2, hg2, hc', hlen2⟩
    refine ⟨l2, hg.trans hg2, ?_, by omega⟩
    rw [← hc']
    congr 1
    omega

end

end FatFileSystemInner

end zenos_kernel.disk.fs.fat
