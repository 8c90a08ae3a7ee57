-- The bytes of a file: where the positions of a file lie on the volume, and what
-- the loops of `read` and `write` do at them.
import Zenos.Fat.Chain

namespace zenos_kernel.disk.fs.fat

open Bytes Outcome FatTable

namespace Volume

variable {v v' : Volume} {c first i q start len o : Nat} {l l' : List Nat}

/-! ## Positions -/

/-- Where position `q` of a file with the clusters `l` lies. -/
def pos (v : Volume) (l : List Nat) (q : Nat) : Nat :=
  v.cluster_pos (l.getD (q / v.cluster_size) 0) + q % v.cluster_size

/-- A byte of the positions `start..start + len` of the file. -/
def InFile (v : Volume) (l : List Nat) (start len p : Nat) : Prop :=
  ∃ q, start ≤ q ∧ q < start + len ∧ p = v.pos l q

theorem cluster_size_gt (v : Volume) : 0 < v.cluster_size :=
  Nat.mul_pos (Nat.lt_of_lt_of_le (by decide) v.bps_ge) v.spc_pos

theorem pos_eq (v : Volume) (hi : l[i]? = some c) (ho : o < v.cluster_size) :
    v.pos l (i * v.cluster_size + o) = v.cluster_pos c + o := by
  unfold pos
  rw [Nat.mul_comm, Nat.mul_add_div v.cluster_size_gt, Nat.div_eq_of_lt ho, Nat.add_zero,
    Nat.mul_add_mod, Nat.mod_eq_of_lt ho, List.getD_eq_getElem?_getD, hi, Option.getD_some]

/-- The cluster of a position. -/
theorem exists_cluster (v : Volume) (hq : q < l.length * v.cluster_size) :
    ∃ c, l[q / v.cluster_size]? = some c ∧ v.pos l q = v.cluster_pos c + q % v.cluster_size := by
  have hlt : q / v.cluster_size < l.length := (Nat.div_lt_iff_lt_mul v.cluster_size_gt).mpr hq
  refine ⟨_, List.getElem?_eq_getElem hlt, ?_⟩
  unfold pos
  rw [List.getD_eq_getElem?_getD, List.getElem?_eq_getElem hlt, Option.getD_some]

theorem pos_front (v : Volume) (h : l <+: l') (hq : q < l.length * v.cluster_size) :
    v.pos l' q = v.pos l q := by
  obtain ⟨t, rfl⟩ := h
  have hlt : q / v.cluster_size < l.length := (Nat.div_lt_iff_lt_mul v.cluster_size_gt).mpr hq
  unfold pos
  rw [List.getD_eq_getElem?_getD, List.getD_eq_getElem?_getD, List.getElem?_append_left hlt]

theorem Same.pos (h : Same v v') (l : List Nat) (q : Nat) : v'.pos l q = v.pos l q := by
  rw [h.eq]
  rfl

theorem Same.inFile (h : Same v v') (l : List Nat) (start len p : Nat) :
    v'.InFile l start len p ↔ v.InFile l start len p := by
  unfold InFile
  simp only [h.pos]

theorem fat_end_le_pos (v : Volume) (l : List Nat) (q : Nat) : v.fat_end ≤ v.pos l q :=
  Nat.le_trans (v.fat_end_le _) (Nat.le_add_right _ _)

theorem IsChain.pos_inj (h : v.IsChain first l) {q' : Nat} (hq : q < l.length * v.cluster_size)
    (hq' : q' < l.length * v.cluster_size) (heq : v.pos l q = v.pos l q') : q = q' := by
  obtain ⟨c, hc, hpos⟩ := v.exists_cluster hq
  obtain ⟨d, hd, hpos'⟩ := v.exists_cluster hq'
  have hm := Nat.mod_lt q v.cluster_size_gt
  have hm' := Nat.mod_lt q' v.cluster_size_gt
  have hdiv := Nat.div_add_mod q v.cluster_size
  have hdiv' := Nat.div_add_mod q' v.cluster_size
  by_cases hcd : c = d
  · subst hcd
    have hidx : q / v.cluster_size = q' / v.cluster_size := by
      have hlt := (List.getElem?_eq_some_iff.mp hc).1
      exact (List.getElem?_inj hlt h.links.nodup).mp (hc.trans hd.symm)
    rw [hidx] at hdiv
    omega
  · have hap := clusters_apart (h.range c (List.mem_of_getElem? hc))
      (h.range d (List.mem_of_getElem? hd)) hcd
    unfold Apart at hap
    omega

variable (v)

theorem InFile.mono {start' len' p : Nat} (h : v.InFile l start len p)
    (hfront : l <+: l') (hend : start + len ≤ l.length * v.cluster_size) (hstart : start' ≤ start)
    (hlen : start + len ≤ start' + len') : v.InFile l' start' len' p := by
  obtain ⟨q, h1, h2, rfl⟩ := h
  exact ⟨q, by omega, by omega, (v.pos_front hfront (by omega)).symm⟩

/-- The bytes of the positions `start..start + len` of a file with the clusters `l`. -/
def content (v : Volume) (l : List Nat) (start len : Nat) : List UInt8 :=
  (List.range len).map (fun k => v.bytes (v.pos l (start + k)))

@[simp] theorem length_content (l : List Nat) (start len : Nat) :
    (v.content l start len).length = len := by
  simp [content]

variable {k : Nat}

theorem getD_content (l : List Nat) (start : Nat) (hk : k < len) :
    (v.content l start len).getD k 0 = v.bytes (v.pos l (start + k)) := by
  simp [content, hk]

theorem content_add (l : List Nat) (start m n : Nat) :
    v.content l start (m + n) = v.content l start m ++ v.content l (start + m) n :=
  (slice_append (fun q => v.bytes (v.pos l q)) start m n).symm

/-- Positions in one cluster follow each other. -/
theorem pos_add (hi : l[i]? = some c) (hk : o + k < v.cluster_size) :
    v.pos l (i * v.cluster_size + o + k) = v.cluster_pos c + o + k := by
  rw [Nat.add_assoc, v.pos_eq hi hk, Nat.add_assoc]

variable {v} {data : List UInt8}

/-- A write into a cluster of the chain changes the positions of the file there. -/
theorem Grows.write_cluster (h : v.IsChain first l) (hl : v.Layout) (hi : l[i]? = some c)
    (ho : o + data.length ≤ v.cluster_size) (hfront : l <+: l') :
    Grows v (v.write (v.cluster_pos c + o) data) first l l
      (v.InFile l' (i * v.cluster_size + o) data.length) := by
  refine Grows.write h hl (Nat.le_trans (v.fat_end_le c) (Nat.le_add_right _ _)) ?_
  intro p h1 h2
  have hk : o + (p - (v.cluster_pos c + o)) < v.cluster_size := by omega
  have hmul := record_le (List.getElem?_eq_some_iff.mp hi).1 v.cluster_size
  refine ⟨i * v.cluster_size + o + (p - (v.cluster_pos c + o)), by omega, by omega, ?_⟩
  rw [v.pos_front hfront (by omega), v.pos_add hi hk]
  omega

/-- What is copied out of the buffer of a cluster. -/
theorem content_eq (v : Volume) (hi : l[i]? = some c) {n : Nat} (hn : o + n ≤ v.cluster_size) :
    ((slice v.bytes (v.cluster_pos c) v.cluster_size).drop o).take n =
      v.content l (i * v.cluster_size + o) n := by
  rw [take_drop_slice _ _ hn]
  apply List.map_congr_left
  intro k hk
  rw [v.pos_add hi (by have := List.mem_range.mp hk; omega)]

end Volume

/-! ## The loop of `write` -/

namespace FatFileSystemInner

open Volume FatFile

variable {first i c o : Nat} {l : List Nat} {buf : List UInt8} (s : FatFileSystemInner)
  {cluster_buf : List UInt8}

/-- Only the bytes that are copied change. -/
theorem ends_write_chunk
    (hlen : cluster_buf.length = s.volume.cluster_size) (ho : o < s.volume.cluster_size) {n : Nat}
    (hn : n = min (s.volume.cluster_size - o) buf.length) :
    Ends (write_chunk c o n cluster_buf buf s) (fun b s' => b.length = s.volume.cluster_size ∧
        s'.volume = s.volume.write (s.volume.cluster_pos c + o) (buf.take n))
      (fun _ s' => s'.volume = s.volume) := by
  have htake : (buf.take n).length = n := by
    rw [List.length_take]
    omega
  refine ends_bind (Q := fun b s' => s'.volume = s.volume ∧ b.length = s.volume.cluster_size ∧
    splice s.volume.bytes (s.volume.cluster_pos c) (overwrite b o (buf.take n)) =
      splice s.volume.bytes (s.volume.cluster_pos c + o) (buf.take n)) ?_ ?_
  · unfold existing_data
    rw [get_bind]
    split
    · -- the cluster is read first
      refine (s.ends_read_cluster c).mono ?_ (fun _ _ h => h.1)
      rintro b s' ⟨hv, _, rfl⟩
      refine ⟨hv, length_slice _ _ _, splice_overwrite _ _ ?_⟩
      omega
    · -- all of it is replaced
      rename_i hwhole
      change ¬ (o ≠ 0 ∨ buf.length < s.volume.cluster_size) at hwhole
      refine ends_pure ⟨rfl, hlen, ?_⟩
      have ho0 : o = 0 := by omega
      subst ho0
      have hdrop : cluster_buf.drop n = [] := List.drop_eq_nil_of_le (by omega)
      unfold overwrite
      rw [htake, List.take_zero, List.nil_append, Nat.zero_add, hdrop, List.append_nil, Nat.add_zero]
  · rintro b s1 ⟨hv, hb, hsplice⟩
    refine ends_then (s1.ends_write_cluster c _)
      (fun _ _ h => h.trans hv) ?_
    rintro _ s2 ⟨hv2, _⟩
    refine ends_pure ⟨?_, ?_⟩
    · rw [length_overwrite (by omega), hb]
    · rw [hv2, hv]
      unfold Volume.write
      rw [hsplice]

section

variable (hl : s.volume.Layout)

include hl

theorem ends_write_loop (hu : s.volume.Unsplit)
    {fuel : Nat} (h : s.volume.IsChain first l) (hi : l[i]? = some c)
    (ho : o < s.volume.cluster_size) (hlen : cluster_buf.length = s.volume.cluster_size)
    (hfuel : buf.length ≤ fuel) (hbuf : 0 < buf.length) {start : Nat}
    (hstart : start = i * s.volume.cluster_size + o) : Yields (write_loop fuel c o cluster_buf buf s)
      (fun _ s' => ∃ l', Grows s.volume s'.volume first l l' (s.volume.InFile l' start buf.length) ∧
        l'.length = max l.length ((start + buf.length - 1) / s.volume.cluster_size + 1) ∧
        ∀ k < buf.length, s'.volume.bytes (s.volume.pos l' (start + k)) = buf.getD k 0) := by
  induction fuel generalizing s l i c o cluster_buf buf start with
  | zero => omega
  | succ fuel ih =>
    have hcs := s.volume.cluster_size_gt
    have hilt : i < l.length := (List.getElem?_eq_some_iff.mp hi).1
    generalize hn : min (s.volume.cluster_size - o) buf.length = n
    have htake : (buf.take n).length = n := by
      rw [List.length_take]
      omega
    unfold write_loop
    rw [get_bind, show s.cluster_size = s.volume.cluster_size from rfl, hn]
    refine ends_bind (s.ends_write_chunk hlen ho hn.symm).forget ?_
    rintro b s1 ⟨hb, hv1⟩
    have hg1 : ∀ l', l <+: l' →
        Grows s.volume s1.volume first l l (s.volume.InFile l' start n) := by
      intro l' hfront
      have hg := Grows.write_cluster h hl hi (show o + (buf.take n).length ≤ _ by omega) hfront
      rw [htake, ← hstart] at hg
      rw [hv1]
      exact hg
    have hwritten : ∀ k < n, s1.volume.bytes (s.volume.pos l (start + k)) = buf.getD k 0 := by
      intro k hk
      rw [hv1, hstart, s.volume.pos_add hi (by omega)]
      refine (splice_at _ _ (by omega)).trans ?_
      rw [List.getD_eq_getElem?_getD, List.getElem?_take_of_lt hk, List.getD_eq_getElem?_getD]
    split
    · have hall : n = buf.length := by omega
      have hdiv : (start + buf.length - 1) / s.volume.cluster_size = i := by
        apply Nat.div_eq_of_lt_le
        · omega
        · rw [Nat.succ_mul]
          omega
      refine ends_pure ⟨l, hall ▸ hg1 l (List.prefix_refl l), by omega, ?_⟩
      exact fun k hk => hwritten k (by omega)
    have hdrop : (buf.drop n).length = buf.length - n := List.length_drop
    have hnext : start + n = (i + 1) * s.volume.cluster_size := by
      rw [Nat.succ_mul]
      omega
    have hs1 := (hg1 l (List.prefix_refl l)).same
    have hch1 := (hg1 l (List.prefix_refl l)).chain
    refine ends_bind (s1.ends_follow_or_extend (fun _ => False) (hs1.layout hl) (hs1.unsplit hu)
      hch1 hi) ?_
    rintro d s2 ⟨l1, hg2, hd, hlen1⟩
    have hs2 := hs1.trans hg2.same
    have hfuel2 : (buf.drop n).length ≤ fuel := by omega
    have hbuf2 : 0 < (buf.drop n).length := by omega
    have hstart2 : start + n = (i + 1) * s2.volume.cluster_size + 0 := by
      rw [hs2.cluster_size]
      omega
    refine (ih s2 (hs2.layout hl) (hs2.unsplit hu) hg2.chain hd (by rw [hs2.cluster_size]; exact hcs)
      (by rw [hs2.cluster_size]; exact hb) hfuel2 hbuf2 hstart2).mono_ok ?_
    rintro _ s3 ⟨l2, hg3, hlen2, hrest⟩
    rw [hs2.cluster_size, hdrop, Nat.add_assoc, Nat.add_sub_cancel' (by omega)] at hlen2
    have hp2 : l <+: l2 := hg2.keeps_front.trans hg3.keeps_front
    have hlong : i + 1 ≤ (start + buf.length - 1) / s.volume.cluster_size := by
      rw [Nat.le_div_iff_mul_le hcs]
      omega
    -- the chain has room for all that is written
    have hroom : start + buf.length ≤ l2.length * s.volume.cluster_size := by
      have hlt := (Nat.div_lt_iff_lt_mul hcs).mp
        (show (start + buf.length - 1) / s.volume.cluster_size < l2.length by omega)
      omega
    have hin : start + n ≤ l.length * s.volume.cluster_size := by
      rw [hnext]
      exact Nat.mul_le_mul_right _ hilt
    have hg : Grows s.volume s3.volume first l l2 (s.volume.InFile l2 start buf.length) := by
      refine (((hg1 l2 hp2).mono ?_).trans (hg2.mono (fun _ h0 => h0.elim))).trans (hg3.mono ?_)
      · intro p hp
        exact hp.mono s.volume (List.prefix_refl l2) (by omega) (by omega) (by omega)
      · intro p hp
        rw [hs2.inFile] at hp
        exact hp.mono s.volume (List.prefix_refl l2) (by omega) (by omega) (by omega)
    refine ⟨l2, hg, by omega, ?_⟩
    intro k hk
    by_cases hkn : k < n
    · -- what this turn wrote is not written again
      have hkeep : ¬ s2.volume.InFile l2 (start + n) (buf.drop n).length
          (s.volume.pos l2 (start + k)) := by
        rw [hs2.inFile]
        rintro ⟨q, h1, h2, heq⟩
        rw [← hg.same.pos, ← hg.same.pos] at heq
        have hqk := hg.chain.pos_inj (by rw [hg.same.cluster_size]; omega)
          (by rw [hg.same.cluster_size]; omega) heq
        omega
      have hdata : s.volume.fat_end ≤ s.volume.pos l2 (start + k) := s.volume.fat_end_le_pos _ _
      rw [hg3.bytes _ (by rw [hs2.fat_end]; exact Or.inr hdata) hkeep,
        hg2.bytes _ (by rw [hs1.fat_end]; exact Or.inr hdata) (fun h0 => h0),
        s.volume.pos_front hp2 (by omega), hwritten k hkn]
    · have hk' := hrest (k - n) (by omega)
      rw [hs2.pos, show start + n + (k - n) = start + k by omega] at hk'
      rw [hk', List.getD_eq_getElem?_getD, List.getElem?_drop, List.getD_eq_getElem?_getD,
        show n + (k - n) = k by omega]

/-! ## The loop of `read` -/

theorem ends_skip_to (n : Nat)
    (h : s.volume.IsChain first l) (hi : l[i]? = some c) (hn : i + n < l.length) :
    Ends (skip_to n c s) (fun r s' => s'.volume = s.volume ∧ r = l[i + n]?)
      (fun _ s' => s'.volume = s.volume ∧ s.volume.Faulty) := by
  induction n generalizing s c i with
  | zero => exact ⟨rfl, hi.symm⟩
  | succ n ih =>
    have hc := h.range c (List.mem_of_getElem? hi)
    have heoc : is_eoc s.volume.fat_type (s.volume.entry c) = false := by
      rw [← Bool.not_eq_true, h.entry_last hi]
      omega
    unfold skip_to
    rw [if_neg (by have := hc.1; omega), get_bind]
    refine ends_then (s.ends_read_entry c) ?_ ?_
    · rintro _ s' ⟨hv, hf | hun⟩
      · exact ⟨hv, hf⟩
      · exact absurd hun (hl.entry hc.2)
    rintro next s1 ⟨hv, rfl⟩
    rw [show s.fat_type = s.volume.fat_type from rfl, heoc]
    have hnext := h.entry_next hi (by omega)
    have hih := ih s1 (by rw [hv]; exact hl) (by rw [hv]; exact h) hnext (by omega)
    rw [hv] at hih
    rw [show i + (n + 1) = i + 1 + n by omega]
    exact hih

theorem ends_read_loop {fuel file_size pos : Nat} {remaining : Nat} (h : s.volume.IsChain first l)
    (hi : l[i]? = some c) (ho : o < s.volume.cluster_size) (hfuel : remaining ≤ fuel)
    (hsize : file_size ≤ l.length * s.volume.cluster_size)
    (hpos : (remaining = 0 ∨ file_size ≤ pos) ∨ pos = i * s.volume.cluster_size + o) :
    Ends (read_loop file_size fuel c o pos remaining s) (fun bytes s' => s'.volume = s.volume ∧
        bytes = s.volume.content l pos (min remaining (file_size - pos)))
      (fun _ s' => s'.volume = s.volume ∧ s.volume.Faulty) := by
  induction fuel generalizing s i c o pos remaining with
  | zero =>
    refine ends_pure ⟨rfl, ?_⟩
    rw [show min remaining (file_size - pos) = 0 by omega]
    rfl
  | succ fuel ih =>
    unfold read_loop
    by_cases hend : remaining = 0 ∨ file_size ≤ pos
    · rw [if_pos hend]
      refine ends_pure ⟨rfl, ?_⟩
      rw [show min remaining (file_size - pos) = 0 by omega]
      rfl
    have hpos := hpos.resolve_left hend
    have hc := h.range c (List.mem_of_getElem? hi)
    have hilt : i < l.length := (List.getElem?_eq_some_iff.mp hi).1
    rw [if_neg hend, if_neg (by have := hc.1; omega), get_bind,
      show s.cluster_size = s.volume.cluster_size from rfl]
    generalize hn : min (min (s.volume.cluster_size - o) (file_size - pos)) remaining = n
    refine ends_then (s.ends_read_cluster c) ?_ ?_
    · rintro _ s' ⟨hv, hf | hno⟩
      · exact ⟨hv, hf⟩
      · exact absurd hno (hl.cluster hc)
    rintro buf s1 ⟨hv, _, rfl⟩
    refine ends_then (s1.ends_read_entry c) ?_ ?_
    · rw [hv]
      rintro _ s' ⟨hv', hf | hun⟩
      · exact ⟨hv', hf⟩
      · exact absurd hun (hl.entry hc.2)
    rw [hv]
    rintro next s2 ⟨hv2, rfl⟩
    rw [s.volume.content_eq hi (by omega), ← hpos]
    split
    · -- the last cluster of the chain holds the rest of the file
      rename_i heoc
      have hlast : i + 1 = l.length := (h.entry_last hi).mp heoc
      rw [← hlast, Nat.succ_mul] at hsize
      refine ends_pure ⟨hv2, ?_⟩
      congr 1
      omega
    rename_i heoc
    have hmore : i + 1 ≠ l.length := fun h0 => heoc ((h.entry_last hi).mpr h0)
    have hnext := h.entry_next hi (by omega)
    have hpos2 : (remaining - n = 0 ∨ file_size ≤ pos + n) ∨
        pos + n = (i + 1) * s2.volume.cluster_size + 0 := by
      rw [hv2, Nat.succ_mul]
      omega
    have hih := ih s2 (by rw [hv2]; exact hl) (by rw [hv2]; exact h) hnext
      (by rw [hv2]; exact s.volume.cluster_size_gt) (show remaining - n ≤ fuel by omega)
      (by rw [hv2]; exact hsize) hpos2
    rw [hv2] at hih
    refine ends_bind hih ?_
    rintro rest s3 ⟨hv3, rfl⟩
    refine ends_pure ⟨hv3, ?_⟩
    rw [← content_add]
    congr 1
    omega

/-- The bytes of the file from `offset` on, as far as the buffer and the file go. -/
theorem ends_read_chain {entry : FatDirEntry} (h : s.volume.IsChain entry.first_cluster l)
    {offset : Nat} (len : Nat) (hsize : entry.file_size.toNat ≤ l.length * s.volume.cluster_size)
    (hlt : offset < entry.file_size.toNat) :
    Ends (read_chain entry offset len s) (fun r s' => s'.volume = s.volume ∧
        r = some (s.volume.content l offset (min len (entry.file_size.toNat - offset))))
      (fun _ s' => s'.volume = s.volume ∧ s.volume.Faulty) := by
  have hcs := s.volume.cluster_size_gt
  have hidx : offset / s.volume.cluster_size < l.length := by
    rw [Nat.div_lt_iff_lt_mul hcs]
    omega
  have hzero := h.getElem_zero (Nat.lt_of_le_of_lt (Nat.zero_le _) hidx)
  unfold read_chain
  rw [get_bind, show s.cluster_size = s.volume.cluster_size from rfl]
  refine ends_bind (s.ends_skip_to hl _ h hzero (by rw [Nat.zero_add]; exact hidx)) ?_
  rintro r s1 ⟨hv, rfl⟩
  obtain ⟨c, hc⟩ : ∃ c, l[offset / s.volume.cluster_size]? = some c :=
    ⟨_, List.getElem?_eq_getElem hidx⟩
  rw [Nat.zero_add, hc]
  have hpos := (Nat.div_add_mod' offset s1.volume.cluster_size).symm
  have hsize1 : entry.file_size.toNat ≤ l.length * s1.volume.cluster_size := by
    rw [hv]
    exact hsize
  have hloop := s1.ends_read_loop (by rw [hv]; exact hl) (by rw [hv]; exact h)
    (by rw [hv]; exact hc) (Nat.mod_lt _ (by rw [hv]; exact hcs)) (Nat.le_refl len) hsize1
    (Or.inr hpos)
  rw [hv] at hloop
  refine ends_bind hloop ?_
  rintro bytes s2 ⟨hv2, rfl⟩
  exact ends_pure ⟨hv2, rfl⟩

/-- The positions from `offset` on get the bytes of the buffer, and the chain gets
as long as that takes. -/
theorem ends_write_chain (hu : s.volume.Unsplit)
    (h : s.volume.IsChain first l) (hne : 0 < l.length) (offset : Nat) (hbuf : 0 < buf.length) :
    Yields (write_chain first offset buf s)
      (fun _ s' => ∃ l', Grows s.volume s'.volume first l l' (s.volume.InFile l' offset buf.length) ∧
        l'.length = max l.length ((offset + buf.length - 1) / s.volume.cluster_size + 1) ∧
        ∀ k < buf.length, s'.volume.bytes (s.volume.pos l' (offset + k)) = buf.getD k 0) := by
  have hcs := s.volume.cluster_size_gt
  unfold write_chain
  rw [get_bind, show s.cluster_size = s.volume.cluster_size from rfl]
  refine ends_bind (s.ends_skip_extending (fun _ => False) hl hu _ h (h.getElem_zero hne)) ?_
  rintro c s1 ⟨l1, hg1, hc, hlen1⟩
  rw [Nat.zero_add] at hc hlen1
  have hpos : offset = offset / s.volume.cluster_size * s1.volume.cluster_size +
      offset % s.volume.cluster_size := by
    rw [hg1.same.cluster_size, Nat.mul_comm, Nat.div_add_mod]
  refine (s1.ends_write_loop (hg1.same.layout hl) (hg1.same.unsplit hu) hg1.chain hc
    (by rw [hg1.same.cluster_size]; exact Nat.mod_lt _ hcs)
    (by rw [hg1.same.cluster_size]; exact List.length_replicate) (Nat.le_refl _) hbuf hpos).mono_ok ?_
  rintro _ s2 ⟨l2, hg2, hlen2, hbytes⟩
  rw [hg1.same.cluster_size] at hlen2
  refine ⟨l2, ?_, ?_, ?_⟩
  · refine (hg1.mono (fun _ h0 => h0.elim)).trans (hg2.mono ?_)
    exact fun p hp => (hg1.same.inFile l2 offset buf.length p).mp hp
  · have hle : offset / s.volume.cluster_size ≤ (offset + buf.length - 1) / s.volume.cluster_size :=
      Nat.div_le_div_right (by omega)
    omega
  · intro k hk
    have := hbytes k hk
    rw [hg1.same.pos] at this
    exact this

end

end FatFileSystemInner

end zenos_kernel.disk.fs.fat
