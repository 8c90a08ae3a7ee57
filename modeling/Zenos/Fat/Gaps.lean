-- Gaps: a write that starts behind the end of the file makes the file longer, and
-- what is read in the gap is what the clusters of the gap held before.
import Zenos.Fat.ByteArray

namespace zenos_kernel.disk.fs.fat

open Bytes Outcome

namespace FatFile

open Volume

/-- A file, with the positions that were covered since they were last cut off. -/
structure Watched where
  file : FatFile
  covered : Nat → Bool

variable (w : Watched)

def Watched.size : Nat := w.file.entry.file_size.toNat

/-- What is read at a position that was not covered is 0. -/
def Watched.ReadsZero : Prop :=
  ∀ offset len bytes f', read offset len w.file = .ok bytes f' →
    ∀ k < bytes.length, w.covered (offset + k) = false → bytes.getD k 0 = 0

inductive FileCall
  | write (offset : Nat) (buf : List UInt8)
  | truncate (size : Nat)

def FileCall.run : FileCall → FileM Unit
  | .write offset buf => do
    let _ ← FatFile.write offset buf
    pure ()
  | .truncate size => FatFile.truncate size

/-- The positions that are covered after a call. A truncation cuts off what lies
behind its size, and covers what it adds. -/
def Watched.covers : FileCall → Nat → Bool
  | .write offset buf => fun q => w.covered q || (offset ≤ q && q < offset + buf.length)
  | .truncate size => fun q => q < size && (w.covered q || w.size ≤ q)

/-- The clusters of the gap are clear: at the positions that a write adds to the file
and does not cover, the clusters of the file, and the free ones that would follow
them, hold zeros. The size is stored in 32 bits. -/
def Watched.Clear : FileCall → Prop
  | .write offset buf => w.file.Passes offset buf → ∀ l q,
      w.file.volume.IsChain w.file.entry.first_cluster l →
      w.size ≤ q → q < (offset + buf.length) % UInt32.size →
      ¬ (offset ≤ q ∧ q < offset + buf.length) → w.covered q = false →
      w.file.volume.bytes (w.file.volume.pos (l ++ w.file.volume.free) q) = 0
  | .truncate _ => True

/-- A call that came back. -/
inductive Watched.Step : Watched → FileCall → Watched → Prop
  | call {w : Watched} {c : FileCall} {f' : FatFile} : c.run w.file = .ok () f' →
      Step w c ⟨f', w.covers c⟩

/-- A call on a clear gap. -/
def Watched.ClearStep (w w' : Watched) : Prop := ∃ c, w.Clear c ∧ Step w c w'

/-- The positions that were not covered hold 0. -/
structure Watched.Zeroed (w : Watched) (l : List Nat) : Prop where
  room : w.size ≤ l.length * w.file.volume.cluster_size
  zero : ∀ q < w.size, w.covered q = false → w.file.volume.bytes (w.file.volume.pos l q) = 0

variable {w w' : Watched} {c : FileCall} {f f' : FatFile} {l l' dl : List Nat} {pos offset : Nat}
  {buf : List UInt8}

theorem Watched.ReadsZero.zeroed (h : w.ReadsZero) (hp : w.file.Placed l dl pos)
    (hroom : w.size ≤ l.length * w.file.volume.cluster_size) (hok : ¬ w.file.volume.Faulty) :
    w.Zeroed l := by
  refine ⟨hroom, ?_⟩
  intro q hq hcov
  have hread := ends_read hp.layout hp.chain hroom q 1
  obtain ⟨bytes, f', heq, _, _, _, rfl⟩ :=
    (hread.mono_error (fun _ _ h0 => hok h0)).returns
  have hone : min 1 (w.file.entry.file_size.toNat - q) = 1 := by
    have : w.size = w.file.entry.file_size.toNat := rfl
    omega
  have hzero := h q 1 _ f' heq 0 (by rw [length_content, hone]; decide) hcov
  rw [hone] at hzero
  exact hzero

/-- The position of a byte behind the end, before and after the chain gets longer. -/
theorem Wrote.pos_free (hw : Wrote f f' l l' pos offset buf)
    {q : Nat} (hq : q < l'.length * f.volume.cluster_size) :
    f.volume.pos (l ++ f.volume.free) q = f.volume.pos l' q := by
  refine f.volume.pos_front ?_ hq
  refine ⟨f.volume.free.drop (l'.length - l.length), ?_⟩
  nth_rewrite 1 [hw.grows.new]
  rw [List.append_assoc, List.take_append_drop]

section

variable (h : w.Zeroed l) (hp : w.file.Placed l dl pos)

include h hp

theorem Watched.Zeroed.reads : w.ReadsZero := by
  intro offset len bytes f' hread k hk hcov
  obtain ⟨_, _, _, rfl⟩ := (ends_read hp.layout hp.chain h.room offset len).of_ok hread
  rw [length_content] at hk
  rw [getD_content _ _ _ hk]
  refine h.zero _ ?_ hcov
  have : w.size = w.file.entry.file_size.toNat := rfl
  omega

theorem Watched.Zeroed.write (hw : Wrote w.file f' l l' pos offset buf)
    (hsize : f'.entry.file_size = if w.file.Passes offset buf then
      UInt32.ofNat (offset + buf.length) else w.file.entry.file_size) :
    f'.entry.file_size.toNat ≤ l'.length * f'.volume.cluster_size ∧
    (Zeroed ⟨f', w.covers (.write offset buf)⟩ l' ↔ w.Clear (.write offset buf)) := by
  have hs := hw.grows.same
  have hsize' : f'.entry.file_size.toNat = if w.file.Passes offset buf then
      (offset + buf.length) % UInt32.size else w.size := by
    rw [hsize]
    split
    · exact UInt32.toNat_ofNat
    · rfl
  have hmono := Nat.mul_le_mul_right w.file.volume.cluster_size hw.grows.length_le
  have hold := h.room
  have hroom : f'.entry.file_size.toNat ≤ l'.length * w.file.volume.cluster_size := by
    rw [hsize']
    split
    · rename_i hpass
      exact Nat.le_trans (Nat.mod_le _ _) (hw.room hpass.1)
    · omega
  have hcover : ∀ q, w.covers (.write offset buf) q = false ↔
      w.covered q = false ∧ ¬ (offset ≤ q ∧ q < offset + buf.length) := by
    intro q
    simp [Watched.covers]
  refine ⟨by rw [hs.cluster_size]; exact hroom, ?_, ?_⟩
  · intro hz hpass l0 q hl0 hge hlt hout hcov
    rw [hl0.unique hp.chain]
    rw [if_pos hpass] at hsize'
    have hq : q < l'.length * w.file.volume.cluster_size := by omega
    rw [hw.pos_free hq, ← hw.kept hp hq hout, ← hs.pos]
    exact hz.zero q (by rw [← hsize'] at hlt; exact hlt) ((hcover q).mpr ⟨hcov, hout⟩)
  intro hclear
  refine ⟨by rw [hs.cluster_size]; exact hroom, ?_⟩
  intro q hq hcov
  obtain ⟨hcov, hout⟩ := (hcover q).mp hcov
  change q < f'.entry.file_size.toNat at hq
  rw [hs.pos, hw.kept hp (by omega) hout]
  by_cases hlt : q < w.size
  · rw [w.file.volume.pos_front hw.grows.keeps_front (by omega)]
    exact h.zero q hlt hcov
  -- the position is new
  have hpass : w.file.Passes offset buf := by
    by_contra hno
    rw [if_neg hno] at hsize'
    omega
  rw [if_pos hpass] at hsize'
  rw [← hw.pos_free (by omega)]
  exact hclear hpass l q hp.chain (by omega) (by omega) hout hcov

omit h hp in
theorem Watched.Zeroed.truncate {size : Nat} {data : List UInt8} (h : w.Zeroed l)
    (hlen : data.length = size) (hw : Wrote w.file f' l l' pos 0 data)
    (hsize : f'.entry.file_size = UInt32.ofNat size)
    (hdata : ∃ n, n = min size w.file.entry.file_size.toNat ∧
      data = w.file.volume.content l 0 n ++ List.replicate (size - n) 0) :
    Zeroed ⟨f', w.covers (.truncate size)⟩ l' := by
  have hs := hw.grows.same
  have hsize' : f'.entry.file_size.toNat = size % UInt32.size := by
    rw [hsize]
    exact UInt32.toNat_ofNat
  have hle := Nat.mod_le size UInt32.size
  refine ⟨?_, ?_⟩
  · change f'.entry.file_size.toNat ≤ l'.length * f'.volume.cluster_size
    rw [hs.cluster_size]
    by_cases hnil : data = []
    · subst hnil
      rw [List.length_nil] at hlen
      omega
    · have := hw.room hnil
      omega
  · intro q hq hcov
    change q < f'.entry.file_size.toNat at hq
    have hq' := hw.data q (by omega)
    rw [Nat.zero_add] at hq'
    rw [hs.pos, hq']
    obtain ⟨n, hn, hdata⟩ := hdata
    obtain ⟨hold, hlt⟩ : w.covered q = false ∧ q < w.size := by
      simp [Watched.covers] at hcov
      exact hcov (by omega)
    have hqn : q < n := by
      have : w.size = w.file.entry.file_size.toNat := rfl
      omega
    rw [hdata, List.getD_append _ _ _ _ (by rw [length_content]; exact hqn), getD_content _ _ _ hqn,
      Nat.zero_add]
    exact h.zero q hlt hold

theorem Watched.Zeroed.step (hstep : Step w c w') :
    ∃ l', w'.file.Placed l' dl pos ∧ w'.size ≤ l'.length * w'.file.volume.cluster_size ∧
      Same w.file.volume w'.file.volume ∧ (w'.Zeroed l' ↔ w.Clear c) := by
  obtain ⟨hrun⟩ := hstep
  cases c with
  | write offset buf =>
    obtain ⟨n, f1, hwrite, hpure⟩ := bind_ok.mp hrun
    obtain ⟨_, rfl⟩ := pure_ok.mp hpure
    obtain ⟨_, l', hw, hsize, _⟩ := (ends_write hp _ _).of_ok hwrite
    obtain ⟨hroom, hiff⟩ := h.write hp hw hsize
    exact ⟨l', hp.grown hw.toExtends, hroom, hw.grows.same, hiff⟩
  | truncate size =>
    obtain ⟨l', data, hlen, hw, hsize, _, hdata⟩ := (ends_truncate hp _).of_ok hrun
    have hz := h.truncate hlen hw hsize (hdata h.room)
    exact ⟨l', hp.grown hw.toExtends, hz.room, hw.grows.same, fun _ => trivial, fun _ => hz⟩

theorem Watched.Zeroed.run (hrun : Relation.ReflTransGen ClearStep w w') :
    ∃ l', w'.file.Placed l' dl pos ∧ w'.Zeroed l' ∧ Same w.file.volume w'.file.volume := by
  induction hrun with
  | refl => exact ⟨l, hp, h, Same.refl _⟩
  | tail _ hstep ih =>
    obtain ⟨l1, hp1, hz1, hs1⟩ := ih
    obtain ⟨c, hclear, hstep⟩ := hstep
    obtain ⟨l2, hp2, _, hs2, hiff⟩ := hz1.step hp1 hstep
    exact ⟨l2, hp2, hiff.mpr hclear, hs1.trans hs2⟩

end

/-- On a file that starts empty, all that is read in gaps is 0 as long as every write
that leaves a gap finds the clusters of the gap clear, and no longer. -/
theorem gaps_read_zero_iff_clear {up : List Nat} {d : FatDirectory} {i : Nat}
    (hwf : w.file.volume.Sound) (hopen : w.file.Opened up d dl i)
    (hfat : w.file.volume.fat_type ≠ .Fat12) (hempty : w.size = 0)
    (hrun : Relation.ReflTransGen Watched.ClearStep w w') :
    w'.ReadsZero ∧ ∀ c w'', Watched.Step w' c w'' → (w'.Clear c → w''.ReadsZero) ∧
      (¬ w.file.volume.Faulty → w''.ReadsZero → w'.Clear c) := by
  obtain ⟨l, hp⟩ := hopen.placed hwf (unsplit_of_fat_type hfat)
  have hz : w.Zeroed l := by
    refine ⟨by omega, fun q hq => ?_⟩
    omega
  obtain ⟨l1, hp1, hz1, hs1⟩ := hz.run hp hrun
  refine ⟨hz1.reads hp1, ?_⟩
  intro c w'' hstep
  obtain ⟨l2, hp2, hroom, hs2, hiff⟩ := hz1.step hp1 hstep
  refine ⟨fun hclear => (hiff.mpr hclear).reads hp2, fun hok hreads => ?_⟩
  have hok2 : ¬ w''.file.volume.Faulty := by
    unfold Volume.Faulty
    rw [(hs1.trans hs2).faulty]
    exact hok
  exact hiff.mp (hreads.zeroed hp2 hroom hok2)

/-- The empty file, before any call. -/
def emptyWatched (old : UInt8) : Watched := ⟨oneFile old, fun _ => false⟩

theorem oneFile_clear {p : Nat} (h : (oneFile 0).volume.fat_end +
    (oneFile 0).volume.bpb.root_entry_count.toNat * FatDirEntry.SIZE ≤ p) :
    (oneFile 0).volume.bytes p = 0 := by
  have hp : 9216 ≤ p := h
  change splice (splice (fun _ => 0) 9216 [0]) 8704 emptyEntry.serialize p = 0
  rw [splice_outside _ (by simp [FatDirEntry.SIZE]; omega)]
  by_cases heq : p = 9216
  · subst heq
    rfl
  · exact splice_outside _ (by simp; omega)

/-- A byte is written behind the end, over a cluster that is clear. -/
theorem a_clear_gap_reads_zero : ∃ w', Watched.Step (emptyWatched 0) (.write 1 [7]) w' ∧
    w'.ReadsZero := by
  obtain ⟨_, f', hrun, _⟩ := exists_of_passes
    (show passes ((FileCall.write 1 [7]).run (oneFile 0)) (fun _ _ => true) = true by decide +kernel)
  have hstep : Watched.Step (emptyWatched 0) (.write 1 [7])
    ⟨f', (emptyWatched 0).covers (.write 1 [7])⟩ := Watched.Step.call hrun
  have hclear : (emptyWatched 0).Clear (.write 1 [7]) := by
    intro _ l q _ _ _ _ _
    exact oneFile_clear (Nat.le_trans ((oneFile 0).volume.fixed_root_end _) (Nat.le_add_right _ _))
  have hiff := gaps_read_zero_iff_clear (w := emptyWatched 0) (oneFile_wellFormed 0).toSound
    (oneFile_opened 0) (by
      decide) rfl Relation.ReflTransGen.refl
  exact ⟨_, hstep, ((hiff.2 _ _ hstep).1 hclear)⟩

/-- A byte is written behind the end, and the byte before it is what the cluster held. -/
theorem a_gap_shows_old_bytes : (oneFile 65).volume.WellFormed ∧
    (oneFile 65).Opened [] (oneFile 65).volume.root [] 0 ∧
    (oneFile 65).volume.fat_type = .Fat16 ∧ (emptyWatched 65).size = 0 ∧
    ∃ w', Watched.Step (emptyWatched 65) (.write 1 [7]) w' ∧ ¬ w'.ReadsZero := by
  refine ⟨oneFile_wellFormed 65, oneFile_opened 65, fat16Bpb_fat_type, rfl, ?_⟩
  obtain ⟨_, f', hrun, hread⟩ := exists_of_passes
    (show passes ((FileCall.write 1 [7]).run (oneFile 65)) (fun _ f =>
      passes (FatFile.read 0 1 f) (fun bytes _ => bytes == [65])) = true by decide +kernel)
  obtain ⟨bytes, f'', hread, hbytes⟩ := exists_of_passes hread
  refine ⟨_, Watched.Step.call hrun, fun hzero => ?_⟩
  have hbyte := hzero 0 1 bytes f'' hread 0
  rw [beq_iff_eq.mp hbytes] at hbyte
  have hgap : (emptyWatched 65).covers (.write 1 [7]) 0 = false := by decide
  exact absurd (hbyte (by decide) hgap) (by decide)

end FatFile

end zenos_kernel.disk.fs.fat
