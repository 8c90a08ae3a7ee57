-- The copies of the table of a FAT volume: `write_entry` and `allocate_cluster` keep them equal.
import Zenos.Fat.Table

namespace zenos_kernel.disk.fs.fat

open Outcome

namespace Volume

/-- The copies have the same bytes. -/
def Mirrored (v : Volume) : Prop :=
  ∀ i < v.bpb.num_fats.toNat, ∀ q < v.bpb.fat_size * v.bps,
    v.bytes (v.copy_pos i q) = v.bytes (v.copy_pos 0 q)

theorem Mirrored.put {v : Volume} {c x : Nat} (h : v.Mirrored) (hc : v.InFat c) :
    (v.put c x).Mirrored := by
  intro i hi q hq
  change (v.put c x).bytes (v.copy_pos i q) = (v.put c x).bytes (v.copy_pos 0 q)
  rw [hc.put_copy hi hq, hc.put_copy v.num_fats_pos hq, h i hi q hq]

end Volume

namespace FatFileSystemInner

open Volume

/-- The calls on the table. -/
inductive TableCall
  | write_entry (cluster value : Nat)
  | allocate_cluster

def TableCall.run : TableCall → FatM Unit
  | .write_entry cluster value => FatTable.write_entry cluster value
  | .allocate_cluster => do
    let _ ← FatTable.allocate_cluster

/-- The call is about a cluster of the data area. -/
def TableCall.InRange (v : Volume) : TableCall → Prop
  | .write_entry cluster _ => v.InRange cluster
  | .allocate_cluster => True

/-- What a sequence of calls leaves. Each returns, and no error is one of the device. -/
inductive TableRuns : FatFileSystemInner → List TableCall → FatFileSystemInner → Prop
  | nil (s : FatFileSystemInner) : TableRuns s [] s
  | ok {s s1 s2 call calls} : call.InRange s.volume → call.run s = .ok () s1 →
      TableRuns s1 calls s2 → TableRuns s (call :: calls) s2
  | refused {s s1 s2 call calls m} : call.InRange s.volume →
      call.run s = .error (.err (.Other m)) s1 → TableRuns s1 calls s2 →
      TableRuns s (call :: calls) s2

/-- A call that returns changes one entry of a cluster of the data area, or nothing. -/
theorem ends_table_call (s : FatFileSystemInner) {call : TableCall} (h : call.InRange s.volume) :
    Ends (call.run s) (fun _ s' => ∃ c x, s.volume.InRange c ∧ s'.volume = s.volume.put c x)
      (fun e s' => Hard e ∨ s'.volume = s.volume) := by
  cases call with
  | write_entry c x =>
    exact (s.ends_write_entry c x).mono (fun _ _ hv => ⟨c, x, h, hv⟩) (fun _ _ he => Or.inl he.1)
  | allocate_cluster =>
    refine ends_bind s.ends_allocate_cluster ?_
    rintro c s1 ⟨rest, hfree, hv⟩
    refine ends_pure ⟨c, _, (mem_free.mp ?_).1, hv⟩
    rw [hfree]
    exact List.mem_cons_self

/-- The copies of a table with room for all clusters stay equal. -/
theorem copies_stay_equal (s s' : FatFileSystemInner) (calls : List TableCall)
    (hroom : ∀ c, s.volume.InRange c → s.volume.InFat c) (h : s.volume.Mirrored)
    (hruns : TableRuns s calls s') : s'.volume.Mirrored := by
  induction hruns with
  | nil => exact h
  | ok hcall hrun _ ih =>
    obtain ⟨c, x, hc, hv⟩ := (ends_table_call _ hcall).of_ok hrun
    rw [hv] at ih
    exact ih hroom (h.put (hroom c hc))
  | refused hcall hrun _ ih =>
    have hends := ends_table_call _ hcall
    rw [hrun] at hends
    rw [hends.resolve_left fun he => he _ rfl] at ih
    exact ih hroom h

/-- A volume with two copies of the table. -/
def twoTables : FatFileSystemInner :=
  ⟨⟨fun _ => 0, 0, 0, fun _ => false, 512⟩, ⟨512, 1, 1, 2, 16, 1000, 3, 0, 0, 0⟩, 0, none,
    fun _ => 0, 0, rfl⟩

theorem two_tables_stay_equal :
    ∃ s', TableRuns twoTables [.write_entry 341 0xABC, .allocate_cluster] s' ∧
      s'.volume.Mirrored := by
  have hpass : passes ((TableCall.write_entry 341 0xABC).run twoTables)
      (fun _ s1 => passes (TableCall.allocate_cluster.run s1) fun _ _ => true) = true := by
    decide +kernel
  obtain ⟨_, s1, h1, hpass⟩ := exists_of_passes hpass
  obtain ⟨_, s2, h2, _⟩ := exists_of_passes hpass
  have hruns := TableRuns.ok (by unfold TableCall.InRange InRange; decide) h1
    (.ok (show TableCall.allocate_cluster.InRange s1.volume from trivial) h2 (.nil s2))
  refine ⟨s2, hruns, copies_stay_equal twoTables s2 _ ?_ (fun _ _ _ _ => rfl) hruns⟩
  intro c hc
  change c + c / 2 + 2 ≤ 1536
  change 2 ≤ c ∧ c < 994 at hc
  omega

end FatFileSystemInner

end zenos_kernel.disk.fs.fat
