-- A store changes no byte that another address space reads. A second clone of a
-- copy-on-write page adds a slot that nobody counts, and then it does.
import Zenos.Isolation.Spaces

namespace zenos_kernel.process.isolation

open PageTableEntry World

/-! ## A small world

One space that maps one page at address 0: the tables are the frames 0x1000 to
0x4000, the page is the frame 0x5000, and sixteen frames are free. -/

def smallMachine : Machine where
  mem f j :=
    if j = 0 then
      if f = 0x1000 then 0x2007
      else if f = 0x2000 then 0x3007
      else if f = 0x3000 then 0x4007
      else if f = 0x4000 then 0x5007
      else 0
    else 0
  free f := f ∈ (List.range 16).map (fun k => UInt64.ofNat (0x10000 + 0x1000 * k))
  answers k := some (UInt64.ofNat (0x10000 + 0x1000 * k))
  calls := 0
  refcounts _ := none
  cr3 := 0x1000
  freed := []

def smallWorld : World := ⟨smallMachine, [0x1000]⟩

/-- The tables of the small world and their paths. -/
def smallTables : List (List Nat × PhysAddr) :=
  [([], 0x1000), ([0], 0x2000), ([0, 0], 0x3000), ([0, 0, 0], 0x4000)]

theorem small_present {f : PhysAddr} {j : Nat} (h : present (smallMachine.mem f j) = true) :
    j = 0 := by
  by_contra hj
  have h0 : smallMachine.mem f j = 0 := if_neg hj
  rw [h0] at h
  cases h

variable {p : List Nat} {i : Nat}

theorem small_walk_cons {f t : PhysAddr} (h : walk smallMachine.mem f (i :: p) = some t) :
    i = 0 ∧ walk smallMachine.mem (addr (smallMachine.mem f 0)) p = some t := by
  rw [walk] at h
  split at h
  · rename_i hp
    have hi := small_present hp
    subst hi
    exact ⟨rfl, h⟩
  · cases h

theorem small_walk {t : PhysAddr} (hp : p.length ≤ 3)
    (h : walk smallMachine.mem 0x1000 p = some t) : (p, t) ∈ smallTables := by
  match p, hp, h with
  | [], _, h => cases h; decide
  | [i], _, h =>
    obtain ⟨rfl, h1⟩ := small_walk_cons h
    cases h1; decide
  | [i, j], _, h =>
    obtain ⟨rfl, h1⟩ := small_walk_cons h
    obtain ⟨rfl, h2⟩ := small_walk_cons h1
    cases h2; decide
  | [i, j, k], _, h =>
    obtain ⟨rfl, h1⟩ := small_walk_cons h
    obtain ⟨rfl, h2⟩ := small_walk_cons h1
    obtain ⟨rfl, h3⟩ := small_walk_cons h2
    cases h3; decide

theorem small_entry {e : PageTableEntry}
    (h : Entry smallMachine 0x1000 p i e) : p = [0, 0, 0] ∧ i = 0 ∧ e = 0x5007 := by
  obtain ⟨t, hw, rfl⟩ := h.found
  have hi := small_present h.present
  subst hi
  have hmem := small_walk (by rw [h.path.1]) hw
  have hlen := h.path.1
  simp only [smallTables, List.mem_cons, List.not_mem_nil, or_false] at hmem
  rcases hmem with ⟨rfl, rfl⟩ | ⟨rfl, rfl⟩ | ⟨rfl, rfl⟩ | ⟨rfl, rfl⟩
  · cases hlen
  · cases hlen
  · cases hlen
  · exact ⟨rfl, rfl, by decide⟩

theorem small_free {f : PhysAddr} (h : smallMachine.free f = true) : Aligned f := by
  have hall : ∀ k < 16, UInt64.ofNat (0x10000 + 0x1000 * k) &&& ADDR_MASK =
      UInt64.ofNat (0x10000 + 0x1000 * k) := by decide +kernel
  obtain ⟨k, hk, rfl⟩ := List.mem_map.mp (of_decide_eq_true h)
  exact hall k (List.mem_range.mp hk)

theorem small_init : smallWorld.Init 0x1000 where
  live := rfl
  tree := by
    intro p q t hp _ hq _ h1 h2
    have hall : ∀ x ∈ smallTables, ∀ y ∈ smallTables, x.2 = y.2 → x.1 = y.1 := by decide
    exact hall _ (small_walk hp h1) _ (small_walk hq h2) rfl
  small := by
    intro p t i hp _ hw _ hpres
    have hi := small_present hpres
    subst hi
    have hall : ∀ x ∈ smallTables, huge (smallMachine.mem x.2 0) = false := by decide
    have hlen : p.length ≤ 3 := by omega
    exact hall (p, t) (small_walk hlen hw)
  exclusive := by
    intro p q i j e e' h1 h2 _
    obtain ⟨rfl, rfl, _⟩ := small_entry h1
    obtain ⟨rfl, rfl, _⟩ := small_entry h2
    exact ⟨rfl, rfl⟩
  apart := by
    intro p i e q t h1 hq _ hw
    obtain ⟨_, _, rfl⟩ := small_entry h1
    have hall : ∀ x ∈ smallTables, addr 0x5007 ≠ x.2 := by decide
    exact hall _ (small_walk hq hw)
  flags := by
    intro p i e h1 hc
    obtain ⟨_, _, rfl⟩ := small_entry h1
    exact absurd hc (by decide)
  taken := by
    intro p t hp _ hw
    have hall : ∀ x ∈ smallTables, smallMachine.free x.2 = false := by decide +kernel
    exact hall _ (small_walk hp hw)
  owned := by
    intro p i e h1
    obtain ⟨_, _, rfl⟩ := small_entry h1
    decide +kernel
  counts := fun f c h => by cases h
  aligned := by
    intro f hf
    rcases hf with hf | rfl
    · exact small_free hf
    · exact (by decide : (0x1000 : UInt64) &&& ADDR_MASK = 0x1000)

/-! ## The law -/

/-- A store by one address space changes no byte that another one reads, in
every run whose clones and teardowns are fair. -/
theorem a_store_stays_in_its_space {w0 w : World} {r0 r r' : PhysAddr} {va va' : Nat}
    (hinit : w0.Init r0) (hrun : Runs Fair w0 w) (hr : r ∈ w.live)
    (hr' : r' ∈ w.live) (hne : r' ≠ r) (hva : va < 2 ^ 47) (hva' : va' < 2 ^ 47) (v : UInt8)
    (tries : Nat) : (w.step (.store r va v tries)).m.load r' va' = w.m.load r' va' := by
  obtain ⟨role, h⟩ := (inv_init hinit false).runs hrun
  obtain ⟨role', hl⟩ := store_spec tries (h.ok.load_cr3 r) (h.live r hr) hva v
  exact hl.load (h.ok.load_cr3 r).wf (h.live r' hr') hne hva'

/-- The small world after a clone. The child is the space 0x10000. -/
def oneChild : World := smallWorld.step (.clone 0x1000)

/-- After one clone, a store of the parent is not seen by the child. -/
theorem the_child_does_not_see_a_store_of_its_parent :
    oneChild.live = [0x10000, 0x1000] ∧ oneChild.m.load 0x10000 0 = some 0 ∧
      (oneChild.step (.store 0x1000 0 1 2)).m.load 0x1000 0 = some 1 ∧
        (oneChild.step (.store 0x1000 0 1 2)).m.load 0x10000 0 = some 0 := by
  have hfair : smallWorld.Fair (.clone 0x1000) := by
    intro p i e h
    obtain ⟨_, _, rfl⟩ := small_entry h
    decide
  have hrun : Runs Fair smallWorld oneChild :=
    .single ⟨.clone 0x1000, List.mem_cons_self, hfair, rfl⟩
  have heval : oneChild.live = [0x10000, 0x1000] ∧ oneChild.m.load 0x10000 0 = some 0 ∧
      (oneChild.step (.store 0x1000 0 1 2)).m.load 0x1000 0 = some 1 := by decide +kernel
  have hlaw : (oneChild.step (.store 0x1000 0 1 2)).m.load 0x10000 0 = oneChild.m.load 0x10000 0 :=
    a_store_stays_in_its_space small_init hrun (by rw [heval.1]; decide)
      (by rw [heval.1]; decide) (by decide)
    (by decide) (by decide) 1 2
  exact ⟨heval.1, heval.2.1, heval.2.2, hlaw.trans heval.2.1⟩

/-- The parent makes a second clone, the space 0x14000. -/
def twoChildren : World := oneChild.step (.clone 0x1000)

theorem runs_twoChildren : Runs (fun _ _ => True) smallWorld twoChildren := by
  have hlive : 0x1000 ∈ oneChild.live := by decide +kernel
  exact .tail (.single ⟨.clone 0x1000, List.mem_cons_self, trivial, rfl⟩)
    ⟨.clone 0x1000, hlive, trivial, rfl⟩

/-- The parent stores a byte and gets a copy of the page: its count is 1 now. -/
def parentCopied : World := twoChildren.step (.store 0x1000 0 1 2)

/-- Both children map the page with the count 1, so the one writes to it in
place, and the other sees the byte. -/
theorem a_store_is_seen_by_a_sibling :
    ¬ ∀ (w0 w : World) (r0 r r' : PhysAddr) (va va' : Nat) (v : UInt8) (tries : Nat),
      w0.Init r0 → Runs (fun _ _ => True) w0 w → r ∈ w.live → r' ∈ w.live → r' ≠ r →
      va < 2 ^ 47 → va' < 2 ^ 47 → (Machine.store tries va v (w.load_cr3 r)).1 = true →
      (w.step (.store r va v tries)).m.load r' va' = w.m.load r' va' := by
  intro h
  have heval : twoChildren.live = [0x14000, 0x10000, 0x1000] ∧ parentCopied.m.load 0x14000 0 = some 0 ∧
      (Machine.store 2 0 2 (parentCopied.load_cr3 0x10000)).1 = true ∧
      (parentCopied.step (.store 0x10000 0 2 2)).m.load 0x14000 0 = some 2 := by decide +kernel
  obtain ⟨hlive2, hbefore, hdone, hafter⟩ := heval
  have h3 : Runs (fun _ _ => True) smallWorld parentCopied :=
    .tail runs_twoChildren ⟨.store 0x1000 0 1 2, ⟨by rw [hlive2]; decide, by decide⟩, trivial, rfl⟩
  have hlive3 : parentCopied.live = [0x14000, 0x10000, 0x1000] :=
    (step_store_live twoChildren 0x1000 0 1 2).trans hlive2
  have hsame := h smallWorld parentCopied 0x1000 0x10000 0x14000 0 0 2 2 small_init h3
    (by rw [hlive3]; decide) (by rw [hlive3]; decide) (by decide) (by decide) (by decide) hdone
  rw [hbefore, hafter] at hsame
  cases hsame

end zenos_kernel.process.isolation
