-- What a clone does to the memory. The tables of the new space are built below
-- a level-4 table of its own; in the tables of the parent only level-1 entries
-- change, and each of them becomes one of the two slots of a shared page.
import Zenos.Isolation.Slots
import Mathlib.Algebra.Order.BigOperators.Group.Finset

namespace zenos_kernel.process.isolation

open PageTableEntry CopyOnWrite Outcome Machine

/-! ## What a clone costs -/

/-- How many tables a clone of the subtree allocates. -/
def tables_under (mem : PhysAddr → Nat → UInt64) : Nat → PhysAddr → Nat
  | 0, _ => 0
  | level + 1, t =>
    1 + if level = 0 then 0
      else ∑ i ∈ Finset.range 512,
        if present (mem t i) && !huge (mem t i) then tables_under mem level (addr (mem t i)) else 0

/-- How many tables a clone of the space allocates. -/
def tables_of (mem : PhysAddr → Nat → UInt64) (root : PhysAddr) : Nat :=
  1 + ∑ i ∈ Finset.range 256,
    if present (mem root i) then tables_under mem 3 (addr (mem root i)) else 0

variable {level i k : Nat} {m m' m1 : Machine} {role role' role1 : PhysAddr → Role}
  {touched : List Nat → Prop} {f : PhysAddr → Kernel PhysAddr} {strict : Bool}
  {r n src new : PhysAddr} {p : List Nat} {cost : Nat → Nat} {e : PageTableEntry}
  {touched' : List Nat → Prop} {m2 : Machine}

theorem tables_under_congr (h : Wf role m) {t : PhysAddr} {mem : PhysAddr → Nat → UInt64}
    (hmem : ∀ t' q i, role t' = .table r (p ++ q) → (p ++ q).length < 3 → mem t' i = m.mem t' i)
    (ht : role t = .table r p) (hp : p ≠ []) (hlen : p.length + level = 4) :
    tables_under mem level t = tables_under m.mem level t := by
  induction level generalizing t p with
  | zero => rfl
  | succ level ih =>
    unfold tables_under
    by_cases hl : level = 0
    · rw [if_pos hl, if_pos hl]
    rw [if_neg hl, if_neg hl]
    refine congrArg (1 + ·) (Finset.sum_congr rfl (fun i hi => ?_))
    have hi' : mem t i = m.mem t i := by
      refine hmem t [] i ?_ ?_
      · rw [List.append_nil]; exact ht
      · rw [List.append_nil]; omega
    rw [hi']
    split
    · rename_i hpres
      simp only [Bool.and_eq_true] at hpres
      have hb := h.below t r p i ht (by omega)
        (by rw [limit_of_ne hp]; exact Finset.mem_range.mp hi) hpres.1
      refine ih ?_ hb.2 (by simp) (by simp; omega)
      intro t' q j
      rw [List.append_assoc]
      exact hmem t' ([i] ++ q) j
    · rfl

/-! ## What a clone changes -/

theorem ne_of_spare {t r' : PhysAddr} {q : List Nat} (hspare : role new = .spare)
    (ht : role t = .table r' q) : t ≠ new := by
  rintro rfl
  cases hspare.symm.trans ht

/-- A part of the clone of space `r` into space `n` was made, below path `p`.
Of the tables that were there before, the level-1 tables of `r` at the paths in
`touched` may have changed. -/
structure Grown (r n : PhysAddr) (p : List Nat) (touched : List Nat → Prop)
    (role : PhysAddr → Role) (m : Machine) (role' : PhysAddr → Role) (m' : Machine) : Prop where
  keep : ∀ f, role f ≠ .spare → role' f = role f
  fresh : ∀ f, role f = .spare → role' f = .spare ∨ ∃ q, role' f = .table n (p ++ q)
  upper : ∀ t r' q i, role t = .table r' q → q.length < 3 → m'.mem t i = m.mem t i
  leaves : ∀ t r' q i, role t = .table r' q → q.length = 3 → ¬ (r' = r ∧ touched q) →
    m'.mem t i = m.mem t i
  cr3 : m'.cr3 = m.cr3
  freed : m'.freed = m.freed

/-- What was made below a longer path was made below a shorter one. -/
theorem Grown.lower {p' : List Nat} (h : Grown r n (p ++ p') touched role m role' m') :
    Grown r n p touched role m role' m' where
  keep := h.keep
  fresh := by
    intro f hf
    rcases h.fresh f hf with h1 | ⟨q, h1⟩
    · exact Or.inl h1
    · exact Or.inr ⟨p' ++ q, by rw [h1, List.append_assoc]⟩
  upper := h.upper
  leaves := h.leaves
  cr3 := h.cr3
  freed := h.freed

section

variable (h : Grown r n p touched role m role' m')

include h

theorem Grown.table {t r' : PhysAddr} {q : List Nat}
    (ht : role t = .table r' q) : role' t = .table r' q := by
  rw [h.keep t (by rw [ht]; nofun), ht]

theorem Grown.weaken (ht : ∀ q, touched q → touched' q) : Grown r n p touched' role m role' m' where
  keep := h.keep
  fresh := h.fresh
  upper := h.upper
  leaves := fun t r' q i h1 h2 h3 => h.leaves t r' q i h1 h2 (fun h4 => h3 ⟨h4.1, ht q h4.2⟩)
  cr3 := h.cr3
  freed := h.freed

theorem Grown.trans {role'' : PhysAddr → Role} {m'' : Machine}
    (h' : Grown r n p touched role' m' role'' m'') : Grown r n p touched role m role'' m'' where
  keep := by
    intro f hf
    have h1 := h.keep f hf
    rw [h'.keep f (by rw [h1]; exact hf), h1]
  fresh := by
    intro f hf
    rcases h.fresh f hf with h1 | ⟨q, h1⟩
    · exact h'.fresh f h1
    · exact Or.inr ⟨q, h'.table h1⟩
  upper := by
    intro t r' q i ht hq
    rw [h'.upper t r' q i (h.table ht) hq, h.upper t r' q i ht hq]
  leaves := by
    intro t r' q i ht hq hn
    rw [h'.leaves t r' q i (h.table ht) hq hn, h.leaves t r' q i ht hq hn]
  cr3 := h'.cr3.trans h.cr3
  freed := h'.freed.trans h.freed

/-- Writes to tables that were spare before do not count. -/
theorem Grown.congr
    (hmem : ∀ t j, role t ≠ .spare → m1.mem t j = m'.mem t j) (hcr3 : m1.cr3 = m'.cr3)
    (hfreed : m1.freed = m'.freed) : Grown r n p touched role m role' m1 where
  keep := h.keep
  fresh := h.fresh
  upper := by
    intro t r' q j ht hq
    rw [hmem t j (by rw [ht]; nofun), h.upper t r' q j ht hq]
  leaves := by
    intro t r' q j ht hq hn
    rw [hmem t j (by rw [ht]; nofun), h.leaves t r' q j ht hq hn]
  cr3 := hcr3.trans h.cr3
  freed := hfreed.trans h.freed

end

/-- The pages below path `p` of space `r` that a clone shares without harm: none
of them is copy-on-write already, and none is writable behind the bit that marks
a huge page. A strict clone shares writable pages only. -/
def CloneClear (strict : Bool) (role : PhysAddr → Role) (m : Machine) (r : PhysAddr)
    (p : List Nat) : Prop :=
  ∀ t q i, role t = .table r (p ++ q) → (p ++ q).length = 3 → i < 512 →
    present (m.mem t i) = true → cow (m.mem t i) = false ∧
      (huge (m.mem t i) = true → writable (m.mem t i) = false) ∧
      (strict = true → writable (m.mem t i) = true)

/-- The subtree at path `p` was cloned to the table `new`. -/
structure Done (strict : Bool) (r n : PhysAddr) (level : Nat) (p : List Nat)
    (role : PhysAddr → Role) (m : Machine) (src new : PhysAddr) (role' : PhysAddr → Role)
    (m' : Machine) : Prop where
  ok : Ok strict role' m'
  grown : Grown r n p (fun q => ∃ s, q = p ++ s) role m role' m'
  rooted : role' new = .table n p
  built : ∀ t q, role' t = .table n (p ++ q) → walk m'.mem new q = some t
  served : ∀ k, m.Served (tables_under m.mem level src + k) → m'.Served k

/-- The clone ran out of frames. `cost` is the number of frames it needs. -/
structure Failed (strict : Bool) (r n : PhysAddr) (p : List Nat) (cost : Nat)
    (role : PhysAddr → Role) (m : Machine) (role' : PhysAddr → Role) (m' : Machine) : Prop where
  ok : Ok strict role' m'
  grown : Grown r n p (fun q => ∃ s, q = p ++ s) role m role' m'
  refused : ¬ m.Served cost

/-- `f` clones the subtrees of a level. -/
def Clones (strict : Bool) (r n : PhysAddr) (level : Nat) (f : PhysAddr → Kernel PhysAddr) : Prop :=
  ∀ p role m src, Ok strict role m → role src = .table r p → p ≠ [] → p.length + level = 4 →
    CloneClear strict role m r p → (∀ t q, role t ≠ .table n (p ++ q)) →
      Ends (f src m) (fun new m' => ∃ role', Done strict r n level p role m src new role' m')
        (fun _ m' => ∃ role', Failed strict r n p (tables_under m.mem level src) role m role' m')

/-- The loop over the entries of `src`, before entry `i`. -/
structure CloneLoop (strict : Bool) (r n src new : PhysAddr) (p : List Nat) (cost : Nat → Nat)
    (touched : List Nat → Prop) (role : PhysAddr → Role) (m : Machine) (i : Nat)
    (role' : PhysAddr → Role) (m' : Machine) : Prop where
  ok : Ok strict role' m'
  grown : Grown r n p touched role m role' m'
  rooted : role' new = .table n p
  empty : ∀ j, i ≤ j → j < limit p → present (m'.mem new j) = false
  todo : ∀ j, i ≤ j → m'.mem src j = m.mem src j
  built : ∀ t q, role' t = .table n (p ++ q) →
    (∀ j s, q = j :: s → j < i) ∧ walk m'.mem new q = some t
  served : ∀ k, m.Served (1 + ∑ j ∈ Finset.range i, cost j + k) → m'.Served k

/-- An entry that is not there needs no work. -/
theorem CloneLoop.skip (h : CloneLoop strict r n src new p cost touched role m i role' m')
    (hcost : cost i = 0) (ht : ∀ q, touched q → touched' q) :
    CloneLoop strict r n src new p cost touched' role m (i + 1) role' m' where
  ok := h.ok
  grown := h.grown.weaken ht
  rooted := h.rooted
  empty := fun j hj => h.empty j (by omega)
  todo := fun j hj => h.todo j (by omega)
  built := fun t q hq => ⟨fun j s hs => by have := (h.built t q hq).1 j s hs; omega,
    (h.built t q hq).2⟩
  served := by
    intro k hk
    refine h.served k ?_
    rwa [Finset.sum_range_succ, hcost, Nat.add_zero] at hk

/-- The paths of the parent that the first `i` turns of a loop touch. -/
def turned (p : List Nat) (i : Nat) (q : List Nat) : Prop := ∃ j < i, ∃ s, q = p ++ j :: s

/-- The clone of a child is linked into the new table. -/
theorem CloneLoop.link {role2 : PhysAddr → Role} {c cloned : PhysAddr}
    (h : CloneLoop strict r n src new p cost (turned p i) role m i role1 m1)
    (d : Done strict r n level (p ++ [i]) role1 m1 c cloned role2 m2) (hspare : role new = .spare)
    (hsrc : role src = .table r p) (hp : p.length < 3) (hpres : present e = true)
    (hhuge : huge e = false) (hcount : tables_under m1.mem level c = cost i) :
    CloneLoop strict r n src new p cost (turned p (i + 1)) role m (i + 1) role2
      (m2.set_entry new i (set_addr cloned (flags e))) := by
  have hnew2 := d.grown.table h.rooted
  have hal : Aligned cloned := d.ok.wf.aligned cloned (Or.inr (by rw [d.rooted]; nofun))
  have hsrc1 := h.grown.table hsrc
  -- the tables of the new space below an entry of `new` are not `new`
  have hother : ∀ t j q, role2 t = .table n (p ++ j :: q) → t ≠ new := by
    rintro t j q ht rfl
    rw [hnew2] at ht
    have := (Role.table.inj ht).2
    simp at this
  refine ⟨?_, ?_, hnew2, ?_, ?_, ?_, ?_⟩
  · exact d.ok.link hnew2 hp d.rooted (addr_set_addr hal (noAddr_flags e))
        (by rw [huge_link hal]; exact hhuge)
  · refine ((h.grown.weaken ?_).trans (d.grown.lower.weaken ?_)).congr ?_ rfl rfl
    · rintro q ⟨j, hj, s, rfl⟩; exact ⟨j, by omega, s, rfl⟩
    · rintro q ⟨s, rfl⟩; exact ⟨i, by omega, s, by simp⟩
    · exact fun t j ht => m2.set_entry_other _ (by rintro ⟨rfl, _⟩; exact ht hspare)
  · intro j hj hj'
    rw [m2.set_entry_other _ (by omega), d.grown.upper new n p j h.rooted hp]
    exact h.empty j (by omega) hj'
  · intro j hj
    rw [m2.set_entry_other _ (fun hx => ne_of_spare hspare hsrc hx.1),
      d.grown.upper src r p j hsrc1 hp]
    exact h.todo j (by omega)
  · intro t q ht
    cases q with
    | nil =>
      rw [List.append_nil] at ht
      exact ⟨fun j s hs => (by cases hs), by rw [d.ok.wf.inj t new n p ht hnew2]; rfl⟩
    | cons j q =>
      have hpath := d.ok.wf.path t n _ ht
      have hfits := (fits_append [] p (j :: q)).mp hpath.2
      have hlen : p.length + (q.length + 1) ≤ 3 := by simpa using hpath.1
      by_cases hs : role1 t = .spare
      · -- a table of the clone that was just made
        rcases d.grown.fresh t hs with h1 | ⟨q', h1⟩
        · rw [h1] at ht; cases ht
        have hq := (Role.table.inj (h1.symm.trans ht)).2
        rw [List.append_assoc] at hq
        have hq' : i :: q' = j :: q := List.append_cancel_left hq
        obtain ⟨rfl, rfl⟩ := List.cons.inj hq'
        refine ⟨fun j s hjs => by cases hjs; omega, ?_⟩
        rw [walk, m2.set_entry_same, present_link hal, if_pos hpres,
      addr_set_addr hal (noAddr_flags e)]
        rw [← d.built t q' h1]
        refine d.ok.wf.walk_congr ?_ d.rooted ?_ (by simp; omega)
        · intro t' p' k ht' _ _
          refine m2.set_entry_other _ (fun hx => hother t' i p' ?_ hx.1)
          rw [ht', List.append_assoc]
          rfl
        · exact hfits.2.2
      · -- a table that was there before
        rw [d.grown.keep t hs] at ht
        obtain ⟨hlt, hw⟩ := h.built t (j :: q) ht
        have hji : j < i := hlt j q rfl
        refine ⟨fun j' s hjs => by cases hjs; omega, ?_⟩
        have hnj : (m2.set_entry new i (set_addr cloned (flags e))).mem new j = m1.mem new j := by
          rw [m2.set_entry_other _ (by omega), d.grown.upper new n p j h.rooted hp]
        rw [walk] at hw ⊢
        rw [hnj]
        split at hw
        · rename_i hpj
          rw [if_pos hpj, ← hw]
          have hb := (h.ok.wf.below new n p j h.rooted hp hfits.2.1 hpj).2
          refine h.ok.wf.walk_congr ?_ hb hfits.2.2 (by simp; omega)
          intro t' p' k ht' hlen' _
          rw [m2.set_entry_other, d.grown.upper t' n _ k ht' hlen']
          refine fun hx => hother t' j p' ?_ hx.1
          rw [d.grown.table ht', List.append_assoc]
          rfl
        · cases hw
  · intro k hk
    have h1 := h.served (cost i + k)
    have h2 : m1.Served (cost i + k) := by
      refine h1 (hk.mono ?_)
      rw [Finset.sum_range_succ]
      omega
    rw [← hcount] at h2
    exact d.served k h2

/-- One turn of the loop of an upper level: the child is cloned and linked. -/
theorem CloneLoop.child (hf : Clones strict r n level f) (hrn : n ≠ r) (hspare : role new = .spare)
    (hwf : Wf role m) (hsrc : role src = .table r p) (hlen : p.length + (level + 1) = 4)
    (hlevel : 1 ≤ level) (hclear : CloneClear strict role m r p) (hi : i < limit p)
    (hpres : present (m.mem src i) = true)
    (hcost : cost i = tables_under m.mem level (addr (m.mem src i)))
    (h : CloneLoop strict r n src new p cost (turned p i) role m i role1 m1) :
    Ends ((f (addr (m.mem src i)) >>= fun c =>
        modify (·.set_entry new i (set_addr c (flags (m.mem src i))))) m1)
      (fun _ m' => ∃ role', CloneLoop strict r n src new p cost (turned p (i + 1)) role m (i + 1)
        role' m')
      (fun _ m' => ∃ role', Failed strict r n p (1 + ∑ j ∈ Finset.range (i + 1), cost j) role m
        role' m') := by
  have hsrc1 := h.grown.table hsrc
  have hentry : m1.mem src i = m.mem src i := h.todo i (Nat.le_refl i)
  have hchild := hwf.below src r p i hsrc (by omega) hi hpres
  have hchild1 : role1 (addr (m.mem src i)) = .table r (p ++ [i]) := by
    have := (h.ok.wf.below src r p i hsrc1 (by omega) hi (by rw [hentry]; exact hpres)).2
    rwa [hentry] at this
  -- tables of the parent that the loop has not reached
  have hold : ∀ t q, role1 t = .table r (p ++ i :: q) → role t = .table r (p ++ i :: q) := by
    intro t q ht
    by_cases hs : role t = .spare
    · rcases h.grown.fresh t hs with h1 | ⟨q', h1⟩
      · rw [h1] at ht; cases ht
      · rw [h1] at ht; exact absurd (Role.table.inj ht).1 hrn
    · rw [← h.grown.keep t hs, ht]
  have hclear1 : CloneClear strict role1 m1 r (p ++ [i]) := by
    intro t q j ht hq hj hp
    rw [List.append_assoc] at ht hq
    have ht' := hold t q ht
    have hm : m1.mem t j = m.mem t j := by
      refine h.grown.leaves t r _ j ht' hq ?_
      rintro ⟨_, j', hj', s, hs⟩
      have := List.append_cancel_left hs
      cases this
      omega
    rw [hm] at hp ⊢
    exact hclear t ([i] ++ q) j ht' hq hj hp
  have hnone : ∀ t q, role1 t ≠ .table n (p ++ [i] ++ q) := by
    intro t q ht
    rw [List.append_assoc] at ht
    have := (h.built t _ ht).1 i q rfl
    omega
  have hcount : tables_under m1.mem level (addr (m.mem src i)) = cost i := by
    rw [hcost]
    refine tables_under_congr hwf ?_ hchild.2 (by simp) (by simp; omega)
    intro t q j ht hq
    exact h.grown.upper t r _ j ht hq
  refine ends_then (hf (p ++ [i]) role1 m1 _ h.ok hchild1 (by simp) (by simp; omega)
    hclear1 hnone) ?_ ?_
  · rintro _ m2 ⟨role2, hfail⟩
    refine ⟨role2, hfail.ok, ?_, ?_⟩
    · refine (h.grown.weaken ?_).trans (hfail.grown.lower.weaken ?_)
      · rintro q ⟨j, _, s, rfl⟩; exact ⟨j :: s, rfl⟩
      · rintro q ⟨s, rfl⟩; exact ⟨i :: s, by simp⟩
    · intro hserved
      refine hfail.refused ?_
      rw [hcount]
      refine h.served (cost i) ?_
      rwa [Finset.sum_range_succ, ← Nat.add_assoc] at hserved
  · rintro cloned m2 ⟨role2, hdone⟩
    exact ⟨role2, h.link hdone hspare hsrc (by omega) hpres hchild.1 hcount⟩

section

variable (h : CloneLoop strict r n src new p cost (· = p) role m i role1 m1) (hp : p.length = 3)

include h hp

/-- One turn of the loop of level 1: entry `i` of both tables changes. -/
theorem CloneLoop.slot (hsrc : role src = .table r p) (hspare : role new = .spare)
    (hcost : cost i = 0) (hok : Ok strict role1 m2)
    (hmem : ∀ t j, ¬ ((t = src ∨ t = new) ∧ j = i) → m2.mem t j = m1.mem t j)
    (hserved : ∀ k, m1.Served k → m2.Served k) (hcr3 : m2.cr3 = m1.cr3)
    (hfreed : m2.freed = m1.freed) :
    CloneLoop strict r n src new p cost (· = p) role m (i + 1) role1 m2 := by
  refine ⟨hok, ⟨h.grown.keep, h.grown.fresh, ?_, ?_, hcr3.trans h.grown.cr3,
    hfreed.trans h.grown.freed⟩, h.rooted, ?_, ?_, ?_, ?_⟩
  · intro t r' q j ht hq
    rw [hmem t j, h.grown.upper t r' q j ht hq]
    rintro ⟨rfl | rfl, _⟩
    · rw [hsrc] at ht
      cases ht
      omega
    · exact ne_of_spare hspare ht rfl
  · intro t r' q j ht hq hn
    rw [hmem t j, h.grown.leaves t r' q j ht hq hn]
    rintro ⟨rfl | rfl, _⟩
    · rw [hsrc] at ht
      cases ht
      exact hn ⟨rfl, rfl⟩
    · exact ne_of_spare hspare ht rfl
  · intro j hj hj'
    rw [hmem new j (by omega)]
    exact h.empty j (by omega) hj'
  · intro j hj
    rw [hmem src j (by omega)]
    exact h.todo j (by omega)
  · intro t q ht
    have hlen := (hok.wf.path t n _ ht).1
    cases q with
    | nil =>
      rw [List.append_nil] at ht
      exact ⟨fun j s hs => (by cases hs), by rw [hok.wf.inj t new n p ht h.rooted]; rfl⟩
    | cons j q => simp at hlen; omega
  · intro k hk
    refine hserved k (h.served k ?_)
    rwa [Finset.sum_range_succ, hcost, Nat.add_zero] at hk

/-- One turn of the loop of level 1. -/
theorem CloneLoop.leaf (hi : i < 512) (hsrc : role src = .table r p) (hspare : role new = .spare)
    (hclear : CloneClear strict role m r p) (hcost : cost i = 0) :
    Ends (clone_entry f 1 src new i m1)
      (fun _ m' => ∃ role', CloneLoop strict r n src new p cost (· = p) role m (i + 1) role' m')
      (fun _ _ => False) := by
  have hsrc1 := h.grown.table hsrc
  have hentry : m1.mem src i = m.mem src i := h.todo i (Nat.le_refl i)
  have hempty : present (m1.mem new i) = false := by
    refine h.empty i (Nat.le_refl i) ?_
    rw [limit_of_ne (by rintro rfl; cases hp)]
    exact hi
  have hc : present (m1.mem src i) = true → cow (m1.mem src i) = false ∧
      (huge (m1.mem src i) = true → writable (m1.mem src i) = false) ∧
      (strict = true → writable (m1.mem src i) = true) := by
    rw [hentry]
    exact hclear src [] i (by rw [List.append_nil]; exact hsrc) (by rw [List.append_nil]; exact hp) hi
  -- a read-only page is shared as it is
  have hplain : present (m1.mem src i) = true → writable (m1.mem src i) = false →
      CloneLoop strict r n src new p cost (· = p) role m (i + 1) role1
        (m1.set_entry new i (m1.mem src i)) := by
    intro hpres hw
    obtain ⟨hcow, _, hstrict⟩ := hc hpres
    cases strict with
    | true => rw [hstrict rfl] at hw; cases hw
    | false =>
      refine h.slot hp hsrc hspare hcost
        (h.ok.share_plain hsrc1 h.rooted hp hi hpres hw hcow hempty) ?_ (fun _ h => h) rfl rfl
      intro t j hx
      exact m1.set_entry_other _ (fun h => hx ⟨Or.inr h.1, h.2⟩)
  change Ends ((if _ then _ else _ : Kernel Unit) m1) _ _
  simp only [contains_present, contains_huge, contains_writable]
  cases hpres : present (m1.mem src i) with
  | false => exact ⟨role1, h.skip hcost (fun _ h => h)⟩
  | true =>
    cases hh : huge (m1.mem src i) with
    | true => exact ⟨role1, hplain hpres ((hc hpres).2.1 hh)⟩
    | false =>
      cases hw : writable (m1.mem src i) with
      | false => exact ⟨role1, hplain hpres hw⟩
      | true =>
        refine ⟨role1, h.slot hp hsrc hspare hcost
          (h.ok.share hsrc1 h.rooted hp hi hpres hw hempty) ?_ (fun _ h => h) rfl rfl⟩
        intro t j hx
        change ((m1.set_entry src i _).set_entry new i _).mem t j = _
        rw [set_entry_other _ _ (fun h => hx ⟨Or.inr h.1, h.2⟩),
          set_entry_other _ _ (fun h => hx ⟨Or.inl h.1, h.2⟩)]

end

theorem CloneLoop.start (h : Ok strict role m) (hf : m.free new = true)
    (hno : ∀ t q, role t ≠ .table n (p ++ q)) (hp : p.length ≤ 3 ∧ Fits [] p)
    (hroot : p = [] → new = n) (hsrc : role src = .table r p)
    (hserved : ∀ k, m.Served (1 + k) → ((m.take new).zero new).Served k) :
    CloneLoop strict r n src new p cost touched role m 0 (Function.update role new (.table n p))
      ((m.take new).zero new) := by
  have hspare := h.wf.free new hf
  have hne : ∀ {f}, role f ≠ .spare → f ≠ new := by rintro f h' rfl; exact h' hspare
  have hmem : ∀ t j, t ≠ new → ((m.take new).zero new).mem t j = m.mem t j := by
    intro t j ht
    simp [zero, take, ht]
  refine ⟨h.alloc_table hf ?_ hp hroot, ?_, Function.update_self .., ?_, ?_, ?_, ?_⟩
  · intro t ht
    exact hno t [] (by rw [List.append_nil]; exact ht)
  · refine ⟨?_, ?_, ?_, ?_, rfl, rfl⟩
    · intro f hf
      rw [Function.update_of_ne (hne hf)]
    · intro f hf
      by_cases hfn : f = new
      · subst hfn
        exact Or.inr ⟨[], by rw [Function.update_self, List.append_nil]⟩
      · rw [Function.update_of_ne hfn]
        exact Or.inl hf
    · intro t r' q i ht _
      exact hmem t i (ne_of_spare hspare ht)
    · intro t r' q i ht _ _
      exact hmem t i (ne_of_spare hspare ht)
  · intro j _ _
    simp [zero]
  · intro j _
    exact hmem src j (ne_of_spare hspare hsrc)
  · intro t q ht
    by_cases htn : t = new
    · subst htn
      rw [Function.update_self] at ht
      have hq := (Role.table.inj ht).2
      have hq' : q = [] := by simpa using hq
      subst hq'
      exact ⟨fun j s hs => (by cases hs), rfl⟩
    · rw [Function.update_of_ne htn] at ht
      exact absurd ht (hno t q)
  · intro k hk
    exact hserved k (by simpa using hk)

/-! ## The recursion -/

/-- The cost of the entries of a table of level `level + 1`. -/
def entry_cost (mem : PhysAddr → Nat → UInt64) (level : Nat) (t : PhysAddr) (i : Nat) : Nat :=
  if level = 0 then 0
  else if present (mem t i) && !huge (mem t i) then tables_under mem level (addr (mem t i)) else 0

theorem tables_under_succ (mem : PhysAddr → Nat → UInt64) (level : Nat) (t : PhysAddr) :
    tables_under mem (level + 1) t = 1 + ∑ i ∈ Finset.range 512, entry_cost mem level t i := by
  unfold tables_under entry_cost
  split
  · simp
  · rfl

/-- The loop was over all entries. -/
theorem CloneLoop.done (h : CloneLoop strict r n src new p (entry_cost m.mem level src) touched role m
    512 role' m') (ht : ∀ q, touched q → ∃ s, q = p ++ s) :
    Done strict r n (level + 1) p role m src new role' m' where
  ok := h.ok
  grown := h.grown.weaken ht
  rooted := h.rooted
  built := fun t q hq => (h.built t q hq).2
  served := by
    intro k hk
    rw [tables_under_succ] at hk
    exact h.served k hk

theorem ends_leaf_loop (h : CloneLoop strict r n src new p cost (· = p) role m 0 role1 m1)
    (hp : p.length = 3) (hsrc : role src = .table r p) (hspare : role new = .spare)
    (hclear : CloneClear strict role m r p) (hcost : ∀ i, cost i = 0) (hk : k ≤ 512) :
    Ends (each (List.range k) (clone_entry f 1 src new) m1)
      (fun _ m' => ∃ role', CloneLoop strict r n src new p cost (· = p) role m k role' m')
      (fun _ _ => False) := by
  refine ends_each_range (fun i m' => ∃ role', CloneLoop strict r n src new p cost (· = p) role m i
    role' m') ⟨_, h⟩ ?_
  rintro i m2 hi ⟨role2, hinv⟩
  exact hinv.leaf hp (by omega) hsrc hspare hclear (hcost i)

/-- The loop of an upper level, up to entry `k`. The body clones and links a
child where there is one. -/
theorem ends_upper_loop (body : Nat → Kernel Unit) (hf : Clones strict r n level f)
    (hbody : ∀ i m', i < k → m'.mem src i = m.mem src i →
      body i m' = if present (m.mem src i) then (f (addr (m.mem src i)) >>= fun c =>
        modify (·.set_entry new i (set_addr c (flags (m.mem src i))))) m' else .ok () m')
    (hcost : ∀ i < k, cost i = if present (m.mem src i) then
      tables_under m.mem level (addr (m.mem src i)) else 0)
    (h : CloneLoop strict r n src new p cost (turned p 0) role m 0 role1 m1) (hrn : n ≠ r)
    (hspare : role new = .spare) (hwf : Wf role m) (hsrc : role src = .table r p)
    (hlen : p.length + (level + 1) = 4) (hlevel : 1 ≤ level) (hclear : CloneClear strict role m r p)
    (hk : k ≤ limit p) : Ends (each (List.range k) body m1)
      (fun _ m' => ∃ role', CloneLoop strict r n src new p cost (turned p k) role m k role' m')
      (fun _ m' => ∃ role', Failed strict r n p (1 + ∑ j ∈ Finset.range k, cost j) role m
        role' m') := by
  refine ends_each_range (fun i m' => ∃ role', CloneLoop strict r n src new p cost
    (turned p i) role m i role' m') ⟨_, h⟩ ?_
  rintro i m2 hi ⟨role2, hinv⟩
  rw [hbody i m2 hi (hinv.todo i (Nat.le_refl i))]
  have hc := hcost i hi
  split
  · rename_i hpres
    rw [if_pos hpres] at hc
    refine (hinv.child hf hrn hspare hwf hsrc hlen hlevel hclear (by omega) hpres hc).mono
      (fun _ _ h => h) ?_
    rintro _ m3 ⟨role3, hfail⟩
    refine ⟨role3, hfail.ok, hfail.grown, fun hs => hfail.refused (hs.mono ?_)⟩
    have := Finset.sum_le_sum_of_subset (f := cost)
      (Finset.range_subset_range.mpr (show i + 1 ≤ k by omega))
    omega
  · rename_i hpres
    rw [if_neg hpres] at hc
    refine ⟨role2, hinv.skip hc ?_⟩
    rintro q ⟨j, hj, s, rfl⟩
    exact ⟨j, by omega, s, rfl⟩

/-- One turn of the loop of `cow_clone_table`, above level 1. -/
theorem clone_entry_upper (hl : level ≠ 0) (he : m.mem src i = e)
    (hh : present e = true → huge e = false) :
    clone_entry f (level + 1) src new i m = if present e then (f (addr e) >>= fun c =>
        modify (·.set_entry new i (set_addr c (flags e)))) m else .ok () m := by
  change (if _ then _ else _ : Kernel Unit) m = _
  simp only [he, contains_present, contains_huge]
  cases hpres : present e with
  | false => rfl
  | true =>
    rw [hh hpres]
    simp only [Bool.not_true, Bool.false_eq_true, if_false, Nat.add_eq_right, hl, if_true]

-- the literal 512 makes the unifier go deep
set_option maxRecDepth 4000 in
theorem clones_cow_clone_table (hrn : n ≠ r) (level : Nat) (hlevel : 1 ≤ level) :
    Clones strict r n level (cow_clone_table level) := by
  induction level with
  | zero => omega
  | succ level ih =>
    intro p role m src hok hsrc hp hlen hclear hno
    have hpath := hok.wf.path src r p hsrc
    have hlimit := limit_of_ne hp
    rw [tables_under_succ]
    refine ends_then m.ends_alloc_page_table ?_ ?_
    · rintro _ _ ⟨rfl, hs⟩
      refine ⟨role, ?_, ⟨fun _ _ => rfl, fun _ h => Or.inl h, fun _ _ _ _ _ _ => rfl,
        fun _ _ _ _ _ _ _ => rfl, rfl, rfl⟩, ?_⟩
      · exact hok.congr (fun _ _ _ _ _ _ => rfl) (fun _ h => h) rfl
      · exact fun hs' => hs (hs'.mono (by omega))
    intro new m1 ⟨hf, hm, hserved⟩
    subst hm
    have hspare := hok.wf.free new hf
    by_cases hl : level = 0
    · -- level 1: the loop shares pages
      have hstart : CloneLoop strict r n src new p (entry_cost m.mem level src) (· = p) role m 0
          _ _ := CloneLoop.start hok hf hno hpath (fun h => absurd h hp) hsrc hserved
      have hloop := ends_leaf_loop (f := cow_clone_table level) hstart (by omega) hsrc
        hspare hclear (fun i => by simp [entry_cost, hl]) (Nat.le_refl 512)
      rw [← show level + 1 = 1 by omega] at hloop
      refine ends_then hloop (fun _ _ h => h.elim) ?_
      rintro _ m2 ⟨role2, hdone⟩
      refine ⟨role2, hdone.done ?_⟩
      rintro q rfl
      exact ⟨[], by simp⟩
    · -- the upper levels: the loop clones the tables below
      have hstart : CloneLoop strict r n src new p (entry_cost m.mem level src) (turned p 0) role
          m 0 _ _ := CloneLoop.start hok hf hno hpath (fun h => absurd h hp) hsrc hserved
      have hhuge : ∀ i < 512, present (m.mem src i) = true → huge (m.mem src i) = false :=
        fun i hi hpres => (hok.wf.below src r p i hsrc (by omega) (by omega) hpres).1
      have hloop := ends_upper_loop (k := 512)
        (clone_entry (cow_clone_table level) (level + 1) src new)
        (ih (by omega)) ?_ ?_ hstart hrn hspare hok.wf hsrc (by omega) (by omega) hclear (by omega)
      · refine ends_bind hloop ?_
        rintro _ m2 ⟨role2, hdone⟩
        refine ⟨role2, hdone.done ?_⟩
        rintro q ⟨j, _, s, rfl⟩
        exact ⟨j :: s, rfl⟩
      · intro i m' hi he
        exact clone_entry_upper hl he (hhuge i hi)
      · intro i hi
        unfold entry_cost
        rw [if_neg hl]
        cases hpres : present (m.mem src i) with
        | false => rfl
        | true => rw [hhuge i hi hpres]; rfl

/-! ## The whole space -/

/-- The kernel half of the new level-4 table is outside of the user mappings. -/
theorem CloneLoop.kernel_half (h : CloneLoop strict r n src new [] cost touched role m i role1 m1)
    (m2 : Machine) (hspare : role new = .spare) (hsrc : role src ≠ .spare)
    (hmem : ∀ t j, ¬ (t = new ∧ 256 ≤ j) → m2.mem t j = m1.mem t j) (hfree : m2.free = m1.free)
    (hcount : m2.refcounts = m1.refcounts) (hserved : ∀ k, m1.Served k → m2.Served k)
    (hcr3 : m2.cr3 = m1.cr3) (hfreed : m2.freed = m1.freed) :
    CloneLoop strict r n src new [] cost touched role m i role1 m2 := by
  have hlimit : limit [] = 256 := rfl
  have hne : ∀ {t}, role t ≠ .spare → t ≠ new := by rintro t ht rfl; exact ht hspare
  -- the user mappings of the tables, the new one included
  have huser : ∀ t r' p j, role1 t = .table r' p → j < limit p → m2.mem t j = m1.mem t j := by
    intro t r' p j ht hj
    refine hmem t j ?_
    rintro ⟨rfl, hj'⟩
    rw [h.rooted] at ht
    cases ht
    omega
  refine ⟨h.ok.congr huser (fun f hf => by rw [← hfree]; exact hf) hcount,
    h.grown.congr (fun t j ht => hmem t j (fun hx => hne ht hx.1)) hcr3 hfreed,
    h.rooted, ?_, ?_, ?_, fun k hk => hserved k (h.served k hk)⟩
  · intro j hj hj'
    rw [hmem new j (by omega)]
    exact h.empty j hj hj'
  · intro j hj
    rw [hmem src j (fun hx => hne hsrc hx.1)]
    exact h.todo j hj
  · intro t q ht
    have hb := h.built t q ht
    refine ⟨hb.1, ?_⟩
    have hpath := h.ok.wf.path t n q ht
    rw [← hb.2]
    refine h.ok.wf.walk_congr ?_ h.rooted hpath.2 (by simpa using hpath.1)
    intro t' p' j ht' _ hj
    exact huser t' n _ j ht' hj

/-- The space `r` was cloned to the space `n`. -/
structure Cloned (strict : Bool) (r n : PhysAddr) (role : PhysAddr → Role) (m : Machine)
    (role' : PhysAddr → Role) (m' : Machine) : Prop where
  ok : Ok strict role' m'
  spare : role n = .spare
  grown : Grown r n [] (fun _ => True) role m role' m'
  rooted : role' n = .table n []
  built : ∀ t q, role' t = .table n q → walk m'.mem n q = some t

/-- The tables of a clone that failed are leaked. They keep their frames from
the allocator, but they map nothing for anybody. -/
theorem Ok.leak (h : Ok false role' m') (hg : Grown r n [] touched role m role' m')
    (hno : ∀ t q, role t ≠ .table n q) : Ok false role m' := by
  have hback : ∀ f, role f = .spare → ∀ r' q, role' f = .table r' q → r' = n := by
    intro f hf r' q ht
    rcases hg.fresh f hf with h1 | ⟨q', h1⟩
    · rw [h1] at ht; cases ht
    · exact (Role.table.inj (ht.symm.trans h1)).1
  have hspare : ∀ f, role' f = .spare → role f = .spare := by
    intro f hf
    by_contra hne
    exact hne (by rw [← hg.keep f hne, hf])
  have huser : ∀ f, role f = .user ↔ role' f = .user := by
    intro f
    by_cases hf : role f = .spare
    · rw [hf]
      rcases hg.fresh f hf with h1 | ⟨q', h1⟩
      · rw [h1]
      · rw [h1]; simp
    · rw [hg.keep f hf]
  constructor
  · refine ⟨?_, ?_, ?_, ?_, ?_, ?_⟩
    · intro t r' p i ht hp hi hpres
      have hb := h.wf.below t r' p i (hg.table ht) hp hi hpres
      refine ⟨hb.1, ?_⟩
      by_cases hf : role (addr (m'.mem t i)) = .spare
      · have := hback _ hf r' _ hb.2
        subst this
        exact absurd ht (hno t p)
      · rw [← hg.keep _ hf, hb.2]
    · exact fun t t' r' p h1 h2 => h.wf.inj t t' r' p (hg.table h1) (hg.table h2)
    · exact fun t r' h1 => h.wf.root t r' (hg.table h1)
    · exact fun t r' p h1 => h.wf.path t r' p (hg.table h1)
    · exact fun f hf => hspare f (h.wf.free f hf)
    · exact fun f hf => h.wf.aligned f (hf.imp_right (fun h1 h2 => h1 (hspare f h2)))
  · have hsub : ∀ x a, view role m' x = some a → view role' m' x = some a := by
      rintro ⟨t, i⟩ a hx
      obtain ⟨r', p, ht, h1⟩ := view_eq_some.mp hx
      exact view_eq_some.mpr ⟨r', p, hg.table ht, h1⟩
    have hs : Sharing false (place role') (view role m') m'.refcounts (fun f => role' f = .user) :=
      fun f => (h.sharing f).subset (fun x a hx => ⟨hsub x a hx.1, hx.2⟩) nofun
        (fun _ _ _ => rfl) rfl Iff.rfl
    refine hs.congr ?_ huser
    rintro ⟨t, i⟩ a hx
    obtain ⟨r', p, ht, _⟩ := view_eq_some.mp hx
    rw [place_table i ht, place_table i (hg.table ht)]

/-- One turn of the loop of `clone_address_space`. -/
theorem clone_l4_entry_run (he : m.mem src i = e) :
    clone_l4_entry src new i m = if present e then (cow_clone_table 3 (addr e) >>= fun c =>
        modify (·.set_entry new i (set_addr c (flags e)))) m else .ok () m := by
  change (if _ then _ else _ : Kernel Unit) m = _
  simp only [he, contains_present]
  cases present e <;> rfl

/-- What a clone that ran out of frames leaves behind, as the other spaces see it. -/
structure Leaked (strict : Bool) (r : PhysAddr) (role : PhysAddr → Role) (m m' : Machine) : Prop where
  refused : ¬ m.Served (tables_of m.mem r)
  ok : strict = false → Ok false role m'
  grown : Grown r r [] (fun _ => True) role m role m'

theorem Failed.leaked (h : Failed strict r n [] (tables_of m.mem r) role m role' m')
    (hno : ∀ t q, role t ≠ .table n q) : Leaked strict r role m m' where
  refused := h.refused
  ok := by
    rintro rfl
    exact h.ok.leak h.grown hno
  grown := ⟨fun _ _ => rfl, fun _ h => Or.inl h, h.grown.upper,
    fun t r' q i h1 h2 h3 => h.grown.leaves t r' q i h1 h2 (fun h4 => h3 ⟨h4.1, trivial⟩),
    h.grown.cr3, h.grown.freed⟩

-- the literal 256 makes the unifier go deep
set_option maxRecDepth 4000 in
theorem ends_clone_address_space (hok : Ok strict role m) (hr : role m.cr3 = .table m.cr3 [])
    (hroots : ∀ t r p, role t = .table r p → role r ≠ .spare)
    (hclear : CloneClear strict role m m.cr3 []) :
    Ends (clone_address_space m) (fun n m' => ∃ role', Cloned strict m.cr3 n role m role' m')
      (fun _ m' => Leaked strict m.cr3 role m m') := by
  refine ends_then m.ends_alloc_page_table ?_ ?_
  · rintro _ _ ⟨rfl, hs⟩
    refine ⟨fun hs' => hs (hs'.mono (by unfold tables_of; omega)), ?_,
      ⟨fun _ _ => rfl, fun _ h => Or.inl h, fun _ _ _ _ _ _ => rfl, fun _ _ _ _ _ _ _ => rfl,
        rfl, rfl⟩⟩
    rintro rfl
    exact hok.congr (fun _ _ _ _ _ _ => rfl) (fun _ h => h) rfl
  intro n m1 ⟨hf, hm, hserved⟩
  subst hm
  have hspare := hok.wf.free n hf
  have hrn : n ≠ m.cr3 := by rintro rfl; rw [hr] at hspare; cases hspare
  have hno : ∀ t q, role t ≠ .table n ([] ++ q) := fun t q ht => hroots t n _ ht hspare
  have hsrc : role m.cr3 ≠ .spare := by rw [hr]; nofun
  have hstart : CloneLoop strict m.cr3 n m.cr3 n [] (fun i => if present (m.mem m.cr3 i) then
      tables_under m.mem 3 (addr (m.mem m.cr3 i)) else 0) (turned [] 0) role m 0 _ _ :=
    CloneLoop.start hok hf hno (by simp [Fits]) (fun _ => rfl) hr hserved
  have hhalf := hstart.kernel_half
    (((m.take n).zero n).copy_kernel_half m.cr3 n) hspare hsrc
    (by
      intro t j hx
      simp only [copy_kernel_half]
      rw [if_neg (fun h => hx ⟨h.1, h.2.1⟩)])
    rfl rfl (fun _ h => h) rfl rfl
  have hloop := ends_upper_loop (k := 256) (clone_l4_entry m.cr3 n)
    (clones_cow_clone_table hrn 3 (by omega)) (fun i m' _ he => clone_l4_entry_run he)
    (fun _ _ => rfl) hhalf hrn hspare hok.wf hr (by simp) (by omega) hclear (Nat.le_refl 256)
  change Ends ((each (List.range 256) (clone_l4_entry m.cr3 n) >>= _)
    (((m.take n).zero n).copy_kernel_half m.cr3 n)) _ _
  refine ends_then hloop ?_ ?_
  · rintro _ m2 ⟨role2, hfail⟩
    exact hfail.leaked hno
  · rintro _ m2 ⟨role2, hdone⟩
    have hlast := hdone.kernel_half
      (m2.set_entry n 511 (set_addr n (PRESENT ||| WRITABLE))) hspare hsrc
      (fun t j hx => m2.set_entry_other _ (fun h => hx ⟨h.1, by omega⟩))
      rfl rfl (fun _ h => h) rfl rfl
    exact ⟨role2, hlast.ok, hspare, hlast.grown.weaken (fun _ _ => trivial), hlast.rooted,
      fun t q ht => (hlast.built t q ht).2⟩

end zenos_kernel.process.isolation
