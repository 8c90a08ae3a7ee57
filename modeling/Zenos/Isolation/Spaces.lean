-- Several address spaces on one machine: clones, faults, stores and teardowns
-- in any order. The condition on a step says which pages may be shared and
-- which may be thrown away; under it every step keeps the invariant.
import Zenos.Isolation.Clone
import Zenos.Isolation.Fault
import Zenos.Isolation.Teardown

namespace zenos_kernel.process.isolation

open PageTableEntry CopyOnWrite

/-- The machine, and the level-4 tables of the address spaces that exist. -/
structure World where
  m : Machine
  live : List PhysAddr

/-- What a space does. `va` is a user address, and `r` the space that is active,
but for `teardown`, where `r` is torn down while `active` is. -/
inductive Action
  | clone (r : PhysAddr)
  | fault (r : PhysAddr) (va : Nat)
  | store (r : PhysAddr) (va : Nat) (v : UInt8) (tries : Nat)
  | teardown (active r : PhysAddr)

/-- Present level-1 entry `e`, at index `i` of the table that `p` leads to. -/
structure Entry (m : Machine) (r : PhysAddr) (p : List Nat) (i : Nat) (e : PageTableEntry) :
    Prop where
  path : p.length = 3 ∧ Fits [] p
  index : i < 512
  found : ∃ t, walk m.mem r p = some t ∧ m.mem t i = e
  present : present e = true

namespace World

variable (w : World)

/-- The machine with the space `r` loaded. -/
def load_cr3 (r : PhysAddr) : Machine := { w.m with cr3 := r }

def step : Action → World
  | .clone r =>
    match Machine.clone_address_space (w.load_cr3 r) with
    | .ok n m => ⟨m, n :: w.live⟩
    | .error _ m => ⟨m, w.live⟩
  | .fault r va => ⟨((w.load_cr3 r).handle_cow_fault va).2, w.live⟩
  | .store r va v tries => ⟨(Machine.store tries va v (w.load_cr3 r)).2, w.live⟩
  | .teardown active r =>
    ⟨(w.load_cr3 active).teardown_address_space r, w.live.filter (· ≠ r)⟩

@[simp] theorem step_store_live (r : PhysAddr) (va : Nat) (v : UInt8) (tries : Nat) :
    (w.step (.store r va v tries)).live = w.live := rfl

/-- The spaces named exist, the address is a user address, and the active space
is not torn down. -/
def Legal : Action → Prop
  | .clone r => r ∈ w.live
  | .fault r va => r ∈ w.live ∧ va < 2 ^ 47
  | .store r va _ _ => r ∈ w.live ∧ va < 2 ^ 47
  | .teardown active r => active ∈ w.live ∧ r ∈ w.live ∧ r ≠ active

/-- One space, in which every user frame is mapped by exactly one level-1 entry.
The tables form a tree, they and the user frames are not free, and no frame has
more than one reference. -/
structure Init (w : World) (r : PhysAddr) : Prop where
  live : w.live = [r]
  tree : ∀ p q t, p.length ≤ 3 → Fits [] p → q.length ≤ 3 → Fits [] q →
    walk w.m.mem r p = some t → walk w.m.mem r q = some t → p = q
  small : ∀ p t i, p.length < 3 → Fits [] p → walk w.m.mem r p = some t → i < limit p →
    present (w.m.mem t i) = true → huge (w.m.mem t i) = false
  exclusive : ∀ p q i j e e', Entry w.m r p i e → Entry w.m r q j e' → addr e = addr e' →
    p = q ∧ i = j
  apart : ∀ p i e q t, Entry w.m r p i e → q.length ≤ 3 → Fits [] q → walk w.m.mem r q = some t →
    addr e ≠ t
  flags : ∀ p i e, Entry w.m r p i e → cow e = true →
    writable e = false ∧ w.m.refcounts (addr e) = some 1
  taken : ∀ p t, p.length ≤ 3 → Fits [] p → walk w.m.mem r p = some t → w.m.free t = false
  owned : ∀ p i e, Entry w.m r p i e → w.m.free (addr e) = false
  counts : ∀ f c, w.m.refcounts f = some c → c = 1
  aligned : ∀ f, w.m.free f = true ∨ f = r → Aligned f

/-- What a step needs so that a page shared by it is counted, and a page thrown
away by it belonged to nobody else: a clone finds no page that is copy-on-write
already, and a teardown throws away no page that another space maps too. -/
def Fair : Action → Prop
  | .clone r => ∀ p i e, Entry w.m r p i e →
      cow e = false ∧ (huge e = true → writable e = false)
  | .fault _ _ => True
  | .store _ _ _ _ => True
  | .teardown _ r => ∀ p i e, Entry w.m r p i e → huge e = false → cow e = false →
      ∀ r' ∈ w.live, r' ≠ r → ∀ q j e', Entry w.m r' q j e' → addr e' ≠ addr e

/-- What a step needs so that every count is exact: all pages that a clone
shares are writable, it does not run out of frames, and the bit that marks a
huge page hides no page from it or from a teardown. -/
def Counted : Action → Prop
  | .clone r => (∀ p i e, Entry w.m r p i e → writable e = true ∧ huge e = false) ∧
      w.m.Served (tables_of w.m.mem r)
  | .fault _ _ => True
  | .store _ _ _ _ => True
  | .teardown _ r => ∀ p i e, Entry w.m r p i e → huge e = false

/-- Runs whose steps meet a condition. -/
def Runs (C : World → Action → Prop) : World → World → Prop :=
  Relation.ReflTransGen (fun w w' => ∃ a, w.Legal a ∧ C w a ∧ w' = w.step a)

end World

/-- The condition of a strict or of a plain run. -/
def StepOk (strict : Bool) : World → Action → Prop := if strict then World.Counted else World.Fair

/-! ## The invariant -/

/-- The roles of the frames are those of the spaces that exist. -/
structure Inv (strict : Bool) (role : PhysAddr → Role) (w : World) : Prop where
  ok : Ok strict role w.m
  live : ∀ r ∈ w.live, role r = .table r []
  linked : ∀ t r p, role t = .table r p → r ∈ w.live ∧ walk w.m.mem r p = some t

variable {role role' : PhysAddr → Role} {strict : Bool} {w : World} {r active : PhysAddr}

/-- The level-1 entries of a space, by the roles of the tables. -/
theorem Inv.entry_iff (h : Inv strict role w) (hr : r ∈ w.live) {p : List Nat} {i : Nat}
    {e : PageTableEntry} :
    Entry w.m r p i e ↔ ∃ t, role t = .table r p ∧ p.length = 3 ∧ i < 512 ∧ w.m.mem t i = e ∧
      present e = true := by
  constructor
  · rintro ⟨⟨hp, hfit⟩, hi, ⟨t, hw, he⟩, hpres⟩
    have ht := h.ok.wf.walk_role (h.live r hr) hfit (by simp [hp]) hw
    exact ⟨t, ht, hp, hi, he, hpres⟩
  · rintro ⟨t, ht, hp, hi, he, hpres⟩
    exact ⟨⟨hp, (h.ok.wf.path t r p ht).2⟩, hi, ⟨t, (h.linked t r p ht).2, he⟩, hpres⟩

theorem Ok.load_cr3 (h : Ok strict role w.m) (r : PhysAddr) : Ok strict role (w.load_cr3 r) :=
  h.congr (fun _ _ _ _ _ _ => rfl) (fun _ h => h) rfl

section

variable (h : Inv strict role w) {m' : Machine}

include h

theorem Inv.walk_eq {mem : PhysAddr → Nat → UInt64}
    (hmem : ∀ t r p i, role t = .table r p → p.length < 3 → mem t i = w.m.mem t i) {t : PhysAddr}
    {p : List Nat} (ht : role t = .table r p) : walk mem r p = some t := by
  have hl := h.linked t r p ht
  have hpath := h.ok.wf.path t r p ht
  rw [← hl.2]
  refine h.ok.wf.walk_congr ?_ (h.live r hl.1) hpath.2 (by simpa using hpath.1)
  intro t' p' i ht' hp' _
  exact hmem t' r _ i ht' hp'

/-! ## Steps -/

theorem Inv.local (hl : Local strict r role (w.load_cr3 r) role' m') :
    Inv strict role' ⟨m', w.live⟩ where
  ok := hl.ok
  live := fun r' hr' => hl.table (h.live r' hr')
  linked := by
    intro t r' p ht
    by_cases hs : role t = .spare
    · rcases hl.fresh t hs with h1 | h1 <;> rw [h1] at ht <;> cases ht
    · rw [hl.keep t hs] at ht
      exact ⟨(h.linked t r' p ht).1, h.walk_eq (fun t' r'' q i h1 h2 => hl.upper t' r'' q i h1 h2) ht⟩

theorem Inv.grown {strict' : Bool} {n : PhysAddr} {touched : List Nat → Prop}
    (hg : Grown r n [] touched role (w.load_cr3 r) role' m') (hok : Ok strict' role' m')
    {live' : List PhysAddr} (hsub : ∀ r' ∈ w.live, r' ∈ live')
    (hroots : ∀ r' ∈ live', r' ∈ w.live ∨ role' r' = .table r' [])
    (hnew : ∀ t q, role t = .spare → role' t = .table n q → n ∈ live' ∧ walk m'.mem n q = some t) :
    Inv strict' role' ⟨m', live'⟩ where
  ok := hok
  live := by
    intro r' hr'
    rcases hroots r' hr' with h1 | h1
    · exact hg.table (h.live r' h1)
    · exact h1
  linked := by
    intro t r' p ht
    by_cases hs : role t = .spare
    · rcases hg.fresh t hs with h1 | ⟨q, h1⟩
      · rw [h1] at ht; cases ht
      · have hr' := (Role.table.inj (ht.symm.trans h1)).1
        subst hr'
        exact hnew t p hs ht
    · rw [hg.keep t hs] at ht
      exact ⟨hsub r' (h.linked t r' p ht).1,
        h.walk_eq (fun t' r'' q i h1 h2 => hg.upper t' r'' q i h1 h2) ht⟩

/-- The condition of a step, on the tables of the space. -/
theorem Inv.cloneClear (hr : r ∈ w.live) (hc : StepOk strict w (.clone r)) :
    CloneClear strict role (w.load_cr3 r) r [] := by
  intro t q i ht hq hi hpres
  have he : Entry w.m r q i (w.m.mem t i) := (h.entry_iff hr).mpr ⟨t, ht, hq, hi, rfl, hpres⟩
  change cow (w.m.mem t i) = false ∧ (huge (w.m.mem t i) = true → writable (w.m.mem t i) = false) ∧
    (strict = true → writable (w.m.mem t i) = true)
  cases strict with
  | false =>
    have h1 := hc q i _ he
    exact ⟨h1.1, h1.2, fun h => by cases h⟩
  | true =>
    have h1 := hc.1 q i _ he
    have h2 := (h.ok.sharing _).owned (t, i) _ ⟨view_leaf ht hq hi hpres, rfl⟩ h1.1
    exact ⟨h2, fun h3 => (by rw [h1.2] at h3; cases h3), fun _ => h1.1⟩

theorem Inv.clone (hr : r ∈ w.live) (hc : StepOk strict w (.clone r)) :
    ∃ role', Inv strict role' (w.step (.clone r)) ∧ ∀ f, role f ≠ .spare → role' f = role f := by
  have hends := ends_clone_address_space (h.ok.load_cr3 r) (h.live r hr) ?_ (h.cloneClear hr hc)
  · rw [World.step]
    revert hends
    cases Machine.clone_address_space (w.load_cr3 r) with
    | ok n m' =>
      rintro ⟨role', hd⟩
      have hinv : Inv strict role' ⟨m', n :: w.live⟩ := by
        refine h.grown hd.grown hd.ok (fun r' h1 => List.mem_cons_of_mem _ h1) ?_ ?_
        · exact List.forall_mem_cons.mpr ⟨Or.inr hd.rooted, fun _ => Or.inl⟩
        · intro t q _ ht
          exact ⟨List.mem_cons_self, hd.built t q ht⟩
      exact ⟨role', hinv, hd.grown.keep⟩
    | error _ m' =>
      intro (hl : Leaked strict r role (w.load_cr3 r) m')
      cases strict with
      | true => exact absurd hc.2 hl.refused
      | false =>
        refine ⟨role, h.grown hl.grown (hl.ok rfl) (fun _ h1 => h1) (fun _ h1 => Or.inl h1) ?_,
          fun _ _ => rfl⟩
        intro t q hs ht
        rw [hs] at ht
        cases ht
  · intro t r' p ht hs
    rw [h.live r' (h.linked t r' p ht).1] at hs
    cases hs

/-- What a teardown does, in a run that meets the condition. -/
theorem Inv.tornDown (hr : r ∈ w.live) (hc : StepOk strict w (.teardown active r)) :
    ∃ role', TornDown strict r role (w.load_cr3 active) role'
      ((w.load_cr3 active).teardown_address_space r) := by
  refine teardown_spec (h.ok.load_cr3 active) (h.live r hr)
    (fun t q ht => (h.linked t r q ht).2) ?_ ?_
  · rintro f ⟨t, i⟩ a hp ha ⟨t', j⟩ b hb
    obtain ⟨q, hq⟩ := hp.gone
    obtain ⟨r1, p, ht, hlen, hi, hpres, rfl⟩ := view_eq_some.mp hp.maps.1
    cases hq.symm.trans ht
    obtain ⟨r2, p', ht', hlen', hj, hpres', rfl⟩ := view_eq_some.mp hb.1
    by_contra hne
    cases strict with
    | true =>
      have := (h.ok.sharing f).shared rfl (t, i) (t', j) _ _ hp.maps hb (Ne.symm hne)
      rw [ha] at this
      cases this
    | false =>
      by_cases hr2 : r2 = r
      · subst hr2
        exact hne (h.ok.maps_once ht' ht hb hp.maps)
      have he : Entry w.m r q i (w.m.mem t i) :=
        (h.entry_iff hr).mpr ⟨t, hq, hlen, hi, rfl, hpres⟩
      have hr2l := (h.linked t' r2 p' ht').1
      have he' : Entry w.m r2 p' j (w.m.mem t' j) :=
        (h.entry_iff hr2l).mpr ⟨t', ht', hlen', hj, rfl, hpres'⟩
      have hh : huge (w.m.mem t i) = false := by
        simpa [Skipped, World.load_cr3] using hp.live
      exact hc q i _ he hh ha r2 hr2l hr2 p' j _ he' (hb.2.trans hp.maps.2.symm)
  · rintro rfl ⟨t, i⟩ a ⟨q, hq⟩ hv hskip
    obtain ⟨r1, p, ht, hlen, hi, hpres, rfl⟩ := view_eq_some.mp hv
    cases hq.symm.trans ht
    have hh := hc q i _ ((h.entry_iff hr).mpr ⟨t, hq, hlen, hi, rfl, hpres⟩)
    change huge (w.m.mem t i) = true at hskip
    rw [hh] at hskip
    cases hskip

theorem Inv.teardown (ht : TornDown strict r role (w.load_cr3 active) role'
      ((w.load_cr3 active).teardown_address_space r)) :
    Inv strict role' (w.step (.teardown active r)) where
  ok := ht.ok
  live := by
    intro r' hr'
    have hr' := List.mem_filter.mp hr'
    exact (ht.tables r' r' []).mpr ⟨h.live r' hr'.1, by simpa using hr'.2⟩
  linked := by
    intro t r' p htab
    obtain ⟨h1, hne⟩ := (ht.tables t r' p).mp htab
    have hl := h.linked t r' p h1
    refine ⟨List.mem_filter.mpr ⟨hl.1, by simpa using hne⟩, ?_⟩
    rw [World.step, ht.mem]
    exact hl.2

theorem Inv.step {a : Action} (hl : w.Legal a) (hc : StepOk strict w a) :
    ∃ role', Inv strict role' (w.step a) := by
  cases a with
  | clone r =>
    obtain ⟨role', h1, _⟩ := h.clone hl hc
    exact ⟨role', h1⟩
  | fault r va =>
    obtain ⟨role', h1⟩ := handle_cow_fault_spec (h.ok.load_cr3 r) (h.live r hl.1) hl.2
    exact ⟨role', h.local h1⟩
  | store r va v tries =>
    obtain ⟨role', h1⟩ := store_spec tries (h.ok.load_cr3 r) (h.live r hl.1) hl.2 v
    exact ⟨role', h.local h1⟩
  | teardown active r =>
    obtain ⟨role', h1⟩ := h.tornDown hl.2.1 hc
    exact ⟨role', h.teardown h1⟩

theorem Inv.runs {w' : World} (hr : World.Runs (StepOk strict) w w') :
    ∃ role', Inv strict role' w' := by
  induction hr with
  | refl => exact ⟨role, h⟩
  | tail _ hstep ih =>
    obtain ⟨role1, h1⟩ := ih
    obtain ⟨a, hl, hc, rfl⟩ := hstep
    exact h1.step hl hc

end

/-! ## The first space -/

/-- A table of the first space, and its path. -/
structure TableAt (w : World) (r f : PhysAddr) (p : List Nat) : Prop where
  short : p.length ≤ 3
  fits : Fits [] p
  walk : walk w.m.mem r p = some f

open Classical in
/-- The roles of the frames in a world with one space. -/
noncomputable def initRole (w : World) (r f : PhysAddr) : Role :=
  if h : ∃ p, TableAt w r f p then .table r h.choose
  else if ∃ p i e, Entry w.m r p i e ∧ addr e = f then .user
  else .spare

section Init

variable (hi : w.Init r)

include hi

theorem initRole_table (t r' : PhysAddr) (p : List Nat) :
    initRole w r t = .table r' p ↔ r' = r ∧ TableAt w r t p := by
  unfold initRole
  split
  · rename_i h
    have hs := h.choose_spec
    constructor
    · intro h1
      cases h1
      exact ⟨rfl, hs⟩
    · rintro ⟨rfl, h1⟩
      rw [hi.tree _ _ t hs.short hs.fits h1.short h1.fits hs.walk h1.walk]
  · rename_i h
    constructor
    · intro h1
      split at h1 <;> cases h1
    · rintro ⟨_, h1⟩
      exact absurd ⟨p, h1⟩ h

theorem initRole_user (f : PhysAddr) :
    initRole w r f = .user ↔ ∃ p i e, Entry w.m r p i e ∧ addr e = f := by
  unfold initRole
  split
  · rename_i h
    constructor
    · intro h1; cases h1
    · rintro ⟨p, i, e, he, hf⟩
      obtain ⟨q, hq⟩ := h
      exact absurd hf (hi.apart p i e q f he hq.short hq.fits hq.walk)
  · split
    · rename_i h; exact ⟨fun _ => h, fun _ => rfl⟩
    · rename_i h; exact ⟨fun h1 => (by cases h1), fun h1 => absurd h1 h⟩

theorem initRole_view (t : PhysAddr) (i : Nat) (a : Page PhysAddr) :
    view (initRole w r) w.m (t, i) = some a ↔
      ∃ p, walk w.m.mem r p = some t ∧ Entry w.m r p i (w.m.mem t i) ∧
        a = pageOf (w.m.mem t i) := by
  rw [view_eq_some]
  constructor
  · rintro ⟨r', p, ht, hp, hi', hpres, rfl⟩
    obtain ⟨rfl, h1⟩ := (initRole_table hi t r' p).mp ht
    exact ⟨p, h1.walk, ⟨⟨hp, h1.fits⟩, hi', ⟨t, h1.walk, rfl⟩, hpres⟩, rfl⟩
  · rintro ⟨p, hw, he, rfl⟩
    exact ⟨r, p, (initRole_table hi t r p).mpr ⟨rfl, by rw [he.path.1], he.path.2, hw⟩, he.path.1,
      he.index, he.present, rfl⟩

theorem initRole_wf : Wf (initRole w r) w.m := by
  refine ⟨?_, ?_, ?_, ?_, ?_, ?_⟩
  · intro t r' p i ht hp hil hpres
    obtain ⟨rfl, h1⟩ := (initRole_table hi t r' p).mp ht
    refine ⟨hi.small p t i hp h1.fits h1.walk hil hpres, ?_⟩
    refine (initRole_table hi _ _ _).mpr ⟨rfl, by simp; omega,
      by simpa [fits_append, Fits] using ⟨h1.fits, hil⟩, ?_⟩
    rw [walk_append, h1.walk, Option.bind_some, walk, if_pos hpres]
    rfl
  · intro t t' r' p h1 h2
    have h1 := ((initRole_table hi t r' p).mp h1).2.walk
    have h2 := ((initRole_table hi t' r' p).mp h2).2.walk
    exact Option.some.inj (h1.symm.trans h2)
  · intro t r' h1
    obtain ⟨rfl, h2⟩ := (initRole_table hi t r' []).mp h1
    exact (Option.some.inj h2.walk).symm
  · intro t r' p h1
    have h1 := ((initRole_table hi t r' p).mp h1).2
    exact ⟨h1.short, h1.fits⟩
  · intro f hf
    cases hr : initRole w r f with
    | spare => rfl
    | user =>
      obtain ⟨p, i, e, he, rfl⟩ := (initRole_user hi f).mp hr
      rw [hi.owned p i e he] at hf
      cases hf
    | table r' p =>
      have h1 := ((initRole_table hi f r' p).mp hr).2
      rw [hi.taken p f h1.short h1.fits h1.walk] at hf
      cases hf
  · intro f hf
    rcases hf with hf | hf
    · exact hi.aligned f (Or.inl hf)
    cases hr : initRole w r f with
    | spare => exact absurd hr hf
    | user =>
      obtain ⟨p, i, e, _, rfl⟩ := (initRole_user hi f).mp hr
      exact aligned_addr e
    | table r' p =>
      have h1 := ((initRole_table hi f r' p).mp hr).2.walk
      -- a table below the root is the address of an entry
      rcases List.eq_nil_or_concat p with rfl | ⟨q, i, rfl⟩
      · exact hi.aligned f (Or.inr (Option.some.inj h1).symm)
      · rw [List.concat_eq_append, walk_append] at h1
        obtain ⟨t, _, h2⟩ := Option.bind_eq_some_iff.mp h1
        rw [walk] at h2
        split at h2
        · rw [← Option.some.inj h2]
          exact aligned_addr _
        · cases h2

theorem initRole_sharing (strict : Bool) :
    Sharing strict (place (initRole w r)) (view (initRole w r) w.m) w.m.refcounts
      (fun f => initRole w r f = .user) := by
  intro f
  have hrefs : refs w.m.refcounts f = 1 := by
    unfold refs
    cases hc : w.m.refcounts f with
    | none => rfl
    | some c => exact hi.counts f c hc
  by_cases hu : initRole w r f = .user
  · obtain ⟨p, i, e, he, rfl⟩ := (initRole_user hi f).mp hu
    obtain ⟨t, hw, rfl⟩ := he.found
    refine frameOk_single (x := (t, i)) (v := pageOf (w.m.mem t i)) ?_ ?_ hrefs ?_ hu
    · rintro ⟨t', j⟩ b
      unfold Maps
      rw [initRole_view hi]
      constructor
      · rintro ⟨⟨q, hw', he', rfl⟩, ha⟩
        obtain ⟨rfl, rfl⟩ := hi.exclusive q p j i _ _ he' he ha
        have : t' = t := Option.some.inj (hw'.symm.trans hw)
        subst this
        exact ⟨rfl, rfl⟩
      · rintro ⟨h1, rfl⟩
        cases h1
        exact ⟨⟨p, hw, he, rfl⟩, rfl⟩
    · intro hw'
      cases hc : cow (w.m.mem t i) with
      | false => exact hc
      | true =>
        have := (hi.flags p i _ he hc).1
        change writable (w.m.mem t i) = true at hw'
        rw [this] at hw'
        cases hw'
    · intro _ hc
      exact (hi.flags p i _ he hc).2
  · refine frameOk_unmapped ?_ hrefs (fun _ => hu)
    rintro ⟨t, i⟩ a ⟨hv, rfl⟩
    obtain ⟨p, _, he, rfl⟩ := (initRole_view hi t i a).mp hv
    exact hu ((initRole_user hi _).mpr ⟨p, i, _, he, rfl⟩)

theorem inv_init (strict : Bool) : Inv strict (initRole w r) w where
  ok := ⟨initRole_wf hi, initRole_sharing hi strict⟩
  live := by
    intro r' hr'
    rw [hi.live, List.mem_singleton] at hr'
    subst hr'
    exact (initRole_table hi r' r' []).mpr ⟨rfl, by simp, trivial, rfl⟩
  linked := by
    intro t r' p ht
    obtain ⟨rfl, h1⟩ := (initRole_table hi t r' p).mp ht
    exact ⟨by rw [hi.live]; exact List.mem_cons_self, h1.walk⟩

end Init

end zenos_kernel.process.isolation
