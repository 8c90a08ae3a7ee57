-- What one entry and one frame can do to the invariant: a page is shared, kept
-- or copied, a new table is taken from the allocator and linked.
import Zenos.Isolation.Roles

namespace zenos_kernel.process.isolation

open PageTableEntry CopyOnWrite Outcome Machine

/-! ## One entry -/

variable {m : Machine} {p : List Nat} {r t n new : PhysAddr} {role : PhysAddr → Role} {i : Nat}
  {strict : Bool} {e : PageTableEntry} {src g : PhysAddr}

/-- A level-1 entry changes, and the tables stay as they are. -/
theorem Wf.set_leaf (h : Wf role m) (ht : role t = .table r p) (hp : p.length = 3) (i : Nat)
    (e : PageTableEntry) : Wf role (m.set_entry t i e) where
  below := by
    intro t' r' p' j ht' hp' hj
    have hne : t' ≠ t := by
      rintro rfl
      rw [ht] at ht'
      cases ht'
      omega
    rw [m.set_entry_other e (fun h => hne h.1)]
    exact h.below t' r' p' j ht' hp' hj
  inj := h.inj
  root := h.root
  path := h.path
  free := h.free
  aligned := h.aligned

theorem view_set_leaf (m : Machine) (ht : role t = .table r p) (hp : p.length = 3) (hi : i < 512)
    (he : present e = true) :
    view role (m.set_entry t i e) = Function.update (view role m) (t, i) (some (pageOf e)) := by
  funext ⟨t', j⟩
  by_cases hx : (t', j) = (t, i)
  · cases hx
    rw [Function.update_self]
    rw [view_leaf ht hp hi (by rw [m.set_entry_same]; exact he), m.set_entry_same]
  · rw [Function.update_of_ne hx]
    unfold view
    rw [m.set_entry_other e (fun h => hx (Prod.ext h.1 h.2))]

/-- A writable page gets its second slot. -/
theorem Ok.share (h : Ok strict role m) (hsrc : role src = .table r p)
    (hnew : role new = .table n p) (hp : p.length = 3) (hi : i < 512)
    (hpres : present (m.mem src i) = true) (hw : writable (m.mem src i) = true)
    (hempty : present (m.mem new i) = false) :
    Ok strict role (((m.set_entry src i (cow_entry (m.mem src i))).set_entry new i
      (cow_entry (m.mem src i))).refcount_inc (addr (m.mem src i))) where
  wf := by
    have := (h.wf.set_leaf hsrc hp i (cow_entry (m.mem src i))).set_leaf hnew hp i
      (cow_entry (m.mem src i))
    exact ⟨this.below, this.inj, this.root, this.path, this.free, this.aligned⟩
  sharing := by
    have hv := view_leaf hsrc hp hi hpres
    have hr : refs m.refcounts (addr (m.mem src i)) = 1 :=
      (h.sharing _).plain (src, i) _ ⟨hv, rfl⟩ ((h.sharing _).owned (src, i) _ ⟨hv, rfl⟩ hw)
    have hs := h.sharing.share hv hw (view_not_present hempty)
      (by rw [place_table i hsrc, place_table i hnew])
    have hpage : pageOf (cow_entry (m.mem src i)) = ⟨addr (m.mem src i), false, true⟩ := by
      simp [pageOf]
    have hview := view_set_leaf (m.set_entry src i (cow_entry (m.mem src i))) hnew hp hi
      (e := cow_entry (m.mem src i)) (by simp [hpres])
    rw [view_set_leaf m hsrc hp hi (by simp [hpres]), hpage] at hview
    have hcount : (((m.set_entry src i (cow_entry (m.mem src i))).set_entry new i
        (cow_entry (m.mem src i))).refcount_inc (addr (m.mem src i))).refcounts =
          Function.update m.refcounts (addr (m.mem src i)) (some 2) := by
      funext f
      simp only [refcount_inc, set_entry, Function.update_apply]
      split
      · rcases count_of_refs hr with hc | hc
        · rw [hc]
        · rw [hc]; rfl
      · rfl
    rw [hcount]
    change Sharing strict _ (view role (set_entry _ new i _)) _ _
    rw [hview]
    exact hs

/-- A read-only page gets one more slot. -/
theorem Ok.share_plain (h : Ok false role m) (hsrc : role src = .table r p)
    (hnew : role new = .table n p) (hp : p.length = 3) (hi : i < 512)
    (hpres : present (m.mem src i) = true) (hw : writable (m.mem src i) = false)
    (hc : cow (m.mem src i) = false) (hempty : present (m.mem new i) = false) :
    Ok false role (m.set_entry new i (m.mem src i)) where
  wf := h.wf.set_leaf hnew hp i _
  sharing := by
    have hs := h.sharing.share_plain (view_leaf hsrc hp hi hpres) hw hc (view_not_present hempty)
      (by rw [place_table i hsrc, place_table i hnew])
    rw [view_set_leaf m hnew hp hi hpres]
    exact hs

/-- An entry of an upper level gets the table that belongs there. -/
theorem Ok.link (h : Ok strict role m) {c : PhysAddr}
    (ht : role t = .table n p) (hp : p.length < 3) (hc : role c = .table n (p ++ [i]))
    (ha : addr e = c) (hh : huge e = false) : Ok strict role (m.set_entry t i e) where
  wf :=
    { below := by
        intro t' r' p' j ht' hp' hj hpres
        by_cases hx : t' = t ∧ j = i
        · obtain ⟨rfl, rfl⟩ := hx
          rw [ht] at ht'
          cases ht'
          rw [m.set_entry_same, ha]
          exact ⟨hh, hc⟩
        · rw [m.set_entry_other e hx] at hpres ⊢
          exact h.wf.below t' r' p' j ht' hp' hj hpres
      inj := h.wf.inj
      root := h.wf.root
      path := h.wf.path
      free := h.wf.free
      aligned := h.wf.aligned }
  sharing := by
    have hview : view role (m.set_entry t i e) = view role m := by
      funext ⟨t', j⟩
      unfold view
      by_cases hx : t' = t
      · subst hx
        rw [ht]
        dsimp only
        rw [if_neg (fun h => by omega), if_neg (fun h => by omega)]
      · rw [m.set_entry_other e (fun h => hx h.1)]
    rw [hview]
    exact h.sharing

/-- The only slot of a copy-on-write page becomes writable. -/
theorem Ok.own (h : Ok strict role m) (ht : role t = .table r p) (hp : p.length = 3) (hi : i < 512)
    (hpres : present (m.mem t i) = true) (hc : cow (m.mem t i) = true)
    (hr : m.refcount_get (addr (m.mem t i)) = 1) :
    Ok strict role (m.set_entry t i (owned_entry (addr (m.mem t i)) (m.mem t i))) where
  wf := h.wf.set_leaf ht hp i _
  sharing := by
    have ha := aligned_addr (m.mem t i)
    have hpage : pageOf (owned_entry (addr (m.mem t i)) (m.mem t i)) =
        ⟨addr (m.mem t i), true, false⟩ := by
      rw [pageOf, addr_owned_entry ha, writable_owned_entry ha, cow_owned_entry ha]
    rw [view_set_leaf m ht hp hi (by rw [present_owned_entry ha]; exact hpres), hpage]
    exact h.sharing.own (view_leaf ht hp hi hpres) hc hr

/-! ## The allocator -/

namespace Machine

variable (m : Machine)

/-- The next `k` requests are served. -/
def Served (k : Nat) : Prop :=
  ∀ j < k, ∃ f, m.answers (m.calls + j) = some f ∧ m.free f = true ∧
    ∀ j' < j, m.answers (m.calls + j') ≠ some f

theorem Served.mono {m : Machine} {k k' : Nat} (h : m.Served k') (hk : k ≤ k') : m.Served k :=
  fun j hj => h j (by omega)

theorem Served.take {m : Machine} {f : PhysAddr} {k : Nat} (h : m.Served (1 + k))
    (hf : m.answers m.calls = some f) : (m.take f).Served k := by
  intro j hj
  obtain ⟨g, hg, hfree, hne⟩ := h (j + 1) (by omega)
  have hgf : g ≠ f := by
    rintro rfl
    exact hne 0 (by omega) (by simpa using hf)
  refine ⟨g, ?_, ?_, ?_⟩
  · rw [← hg]
    change m.answers (m.calls + 1 + j) = _
    congr 1
    omega
  · simpa [Machine.take, hgf] using hfree
  · intro j' hj'
    have := hne (j' + 1) (by omega)
    change m.answers (m.calls + 1 + j') ≠ _
    rwa [show m.calls + 1 + j' = m.calls + (j' + 1) by omega]

theorem ends_kalloc_page :
    Ends (kalloc_page m)
      (fun new m' => m.answers m.calls = some new ∧ m.free new = true ∧ m' = m.take new)
      (fun _ m' => m' = m.refuse ∧ ¬ m.Served 1) := by
  unfold kalloc_page
  have hno : (∀ f, m.answers m.calls = some f → m.free f = false) → ¬ m.Served 1 := by
    intro h hs
    obtain ⟨f, hf, hfree, _⟩ := hs 0 (by omega)
    rw [h f hf] at hfree
    cases hfree
  cases ha : m.answers m.calls with
  | none => exact ⟨rfl, hno (fun f hf => by rw [ha] at hf; cases hf)⟩
  | some f =>
    dsimp only
    split
    · rename_i hfree
      exact ⟨rfl, hfree, rfl⟩
    · rename_i hfree
      refine ⟨rfl, hno (fun g hg => ?_)⟩
      rw [ha] at hg
      cases hg
      simpa using hfree

theorem ends_alloc_page_table :
    Ends (alloc_page_table m) (fun new m' => m.free new = true ∧ m' = (m.take new).zero new ∧
        ∀ k, m.Served (1 + k) → m'.Served k) (fun _ m' => m' = m.refuse ∧ ¬ m.Served 1) := by
  refine ends_bind (ends_kalloc_page m) ?_
  rintro new m' ⟨ha, hf, rfl⟩
  exact ⟨hf, rfl, fun k hk => hk.take ha⟩

theorem ends_alloc_and_copy_page (src : PhysAddr) :
    Ends (alloc_and_copy_page src m)
      (fun new m' => m.free new = true ∧ m' = (m.take new).copy_page src new)
      (fun _ m' => m' = m.refuse) := by
  refine ends_then (ends_kalloc_page m) (fun _ _ h => h.1) ?_
  rintro new m' ⟨_, hf, rfl⟩
  exact ⟨hf, rfl⟩

end Machine

/-! ## A new frame -/

/-- A free frame gets a role. As a table it is empty, and its path was not in use. -/
theorem Wf.alloc {m' : Machine} {R : Role} (h : Wf role m) (hf : m.free g = true)
    (hmem : ∀ t, t ≠ g → m'.mem t = m.mem t)
    (hfree : ∀ f, m'.free f = true → f ≠ g ∧ m.free f = true)
    (hnew : ∀ n p, R = .table n p → (∀ j, m'.mem g j = 0) ∧ (∀ t, role t ≠ .table n p) ∧
      (p.length ≤ 3 ∧ Fits [] p) ∧ (p = [] → g = n)) : Wf (Function.update role g R) m' := by
  have hcase : ∀ t r q, Function.update role g R t = .table r q →
      (t = g ∧ R = .table r q) ∨ (t ≠ g ∧ role t = .table r q) := by
    intro t r q ht
    by_cases htg : t = g
    · subst htg
      rw [Function.update_self] at ht
      exact Or.inl ⟨rfl, ht⟩
    · rw [Function.update_of_ne htg] at ht
      exact Or.inr ⟨htg, ht⟩
  constructor
  · intro t r q i ht hq hi hpres
    rcases hcase t r q ht with ⟨rfl, hR⟩ | ⟨htg, ht'⟩
    · rw [(hnew r q hR).1] at hpres
      cases hpres
    · rw [hmem t htg] at hpres ⊢
      have hb := h.below t r q i ht' hq hi hpres
      refine ⟨hb.1, ?_⟩
      rw [Function.update_of_ne, hb.2]
      intro hc
      rw [hc, h.free g hf] at hb
      cases hb.2
  · intro t t' r q ht ht'
    rcases hcase t r q ht with ⟨rfl, hR⟩ | ⟨_, h1⟩
    · rcases hcase t' r q ht' with ⟨rfl, _⟩ | ⟨_, h2⟩
      · rfl
      · exact absurd h2 ((hnew r q hR).2.1 t')
    · rcases hcase t' r q ht' with ⟨rfl, hR⟩ | ⟨_, h2⟩
      · exact absurd h1 ((hnew r q hR).2.1 t)
      · exact h.inj t t' r q h1 h2
  · intro t r ht
    rcases hcase t r [] ht with ⟨rfl, hR⟩ | ⟨_, h1⟩
    · exact (hnew r [] hR).2.2.2 rfl
    · exact h.root t r h1
  · intro t r q ht
    rcases hcase t r q ht with ⟨_, hR⟩ | ⟨_, h1⟩
    · exact (hnew r q hR).2.2.1
    · exact h.path t r q h1
  · intro f hf'
    rw [Function.update_of_ne (hfree f hf').1]
    exact h.free f (hfree f hf').2
  · intro f hf'
    by_cases hfg : f = g
    · subst hfg
      exact h.aligned f (Or.inl hf)
    · rw [Function.update_of_ne hfg] at hf'
      exact h.aligned f (hf'.imp_left fun h => (hfree f h).2)

/-- A free frame becomes an empty table at a path where the space has none. -/
theorem Ok.alloc_table (h : Ok strict role m) (hf : m.free new = true)
    (hno : ∀ t, role t ≠ .table n p) (hp : p.length ≤ 3 ∧ Fits [] p) (hroot : p = [] → new = n) :
    Ok strict (Function.update role new (.table n p)) ((m.take new).zero new) := by
  have hspare := h.wf.free new hf
  have hmem : ∀ t, t ≠ new → ((m.take new).zero new).mem t = m.mem t := by
    intro t ht
    simp [zero, take, ht]
  have hzero : ∀ j, ((m.take new).zero new).mem new j = 0 := by intro j; simp [zero]
  constructor
  · refine h.wf.alloc hf hmem ?_ ?_
    · intro f hfree
      simpa [zero, take] using hfree
    · intro r q hR
      cases hR
      exact ⟨hzero, hno, hp, hroot⟩
  · have hview : view (Function.update role new (.table n p)) ((m.take new).zero new) =
        view role m := by
      funext ⟨t, i⟩
      by_cases htn : t = new
      · subst htn
        rw [view_not_present (by rw [hzero]; rfl)]
        simp [view, hspare]
      · unfold view
        rw [Function.update_of_ne htn, hmem t htn]
    rw [hview]
    refine h.sharing.congr ?_ ?_
    · rintro ⟨t, i⟩ a hx
      have htn : t ≠ new := by
        rintro rfl
        simp [view, hspare] at hx
      simp [place, Function.update_of_ne htn]
    · intro f
      by_cases hfn : f = new
      · subst hfn
        simp [hspare]
      · rw [Function.update_of_ne hfn]

/-- A slot of a shared page gets a copy in a free frame. -/
theorem Ok.copy (h : Ok strict role m) (ht : role t = .table r p) (hp : p.length = 3)
    (hi : i < 512) (hpres : present (m.mem t i) = true) (hc : cow (m.mem t i) = true)
    (hr : m.refcount_get (addr (m.mem t i)) ≠ 1) (hf : m.free g = true) :
    Ok strict (Function.update role g .user)
      ((((m.take g).copy_page (addr (m.mem t i)) g).set_entry t i
        (owned_entry g (m.mem t i))).refcount_dec (addr (m.mem t i))).2 := by
  have hspare := h.wf.free g hf
  have hg : Aligned g := h.wf.aligned g (Or.inl hf)
  have hv := view_leaf ht hp hi hpres
  have hcount : m.refcounts (addr (m.mem t i)) = some 2 := (h.sharing _).count_two hr
  have hsharing := h.sharing.copy hv hc hr (g := g) (by rw [hspare]; nofun)
  have hpage : pageOf (owned_entry g (m.mem t i)) = ⟨g, true, false⟩ := by
    rw [pageOf, addr_owned_entry hg, writable_owned_entry hg, cow_owned_entry hg]
  have hpres' : present (owned_entry g (m.mem t i)) = true := by
    rw [present_owned_entry hg]; exact hpres
  generalize owned_entry g (m.mem t i) = e at hpage hpres' ⊢
  have hdec : ((((m.take g).copy_page (addr (m.mem t i)) g).set_entry t i e).refcount_dec
      (addr (m.mem t i))).2 =
        { ((m.take g).copy_page (addr (m.mem t i)) g).set_entry t i e with
          refcounts := Function.update m.refcounts (addr (m.mem t i)) (some 1) } := by
    have hc' : (((m.take g).copy_page (addr (m.mem t i)) g).set_entry t i e).refcounts
        (addr (m.mem t i)) = some 2 := hcount
    rw [refcount_dec_eq, hc']
    rfl
  rw [hdec]
  -- the tables are as before, but for the entry
  have hmem : ∀ t', t' ≠ g → (((m.take g).copy_page (addr (m.mem t i)) g).set_entry t i e).mem t' =
      (m.set_entry t i e).mem t' := by
    intro t' htg
    simp [set_entry, copy_page, take, htg]
  constructor
  · refine (h.wf.set_leaf ht hp i e).alloc hf hmem ?_ (by simp)
    intro f hf'
    simpa [set_entry, copy_page, take] using hf'
  · have hview : view (Function.update role g .user)
        { ((m.take g).copy_page (addr (m.mem t i)) g).set_entry t i e with
          refcounts := Function.update m.refcounts (addr (m.mem t i)) (some 1) } =
          Function.update (view role m) (t, i) (some ⟨g, true, false⟩) := by
      rw [← hpage, ← view_set_leaf m ht hp hi hpres']
      funext x
      obtain ⟨t', j⟩ := x
      by_cases htg : t' = g
      · subst htg
        simp [view, hspare]
      · unfold view
        rw [Function.update_of_ne htg]
        rw [hmem t' htg]
    rw [hview]
    refine hsharing.congr ?_ ?_
    · rintro ⟨t', j⟩ a hx
      have htg : t' ≠ g := by
        rintro rfl
        by_cases hx' : (t', j) = (t, i)
        · cases hx'
          rw [hspare] at ht
          cases ht
        · rw [Function.update_of_ne hx'] at hx
          simp [view, hspare] at hx
      simp [place, Function.update_of_ne htg]
    · intro f
      by_cases hfg : f = g
      · subst hfg; simp
      · rw [Function.update_of_ne hfg]; simp [hfg]

end zenos_kernel.process.isolation
