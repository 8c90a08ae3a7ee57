-- The count of a user frame is the number of its mappings, and a teardown frees
-- a frame with its last mapping. A clone of a page that is not writable adds a
-- mapping without counting it.
import Zenos.Isolation.Privacy
import Mathlib.Data.Set.Card

namespace zenos_kernel.process.isolation

open PageTableEntry CopyOnWrite

/-- The present level-1 entries that map frame `f`, over all spaces: the space,
the path of the table and the index. -/
def World.mappings (w : World) (f : PhysAddr) : Set (PhysAddr × List Nat × Nat) :=
  {x | x.1 ∈ w.live ∧ ∃ e, Entry w.m x.1 x.2.1 x.2.2 e ∧ addr e = f}

section

variable {strict : Bool} {role : PhysAddr → Role} {w : World} {f r t active : PhysAddr} {i : Nat}
  {p : List Nat} {a : Page PhysAddr}

section

variable (h : Inv strict role w)

include h

/-- A mapping is a slot of a table of the space. -/
theorem Inv.mem_mappings : (r, p, i) ∈ w.mappings f ↔
      ∃ t a, role t = .table r p ∧ Maps (view role w.m) f (t, i) a := by
  constructor
  · rintro ⟨hr, e, he, hf⟩
    obtain ⟨t, ht, hp, hi, rfl, hpres⟩ := (h.entry_iff hr).mp he
    exact ⟨t, _, ht, view_leaf ht hp hi hpres, hf⟩
  · rintro ⟨t, a, ht, hv, hf⟩
    obtain ⟨r', p', ht', hp, hi, hpres, rfl⟩ := view_eq_some.mp hv
    cases ht.symm.trans ht'
    have hr := (h.linked t r p ht).1
    exact ⟨hr, _, (h.entry_iff hr).mpr ⟨t, ht, hp, hi, rfl, hpres⟩, hf⟩

theorem Inv.mappings_pair {t' r' : PhysAddr} {p' : List Nat} {j : Nat}
    {b : Page PhysAddr} (ht : role t = .table r p) (ht' : role t' = .table r' p')
    (hm : Maps (view role w.m) f (t, i) a) (hm' : Maps (view role w.m) f (t', j) b)
    (htwo : ∀ y c, Maps (view role w.m) f y c → y = (t, i) ∨ y = (t', j)) :
    w.mappings f = {(r, p, i), (r', p', j)} := by
  ext ⟨r1, p1, k⟩
  rw [h.mem_mappings]
  constructor
  · rintro ⟨t1, c, ht1, hc⟩
    rcases htwo _ c hc with hx | hx
    · cases hx
      cases ht.symm.trans ht1
      exact Or.inl rfl
    · cases hx
      cases ht'.symm.trans ht1
      exact Or.inr rfl
  · rintro (hx | hx)
    · cases hx
      exact ⟨t, a, ht, hm⟩
    · cases hx
      exact ⟨t', b, ht', hm'⟩

omit h in
/-- The count of a mapped frame is the number of its mappings. -/
theorem Inv.count_eq (h : Inv true role w) (hf : (w.mappings f).Nonempty) :
    (w.m.refcount_get f).toNat = (w.mappings f).ncard := by
  obtain ⟨⟨r, p, i⟩, hx⟩ := hf
  obtain ⟨t, a, ht, hm⟩ := h.mem_mappings.mp hx
  have hok := h.ok.sharing f
  have hone : refs w.m.refcounts f = 1 → (∀ y b, Maps (view role w.m) f y b → y = (t, i)) →
      (w.m.refcount_get f).toNat = (w.mappings f).ncard := by
    intro hr hall
    rw [h.mappings_pair ht ht hm hm fun y b hb => Or.inl (hall y b hb), Set.pair_eq_singleton,
      Set.ncard_singleton]
    exact congrArg UInt32.toNat hr
  cases hc : a.cow with
  | false =>
    -- a page that is mapped twice would be copy-on-write
    refine hone (hok.plain _ a hm hc) (fun y b hb => ?_)
    by_contra hne
    have := hok.shared rfl (t, i) y a b hm hb (Ne.symm hne)
    rw [hc] at this
    cases this
  | true =>
    rcases hok.tracked rfl (t, i) a hm hc with h1 | ⟨h2, ⟨t', j⟩, b, hne, hb⟩
    · have hr : refs w.m.refcounts f = 1 := by rw [refs, h1]; rfl
      exact hone hr (fun y b hb => (hok.one _ y a b hm hb hc hr).symm)
    obtain ⟨r', p', ht', _⟩ := view_eq_some.mp hb.1
    rw [h.mappings_pair ht ht' hm hb ?_, Set.ncard_pair ?_, Machine.refcount_get, h2]
    · rfl
    · intro hx
      cases hx
      exact hne (by rw [h.ok.wf.inj t t' r p ht ht'])
    · intro y c hy
      by_cases hyt : y = (t, i)
      · exact Or.inl hyt
      · exact Or.inr (hok.two (t, i) y (t', j) a c b hm hy hb hc (Ne.symm hyt) (Ne.symm hne))

/-- A mapped frame is a user frame, so it is not free. -/
theorem Inv.user_of_mapped (hf : (w.mappings f).Nonempty) : role f = .user := by
  obtain ⟨⟨r, p, i⟩, hx⟩ := hf
  obtain ⟨t, a, _, hm⟩ := h.mem_mappings.mp hx
  exact (h.ok.sharing f).inUse _ _ hm

theorem Inv.not_free (hf : role f = .user) : w.m.free f = false := by
  cases hfree : w.m.free f with
  | false => rfl
  | true =>
    have := h.ok.wf.free f hfree
    rw [hf] at this
    cases this

end

theorem Inv.mapped_of_user (h : Inv true role w) (hf : role f = .user) :
    (w.mappings f).Nonempty := by
  obtain ⟨⟨t, i⟩, a, hm⟩ := (h.ok.sharing f).mapped rfl hf
  obtain ⟨r, p, ht, _⟩ := view_eq_some.mp hm.1
  exact ⟨_, h.mem_mappings.mpr ⟨t, a, ht, hm⟩⟩

theorem Inv.freed_with_last (h : Inv true role w) {a : Action} (hl : w.Legal a) (hc : w.Counted a)
    (hf : (w.mappings f).Nonempty) (hgone : (w.step a).mappings f = ∅) :
    (w.step a).m.free f = true := by
  have huser := h.user_of_mapped hf
  -- a step that keeps the role of the frame keeps it mapped
  have hkeep : ∀ role', Inv true role' (w.step a) → role' f = role f → False := by
    intro role' h' hr
    obtain ⟨x, hx⟩ := h'.mapped_of_user (hr.trans huser)
    rw [hgone] at hx
    exact hx
  have hne : role f ≠ .spare := by rw [huser]; exact fun h => by cases h
  cases a with
  | clone r =>
    obtain ⟨role', h1, h2⟩ := h.clone hl hc
    exact (hkeep role' h1 (h2 f hne)).elim
  | fault r va =>
    obtain ⟨role', h1⟩ := handle_cow_fault_spec (h.ok.load_cr3 r) (h.live r hl.1) hl.2
    exact (hkeep role' (h.local h1) (h1.keep f hne)).elim
  | store r va v tries =>
    obtain ⟨role', h1⟩ := store_spec tries (h.ok.load_cr3 r) (h.live r hl.1) hl.2 v
    exact (hkeep role' (h.local h1) (h1.keep f hne)).elim
  | teardown active r =>
    obtain ⟨role', h1⟩ := h.tornDown hl.2.1 hc
    refine (h1.free f).mpr (Or.inr ?_)
    by_contra hnot
    exact hkeep role' (h.teardown h1) (by rw [h1.roles f, if_neg hnot])

/-- A teardown takes the mappings of its space away, and no others. -/
theorem mem_mappings_teardown {x : PhysAddr × List Nat × Nat}
    (hmem : (w.step (.teardown active r)).m.mem = w.m.mem) :
    x ∈ (w.step (.teardown active r)).mappings f ↔ x ∈ w.mappings f ∧ x.1 ≠ r := by
  have hentry : ∀ e, Entry (w.step (.teardown active r)).m x.1 x.2.1 x.2.2 e ↔
      Entry w.m x.1 x.2.1 x.2.2 e := by
    intro e
    constructor
    · exact fun h => ⟨h.path, h.index, hmem ▸ h.found, h.present⟩
    · exact fun h => ⟨h.path, h.index, hmem.symm ▸ h.found, h.present⟩
  unfold World.mappings
  simp only [Set.mem_ofPred_eq, hentry]
  change x.1 ∈ w.live.filter (· ≠ r) ∧ _ ↔ _
  rw [List.mem_filter, decide_eq_true_eq]
  exact and_right_comm

/-- A teardown passes a frame of the space to `free_phys_page` once if no other
space maps it, and not at all if one does. -/
theorem Inv.passed (h : Inv true role w) (hl : w.Legal (.teardown active r))
    (hc : w.Counted (.teardown active r)) (hf : (r, p, i) ∈ w.mappings f) :
    ((∀ x ∈ w.mappings f, x.1 = r) → (torn_frames (w.load_cr3 active) r).count f = 1) ∧
      ((∃ x ∈ w.mappings f, x.1 ≠ r) → (torn_frames (w.load_cr3 active) r).count f = 0) := by
  obtain ⟨role', ht⟩ := h.tornDown hl.2.1 hc
  have h' := h.teardown ht
  have hmem : (w.step (.teardown active r)).m.mem = w.m.mem := ht.mem
  constructor
  · intro hall
    refine List.count_eq_one_of_mem ht.once ?_
    by_contra hnot
    -- the frame would still be mapped, by another space
    have hrole : role' f = .user := by rw [ht.roles f, if_neg hnot, h.user_of_mapped ⟨_, hf⟩]
    obtain ⟨x, hx⟩ := h'.mapped_of_user hrole
    obtain ⟨hold, hne⟩ := (mem_mappings_teardown hmem).mp hx
    exact hne (hall x hold)
  · rintro ⟨x, hx, hne⟩
    refine List.count_eq_zero_of_not_mem (fun hf' => ?_)
    have hspare : role' f = .spare := by rw [ht.roles f, if_pos hf']
    have huser := h'.user_of_mapped ⟨x, (mem_mappings_teardown hmem).mpr ⟨hx, hne⟩⟩
    cases hspare.symm.trans huser

end

/-! ## The law -/

/-- In every run whose steps are counted, the count of a mapped frame is the
number of its mappings and the frame is not free, a frame that loses its last
mapping becomes free, and a teardown passes a frame of its space to
`free_phys_page` once if it held the last mapping, and else not at all. -/
theorem a_frame_lives_as_long_as_its_mappings {w0 w : World} {r0 : PhysAddr}
    (hinit : w0.Init r0) (hrun : World.Runs World.Counted w0 w) :
    (∀ f, (w.mappings f).Nonempty →
      (w.m.refcount_get f).toNat = (w.mappings f).ncard ∧ w.m.free f = false) ∧
    (∀ a, w.Legal a → w.Counted a → ∀ f, (w.mappings f).Nonempty →
      (w.step a).mappings f = ∅ → (w.step a).m.free f = true) ∧
    (∀ active r, w.Legal (.teardown active r) → w.Counted (.teardown active r) →
      ∃ passed, (w.step (.teardown active r)).m.freed = passed ++ w.m.freed ∧
        ∀ f p i, (r, p, i) ∈ w.mappings f → ((∀ x ∈ w.mappings f, x.1 = r) → passed.count f = 1) ∧
          ((∃ x ∈ w.mappings f, x.1 ≠ r) → passed.count f = 0)) := by
  obtain ⟨role, h⟩ := (inv_init hinit true).runs hrun
  refine ⟨fun f hf => ⟨h.count_eq hf, h.not_free (h.user_of_mapped hf)⟩,
    fun a hl hc f hf hgone => h.freed_with_last hl hc hf hgone, fun active r hl hc => ?_⟩
  obtain ⟨role', ht⟩ := h.tornDown hl.2.1 hc
  refine ⟨_, ht.freed, fun f p i hf => ?_⟩
  rw [List.count_reverse]
  exact h.passed hl hc hf

/-- A clone of the small world needs four frames, and gets them. -/
theorem small_served : smallMachine.Served (tables_of smallMachine.mem 0x1000) := by
  have hcost : tables_of smallMachine.mem 0x1000 = 4 := by decide +kernel
  have hall : ∀ j < 4, smallMachine.free (UInt64.ofNat (0x10000 + 0x1000 * j)) = true ∧
      ∀ j' < j, smallMachine.answers (0 + j') ≠ some (UInt64.ofNat (0x10000 + 0x1000 * j)) := by
    decide +kernel
  rw [hcost]
  intro j hj
  exact ⟨_, by rw [smallMachine, Nat.zero_add], (hall j hj).1, (hall j hj).2⟩

/-- A space that maps the page of the small world copy-on-write. -/
theorem cow_mapping {w : World} {r t : PhysAddr} (hr : r ∈ w.live)
    (hw : walk w.m.mem r [0, 0, 0] = some t) (he : w.m.mem t 0 = 0x5205) :
    (r, [0, 0, 0], 0) ∈ w.mappings 0x5000 := by
  have hpath : [0, 0, 0].length = 3 ∧ Fits [] [0, 0, 0] := ⟨rfl, by simp [Fits, limit]⟩
  have hpres : present 0x5205 = true := by decide
  have haddr : addr 0x5205 = 0x5000 := by decide
  exact ⟨hr, 0x5205, ⟨hpath, Nat.succ_pos _, ⟨t, hw, he⟩, hpres⟩, haddr⟩

/-- After one clone the page has two mappings, and its count is 2. -/
theorem one_clone_counts_two :
    (0x1000, [0, 0, 0], 0) ∈ oneChild.mappings 0x5000 ∧
      (oneChild.m.refcount_get 0x5000).toNat = (oneChild.mappings 0x5000).ncard ∧
      oneChild.m.refcount_get 0x5000 = 2 := by
  have heval : oneChild.live = [0x10000, 0x1000] ∧
      walk oneChild.m.mem 0x1000 [0, 0, 0] = some 0x4000 ∧ oneChild.m.mem 0x4000 0 = 0x5205 ∧
      oneChild.m.refcount_get 0x5000 = 2 := by decide +kernel
  obtain ⟨hlive, hwalk, hmem, hcount⟩ := heval
  have hc : smallWorld.Counted (.clone 0x1000) := by
    refine ⟨fun p i e h => ?_, small_served⟩
    obtain ⟨_, _, rfl⟩ := small_entry h
    decide
  have hrun : World.Runs World.Counted smallWorld oneChild :=
    .single ⟨.clone 0x1000, List.mem_cons_self, hc, rfl⟩
  have hx : (0x1000, [0, 0, 0], 0) ∈ oneChild.mappings 0x5000 :=
    cow_mapping (by rw [hlive]; decide) hwalk hmem
  have hlaw := a_frame_lives_as_long_as_its_mappings small_init hrun
  exact ⟨hx, (hlaw.1 0x5000 ⟨_, hx⟩).1, hcount⟩

/-- The spaces that map the page after two clones, and their level-1 tables. -/
def cowTable : Nat → PhysAddr × PhysAddr
  | 0 => (0x1000, 0x4000)
  | 1 => (0x10000, 0x13000)
  | _ => (0x14000, 0x17000)

/-- The second clone finds a page that is not writable and does not count the
new mapping: three entries map the page, and the count is 2. -/
theorem a_second_clone_is_not_counted :
    ¬ ∀ (w0 w : World) (r0 f : PhysAddr), w0.Init r0 → World.Runs (fun _ _ => True) w0 w →
      (w.mappings f).Nonempty → (w.m.refcount_get f).toNat = (w.mappings f).ncard := by
  intro h
  have heval : twoChildren.live = [0x14000, 0x10000, 0x1000] ∧
      twoChildren.m.refcount_get 0x5000 = 2 ∧
      ∀ k < 3, (cowTable k).1 ∈ [0x14000, 0x10000, 0x1000] ∧
        walk twoChildren.m.mem (cowTable k).1 [0, 0, 0] = some (cowTable k).2 ∧
        twoChildren.m.mem (cowTable k).2 0 = 0x5205 := by
    decide +kernel
  obtain ⟨hlive2, hcount, hpages⟩ := heval
  have hmap : ∀ k < 3, ((cowTable k).1, [0, 0, 0], 0) ∈ twoChildren.mappings 0x5000 := by
    intro k hk
    obtain ⟨hlive, hwalk, hmem⟩ := hpages k hk
    exact cow_mapping (by rw [hlive2]; exact hlive) hwalk hmem
  have htwo := h smallWorld twoChildren 0x1000 0x5000 small_init runs_twoChildren
    ⟨_, hmap 0 (by decide)⟩
  rw [hcount] at htwo
  -- a set of two elements does not hold three
  obtain ⟨x, y, _, hxy⟩ := Set.ncard_eq_two.mp htwo.symm
  have ha := hmap 0 (by decide)
  have hb := hmap 1 (by decide)
  have hc := hmap 2 (by decide)
  rw [hxy, Set.mem_insert_iff, Set.mem_singleton_iff] at ha hb hc
  rcases ha with rfl | rfl
  · rcases hb with hb | rfl
    · exact absurd hb (by decide)
    · exact absurd hc (by decide)
  · rcases hb with rfl | hb
    · exact absurd hc (by decide)
    · exact absurd hb (by decide)

end zenos_kernel.process.isolation
