-- What a teardown does to the memory. It writes no page and no table, so the
-- frames it passes over are known beforehand: they are listed first, and the
-- teardown is a walk along that list.
import Zenos.Isolation.Slots

namespace zenos_kernel.process.isolation

open PageTableEntry CopyOnWrite

/-- What `free_page_table_recursive` gives up: the page of a level-1 entry, or
a table. -/
inductive Drop
  | page (e : PageTableEntry)
  | table (t : PhysAddr)

def Drop.frame : Drop → PhysAddr
  | .page e => addr e
  | .table t => t

/-- What `free_page_table_recursive` gives up, in its order. -/
def drops (mem : PhysAddr → Nat → UInt64) : Nat → PhysAddr → List Drop
  | 0, _ => []
  | level + 1, t =>
    (List.range 512).flatMap (fun i =>
      if !present (mem t i) then []
      else if huge (mem t i) then []
      else if level = 0 then [.page (mem t i)]
      else drops mem level (addr (mem t i))) ++ [.table t]

/-- What `teardown_address_space` gives up, in its order. -/
def space_drops (mem : PhysAddr → Nat → UInt64) (root : PhysAddr) : List Drop :=
  (List.range 256).flatMap (fun i =>
    if !present (mem root i) then [] else drops mem 3 (addr (mem root i))) ++ [.table root]

variable {d : Drop} {mem : PhysAddr → Nat → UInt64} {g : Nat → List Drop}

theorem mem_drops_succ {level : Nat} {t : PhysAddr} :
    d ∈ drops mem (level + 1) t ↔ (∃ i < 512, present (mem t i) = true ∧ huge (mem t i) = false ∧
      if level = 0 then d = .page (mem t i) else d ∈ drops mem level (addr (mem t i))) ∨
        d = .table t := by
  simp only [drops, List.mem_append, List.mem_flatMap, List.mem_range, List.mem_singleton]
  refine or_congr_left (exists_congr fun i => and_congr_right fun _ => ?_)
  cases present (mem t i) <;> cases huge (mem t i) <;> by_cases hl : level = 0 <;> simp [hl]

theorem mem_space_drops {root : PhysAddr} :
    d ∈ space_drops mem root ↔ (∃ i < 256, present (mem root i) = true ∧
      d ∈ drops mem 3 (addr (mem root i))) ∨ d = .table root := by
  simp only [space_drops, List.mem_append, List.mem_flatMap, List.mem_range, List.mem_singleton]
  refine or_congr_left (exists_congr fun i => and_congr_right fun _ => ?_)
  cases present (mem root i) <;> simp

/-- The table is given up, and with a table at depth 3 its pages. -/
def GivesUp (mem : PhysAddr → Nat → UInt64) (ds : List Drop) (t : PhysAddr) (depth : Nat) : Prop :=
  .table t ∈ ds ∧ (depth = 3 → ∀ i < 512, present (mem t i) = true → huge (mem t i) = false →
    .page (mem t i) ∈ ds)

theorem GivesUp.mono {ds ds' : List Drop} {t : PhysAddr} {n n' : Nat} (h : GivesUp mem ds t n)
    (hin : ∀ d ∈ ds, d ∈ ds') (hn : n' = 3 → n = 3) : GivesUp mem ds' t n' :=
  ⟨hin _ h.1, fun h3 i hi hpres hh => hin _ (h.2 (hn h3) i hi hpres hh)⟩

namespace Machine

variable (m : Machine) (count : PhysAddr → Option UInt32)

def drop : Drop → Machine
  | .page e =>
    if cow e then
      match m.refcount_dec (addr e) with
      | (true, m) => m.free_phys_page (addr e)
      | (false, m) => m
    else m.free_phys_page (addr e)
  | .table t => m.free_phys_page t

theorem drop_mem (d : Drop) : (m.drop d).mem = m.mem := by
  cases d with
  | table t => rfl
  | page e =>
    simp only [drop, refcount_dec_eq]
    cases cow e <;> cases decide (m.refcounts (addr e) = some 1) <;> rfl

theorem drops_mem (ds : List Drop) : (ds.foldl drop m).mem = m.mem := by
  induction ds generalizing m with
  | nil => rfl
  | cons d ds ih => rw [List.foldl_cons, ih, drop_mem]

/-- A loop whose turns only drop things is a walk along what they drop. -/
theorem foldl_drops {body : Machine → Nat → Machine} {m : Machine}
    (hbody : ∀ m' i, m'.mem = m.mem → body m' i = (g i).foldl drop m') (is : List Nat) :
    is.foldl body m = (is.flatMap g).foldl drop m := by
  have go : ∀ (is : List Nat) (m' : Machine), m'.mem = m.mem →
      is.foldl body m' = (is.flatMap g).foldl drop m' := by
    intro is
    induction is with
    | nil => intro m' _; rfl
    | cons i is ih =>
      intro m' hm
      rw [List.foldl_cons, List.flatMap_cons, List.foldl_append, hbody m' i hm]
      exact ih _ (by rw [drops_mem, hm])
  exact go is m rfl

theorem free_page_table_recursive_eq (level : Nat) (t : PhysAddr) (m : Machine) :
    free_page_table_recursive level t m = (drops m.mem level t).foldl drop m := by
  induction level generalizing t m with
  | zero => rfl
  | succ level ih =>
    rw [drops, List.foldl_append]
    refine congrArg (fun m' : Machine => m'.free_phys_page t) (foldl_drops ?_ _)
    intro m' i hm
    unfold free_entry
    simp only [contains_present, contains_huge, contains_cow, hm, Nat.add_eq_right]
    cases present (m.mem t i) with
    | false => rfl
    | true =>
      cases huge (m.mem t i) with
      | true => rfl
      | false =>
        by_cases hl : level = 0
        · simp only [hl]
          rfl
        · simp only [hl, Bool.not_true, Bool.false_eq_true, if_false]
          rw [ih, hm]

theorem teardown_address_space_eq (root : PhysAddr) :
    m.teardown_address_space root = (space_drops m.mem root).foldl drop m := by
  unfold space_drops
  rw [List.foldl_append]
  refine congrArg (fun m' : Machine => m'.free_phys_page root) (foldl_drops ?_ _)
  intro m' i hm
  unfold free_l4_entry
  simp only [contains_present, hm]
  cases present (m.mem root i) with
  | false => rfl
  | true =>
    simp only [Bool.not_true, Bool.false_eq_true, if_false]
    rw [free_page_table_recursive_eq, hm]

/-! ## The effect of a list of drops -/

/-- The frame of a drop that is passed to `free_phys_page`. -/
def thrown_of : Drop → Option PhysAddr
  | .page e =>
    if cow e then (if count (addr e) = some 1 then some (addr e) else none) else some (addr e)
  | .table t => some t

/-- The frames that are passed to `free_phys_page`, in order. -/
def thrown (ds : List Drop) : List PhysAddr :=
  ds.filterMap (thrown_of count)

theorem thrown_of_frame {count : PhysAddr → Option UInt32} {f : PhysAddr}
    (h : thrown_of count d = some f) : d.frame = f := by
  cases d with
  | table t => exact Option.some.inj h
  | page e =>
    simp only [thrown_of] at h
    split at h
    · split at h
      · exact Option.some.inj h
      · cases h
    · exact Option.some.inj h

theorem thrown_sublist (ds : List Drop) : (thrown count ds).Sublist (ds.map Drop.frame) := by
  induction ds with
  | nil => exact List.Sublist.slnil
  | cons d ds ih =>
    unfold thrown at ih ⊢
    rw [List.filterMap_cons, List.map_cons]
    split
    · exact ih.cons _
    · rename_i f hf
      rw [thrown_of_frame hf]
      exact ih.cons_cons _

/-- What a walk along `ds` leaves behind. -/
structure Dropped (m : Machine) (ds : List Drop) (m' : Machine) : Prop where
  mem : m'.mem = m.mem
  taken : ∀ e, .page e ∈ ds → cow e = true → m'.refcounts (addr e) = taken (m.refcounts (addr e))
  kept : ∀ f, (∀ e, .page e ∈ ds → cow e = true → addr e ≠ f) → m'.refcounts f = m.refcounts f
  free : ∀ f, m'.free f = true ↔ m.free f = true ∨ f ∈ thrown m.refcounts ds
  freed : m'.freed = (thrown m.refcounts ds).reverse ++ m.freed
  cr3 : m'.cr3 = m.cr3

theorem dropped_one (d : Drop) : Dropped m [d] (m.drop d) := by
  cases d with
  | table t =>
    refine ⟨rfl, ?_, fun _ _ => rfl, ?_, rfl, rfl⟩
    · intro e he
      simp at he
    · intro f
      simp only [drop, free_phys_page, thrown, thrown_of, List.filterMap_cons]
      by_cases hf : f = t <;> simp [hf]
  | page e =>
    cases hc : cow e with
    | false =>
      have hd : m.drop (.page e) = m.free_phys_page (addr e) := by simp [drop, hc]
      rw [hd]
      refine ⟨rfl, ?_, fun _ _ => rfl, ?_, by simp [thrown, thrown_of, hc, free_phys_page], rfl⟩
      · intro e' he' hc'
        simp only [List.mem_singleton, Drop.page.injEq] at he'
        rw [he', hc] at hc'
        cases hc'
      · intro f
        simp only [free_phys_page, thrown, thrown_of, hc, List.filterMap_cons]
        by_cases hf : f = addr e <;> simp [hf]
    | true =>
      have hkey : ∀ m' : Machine, m'.mem = m.mem →
          m'.refcounts = Function.update m.refcounts (addr e) (taken (m.refcounts (addr e))) →
          (∀ f, m'.free f = true ↔ m.free f = true ∨ f ∈ thrown m.refcounts [.page e]) →
          m'.freed = (thrown m.refcounts [.page e]).reverse ++ m.freed → m'.cr3 = m.cr3 →
          Dropped m [.page e] m' := by
        intro m' hmem hcount hfree hfreed hcr3
        refine ⟨hmem, ?_, ?_, hfree, hfreed, hcr3⟩
        · intro e' he' _
          simp only [List.mem_singleton, Drop.page.injEq] at he'
          rw [he', hcount, Function.update_self]
        · intro f hf
          rw [hcount, Function.update_of_ne (Ne.symm (hf e (by simp) hc))]
      simp only [drop, refcount_dec_eq, hc, if_true]
      by_cases hlast : m.refcounts (addr e) = some 1
      · rw [decide_eq_true hlast]
        refine hkey _ rfl rfl ?_ ?_ rfl
        · intro f
          simp only [free_phys_page, thrown, thrown_of, hc, hlast, if_true, List.filterMap_cons,
            List.filterMap_nil, List.mem_singleton]
          by_cases hf : f = addr e <;> simp [hf]
        · simp [free_phys_page, thrown, thrown_of, hc, hlast]
      · rw [decide_eq_false hlast]
        refine hkey _ rfl rfl ?_ ?_ rfl
        · simp [thrown, thrown_of, hc, hlast]
        · simp [thrown, thrown_of, hc, hlast]

theorem Dropped.cons {m m' : Machine} {ds : List Drop}
    (h : Dropped (m.drop d) ds m') (hd : d.frame ∉ ds.map Drop.frame) : Dropped m (d :: ds) m' := by
  have h1 := dropped_one m d
  have hne : ∀ d' ∈ ds, d'.frame ≠ d.frame := fun d' hd' hf =>
    hd (List.mem_map.mpr ⟨d', hd', hf⟩)
  -- the counts of the frames in `ds` are those of the beginning
  have hcount : ∀ d' ∈ ds, (m.drop d).refcounts d'.frame = m.refcounts d'.frame := by
    intro d' hd'
    refine h1.kept _ ?_
    intro e he _ hf
    rw [List.mem_singleton] at he
    subst he
    exact hne d' hd' hf.symm
  have hthrown : thrown (m.drop d).refcounts ds = thrown m.refcounts ds := by
    refine List.filterMap_congr ?_
    intro d' hd'
    cases d' with
    | table t => rfl
    | page e =>
      have := hcount _ hd'
      simp only [Drop.frame] at this
      simp only [thrown_of, this]
  have hsplit : thrown m.refcounts (d :: ds) = thrown m.refcounts [d] ++ thrown m.refcounts ds := by
    unfold thrown
    rw [← List.filterMap_append]
    rfl
  refine ⟨h.mem.trans h1.mem, ?_, ?_, ?_, ?_, h.cr3.trans h1.cr3⟩
  · intro e he hc
    rcases List.mem_cons.mp he with h2 | h2
    · subst h2
      rw [h.kept, h1.taken e (by simp) hc]
      intro e' he' _ hf
      exact hne _ he' hf
    · rw [h.taken e h2 hc]
      exact congrArg CopyOnWrite.taken (hcount _ h2)
  · intro f hf
    rw [h.kept f (fun e he hc => hf e (List.mem_cons_of_mem _ he) hc), h1.kept f]
    intro e he hc
    rw [List.mem_singleton] at he
    exact hf e (by rw [he]; exact List.mem_cons_self) hc
  · intro f
    rw [h.free, h1.free, hthrown, hsplit, List.mem_append, or_assoc]
  · rw [h.freed, h1.freed, hthrown, hsplit, List.reverse_append, List.append_assoc]

theorem dropped_foldl (ds : List Drop) (h : (ds.map Drop.frame).Nodup) :
    Dropped m ds (ds.foldl drop m) := by
  induction ds generalizing m with
  | nil =>
    refine ⟨rfl, ?_, fun _ _ => rfl, ?_, rfl, rfl⟩
    · intro e he; cases he
    · intro f; simp [thrown]
  | cons d ds ih =>
    rw [List.map_cons, List.nodup_cons] at h
    exact (ih (m.drop d) h.2).cons h.1

end Machine

/-! ## What a space gives up -/

/-- Frame `f` stands at `path` in the space `r`: as a table, or as the page of a
level-1 entry. -/
def At (role : PhysAddr → Role) (m : Machine) (r f : PhysAddr) (path : List Nat) : Prop :=
  role f = .table r path ∨ ∃ t p i, role t = .table r p ∧ p.length = 3 ∧ i < 512 ∧
    present (m.mem t i) = true ∧ addr (m.mem t i) = f ∧ path = p ++ [i]

variable {strict : Bool} {role : PhysAddr → Role} {m : Machine} {r : PhysAddr}

theorem Ok.at_unique (h : Ok strict role m) {f : PhysAddr} {path path' : List Nat}
    (h1 : At role m r f path) (h2 : At role m r f path') : path = path' := by
  have huser : ∀ {t p i}, role t = .table r p → p.length = 3 → i < 512 →
      present (m.mem t i) = true → role (addr (m.mem t i)) = .user :=
    fun ht hp hi hpres => (h.sharing _).inUse _ _ ⟨view_leaf ht hp hi hpres, rfl⟩
  rcases h1 with h1 | ⟨t, p, i, ht, hp, hi, hpres, ha, rfl⟩
  · rcases h2 with h2 | ⟨t, p, i, ht, hp, hi, hpres, ha, rfl⟩
    · exact (Role.table.inj (h1.symm.trans h2)).2
    · have := huser ht hp hi hpres
      rw [ha, h1] at this
      cases this
  · rcases h2 with h2 | ⟨t', p', i', ht', hp', hi', hpres', ha', rfl⟩
    · have := huser ht hp hi hpres
      rw [ha, h2] at this
      cases this
    · cases h.maps_once ht ht' ⟨view_leaf ht hp hi hpres, ha⟩ ⟨view_leaf ht' hp' hi' hpres', ha'⟩
      rw [(Role.table.inj (ht.symm.trans ht')).2]

variable {level : Nat} {p : List Nat} {t : PhysAddr}

section

variable (h : Ok strict role m)

include h

/-- The frames below the entries of a table, and the table itself, are distinct. -/
theorem nodup_below {k : Nat} (ht : role t = .table r p)
    (hg : ∀ i < k, ((g i).map Drop.frame).Nodup ∧
      ∀ f ∈ (g i).map Drop.frame, ∃ s, At role m r f (p ++ i :: s)) :
    (((List.range k).flatMap g ++ [Drop.table t]).map Drop.frame).Nodup := by
  rw [List.map_append, List.map_flatMap, List.nodup_append]
  refine ⟨?_, by simp, ?_⟩
  · rw [List.nodup_flatMap]
    refine ⟨fun i hi => (hg i (List.mem_range.mp hi)).1, ?_⟩
    refine List.Pairwise.imp_of_mem ?_ List.nodup_range
    intro i j hi hj hij
    rw [List.mem_range] at hi hj
    intro f hfi hfj
    obtain ⟨s, hs⟩ := (hg i hi).2 f hfi
    obtain ⟨s', hs'⟩ := (hg j hj).2 f hfj
    have := List.append_cancel_left (h.at_unique hs hs')
    exact hij (List.cons.inj this).1
  · rintro f hf _ hf' rfl
    rw [List.mem_flatMap] at hf
    obtain ⟨i, hi, hf⟩ := hf
    simp only [List.map_cons, List.map_nil, List.mem_singleton] at hf'
    rw [hf'] at hf
    obtain ⟨s, hs⟩ := (hg i (List.mem_range.mp hi)).2 t hf
    have := h.at_unique hs (Or.inl ht)
    simp at this

section

variable (ht : role t = .table r p) (hp : p ≠ []) (hlen : p.length + level = 4)

include ht hp hlen

/-- What is given up below path `p`. -/
theorem drops_at
    (hd : d ∈ drops m.mem level t) : (∃ q t', d = .table t' ∧ role t' = .table r (p ++ q)) ∨
      ∃ q t' i, d = .page (m.mem t' i) ∧ role t' = .table r (p ++ q) ∧ (p ++ q).length = 3 ∧
        i < 512 ∧ present (m.mem t' i) = true ∧ huge (m.mem t' i) = false := by
  induction level generalizing t p with
  | zero => cases hd
  | succ level ih =>
    rcases mem_drops_succ.mp hd with ⟨i, hi, hpres, hh, hd⟩ | rfl
    · split at hd
      · refine Or.inr ⟨[], t, i, hd, by rw [List.append_nil]; exact ht, ?_, hi, hpres, hh⟩
        rw [List.append_nil]
        omega
      · have hb := (h.wf.below t r p i ht (by omega) (by rw [limit_of_ne hp]; exact hi) hpres).2
        rcases ih hb (by simp) (by simp; omega) hd with ⟨q, t', h1, h2⟩ | ⟨q, t', j, h1, h2, h3⟩
        · exact Or.inl ⟨i :: q, t', h1, by rw [h2, List.append_assoc]; rfl⟩
        · rw [List.append_assoc] at h2 h3
          exact Or.inr ⟨i :: q, t', j, h1, h2, h3⟩
    · exact Or.inl ⟨[], t, rfl, by rw [List.append_nil]; exact ht⟩

omit ht hp hlen in
theorem space_drops_at (hr : role r = .table r []) (hd : d ∈ space_drops m.mem r) :
    (∃ q t, d = .table t ∧ role t = .table r q) ∨
      ∃ q t i, d = .page (m.mem t i) ∧ role t = .table r q ∧ q.length = 3 ∧
        i < 512 ∧ present (m.mem t i) = true ∧ huge (m.mem t i) = false := by
  rcases mem_space_drops.mp hd with ⟨i, hi, hpres, hd⟩ | rfl
  · have hb := (h.wf.below r r [] i hr (by simp) hi hpres).2
    rcases drops_at h hb (by simp) (by simp) hd with ⟨q, t', h1, h2⟩ | ⟨q, t', j, h1, h2, h3⟩
    · exact Or.inl ⟨_, t', h1, h2⟩
    · exact Or.inr ⟨_, t', j, h1, h2, h3⟩
  · exact Or.inl ⟨[], r, rfl, hr⟩

theorem drops_frame_at {f : PhysAddr} (hf : f ∈ (drops m.mem level t).map Drop.frame) :
    ∃ s, At role m r f (p ++ s) := by
  obtain ⟨d, hd, rfl⟩ := List.mem_map.mp hf
  rcases drops_at h ht hp hlen hd with ⟨q, t', rfl, h2⟩ | ⟨q, t', i, rfl, h2, h3, h4, h5, _⟩
  · exact ⟨q, Or.inl h2⟩
  · exact ⟨q ++ [i], Or.inr ⟨t', _, i, h2, h3, h4, h5, rfl, by rw [List.append_assoc]⟩⟩

theorem nodup_drops : ((drops m.mem level t).map Drop.frame).Nodup := by
  induction level generalizing t p with
  | zero => simp [drops]
  | succ level ih =>
    refine nodup_below (k := 512) h ht ?_
    intro i hi
    split
    · simp
    rename_i hpres
    have hpres' : present (m.mem t i) = true := by simpa using hpres
    split
    · simp
    split
    · refine ⟨by simp, ?_⟩
      intro f hf
      simp only [List.map_cons, List.map_nil, List.mem_singleton] at hf
      exact ⟨[], Or.inr ⟨t, p, i, ht, by omega, hi, hpres', hf.symm, rfl⟩⟩
    · have hb := (h.wf.below t r p i ht (by omega) (by rw [limit_of_ne hp]; exact hi) hpres').2
      refine ⟨ih hb (by simp) (by simp; omega), ?_⟩
      intro f hf
      obtain ⟨s, hs⟩ := drops_frame_at h hb (by simp) (by simp; omega) hf
      rw [List.append_assoc] at hs
      exact ⟨s, hs⟩

omit ht hp hlen in
theorem nodup_space_drops (hr : role r = .table r []) :
    ((space_drops m.mem r).map Drop.frame).Nodup := by
  refine nodup_below (k := 256) h hr ?_
  intro i hi
  split
  · simp
  · rename_i hpres
    have hb := (h.wf.below r r [] i hr (by simp) hi (by simpa using hpres)).2
    exact ⟨nodup_drops h hb (by simp) (by simp), fun f => drops_frame_at h hb (by simp) (by simp)⟩

/-! ## Everything of the space is given up -/

theorem drops_of_walk {t' : PhysAddr} {q : List Nat}
    (hq : Fits p q) (hql : p.length + q.length ≤ 3) (hw : walk m.mem t q = some t') :
    GivesUp m.mem (drops m.mem level t) t' (p.length + q.length) := by
  induction q generalizing t p level with
  | nil =>
    cases hw
    cases level with
    | zero => simp at hql; omega
    | succ level =>
      refine ⟨mem_drops_succ.mpr (Or.inr rfl), ?_⟩
      intro h3 i hi hpres hh
      refine mem_drops_succ.mpr (Or.inl ⟨i, hi, hpres, hh, ?_⟩)
      rw [if_pos (by simp at h3; omega)]
  | cons i q ih =>
    cases level with
    | zero => simp at hql; omega
    | succ level =>
      rw [walk] at hw
      split at hw
      · rename_i hpres
        have hql' : p.length + (q.length + 1) ≤ 3 := hql
        have hb := h.wf.below t r p i ht (by omega) hq.1 hpres
        have hi : i < 512 := by
          have hlimit := hq.1
          unfold limit at hlimit
          split at hlimit <;> omega
        have hlen' : (p ++ [i]).length + level = 4 := by simp; omega
        have hsub := ih hb.2 (by simp) hlen' hq.2 (by simp; omega) hw
        have hin : ∀ d ∈ drops m.mem level (addr (m.mem t i)), d ∈ drops m.mem (level + 1) t := by
          intro d hd
          refine mem_drops_succ.mpr (Or.inl ⟨i, hi, hpres, hb.1, ?_⟩)
          rw [if_neg (by omega)]
          exact hd
        exact hsub.mono hin (by simp; omega)
      · cases hw

end

theorem space_drops_of_walk {q : List Nat} (hr : role r = .table r []) (ht : role t = .table r q)
    (hw : walk m.mem r q = some t) : GivesUp m.mem (space_drops m.mem r) t q.length := by
  have hpath := h.wf.path t r q ht
  cases q with
  | nil =>
    cases hw
    refine ⟨mem_space_drops.mpr (Or.inr rfl), ?_⟩
    intro h3
    cases h3
  | cons i q =>
    rw [walk] at hw
    split at hw
    · rename_i hpres
      have hb := h.wf.below r r [] i hr (by simp) hpath.2.1 hpres
      have hlen : q.length + 1 ≤ 3 := hpath.1
      have hlen' : ([] ++ [i] : List Nat).length + 3 = 4 := by simp
      have hsub := drops_of_walk h hb.2 (by simp) hlen' hpath.2.2
        (by simp; omega) hw
      have hin : ∀ d ∈ drops m.mem 3 (addr (m.mem r i)), d ∈ space_drops m.mem r :=
        fun d hd => mem_space_drops.mpr (Or.inl ⟨i, hpath.2.1, hpres, hd⟩)
      exact hsub.mono hin (by simp; omega)
    · cases hw

end

/-! ## The teardown -/

/-- The slots of the space `r`. -/
def SlotOf (role : PhysAddr → Role) (r : PhysAddr) (x : PhysAddr × Nat) : Prop :=
  ∃ p, role x.1 = .table r p

/-- The teardown skips an entry with the bit that marks a huge page. -/
def Skipped (m : Machine) (x : PhysAddr × Nat) : Prop := huge (m.mem x.1 x.2) = true

/-- The frames that the teardown of `r` passes to `free_phys_page`, in order. -/
def torn_frames (m : Machine) (r : PhysAddr) : List PhysAddr :=
  Machine.thrown m.refcounts (space_drops m.mem r)

theorem pageOf_of_view {t : PhysAddr} {i : Nat} {a : Page PhysAddr}
    (hv : view role m (t, i) = some a) : a = pageOf (m.mem t i) := by
  obtain ⟨_, _, _, _, _, _, h⟩ := view_eq_some.mp hv
  exact h

section

variable (h : Ok strict role m) (hr : role r = .table r [])
  (hlinked : ∀ t q, role t = .table r q → walk m.mem r q = some t)

include h hr hlinked

/-- The entries that the teardown passes over. -/
theorem passed_iff (f : PhysAddr) (P : PageTableEntry → Prop) :
    (∃ e, .page e ∈ space_drops m.mem r ∧ P e ∧ addr e = f) ↔
      ∃ t i, Passed (SlotOf role r) (Skipped m) (view role m) f (t, i) (pageOf (m.mem t i)) ∧
        P (m.mem t i) := by
  constructor
  · rintro ⟨e, hd, hP, rfl⟩
    rcases space_drops_at h hr hd with ⟨q, t, h1, _⟩ | ⟨q, t, i, h1, ht, hq, hi, hpres, hh⟩
    · cases h1
    · cases h1
      exact ⟨t, i, ⟨⟨q, ht⟩, by rw [Skipped, hh]; simp, view_leaf ht hq hi hpres, rfl⟩, hP⟩
  · rintro ⟨t, i, ⟨⟨q, ht⟩, hskip, hv, hf⟩, hP⟩
    obtain ⟨r', q', ht', hq, hi, hpres, _⟩ := view_eq_some.mp hv
    cases ht.symm.trans ht'
    have hh : huge (m.mem t i) = false := by simpa [Skipped] using hskip
    exact ⟨m.mem t i, (space_drops_of_walk h hr ht (hlinked t q ht)).2 hq i hi hpres hh, hP, hf⟩

/-- The frames passed to `free_phys_page` are the tables of the space and the
pages that it throws away. -/
theorem mem_torn_frames (f : PhysAddr) :
    f ∈ torn_frames m r ↔ (∃ q, role f = .table r q) ∨
      Thrown (SlotOf role r) (Skipped m) (view role m) m.refcounts f := by
  have hpages := passed_iff h hr hlinked f (fun e => cow e = false ∨ m.refcounts f = some 1)
  have hthrown : Thrown (SlotOf role r) (Skipped m) (view role m) m.refcounts f ↔
      ∃ e, .page e ∈ space_drops m.mem r ∧ (cow e = false ∨ m.refcounts f = some 1) ∧
        addr e = f := by
    rw [hpages]
    constructor
    · rintro ⟨⟨t, i⟩, a, hp, hc⟩
      cases pageOf_of_view hp.maps.1
      exact ⟨t, i, hp, hc⟩
    · rintro ⟨t, i, hp, hc⟩
      exact ⟨(t, i), _, hp, hc⟩
  rw [hthrown, torn_frames, Machine.thrown, List.mem_filterMap]
  constructor
  · rintro ⟨d, hd, hf⟩
    cases d with
    | table t =>
      cases hf
      rcases space_drops_at h hr hd with ⟨q, t, h1, ht⟩ | ⟨q, t, i, h1, _⟩
      · cases h1
        exact Or.inl ⟨q, ht⟩
      · cases h1
    | page e =>
      right
      simp only [Machine.thrown_of] at hf
      split at hf
      · split at hf
        · rename_i hc1
          cases hf
          exact ⟨e, hd, Or.inr hc1, rfl⟩
        · cases hf
      · rename_i hc
        cases hf
        exact ⟨e, hd, Or.inl (by simpa using hc), rfl⟩
  · rintro (⟨q, hq⟩ | ⟨e, hd, hc, rfl⟩)
    · exact ⟨.table f, (space_drops_of_walk h hr hq (hlinked f q hq)).1, rfl⟩
    · refine ⟨.page e, hd, ?_⟩
      unfold Machine.thrown_of
      rcases hc with hc | hc
      · simp [hc]
      · simp [hc]

/-- What a teardown of space `r` leaves behind. -/
structure TornDown (strict : Bool) (r : PhysAddr) (role : PhysAddr → Role) (m : Machine)
    (role' : PhysAddr → Role) (m' : Machine) : Prop where
  ok : Ok strict role' m'
  mem : m'.mem = m.mem
  roles : ∀ f, role' f = if f ∈ torn_frames m r then .spare else role f
  tables : ∀ t r' p, role' t = .table r' p ↔ role t = .table r' p ∧ r' ≠ r
  free : ∀ f, m'.free f = true ↔ m.free f = true ∨ f ∈ torn_frames m r
  freed : m'.freed = (torn_frames m r).reverse ++ m.freed
  once : (torn_frames m r).Nodup
  cr3 : m'.cr3 = m.cr3

theorem teardown_spec
    (hplain : ∀ f x a, Passed (SlotOf role r) (Skipped m) (view role m) f x a → a.cow = false →
      ∀ y b, Maps (view role m) f y b → y = x)
    (hskip : strict = true → ∀ x a, SlotOf role r x → view role m x = some a → ¬ Skipped m x) :
    ∃ role', TornDown strict r role m role' (m.teardown_address_space r) := by
  have hd := m.dropped_foldl (space_drops m.mem r) (nodup_space_drops h hr)
  rw [← Machine.teardown_address_space_eq] at hd
  generalize m.teardown_address_space r = m' at hd
  have hmemt := mem_torn_frames h hr hlinked
  have huser : ∀ {x a}, view role m x = some a → role a.frame = .user :=
    fun hx => (h.sharing _).inUse _ _ ⟨hx, rfl⟩
  -- a thrown frame is a table of the space or a user page
  have hrole : ∀ f ∈ torn_frames m r, (∃ q, role f = .table r q) ∨ role f = .user := by
    intro f hf
    rcases (hmemt f).mp hf with h1 | ⟨x, a, hp, _⟩
    · exact Or.inl h1
    · refine Or.inr ?_
      rw [← hp.maps.2]
      exact huser hp.maps.1
  let role' : PhysAddr → Role := fun f => if f ∈ torn_frames m r then .spare else role f
  have htab : ∀ t r' p, role' t = .table r' p ↔ role t = .table r' p ∧ r' ≠ r := by
    intro t r' p
    change (if t ∈ torn_frames m r then Role.spare else role t) = _ ↔ _
    split
    · rename_i ht
      constructor
      · intro h1; cases h1
      · rintro ⟨h1, hne⟩
        rcases hrole t ht with ⟨q, h2⟩ | h2
        · rw [h1] at h2; cases h2; exact absurd rfl hne
        · rw [h1] at h2; cases h2
    · rename_i ht
      refine ⟨fun h1 => ⟨h1, ?_⟩, fun h1 => h1.1⟩
      rintro rfl
      exact ht ((hmemt t).mpr (Or.inl ⟨p, h1⟩))
  have hfree : ∀ f, m'.free f = true ↔ m.free f = true ∨ f ∈ torn_frames m r := hd.free
  refine ⟨role', ⟨?_, ?_⟩, hd.mem, fun _ => rfl, htab, hfree, hd.freed, ?_, hd.cr3⟩
  · refine ⟨?_, ?_, ?_, ?_, ?_, ?_⟩
    · intro t r' p i ht hp hi hpres
      rw [hd.mem] at hpres ⊢
      obtain ⟨ht, hne⟩ := (htab t r' p).mp ht
      have hb := h.wf.below t r' p i ht hp hi hpres
      exact ⟨hb.1, (htab _ _ _).mpr ⟨hb.2, hne⟩⟩
    · exact fun t t' r' p h1 h2 =>
        h.wf.inj t t' r' p ((htab _ _ _).mp h1).1 ((htab _ _ _).mp h2).1
    · exact fun t r' h1 => h.wf.root t r' ((htab _ _ _).mp h1).1
    · exact fun t r' p h1 => h.wf.path t r' p ((htab _ _ _).mp h1).1
    · intro f hf
      change (if f ∈ torn_frames m r then Role.spare else role f) = _
      rcases (hfree f).mp hf with h1 | h1
      · split
        · rfl
        · exact h.wf.free f h1
      · rw [if_pos h1]
    · intro f hf
      refine h.wf.aligned f ?_
      rcases hf with hf | hf
      · rcases (hfree f).mp hf with h1 | h1
        · exact Or.inl h1
        · right
          rcases hrole f h1 with ⟨q, h2⟩ | h2 <;> rw [h2] <;> simp
      · right
        intro hs
        apply hf
        change (if f ∈ torn_frames m r then Role.spare else role f) = _
        split
        · rfl
        · exact hs
  · have hview : ∀ x a, view role' m' x = some a ↔ ¬ SlotOf role r x ∧ view role m x = some a := by
      rintro ⟨t, i⟩ a
      rw [view_eq_some, view_eq_some, hd.mem]
      constructor
      · rintro ⟨r', p, ht, h1⟩
        obtain ⟨ht, hne⟩ := (htab t r' p).mp ht
        refine ⟨?_, r', p, ht, h1⟩
        rintro ⟨q, hq⟩
        cases ht.symm.trans hq
        exact hne rfl
      · rintro ⟨hno, r', p, ht, h1⟩
        refine ⟨r', p, (htab t r' p).mpr ⟨ht, ?_⟩, h1⟩
        rintro rfl
        exact hno ⟨p, ht⟩
    have hsharing : Sharing strict (place role) (view role' m') m'.refcounts
        (fun f => role' f = .user) := h.sharing.drop hview ?_ hplain hskip ?_ ?_ ?_
    · refine hsharing.congr ?_ (fun _ => Iff.rfl)
      rintro ⟨t, i⟩ a hx
      obtain ⟨r', p, ht, _⟩ := view_eq_some.mp hx
      rw [place_table i ht, place_table i ((htab t r' p).mp ht).1]
    · rintro f ⟨t, i⟩ ⟨t', i'⟩ a b ⟨q, hq⟩ ⟨q', hq'⟩ hx hy
      exact h.maps_once hq hq' hx hy
    · rintro f ⟨⟨t, i⟩, a, hp, hc⟩
      cases pageOf_of_view hp.maps.1
      obtain ⟨e, he, hc', rfl⟩ :=
        (passed_iff h hr hlinked f (fun e => cow e = true)).mpr ⟨t, i, hp, hc⟩
      exact hd.taken e he hc'
    · intro f hno
      refine hd.kept f ?_
      intro e he hc hf
      obtain ⟨t, i, hp, hc'⟩ :=
        (passed_iff h hr hlinked f (fun e => cow e = true)).mp ⟨e, he, hc, hf⟩
      exact hno ⟨(t, i), _, hp, hc'⟩
    · intro f
      change (if f ∈ torn_frames m r then Role.spare else role f) = .user ↔ _
      split
      · rename_i hf
        constructor
        · intro h1; cases h1
        · rintro ⟨h1, h2⟩
          rcases (hmemt f).mp hf with ⟨q, h3⟩ | h3
          · rw [h1] at h3; cases h3
          · exact absurd h3 h2
      · rename_i hf
        exact ⟨fun h1 => ⟨h1, fun h2 => hf ((hmemt f).mpr (Or.inr h2))⟩, fun h1 => h1.1⟩
  · exact (nodup_space_drops h hr).sublist (Machine.thrown_sublist _ _)

end

end zenos_kernel.process.isolation
