-- What one access of a space can change: a fault gives the space a page of its
-- own, and a store goes to a page that only this space maps. So the tables and
-- the pages of every other space stay as they are.
import Zenos.Isolation.Slots

namespace zenos_kernel.process.isolation

open PageTableEntry Machine

/-- What an access of space `r` may change. -/
structure Local (strict : Bool) (r : PhysAddr) (role : PhysAddr → Role) (m : Machine)
    (role' : PhysAddr → Role) (m' : Machine) : Prop where
  ok : Ok strict role' m'
  keep : ∀ f, role f ≠ .spare → role' f = role f
  fresh : ∀ f, role f = .spare → role' f = .spare ∨ role' f = .user
  upper : ∀ t r' p i, role t = .table r' p → p.length < 3 → m'.mem t i = m.mem t i
  others : ∀ t r' p i, role t = .table r' p → r' ≠ r → m'.mem t i = m.mem t i
  pages : ∀ t r' p i, role t = .table r' p → r' ≠ r → p.length = 3 → i < 512 →
    present (m.mem t i) = true → ∀ j, m'.mem (addr (m.mem t i)) j = m.mem (addr (m.mem t i)) j
  cr3 : m'.cr3 = m.cr3
  freed : m'.freed = m.freed

variable {m m' : Machine} {r t : PhysAddr} {role role' : PhysAddr → Role} {strict : Bool}
  {p : List Nat} {e : PageTableEntry} {i va : Nat} {r' : PhysAddr} {w : Bool}

theorem Local.refl (h : Ok strict role m) : Local strict r role m role m where
  ok := h
  keep := fun _ _ => rfl
  fresh := fun _ h => Or.inl h
  upper := fun _ _ _ _ _ _ => rfl
  others := fun _ _ _ _ _ _ => rfl
  pages := fun _ _ _ _ _ _ _ _ _ _ => rfl
  cr3 := rfl
  freed := rfl

theorem Local.table (h : Local strict r role m role' m') (ht : role t = .table r' p)
    : role' t = .table r' p := by
  rw [h.keep t (by rw [ht]; nofun), ht]

theorem Local.trans {role'' : PhysAddr → Role} {m'' : Machine} (h : Local strict r role m role' m')
    (h' : Local strict r role' m' role'' m'') : Local strict r role m role'' m'' where
  ok := h'.ok
  keep := by
    intro f hf
    have h1 := h.keep f hf
    rw [h'.keep f (by rw [h1]; exact hf), h1]
  fresh := by
    intro f hf
    rcases h.fresh f hf with h1 | h1
    · exact h'.fresh f h1
    · exact Or.inr (by rw [h'.keep f (by rw [h1]; nofun), h1])
  upper := by
    intro t r' p i ht hp
    rw [h'.upper t r' p i (h.table ht) hp, h.upper t r' p i ht hp]
  others := by
    intro t r' p i ht hr
    rw [h'.others t r' p i (h.table ht) hr, h.others t r' p i ht hr]
  pages := by
    intro t r' p i ht hr hp hi hpres j
    have hm := h.others t r' p i ht hr
    have h1 := h'.pages t r' p i (h.table ht) hr hp hi (by rw [hm]; exact hpres) j
    rw [hm] at h1
    rw [h1, h.pages t r' p i ht hr hp hi hpres j]
  cr3 := h'.cr3.trans h.cr3
  freed := h'.freed.trans h.freed

/-! ## Faults -/

/-- A change of one level-1 entry of the space. -/
theorem local_set_entry (ht : role t = .table r p) (hp : p.length = 3) (hok : Ok strict role' m')
    (hin : ∀ t i a, view role m (t, i) = some a → role a.frame = .user)
    (hkeep : ∀ f, role f ≠ .spare → role' f = role f)
    (hfresh : ∀ f, role f = .spare → role' f = .spare ∨ role' f = .user)
    (hmem : ∀ f j, role f ≠ .spare → m'.mem f j = (m.set_entry t i e).mem f j)
    (hcr3 : m'.cr3 = m.cr3) (hfreed : m'.freed = m.freed) : Local strict r role m role' m' := by
  have htab : ∀ {t' r' q}, role t' = .table r' q → role t' ≠ .spare := by
    intro t' r' q h'
    rw [h']
    nofun
  refine ⟨hok, hkeep, hfresh, ?_, ?_, ?_, hcr3, hfreed⟩
  · intro t' r' q j ht' hq
    rw [hmem t' j (htab ht'), m.set_entry_other e]
    rintro ⟨rfl, _⟩
    rw [ht] at ht'
    cases ht'
    omega
  · intro t' r' q j ht' hr
    rw [hmem t' j (htab ht'), m.set_entry_other e]
    rintro ⟨rfl, _⟩
    rw [ht] at ht'
    cases ht'
    exact hr rfl
  · intro t' r' q j ht' hr hq hj hpres k
    have hu := hin t' j _ (view_leaf ht' hq hj hpres)
    change role (addr (m.mem t' j)) = .user at hu
    rw [hmem _ k (by rw [hu]; nofun), m.set_entry_other e]
    rintro ⟨h1, _⟩
    rw [h1, ht] at hu
    cases hu

theorem own_page_spec (h : Ok strict role m) (ht : role t = .table r p) (hp : p.length = 3)
    (hi : i < 512) : ∃ role', Local strict r role m role' (m.own_page t i).2 := by
  have hin : ∀ t i a, view role m (t, i) = some a → role a.frame = .user :=
    fun t i a hx => (h.sharing a.frame).inUse (t, i) a ⟨hx, rfl⟩
  unfold own_page
  simp only [contains_present, contains_cow]
  cases hpres : present (m.mem t i) with
  | false => exact ⟨role, Local.refl h⟩
  | true =>
    cases hc : cow (m.mem t i) with
    | false => exact ⟨role, Local.refl h⟩
    | true =>
      simp only [Bool.not_true, Bool.false_eq_true, if_false]
      split
      · rename_i hr
        exact ⟨role, local_set_entry ht hp (h.own ht hp hi hpres hc hr) hin (fun _ _ => rfl)
          (fun _ h => Or.inl h) (fun _ _ _ => rfl) rfl rfl⟩
      rename_i hr
      have halloc := m.ends_alloc_and_copy_page (addr (m.mem t i))
      generalize alloc_and_copy_page (addr (m.mem t i)) m = r at halloc
      cases r with
      | error _ m1 =>
        obtain rfl : m1 = m.refuse := halloc
        have hok : Ok strict role m.refuse :=
          h.congr (fun _ _ _ _ _ _ => rfl) (fun _ h => h) rfl
        exact ⟨role, hok, fun _ _ => rfl, fun _ h => Or.inl h, fun _ _ _ _ _ _ => rfl,
          fun _ _ _ _ _ _ => rfl, fun _ _ _ _ _ _ _ _ _ _ => rfl, rfl, rfl⟩
      | ok new m1 =>
        obtain ⟨hf, rfl⟩ : _ ∧ m1 = _ := halloc
        have hspare := h.wf.free new hf
        refine ⟨Function.update role new .user, local_set_entry (i := i)
          (e := owned_entry new (m.mem t i)) ht hp
          (h.copy ht hp hi hpres hc hr hf) hin ?_ ?_ ?_ (by simp; rfl) (by simp; rfl)⟩
        · intro f hf'
          rw [Function.update_of_ne]
          rintro rfl
          exact hf' hspare
        · intro f hf'
          by_cases hfn : f = new
          · subst hfn; exact Or.inr (Function.update_self ..)
          · exact Or.inl (by rw [Function.update_of_ne hfn, hf'])
        · intro f j hf'
          have hfn : f ≠ new := by rintro rfl; exact hf' hspare
          simp [set_entry, copy_page, take, hfn]

/-! ## The path of an address -/

theorem p3_index_lt (va : Nat) : p3_index va < 512 := Nat.mod_lt _ (by omega)

theorem p2_index_lt (va : Nat) : p2_index va < 512 := Nat.mod_lt _ (by omega)

theorem p1_index_lt (va : Nat) : p1_index va < 512 := Nat.mod_lt _ (by omega)

/-- The three tables below the level-4 table, as far as they are there. -/
theorem Wf.path_of (h : Wf role m) (hr : role r = .table r []) (hva : va < 2 ^ 47)
    (h4 : present (m.mem r (p4_index va)) = true) :
    huge (m.mem r (p4_index va)) = false ∧
      role (addr (m.mem r (p4_index va))) = .table r [p4_index va] :=
  h.below r r [] _ hr (by simp) (show _ < 256 by unfold p4_index; omega) h4

theorem Wf.path_of_table (h : Wf role m) (ht : role t = .table r p) (hp : p ≠ [])
    (hlen : p.length < 3) (hi : i < 512) (hpres : present (m.mem t i) = true) :
    huge (m.mem t i) = false ∧ role (addr (m.mem t i)) = .table r (p ++ [i]) :=
  h.below t r p i ht hlen (by rw [limit_of_ne hp]; exact hi) hpres

theorem handle_cow_fault_spec (h : Ok strict role m) (hr : role m.cr3 = .table m.cr3 [])
    (hva : va < 2 ^ 47) : ∃ role', Local strict m.cr3 role m role' (m.handle_cow_fault va).2 := by
  unfold handle_cow_fault
  simp only [contains_present]
  cases h4 : present (m.mem m.cr3 (p4_index va)) with
  | false => exact ⟨role, Local.refl h⟩
  | true =>
    have hp3 := (h.wf.path_of hr hva h4).2
    generalize addr (m.mem m.cr3 (p4_index va)) = t3 at hp3 ⊢
    cases h3 : present (m.mem t3 (p3_index va)) with
    | false => exact ⟨role, Local.refl h⟩
    | true =>
      have hp2 := (h.wf.path_of_table hp3 (by simp) (by simp) (p3_index_lt va) h3).2
      generalize addr (m.mem t3 (p3_index va)) = t2 at hp2 ⊢
      cases h2 : present (m.mem t2 (p2_index va)) with
      | false => exact ⟨role, Local.refl h⟩
      | true =>
        have hp1 := (h.wf.path_of_table hp2 (by simp) (by simp) (p2_index_lt va) h2).2
        exact own_page_spec h hp1 (by simp) (p1_index_lt va)

/-! ## The MMU -/

theorem admits_present (h : admits e w = true) : present e = true := by
  simp only [admits, Bool.and_eq_true] at h
  exact h.1.1

/-- The MMU reads tables of the space only. It fails, or ends up at a present level-1 entry, which
is writable when the access is a store. -/
theorem translate_cases (h : Wf role m) (hr : role r = .table r []) (hva : va < 2 ^ 47) (w : Bool) :
    (∀ m' : Machine, (∀ t p i, role t = .table r p → m'.mem t i = m.mem t i) →
      m'.translate r va w = none) ∨
    ∃ t p i, role t = .table r p ∧ p.length = 3 ∧ i < 512 ∧ admits (m.mem t i) w = true ∧
      ∀ m' : Machine, (∀ t p i, role t = .table r p → m'.mem t i = m.mem t i) →
        m'.translate r va w = some (addr (m.mem t i)) := by
  by_cases h4 : admits (m.mem r (p4_index va)) w = true
  swap
  · exact Or.inl fun m' hm => by simp [Machine.translate, hm r [] _ hr, h4]
  have hp3 := (h.path_of hr hva (admits_present h4)).2
  by_cases h3 : admits (m.mem (addr (m.mem r (p4_index va))) (p3_index va)) w = true
  swap
  · exact Or.inl fun m' hm => by simp [Machine.translate, hm r [] _ hr, h4, hm _ _ _ hp3, h3]
  obtain ⟨hsmall3, hp2⟩ := h.path_of_table hp3 (by simp) (by simp) (p3_index_lt va) (admits_present h3)
  generalize ht3 : addr (m.mem r (p4_index va)) = t3 at hp3 h3 hsmall3 hp2
  by_cases h2 : admits (m.mem (addr (m.mem t3 (p3_index va))) (p2_index va)) w = true
  swap
  · exact Or.inl fun m' hm => by
      simp [Machine.translate, hm r [] _ hr, h4, ht3, hm _ _ _ hp3, h3, hsmall3, hm _ _ _ hp2, h2]
  obtain ⟨hsmall2, hp1⟩ := h.path_of_table hp2 (by simp) (by simp) (p2_index_lt va) (admits_present h2)
  generalize ht2 : addr (m.mem t3 (p3_index va)) = t2 at hp2 h2 hsmall2 hp1
  by_cases h1 : admits (m.mem (addr (m.mem t2 (p2_index va))) (p1_index va)) w = true
  · refine Or.inr ⟨_, _, _, hp1, by simp, p1_index_lt va, h1, fun m' hm => ?_⟩
    simp [Machine.translate, hm r [] _ hr, h4, ht3, hm _ _ _ hp3, h3, hsmall3, ht2, hm _ _ _ hp2, h2,
      hsmall2, hm _ _ _ hp1, h1]
  · exact Or.inl fun m' hm => by
      simp [Machine.translate, hm r [] _ hr, h4, ht3, hm _ _ _ hp3, h3, hsmall3, ht2, hm _ _ _ hp2,
        h2, hsmall2, hm _ _ _ hp1, h1]

/-- What an access of another space leaves alone. -/
theorem Local.load (h : Local strict r role m role' m') (hwf : Wf role m)
    (hr : role r' = .table r' []) (hne : r' ≠ r) (hva : va < 2 ^ 47) :
    m'.load r' va = m.load r' va := by
  have hsame : ∀ t p i, role t = .table r' p → m'.mem t i = m.mem t i :=
    fun t p i ht => h.others t r' p i ht hne
  unfold Machine.load
  rcases translate_cases hwf hr hva false with hnone | ⟨t, p, i, htab, hp, hi, hadm, hsome⟩
  · rw [hnone m' hsame, hnone m fun _ _ _ _ => rfl]
    rfl
  · rw [hsome m' hsame, hsome m fun _ _ _ _ => rfl]
    simp only [Option.map_some]
    rw [h.pages t r' p i htab hne hp hi (admits_present hadm)]

/-! ## Stores -/

/-- The byte of a store goes to a page that only the space maps. -/
theorem write_byte_spec (h : Ok strict role m) (ht : role t = .table r p) (hp : p.length = 3)
    (hi : i < 512) (hadm : admits (m.mem t i) true = true) (offset : Nat) (v : UInt8) :
    Local strict r role m role (m.write_byte (addr (m.mem t i)) offset v) := by
  have hv := view_leaf ht hp hi (admits_present hadm)
  have huser : role (addr (m.mem t i)) = .user := (h.sharing _).inUse (t, i) _ ⟨hv, rfl⟩
  have hmem : ∀ f j, f ≠ addr (m.mem t i) →
      (m.write_byte (addr (m.mem t i)) offset v).mem f j = m.mem f j := by
    intro f j hf
    simp [write_byte, hf]
  have htab : ∀ {t' r' q}, role t' = .table r' q → t' ≠ addr (m.mem t i) := by
    rintro t' r' q h' rfl
    rw [huser] at h'
    cases h'
  refine ⟨h.congr (fun t' r' q j h' _ => hmem t' j (htab h')) (fun _ h => h) rfl, fun _ _ => rfl,
    fun _ h => Or.inl h, fun t' r' q j h' _ => hmem t' j (htab h'),
    fun t' r' q j h' _ => hmem t' j (htab h'), ?_, rfl, rfl⟩
  intro t' r' q j ht' hne hq hj hpres k
  refine hmem _ k (fun hf => ?_)
  -- a page of another space cannot be the writable page of this one
  have := (h.sharing (addr (m.mem t i))).alone ⟨hv, rfl⟩
    ⟨view_leaf ht' hq hj hpres, hf⟩
    (show writable (m.mem t i) = true by simp_all [admits])
  cases this
  rw [ht] at ht'
  cases ht'
  exact hne rfl

theorem store_spec (tries : Nat) (h : Ok strict role m) (hr : role m.cr3 = .table m.cr3 [])
    (hva : va < 2 ^ 47) (v : UInt8) :
    ∃ role', Local strict m.cr3 role m role' (store tries va v m).2 := by
  induction tries generalizing role m with
  | zero => exact ⟨role, Local.refl h⟩
  | succ tries ih =>
    rw [store]
    rcases translate_cases h.wf hr hva true with hnone | ⟨t, p, i, htab, hp, hi, hadm, hsome⟩
    · rw [hnone m fun _ _ _ _ => rfl]
      obtain ⟨role1, hlocal⟩ := handle_cow_fault_spec h hr hva
      dsimp only
      split
      · rename_i m1 heq
        rw [heq] at hlocal
        have hcr3 : m1.cr3 = m.cr3 := hlocal.cr3
        obtain ⟨role2, h2⟩ := ih hlocal.ok (by rw [hcr3]; exact hlocal.table hr)
        rw [hcr3] at h2
        exact ⟨role2, hlocal.trans h2⟩
      · rename_i m1 heq
        rw [heq] at hlocal
        exact ⟨role1, hlocal⟩
    · rw [hsome m fun _ _ _ _ => rfl]
      exact ⟨role, write_byte_spec h htab hp hi hadm _ v⟩

end zenos_kernel.process.isolation
