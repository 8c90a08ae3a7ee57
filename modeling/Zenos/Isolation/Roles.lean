-- What each frame is used for. A page table belongs to one address space and
-- stands at one path below its level-4 table, so the tables of the spaces are
-- trees that share nothing but the pages at their leaves.
import Zenos.Isolation.Machine
import Zenos.Lib.CopyOnWrite

namespace zenos_kernel.process.isolation

open PageTableEntry CopyOnWrite

inductive Role
  | spare
  | user
  /-- The table of the space `root` that the indices of `path` lead to. -/
  | table (root : PhysAddr) (path : List Nat)
  deriving DecidableEq

/-- The entries of a table that are user mappings. -/
def limit (path : List Nat) : Nat := if path = [] then 256 else 512

/-- The indices of `q` are user mappings, for a walk that starts at path `p`. -/
def Fits (p : List Nat) : List Nat → Prop
  | [] => True
  | i :: q => i < limit p ∧ Fits (p ++ [i]) q

/-- Follow present entries. -/
def walk (mem : PhysAddr → Nat → UInt64) (t : PhysAddr) : List Nat → Option PhysAddr
  | [] => some t
  | i :: q => if present (mem t i) then walk mem (addr (mem t i)) q else none

/-- The frames and the page tables fit together. -/
structure Wf (role : PhysAddr → Role) (m : Machine) : Prop where
  below : ∀ t r p i, role t = .table r p → p.length < 3 → i < limit p →
    present (m.mem t i) = true →
      huge (m.mem t i) = false ∧ role (addr (m.mem t i)) = .table r (p ++ [i])
  inj : ∀ t t' r p, role t = .table r p → role t' = .table r p → t = t'
  root : ∀ t r, role t = .table r [] → t = r
  path : ∀ t r p, role t = .table r p → p.length ≤ 3 ∧ Fits [] p
  free : ∀ f, m.free f = true → role f = .spare
  aligned : ∀ f, m.free f = true ∨ role f ≠ .spare → Aligned f

def pageOf (e : PageTableEntry) : Page PhysAddr := ⟨addr e, writable e, cow e⟩

/-- The page that a present level-1 entry maps. -/
def view (role : PhysAddr → Role) (m : Machine) (x : PhysAddr × Nat) : Option (Page PhysAddr) :=
  match role x.1 with
  | .table _ p =>
    if p.length = 3 ∧ x.2 < 512 ∧ present (m.mem x.1 x.2) = true then some (pageOf (m.mem x.1 x.2))
    else none
  | .spare | .user => none

/-- The path of a level-1 entry. -/
def place (role : PhysAddr → Role) (x : PhysAddr × Nat) : List Nat :=
  match role x.1 with
  | .table _ p => p ++ [x.2]
  | .spare | .user => []

/-- The invariant of the memory. -/
structure Ok (strict : Bool) (role : PhysAddr → Role) (m : Machine) : Prop where
  wf : Wf role m
  sharing : Sharing strict (place role) (view role m) m.refcounts (fun f => role f = .user)

/-- One reference less, and whether it was the last one. -/
@[simp] theorem Machine.refcount_dec_eq (m : Machine) (phys : PhysAddr) : m.refcount_dec phys =
    (decide (m.refcounts phys = some 1),
      { m with refcounts := Function.update m.refcounts phys (taken (m.refcounts phys)) }) := by
  have hupdate : ∀ c, (fun f => if f = phys then c else m.refcounts f) =
      Function.update m.refcounts phys c := fun c => funext fun f => by rw [Function.update_apply]
  unfold refcount_dec
  cases hr : m.refcounts phys with
  | none =>
    have hsame : Function.update m.refcounts phys none = m.refcounts :=
      Function.update_eq_self_iff.mpr hr.symm
    simp [taken, hsame]
  | some old => by_cases ho : old = 1 <;> simp [taken, ho, hupdate]

/-! ## Paths -/

variable {p q : List Nat} {m : Machine} {r t : PhysAddr} {role : PhysAddr → Role} {i : Nat}
  {strict : Bool}

theorem limit_of_ne (h : p ≠ []) : limit p = 512 := by simp [limit, h]

theorem fits_append (a p q : List Nat) : Fits a (p ++ q) ↔ Fits a p ∧ Fits (a ++ p) q := by
  induction p generalizing a with
  | nil => simp [Fits]
  | cons i p ih =>
    rw [List.cons_append, Fits, Fits, ih, and_assoc, List.append_assoc]
    rfl

theorem walk_append (mem : PhysAddr → Nat → UInt64) (t : PhysAddr) (p q : List Nat) :
    walk mem t (p ++ q) = (walk mem t p).bind (fun t' => walk mem t' q) := by
  induction p generalizing t with
  | nil => rfl
  | cons i p ih =>
    rw [List.cons_append, walk, walk]
    split
    · exact ih _
    · rfl

/-- A walk below a table of the space stays in the space. -/
theorem Wf.walk_role (h : Wf role m) {t' : PhysAddr} (ht : role t = .table r p)
    (hq : Fits p q) (hlen : p.length + q.length ≤ 3) (hw : walk m.mem t q = some t') :
    role t' = .table r (p ++ q) := by
  induction q generalizing t p with
  | nil =>
    rw [List.append_nil]
    cases hw
    exact ht
  | cons i q ih =>
    rw [walk] at hw
    split at hw
    · rename_i hpres
      have hlen' : p.length + (q.length + 1) ≤ 3 := hlen
      have hb := (h.below t r p i ht (by omega) hq.1 hpres).2
      have := ih hb hq.2 (by simp; omega) hw
      rwa [List.append_assoc] at this
    · cases hw

theorem Wf.walk_congr (h : Wf role m) {mem : PhysAddr → Nat → UInt64}
    (hmem : ∀ t' p' i, role t' = .table r (p ++ p') → (p ++ p').length < 3 → i < limit (p ++ p') →
      mem t' i = m.mem t' i)
    (ht : role t = .table r p) (hq : Fits p q) (hlen : p.length + q.length ≤ 3) :
    walk mem t q = walk m.mem t q := by
  induction q generalizing t p with
  | nil => rfl
  | cons i q ih =>
    have hlen' : p.length + (q.length + 1) ≤ 3 := hlen
    have hi : mem t i = m.mem t i := by
      refine hmem t [] i ?_ ?_ ?_
      · rw [List.append_nil]; exact ht
      · rw [List.append_nil]; omega
      · rw [List.append_nil]; exact hq.1
    rw [walk, walk, hi]
    split
    · rename_i hpres
      have hb := (h.below t r p i ht (by omega) hq.1 hpres).2
      refine ih ?_ hb hq.2 (by simp; omega)
      intro t' p' j
      rw [List.append_assoc]
      exact hmem t' ([i] ++ p') j
    · rfl

/-! ## The view -/

theorem view_eq_some {a : Page PhysAddr} :
    view role m (t, i) = some a ↔ ∃ r p, role t = .table r p ∧ p.length = 3 ∧ i < 512 ∧
      present (m.mem t i) = true ∧ a = pageOf (m.mem t i) := by
  unfold view
  cases hr : role t with
  | spare => simp
  | user => simp
  | table r p =>
    dsimp only
    constructor
    · intro h
      split at h
      · rename_i hc
        exact ⟨r, p, rfl, hc.1, hc.2.1, hc.2.2, (Option.some.inj h).symm⟩
      · cases h
    · rintro ⟨r', p', heq, h1, h2, h3, rfl⟩
      cases heq
      rw [if_pos ⟨h1, h2, h3⟩]

theorem view_leaf (ht : role t = .table r p) (hp : p.length = 3) (hi : i < 512)
    (hpres : present (m.mem t i) = true) : view role m (t, i) = some (pageOf (m.mem t i)) :=
  view_eq_some.mpr ⟨r, p, ht, hp, hi, hpres, rfl⟩

theorem view_not_present (h : present (m.mem t i) = false) : view role m (t, i) = none := by
  cases hv : view role m (t, i) with
  | none => rfl
  | some a =>
    obtain ⟨_, _, _, _, _, hp, _⟩ := view_eq_some.mp hv
    rw [h] at hp
    cases hp

theorem place_table (i : Nat) (h : role t = .table r p) :
    place role (t, i) = p ++ [i] := by simp [place, h]

/-- A space maps a frame at most once. -/
theorem Ok.maps_once {t' f : PhysAddr} {p' : List Nat} {j : Nat}
    {a b : Page PhysAddr} (h : Ok strict role m) (ht : role t = .table r p)
    (ht' : role t' = .table r p') (hx : Maps (view role m) f (t, i) a)
    (hy : Maps (view role m) f (t', j) b) : (t, i) = (t', j) := by
  by_contra hne
  have hl := ((h.sharing f).alike _ _ a b hx hy hne).2.2
  rw [place_table i ht, place_table j ht'] at hl
  obtain ⟨rfl, hij⟩ := List.append_inj' hl rfl
  cases hij
  exact hne (by rw [h.wf.inj t t' r p ht ht'])

theorem Ok.congr {m' : Machine} (h : Ok strict role m)
    (hmem : ∀ t r p i, role t = .table r p → i < limit p → m'.mem t i = m.mem t i)
    (hfree : ∀ f, m'.free f = true → m.free f = true) (hcount : m'.refcounts = m.refcounts) :
    Ok strict role m' where
  wf :=
    { below := by
        intro t r p i ht hp hi
        rw [hmem t r p i ht hi]
        exact h.wf.below t r p i ht hp hi
      inj := h.wf.inj
      root := h.wf.root
      path := h.wf.path
      free := fun f hf => h.wf.free f (hfree f hf)
      aligned := fun f hf => h.wf.aligned f (hf.imp_left (hfree f)) }
  sharing := by
    have hview : view role m' = view role m := by
      funext ⟨t, i⟩
      unfold view
      cases hr : role t with
      | spare => rfl
      | user => rfl
      | table r p =>
        dsimp only
        by_cases hc : p.length = 3 ∧ i < 512
        · have hne : p ≠ [] := by rintro rfl; cases hc.1
          rw [hmem t r p i hr (by rw [limit_of_ne hne]; exact hc.2)]
        · rw [if_neg (fun h => hc ⟨h.1, h.2.1⟩), if_neg (fun h => hc ⟨h.1, h.2.1⟩)]
    rw [hview, hcount]
    exact h.sharing

end zenos_kernel.process.isolation
