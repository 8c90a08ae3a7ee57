-- Trees of pointers with a null pointer: every tree has a root, a node leads to
-- `width` others, and a tree is at most `depth` steps deep. `own` says which node
-- is stored at a place, and the edits below say how it changes.
import Mathlib.Data.List.Induction

namespace PointerTree

variable {K B : Type}

section Follow

variable [DecidableEq B]

/-- From a node along a path. Nothing is found behind the null pointer. -/
def follow (null : B) (next : B → Nat → B) : B → List Nat → B
  | b, [] => b
  | b, j :: js => if b = null then null else follow null next (next b j) js

theorem follow_snoc (null : B) (next : B → Nat → B) (b : B) (js : List Nat) (j : Nat) :
    follow null next b (js ++ [j]) =
      if follow null next b js = null then null else next (follow null next b js) j := by
  induction js generalizing b with
  | nil => rfl
  | cons i js ih =>
    by_cases hb : b = null
    · simp [follow, hb]
    · simp [follow, hb, ih]

end Follow

structure Forest (K B : Type) where
  null : B
  root : K → B
  next : B → Nat → B
  depth : K → Nat
  width : Nat

/-- A place where a pointer can stand: a tree and a path from its root. -/
@[ext] structure Place (K : Type) where
  tree : K
  path : List Nat
  deriving DecidableEq

namespace Place

variable (P : Place K) (j : Nat)

def child : Place K := ⟨P.tree, P.path ++ [j]⟩

@[simp] theorem child_tree : (P.child j).tree = P.tree := rfl

@[simp] theorem child_path : (P.child j).path = P.path ++ [j] := rfl

theorem child_inj {P Q : Place K} {i j : Nat} (h : P.child i = Q.child j) : P = Q ∧ i = j := by
  have htree : (P.child i).tree = (Q.child j).tree := congrArg Place.tree h
  have hpath : (P.child i).path = (Q.child j).path := congrArg Place.path h
  obtain ⟨h1, h2⟩ := List.append_inj' hpath rfl
  exact ⟨Place.ext htree h1, by simpa using h2⟩

theorem child_ne_root (x : K) : P.child j ≠ ⟨x, []⟩ := by
  intro h
  have hlen := congrArg (fun Q => Q.path.length) h
  simp at hlen

theorem child_ne : P.child j ≠ P := by
  intro h
  have hlen := congrArg (fun Q => Q.path.length) h
  simp at hlen

/-- Every place is a root or stands below another place. -/
theorem induct {motive : Place K → Prop} (hroot : ∀ x, motive ⟨x, []⟩)
    (hchild : ∀ P j, motive P → motive (P.child j)) (P : Place K) : motive P := by
  obtain ⟨x, path⟩ := P
  induction path using List.reverseRecOn with
  | nil => exact hroot x
  | append_singleton path j ih => exact hchild ⟨x, path⟩ j ih

end Place

namespace Forest

variable (F : Forest K B)

/-- The place is in the forest. -/
def Valid (P : Place K) : Prop := P.path.length ≤ F.depth P.tree ∧ ∀ j ∈ P.path, j < F.width

instance (P : Place K) : Decidable (F.Valid P) := inferInstanceAs (Decidable (_ ∧ _))

/-- A pointer that stands there is followed. -/
def Inner (P : Place K) : Prop := P.path.length < F.depth P.tree

variable {P : Place K} {j : Nat}

theorem valid_child : F.Valid (P.child j) ↔ F.Valid P ∧ F.Inner P ∧ j < F.width := by
  simp only [Valid, Inner, Place.child_tree, Place.child_path, List.length_append,
    List.length_singleton, List.mem_append, List.mem_singleton]
  constructor
  · intro h
    exact ⟨⟨by omega, fun i hi => h.2 i (Or.inl hi)⟩, by omega, h.2 j (Or.inr rfl)⟩
  · intro h
    refine ⟨by omega, fun i hi => ?_⟩
    rcases hi with hi | hi
    · exact h.1.2 i hi
    · omega

variable [DecidableEq B]

/-- The node that is stored at a place, or null. -/
def own (P : Place K) : B := if F.Valid P then follow F.null F.next (F.root P.tree) P.path else F.null

@[simp] theorem own_root (x : K) : F.own ⟨x, []⟩ = F.root x := by
  rfl

theorem valid_of_own (h : F.own P ≠ F.null) : F.Valid P := by
  by_contra hv
  exact h (if_neg hv)

/-- What is stored below a node. -/
theorem own_child (hP : F.Inner P) (hj : j < F.width) :
    F.own (P.child j) = if F.own P = F.null then F.null else F.next (F.own P) j := by
  by_cases hv : F.Valid P
  · have hc : F.Valid (P.child j) := F.valid_child.mpr ⟨hv, hP, hj⟩
    unfold own
    rw [if_pos hv, if_pos hc]
    exact follow_snoc F.null F.next _ _ _
  · have hc : ¬ F.Valid (P.child j) := fun h => hv (F.valid_child.mp h).1
    unfold own
    rw [if_neg hv, if_neg hc, if_pos rfl]

theorem own_child_of_not (h : ¬ (F.Inner P ∧ j < F.width)) : F.own (P.child j) = F.null :=
  if_neg (fun hv => h (F.valid_child.mp hv).2)

/-- Below a place that holds nothing there is nothing. -/
theorem own_of_child (h : F.own (P.child j) ≠ F.null) :
    F.own P ≠ F.null ∧ F.Inner P ∧ j < F.width := by
  have hv := (F.valid_child.mp (F.valid_of_own h)).2
  refine ⟨fun h0 => h ?_, hv⟩
  rw [F.own_child hv.1 hv.2, if_pos h0]

end Forest

/-! ## Edits -/

section Edits

variable [DecidableEq B] {F F' : Forest K B}

omit [DecidableEq B] in
theorem inner_of_alike (hdepth : F'.depth = F.depth) (hwidth : F'.width = F.width) {P : Place K}
    {j : Nat} : F'.Inner P ∧ j < F'.width ↔ F.Inner P ∧ j < F.width := by
  unfold Forest.Inner
  rw [hdepth, hwidth]

/-- A node `c` is put at an empty place. The roots and the pointers of the nodes
in use change nowhere else, and the new node holds no pointers. -/
theorem own_put [DecidableEq K] {P0 : Place K} {c : B} (hnull : F'.null = F.null)
    (hdepth : F'.depth = F.depth) (hwidth : F'.width = F.width) (hc : c ≠ F.null)
    (hvalid : F.Valid P0) (hempty : F.own P0 = F.null)
    (hparent : ∀ P j, P.child j = P0 → F.own P ≠ F.null)
    (hroot : ∀ x, F'.root x = if P0 = ⟨x, []⟩ then c else F.root x)
    (hnext : ∀ P, F.Inner P → F.own P ≠ F.null → ∀ j < F.width,
      F'.next (F.own P) j = if P.child j = P0 then c else F.next (F.own P) j)
    (hnew : F.Inner P0 → ∀ j < F.width, F'.next c j = F.null) (P : Place K) :
    F'.own P = if P = P0 then c else F.own P := by
  induction P using Place.induct with
  | hroot x =>
    rw [F'.own_root, hroot, F.own_root]
    by_cases h : P0 = ⟨x, []⟩
    · rw [if_pos h, if_pos h.symm]
    · rw [if_neg h, if_neg (fun h' => h h'.symm)]
  | hchild P j ih =>
    by_cases hin : F.Inner P ∧ j < F.width
    · have hin' := (inner_of_alike hdepth hwidth).mpr hin
      rw [F'.own_child hin'.1 hin'.2, ih, F.own_child hin.1 hin.2, hnull]
      by_cases hP : P = P0
      · -- below the new node
        subst hP
        rw [if_pos rfl, if_neg hc, hnew hin.1 j hin.2, if_neg (P.child_ne j), if_pos hempty]
      · rw [if_neg hP]
        by_cases h0 : F.own P = F.null
        · rw [if_pos h0, if_neg (fun h => hparent P j h h0), if_pos h0]
        · rw [if_neg h0, if_neg h0, hnext P hin.1 h0 j hin.2]
    · have hin' := mt (inner_of_alike hdepth hwidth).mp hin
      rw [F'.own_child_of_not hin', F.own_child_of_not hin, hnull, if_neg]
      intro h
      rw [← h] at hvalid
      exact hin (F.valid_child.mp hvalid).2

variable (hnull : F'.null = F.null) (hdepth : F'.depth = F.depth) (hwidth : F'.width = F.width)

include hnull hdepth hwidth

/-- Some trees are dropped, and the pointers of the nodes in use do not change. -/
theorem own_drop {drop : K → Prop} [DecidablePred drop]
    (hroot : ∀ x, F'.root x = if drop x then F.null else F.root x)
    (hnext : ∀ P, F.Inner P → F.own P ≠ F.null → ∀ j < F.width,
      F'.next (F.own P) j = F.next (F.own P) j) (P : Place K) :
    F'.own P = if drop P.tree then F.null else F.own P := by
  induction P using Place.induct with
  | hroot x => rw [F'.own_root, hroot, F.own_root]
  | hchild P j ih =>
    by_cases hin : F.Inner P ∧ j < F.width
    · have hin' := (inner_of_alike hdepth hwidth).mpr hin
      rw [F'.own_child hin'.1 hin'.2, ih, F.own_child hin.1 hin.2, Place.child_tree, hnull]
      by_cases hd : drop P.tree
      · rw [if_pos hd, if_pos rfl, if_pos hd]
      · rw [if_neg hd, if_neg hd]
        by_cases h0 : F.own P = F.null
        · rw [if_pos h0, if_pos h0]
        · rw [if_neg h0, if_neg h0, hnext P hin.1 h0 j hin.2]
    · have hin' := mt (inner_of_alike hdepth hwidth).mp hin
      rw [F'.own_child_of_not hin', F.own_child_of_not hin, hnull, ite_self]

/-- Nothing changes that the trees can see. -/
theorem own_congr (hroot : ∀ x, F'.root x = F.root x)
    (hnext : ∀ P, F.Inner P → F.own P ≠ F.null → ∀ j < F.width,
      F'.next (F.own P) j = F.next (F.own P) j) : F'.own = F.own := by
  funext P
  have h := @own_drop K B _ F F' hnull hdepth hwidth (fun _ => False) _
    (fun x => by rw [if_neg id, hroot x]) hnext P
  rwa [if_neg id] at h

end Edits

end PointerTree
