-- Linked lists in memory, and the removal of an entry from a vector by a swap
-- with the last one.
import Mathlib.Data.List.Nodup
import Mathlib.Data.List.Perm.Basic

namespace LinkedList

section Chain

variable {α : Type} {next next' : α → Option α} {head : Option α} {a : α} {l : List α}

/-- From `head` on, the pointers in `next` run through `l`. -/
def Chain (next : α → Option α) : Option α → List α → Prop
  | head, [] => head = none
  | head, a :: l => head = some a ∧ Chain next (next a) l

/-- A list that is linked element by element. -/
theorem chain_of_links (cell : Nat → α) (n i : Nat) (hi : i < n)
    (hlink : ∀ j < n, next (cell j) = if j + 1 < n then some (cell (j + 1)) else none) :
    Chain next (some (cell i)) ((List.range' i (n - i)).map cell) := by
  have hcount : n - i = (n - (i + 1)) + 1 := by omega
  rw [hcount, List.range'_succ, List.map_cons]
  refine ⟨rfl, ?_⟩
  rw [hlink i hi]
  by_cases hlast : i + 1 < n
  · rw [if_pos hlast]
    exact chain_of_links cell n (i + 1) hlast hlink
  · rw [if_neg hlast, show n - (i + 1) = 0 by omega]
    rfl
termination_by n - i

section

variable (h : Chain next head l)

include h

theorem Chain.head_eq : head = l[0]? := by
  cases l with
  | nil => exact h
  | cons a l => exact h.1

/-- Pointers outside of the list do not matter. -/
theorem Chain.congr (heq : ∀ a ∈ l, next' a = next a) : Chain next' head l := by
  induction l generalizing head with
  | nil => exact h
  | cons a l ih =>
    refine ⟨h.1, ?_⟩
    rw [heq a (by simp)]
    exact ih h.2 (fun b hb => heq b (by simp [hb]))

theorem Chain.push (hnext : next' a = head)
    (heq : ∀ b ∈ l, next' b = next b) : Chain next' (some a) (a :: l) := by
  refine ⟨rfl, ?_⟩
  rw [hnext]
  exact h.congr heq

/-- The list read off the pointers, up to `fuel` elements. -/
def walk (next : α → Option α) : Nat → Option α → List α
  | 0, _ => []
  | _, none => []
  | fuel + 1, some a => a :: walk next fuel (next a)

theorem Chain.walk_eq {fuel : Nat} (hfuel : l.length ≤ fuel) : walk next fuel head = l := by
  induction l generalizing head fuel with
  | nil =>
    rw [show head = none from h]
    cases fuel <;> rfl
  | cons a l ih =>
    rw [h.1]
    cases fuel with
    | zero => simp at hfuel
    | succ fuel =>
      unfold walk
      rw [ih h.2 (by simpa using hfuel)]

/-- The pointers determine the list. -/
theorem Chain.unique {l' : List α} (h' : Chain next head l') : l = l' := by
  rw [← h.walk_eq (Nat.le_max_left l.length l'.length), h'.walk_eq (Nat.le_max_right _ _)]

theorem Chain.drop {i : Nat} (hi : l[i]? = some a) : Chain next (some a) (l.drop i) := by
  induction l generalizing head i with
  | nil => cases hi
  | cons b l ih =>
    cases i with
    | zero =>
      cases hi
      exact ⟨rfl, h.2⟩
    | succ i =>
      exact ih h.2 hi

theorem Chain.next_eq {i : Nat} (hi : l[i]? = some a) : next a = l[i + 1]? := by
  induction l generalizing head i with
  | nil => cases hi
  | cons b l ih =>
    cases i with
    | zero =>
      cases hi
      exact h.2.head_eq
    | succ i =>
      exact ih h.2 hi

/-- A list that ends does not come back to an element. -/
theorem Chain.nodup : l.Nodup := by
  rw [List.nodup_iff_getElem?_ne_getElem?]
  intro i j hij hj heq
  have hi : l[i]? = some l[i] := List.getElem?_eq_getElem (by omega)
  have hlen := congrArg List.length ((h.drop hi).unique (h.drop (heq ▸ hi)))
  rw [List.length_drop, List.length_drop] at hlen
  omega

end

theorem Chain.snoc {b : α} (h : Chain next head (l ++ [a])) (hlast : next' a = some b)
    (hend : next' b = none) (heq : ∀ c ∈ l, next' c = next c) : Chain next' head (l ++ [a, b]) := by
  induction l generalizing head with
  | nil =>
    refine ⟨h.1, ?_⟩
    rw [hlast]
    exact ⟨rfl, hend⟩
  | cons c l ih =>
    refine ⟨h.1, ?_⟩
    rw [heq c (by simp)]
    exact ih h.2 (fun d hd => heq d (by simp [hd]))

end Chain

section Vec

variable {α : Type}

/-- `Vec::swap_remove`: the last element takes the place of element `i`. -/
def swap_remove (l : List α) (i : Nat) : List α :=
  match l.getLast? with
  | none => []
  | some last => (l.set i last).dropLast

theorem swap_remove_map {β : Type} (f : α → β) (l : List α) (i : Nat) :
    swap_remove (l.map f) i = (swap_remove l i).map f := by
  unfold swap_remove
  rw [List.getLast?_map]
  cases l.getLast? with
  | none => rfl
  | some last =>
    dsimp only [Option.map_some]
    rw [List.map_dropLast, List.map_set]

theorem swap_remove_perm (pre post : List α) (a : α) :
    (pre ++ a :: post).Perm (a :: swap_remove (pre ++ a :: post) pre.length) := by
  rcases List.eq_nil_or_concat post with rfl | ⟨mid, last, rfl⟩
  · unfold swap_remove
    simp
  have hlast : (pre ++ a :: (mid ++ [last])).getLast? = some last := by
    rw [show pre ++ a :: (mid ++ [last]) = (pre ++ a :: mid) ++ [last] by simp,
      List.getLast?_concat]
  have hset : (pre ++ a :: (mid ++ [last])).set pre.length last =
      pre ++ last :: (mid ++ [last]) := by simp
  unfold swap_remove
  rw [List.concat_eq_append, hlast]
  dsimp only
  rw [hset, show pre ++ last :: (mid ++ [last]) = (pre ++ last :: mid) ++ [last] by simp,
    List.dropLast_concat]
  calc (pre ++ a :: (mid ++ [last])).Perm (a :: (pre ++ (mid ++ [last]))) :=
        List.perm_middle
    (a :: (pre ++ (mid ++ [last]))).Perm (a :: (pre ++ last :: mid)) := by
        refine List.Perm.cons a (List.Perm.append_left pre ?_)
        exact List.perm_append_singleton last mid

end Vec

end LinkedList
