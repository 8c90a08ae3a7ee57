-- Texts that name a place by components with a separator between them. A text
-- that starts with another one need not start with its components: the last
-- component of the shorter text may be the front of a longer one.
import Mathlib.Data.List.Basic

namespace Path

variable {α : Type} {sep : α}

/-- The parts between the separators, without the empty ones. -/
def parts [DecidableEq α] (sep : α) (text : List α) : List (List α) :=
  (text.splitOn sep).filter (· ≠ [])

/-- Every component with a separator before it. -/
def joined (sep : α) (cs : List (List α)) : List α := cs.flatMap (sep :: ·)

/-- Components as a text can hold them. -/
def Names (sep : α) (cs : List (List α)) : Prop := ∀ c ∈ cs, c ≠ [] ∧ sep ∉ c

/-- The last component of `m` is the front of a component of `cs`, but not all of it. -/
def Cuts (m cs : List (List α)) : Prop :=
  ∃ dirs l c rest, m = dirs ++ [l] ∧ cs = dirs ++ c :: rest ∧ l <+: c ∧ l ≠ c

variable {cs ds m : List (List α)} {l : List α}

theorem Names.tail {c : List α} (h : Names sep (c :: cs)) : Names sep cs :=
  fun d hd => h d (List.mem_cons_of_mem c hd)

@[simp] theorem joined_nil : joined sep [] = [] := rfl

@[simp] theorem joined_cons (c : List α) (cs : List (List α)) :
    joined sep (c :: cs) = sep :: (c ++ joined sep cs) := rfl

@[simp] theorem joined_append (cs ds : List (List α)) :
    joined sep (cs ++ ds) = joined sep cs ++ joined sep ds := List.flatMap_append

/-- A separator and the components joined by separators. -/
theorem cons_intercalate (c : List α) (cs : List (List α)) :
    sep :: [sep].intercalate (c :: cs) = joined sep (c :: cs) := by
  induction cs generalizing c with
  | nil => simp [List.intercalate]
  | cons d cs ih =>
    rw [joined_cons, ← ih d]
    simp

/-! ## Splitting what was joined -/

theorem sep_notMem_of_mem_splitOn [DecidableEq α] {text part : List α}
    (h : part ∈ text.splitOn sep) : sep ∉ part := by
  induction text generalizing part with
  | nil =>
    rw [List.splitOn_nil, List.mem_singleton] at h
    simp [h]
  | cons a text ih =>
    rw [List.splitOn_cons_eq_if_modifyHead] at h
    by_cases ha : a = sep
    · rw [if_pos (by simpa using ha), List.mem_cons] at h
      rcases h with rfl | h
      · exact List.not_mem_nil
      · exact ih h
    rw [if_neg (by simpa using ha)] at h
    cases htext : text.splitOn sep with
    | nil => simp [htext] at h
    | cons first rest =>
      rw [htext, List.modifyHead_cons, List.mem_cons] at h
      rcases h with rfl | h
      · have hfirst : sep ∉ first := ih (by simp [htext])
        simp [Ne.symm ha, hfirst]
      · exact ih (by simp [htext, h])

theorem parts_cons_sep [DecidableEq α] (text : List α) : parts sep (sep :: text) = parts sep text := by
  simp [parts, List.splitOn_cons_eq_if_modifyHead]

theorem parts_dropWhile [DecidableEq α] (text : List α) :
    parts sep (text.dropWhile (· == sep)) = parts sep text := by
  induction text with
  | nil => rfl
  | cons a text ih =>
    by_cases ha : a = sep
    · subst ha
      rw [List.dropWhile_cons_of_pos (by simp), parts_cons_sep, ih]
    · rw [List.dropWhile_cons_of_neg (by simpa using ha)]

theorem parts_joined [DecidableEq α] (h : Names sep cs) : parts sep (joined sep cs) = cs := by
  cases cs with
  | nil => simp [parts]
  | cons c cs =>
    rw [← cons_intercalate, parts_cons_sep, parts,
      List.splitOn_intercalate sep (fun l hl => (h l hl).2) (by simp)]
    rw [List.filter_eq_self]
    intro d hd
    simpa using (h d hd).1

/-! ## Texts that start with a text -/

/-- Without a separator in it, a text that starts what is joined to `d` starts `d`. -/
theorem prefix_append_joined_iff (hl : sep ∉ l) (d : List α) (cs : List (List α)) :
    l <+: d ++ joined sep cs ↔ l <+: d := by
  constructor
  · induction l generalizing d with
    | nil => exact fun _ => List.nil_prefix
    | cons a l ih =>
      intro h
      have ha : a ≠ sep := fun he => hl (by simp [he])
      cases d with
      | nil =>
        cases cs with
        | nil => simp at h
        | cons c cs => simp [ha] at h
      | cons e d =>
        rw [List.cons_append, List.cons_prefix_cons] at h
        rw [List.cons_prefix_cons]
        exact ⟨h.1, ih (fun hm => hl (List.mem_cons_of_mem a hm)) d h.2⟩
  · exact fun h => h.trans (List.prefix_append d _)

/-- A separator ends the component before it. -/
theorem append_sep_prefix_iff {c d : List α} (hc : sep ∉ c) (hd : sep ∉ d) (text : List α)
    (cs : List (List α)) :
    c ++ sep :: text <+: d ++ joined sep cs ↔ c = d ∧ sep :: text <+: joined sep cs := by
  induction c generalizing d with
  | nil =>
    cases d with
    | nil => simp
    | cons e d =>
      have he : sep ≠ e := fun h => hd (by simp [h])
      simp [he]
  | cons a c ih =>
    have ha : a ≠ sep := fun h => hc (by simp [h])
    cases d with
    | nil =>
      cases cs with
      | nil => simp
      | cons e cs => simp [ha]
    | cons e d =>
      have := ih (fun h => hc (List.mem_cons_of_mem a h)) (fun h => hd (List.mem_cons_of_mem e h))
      rw [List.cons_append, List.cons_append, List.cons_prefix_cons, this, List.cons.injEq, and_assoc]

/-- Up to the last component the two agree, and the last one starts the other. -/
theorem joined_prefix_iff {dirs : List (List α)} (hm : Names sep (dirs ++ [l]))
    (hcs : Names sep cs) :
    joined sep (dirs ++ [l]) <+: joined sep cs ↔ ∃ c rest, cs = dirs ++ c :: rest ∧ l <+: c := by
  induction dirs generalizing cs with
  | nil =>
    have hl : sep ∉ l := (hm l (by simp)).2
    cases cs with
    | nil => simp
    | cons c cs =>
      simp only [List.nil_append, joined_cons, joined_nil, List.append_nil, List.cons_prefix_cons,
        true_and, prefix_append_joined_iff hl]
      constructor
      · exact fun h => ⟨c, cs, rfl, h⟩
      · rintro ⟨c', rest, heq, h⟩
        rw [List.cons.injEq] at heq
        rw [heq.1]
        exact h
  | cons d dirs ih =>
    have hd : sep ∉ d := (hm d (by simp)).2
    have htail : ∃ text, joined sep (dirs ++ [l]) = sep :: text := by
      cases dirs <;> exact ⟨_, rfl⟩
    cases cs with
    | nil => simp
    | cons c cs =>
      obtain ⟨text, htext⟩ := htail
      have hc : sep ∉ c := (hcs c (by simp)).2
      rw [List.cons_append, joined_cons, joined_cons, List.cons_prefix_cons, htext,
        append_sep_prefix_iff hd hc, ← htext, ih hm.tail hcs.tail]
      constructor
      · rintro ⟨-, rfl, c', rest, rfl, h⟩
        exact ⟨c', rest, rfl, h⟩
      · rintro ⟨c', rest, heq, h⟩
        rw [List.cons_append, List.cons.injEq] at heq
        exact ⟨rfl, heq.1.symm, c', rest, heq.2, h⟩

/-- A text that starts another one holds its first components, or cuts one. -/
theorem joined_prefix_cases (hm : Names sep m) (hcs : Names sep cs) :
    joined sep m <+: joined sep cs ↔ m <+: cs ∨ Cuts m cs := by
  rcases List.eq_nil_or_concat m with rfl | ⟨dirs, l, rfl⟩
  · simp
  rw [List.concat_eq_append] at *
  rw [joined_prefix_iff hm hcs]
  constructor
  · rintro ⟨c, rest, rfl, hl⟩
    by_cases h : l = c
    · subst h
      exact Or.inl ⟨rest, by simp⟩
    · exact Or.inr ⟨dirs, l, c, rest, rfl, rfl, hl, h⟩
  · rintro (⟨rest, rfl⟩ | ⟨dirs', l', c, rest, heq, rfl, hl, -⟩)
    · exact ⟨l, rest, by simp, List.prefix_refl l⟩
    · obtain ⟨rfl, h⟩ := List.append_inj' heq rfl
      rw [List.cons.injEq] at h
      exact ⟨c, rest, rfl, h.1 ▸ hl⟩

/-- The components that are cut are not the first ones. -/
theorem Cuts.not_first (h : Cuts m cs) : ¬ m <+: cs := by
  obtain ⟨dirs, l, c, rest, rfl, rfl, -, hne⟩ := h
  intro hp
  rw [List.prefix_append_right_inj, List.cons_prefix_cons] at hp
  exact hne hp.1

theorem Cuts.length_le (h : Cuts m cs) : m.length ≤ cs.length := by
  obtain ⟨dirs, l, c, rest, rfl, rfl, -⟩ := h
  simp

/-- The cut is still there in as many components. -/
theorem Cuts.of_prefix (h : Cuts m cs) (hds : ds <+: cs) (hlen : m.length ≤ ds.length) :
    Cuts m ds := by
  obtain ⟨dirs, l, c, rest, rfl, rfl, hl, hne⟩ := h
  have htwo : dirs ++ [c] <+: ds := by
    refine List.prefix_of_prefix_length_le ⟨rest, by simp⟩ hds ?_
    simpa using hlen
  obtain ⟨rest', rfl⟩ := htwo
  exact ⟨dirs, l, c, rest', rfl, by simp, hl, hne⟩

end Path
