-- Programs over a state that may fail half-way. A run of `EStateM` ends in a
-- value or in an error, and in both cases in a state. `Ends` says what holds
-- there, and the rules below follow the shape of the program.
import Mathlib.Init

namespace Outcome

variable {ε σ τ υ α β ι : Type}

/-- The run ends with a value and a state in `Q`, or with an error and a state in `E`. -/
def Ends (r : EStateM.Result ε σ α) (Q : α → σ → Prop) (E : ε → σ → Prop) : Prop :=
  match r with
  | .ok a s => Q a s
  | .error e s => E e s

/-- A computation without a state that returns: so does its first step. -/
theorem except_bind_ok {x : Except ε α} {f : α → Except ε β} {b : β} :
    (x >>= f) = .ok b ↔ ∃ a, x = .ok a ∧ f a = .ok b := by
  cases x with
  | error e => exact ⟨nofun, nofun⟩
  | ok a => exact ⟨fun h => ⟨a, rfl, h⟩, fun ⟨_, ha, h⟩ => by cases ha; exact h⟩

theorem except_bind_error {x : Except ε α} {f : α → Except ε β} {e : ε}
    (h : (x >>= f) = .error e) : x = .error e ∨ ∃ a, f a = .error e := by
  cases x with
  | error e' =>
    cases h
    exact Or.inl rfl
  | ok a => exact Or.inr ⟨a, h⟩

/-- If the run returns a value, it does so with a state in `Q`. -/
abbrev Yields (r : EStateM.Result ε σ α) (Q : α → σ → Prop) : Prop := Ends r Q (fun _ _ => True)

/-- The run ends in a state in `P`, with a value or with an error. -/
abbrev Always (r : EStateM.Result ε σ α) (P : σ → Prop) : Prop := Ends r (fun _ => P) (fun _ => P)

@[simp] theorem ends_ok (a : α) (s : σ) (Q : α → σ → Prop) (E : ε → σ → Prop) :
    Ends (.ok a s) Q E ↔ Q a s := Iff.rfl

@[simp] theorem ends_error (e : ε) (s : σ) (Q : α → σ → Prop) (E : ε → σ → Prop) :
    Ends (.error e s : EStateM.Result ε σ α) Q E ↔ E e s := Iff.rfl

variable {E : ε → σ → Prop} {Q : α → σ → Prop} {r : EStateM.Result ε σ α} {a : α} {s s' : σ}
  {f : α → EStateM ε σ β} {x : EStateM ε σ α} {e : ε} {E' : ε → σ → Prop}
  {body : ι → EStateM ε σ Unit} {Q' : α → σ → Prop} {P : σ → Prop}

theorem Ends.mono (h : Ends r Q E)
    (hQ : ∀ a s, Q a s → Q' a s) (hE : ∀ e s, E e s → E' e s) : Ends r Q' E' := by
  cases r with
  | ok a s => exact hQ a s h
  | error e s => exact hE e s h

theorem Ends.mono_ok (h : Ends r Q E) (hQ : ∀ a s, Q a s → Q' a s) :
    Ends r Q' E := h.mono hQ (fun _ _ h => h)

theorem Ends.mono_error (h : Ends r Q E) (hE : ∀ e s, E e s → E' e s) :
    Ends r Q E' := h.mono (fun _ _ h => h) hE

theorem Ends.and (h : Ends r Q E) (h' : Ends r Q' E') :
    Ends r (fun a s => Q a s ∧ Q' a s) (fun e s => E e s ∧ E' e s) := by
  cases r with
  | ok a s => exact ⟨h, h'⟩
  | error e s => exact ⟨h, h'⟩

/-- Only what a value comes with is of interest. -/
theorem Ends.forget (h : Ends r Q E) : Yields r Q :=
  h.mono_error (fun _ _ _ => trivial)

theorem yields_true (r : EStateM.Result ε σ α) : Yields r (fun _ _ => True) := by
  cases r with
  | ok a s => trivial
  | error e s => trivial

theorem Ends.of_ok (h : Ends r Q E) (hr : r = .ok a s) : Q a s := by
  subst hr
  exact h

/-- A run that cannot fail comes back with a value. -/
theorem Ends.returns (h : Ends r Q (fun _ _ => False)) : ∃ a s, r = .ok a s ∧ Q a s := by
  cases r with
  | ok a s => exact ⟨a, s, rfl, h⟩
  | error e s => exact h.elim

/-- The run came back, with a value and a state that pass the test. -/
def passes (r : EStateM.Result ε σ α) (test : α → σ → Bool) : Bool :=
  match r with
  | .ok a s => test a s
  | .error _ _ => false

theorem exists_of_passes {test : α → σ → Bool} (h : passes r test = true) :
    ∃ a s, r = .ok a s ∧ test a s = true := by
  cases r with
  | ok a s => exact ⟨a, s, rfl, h⟩
  | error e s => cases h

/-- The state that a run ends in, with a value or with an error. -/
def final : EStateM.Result ε σ α → σ
  | .ok _ s => s
  | .error _ s => s

theorem Ends.final (h : Always r P) : P (final r) := by
  cases r with
  | ok a s => exact h
  | error e s => exact h

theorem ends_pure (h : Q a s) : Ends ((pure a : EStateM ε σ α) s) Q E := h

variable {Q' : β → σ → Prop} {is : List ι}

/-- The rule of sequence. -/
theorem ends_bind (hx : Ends (x s) Q E)
    (hf : ∀ a s', Q a s' → Ends (f a s') Q' E) : Ends ((x >>= f) s) Q' E := by
  change Ends (EStateM.bind x f s) Q' E
  unfold EStateM.bind
  cases hr : x s with
  | ok a s' => exact hf a s' (hx.of_ok hr)
  | error e s' => rw [hr] at hx; exact hx

/-- A first step whose errors say more than is asked for. -/
theorem ends_then (hx : Ends (x s) Q E')
    (hE : ∀ e s', E' e s' → E e s') (hf : ∀ a s', Q a s' → Ends (f a s') Q' E) :
    Ends ((x >>= f) s) Q' E := ends_bind (hx.mono_error hE) hf

theorem bind_ok {b : β} : (x >>= f) s = .ok b s' ↔ ∃ a s1, x s = .ok a s1 ∧ f a s1 = .ok b s' := by
  change EStateM.bind x f s = .ok b s' ↔ _
  unfold EStateM.bind
  constructor
  · intro h
    cases hr : x s with
    | ok a s1 => rw [hr] at h; exact ⟨a, s1, rfl, h⟩
    | error e s1 => rw [hr] at h; cases h
  · rintro ⟨a, s1, hx, hf⟩
    rw [hx]
    exact hf

theorem bind_of_ok (h : x s = .ok a s') : (x >>= f) s = f a s' := by
  change EStateM.bind x f s = _
  unfold EStateM.bind
  rw [h]

/-- The rest of a sequence does not run when its first part has failed. -/
theorem bind_of_error (h : x s = .error e s') : (x >>= f) s = .error e s' := by
  change EStateM.bind x f s = _
  unfold EStateM.bind
  rw [h]

theorem pure_ok {b : α} : (pure a : EStateM ε σ α) s = .ok b s' ↔ a = b ∧ s = s' := by
  change EStateM.Result.ok a s = .ok b s' ↔ _
  rw [EStateM.Result.ok.injEq]

@[simp] theorem get_bind (f : σ → EStateM ε σ β) (s : σ) : (get >>= f) s = f s s := rfl

@[simp] theorem modify_bind (g : σ → σ) (f : Unit → EStateM ε σ β) (s : σ) :
    (modify g >>= f) s = f () (g s) := rfl

@[simp] theorem pure_bind_run (a : α) (f : α → EStateM ε σ β) (s : σ) :
    (pure a >>= f) s = f a s := rfl

@[simp] theorem throw_run (e : ε) (s : σ) : (throw e : EStateM ε σ α) s = .error e s := rfl

@[simp] theorem pure_run (a : α) (s : σ) : (pure a : EStateM ε σ α) s = .ok a s := rfl

/-! ## Parts of the state -/

/-- A program on a part of the state: `look` finds the part, and `put` puts it back. -/
def zoom (look : σ → τ) (put : σ → τ → σ) (x : EStateM ε τ α) : EStateM ε σ α := fun s =>
  match x (look s) with
  | .ok a t => .ok a (put s t)
  | .error e t => .error e (put s t)

section Zoom

variable {look : σ → τ} {put : σ → τ → σ} {x : EStateM ε τ α}

theorem zoom_ok : zoom look put x s = .ok a s' ↔ ∃ t, x (look s) = .ok a t ∧ put s t = s' := by
  unfold zoom
  cases hx : x (look s) <;> simp [and_assoc]

theorem ends_zoom (h : Ends (x (look s)) (fun a t => Q a (put s t)) (fun e t => E e (put s t))) :
    Ends (zoom look put x s) Q E := by
  unfold zoom
  revert h
  cases x (look s) with
  | ok a t => exact id
  | error e t => exact id

end Zoom

/-- The program leaves what `view` shows of the state, whether it fails or not. -/
def Keeps (view : σ → υ) (x : EStateM ε σ α) : Prop :=
  ∀ s, Ends (x s) (fun _ s' => view s' = view s) (fun _ s' => view s' = view s)

section Keeps

variable {view : σ → υ}

theorem keeps_pure (a : α) : Keeps view (pure a : EStateM ε σ α) := fun _ => rfl

theorem keeps_throw (e : ε) : Keeps view (throw e : EStateM ε σ α) := fun _ => rfl

theorem keeps_bind {x : EStateM ε σ α} {f : α → EStateM ε σ β} (hx : Keeps view x)
    (hf : ∀ a, Keeps view (f a)) : Keeps view (x >>= f) := by
  intro s
  refine ends_bind (hx s) ?_
  intro a s' hs'
  refine (hf a s').mono ?_ ?_
  · exact fun _ _ h => h.trans hs'
  · exact fun _ _ h => h.trans hs'

theorem keeps_get_bind {f : σ → EStateM ε σ β} (hf : ∀ s, Keeps view (f s)) :
    Keeps view (get >>= f) := fun s => hf s s

/-- A program on a part of the state leaves the rest. -/
theorem keeps_zoom {look : σ → τ} {put : σ → τ → σ} (h : ∀ s t, view (put s t) = view s)
    (x : EStateM ε τ α) : Keeps view (zoom look put x) := by
  intro s
  apply ends_zoom
  cases x (look s) with
  | ok a t => exact h s t
  | error e t => exact h s t

theorem keeps_modify {g : σ → σ} (hg : ∀ s, view (g s) = view s) :
    Keeps view (modify g : EStateM ε σ PUnit) := hg

end Keeps

/-! ## A given error -/

/-- The run ends in the error. -/
def Fails (r : EStateM.Result ε σ α) (e : ε) : Prop := ∃ s, r = .error e s

@[simp] theorem fails_ok (a : α) (s : σ) (e : ε) : ¬ Fails (.ok a s : EStateM.Result ε σ α) e := by
  rintro ⟨s', h⟩
  cases h

@[simp] theorem fails_error (s : σ) (e e' : ε) :
    Fails (.error e' s : EStateM.Result ε σ α) e ↔ e' = e := by
  constructor
  · rintro ⟨s', h⟩
    cases h
    rfl
  · rintro rfl
    exact ⟨s, rfl⟩

/-- A sequence fails in its first part or in its second. -/
theorem fails_bind :
    Fails ((x >>= f) s) e ↔ Fails (x s) e ∨ ∃ a s', x s = .ok a s' ∧ Fails (f a s') e := by
  change Fails (EStateM.bind x f s) e ↔ _
  unfold EStateM.bind
  cases hr : x s with
  | ok a s' => simp [and_assoc]
  | error e' s' => simp

/-! ## Loops over a list -/

/-- `for i in is`: the body for each element, in order. An error ends the loop. -/
def each (is : List ι) (body : ι → EStateM ε σ Unit) : EStateM ε σ Unit :=
  match is with
  | [] => pure ()
  | i :: is => body i >>= fun _ => each is body

/-- The rule of the loop: `Inv` speaks of the elements done so far. -/
theorem ends_each (Inv : List ι → σ → Prop)
    (h0 : Inv [] s) (hstep : ∀ done i rest s, is = done ++ i :: rest → Inv done s →
      Ends (body i s) (fun _ s' => Inv (done ++ [i]) s') E) :
    Ends (each is body s) (fun _ s' => Inv is s') E := by
  have go : ∀ rest done s, is = done ++ rest → Inv done s →
      Ends (each rest body s) (fun _ s' => Inv is s') E := by
    intro rest
    induction rest with
    | nil =>
      intro done s his hinv
      rw [List.append_nil] at his
      subst his
      exact ends_pure hinv
    | cons i rest ih =>
      intro done s his hinv
      refine ends_bind (hstep done i rest s his hinv) ?_
      intro _ s' hs'
      exact ih (done ++ [i]) s' (by rw [his, List.append_assoc]; rfl) hs'
  exact go is [] s rfl h0

theorem ends_each_inv
    (hbody : ∀ i s, P s → Always (body i s) P) (h : P s) : Always (each is body s) P := by
  apply ends_each (fun _ => P) h
  intro _ i _ s1 _ h1
  exact hbody i s1 h1

/-- The loop over `0..n`, with an invariant that speaks of the next index. -/
theorem ends_each_range (Inv : Nat → σ → Prop) {n : Nat} {b : Nat → EStateM ε σ Unit} (h0 : Inv 0 s)
    (hstep : ∀ i s, i < n → Inv i s → Ends (b i s) (fun _ s' => Inv (i + 1) s') E) :
    Ends (each (List.range n) b s) (fun _ s' => Inv n s') E := by
  have h : Ends (each (List.range n) b s) (fun _ s' => Inv (List.range n).length s') E := by
    refine ends_each (fun done s => Inv done.length s) h0 ?_
    intro done i rest s his hinv
    have hlen : done.length < (List.range n).length := by rw [his]; simp
    have hi : i = done.length := by
      have hget : (List.range n)[done.length]? = some i := by rw [his]; simp
      rw [List.getElem?_range (by simpa using hlen)] at hget
      exact (Option.some.inj hget).symm
    subst hi
    refine (hstep _ s (by simpa using hlen) hinv).mono ?_ (fun _ _ h => h)
    intro _ s' hs'
    simpa using hs'
  simpa using h

end Outcome
