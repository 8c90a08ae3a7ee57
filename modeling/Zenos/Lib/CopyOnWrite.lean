-- Copy-on-write sharing in its own terms: slots map frames, a frame may be
-- mapped by several slots, and a map counts the references of the frames that
-- were ever shared. What one step keeps is said here once.
import Mathlib.Logic.Function.Basic

namespace CopyOnWrite

/-- What a slot holds. -/
structure Page (F : Type) where
  frame : F
  writable : Bool
  cow : Bool
  deriving DecidableEq

variable {S F P : Type}

/-- The references of a frame. A frame without an entry has one owner. -/
def refs (count : F → Option UInt32) (f : F) : UInt32 := (count f).getD 1

/-- Slot `x` maps frame `f` by the page `a`. -/
def Maps (pages : S → Option (Page F)) (f : F) (x : S) (a : Page F) : Prop :=
  pages x = some a ∧ a.frame = f

/-- How the slots share frame `f`. `place` is the address that a slot stands
for. A `strict` sharing also counts exactly: a page that is mapped twice is
copy-on-write, its count is the number of its slots, and a used frame is mapped. -/
structure FrameOk (strict : Bool) (place : S → P) (pages : S → Option (Page F))
    (count : F → Option UInt32) (used : F → Prop) (f : F) : Prop where
  alike : ∀ x y a b, Maps pages f x a → Maps pages f y b → x ≠ y →
    a.writable = false ∧ a.cow = b.cow ∧ place x = place y
  owned : ∀ x a, Maps pages f x a → a.writable = true → a.cow = false
  two : ∀ x y z a b c, Maps pages f x a → Maps pages f y b → Maps pages f z c → a.cow = true →
    x ≠ y → x ≠ z → y = z
  one : ∀ x y a b, Maps pages f x a → Maps pages f y b → a.cow = true → refs count f = 1 → x = y
  plain : ∀ x a, Maps pages f x a → a.cow = false → refs count f = 1
  inUse : ∀ x a, Maps pages f x a → used f
  other : ¬ used f → refs count f = 1
  range : ∀ c, count f = some c → c = 1 ∨ c = 2
  shared : strict = true → ∀ x y a b, Maps pages f x a → Maps pages f y b → x ≠ y → a.cow = true
  tracked : strict = true → ∀ x a, Maps pages f x a → a.cow = true →
    count f = some 1 ∨ (count f = some 2 ∧ ∃ y b, y ≠ x ∧ Maps pages f y b)
  mapped : strict = true → used f → ∃ x a, Maps pages f x a

/-- How the slots share all frames. -/
def Sharing (strict : Bool) (place : S → P) (pages : S → Option (Page F))
    (count : F → Option UInt32) (used : F → Prop) : Prop :=
  ∀ f, FrameOk strict place pages count used f

variable {f : F}

/-- A page with one reference: its count is missing or 1. -/
theorem count_of_refs {count : F → Option UInt32} (h : refs count f = 1) :
    count f = none ∨ count f = some 1 := by
  unfold refs at h
  cases hc : count f with
  | none => exact Or.inl rfl
  | some c => rw [hc] at h; exact Or.inr (congrArg some h)

section

variable {strict : Bool} {place place' : S → P} {pages pages' : S → Option (Page F)}
  {count count' : F → Option UInt32} {used used' : F → Prop} {x : S} {a v : Page F}

section

variable (h : FrameOk strict place pages count used f)

include h

/-- Slots may vanish, as long as nobody counts. -/
theorem FrameOk.subset (hm : ∀ x a, Maps pages' f x a → Maps pages f x a)
    (hs : strict = true → ∀ x a, Maps pages f x a → Maps pages' f x a)
    (hp : ∀ x a, Maps pages f x a → place' x = place x) (hc : count' f = count f)
    (hu : used' f ↔ used f) : FrameOk strict place' pages' count' used' f := by
  have hr : refs count' f = refs count f := by unfold refs; rw [hc]
  constructor
  · intro x y a b hx hy hne
    rw [hp x a (hm x a hx), hp y b (hm y b hy)]
    exact h.alike x y a b (hm x a hx) (hm y b hy) hne
  · intro x a hx
    exact h.owned x a (hm x a hx)
  · intro x y z a b c hx hy hz
    exact h.two x y z a b c (hm x a hx) (hm y b hy) (hm z c hz)
  · intro x y a b hx hy
    rw [hr]
    exact h.one x y a b (hm x a hx) (hm y b hy)
  · intro x a hx
    rw [hr]
    exact h.plain x a (hm x a hx)
  · intro x a hx
    exact hu.mpr (h.inUse x a (hm x a hx))
  · rw [hu, hr]
    exact h.other
  · rw [hc]
    exact h.range
  · intro hst x y a b hx hy
    exact h.shared hst x y a b (hm x a hx) (hm y b hy)
  · intro hst x a hx hcow
    rw [hc]
    rcases h.tracked hst x a (hm x a hx) hcow with h1 | ⟨h2, y, b, hne, hy⟩
    · exact Or.inl h1
    · exact Or.inr ⟨h2, y, b, hne, hs hst y b hy⟩
  · intro hst hused
    obtain ⟨x, a, hx⟩ := h.mapped hst (hu.mp hused)
    exact ⟨x, a, hs hst x a hx⟩

theorem FrameOk.congr (hm : ∀ x a, Maps pages' f x a ↔ Maps pages f x a)
    (hp : ∀ x a, Maps pages f x a → place' x = place x) (hc : count' f = count f)
    (hu : used' f ↔ used f) : FrameOk strict place' pages' count' used' f :=
  h.subset (fun x a => (hm x a).mp) (fun _ x a => (hm x a).mpr) hp hc hu

omit h in
/-- The address of an empty slot does not matter. -/
theorem Sharing.congr (h : Sharing strict place pages count used)
    (hp : ∀ x a, pages x = some a → place' x = place x) (hu : ∀ f, used' f ↔ used f) :
    Sharing strict place' pages count used' :=
  fun f => (h f).congr (fun _ _ => Iff.rfl) (fun x a hx => hp x a hx.1) rfl (hu f)

/-- A page with more than one reference has the count 2. -/
theorem FrameOk.count_two (hr : refs count f ≠ 1) : count f = some 2 := by
  unfold refs at hr
  cases hc : count f with
  | none => rw [hc] at hr; exact absurd rfl hr
  | some c =>
    rw [hc] at hr
    rcases h.range c hc with h1 | h1
    · exact absurd h1 hr
    · rw [h1]

/-- A writable page has one slot. -/
theorem FrameOk.alone {y : S} {b : Page F}
    (hx : Maps pages f x a) (hy : Maps pages f y b) (hw : a.writable = true) : x = y := by
  by_contra hne
  have := (h.alike x y a b hx hy hne).1
  rw [hw] at this
  cases this

end

theorem maps_update [DecidableEq S] {y : S} {b : Page F} :
    Maps (Function.update pages x (some v)) f y b ↔
      (y = x ∧ b = v ∧ v.frame = f) ∨ (y ≠ x ∧ Maps pages f y b) := by
  unfold Maps
  by_cases h : y = x
  · subst h
    simp only [Function.update_self, Option.some.injEq, ne_eq, not_true_eq_false, false_and,
      or_false, true_and]
    constructor
    · rintro ⟨rfl, h2⟩; exact ⟨rfl, h2⟩
    · rintro ⟨rfl, h2⟩; exact ⟨rfl, h2⟩
  · simp [h]

/-- A slot that takes one page for another is not seen by other frames. -/
theorem maps_update_other [DecidableEq S] (hx : ∀ b, ¬Maps pages f x b) (hv : f ≠ v.frame) (z : S)
    (b : Page F) : Maps (Function.update pages x (some v)) f z b ↔ Maps pages f z b := by
  rw [maps_update]
  constructor
  · rintro (⟨_, _, rfl⟩ | ⟨_, hz⟩)
    · exact absurd rfl hv
    · exact hz
  · intro hz
    refine Or.inr ⟨?_, hz⟩
    rintro rfl
    exact hx b hz

theorem not_maps (hx : pages x = some a) (hf : f ≠ a.frame) (b : Page F) : ¬Maps pages f x b := by
  rintro ⟨hb, rfl⟩
  rw [hx] at hb
  cases hb
  exact hf rfl

/-! ## The states of one frame -/

theorem frameOk_unmapped (hm : ∀ x a, ¬ Maps pages f x a) (hr : refs count f = 1)
    (hu : strict = true → ¬ used f) : FrameOk strict place pages count used f := by
  have hcount := count_of_refs hr
  constructor <;> grind

theorem frameOk_single (hm : ∀ z b, Maps pages f z b ↔ z = x ∧ b = v)
    (ho : v.writable = true → v.cow = false) (hr : refs count f = 1)
    (ht : strict = true → v.cow = true → count f = some 1) (hu : used f) :
    FrameOk strict place pages count used f := by
  have hcount := count_of_refs hr
  constructor
  case mapped => exact fun _ _ => ⟨x, v, (hm x v).mpr ⟨rfl, rfl⟩⟩
  all_goals grind

theorem frameOk_pair {y : S} (hxy : x ≠ y) (hp : place y = place x)
    (hm : ∀ z b, Maps pages f z b ↔ (z = x ∨ z = y) ∧ b = ⟨f, false, true⟩) (hc : count f = some 2)
    (hu : used f) : FrameOk strict place pages count used f := by
  constructor
  case tracked =>
    intro _ z b hz _
    refine Or.inr ⟨hc, ?_⟩
    rcases ((hm z b).mp hz).1 with h | h
    · exact ⟨y, _, by rw [h]; exact hxy.symm, (hm y _).mpr ⟨Or.inr rfl, rfl⟩⟩
    · exact ⟨x, _, by rw [h]; exact hxy, (hm x _).mpr ⟨Or.inl rfl, rfl⟩⟩
  all_goals simp only [hm, hc, refs]
  all_goals grind

/-- A frame that lost all slots but one keeps the count 1. -/
theorem FrameOk.fewer (h : FrameOk strict place pages count used f)
    (hm : ∀ x a, Maps pages' f x a → Maps pages f x a)
    (hone : ∀ x y a b, Maps pages' f x a → Maps pages' f y b → x = y) (hc : count' f = some 1)
    (hu : used' f ↔ used f) (hs : strict = true → ∃ x a, Maps pages' f x a) :
    FrameOk strict place pages' count' used' f := by
  have hr : refs count' f = 1 := by rw [refs, hc]; rfl
  constructor
  · intro x y a b hx hy hne
    exact absurd (hone x y a b hx hy) hne
  · intro x a hx
    exact h.owned x a (hm x a hx)
  · intro x y z a b c hx hy hz _ hxy
    exact absurd (hone x y a b hx hy) hxy
  · intro x y a b hx hy _ _
    exact hone x y a b hx hy
  · intro _ _ _ _
    exact hr
  · intro x a hx
    exact hu.mpr (h.inUse x a (hm x a hx))
  · intro _
    exact hr
  · intro c hc'
    rw [hc] at hc'
    exact Or.inl (Option.some.inj hc').symm
  · intro _ x y a b hx hy hne
    exact absurd (hone x y a b hx hy) hne
  · intro _ _ _ _ _
    exact Or.inl hc
  · intro hs' _
    exact hs hs'

/-! ## Steps -/

variable [DecidableEq S] [DecidableEq F]

section

variable (h : Sharing strict place pages count used)

include h

/-- A second slot for a writable page: both become read-only and copy-on-write. -/
theorem Sharing.share {y : S} (hx : pages x = some a)
    (hw : a.writable = true) (hy : pages y = none) (hp : place y = place x) : Sharing strict place
      (Function.update (Function.update pages x (some ⟨a.frame, false, true⟩)) y
        (some ⟨a.frame, false, true⟩)) (Function.update count a.frame (some 2)) used := by
  have hxy : x ≠ y := by rintro rfl; rw [hx] at hy; cases hy
  have hmx : Maps pages a.frame x a := ⟨hx, rfl⟩
  intro f
  by_cases hf : f = a.frame
  · subst hf
    refine frameOk_pair hxy hp ?_ (Function.update_self ..) ((h _).inUse x a hmx)
    intro z b
    rw [maps_update, maps_update]
    constructor
    · rintro (⟨rfl, rfl, _⟩ | ⟨_, ⟨rfl, rfl, _⟩ | ⟨hzx, hz⟩⟩)
      · exact ⟨Or.inr rfl, rfl⟩
      · exact ⟨Or.inl rfl, rfl⟩
      · exact absurd ((h _).alone hmx hz hw).symm hzx
    · rintro ⟨rfl | rfl, rfl⟩
      · exact Or.inr ⟨hxy, Or.inl ⟨rfl, rfl, rfl⟩⟩
      · exact Or.inl ⟨rfl, rfl, rfl⟩
  · refine (h f).congr ?_ (fun _ _ _ => rfl) (Function.update_of_ne hf _ _) Iff.rfl
    have hfirst := maps_update_other (v := ⟨a.frame, false, true⟩) (not_maps hx hf) hf
    intro z b
    rw [maps_update_other (v := ⟨a.frame, false, true⟩) ?_ hf, hfirst]
    intro c hc
    rw [hfirst, Maps, hy] at hc
    cases hc.1

omit h in
/-- A second slot for a read-only page that is not copy-on-write. -/
theorem Sharing.share_plain (h : Sharing false place pages count used) {y : S}
    (hx : pages x = some a) (hw : a.writable = false) (hc : a.cow = false) (hy : pages y = none)
    (hp : place y = place x) :
    Sharing false place (Function.update pages y (some a)) count used := by
  have hmx : Maps pages a.frame x a := ⟨hx, rfl⟩
  have hno : ∀ f b, ¬ Maps pages f y b := by intro f b hb; rw [Maps, hy] at hb; cases hb.1
  intro f
  by_cases hf : f = a.frame
  · have hm : ∀ z b, Maps (Function.update pages y (some a)) a.frame z b ↔
        (z = y ∧ b = a) ∨ Maps pages a.frame z b := by
      intro z b
      rw [maps_update]
      constructor
      · rintro (⟨h1, h2, _⟩ | ⟨_, h2⟩)
        · exact Or.inl ⟨h1, h2⟩
        · exact Or.inr h2
      · rintro (⟨h1, h2⟩ | h2)
        · exact Or.inl ⟨h1, h2, rfl⟩
        · exact Or.inr ⟨by rintro rfl; exact hno _ _ h2, h2⟩
    -- every slot of the page is like `x`
    have hlike : ∀ z b, Maps (Function.update pages y (some a)) a.frame z b →
        b.writable = false ∧ b.cow = false ∧ place z = place x := by
      intro z b hz
      rcases (hm z b).mp hz with ⟨rfl, rfl⟩ | hz
      · exact ⟨hw, hc, hp⟩
      · by_cases hzx : z = x
        · subst hzx
          have : a = b := Option.some.inj (hx.symm.trans hz.1)
          subst this
          exact ⟨hw, hc, rfl⟩
        · have hl := (h _).alike z x b a hz hmx hzx
          exact ⟨hl.1, hl.2.1.trans hc, hl.2.2⟩
    have hr := (h _).plain x a hmx hc
    have hu := (h _).inUse x a hmx
    have hrange := (h a.frame).range
    constructor <;> grind
  · exact (h f).congr (maps_update_other (hno f) hf) (fun _ _ _ => rfl) rfl Iff.rfl

/-- The only slot of a copy-on-write page becomes writable. -/
theorem Sharing.own (hx : pages x = some a) (hc : a.cow = true) (hr : refs count a.frame = 1) :
    Sharing strict place (Function.update pages x (some ⟨a.frame, true, false⟩)) count used := by
  have hmx : Maps pages a.frame x a := ⟨hx, rfl⟩
  intro f
  by_cases hf : f = a.frame
  · subst hf
    refine frameOk_single (x := x) (v := ⟨a.frame, true, false⟩) ?_ (fun _ => rfl) hr
      (fun _ h => by cases h) ((h _).inUse x a hmx)
    intro z b
    rw [maps_update]
    constructor
    · rintro (⟨h1, h2, _⟩ | ⟨h1, h2⟩)
      · exact ⟨h1, h2⟩
      · exact absurd ((h _).one x z a b hmx h2 hc hr).symm h1
    · rintro ⟨h1, h2⟩
      exact Or.inl ⟨h1, h2, rfl⟩
  · exact (h f).congr (maps_update_other (not_maps hx hf) hf) (fun _ _ _ => rfl) rfl Iff.rfl

/-- A slot of a shared page gets a frame of its own. -/
theorem Sharing.copy {g : F} (hx : pages x = some a)
    (hc : a.cow = true) (hr : refs count a.frame ≠ 1) (hg : ¬ used g) :
    Sharing strict place (Function.update pages x (some ⟨g, true, false⟩))
      (Function.update count a.frame (some 1)) (fun f => used f ∨ f = g) := by
  have hmx : Maps pages a.frame x a := ⟨hx, rfl⟩
  have hua := (h _).inUse x a hmx
  have hga : a.frame ≠ g := by rintro rfl; exact hg hua
  intro f
  by_cases hfg : f = g
  · subst hfg
    have hcount : Function.update count a.frame (some 1) f = count f :=
      Function.update_of_ne hga.symm _ _
    refine frameOk_single (x := x) (v := ⟨f, true, false⟩) ?_ (fun _ => rfl) ?_
      (fun _ h => by cases h) (Or.inr rfl)
    · intro z b
      rw [maps_update]
      constructor
      · rintro (⟨h1, h2, _⟩ | ⟨_, h2⟩)
        · exact ⟨h1, h2⟩
        · exact absurd ((h f).inUse z b h2) hg
      · rintro ⟨h1, h2⟩
        exact Or.inl ⟨h1, h2, rfl⟩
    · rw [refs, hcount]
      exact (h f).other hg
  · by_cases hfa : f = a.frame
    · subst hfa
      have hm : ∀ z b, Maps (Function.update pages x (some ⟨g, true, false⟩)) a.frame z b →
          z ≠ x ∧ Maps pages a.frame z b := by
        intro z b hz
        rcases maps_update.mp hz with ⟨_, _, h3⟩ | h3
        · exact absurd h3.symm hga
        · exact h3
      refine (h a.frame).fewer (fun z b hz => (hm z b hz).2) ?_ (Function.update_self ..)
        ⟨fun hu => hu.resolve_right hga, Or.inl⟩ ?_
      · intro y z b c hy hz
        have hy' := hm y b hy
        have hz' := hm z c hz
        exact (h a.frame).two x y z a b c hmx hy'.2 hz'.2 hc hy'.1.symm hz'.1.symm
      · intro hs
        rcases (h a.frame).tracked hs x a hmx hc with h1 | ⟨_, y, b, hne, hy⟩
        · exact absurd (by rw [refs, h1]; rfl) hr
        · exact ⟨y, b, maps_update.mpr (Or.inr ⟨hne, hy⟩)⟩
    · exact (h f).congr (maps_update_other (not_maps hx hfa) hfg) (fun _ _ _ => rfl)
        (Function.update_of_ne hfa _ _) ⟨fun hu => hu.resolve_right hfg, Or.inl⟩

/-! ## Dropping a space

A space gives up its slots, and passes over each of them but the `skipped` ones:
a page that is not copy-on-write is thrown away, and a reference is taken from
the count of one that is. -/

/-- A slot of the space that is passed over. -/
structure Passed (gone skipped : S → Prop) (pages : S → Option (Page F)) (f : F) (x : S)
    (a : Page F) : Prop where
  gone : gone x
  live : ¬ skipped x
  maps : Maps pages f x a

/-- The count after one reference is taken. -/
def taken : Option UInt32 → Option UInt32
  | some old => if old = 1 then none else some (old - 1)
  | none => none

/-- The frame is thrown away: the page was not copy-on-write, or the reference
taken was the last. -/
def Thrown (gone skipped : S → Prop) (pages : S → Option (Page F)) (count : F → Option UInt32)
    (f : F) : Prop :=
  ∃ x a, Passed gone skipped pages f x a ∧ (a.cow = false ∨ count f = some 1)

/-- A reference is taken from the frame. -/
def Taken (gone skipped : S → Prop) (pages : S → Option (Page F)) (f : F) : Prop :=
  ∃ x a, Passed gone skipped pages f x a ∧ a.cow = true

omit [DecidableEq S] [DecidableEq F] in
/-- The space drops its slots. It maps a frame at most once, the pages it throws
away without counting are its own, and a strict sharing skips nothing. -/
theorem Sharing.drop {gone skipped : S → Prop}
    (hm : ∀ x a, pages' x = some a ↔ ¬ gone x ∧ pages x = some a)
    (hsame : ∀ f x y a b, gone x → gone y → Maps pages f x a → Maps pages f y b → x = y)
    (hplain : ∀ f x a, Passed gone skipped pages f x a → a.cow = false →
      ∀ y b, Maps pages f y b → y = x)
    (hskip : strict = true → ∀ x a, gone x → pages x = some a → ¬ skipped x)
    (htaken : ∀ f, Taken gone skipped pages f → count' f = taken (count f))
    (hkept : ∀ f, ¬ Taken gone skipped pages f → count' f = count f)
    (hused : ∀ f, used' f ↔ used f ∧ ¬ Thrown gone skipped pages count f) :
    Sharing strict place pages' count' used' := by
  intro f
  have hmaps : ∀ x a, Maps pages' f x a ↔ ¬ gone x ∧ Maps pages f x a := by
    intro x a
    rw [Maps, hm, and_assoc]
    rfl
  by_cases hg : ∃ x a, Passed gone skipped pages f x a
  · obtain ⟨x, a, hpx⟩ := hg
    have hgx := hpx.gone
    have hx := hpx.maps
    -- `x` is the only slot of the space that maps the frame
    have honly : ∀ y b, Passed gone skipped pages f y b → y = x ∧ b = a := by
      intro y b hy
      have hyx := hsame f y x b a hy.gone hgx hy.maps hx
      subst hyx
      exact ⟨rfl, Option.some.inj (hy.maps.1.symm.trans hx.1)⟩
    cases hcow : a.cow with
    | false =>
      -- an owned page is thrown away, and nobody else had it
      have hnt : ¬ Taken gone skipped pages f := by
        rintro ⟨y, b, hy, hb⟩
        rw [(honly y b hy).2, hcow] at hb
        cases hb
      refine frameOk_unmapped ?_ ?_ ?_
      · intro z b hz
        have hz' := (hmaps z b).mp hz
        exact hz'.1 (hplain f x a hpx hcow z b hz'.2 ▸ hgx)
      · rw [refs, hkept f hnt]
        exact (h f).plain x a hx hcow
      · intro _ hu
        exact ((hused f).mp hu).2 ⟨x, a, hpx, Or.inl hcow⟩
    | true =>
      have ht : Taken gone skipped pages f := ⟨x, a, hpx, hcow⟩
      by_cases hr : refs count f = 1
      · -- the last reference: the other slots of the frame are gone already
        have hno : ∀ z b, ¬ Maps pages' f z b := by
          intro z b hz
          have hz' := (hmaps z b).mp hz
          exact hz'.1 ((h f).one x z a b hx hz'.2 hcow hr ▸ hgx)
        have hc' : count' f = none := by
          rw [htaken f ht]
          rcases count_of_refs hr with h1 | h1 <;> rw [h1] <;> rfl
        refine frameOk_unmapped hno (by rw [refs, hc']; rfl) ?_
        intro hs hu
        refine ((hused f).mp hu).2 ⟨x, a, hpx, Or.inr ?_⟩
        rcases (h f).tracked hs x a hx hcow with h1 | ⟨h1, _⟩
        · exact h1
        · rw [refs, h1] at hr; exact absurd hr (by decide)
      · -- one of two references
        have hc2 := (h f).count_two hr
        have hc' : count' f = some 1 := by rw [htaken f ht, hc2]; rfl
        have hnth : ¬ Thrown gone skipped pages count f := by
          rintro ⟨y, b, hy, hb⟩
          rw [(honly y b hy).2, hcow, hc2] at hb
          rcases hb with hb | hb
          · cases hb
          · exact absurd hb (by decide)
        refine (h f).fewer (fun z b hz => ((hmaps z b).mp hz).2) ?_ hc' ?_ ?_
        · intro y z b c hy hz
          have hy' := (hmaps y b).mp hy
          have hz' := (hmaps z c).mp hz
          refine (h f).two x y z a b c hx hy'.2 hz'.2 hcow ?_ ?_
          · rintro rfl; exact hy'.1 hgx
          · rintro rfl; exact hz'.1 hgx
        · rw [hused]
          exact ⟨fun hu => hu.1, fun hu => ⟨hu, hnth⟩⟩
        · intro hs
          rcases (h f).tracked hs x a hx hcow with h1 | ⟨_, y, b, hne, hy⟩
          · rw [hc2] at h1; exact absurd h1 (by decide)
          · refine ⟨y, b, (hmaps y b).mpr ⟨fun hgy => hne ?_, hy⟩⟩
            exact hsame f y x b a hgy hgx hy hx
  · -- the slots of the frame that vanish are skipped ones
    have hnp : ∀ x a, ¬ Passed gone skipped pages f x a := fun x a hp => hg ⟨x, a, hp⟩
    refine (h f).subset (fun z b hz => ((hmaps z b).mp hz).2) ?_ (fun _ _ _ => rfl)
      (hkept f fun ⟨x, a, hp, _⟩ => hnp x a hp) ?_
    · intro hs z b hz
      exact (hmaps z b).mpr ⟨fun hgz => hnp z b ⟨hgz, hskip hs z b hgz hz.1, hz⟩, hz⟩
    · rw [hused]
      exact ⟨fun hu => hu.1, fun hu => ⟨hu, fun ⟨x, a, hp, _⟩ => hnp x a hp⟩⟩

end

end

end CopyOnWrite
