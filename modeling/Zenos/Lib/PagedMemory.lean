-- Memory behind page tables. Pages get frames from a list of free ones, and bytes
-- are stored at virtual addresses. What can be read afterwards is what was stored,
-- and else what the frame held before.
import Mathlib.Data.List.Nodup

namespace PagedMemory

/-! ## The machine -/

/-- Physical memory by address, the frame of every page that is mapped, and the
frames that the allocator hands out next. -/
structure Machine where
  phys : Nat → UInt8
  frame : Nat → Option Nat
  free : List Nat

inductive Effect
  /-- A page is mapped. -/
  | alloc (page : Nat)
  /-- Bytes are stored from an address on. -/
  | store (addr : Nat) (bytes : List UInt8)

namespace Machine

/-- A frame is taken. A page that is mapped already keeps the frame it has. -/
def alloc (m : Machine) (page : Nat) : Option Machine :=
  match m.free with
  | [] => none
  | f :: free =>
    match m.frame page with
    | some _ => some { m with free }
    | none => some { m with frame := Function.update m.frame page (some f), free }

variable (size : Nat)

/-- The physical address of a virtual one. -/
def translate (m : Machine) (addr : Nat) : Option Nat :=
  (m.frame (addr / size)).map (fun f => f * size + addr % size)

/-- Byte by byte; `none` is a page that is not mapped. -/
def store (m : Machine) (addr : Nat) : List UInt8 → Option Machine
  | [] => some m
  | b :: bytes =>
    match m.translate size addr with
    | none => none
    | some pa => store { m with phys := Function.update m.phys pa b } (addr + 1) bytes

def apply (m : Machine) : Effect → Option Machine
  | .alloc page => m.alloc page
  | .store addr bytes => m.store size addr bytes

def run (m : Machine) : List Effect → Option Machine
  | [] => some m
  | e :: es => (m.apply size e).bind (fun m' => m'.run es)

/-- What is read at an address. -/
def load (m : Machine) (addr : Nat) : Option UInt8 := (m.translate size addr).map m.phys

end Machine

/-! ## The image -/

/-- What the effects alone determine: the pages that are mapped, and the bytes that
were stored. -/
structure Image where
  mapped : Nat → Prop
  byte : Nat → Option UInt8

namespace Image

def empty : Image := ⟨fun _ => False, fun _ => none⟩

def store (i : Image) (addr : Nat) : List UInt8 → Image
  | [] => i
  | b :: bytes => store { i with byte := Function.update i.byte addr (some b) } (addr + 1) bytes

def apply (i : Image) : Effect → Image
  | .alloc page => { i with mapped := fun p => p = page ∨ i.mapped p }
  | .store addr bytes => i.store addr bytes

def run (i : Image) : List Effect → Image
  | [] => i
  | e :: es => (i.apply e).run es

theorem store_mapped (i : Image) (addr : Nat) (bytes : List UInt8) :
    (i.store addr bytes).mapped = i.mapped := by
  induction bytes generalizing i addr with
  | nil => rfl
  | cons b bytes ih => exact ih _ _

theorem store_byte_isSome (i : Image) (addr : Nat) (bytes : List UInt8) (a : Nat) :
    ((i.store addr bytes).byte a).isSome = true ↔
      (addr ≤ a ∧ a < addr + bytes.length) ∨ (i.byte a).isSome = true := by
  induction bytes generalizing i addr with
  | nil =>
    simp only [List.length_nil]
    constructor
    · exact Or.inr
    · rintro (h | h)
      · omega
      · exact h
  | cons b bytes ih =>
    simp only [store]
    rw [ih]
    by_cases ha : a = addr
    · subst ha
      simp only [Function.update_self, Option.isSome_some, or_true, List.length_cons, true_iff]
      exact Or.inl ⟨Nat.le_refl _, by omega⟩
    · simp only [Function.update_of_ne ha, List.length_cons]
      refine or_congr ?_ Iff.rfl
      omega

/-- The pages are the ones allocated. -/
theorem run_mapped (i : Image) (es : List Effect) (page : Nat) :
    (i.run es).mapped page ↔ .alloc page ∈ es ∨ i.mapped page := by
  induction es generalizing i with
  | nil => simp [run]
  | cons e es ih =>
    rw [run, ih]
    cases e with
    | alloc p =>
      simp only [apply, List.mem_cons, Effect.alloc.injEq]
      tauto
    | store addr bytes =>
      simp [apply, store_mapped]

/-- An address lies in the bytes of a store. -/
def Covers (es : List Effect) (a : Nat) : Prop :=
  ∃ addr bytes, .store addr bytes ∈ es ∧ addr ≤ a ∧ a < addr + bytes.length

theorem covers_append {es es' : List Effect} {a : Nat} :
    Covers (es ++ es') a ↔ Covers es a ∨ Covers es' a := by
  unfold Covers
  simp only [List.mem_append, or_and_right, exists_or]

theorem covers_store {addr : Nat} {bytes : List UInt8} {a : Nat} :
    Covers [.store addr bytes] a ↔ addr ≤ a ∧ a < addr + bytes.length := by
  unfold Covers
  simp

/-- The bytes are the ones stored. -/
theorem run_byte_isSome (i : Image) (es : List Effect) (a : Nat) :
    ((i.run es).byte a).isSome = true ↔ Covers es a ∨ (i.byte a).isSome = true := by
  induction es generalizing i with
  | nil => simp [run, Covers]
  | cons e es ih =>
    rw [run, ih]
    cases e with
    | alloc p => simp [apply, Covers]
    | store addr bytes =>
      rw [apply, store_byte_isSome, ← List.singleton_append, covers_append, covers_store]
      exact or_left_comm.trans or_assoc.symm

end Image

/-! ## The machine shows the image -/

/-- The pages below `limit` are empty at first; those above belong to somebody else. -/
def start (limit : Nat) (phys : Nat → UInt8) (others : Nat → Option Nat) (free : List Nat) :
    Machine := ⟨phys, fun page => if page < limit then none else others page, free⟩

/-- An effect stays below `limit`. -/
def Effect.Below (size limit : Nat) : Effect → Prop
  | .alloc page => page < limit
  | .store addr bytes => addr + bytes.length ≤ limit * size

/-- Below `limit` the machine has the bytes of the image, and else the bytes that the
frames held in `phys`. -/
structure Shows (size limit : Nat) (phys : Nat → UInt8) (m : Machine) (i : Image) : Prop where
  mapped : ∀ page < limit, (m.frame page).isSome = true ↔ i.mapped page
  stored : ∀ a, (i.byte a).isSome = true → a / size < limit ∧ i.mapped (a / size)
  nodup : m.free.Nodup
  taken : ∀ page < limit, ∀ f, m.frame page = some f → f ∉ m.free
  own : ∀ page < limit, ∀ page' < limit, ∀ f, m.frame page = some f → m.frame page' = some f →
    page = page'
  clean : ∀ f ∈ m.free, ∀ off < size, m.phys (f * size + off) = phys (f * size + off)
  byte : ∀ a pa, a / size < limit → m.translate size a = some pa →
    m.phys pa = (i.byte a).getD (phys pa)

variable {size limit : Nat} {phys : Nat → UInt8} {m m' : Machine} {i : Image}

theorem shows_start (others : Nat → Option Nat) {free : List Nat} (hnodup : free.Nodup) :
    Shows size limit phys (start limit phys others free) Image.empty := by
  have hnone : ∀ page < limit, (start limit phys others free).frame page = none :=
    fun page hp => if_pos hp
  refine ⟨?_, ?_, hnodup, ?_, ?_, fun _ _ _ _ => rfl, ?_⟩
  · intro page hp
    simp [hnone page hp, Image.empty]
  · intro a ha
    cases ha
  · intro page hp f hf
    rw [hnone page hp] at hf
    cases hf
  · intro page hp page' _ f hf
    rw [hnone page hp] at hf
    cases hf
  · intro a pa ha htr
    simp [Machine.translate, hnone _ ha] at htr

/-- A physical address has one frame and one place in it. -/
theorem frame_inj (hsize : 0 < size) {f f' off off' : Nat} (ho : off < size) (ho' : off' < size)
    (h : f * size + off = f' * size + off') : f = f' ∧ off = off' := by
  have hf := (Nat.div_mod_unique hsize).mpr ⟨Nat.add_comm off (size * f), ho⟩
  rw [Nat.mul_comm, h, Nat.mul_comm] at hf
  have hf' := (Nat.div_mod_unique hsize).mpr ⟨Nat.add_comm off' (size * f'), ho'⟩
  exact ⟨hf.1.symm.trans hf'.1, hf.2.symm.trans hf'.2⟩

variable {page addr a : Nat} {bytes : List UInt8} {es : List Effect} {mapped : Nat → Prop}
  {n : Machine}

section

variable (hsize : 0 < size) (h : Shows size limit phys m i)

include hsize h

theorem Shows.alloc (hp : page < limit) (hm : m.alloc page = some m') :
    Shows size limit phys m' { i with mapped := fun p => p = page ∨ i.mapped p } := by
  unfold Machine.alloc at hm
  split at hm
  · cases hm
  rename_i f free hfree
  have hnodup := h.nodup
  rw [hfree, List.nodup_cons] at hnodup
  have htaken : ∀ q < limit, ∀ g, m.frame q = some g → g ∉ free := by
    intro q hq g hg hmem
    refine h.taken q hq g hg ?_
    rw [hfree]
    exact List.mem_cons_of_mem _ hmem
  have hclean : ∀ g ∈ free, ∀ off < size, m.phys (g * size + off) = phys (g * size + off) := by
    intro g hg
    refine h.clean g ?_
    rw [hfree]
    exact List.mem_cons_of_mem _ hg
  split at hm
  · -- the page has a frame already
    rename_i g hg
    cases hm
    have hold : i.mapped page := (h.mapped page hp).mp (by rw [hg]; rfl)
    refine ⟨?_, ?_, hnodup.2, htaken, h.own, hclean, h.byte⟩
    · intro q hq
      rw [h.mapped q hq]
      constructor
      · exact Or.inr
      · rintro (rfl | hq)
        · exact hold
        · exact hq
    · intro a ha
      exact ⟨(h.stored a ha).1, Or.inr (h.stored a ha).2⟩
  rename_i hnone
  cases hm
  have hnew : ¬i.mapped page := by
    intro hmap
    have := (h.mapped page hp).mpr hmap
    rw [hnone] at this
    cases this
  have hf : f ∈ m.free := by
    rw [hfree]
    exact List.mem_cons_self
  have hframe : ∀ q g, Function.update m.frame page (some f) q = some g →
      (q = page ∧ g = f) ∨ (q ≠ page ∧ m.frame q = some g) := by
    intro q g hg
    by_cases hqp : q = page
    · subst hqp
      rw [Function.update_self] at hg
      exact Or.inl ⟨rfl, (Option.some.inj hg).symm⟩
    · rw [Function.update_of_ne hqp] at hg
      exact Or.inr ⟨hqp, hg⟩
  refine ⟨?_, ?_, hnodup.2, ?_, ?_, hclean, ?_⟩
  · intro q hq
    by_cases hqp : q = page
    · subst hqp
      simp
    · simp [h.mapped q hq, hqp]
  · intro a ha
    exact ⟨(h.stored a ha).1, Or.inr (h.stored a ha).2⟩
  · intro q hq g hg
    rcases hframe q g hg with ⟨rfl, rfl⟩ | ⟨_, hg⟩
    · exact hnodup.1
    · exact htaken q hq g hg
  · intro q hq q' hq' g hg hg'
    rcases hframe q g hg with ⟨rfl, rfl⟩ | ⟨_, hold⟩
    · rcases hframe q' g hg' with ⟨rfl, _⟩ | ⟨_, hold'⟩
      · rfl
      · exact absurd hf (h.taken q' hq' g hold')
    · rcases hframe q' g hg' with ⟨_, rfl⟩ | ⟨_, hold'⟩
      · exact absurd hf (h.taken q hq g hold)
      · exact h.own q hq q' hq' g hold hold'
  · intro a pa ha htr
    by_cases hap : a / size = page
    · -- nothing was stored in the page before it was mapped
      simp only [Machine.translate, hap, Function.update_self, Option.map_some,
        Option.some.injEq] at htr
      have hbyte : i.byte a = none := by
        cases hb : i.byte a with
        | none => rfl
        | some b =>
          have hmap := (h.stored a (by rw [hb]; rfl)).2
          rw [hap] at hmap
          exact absurd hmap hnew
      rw [hbyte, ← htr]
      exact h.clean f hf _ (Nat.mod_lt a hsize)
    · refine h.byte a pa ha ?_
      simpa only [Machine.translate, Function.update_of_ne hap] using htr

theorem Shows.store_one {pa : Nat} (hlim : addr / size < limit)
    (htr : m.translate size addr = some pa) (b : UInt8) :
    Shows size limit phys { m with phys := Function.update m.phys pa b }
      { i with byte := Function.update i.byte addr (some b) } := by
  obtain ⟨f, hf, rfl⟩ := Option.map_eq_some_iff.mp htr
  have hmod := Nat.mod_lt addr hsize
  refine ⟨h.mapped, ?_, h.nodup, h.taken, h.own, ?_, ?_⟩
  · intro a ha
    by_cases haddr : a = addr
    · subst haddr
      exact ⟨hlim, (h.mapped _ hlim).mp (by rw [hf]; rfl)⟩
    · simp only [Function.update_of_ne haddr] at ha
      exact h.stored a ha
  · intro g hg off hoff
    have hne : g * size + off ≠ f * size + addr % size := by
      intro heq
      rw [(frame_inj hsize hoff hmod heq).1] at hg
      exact h.taken _ hlim f hf hg
    exact (Function.update_of_ne hne _ _).trans (h.clean g hg off hoff)
  · intro a pa' ha htr'
    by_cases haddr : a = addr
    · subst haddr
      cases htr.symm.trans htr'
      simp
    obtain ⟨g, hg, rfl⟩ := Option.map_eq_some_iff.mp htr'
    have hne : g * size + a % size ≠ f * size + addr % size := by
      intro heq
      obtain ⟨hgf, hoff⟩ := frame_inj hsize (Nat.mod_lt a hsize) hmod heq
      rw [hgf] at hg
      have hpage := h.own _ ha _ hlim f hg hf
      apply haddr
      rw [← Nat.div_add_mod a size, ← Nat.div_add_mod addr size, hpage, hoff]
    simp only [Function.update_of_ne hne, Function.update_of_ne haddr]
    exact h.byte a _ ha htr'

theorem Shows.store (hlim : addr + bytes.length ≤ limit * size)
    (hm : m.store size addr bytes = some m') : Shows size limit phys m' (i.store addr bytes) := by
  induction bytes generalizing m i addr with
  | nil =>
    cases hm
    exact h
  | cons b bytes ih =>
    rw [List.length_cons] at hlim
    unfold Machine.store at hm
    split at hm
    · cases hm
    · rename_i pa htr
      have hpage : addr / size < limit := by
        rw [Nat.div_lt_iff_lt_mul hsize]
        omega
      exact ih (h.store_one hsize hpage htr b) (by omega) hm

/-- Every run of effects that stay below the limit. -/
theorem Shows.run (hbelow : ∀ e ∈ es, e.Below size limit) (hm : m.run size es = some m') :
    Shows size limit phys m' (i.run es) := by
  induction es generalizing m i with
  | nil =>
    cases hm
    exact h
  | cons e es ih =>
    obtain ⟨m1, h1, hrest⟩ := Option.bind_eq_some_iff.mp hm
    have hfirst := hbelow e List.mem_cons_self
    refine ih ?_ (fun e he => hbelow e (List.mem_cons_of_mem _ he)) hrest
    cases e with
    | alloc page => exact h.alloc hsize hfirst h1
    | store addr bytes => exact h.store hsize hfirst h1

end

/-! ## Runs that succeed -/

/-- Every store goes to pages that are mapped by then; `mapped` are those at first. -/
def Ready (size : Nat) (mapped : Nat → Prop) : List Effect → Prop
  | [] => True
  | .alloc page :: es => Ready size (fun p => p = page ∨ mapped p) es
  | .store addr bytes :: es =>
    (∀ a, addr ≤ a → a < addr + bytes.length → mapped (a / size)) ∧ Ready size mapped es

/-- The frames that the effects take. -/
def frames : List Effect → Nat
  | [] => 0
  | .alloc _ :: es => frames es + 1
  | .store _ _ :: es => frames es

theorem Ready.mono {mapped' : Nat → Prop} (h : Ready size mapped es)
    (hsub : ∀ p, mapped p → mapped' p) : Ready size mapped' es := by
  induction es generalizing mapped mapped' with
  | nil => trivial
  | cons e es ih =>
    cases e with
    | alloc page => exact ih h (fun p hp => hp.imp id (hsub p))
    | store addr bytes => exact ⟨fun a h1 h2 => hsub _ (h.1 a h1 h2), ih h.2 hsub⟩

theorem ready_append {es' : List Effect} : Ready size mapped (es ++ es') ↔
      Ready size mapped es ∧ Ready size (fun p => .alloc p ∈ es ∨ mapped p) es' := by
  induction es generalizing mapped with
  | nil => simp [Ready]
  | cons e es ih =>
    cases e with
    | alloc page =>
      rw [List.cons_append, Ready, Ready, ih]
      have hpages : (fun p => .alloc p ∈ es ∨ p = page ∨ mapped p) =
          fun p => .alloc p ∈ .alloc page :: es ∨ mapped p := by
        funext p
        simp only [List.mem_cons, Effect.alloc.injEq]
        exact propext (by tauto)
      rw [hpages]
    | store addr bytes =>
      rw [List.cons_append, Ready, Ready, ih, and_assoc]
      simp

theorem ready_allocs (mapped : Nat → Prop) (pages : List Nat) :
    Ready size mapped (pages.map .alloc) := by
  induction pages generalizing mapped with
  | nil => trivial
  | cons p pages ih => exact ih _

/-- Stores within a range of mapped addresses. -/
theorem ready_stores {lo hi : Nat}
    (hes : ∀ e ∈ es, ∃ addr bytes, e = .store addr bytes ∧ lo ≤ addr ∧ addr + bytes.length ≤ hi)
    (hmapped : ∀ a, lo ≤ a → a < hi → mapped (a / size)) : Ready size mapped es := by
  induction es with
  | nil => trivial
  | cons e es ih =>
    obtain ⟨addr, bytes, rfl, hlo, hhi⟩ := hes e List.mem_cons_self
    refine ⟨fun a h1 h2 => hmapped a (by omega) (by omega), ih ?_⟩
    exact fun e he => hes e (List.mem_cons_of_mem _ he)

theorem store_ok (h : ∀ a, addr ≤ a → a < addr + bytes.length → (m.frame (a / size)).isSome = true) :
    ∃ m', m.store size addr bytes = some m' ∧ m'.frame = m.frame ∧ m'.free = m.free := by
  induction bytes generalizing m addr with
  | nil => exact ⟨m, rfl, rfl, rfl⟩
  | cons b bytes ih =>
    rw [List.length_cons] at h
    obtain ⟨f, hf⟩ := Option.isSome_iff_exists.mp (h addr (Nat.le_refl _) (by omega))
    have htr : m.translate size addr = some (f * size + addr % size) := by
      rw [Machine.translate, hf]
      rfl
    unfold Machine.store
    rw [htr]
    exact ih fun a h1 h2 => h a (by omega) (by omega)

/-- With enough frames, effects that are ready succeed. -/
theorem run_ok (h : Ready size (fun p => (m.frame p).isSome = true) es)
    (hfree : frames es ≤ m.free.length) : ∃ m', m.run size es = some m' := by
  induction es generalizing m with
  | nil => exact ⟨m, rfl⟩
  | cons e es ih =>
    cases e with
    | store addr bytes =>
      obtain ⟨m1, h1, hframe, hfree1⟩ := store_ok (m := m) h.1
      obtain ⟨m', hm'⟩ := ih (m := m1) (by rw [hframe]; exact h.2) (by rw [hfree1]; exact hfree)
      exact ⟨m', Option.bind_eq_some_iff.mpr ⟨m1, h1, hm'⟩⟩
    | alloc page =>
      have hfree' : frames es + 1 ≤ m.free.length := hfree
      cases hf : m.free with
      | nil =>
        rw [hf, List.length_nil] at hfree'
        omega
      | cons f free =>
        rw [hf, List.length_cons] at hfree'
        have halloc : ∃ m1, m.alloc page = some m1 ∧ m1.free = free ∧
            ∀ p, p = page ∨ (m.frame p).isSome = true → (m1.frame p).isSome = true := by
          unfold Machine.alloc
          rw [hf]
          cases hpage : m.frame page with
          | some g =>
            refine ⟨_, rfl, rfl, ?_⟩
            rintro p (rfl | hp)
            · rw [hpage]
              rfl
            · exact hp
          | none =>
            refine ⟨_, rfl, rfl, ?_⟩
            intro p hp
            by_cases hpp : p = page
            · subst hpp
              simp
            · simpa [hpp] using hp
        obtain ⟨m1, h1, hfree1, hframe⟩ := halloc
        have hrest : Ready size (fun p => p = page ∨ (m.frame p).isSome = true) es := h
        obtain ⟨m', hm'⟩ := ih (m := m1) (hrest.mono hframe) (by rw [hfree1]; omega)
        exact ⟨m', Option.bind_eq_some_iff.mpr ⟨m1, h1, hm'⟩⟩

/-! ## What the frames held before -/

section

variable (h : Shows size limit phys m i) (ha : a / size < limit)

include h ha

theorem Shows.load_eq {pa : Nat} (htr : m.translate size a = some pa) :
    m.load size a = some ((i.byte a).getD (phys pa)) := by
  unfold Machine.load
  rw [htr, Option.map_some, h.byte a pa ha htr]

theorem Shows.load_none (hno : ¬i.mapped (a / size)) : m.load size a = none := by
  have hframe : m.frame (a / size) = none := by
    cases hf : m.frame (a / size) with
    | none => rfl
    | some f => exact absurd ((h.mapped _ ha).mp (by rw [hf]; rfl)) hno
  simp [Machine.load, Machine.translate, hframe]

theorem Shows.translate_some (hmap : i.mapped (a / size)) : ∃ pa, m.translate size a = some pa := by
  obtain ⟨f, hf⟩ := Option.isSome_iff_exists.mp ((h.mapped _ ha).mpr hmap)
  exact ⟨_, by rw [Machine.translate, hf]; rfl⟩

end

/-- Two machines with the same tables. -/
def Same (m m' : Machine) : Prop := m.frame = m'.frame ∧ m.free = m'.free

theorem Same.translate (h : Same m m') (a : Nat) : m.translate size a = m'.translate size a := by
  unfold Machine.translate
  rw [h.1]

theorem Same.alloc (h : Same m m') (hm : m.alloc page = some n) :
    ∃ n', m'.alloc page = some n' ∧ Same n n' := by
  unfold Machine.alloc at hm ⊢
  rw [← h.1, ← h.2]
  split at hm
  · cases hm
  · split at hm
    · cases hm
      exact ⟨_, rfl, rfl, rfl⟩
    · cases hm
      exact ⟨_, rfl, rfl, rfl⟩

theorem Same.store (h : Same m m') (hm : m.store size addr bytes = some n) :
    ∃ n', m'.store size addr bytes = some n' ∧ Same n n' := by
  induction bytes generalizing m m' addr with
  | nil =>
    cases hm
    exact ⟨m', rfl, h⟩
  | cons b bytes ih =>
    unfold Machine.store at hm ⊢
    rw [← h.translate addr]
    split at hm
    · cases hm
    · rename_i pa htr
      have hsame : Same { m with phys := Function.update m.phys pa b }
          { m' with phys := Function.update m'.phys pa b } := h
      exact ih hsame hm

/-- Whether the effects succeed does not depend on the contents of the memory. -/
theorem Same.run (h : Same m m') (hm : m.run size es = some n) :
    ∃ n', m'.run size es = some n' ∧ Same n n' := by
  induction es generalizing m m' with
  | nil =>
    cases hm
    exact ⟨m', rfl, h⟩
  | cons e es ih =>
    obtain ⟨m1, h1, hrest⟩ := Option.bind_eq_some_iff.mp hm
    have hfirst : ∃ m1', m'.apply size e = some m1' ∧ Same m1 m1' := by
      cases e with
      | alloc page => exact h.alloc h1
      | store addr bytes => exact h.store h1
    obtain ⟨m1', h1', hsame⟩ := hfirst
    obtain ⟨n', hn', hsame'⟩ := ih hsame hrest
    exact ⟨n', Option.bind_eq_some_iff.mpr ⟨m1', h1', hn'⟩, hsame'⟩

/-- Every byte of every page that is allocated is stored. -/
def Covered (size : Nat) (es : List Effect) : Prop :=
  ∀ a, .alloc (a / size) ∈ es → Image.Covers es a

/-- Two runs that succeed read the same below the limit, whatever the memory held and
whichever frames were free. -/
def Independent (size limit : Nat) (es : List Effect) : Prop :=
  ∀ (others : Nat → Option Nat) (phys phys' : Nat → UInt8) (free free' : List Nat)
    (m m' : Machine), free.Nodup → free'.Nodup →
    (start limit phys others free).run size es = some m →
    (start limit phys' others free').run size es = some m' →
    ∀ a, a / size < limit → m.load size a = m'.load size a

theorem empty_run_mapped : (Image.empty.run es).mapped page ↔ .alloc page ∈ es := by
  rw [Image.run_mapped]
  exact or_iff_left id

theorem empty_run_byte : ((Image.empty.run es).byte a).isSome = true ↔ Image.Covers es a := by
  rw [Image.run_byte_isSome]
  exact or_iff_left (by simp [Image.empty])

theorem Covered.independent (hsize : 0 < size) (hbelow : ∀ e ∈ es, e.Below size limit)
    (h : Covered size es) : Independent size limit es := by
  intro others phys phys' free free' m m' hfree hfree' hm hm' a ha
  have hshows := (shows_start others hfree).run hsize hbelow hm
  have hshows' := (shows_start others hfree').run hsize hbelow hm'
  by_cases hmap : (Image.empty.run es).mapped (a / size)
  · obtain ⟨b, hb⟩ := Option.isSome_iff_exists.mp
      (empty_run_byte.mpr (h a (empty_run_mapped.mp hmap)))
    obtain ⟨pa, htr⟩ := hshows.translate_some ha hmap
    obtain ⟨pa', htr'⟩ := hshows'.translate_some ha hmap
    rw [hshows.load_eq ha htr, hshows'.load_eq ha htr', hb]
    rfl
  · rw [hshows.load_none ha hmap, hshows'.load_none ha hmap]

/-- Effects that succeed show nothing of the frames exactly when they store every byte of
every page that they allocate. -/
theorem independent_iff_covered (hsize : 0 < size) (hbelow : ∀ e ∈ es, e.Below size limit)
    (hruns : ∃ phys others free m, free.Nodup ∧ (start limit phys others free).run size es = some m) :
    Independent size limit es ↔ Covered size es := by
  refine ⟨?_, Covered.independent hsize hbelow⟩
  intro hind a halloc
  obtain ⟨phys, others, free, m, hfree, hm⟩ := hruns
  -- the same run on a memory of zeros and on a memory of ones
  have hsame : ∀ c : UInt8, Same (start limit phys others free)
      (start limit (fun _ => c) others free) := fun c => ⟨rfl, rfl⟩
  obtain ⟨m0, hm0, hs0⟩ := (hsame 0).run hm
  obtain ⟨m1, hm1, hs1⟩ := (hsame 1).run hm
  have ha : a / size < limit := hbelow _ halloc
  have hshows0 := (shows_start others hfree).run hsize hbelow hm0
  have hshows1 := (shows_start others hfree).run hsize hbelow hm1
  have hmap := empty_run_mapped.mpr halloc
  obtain ⟨pa0, htr0⟩ := hshows0.translate_some ha hmap
  obtain ⟨pa1, htr1⟩ := hshows1.translate_some ha hmap
  have heq := hind others _ _ free free m0 m1 hfree hfree hm0 hm1 a ha
  rw [hshows0.load_eq ha htr0, hshows1.load_eq ha htr1] at heq
  refine empty_run_byte.mp ?_
  cases hb : (Image.empty.run es).byte a with
  | some b => rfl
  | none =>
    rw [hb] at heq
    exact absurd (Option.some.inj heq) (by decide)

end PagedMemory
