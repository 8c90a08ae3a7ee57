-- Readers of the keyboard: `Stdin::read` and the interrupt that fills its buffer. All readers
-- share one flag. A reader that finds nothing marks itself blocked and halts; any interrupt
-- ends the halt, and the reader goes on with the mark that it has.
import Mathlib.Data.List.Induction

namespace zenos_kernel.process.stdin

/-- `Blocked` is `Blocked(&STDIN_BLOCKED)`. -/
inductive Status
  | Running
  | Ready
  | Blocked
  deriving DecidableEq

/-- What a reader does next. -/
inductive Pc
  | turn
  | pop
  | block
  | leave
  deriving DecidableEq

/-- A process inside of `read`, with a buffer of `len` bytes. -/
structure Reader where
  status : Status
  pc : Pc
  count : Nat
  len : Nat
  deriving DecidableEq

/-- A byte that was popped. -/
def Reader.take (r : Reader) (byte : UInt8) : Reader :=
  if byte = 10 then { r with pc := .leave }
  else if byte = 8 then { r with pc := .turn, count := r.count - 1 }
  else { r with pc := .turn, count := r.count + 1 }

structure World where
  buffer : List UInt8
  STDIN_BLOCKED : Bool
  readers : Nat → Option Reader

def World.start : World := ⟨[], false, fun _ => none⟩

inductive Event
  /-- `handle_scancode` of a key with a character. -/
  | key (character : UInt8)
  /-- A process calls `read`. -/
  | read (pid len : Nat)
  /-- The next step of a reader. -/
  | step (pid : Nat)
  /-- `save_context` of a reader that runs. -/
  | save (pid : Nat)
  /-- `schedule` picks a reader. -/
  | dispatch (pid : Nat)

namespace World

def set (w : World) (pid : Nat) (r : Option Reader) : World :=
  { w with readers := fun p => if p = pid then r else w.readers p }

/-- One step of `read`. -/
def advance (w : World) (pid : Nat) (r : Reader) : World :=
  match r.pc with
  | .turn =>
    if r.count < r.len then { w.set pid (some { r with pc := .pop }) with STDIN_BLOCKED := true }
    else { w.set pid none with STDIN_BLOCKED := false }
  | .pop =>
    match w.buffer with
    | [] => w.set pid (some { r with pc := .block })
    | byte :: rest => { w.set pid (some (r.take byte)) with buffer := rest }
  | .block => w.set pid (some { r with pc := .turn, status := .Blocked })
  | .leave => { w.set pid none with STDIN_BLOCKED := false }

def next (w : World) : Event → World
  | .key character => { w with buffer := w.buffer ++ [character], STDIN_BLOCKED := false }
  | .read pid len =>
    if w.readers pid = none then w.set pid (some ⟨.Running, .turn, 0, len⟩) else w
  | .step pid =>
    match w.readers pid with
    | some r => w.advance pid r
    | none => w
  | .save pid =>
    match w.readers pid with
    | some r => w.set pid (some { r with status := .Ready })
    | none => w
  | .dispatch pid =>
    match w.readers pid with
    | some r =>
      if r.status = .Ready ∨ r.status = .Blocked ∧ w.STDIN_BLOCKED = false then
        w.set pid (some { r with status := .Running })
      else w
    | none => w

def run (w : World) (events : List Event) : World := events.foldl next w

/-! ## No byte is left behind -/

/-- There is input, and nobody comes for it. -/
def Stuck (w : World) : Prop :=
  w.buffer ≠ [] ∧ w.STDIN_BLOCKED = true ∧
    ∀ pid r, w.readers pid = some r → r.status = .Blocked

/-- No reader that is still marked blocked starts a turn while there is input. -/
def careful (w : World) : Event → Bool
  | .step pid =>
    match w.readers pid with
    | some r => r.pc != .turn || r.status != .Blocked || w.buffer.isEmpty
    | none => true
  | _ => true

/-- Every event is careful where it happens. -/
def allCareful : World → List Event → Bool
  | _, [] => true
  | w, e :: es => w.careful e && allCareful (w.next e) es

/-- A reader that will look at the buffer again before it sleeps. -/
def Awake (r : Reader) : Prop := r.status ≠ .Blocked ∧ r.pc ≠ .block

/-- The invariant: while the flag is true there is no input, or somebody is awake. -/
def Attended (w : World) : Prop :=
  w.STDIN_BLOCKED = true → w.buffer = [] ∨ ∃ pid r, w.readers pid = some r ∧ Awake r

variable {w : World} {pid : Nat} {r r' : Reader}

@[simp] theorem set_same (w : World) (pid : Nat) (r : Option Reader) :
    (w.set pid r).readers pid = r := if_pos rfl

/-- One reader changes, and it stays awake if it was. -/
theorem Attended.set (h : w.Attended) (hr : w.readers pid = none ∨ w.readers pid = some r)
    (hawake : w.readers pid = some r → Awake r → Awake r') : (w.set pid (some r')).Attended := by
  intro hflag
  rcases h hflag with hnil | ⟨p, q, hq, ha⟩
  · exact Or.inl hnil
  · right
    by_cases hp : p = pid
    · subst hp
      have hqr : w.readers p = some r := hr.resolve_left (by simp [hq])
      rw [Option.some.inj (hq.symm.trans hqr)] at ha
      exact ⟨p, r', set_same .., hawake hqr ha⟩
    · exact ⟨p, q, by simp [World.set, hp, hq], ha⟩

theorem Attended.advance (h : w.Attended) (hr : w.readers pid = some r)
    (hc : w.careful (.step pid)) : (w.advance pid r).Attended := by
  unfold World.advance
  split
  · rename_i hpc
    split
    · -- the flag becomes true
      intro _
      simp only [careful, hr, hpc, bne_self_eq_false, Bool.false_or, Bool.or_eq_true,
        bne_iff_ne, List.isEmpty_iff] at hc
      rcases hc with hs | hnil
      · exact Or.inr ⟨pid, _, set_same .., hs, by simp⟩
      · exact Or.inl hnil
    · intro hflag
      cases hflag
  · split
    · rename_i hnil
      exact fun _ => Or.inl hnil
    rename_i byte rest hbuf
    have hawake : Awake r → Awake (r.take byte) := by
      unfold Awake Reader.take
      split_ifs <;> simp +contextual
    intro hflag
    rcases h.set (Or.inr hr) (fun _ => hawake) hflag with hnil | hex
    · simp [World.set, hbuf] at hnil
    · exact Or.inr hex
  · rename_i hpc
    exact h.set (Or.inr hr) (fun _ ha => absurd hpc ha.2)
  · intro hflag
    cases hflag

theorem Attended.next (h : w.Attended) {e : Event} (hc : w.careful e) : (w.next e).Attended := by
  cases e with
  | key character =>
    intro hflag
    cases hflag
  | read pid len =>
    unfold World.next
    dsimp only
    split
    · rename_i hnone
      exact h.set (r := ⟨.Running, .turn, 0, len⟩) (Or.inl hnone) (fun hs => by simp [hnone] at hs)
    · exact h
  | step pid =>
    unfold World.next
    dsimp only
    split
    · rename_i r hr
      exact h.advance hr hc
    · exact h
  | save pid =>
    unfold World.next
    dsimp only
    split
    · rename_i r hr
      exact h.set (Or.inr hr) (fun _ ha => ⟨by simp, ha.2⟩)
    · exact h
  | dispatch pid =>
    unfold World.next
    dsimp only
    split
    · rename_i r hr
      split
      · exact h.set (Or.inr hr) (fun _ ha => ⟨by simp, ha.2⟩)
      · exact h
    · exact h

theorem Attended.run {events : List Event} (h : w.Attended) (hc : w.allCareful events) :
    (w.run events).Attended := by
  induction events generalizing w with
  | nil => exact h
  | cons e es ih =>
    simp only [allCareful, Bool.and_eq_true] at hc
    exact ih (h.next hc.1) hc.2

/-- In every careful interleaving of readers, keys and the scheduler, no input waits for a
reader that nobody wakes. -/
theorem input_is_attended {events : List Event} (hc : start.allCareful events) :
    ¬ (start.run events).Stuck := by
  rintro ⟨hbuf, hflag, hall⟩
  have h : (start.run events).Attended := Attended.run (fun hflag => by cases hflag) hc
  rcases h hflag with hnil | ⟨pid, r, hr, ha⟩
  · exact hbuf hnil
  · exact ha.1 (hall pid r hr)

/-- A reader sleeps, a key is pressed, and the scheduler wakes the reader. -/
def woken : List Event :=
  [.read 1 1, .step 1, .step 1, .step 1, .save 1, .key 97, .dispatch 1, .step 1]

theorem a_woken_reader_attends : start.allCareful woken ∧ ¬ (start.run woken).Stuck :=
  ⟨by decide, input_is_attended (by decide)⟩

/-- The interrupt of the key ends the halt: the reader starts a turn, still marked blocked. -/
theorem a_reader_is_left_blocked :
    (start.run [.read 1 1, .step 1, .step 1, .step 1, .key 97, .step 1]).Stuck := by
  refine ⟨by decide, by decide, fun pid r hr => ?_⟩
  by_cases hp : pid = 1
  · subst hp
    cases hr
    rfl
  · simp [run, next, advance, World.set, start, hp] at hr

end World

end zenos_kernel.process.stdin
