-- `String::from_utf8`, which refuses bytes that are not UTF-8, and
-- `String::from_utf8_lossy`, which puts U+FFFD in the place of every maximal
-- sequence of such bytes.
import Mathlib.Init

namespace Utf8

def isCont (b : UInt8) : Bool := 0x80 ≤ b && b ≤ 0xBF

/-- The second byte of a sequence of three or four bytes. -/
def secondOk (first second : UInt8) : Bool :=
  if first = 0xE0 then 0xA0 ≤ second && second ≤ 0xBF
  else if first = 0xED then 0x80 ≤ second && second ≤ 0x9F
  else if first = 0xF0 then 0x90 ≤ second && second ≤ 0xBF
  else if first = 0xF4 then 0x80 ≤ second && second ≤ 0x8F
  else isCont second

/-- The number of bytes that the first byte announces. -/
def width (first : UInt8) : Nat :=
  if first < 0x80 then 1
  else if 0xC2 ≤ first && first ≤ 0xDF then 2
  else if 0xE0 ≤ first && first ≤ 0xEF then 3
  else if 0xF0 ≤ first && first ≤ 0xF4 then 4
  else 0

def replacement : Char := Char.ofNat 0xFFFD

/-- The low six bits of a continuation byte. -/
def low (b : UInt8) : Nat := b.toNat % 64

/-- The first character of the bytes, and how many bytes it takes. -/
def next (first : UInt8) (rest : List UInt8) : Char × Nat :=
  match width first, rest with
  | 1, _ => (Char.ofNat first.toNat, 1)
  | 2, b :: _ =>
    if isCont b then (Char.ofNat (first.toNat % 32 * 64 + low b), 2) else (replacement, 1)
  | 3, b :: rest =>
    if secondOk first b then
      match rest with
      | c :: _ =>
        if isCont c then (Char.ofNat (first.toNat % 16 * 4096 + low b * 64 + low c), 3)
        else (replacement, 2)
      | [] => (replacement, 2)
    else (replacement, 1)
  | 4, b :: rest =>
    if secondOk first b then
      match rest with
      | c :: rest =>
        if isCont c then
          match rest with
          | d :: _ =>
            if isCont d then
              (Char.ofNat (first.toNat % 8 * 262144 + low b * 4096 + low c * 64 + low d), 4)
            else (replacement, 3)
          | [] => (replacement, 3)
        else (replacement, 2)
      | [] => (replacement, 2)
    else (replacement, 1)
  | _, _ => (replacement, 1)

/-- Every character takes a byte, so `fuel` bytes need at most `fuel` turns. -/
def lossy : Nat → List UInt8 → List Char
  | 0, _ => []
  | _ + 1, [] => []
  | fuel + 1, first :: rest =>
    let c := next first rest
    c.1 :: lossy fuel ((first :: rest).drop c.2)

/-- `String::from_utf8` accepts the bytes: every character is a complete sequence. -/
def validFrom : Nat → List UInt8 → Bool
  | _, [] => true
  | 0, _ :: _ => false
  | fuel + 1, first :: rest =>
    match width first, rest with
    | 1, rest => validFrom fuel rest
    | 2, b :: rest => isCont b && validFrom fuel rest
    | 3, b :: c :: rest => secondOk first b && isCont c && validFrom fuel rest
    | 4, b :: c :: d :: rest => secondOk first b && isCont c && isCont d && validFrom fuel rest
    | _, _ => false

def valid (bytes : List UInt8) : Bool := validFrom bytes.length bytes

def from_utf8_lossy (bytes : List UInt8) : String := String.ofList (lossy bytes.length bytes)

/-- A NUL behind the bytes is a character of its own. -/
theorem validFrom_append_null {fuel : Nat} {bytes : List UInt8} (h : bytes.length ≤ fuel) :
    validFrom (fuel + 1) (bytes ++ [0]) = validFrom fuel bytes := by
  have hcont : isCont 0 = false := rfl
  fun_induction validFrom fuel bytes with
  | case1 fuel => cases fuel <;> rfl
  | case2 first rest => cases h
  | case3 _ _ _ hw ih | case4 _ _ _ _ hw ih | case5 _ _ _ _ _ hw ih
  | case6 _ _ _ _ _ _ hw ih =>
    simp only [List.length_cons] at h
    simp only [List.cons_append, validFrom, hw, ih (by omega)]
  | case7 fuel first rest h1 h2 h3 h4 =>
    unfold validFrom
    dsimp only [List.cons_append]
    -- the NUL is no continuation, so it does not complete a character
    split
    · exact absurd ‹_› h1
    · rename_i b _ hw heq
      rcases rest with _ | ⟨x, rest⟩
      · cases heq
        rfl
      · exact (h2 x rest hw rfl).elim
    · rename_i b c _ hw heq
      rcases rest with _ | ⟨x, _ | ⟨y, rest⟩⟩
      · cases heq
      · cases heq
        simp [hcont]
      · exact (h3 x y rest hw rfl).elim
    · rename_i b c d _ hw heq
      rcases rest with _ | ⟨x, _ | ⟨y, _ | ⟨z, rest⟩⟩⟩
      · cases heq
      · cases heq
      · cases heq
        simp [hcont]
      · exact (h4 x y z rest hw rfl).elim
    · rfl

theorem valid_append_null (bytes : List UInt8) : valid (bytes ++ [0]) = valid bytes := by
  rw [valid, List.length_append]
  exact validFrom_append_null (Nat.le_refl _)

end Utf8
