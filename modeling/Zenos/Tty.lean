-- The terminal: `tty/mod.rs`. Bytes move a cursor and draw characters. After the last column the
-- cursor rests one past it until the next character, and every control code and escape sequence
-- meets it there.
import Mathlib.Data.List.Induction

namespace zenos_kernel.tty

structure Cursor where
  x : Nat
  y : Nat
  deriving DecidableEq

abbrev Color := UInt8 × UInt8 × UInt8

structure Style where
  bold : Bool := false
  underline : Bool := false
  strikethrough : Bool := false
  ital : Bool := false
  fg_color : Option Color := none
  bg_color : Option Color := none
  deriving DecidableEq

inductive AnsiState
  | Normal
  | Escape
  | Csi
  | CsiParam
  deriving DecidableEq

/-- A call of the display backend. -/
inductive Call
  | draw_char (c : UInt8) (style : Style) (x y : Nat)
  | clear_screen
  | scroll_up (lines : Nat)
  | draw_cursor (x y : Nat) (visible : Bool)
  deriving DecidableEq

structure Display where
  cols : Nat
  rows : Nat
  cols_pos : 0 < cols
  rows_pos : 0 < rows

/-- A character is drawn inside the display. -/
def Call.Inside (d : Display) : Call → Prop
  | .draw_char _ _ x y => x < d.cols ∧ y < d.rows
  | _ => True

structure TTYDevice where
  display : Display
  cursor : Cursor
  cursor_visible : Bool
  style : Style
  ansi_state : AnsiState
  ansi_params : List Nat
  ansi_current_param : Nat
  /-- The calls of the display so far, the last one first. -/
  calls : List Call

def TTYDevice.new (display : Display) : TTYDevice :=
  ⟨display, ⟨0, 0⟩, true, {}, .Normal, [], 0, []⟩

/-! ## Select graphic rendition -/

def color_256 (n : Nat) : Color :=
  match n with
  | 0 => (0, 0, 0)
  | 1 => (128, 0, 0)
  | 2 => (0, 128, 0)
  | 3 => (128, 128, 0)
  | 4 => (0, 0, 128)
  | 5 => (128, 0, 128)
  | 6 => (0, 128, 128)
  | 7 => (192, 192, 192)
  | 8 => (128, 128, 128)
  | 9 => (255, 0, 0)
  | 10 => (0, 255, 0)
  | 11 => (255, 255, 0)
  | 12 => (0, 0, 255)
  | 13 => (255, 0, 255)
  | 14 => (0, 255, 255)
  | 15 => (255, 255, 255)
  | n =>
    if n ≤ 231 then
      let to_val (v : Nat) : UInt8 := if v = 0 then 0 else UInt8.ofNat (55 + v * 40)
      (to_val ((n - 16) / 36 % 6), to_val ((n - 16) / 6 % 6), to_val ((n - 16) % 6))
    else
      let gray := UInt8.ofNat (8 + (n - 232) * 10)
      (gray, gray, gray)

/-- A parameter that stands alone. -/
def Style.select (s : Style) (p : Nat) : Style :=
  match p with
  | 0 => {}
  | 1 => { s with bold := true }
  | 3 => { s with ital := true }
  | 4 => { s with underline := true }
  | 9 => { s with strikethrough := true }
  | 22 => { s with bold := false }
  | 23 => { s with ital := false }
  | 24 => { s with underline := false }
  | 29 => { s with strikethrough := false }
  | 39 => { s with fg_color := none }
  | 49 => { s with bg_color := none }
  | p =>
    if 30 ≤ p ∧ p ≤ 37 then { s with fg_color := some (color_256 (p - 30)) }
    else if 40 ≤ p ∧ p ≤ 47 then { s with bg_color := some (color_256 (p - 40)) }
    else if 90 ≤ p ∧ p ≤ 97 then { s with fg_color := some (color_256 (p - 90 + 8)) }
    else if 100 ≤ p ∧ p ≤ 107 then { s with bg_color := some (color_256 (p - 100 + 8)) }
    else s

/-- The loop of `process_sgr`. -/
def Style.select_all (s : Style) : List Nat → Style
  | [] => s
  | 38 :: 5 :: n :: rest => { s with fg_color := some (color_256 (n % 256)) }.select_all rest
  | 48 :: 5 :: n :: rest => { s with bg_color := some (color_256 (n % 256)) }.select_all rest
  | p :: rest => (s.select p).select_all rest

namespace TTYDevice

variable (t : TTYDevice)

def process_sgr : TTYDevice :=
  let params := if t.ansi_params = [] then [0] else t.ansi_params
  { t with ansi_params := params, style := t.style.select_all params }

/-! ## The cursor and the display -/

def call (c : Call) : TTYDevice := { t with calls := c :: t.calls }

def show_cursor : TTYDevice :=
  if t.cursor_visible then t.call (.draw_cursor t.cursor.x t.cursor.y true) else t

def hide_cursor : TTYDevice := t.call (.draw_cursor t.cursor.x t.cursor.y false)

/-- The start of the next line; at the last one, the screen scrolls. -/
def next_line : TTYDevice :=
  if t.cursor.y + 1 ≥ t.display.rows then
    { t.call (.scroll_up 1) with cursor := ⟨0, t.display.rows - 1⟩ }
  else { t with cursor := ⟨0, t.cursor.y + 1⟩ }

def newline : TTYDevice := t.hide_cursor.next_line.show_cursor

/-- A parameter, or what stands for it when it is missing. -/
def param (i default : Nat) : Nat := t.ansi_params.getD i default

def process_cursor_position : TTYDevice :=
  let row := max (t.param 0 1) 1 - 1
  let col := max (t.param 1 1) 1 - 1
  { t with cursor := ⟨min col (t.display.cols - 1), min row (t.display.rows - 1)⟩ }

def process_erase_display : TTYDevice :=
  if t.param 0 0 = 2 ∨ t.param 0 0 = 3 then { t.call .clear_screen with cursor := ⟨0, 0⟩ } else t

/-- Spaces in the columns `xs` of the cursor's line. -/
def draw_blanks (xs : List Nat) : TTYDevice :=
  xs.foldl (fun t x => t.call (.draw_char 32 {} x t.cursor.y)) t

def process_erase_line : TTYDevice :=
  match t.param 0 0 with
  | 0 => t.draw_blanks (List.range' t.cursor.x (t.display.cols - t.cursor.x))
  | 1 => t.draw_blanks (List.range (t.cursor.x + 1))
  | 2 => t.draw_blanks (List.range t.display.cols)
  | _ => t

def cursor_up : TTYDevice :=
  { t with cursor.y := t.cursor.y - max (t.param 0 1) 1 }

def cursor_down : TTYDevice :=
  { t with cursor.y := min (t.cursor.y + max (t.param 0 1) 1) (t.display.rows - 1) }

def cursor_forward : TTYDevice :=
  { t with cursor.x := min (t.cursor.x + max (t.param 0 1) 1) (t.display.cols - 1) }

def cursor_back : TTYDevice :=
  { t with cursor.x := t.cursor.x - max (t.param 0 1) 1 }

/-! ## Bytes -/

def reset_ansi_state : TTYDevice :=
  { t with ansi_state := .Normal, ansi_params := [], ansi_current_param := 0 }

/-- The last parameter, which no `;` ends. -/
def push_last : TTYDevice :=
  if t.ansi_current_param > 0 ∨ t.ansi_params ≠ [] then
    { t with ansi_params := t.ansi_params ++ [t.ansi_current_param] }
  else t

def run_command (cmd : Char) : TTYDevice :=
  match cmd with
  | 'm' => t.process_sgr
  | 'H' | 'f' => t.process_cursor_position
  | 'J' => t.process_erase_display
  | 'K' => t.process_erase_line
  | 'A' => t.cursor_up
  | 'B' => t.cursor_down
  | 'C' => t.cursor_forward
  | 'D' => t.cursor_back
  | _ => t

def process_csi_command (cmd : UInt8) : TTYDevice :=
  (t.push_last.run_command (Char.ofUInt8 cmd)).reset_ansi_state

variable (c : UInt8)

/-- A character on the screen. -/
def put : TTYDevice :=
  let t := if t.cursor.x ≥ t.display.cols then t.next_line else t
  { t.call (.draw_char c t.style t.cursor.x t.cursor.y) with cursor.x := t.cursor.x + 1 }

def backspace : TTYDevice :=
  if t.cursor.x > 0 then
    { t.call (.draw_char 32 t.style (t.cursor.x - 1) t.cursor.y) with cursor.x := t.cursor.x - 1 }
  else t

def tab : TTYDevice :=
  { t with cursor.x := min ((t.cursor.x / 8 + 1) * 8) (t.display.cols - 1) }

def write_visible_char : TTYDevice :=
  let t := t.hide_cursor
  show_cursor <|
    if c = 10 then t.newline
    else if c = 13 then { t with cursor.x := 0 }
    else if c = 8 then t.backspace
    else if c = 0 then t
    else if c = 9 then t.tab
    else t.put c

/-- A byte of an escape sequence. -/
def write_csi : TTYDevice :=
  if 48 ≤ c ∧ c ≤ 57 then
    { t with
      ansi_state := .CsiParam
      ansi_current_param := min (min (t.ansi_current_param * 10) 65535 + (c.toNat - 48)) 65535 }
  else if c = 0x3B then
    { t with ansi_params := t.ansi_params ++ [t.ansi_current_param], ansi_current_param := 0 }
  else if 0x40 ≤ c ∧ c ≤ 0x7E then t.process_csi_command c
  else t.reset_ansi_state

def write_char_internal : TTYDevice :=
  match t.ansi_state with
  | .Normal => if c = 0x1B then { t with ansi_state := .Escape } else t.write_visible_char c
  | .Escape =>
    if c = 0x5B then { t with ansi_state := .Csi, ansi_params := [], ansi_current_param := 0 }
    else t.reset_ansi_state.write_visible_char c
  | .Csi | .CsiParam => t.write_csi c

/-- `tty_write`: one byte after the other. -/
def tty_write (buf : List UInt8) : TTYDevice := buf.foldl write_char_internal t

/-! ## On the screen -/

structure OnScreen (t : TTYDevice) : Prop where
  x_le : t.cursor.x ≤ t.display.cols
  y_lt : t.cursor.y < t.display.rows
  drawn : ∀ c ∈ t.calls, c.Inside t.display

/-- Byte `c` ends an erase from the start of the line to the cursor, and the cursor is past the
last column. -/
def Overruns : Prop :=
  (t.ansi_state = .Csi ∨ t.ansi_state = .CsiParam) ∧ Char.ofUInt8 c = 'K' ∧
    t.push_last.param 0 0 = 1 ∧ t.cursor.x = t.display.cols

variable {t : TTYDevice}

section

variable (h : t.OnScreen)

include h

theorem OnScreen.call {c : Call} (hc : c.Inside t.display) : (t.call c).OnScreen where
  x_le := h.x_le
  y_lt := h.y_lt
  drawn := List.forall_mem_cons.mpr ⟨hc, h.drawn⟩

theorem OnScreen.move {x y : Nat} (hx : x ≤ t.display.cols)
    (hy : y < t.display.rows) : OnScreen { t with cursor := ⟨x, y⟩ } := ⟨hx, hy, h.drawn⟩

theorem OnScreen.hide_cursor : t.hide_cursor.OnScreen := h.call trivial

theorem OnScreen.show_cursor : t.show_cursor.OnScreen := by
  unfold TTYDevice.show_cursor
  split
  · exact h.call trivial
  · exact h

theorem OnScreen.next_line : t.next_line.OnScreen := by
  have hrows := t.display.rows_pos
  unfold TTYDevice.next_line
  split
  · exact (h.call (c := .scroll_up 1) trivial).move (Nat.zero_le _) (Nat.sub_lt hrows Nat.one_pos)
  · exact h.move (Nat.zero_le _) (by omega)

omit h in
@[simp] theorem next_line_x : t.next_line.cursor.x = 0 := by
  unfold TTYDevice.next_line
  split <;> rfl

omit h in
@[simp] theorem next_line_display : t.next_line.display = t.display := by
  unfold TTYDevice.next_line
  split <;> rfl

theorem OnScreen.put (c : UInt8) : (t.put c).OnScreen := by
  have hcols := t.display.cols_pos
  -- after a pending wrap the cursor stands on a column
  have hwrap : ∀ t' : TTYDevice, t'.OnScreen → t'.cursor.x < t'.display.cols →
      OnScreen { t'.call (.draw_char c t'.style t'.cursor.x t'.cursor.y) with
        cursor.x := t'.cursor.x + 1 } :=
    fun t' h' hx => (h'.call (c := .draw_char c _ _ _) ⟨hx, h'.y_lt⟩).move hx h'.y_lt
  unfold TTYDevice.put
  split
  · exact hwrap _ h.next_line (by simpa using hcols)
  · exact hwrap _ h (by omega)

theorem OnScreen.backspace : t.backspace.OnScreen := by
  have hx := h.x_le
  unfold TTYDevice.backspace
  split
  · have hcall := h.call (c := .draw_char 32 t.style (t.cursor.x - 1) t.cursor.y)
      ⟨by omega, h.y_lt⟩
    exact hcall.move (Nat.le_trans (Nat.sub_le _ _) hx) h.y_lt
  · exact h

theorem OnScreen.write_visible_char (c : UInt8) : (t.write_visible_char c).OnScreen := by
  have hh := h.hide_cursor
  apply OnScreen.show_cursor
  split_ifs
  · exact hh.hide_cursor.next_line.show_cursor
  · exact hh.move (Nat.zero_le _) hh.y_lt
  · exact hh.backspace
  · exact hh
  · exact hh.move (Nat.le_trans (Nat.min_le_right _ _) (Nat.sub_le _ _)) hh.y_lt
  · exact hh.put c

omit h in
theorem draw_blanks_eq (t : TTYDevice) (xs : List Nat) : t.draw_blanks xs =
    { t with calls := (xs.map (Call.draw_char 32 {} · t.cursor.y)).reverse ++ t.calls } := by
  induction xs generalizing t with
  | nil => rfl
  | cons x xs ih =>
    unfold draw_blanks at ih ⊢
    rw [List.foldl_cons, ih]
    simp [TTYDevice.call]

theorem draw_blanks_iff (xs : List Nat) :
    (t.draw_blanks xs).OnScreen ↔ ∀ x ∈ xs, x < t.display.cols := by
  rw [draw_blanks_eq]
  constructor
  · intro hd x hx
    exact (hd.drawn (.draw_char 32 {} x t.cursor.y) (by simp [hx])).1
  · intro hxs
    refine ⟨h.x_le, h.y_lt, fun c hc => ?_⟩
    rcases List.mem_append.mp hc with hnew | hold
    · obtain ⟨x, hx, rfl⟩ := List.mem_map.mp (List.mem_reverse.mp hnew)
      exact ⟨hxs x hx, h.y_lt⟩
    · exact h.drawn c hold

/-- Only the erase up to the cursor reaches the column of the cursor. -/
theorem process_erase_line_iff :
    t.process_erase_line.OnScreen ↔ ¬ (t.param 0 0 = 1 ∧ t.cursor.x = t.display.cols) := by
  have hx := h.x_le
  unfold process_erase_line
  split
  · rename_i hmode
    simp [draw_blanks_iff h, hmode]
    omega
  · rename_i hmode
    simp only [draw_blanks_iff h, hmode, List.mem_range, true_and]
    exact ⟨fun hall => Nat.ne_of_lt (hall _ (Nat.lt_succ_self _)), fun hne x hlt => by omega⟩
  · rename_i hmode
    simp [draw_blanks_iff h, hmode]
  · rename_i hmode _
    exact ⟨fun _ hm => hmode hm.1, fun _ => h⟩

theorem run_command_iff (cmd : Char) : (t.run_command cmd).OnScreen ↔
    ¬ (cmd = 'K' ∧ t.param 0 0 = 1 ∧ t.cursor.x = t.display.cols) := by
  have hx := h.x_le
  have hy := h.y_lt
  unfold run_command
  split
  case h_5 => simpa using process_erase_line_iff h
  case h_10 => exact iff_of_true h (by simp_all)
  all_goals simp
  · exact ⟨hx, hy, h.drawn⟩
  · exact h.move (by omega) (by omega)
  · exact h.move (by omega) (by omega)
  · unfold process_erase_display
    split
    · exact (h.call (c := .clear_screen) trivial).move (Nat.zero_le _) t.display.rows_pos
    · exact h
  · exact h.move hx (by omega)
  · exact h.move hx (by omega)
  · exact h.move (by omega) hy
  · exact h.move (by omega) hy

omit h in
theorem byte_K {c : UInt8} (h : Char.ofUInt8 c = 'K') : c = 75 := by
  have hn := congrArg Char.toNat h
  exact UInt8.toNat.inj hn

theorem OnScreen.push_last : t.push_last.OnScreen := by
  unfold TTYDevice.push_last
  split
  · exact ⟨h.x_le, h.y_lt, h.drawn⟩
  · exact h

omit h in
@[simp] theorem push_last_cursor : t.push_last.cursor = t.cursor := by
  unfold push_last
  split <;> rfl

omit h in
@[simp] theorem push_last_display : t.push_last.display = t.display := by
  unfold push_last
  split <;> rfl

/-- The state of the escape sequence does not matter. -/
theorem OnScreen.parsed (s : AnsiState) (ps : List Nat) (p : Nat) : OnScreen
    { t with ansi_state := s, ansi_params := ps, ansi_current_param := p } :=
  ⟨h.x_le, h.y_lt, h.drawn⟩

theorem process_csi_command_iff (c : UInt8) : (t.process_csi_command c).OnScreen ↔
    ¬ (Char.ofUInt8 c = 'K' ∧ t.push_last.param 0 0 = 1 ∧ t.cursor.x = t.display.cols) := by
  have hrun := run_command_iff h.push_last (Char.ofUInt8 c)
  rw [push_last_cursor, push_last_display] at hrun
  rw [← hrun]
  exact ⟨fun hr => ⟨hr.x_le, hr.y_lt, hr.drawn⟩, fun hr => hr.parsed ..⟩

theorem write_csi_iff (c : UInt8) : (t.write_csi c).OnScreen ↔
    ¬ (Char.ofUInt8 c = 'K' ∧ t.push_last.param 0 0 = 1 ∧ t.cursor.x = t.display.cols) := by
  unfold write_csi
  split_ifs with hdigit hsemi hcmd
  · refine iff_of_true (h.parsed ..) fun ho => ?_
    rw [byte_K ho.1] at hdigit
    exact absurd hdigit (by decide)
  · refine iff_of_true (h.parsed ..) fun ho => ?_
    rw [byte_K ho.1] at hsemi
    exact absurd hsemi (by decide)
  · exact process_csi_command_iff h c
  · refine iff_of_true (h.parsed ..) fun ho => ?_
    rw [byte_K ho.1] at hcmd
    exact absurd hcmd (by decide)

theorem write_char_internal_iff (c : UInt8) :
    (t.write_char_internal c).OnScreen ↔ ¬ t.Overruns c := by
  unfold write_char_internal Overruns
  split
  · rename_i hs
    refine iff_of_true ?_ (by simp [hs])
    split
    · exact h.parsed ..
    · exact h.write_visible_char c
  · rename_i hs
    refine iff_of_true ?_ (by simp [hs])
    split
    · exact h.parsed ..
    · exact (h.parsed ..).write_visible_char c
  · rename_i hs
    simpa [hs] using write_csi_iff h c
  · rename_i hs
    simpa [hs] using write_csi_iff h c

end

/-- The terminal draws inside the display and keeps its cursor there, at every prefix of the bytes
written, exactly when no prefix ends with an erase up to a cursor past the last column. -/
theorem stays_on_screen_iff (d : Display) (buf : List UInt8) :
    (∀ pre, pre <+: buf → ((new d).tty_write pre).OnScreen) ↔
      ∀ pre c, pre ++ [c] <+: buf → ¬ ((new d).tty_write pre).Overruns c := by
  have hstep : ∀ pre c, (new d).tty_write (pre ++ [c]) =
      ((new d).tty_write pre).write_char_internal c := by
    intro pre c
    simp [tty_write]
  constructor
  · intro hall pre c hpre
    have hnow := hall pre ((List.prefix_append pre [c]).trans hpre)
    have hnext := hall _ hpre
    rw [hstep] at hnext
    exact (write_char_internal_iff hnow c).mp hnext
  · intro hall pre
    induction pre using List.reverseRecOn with
    | nil => exact fun _ => ⟨Nat.zero_le _, d.rows_pos, by simp [tty_write, new]⟩
    | append_singleton pre c ih =>
      intro hpre
      have hnow := ih ((List.prefix_append pre [c]).trans hpre)
      rw [hstep]
      exact (write_char_internal_iff hnow c).mpr (hall pre c hpre)

/-- A display of one column: a character fills its line. -/
def narrow : Display := ⟨1, 1, Nat.one_pos, Nat.one_pos⟩

/-- `a`, then an erase from the start of the line: a space is drawn in column 1. -/
theorem erase_draws_past_the_line :
    Call.draw_char 32 {} 1 0 ∈ ((new narrow).tty_write [97, 27, 91, 49, 75]).calls ∧
      ¬ (Call.draw_char 32 {} 1 0).Inside narrow := by
  refine ⟨by decide, ?_⟩
  simp [Call.Inside, narrow]

/-! ## Escape sequences -/

/-- Digits, as they are written. -/
def text (digits : List (Fin 10)) : List UInt8 := digits.map fun d => UInt8.ofNat (48 + d.val)

/-- The number that digits write, at most 65535. -/
def value (digits : List (Fin 10)) : Nat := min (digits.foldl (fun n d => n * 10 + d.val) 0) 65535

/-- `ESC [` and the parameters, with `;` between them. -/
def csi (params : List (List (Fin 10))) : List UInt8 :=
  0x1B :: 0x5B :: [0x3B].intercalate (params.map text)

/-- The parameters of a command: a single 0 counts as none. -/
def listed (params : List (List (Fin 10))) : List Nat :=
  if params.map value = [0] then [] else params.map value

/-- `u` is `t` inside a sequence: the parameters `ps` are read, and `p` is being read. -/
structure Reading (t u : TTYDevice) (ps : List Nat) (p : Nat) : Prop where
  state : u.ansi_state = .Csi ∨ u.ansi_state = .CsiParam
  eq : u = { t with ansi_state := u.ansi_state, ansi_params := ps, ansi_current_param := p }

variable {u : TTYDevice} {ps : List Nat} {p : Nat}

theorem Reading.write (h : Reading t u ps p) (c : UInt8) :
    u.write_char_internal c = u.write_csi c := by
  unfold write_char_internal
  rcases h.state with hs | hs <;> rw [hs]

theorem Reading.digit (h : Reading t u ps (min p 65535)) (d : Fin 10) :
    Reading t (u.write_char_internal (UInt8.ofNat (48 + d.val))) ps
      (min (p * 10 + d.val) 65535) := by
  have hd : 48 ≤ UInt8.ofNat (48 + d.val) ∧ UInt8.ofNat (48 + d.val) ≤ 57 ∧
      (UInt8.ofNat (48 + d.val)).toNat = 48 + d.val := by
    revert d
    decide
  have hnext : min (min (min p 65535 * 10) 65535 + (48 + d.val - 48)) 65535 =
      min (p * 10 + d.val) 65535 := by omega
  rw [h.write, write_csi, if_pos ⟨hd.1, hd.2.1⟩, hd.2.2, h.eq, hnext]
  exact ⟨Or.inr rfl, rfl⟩

theorem Reading.digits (h : Reading t u ps (min p 65535)) (ds : List (Fin 10)) :
    Reading t (u.tty_write (text ds)) ps
      (min (ds.foldl (fun n d => n * 10 + d.val) p) 65535) := by
  induction ds generalizing u p with
  | nil => exact h
  | cons d ds ih => exact ih (h.digit d)

theorem Reading.semicolon (h : Reading t u ps p) :
    Reading t (u.write_char_internal 0x3B) (ps ++ [p]) 0 := by
  rw [h.write, write_csi, if_neg (by decide), if_pos rfl, h.eq]
  exact ⟨h.state, rfl⟩

theorem Reading.params (h : Reading t u ps 0) (ds : List (Fin 10)) (rest : List (List (Fin 10))) :
    ∃ qs q, Reading t (u.tty_write ([0x3B].intercalate ((ds :: rest).map text))) qs q ∧
      qs ++ [q] = ps ++ (ds :: rest).map value := by
  induction rest generalizing u ps ds with
  | nil => exact ⟨ps, value ds, by simpa [value] using h.digits (p := 0) ds, rfl⟩
  | cons ds' rest ih =>
    obtain ⟨qs, q, hr, heq⟩ := ih (h.digits (p := 0) ds).semicolon ds'
    refine ⟨qs, q, ?_, ?_⟩
    · simpa [List.intercalate_cons_cons, tty_write] using hr
    · rw [heq, List.append_assoc]
      rfl

/-- A command reads the parameters, and not the state of the parser. -/
theorem reset_run_command (t : TTYDevice) (cmd : Char) (s : AnsiState) (p : Nat) :
    ({ t with ansi_state := s, ansi_current_param := p }.run_command cmd).reset_ansi_state =
      (t.run_command cmd).reset_ansi_state := by
  unfold run_command
  split
  case h_4 =>
    unfold process_erase_display param
    dsimp only
    split <;> rfl
  case h_5 =>
    unfold process_erase_line param
    dsimp only
    split <;> simp [draw_blanks_eq, reset_ansi_state]
  all_goals rfl

theorem Reading.command (h : Reading t u ps p) {c : UInt8} (hc : 0x40 ≤ c ∧ c ≤ 0x7E) :
    u.write_char_internal c = ({ t with ansi_params := if ps ++ [p] = [0] then [] else ps ++ [p] }
      |>.run_command (Char.ofUInt8 c)).reset_ansi_state := by
  have hdigit : ¬ (48 ≤ c ∧ c ≤ 57) := fun hd =>
    absurd (UInt8.le_trans hc.1 hd.2) (by decide)
  have hsemi : c ≠ 0x3B := fun hs => absurd (hs ▸ hc.1) (by decide)
  rw [h.write, write_csi, if_neg hdigit, if_neg hsemi, if_pos hc, process_csi_command, h.eq]
  unfold push_last
  split_ifs with hpush hzero hzero
  · cases ps with
    | nil => simp_all
    | cons a ps => simp at hzero
  · exact reset_run_command { t with ansi_params := ps ++ [p] } _ _ _
  · obtain ⟨-, rfl⟩ : p = 0 ∧ ps = [] := by simpa using hpush
    exact reset_run_command { t with ansi_params := [] } _ _ _
  · simp_all

/-- A sequence is parsed exactly: nothing is drawn before the last byte, its command runs once
with the parameters, and none of them is left for the next sequence. -/
theorem csi_is_parsed (ht : t.ansi_state = .Normal) (ds : List (Fin 10))
    (rest : List (List (Fin 10))) {c : UInt8} (hc : 0x40 ≤ c ∧ c ≤ 0x7E) :
    (t.tty_write (csi (ds :: rest))).calls = t.calls ∧
      t.tty_write (csi (ds :: rest) ++ [c]) =
        { { t with ansi_params := listed (ds :: rest) }.run_command (Char.ofUInt8 c) with
          ansi_state := .Normal
          ansi_params := []
          ansi_current_param := 0 } := by
  have hstart : Reading t ((t.write_char_internal 0x1B).write_char_internal 0x5B) [] 0 := by
    simp only [write_char_internal, ht, if_true]
    exact ⟨Or.inl rfl, rfl⟩
  obtain ⟨qs, q, hr, heq⟩ := hstart.params ds rest
  have hcalls := congrArg calls hr.eq
  refine ⟨hcalls, ?_⟩
  change _ = reset_ansi_state _
  rw [listed, ← List.nil_append ((ds :: rest).map value), ← heq, ← hr.command hc]
  simp [tty_write, csi]

/-- `ESC [ 2 J` clears the screen once. -/
theorem erase_clears_once :
    ((new narrow).tty_write (csi [[2]] ++ [74])).calls = [.clear_screen] := by
  rw [(csi_is_parsed rfl [2] [] (by decide)).2]
  decide

end TTYDevice

end zenos_kernel.tty
