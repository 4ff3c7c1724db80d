import AvocadOS.String
import Mathlib.Data.List.Flatten

/-!
# The terminal (`termio.c`)

The screen is 25 rows of 80 cells of video memory. `Screen` says what should be on it: a character
goes to the cursor, and a newline starts the next row. `terminal_make_char` takes a signed `char`,
so a byte with its top bit set also sets all bits of the colour.

* `Shown`: what the code leaves on the screen, for any bytes;
* `TerminalCall.run_shown`, `runs_shown`: it is kept by every call, and along a run;
* `terminal_correct_iff`: the screen is the layout if and only if no such byte stands on it.
-/

namespace AvocadOS

/-! ## The source -/

abbrev Cell := BitVec 16

def VGA_WIDTH : Nat := 80
def VGA_HEIGHT : Nat := 25

inductive VgaColour
  | black | blue | green | cyan | red | magenta | brown | lightGray
  | darkGray | lightBlue | lightGreen | lightCyan | lightRed | lightMagenta | yellow | white
  deriving DecidableEq, Repr

/-- The value of the enumerator. -/
def VgaColour.value (colour : VgaColour) : Word := BitVec.ofNat 32 colour.ctorIdx

/-- `videoMemory` is what the pointer points to, and `written` the indices written to it so far. -/
structure Terminal where
  videoMemory : Nat → Cell
  row : Nat
  column : Nat
  written : List Nat

/-- `c` is a signed `char`. -/
def terminalMakeChar (c : Byte) (colour : VgaColour) : Cell :=
  (colour.value <<< 8 ||| c.signExtend 32).setWidth 16

def terminalPrintCharXY (t : Terminal) (character : Cell) (x y : Nat) : Terminal :=
  let i := (y * VGA_WIDTH + x) % (VGA_HEIGHT * VGA_WIDTH)
  { t with videoMemory := Function.update t.videoMemory i character, written := i :: t.written }

def terminalInit (videoMemory : Nat → Cell) : Terminal :=
  let fillerChar := terminalMakeChar 0x20 .black
  (List.range VGA_HEIGHT).foldl (fun t y =>
    (List.range VGA_WIDTH).foldl (fun t x => terminalPrintCharXY t fillerChar x y) t)
    ⟨videoMemory, 0, 0, []⟩

/-- The row and the column are `uint16_t`. -/
def terminalPutChar (t : Terminal) (character : Byte) (colour : VgaColour) : Terminal :=
  if character = 0x0A then { t with row := (t.row + 1) % VGA_HEIGHT, column := 0 }
  else
    let t := { terminalPrintCharXY t (terminalMakeChar character colour) t.column t.row with
      column := (t.column + 1) % 2 ^ 16 }
    if t.column = VGA_WIDTH then { t with column := 0, row := (t.row + 1) % VGA_HEIGHT } else t

def terminalPutStr (t : Terminal) : List Byte → VgaColour → Terminal
  | [], _ => t
  | c :: str, colour => if c = 0 then t else terminalPutStr (terminalPutChar t c colour) str colour

def print (t : Terminal) (str : List Byte) : Terminal := terminalPutStr t str .white

def printChar (t : Terminal) (chr : Byte) : Terminal := terminalPutChar t chr .white

inductive TerminalCall
  | putChar (character : Byte) (colour : VgaColour)
  | putStr (str : List Byte) (colour : VgaColour)
  | print (str : List Byte)
  | printChar (chr : Byte)

def TerminalCall.run (t : Terminal) : TerminalCall → Terminal
  | putChar character colour => terminalPutChar t character colour
  | putStr str colour => terminalPutStr t str colour
  | print str => AvocadOS.print t str
  | printChar chr => AvocadOS.printChar t chr

/-! ## What should be on the screen -/

/-- The cursor, and the byte and the colour of every cell. -/
structure Screen where
  row : Fin 25
  column : Fin 80
  cells : Fin 25 → Fin 80 → Byte × VgaColour

namespace Screen

def clear : Screen := ⟨0, 0, fun _ _ => (0x20, .black)⟩

/-- The row behind the last one is the first. -/
def put (s : Screen) (c : Byte × VgaColour) : Screen :=
  if c.1 = 0x0A then { s with row := s.row + 1, column := 0 }
  else
    { row := if s.column = 79 then s.row + 1 else s.row
      column := s.column + 1
      cells := fun r k => if r = s.row ∧ k = s.column then c else s.cells r k }

/-- No byte on the screen has its top bit set. -/
def Plain (s : Screen) : Prop := ∀ r k, (s.cells r k).1.msb = false

end Screen

/-- The characters that a call puts. -/
def TerminalCall.chars : TerminalCall → List (Byte × VgaColour)
  | putChar character colour => [(character, colour)]
  | putStr str colour => (cString str).map (·, colour)
  | print str => (cString str).map (·, .white)
  | printChar chr => [(chr, .white)]

/-- The layout after a sequence of calls. -/
def screenOf (calls : List TerminalCall) : Screen :=
  (calls.flatMap TerminalCall.chars).foldl Screen.put .clear

/-- The byte in the low half, and the colour in the high half. -/
def cellValue (c : Byte × VgaColour) : Cell := c.2.value.setWidth 8 ++ c.1

/-- The terminal is within its screen and shows the layout. -/
structure Terminal.Correct (t : Terminal) (s : Screen) : Prop where
  cursor : t.row < VGA_HEIGHT ∧ t.column < VGA_WIDTH
  inside : ∀ i ∈ t.written, i < VGA_HEIGHT * VGA_WIDTH
  row : t.row = s.row
  column : t.column = s.column
  cells : ∀ (r : Fin 25) (k : Fin 80), t.videoMemory (r * VGA_WIDTH + k) = cellValue (s.cells r k)

/-! ## What is on it -/

/-- The layout, with every cell as `terminal_make_char` makes it. -/
structure Shown (t : Terminal) (s : Screen) : Prop where
  inside : ∀ i ∈ t.written, i < VGA_HEIGHT * VGA_WIDTH
  row : t.row = s.row
  column : t.column = s.column
  cells : ∀ (r : Fin 25) (k : Fin 80), t.videoMemory (r * VGA_WIDTH + k) =
    terminalMakeChar (s.cells r k).1 (s.cells r k).2

theorem inside_cons {i : Nat} {l : List Nat} (h : ∀ j ∈ l, j < VGA_HEIGHT * VGA_WIDTH) :
    ∀ j ∈ i % (VGA_HEIGHT * VGA_WIDTH) :: l, j < VGA_HEIGHT * VGA_WIDTH := by
  intro j hj
  rcases List.mem_cons.mp hj with rfl | hj
  · exact Nat.mod_lt _ (by decide)
  · exact h j hj

/-- `terminal_init` has filled the first `n` cells. -/
structure Blank (t : Terminal) (n : Nat) : Prop where
  inside : ∀ i ∈ t.written, i < VGA_HEIGHT * VGA_WIDTH
  row : t.row = 0
  column : t.column = 0
  cells : ∀ i < n, t.videoMemory i = terminalMakeChar 0x20 .black

theorem Blank.fill {t : Terminal} {x y : Nat} (h : Blank t (y * VGA_WIDTH + x)) (hx : x < VGA_WIDTH)
    (hy : y < VGA_HEIGHT) :
    Blank (terminalPrintCharXY t (terminalMakeChar 0x20 .black) x y) (y * VGA_WIDTH + (x + 1)) := by
  have hlt : y * VGA_WIDTH + x < VGA_HEIGHT * VGA_WIDTH := by
    unfold VGA_WIDTH VGA_HEIGHT at *
    omega
  refine ⟨inside_cons h.inside, h.row, h.column, fun i hi => ?_⟩
  rw [terminalPrintCharXY, Nat.mod_eq_of_lt hlt]
  by_cases hlast : i = y * VGA_WIDTH + x
  · rw [hlast]
    exact Function.update_self ..
  · exact (Function.update_of_ne hlast ..).trans (h.cells i (by omega))

theorem Blank.fillRow {t : Terminal} {y : Nat} (h : Blank t (y * VGA_WIDTH)) (hy : y < VGA_HEIGHT)
    {k : Nat} (hk : k ≤ VGA_WIDTH) :
    Blank ((List.range k).foldl
      (fun t x => terminalPrintCharXY t (terminalMakeChar 0x20 .black) x y) t)
      (y * VGA_WIDTH + k) := by
  induction k with
  | zero => exact h
  | succ k ih =>
    rw [List.range_succ, List.foldl_append, List.foldl_cons, List.foldl_nil]
    exact (ih (by omega)).fill hk hy

theorem terminalInit_blank (videoMemory : Nat → Cell) :
    Blank (terminalInit videoMemory) (VGA_HEIGHT * VGA_WIDTH) := by
  have hrows : ∀ n ≤ VGA_HEIGHT, Blank ((List.range n).foldl (fun t y =>
      (List.range VGA_WIDTH).foldl
        (fun t x => terminalPrintCharXY t (terminalMakeChar 0x20 .black) x y) t)
      ⟨videoMemory, 0, 0, []⟩) (n * VGA_WIDTH) := by
    intro n hn
    induction n with
    | zero => exact ⟨by simp, rfl, rfl, fun i hi => absurd hi (by omega)⟩
    | succ n ih =>
      rw [List.range_succ, List.foldl_append, List.foldl_cons, List.foldl_nil, Nat.succ_mul]
      exact (ih (by omega)).fillRow (by omega) (Nat.le_refl _)
  exact hrows VGA_HEIGHT (Nat.le_refl _)

theorem terminalInit_shown (videoMemory : Nat → Cell) :
    Shown (terminalInit videoMemory) .clear := by
  have hblank := terminalInit_blank videoMemory
  refine ⟨hblank.inside, hblank.row, hblank.column, fun r k => hblank.cells _ ?_⟩
  unfold VGA_WIDTH VGA_HEIGHT
  omega

section

variable {t : Terminal} {s : Screen}

/-- The cell that a character goes to. -/
theorem Shown.printed (h : Shown t s) (c : Byte × VgaColour) (r : Fin 25) (k : Fin 80) :
    (terminalPrintCharXY t (terminalMakeChar c.1 c.2) t.column t.row).videoMemory
        (r * VGA_WIDTH + k) =
      terminalMakeChar (if r = s.row ∧ k = s.column then c else s.cells r k).1
        (if r = s.row ∧ k = s.column then c else s.cells r k).2 := by
  have hlt : t.row * VGA_WIDTH + t.column < VGA_HEIGHT * VGA_WIDTH := by
    rw [h.row, h.column]
    unfold VGA_WIDTH VGA_HEIGHT
    omega
  rw [terminalPrintCharXY, Nat.mod_eq_of_lt hlt, h.row, h.column]
  split
  · rename_i hat
    rw [hat.1, hat.2]
    exact Function.update_self ..
  · rename_i hat
    refine (Function.update_of_ne ?_ ..).trans (h.cells r k)
    intro heq
    refine hat ⟨Fin.ext ?_, Fin.ext ?_⟩
    all_goals
      unfold VGA_WIDTH at heq
      omega

/-- One character, whatever its byte. -/
theorem Shown.put (h : Shown t s) (c : Byte × VgaColour) :
    Shown (terminalPutChar t c.1 c.2) (s.put c) := by
  have hrow := h.row
  have hcolumn := h.column
  rw [terminalPutChar, Screen.put]
  by_cases hnl : c.1 = 0x0A
  · rw [if_pos hnl, if_pos hnl]
    refine ⟨h.inside, ?_, rfl, h.cells⟩
    rw [hrow]
    rfl
  · rw [if_neg hnl, if_neg hnl]
    have hinside : ∀ i ∈ (terminalPrintCharXY t (terminalMakeChar c.1 c.2) t.column t.row).written,
        i < VGA_HEIGHT * VGA_WIDTH := inside_cons h.inside
    have hcells := h.printed c
    have hwide : (t.column + 1) % 2 ^ 16 = s.column + 1 := by omega
    simp only [hwide]
    -- the last column of a row, or another one
    by_cases hlast : s.column = 79
    · rw [if_pos (by rw [hlast]; rfl), if_pos hlast]
      refine ⟨hinside, ?_, ?_, hcells⟩
      · exact congrArg (fun n => (n + 1) % VGA_HEIGHT) hrow
      · rw [hlast]
        rfl
    · have hne : s.column.val ≠ 79 := fun h => hlast (Fin.ext h)
      rw [if_neg (by unfold VGA_WIDTH; omega), if_neg hlast]
      refine ⟨hinside, hrow, ?_, hcells⟩
      rw [Fin.val_add]
      show s.column.val + 1 = (s.column.val + 1) % 80
      omega

theorem Shown.putStr (h : Shown t s) (str : List Byte) (colour : VgaColour) :
    Shown (terminalPutStr t str colour) (((cString str).map (·, colour)).foldl Screen.put s) := by
  induction str generalizing t s with
  | nil => exact h
  | cons c str ih =>
    rw [terminalPutStr, cString]
    by_cases hc : c = 0
    · rw [if_pos hc, List.takeWhile_cons_of_neg (by simpa using hc)]
      exact h
    · rw [if_neg hc, List.takeWhile_cons_of_pos (by simpa using hc)]
      exact ih (h.put (c, colour))

theorem TerminalCall.run_shown (h : Shown t s) (call : TerminalCall) :
    Shown (call.run t) (call.chars.foldl Screen.put s) := by
  cases call with
  | putChar character colour => exact h.put (character, colour)
  | putStr str colour => exact h.putStr str colour
  | print str => exact h.putStr str .white
  | printChar chr => exact h.put (chr, .white)

end

/-- What every run leaves on the screen. -/
theorem runs_shown (videoMemory : Nat → Cell) (calls : List TerminalCall) :
    Shown (calls.foldl TerminalCall.run (terminalInit videoMemory)) (screenOf calls) := by
  have hall : ∀ t s, Shown t s → Shown (calls.foldl TerminalCall.run t)
      ((calls.flatMap TerminalCall.chars).foldl Screen.put s) := by
    induction calls with
    | nil => exact fun t s h => h
    | cons call calls ih =>
      intro t s h
      rw [List.foldl_cons, List.flatMap_cons, List.foldl_append]
      exact ih _ _ (call.run_shown h)
  exact hall _ _ (terminalInit_shown videoMemory)

/-! ## The sign of a character -/

theorem VgaColour.value_getLsbD (colour : VgaColour) : colour.value.getLsbD 7 = false := by
  cases colour <;> rfl

/-- The colour is lost if and only if the byte has its top bit set. -/
theorem terminalMakeChar_eq_iff (c : Byte × VgaColour) :
    terminalMakeChar c.1 c.2 = cellValue c ↔ c.1.msb = false := by
  obtain ⟨c, colour⟩ := c
  have hlow : ∀ i < 8, (terminalMakeChar c colour).getLsbD i =
      (cellValue (c, colour)).getLsbD i := by
    intro i hi
    rw [terminalMakeChar, cellValue, BitVec.getLsbD_setWidth, BitVec.getLsbD_or,
      BitVec.getLsbD_shiftLeft, BitVec.getLsbD_signExtend, BitVec.getLsbD_append, if_pos hi,
      if_pos hi]
    have h₁₆ : i < 16 := by omega
    have h₃₂ : i < 32 := by omega
    simp only [hi, h₁₆, h₃₂, decide_true, Bool.not_true, Bool.and_false, Bool.false_and,
      Bool.true_and, Bool.false_or]
  have hhigh : ∀ i, 8 ≤ i → i < 16 → (terminalMakeChar c colour).getLsbD i =
      ((cellValue (c, colour)).getLsbD i || c.msb) := by
    intro i hle hi
    rw [terminalMakeChar, cellValue, BitVec.getLsbD_setWidth, BitVec.getLsbD_or,
      BitVec.getLsbD_shiftLeft, BitVec.getLsbD_signExtend, BitVec.getLsbD_append, if_neg (by omega),
      if_neg (by omega), BitVec.getLsbD_setWidth]
    have h₈ : ¬ i < 8 := by omega
    have h₃₂ : i < 32 := by omega
    have hsub : i - 8 < 8 := by omega
    simp only [hi, h₈, h₃₂, hsub, decide_true, decide_false, Bool.not_false, Bool.true_and]
  constructor
  · intro heq
    have htop := hhigh 15 (by decide) (by decide)
    rw [heq, cellValue, BitVec.getLsbD_append, if_neg (by decide), BitVec.getLsbD_setWidth,
      VgaColour.value_getLsbD, Bool.and_false, Bool.false_or] at htop
    exact htop.symm
  · intro hmsb
    apply BitVec.eq_of_getLsbD_eq
    intro i hi
    by_cases h₈ : i < 8
    · exact hlow i h₈
    · rw [hhigh i (by omega) hi, show c.msb = false from hmsb, Bool.or_false]

/-- Every character put that stands on the screen is plain. -/
theorem screenOf_plain {calls : List TerminalCall}
    (h : ∀ c ∈ calls.flatMap TerminalCall.chars, c.1.msb = false) : (screenOf calls).Plain := by
  have hall : ∀ (cs : List (Byte × VgaColour)) (s : Screen), (∀ c ∈ cs, c.1.msb = false) → s.Plain →
      (cs.foldl Screen.put s).Plain := by
    intro cs
    induction cs with
    | nil => exact fun s _ hs => hs
    | cons c cs ih =>
      intro s hcs hs
      refine ih _ (fun d hd => hcs d (List.mem_cons_of_mem c hd)) fun r k => ?_
      rw [Screen.put]
      split
      · exact hs r k
      · show (if r = s.row ∧ k = s.column then c else s.cells r k).1.msb = false
        split
        · exact hcs c List.mem_cons_self
        · exact hs r k
  exact hall _ _ h fun _ _ => show (0x20 : Byte).msb = false by decide

/-- After `terminal_init` and any calls, the terminal shows the layout if and only if no byte on it
has its top bit set; so it does if none is put. -/
theorem terminal_correct_iff (videoMemory : Nat → Cell) (calls : List TerminalCall) :
    ((calls.foldl TerminalCall.run (terminalInit videoMemory)).Correct (screenOf calls) ↔
        (screenOf calls).Plain) ∧
      ((∀ c ∈ calls.flatMap TerminalCall.chars, c.1.msb = false) →
        (calls.foldl TerminalCall.run (terminalInit videoMemory)).Correct (screenOf calls)) := by
  have hshown := runs_shown videoMemory calls
  have hiff : (calls.foldl TerminalCall.run (terminalInit videoMemory)).Correct (screenOf calls) ↔
      (screenOf calls).Plain := by
    constructor
    · intro hcorrect r k
      rw [← terminalMakeChar_eq_iff, ← hshown.cells r k]
      exact hcorrect.cells r k
    · intro hplain
      refine ⟨⟨?_, ?_⟩, hshown.inside, hshown.row, hshown.column, fun r k => ?_⟩
      · rw [hshown.row]
        exact (screenOf calls).row.isLt
      · rw [hshown.column]
        exact (screenOf calls).column.isLt
      · rw [hshown.cells r k]
        exact (terminalMakeChar_eq_iff _).mpr (hplain r k)
  exact ⟨hiff, fun h => hiff.mpr (screenOf_plain h)⟩

/-- "Hi" and a newline in blue. -/
theorem terminal_correct_iff_hi :
    ([TerminalCall.putStr [0x48, 0x69, 0x0A] .blue].foldl TerminalCall.run
      (terminalInit fun _ => 0)).Correct (screenOf [.putStr [0x48, 0x69, 0x0A] .blue]) :=
  (terminal_correct_iff (fun _ => 0) [.putStr [0x48, 0x69, 0x0A] .blue]).2 (by decide)

/-- The byte 0x80 in blue: the colour becomes 0xFF. -/
theorem terminal_colour_lost :
    ¬ ([TerminalCall.putChar 0x80 .blue].foldl TerminalCall.run
      (terminalInit fun _ => 0)).Correct (screenOf [.putChar 0x80 .blue]) := by
  intro hcorrect
  have hcell := (runs_shown (fun _ => 0) [.putChar 0x80 .blue]).cells 0 0
  rw [hcorrect.cells 0 0] at hcell
  revert hcell
  decide

end AvocadOS
