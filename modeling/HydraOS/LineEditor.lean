/-
# The line editor: `keyboard.cpp` and `HandleKeyPress` of `shell.cpp`

What the user types goes into a buffer and onto the screen.  The buffer is a line with an
index; the screen wraps at column 80 and scrolls, and its backspace stops at column 0.
-/
import HydraOS.TextPage

open X86 VGATextMode

/-! ## The keyboard -/

/-- The `switch` of `KeyboardDriver::HandleInterrupt`: scan codes and the characters that the
handler gets for them. -/
def keyTable : List (UInt8 × Char) :=
  [(0x01, '\x1B'), (0x0E, '\x08'), (0x0F, '\t'), (0x1C, '\n'), (0x39, ' '),
    -- number row
    (0x02, '1'), (0x03, '2'), (0x04, '3'), (0x05, '4'), (0x06, '5'), (0x07, '6'), (0x08, '7'),
    (0x09, '8'), (0x0A, '9'), (0x0B, '0'), (0x0C, '-'), (0x0D, '='),
    -- top row
    (0x10, 'q'), (0x11, 'w'), (0x12, 'e'), (0x13, 'r'), (0x14, 't'), (0x15, 'y'), (0x16, 'u'),
    (0x17, 'i'), (0x18, 'o'), (0x19, 'p'), (0x1A, '['), (0x1B, ']'),
    -- middle row
    (0x1E, 'a'), (0x1F, 's'), (0x20, 'd'), (0x21, 'f'), (0x22, 'g'), (0x23, 'h'), (0x24, 'j'),
    (0x25, 'k'), (0x26, 'l'), (0x27, ';'), (0x28, '\x27'), (0x29, '\x60'),
    -- bottom row
    (0x2B, '\x5C'), (0x2C, 'z'), (0x2D, 'x'), (0x2E, 'c'), (0x2F, 'v'), (0x30, 'b'),
    (0x31, 'n'), (0x32, 'm'), (0x33, ','), (0x34, '.'), (0x35, '/')]

/-- The character for a scan code.  Codes from `0x80` on are releases, and the others that are
not in the table are ignored. -/
def keyChar (key : UInt8) : Option UInt8 :=
  if key < 0x80 then (keyTable.find? fun e => e.1 = key).map fun e => e.2.toNat.toUInt8 else none

/-- **What the keyboard delivers**: a character of seven bits, no carriage return, and Enter
for one key only. -/
theorem keyChar_spec {key c : UInt8} (h : keyChar key = some c) :
    c < 0x80 ∧ c ≠ 13 ∧ (c = 10 → key = 0x1C) := by
  rw [keyChar] at h
  split at h
  · obtain ⟨e, he, rfl⟩ := Option.map_eq_some_iff.mp h
    have hkey : e.1 = key := by simpa using List.find?_some he
    have htable : ∀ e ∈ keyTable, e.2.toNat.toUInt8 < 0x80 ∧ e.2.toNat.toUInt8 ≠ 13 ∧
        (e.2.toNat.toUInt8 = 10 → e.1 = 0x1C) := by decide +kernel
    rw [← hkey]
    exact htable e (List.mem_of_find?_eq_some he)
  · cases h

/-! ## The shell's side -/

/-- `VGAColor`, the colours of the prompt. -/
def VGATextMode.lightBlue : UInt8 := 9
def VGATextMode.lightGreen : UInt8 := 10

/-- `Shell::PrintPrompt`. -/
def printPrompt (k : Kernel) : Option Kernel := do
  let k ← print (literal "hydra") (setColor lightGreen black k)
  let k ← print (literal "@") (setColor white black k)
  let k ← print (literal "OS") (setColor lightBlue black k)
  print (literal " $ ") (setColor white black k)

/-- The kernel with the screen, and the fields of the `Shell` object that hold the line. -/
structure CommandLine where
  kernel : Kernel
  commandBuffer : Bytes 256
  bufferIndex : UInt8

namespace CommandLine

/-- `commandBuffer[bufferIndex++] = c; vga->PutChar(c);` -/
def type (c : UInt8) (s : CommandLine) : CommandLine :=
  ⟨putChar c s.kernel, s.commandBuffer.set s.bufferIndex.toNat c, s.bufferIndex + 1⟩

/-- `HandleKeyPress` for every character but Enter. -/
def edit (c : UInt8) (s : CommandLine) : CommandLine :=
  if c = 8 then
    if s.bufferIndex > 0 then
      ⟨putChar 8 s.kernel, s.commandBuffer.set (s.bufferIndex - 1).toNat 0, s.bufferIndex - 1⟩
    else s
  else if c = 9 then forLoop (fun s => s.bufferIndex < 255) (fun _ s => s.type 32) 4 0 s
  else if s.bufferIndex < 255 then s.type c
  else s

/-- `HandleKeyPress`, with `execute` for `ExecuteCommand`. -/
def handleKeyPress (execute : Bytes 256 → Kernel → Option Kernel) (c : UInt8)
    (s : CommandLine) : Option CommandLine :=
  if c = 10 then do
    let k ← print (literal "\n") s.kernel
    let commandBuffer := s.commandBuffer.set s.bufferIndex.toNat 0
    let k ← (if s.bufferIndex > 0 then execute commandBuffer k else some k)
    let k ← printPrompt k
    some ⟨k, fun _ => 0, 0⟩
  else some (s.edit c)

/-- A key that is not Enter, as it arrives from the keyboard. -/
def press (key : UInt8) (s : CommandLine) : CommandLine :=
  match keyChar key with
  | some c => s.edit c
  | none => s

/-- The characters that `edit` puts on the screen. -/
def echo (c : UInt8) (s : CommandLine) : List UInt8 :=
  if c = 8 then if s.bufferIndex > 0 then [8] else []
  else if c = 9 then List.replicate (min 4 (255 - s.bufferIndex.toNat)) 32
  else if s.bufferIndex < 255 then [c] else []

section Echo

variable {s : CommandLine} {c : UInt8}

/-- The index, as long as the line is not full. -/
theorem toNat_type (h : s.bufferIndex.toNat < 255) :
    (s.type c).bufferIndex.toNat = s.bufferIndex.toNat + 1 := by
  have h1 : (1 : UInt8).toNat = 1 := rfl
  show (s.bufferIndex + 1).toNat = _
  rw [UInt8.toNat_add, h1]
  omega

theorem lt_max_iff {x : UInt8} : x < 255 ↔ x.toNat < 255 := UInt8.lt_iff_toNat_lt

/-- The loop for a tab types spaces until the line is full. -/
theorem tab_eq (count first : ℕ) (s : CommandLine) :
    forLoop (fun s => s.bufferIndex < 255) (fun _ s => s.type 32) count first s =
      (List.replicate (min count (255 - s.bufferIndex.toNat)) 32).foldl (fun s c => s.type c) s := by
  induction count generalizing first s with
  | zero =>
    rw [Nat.zero_min]
    rfl
  | succ count ih =>
    rw [forLoop]
    by_cases hlt : s.bufferIndex.toNat < 255
    · have hmin : min (count + 1) (255 - s.bufferIndex.toNat) =
          min count (255 - (s.type 32).bufferIndex.toNat) + 1 := by
        rw [toNat_type hlt]
        omega
      rw [if_pos (decide_eq_true (lt_max_iff.mpr hlt)), ih, hmin, List.replicate_succ,
        List.foldl_cons]
    · have hmin : min (count + 1) (255 - s.bufferIndex.toNat) = 0 := by omega
      rw [if_neg (by simpa [lt_max_iff] using hlt), hmin]
      rfl

/-- All characters but backspace are typed. -/
theorem edit_of_ne (h : c ≠ 8) : s.edit c = (s.echo c).foldl (fun s c => s.type c) s := by
  rw [edit, echo, if_neg h, if_neg h]
  by_cases h9 : c = 9
  · rw [if_pos h9, if_pos h9, tab_eq]
  · rw [if_neg h9, if_neg h9]
    split <;> rfl

/-- The line does not overflow. -/
theorem echo_length (h : c ≠ 8) : s.bufferIndex.toNat + (s.echo c).length ≤ 255 := by
  have hle : s.bufferIndex.toNat < 256 := s.bufferIndex.toNat_lt
  rw [echo, if_neg h]
  split
  · rw [List.length_replicate]
    omega
  · split
    · next hlt =>
      have := lt_max_iff.mp hlt
      rw [List.length_singleton]
      omega
    · rw [List.length_nil]
      omega

end Echo

end CommandLine

/-! ## The page -/

namespace Terminal

/-- The place of the cursor, and the character at a place, in reading order. -/
def place (t : Terminal) : ℕ := 80 * t.row + t.col

def glyphAt (t : Terminal) (p : ℕ) : Glyph := t.page (p / 80) (p % 80)

/-- A character that `PutChar` shows. -/
def Shown (c : UInt8) : Prop := c ≠ 10 ∧ c ≠ 13 ∧ c ≠ 9 ∧ c ≠ 8

section Places

variable {t : Terminal} {c : UInt8} {p : ℕ}

theorem wrap_move_colors (t : Terminal) (c : UInt8) :
    (t.move c).wrap.foreground = t.foreground ∧ (t.move c).wrap.background = t.background := by
  have hmove : (t.move c).foreground = t.foreground ∧ (t.move c).background = t.background := by
    unfold move
    split_ifs <;> exact ⟨rfl, rfl⟩
  rw [wrap]
  split <;> exact hmove

/-- The colours stay in force. -/
theorem putChar_colors (t : Terminal) (c : UInt8) :
    (t.putChar c).foreground = t.foreground ∧ (t.putChar c).background = t.background := by
  rw [putChar]
  split <;> exact wrap_move_colors t c

/-- The page with a character at the place of the cursor. -/
def written (t : Terminal) (c : UInt8) : Terminal := t.write ⟨c, t.foreground, t.background⟩

theorem glyphAt_written (hcol : t.col < 80) : (t.written c).glyphAt p =
    if p = t.place then ⟨c, t.foreground, t.background⟩ else t.glyphAt p := by
  show (if p / 80 = t.row ∧ p % 80 = t.col then _ else _) = _
  by_cases hp : p = t.place
  · rw [if_pos hp, if_pos (by rw [place] at hp; omega)]
  · rw [if_neg hp, if_neg (by rw [place] at hp; omega)]
    rfl

/-- Where a character leaves the cursor, and whether it needs one more row. -/
theorem putChar_shown_eq (hc : Shown c) (hrow : t.row < t.exposed) : t.putChar c =
    if t.col + 1 < 80 then { t.written c with col := t.col + 1 }
    else if t.row + 1 < t.exposed then { t.written c with col := 0, row := t.row + 1 }
    else expose { t.written c with col := 0, row := t.row + 1 } := by
  obtain ⟨h10, h13, h9, h8⟩ := hc
  have hmove : t.move c = { t.written c with col := t.col + 1 } := by
    rw [move, if_neg h10, if_neg h13, if_neg h9, if_neg h8]
    rfl
  by_cases hcol : t.col + 1 < 80
  · have hwrap : (t.move c).wrap = { t.written c with col := t.col + 1 } := by
      rw [hmove]
      exact if_neg (Nat.not_le.mpr hcol)
    rw [if_pos hcol, putChar, hwrap]
    exact if_neg (Nat.not_le.mpr hrow)
  · have hwrap : (t.move c).wrap = { t.written c with col := 0, row := t.row + 1 } := by
      rw [hmove]
      exact if_pos (Nat.not_lt.mp hcol)
    rw [if_neg hcol, putChar, hwrap]
    by_cases hlast : t.row + 1 < t.exposed
    · rw [if_pos hlast]
      exact if_neg (Nat.not_le.mpr hlast)
    · rw [if_neg hlast]
      exact if_pos (Nat.not_lt.mp hlast)

/-- **A character** takes the place of the cursor, which goes on by one; at the end of the
page there is one more row. -/
theorem putChar_shown (hc : Shown c) (hcol : t.col < 80) (hrow : t.row < t.exposed) :
    (t.putChar c).place = t.place + 1 ∧
      (t.putChar c).exposed = (if t.place + 1 = 80 * t.exposed then t.exposed + 1 else t.exposed) ∧
      ∀ p, (t.putChar c).glyphAt p = if p = t.place then ⟨c, t.foreground, t.background⟩
        else if t.place + 1 = 80 * t.exposed ∧ p / 80 = t.exposed then t.blank
        else t.glyphAt p := by
  have hplace : t.place = 80 * t.row + t.col := rfl
  rw [putChar_shown_eq hc hrow]
  by_cases hin : t.col + 1 < 80
  · have hend : ¬ t.place + 1 = 80 * t.exposed := by omega
    simp only [hend, hin, if_true, if_false, false_and]
    exact ⟨rfl, rfl, fun p => glyphAt_written hcol⟩
  · rw [if_neg hin]
    by_cases hlast : t.row + 1 < t.exposed
    · have hend : ¬ t.place + 1 = 80 * t.exposed := by omega
      simp only [hend, hlast, if_true, if_false, false_and]
      refine ⟨?_, rfl, fun p => glyphAt_written hcol⟩
      show 80 * (t.row + 1) + 0 = t.place + 1
      omega
    · have hend : t.place + 1 = 80 * t.exposed := by omega
      rw [if_neg hlast, if_pos hend]
      refine ⟨?_, rfl, fun p => ?_⟩
      · show 80 * (t.row + 1) + 0 = t.place + 1
        omega
      · show (if p / 80 = t.exposed then t.blank else (t.written c).glyphAt p) = _
        rw [glyphAt_written hcol]
        by_cases hp : p / 80 = t.exposed
        · rw [if_pos hp, if_neg (by omega), if_pos ⟨hend, hp⟩]
        · simp only [hp, and_false, if_false]

/-- **Backspace** blanks the place before the cursor and goes back to it, within a row. -/
theorem putChar_backspace (hcol : 0 < t.col) (hlt : t.col < 80) (hrow : t.row < t.exposed) :
    (t.putChar 8).place + 1 = t.place ∧ (t.putChar 8).exposed = t.exposed ∧
      ∀ p, (t.putChar 8).glyphAt p = if p + 1 = t.place then t.blank else t.glyphAt p := by
  have hmove : t.move 8 = { t with col := t.col - 1 }.write t.blank := by
    rw [move, if_neg (by decide), if_neg (by decide), if_neg (by decide), if_pos rfl, if_pos hcol]
  have hwrap : (t.move 8).wrap = t.move 8 := by
    rw [hmove]
    exact if_neg (show ¬ (t.col - 1 ≥ 80) by omega)
  have hput : t.putChar 8 = t.move 8 := by
    rw [putChar, hwrap, hmove]
    exact if_neg (show ¬ (t.row ≥ t.exposed) by omega)
  rw [hput, hmove]
  refine ⟨?_, rfl, fun p => ?_⟩
  · show 80 * t.row + (t.col - 1) + 1 = 80 * t.row + t.col
    omega
  · show (if p / 80 = t.row ∧ p % 80 = t.col - 1 then t.blank else t.page (p / 80) (p % 80)) = _
    by_cases hp : p + 1 = t.place
    · rw [if_pos hp, if_pos (by rw [place] at hp; omega)]
    · rw [if_neg hp, if_neg (by rw [place] at hp; omega)]
      rfl

/-- At column 0 it does nothing. -/
theorem putChar_backspace_zero (hcol : t.col = 0) (hrow : t.row < t.exposed) :
    t.putChar 8 = t := by
  have hmove : t.move 8 = t := by
    rw [move, if_neg (by decide), if_neg (by decide), if_neg (by decide), if_pos rfl,
      if_neg (by omega)]
  have hwrap : (t.move 8).wrap = t := by
    rw [hmove]
    exact if_neg (by omega)
  rw [putChar, hwrap]
  exact if_neg (Nat.not_le.mpr hrow)

end Places

end Terminal

/-! ## The line on the screen -/

/-- The place of the cursor on the screen. -/
def cursorPlace (k : Kernel) : ℕ := 80 * k.dev.vga.cursorY.toNat + k.dev.vga.cursorX.toNat

/-- The cell of a character in white on black. -/
def whiteCell (c : UInt8) : UInt16 := 0x0F00 ||| c.toUInt16

/-- The line that is being typed, how often the screen has scrolled since the prompt, and the
greatest length that the line has had. -/
structure Typing where
  line : CommandLine
  scrolls : ℕ
  extent : ℕ

namespace Typing

/-- A key that is not Enter. -/
def step (t : Typing) (key : UInt8) : Typing × Unit :=
  let line := t.line.press key
  let shown := match keyChar key with
    | some c => t.line.echo c
    | none => []
  (⟨line, t.scrolls + scrollsOf shown t.line.kernel, max t.extent line.bufferIndex.toNat⟩, ())

/-- The line after a prompt. -/
def start (k : Kernel) : Typing := ⟨⟨k, fun _ => 0, 0⟩, 0, 0⟩

/-- The cell for the character `i` of a line after a prompt that ended at `p`, once the screen
has scrolled, holds `c`. -/
def CellHolds (p : ℕ) (t : Typing) (i : ℕ) (c : UInt8) : Prop :=
  80 * t.scrolls ≤ p + i ∧ p + i < 80 * t.scrolls + 2000 ∧
    cell t.line.kernel.mem (p + i - 80 * t.scrolls) = whiteCell c

/-- **The user sees the line**: the cells behind the prompt hold the buffer, those of erased
characters are blank, and the cursor is behind the last character. -/
structure ShowsLine (p : ℕ) (t : Typing) : Prop where
  typed : ∀ i < t.line.bufferIndex.toNat, t.CellHolds p i (t.line.commandBuffer.get i)
  erased : ∀ i, t.line.bufferIndex.toNat ≤ i → i < t.extent → t.CellHolds p i 32
  cursor : cursorPlace t.line.kernel + 80 * t.scrolls = p + t.line.bufferIndex.toNat

/-- A backspace that erases a character does not meet the cursor in column 0. -/
def EraseInRow (t : Typing) (key : UInt8) : Prop :=
  keyChar key = some 8 → t.line.bufferIndex > 0 → t.line.kernel.dev.vga.cursorX > 0

instance (t : Typing) (key : UInt8) : Decidable (t.EraseInRow key) :=
  inferInstanceAs (Decidable (_ → _))

/-! ### The line on the page -/

/-- The line on the page: the same, at fixed places, and the page has not become longer than
the line needs. -/
structure OnPage (p : ℕ) (line : CommandLine) (extent : ℕ) (t : Terminal) : Prop where
  place : t.place = p + line.bufferIndex.toNat
  foreground : t.foreground = white
  background : t.background = black
  typed : ∀ i < line.bufferIndex.toNat, t.glyphAt (p + i) = ⟨line.commandBuffer.get i, white, black⟩
  erased : ∀ i, line.bufferIndex.toNat ≤ i → i < extent → t.glyphAt (p + i) = ⟨32, white, black⟩
  extent_le : line.bufferIndex.toNat ≤ extent
  inside : p + extent < 80 * t.exposed
  visible : 80 * t.exposed ≤ p + 2000

/-- The line on the page, and the screen that shows the page. -/
structure Follows (c0 : Crtc) (p : ℕ) (t : Typing) : Prop where
  page : ∃ term, Shows c0 t.line.kernel t.scrolls term ∧ OnPage p t.line t.extent term

section Steps

variable {c0 : Crtc} {p : ℕ} {t : Typing} {line : CommandLine} {extent : ℕ} {term : Terminal}
  {c : UInt8}

theorem encode_white (c : UInt8) : (Glyph.mk c white black).encode = whiteCell c := by
  have hcolors : black.toUInt16 <<< 12 ||| white.toUInt16 <<< 8 = 0x0F00 := by decide
  exact congrArg (· ||| c.toUInt16) hcolors

/-- What the page holds on its visible rows is on the screen. -/
theorem cellHolds_of_glyphAt {i : ℕ} (h : Shows c0 t.line.kernel t.scrolls term)
    (hvisible : 80 * term.exposed ≤ p + 2000) (hi : p + i < 80 * term.exposed)
    (hglyph : term.glyphAt (p + i) = ⟨c, white, black⟩) : t.CellHolds p i c := by
  have hexposed := h.exposed
  refine ⟨by omega, by omega, ?_⟩
  have hcell := h.cells ((p + i) / 80 - t.scrolls) (by omega) ((p + i) % 80)
    (Nat.mod_lt _ (by decide))
  rw [show 80 * ((p + i) / 80 - t.scrolls) + (p + i) % 80 = p + i - 80 * t.scrolls by omega,
    show t.scrolls + ((p + i) / 80 - t.scrolls) = (p + i) / 80 by omega] at hcell
  rw [hcell, ← encode_white, ← hglyph]
  rfl

/-- **A line that follows the page is seen.** -/
theorem Follows.showsLine (h : Follows c0 p t) : ShowsLine p t := by
  obtain ⟨term, hshows, hpage⟩ := h.page
  have hle := hpage.extent_le
  have hinside := hpage.inside
  refine ⟨fun i hi => ?_, fun i hi hlt => ?_, ?_⟩
  · exact cellHolds_of_glyphAt hshows hpage.visible (by omega) (hpage.typed i hi)
  · exact cellHolds_of_glyphAt hshows hpage.visible (by omega) (hpage.erased i hi hlt)
  · have hcol := hshows.col
    have hrow := hshows.row
    rw [← hpage.place, Terminal.place, cursorPlace]
    omega

/-- The cursor of a page that is shown. -/
theorem bounds_of_shows {k : Kernel} {S : ℕ} (h : Shows c0 k S term) :
    term.col < 80 ∧ term.row < term.exposed := by
  have hcol := h.col
  have hrow := h.row
  have hexposed := h.exposed
  have hx := h.col_lt
  have hy := h.row_lt
  omega

/-- **Typing a character** that has room on the line. -/
theorem OnPage.type (h : OnPage p line extent term) (hc : Terminal.Shown c)
    (hin : term.col < 80 ∧ term.row < term.exposed)
    (hin' : (term.putChar c).col < 80 ∧ (term.putChar c).row < (term.putChar c).exposed)
    (hroom : line.bufferIndex.toNat < 255) :
    OnPage p (line.type c) (max extent (line.bufferIndex.toNat + 1)) (term.putChar c) := by
  obtain ⟨hcol', hrow'⟩ := hin'
  obtain ⟨hplace, hexposed, hglyph⟩ := Terminal.putChar_shown hc hin.1 hin.2
  have hidx := CommandLine.toNat_type (c := c) hroom
  have hbuffer : (line.type c).commandBuffer = line.commandBuffer.set line.bufferIndex.toNat c := rfl
  have hle := h.extent_le
  have hinside := h.inside
  have hvisible := h.visible
  have hold := h.place
  have hnew : (term.putChar c).place = p + (line.bufferIndex.toNat + 1) := by omega
  have hlast : (term.putChar c).place < 80 * (term.putChar c).exposed := by
    rw [Terminal.place]
    omega
  -- the places of the line before the cursor and behind it
  have hbefore (i : ℕ) (hi : i < line.bufferIndex.toNat) :
      (term.putChar c).glyphAt (p + i) = term.glyphAt (p + i) := by
    rw [hglyph, if_neg (by omega), if_neg (by omega)]
  refine ⟨by rw [hidx]; exact hnew, ?_, ?_, fun i hi => ?_, fun i hi hlt => ?_, ?_, ?_, ?_⟩
  · rw [(term.putChar_colors c).1, h.foreground]
  · rw [(term.putChar_colors c).2, h.background]
  · rw [hidx] at hi
    rw [hbuffer, Bytes.get_set (by omega)]
    by_cases heq : i = line.bufferIndex.toNat
    · rw [if_pos heq, hglyph, if_pos (by omega), h.foreground, h.background]
    · rw [if_neg heq, hbefore i (by omega)]
      exact h.typed i (by omega)
  · rw [hidx] at hi
    rw [hglyph, if_neg (by omega)]
    split
    · rw [Terminal.blank, h.foreground, h.background]
    · exact h.erased i (by omega) (by omega)
  · rw [hidx]
    exact le_max_right _ _
  · by_cases hmax : extent ≤ line.bufferIndex.toNat + 1
    · rw [max_eq_right hmax]
      omega
    · rw [max_eq_left (by omega), hexposed]
      split <;> omega
  · rw [hexposed]
    split <;> omega

/-- **Erasing a character** within a row. -/
theorem OnPage.erase {kernel : Kernel} (h : OnPage p line extent term) (hcol : 0 < term.col)
    (hin : term.col < 80 ∧ term.row < term.exposed) (hpos : 0 < line.bufferIndex.toNat) :
    OnPage p ⟨kernel, line.commandBuffer.set (line.bufferIndex - 1).toNat 0, line.bufferIndex - 1⟩
      extent (term.putChar 8) := by
  obtain ⟨hplace, hexposed, hglyph⟩ := Terminal.putChar_backspace hcol hin.1 hin.2
  have hidx : (line.bufferIndex - 1).toNat = line.bufferIndex.toNat - 1 :=
    UInt8.toNat_sub_of_le _ _ (UInt8.le_iff_toNat_le.mpr hpos)
  have hmax := line.bufferIndex.toNat_lt
  have hle := h.extent_le
  have hold := h.place
  refine ⟨?_, ?_, ?_, fun i hi => ?_, fun i hi hlt => ?_, ?_, ?_, ?_⟩
  · show (term.putChar 8).place = p + (line.bufferIndex - 1).toNat
    omega
  · rw [(term.putChar_colors 8).1, h.foreground]
  · rw [(term.putChar_colors 8).2, h.background]
  · change i < (line.bufferIndex - 1).toNat at hi
    show _ = Glyph.mk ((line.commandBuffer.set (line.bufferIndex - 1).toNat 0).get i) white black
    rw [Bytes.get_set (by omega), if_neg (by omega), hglyph, if_neg (by omega)]
    exact h.typed i (by omega)
  · change (line.bufferIndex - 1).toNat ≤ i at hi
    rw [hglyph]
    split
    · rw [Terminal.blank, h.foreground, h.background]
    · exact h.erased i (by omega) hlt
  · show (line.bufferIndex - 1).toNat ≤ extent
    omega
  · rw [hexposed]
    exact h.inside
  · rw [hexposed]
    exact h.visible

/-- The index after several characters. -/
theorem toNat_typeAll (cs : List UInt8) (hroom : line.bufferIndex.toNat + cs.length ≤ 255) :
    (cs.foldl (fun s c => s.type c) line).bufferIndex.toNat =
      line.bufferIndex.toNat + cs.length := by
  induction cs generalizing line with
  | nil => rfl
  | cons c cs ih =>
    rw [List.length_cons] at hroom
    have hidx := CommandLine.toNat_type (s := line) (c := c) (by omega)
    rw [List.foldl_cons, ih (by omega), hidx, List.length_cons]
    omega

/-- **Typing several characters**. -/
theorem follows_typeAll {S : ℕ} (cs : List UInt8)
    (hcs : ∀ c ∈ cs, c < 0x80 ∧ Terminal.Shown c)
    (hroom : line.bufferIndex.toNat + cs.length ≤ 255) (hshows : Shows c0 line.kernel S term)
    (hpage : OnPage p line extent term) :
    let line' := cs.foldl (fun s c => s.type c) line
    ∃ term', Shows c0 line'.kernel (S + scrollsOf cs line.kernel) term' ∧
      OnPage p line' (max extent line'.bufferIndex.toNat) term' := by
  induction cs generalizing line extent term S with
  | nil =>
    refine ⟨term, hshows, ?_⟩
    show OnPage p line (max extent line.bufferIndex.toNat) term
    rw [max_eq_left hpage.extent_le]
    exact hpage
  | cons c cs ih =>
    rw [List.forall_mem_cons] at hcs
    rw [List.length_cons] at hroom
    have hidx := CommandLine.toNat_type (s := line) (c := c) (by omega)
    have hnext : Shows c0 (line.type c).kernel (S + scrollsOfChar c line.kernel)
        (term.putChar c) := (hshows.putChar hcs.1.1).1
    have hpage' := hpage.type hcs.1.2 (bounds_of_shows hshows) (bounds_of_shows hnext) (by omega)
    obtain ⟨term', hshows', honpage⟩ := ih hcs.2 (by omega) hnext hpage'
    rw [toNat_typeAll cs (by omega)] at honpage
    intro line'
    have hline : line'.bufferIndex.toNat = (line.type c).bufferIndex.toNat + cs.length :=
      @toNat_typeAll (line.type c) cs (by omega)
    refine ⟨term', ?_, ?_⟩
    · rw [scrollsOf, ← Nat.add_assoc]
      exact hshows'
    · rw [hline]
      rw [show max extent ((line.type c).bufferIndex.toNat + cs.length) =
        max (max extent (line.bufferIndex.toNat + 1)) ((line.type c).bufferIndex.toNat + cs.length)
        by omega]
      exact honpage

/-- The characters that a key puts on the screen, except for backspace. -/
theorem shown_of_echo {key : UInt8} (hkey : keyChar key = some c) (hne : key ≠ 0x1C)
    (h8 : c ≠ 8) : ∀ d ∈ line.echo c, d < 0x80 ∧ Terminal.Shown d := by
  obtain ⟨hlt, h13, h10⟩ := keyChar_spec hkey
  intro d hd
  rw [CommandLine.echo, if_neg h8] at hd
  split at hd
  · obtain rfl := List.eq_of_mem_replicate hd
    exact ⟨by decide, by decide, by decide, by decide, by decide⟩
  · next h9 =>
    split at hd
    · obtain rfl := List.mem_singleton.mp hd
      exact ⟨hlt, fun h => hne (h10 h), h13, h9, h8⟩
    · exact absurd hd List.not_mem_nil

/-- **A backspace within a row** keeps the line and the page together. -/
theorem Follows.erase (h : Follows c0 p t) (hpos : t.line.bufferIndex > 0)
    (hcol : t.line.kernel.dev.vga.cursorX > 0) :
    Follows c0 p ⟨t.line.edit 8, t.scrolls + scrollsOf (t.line.echo 8) t.line.kernel,
      max t.extent (t.line.edit 8).bufferIndex.toNat⟩ := by
  obtain ⟨term, hshows, hpage⟩ := h.page
  have hcol' : 0 < term.col := by
    rw [hshows.col]
    exact UInt8.lt_iff_toNat_lt.mp hcol
  have hnext := (hshows.putChar (c := 8) (by decide)).1
  have hpage' := @OnPage.erase p _ _ _ (putChar 8 t.line.kernel) hpage hcol'
    (bounds_of_shows hshows) (UInt8.lt_iff_toNat_lt.mp hpos)
  have hedit : t.line.edit 8 = ⟨putChar 8 t.line.kernel,
      t.line.commandBuffer.set (t.line.bufferIndex - 1).toNat 0, t.line.bufferIndex - 1⟩ := by
    rw [CommandLine.edit, if_pos rfl, if_pos hpos]
  have hecho : t.line.echo 8 = [8] := by
    rw [CommandLine.echo, if_pos rfl, if_pos hpos]
  have hextent := max_eq_left hpage'.extent_le
  rw [hedit, hecho, scrollsOf, scrollsOf, Nat.add_zero]
  simp only at hextent ⊢
  rw [hextent]
  exact ⟨⟨_, hnext, hpage'⟩⟩

/-- **A key keeps the line and the page together**, unless it erases at column 0. -/
theorem Follows.step {key : UInt8} (h : Follows c0 p t) (hne : key ≠ 0x1C)
    (hok : t.EraseInRow key) : Follows c0 p (t.step key).1 := by
  obtain ⟨term, hshows, hpage⟩ := h.page
  have hsame : (⟨t.line, t.scrolls + scrollsOf [] t.line.kernel,
      max t.extent t.line.bufferIndex.toNat⟩ : Typing) = t := by
    rw [max_eq_left hpage.extent_le]
    rfl
  cases hkey : keyChar key with
  | none =>
    rw [Typing.step, CommandLine.press, hkey]
    simp only
    rwa [hsame]
  | some c =>
    rw [Typing.step, CommandLine.press, hkey]
    simp only
    by_cases h8 : c = 8
    · subst h8
      by_cases hpos : t.line.bufferIndex > 0
      · exact h.erase hpos (hok hkey hpos)
      · rw [CommandLine.edit, CommandLine.echo, if_pos rfl, if_pos rfl, if_neg hpos, if_neg hpos,
          hsame]
        exact h
    · rw [CommandLine.edit_of_ne h8]
      exact ⟨follows_typeAll _ (shown_of_echo hkey hne h8) (CommandLine.echo_length h8) hshows hpage⟩

/-- **Erasing at column 0** leaves the cursor where it is, one place behind the line. -/
theorem Follows.not_showsLine {key : UInt8} (h : Follows c0 p t) (hok : ¬ t.EraseInRow key) :
    ¬ ShowsLine p (t.step key).1 := by
  obtain ⟨term, hshows, hpage⟩ := h.page
  have hin := bounds_of_shows hshows
  obtain ⟨hkey, hpos, hzero⟩ : keyChar key = some 8 ∧ t.line.bufferIndex > 0 ∧
      ¬ t.line.kernel.dev.vga.cursorX > 0 := by
    rw [EraseInRow] at hok
    tauto
  have hpos' : 0 < t.line.bufferIndex.toNat := UInt8.lt_iff_toNat_lt.mp hpos
  have hcol : term.col = 0 := by
    rw [hshows.col]
    exact Nat.eq_zero_of_not_pos fun h => hzero (UInt8.lt_iff_toNat_lt.mpr h)
  have hnext := (hshows.putChar (c := 8) (by decide)).1
  rw [Terminal.putChar_backspace_zero hcol hin.2] at hnext
  intro hshown
  have hcursor := hshown.cursor
  rw [Typing.step, CommandLine.press, hkey] at hcursor
  simp only [CommandLine.edit, CommandLine.echo, if_true, if_pos hpos, scrollsOf] at hcursor
  have hidx : (t.line.bufferIndex - 1).toNat = t.line.bufferIndex.toNat - 1 :=
    UInt8.toNat_sub_of_le _ _ (UInt8.le_iff_toNat_le.mpr hpos')
  have hold := hpage.place
  have hcol' := hnext.col
  have hrow' := hnext.row
  rw [Terminal.place] at hold
  rw [cursorPlace] at hcursor
  omega

end Steps

end Typing

/-! ## The prompt -/

section Prompt

variable {k k' : Kernel} {c0 : Crtc}

theorem Terminal.print_colors (t : Terminal) (cs : List UInt8) :
    (t.print cs).foreground = t.foreground ∧ (t.print cs).background = t.background := by
  induction cs generalizing t with
  | nil => exact ⟨rfl, rfl⟩
  | cons c cs ih =>
    obtain ⟨hf, hb⟩ := ih (t.putChar c)
    exact ⟨hf.trans (t.putChar_colors c).1, hb.trans (t.putChar_colors c).2⟩

/-- A kernel whose screen is in order between two calls: the cursor is on it, the CRT
controller has its position, and the colours are in force. -/
structure Settled (c0 : Crtc) (foreground background : UInt8) (k : Kernel) : Prop where
  on : CursorOn k
  foreground : k.dev.vga.foregroundColor = foreground
  background : k.dev.vga.backgroundColor = background
  position : (c0.after k.dev.ports).position = cursorPlace k

/-- `PutChar` of some characters in some colours. -/
def putText (foreground background : UInt8) (cs : List UInt8) (k : Kernel) : Kernel :=
  cs.foldl (fun k c => putChar c k) (setColor foreground background k)

/-- `Print` of a literal is `PutChar` of its characters. -/
theorem print_literal {s : String} {cs : List UInt8} (foreground background : UInt8)
    (hcs : s.toList.map (fun c => c.toNat.toUInt8) = cs) (h0 : 0 ∉ cs)
    (hlen : cs.length < 2 ^ 31) :
    print (literal s) (setColor foreground background k) =
      some (putText foreground background cs k) := by
  refine forChars_of_chars cs h0 hlen fun m j => ?_
  rw [Nat.zero_add, literal, hcs]

/-- **Text on any screen** leaves it in order. -/
theorem settled_putText (c0 : Crtc) (h : CursorOn k) (foreground background : UInt8) (c : UInt8)
    {cs : List UInt8} (hcs : ∀ d ∈ c :: cs, d < 0x80) :
    Settled c0 foreground background (putText foreground background (c :: cs) k) := by
  rw [List.forall_mem_cons] at hcs
  have hfirst := (@View.putChar c0 _ 0 _ c (view_ofScreen (setColor foreground background k))
    h.1 h.2 hcs.1).1
  obtain ⟨hshows, -⟩ := hfirst.print hcs.2
  obtain ⟨hf, hb⟩ := (Terminal.ofScreen (setColor foreground background k)).print_colors (c :: cs)
  exact ⟨⟨hshows.col_lt, hshows.row_lt⟩, hshows.foreground.trans hf, hshows.background.trans hb,
    hshows.position⟩

/-- The kernel after a prompt. -/
def prompted (k : Kernel) : Kernel :=
  let k := putText lightGreen black [104, 121, 100, 114, 97] k
  let k := putText white black [64] k
  let k := putText lightBlue black [79, 83] k
  putText white black [32, 36, 32] k

/-- **`PrintPrompt`** returns, -/
theorem printPrompt_eq (k : Kernel) : printPrompt k = some (prompted k) := by
  have hhydra (k : Kernel) := @print_literal k "hydra" [104, 121, 100, 114, 97] lightGreen black
    (by simp) (by decide) (by decide)
  have hat (k : Kernel) := @print_literal k "@" [64] white black (by simp) (by decide)
    (by decide)
  have hos (k : Kernel) := @print_literal k "OS" [79, 83] lightBlue black (by simp)
    (by decide) (by decide)
  have hend (k : Kernel) := @print_literal k " $ " [32, 36, 32] white black (by simp)
    (by decide) (by decide)
  rw [printPrompt, hhydra, Option.bind_eq_bind, Option.bind_some, hat, Option.bind_some, hos,
    Option.bind_some, hend, prompted]

/-- and leaves white on black in force. -/
theorem settled_prompted (c0 : Crtc) (h : CursorOn k) : Settled c0 white black (prompted k) := by
  have hhydra := @settled_putText k c0 h lightGreen black 104 [121, 100, 114, 97]
    (by decide +kernel)
  have hat := @settled_putText _ c0 hhydra.on white black 64 [] (by decide +kernel)
  have hos := @settled_putText _ c0 hat.on lightBlue black 79 [83] (by decide +kernel)
  exact @settled_putText _ c0 hos.on white black 32 [36, 32] (by decide +kernel)

end Prompt

namespace Typing

/-- An empty line after a prompt. -/
theorem follows_start {c0 : Crtc} {k : Kernel} (h : Settled c0 white black k) :
    Follows c0 (cursorPlace k) (start k) := by
  obtain ⟨⟨hx, hy⟩, hf, hb, hpos⟩ := h
  have hview := view_ofScreen k
  refine ⟨⟨.ofScreen k, ⟨hview, hx, hy, hpos⟩, ?_⟩⟩
  refine ⟨rfl, hf, hb, fun i hi => absurd hi (Nat.not_lt_zero i),
    fun i _ hi => absurd hi (Nat.not_lt_zero i), le_rfl, ?_, ?_⟩
  · show cursorPlace k + 0 < 80 * 25
    rw [cursorPlace]
    omega
  · show 80 * 25 ≤ cursorPlace k + 2000
    omega

/-- A key other than Enter is handled without the rest of the shell, -/
theorem handleKeyPress_press (execute : Bytes 256 → Kernel → Option Kernel) {key c : UInt8}
    (hkey : keyChar key = some c) (hne : key ≠ 0x1C) (s : CommandLine) :
    s.handleKeyPress execute c = some (s.press key) := by
  rw [CommandLine.handleKeyPress, if_neg fun h => hne ((keyChar_spec hkey).2.2 h),
    CommandLine.press, hkey]

/-- and Enter ends with an empty line behind a new prompt. -/
theorem handleKeyPress_enter {execute : Bytes 256 → Kernel → Option Kernel} {s s' : CommandLine}
    (h : s.handleKeyPress execute 10 = some s') :
    ∃ k, printPrompt k = some s'.kernel ∧ s' = (start s'.kernel).line := by
  rw [CommandLine.handleKeyPress, if_pos rfl] at h
  obtain ⟨k1, -, h⟩ := Option.bind_eq_some_iff.mp h
  obtain ⟨k2, -, h⟩ := Option.bind_eq_some_iff.mp h
  obtain ⟨k3, hprompt, h⟩ := Option.bind_eq_some_iff.mp h
  cases h
  exact ⟨k2, hprompt, rfl⟩

/-- **What the user sees is what will run, as long as nothing is erased at column 0.**  From
any screen with the cursor on it, the prompt is printed, and for all keys but Enter after it:
in every state the cells behind the prompt hold the command buffer, erased characters are
blank and the cursor is behind the line, if and only if no backspace erases a character while
the cursor is in column 0. -/
theorem shows_line_iff (k0 : Kernel) (h : CursorOn k0) :
    ∃ k, printPrompt k0 = some k ∧ ∀ keys : List UInt8, 0x1C ∉ keys →
      ((∀ past, past <+: keys → ShowsLine (cursorPlace k) (finalState step (start k) past)) ↔
        Along step EraseInRow (start k) keys) := by
  obtain ⟨c0⟩ : Nonempty Crtc := ⟨⟨0, fun _ => 0⟩⟩
  refine ⟨prompted k0, printPrompt_eq k0, fun keys hkeys => ?_⟩
  exact forall_prefix_iff_along (Follows c0 (cursorPlace (prompted k0)))
    (ShowsLine (cursorPlace (prompted k0))) (fun key => key ≠ 0x1C) (fun _ ht => ht.showsLine)
    (fun _ _ ht hne hok => ht.step hne hok) (fun _ _ ht _ hok => ht.not_showsLine hok)
    (follows_start (settled_prompted c0 h)) fun key hmem heq => hkeys (heq ▸ hmem)

/-- Two characters and a backspace behind the first prompt. -/
theorem shows_line_ab : ∃ k, printPrompt Watched.blankKernel = some k ∧
    ShowsLine (cursorPlace k) (finalState step (start k) [0x1E, 0x30, 0x0E]) := by
  obtain ⟨k, hprompt, hiff⟩ := shows_line_iff Watched.blankKernel ⟨by decide, by decide⟩
  obtain rfl : k = prompted Watched.blankKernel :=
    Option.some.inj (hprompt.symm.trans (printPrompt_eq _))
  exact ⟨_, hprompt, (hiff [0x1E, 0x30, 0x0E] (by decide)).mpr (by decide +kernel) _ List.prefix_rfl⟩

/-- Behind a prompt at the start of a row, 69 characters fill the row.  A backspace then
takes a character out of the buffer and leaves it on the screen. -/
theorem erase_at_column_zero : ∃ k, printPrompt Watched.blankKernel = some k ∧
    ¬ ShowsLine (cursorPlace k)
      (finalState step (start k) (List.replicate 69 0x1E ++ [0x0E])) := by
  refine ⟨prompted Watched.blankKernel, printPrompt_eq _, fun h => ?_⟩
  have hcursor := h.cursor
  revert hcursor
  decide +kernel

end Typing
