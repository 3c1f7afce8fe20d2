/-
# The text screen as a window on a page

A terminal that writes on a page of 80 columns and as many rows as it needs, and that never
moves what it has written.  The screen of `VGATextMode` shows the last 25 rows of that page:
each `Scroll` is a new row of the page, and everything else happens at the same place.
-/
import HydraOS.VideoMemory
import HydraOS.Bytes

open X86

/-! ## The reference terminal -/

/-- A character on the page with its colours. -/
structure Glyph where
  char : UInt8
  foreground : UInt8
  background : UInt8

/-- The cell of the screen that shows a character. -/
def Glyph.encode (g : Glyph) : UInt16 :=
  (g.background.toUInt16 <<< 12) ||| (g.foreground.toUInt16 <<< 8) ||| g.char.toUInt16

/-- A page, given by row and column, of which the first `exposed` rows are in use, with the
place of the next character and its colours. -/
structure Terminal where
  page : ℕ → ℕ → Glyph
  exposed : ℕ
  row : ℕ
  col : ℕ
  foreground : UInt8
  background : UInt8

namespace Terminal

/-- A space in the colours in force. -/
def blank (t : Terminal) : Glyph := ⟨32, t.foreground, t.background⟩

/-- A new page. -/
def clear (t : Terminal) : Terminal :=
  { t with page := fun _ _ => t.blank, exposed := 25, row := 0, col := 0 }

/-- White on black, on a new page. -/
def new : Terminal := clear ⟨fun _ _ => ⟨32, 15, 0⟩, 25, 0, 0, 15, 0⟩

def setColor (foreground background : UInt8) (t : Terminal) : Terminal :=
  { t with foreground := foreground, background := background }

/-- The place is given in the last 25 rows; other places are refused. -/
def setCursorPosition (x y : ℕ) (t : Terminal) : Terminal :=
  if x < 80 ∧ y < 25 then { t with col := x, row := t.exposed - 25 + y } else t

/-- Write at the current place. -/
def write (g : Glyph) (t : Terminal) : Terminal :=
  { t with page := fun r c => if r = t.row ∧ c = t.col then g else t.page r c }

/-- What a character does in its row. -/
def move (c : UInt8) (t : Terminal) : Terminal :=
  if c = 10 then { t with row := t.row + 1, col := 0 }
  else if c = 13 then { t with col := 0 }
  else if c = 9 then { t with col := (t.col / 4 + 1) * 4 }
  else if c = 8 then
    if t.col > 0 then { t with col := t.col - 1 }.write t.blank else t
  else { t.write ⟨c, t.foreground, t.background⟩ with col := t.col + 1 }

/-- Wrap at column 80. -/
def wrap (t : Terminal) : Terminal :=
  if t.col ≥ 80 then { t with col := 0, row := t.row + 1 } else t

/-- One more row, blank in the colours in force. -/
def expose (t : Terminal) : Terminal :=
  { t with
    page := fun r c => if r = t.exposed then t.blank else t.page r c
    exposed := t.exposed + 1 }

def putChar (c : UInt8) (t : Terminal) : Terminal :=
  let t := (t.move c).wrap
  if t.row ≥ t.exposed then t.expose else t

def print (cs : List UInt8) (t : Terminal) : Terminal := cs.foldl (fun t c => t.putChar c) t

end Terminal

/-! ## The position in the CRT controller -/

/-- The registers of the CRT controller and the index of the selected one. -/
structure Crtc where
  index : UInt8
  register : UInt8 → UInt8

namespace Crtc

/-- A byte written to a port. -/
def write (c : Crtc) (portnumber : UInt16) (data : UInt8) : Crtc :=
  if portnumber = 0x3D4 then { c with index := data }
  else if portnumber = 0x3D5 then { c with register := Function.update c.register c.index data }
  else c

/-- The controller after the bytes that were written to ports, the latest first. -/
def after (c : Crtc) (ports : List (UInt16 × UInt8)) : Crtc :=
  ports.foldr (fun w c => c.write w.1 w.2) c

/-- The position programmed in the registers 14 and 15. -/
def position (c : Crtc) : ℕ := (c.register 14).toNat * 256 + (c.register 15).toNat

/-- The two bytes of a position. -/
theorem split_position (v : UInt16) :
    ((v >>> 8) &&& 0xFF).toUInt8.toNat * 256 + (v &&& 0xFF).toUInt8.toNat = v.toNat := by
  have hv := v.toNat_lt
  have h8 : (8 : UInt16).toNat % 16 = 8 := rfl
  have hFF : (0xFF : UInt16).toNat = 2 ^ 8 - 1 := rfl
  rw [UInt16.toNat_toUInt8, UInt16.toNat_toUInt8, UInt16.toNat_and, UInt16.toNat_and, hFF,
    Nat.and_two_pow_sub_one_eq_mod, Nat.and_two_pow_sub_one_eq_mod, UInt16.toNat_shiftRight, h8,
    Nat.shiftRight_eq_div_pow]
  omega

/-- **`UpdateCursor`** programs the place of the cursor. -/
theorem position_updateCursor (c : Crtc) (k : Kernel) :
    (c.after (VGATextMode.updateCursor k).dev.ports).position =
      80 * k.dev.vga.cursorY.toNat + k.dev.vga.cursorX.toNat := by
  have hx := k.dev.vga.cursorX.toNat_lt
  have hy := k.dev.vga.cursorY.toNat_lt
  have h80 : (80 : UInt16).toNat = 80 := rfl
  obtain ⟨v, hv⟩ : ∃ v, v = k.dev.vga.cursorY.toUInt16 * 80 + k.dev.vga.cursorX.toUInt16 :=
    ⟨_, rfl⟩
  have hregs : (c.after (VGATextMode.updateCursor k).dev.ports).position =
      ((v >>> 8) &&& 0xFF).toUInt8.toNat * 256 + (v &&& 0xFF).toUInt8.toNat := by
    rw [hv]
    rfl
  rw [hregs, split_position, hv, UInt16.toNat_add, UInt16.toNat_mul, UInt8.toNat_toUInt16,
    UInt8.toNat_toUInt16, h80]
  omega

end Crtc

/-- The cursor is on the screen. -/
def CursorOn (k : Kernel) : Prop :=
  k.dev.vga.cursorX.toNat < 80 ∧ k.dev.vga.cursorY.toNat < 25

/-! ## `PutChar` in three steps -/

namespace VGATextMode

/-- The `switch` of `PutChar`. -/
def switchChar (c : UInt8) (k : Kernel) : VGATextMode × Kernel :=
  let vga := k.dev.vga
  if c = 10 then ({ vga with cursorX := 0, cursorY := vga.cursorY + 1 }, k)
  else if c = 13 then ({ vga with cursorX := 0 }, k)
  else if c = 9 then ({ vga with cursorX := (vga.cursorX + 4) &&& 0xFC }, k)
  else if c = 8 then
    if vga.cursorX > 0 then
      let vga := { vga with cursorX := vga.cursorX - 1 }
      (vga, setCell (80 * vga.cursorY.toNat + vga.cursorX.toNat) (vga.attrib ||| 32) k)
    else (vga, k)
  else
    ({ vga with cursorX := vga.cursorX + 1 },
      setCell (80 * vga.cursorY.toNat + vga.cursorX.toNat) (vga.attrib ||| charBits c) k)

/-- The wrap at column 80. -/
def wrapCursor (vga : VGATextMode) : VGATextMode :=
  if vga.cursorX ≥ 80 then { vga with cursorX := 0, cursorY := vga.cursorY + 1 } else vga

/-- The state in which `PutChar` decides whether to scroll. -/
def beforeScroll (c : UInt8) (k : Kernel) : Kernel :=
  (switchChar c k).2.setVga (wrapCursor (switchChar c k).1)

theorem putChar_eq (c : UInt8) (k : Kernel) : putChar c k =
    updateCursor (if (beforeScroll c k).dev.vga.cursorY ≥ 25 then scroll (beforeScroll c k)
      else beforeScroll c k) := rfl

/-- The number of calls of `Scroll` by `PutChar`, -/
def scrollsOfChar (c : UInt8) (k : Kernel) : ℕ :=
  if (beforeScroll c k).dev.vga.cursorY ≥ 25 then 1 else 0

/-- and by `PutChar` of several characters. -/
def scrollsOf : List UInt8 → Kernel → ℕ
  | [], _ => 0
  | c :: cs, k => scrollsOfChar c k + scrollsOf cs (putChar c k)

end VGATextMode

/-! ## The screen shows the end of the page -/

open VGATextMode

/-- **The screen shows the page** from row `S` on, with the same cursor and colours. -/
structure View (k : Kernel) (S : ℕ) (t : Terminal) : Prop where
  foreground : k.dev.vga.foregroundColor = t.foreground
  background : k.dev.vga.backgroundColor = t.background
  col : t.col = k.dev.vga.cursorX.toNat
  row : t.row = S + k.dev.vga.cursorY.toNat
  exposed : t.exposed = S + 25
  cells : ∀ r < 25, ∀ c < 80, cell k.mem (80 * r + c) = (t.page (S + r) c).encode

section View

variable {k k' : Kernel} {S : ℕ} {t : Terminal} {c : UInt8} {g : Glyph} {n : ℕ}

/-- What `View` says of the colours. -/
theorem View.attrib_blank (h : View k S t) : k.dev.vga.attrib ||| 32 = t.blank.encode := by
  rw [attrib, h.foreground, h.background]
  rfl

theorem View.attrib_char (h : View k S t) (hc : c < 0x80) :
    k.dev.vga.attrib ||| charBits c = Glyph.encode ⟨c, t.foreground, t.background⟩ := by
  rw [attrib, h.foreground, h.background, charBits, if_pos hc]
  rfl

/-- A store into the cell of a place on the page. -/
theorem View.cells_setCell (h : View k S t) {x y : ℕ} (hx : x < 80) (hy : y < 25) :
    ∀ r < 25, ∀ c < 80, cell (setCell (80 * y + x) g.encode k).mem (80 * r + c) =
      (if S + r = S + y ∧ c = x then g else t.page (S + r) c).encode := by
  intro r hr c hc
  rw [cell_setCell (by omega) (by omega)]
  by_cases heq : r = y ∧ c = x
  · obtain ⟨rfl, rfl⟩ := heq
    rw [if_pos rfl, if_pos ⟨rfl, rfl⟩]
  · rw [if_neg (by omega), if_neg (by omega), h.cells r hr c hc]

/-- The character that a cell shows. -/
def Glyph.decode (v : UInt16) : Glyph := ⟨v.toUInt8, (v >>> 8).toUInt8, 0⟩

theorem Glyph.encode_decode (v : UInt16) : (Glyph.decode v).encode = v := by
  refine Eq.trans ?_ (join_bytes v)
  show (0 : UInt8).toUInt16 <<< 12 ||| (v >>> 8).toUInt8.toUInt16 <<< 8 ||| v.toUInt8.toUInt16 = _
  rw [show (0 : UInt8).toUInt16 <<< 12 = 0 from rfl, UInt16.zero_or, UInt16.or_comm]

/-- A page that holds what the screen shows. -/
def Terminal.ofScreen (k : Kernel) : Terminal :=
  ⟨fun r c => .decode (cell k.mem (80 * r + c)), 25, k.dev.vga.cursorY.toNat,
    k.dev.vga.cursorX.toNat, k.dev.vga.foregroundColor, k.dev.vga.backgroundColor⟩

/-- **Every screen shows a page.** -/
theorem view_ofScreen (k : Kernel) : View k 0 (.ofScreen k) where
  foreground := rfl
  background := rfl
  col := rfl
  row := (Nat.zero_add _).symm
  exposed := rfl
  cells r _ c _ := by
    rw [Nat.zero_add]
    exact (Glyph.encode_decode _).symm

/-- The next multiple of 4 in eight bits. -/
theorem toNat_tab (x : UInt8) (hx : x.toNat < 80) :
    ((x + 4) &&& 0xFC).toNat = (x.toNat / 4 + 1) * 4 := by
  have htab : ∀ n < 80, ((UInt8.ofNat n + 4) &&& 0xFC).toNat = (n / 4 + 1) * 4 := by decide
  have h := htab x.toNat hx
  rwa [UInt8.ofNat_toNat] at h

theorem toNat_succ (x : UInt8) (hx : x.toNat < 80) : (x + 1).toNat = x.toNat + 1 := by
  have h1 : (1 : UInt8).toNat = 1 := rfl
  rw [UInt8.toNat_add, h1]
  omega

theorem lt_eighty_iff {x : UInt8} : x ≥ 80 ↔ 80 ≤ x.toNat := UInt8.le_iff_toNat_le

/-- **The `switch`** acts on the page. -/
theorem View.switchChar (h : View k S t) (hc : c < 0x80) (hx : k.dev.vga.cursorX.toNat < 80)
    (hy : k.dev.vga.cursorY.toNat < 25) :
    View ((switchChar c k).2.setVga (switchChar c k).1) S (t.move c) ∧
      SameOffScreen k (switchChar c k).2 := by
  have hcol := h.col
  have hrow := h.row
  unfold VGATextMode.switchChar Terminal.move
  simp only
  by_cases h10 : c = 10
  · rw [if_pos h10, if_pos h10]
    refine ⟨⟨h.foreground, h.background, rfl, ?_, h.exposed, h.cells⟩, .refl k⟩
    show t.row + 1 = S + (k.dev.vga.cursorY + 1).toNat
    rw [toNat_succ _ (by omega)]
    omega
  rw [if_neg h10, if_neg h10]
  by_cases h13 : c = 13
  · rw [if_pos h13, if_pos h13]
    exact ⟨⟨h.foreground, h.background, rfl, h.row, h.exposed, h.cells⟩, .refl k⟩
  rw [if_neg h13, if_neg h13]
  by_cases h9 : c = 9
  · rw [if_pos h9, if_pos h9]
    refine ⟨⟨h.foreground, h.background, ?_, h.row, h.exposed, h.cells⟩, .refl k⟩
    show (t.col / 4 + 1) * 4 = ((k.dev.vga.cursorX + 4) &&& 0xFC).toNat
    rw [toNat_tab _ hx, hcol]
  rw [if_neg h9, if_neg h9]
  by_cases h8 : c = 8
  · rw [if_pos h8, if_pos h8]
    have h0 : k.dev.vga.cursorX > 0 ↔ t.col > 0 := by
      rw [hcol]
      exact UInt8.lt_iff_toNat_lt
    by_cases hpos : t.col > 0
    · rw [if_pos (h0.mpr hpos), if_pos hpos]
      have hpred : (k.dev.vga.cursorX - 1).toNat = k.dev.vga.cursorX.toNat - 1 :=
        UInt8.toNat_sub_of_le _ _ (UInt8.le_iff_toNat_le.mpr (show 1 ≤ _ by omega))
      have hcells := h.cells_setCell (g := t.blank)
        (show k.dev.vga.cursorX.toNat - 1 < 80 by omega) hy
      refine ⟨⟨h.foreground, h.background, ?_, h.row, h.exposed, ?_⟩,
        sameOffScreen_setCell (show 80 * k.dev.vga.cursorY.toNat +
          (k.dev.vga.cursorX - 1).toNat < 2000 by omega)⟩
      · show t.col - 1 = (k.dev.vga.cursorX - 1).toNat
        omega
      · show ∀ r < 25, ∀ c < 80, cell (setCell (80 * k.dev.vga.cursorY.toNat +
          (k.dev.vga.cursorX - 1).toNat) (k.dev.vga.attrib ||| 32) k).mem (80 * r + c) =
            (if S + r = t.row ∧ c = t.col - 1 then t.blank else t.page (S + r) c).encode
        rw [h.attrib_blank, hpred, hrow, hcol]
        exact hcells
    · rw [if_neg (mt h0.mp hpos), if_neg hpos]
      exact ⟨h, .refl k⟩
  rw [if_neg h8, if_neg h8]
  have hcells := h.cells_setCell (g := ⟨c, t.foreground, t.background⟩) hx hy
  refine ⟨⟨h.foreground, h.background, ?_, h.row, h.exposed, ?_⟩,
    sameOffScreen_setCell (by omega)⟩
  · show t.col + 1 = (k.dev.vga.cursorX + 1).toNat
    rw [toNat_succ _ hx, hcol]
  · show ∀ r < 25, ∀ c' < 80, cell (setCell (80 * k.dev.vga.cursorY.toNat +
      k.dev.vga.cursorX.toNat) (k.dev.vga.attrib ||| charBits c) k).mem (80 * r + c') =
        (if S + r = t.row ∧ c' = t.col then ⟨c, t.foreground, t.background⟩
          else t.page (S + r) c').encode
    rw [h.attrib_char hc, hrow, hcol]
    exact hcells

/-- The wrap at column 80 acts on the page. -/
theorem View.wrapCursor {vga : VGATextMode} (h : View (k.setVga vga) S t)
    (hy : vga.cursorY.toNat < 26) : View (k.setVga (wrapCursor vga)) S t.wrap := by
  have hcol : t.col = vga.cursorX.toNat := h.col
  have hrow : t.row = S + vga.cursorY.toNat := h.row
  unfold VGATextMode.wrapCursor Terminal.wrap
  by_cases hge : vga.cursorX ≥ 80
  · have hge' := lt_eighty_iff.mp hge
    rw [if_pos hge, if_pos (by omega)]
    refine ⟨h.foreground, h.background, rfl, ?_, h.exposed, h.cells⟩
    show t.row + 1 = S + (vga.cursorY + 1).toNat
    rw [toNat_succ _ (by omega)]
    omega
  · have hlt := mt lt_eighty_iff.mpr hge
    rw [if_neg hge, if_neg (by omega)]
    exact h

theorem Terminal.row_le_wrap (t : Terminal) : t.row ≤ t.wrap.row := by
  unfold Terminal.wrap
  split
  · exact Nat.le_succ _
  · exact le_rfl

/-- Where a character leaves the cursor. -/
theorem Terminal.wrap_move_bounds (t : Terminal) (c : UInt8) (hcol : t.col < 80) :
    (t.move c).wrap.col < 80 ∧ (t.move c).wrap.row ≤ t.row + 1 := by
  have htab : (t.col / 4 + 1) * 4 ≤ 80 := by omega
  unfold Terminal.move Terminal.wrap Terminal.write
  split_ifs <;> grind

/-- **`Scroll`** is a new row of the page. -/
theorem View.scroll (h : View k S t) (hy : k.dev.vga.cursorY.toNat = 25) :
    View (scroll k) (S + 1) t.expose ∧ SameOffScreen k (scroll k) := by
  obtain ⟨k', hpaint, hscroll⟩ := scroll_eq k
  have hrow := h.row
  have hexposed := h.exposed
  rw [hscroll]
  refine ⟨⟨h.foreground, h.background, h.col, ?_, ?_, fun r hr c hc => ?_⟩, hpaint.off⟩
  · show t.row = S + 1 + 24
    omega
  · show t.exposed + 1 = S + 1 + 25
    omega
  · show cell k'.mem (80 * r + c) =
      (if S + 1 + r = t.exposed then t.blank else t.page (S + 1 + r) c).encode
    rw [hpaint.cell _ (by omega), if_pos (by omega), scrolled]
    by_cases hr24 : r = 24
    · rw [if_neg (by omega), if_pos (by omega), h.attrib_blank]
    · rw [if_pos (by omega), if_neg (by omega), show 80 * r + c + 80 = 80 * (r + 1) + c by omega,
        h.cells (r + 1) (by omega) c hc, Nat.add_assoc, Nat.add_comm 1 r]

/-- **The screen shows the page between two calls**: the cursor is on it, and the CRT
controller has its position. -/
structure Shows (c0 : Crtc) (k : Kernel) (S : ℕ) (t : Terminal) : Prop extends View k S t where
  col_lt : k.dev.vga.cursorX.toNat < 80
  row_lt : k.dev.vga.cursorY.toNat < 25
  position : (c0.after k.dev.ports).position =
    80 * k.dev.vga.cursorY.toNat + k.dev.vga.cursorX.toNat

end View

/-! ## The operations -/

section Operations

variable {c0 : Crtc} {k : Kernel} {S : ℕ} {t : Terminal} {c : UInt8} {cs : List UInt8}

/-- `UpdateCursor` makes the position that of the cursor. -/
theorem View.updateCursor (h : View k S t) (hx : k.dev.vga.cursorX.toNat < 80)
    (hy : k.dev.vga.cursorY.toNat < 25) : Shows c0 (updateCursor k) S t :=
  ⟨⟨h.foreground, h.background, h.col, h.row, h.exposed, h.cells⟩, hx, hy,
    Crtc.position_updateCursor c0 k⟩

/-- `UpdateCursor` does not touch the memory. -/
theorem SameOffScreen.updateCursor {k' : Kernel} (h : SameOffScreen k k') :
    SameOffScreen k (updateCursor k') := h

/-- **`PutChar`** writes a character on the page. -/
theorem View.putChar (h : View k S t) (hx : k.dev.vga.cursorX.toNat < 80)
    (hlt : k.dev.vga.cursorY.toNat < 25) (hc : c < 0x80) :
    Shows c0 (VGATextMode.putChar c k) (S + scrollsOfChar c k) (t.putChar c) ∧
      SameOffScreen k (VGATextMode.putChar c k) := by
  have hcol := h.col
  have hrow := h.row
  have hexposed := h.exposed
  obtain ⟨hview, hoff⟩ := h.switchChar hc hx hlt
  obtain ⟨hcol80, hle⟩ := t.wrap_move_bounds c (by rw [hcol]; exact hx)
  have hwrap := (t.move c).row_le_wrap
  have hbefore : View (beforeScroll c k) S (t.move c).wrap := by
    have hmove : (t.move c).row = S + (VGATextMode.switchChar c k).1.cursorY.toNat := hview.row
    exact hview.wrapCursor (by omega)
  have hoff' : SameOffScreen k (beforeScroll c k) := hoff
  have hcol' := hbefore.col
  have hrow' := hbefore.row
  have hexposed' := hbefore.exposed
  have hy : (beforeScroll c k).dev.vga.cursorY ≥ 25 ↔
      25 ≤ (beforeScroll c k).dev.vga.cursorY.toNat := UInt8.le_iff_toNat_le
  rw [putChar_eq, scrollsOfChar, Terminal.putChar]
  by_cases hscroll : (beforeScroll c k).dev.vga.cursorY ≥ 25
  · have hge := hy.mp hscroll
    have hrow25 : (t.move c).wrap.row ≥ (t.move c).wrap.exposed := by omega
    rw [if_pos hscroll, if_pos hscroll, if_pos hrow25]
    obtain ⟨hview', hoff''⟩ := hbefore.scroll (by omega)
    have hcol'' : (t.move c).wrap.col = _ := hview'.col
    have hrow'' : (t.move c).wrap.row = _ := hview'.row
    exact ⟨hview'.updateCursor (by omega) (by omega), (hoff'.trans hoff'').updateCursor⟩
  · have hlt' := mt hy.mpr hscroll
    have hrow25 : ¬ (t.move c).wrap.row ≥ (t.move c).wrap.exposed := by omega
    rw [if_neg hscroll, if_neg hscroll, if_neg hrow25]
    exact ⟨hbefore.updateCursor (by omega) (by omega), hoff'.updateCursor⟩

theorem Shows.putChar (h : Shows c0 k S t) (hc : c < 0x80) :
    Shows c0 (VGATextMode.putChar c k) (S + scrollsOfChar c k) (t.putChar c) ∧
      SameOffScreen k (VGATextMode.putChar c k) :=
  h.toView.putChar h.col_lt h.row_lt hc

/-- `PutChar` of several characters. -/
theorem Shows.print (h : Shows c0 k S t) (hcs : ∀ c ∈ cs, c < 0x80) :
    Shows c0 (cs.foldl (fun k c => VGATextMode.putChar c k) k) (S + scrollsOf cs k) (t.print cs) ∧
      SameOffScreen k (cs.foldl (fun k c => VGATextMode.putChar c k) k) := by
  induction cs generalizing k S t with
  | nil => exact ⟨h, .refl k⟩
  | cons c cs ih =>
    rw [List.forall_mem_cons] at hcs
    obtain ⟨hchar, hoff⟩ := h.putChar hcs.1
    obtain ⟨hrest, hoff'⟩ := ih hchar hcs.2
    rw [List.foldl_cons, scrollsOf, ← Nat.add_assoc]
    exact ⟨hrest, hoff.trans hoff'⟩

/-- **`Clear`** starts a new page, whatever the screen showed. -/
theorem shows_clear (hf : k.dev.vga.foregroundColor = t.foreground)
    (hb : k.dev.vga.backgroundColor = t.background) :
    Shows c0 (clear k) 0 t.clear ∧ SameOffScreen k (clear k) := by
  obtain ⟨k', hpaint, hclear⟩ := clear_eq k
  rw [hclear]
  refine ⟨View.updateCursor ⟨hf, hb, rfl, rfl, rfl, fun r hr c hc => ?_⟩
    (show 0 < 80 by decide) (show 0 < 25 by decide), hpaint.off⟩
  show cell k'.mem (80 * r + c) = t.blank.encode
  rw [hpaint.cell _ (by omega), if_pos (by omega), attrib, hf, hb]
  rfl

/-- `SetColor` changes no cell. -/
theorem Shows.setColor (h : Shows c0 k S t) (foreground background : UInt8) :
    Shows c0 (setColor foreground background k) S (t.setColor foreground background) :=
  ⟨⟨rfl, rfl, h.col, h.row, h.exposed, h.cells⟩, h.col_lt, h.row_lt, h.position⟩

/-- **`SetCursorPosition`** goes to a place on the screen, or is refused. -/
theorem Shows.setCursorPosition (h : Shows c0 k S t) (x y : UInt8) :
    Shows c0 (setCursorPosition x y k) S (t.setCursorPosition x.toNat y.toNat) := by
  have hiff : (x < 80 ∧ y < 25) ↔ (x.toNat < 80 ∧ y.toNat < 25) :=
    and_congr UInt8.lt_iff_toNat_lt UInt8.lt_iff_toNat_lt
  have hexposed := h.exposed
  unfold VGATextMode.setCursorPosition Terminal.setCursorPosition
  by_cases hin : x < 80 ∧ y < 25
  · rw [if_pos hin, if_pos (hiff.mp hin)]
    refine View.updateCursor ⟨h.foreground, h.background, rfl, ?_, h.exposed, h.cells⟩
      (hiff.mp hin).1 (hiff.mp hin).2
    show t.exposed - 25 + y.toNat = S + y.toNat
    omega
  · rw [if_neg hin, if_neg (mt hiff.mpr hin)]
    exact h

end Operations

/-! ## Runs -/

/-- The characters that `Print` finds. -/
def textFrom (str : CharPtr) : (fuel i : ℕ) → Kernel → List UInt8
  | 0, _, _ => []
  | fuel + 1, i, k =>
    if str k.mem i = 0 then []
    else str k.mem i :: textFrom str fuel (i + 1) (VGATextMode.putChar (str k.mem i) k)

/-- `Print` is `PutChar` of these characters. -/
theorem forChars_putChar {str : CharPtr} {fuel i : ℕ} {k k' : Kernel}
    (h : forChars str VGATextMode.putChar fuel i k = some k') :
    k' = (textFrom str fuel i k).foldl (fun k c => VGATextMode.putChar c k) k := by
  induction fuel generalizing i k with
  | zero => cases h
  | succ fuel ih =>
    rw [forChars] at h
    rw [textFrom]
    split at h
    · next h0 =>
      cases h
      rw [if_pos h0]
      rfl
    · next h0 =>
      rw [if_neg h0, List.foldl_cons]
      exact ih h

/-- `Print` of characters that do not lie in memory. -/
theorem forChars_of_chars {k : Kernel} {str : CharPtr} {body : UInt8 → Kernel → Kernel} (cs : List UInt8)
    {fuel i : ℕ} (h0 : 0 ∉ cs) (hfuel : cs.length < fuel)
    (hstr : ∀ m j, str m (i + j) = cs.getD j 0) :
    forChars str body fuel i k = some (cs.foldl (fun k c => body c k) k) := by
  induction cs generalizing fuel i k with
  | nil =>
    obtain ⟨fuel, rfl⟩ := Nat.exists_eq_succ_of_ne_zero (Nat.ne_of_gt hfuel)
    exact if_pos (hstr k.mem 0)
  | cons c cs ih =>
    obtain ⟨fuel, rfl⟩ := Nat.exists_eq_succ_of_ne_zero (Nat.ne_of_gt (Nat.zero_lt_of_lt hfuel))
    rw [List.mem_cons, not_or] at h0
    rw [List.length_cons] at hfuel
    have hc : str k.mem i = c := hstr k.mem 0
    rw [forChars, hc, if_neg fun h => h0.1 h.symm, List.foldl_cons]
    refine ih h0.2 (by omega) fun m j => ?_
    rw [Nat.add_assoc, Nat.add_comm 1 j, hstr m (j + 1), List.getD_cons_succ]

/-- From the character at `i` on, a string that is not on the screen is printed to its end,
when the characters before leave the memory outside the screen alone. -/
theorem forChars_of_text {P : Kernel → Prop} {k : Kernel} {str : CharPtr} {cs : List UInt8}
    {fuel i : ℕ} (hP : ∀ c ∈ cs, ∀ k, P k →
      P (VGATextMode.putChar c k) ∧ SameOffScreen k (VGATextMode.putChar c k))
    (h : P k) (h0 : 0 ∉ cs) (hfuel : cs.length < fuel)
    (hstr : ∀ k', SameOffScreen k k' → ∀ j ≤ cs.length, str k'.mem (i + j) = cs.getD j 0) :
    textFrom str fuel i k = cs ∧ forChars str VGATextMode.putChar fuel i k =
      some (cs.foldl (fun k c => VGATextMode.putChar c k) k) := by
  induction cs generalizing fuel i k with
  | nil =>
    obtain ⟨fuel, rfl⟩ : ∃ n, fuel = n + 1 := ⟨fuel - 1, by simp only [List.length_nil] at hfuel; omega⟩
    have hend : str k.mem i = 0 := hstr k (.refl k) 0 le_rfl
    rw [textFrom, forChars, if_pos hend, if_pos hend]
    exact ⟨rfl, rfl⟩
  | cons c cs ih =>
    rw [List.length_cons] at hfuel hstr
    rw [List.forall_mem_cons] at hP
    rw [List.mem_cons, not_or] at h0
    obtain ⟨fuel, rfl⟩ : ∃ n, fuel = n + 1 := ⟨fuel - 1, by omega⟩
    have hfirst : str k.mem i = c := hstr k (.refl k) 0 (Nat.zero_le _)
    have hne : ¬ c = 0 := fun heq => h0.1 heq.symm
    obtain ⟨hchar, hoff⟩ := hP.1 k h
    have hstr' : ∀ k', SameOffScreen (VGATextMode.putChar c k) k' → ∀ j ≤ cs.length,
        str k'.mem (i + 1 + j) = cs.getD j 0 := fun k' hk' j hj => by
      rw [Nat.add_assoc, Nat.add_comm 1 j, hstr k' (hoff.trans hk') (j + 1) (by omega),
        List.getD_cons_succ]
    have hfuel' : cs.length < fuel := by omega
    obtain ⟨htext, hrest⟩ := ih hP.2 hchar h0.2 hfuel' hstr'
    rw [textFrom, forChars, hfirst, if_neg hne, if_neg hne, htext, hrest]
    exact ⟨rfl, rfl⟩

/-- **`Print` of a string that is not on the screen** returns, and writes the string. -/
theorem print_of_text {P : Kernel → Prop} {k : Kernel} {str : CharPtr} (cs : CStr)
    (hP : ∀ c ∈ cs.chars, ∀ k, P k →
      P (VGATextMode.putChar c k) ∧ SameOffScreen k (VGATextMode.putChar c k))
    (h : P k) (hlen : cs.chars.length < 2 ^ 31)
    (hstr : ∀ k', SameOffScreen k k' → ∀ j ≤ cs.chars.length, str k'.mem j = cs.get j) :
    textFrom str (2 ^ 31) 0 k = cs.chars ∧ VGATextMode.print str k =
      some (cs.chars.foldl (fun k c => VGATextMode.putChar c k) k) :=
  forChars_of_text hP h cs.noNul hlen fun k' hk' j hj => by rw [Nat.zero_add, hstr k' hk' j hj]; rfl

/-- An operation of `VGATextMode`. -/
inductive ScreenOp where
  | clear
  | setColor (foreground background : UInt8)
  | setCursorPosition (x y : UInt8)
  | putChar (c : UInt8)
  | print (str : CharPtr)

namespace ScreenOp

/-- The operation on the screen. -/
def onScreen (k : Kernel) : ScreenOp → Option Kernel
  | clear => some (VGATextMode.clear k)
  | setColor foreground background => some (VGATextMode.setColor foreground background k)
  | setCursorPosition x y => some (VGATextMode.setCursorPosition x y k)
  | putChar c => some (VGATextMode.putChar c k)
  | print str => VGATextMode.print str k

/-- The characters that it writes. -/
def chars (k : Kernel) : ScreenOp → List UInt8
  | putChar c => [c]
  | print str => textFrom str (2 ^ 31) 0 k
  | clear | setColor _ _ | setCursorPosition _ _ => []

/-- The operation on the page. -/
def onPage (k : Kernel) (t : Terminal) : ScreenOp → Terminal
  | clear => t.clear
  | setColor foreground background => t.setColor foreground background
  | setCursorPosition x y => t.setCursorPosition x.toNat y.toNat
  | putChar c => t.putChar c
  | print str => t.print ((print str).chars k)

/-- The number of scrolls since the last `Clear`. -/
def scrolls (k : Kernel) (n : ℕ) : ScreenOp → ℕ
  | clear => 0
  | op => n + scrollsOf (op.chars k) k

end ScreenOp

/-- The screen, the number of scrolls since the last `Clear`, and the page. -/
structure Watched where
  kernel : Kernel
  scrolls : ℕ
  terminal : Terminal

namespace Watched

/-- One operation. -/
def step (w : Watched) (op : ScreenOp) : Option Watched :=
  (op.onScreen w.kernel).map fun k =>
    ⟨k, op.scrolls w.kernel w.scrolls, op.onPage w.kernel w.terminal⟩

/-- After the constructor. -/
def start (k : Kernel) : Watched := ⟨VGATextMode.construct k, 0, .new⟩

/-- **One operation keeps the screen a window on the page.** -/
theorem step_shows {c0 : Crtc} {w w' : Watched} {op : ScreenOp}
    (h : Shows c0 w.kernel w.scrolls w.terminal)
    (hchars : ∀ c ∈ op.chars w.kernel, c < 0x80) (hstep : w.step op = some w') :
    Shows c0 w'.kernel w'.scrolls w'.terminal ∧ SameOffScreen w.kernel w'.kernel := by
  obtain ⟨k, hk, rfl⟩ := Option.map_eq_some_iff.mp hstep
  cases op with
  | clear =>
    cases hk
    exact shows_clear h.foreground h.background
  | setColor foreground background =>
    cases hk
    exact ⟨h.setColor foreground background, .refl _⟩
  | setCursorPosition x y =>
    cases hk
    refine ⟨h.setCursorPosition x y, fun a _ => ?_⟩
    rw [VGATextMode.setCursorPosition]
    split <;> rfl
  | putChar c =>
    cases hk
    exact @Shows.print c0 _ _ _ [c] h hchars
  | print str =>
    rw [forChars_putChar hk]
    exact h.print hchars

/-- **The screen is a window on the page.**  After any operations since the constructor with
characters below `0x80`, the cursor is on the screen, no byte outside the 2000 cells has
changed, the screen shows the rows of the page from the number of scrolls since the last
`Clear` on, the cursor of the page is that of the screen, and the CRT controller has its
position.  A `Print` of a string that is not on the screen returns, and writes the string on
the page. -/
theorem screen_shows_page (k0 : Kernel) (c0 : Crtc) (ops : List ScreenOp) (w : Watched)
    (hrun : Run (fun w op w' => (∀ c ∈ op.chars w.kernel, c < 0x80) ∧ w.step op = some w')
      (start k0) ops w) :
    let vga := w.kernel.dev.vga
    vga.cursorX < 80 ∧ vga.cursorY < 25 ∧
      (∀ x, ¬ OnScreen x → loadByte w.kernel.mem x = loadByte k0.mem x) ∧
      (∀ r < 25, ∀ c < 80,
        cell w.kernel.mem (80 * r + c) = (w.terminal.page (w.scrolls + r) c).encode) ∧
      (w.terminal.exposed = w.scrolls + 25 ∧ w.terminal.col = vga.cursorX.toNat ∧
        w.terminal.row = vga.cursorY.toNat + w.scrolls) ∧
      (c0.after w.kernel.dev.ports).position = 80 * vga.cursorY.toNat + vga.cursorX.toNat ∧
      ∀ (str : CharPtr) (cs : CStr), (∀ c ∈ cs.chars, c < 0x80) → cs.chars.length < 2 ^ 31 →
        (∀ k', SameOffScreen w.kernel k' → ∀ j ≤ cs.chars.length, str k'.mem j = cs.get j) →
          ∃ w', w.step (.print str) = some w' ∧ w'.terminal = w.terminal.print cs.chars := by
  have hstart : Shows c0 (VGATextMode.construct k0) 0 .new ∧
      SameOffScreen k0 (VGATextMode.construct k0) :=
    @shows_clear c0 (k0.setVga ⟨0, 0, VGATextMode.white, VGATextMode.black⟩)
      ⟨fun _ _ => ⟨32, 15, 0⟩, 25, 0, 0, 15, 0⟩ rfl rfl
  obtain ⟨h, hoff⟩ := hrun.invariant
    (fun w => Shows c0 w.kernel w.scrolls w.terminal ∧ SameOffScreen k0 w.kernel)
    (fun w op w' hst hw => by
      obtain ⟨hshows, hoff⟩ := step_shows hw.1 hst.1 hst.2
      exact ⟨hshows, hw.2.trans hoff⟩) hstart
  refine ⟨UInt8.lt_iff_toNat_lt.mpr h.col_lt, UInt8.lt_iff_toNat_lt.mpr h.row_lt, hoff, h.cells,
    ⟨h.exposed, h.col, ?_⟩, h.position, fun str cs hcs hlen hstr => ?_⟩
  · rw [h.row, Nat.add_comm]
  · have hshows : ∀ c ∈ cs.chars, ∀ k, (∃ S t, Shows c0 k S t) →
        (∃ S t, Shows c0 (VGATextMode.putChar c k) S t) ∧
          SameOffScreen k (VGATextMode.putChar c k) := fun c hc k ⟨S, t, h⟩ =>
      ⟨⟨_, _, (h.putChar (hcs c hc)).1⟩, (h.putChar (hcs c hc)).2⟩
    obtain ⟨htext, hprint⟩ := print_of_text cs hshows ⟨_, _, h⟩ hlen hstr
    refine ⟨_, by rw [step, ScreenOp.onScreen, hprint]; rfl, ?_⟩
    rw [ScreenOp.onPage, ScreenOp.chars, htext]

/-- A kernel with nothing in memory. -/
def blankKernel : Kernel := ⟨fun _ => 0, ⟨[], 0, 0, ⟨0, 0, 0, 0⟩, none⟩⟩

/-- Two characters at the end of the screen: the second one wraps, and the first is then
seen one line higher. -/
theorem screen_shows_page_after_scroll :
    ∃ w, Run (fun w op w' => (∀ c ∈ op.chars w.kernel, c < 0x80) ∧ w.step op = some w')
        (start blankKernel) [.setCursorPosition 78 24, .putChar 65, .putChar 66] w ∧
      w.scrolls = 1 ∧ cell w.kernel.mem (80 * 23 + 78) = 0x0F41 := by
  have hrun : Run (fun w op w' => (∀ c ∈ op.chars w.kernel, c < 0x80) ∧ w.step op = some w')
      (start blankKernel) [.setCursorPosition 78 24, .putChar 65, .putChar 66] _ :=
    .cons ⟨by simp [ScreenOp.chars], rfl⟩
      (.cons ⟨by simp [ScreenOp.chars], rfl⟩ (.single ⟨by simp [ScreenOp.chars], rfl⟩))
  refine ⟨_, hrun, by decide +kernel, ?_⟩
  rw [(screen_shows_page blankKernel ⟨0, fun _ => 0⟩ _ _ hrun).2.2.2.1 23 (by decide) 78
    (by decide)]
  decide +kernel

end Watched
