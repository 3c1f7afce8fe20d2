/-
# What is written over a page

The mouse pointer and `printf` write into the screen without the text driver.  On the page
under the screen they change the glyphs of its visible rows and nothing else, and the text
driver leaves alone what they keep for themselves.  Colours never come back into the text:
pages with the same characters stay so.
-/
import HydraOS.MousePointer
import HydraOS.ShellScreen
import HydraOS.PrintfConsole

open X86

/-! ## The pointer -/

namespace Glyph

/-- The two colours in a byte, as they are in a cell. -/
def colors (g : Glyph) : UInt8 := (g.background <<< 4) ||| g.foreground

/-- A glyph with its two colours exchanged. -/
def exchange (g : Glyph) : Glyph := ⟨g.char, g.colors >>> 4, g.colors &&& 15⟩

/-- The pointer does not change the character under it. -/
theorem char_exchange (g : Glyph) : g.exchange.char = g.char := rfl

/-- Exchanging the colours of a glyph is exchanging the nibbles of its cell. -/
theorem encode_exchange (g : Glyph) : g.exchange.encode = swapColors g.encode := by
  unfold swapColors encode exchange colors
  apply UInt16.toBitVec_inj.mp
  apply BitVec.eq_of_getLsbD_eq
  intro i hi
  simp only [UInt16.toBitVec_or, UInt16.toBitVec_and, UInt16.toBitVec_shiftLeft,
    UInt16.toBitVec_shiftRight, UInt8.toBitVec_toUInt16, UInt8.toBitVec_or, UInt8.toBitVec_and,
    UInt8.toBitVec_shiftLeft, UInt8.toBitVec_shiftRight]
  interval_cases i <;> simp

/-- The character of a cell. -/
theorem toUInt8_encode (g : Glyph) : g.encode.toUInt8 = g.char := by
  rw [encode, UInt16.toUInt8_or, UInt16.toUInt8_or, (VGATextMode.toUInt8_shiftLeft _).2,
    (VGATextMode.toUInt8_shiftLeft _).1, UInt8.toUInt8_toUInt16, UInt8.zero_or, UInt8.zero_or]

/-- Its colours do not depend on it. -/
theorem highByte_encode (g : Glyph) (c : UInt8) :
    VGATextMode.highByte ({ g with char := c } : Glyph).encode =
      VGATextMode.highByte g.encode := by
  simp only [encode, VGATextMode.highByte_or, (VGATextMode.highByte_shifts _).1]

end Glyph

/-- A cell is its character and its colours. -/
theorem cell_ext {v w : UInt16} (hchar : v.toUInt8 = w.toUInt8)
    (hcolors : VGATextMode.highByte v = VGATextMode.highByte w) : v = w := by
  rw [← join_bytes v, ← join_bytes w, hchar]
  exact congrArg (fun x : UInt8 => _ ||| x.toUInt16 <<< 8) hcolors

namespace Terminal

/-- One glyph of the visible rows, changed. -/
def alter (f : Glyph → Glyph) (i : ℕ) (t : Terminal) : Terminal :=
  { t with page := fun r c =>
      if r = t.exposed - 25 + i / 80 ∧ c = i % 80 then f (t.page r c) else t.page r c }

/-! ## `printf` -/

/-- The visible rows, as `printf` sees them with its cursor at a place. -/
def printfPage (t : Terminal) (place : ℕ) : PrintfPage where
  chars j := (t.page (t.exposed - 25 + j / 80) (j % 80)).char
  colors j := VGATextMode.highByte (t.page (t.exposed - 25 + j / 80) (j % 80)).encode
  place := place

/-- The visible rows with the characters that `printf` has left. -/
def overprint (p : PrintfPage) (t : Terminal) : Terminal :=
  { t with page := fun r c =>
      if t.exposed - 25 ≤ r ∧ r < t.exposed ∧ c < 80 then
        { t.page r c with char := p.chars (80 * (r - (t.exposed - 25)) + c) }
      else t.page r c }

end Terminal

section Overlays

variable {c0 : Crtc} {k k' : Kernel} {S : ℕ} {t : Terminal} {p q : PrintfPage}

open VGATextMode

/-- **A store over a cell** changes a glyph of the page. -/
theorem Shows.alter (h : Shows c0 k S t) {f : Glyph → Glyph} {F : UInt16 → UInt16}
    (hf : ∀ g, (f g).encode = F g.encode) {i : ℕ} (hi : i < 2000) :
    Shows c0 (setCell i (F (cell k.mem i)) k) S (t.alter f i) := by
  have hexposed := h.exposed
  refine ⟨⟨h.foreground, h.background, h.col, h.row, h.exposed, fun r hr c hc => ?_⟩, h.col_lt,
    h.row_lt, h.position⟩
  rw [cell_setCell hi (by omega), Terminal.alter]
  simp only
  by_cases heq : 80 * r + c = i
  · rw [if_pos heq, if_pos ⟨by omega, by omega⟩, hf, ← h.cells r hr c hc, heq]
  · rw [if_neg heq, if_neg (by omega)]
    exact h.cells r hr c hc

/-! ## What `printf` writes -/

/-- Pages with the same characters on the screen, and the same place. -/
def PrintfPage.Same (p q : PrintfPage) : Prop :=
  p.place = q.place ∧ ∀ j < 2000, p.chars j = q.chars j

/-- The next character goes to the same place. -/
theorem PrintfPage.Same.put (h : p.Same q) (c : UInt8) : (p.put c).Same (q.put c) := by
  have hturn {p q : PrintfPage} (h : p.Same q) : p.turn.Same q.turn := by
    rw [PrintfPage.turn, PrintfPage.turn, h.1]
    split
    · exact ⟨rfl, fun _ _ => rfl⟩
    · exact h
  obtain ⟨hplace, hchars⟩ := h
  rw [PrintfPage.put, PrintfPage.put, hplace]
  split
  · exact hturn ⟨rfl, hchars⟩
  · refine hturn ⟨rfl, fun j hj => ?_⟩
    simp only [Function.update_apply, hchars j hj]

/-- Texts on pages with the same characters. -/
theorem PrintfPage.Same.print (h : p.Same q) (texts : List CStr) :
    (PrintfPage.print texts p).Same (PrintfPage.print texts q) := by
  have hchars (cs : List UInt8) {p q : PrintfPage} (h : p.Same q) :
      (cs.foldl (fun p c => p.put c) p).Same (cs.foldl (fun p c => p.put c) q) := by
    induction cs generalizing p q with
    | nil => exact h
    | cons c cs ih => exact ih (h.put c)
  induction texts generalizing p q with
  | nil => exact h
  | cons text texts ih => exact ih (hchars text.chars h)

/-- The screen and the page are the same to `printf`. -/
theorem Shows.printfPage_same (h : Shows c0 k S t) {place : ℕ}
    (hplace : place = 80 * k.dev.printfY.toNat + k.dev.printfX.toNat) :
    (PrintfPage.ofScreen k).Same (t.printfPage place) := by
  have hexposed := h.exposed
  refine ⟨hplace.symm, fun j hj => ?_⟩
  have hcell := h.cells (j / 80) (by omega) (j % 80) (Nat.mod_lt _ (by omega))
  rw [Nat.div_add_mod] at hcell
  show (cell k.mem j).toUInt8 = (t.page (t.exposed - 25 + j / 80) (j % 80)).char
  rw [hcell, Glyph.toUInt8_encode, hexposed, Nat.add_sub_cancel]

/-- **Texts of `printf`** over a screen that shows a page. -/
theorem Shows.overprint (h : Shows c0 k S t) {texts : List CStr} {place : ℕ}
    (hplace : place = 80 * k.dev.printfY.toNat + k.dev.printfX.toNat)
    (hascii : ∀ text ∈ texts, ∀ c ∈ text.chars, c < 0x80)
    (hprintf : ShowsPrintf k (.print texts (.ofScreen k)) k') :
    Shows c0 k' S (t.overprint (.print texts (t.printfPage place))) := by
  have hexposed := h.exposed
  have hsame := ((h.printfPage_same hplace).print texts).2
  have hvga : k'.dev.vga = k.dev.vga := by rw [hprintf.cells.dev]
  have hports : k'.dev.ports = k.dev.ports := by rw [hprintf.cells.dev]
  refine ⟨⟨?_, ?_, ?_, ?_, h.exposed, fun r hr c hc => ?_⟩, ?_, ?_, ?_⟩
  · rw [hvga]
    exact h.foreground
  · rw [hvga]
    exact h.background
  · rw [hvga]
    exact h.col
  · rw [hvga]
    exact h.row
  · rw [Terminal.overprint]
    simp only
    rw [if_pos ⟨by omega, by omega, hc⟩]
    have hj : 80 * (S + r - (t.exposed - 25)) + c = 80 * r + c := by omega
    apply cell_ext
    · rw [hprintf.cells.chars _ (by omega), Glyph.toUInt8_encode, hj, hsame _ (by omega)]
    · rw [hprintf.cells.colors _ (by omega), Glyph.highByte_encode, colors_print hascii,
        ← h.cells r hr c hc]
      rfl
  · rw [hvga]
    exact h.col_lt
  · rw [hvga]
    exact h.row_lt
  · rw [hports, hvga]
    exact h.position

/-! ## What the text driver leaves alone -/

/-- A property of the kernel that the operations of the text driver keep. -/
structure KeptByDriver (P : Kernel → Prop) : Prop where
  putChar : ∀ c k, P k → P (putChar c k)
  setColor : ∀ foreground background k, P k → P (setColor foreground background k)
  clear : ∀ k, P k → P (clear k)

variable {P : Kernel → Prop} {digits : Bytes 11}

namespace KeptByDriver

/-- Several characters. -/
theorem chars (h : KeptByDriver P) (cs : List UInt8) (hk : P k) :
    P (cs.foldl (fun k c => VGATextMode.putChar c k) k) := by
  induction cs generalizing k with
  | nil => exact hk
  | cons c cs ih => exact ih (h.putChar c k hk)

/-- `Print`, if it returns. -/
theorem print (h : KeptByDriver P) {str : CharPtr} (hk : P k)
    (hrun : VGATextMode.print str k = some k') : P k' := by
  rw [forChars_putChar hrun]
  exact h.chars _ hk

theorem printHex (h : KeptByDriver P) (value : UInt8) (hk : P k) :
    P (VGATextMode.printHex value k) := h.putChar _ _ (h.putChar _ _ hk)

theorem printHex16 (h : KeptByDriver P) (value : UInt16) (hk : P k) :
    P (VGATextMode.printHex16 value k) := h.printHex _ (h.printHex _ hk)

theorem printHex32 (h : KeptByDriver P) (value : UInt32) (hk : P k) :
    P (VGATextMode.printHex32 value k) := h.printHex16 _ (h.printHex16 _ hk)

/-- The loop of `PrintNumber` over its buffer. -/
theorem putDigits (h : KeptByDriver P) (buffer : Bytes 11) (i : ℕ) (hk : P k)
    (hrun : VGATextMode.putDigits buffer i k = some k') : P k' := by
  induction i generalizing k with
  | zero =>
    cases hrun
    exact hk
  | succ i ih =>
    rw [VGATextMode.putDigits] at hrun
    split at hrun
    · exact ih (h.putChar _ _ hk) hrun
    · cases hrun

/-- A call of the shell. -/
theorem call (h : KeptByDriver P) (call : VgaCall) (hk : P k)
    (hrun : call.onScreen digits k = some k') : P k' := by
  cases call with
  | setColor foreground background =>
    cases hrun
    exact h.setColor _ _ _ hk
  | print text => exact h.print hk hrun
  | printHex value =>
    cases hrun
    exact h.printHex value hk
  | printNumber value =>
    replace hrun : VGATextMode.printNumber 11 digits value k = some k' := hrun
    rw [VGATextMode.printNumber] at hrun
    split at hrun
    · cases hrun
      exact h.putChar _ _ hk
    · obtain ⟨r, -, hr⟩ := Option.bind_eq_some_iff.mp hrun
      exact h.putDigits _ _ hk hr

/-- The calls of a text. -/
theorem calls (h : KeptByDriver P) (calls : List VgaCall) (hk : P k)
    (hrun : calls.foldlM (VgaCall.onScreen digits) k = some k') : P k' := by
  induction calls generalizing k with
  | nil =>
    cases hrun
    exact hk
  | cons call calls ih =>
    rw [List.foldlM_cons] at hrun
    obtain ⟨k1, hk1, hrun'⟩ := Option.bind_eq_some_iff.mp hrun
    exact ih (h.call call hk hk1) hrun'

/-- All that a command does on the screen. -/
theorem screenCalls (h : KeptByDriver P) (calls : List ScreenCall) (hk : P k)
    (hrun : calls.foldlM (ScreenCall.onScreen digits) k = some k') : P k' := by
  have hcall {k k' : Kernel} (call : ScreenCall) (hk : P k)
      (hrun : call.onScreen digits k = some k') : P k' := by
    cases call with
    | notice n => exact h.calls _ hk hrun
    | clear =>
      cases hrun
      exact h.clear _ hk
    | vga call => exact h.call call hk hrun
    | printHex32 value =>
      rw [← Option.some.inj hrun]
      exact h.printHex32 value hk
  induction calls generalizing k with
  | nil =>
    cases hrun
    exact hk
  | cons call calls ih =>
    rw [List.foldlM_cons] at hrun
    obtain ⟨k1, hk1, hrun'⟩ := Option.bind_eq_some_iff.mp hrun
    exact ih (hcall call hk hk1) hrun'

end KeptByDriver

/-- The cursor of `printf`. -/
def printfCursor (k : Kernel) : UInt8 × UInt8 := (k.dev.printfX, k.dev.printfY)

/-- The hardware cursor is not that of `printf`. -/
theorem printfCursor_updateCursor (k : Kernel) :
    printfCursor (updateCursor k) = printfCursor k := rfl

/-- **The text driver does not move the cursor of `printf`.** -/
theorem kept_printfCursor (place : UInt8 × UInt8) :
    KeptByDriver fun k => printfCursor k = place where
  putChar c k hk := by
    have hbefore : printfCursor (beforeScroll c k) = printfCursor k := by
      rw [printfCursor, dev_beforeScroll]
      rfl
    rw [putChar_eq, printfCursor_updateCursor]
    split
    · rw [printfCursor, dev_scroll]
      exact hbefore.trans hk
    · exact hbefore.trans hk
  setColor _ _ _ hk := hk
  clear k hk := by
    obtain ⟨k', hpaint, hclear⟩ := clear_eq k
    rw [hclear]
    show printfCursor k' = place
    rw [printfCursor, hpaint.dev]
    exact hk

end Overlays

/-! ## The same text in other colours -/

/-- **The same characters at the same places**, and the same state of the terminal. -/
structure Terminal.SameText (t u : Terminal) : Prop where
  chars : ∀ r c, (t.page r c).char = (u.page r c).char
  exposed : t.exposed = u.exposed
  row : t.row = u.row
  col : t.col = u.col
  foreground : t.foreground = u.foreground
  background : t.background = u.background

namespace Terminal.SameText

variable {t u : Terminal} {g k : Glyph} {p q : PrintfPage}

theorem refl (t : Terminal) : t.SameText t := ⟨fun _ _ => rfl, rfl, rfl, rfl, rfl, rfl⟩

theorem symm (h : t.SameText u) : u.SameText t :=
  ⟨fun r c => (h.chars r c).symm, h.exposed.symm, h.row.symm, h.col.symm, h.foreground.symm,
    h.background.symm⟩

theorem trans {v : Terminal} (h : t.SameText u) (h' : u.SameText v) : t.SameText v :=
  ⟨fun r c => (h.chars r c).trans (h'.chars r c), h.exposed.trans h'.exposed, h.row.trans h'.row,
    h.col.trans h'.col, h.foreground.trans h'.foreground, h.background.trans h'.background⟩

/-- The colours of a blank are those of the terminal, which are the same. -/
theorem blank (h : t.SameText u) : t.blank = u.blank := by
  rw [Terminal.blank, Terminal.blank, h.foreground, h.background]

/-- The place may be moved on both. -/
theorem moved (h : t.SameText u) (row col : ℕ) :
    SameText { t with row := row, col := col } { u with row := row, col := col } :=
  ⟨h.chars, h.exposed, rfl, rfl, h.foreground, h.background⟩

/-- A glyph with the same character, in whatever colour. -/
theorem write (h : t.SameText u) (hg : g.char = k.char) : (t.write g).SameText (u.write k) := by
  refine ⟨fun r c => ?_, h.exposed, h.row, h.col, h.foreground, h.background⟩
  simp only [Terminal.write, h.row, h.col]
  split
  · exact hg
  · exact h.chars r c

theorem wrap (h : t.SameText u) : t.wrap.SameText u.wrap := by
  rw [Terminal.wrap, Terminal.wrap, h.col]
  split
  · rw [h.row]
    exact h.moved _ _
  · exact h

/-- A new line at the bottom. -/
theorem expose (h : t.SameText u) : t.expose.SameText u.expose := by
  refine ⟨fun r c => ?_, congrArg (· + 1) h.exposed, h.row, h.col, h.foreground, h.background⟩
  simp only [Terminal.expose, h.exposed, h.blank]
  split
  · rfl
  · exact h.chars r c

/-- One more row if it is needed. -/
theorem finish (h : t.SameText u) :
    (if t.row ≥ t.exposed then t.expose else t).SameText
      (if u.row ≥ u.exposed then u.expose else u) := by
  rw [h.row, h.exposed]
  split
  · exact h.expose
  · exact h

/-- Where a character leaves the place depends on the place only. -/
theorem move (h : t.SameText u) (c : UInt8) : (t.move c).SameText (u.move c) := by
  unfold Terminal.move
  by_cases h10 : c = 10
  · rw [if_pos h10, if_pos h10, h.row]
    exact h.moved _ _
  rw [if_neg h10, if_neg h10]
  by_cases h13 : c = 13
  · rw [if_pos h13, if_pos h13]
    exact ⟨h.chars, h.exposed, h.row, rfl, h.foreground, h.background⟩
  rw [if_neg h13, if_neg h13]
  by_cases h9 : c = 9
  · rw [if_pos h9, if_pos h9, h.col]
    exact ⟨h.chars, h.exposed, h.row, rfl, h.foreground, h.background⟩
  rw [if_neg h9, if_neg h9]
  by_cases h8 : c = 8
  · rw [if_pos h8, if_pos h8, h.col]
    split
    · have hback : SameText { t with col := u.col - 1 } { u with col := u.col - 1 } :=
        ⟨h.chars, h.exposed, h.row, rfl, h.foreground, h.background⟩
      exact hback.write rfl
    · exact h
  rw [if_neg h8, if_neg h8]
  have hwrite := h.write (g := ⟨c, t.foreground, t.background⟩)
    (k := ⟨c, u.foreground, u.background⟩) rfl
  exact ⟨hwrite.chars, h.exposed, h.row, congrArg (· + 1) h.col, h.foreground, h.background⟩

/-- A character goes to the same place on both. -/
theorem putChar (h : t.SameText u) (c : UInt8) : (t.putChar c).SameText (u.putChar c) :=
  (h.move c).wrap.finish

theorem print (h : t.SameText u) (cs : List UInt8) : (t.print cs).SameText (u.print cs) := by
  induction cs generalizing t u with
  | nil => exact h
  | cons c cs ih => exact ih (h.putChar c)

/-- Any byte of a file. -/
theorem putAny (h : t.SameText u) (c : UInt8) : (t.putAny c).SameText (u.putAny c) := by
  rw [Terminal.putAny, Terminal.putAny]
  split
  · exact h.putChar c
  · have hwrite := h.write (g := ⟨c, 15, 15⟩) (k := ⟨c, 15, 15⟩) rfl
    have hnext : SameText { t.write ⟨c, 15, 15⟩ with col := t.col + 1 }
        { u.write ⟨c, 15, 15⟩ with col := u.col + 1 } :=
      ⟨hwrite.chars, h.exposed, h.row, congrArg (· + 1) h.col, h.foreground, h.background⟩
    exact hnext.wrap.finish

theorem printAny (h : t.SameText u) (cs : List UInt8) :
    (t.printAny cs).SameText (u.printAny cs) := by
  induction cs generalizing t u with
  | nil => exact h
  | cons c cs ih => exact ih (h.putAny c)

/-- A call of the screen driver. -/
theorem call (h : t.SameText u) (call : VgaCall) :
    (call.onPage t).SameText (call.onPage u) := by
  cases call with
  | setColor foreground background => exact ⟨h.chars, h.exposed, h.row, h.col, rfl, rfl⟩
  | print text => exact h.printAny _
  | printHex value => exact h.print _
  | printNumber value => exact h.print _

theorem calls (h : t.SameText u) (calls : List VgaCall) :
    (calls.foldl VgaCall.onPage t).SameText (calls.foldl VgaCall.onPage u) := by
  induction calls generalizing t u with
  | nil => exact h
  | cons call calls ih => exact ih (h.call call)

/-- **What a command prints** is the same text on both. -/
theorem screenCalls (h : t.SameText u) (calls : List ScreenCall) :
    (calls.foldl ScreenCall.onPage t).SameText (calls.foldl ScreenCall.onPage u) := by
  have hcall {t u : Terminal} (h : t.SameText u) (call : ScreenCall) :
      (call.onPage t).SameText (call.onPage u) := by
    cases call with
    | notice n => exact h.calls _
    | clear =>
      exact ⟨fun _ _ => congrArg Glyph.char h.blank, rfl, rfl, rfl, h.foreground, h.background⟩
    | vga call => exact h.call call
    | printHex32 value => exact h.print _
  induction calls generalizing t u with
  | nil => exact h
  | cons call calls ih => exact ih (hcall h call)

/-- **Other colours** are not another text. -/
theorem alter (h : t.SameText u) {f : Glyph → Glyph} (hf : ∀ g, (f g).char = g.char) (i : ℕ) :
    (t.alter f i).SameText u := by
  refine ⟨fun r c => ?_, h.exposed, h.row, h.col, h.foreground, h.background⟩
  rw [Terminal.alter, ← h.chars r c]
  simp only
  split
  · exact hf _
  · rfl

/-- `printf` starts from the same characters. -/
theorem printfPage (h : t.SameText u) (place : ℕ) :
    (t.printfPage place).Same (u.printfPage place) := by
  refine ⟨rfl, fun j _ => ?_⟩
  rw [Terminal.printfPage, Terminal.printfPage]
  simp only
  rw [h.exposed, h.chars]

/-- The page under the text of `printf`. -/
theorem overprint (h : t.SameText u) (hpq : p.Same q) :
    (t.overprint p).SameText (u.overprint q) := by
  refine ⟨fun r c => ?_, h.exposed, h.row, h.col, h.foreground, h.background⟩
  rw [Terminal.overprint, Terminal.overprint, h.exposed]
  simp only
  split
  · exact hpq.2 _ (by omega)
  · exact h.chars r c

end Terminal.SameText
