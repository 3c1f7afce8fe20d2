/-
# The mouse pointer: `MouseToConsole` of `kernel.cpp`

The pointer is a cell with its two colours exchanged.  The handler exchanges them again
before it moves on, and nobody tells it when the text driver has changed that cell in the
meantime.  What is left on the screen without the pointer is the text alone if and only if
no operation of the text driver changes the cell under the pointer in a way that shows.
-/
import HydraOS.TextPage

open X86 VGATextMode

/-! ## The handler -/

/-- A `MouseToConsole` object. -/
structure MouseToConsole where
  x : Int8
  y : Int8

/-- A cell with its two colours exchanged.  In `OnActivate` the first two operands stand the
other way round. -/
def swapColors (v : UInt16) : UInt16 :=
  ((v &&& 0xF000) >>> 4) ||| ((v &&& 0x0F00) <<< 4) ||| (v &&& 0x00FF)

namespace MouseToConsole

/-- `80*y+x`. -/
def index (m : MouseToConsole) : ℕ := (80 * m.y.toInt + m.x.toInt).toNat

/-- The assignment to `VideoMemory[80*y+x]`. -/
def swapCell (m : MouseToConsole) (k : Kernel) : Kernel :=
  setCell m.index (swapColors (cell k.mem m.index)) k

/-- `OnActivate`. -/
def onActivate (k : Kernel) : MouseToConsole × Kernel :=
  let m : MouseToConsole := ⟨40, 12⟩
  (m, m.swapCell k)

/-- A coordinate after `v += offset; if(v < 0) v = 0; if(v >= size) v = size - 1;` -/
def shift (v : Int8) (offset : ℤ) (size : Int8) : Int8 :=
  let v : Int8 := .ofInt (v.toInt + offset)
  let v := if v < 0 then 0 else v
  if v ≥ size then size - 1 else v

/-- `OnMouseMove`. -/
def onMouseMove (xoffset yoffset : ℤ) (m : MouseToConsole) (k : Kernel) :
    MouseToConsole × Kernel :=
  let k := m.swapCell k
  let m : MouseToConsole := ⟨shift m.x xoffset 80, shift m.y yoffset 25⟩
  (m, m.swapCell k)

/-- The pointer is on the screen. -/
def OnScreen (m : MouseToConsole) : Prop :=
  0 ≤ m.x.toInt ∧ m.x.toInt < 80 ∧ 0 ≤ m.y.toInt ∧ m.y.toInt < 25

section Pointer

variable {m : MouseToConsole} {k : Kernel} {i : ℕ}

theorem OnScreen.index_lt (h : m.OnScreen) : m.index < 2000 := by
  obtain ⟨hx, hx', hy, hy'⟩ := h
  rw [index]
  omega

theorem toInt_pred {size : Int8} (hsize : 0 < size.toInt) : (size - 1).toInt = size.toInt - 1 := by
  have hlt := size.toInt_lt
  have h1 : (1 : Int8).toInt = 1 := rfl
  rw [Int8.toInt_sub, h1, Int.bmod_eq_of_le (by omega) (by omega)]

theorem shift_bounds (v : Int8) (offset : ℤ) {size : Int8} (hsize : 0 < size.toInt) :
    0 ≤ (shift v offset size).toInt ∧ (shift v offset size).toInt < size.toInt := by
  have hpred := toInt_pred hsize
  have h0 : (0 : Int8).toInt = 0 := rfl
  rw [shift]
  generalize Int8.ofInt (v.toInt + offset) = w
  simp only [ge_iff_le, Int8.le_iff_toInt_le, Int8.lt_iff_toInt_lt, h0]
  split_ifs <;> omega

theorem onScreen_onActivate : (onActivate k).1.OnScreen := by
  have hcentre : OnScreen ⟨40, 12⟩ := by
    refine ⟨?_, ?_, ?_, ?_⟩ <;> decide
  exact hcentre

theorem onScreen_onMouseMove (xoffset yoffset : ℤ) :
    (onMouseMove xoffset yoffset m k).1.OnScreen := by
  obtain ⟨hx, hx'⟩ := @shift_bounds m.x xoffset 80 (by decide)
  obtain ⟨hy, hy'⟩ := @shift_bounds m.y yoffset 25 (by decide)
  exact ⟨hx, hx', hy, hy'⟩

/-- **Exchanging the colours twice** gives them back. -/
theorem swapColors_swapColors (v : UInt16) : swapColors (swapColors v) = v := by
  unfold swapColors
  apply UInt16.toBitVec_inj.mp
  apply BitVec.eq_of_getLsbD_eq
  intro i hi
  simp only [UInt16.toBitVec_or, UInt16.toBitVec_and, UInt16.toBitVec_shiftLeft,
    UInt16.toBitVec_shiftRight]
  interval_cases i <;> simp

theorem cell_swapCell (h : m.index < 2000) (hi : i < 2000) :
    cell (m.swapCell k).mem i = if i = m.index then swapColors (cell k.mem i) else cell k.mem i := by
  rw [swapCell, cell_setCell h hi]
  split
  · next heq => rw [heq]
  · rfl

end Pointer

end MouseToConsole

/-! ## The text driver, cell by cell -/

namespace VGATextMode

/-- The cell that the `switch` of `PutChar` stores into, and the value. -/
def storeOf (c : UInt8) (vga : VGATextMode) : Option (ℕ × UInt16) :=
  if c = 10 ∨ c = 13 ∨ c = 9 then none
  else if c = 8 then
    if vga.cursorX > 0 then
      some (80 * vga.cursorY.toNat + (vga.cursorX - 1).toNat, vga.attrib ||| 32)
    else none
  else some (80 * vga.cursorY.toNat + vga.cursorX.toNat, vga.attrib ||| charBits c)

/-- Where the `switch` of `PutChar` leaves the cursor. -/
def moveCursor (c : UInt8) (vga : VGATextMode) : VGATextMode :=
  if c = 10 then { vga with cursorX := 0, cursorY := vga.cursorY + 1 }
  else if c = 13 then { vga with cursorX := 0 }
  else if c = 9 then { vga with cursorX := (vga.cursorX + 4) &&& 0xFC }
  else if c = 8 then
    if vga.cursorX > 0 then { vga with cursorX := vga.cursorX - 1 } else vga
  else { vga with cursorX := vga.cursorX + 1 }

/-- `PutChar` scrolls. -/
def Scrolls (c : UInt8) (vga : VGATextMode) : Prop := (wrapCursor (moveCursor c vga)).cursorY ≥ 25

instance (c : UInt8) (vga : VGATextMode) : Decidable (Scrolls c vga) :=
  inferInstanceAs (Decidable (_ ≥ _))

/-- The cells after a store. -/
def stored (o : Option (ℕ × UInt16)) (f : ℕ → UInt16) : ℕ → UInt16 :=
  match o with
  | some (i, v) => Function.update f i v
  | none => f

/-- The cells one line further up, with a last line of `blank`. -/
def scrolledUp (blank : UInt16) (f : ℕ → UInt16) (j : ℕ) : UInt16 :=
  if j < 1920 then f (j + 80) else blank

section Cells

variable {k k' : Kernel} {c : UInt8} {j : ℕ}

theorem switchChar_eq (c : UInt8) (k : Kernel) : switchChar c k = (moveCursor c k.dev.vga,
    match storeOf c k.dev.vga with
    | some (i, v) => setCell i v k
    | none => k) := by
  unfold switchChar moveCursor storeOf
  simp only
  split_ifs <;> first | rfl | (exfalso; tauto)

/-- The stores of `PutChar` are on the screen. -/
theorem storeOf_lt {o : ℕ × UInt16} (h : CursorOn k) (ho : storeOf c k.dev.vga = some o) :
    o.1 < 2000 := by
  obtain ⟨hx, hy⟩ := h
  unfold storeOf at ho
  split_ifs at ho with _ _ hpos
  · cases ho
    have hpred : (k.dev.vga.cursorX - 1).toNat = k.dev.vga.cursorX.toNat - 1 :=
      UInt8.toNat_sub_of_le _ _ (UInt8.le_iff_toNat_le.mpr (UInt8.lt_iff_toNat_lt.mp hpos))
    show 80 * _ + (k.dev.vga.cursorX - 1).toNat < 2000
    omega
  · cases ho
    show 80 * _ + _ < 2000
    omega

/-- The cursor before the screen scrolls. -/
theorem wrapCursor_bounds (h : CursorOn k) :
    (wrapCursor (moveCursor c k.dev.vga)).cursorX.toNat < 80 ∧
      (wrapCursor (moveCursor c k.dev.vga)).cursorY.toNat ≤ 25 := by
  obtain ⟨hx, hy⟩ := h
  have hsucc := toNat_succ _ hx
  have htab := toNat_tab _ hx
  have hrow := toNat_succ k.dev.vga.cursorY (by omega)
  -- only a newline changes the row, and it leaves the column at 0
  have hmove : (moveCursor c k.dev.vga).cursorX.toNat ≤ 80 ∧
      ((moveCursor c k.dev.vga).cursorY = k.dev.vga.cursorY ∨
        (moveCursor c k.dev.vga).cursorX = 0 ∧
          (moveCursor c k.dev.vga).cursorY = k.dev.vga.cursorY + 1) := by
    unfold moveCursor
    split_ifs with h10 h13 h9 h8 hpos
    · exact ⟨Nat.zero_le _, .inr ⟨rfl, rfl⟩⟩
    · exact ⟨Nat.zero_le _, .inl rfl⟩
    · refine ⟨?_, .inl rfl⟩
      show ((k.dev.vga.cursorX + 4) &&& 0xFC).toNat ≤ 80
      omega
    · have hpred : (k.dev.vga.cursorX - 1).toNat = k.dev.vga.cursorX.toNat - 1 :=
        UInt8.toNat_sub_of_le _ _ (UInt8.le_iff_toNat_le.mpr (UInt8.lt_iff_toNat_lt.mp hpos))
      refine ⟨?_, .inl rfl⟩
      show (k.dev.vga.cursorX - 1).toNat ≤ 80
      omega
    · exact ⟨by omega, .inl rfl⟩
    · refine ⟨?_, .inl rfl⟩
      show (k.dev.vga.cursorX + 1).toNat ≤ 80
      omega
  obtain ⟨hx', hy' | ⟨hx0, hy'⟩⟩ := hmove
  · unfold wrapCursor
    split
    · refine ⟨show (0 : UInt8).toNat < 80 by decide, ?_⟩
      show ((moveCursor c k.dev.vga).cursorY + 1).toNat ≤ 25
      rw [hy']
      omega
    · next hlt =>
      have hlt' := mt lt_eighty_iff.mpr hlt
      rw [hy']
      omega
  · have hwrap : ¬ (moveCursor c k.dev.vga).cursorX ≥ 80 := by
      rw [hx0]
      decide
    rw [wrapCursor, if_neg hwrap, hx0, hy']
    exact ⟨by decide, by omega⟩

theorem cell_stored (h : CursorOn k) (hj : j < 2000) :
    cell (switchChar c k).2.mem j = stored (storeOf c k.dev.vga) (cell k.mem) j := by
  rw [switchChar_eq]
  cases ho : storeOf c k.dev.vga with
  | none => rfl
  | some o =>
    rw [stored, Function.update_apply]
    exact cell_setCell (storeOf_lt h ho) hj

theorem dev_beforeScroll (c : UInt8) (k : Kernel) : (beforeScroll c k).dev =
    { k.dev with vga := wrapCursor (moveCursor c k.dev.vga) } := by
  have hvga : (switchChar c k).1 = moveCursor c k.dev.vga := by rw [switchChar_eq]
  have hdev : (switchChar c k).2.dev = k.dev := by
    rw [switchChar_eq]
    simp only
    split <;> rfl
  show { (switchChar c k).2.dev with vga := wrapCursor (switchChar c k).1 } = _
  rw [hvga, hdev]

/-- Where `PutChar` decides whether to scroll. -/
theorem vga_beforeScroll (c : UInt8) (k : Kernel) :
    (beforeScroll c k).dev.vga = wrapCursor (moveCursor c k.dev.vga) := by
  rw [dev_beforeScroll]

theorem attrib_moved (c : UInt8) (vga : VGATextMode) :
    (wrapCursor (moveCursor c vga)).attrib = vga.attrib := by
  unfold wrapCursor moveCursor
  split_ifs <;> rfl

theorem scrolls_iff : (beforeScroll c k).dev.vga.cursorY ≥ 25 ↔ Scrolls c k.dev.vga := by
  rw [vga_beforeScroll]
  rfl

/-- **The cells after `PutChar`**, for every character. -/
theorem cell_putChar (h : CursorOn k) (c : UInt8) (hj : j < 2000) :
    cell (putChar c k).mem j =
      let g := stored (storeOf c k.dev.vga) (cell k.mem)
      if Scrolls c k.dev.vga then scrolledUp (k.dev.vga.attrib ||| 32) g j else g j := by
  have hmem : (beforeScroll c k).mem = (switchChar c k).2.mem := rfl
  rw [putChar_eq]
  simp only
  by_cases hs : Scrolls c k.dev.vga
  · obtain ⟨k', hpaint, heq⟩ := scroll_eq (beforeScroll c k)
    rw [if_pos (scrolls_iff.mpr hs), if_pos hs, heq]
    show cell k'.mem j = _
    rw [hpaint.cell j hj, if_pos hj, scrolled, scrolledUp, vga_beforeScroll, attrib_moved, hmem]
    split
    · exact cell_stored h (by omega)
    · rfl
  · rw [if_neg (mt scrolls_iff.mp hs), if_neg hs]
    exact cell_stored h hj

theorem dev_scroll (k : Kernel) :
    (scroll k).dev = { k.dev with vga := { k.dev.vga with cursorY := 24 } } := by
  obtain ⟨k', hpaint, heq⟩ := scroll_eq k
  rw [heq]
  exact congrArg (fun d : Devices => { d with vga := { k.dev.vga with cursorY := 24 } }) hpaint.dev

theorem sameOffScreen_putChar (h : CursorOn k) (c : UInt8) : SameOffScreen k (putChar c k) := by
  have hswitch : SameOffScreen k (switchChar c k).2 := by
    rw [switchChar_eq]
    cases ho : storeOf c k.dev.vga with
    | none => exact .refl k
    | some o => exact sameOffScreen_setCell (storeOf_lt h ho)
  rw [putChar_eq]
  split
  · obtain ⟨k', hpaint, heq⟩ := scroll_eq (beforeScroll c k)
    rw [heq]
    exact hswitch.trans hpaint.off
  · exact hswitch

/-- `PutChar` treats the devices alike whatever the memory holds. -/
theorem dev_putChar (c : UInt8) (h : k.dev = k'.dev) : (putChar c k).dev = (putChar c k').dev := by
  have hupdate {k k' : Kernel} (h : k.dev = k'.dev) :
      (updateCursor k).dev = (updateCursor k').dev := by
    show (updateCursor ⟨fun _ => 0, k.dev⟩).dev = _
    rw [h]
    rfl
  have hbefore : (beforeScroll c k).dev = (beforeScroll c k').dev := by
    rw [dev_beforeScroll, dev_beforeScroll, h]
  rw [putChar_eq, putChar_eq]
  apply hupdate
  rw [hbefore]
  split
  · rw [dev_scroll, dev_scroll, hbefore]
  · exact hbefore

/-- Where `PutChar` leaves the cursor. -/
def advance (c : UInt8) (vga : VGATextMode) : VGATextMode :=
  if Scrolls c vga then { wrapCursor (moveCursor c vga) with cursorY := 24 }
  else wrapCursor (moveCursor c vga)

theorem vga_putChar (c : UInt8) (k : Kernel) : (putChar c k).dev.vga = advance c k.dev.vga := by
  rw [putChar_eq, advance]
  split
  · next hs =>
    rw [if_pos (scrolls_iff.mp hs)]
    show (scroll (beforeScroll c k)).dev.vga = _
    rw [dev_scroll, vga_beforeScroll]
  · next hs =>
    rw [if_neg (mt scrolls_iff.mpr hs)]
    exact vga_beforeScroll c k

theorem cursorOn_putChar (h : CursorOn k) (c : UInt8) : CursorOn (putChar c k) := by
  obtain ⟨hx, hy⟩ := wrapCursor_bounds (c := c) h
  rw [CursorOn, vga_putChar, advance]
  split
  · exact ⟨hx, show (24 : UInt8).toNat < 25 by decide⟩
  · next hs =>
    have hlt := mt UInt8.le_iff_toNat_le.mpr hs
    have h25 : (25 : UInt8).toNat = 25 := rfl
    exact ⟨hx, by omega⟩

end Cells

end VGATextMode

/-! ## The pointer over the cells -/

/-- A cell that looks the same with its colours exchanged. -/
def Steady (v : UInt16) : Prop := swapColors v = v

instance (v : UInt16) : Decidable (Steady v) := inferInstanceAs (Decidable (_ = _))

/-- The cells with the colours exchanged at `m`. -/
def pointed (m : ℕ) (f : ℕ → UInt16) (j : ℕ) : UInt16 := if j = m then swapColors (f j) else f j

/-- The screen `f` without the pointer at `m` is `f'`. -/
def Uncovers (m : ℕ) (f f' : ℕ → UInt16) : Prop := ∀ j < 2000, pointed m f j = f' j

section Uncovers

variable {m : ℕ} {f f' g g' : ℕ → UInt16} {o : Option (ℕ × UInt16)} {blank : UInt16}

theorem Uncovers.off (h : Uncovers m f f') {j : ℕ} (hj : j < 2000) (hne : j ≠ m) : f j = f' j :=
  (if_neg hne).symm.trans (h j hj)

theorem Uncovers.at (h : Uncovers m f f') (hm : m < 2000) : swapColors (f m) = f' m :=
  (if_pos rfl).symm.trans (h m hm)

/-- Screens that agree everywhere else are compared under the pointer. -/
theorem uncovers_iff (hm : m < 2000) (hoff : ∀ j < 2000, j ≠ m → f j = f' j) :
    Uncovers m f f' ↔ swapColors (f m) = f' m := by
  refine ⟨fun h => h.at hm, fun h j hj => ?_⟩
  rw [pointed]
  split
  · next heq =>
    subst heq
    exact h
  · next hne => exact hoff j hj hne

/-- Two screens have the same cell under the pointer if it is steady. -/
theorem Uncovers.eq_iff (h : Uncovers m f f') (hm : m < 2000) : f m = f' m ↔ Steady (f m) := by
  rw [← h.at hm, Steady, eq_comm]

/-- A store changes both screens outside the pointer alike. -/
theorem Uncovers.stored_off (h : Uncovers m f f') (j : ℕ) (hj : j < 2000) (hne : j ≠ m) :
    stored o f j = stored o f' j := by
  cases o with
  | none => exact h.off hj hne
  | some o =>
    rw [stored, stored, Function.update_apply, Function.update_apply, h.off hj hne]

/-- Under the pointer it makes them alike. -/
theorem Uncovers.stored_at (h : Uncovers m f f') (hm : m < 2000) :
    stored o f m = stored o f' m ↔ (∃ v, o = some (m, v)) ∨ Steady (f m) := by
  rw [← h.eq_iff hm]
  cases o with
  | none => exact ⟨.inr, fun hor => hor.resolve_left fun ⟨v, hv⟩ => nomatch hv⟩
  | some o =>
    obtain ⟨i, v⟩ := o
    rw [stored, stored, Function.update_apply, Function.update_apply]
    by_cases hi : m = i
    · subst hi
      rw [if_pos rfl, if_pos rfl]
      exact ⟨fun _ => .inl ⟨v, rfl⟩, fun _ => rfl⟩
    · rw [if_neg hi, if_neg hi]
      refine ⟨.inr, fun hor => hor.resolve_left ?_⟩
      rintro ⟨w, hw⟩
      cases hw
      exact hi rfl

/-- **A store** leaves the text uncovered unless it shows under the pointer. -/
theorem Uncovers.stored_iff (h : Uncovers m f f') (hm : m < 2000) :
    Uncovers m (stored o f) (stored o f') ↔ ∀ v, o = some (m, v) → Steady v := by
  rw [uncovers_iff hm h.stored_off]
  cases o with
  | none => exact iff_of_true (h.at hm) fun v hv => nomatch hv
  | some o =>
    obtain ⟨i, v⟩ := o
    rw [stored, stored, Function.update_apply, Function.update_apply]
    by_cases hi : m = i
    · subst hi
      rw [if_pos rfl, if_pos rfl]
      exact ⟨fun hv w hw => by cases hw; exact hv, fun hall => hall v rfl⟩
    · rw [if_neg hi, if_neg hi]
      refine iff_of_true (h.at hm) fun w hw => ?_
      cases hw
      exact absurd rfl hi

/-- **A scroll** leaves the text uncovered if the cell under the pointer, which moves up, and
the one that takes its place are the same on both screens. -/
theorem scrolledUp_iff (hm : m < 2000) (hoff : ∀ j < 2000, j ≠ m → g j = g' j) :
    Uncovers m (scrolledUp blank g) (scrolledUp blank g') ↔
      (80 ≤ m → g m = g' m) ∧ Steady (scrolledUp blank g m) := by
  have hplace : scrolledUp blank g m = scrolledUp blank g' m := by
    unfold scrolledUp
    split
    · exact hoff _ (by omega) (by omega)
    · rfl
  constructor
  · intro h
    refine ⟨fun h80 => ?_, ?_⟩
    · have hup := h.off (show m - 80 < 2000 by omega) (show m - 80 ≠ m by omega)
      rw [scrolledUp, scrolledUp, if_pos (by omega), if_pos (by omega),
        Nat.sub_add_cancel h80] at hup
      exact hup
    · exact (h.at hm).trans hplace.symm
  · rintro ⟨hup, hsteady⟩
    refine (uncovers_iff hm fun j hj hne => ?_).mpr (hsteady.trans hplace)
    rw [scrolledUp, scrolledUp]
    split
    · by_cases hjm : j + 80 = m
      · rw [hjm]
        exact hup (by omega)
      · exact hoff _ (by omega) hjm
    · rfl

end Uncovers

/-! ## The two event streams -/

/-- An operation of the text driver; `Print` is `PutChar` of its characters. -/
inductive TextOp where
  | putChar (c : UInt8)
  | clear
  | setColor (foreground background : UInt8)
  | setCursorPosition (x y : UInt8)

namespace TextOp

/-- The operation on the screen. -/
def onScreen (k : Kernel) : TextOp → Kernel
  | putChar c => VGATextMode.putChar c k
  | clear => VGATextMode.clear k
  | setColor foreground background => VGATextMode.setColor foreground background k
  | setCursorPosition x y => VGATextMode.setCursorPosition x y k

/-- **The operation spares the cell under the pointer**, at `m` on the screen `f`: it does not
change the cell in a way that shows.  What it stores there is steady; a scroll moves a steady
cell up or one that was just stored, and puts a steady one in its place; and so does `Clear`. -/
def Spares (vga : VGATextMode) (f : ℕ → UInt16) (m : ℕ) : TextOp → Prop
  | putChar c =>
    if Scrolls c vga then
      (80 ≤ m → (∃ v, storeOf c vga = some (m, v)) ∨ Steady (f m)) ∧
        Steady (scrolledUp (vga.attrib ||| 32) (stored (storeOf c vga) f) m)
    else ∀ v, storeOf c vga = some (m, v) → Steady v
  | clear => Steady (vga.attrib ||| 32)
  | setColor _ _ | setCursorPosition _ _ => True

section TextOp

variable {k k' : Kernel} {m : ℕ} {op : TextOp}

theorem clear_dev (k : Kernel) : (VGATextMode.clear k).dev =
    (updateCursor ⟨fun _ => 0, { k.dev with vga := { k.dev.vga with cursorX := 0, cursorY := 0 } }⟩).dev := by
  obtain ⟨k', hpaint, heq⟩ := clear_eq k
  rw [heq]
  exact congrArg (fun d : Devices => (updateCursor
    ⟨fun _ => 0, { d with vga := { k.dev.vga with cursorX := 0, cursorY := 0 } }⟩).dev) hpaint.dev

theorem dev_onScreen (h : k.dev = k'.dev) : (op.onScreen k).dev = (op.onScreen k').dev := by
  cases op with
  | putChar c => exact dev_putChar c h
  | clear =>
    rw [onScreen, onScreen, clear_dev, clear_dev, h]
  | setColor foreground background =>
    exact congrArg (fun d : Devices => { d with vga := { d.vga with
      foregroundColor := foreground, backgroundColor := background } }) h
  | setCursorPosition x y =>
    rw [onScreen, onScreen, VGATextMode.setCursorPosition, VGATextMode.setCursorPosition]
    split
    · exact congrArg (fun d : Devices => (updateCursor
        ⟨fun _ => 0, { d with vga := { d.vga with cursorX := x, cursorY := y } }⟩).dev) h
    · exact h

theorem cursorOn_onScreen (h : CursorOn k) : CursorOn (op.onScreen k) := by
  cases op with
  | putChar c => exact cursorOn_putChar h c
  | clear =>
    obtain ⟨k', hpaint, heq⟩ := clear_eq k
    rw [onScreen, heq]
    exact ⟨show (0 : UInt8).toNat < 80 by decide, show (0 : UInt8).toNat < 25 by decide⟩
  | setColor foreground background => exact h
  | setCursorPosition x y =>
    rw [onScreen, VGATextMode.setCursorPosition]
    split
    · next hxy => exact ⟨UInt8.lt_iff_toNat_lt.mp hxy.1, UInt8.lt_iff_toNat_lt.mp hxy.2⟩
    · exact h

/-- **An operation of the text driver** leaves the text uncovered if and only if it spares the
cell under the pointer. -/
theorem uncovers_onScreen_iff (hdev : k.dev = k'.dev) (hon : CursorOn k) (hm : m < 2000)
    (h : Uncovers m (cell k.mem) (cell k'.mem)) :
    Uncovers m (cell (op.onScreen k).mem) (cell (op.onScreen k').mem) ↔
      op.Spares k.dev.vga (cell k.mem) m := by
  have hon' : CursorOn k' := by
    rw [CursorOn, ← hdev]
    exact hon
  cases op with
  | putChar c =>
    have hcells : Uncovers m (cell (VGATextMode.putChar c k).mem)
        (cell (VGATextMode.putChar c k').mem) ↔
        Uncovers m (fun j => if Scrolls c k.dev.vga then
            scrolledUp (k.dev.vga.attrib ||| 32) (stored (storeOf c k.dev.vga) (cell k.mem)) j
          else stored (storeOf c k.dev.vga) (cell k.mem) j)
          (fun j => if Scrolls c k.dev.vga then
            scrolledUp (k.dev.vga.attrib ||| 32) (stored (storeOf c k.dev.vga) (cell k'.mem)) j
          else stored (storeOf c k.dev.vga) (cell k'.mem) j) := by
      refine forall₂_congr fun j hj => ?_
      rw [pointed, pointed, cell_putChar hon c hj, cell_putChar hon' c hj, ← hdev]
    rw [onScreen, onScreen, hcells, Spares]
    by_cases hs : Scrolls c k.dev.vga
    · simp only [if_pos hs]
      rw [scrolledUp_iff hm h.stored_off, h.stored_at hm]
    · simp only [if_neg hs]
      exact h.stored_iff hm
  | clear =>
    have hblank (k : Kernel) (j : ℕ) (hj : j < 2000) :
        cell (VGATextMode.clear k).mem j = k.dev.vga.attrib ||| 32 := by
      obtain ⟨k', hpaint, heq⟩ := clear_eq k
      rw [heq]
      exact (hpaint.cell j hj).trans (if_pos hj)
    rw [onScreen, onScreen, uncovers_iff hm fun j hj _ => by rw [hblank k j hj, hblank k' j hj, hdev],
      hblank k m hm, hblank k' m hm, ← hdev]
    rfl
  | setColor foreground background => exact iff_of_true h trivial
  | setCursorPosition x y =>
    have hmem (k : Kernel) : (VGATextMode.setCursorPosition x y k).mem = k.mem := by
      rw [VGATextMode.setCursorPosition]
      split <;> rfl
    rw [onScreen, onScreen, hmem, hmem]
    exact iff_of_true h trivial

end TextOp

end TextOp

/-- What happens on the screen. -/
inductive ScreenEvent where
  | move (xoffset yoffset : ℤ)
  | text (op : TextOp)

/-- The kernel with the pointer on its screen, and the kernel after the same operations of the
text driver alone. -/
structure Pointing where
  mouse : MouseToConsole
  kernel : Kernel
  textOnly : Kernel

namespace Pointing

/-- After `OnActivate`. -/
def start (k : Kernel) : Pointing :=
  let (m, k') := MouseToConsole.onActivate k
  ⟨m, k', k⟩

/-- One event. -/
def step (s : Pointing) (e : ScreenEvent) : Pointing × Unit :=
  (match e with
    | .move xoffset yoffset =>
      let (m, k) := s.mouse.onMouseMove xoffset yoffset s.kernel
      ⟨m, k, s.textOnly⟩
    | .text op => ⟨s.mouse, op.onScreen s.kernel, op.onScreen s.textOnly⟩, ())

/-- **The pointer has done no harm**: with the colours under it exchanged again the screen is
that of the text alone. -/
def Harmless (s : Pointing) : Prop :=
  ∀ j < 2000, cell (s.mouse.swapCell s.kernel).mem j = cell s.textOnly.mem j

/-- The event spares the cell under the pointer. -/
def Spares (s : Pointing) : ScreenEvent → Prop
  | .move _ _ => True
  | .text op => op.Spares s.kernel.dev.vga (cell s.kernel.mem) s.mouse.index

/-- The pointer and the text driver's cursor are on the screen, both kernels have the same
devices, and the screen without the pointer is the text. -/
structure Good (s : Pointing) : Prop where
  pointer : s.mouse.OnScreen
  cursor : CursorOn s.kernel
  dev : s.kernel.dev = s.textOnly.dev
  uncovers : Uncovers s.mouse.index (cell s.kernel.mem) (cell s.textOnly.mem)

section Runs

variable {s : Pointing} {e : ScreenEvent} {k : Kernel} {m : MouseToConsole}

theorem harmless_iff (h : s.mouse.OnScreen) :
    s.Harmless ↔ Uncovers s.mouse.index (cell s.kernel.mem) (cell s.textOnly.mem) := by
  refine forall₂_congr fun j hj => ?_
  rw [MouseToConsole.cell_swapCell h.index_lt hj]
  rfl

/-- Putting the pointer on the screen. -/
theorem uncovers_swapCell (h : m.OnScreen) : Uncovers m.index (cell (m.swapCell k).mem) (cell k.mem) := by
  intro j hj
  rw [pointed, MouseToConsole.cell_swapCell h.index_lt hj]
  split
  · exact MouseToConsole.swapColors_swapColors _
  · rfl

theorem good_start (h : CursorOn k) : Good (start k) := by
  have hm := @MouseToConsole.onScreen_onActivate k
  exact ⟨hm, h, rfl, uncovers_swapCell hm⟩

/-- **Moving the pointer** does no harm. -/
theorem Good.move (h : Good s) (xoffset yoffset : ℤ) : Good (s.step (.move xoffset yoffset)).1 := by
  have hm := @MouseToConsole.onScreen_onMouseMove s.mouse s.kernel xoffset yoffset
  refine ⟨hm, h.cursor, h.dev, fun j hj => ?_⟩
  -- what the pointer leaves behind is the text
  have htext : cell (s.mouse.swapCell s.kernel).mem j = cell s.textOnly.mem j :=
    (harmless_iff h.pointer).mpr h.uncovers j hj
  exact (uncovers_swapCell hm j hj).trans htext

theorem Good.step (h : Good s) (hok : s.Spares e) : Good (s.step e).1 := by
  cases e with
  | move xoffset yoffset => exact h.move xoffset yoffset
  | text op =>
    exact ⟨h.pointer, TextOp.cursorOn_onScreen h.cursor, TextOp.dev_onScreen h.dev,
      (TextOp.uncovers_onScreen_iff h.dev h.cursor h.pointer.index_lt h.uncovers).mpr hok⟩

theorem Good.not_harmless (h : Good s) (hok : ¬ s.Spares e) : ¬ (s.step e).1.Harmless := by
  cases e with
  | move xoffset yoffset => exact absurd trivial hok
  | text op =>
    intro hharmless
    have huncovers := (@harmless_iff (s.step (.text op)).1 h.pointer).mp hharmless
    exact hok ((TextOp.uncovers_onScreen_iff h.dev h.cursor h.pointer.index_lt h.uncovers).mp
      huncovers)

/-- **When the pointer and the text do not corrupt each other.**  From any screen with the
cursor on it, after `OnActivate` and any moves of the mouse and operations of the text driver
in any order: in every state the screen with the colours under the pointer exchanged is the
one that the text operations alone would have made, if and only if every text operation spares
the cell under the pointer. -/
theorem harmless_iff_spares (k : Kernel) (h : CursorOn k) (events : List ScreenEvent) :
    (∀ past, past <+: events → (finalState step (start k) past).Harmless) ↔
      Along step Spares (start k) events :=
  forall_prefix_iff_along Good Harmless (fun _ => True)
    (fun _ hs => (harmless_iff hs.pointer).mpr hs.uncovers) (fun _ _ hs _ hok => hs.step hok)
    (fun _ _ hs _ hok => hs.not_harmless hok) (good_start h) fun _ _ => trivial

/-- `Print` is the `PutChar` of its characters, on both screens. -/
theorem print_eq_run (s : Pointing) (cs : CStr) (hlen : cs.chars.length < 2 ^ 31) :
    let s' := finalState step s (cs.chars.map fun c => .text (.putChar c))
    s'.mouse = s.mouse ∧ print (fun _ i => cs.get i) s.kernel = some s'.kernel ∧
      print (fun _ i => cs.get i) s.textOnly = some s'.textOnly := by
  have hprint (k : Kernel) : print (fun _ i => cs.get i) k =
      some (cs.chars.foldl (fun k c => putChar c k) k) :=
    forChars_of_chars cs.chars cs.noNul hlen fun _ j => by rw [Nat.zero_add]; rfl
  have hrun (chars : List UInt8) (s : Pointing) :
      finalState step s (chars.map fun c => .text (.putChar c)) =
        ⟨s.mouse, chars.foldl (fun k c => putChar c k) s.kernel,
          chars.foldl (fun k c => putChar c k) s.textOnly⟩ := by
    induction chars generalizing s with
    | nil => rfl
    | cons c chars ih =>
      rw [List.map_cons, finalState_cons, ih]
      rfl
  rw [hrun, hprint, hprint]
  exact ⟨rfl, rfl, rfl⟩

end Runs

/-- A character at the start of a screen that is white on black, and a move to its left edge. -/
theorem harmless_far_from_text :
    (finalState step (start (construct Watched.blankKernel))
      [.text (.putChar 65), .move (-90) 3]).Harmless := by
  have hvga : (construct Watched.blankKernel).dev.vga = ⟨0, 0, white, black⟩ := by
    rw [construct, TextOp.clear_dev]
    rfl
  have hon : CursorOn (construct Watched.blankKernel) := by
    rw [CursorOn, hvga]
    decide
  refine (harmless_iff_spares (construct Watched.blankKernel) hon _).mpr ?_ _ List.prefix_rfl
  refine ⟨?_, trivial, trivial⟩
  have hstart : (start (construct Watched.blankKernel)).kernel.dev.vga =
      (construct Watched.blankKernel).dev.vga := rfl
  rw [Spares, TextOp.Spares, hstart, hvga, if_neg (by decide)]
  -- the pointer is at the cell 1000
  intro v hv
  have hplace : (storeOf 65 ⟨0, 0, white, black⟩).map Prod.fst = some 1000 :=
    congrArg (Option.map Prod.fst) hv
  exact absurd hplace (by decide)

/-- A character that is written under the pointer, white on black: the pointer is gone, and
with its colours exchanged the cell is not the text. -/
theorem text_under_pointer :
    ¬ (finalState step (start (Watched.blankKernel.setVga ⟨40, 12, white, black⟩))
      [.text (.putChar 65)]).Harmless := by
  intro h
  have hcell := h 1000 (by decide)
  revert hcell
  decide +kernel

end Pointing
