/-
# The colours of printed text

`PutChar` stores `attrib | c`.  `c` is a `char`, which is signed, so a character from 0x80 on
is extended with ones over the attribute.  `Print` keeps the colours that were chosen if and
only if they are white on white, where the ones change nothing, or every printed character
that is still on the screen is below 0x80.
-/
import HydraOS.MousePointer

open X86

/-- A `VGAColor`. -/
abbrev VGAColor := { color : UInt8 // color < 16 }

namespace VGATextMode

/-! ## The two bytes of a cell -/

section Bytes

variable {foreground background : VGAColor} {vga : VGATextMode} {c : UInt8}

/-- The high byte of a cell, where the colours are. -/
def highByte (v : UInt16) : UInt8 := (v >>> 8).toUInt8

theorem highByte_or (v w : UInt16) : highByte (v ||| w) = highByte v ||| highByte w := by
  rw [highByte, UInt16.shiftRight_or, UInt16.toUInt8_or]
  rfl

/-- A byte that is shifted into a cell. -/
theorem toUInt8_shiftLeft (x : UInt8) : (x.toUInt16 <<< 8).toUInt8 = 0 ∧ (x.toUInt16 <<< 12).toUInt8 = 0 := by
  have h8 : (8 : UInt16).toNat % 16 = 8 := rfl
  have h12 : (12 : UInt16).toNat % 16 = 12 := rfl
  have h0 : (0 : UInt8).toNat = 0 := rfl
  simp only [← UInt8.toNat_inj, UInt16.toNat_toUInt8, UInt16.toNat_shiftLeft, UInt8.toNat_toUInt16,
    h8, h12, h0, Nat.shiftLeft_eq]
  omega

theorem highByte_shifts (x : UInt8) : highByte x.toUInt16 = 0 ∧ highByte (x.toUInt16 <<< 8) = x ∧
    highByte (x.toUInt16 <<< 12) = x * 16 := by
  have hx := x.toNat_lt
  have h8 : (8 : UInt16).toNat % 16 = 8 := rfl
  have h12 : (12 : UInt16).toNat % 16 = 12 := rfl
  have h0 : (0 : UInt8).toNat = 0 := rfl
  have h16 : (16 : UInt8).toNat = 16 := rfl
  simp only [highByte, ← UInt8.toNat_inj, UInt16.toNat_toUInt8, UInt16.toNat_shiftRight,
    UInt16.toNat_shiftLeft, UInt8.toNat_toUInt16, UInt8.toNat_mul, h8, h12, h0, h16,
    Nat.shiftLeft_eq, Nat.shiftRight_eq_div_pow]
  omega

theorem toUInt8_charBits (c : UInt8) : (charBits c).toUInt8 = c := by
  rw [charBits]
  split
  · exact UInt8.toUInt8_toUInt16 c
  · rw [UInt16.toUInt8_or, UInt8.toUInt8_toUInt16]
    exact UInt8.zero_or

/-- The sign of a character, as it lands on the colours. -/
theorem highByte_charBits (c : UInt8) : highByte (charBits c) = if c < 0x80 then 0 else 0xFF := by
  rw [charBits]
  split
  · exact (highByte_shifts c).1
  · rw [highByte_or, (highByte_shifts c).1]
    rfl

theorem toUInt8_attrib (vga : VGATextMode) : vga.attrib.toUInt8 = 0 := by
  rw [attrib, UInt16.toUInt8_or, (toUInt8_shiftLeft _).2, (toUInt8_shiftLeft _).1]
  rfl

theorem highByte_attrib (hf : vga.foregroundColor = foreground)
    (hb : vga.backgroundColor = background) :
    highByte vga.attrib = background * 16 + foreground := by
  have hfg := UInt8.lt_iff_toNat_lt.mp foreground.2
  have hbg := UInt8.lt_iff_toNat_lt.mp background.2
  have h16 : (16 : UInt8).toNat = 2 ^ 4 := rfl
  rw [attrib, highByte_or, (highByte_shifts _).2.2, (highByte_shifts _).2.1, hf, hb,
    ← UInt8.toNat_inj, UInt8.toNat_or, UInt8.toNat_add, UInt8.toNat_mul, h16, ← Nat.shiftLeft_eq]
  rw [h16] at hfg hbg
  rw [Nat.mod_eq_of_lt (a := (background : UInt8).toNat <<< 4), ← Nat.shiftLeft_add_eq_or_of_lt hfg]
  all_goals rw [Nat.shiftLeft_eq]; omega
/-- **The colours of a stored character** are the ones in force, except for a character from
0x80 on that is not white on white. -/
theorem highByte_stored_iff (hf : vga.foregroundColor = foreground)
    (hb : vga.backgroundColor = background) :
    highByte (vga.attrib ||| charBits c) = background * 16 + foreground ↔
      foreground.1 = white ∧ background.1 = white ∨ c < 0x80 := by
  have hfg := UInt8.lt_iff_toNat_lt.mp foreground.2
  have hbg := UInt8.lt_iff_toNat_lt.mp background.2
  have h16 : (16 : UInt8).toNat = 16 := rfl
  have hFF : (0xFF : UInt8).toNat = 255 := rfl
  have hwhite : white.toNat = 15 := rfl
  rw [highByte_or, highByte_attrib hf hb, highByte_charBits]
  by_cases hc : c < 0x80
  · rw [if_pos hc, UInt8.or_zero]
    exact ⟨fun _ => .inr hc, fun _ => rfl⟩
  · -- the ones leave nothing else in the byte
    have hones (x : UInt8) : x ||| 0xFF = 0xFF := UInt8.or_neg_one
    rw [if_neg hc, hones]
    simp only [hc, or_false, ← UInt8.toNat_inj, UInt8.toNat_add, UInt8.toNat_mul, h16, hFF, hwhite]
    omega

end Bytes

/-! ## What was printed, and where it is -/

/-- The cursor, and for the cells that `Print` has written, the character. -/
structure Printed where
  vga : VGATextMode
  chars : ℕ → Option UInt8

namespace Printed

/-- The characters after the store of `PutChar`.  A backspace prints a space. -/
def stored (p : Printed) (c : UInt8) : ℕ → Option UInt8 :=
  match storeOf c p.vga with
  | some (i, _) => Function.update p.chars i (some (if c = 8 then 32 else c))
  | none => p.chars

/-- `PutChar`.  A scroll takes the characters along, and prints a line of spaces. -/
def putChar (p : Printed) (c : UInt8) : Printed where
  vga := advance c p.vga
  chars j := if Scrolls c p.vga then if j < 1920 then p.stored c (j + 80) else some 32
    else p.stored c j

/-- `Print`. -/
def print (cs : List UInt8) (vga : VGATextMode) : Printed := cs.foldl putChar ⟨vga, fun _ => none⟩

/-- Every cell on the screen that `Print` has written. -/
def All (p : Printed) (P : ℕ → UInt8 → Prop) : Prop := ∀ j < 2000, ∀ c, p.chars j = some c → P j c

end Printed

section Print

variable {p : Printed} {k k' : Kernel} {c : UInt8}

/-- The value that `PutChar` stores. -/
theorem storeOf_value {o : ℕ × UInt16} {vga : VGATextMode} (h : storeOf c vga = some o) :
    o.2 = vga.attrib ||| charBits (if c = 8 then 32 else c) := by
  unfold storeOf at h
  split_ifs at h with _ h8
  · cases h
    rw [if_pos h8]
    rfl
  · cases h
    rw [if_neg h8]

/-- The screen holds what was printed, in the colours in force. -/
structure Tracks (p : Printed) (k : Kernel) : Prop where
  vga : k.dev.vga = p.vga
  on : CursorOn k
  cells : p.All fun j c => cell k.mem j = p.vga.attrib ||| charBits c

theorem attrib_advance (c : UInt8) (vga : VGATextMode) : (advance c vga).attrib = vga.attrib := by
  rw [advance, ← attrib_moved c vga]
  split <;> rfl

theorem Printed.stored_eq (c : UInt8) {j : ℕ} {d : UInt8} (hd : p.stored c j = some d) :
    (∃ v, storeOf c p.vga = some (j, v) ∧ d = if c = 8 then 32 else c) ∨
      (∀ o, storeOf c p.vga = some o → j ≠ o.1) ∧ p.chars j = some d := by
  rw [Printed.stored] at hd
  cases ho : storeOf c p.vga with
  | none =>
    rw [ho] at hd
    exact .inr ⟨nofun, hd⟩
  | some o =>
    rw [ho] at hd
    simp only [Function.update_apply] at hd
    split at hd
    · next hji =>
      cases hd
      exact .inl ⟨o.2, by rw [hji], rfl⟩
    · next hji =>
      exact .inr ⟨fun o' ho' => by cases ho'; exact hji, hd⟩

theorem Tracks.stored (h : Tracks p k) {j : ℕ} {d : UInt8} (hj : j < 2000)
    (hd : p.stored c j = some d) :
    stored (storeOf c k.dev.vga) (cell k.mem) j = p.vga.attrib ||| charBits d := by
  rw [h.vga]
  obtain ⟨v, ho, rfl⟩ | ⟨ho, hd⟩ := Printed.stored_eq c hd
  · rw [ho, VGATextMode.stored, Function.update_self]
    exact storeOf_value ho
  · rw [← h.cells j hj d hd]
    cases hstore : storeOf c p.vga with
    | none => rfl
    | some o => rw [VGATextMode.stored, Function.update_of_ne (ho o hstore)]

/-- **One character**, wherever the cursor is. -/
theorem Tracks.putChar (h : Tracks p k) (c : UInt8) :
    Tracks (p.putChar c) (VGATextMode.putChar c k) := by
  refine ⟨(vga_putChar c k).trans (congrArg _ h.vga), cursorOn_putChar h.on c, fun j hj d hd => ?_⟩
  show cell (VGATextMode.putChar c k).mem j = (advance c p.vga).attrib ||| charBits d
  rw [cell_putChar h.on c hj, attrib_advance]
  rw [Printed.putChar] at hd
  simp only at hd ⊢
  split_ifs at hd with hs hlt
  · -- the character has come up from the line below
    rw [if_pos (h.vga ▸ hs), scrolledUp, if_pos hlt]
    exact h.stored (by omega) hd
  · cases hd
    rw [if_pos (h.vga ▸ hs), scrolledUp, if_neg hlt, h.vga]
    rfl
  · rw [if_neg (h.vga ▸ hs)]
    exact h.stored hj hd

theorem Tracks.print (h : Tracks p k) (cs : List UInt8) :
    Tracks (cs.foldl Printed.putChar p) (cs.foldl (fun k c => VGATextMode.putChar c k) k) := by
  induction cs generalizing p k with
  | nil => exact h
  | cons c cs ih =>
    rw [List.foldl_cons, List.foldl_cons]
    exact ih (h.putChar c)

/-- Only the characters of the string and spaces are printed. -/
theorem Printed.all_of_chars {P : UInt8 → Prop} {cs : List UInt8} (hp : p.All fun _ c => P c)
    (hspace : P 32) (hcs : ∀ c ∈ cs, P c) : (cs.foldl Printed.putChar p).All fun _ c => P c := by
  induction cs generalizing p with
  | nil => exact hp
  | cons c cs ih =>
    rw [List.forall_mem_cons] at hcs
    have hstored : ∀ j < 2000, ∀ d, p.stored c j = some d → P d := by
      intro j hj d hd
      obtain ⟨v, -, rfl⟩ | ⟨-, hd⟩ := Printed.stored_eq c hd
      · split
        · exact hspace
        · exact hcs.1
      · exact hp j hj d hd
    apply ih
    · intro j hj d hd
      rw [Printed.putChar] at hd
      simp only at hd
      split_ifs at hd
      · exact hstored (j + 80) (by omega) d hd
      · cases hd
        exact hspace
      · exact hstored j hj d hd
    · exact hcs.2

theorem Printed.attrib_print (cs : List UInt8) (p : Printed) :
    (cs.foldl Printed.putChar p).vga.attrib = p.vga.attrib := by
  induction cs generalizing p with
  | nil => rfl
  | cons c cs ih =>
    rw [List.foldl_cons, ih]
    exact attrib_advance c p.vga

/-- **`Print` in the colours of `SetColor`**: the printed characters that are still on the
screen have these colours if and only if the colours are white on white or these characters
are below 0x80.  Every operation of the text driver leaves the cursor on the screen. -/
theorem print_colors_iff (foreground background : VGAColor) (cs : CStr) {str : CharPtr}
    (h : CursorOn k) (hlen : cs.chars.length < 2 ^ 31)
    (hstr : ∀ k', SameOffScreen k k' → ∀ j ≤ cs.chars.length, str k'.mem j = cs.get j) :
    ∃ k', print str (setColor foreground background k) = some k' ∧
      let p := Printed.print cs.chars (setColor foreground background k).dev.vga
      ((p.All fun j c => highByte (cell k'.mem j) = background * 16 + foreground ∧
          (cell k'.mem j).toUInt8 = c) ↔
        foreground.1 = white ∧ background.1 = white ∨ p.All fun _ c => c < 0x80) := by
  have hstart : Tracks ⟨(setColor foreground background k).dev.vga, fun _ => none⟩
      (setColor foreground background k) := ⟨rfl, h, fun _ _ _ => nofun⟩
  have hputChar : ∀ c ∈ cs.chars, ∀ k, CursorOn k →
      CursorOn (VGATextMode.putChar c k) ∧ SameOffScreen k (VGATextMode.putChar c k) := by
    intro c _ k h
    exact ⟨cursorOn_putChar h c, sameOffScreen_putChar h c⟩
  obtain ⟨-, hprint⟩ := @print_of_text CursorOn (setColor foreground background k) str cs
    hputChar h hlen hstr
  have htracks := hstart.print cs.chars
  generalize cs.chars.foldl (fun k c => VGATextMode.putChar c k) _ = k' at hprint htracks
  refine ⟨k', hprint, ?_⟩
  intro p
  -- the low byte is always right, the high byte under the condition
  have hcell : ∀ j < 2000, ∀ c, p.chars j = some c →
      (highByte (cell k'.mem j) = background * 16 + foreground ∧ (cell k'.mem j).toUInt8 = c ↔
        (foreground.1 = white ∧ background.1 = white) ∨ c < 0x80) := by
    intro j hj c hc
    rw [htracks.cells j hj c hc, Printed.attrib_print, highByte_stored_iff rfl rfl,
      UInt16.toUInt8_or, toUInt8_attrib, toUInt8_charBits, UInt8.zero_or]
    exact and_iff_left rfl
  by_cases hwhite : foreground.1 = white ∧ background.1 = white
  · apply iff_of_true
    · intro j hj c hc
      exact (hcell j hj c hc).mpr (.inl hwhite)
    · exact .inl hwhite
  · rw [or_iff_right hwhite]
    constructor
    · intro hall j hj c hc
      exact ((hcell j hj c hc).mp (hall j hj c hc)).resolve_left hwhite
    · intro hall j hj c hc
      exact (hcell j hj c hc).mpr (.inr (hall j hj c hc))

/-- One letter, white on black. -/
theorem print_colors_letter :
    ∃ k', print (literal "A") (setColor white black Watched.blankKernel) = some k' ∧
      highByte (cell k'.mem 0) = 0x0F ∧ (cell k'.mem 0).toUInt8 = 65 := by
  obtain ⟨k', hprint, hiff⟩ := @print_colors_iff Watched.blankKernel ⟨white, by decide⟩
    ⟨black, by decide⟩ ⟨[65], by decide⟩ (literal "A") ⟨by decide, by decide⟩ (by decide)
    fun _ _ j _ => rfl
  refine ⟨k', hprint, (hiff.mpr (.inr ?_)) 0 (by decide) 65 (by decide)⟩
  exact Printed.all_of_chars (fun _ _ _ => nofun) (by decide)
    (List.forall_mem_singleton.mpr (by decide))

/-- The character 0xE9, white on black, is white on white on the screen. -/
theorem print_colors_sign :
    ∃ k', print (fun _ i => [0xE9].getD i 0) (setColor white black Watched.blankKernel) = some k' ∧
      (Printed.print [0xE9] (setColor white black Watched.blankKernel).dev.vga).chars 0 =
        some 0xE9 ∧
      highByte (cell k'.mem 0) ≠ black * 16 + white := by
  refine ⟨_, rfl, by decide +kernel, by decide +kernel⟩

end Print

end VGATextMode
