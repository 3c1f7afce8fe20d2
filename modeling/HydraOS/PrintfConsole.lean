/-
# The console of the kernel: `printf` of `kernel.cpp`

`printf` keeps a cursor of its own, in two static variables, and writes over whatever the
screen shows.  It never scrolls: when its last line is full it blanks the screen and starts
again at the top.  The colours of a cell stay as they are under every character below 0x80;
`char` is signed, so any other one makes both colours white.
-/
import HydraOS.PrintedColors

open X86

/-! ## The page -/

/-- The cells of the screen in reading order, each a character and its colours, and the place
of the next character. -/
structure PrintfPage where
  chars : ℕ → UInt8
  colors : ℕ → UInt8
  place : ℕ

namespace PrintfPage

/-- A page that is full is blank again. -/
def turn (p : PrintfPage) : PrintfPage :=
  if p.place ≥ 2000 then { p with chars := fun _ => 32, place := 0 } else p

/-- A character: a newline goes to the next line, any other stands at the place. -/
def put (c : UInt8) (p : PrintfPage) : PrintfPage :=
  if c = 10 then turn { p with place := 80 * (p.place / 80 + 1) }
  else turn
    { chars := Function.update p.chars p.place c
      colors := if c < 0x80 then p.colors else Function.update p.colors p.place 0xFF
      place := p.place + 1 }

/-- Several texts, one after the other. -/
def print (texts : List CStr) (p : PrintfPage) : PrintfPage :=
  texts.foldl (fun p text => text.chars.foldl (fun p c => p.put c) p) p

/-- What the screen shows, with the cursor of `printf`. -/
def ofScreen (k : Kernel) : PrintfPage where
  chars j := (cell k.mem j).toUInt8
  colors j := VGATextMode.highByte (cell k.mem j)
  place := 80 * k.dev.printfY.toNat + k.dev.printfX.toNat

end PrintfPage

/-- The cells of the screen hold what is on the page, and apart from them and the cursor
nothing differs from the kernel `k0`. -/
structure ShowsCells (k0 : Kernel) (p : PrintfPage) (k : Kernel) : Prop where
  dev : k.dev = { k0.dev with printfX := k.dev.printfX, printfY := k.dev.printfY }
  off : SameOffScreen k0 k
  chars : ∀ j < 2000, (cell k.mem j).toUInt8 = p.chars j
  colors : ∀ j < 2000, VGATextMode.highByte (cell k.mem j) = p.colors j

/-- **The screen shows the page**, and the cursor is at its place. -/
structure ShowsPrintf (k0 : Kernel) (p : PrintfPage) (k : Kernel) : Prop where
  cells : ShowsCells k0 p k
  col : k.dev.printfX.toNat < 80
  row : k.dev.printfY.toNat < 25
  place : p.place = 80 * k.dev.printfY.toNat + k.dev.printfX.toNat

section Printf

variable {k0 k k' : Kernel} {p q : PrintfPage} {c : UInt8} {j : ℕ}

open VGATextMode

/-! ## One character -/

/-- The value that `printf` stores over a cell. -/
def overprint (v : UInt16) (c : UInt8) : UInt16 := (v &&& 0xFF00) ||| charBits c

theorem toUInt8_overprint (v : UInt16) (c : UInt8) : (overprint v c).toUInt8 = c := by
  rw [overprint, UInt16.toUInt8_or, UInt16.toUInt8_and, toUInt8_charBits]
  exact (congrArg (· ||| c) UInt8.and_zero).trans UInt8.zero_or

theorem highByte_overprint (v : UInt16) (c : UInt8) :
    highByte (overprint v c) = if c < 0x80 then highByte v else 0xFF := by
  have hmask : highByte (v &&& 0xFF00) = highByte v := by
    rw [highByte, UInt16.shiftRight_and, UInt16.toUInt8_and]
    exact UInt8.and_neg_one
  have hones : ∀ x : UInt8, x ||| 0xFF = 0xFF := by decide +kernel
  rw [overprint, highByte_or, hmask, highByte_charBits]
  split
  · exact UInt8.or_zero
  · exact hones _

/-- The place of the page is not on the screen. -/
theorem ShowsCells.move (h : ShowsCells k0 p k) (place : ℕ) :
    ShowsCells k0 { p with place := place } k := ⟨h.dev, h.off, h.chars, h.colors⟩

/-- A store over a cell. -/
theorem ShowsCells.setCell (h : ShowsCells k0 p k) (hj : j < 2000) (c : UInt8) :
    ShowsCells k0
      { p with
        chars := Function.update p.chars j c
        colors := if c < 0x80 then p.colors else Function.update p.colors j 0xFF }
      (setCell j (overprint (cell k.mem j) c) k) := by
  refine ⟨h.dev, h.off.trans (sameOffScreen_setCell hj), fun i hi => ?_, fun i hi => ?_⟩
  · simp only
    rw [cell_setCell hj hi]
    by_cases hij : i = j
    · subst hij
      rw [if_pos rfl, toUInt8_overprint, Function.update_self]
    · rw [if_neg hij, Function.update_of_ne hij, h.chars i hi]
  · simp only
    rw [cell_setCell hj hi]
    by_cases hij : i = j
    · subst hij
      rw [if_pos rfl, highByte_overprint, h.colors i hi]
      split
      · rfl
      · rw [Function.update_self]
    · rw [if_neg hij, h.colors i hi]
      split
      · rfl
      · rw [Function.update_of_ne hij]

/-- The loops that blank the screen. -/
def blankScreen (k : Kernel) : Kernel :=
  forLoop (fun _ => true) (fun y k => forLoop (fun _ => true) (fun x k =>
    setCell (80 * y + x) (overprint (cell k.mem (80 * y + x)) 32) k) 80 0 k) 25 0 k

theorem ShowsCells.blank (h : ShowsCells k0 p k) :
    ShowsCells k0 { p with chars := fun _ => 32, place := 0 } (blankScreen k) := by
  -- a cell that is blanked has not been painted over before
  have hpaint := @Painted.rows (fun j => overprint (cell k.mem j) 32) k 25
    (fun y x k => overprint (cell k.mem (80 * y + x)) 32) le_rfl fun y x k' hy hx hk => by
      rw [hk.cell _ (by omega), if_neg (lt_irrefl _)]
  refine ⟨?_, h.off.trans hpaint.off, fun j hj => ?_, fun j hj => ?_⟩
  · rw [blankScreen, hpaint.dev]
    exact h.dev
  · rw [blankScreen, hpaint.cell j hj, if_pos hj, toUInt8_overprint]
  · rw [blankScreen, hpaint.cell j hj, if_pos hj, highByte_overprint, if_pos (by decide)]
    exact h.colors j hj

/-- What `printf` does after it has moved the cursor. -/
def printfFinish (x y : UInt8) (k : Kernel) : Kernel :=
  let (x, y) := if x ≥ 80 then (0, y + 1) else (x, y)
  let (x, y, k) := if y ≥ 25 then (0, 0, blankScreen k) else (x, y, k)
  { k with dev := { k.dev with printfX := x, printfY := y } }

theorem printfChar_eq (c : UInt8) (k : Kernel) : printfChar c k =
    if c = 10 then printfFinish 0 (k.dev.printfY + 1) k
    else printfFinish (k.dev.printfX + 1) k.dev.printfY
      (setCell (80 * k.dev.printfY.toNat + k.dev.printfX.toNat)
        (overprint (cell k.mem (80 * k.dev.printfY.toNat + k.dev.printfX.toNat)) c) k) := by
  have hspace : charBits 32 = 32 := rfl
  by_cases hc : c = 10
  · rw [if_pos hc, printfChar]
    simp only [if_pos hc, printfFinish, blankScreen, overprint, hspace]
  · rw [if_neg hc, printfChar]
    simp only [if_neg hc, printfFinish, blankScreen, overprint, hspace]

/-- The wrap at the end of a row, and the turn of the page at the end of the last one. -/
theorem ShowsCells.finish (h : ShowsCells k0 p k) {x y : UInt8} (hx : x.toNat ≤ 80)
    (hplace : p.place = 80 * y.toNat + x.toNat) (hle : p.place ≤ 2000) :
    ShowsPrintf k0 p.turn (printfFinish x y k) := by
  have h80 : (80 : UInt8).toNat = 80 := rfl
  have h25 : (25 : UInt8).toNat = 25 := rfl
  have h0 : (0 : UInt8).toNat = 0 := rfl
  have h1 : (1 : UInt8).toNat = 1 := rfl
  obtain ⟨x', y', hwrap, hx', hplace'⟩ : ∃ x' y' : UInt8,
      (if x ≥ 80 then (0, y + 1) else (x, y)) = (x', y') ∧ x'.toNat < 80 ∧
        p.place = 80 * y'.toNat + x'.toNat := by
    by_cases hend : x ≥ 80
    · have hend' : 80 ≤ x.toNat := UInt8.le_iff_toNat_le.mp hend
      refine ⟨0, y + 1, if_pos hend, by decide, ?_⟩
      rw [UInt8.toNat_add, h1]
      omega
    · have hend' : x.toNat < 80 := UInt8.lt_iff_toNat_lt.mp (UInt8.not_le.mp hend)
      exact ⟨x, y, if_neg hend, hend', hplace⟩
  unfold printfFinish
  simp only [hwrap]
  by_cases hfull : y' ≥ 25
  · have hfull' : 25 ≤ y'.toNat := UInt8.le_iff_toNat_le.mp hfull
    have hblank := h.blank
    rw [if_pos hfull, PrintfPage.turn, if_pos (by omega)]
    generalize blankScreen k = k' at hblank ⊢
    have hdev := congrArg (fun d : Devices => { d with printfX := 0, printfY := 0 }) hblank.dev
    exact ⟨⟨hdev, hblank.off, hblank.chars, hblank.colors⟩, Nat.zero_lt_succ _, Nat.zero_lt_succ _,
      rfl⟩
  · have hfull' : y'.toNat < 25 := UInt8.lt_iff_toNat_lt.mp (UInt8.not_le.mp hfull)
    rw [if_neg hfull, PrintfPage.turn, if_neg (by omega)]
    have hdev := congrArg (fun d : Devices => { d with printfX := x', printfY := y' }) h.dev
    exact ⟨⟨hdev, h.off, h.chars, h.colors⟩, hx', hfull', hplace'⟩

/-- **One character.** -/
theorem ShowsPrintf.put (h : ShowsPrintf k0 p k) (c : UInt8) :
    ShowsPrintf k0 (p.put c) (printfChar c k) := by
  have hcol := h.col
  have hrow := h.row
  have hplace := h.place
  rw [printfChar_eq, PrintfPage.put]
  have h1 : (1 : UInt8).toNat = 1 := rfl
  split
  · have hy : (k.dev.printfY + 1).toNat = k.dev.printfY.toNat + 1 := by
      rw [UInt8.toNat_add, h1]
      omega
    have h0 : (0 : UInt8).toNat = 0 := rfl
    refine (h.cells.move _).finish ?_ ?_ ?_
    · omega
    · simp only
      omega
    · simp only
      omega
  · have hx : (k.dev.printfX + 1).toNat = k.dev.printfX.toNat + 1 := by
      rw [UInt8.toNat_add, h1]
      omega
    have hcell := h.cells.setCell (j := p.place) (by omega) c
    rw [← hplace]
    refine (hcell.move (p.place + 1)).finish ?_ ?_ ?_
    · omega
    · simp only
      omega
    · simp only
      omega

/-! ## Texts -/

/-- The string is not on the screen, so that `printf` does not change it. -/
def OffScreen (k0 : Kernel) (str : CharPtr) (text : CStr) : Prop :=
  ∀ k, SameOffScreen k0 k → ∀ j ≤ text.chars.length, str k.mem j = text.get j

/-- The loop of `printf`, from a character on. -/
theorem ShowsPrintf.loop (h : ShowsPrintf k0 p k) {str : CharPtr} {cs : List UInt8} {fuel i : ℕ}
    (h0 : 0 ∉ cs) (hfuel : cs.length < fuel)
    (hstr : ∀ k, SameOffScreen k0 k → ∀ j ≤ cs.length, str k.mem (i + j) = cs.getD j 0) :
    ∃ k', forChars str printfChar fuel i k = some k' ∧
      ShowsPrintf k0 (cs.foldl (fun p c => p.put c) p) k' := by
  induction cs generalizing fuel i k p with
  | nil =>
    obtain ⟨fuel, rfl⟩ := Nat.exists_eq_succ_of_ne_zero (Nat.ne_of_gt hfuel)
    exact ⟨k, if_pos (hstr k h.cells.off 0 le_rfl), h⟩
  | cons c cs ih =>
    rw [List.length_cons] at hfuel hstr
    rw [List.mem_cons, not_or] at h0
    obtain ⟨fuel, rfl⟩ : ∃ n, fuel = n + 1 := ⟨fuel - 1, by omega⟩
    have hfirst : str k.mem i = c := hstr k h.cells.off 0 (Nat.zero_le _)
    rw [forChars, hfirst, if_neg fun heq => h0.1 heq.symm]
    refine ih (h.put c) h0.2 (by omega) fun k' hk' j hj => ?_
    rw [Nat.add_assoc, Nat.add_comm 1 j, hstr k' hk' (j + 1) (by omega), List.getD_cons_succ]

/-- `printf` of a text. -/
theorem ShowsPrintf.text (h : ShowsPrintf k0 p k) {str : CharPtr} {text : CStr}
    (hstr : OffScreen k0 str text) (hlen : text.chars.length < 2 ^ 31) :
    ∃ k', printf str k = some k' ∧
      ShowsPrintf k0 (text.chars.foldl (fun p c => p.put c) p) k' :=
  h.loop text.noNul hlen fun k' hk' j hj => by
    rw [Nat.zero_add, hstr k' hk' j hj]
    rfl

/-- Characters below 0x80 leave the colours alone. -/
theorem colors_put (hc : c < 0x80) (p : PrintfPage) : (p.put c).colors = p.colors := by
  have hturn (q : PrintfPage) : q.turn.colors = q.colors := by
    rw [PrintfPage.turn]
    split <;> rfl
  rw [PrintfPage.put]
  by_cases hnl : c = 10
  · rw [if_pos hnl, hturn]
  · rw [if_neg hnl, hturn]
    exact if_pos hc

theorem colors_print {texts : List CStr} (h : ∀ text ∈ texts, ∀ c ∈ text.chars, c < 0x80)
    (p : PrintfPage) : (PrintfPage.print texts p).colors = p.colors := by
  have hchars (cs : List UInt8) (hcs : ∀ c ∈ cs, c < 0x80) (p : PrintfPage) :
      (cs.foldl (fun p c => p.put c) p).colors = p.colors := by
    induction cs generalizing p with
    | nil => rfl
    | cons c cs ih =>
      rw [List.forall_mem_cons] at hcs
      exact (ih hcs.2 _).trans (colors_put hcs.1 p)
  induction texts generalizing p with
  | nil => rfl
  | cons text texts ih =>
    rw [List.forall_mem_cons] at h
    exact (ih h.2 _).trans (hchars _ h.1 p)

/-- Several calls of `printf`. -/
theorem ShowsPrintf.texts (h : ShowsPrintf k0 p k) {texts : List (CharPtr × CStr)}
    (htexts : ∀ t ∈ texts, OffScreen k0 t.1 t.2 ∧ t.2.chars.length < 2 ^ 31) :
    ∃ k', texts.foldlM (fun k t => printf t.1 k) k = some k' ∧
      ShowsPrintf k0 (PrintfPage.print (texts.map Prod.snd) p) k' := by
  induction texts generalizing p k with
  | nil => exact ⟨k, rfl, h⟩
  | cons t texts ih =>
    rw [List.forall_mem_cons] at htexts
    obtain ⟨k', hk', h'⟩ := h.text htexts.1.1 htexts.1.2
    rw [List.foldlM_cons, hk']
    exact ih h' htexts.2

theorem showsPrintf_ofScreen (hcol : k.dev.printfX < 80) (hrow : k.dev.printfY < 25) :
    ShowsPrintf k (.ofScreen k) k :=
  ⟨⟨rfl, .refl k, fun _ _ => rfl, fun _ _ => rfl⟩, UInt8.lt_iff_toNat_lt.mp hcol,
    UInt8.lt_iff_toNat_lt.mp hrow, rfl⟩

/-- **`printf` is a console of one page.**  From any screen, with the cursor on it, any calls of
`printf` with strings that are not on the screen return; they change nothing but the cells of
the screen and the cursor; the screen shows the page that the characters give, whose next place
is that of the cursor; and characters below 0x80 leave all colours as they were. -/
theorem printf_shows_page (k0 : Kernel) (hcol : k0.dev.printfX < 80) (hrow : k0.dev.printfY < 25)
    (texts : List (CharPtr × CStr))
    (htexts : ∀ t ∈ texts, OffScreen k0 t.1 t.2 ∧ t.2.chars.length < 2 ^ 31) :
    let page := PrintfPage.print (texts.map Prod.snd) (.ofScreen k0)
    ∃ k, texts.foldlM (fun k t => printf t.1 k) k0 = some k ∧
      k.dev = { k0.dev with printfX := k.dev.printfX, printfY := k.dev.printfY } ∧
      SameOffScreen k0 k ∧ k.dev.printfX < 80 ∧ k.dev.printfY < 25 ∧
      page.place = 80 * k.dev.printfY.toNat + k.dev.printfX.toNat ∧
      (∀ j < 2000, (cell k.mem j).toUInt8 = page.chars j ∧
        highByte (cell k.mem j) = page.colors j) ∧
      ((∀ t ∈ texts, ∀ c ∈ t.2.chars, c < 0x80) →
        ∀ j < 2000, highByte (cell k.mem j) = highByte (cell k0.mem j)) := by
  intro page
  obtain ⟨k, hk, h⟩ := (showsPrintf_ofScreen hcol hrow).texts htexts
  refine ⟨k, hk, h.cells.dev, h.cells.off, UInt8.lt_iff_toNat_lt.mpr h.col,
    UInt8.lt_iff_toNat_lt.mpr h.row, h.place, fun j hj => ⟨h.cells.chars j hj, h.cells.colors j hj⟩,
    fun hchars j hj => ?_⟩
  rw [h.cells.colors j hj, colors_print]
  · rfl
  · intro text htext
    obtain ⟨t, ht, rfl⟩ := List.mem_map.mp htext
    exact hchars t ht

/-- Two letters on two lines of a blank screen. -/
theorem printf_shows_page_lines :
    let text : CStr := ⟨[65, 10, 66], by decide⟩
    ∃ k, [((fun _ i => [65, 10, 66].getD i 0 : CharPtr), text)].foldlM
        (fun k t => printf t.1 k) Watched.blankKernel = some k ∧
      k.dev.printfY.toNat = 1 ∧ k.dev.printfX.toNat = 1 ∧
      (cell k.mem 0).toUInt8 = 65 ∧ (cell k.mem 80).toUInt8 = 66 := by
  intro text
  obtain ⟨k, hk, -, -, hcol, -, hplace, hcells, -⟩ := printf_shows_page Watched.blankKernel
    (by decide) (by decide) [((fun _ i => [65, 10, 66].getD i 0 : CharPtr), text)]
    (by
      intro t ht
      rw [List.mem_singleton.mp ht]
      exact ⟨fun _ _ _ _ => rfl, by decide⟩)
  have hend : (PrintfPage.print [text] (.ofScreen Watched.blankKernel)).place = 81 := by decide
  have hcol' := UInt8.lt_iff_toNat_lt.mp hcol
  replace hplace := hend.symm.trans hplace
  replace hcol' : k.dev.printfX.toNat < 80 := hcol'
  refine ⟨k, hk, by omega, by omega, ?_, ?_⟩
  · exact (hcells 0 (by decide)).1.trans (by decide)
  · exact (hcells 80 (by decide)).1.trans (by decide)

end Printf
