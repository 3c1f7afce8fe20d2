/-
# The video memory

The 2000 cells of the text screen as an array in memory: what a store into one cell
changes, and what the loops of `Clear` and `Scroll`, which paint the screen cell by cell,
leave in all of them.
-/
import HydraOS.TextScreen

open X86

/-! ## Cells -/

/-- An address of one of the 2000 cells. -/
def OnScreen (x : UInt32) : Prop :=
  videoMemory.toNat ≤ x.toNat ∧ x.toNat < videoMemory.toNat + 4000

/-- The memory outside the screen is the same. -/
def SameOffScreen (k k' : Kernel) : Prop :=
  ∀ x, ¬ OnScreen x → loadByte k'.mem x = loadByte k.mem x

section Cells

variable {k k' k'' : Kernel} {i j : ℕ} {v : UInt16} {x : UInt32}

theorem SameOffScreen.refl (k : Kernel) : SameOffScreen k k := fun _ _ => rfl

theorem SameOffScreen.trans (h : SameOffScreen k k') (h' : SameOffScreen k' k'') :
    SameOffScreen k k'' := fun x hx => (h' x hx).trans (h x hx)

/-- The two bytes of a cell. -/
theorem toNat_cellAddr (hi : i < 2000) :
    (videoMemory + 2 * .ofNat i).toNat = videoMemory.toNat + 2 * i ∧
      (videoMemory + 2 * .ofNat i + 1).toNat = videoMemory.toNat + 2 * i + 1 := by
  have hvideo : videoMemory.toNat = 753664 := rfl
  have h1 : (1 : UInt32).toNat = 1 := rfl
  have h2 : (2 : UInt32).toNat = 2 := rfl
  rw [UInt32.toNat_add _ 1, UInt32.toNat_add, UInt32.toNat_mul, UInt32.toNat_ofNat', hvideo, h1, h2]
  omega

/-- A cell has its low byte first. -/
theorem join_bytes (v : UInt16) :
    v.toUInt8.toUInt16 ||| ((v >>> 8).toUInt8.toUInt16 <<< 8) = v := by
  have hv := v.toNat_lt
  have h8 : (8 : UInt16).toNat % 16 = 8 := rfl
  have hlow : v.toNat % 2 ^ 8 < 2 ^ 8 := Nat.mod_lt _ (by decide)
  apply UInt16.toNat_inj.mp
  rw [UInt16.toNat_or, UInt8.toNat_toUInt16, UInt16.toNat_toUInt8, UInt16.toNat_shiftLeft,
    UInt8.toNat_toUInt16, UInt16.toNat_toUInt8, UInt16.toNat_shiftRight, h8,
    Nat.mod_eq_of_lt (a := _ <<< 8), Nat.lor_comm, ← Nat.shiftLeft_add_eq_or_of_lt hlow,
    Nat.shiftLeft_eq, Nat.shiftRight_eq_div_pow]
  · omega
  · rw [Nat.shiftLeft_eq]
    omega

theorem loadByte_setCell : loadByte (setCell i v k).mem x =
    if x = videoMemory + 2 * .ofNat i + 1 then (v >>> 8).toUInt8
    else if x = videoMemory + 2 * .ofNat i then v.toUInt8 else loadByte k.mem x := by
  rw [setCell]
  simp only
  rw [loadByte_storeByte, loadByte_storeByte]

/-- **A store into a cell** is read back there, and in no other cell. -/
theorem cell_setCell (hi : i < 2000) (hj : j < 2000) :
    cell (setCell i v k).mem j = if j = i then v else cell k.mem j := by
  obtain ⟨hlow, hhigh⟩ := toNat_cellAddr hi
  obtain ⟨hlow', hhigh'⟩ := toNat_cellAddr hj
  rw [cell, loadByte_setCell, loadByte_setCell]
  by_cases hji : j = i
  · subst hji
    rw [if_pos rfl, if_pos rfl, if_pos rfl, if_neg, join_bytes]
    intro h
    have := congrArg UInt32.toNat h
    omega
  · have hne {a b : UInt32} (h : a.toNat ≠ b.toNat) : a ≠ b := fun heq => h (heq ▸ rfl)
    rw [if_neg hji, if_neg (hne (by omega)), if_neg (hne (by omega)), if_neg (hne (by omega)),
      if_neg (hne (by omega)), cell]

/-- A store into a cell stays on the screen. -/
theorem sameOffScreen_setCell (hi : i < 2000) : SameOffScreen k (setCell i v k) := by
  intro x hx
  obtain ⟨hlow, hhigh⟩ := toNat_cellAddr hi
  rw [loadByte_setCell, if_neg, if_neg]
  · rintro rfl
    exact hx ⟨by omega, by omega⟩
  · rintro rfl
    exact hx ⟨by omega, by omega⟩

end Cells

/-! ## Painting the screen -/

/-- The first `n` cells hold `g`, the others what they held. -/
structure Painted (g : ℕ → UInt16) (k : Kernel) (n : ℕ) (k' : Kernel) : Prop where
  dev : k'.dev = k.dev
  off : SameOffScreen k k'
  cell : ∀ j < 2000, cell k'.mem j = if j < n then g j else cell k.mem j

section Painting

variable {g : ℕ → UInt16} {k k' : Kernel} {n count y : ℕ}

theorem Painted.zero (g : ℕ → UInt16) (k : Kernel) : Painted g k 0 k :=
  ⟨rfl, .refl k, fun j _ => by rw [if_neg (by omega)]⟩

/-- One more cell. -/
theorem Painted.succ (h : Painted g k n k') (hn : n < 2000) :
    Painted g k (n + 1) (setCell n (g n) k') := by
  refine ⟨h.dev, h.off.trans (sameOffScreen_setCell hn), fun j hj => ?_⟩
  rw [cell_setCell hn hj, h.cell j hj]
  by_cases hjn : j = n
  · subst hjn
    rw [if_pos rfl, if_pos (by omega)]
  · rw [if_neg hjn]
    by_cases hlt : j < n
    · rw [if_pos hlt, if_pos (by omega)]
    · rw [if_neg hlt, if_neg (by omega)]

/-- The loop over the columns of a row. -/
theorem Painted.row {v : ℕ → Kernel → UInt16} (h : Painted g k (80 * y) k') (hy : y < 25)
    (hv : ∀ x k', x < 80 → Painted g k (80 * y + x) k' → v x k' = g (80 * y + x)) :
    Painted g k (80 * (y + 1))
      (forLoop (fun _ => true) (fun x k => setCell (80 * y + x) (v x k) k) 80 0 k') := by
  have hloop := @forLoop_invariant_of_true _ (fun x k => setCell (80 * y + x) (v x k) k) 80 0 k'
    (fun x k' => Painted g k (80 * y + x) k') h fun x k'' _ hx hinv => ?_
  · exact hloop
  · rw [hv _ _ (by omega) hinv]
    exact hinv.succ (by omega)

/-- **The loop over the rows**, when each cell gets its value from what is painted so
far. -/
theorem Painted.rows {v : ℕ → ℕ → Kernel → UInt16} (hcount : count ≤ 25)
    (hv : ∀ y x k', y < count → x < 80 → Painted g k (80 * y + x) k' →
      v y x k' = g (80 * y + x)) :
    Painted g k (80 * count) (forLoop (fun _ => true) (fun y k =>
      forLoop (fun _ => true) (fun x k => setCell (80 * y + x) (v y x k) k) 80 0 k)
        count 0 k) := by
  have hloop := @forLoop_invariant_of_true _ (fun y k =>
      forLoop (fun _ => true) (fun x k => setCell (80 * y + x) (v y x k) k) 80 0 k) count 0 k
    (fun y k' => Painted g k (80 * y) k') (.zero g k) fun y k' _ hy hinv => ?_
  · rwa [Nat.zero_add] at hloop
  · exact hinv.row (by omega) fun x k'' hx => hv y x k'' (by omega) hx

end Painting

/-! ## `Clear` and `Scroll` -/

namespace VGATextMode

section Loops

variable {k : Kernel}

/-- **`Clear`** before it updates the cursor: every cell is blank. -/
theorem clear_eq (k : Kernel) : ∃ k', Painted (fun _ => k.dev.vga.attrib ||| 32) k 2000 k' ∧
    clear k = updateCursor (k'.setVga { k.dev.vga with cursorX := 0, cursorY := 0 }) := by
  have hpaint := @Painted.rows (fun _ => k.dev.vga.attrib ||| 32) k 25
    (fun _ _ _ => k.dev.vga.attrib ||| 32) le_rfl fun _ _ _ _ _ _ => rfl
  refine ⟨_, hpaint, ?_⟩
  rw [clear]
  simp only
  rw [hpaint.dev]

/-- The cells after a scroll. -/
def scrolled (k : Kernel) (j : ℕ) : UInt16 :=
  if j < 1920 then cell k.mem (j + 80) else k.dev.vga.attrib ||| 32

/-- **`Scroll`**: all lines move up by one, and the last line is blank. -/
theorem scroll_eq (k : Kernel) : ∃ k', Painted (scrolled k) k 2000 k' ∧
    scroll k = k'.setVga { k.dev.vga with cursorY := 24 } := by
  -- a line is read before it is painted over
  have hlines := @Painted.rows (scrolled k) k 24
    (fun y x k' => cell k'.mem (80 * (y + 1) + x)) (by omega) fun y x k' hy hx h => by
      rw [h.cell _ (by omega), if_neg (by omega), scrolled, if_pos (by omega)]
      congr 1
      omega
  have hlast := @Painted.row (scrolled k) k _ 24 (fun _ _ => k.dev.vga.attrib ||| 32) hlines
    (by decide) fun x _ _ _ => by rw [scrolled, if_neg (by omega)]
  refine ⟨_, hlast, ?_⟩
  rw [scroll]
  simp only
  rw [hlast.dev]

end Loops

end VGATextMode
