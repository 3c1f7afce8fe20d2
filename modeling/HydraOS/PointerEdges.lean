/-
# The pointer at the edges of the screen

The mouse pointer stops at the edges of the screen.  The handler adds the offset in 8 bits
before it looks at the edges, so that a long move to the right or down comes out at the other
edge.  The pointer is where exact arithmetic puts it if and only if every sum on the way fits.
-/
import HydraOS.MouseDriver
import HydraOS.MousePointer
import HydraOS.Runs

/-! ## The exact pointer -/

/-- A coordinate that stops at 0 and at `last`. -/
def clamp (last v : ℤ) : ℤ := max 0 (min v last)

/-- The position after an event, in exact arithmetic. -/
def exactPosition (p : ℤ × ℤ) (e : ScreenEvent) : (ℤ × ℤ) × Unit :=
  (match e with
    | .move xoffset yoffset => (clamp 79 (p.1 + xoffset), clamp 24 (p.2 + yoffset))
    | .text _ => p, ())

/-- The offsets of a move that a mouse can make. -/
def InRange : ScreenEvent → Prop
  | .move xoffset yoffset => -255 ≤ xoffset ∧ xoffset ≤ 255 ∧ -255 ≤ yoffset ∧ yoffset ≤ 255
  | .text _ => True

/-- The sums of a move fit in 8 bits. -/
def SumsFit (p : ℤ × ℤ) : ScreenEvent → Prop
  | .move xoffset yoffset => (-128 ≤ p.1 + xoffset ∧ p.1 + xoffset ≤ 127) ∧
      -128 ≤ p.2 + yoffset ∧ p.2 + yoffset ≤ 127
  | .text _ => True

instance : ∀ e, Decidable (InRange e)
  | .move _ _ => inferInstanceAs (Decidable (_ ∧ _))
  | .text _ => isTrue trivial

instance (p : ℤ × ℤ) : ∀ e, Decidable (SumsFit p e)
  | .move _ _ => inferInstanceAs (Decidable (_ ∧ _))
  | .text _ => isTrue trivial

/-! ## The moves that the driver reports -/

namespace MouseDriver

theorem inRange_of_mem_moveCall {x y : UInt8} {xoffset yoffset : ℤ}
    (h : .onMouseMove xoffset yoffset ∈ moveCall x y) : InRange (.move xoffset yoffset) := by
  have hx := x.toInt8.le_toInt
  have hx' := x.toInt8.toInt_lt
  have hy := y.toInt8.le_toInt
  have hy' := y.toInt8.toInt_lt
  rw [moveCall] at h
  split at h
  · cases List.mem_singleton.mp h
    refine ⟨?_, ?_, ?_, ?_⟩ <;> omega
  · exact absurd h List.not_mem_nil

theorem inRange_of_mem_receive {m : MouseDriver} {data : UInt8} {handler : Bool}
    {xoffset yoffset : ℤ} (h : .onMouseMove xoffset yoffset ∈ (receive handler m data).2) :
    InRange (.move xoffset yoffset) := by
  have hbutton (flags buttons i : UInt8) :
      .onMouseMove xoffset yoffset ∉ buttonCall flags buttons i := by
    intro hmem
    rw [buttonCall] at hmem
    split_ifs at hmem
    · cases List.mem_singleton.mp hmem
    · cases List.mem_singleton.mp hmem
    · exact absurd hmem List.not_mem_nil
  unfold receive at h
  simp only at h
  split_ifs at h
  · exact absurd h List.not_mem_nil
  · rcases List.mem_append.mp h with hmove | hbuttons
    · exact inRange_of_mem_moveCall hmove
    · obtain ⟨i, -, hi⟩ := List.mem_flatMap.mp hbuttons
      exact absurd hi (hbutton _ _ i)
  · exact absurd h List.not_mem_nil

/-- The moves of one interrupt are such. -/
def MovesInRange (i : MouseInterrupt) : Prop :=
  ∀ xoffset yoffset, .onMouseMove xoffset yoffset ∈ i.calls → InRange (.move xoffset yoffset)

/-- The events of the calls, for the pointer. -/
def moves (calls : List MouseCall) : List ScreenEvent :=
  calls.filterMap fun
    | .onMouseMove xoffset yoffset => some (.move xoffset yoffset)
    | _ => none

/-- **Every move that the driver reports**, on any run, is one that a mouse can make. -/
theorem inRange_moves {δ : Type} (D : Device δ) (handler : Bool) (s : MouseDriver × Bus δ)
    (esps : List UInt32) :
    ∀ e ∈ moves (allCalls (outputs (handleInterrupt D handler) s esps)), InRange e := by
  have hstep (s : MouseDriver × Bus δ) (esp : UInt32) :
      MovesInRange (handleInterrupt D handler s esp).2 := by
    intro xoffset yoffset hmem
    by_cases hstatus : (s.2.inb D commandport).1 &&& 0x20 = 0
    · rw [handleInterrupt_foreign hstatus] at hmem
      exact absurd hmem List.not_mem_nil
    · rw [handleInterrupt_data hstatus] at hmem
      exact inRange_of_mem_receive hmem
  have hcalls : ∀ i ∈ outputs (handleInterrupt D handler) s esps, MovesInRange i :=
    outputs_forall (fun _ => True) (fun s esp _ => ⟨trivial, hstep s esp⟩) trivial
  intro e he
  obtain ⟨call, hcall, hsome⟩ := List.mem_filterMap.mp he
  obtain ⟨i, hi, hmem⟩ := List.mem_flatMap.mp hcall
  cases call with
  | onMouseMove xoffset yoffset =>
    cases hsome
    exact hcalls i hi xoffset yoffset hmem
  | onActivate => cases hsome
  | onMouseDown button => cases hsome
  | onMouseUp button => cases hsome

end MouseDriver

/-! ## The pointer of the handler -/

namespace MouseToConsole

/-- `x` and `y`. -/
def position (m : MouseToConsole) : ℤ × ℤ := (m.x.toInt, m.y.toInt)

/-- **One coordinate of a move** is exact if and only if the sum fits in 8 bits. -/
theorem shift_exact_iff {v size : Int8} {offset : ℤ} (hedges : 1 < size.toInt)
    (hv : 0 ≤ v.toInt ∧ v.toInt < size.toInt) (hoffset : -255 ≤ offset ∧ offset ≤ 255) :
    (shift v offset size).toInt = clamp (size.toInt - 1) (v.toInt + offset) ↔
      -128 ≤ v.toInt + offset ∧ v.toInt + offset ≤ 127 := by
  obtain ⟨hv0, hvsize⟩ := hv
  obtain ⟨hlow, hhigh⟩ := hoffset
  have hsize := size.toInt_lt
  have h0 : (0 : Int8).toInt = 0 := rfl
  have hpred := @toInt_pred size (by omega)
  -- the sum, one turn further down or up where it does not fit
  have hsum : (Int8.ofInt (v.toInt + offset)).toInt = (v.toInt + offset).bmod 256 :=
    Int8.toInt_ofInt
  have hwrap : (v.toInt + offset).bmod 256 = v.toInt + offset ∧
        (-128 ≤ v.toInt + offset ∧ v.toInt + offset ≤ 127) ∨
      (v.toInt + offset).bmod 256 = v.toInt + offset - 256 ∧ 128 ≤ v.toInt + offset ∨
      (v.toInt + offset).bmod 256 = v.toInt + offset + 256 ∧ v.toInt + offset < -128 := by
    rw [Int.bmod_def]
    split_ifs <;> omega
  rw [shift, clamp]
  generalize Int8.ofInt (v.toInt + offset) = w at hsum
  rw [← hsum] at hwrap
  simp only [ge_iff_le, Int8.le_iff_toInt_le, Int8.lt_iff_toInt_lt, h0]
  rcases hwrap with ⟨hw, hfits⟩ | ⟨hw, hover⟩ | ⟨hw, hunder⟩
  · split_ifs <;> omega
  · split_ifs <;> omega
  · split_ifs <;> omega

/-- One move, on both coordinates. -/
theorem onMouseMove_exact_iff {m : MouseToConsole} (k : Kernel) (h : m.OnScreen)
    {xoffset yoffset : ℤ} (hrange : InRange (.move xoffset yoffset)) :
    (m.onMouseMove xoffset yoffset k).1.position =
        (exactPosition m.position (.move xoffset yoffset)).1 ↔
      SumsFit m.position (.move xoffset yoffset) := by
  obtain ⟨hx0, hx80, hy0, hy25⟩ := h
  obtain ⟨hxlow, hxhigh, hylow, hyhigh⟩ := hrange
  have hx := @shift_exact_iff m.x 80 xoffset (by decide) ⟨hx0, hx80⟩ ⟨hxlow, hxhigh⟩
  have hy := @shift_exact_iff m.y 25 yoffset (by decide) ⟨hy0, hy25⟩ ⟨hylow, hyhigh⟩
  have h80 : (80 : Int8).toInt - 1 = 79 := rfl
  have h25 : (25 : Int8).toInt - 1 = 24 := rfl
  rw [h80] at hx
  rw [h25] at hy
  exact Prod.mk_inj.trans (and_congr hx hy)

end MouseToConsole

/-! ## Runs -/

namespace Pointing

/-- **When the pointer stops at the edges.**  After `OnActivate` and any moves that a mouse can
make, with any operations of the text driver between them: the pointer has always been where
exact arithmetic puts it if and only if the sums of all moves have fitted in 8 bits. -/
theorem position_exact_iff (k : Kernel) (events : List ScreenEvent)
    (hrange : ∀ e ∈ events, InRange e) :
    (∀ past, past <+: events →
        (finalState step (start k) past).mouse.position = finalState exactPosition (40, 12) past) ↔
      Along exactPosition SumsFit (40, 12) events := by
  apply forall_prefix_agree_iff
    (fun (s : Pointing) (p : ℤ × ℤ) => s.mouse.OnScreen ∧ s.mouse.position = p)
    (fun s p => s.mouse.position = p) InRange
  · rintro s p ⟨-, hp⟩
    exact hp
  · rintro s p e ⟨hon, rfl⟩ hin hfits
    cases e with
    | move xoffset yoffset =>
      exact ⟨@MouseToConsole.onScreen_onMouseMove _ s.kernel xoffset yoffset,
        (MouseToConsole.onMouseMove_exact_iff s.kernel hon hin).mpr hfits⟩
    | text op => exact ⟨hon, rfl⟩
  · rintro s p e ⟨hon, rfl⟩ hin hfits
    cases e with
    | move xoffset yoffset =>
      exact mt (MouseToConsole.onMouseMove_exact_iff s.kernel hon hin).mp hfits
    | text op => exact absurd trivial hfits
  · exact ⟨@MouseToConsole.onScreen_onActivate k, rfl⟩
  · exact hrange

theorem position_exact_left :
    (finalState step (start Watched.blankKernel) [.move (-60) 3]).mouse.position = (0, 15) :=
  (position_exact_iff Watched.blankKernel [.move (-60) 3] (by decide)).mpr (by decide) _
    List.prefix_rfl

/-- A move by 88 to the right ends at the left edge. -/
theorem position_opposite_edge : InRange (.move 88 0) ∧
    (finalState step (start Watched.blankKernel) [.move 88 0]).mouse.position = (0, 12) ∧
      finalState exactPosition (40, 12) [.move 88 0] = (79, 12) := by
  refine ⟨?_, ?_, ?_⟩ <;> decide

end Pointing
