/-
# The graphics mode: `VideoGraphicsArray` of `vga.cpp`

`SetMode` finds the adapter in whatever state it is and leaves every register as the table of the
mode says; pixels then go to the frame buffer that the adapter names.  A run of calls paints a
canvas without bounds, of which the frame buffer holds 320 columns and 200 rows.
-/
import HydraOS.Bytes
import HydraOS.Runs
import HydraOS.VgaAdapter

/-! ## The driver -/

namespace VideoGraphicsArray

/-- The ports. -/
def miscPort : UInt16 := 0x3C2
def crtcIndexPort : UInt16 := 0x3D4
def crtcDataPort : UInt16 := 0x3D5
def sequencerIndexPort : UInt16 := 0x3C4
def sequencerDataPort : UInt16 := 0x3C5
def graphicsControllerIndexPort : UInt16 := 0x3CE
def graphicsControllerDataPort : UInt16 := 0x3CF
def attributeControllerIndexPort : UInt16 := 0x3C0
def attributeControllerWritePort : UInt16 := 0x3C0
def attributeControllerResetPort : UInt16 := 0x3DA

section Driver

variable {δ : Type} (D : Device δ)

/-- `for(uint8_t i = 0; i < n; i++)` over index and data of a bank, with `registers` at index
`first` of the table. -/
def writeBank (indexPort dataPort : UInt16) (registers : Bytes 61) (first n : ℕ) (b : Bus δ) :
    Bus δ :=
  forLoop (fun _ => true) (fun i b =>
    (b.outb D indexPort (.ofNat i)).outb D dataPort (registers.get (first + i))) n 0 b

/-- The loop over the attribute controller. -/
def writeAttributes (registers : Bytes 61) (first n : ℕ) (b : Bus δ) : Bus δ :=
  forLoop (fun _ => true) (fun i b =>
    let b := (b.inb D attributeControllerResetPort).2
    (b.outb D attributeControllerIndexPort (.ofNat i)).outb D attributeControllerWritePort
      (registers.get (first + i))) n 0 b

/-- Unlock the CRT controller. -/
def unlock (b : Bus δ) : Bus δ :=
  let b := b.outb D crtcIndexPort 0x03
  let (v, b) := b.inb D crtcDataPort
  let b := b.outb D crtcDataPort (v ||| 0x80)
  let b := b.outb D crtcIndexPort 0x11
  let (v, b) := b.inb D crtcDataPort
  b.outb D crtcDataPort (v &&& ~~~0x80)

/-- The table after "make sure they remain unlocked".  The pointer stands at index 6 there. -/
def keepUnlocked (registers : Bytes 61) : Bytes 61 :=
  let registers := registers.set (6 + 0x03) (registers.get (6 + 0x03) ||| 0x80)
  registers.set (6 + 0x11) (registers.get (6 + 0x11) &&& ~~~0x80)

/-- `WriteRegisters`, with the table after it. -/
def writeRegisters (registers : Bytes 61) (b : Bus δ) : Bytes 61 × Bus δ :=
  let b := b.outb D miscPort (registers.get 0)
  let b := writeBank D sequencerIndexPort sequencerDataPort registers 1 5 b
  let b := unlock D b
  let registers := keepUnlocked registers
  let b := writeBank D crtcIndexPort crtcDataPort registers 6 25 b
  let b := writeBank D graphicsControllerIndexPort graphicsControllerDataPort registers 31 9 b
  let b := writeAttributes D registers 40 21 b
  -- lock the palette and unblank the display
  let b := (b.inb D attributeControllerResetPort).2
  (registers, b.outb D attributeControllerIndexPort 0x20)

/-- `SupportsMode`. -/
def supportsMode (width height colorDepth : UInt32) : Bool :=
  width = 320 ∧ height = 200 ∧ colorDepth = 8

/-- `g_320x200x256`. -/
def g320x200x256 : Bytes 61 := fun i => [
    0x63,
    -- the sequencer
    0x03, 0x01, 0x0F, 0x00, 0x0E,
    -- the CRT controller
    0x5F, 0x4F, 0x50, 0x82, 0x54, 0x80, 0xBF, 0x1F,
    0x00, 0x41, 0x00, 0x00, 0x00, 0x00, 0x00, 0x00,
    0x9C, 0x0E, 0x8F, 0x28, 0x40, 0x96, 0xB9, 0xA3,
    0xFF,
    -- the graphics controller
    0x00, 0x00, 0x00, 0x00, 0x00, 0x40, 0x05, 0x0F,
    0xFF,
    -- the attribute controller
    0x00, 0x01, 0x02, 0x03, 0x04, 0x05, 0x06, 0x07,
    0x08, 0x09, 0x0A, 0x0B, 0x0C, 0x0D, 0x0E, 0x0F,
    0x41, 0x00, 0x0F, 0x00, 0x00].getD i.val 0

/-- `SetMode`. -/
def setMode (width height colorDepth : UInt32) (b : Bus δ) : Bool × Bus δ :=
  if supportsMode width height colorDepth then (true, (writeRegisters D g320x200x256 b).2)
  else (false, b)

/-- `GetFrameBufferSegment`. -/
def getFrameBufferSegment (b : Bus δ) : UInt32 × Bus δ :=
  let b := b.outb D graphicsControllerIndexPort 0x06
  let (v, b) := b.inb D graphicsControllerDataPort
  let segmentNumber : UInt8 := v &&& ((3 : UInt8) <<< 2)
  (if segmentNumber = (1 : UInt8) <<< 2 then 0xA0000
    else if segmentNumber = (2 : UInt8) <<< 2 then 0xB0000
    else if segmentNumber = (3 : UInt8) <<< 2 then 0xB8000
    else 0x00000, b)

/-- `PutPixel(x, y, colorIndex)`, on the memory and the ports. -/
def putPixel (x y : Int32) (colorIndex : UInt8) (s : Mem × Bus δ) : Mem × Bus δ :=
  if x < 0 ∨ x ≥ 320 ∨ y < 0 ∨ y ≥ 200 then s
  else
    let (segment, b) := getFrameBufferSegment D s.2
    let pixelAddress := segment + (320 * y).toUInt32 + x.toUInt32
    (s.1.setByte pixelAddress.toNat colorIndex, b)

/-- `GetColorIndex`. -/
def getColorIndex (r g b : UInt8) : UInt8 :=
  if r = 0x00 ∧ g = 0x00 ∧ b = 0x00 then 0x00
  else if r = 0x00 ∧ g = 0x00 ∧ b = 0xA8 then 0x01
  else if r = 0x00 ∧ g = 0xA8 ∧ b = 0x00 then 0x02
  else if r = 0xA8 ∧ g = 0x00 ∧ b = 0x00 then 0x04
  else if r = 0xFF ∧ g = 0xFF ∧ b = 0xFF then 0x3F
  else 0x00

/-- `PutPixel(x, y, r, g, b)`. -/
def putPixelRgb (x y : Int32) (r g b : UInt8) (s : Mem × Bus δ) : Mem × Bus δ :=
  putPixel D x y (getColorIndex r g b) s

end Driver

/-! ## The registers after `WriteRegisters` -/

section Registers

open VgaAdapter IndexedBank

variable {registers : Bytes 61} {first n : ℕ} {b : Bus VgaAdapter} {a : VgaAdapter}

/-- **A bank**, filled through its ports. -/
theorem dev_writeBank {indexPort dataPort : UInt16} (put : IndexedBank → VgaAdapter)
    {bank : IndexedBank} (hb : b.dev = put bank)
    (hround : ∀ i < n, ∀ v,
      device.outb dataPort v (device.outb indexPort (.ofNat i)
        (put (bank.fill (fun i => registers.get (first + i)) i))) =
      put (((bank.fill (fun i => registers.get (first + i)) i).select (.ofNat i)).store v)) :
    (writeBank device indexPort dataPort registers first n b).dev =
      put (bank.fill (fun i => registers.get (first + i)) n) := by
  have hloop := @forLoop_invariant_of_true _
    (fun i (b : Bus VgaAdapter) => (b.outb device indexPort (.ofNat i)).outb device dataPort
      (registers.get (first + i))) n 0 b
    (fun i b => b.dev = put (bank.fill (fun i => registers.get (first + i)) i)) hb
    (fun i b _ hi hinv => by
      rw [Bus.outb_dev, Bus.outb_dev, hinv, hround i (by omega)]
      rfl)
  rw [Nat.zero_add] at hloop
  exact hloop

theorem dev_writeSequencer (registers : Bytes 61) (first n : ℕ) (b : Bus VgaAdapter) :
    (writeBank device sequencerIndexPort sequencerDataPort registers first n b).dev =
      b.dev.setSequencer (b.dev.sequencer.fill (fun i => registers.get (first + i)) n) :=
  dev_writeBank (fun bank => b.dev.setSequencer bank) rfl fun _ _ _ => rfl

theorem dev_writeGraphics (registers : Bytes 61) (first n : ℕ) (b : Bus VgaAdapter) :
    (writeBank device graphicsControllerIndexPort graphicsControllerDataPort registers first n
      b).dev =
      b.dev.setGraphics (b.dev.graphics.fill (fun i => registers.get (first + i)) n) :=
  dev_writeBank (fun bank => b.dev.setGraphics bank) rfl fun _ _ _ => rfl

/-- The CRT controller takes its table if it is open and stays so. -/
theorem dev_writeCrtc (hn : n ≤ 256) (hcolor : b.dev.color) (hopen : b.dev.locked = false)
    (hstays : registers.get (first + 0x11) &&& 0x80 = 0) :
    (writeBank device crtcIndexPort crtcDataPort registers first n b).dev =
      b.dev.setCrtc (b.dev.crtc.fill (fun i => registers.get (first + i)) n) := by
  refine dev_writeBank (fun bank => b.dev.setCrtc bank) rfl fun i hi v => ?_
  have hset (bank : IndexedBank) : (b.dev.setCrtc bank).color := hcolor
  have hlocked : (b.dev.setCrtc ((b.dev.crtc.fill (fun i => registers.get (first + i)) i).select
      (.ofNat i))).locked = false := by
    have hlast : b.dev.crtc.register 0x11 &&& 0x80 = 0 := by simpa [locked] using hopen
    show decide ((b.dev.crtc.fill _ i).register 0x11 &&& 0x80 ≠ 0) = false
    rw [fill_register _ (by omega)]
    apply decide_eq_false
    split
    · exact not_not.mpr hstays
    · exact not_not.mpr hlast
  rw [crtcDataPort, crtcIndexPort, outb_crtcIndex (hset _)]
  exact (outb_crtcData (hset _)).trans (storeCrtc_of_open (.inl hlocked))

/-- **The attribute controller**, wherever its flip-flop is. -/
theorem dev_writeAttributes (hn : 0 < n ∧ n ≤ 32) (hcolor : b.dev.color) :
    (writeAttributes device registers first n b).dev = b.dev.setAttributes
      (b.dev.attributes.fill (fun i => registers.get (first + i)) n) false := by
  have hround (b' : Bus VgaAdapter) (bank : IndexedBank) (flipFlop : Bool) (i : ℕ) (v : UInt8)
      (hi : i < 32) (hb' : b'.dev = b.dev.setAttributes bank flipFlop) :
      (((b'.inb device attributeControllerResetPort).2.outb device attributeControllerIndexPort
        (.ofNat i)).outb device attributeControllerWritePort v).dev =
      b.dev.setAttributes ((bank.select (.ofNat i)).store v) false := by
    have hset : (b.dev.setAttributes bank flipFlop).color := hcolor
    have hmask : ∀ i < 32, UInt8.ofNat i &&& 0x1F = .ofNat i ∧ UInt8.ofNat i &&& 0x20 = 0 := by
      decide
    rw [Bus.outb_dev, Bus.outb_dev]
    show device.outb 0x3C0 v (device.outb 0x3C0 (.ofNat i) (device.inb 0x3DA b'.dev).2) = _
    rw [hb', inb_status hset]
    exact storeAttribute_twice (hmask i hi).1 (hmask i hi).2
  have hloop := @forLoop_invariant_of_true _
    (fun i (b : Bus VgaAdapter) =>
      ((b.inb device attributeControllerResetPort).2.outb device attributeControllerIndexPort
        (.ofNat i)).outb device attributeControllerWritePort (registers.get (first + i))) n 0 b
    (fun i b' => ∃ flipFlop, (0 < i → flipFlop = false) ∧
      b'.dev = b.dev.setAttributes
        (b.dev.attributes.fill (fun i => registers.get (first + i)) i) flipFlop)
    ⟨b.dev.flipFlop, fun h => absurd h (lt_irrefl 0), rfl⟩
    (fun i b' _ hi ⟨flipFlop, _, hinv⟩ =>
      ⟨false, fun _ => rfl, hround b' _ flipFlop i _ (by omega) hinv⟩)
  rw [Nat.zero_add] at hloop
  obtain ⟨flipFlop, hflip, hdev⟩ := hloop
  rw [hflip hn.1] at hdev
  exact hdev

/-- **The unlocking** works whether or not the controller is locked. -/
theorem dev_unlock (hcolor : b.dev.color) :
    ∃ bank, (unlock device b).dev = b.dev.setCrtc bank ∧ bank.register 0x11 &&& 0x80 = 0 ∧
      ∀ i, i ≠ 0x03 → i ≠ 0x11 → bank.register i = b.dev.crtc.register i := by
  obtain ⟨a, ha⟩ : ∃ a, a = b.dev := ⟨_, rfl⟩
  rw [← ha] at hcolor ⊢
  have hset (bank : IndexedBank) : (a.setCrtc bank).color := hcolor
  -- what happens to register 3 depends on the lock
  obtain ⟨bank, hbank, hkeep⟩ : ∃ bank,
      (a.setCrtc (a.crtc.select 0x03)).storeCrtc ((a.crtc.select 0x03).current ||| 0x80) =
        a.setCrtc bank ∧ ∀ i, i ≠ 0x03 → bank.register i = a.crtc.register i := by
    rw [storeCrtc]
    split
    · exact ⟨_, rfl, fun _ _ => rfl⟩
    · exact ⟨_, rfl, fun i hi => store_register_of_ne hi⟩
  have hselect : device.outb 0x3D4 0x03 a = a.setCrtc (a.crtc.select 0x03) :=
    outb_crtcIndex hcolor
  have hread : device.inb 0x3D5 (a.setCrtc (a.crtc.select 0x03)) =
      ((a.crtc.select 0x03).current, a.setCrtc (a.crtc.select 0x03)) := inb_crtcData (hset _)
  have hstore := (outb_crtcData (hset _)).trans hbank
  have hselect' : device.outb 0x3D4 0x11 (a.setCrtc bank) = a.setCrtc (bank.select 0x11) :=
    outb_crtcIndex (hset bank)
  have hread' : device.inb 0x3D5 (a.setCrtc (bank.select 0x11)) =
      ((bank.select 0x11).current, a.setCrtc (bank.select 0x11)) := inb_crtcData (hset _)
  have hindex : ¬ (a.setCrtc (bank.select 0x11)).crtc.index < 8 := show ¬ (0x11 : UInt8) < 8 by decide
  have hstore' (v : UInt8) : device.outb 0x3D5 v (a.setCrtc (bank.select 0x11)) =
      a.setCrtc ((bank.select 0x11).store v) :=
    (outb_crtcData (hset _)).trans (storeCrtc_of_open (.inr hindex))
  refine ⟨(bank.select 0x11).store ((bank.select 0x11).current &&& ~~~0x80), ?_, ?_, ?_⟩
  · show device.outb 0x3D5 ((device.inb 0x3D5 (device.outb 0x3D4 0x11 (device.outb 0x3D5
      ((device.inb 0x3D5 (device.outb 0x3D4 0x03 b.dev)).1 ||| 0x80)
      (device.inb 0x3D5 (device.outb 0x3D4 0x03 b.dev)).2))).1 &&& ~~~0x80)
      (device.inb 0x3D5 (device.outb 0x3D4 0x11 (device.outb 0x3D5
        ((device.inb 0x3D5 (device.outb 0x3D4 0x03 b.dev)).1 ||| 0x80)
        (device.inb 0x3D5 (device.outb 0x3D4 0x03 b.dev)).2))).2 = _
    rw [← ha, hselect, hread, hstore, hselect', hread', hstore']
  · have hself (v : UInt8) : ((bank.select 0x11).store v).register 0x11 = v :=
      (bank.select 0x11).store_register_self v
    rw [hself, UInt8.and_assoc]
    exact UInt8.and_zero
  · intro i h3 h11
    exact (store_register_of_ne h11).trans (hkeep i h3)

/-- **The adapter holds a table**, and what the table does not say is as it was before. -/
structure Programmed (registers : Bytes 61) (a0 a : VgaAdapter) : Prop where
  misc : a.misc = registers.get 0
  sequencer : ∀ i, a.sequencer.register i =
    if i.toNat < 5 then registers.get (1 + i.toNat) else a0.sequencer.register i
  crtc : ∀ i, a.crtc.register i =
    if i.toNat < 25 then registers.get (6 + i.toNat) else a0.crtc.register i
  graphics : ∀ i, a.graphics.register i =
    if i.toNat < 9 then registers.get (31 + i.toNat) else a0.graphics.register i
  attributes : ∀ i, a.attributes.register i =
    if i.toNat < 21 then registers.get (40 + i.toNat) else a0.attributes.register i
  /-- The palette is closed and the display on. -/
  display : a.attributes.index = 0x20
  unlocked : a.locked = false

theorem get_keepUnlocked (registers : Bytes 61) {i : ℕ} (hi : i < 61) :
    (keepUnlocked registers).get i =
      if i = 23 then registers.get i &&& 0x7F
      else if i = 9 then registers.get i ||| 0x80 else registers.get i := by
  rw [keepUnlocked, Bytes.get_set hi, Bytes.get_set hi, Bytes.get_set (by omega)]
  by_cases h23 : i = 23
  · subst h23
    rfl
  · rw [if_neg h23, if_neg h23]
    by_cases h9 : i = 9
    · subst h9
      rfl
    · rw [if_neg h9, if_neg h9]

/-- **`WriteRegisters`** programs the adapter from any state, with any table for a colour
adapter. -/
theorem programmed_writeRegisters (hcolor : registers.get 0 &&& 1 ≠ 0) (b : Bus VgaAdapter) :
    (writeRegisters device registers b).1 = keepUnlocked registers ∧
      Programmed (keepUnlocked registers) b.dev (writeRegisters device registers b).2.dev := by
  refine ⟨rfl, ?_⟩
  obtain ⟨table, htable⟩ : ∃ table, table = keepUnlocked registers := ⟨_, rfl⟩
  have hlow {i : ℕ} (hi : i < 9) : table.get i = registers.get i := by
    rw [htable, get_keepUnlocked registers (by omega), if_neg (by omega), if_neg (by omega)]
  have hstays : table.get (6 + 0x11) &&& 0x80 = 0 := by
    rw [htable, get_keepUnlocked registers (by omega), if_pos rfl, UInt8.and_assoc]
    exact UInt8.and_zero
  obtain ⟨b1, hb1⟩ : ∃ b1, b1 = b.outb device miscPort (registers.get 0) := ⟨_, rfl⟩
  obtain ⟨b2, hb2⟩ : ∃ b2, b2 =
    writeBank device sequencerIndexPort sequencerDataPort registers 1 5 b1 := ⟨_, rfl⟩
  obtain ⟨b3, hb3⟩ : ∃ b3, b3 = unlock device b2 := ⟨_, rfl⟩
  obtain ⟨b4, hb4⟩ : ∃ b4, b4 = writeBank device crtcIndexPort crtcDataPort table 6 25 b3 :=
    ⟨_, rfl⟩
  obtain ⟨b5, hb5⟩ : ∃ b5, b5 = writeBank device graphicsControllerIndexPort
    graphicsControllerDataPort table 31 9 b4 := ⟨_, rfl⟩
  obtain ⟨b6, hb6⟩ : ∃ b6, b6 = writeAttributes device table 40 21 b5 := ⟨_, rfl⟩
  have hdev1 : b1.dev = b.dev.setMisc (registers.get 0) := by
    rw [hb1]
    rfl
  have hdev2 := dev_writeSequencer registers 1 5 b1
  rw [← hb2] at hdev2
  have hmisc2 : b2.dev.misc = registers.get 0 := by rw [hdev2, hdev1]; rfl
  have hcolor' {a : VgaAdapter} (h : a.misc = registers.get 0) : a.color := by
    rw [color, h]
    exact decide_eq_true hcolor
  obtain ⟨bank, hdev3, hopen, hkeep⟩ := dev_unlock (hcolor' hmisc2)
  rw [← hb3] at hdev3
  have hmisc3 : b3.dev.misc = registers.get 0 := by rw [hdev3]; exact hmisc2
  have hopen3 : b3.dev.locked = false := by
    rw [hdev3]
    exact decide_eq_false (not_not.mpr hopen)
  have hdev4 := dev_writeCrtc (n := 25) (by omega) (hcolor' hmisc3) hopen3 hstays
  rw [← hb4] at hdev4
  have hmisc4 : b4.dev.misc = registers.get 0 := by rw [hdev4]; exact hmisc3
  have hdev5 := dev_writeGraphics table 31 9 b4
  rw [← hb5] at hdev5
  have hmisc5 : b5.dev.misc = registers.get 0 := by rw [hdev5]; exact hmisc4
  have hdev6 := @dev_writeAttributes table 40 21 b5 (by omega) (hcolor' hmisc5)
  rw [← hb6] at hdev6
  have hmisc6 : b6.dev.misc = registers.get 0 := by rw [hdev6]; exact hmisc5
  have hlast : (writeRegisters device registers b).2.dev =
      b6.dev.setAttributes (b6.dev.attributes.select 0x20) true := by
    have hbus : (writeRegisters device registers b).2 =
        (b6.inb device attributeControllerResetPort).2.outb device
          attributeControllerIndexPort 0x20 := by
      rw [hb6, hb5, hb4, hb3, hb2, hb1, htable]
      rfl
    rw [hbus, Bus.outb_dev]
    show device.outb 0x3C0 0x20 (device.inb 0x3DA b6.dev).2 = _
    rw [inb_status (hcolor' hmisc6)]
    rfl
  rw [hlast, ← htable]
  refine ⟨?_, fun i => ?_, fun i => ?_, fun i => ?_, fun i => ?_, rfl, ?_⟩
  · show b6.dev.misc = table.get 0
    rw [hmisc6, hlow (by omega)]
  · rw [hdev6, hdev5, hdev4, hdev3, hdev2, hdev1]
    show (b.dev.sequencer.fill (fun i => registers.get (1 + i)) 5).register i = _
    rw [fill_register _ (by omega)]
    split
    · rw [hlow (by omega)]
    · rfl
  · rw [hdev6, hdev5, hdev4, hdev3]
    show (bank.fill (fun i => table.get (6 + i)) 25).register i = _
    rw [fill_register _ (by omega)]
    split
    · rfl
    · next hi =>
      have h3 : i ≠ 0x03 := fun h => hi (by rw [h]; decide)
      have h11 : i ≠ 0x11 := fun h => hi (by rw [h]; decide)
      rw [hkeep i h3 h11, hdev2, hdev1]
      rfl
  · rw [hdev6, hdev5, hdev4, hdev3, hdev2, hdev1]
    exact fill_register _ (by omega) _ _
  · rw [hdev6, hdev5, hdev4, hdev3, hdev2, hdev1]
    show (b.dev.attributes.fill (fun i => table.get (40 + i)) 21).register i = _
    exact fill_register _ (by omega) _ _
  · have h11 : (b6.dev.setAttributes (b6.dev.attributes.select 0x20) true).crtc.register 0x11 =
        table.get (6 + 0x11) := by
      rw [hdev6, hdev5, hdev4]
      show (b3.dev.crtc.fill (fun i => table.get (6 + i)) 25).register 0x11 = _
      rw [fill_register _ (by omega)]
      rfl
    rw [locked, h11, hstays]
    rfl

end Registers

/-! ## The canvas -/

/-- A call of the driver. -/
inductive GraphicsCall where
  | setMode (width height colorDepth : UInt32)
  | putPixel (x y : Int32) (colorIndex : UInt8)
  | putPixelRgb (x y : Int32) (r g b : UInt8)

/-- A call, on the memory and the ports, with the result of `SetMode`. -/
def call {δ : Type} (D : Device δ) (s : Mem × Bus δ) : GraphicsCall → (Mem × Bus δ) × Option Bool
  | .setMode width height colorDepth =>
    let (supported, b) := setMode D width height colorDepth s.2
    ((s.1, b), some supported)
  | .putPixel x y colorIndex => (putPixel D x y colorIndex s, none)
  | .putPixelRgb x y r g b => (putPixelRgb D x y r g b s, none)

/-- A canvas without bounds. -/
abbrev Canvas := ℤ → ℤ → UInt8

namespace Canvas

def paint (x y : ℤ) (color : UInt8) (c : Canvas) : Canvas :=
  fun i j => if i = x ∧ j = y then color else c i j

/-- A call, on the canvas. -/
def call (c : Canvas) : GraphicsCall → Canvas × Option Bool
  | .setMode width height colorDepth => (c, some (supportsMode width height colorDepth))
  | .putPixel x y colorIndex => (c.paint x.toInt y.toInt colorIndex, none)
  | .putPixelRgb x y r g b => (c.paint x.toInt y.toInt (getColorIndex r g b), none)

/-- What the frame buffer holds, repeated for ever. -/
def ofMemory (m : Mem) : Canvas := fun x y => m.byte (0xA0000 + 320 * y + x).toNat

end Canvas

/-- **The frame buffer holds a window of the canvas**, nothing else has changed, and the adapter is
in the mode. -/
structure Displays (m0 : Mem) (a0 : VgaAdapter) (s : Mem × Bus VgaAdapter) (c : Canvas) : Prop where
  mode : Programmed g320x200x256 a0 s.2.dev
  window : ∀ x y, 0 ≤ x → x < 320 → 0 ≤ y → y < 200 →
    s.1.byte (0xA0000 + 320 * y + x).toNat = c x y
  outside : ∀ i < 2 ^ 32, i < 0xA0000 ∨ 0xAFA00 ≤ i → s.1.byte i = m0.byte i

section Canvas

open VgaAdapter IndexedBank

variable {m0 : Mem} {a0 a a' : VgaAdapter} {s : Mem × Bus VgaAdapter} {c : Canvas}

theorem keepUnlocked_table : keepUnlocked g320x200x256 = g320x200x256 := by
  funext i
  revert i
  decide +kernel

theorem setMode_supported (b : Bus VgaAdapter) :
    (setMode device 320 200 8 b).1 = true ∧
      Programmed g320x200x256 b.dev (setMode device 320 200 8 b).2.dev := by
  have hmode := (@programmed_writeRegisters g320x200x256 (by decide) b).2
  rw [keepUnlocked_table] at hmode
  exact ⟨rfl, hmode⟩

/-- A table that is programmed again. -/
theorem Programmed.trans {registers : Bytes 61} (h : Programmed registers a0 a)
    (h' : Programmed registers a a') : Programmed registers a0 a' := by
  refine ⟨h'.misc, fun i => ?_, fun i => ?_, fun i => ?_, fun i => ?_, h'.display, h'.unlocked⟩
  · rw [h'.sequencer i]
    split
    · rfl
    · next hi => rw [h.sequencer i, if_neg hi]
  · rw [h'.crtc i]
    split
    · rfl
    · next hi => rw [h.crtc i, if_neg hi]
  · rw [h'.graphics i]
    split
    · rfl
    · next hi => rw [h.graphics i, if_neg hi]
  · rw [h'.attributes i]
    split
    · rfl
    · next hi => rw [h.attributes i, if_neg hi]

/-- **`GetFrameBufferSegment`** in the mode. -/
theorem getFrameBufferSegment_mode {b : Bus VgaAdapter} (h : Programmed g320x200x256 a0 b.dev) :
    (getFrameBufferSegment device b).1 = 0xA0000 ∧
      Programmed g320x200x256 a0 (getFrameBufferSegment device b).2.dev := by
  have hread : ((b.outb device graphicsControllerIndexPort 0x06).inb device
      graphicsControllerDataPort).1 = 0x05 := h.graphics 0x06
  refine ⟨?_, ⟨h.misc, h.sequencer, h.crtc, h.graphics, h.attributes, h.display, h.unlocked⟩⟩
  rw [getFrameBufferSegment]
  simp only [hread]
  rfl

/-- The address of a pixel on the screen. -/
theorem toNat_pixelAddress {x y : Int32} (hx : 0 ≤ x.toInt) (hx' : x.toInt < 320)
    (hy : 0 ≤ y.toInt) (hy' : y.toInt < 200) :
    ((0xA0000 : UInt32) + (320 * y).toUInt32 + x.toUInt32).toNat =
      (0xA0000 + 320 * y.toInt + x.toInt).toNat := by
  have hnat {z : Int32} (hz : 0 ≤ z.toInt) : z.toUInt32.toNat = z.toInt.toNat :=
    Int32.toNat_toUInt32_of_le (Int32.le_iff_toInt_le.mpr hz)
  have h320 : (320 : Int32).toUInt32.toNat = 320 := rfl
  have hbase : (0xA0000 : UInt32).toNat = 0xA0000 := rfl
  rw [Int32.toUInt32_mul, UInt32.toNat_add, UInt32.toNat_add, UInt32.toNat_mul, hnat hx, hnat hy,
    h320, hbase]
  omega

/-- A pixel that is refused. -/
theorem putPixel_outside {x y : Int32} (h : ¬ (0 ≤ x.toInt ∧ x.toInt < 320 ∧ 0 ≤ y.toInt ∧
    y.toInt < 200)) (color : UInt8) : putPixel device x y color s = s := by
  have h0 : (0 : Int32).toInt = 0 := rfl
  have h320 : (320 : Int32).toInt = 320 := rfl
  have h200 : (200 : Int32).toInt = 200 := rfl
  rw [putPixel, if_pos]
  simp only [ge_iff_le, Int32.lt_iff_toInt_lt, Int32.le_iff_toInt_le, h0, h320, h200]
  omega

/-- **A pixel.** -/
theorem Displays.putPixel (h : Displays m0 a0 s c) (x y : Int32) (color : UInt8) :
    Displays m0 a0 (putPixel device x y color s) (c.paint x.toInt y.toInt color) := by
  by_cases hin : 0 ≤ x.toInt ∧ x.toInt < 320 ∧ 0 ≤ y.toInt ∧ y.toInt < 200
  · obtain ⟨hx, hx', hy, hy'⟩ := hin
    obtain ⟨hsegment, hmode⟩ := getFrameBufferSegment_mode h.mode
    have haddress := toNat_pixelAddress hx hx' hy hy'
    have hput : VideoGraphicsArray.putPixel device x y color s =
        (s.1.setByte (0xA0000 + 320 * y.toInt + x.toInt).toNat color,
          (getFrameBufferSegment device s.2).2) := by
      have h0 : (0 : Int32).toInt = 0 := rfl
      have h320 : (320 : Int32).toInt = 320 := rfl
      have h200 : (200 : Int32).toInt = 200 := rfl
      rw [VideoGraphicsArray.putPixel, if_neg]
      · simp only [hsegment, haddress]
      · simp only [ge_iff_le, Int32.lt_iff_toInt_lt, Int32.le_iff_toInt_le, h0, h320, h200]
        omega
    rw [hput]
    obtain ⟨p, hp⟩ : ∃ p, p = (0xA0000 + 320 * y.toInt + x.toInt).toNat := ⟨_, rfl⟩
    have hmod : p % 2 ^ 32 = p := Nat.mod_eq_of_lt (by omega)
    rw [← hp]
    refine ⟨hmode, fun i j hi hi' hj hj' => ?_, fun i hi hout => ?_⟩
    · have hmod' : (0xA0000 + 320 * j + i).toNat % 2 ^ 32 = (0xA0000 + 320 * j + i).toNat :=
        Nat.mod_eq_of_lt (by omega)
      rw [Mem.byte_setByte, h.window i j hi hi' hj hj', Canvas.paint, hmod, hmod', hp]
      by_cases heq : i = x.toInt ∧ j = y.toInt
      · obtain ⟨rfl, rfl⟩ := heq
        rw [if_pos rfl, if_pos ⟨rfl, rfl⟩]
      · rw [if_neg heq, if_neg]
        omega
    · rw [Mem.byte_setByte, hmod, Nat.mod_eq_of_lt hi, if_neg, h.outside i hi hout]
      omega
  · rw [putPixel_outside hin]
    refine ⟨h.mode, fun i j hi hi' hj hj' => ?_, h.outside⟩
    rw [Canvas.paint, if_neg, h.window i j hi hi' hj hj']
    rintro ⟨rfl, rfl⟩
    exact hin ⟨hi, hi', hj, hj'⟩

/-- **A call.** -/
theorem Displays.call (h : Displays m0 a0 s c) (g : GraphicsCall) :
    (VideoGraphicsArray.call device s g).2 = (c.call g).2 ∧
      Displays m0 a0 (VideoGraphicsArray.call device s g).1 (c.call g).1 := by
  cases g with
  | setMode width height colorDepth =>
    by_cases hsupported : supportsMode width height colorDepth
    · have hset : VideoGraphicsArray.call device s (.setMode width height colorDepth) =
          ((s.1, (writeRegisters device g320x200x256 s.2).2), some true) := by
        rw [VideoGraphicsArray.call, setMode, if_pos hsupported]
      have hmode := (@programmed_writeRegisters g320x200x256 (by decide) s.2).2
      rw [keepUnlocked_table] at hmode
      rw [hset]
      exact ⟨congrArg some hsupported.symm, h.mode.trans hmode, h.window, h.outside⟩
    · have hset : VideoGraphicsArray.call device s (.setMode width height colorDepth) =
          (s, some false) := by
        rw [VideoGraphicsArray.call, setMode, if_neg hsupported]
      rw [hset]
      exact ⟨congrArg some (Bool.not_eq_true _ ▸ hsupported).symm, h⟩
  | putPixel x y color => exact ⟨rfl, h.putPixel x y color⟩
  | putPixelRgb x y r g b => exact ⟨rfl, h.putPixel x y _⟩

/-- **The frame buffer shows the canvas.**  Whatever state the adapter is in, `SetMode(320, 200, 8)`
succeeds, and from then on, after any calls of the driver: every register of the table is
programmed and no other one has changed; the 64000 bytes from `0xA0000` on are the window of the
canvas that the pixels paint, on which those outside the screen do not show; no other byte of the
memory has changed; and `SetMode` has succeeded for this mode only. -/
theorem graphics_show_canvas (m0 : Mem) (b0 : Bus VgaAdapter) (calls : List GraphicsCall) :
    let s0 := (m0, (setMode device 320 200 8 b0).2)
    let s := finalState (VideoGraphicsArray.call device) s0 calls
    let c := finalState Canvas.call (.ofMemory m0) calls
    (setMode device 320 200 8 b0).1 = true ∧
      outputs (VideoGraphicsArray.call device) s0 calls =
        outputs Canvas.call (.ofMemory m0) calls ∧
      Programmed g320x200x256 b0.dev s.2.dev ∧
      (∀ x y, 0 ≤ x → x < 320 → 0 ≤ y → y < 200 →
        s.1.byte (0xA0000 + 320 * y + x).toNat = c x y) ∧
      ∀ i < 2 ^ 32, i < 0xA0000 ∨ 0xAFA00 ≤ i → s.1.byte i = m0.byte i := by
  intro s0 s c
  obtain ⟨hsupported, hmode⟩ := setMode_supported b0
  have hstart : Displays m0 b0.dev s0 (.ofMemory m0) :=
    ⟨hmode, fun _ _ _ _ _ _ => rfl, fun _ _ _ => rfl⟩
  obtain ⟨houts, hend⟩ := simulation (Displays m0 b0.dev) (fun s c g h _ => h.call g) hstart
    (along_of_forall fun _ _ _ => trivial : Along _ (fun _ _ => True) s0 calls)
  exact ⟨hsupported, houts, hend.mode, hend.window, hend.outside⟩

end Canvas

end VideoGraphicsArray
