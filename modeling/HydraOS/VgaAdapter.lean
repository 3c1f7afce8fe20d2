/-
# The registers of a VGA adapter

Four banks of registers, each behind an index and a data port, and the register for the mode of
the ports.  Three things stand between a driver and the registers: the timing registers of the
CRT controller can be locked, the attribute controller takes index and data in turns on one port,
and its palette is closed while the screen is on.
-/
import HydraOS.IoPorts

/-! ## Banks of registers -/

/-- Registers behind an index. -/
structure IndexedBank where
  index : UInt8
  register : UInt8 → UInt8

namespace IndexedBank

variable {b : IndexedBank} {i v : UInt8} {n : ℕ}

/-- A byte at the index port. -/
def select (i : UInt8) (b : IndexedBank) : IndexedBank := { b with index := i }

/-- The selected register. -/
def current (b : IndexedBank) : UInt8 := b.register b.index

/-- A value for one register. -/
def storeAt (i v : UInt8) (b : IndexedBank) : IndexedBank :=
  { b with register := Function.update b.register i v }

/-- A byte at the data port. -/
def store (v : UInt8) (b : IndexedBank) : IndexedBank := b.storeAt b.index v

theorem store_register_self (b : IndexedBank) (v : UInt8) : (b.store v).register b.index = v := by
  show Function.update b.register b.index v b.index = v
  rw [Function.update_apply, if_pos rfl]

theorem store_register_of_ne (h : i ≠ b.index) : (b.store v).register i = b.register i := by
  show Function.update b.register b.index v i = b.register i
  rw [Function.update_apply, if_neg h]

/-- The first `n` registers, set one after the other. -/
def fill (values : ℕ → UInt8) : ℕ → IndexedBank → IndexedBank
  | 0, b => b
  | n + 1, b => ((fill values n b).select (.ofNat n)).store (values n)

/-- The registers below `n` hold the values, the others what they held. -/
theorem fill_register (values : ℕ → UInt8) (hn : n ≤ 256) (b : IndexedBank) (i : UInt8) :
    (b.fill values n).register i = if i.toNat < n then values i.toNat else b.register i := by
  induction n with
  | zero => rfl
  | succ n ih =>
    have hof : (UInt8.ofNat n).toNat = n := by
      rw [UInt8.toNat_ofNat']
      omega
    show Function.update (b.fill values n).register (.ofNat n) (values n) i = _
    rw [Function.update_apply, ih (by omega)]
    by_cases hi : i = .ofNat n
    · have hin : i.toNat = n := by rw [hi, hof]
      rw [if_pos hi, if_pos (by omega), hin]
    · have hin : i.toNat ≠ n := fun heq => hi (UInt8.toNat_inj.mp (heq.trans hof.symm))
      rw [if_neg hi]
      by_cases hlt : i.toNat < n
      · rw [if_pos hlt, if_pos (by omega)]
      · rw [if_neg hlt, if_neg (by omega)]

end IndexedBank

/-! ## The adapter -/

/-- The registers of the adapter.  `flipFlop` says that the attribute controller takes the next
byte as data; `status` is what the input status register shows. -/
structure VgaAdapter where
  misc : UInt8
  sequencer : IndexedBank
  crtc : IndexedBank
  graphics : IndexedBank
  attributes : IndexedBank
  flipFlop : Bool
  status : UInt8

namespace VgaAdapter

/-! ## Its parts -/

/-- A byte at the miscellaneous output port. -/
def setMisc (v : UInt8) (a : VgaAdapter) : VgaAdapter := { a with misc := v }

def setSequencer (bank : IndexedBank) (a : VgaAdapter) : VgaAdapter := { a with sequencer := bank }

def setCrtc (bank : IndexedBank) (a : VgaAdapter) : VgaAdapter := { a with crtc := bank }

def setGraphics (bank : IndexedBank) (a : VgaAdapter) : VgaAdapter := { a with graphics := bank }

/-- The attribute controller with its flip-flop. -/
def setAttributes (bank : IndexedBank) (flipFlop : Bool) (a : VgaAdapter) : VgaAdapter :=
  { a with attributes := bank, flipFlop := flipFlop }

/-- The ports of the CRT controller and the status are those of a colour adapter. -/
def color (a : VgaAdapter) : Bool := a.misc &&& 1 ≠ 0

/-- The first eight registers of the CRT controller are locked. -/
def locked (a : VgaAdapter) : Bool := a.crtc.register 0x11 &&& 0x80 ≠ 0

/-- A byte for the selected register of the CRT controller.  One bit of register 7 is never
locked. -/
def storeCrtc (v : UInt8) (a : VgaAdapter) : VgaAdapter :=
  if a.locked ∧ a.crtc.index < 8 then
    if a.crtc.index = 7 then a.setCrtc (a.crtc.store ((a.crtc.current &&& 0xEF) ||| (v &&& 0x10)))
    else a
  else a.setCrtc (a.crtc.store v)

/-- A byte for the attribute controller.  Bit 5 of the index closes the palette. -/
def storeAttribute (v : UInt8) (a : VgaAdapter) : VgaAdapter :=
  if a.flipFlop then
    if a.attributes.index &&& 0x20 ≠ 0 ∧ a.attributes.index &&& 0x1F < 16 then
      a.setAttributes a.attributes false
    else
      a.setAttributes (a.attributes.storeAt (a.attributes.index &&& 0x1F) v) false
  else a.setAttributes (a.attributes.select v) true

/-- The adapter behind its ports. -/
def device : Device VgaAdapter where
  inb port a :=
    if port = 0x3C1 then (a.attributes.register (a.attributes.index &&& 0x1F), a)
    else if port = 0x3C5 then (a.sequencer.current, a)
    else if port = 0x3CC then (a.misc, a)
    else if port = 0x3CF then (a.graphics.current, a)
    else if port = 0x3D5 ∧ a.color then (a.crtc.current, a)
    else if port = 0x3DA ∧ a.color then (a.status, a.setAttributes a.attributes false)
    else (0xFF, a)
  inw _ a := (0xFFFF, a)
  outb port v a :=
    if port = 0x3C0 then a.storeAttribute v
    else if port = 0x3C2 then a.setMisc v
    else if port = 0x3C4 then a.setSequencer (a.sequencer.select v)
    else if port = 0x3C5 then a.setSequencer (a.sequencer.store v)
    else if port = 0x3CE then a.setGraphics (a.graphics.select v)
    else if port = 0x3CF then a.setGraphics (a.graphics.store v)
    else if port = 0x3D4 ∧ a.color then a.setCrtc (a.crtc.select v)
    else if port = 0x3D5 ∧ a.color then a.storeCrtc v
    else a
  outw _ _ a := a

section Ports

variable {a : VgaAdapter} {v : UInt8}

/-! ## The ports -/

/-- The index port of the CRT controller, on a colour adapter. -/
theorem outb_crtcIndex (h : a.color) :
    device.outb 0x3D4 v a = a.setCrtc (a.crtc.select v) := by
  simp [device, h]

/-- Its data port: the register may be locked. -/
theorem outb_crtcData (h : a.color) : device.outb 0x3D5 v a = a.storeCrtc v := by
  simp [device, h]

theorem inb_crtcData (h : a.color) : device.inb 0x3D5 a = (a.crtc.current, a) := by
  simp [device, h]

/-- Reading the status resets the flip-flop of the attribute controller. -/
theorem inb_status (h : a.color) :
    device.inb 0x3DA a = (a.status, a.setAttributes a.attributes false) := by
  simp [device, h]

/-- A register that is not locked. -/
theorem storeCrtc_of_open (h : a.locked = false ∨ ¬ a.crtc.index < 8) :
    a.storeCrtc v = a.setCrtc (a.crtc.store v) := by
  rw [storeCrtc, if_neg]
  rintro ⟨hlocked, hlt⟩
  rcases h with h | h
  · rw [h] at hlocked
    cases hlocked
  · exact h hlt

/-- **An attribute**, after the status has been read: index and data. -/
theorem storeAttribute_twice {bank : IndexedBank} {i : UInt8} (hi : i &&& 0x1F = i)
    (hopen : i &&& 0x20 = 0) :
    ((a.setAttributes bank false).storeAttribute i).storeAttribute v =
      a.setAttributes ((bank.select i).store v) false := by
  have hindex : (a.setAttributes bank false).storeAttribute i =
      a.setAttributes (bank.select i) true := rfl
  have hclosed : ¬ ((bank.select i).index &&& 0x20 ≠ 0 ∧ (bank.select i).index &&& 0x1F < 16) :=
    fun h => h.1 hopen
  rw [hindex]
  refine (if_pos rfl).trans ((if_neg hclosed).trans ?_)
  show a.setAttributes ((bank.select i).storeAt (i &&& 0x1F) v) false = _
  rw [hi]
  rfl

end Ports

end VgaAdapter
