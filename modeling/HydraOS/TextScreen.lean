/-
# The text screen: `vga.cpp` and the `printf` of `kernel.cpp`

The state that the kernel's C++ code works on: the memory of the machine with the video
memory in it, the bytes sent to ports, and the objects the modelled functions use.
-/
import HydraOS.X86Machine
import HydraOS.Runs

open X86

/-! ## The state of the kernel -/

/-- A `VGATextMode` object.  Its `videoMemory` is always `0xb8000`. -/
structure VGATextMode where
  cursorX : UInt8
  cursorY : UInt8
  foregroundColor : UInt8
  backgroundColor : UInt8

/-- What the kernel's code works on besides the memory. -/
structure Devices where
  /-- The bytes written to ports, the latest first. -/
  ports : List (UInt16 × UInt8)
  /-- The static variables `x` and `y` of `printf`. -/
  printfX : UInt8
  printfY : UInt8
  vga : VGATextMode
  /-- The field `first` of the active memory manager, if there is one. -/
  activeMemoryManager : Option ℕ

/-- The state of the kernel.  The automatic variables of C++ functions are not part
of its memory. -/
abbrev Kernel := World Devices

namespace Kernel

/-- `Port8Bit::Write`. -/
def write (k : Kernel) (portnumber : UInt16) (data : UInt8) : Kernel :=
  { k with dev := { k.dev with ports := (portnumber, data) :: k.dev.ports } }

def setVga (k : Kernel) (vga : VGATextMode) : Kernel := { k with dev := { k.dev with vga := vga } }

end Kernel

/-! ## Video memory -/

/-- The address of the video memory. -/
def videoMemory : UInt32 := 0xb8000

/-- `videoMemory[i]`. -/
def cell (m : Mem) (i : ℕ) : UInt16 :=
  (loadByte m (videoMemory + 2 * .ofNat i)).toUInt16 |||
    ((loadByte m (videoMemory + 2 * .ofNat i + 1)).toUInt16 <<< 8)

/-- `videoMemory[i] = v`. -/
def setCell (i : ℕ) (v : UInt16) (k : Kernel) : Kernel :=
  let m := storeByte k.mem (videoMemory + 2 * .ofNat i) v.toUInt8
  { k with mem := storeByte m (videoMemory + 2 * .ofNat i + 1) (v >>> 8).toUInt8 }

/-- A `char` in an expression with a `uint16_t`: `char` is signed. -/
def charBits (c : UInt8) : UInt16 := if c < 0x80 then c.toUInt16 else 0xFF00 ||| c.toUInt16

/-- A `const char*`: the characters it points to, as they are in a memory. -/
abbrev CharPtr := Mem → ℕ → UInt8

/-- The characters of a string literal and the NUL after them. -/
def literal (s : String) : CharPtr := fun _ i => (s.toList.map fun c => c.toNat.toUInt8).getD i 0

/-- The characters at an address. -/
def charsAt (str : UInt32) : CharPtr := fun m i => loadByte m (str + .ofNat i)

/-- `for (int i = 0; str[i] != '\0'; ++i) body(str[i])`.  The index overflows after
`2 ^ 31` characters, so a longer loop has no result. -/
def forChars (str : CharPtr) (body : UInt8 → Kernel → Kernel) :
    (fuel i : ℕ) → Kernel → Option Kernel
  | 0, _, _ => none
  | fuel + 1, i, k =>
    if str k.mem i = 0 then some k
    else forChars str body fuel (i + 1) (body (str k.mem i) k)

/-! ## `printf` of `kernel.cpp` -/

/-- The body of the loop of `printf`. -/
def printfChar (c : UInt8) (k : Kernel) : Kernel :=
  let x := k.dev.printfX
  let y := k.dev.printfY
  let place (x y : ℕ) (k : Kernel) (bits : UInt16) : Kernel :=
    setCell (80 * y + x) ((cell k.mem (80 * y + x) &&& 0xFF00) ||| bits) k
  let (x, y, k) := if c = 10 then (0, y + 1, k)
    else (x + 1, y, place x.toNat y.toNat k (charBits c))
  let (x, y) := if x ≥ 80 then (0, y + 1) else (x, y)
  let (x, y, k) := if y ≥ 25 then
      (0, 0, forLoop (fun _ => true) (fun y k =>
        forLoop (fun _ => true) (fun x k => place x y k 32) 80 0 k) 25 0 k)
    else (x, y, k)
  { k with dev := { k.dev with printfX := x, printfY := y } }

/-- `printf(str)`. -/
def printf (str : CharPtr) (k : Kernel) : Option Kernel := forChars str printfChar (2 ^ 31) 0 k

/-- The digit that `"0123456789ABCDEF"` has at an index. -/
def hexDigit (i : UInt8) : UInt8 := if i < 10 then 48 + i else 55 + i

/-- `printfHex(key)`. -/
def printfHex (key : UInt8) (k : Kernel) : Option Kernel :=
  printf (fun _ i => [hexDigit ((key >>> 4) &&& 0x0F), hexDigit (key &&& 0x0F)].getD i 0) k

/-! ## `VGATextMode` -/

namespace VGATextMode

/-- `VGAColor`, the colours in use. -/
def black : UInt8 := 0
def lightBrown : UInt8 := 14
def white : UInt8 := 15

/-- `SetColor`. -/
def setColor (foreground background : UInt8) (k : Kernel) : Kernel :=
  k.setVga { k.dev.vga with foregroundColor := foreground, backgroundColor := background }

/-- `UpdateCursor`. -/
def updateCursor (k : Kernel) : Kernel :=
  let position : UInt16 := k.dev.vga.cursorY.toUInt16 * 80 + k.dev.vga.cursorX.toUInt16
  let k := k.write 0x3D4 14
  let k := k.write 0x3D5 ((position >>> 8) &&& 0xFF).toUInt8
  let k := k.write 0x3D4 15
  k.write 0x3D5 (position &&& 0xFF).toUInt8

/-- The colours in the high byte of a cell. -/
def attrib (vga : VGATextMode) : UInt16 :=
  (vga.backgroundColor.toUInt16 <<< 12) ||| (vga.foregroundColor.toUInt16 <<< 8)

/-- `Clear`. -/
def clear (k : Kernel) : Kernel :=
  let blank := k.dev.vga.attrib ||| 32
  let k := forLoop (fun _ => true) (fun y k =>
    forLoop (fun _ => true) (fun x k => setCell (80 * y + x) blank k) 80 0 k) 25 0 k
  updateCursor (k.setVga { k.dev.vga with cursorX := 0, cursorY := 0 })

/-- `VGATextMode::VGATextMode`. -/
def construct (k : Kernel) : Kernel :=
  clear (k.setVga ⟨0, 0, white, black⟩)

/-- `SetCursorPosition`. -/
def setCursorPosition (x y : UInt8) (k : Kernel) : Kernel :=
  if x < 80 ∧ y < 25 then updateCursor (k.setVga { k.dev.vga with cursorX := x, cursorY := y })
  else k

/-- `Scroll`. -/
def scroll (k : Kernel) : Kernel :=
  let blank := k.dev.vga.attrib ||| 32
  -- all lines up by one
  let k := forLoop (fun _ => true) (fun y k =>
    forLoop (fun _ => true) (fun x k => setCell (80 * y + x) (cell k.mem (80 * (y + 1) + x)) k)
      80 0 k) 24 0 k
  -- the last line
  let k := forLoop (fun _ => true) (fun x k => setCell (80 * 24 + x) blank k) 80 0 k
  k.setVga { k.dev.vga with cursorY := 24 }

/-- `PutChar`. -/
def putChar (c : UInt8) (k : Kernel) : Kernel :=
  let vga := k.dev.vga
  let (vga, k) : VGATextMode × Kernel :=
    if c = 10 then ({ vga with cursorX := 0, cursorY := vga.cursorY + 1 }, k)
    else if c = 13 then ({ vga with cursorX := 0 }, k)
    else if c = 9 then ({ vga with cursorX := (vga.cursorX + 4) &&& 0xFC }, k)
    else if c = 8 then
      if vga.cursorX > 0 then
        let vga := { vga with cursorX := vga.cursorX - 1 }
        (vga, setCell (80 * vga.cursorY.toNat + vga.cursorX.toNat) (vga.attrib ||| 32) k)
      else (vga, k)
    else
      ({ vga with cursorX := vga.cursorX + 1 },
        setCell (80 * vga.cursorY.toNat + vga.cursorX.toNat) (vga.attrib ||| charBits c) k)
  let vga := if vga.cursorX ≥ 80 then { vga with cursorX := 0, cursorY := vga.cursorY + 1 } else vga
  let k := k.setVga vga
  let k := if vga.cursorY ≥ 25 then scroll k else k
  updateCursor k

/-- `Print`. -/
def print (str : CharPtr) (k : Kernel) : Option Kernel := forChars str putChar (2 ^ 31) 0 k

/-- `PrintHex`. -/
def printHex (value : UInt8) (k : Kernel) : Kernel :=
  putChar (hexDigit (value &&& 0x0F)) (putChar (hexDigit ((value >>> 4) &&& 0x0F)) k)

/-- `PrintHex16`. -/
def printHex16 (value : UInt16) (k : Kernel) : Kernel :=
  printHex (value &&& 0xFF).toUInt8 (printHex ((value >>> 8) &&& 0xFF).toUInt8 k)

/-- `PrintHex32`. -/
def printHex32 (value : UInt32) (k : Kernel) : Kernel :=
  printHex16 (value &&& 0xFFFF).toUInt16 (printHex16 ((value >>> 16) &&& 0xFFFF).toUInt16 k)

end VGATextMode
