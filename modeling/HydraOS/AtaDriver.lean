/-
# The disk driver: `ata.h`, `ata.cpp`

`AdvancedTechnologyAttachment` drives a disk through eight port registers.  The functions
below follow the driver statement by statement on a bus with any device behind it.  What
the drive makes of the operations is the task file: the registers as the host has set
them, and the sectors whose 256 words have gone over the data port.
-/
import HydraOS.FileSystem
import HydraOS.IoPorts

/-! ## The driver -/

/-- The port registers of a drive. -/
inductive Register where
  | data | error | sectorCount | lbaLow | lbaMid | lbaHi | device | command
  deriving DecidableEq

/-- The offset of a register from the port base. -/
def Register.offset : Register → UInt16
  | data => 0
  | error => 1
  | sectorCount => 2
  | lbaLow => 3
  | lbaMid => 4
  | lbaHi => 5
  | device => 6
  | command => 7

/-- An `AdvancedTechnologyAttachment` object. -/
structure Ata where
  master : Bool
  portBase : UInt16

namespace Ata

/-- `ata0m`: the primary master. -/
def primary : Ata := ⟨true, 0x1F0⟩

/-! ### Commands and status bits -/

abbrev cmdReadPio : UInt8 := 0x20
abbrev cmdWritePio : UInt8 := 0x30
abbrev cmdCacheFlush : UInt8 := 0xE7
abbrev cmdIdentify : UInt8 := 0xEC

/-- `ATA_SR_BSY`. -/
def busy (status : UInt8) : Bool := status &&& 0x80 != 0

/-- `ATA_SR_DF`. -/
def fault (status : UInt8) : Bool := status &&& 0x20 != 0

/-- `ATA_SR_DRQ`. -/
def requests (status : UInt8) : Bool := status &&& 0x08 != 0

/-- `ATA_SR_ERR`. -/
def err (status : UInt8) : Bool := status &&& 0x01 != 0

section Driver

variable {δ : Type} (a : Ata) (D : Device δ)

/-- The port of a register. -/
def port (r : Register) : UInt16 := a.portBase + r.offset

/-- `GetStatus`. -/
def getStatus (b : Bus δ) : UInt8 × Bus δ := b.inb D (a.port .command)

/-- `Wait`: four reads of the status take 400 ns. -/
def wait (b : Bus δ) : Bus δ := forLoop (fun _ => true) (fun _ b => (a.getStatus D b).2) 4 0 b

/-- `WaitReady`. -/
def waitReady (b : Bus δ) : Bool × Bus δ :=
  let (status, b) := a.getStatus D b
  let (status, timeout, b) := b.poll D (a.port .command) busy 100000 status
  if timeout = 0 then (false, b)
  else if err status then (false, b)
  else if fault status then (false, b)
  else (true, b)

/-- The wait for the data request bit in front of every sector. -/
def waitData (b : Bus δ) : Bool × Bus δ :=
  let (status, b) := a.getStatus D b
  let (_, timeout, b) :=
    b.poll D (a.port .command) (fun status => !requests status) 100000 status
  (timeout != 0, b)

/-- `Identify`: the words are read and dropped. -/
def identify (b : Bus δ) : Bus δ :=
  let b := b.outb D (a.port .device) (if a.master then 0xA0 else 0xB0)
  let b := a.wait D b
  let b := b.outb D (a.port .sectorCount) 0
  let b := b.outb D (a.port .lbaLow) 0
  let b := b.outb D (a.port .lbaMid) 0
  let b := b.outb D (a.port .lbaHi) 0
  let b := b.outb D (a.port .command) cmdIdentify
  let b := a.wait D b
  let (status, b) := a.getStatus D b
  if status = 0 then b
  else
    let (ok, b) := a.waitReady D b
    if ok then
      let (ok, b) := a.waitData D b
      if ok then forLoop (fun _ => true) (fun _ b => (b.inw D (a.port .data)).2) 256 0 b
      else b
    else b

/-- The value for the device register. -/
def select (sectorNum : UInt32) : UInt8 :=
  (if a.master then (0xE0 : UInt8) else 0xF0) ||| ((sectorNum >>> 24) &&& 0x0F).toUInt8

/-- What `Read28` and `Write28` write to the registers before the data. -/
def issue (command : UInt8) (sectorNum : UInt32) (count : ℕ) (b : Bus δ) : Bus δ :=
  let b := b.outb D (a.port .device) (a.select sectorNum)
  let b := a.wait D b
  let b := b.outb D (a.port .error) 0
  let b := b.outb D (a.port .sectorCount) (.ofNat count)
  let b := b.outb D (a.port .lbaLow) (sectorNum &&& 0xFF).toUInt8
  let b := b.outb D (a.port .lbaMid) ((sectorNum >>> 8) &&& 0xFF).toUInt8
  let b := b.outb D (a.port .lbaHi) ((sectorNum >>> 16) &&& 0xFF).toUInt8
  b.outb D (a.port .command) command

/-- The loop of `Read28` over the 256 words of the sector `s`. -/
def readWords (s : ℕ) (st : (ℕ → UInt8) × Bus δ) : (ℕ → UInt8) × Bus δ :=
  forLoop (fun _ => true) (fun i (data, b) =>
    let (wdata, b) := b.inw D (a.port .data)
    let data := Function.update data (s * 512 + i * 2) (wdata &&& 0xFF).toUInt8
    let data := Function.update data (s * 512 + i * 2 + 1) ((wdata >>> 8) &&& 0xFF).toUInt8
    (data, b)) 256 0 st

/-- The loop of `Read28` over the sectors. -/
def readSectors : (count s : ℕ) → (ℕ → UInt8) × Bus δ → (ℕ → UInt8) × Bus δ
  | 0, _, st => st
  | count + 1, s, (data, b) =>
    let (ok, b) := a.waitData D b
    if ok then readSectors count (s + 1) (a.readWords D s (data, b)) else (data, b)

/-- `Read28(sectorNum, data, count)`. -/
def read28 (sectorNum : UInt32) (data : ℕ → UInt8) (count : ℕ) (b : Bus δ) :
    (ℕ → UInt8) × Bus δ :=
  if sectorNum > 0x0FFFFFFF then (data, b)
  else
    let (ok, b) := a.waitReady D b
    if ok then a.readSectors D count 0 (data, a.issue D cmdReadPio sectorNum count b)
    else (data, b)

/-- The word at the bytes `k` and `k + 1`. -/
def word (data : ℕ → UInt8) (k : ℕ) : UInt16 :=
  (data k).toUInt16 ||| ((data (k + 1)).toUInt16 <<< 8)

/-- The loop of `Write28` over the 256 words of the sector `s`. -/
def writeWords (data : ℕ → UInt8) (s : ℕ) (b : Bus δ) : Bus δ :=
  forLoop (fun _ => true) (fun i b => b.outw D (a.port .data) (word data (s * 512 + i * 2))) 256 0 b

/-- The loop of `Write28` over the sectors; `false` stands for its early return. -/
def writeSectors (data : ℕ → UInt8) : (count s : ℕ) → Bus δ → Bool × Bus δ
  | 0, _, b => (true, b)
  | count + 1, s, b =>
    let (ok, b) := a.waitData D b
    if ok then writeSectors data count (s + 1) (a.writeWords D data s b) else (false, b)

/-- `Flush`. -/
def flush (b : Bus δ) : Bus δ :=
  let b := b.outb D (a.port .device) (if a.master then 0xE0 else 0xF0)
  let b := a.wait D b
  let b := b.outb D (a.port .command) cmdCacheFlush
  (a.waitReady D b).2

/-- `Write28(sectorNum, data, count)`. -/
def write28 (sectorNum : UInt32) (data : ℕ → UInt8) (count : ℕ) (b : Bus δ) : Bus δ :=
  if sectorNum > 0x0FFFFFFF then b
  else
    let (ok, b) := a.waitReady D b
    if ok then
      let (ok, b) := a.writeSectors D data count 0 (a.issue D cmdWritePio sectorNum count b)
      if ok then a.flush D b else b
    else b

end Driver

/-! ## The task file -/

/-- A sector that has gone over the data port: under which command, which sector, and its
words. -/
structure Transfer where
  command : UInt8
  sector : ℕ
  words : List UInt16
  deriving DecidableEq

/-- The registers as the host has set them, the commands so far (the latest first), the
blocks moved since the last command, the words of the present block (the latest first),
and all transfers (the latest first). -/
structure TaskFile where
  lbaLow : UInt8
  lbaMid : UInt8
  lbaHi : UInt8
  device : UInt8
  command : UInt8
  commands : List UInt8
  blocks : ℕ
  moved : List UInt16
  log : List Transfer

/-- The sector number in the registers: 28 bits. -/
def TaskFile.lba (t : TaskFile) : ℕ :=
  t.device.toNat % 16 * 2 ^ 24 + t.lbaHi.toNat * 2 ^ 16 + t.lbaMid.toNat * 2 ^ 8 + t.lbaLow.toNat

/-- A word goes over the data port.  With 256 words a sector is complete. -/
def TaskFile.move (t : TaskFile) (w : UInt16) : TaskFile :=
  if t.moved.length = 255 then
    { t with
      blocks := t.blocks + 1
      moved := []
      log := ⟨t.command, t.lba + t.blocks, (w :: t.moved).reverse⟩ :: t.log }
  else { t with moved := w :: t.moved }

section TaskFile

variable {δ : Type} (a : Ata)

/-- What an operation does to the task file. -/
def step (op : PortOp) (t : TaskFile) : TaskFile :=
  match op with
  | .inb _ _ => t
  | .outb p v =>
    if p = a.port .lbaLow then { t with lbaLow := v }
    else if p = a.port .lbaMid then { t with lbaMid := v }
    else if p = a.port .lbaHi then { t with lbaHi := v }
    else if p = a.port .device then { t with device := v }
    else if p = a.port .command then
      { t with command := v, commands := v :: t.commands, blocks := 0, moved := [] }
    else t
  | .inw p w | .outw p w => if p = a.port .data then t.move w else t

/-- The task file after the operations, the latest first. -/
def taskFile (trace : List PortOp) : TaskFile :=
  trace.foldr a.step ⟨0, 0, 0, 0, 0, [], 0, [], []⟩

/-- The commands that have been issued, the latest first. -/
def commands (b : Bus δ) : List UInt8 := (a.taskFile b.trace).commands

/-- The sectors that have gone over the data port, the latest first. -/
def transfers (b : Bus δ) : List Transfer := (a.taskFile b.trace).log

end TaskFile

end Ata

/-! ## The services of the file system -/

/-- `malloc(512)` and `free` as the heap provides them. -/
structure HeapService (η : Type) where
  malloc : η → Option Buffer × η
  free : Buffer → η → η

/-- A heap and the bus of a drive. -/
structure DiskWorld (δ η : Type) where
  heap : η
  bus : Bus δ

/-- The services of the file system on a drive: `Read28` and `Write28` of the driver, on
the 512 bytes of a buffer. -/
def Ata.env {δ η : Type} (a : Ata) (D : Device δ) (H : HeapService η) : Env (DiskWorld δ η) where
  malloc w := let (buffer, heap) := H.malloc w.heap; (buffer, { w with heap := heap })
  free buffer w := { w with heap := H.free buffer w.heap }
  read28 sector buffer w :=
    let (data, bus) := a.read28 D sector buffer.data.get 1 w.bus
    ({ buffer with data := Bytes.tabulate data }, { w with bus := bus })
  write28 sector buffer w := { w with bus := a.write28 D sector buffer.data.get 1 w.bus }
