/-
# The file system: `filesystem.h`, `filesystem.cpp`

A superblock in sector 1, a table of 64 inodes in sectors 2 to 9, file data from
sector 10 on.  The functions below follow `FileSystem` statement by statement.  They
pass the state of the object and of everything it calls explicitly: the kernel heap
and the disk driver are the services of an `Env`, about which nothing is assumed
here.  `FaithfulEnv` collects what a drive that stores and returns sectors, and a
heap that is not exhausted, guarantee.
-/
import HydraOS.Bytes
import HydraOS.Runs

/-! ## Data on disk -/

/-- One sector of the disk. -/
abbrev Sector := Bytes 512

abbrev fsMagic : UInt32 := 0x48594452
abbrev fsSuperblockSec : UInt32 := 1
abbrev fsInodeStartSec : UInt32 := 2
abbrev fsDataStartSec : UInt32 := 10
abbrev inodeTypeEmpty : UInt32 := 0
abbrev inodeTypeRegular : UInt32 := 1

/-- `struct Inode` (packed, 52 bytes). -/
@[ext] structure Inode where
  name : Bytes 32
  size : UInt32
  startSector : UInt32
  type : UInt32
  created : UInt32
  modified : UInt32

/-- `struct Superblock` (packed, 48 bytes). -/
@[ext] structure Superblock where
  magic : UInt32
  totalSectors : UInt32
  usedSectors : UInt32
  inodeCount : UInt32
  label : Bytes 32

/-- The bytes of a `Superblock` in memory. -/
def Superblock.toMem (sb : Superblock) : Mem := fun i =>
  if i < 4 then Mem.wordByte sb.magic i
  else if i < 8 then Mem.wordByte sb.totalSectors (i - 4)
  else if i < 12 then Mem.wordByte sb.usedSectors (i - 8)
  else if i < 16 then Mem.wordByte sb.inodeCount (i - 12)
  else sb.label.get (i - 16)

/-- The `Superblock` with the given bytes. -/
def Superblock.ofMem (m : Mem) : Superblock where
  magic := m.word 0
  totalSectors := m.word 4
  usedSectors := m.word 8
  inodeCount := m.word 12
  label := Bytes.tabulate fun i => m (16 + i)

/-- The bytes of an `Inode` in memory. -/
def Inode.toMem (inode : Inode) : Mem := fun i =>
  if i < 32 then inode.name.get i
  else if i < 36 then Mem.wordByte inode.size (i - 32)
  else if i < 40 then Mem.wordByte inode.startSector (i - 36)
  else if i < 44 then Mem.wordByte inode.type (i - 40)
  else if i < 48 then Mem.wordByte inode.created (i - 44)
  else Mem.wordByte inode.modified (i - 48)

/-- The `Inode` with the given bytes. -/
def Inode.ofMem (m : Mem) : Inode where
  name := Bytes.tabulate m
  size := m.word 32
  startSector := m.word 36
  type := m.word 40
  created := m.word 44
  modified := m.word 48

/-! ## The object and its services -/

/-- The fields of a `FileSystem` object (the disk driver belongs to the `Env`). -/
@[ext] structure FileSystem where
  inodes : Fin 64 → Inode
  superblock : Superblock
  mounted : Bool

/-- A block that `malloc(512)` returned, with its present contents. -/
structure Buffer where
  ptr : ℕ
  data : Sector

/-- What `FileSystem` calls: `malloc(512)`, `free`, and `Read28` and `Write28` of one
sector.  A fresh buffer holds whatever the heap left in it, and `free` gives the
buffer back with its last contents. -/
structure Env (σ : Type) where
  malloc : σ → Option Buffer × σ
  free : Buffer → σ → σ
  read28 : UInt32 → Buffer → σ → Buffer × σ
  write28 : UInt32 → Buffer → σ → σ

/-- `malloc(512)` never fails. -/
def Env.NeverFull {σ : Type} (E : Env σ) : Prop := ∀ w, ∃ buffer, (E.malloc w).1 = some buffer

/-- A `FileSystem` object together with the state of heap and disk. -/
structure Sys (σ : Type) where
  fs : FileSystem
  world : σ

namespace FileSystem

variable {σ : Type}

/-- `FileSystem::FileSystem`.  The constructor runs on uninitialised memory and sets
three fields of it. -/
def construct (raw : FileSystem) : FileSystem where
  inodes := fun i => { raw.inodes i with type := inodeTypeEmpty, size := 0 }
  superblock := raw.superblock
  mounted := false

/-! ## Superblock and inode table -/

/-- The sector that `SaveSuperblock` writes. -/
def superblockSector (sb : Superblock) : Sector :=
  Bytes.tabulate fun i => if i < 48 then sb.toMem i else 0

/-- The sector number `FS_INODE_START_SEC + sector`. -/
def tableSector (sector : ℕ) : UInt32 := fsInodeStartSec + .ofNat sector

/-- The sector that `SaveInodeTable` writes in its round `sector`: eight inodes, 64
bytes apart. -/
def inodeTableSector (inodes : Fin 64 → Inode) (sector : ℕ) : Sector :=
  Bytes.tabulate fun k =>
    if k % 64 < 52 then
      if h : sector * 8 + k / 64 < 64 then (inodes ⟨sector * 8 + k / 64, h⟩).toMem (k % 64) else 0
    else 0

/-- What `LoadInodeTable` does with the sector of its round `sector`. -/
def loadInodes (inodes : Fin 64 → Inode) (sector : ℕ) (data : Sector) : Fin 64 → Inode :=
  fun inodeIndex =>
    if inodeIndex.val / 8 = sector then
      Inode.ofMem fun j => data.get (inodeIndex.val % 8 * 64 + j)
    else inodes inodeIndex

/-- `FileSystem::LoadSuperblock`. -/
def loadSuperblock (E : Env σ) (s : Sys σ) : Sys σ :=
  match E.malloc s.world with
  | (none, w) => { s with world := w }
  | (some buffer, w) =>
    let (buffer, w) := E.read28 fsSuperblockSec buffer w
    { fs := { s.fs with superblock := Superblock.ofMem buffer.data.get }
      world := E.free buffer w }

/-- `FileSystem::SaveSuperblock`. -/
def saveSuperblock (E : Env σ) (s : Sys σ) : Sys σ :=
  match E.malloc s.world with
  | (none, w) => { s with world := w }
  | (some buffer, w) =>
    let buffer := { buffer with data := superblockSector s.fs.superblock }
    { s with world := E.free buffer (E.write28 fsSuperblockSec buffer w) }

/-- One round of the loop of `LoadInodeTable`. -/
def loadInodeRound (E : Env σ) (sector : ℕ) :
    (Fin 64 → Inode) × Buffer × σ → (Fin 64 → Inode) × Buffer × σ
  | (inodes, buffer, w) =>
    let (buffer, w) := E.read28 (tableSector sector) buffer w
    (loadInodes inodes sector buffer.data, buffer, w)

/-- `FileSystem::LoadInodeTable`. -/
def loadInodeTable (E : Env σ) (s : Sys σ) : Sys σ :=
  match E.malloc s.world with
  | (none, w) => { s with world := w }
  | (some buffer, w) =>
    let (inodes, buffer, w) :=
      forLoop (fun _ => true) (loadInodeRound E) 8 0 (s.fs.inodes, buffer, w)
    { fs := { s.fs with inodes := inodes }, world := E.free buffer w }

/-- One round of the loop of `SaveInodeTable`. -/
def saveInodeRound (E : Env σ) (inodes : Fin 64 → Inode) (sector : ℕ) :
    Buffer × σ → Buffer × σ
  | (buffer, w) =>
    let buffer := { buffer with data := inodeTableSector inodes sector }
    (buffer, E.write28 (tableSector sector) buffer w)

/-- `FileSystem::SaveInodeTable`. -/
def saveInodeTable (E : Env σ) (s : Sys σ) : Sys σ :=
  match E.malloc s.world with
  | (none, w) => { s with world := w }
  | (some buffer, w) =>
    let (buffer, w) := forLoop (fun _ => true) (saveInodeRound E s.fs.inodes) 8 0 (buffer, w)
    { s with world := E.free buffer w }

/-- `FileSystem::FindFreeInode`; `none` is its `-1`. -/
def findFreeInode (fs : FileSystem) : Option (Fin 64) :=
  (List.finRange 64).find? fun i => (fs.inodes i).type == inodeTypeEmpty

/-- `FileSystem::AllocateSector`: the number of the next sector. -/
def allocateSector (E : Env σ) (s : Sys σ) : UInt32 × Sys σ :=
  let sector := fsDataStartSec + s.fs.superblock.usedSectors
  let superblock := { s.fs.superblock with usedSectors := s.fs.superblock.usedSectors + 1 }
  (sector, saveSuperblock E { s with fs := { s.fs with superblock := superblock } })

/-! ## Volume operations -/

/-- The loop that copies a string into a field, at most `bound` characters from index
`i` on, and the NUL behind it. -/
def copyString (src : CStr) : (bound i : ℕ) → Bytes 32 → Bytes 32
  | 0, i, dst => dst.set i 0
  | bound + 1, i, dst =>
    if src.get i ≠ 0 then copyString src bound (i + 1) (dst.set i (src.get i)) else dst.set i 0

/-- The object after the in-memory part of `Format`. -/
def formatted (fs : FileSystem) (label : CStr) : FileSystem where
  inodes := fun i =>
    { fs.inodes i with
      name := fun _ => 0, size := 0, startSector := 0, type := inodeTypeEmpty }
  superblock :=
    { magic := fsMagic
      totalSectors := 1000
      usedSectors := 0
      inodeCount := 0
      label := copyString label 31 0 fs.superblock.label }
  mounted := fs.mounted

/-- `FileSystem::Format`. -/
def format (E : Env σ) (label : CStr) (s : Sys σ) : Bool × Sys σ :=
  (true, saveInodeTable E (saveSuperblock E { s with fs := formatted s.fs label }))

/-- `FileSystem::Mount`. -/
def mount (E : Env σ) (s : Sys σ) : Bool × Sys σ :=
  let s := loadSuperblock E s
  if s.fs.superblock.magic ≠ fsMagic then (false, s)
  else
    let s := loadInodeTable E s
    (true, { s with fs := { s.fs with mounted := true } })

/-- `FileSystem::Unmount`. -/
def unmount (E : Env σ) (s : Sys σ) : Sys σ :=
  if s.fs.mounted then
    let s := saveInodeTable E (saveSuperblock E s)
    { s with fs := { s.fs with mounted := false } }
  else s

/-! ## Directory operations -/

/-- The loop of `OpenFile` that compares a stored name with `filename` from index `j`
on. -/
def compareName (name : Bytes 32) (filename : CStr) : (count j : ℕ) → Bool
  | 0, _ => true
  | count + 1, j =>
    if name.get j ≠ filename.get j then false
    else if filename.get j = 0 then true
    else compareName name filename count (j + 1)

/-- The inode that `OpenFile` returns; `none` is its `-1`. -/
def lookup (fs : FileSystem) (filename : CStr) : Option (Fin 64) :=
  if fs.mounted then
    (List.finRange 64).find? fun i =>
      (fs.inodes i).type != inodeTypeEmpty && compareName (fs.inodes i).name filename 32 0
  else none

/-- An inode index as the `int32_t` that the functions return. -/
def indexResult : Option (Fin 64) → ℤ
  | none => -1
  | some i => i.val

/-- `FileSystem::OpenFile`. -/
def openFile (fs : FileSystem) (filename : CStr) : ℤ := indexResult (fs.lookup filename)

/-- `FileSystem::FileExists`. -/
def fileExists (fs : FileSystem) (filename : CStr) : Bool := fs.openFile filename ≥ 0

/-- `FileSystem::GetFileSize`. -/
def getFileSize (fs : FileSystem) (filename : CStr) : UInt32 :=
  match fs.lookup filename with
  | none => 0
  | some inodeIndex => (fs.inodes inodeIndex).size

/-- Replace the inode at an index. -/
def setInode (fs : FileSystem) (i : Fin 64) (inode : Inode) : FileSystem :=
  { fs with inodes := Function.update fs.inodes i inode }

/-- The object after the in-memory part of `CreateFile` at a free index. -/
def created (fs : FileSystem) (i : Fin 64) (filename : CStr) : FileSystem :=
  let fs := fs.setInode i
    { name := copyString filename 31 0 (fs.inodes i).name
      size := 0
      startSector := 0
      type := inodeTypeRegular
      created := 0
      modified := 0 }
  { fs with superblock := { fs.superblock with inodeCount := fs.superblock.inodeCount + 1 } }

/-- `FileSystem::CreateFile`. -/
def createFile (E : Env σ) (filename : CStr) (s : Sys σ) : ℤ × Sys σ :=
  if !s.fs.mounted then (-1, s)
  else if s.fs.fileExists filename then (-1, s)
  else
    match s.fs.findFreeInode with
    | none => (-1, s)
    | some inodeIndex =>
      (inodeIndex.val,
        saveSuperblock E (saveInodeTable E { s with fs := s.fs.created inodeIndex filename }))

/-- The object after the in-memory part of `DeleteFile`. -/
def deleted (fs : FileSystem) (i : Fin 64) : FileSystem :=
  let fs := fs.setInode i { fs.inodes i with type := inodeTypeEmpty, size := 0 }
  { fs with superblock := { fs.superblock with inodeCount := fs.superblock.inodeCount - 1 } }

/-- `FileSystem::DeleteFile`. -/
def deleteFile (E : Env σ) (filename : CStr) (s : Sys σ) : Bool × Sys σ :=
  if !s.fs.mounted then (false, s)
  else
    match s.fs.lookup filename with
    | none => (false, s)
    | some inodeIndex =>
      (true, saveSuperblock E (saveInodeTable E { s with fs := s.fs.deleted inodeIndex }))

/-! ## File contents -/

/-- The conversion of a `uint32_t` to the `int32_t` that is returned. -/
def toInt32 (v : UInt32) : ℤ := if v.toNat < 2 ^ 31 then v.toNat else (v.toNat : ℤ) - 2 ^ 32

/-- The number of sectors for `size` bytes, as both loops compute it. -/
def sectorCount (size : UInt32) : UInt32 := (size + 511) / 512

/-- `if(done + bytesToCopy > limit) bytesToCopy = limit - done;` -/
def clip (done limit bytesToCopy : UInt32) : UInt32 :=
  if done + bytesToCopy > limit then limit - done else bytesToCopy

/-- The locals of `ReadFile`: the caller's buffer is `out`. -/
structure ReadState (σ : Type) where
  world : σ
  diskBuffer : Buffer
  out : ℕ → UInt8
  bytesRead : UInt32

/-- One round of the loop of `ReadFile`. -/
def readRound (E : Env σ) (inode : Inode) (size : UInt32) (i : ℕ) (st : ReadState σ) :
    ReadState σ :=
  let (diskBuffer, w) := E.read28 (inode.startSector + .ofNat i) st.diskBuffer st.world
  let bytesToCopy := clip st.bytesRead inode.size 512
  let bytesToCopy := clip st.bytesRead size bytesToCopy
  let out := forLoop (fun _ => true)
    (fun j out => Function.update out (st.bytesRead + .ofNat j).toNat (diskBuffer.data.get j))
    bytesToCopy.toNat 0 st.out
  ⟨w, diskBuffer, out, st.bytesRead + bytesToCopy⟩

/-- `ReadFile` on an inode that is in use. -/
def readInode (E : Env σ) (inode : Inode) (out : ℕ → UInt8) (size : UInt32) (s : Sys σ) :
    (ℤ × (ℕ → UInt8)) × Sys σ :=
  if inode.size > 0 ∧ inode.startSector > 0 then
    match E.malloc s.world with
    | (none, w) => ((0, out), { s with world := w })
    | (some diskBuffer, w) =>
      let st := forLoop (fun st => st.bytesRead < size) (readRound E inode size)
        (sectorCount inode.size).toNat 0 ⟨w, diskBuffer, out, 0⟩
      ((toInt32 st.bytesRead, st.out), { s with world := E.free st.diskBuffer st.world })
  else ((0, out), s)

/-- `FileSystem::ReadFile`: the result and the caller's buffer afterwards. -/
def readFile (E : Env σ) (inodeIndex : ℤ) (out : ℕ → UInt8) (size : UInt32) (s : Sys σ) :
    (ℤ × (ℕ → UInt8)) × Sys σ :=
  if h : s.fs.mounted = false ∨ inodeIndex < 0 ∨ inodeIndex ≥ 64 then ((-1, out), s)
  else
    let inode := s.fs.inodes ⟨inodeIndex.toNat, by omega⟩
    if inode.type = inodeTypeEmpty then ((-1, out), s)
    else readInode E inode out size s

/-- The locals of `WriteFile`. -/
structure WriteState (σ : Type) where
  sys : Sys σ
  diskBuffer : Buffer
  bytesWritten : UInt32

/-- One round of the loop of `WriteFile`. -/
def writeRound (E : Env σ) (index : Fin 64) (buffer : ℕ → UInt8) (size : UInt32) (i : ℕ)
    (st : WriteState σ) : WriteState σ :=
  let bytesToCopy := clip st.bytesWritten size 512
  let data : Sector := Bytes.tabulate fun j =>
    if j < bytesToCopy.toNat then buffer (st.bytesWritten + .ofNat j).toNat else 0
  let diskBuffer := { st.diskBuffer with data := data }
  -- the sector number that `AllocateSector` returns here is not used
  let s := if i > 0 then (allocateSector E st.sys).2 else st.sys
  let w := E.write28 ((s.fs.inodes index).startSector + .ofNat i) diskBuffer s.world
  ⟨{ s with world := w }, diskBuffer, st.bytesWritten + bytesToCopy⟩

/-- The first allocation of `WriteFile`. -/
def firstSector (E : Env σ) (index : Fin 64) (s : Sys σ) : Sys σ :=
  if (s.fs.inodes index).startSector = 0 then
    let (sector, s) := allocateSector E s
    { s with fs := s.fs.setInode index { s.fs.inodes index with startSector := sector } }
  else s

/-- `WriteFile` on an inode that is in use. -/
def writeInode (E : Env σ) (index : Fin 64) (buffer : ℕ → UInt8) (size : UInt32) (s : Sys σ) :
    ℤ × Sys σ :=
  let s := firstSector E index s
  match E.malloc s.world with
  | (none, w) => (-1, { s with world := w })
  | (some diskBuffer, w) =>
    let st := forLoop (fun _ => true) (writeRound E index buffer size)
      (sectorCount size).toNat 0 ⟨{ s with world := w }, diskBuffer, 0⟩
    let inode := { st.sys.fs.inodes index with size := size, modified := 0 }
    (toInt32 st.bytesWritten,
      saveInodeTable E
        { fs := st.sys.fs.setInode index inode, world := E.free st.diskBuffer st.sys.world })

/-- `FileSystem::WriteFile`. -/
def writeFile (E : Env σ) (inodeIndex : ℤ) (buffer : ℕ → UInt8) (size : UInt32) (s : Sys σ) :
    ℤ × Sys σ :=
  if h : s.fs.mounted = false ∨ inodeIndex < 0 ∨ inodeIndex ≥ 64 then (-1, s)
  else
    let index : Fin 64 := ⟨inodeIndex.toNat, by omega⟩
    if (s.fs.inodes index).type = inodeTypeEmpty then (-1, s)
    else writeInode E index buffer size s

end FileSystem

/-! ## A faithful drive -/

/-- What the services guarantee when the drive stores and returns sectors and the
heap always has 512 bytes: a sector number of 28 bits addresses its own sector, a
larger one addresses nothing, and nothing but `write28` changes the disk. -/
structure FaithfulEnv (σ : Type) extends Env σ where
  disk : σ → UInt32 → Sector
  malloc_some : ∀ w, ∃ buffer, (malloc w).1 = some buffer
  disk_malloc : ∀ w, disk (malloc w).2 = disk w
  disk_free : ∀ buffer w, disk (free buffer w) = disk w
  read28_data : ∀ sector buffer w, sector ≤ 0x0FFFFFFF →
    (read28 sector buffer w).1.data = disk w sector
  read28_data_of_gt : ∀ sector buffer w, sector > 0x0FFFFFFF →
    (read28 sector buffer w).1 = buffer
  disk_read28 : ∀ sector buffer w, disk (read28 sector buffer w).2 = disk w
  disk_write28 : ∀ sector buffer w, sector ≤ 0x0FFFFFFF →
    disk (write28 sector buffer w) = Function.update (disk w) sector buffer.data
  disk_write28_of_gt : ∀ sector buffer w, sector > 0x0FFFFFFF →
    disk (write28 sector buffer w) = disk w

/-- A call of `malloc(512)` returns a buffer and leaves the disk alone. -/
theorem FaithfulEnv.malloc_spec {σ : Type} (F : FaithfulEnv σ) (w : σ) :
    ∃ buffer w', F.malloc w = (some buffer, w') ∧ F.disk w' = F.disk w := by
  obtain ⟨buffer, hbuffer⟩ := F.malloc_some w
  exact ⟨buffer, (F.malloc w).2, Prod.ext hbuffer rfl, F.disk_malloc w⟩

/-- A write changes at most the sector that it addresses. -/
theorem FaithfulEnv.disk_write28_of_ne {σ : Type} (F : FaithfulEnv σ) {sector x : UInt32}
    (buffer : Buffer) (w : σ) (h : x ≠ sector) :
    F.disk (F.write28 sector buffer w) x = F.disk w x := by
  by_cases hle : sector ≤ 0x0FFFFFFF
  · rw [F.disk_write28 _ _ _ hle, Function.update_of_ne h]
  · rw [F.disk_write28_of_gt _ _ _ (UInt32.not_le.mp hle)]

/-- A faithful drive whose state is the disk itself, with a heap that is never used
up. -/
def idealEnv : FaithfulEnv (UInt32 → Sector) where
  malloc w := (some ⟨0, fun _ => 0⟩, w)
  free _ w := w
  read28 sector buffer w :=
    (if sector ≤ 0x0FFFFFFF then { buffer with data := w sector } else buffer, w)
  write28 sector buffer w :=
    if sector ≤ 0x0FFFFFFF then Function.update w sector buffer.data else w
  disk w := w
  malloc_some w := ⟨_, rfl⟩
  disk_malloc w := rfl
  disk_free _ w := rfl
  read28_data sector buffer w h := by simp only [if_pos h]
  read28_data_of_gt sector buffer w h := by simp only [if_neg (UInt32.not_le.mpr h)]
  disk_read28 _ _ w := rfl
  disk_write28 sector buffer w h := by simp only [if_pos h]
  disk_write28_of_gt sector buffer w h := by simp only [if_neg (UInt32.not_le.mpr h)]
