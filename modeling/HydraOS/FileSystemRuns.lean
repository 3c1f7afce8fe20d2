/-
# Runs of the file system

The public operations of a `FileSystem` object as a machine.  Every state that it
reaches after a `Format`, as long as the sectors it hands out and addresses stay
below a limit, keeps its metadata on the disk and its files between the first data
sector and the allocation mark.
-/
import HydraOS.FileSystemSpec

open FileSystem

/-! ## The machine -/

/-- A call of a public member function. -/
inductive FsCall where
  | format (label : CStr)
  | mount
  | unmount
  | createFile (filename : CStr)
  | openFile (filename : CStr)
  | deleteFile (filename : CStr)
  | readFile (inodeIndex : ℤ) (buffer : ℕ → UInt8) (size : UInt32)
  | writeFile (inodeIndex : ℤ) (buffer : ℕ → UInt8) (size : UInt32)
  | fileExists (filename : CStr)
  | getFileSize (filename : CStr)

/-- What a call returns; for `ReadFile` with the caller's buffer. -/
inductive FsResult where
  | nothing
  | flag (b : Bool)
  | index (i : ℤ)
  | size (n : UInt32)
  | bytes (r : ℤ × (ℕ → UInt8))

/-- One call. -/
def fsStep {σ : Type} (E : Env σ) (s : Sys σ) : FsCall → Sys σ × FsResult
  | .format label => let r := format E label s; (r.2, .flag r.1)
  | .mount => let r := mount E s; (r.2, .flag r.1)
  | .unmount => (unmount E s, .nothing)
  | .createFile filename => let r := createFile E filename s; (r.2, .index r.1)
  | .openFile filename => (s, .index (s.fs.openFile filename))
  | .deleteFile filename => let r := deleteFile E filename s; (r.2, .flag r.1)
  | .readFile inodeIndex buffer size =>
    let r := readFile E inodeIndex buffer size s; (r.2, .bytes r.1)
  | .writeFile inodeIndex buffer size =>
    let r := writeFile E inodeIndex buffer size s; (r.2, .index r.1)
  | .fileExists filename => (s, .flag (s.fs.fileExists filename))
  | .getFileSize filename => (s, .size (s.fs.getFileSize filename))

namespace FileSystem

/-- An inode is in use. -/
def InUse (fs : FileSystem) (i : Fin 64) : Prop := (fs.inodes i).type ≠ inodeTypeEmpty

/-- The allocation mark: the next sector that `AllocateSector` hands out. -/
def mark (fs : FileSystem) : ℕ := 10 + fs.superblock.usedSectors.toNat

/-- The sectors that a write to the inode allocates and addresses are below `B`. -/
def SectorsBelow (B : ℕ) (fs : FileSystem) (index : Fin 64) (size : UInt32) : Prop :=
  (∀ k < fs.allocCount index size, fs.mark + k < B) ∧
    ∀ k < (sectorCount size).toNat, (fs.writeStart index).toNat + k < B

/-- The sectors that a write to the inode addresses follow the inode table and do not
wrap. -/
def OnDataSectors (fs : FileSystem) (index : Fin 64) (size : UInt32) : Prop :=
  10 ≤ (fs.writeStart index).toNat ∧
    (fs.writeStart index).toNat + (sectorCount size).toNat ≤ 2 ^ 32

/-- If the call writes to a file, then `p` holds of the write. -/
def WriteMeets {σ : Type} (p : FileSystem → Fin 64 → UInt32 → Prop) (s : Sys σ) : FsCall → Prop
  | .writeFile inodeIndex _ size =>
    s.fs.mounted → ∀ i : Fin 64, (i.val : ℤ) = inodeIndex → s.fs.InUse i → p s.fs i size
  | _ => True

/-- A call that stays below the sector `B`: only writes to a file use data sectors. -/
def CallBelow {σ : Type} (B : ℕ) (s : Sys σ) (call : FsCall) : Prop :=
  WriteMeets (SectorsBelow B) s call

instance (fs : FileSystem) (i : Fin 64) : Decidable (fs.InUse i) :=
  inferInstanceAs (Decidable (_ ≠ _))

instance (B : ℕ) (fs : FileSystem) (index : Fin 64) (size : UInt32) :
    Decidable (fs.SectorsBelow B index size) := inferInstanceAs (Decidable (_ ∧ _))

instance (fs : FileSystem) (index : Fin 64) (size : UInt32) :
    Decidable (fs.OnDataSectors index size) := inferInstanceAs (Decidable (_ ∧ _))

instance {σ : Type} (p : FileSystem → Fin 64 → UInt32 → Prop)
    [∀ fs index size, Decidable (p fs index size)] (s : Sys σ) :
    (call : FsCall) → Decidable (WriteMeets p s call)
  | .writeFile _ _ _ => inferInstanceAs (Decidable (_ → _))
  | .format _ | .mount | .unmount | .createFile _ | .openFile _ | .deleteFile _
  | .readFile _ _ _ | .fileExists _ | .getFileSize _ => isTrue trivial

instance {σ : Type} (B : ℕ) (s : Sys σ) (call : FsCall) : Decidable (CallBelow B s call) :=
  inferInstanceAs (Decidable (WriteMeets _ s call))

/-! ## One call in memory -/

section Calls

variable {σ : Type} (E : Env σ) (s : Sys σ) {i : Fin 64} {f : CStr}

/-- `CreateFile` refuses, or takes the lowest free inode. -/
theorem createFile_cases :
    ((s.fs.mounted = false ∨ s.fs.fileExists f = true ∨ s.fs.findFreeInode = none) ∧
        createFile E f s = (-1, s)) ∨
      ∃ i, s.fs.mounted = true ∧ s.fs.fileExists f = false ∧ s.fs.findFreeInode = some i ∧
        createFile E f s = ((i.val : ℤ),
          saveSuperblock E (saveInodeTable E { s with fs := s.fs.created i f })) := by
  rw [createFile]
  cases hm : s.fs.mounted
  · exact .inl ⟨.inl rfl, rfl⟩
  · cases he : s.fs.fileExists f
    · cases hi : s.fs.findFreeInode with
      | none => exact .inl ⟨.inr (.inr rfl), rfl⟩
      | some i => exact .inr ⟨i, rfl, rfl, rfl, rfl⟩
    · exact .inl ⟨.inr (.inl rfl), rfl⟩

/-- `DeleteFile` refuses, or frees the inode that the lookup finds. -/
theorem deleteFile_cases :
    (s.fs.lookup f = none ∧ deleteFile E f s = (false, s)) ∨
      ∃ i, s.fs.mounted = true ∧ s.fs.lookup f = some i ∧ deleteFile E f s =
        (true, saveSuperblock E (saveInodeTable E { s with fs := s.fs.deleted i })) := by
  rw [deleteFile]
  cases hm : s.fs.mounted
  · refine .inl ⟨?_, rfl⟩
    rw [lookup, hm]
    rfl
  · cases hi : s.fs.lookup f with
    | none => exact .inl ⟨rfl, rfl⟩
    | some i => exact .inr ⟨i, rfl, rfl, rfl⟩

/-- The checks of `ReadFile` and `WriteFile`: the index is refused, or it is that of an inode
in use. -/
theorem index_cases {α : Type} (fs : FileSystem) (inodeIndex : ℤ) (refused : α)
    (go : Fin 64 → α) :
    let result := if h : fs.mounted = false ∨ inodeIndex < 0 ∨ inodeIndex ≥ 64 then refused
      else if (fs.inodes ⟨inodeIndex.toNat, by omega⟩).type = inodeTypeEmpty then refused
      else go ⟨inodeIndex.toNat, by omega⟩
    ((fs.mounted = false ∨ ∀ i : Fin 64, (i.val : ℤ) = inodeIndex → ¬ fs.InUse i) ∧
        result = refused) ∨
      ∃ i : Fin 64, fs.mounted = true ∧ (i.val : ℤ) = inodeIndex ∧ fs.InUse i ∧
        result = go i := by
  intro result
  by_cases h : fs.mounted = false ∨ inodeIndex < 0 ∨ inodeIndex ≥ 64
  · refine .inl ⟨?_, dif_pos h⟩
    rcases h with h | h
    · exact .inl h
    · refine .inr fun i hi => ?_
      have := i.isLt
      omega
  · by_cases htype : (fs.inodes ⟨inodeIndex.toNat, by omega⟩).type = inodeTypeEmpty
    · refine .inl ⟨.inr fun i hi => ?_, (dif_neg h).trans (if_pos htype)⟩
      rw [InUse, not_not, ← htype]
      congr 2
      ext
      simp only
      omega
    · exact .inr ⟨⟨inodeIndex.toNat, by omega⟩, by simpa using fun h' => h (.inl h'),
        by simp only; omega, htype, (dif_neg h).trans (if_neg htype)⟩

/-- `WriteFile` refuses, or writes to an inode in use. -/
theorem writeFile_cases (inodeIndex : ℤ) (buffer : ℕ → UInt8) (size : UInt32) :
    ((s.fs.mounted = false ∨ ∀ i : Fin 64, (i.val : ℤ) = inodeIndex → ¬ s.fs.InUse i) ∧
        writeFile E inodeIndex buffer size s = (-1, s)) ∨
      ∃ i : Fin 64, s.fs.mounted = true ∧ (i.val : ℤ) = inodeIndex ∧ s.fs.InUse i ∧
        writeFile E inodeIndex buffer size s = writeInode E i buffer size s :=
  index_cases s.fs inodeIndex (-1, s) fun i => writeInode E i buffer size s

/-- `WriteFile` on an inode in use. -/
theorem writeFile_of_inUse {buffer : ℕ → UInt8} {size : UInt32} (hm : s.fs.mounted = true)
    (hi : s.fs.InUse i) :
    writeFile E i.val buffer size s = writeInode E i buffer size s := by
  rcases writeFile_cases E s i.val buffer size with ⟨h | h, -⟩ | ⟨j, -, hj, -, h⟩
  · rw [hm] at h
    cases h
  · exact absurd hi (h i rfl)
  · rwa [show j = i from Fin.ext (by omega)] at h

/-- `ReadFile` refuses, or reads an inode in use. -/
theorem readFile_cases (inodeIndex : ℤ) (out : ℕ → UInt8) (size : UInt32) :
    ((s.fs.mounted = false ∨ ∀ i : Fin 64, (i.val : ℤ) = inodeIndex → ¬ s.fs.InUse i) ∧
        readFile E inodeIndex out size s = ((-1, out), s)) ∨
      ∃ i : Fin 64, s.fs.mounted = true ∧ (i.val : ℤ) = inodeIndex ∧ s.fs.InUse i ∧
        readFile E inodeIndex out size s = readInode E (s.fs.inodes i) out size s :=
  index_cases s.fs inodeIndex ((-1, out), s) fun i => readInode E (s.fs.inodes i) out size s

/-- `ReadFile` on an inode in use. -/
theorem readFile_of_inUse {out : ℕ → UInt8} {size : UInt32} (hm : s.fs.mounted = true)
    (hi : s.fs.InUse i) :
    readFile E i.val out size s = readInode E (s.fs.inodes i) out size s := by
  rcases readFile_cases E s i.val out size with ⟨h | h, -⟩ | ⟨j, -, hj, -, h⟩
  · rw [hm] at h
    cases h
  · exact absurd hi (h i rfl)
  · rwa [show j = i from Fin.ext (by omega)] at h

/-- `Format` in memory. -/
theorem fs_format (label : CStr) :
    (fsStep E s (.format label)).1.fs = s.fs.formatted label := by
  rw [fsStep, format, saveInodeTable_fs, saveSuperblock_fs]

/-- `CreateFile` in memory, when it succeeds. -/
theorem fs_createFile (hm : s.fs.mounted = true) (hex : s.fs.fileExists f = false)
    (hfree : s.fs.findFreeInode = some i) :
    (fsStep E s (.createFile f)).1.fs = s.fs.created i f := by
  rw [fsStep]
  rcases createFile_cases E s (f := f) with ⟨h, -⟩ | ⟨j, -, -, hj, hres⟩
  · rw [hm, hex, hfree] at h
    simp at h
  · rw [hfree] at hj
    cases hj
    simp only [hres, saveSuperblock_fs, saveInodeTable_fs]

/-- `DeleteFile` in memory, when it succeeds. -/
theorem fs_deleteFile (hlookup : s.fs.lookup f = some i) :
    (fsStep E s (.deleteFile f)).1.fs = s.fs.deleted i := by
  rw [fsStep]
  rcases deleteFile_cases E s (f := f) with ⟨h, -⟩ | ⟨j, -, hj, hres⟩
  · rw [hlookup] at h
    cases h
  · rw [hlookup] at hj
    cases hj
    simp only [hres, saveSuperblock_fs, saveInodeTable_fs]

/-- `WriteFile` in memory, on an inode in use. -/
theorem fs_writeFile (hE : E.NeverFull) (hm : s.fs.mounted = true) (hi : s.fs.InUse i)
    (buffer : ℕ → UInt8) (size : UInt32) :
    (fsStep E s (.writeFile i.val buffer size)).1.fs = s.fs.written i size := by
  rw [fsStep]
  simp only
  rw [writeFile_of_inUse E s hm hi, (writeInode_fs E hE i buffer size s).2]

/-- Reading changes nothing in memory. -/
theorem readFile_fs (inodeIndex : ℤ) (out : ℕ → UInt8) (size : UInt32) :
    (readFile E inodeIndex out size s).2.fs = s.fs := by
  rcases readFile_cases E s inodeIndex out size with ⟨-, h⟩ | ⟨i, -, -, -, h⟩
  · rw [h]
  · rw [h, readInode]
    split
    · split <;> rfl
    · rfl

/-- Reading changes nothing on the disk. -/
theorem disk_readFile (F : FaithfulEnv σ) (inodeIndex : ℤ) (out : ℕ → UInt8) (size : UInt32) :
    F.disk (readFile F.toEnv inodeIndex out size s).2.world = F.disk s.world := by
  rcases readFile_cases F.toEnv s inodeIndex out size with ⟨-, h⟩ | ⟨i, -, -, -, h⟩
  · rw [h]
  · rw [h, disk_readInode]

end Calls

/-! ## What a call can do in memory -/

/-- The object after the first allocation of a write to the inode. -/
def allocated (fs : FileSystem) (i : Fin 64) : FileSystem :=
  if (fs.inodes i).startSector = 0 then
    (fs.bumpUsed 1).setInode i
      { fs.inodes i with startSector := fsDataStartSec + fs.superblock.usedSectors }
  else fs

/-- `FsChange E fs call fs'`: the call can take the object from `fs` to `fs'`.  Only
when the heap may be full can a write stop after its first allocation. -/
inductive FsChange {σ : Type} (E : Env σ) (fs : FileSystem) : FsCall → FileSystem → Prop
  | same (call : FsCall) : FsChange E fs call fs
  | formatted (label : CStr) : FsChange E fs (.format label) (fs.formatted label)
  | mounted (call : FsCall) (b : Bool) : FsChange E fs call { fs with mounted := b }
  | created {f : CStr} {i : Fin 64} (hfree : fs.findFreeInode = some i) :
      FsChange E fs (.createFile f) (fs.created i f)
  | deleted {f : CStr} {i : Fin 64} (hlookup : fs.lookup f = some i) :
      FsChange E fs (.deleteFile f) (fs.deleted i)
  | written {i : Fin 64} (buffer : ℕ → UInt8) (size : UInt32) (hm : fs.mounted = true)
      (hi : fs.InUse i) : FsChange E fs (.writeFile i.val buffer size) (fs.written i size)
  | allocated {i : Fin 64} (buffer : ℕ → UInt8) (size : UInt32) (hm : fs.mounted = true)
      (hi : fs.InUse i) (hfull : ¬ E.NeverFull) :
      FsChange E fs (.writeFile i.val buffer size) (fs.allocated i)

/-- Every call but `Mount` does one of these. -/
theorem fsStep_change {σ : Type} (E : Env σ) (s : Sys σ) {call : FsCall}
    (hcall : call ≠ .mount) : FsChange E s.fs call (fsStep E s call).1.fs := by
  cases call with
  | format label =>
    rw [fs_format]
    exact .formatted label
  | mount => exact absurd rfl hcall
  | unmount =>
    rw [fsStep, unmount]
    split
    · simp only [saveInodeTable_fs, saveSuperblock_fs]
      exact .mounted _ false
    · exact .same _
  | createFile f =>
    rw [fsStep]
    rcases createFile_cases E s (f := f) with ⟨-, hres⟩ | ⟨i, -, -, hfree, hres⟩
    · rw [hres]
      exact .same _
    · simp only [hres, saveSuperblock_fs, saveInodeTable_fs]
      exact .created hfree
  | openFile f => exact .same _
  | deleteFile f =>
    rw [fsStep]
    rcases deleteFile_cases E s (f := f) with ⟨-, hres⟩ | ⟨i, -, hlookup, hres⟩
    · rw [hres]
      exact .same _
    · simp only [hres, saveSuperblock_fs, saveInodeTable_fs]
      exact .deleted hlookup
  | readFile inodeIndex out size =>
    rw [fsStep]
    simp only
    rw [readFile_fs]
    exact .same _
  | writeFile inodeIndex buffer size =>
    rw [fsStep]
    rcases writeFile_cases E s inodeIndex buffer size with ⟨-, hres⟩ | ⟨i, hm, rfl, hi, hres⟩
    · rw [hres]
      exact .same _
    · simp only [hres]
      rcases writeInode_cases E i buffer size s with ⟨hnone, -, hfs⟩ | ⟨-, hfs⟩
      · rw [hfs, firstSector_fs]
        refine .allocated buffer size hm hi fun hE => ?_
        obtain ⟨b, hb⟩ := hE (firstSector E i s).world
        rw [hnone] at hb
        cases hb
      · rw [hfs]
        exact .written buffer size hm hi
  | fileExists f => exact .same _
  | getFileSize f => exact .same _

/-! ## The inodes after a change -/

section Inodes

variable {fs : FileSystem} {i j : Fin 64}

theorem inodes_created_of_ne (f : CStr) (hji : j ≠ i) :
    (fs.created i f).inodes j = fs.inodes j := Function.update_of_ne hji _ _

theorem inodes_deleted_of_ne (hji : j ≠ i) : (fs.deleted i).inodes j = fs.inodes j :=
  Function.update_of_ne hji _ _

theorem inodes_written_of_ne (fs : FileSystem) (hji : j ≠ i) (size : UInt32) :
    (fs.written i size).inodes j = fs.inodes j := Function.update_of_ne hji _ _

/-- The inode after a write to it. -/
theorem inodes_written_self (fs : FileSystem) (i : Fin 64) (size : UInt32) :
    (fs.written i size).inodes i =
      { fs.inodes i with startSector := fs.writeStart i, size := size, modified := 0 } :=
  Function.update_self _ _ _

theorem inUse_created (f : CStr) : (fs.created i f).InUse j ↔ j = i ∨ fs.InUse j := by
  by_cases hji : j = i
  · rw [hji]
    simp [InUse, FileSystem.created, setInode, inodeTypeRegular, inodeTypeEmpty]
  · simp [InUse, FileSystem.created, setInode, hji]

theorem inUse_deleted : (fs.deleted i).InUse j ↔ j ≠ i ∧ fs.InUse j := by
  by_cases hji : j = i
  · rw [hji]
    simp [InUse, FileSystem.deleted, setInode]
  · simp [InUse, FileSystem.deleted, setInode, hji]

/-- A file with sectors after `CreateFile` is one from before it, -/
theorem file_of_created {f : CStr} (hj : (fs.created i f).InUse j)
    (h0 : ((fs.created i f).inodes j).startSector ≠ 0) :
    fs.InUse j ∧ (fs.created i f).inodes j = fs.inodes j := by
  have hji : j ≠ i := by
    rintro rfl
    simp [FileSystem.created, setInode] at h0
  exact ⟨((inUse_created f).mp hj).resolve_left hji, inodes_created_of_ne f hji⟩

/-- and so is a file after `DeleteFile`. -/
theorem file_of_deleted (hj : (fs.deleted i).InUse j) :
    fs.InUse j ∧ (fs.deleted i).inodes j = fs.inodes j := by
  rw [inUse_deleted] at hj
  exact ⟨hj.2, inodes_deleted_of_ne hj.1⟩

/-- A file with sectors after a call that writes no data is one from before it. -/
theorem FsChange.file_of_not_writeFile {σ : Type} {E : Env σ} {call : FsCall}
    {fs' : FileSystem} (h : FsChange E fs call fs')
    (hcall : ∀ i buffer size, call ≠ .writeFile i buffer size)
    (hj : fs'.InUse j) (h0 : (fs'.inodes j).startSector ≠ 0) :
    fs.InUse j ∧ fs'.inodes j = fs.inodes j := by
  cases h with
  | same => exact ⟨hj, rfl⟩
  | formatted label => exact absurd rfl hj
  | mounted _ b => exact ⟨hj, rfl⟩
  | created hfree => exact file_of_created hj h0
  | deleted hlookup => exact file_of_deleted hj
  | written buffer size => exact absurd rfl (hcall _ _ _)
  | allocated buffer size => exact absurd rfl (hcall _ _ _)

end Inodes

/-! ## Saving the metadata -/

section Saving

variable {σ : Type} (F : FaithfulEnv σ) (s : Sys σ)

/-- The data sectors (and the boot sector) are the same. -/
def DataSame (d d' : UInt32 → Sector) : Prop :=
  ∀ x : UInt32, 10 ≤ x.toNat ∨ x.toNat = 0 → d' x = d x

/-- Saving the superblock and then the inode table. -/
theorem saveInodeTable_saveSuperblock_spec :
    let w := (saveInodeTable F.toEnv (saveSuperblock F.toEnv s)).world
    Synced s.fs (F.disk w) ∧ DataSame (F.disk s.world) (F.disk w) := by
  refine ⟨⟨?_, fun sector hsec => ?_⟩, fun x hx => ?_⟩
  · rw [disk_saveInodeTable, if_neg (by decide), disk_saveSuperblock, Function.update_self]
  · have htab := toNat_tableSector hsec
    rw [disk_saveInodeTable, if_pos (by omega), htab, saveSuperblock_fs, Nat.add_sub_cancel_left]
  · have hx1 : x ≠ fsSuperblockSec := by
      rintro rfl
      exact absurd hx (by decide)
    rw [disk_saveInodeTable, if_neg (by omega), disk_saveSuperblock, Function.update_of_ne hx1]

/-- Saving the inode table and then the superblock. -/
theorem saveSuperblock_saveInodeTable_spec :
    let w := (saveSuperblock F.toEnv (saveInodeTable F.toEnv s)).world
    Synced s.fs (F.disk w) ∧ DataSame (F.disk s.world) (F.disk w) := by
  refine ⟨⟨?_, fun sector hsec => ?_⟩, fun x hx => ?_⟩
  · rw [disk_saveSuperblock, Function.update_self, saveInodeTable_fs]
  · have htab := toNat_tableSector hsec
    have hne : tableSector sector ≠ fsSuperblockSec := fun h => by
      have h1 : (tableSector sector).toNat = 1 := congrArg UInt32.toNat h
      omega
    rw [disk_saveSuperblock, Function.update_of_ne hne, disk_saveInodeTable, if_pos (by omega),
      htab, Nat.add_sub_cancel_left]
  · have hx1 : x ≠ fsSuperblockSec := by
      rintro rfl
      exact absurd hx (by decide)
    rw [disk_saveSuperblock, Function.update_of_ne hx1, disk_saveInodeTable, if_neg (by omega)]

/-- Only a write to a file changes data sectors. -/
theorem dataSame_of_not_writeFile {call : FsCall}
    (hcall : ∀ i buffer size, call ≠ .writeFile i buffer size) :
    DataSame (F.disk s.world) (F.disk (fsStep F.toEnv s call).1.world) := by
  unfold fsStep
  cases call with
  | format label =>
    exact (saveInodeTable_saveSuperblock_spec F { s with fs := s.fs.formatted label }).2
  | mount =>
    intro x hx
    rw [disk_mount]
  | unmount =>
    simp only
    rw [unmount]
    split
    · exact (saveInodeTable_saveSuperblock_spec F s).2
    · exact fun _ _ => rfl
  | createFile f =>
    simp only
    rcases createFile_cases F.toEnv s (f := f) with ⟨-, hres⟩ | ⟨i, -, -, -, hres⟩
    · rw [hres]
      exact fun _ _ => rfl
    · rw [hres]
      exact (saveSuperblock_saveInodeTable_spec F { s with fs := s.fs.created i f }).2
  | deleteFile f =>
    simp only
    rcases deleteFile_cases F.toEnv s (f := f) with ⟨-, hres⟩ | ⟨i, -, -, hres⟩
    · rw [hres]
      exact fun _ _ => rfl
    · rw [hres]
      exact (saveSuperblock_saveInodeTable_spec F { s with fs := s.fs.deleted i }).2
  | readFile i out size =>
    intro x hx
    rw [disk_readFile]
  | writeFile i buffer size => exact absurd rfl (hcall i buffer size)
  | openFile f => exact fun _ _ => rfl
  | fileExists f => exact fun _ _ => rfl
  | getFileSize f => exact fun _ _ => rfl

end Saving

/-! ## Extents below the mark -/

/-- Every file in use lies between the first data sector and the allocation mark, and
the mark is at most `B`. -/
structure Extents (B : ℕ) (fs : FileSystem) : Prop where
  mark_le : fs.mark ≤ B
  file : ∀ i, fs.InUse i → (fs.inodes i).startSector ≠ 0 →
    10 ≤ (fs.inodes i).startSector.toNat ∧ (fs.inodes i).startSector.toNat < fs.mark ∧
      (fs.inodes i).startSector.toNat + (sectorCount (fs.inodes i).size).toNat ≤ fs.mark

section Extents

variable {B : ℕ} {fs : FileSystem} {i index : Fin 64} {size : UInt32} {k : ℕ}

theorem extents_formatted (hB : 10 ≤ B) (fs : FileSystem) (label : CStr) :
    Extents B (fs.formatted label) :=
  ⟨hB, fun _ h => absurd rfl h⟩

theorem Extents.created (h : Extents B fs) (f : CStr) : Extents B (fs.created i f) := by
  refine ⟨h.mark_le, fun j hj hstart => ?_⟩
  obtain ⟨hj', hsame⟩ := file_of_created hj hstart
  rw [hsame] at hstart ⊢
  exact h.file j hj' hstart

theorem Extents.deleted (h : Extents B fs) : Extents B (fs.deleted i) := by
  refine ⟨h.mark_le, fun j hj hstart => ?_⟩
  obtain ⟨hj', hsame⟩ := file_of_deleted hj
  rw [hsame] at hstart ⊢
  exact h.file j hj' hstart

theorem mark_bumpUsed (h : fs.mark + k ≤ 2 ^ 32) : (fs.bumpUsed k).mark = fs.mark + k := by
  rw [mark] at h
  rw [mark, mark, bumpUsed]
  simp only
  rw [UInt32.toNat_add, toNat_ofNat_of_lt (by omega)]
  omega

/-- The mark after a write that stays below `B`. -/
theorem mark_add_allocCount_le (h : Extents B fs) (hbelow : fs.SectorsBelow B index size) :
    fs.mark + fs.allocCount index size ≤ B := by
  have hmark := h.mark_le
  have hlast := hbelow.1 (fs.allocCount index size - 1)
  omega

/-- The start of a write: the mark, unless the counter has overflowed, or where the
file is. -/
theorem toNat_writeStart (h : (fs.inodes index).startSector = 0 → fs.mark < 2 ^ 32) :
    (fs.writeStart index).toNat =
      if (fs.inodes index).startSector = 0 then fs.mark
      else (fs.inodes index).startSector.toNat := by
  rw [writeStart]
  split
  · next h0 =>
    have hlt := h h0
    have h10 : fsDataStartSec.toNat = 10 := rfl
    rw [mark] at hlt
    rw [UInt32.toNat_add, h10, mark, Nat.mod_eq_of_lt (by omega)]
  · rfl

/-- A write that stays below `B` starts below `B`. -/
theorem SectorsBelow.mark_lt (hbelow : fs.SectorsBelow B index size)
    (h0 : (fs.inodes index).startSector = 0) : fs.mark < B := by
  have hpos : 0 < fs.allocCount index size := by
    rw [allocCount, if_pos h0]
    omega
  have := hbelow.1 0 hpos
  omega

/-- Where a write that stays below `B` goes. -/
theorem Extents.writeStart_bounds (h : Extents B fs) (hB : B ≤ 2 ^ 32) (hi : fs.InUse index)
    (hbelow : fs.SectorsBelow B index size) :
    10 ≤ (fs.writeStart index).toNat ∧
      (fs.writeStart index).toNat < fs.mark + fs.allocCount index size ∧
      (fs.writeStart index).toNat + (sectorCount size).toNat ≤
        fs.mark + fs.allocCount index size := by
  rw [toNat_writeStart fun h0 => (hbelow.mark_lt h0).trans_le hB, allocCount]
  split
  · rw [mark]
    omega
  · next h0 =>
    have := h.file index hi h0
    omega

theorem Extents.written (h : Extents B fs) (hB : B ≤ 2 ^ 32) (hi : fs.InUse index)
    (hbelow : fs.SectorsBelow B index size) : Extents B (fs.written index size) := by
  have hle := mark_add_allocCount_le h hbelow
  have hmark : (fs.written index size).mark = fs.mark + fs.allocCount index size :=
    mark_bumpUsed (by omega)
  refine ⟨hmark ▸ hle, fun j hj hstart => ?_⟩
  rw [hmark]
  by_cases hji : j = index
  · subst hji
    rw [inodes_written_self]
    exact h.writeStart_bounds hB hi hbelow
  · have hsame := inodes_written_of_ne fs hji size
    rw [InUse, hsame] at hj
    rw [hsame] at hstart ⊢
    have := h.file j hj hstart
    omega

/-- A write that stays below `B` is on data sectors. -/
theorem Extents.onDataSectors (h : Extents B fs) (hB : B ≤ 2 ^ 32) (hi : fs.InUse index)
    (hbelow : fs.SectorsBelow B index size) : fs.OnDataSectors index size := by
  have hstart := h.writeStart_bounds hB hi hbelow
  have hle := mark_add_allocCount_le h hbelow
  exact ⟨hstart.1, by omega⟩

end Extents

/-! ## The metadata on the disk -/

/-- **The metadata on the disk is that of the object.** -/
structure Saved (fs : FileSystem) (d : UInt32 → Sector) : Prop where
  magic : fs.superblock.magic = fsMagic
  synced : Synced fs d

section Saved

variable {σ : Type} {F : FaithfulEnv σ} {s : Sys σ} {call : FsCall}

/-- `Format` saves the metadata, whatever the state was. -/
theorem saved_format (label : CStr) (s : Sys σ) :
    let t := (fsStep F.toEnv s (.format label)).1
    Saved t.fs (F.disk t.world) := by
  have hsave := saveInodeTable_saveSuperblock_spec F { s with fs := s.fs.formatted label }
  show Saved (fsStep F.toEnv s (.format label)).1.fs _
  rw [fs_format]
  exact ⟨rfl, hsave.1⟩

/-- `Mount` finds on the disk what the object holds. -/
theorem Saved.mount (h : Saved s.fs (F.disk s.world)) (raw : FileSystem) :
    (mount F.toEnv ⟨raw, s.world⟩).1 = true ∧
      (mount F.toEnv ⟨raw, s.world⟩).2.fs = { s.fs with mounted := true } := by
  have hmagic : (diskSuperblock (F.disk s.world)).magic = fsMagic := by
    rw [h.synced.diskSuperblock_eq, h.magic]
  obtain ⟨hok, hfs⟩ := mount_of_magic F ⟨raw, s.world⟩ hmagic
  rw [hfs, h.synced.diskSuperblock_eq, h.synced.diskInodes_eq]
  exact ⟨hok, rfl⟩

/-- **Every call keeps the metadata saved**, as long as no data goes to the metadata
sectors. -/
theorem Saved.step (h : Saved s.fs (F.disk s.world)) (hcall : WriteMeets OnDataSectors s call) :
    Saved (fsStep F.toEnv s call).1.fs (F.disk (fsStep F.toEnv s call).1.world) := by
  cases call with
  | format label => exact saved_format label s
  | mount =>
    have hfs := (h.mount s.fs).2
    have hdisk := disk_mount F s
    rw [fsStep]
    simp only at hfs ⊢
    rw [hfs, hdisk]
    exact ⟨h.magic, h.synced.superblock, h.synced.inodes⟩
  | unmount =>
    rw [fsStep, unmount]
    split
    · have hsave := saveInodeTable_saveSuperblock_spec F s
      simp only [saveInodeTable_fs, saveSuperblock_fs]
      exact ⟨h.magic, hsave.1.superblock, hsave.1.inodes⟩
    · exact h
  | createFile f =>
    rw [fsStep]
    rcases createFile_cases F.toEnv s (f := f) with ⟨-, hres⟩ | ⟨i, -, -, -, hres⟩
    · rw [hres]
      exact h
    · have hsave := saveSuperblock_saveInodeTable_spec F { s with fs := s.fs.created i f }
      simp only [hres, saveSuperblock_fs, saveInodeTable_fs]
      exact ⟨h.magic, hsave.1⟩
  | openFile f => exact h
  | deleteFile f =>
    rw [fsStep]
    rcases deleteFile_cases F.toEnv s (f := f) with ⟨-, hres⟩ | ⟨i, -, -, hres⟩
    · rw [hres]
      exact h
    · have hsave := saveSuperblock_saveInodeTable_spec F { s with fs := s.fs.deleted i }
      simp only [hres, saveSuperblock_fs, saveInodeTable_fs]
      exact ⟨h.magic, hsave.1⟩
  | readFile inodeIndex out size =>
    rw [fsStep]
    simp only
    rw [readFile_fs, disk_readFile]
    exact h
  | writeFile inodeIndex buffer size =>
    rw [fsStep]
    rcases writeFile_cases F.toEnv s inodeIndex buffer size with
      ⟨-, hres⟩ | ⟨i, hm, hidx, hi, hres⟩
    · rw [hres]
      exact h
    · obtain ⟨h10, hwrap⟩ := hcall hm i hidx hi
      have hfs := (writeInode_fs F.toEnv F.malloc_some i buffer size s).2
      have hdisk := writeInode_disk F i buffer size s h10 hwrap h.synced.superblock
      simp only [hres]
      rw [hfs]
      exact ⟨h.magic, hdisk.1⟩
  | fileExists f => exact h
  | getFileSize f => exact h

/-- While the metadata is saved, `Mount` is no exception. -/
theorem Saved.change (h : Saved s.fs (F.disk s.world)) (call : FsCall) :
    FsChange F.toEnv s.fs call (fsStep F.toEnv s call).1.fs := by
  by_cases hcall : call = .mount
  · subst hcall
    have hfs : (FileSystem.mount F.toEnv s).2.fs = { s.fs with mounted := true } :=
      (h.mount s.fs).2
    rw [fsStep]
    simp only
    rw [hfs]
    exact .mounted _ true
  · exact fsStep_change F.toEnv s hcall

/-- After a `Format`, every run that writes data to data sectors only keeps the metadata
saved. -/
theorem saved_run (label : CStr) {calls : List FsCall}
    (hok : Along (fsStep F.toEnv) (WriteMeets OnDataSectors) s (.format label :: calls)) :
    Saved (finalState (fsStep F.toEnv) s (.format label :: calls)).fs
      (F.disk (finalState (fsStep F.toEnv) s (.format label :: calls)).world) :=
  finalState_invariant (fun s => Saved s.fs (F.disk s.world)) (fun _ _ h hcall => h.step hcall)
    (saved_format label s) hok.2

/-- `Format` and `Mount` give a mounted object without files. -/
theorem fs_format_mount (F : FaithfulEnv σ) (label : CStr) (s : Sys σ) :
    (finalState (fsStep F.toEnv) s [.format label, .mount]).fs =
      { s.fs.formatted label with mounted := true } := by
  have hfs := fs_format F.toEnv s label
  have hmount := ((saved_format (F := F) label s).mount (fsStep F.toEnv s (.format label)).1.fs).2
  rw [hfs] at hmount
  exact hfs ▸ hmount

end Saved

/-! ## The invariant -/

/-- **The metadata is saved and the files lie below the allocation mark.** -/
structure Consistent (B : ℕ) (fs : FileSystem) (d : UInt32 → Sector) : Prop where
  saved : Saved fs d
  extents : Extents B fs

section Consistent

variable {σ : Type} {F : FaithfulEnv σ} {s : Sys σ} {B : ℕ} {call : FsCall}

/-- `Format` makes the state consistent, whatever it was. -/
theorem consistent_format (hB : 10 ≤ B) (label : CStr) (s : Sys σ) :
    let t := (fsStep F.toEnv s (.format label)).1
    Consistent B t.fs (F.disk t.world) := by
  refine ⟨saved_format label s, ?_⟩
  rw [fs_format]
  exact extents_formatted hB _ _

/-- The files after a call stay below the mark. -/
theorem Consistent.extents_step (hB : 10 ≤ B) (hB' : B ≤ 2 ^ 32)
    (h : Consistent B s.fs (F.disk s.world)) (hcall : CallBelow B s call) :
    Extents B (fsStep F.toEnv s call).1.fs := by
  have hchange := h.saved.change call
  generalize (fsStep F.toEnv s call).1.fs = fs' at hchange
  cases hchange with
  | same => exact h.extents
  | formatted label => exact extents_formatted hB _ _
  | mounted _ b => exact ⟨h.extents.mark_le, h.extents.file⟩
  | created hfree => exact h.extents.created _
  | deleted hlookup => exact h.extents.deleted
  | written buffer size hm hi => exact h.extents.written hB' hi (hcall hm _ rfl hi)
  | allocated buffer size hm hi hfull => exact absurd F.malloc_some hfull

/-- A call that stays below `B` writes data to data sectors. -/
theorem CallBelow.onDataSectors (hB : B ≤ 2 ^ 32) (h : Extents B s.fs)
    (hcall : CallBelow B s call) : WriteMeets OnDataSectors s call := by
  cases call with
  | writeFile inodeIndex buffer size =>
    exact fun hm i hidx hi => h.onDataSectors hB hi (hcall hm i hidx hi)
  | _ => trivial

/-- **Every call keeps the invariant**, as long as its sectors stay below `B`. -/
theorem Consistent.step (hB : 10 ≤ B) (hB' : B ≤ 2 ^ 32)
    (h : Consistent B s.fs (F.disk s.world)) (hcall : CallBelow B s call) :
    Consistent B (fsStep F.toEnv s call).1.fs (F.disk (fsStep F.toEnv s call).1.world) :=
  ⟨h.saved.step (hcall.onDataSectors hB' h.extents), h.extents_step hB hB' hcall⟩

/-- After a `Format`, every run below `B` keeps the invariant. -/
theorem consistent_run (hB : 10 ≤ B) (hB' : B ≤ 2 ^ 32) (label : CStr) {calls : List FsCall}
    (hok : Along (fsStep F.toEnv) (CallBelow B) s (.format label :: calls)) :
    Consistent B (finalState (fsStep F.toEnv) s (.format label :: calls)).fs
      (F.disk (finalState (fsStep F.toEnv) s (.format label :: calls)).world) :=
  finalState_invariant (fun s => Consistent B s.fs (F.disk s.world))
    (fun _ _ h hcall => h.step hB hB' hcall) (consistent_format hB label s) hok.2

end Consistent

/-! ## Durability -/

/-- **Durability by write-through.**  After a `Format` and any further calls, as long
as the data sectors are below `2 ^ 28`, a fresh object on the same disk can be mounted
and then holds the superblock and the inodes of the running one. -/
theorem durability {σ : Type} (F : FaithfulEnv σ) (s : Sys σ) (label : CStr)
    (calls : List FsCall)
    (hok : Along (fsStep F.toEnv) (CallBelow (2 ^ 28)) s (.format label :: calls))
    (raw : FileSystem) :
    let t := finalState (fsStep F.toEnv) s (.format label :: calls)
    let r := mount F.toEnv ⟨construct raw, t.world⟩
    r.1 = true ∧ r.2.fs.superblock = t.fs.superblock ∧ r.2.fs.inodes = t.fs.inodes := by
  obtain ⟨hres, hfs⟩ :=
    (consistent_run (by decide) (by decide) label hok).saved.mount (construct raw)
  refine ⟨hres, ?_⟩
  rw [hfs]
  exact ⟨rfl, rfl⟩

/-- A blank object. -/
def blank : FileSystem where
  inodes _ := ⟨fun _ => 0, 0, 0, 0, 0, 0⟩
  superblock := ⟨0, 0, 0, 0, fun _ => 0⟩
  mounted := false

/-- The file name `a`. -/
def nameA : CStr := ⟨[97], by decide⟩

/-- Durability after one small write. -/
theorem durability_after_write :
    let calls := [.mount, .createFile nameA, .writeFile 0 (fun _ => 7) 1]
    let t := finalState (fsStep idealEnv.toEnv) ⟨blank, fun _ _ => 0⟩ (.format nameA :: calls)
    let r := mount idealEnv.toEnv ⟨construct blank, t.world⟩
    r.1 = true ∧ r.2.fs.superblock = t.fs.superblock ∧ r.2.fs.inodes = t.fs.inodes :=
  durability idealEnv ⟨blank, fun _ _ => 0⟩ nameA
    [.mount, .createFile nameA, .writeFile 0 (fun _ => 7) 1] (by decide +kernel) blank

end FileSystem
