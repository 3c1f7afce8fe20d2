/-
# The shell: `shell.h`, `shell.cpp`

The commands that work on the file system and the disk.  They follow the source statement
by statement; what they print is a list of calls of the screen driver.  The file system
sees a command as at most one call of its own, except for the disk test, which writes a
sector behind its back.
-/
import HydraOS.FileData

/-! ## What the shell calls -/

/-- A call of the screen driver. -/
inductive VgaCall where
  | setColor (foreground background : UInt8)
  | print (text : List UInt8)
  | printHex (value : UInt8)
  | printNumber (value : UInt32)

/-- A block that `malloc` returned for a caller, with its present contents. -/
structure HeapBlock where
  ptr : ℕ
  data : ℕ → UInt8

/-- The services of the file system, `malloc` and `free` for blocks of any size, and the
`Identify` of the disk driver. -/
structure ShellEnv (σ : Type) extends Env σ where
  mallocBytes : UInt32 → σ → Option HeapBlock × σ
  freeBytes : HeapBlock → σ → σ
  identify : σ → σ

/-- A faithful drive with these services: they do not change the disk. -/
structure FaithfulShellEnv (σ : Type) extends FaithfulEnv σ, ShellEnv σ where
  disk_mallocBytes : ∀ size w, disk (mallocBytes size w).2 = disk w
  disk_freeBytes : ∀ block w, disk (freeBytes block w) = disk w
  disk_identify : ∀ w, disk (identify w) = disk w

/-- The file system and the world that the shell works on, and what it has printed. -/
structure Shell (σ : Type) where
  sys : Sys σ
  out : List VgaCall

namespace Shell

open FileSystem

/-! ## Printing -/

/-- `VGAColor`, the colours that the commands use. -/
def lightGreen : UInt8 := 10
def lightCyan : UInt8 := 11
def lightRed : UInt8 := 12
def lightBrown : UInt8 := 14
def white : UInt8 := 15

/-- `SetColor` on a black background. -/
def color (foreground : UInt8) : VgaCall := .setColor foreground 0

/-- `Print` of a string literal. -/
def text (s : String) : VgaCall := .print (s.toList.map fun c => c.toNat.toUInt8)

section Commands

variable {σ : Type} (E : ShellEnv σ)

/-- Calls of the screen driver. -/
def say (calls : List VgaCall) (s : Shell σ) : Shell σ := { s with out := s.out ++ calls }

@[simp] theorem say_sys (calls : List VgaCall) (s : Shell σ) : (s.say calls).sys = s.sys := rfl

/-! ## The commands -/

/-- The label `HydraOS`. -/
def label : CStr := ⟨[72, 121, 100, 114, 97, 79, 83], by decide⟩

/-- `CommandFormat`. -/
def commandFormat (s : Shell σ) : Shell σ :=
  let s := s.say [color lightBrown, text "Formatting file system...\n"]
  let (ok, sys) := format E.toEnv label s.sys
  let s := { s with sys := sys }
  if ok then s.say [color lightGreen, text "File system formatted successfully!\n"]
  else s.say [color lightRed, text "Failed to format file system.\n"]

/-- `CommandMount`. -/
def commandMount (s : Shell σ) : Shell σ :=
  let s := s.say [color lightCyan, text "Mounting file system...\n"]
  let (ok, sys) := mount E.toEnv s.sys
  let s := { s with sys := sys }
  if ok then s.say [color lightGreen, text "File system mounted successfully!\n"]
  else s.say [color lightRed, text "Failed to mount file system. Try 'format' first.\n"]

/-- The body of the loop of `CommandLs`. -/
def listInode (fs : FileSystem) (st : UInt32 × Shell σ) (i : Fin 64) : UInt32 × Shell σ :=
  if (fs.inodes i).type = inodeTypeRegular ∧ (fs.inodes i).name.get 0 ≠ 0 then
    (st.1 + 1, st.2.say [color white, text "  ", .print (fs.inodes i).name.string, text " (",
      .printNumber (fs.inodes i).size, text " bytes)\n"])
  else st

/-- `CommandLs`. -/
def commandLs (s : Shell σ) : Shell σ :=
  let s := s.say [color lightCyan, text "Files:\n"]
  let (count, s) := (List.finRange 64).foldl (listInode s.sys.fs) (0, s)
  let s := if count = 0 then
      s.say [color lightBrown, text "  (empty)\n",
        text "  Tip: Use 'format' and 'mount' if not done yet\n"]
    else s
  s.say [color white, text "Total: ", .printNumber count, text " file(s)\n"]

/-- `CommandTouch`. -/
def commandTouch (args : CStr) (s : Shell σ) : Shell σ :=
  if args.get 0 = 0 then s.say [color lightRed, text "Usage: touch <filename>\n"]
  else
    let (fd, sys) := createFile E.toEnv args s.sys
    let s := { s with sys := sys }
    if fd ≥ 0 then
      s.say [color lightGreen, text "File '", .print args.chars, text "' created.\n"]
    else
      s.say [color lightRed, text "Failed to create file.\n", color lightBrown,
        text "Make sure to run 'format' and 'mount' first.\n"]

/-- The text that `CommandWrite` writes to every file. -/
def testData : List UInt8 :=
  "Hello from HydraOS filesystem!\nThis is a test file.\n".toList.map fun c => c.toNat.toUInt8

/-- `CommandWrite`. -/
def commandWrite (args : CStr) (s : Shell σ) : Shell σ :=
  if args.get 0 = 0 then s.say [color lightRed, text "Usage: write <filename>\n"]
  else
    let fd := s.sys.fs.openFile args
    if fd < 0 then
      s.say [color lightRed, text "File not found. Use 'touch' to create it first.\n"]
    else
      let len : UInt32 := .ofNat testData.length
      let (r, sys) := writeFile E.toEnv fd (fun i => testData.getD i 0) len s.sys
      let s := { s with sys := sys }
      if r ≠ 0 then
        s.say [color lightGreen, text "Wrote ", .printNumber len, text " bytes to '",
          .print args.chars, text "'\n"]
      else s.say [color lightRed, text "Failed to write to file.\n"]

/-- `CommandCat`. -/
def commandCat (args : CStr) (s : Shell σ) : Shell σ :=
  if args.get 0 = 0 then s.say [color lightRed, text "Usage: cat <filename>\n"]
  else
    let fd := s.sys.fs.openFile args
    if fd < 0 then s.say [color lightRed, text "File not found.\n"]
    else
      let size := s.sys.fs.getFileSize args
      if size = 0 then s.say [color lightBrown, text "(empty file)\n"]
      else
        match E.mallocBytes (size + 1) s.sys.world with
        | (none, w) =>
          { s with sys := { s.sys with world := w } }.say [color lightRed, text "Out of memory.\n"]
        | (some buffer, w) =>
          let ((r, data), sys) :=
            readFile E.toEnv fd buffer.data size { s.sys with world := w }
          let s := { s with sys := sys }
          let (data, s) := if r ≠ 0 then
              let data := Function.update data size.toNat 0
              let chars := ((List.range (size.toNat + 1)).map data).takeWhile (· != 0)
              let s := s.say [color white, .print chars]
              (data, if data (size.toNat - 1) ≠ 10 then s.say [text "\n"] else s)
            else (data, s.say [color lightRed, text "Failed to read file.\n"])
          { s with sys := { s.sys with
            world := E.freeBytes { buffer with data := data } s.sys.world } }

/-- `CommandRm`. -/
def commandRm (args : CStr) (s : Shell σ) : Shell σ :=
  if args.get 0 = 0 then s.say [color lightRed, text "Usage: rm <filename>\n"]
  else
    let (ok, sys) := deleteFile E.toEnv args s.sys
    let s := { s with sys := sys }
    if ok then s.say [color lightGreen, text "File '", .print args.chars, text "' deleted.\n"]
    else s.say [color lightRed, text "Failed to delete file. File may not exist.\n"]

/-- The first 16 bytes of a buffer, as the disk test shows them. -/
def firstBytes (data : Sector) : List VgaCall :=
  (List.range 16).flatMap fun i => [.printHex (data.get i), text " "]

/-- What the disk test writes. -/
def testSector : Sector := Bytes.tabulate fun i => .ofNat (i % 256)

/-- `CommandDisk`. -/
def commandDisk (s : Shell σ) : Shell σ :=
  let s := s.say [color lightCyan, text "Testing ATA/IDE Disk Driver...\n\n", color white,
    text "Identifying primary master drive...\n"]
  let s := { s with sys := { s.sys with world := E.identify s.sys.world } }
  let s := s.say [color lightGreen, text "[OK] ", color white, text "Drive identified\n\n",
    text "Testing sector read (sector 0)...\n"]
  match E.malloc s.sys.world with
  | (none, w) =>
    { s with sys := { s.sys with world := w } }.say
      [color lightRed, text "[ERROR] ", color white, text "Failed to allocate buffer\n"]
  | (some buffer, w) =>
    let (buffer, w) := E.read28 0 buffer w
    let s := s.say ([color lightGreen, text "[OK] ", color white, text "Sector read complete\n",
      text "First 16 bytes: "] ++ firstBytes buffer.data ++ [text "\n\n"])
    -- sector 100 is meant to hold no important data
    let s := s.say [text "Testing sector write (sector 100)...\n"]
    let buffer := { buffer with data := testSector }
    let w := E.write28 100 buffer w
    let s := s.say [color lightGreen, text "[OK] ", color white, text "Sector write complete\n"]
    let (buffer, w) := E.read28 100 { buffer with data := fun _ => 0 } w
    let s := s.say ([text "Read back first 16 bytes: "] ++ firstBytes buffer.data ++ [text "\n"])
    let s := if buffer.data = testSector then
        s.say [color lightGreen, text "\n[SUCCESS] ", color white,
          text "Read/Write verification passed!\n"]
      else
        s.say [color lightRed, text "\n[FAILED] ", color white,
          text "Read/Write verification failed!\n"]
    { s with sys := { s.sys with world := E.free buffer w } }

/-- A command on the file system or the disk. -/
inductive Command where
  | format
  | mount
  | ls
  | touch (args : CStr)
  | write (args : CStr)
  | cat (args : CStr)
  | rm (args : CStr)
  | disk

/-- `ExecuteCommand` on these commands. -/
def executeCommand (s : Shell σ) : Command → Shell σ
  | .format => commandFormat E s
  | .mount => commandMount E s
  | .ls => commandLs s
  | .touch args => commandTouch E args s
  | .write args => commandWrite E args s
  | .cat args => commandCat E args s
  | .rm args => commandRm E args s
  | .disk => commandDisk E s

/-! ## What a command is for the file system -/

/-- The call of the file system that a command makes. -/
def callOf (fs : FileSystem) : Command → Option FsCall
  | .format => some (.format label)
  | .mount => some .mount
  | .touch args => if args.get 0 = 0 then none else some (.createFile args)
  | .write args =>
    if args.get 0 = 0 ∨ fs.openFile args < 0 then none
    else some (.writeFile (fs.openFile args) (fun i => testData.getD i 0) (.ofNat testData.length))
  | .rm args => if args.get 0 = 0 then none else some (.deleteFile args)
  | .ls | .cat _ | .disk => none

variable {E} {s : Shell σ} {command : Command}

theorem listInodes_sys (fs : FileSystem) (is : List (Fin 64)) (st : UInt32 × Shell σ) :
    (is.foldl (listInode fs) st).2.sys = st.2.sys := by
  induction is generalizing st with
  | nil => rfl
  | cons i is ih =>
    rw [List.foldl_cons, ih, listInode]
    split <;> rfl

@[simp] theorem commandLs_sys (s : Shell σ) : (commandLs s).sys = s.sys := by
  rw [commandLs]
  simp only
  rw [say_sys]
  split
  · rw [say_sys, listInodes_sys, say_sys]
  · rw [listInodes_sys, say_sys]

/-- **A command that makes a call of the file system** has its effect. -/
theorem executeCommand_of_call {call : FsCall} (h : callOf s.sys.fs command = some call) :
    (executeCommand E s command).sys = (fsStep E.toEnv s.sys call).1 := by
  cases command with
  | format =>
    cases h
    rw [executeCommand, commandFormat]
    simp only
    split <;> rfl
  | mount =>
    cases h
    rw [executeCommand, commandMount]
    simp only
    split <;> rfl
  | touch args =>
    rw [callOf] at h
    split at h
    · cases h
    · next hargs =>
      cases h
      rw [executeCommand, commandTouch]
      simp only
      rw [if_neg hargs]
      split <;> rfl
  | write args =>
    rw [callOf] at h
    split at h
    · cases h
    · next hargs =>
      rw [not_or] at hargs
      cases h
      rw [executeCommand, commandWrite]
      simp only
      rw [if_neg hargs.1, if_neg hargs.2]
      split <;> rfl
  | rm args =>
    rw [callOf] at h
    split at h
    · cases h
    · next hargs =>
      cases h
      rw [executeCommand, commandRm]
      simp only
      rw [if_neg hargs]
      split <;> rfl
  | ls => cases h
  | cat args => cases h
  | disk => cases h

/-- A command that makes no call of the file system, and is neither `cat` nor the disk test,
only prints. -/
theorem executeCommand_of_none (h : callOf s.sys.fs command = none)
    (hcat : ∀ args, command ≠ .cat args) (hdisk : command ≠ .disk) :
    (executeCommand E s command).sys = s.sys := by
  cases command with
  | format => cases h
  | mount => cases h
  | ls => rw [executeCommand, commandLs_sys]
  | touch args =>
    rw [callOf] at h
    split at h
    · next hargs =>
      rw [executeCommand, commandTouch]
      rw [if_pos hargs]
      rfl
    · cases h
  | write args =>
    rw [callOf] at h
    split at h
    · next hargs =>
      rw [executeCommand, commandWrite]
      simp only
      split
      · rfl
      · next hne =>
        rw [if_pos (hargs.resolve_left hne)]
        rfl
    · cases h
  | cat args => exact absurd rfl (hcat args)
  | rm args =>
    rw [callOf] at h
    split at h
    · next hargs =>
      rw [executeCommand, commandRm]
      rw [if_pos hargs]
      rfl
    · cases h
  | disk => exact absurd rfl hdisk

end Commands

section Faithful

variable {σ : Type} {F : FaithfulShellEnv σ} {s : Shell σ} {command : Command}

/-- `CommandCat` changes neither the file system nor the disk. -/
theorem commandCat_same (args : CStr) :
    (commandCat F.toShellEnv args s).sys.fs = s.sys.fs ∧
      F.disk (commandCat F.toShellEnv args s).sys.world = F.disk s.sys.world := by
  rw [commandCat]
  split
  · exact ⟨rfl, rfl⟩
  · simp only
    split
    · exact ⟨rfl, rfl⟩
    · split
      · exact ⟨rfl, rfl⟩
      · have hmalloc := F.disk_mallocBytes (s.sys.fs.getFileSize args + 1) s.sys.world
        generalize F.mallocBytes (s.sys.fs.getFileSize args + 1) s.sys.world = r at hmalloc ⊢
        obtain ⟨_ | buffer, w⟩ := r
        · exact ⟨rfl, hmalloc⟩
        · -- what was read and printed does not matter
          have hfs := readFile_fs F.toEnv ⟨s.sys.fs, w⟩ (s.sys.fs.openFile args) buffer.data
            (s.sys.fs.getFileSize args)
          have hread := disk_readFile ⟨s.sys.fs, w⟩ F.toFaithfulEnv (s.sys.fs.openFile args)
            buffer.data (s.sys.fs.getFileSize args)
          simp only
          generalize readFile F.toEnv (s.sys.fs.openFile args) buffer.data
            (s.sys.fs.getFileSize args) ⟨s.sys.fs, w⟩ = r at hfs hread ⊢
          obtain ⟨⟨n, data⟩, sys⟩ := r
          simp only at hfs hread ⊢
          rw [F.disk_freeBytes]
          split
          · split <;> exact ⟨hfs, hread.trans hmalloc⟩
          · exact ⟨hfs, hread.trans hmalloc⟩

/-- **Every other command but the disk test** changes neither the file system nor the
disk. -/
theorem executeCommand_same (h : callOf s.sys.fs command = none) (hdisk : command ≠ .disk) :
    (executeCommand F.toShellEnv s command).sys.fs = s.sys.fs ∧
      F.disk (executeCommand F.toShellEnv s command).sys.world = F.disk s.sys.world := by
  by_cases hcat : ∃ args, command = .cat args
  · obtain ⟨args, rfl⟩ := hcat
    exact commandCat_same args
  · rw [executeCommand_of_none h (fun args hargs => hcat ⟨args, hargs⟩) hdisk]
    exact ⟨rfl, rfl⟩

/-- **The disk test** writes sector 100 and changes nothing else. -/
theorem commandDisk_spec (F : FaithfulShellEnv σ) (s : Shell σ) :
    (commandDisk F.toShellEnv s).sys.fs = s.sys.fs ∧
      F.disk (commandDisk F.toShellEnv s).sys.world =
        Function.update (F.disk s.sys.world) 100 testSector := by
  obtain ⟨buffer, w, hmalloc, hw⟩ := F.malloc_spec (F.identify s.sys.world)
  have hbegin : F.disk w = F.disk s.sys.world := hw.trans (F.disk_identify _)
  rw [commandDisk]
  simp only [say_sys]
  rw [hmalloc]
  simp only
  rw [F.disk_free, F.disk_read28, F.disk_write28 _ _ _ (by decide), F.disk_read28, hbegin]
  refine ⟨?_, rfl⟩
  split <;> rfl

end Faithful

end Shell
