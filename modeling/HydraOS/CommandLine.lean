/-
# Command lines: `Shell::ExecuteCommand`

The shell takes the first word of a line for the name of a command and passes it the rest.
Most commands only print; those on the file system and the disk are the ones of `Shell`, with
`CommandCat` on memory.  None of them leaves anything on the heap: after every line the chunk
list is what it was before.
-/
import HydraOS.CatBuffer

open FileSystem Shell

/-! ## Strings -/

/-- The loop of `Shell::strcmp` on two strings without their NUL: `true` for equal ones. -/
def strcmp : List UInt8 → List UInt8 → Bool
  | a :: str1, b :: str2 => if a ≠ b then false else strcmp str1 str2
  | str1, str2 => str1.headD 0 == str2.headD 0

theorem strcmp_iff {str1 str2 : List UInt8} (h1 : 0 ∉ str1) (h2 : 0 ∉ str2) :
    strcmp str1 str2 = true ↔ str1 = str2 := by
  induction str1 generalizing str2 with
  | nil =>
    cases str2 with
    | nil => simp [strcmp]
    | cons b str2 =>
      have hb : (0 : UInt8) ≠ b := fun hb => h2 (hb ▸ List.mem_cons_self)
      simp [strcmp, hb]
  | cons a str1 ih =>
    cases str2 with
    | nil =>
      have ha : a ≠ 0 := fun ha => h1 (ha ▸ List.mem_cons_self)
      simp [strcmp, ha]
    | cons b str2 =>
      rw [List.mem_cons, not_or] at h1 h2
      rw [strcmp, List.cons.injEq, ← ih h1.2 h2.2]
      split
      · next hab => simp [hab]
      · next hab =>
        rw [not_not] at hab
        simp [hab]

namespace CStr

/-- The string from its character `i` on. -/
def drop (s : CStr) (i : ℕ) : CStr :=
  ⟨s.chars.drop i, fun h => s.noNul (List.mem_of_mem_drop h)⟩

/-- The string after its leading spaces. -/
def skipSpaces (s : CStr) : CStr :=
  ⟨s.chars.dropWhile (· == 32), fun h => s.noNul ((List.dropWhile_sublist _).mem h)⟩

/-- What the loop copies into `cmd[64]`: the characters before the first space, at most 63. -/
def word (s : CStr) : CStr :=
  ⟨(s.chars.takeWhile (· != 32)).take 63,
    fun h => s.noNul ((List.takeWhile_sublist _).mem (List.mem_of_mem_take h))⟩

end CStr

/-! ## Commands -/

/-- The commands that print a fixed text. -/
inductive Notice where
  | help | about | meminfo | uname | syscall

/-- What a line asks for. -/
inductive LineCommand where
  | notice (n : Notice)
  | clear
  | echo (args : CStr)
  | uptime
  | file (command : Command)
  | unknown (cmd : CStr)

/-- What a command does on the screen. -/
inductive ScreenCall where
  | notice (n : Notice)
  | clear
  | vga (call : VgaCall)
  | printHex32 (value : UInt32)

namespace Pointer

/-- The name of a command is compared with a literal. -/
def isName (cmd : CStr) (name : String) : Bool :=
  strcmp cmd.chars (name.toList.map fun c => c.toNat.toUInt8)

/-- The chain of comparisons. -/
def dispatch (cmd args : CStr) : LineCommand :=
  if isName cmd "help" then .notice .help
  else if isName cmd "clear" || isName cmd "cls" then .clear
  else if isName cmd "echo" then .echo args
  else if isName cmd "uptime" then .uptime
  else if isName cmd "about" then .notice .about
  else if isName cmd "meminfo" then .notice .meminfo
  else if isName cmd "uname" then .notice .uname
  else if isName cmd "syscall" then .notice .syscall
  else if isName cmd "disk" then .file .disk
  else if isName cmd "format" then .file .format
  else if isName cmd "mount" then .file .mount
  else if isName cmd "ls" then .file .ls
  else if isName cmd "touch" then .file (.touch args)
  else if isName cmd "write" then .file (.write args)
  else if isName cmd "cat" then .file (.cat args)
  else if isName cmd "rm" then .file (.rm args)
  else .unknown cmd

/-- What a line asks for; `none` for an empty one. -/
def parse (command : CStr) : Option LineCommand :=
  let command := command.skipSpaces
  if command.chars.length = 0 then none
  else
    let cmd := command.word
    some (dispatch cmd (command.drop cmd.chars.length).skipSpaces)

example : parse ⟨[32, 99, 97, 116, 32, 32, 97], by decide⟩ =
    some (.file (.cat ⟨[97], by decide⟩)) := rfl

/-- `CommandUptime`, at `ms` milliseconds. -/
def commandUptime (ms : UInt32) : List ScreenCall :=
  let seconds := ms / 1000
  let minutes := seconds / 60
  let hours := minutes / 60
  let seconds := seconds % 60
  let minutes := minutes % 60
  let title : List VgaCall := [color lightCyan, text "System uptime: ", color white]
  let h : List VgaCall := if hours > 0 then [.printHex hours.toUInt8, text "h "] else []
  let m : List VgaCall :=
    if minutes > 0 ∨ hours > 0 then [.printHex minutes.toUInt8, text "m "] else []
  let sec : List VgaCall := [.printHex seconds.toUInt8, text "s ("]
  (title ++ h ++ m ++ sec).map .vga ++ [.printHex32 ms, .vga (text " ms)\n")]

section Execute

variable {σ : Type} (E : PointerEnv σ)

/-- The commands on the file system and the disk. -/
def fileCommand (s : Shell σ) : Command → Shell σ
  | .cat args => commandCat E args s
  | command => Shell.executeCommand E.toShellEnv s command

/-- The shell with everything it has done on the screen. -/
structure Console (σ : Type) where
  sys : Sys σ
  screen : List ScreenCall

/-- A command, at `ms` milliseconds. -/
def Console.execute (ms : UInt32) (s : Console σ) : LineCommand → Console σ
  | .notice n => { s with screen := s.screen ++ [.notice n] }
  | .clear => { s with screen := s.screen ++ [.clear] }
  | .echo args => { s with screen := s.screen ++ [.vga (.print args.chars), .vga (text "\n")] }
  | .uptime => { s with screen := s.screen ++ commandUptime ms }
  | .file command =>
    let r := fileCommand E ⟨s.sys, []⟩ command
    ⟨r.sys, s.screen ++ r.out.map .vga⟩
  | .unknown cmd =>
    { s with screen := s.screen ++ [.vga (color lightRed), .vga (text "Unknown command: "),
      .vga (color white), .vga (.print cmd.chars),
      .vga (text "\nType 'help' for available commands\n")] }

/-- `ExecuteCommand`, at `ms` milliseconds. -/
def Console.executeCommand (ms : UInt32) (command : CStr) (s : Console σ) : Console σ :=
  match parse command with
  | none => s
  | some c => s.execute E ms c

end Execute

/-! ## What a command leaves on the heap -/

section Keeps

variable {σ ι : Type} {E : ShellEnv σ} {I : ι → σ → Prop} {i : ι} {s : Shell σ}

/-- The disk test gives its buffer back. -/
theorem commandDisk_keeps (hE : E.Balanced I) (hid : ∀ i w, I i w → I i (E.identify w))
    (h : I i s.sys.world) : I i (commandDisk E s).sys.world := by
  rw [commandDisk]
  simp only [say_sys]
  rcases hE.malloc (hid i _ h) with ⟨w, hm, hw⟩ | ⟨buffer, w, j, hm, hw, hfree⟩
  · rw [hm]
    exact hw
  · rw [hm]
    simp only
    have hread := hE.read28 0 buffer hw
    refine hfree _ _ ?_ (hE.read28 _ _ (hE.write28 _ _ hread))
    rw [hE.read28_ptr]
    exact hE.read28_ptr 0 buffer w

/-- Every command on the file system but `cat` gives back what it takes. -/
theorem executeCommand_keeps (hE : E.Balanced I) (hid : ∀ i w, I i w → I i (E.identify w))
    (h : I i s.sys.world) {command : Command} (hcat : ∀ args, command ≠ .cat args) :
    I i (Shell.executeCommand E s command).sys.world := by
  rcases hcall : callOf s.sys.fs command with _ | call
  · by_cases hdisk : command = .disk
    · rw [hdisk]
      exact commandDisk_keeps hE hid h
    · rw [executeCommand_of_none hcall hcat hdisk]
      exact h
  · rw [executeCommand_of_call hcall]
    exact fsStep_keeps hE call h

end Keeps

/-! ## Command lines do not leak -/

section Heap

variable {δ : Type} {D : DiskService δ} {R : Region} {bs : List Block} {blocks : List (ℕ × ℕ)}

/-- Every command leaves the heap as it found it. -/
theorem fileCommand_sound {s : Shell (KernelWorld δ)} (command : Command)
    (hs : s.sys.world.heap.Sound R (fun _ _ => True) (bs, blocks)) :
    (fileCommand (kernelEnv D) s command).sys.world.heap.Sound R (fun _ _ => True)
      (bs, blocks) := by
  by_cases hcat : ∃ args, command = .cat args
  · obtain ⟨args, rfl⟩ := hcat
    exact commandCat_sound D args hs fun _ _ _ _ _ _ _ _ _ _ => trivial
  · have hfile : fileCommand (kernelEnv D) s command =
        Shell.executeCommand (kernelEnv D).toShellEnv s command := by
      cases command with
      | cat args => exact absurd ⟨args, rfl⟩ hcat
      | _ => rfl
    rw [hfile]
    exact executeCommand_keeps (kernelEnv_balanced D R fun _ _ => True) (fun _ _ h => h) hs
      fun args hargs => hcat ⟨args, hargs⟩

theorem Console.execute_sound {s : Console (KernelWorld δ)} (ms : UInt32) (c : LineCommand)
    (hs : s.sys.world.heap.Sound R (fun _ _ => True) (bs, blocks)) :
    (s.execute (kernelEnv D) ms c).sys.world.heap.Sound R (fun _ _ => True) (bs, blocks) := by
  cases c with
  | file command => exact @fileCommand_sound δ D R bs blocks ⟨s.sys, []⟩ command hs
  | notice n => exact hs
  | clear => exact hs
  | echo args => exact hs
  | uptime => exact hs
  | unknown cmd => exact hs

end Heap

/-- **Shell commands neither leak nor fragment the heap.**  For every heap, also one that has
no room for a buffer, every file system and disk and every command line, the command returns
and the chunk list after it is the one before it. -/
theorem command_keeps_chunkList {δ : Type} (D : DiskService δ) {R : Region} {h : Heap}
    {bs : List Block} (hl : Layout R h bs) (fs : FileSystem) (disk : δ) (ms : UInt32)
    (screen : List ScreenCall) (command : CStr) :
    let s : Console (KernelWorld δ) := ⟨⟨fs, ⟨⟨some h, []⟩, disk⟩⟩, screen⟩
    ∃ h', (s.executeCommand (kernelEnv D) ms command).sys.world.heap.heap = some h' ∧
      MemoryManager.chunkList h' = MemoryManager.chunkList h := by
  intro s
  have hs : s.sys.world.heap.Sound R (fun _ _ => True) (bs, []) :=
    ⟨⟨h, rfl, hl⟩, rfl, by simp, fun _ _ _ => trivial⟩
  have hsound : (s.executeCommand (kernelEnv D) ms command).sys.world.heap.Sound R
      (fun _ _ => True) (bs, []) := by
    rw [Console.executeCommand]
    split
    · exact hs
    · exact Console.execute_sound ms _ hs
  obtain ⟨⟨h', hheap, hl'⟩, -⟩ := hsound
  exact ⟨h', hheap, hl.chunkList_eq hl'⟩

/-- The line `cat a` on a volume whose file is too large for any block. -/
theorem command_keeps_chunkList_cat :
    let s : Console (KernelWorld (UInt32 → Sector)) :=
      ⟨⟨oneFile 0xFFFFFFFF, ⟨⟨some smallHeap, []⟩, fun _ _ => 0⟩⟩, []⟩
    let command : CStr := ⟨[99, 97, 116, 32, 97], by decide⟩
    ∃ h', (s.executeCommand (kernelEnv plainDisk) 0 command).sys.world.heap.heap = some h' ∧
      MemoryManager.chunkList h' = MemoryManager.chunkList smallHeap :=
  command_keeps_chunkList plainDisk layout_smallHeap (oneFile 0xFFFFFFFF) (fun _ _ => 0)
    0 [] ⟨[99, 97, 116, 32, 97], by decide⟩

end Pointer
