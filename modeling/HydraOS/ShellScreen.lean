/-
# What the shell prints: `shell.cpp` on `vga.cpp`

The texts of the shell and the calls of its commands, carried out by `VGATextMode` and, beside
it, on the page of the reference terminal.  A file may hold any bytes: from 0x80 on a `char` is
negative and stands on the screen in white on white.
-/
import HydraOS.CommandParser
import HydraOS.LineBuffer
import HydraOS.DecimalNumbers
import HydraOS.PrintedColors

open X86

/-! ## The texts -/

namespace Shell

def lightMagenta : UInt8 := 13
def lightBlue : UInt8 := 9

/-- A line of `CommandHelp`. -/
def helpLine (name about : String) : List VgaCall :=
  [color lightGreen, text name, color white, text about]

/-- `CommandHelp`. -/
def commandHelp : List VgaCall :=
  [color lightCyan, text "Available commands:\n", color white] ++
  helpLine "  help" "     - Show this help message\n" ++
  helpLine "  clear" "    - Clear the screen\n" ++
  helpLine "  echo" "     - Print text to the screen\n" ++
  helpLine "  uptime" "   - Show system uptime\n" ++
  helpLine "  about" "    - About HydraOS\n" ++
  helpLine "  meminfo" "  - Show memory information\n" ++
  helpLine "  uname" "    - Show system information\n" ++
  helpLine "  syscall" "  - Test system call interface\n" ++
  helpLine "  disk" "     - Test ATA/IDE disk operations\n" ++
  helpLine "  format" "   - Format the file system\n" ++
  helpLine "  mount" "    - Mount the file system\n" ++
  helpLine "  ls" "       - List files\n" ++
  helpLine "  touch" "    - Create a file\n" ++
  helpLine "  write" "    - Write text to a file\n" ++
  helpLine "  cat" "      - Display file contents\n" ++
  helpLine "  rm" "       - Delete a file\n" ++
  [text "\n", color lightBrown,
    text "Filesystem workflow: format -> mount -> touch/write/cat/rm\n"]

/-- `CommandAbout`. -/
def commandAbout : List VgaCall :=
  [color lightCyan, text "=====================================\n", color lightMagenta,
    text "         HydraOS v0.1\n", color lightCyan,
    text "=====================================\n", color white,
    text "A custom x86 operating system\n", text "Built from scratch in C++ and Assembly\n\n",
    color lightBrown, text "Author:\n", color lightGreen, text "  Shubham Phapale\n", color white,
    text "  GitHub: ShubhamPhapale\n\n", color lightBrown, text "Features:\n", color white,
    text "  - Protected mode with GDT\n", text "  - Interrupt handling (IDT, PIC)\n",
    text "  - VGA text mode with colors\n", text "  - Keyboard and mouse drivers\n",
    text "  - Heap memory management (10MB)\n", text "  - Programmable Interval Timer\n",
    text "  - Cooperative multitasking\n", text "  - System calls (int 0x80)\n",
    text "  - ATA/IDE disk driver\n", text "  - Simple inode-based filesystem\n",
    text "  - Interactive shell with 16 commands\n\n", color lightGreen, text "Developed: 2025\n",
    color white]

/-- `CommandMeminfo`. -/
def commandMeminfo : List VgaCall :=
  [color lightCyan, text "Memory Information:\n", color white,
    text "  Heap start: 0x00A00000 (10 MB)\n", text "  Heap size:  10 MB\n",
    text "  Allocation: First-fit with coalescing\n"]

/-- `CommandUname`. -/
def commandUname : List VgaCall :=
  [color lightCyan, text "HydraOS", color white, text " v0.1 x86 i686\n",
    text "Author: Shubham Phapale\n",
    text ("Features: multitasking, memory-management, vga, pit, shell, syscalls, ata, " ++
      "filesystem\n")]

/-- `CommandSyscall`. -/
def commandSyscall : List VgaCall :=
  [color lightCyan, text "Testing System Call Interface...\n\n", color white,
    text "System call interface has been initialized at interrupt 0x80.\n",
    text "The syscall handler is ready to handle:\n",
    text "  1. syscall_printf (print string)\n", text "  2. syscall_getchar (get character)\n",
    text "  3. syscall_exit (exit process)\n", text "  4. syscall_sleep (sleep)\n",
    text "  5. syscall_get_uptime (get uptime)\n", text "  6. syscall_malloc (allocate memory)\n",
    text "  7. syscall_free (free memory)\n\n", color lightGreen,
    text "System call infrastructure ready!\n", color lightBrown,
    text "Note: Software interrupts from kernel mode require\n",
    text "      proper privilege level configuration.\n", color white]

/-- The commands that print a fixed text. -/
def notice : Notice → List VgaCall
  | .help => commandHelp
  | .about => commandAbout
  | .meminfo => commandMeminfo
  | .uname => commandUname
  | .syscall => commandSyscall

/-- `PrintPrompt`. -/
def prompt : List VgaCall :=
  [color lightGreen, text "hydra", color white, text "@", color lightBlue, text "OS", color white,
    text " $ "]

/-- `Start`, up to its call of `PrintPrompt`. -/
def welcome : List VgaCall :=
  [color lightCyan, text "\n=====================================\n", color lightMagenta,
    text "  Welcome to HydraOS Shell v0.1\n", color lightCyan,
    text "=====================================\n", color white,
    text "Type 'help' for available commands\n", color lightBrown,
    text "Tip: Run 'format' then 'mount' to use filesystem\n\n", color white]

end Shell

/-! ## Calls of the screen driver -/

/-- A call, carried out.  `digits` is what the stack holds where `PrintNumber` has its buffer;
the texts that are printed do not lie in the video memory. -/
def VgaCall.onScreen (digits : Bytes 11) (k : Kernel) : VgaCall → Option Kernel
  | .setColor foreground background => some (VGATextMode.setColor foreground background k)
  | .print text => VGATextMode.print (fun _ i => text.getD i 0) k
  | .printHex value => some (VGATextMode.printHex value k)
  | .printNumber value => VGATextMode.printNumber 11 digits value k

/-- What a command does on the screen, carried out. -/
def ScreenCall.onScreen (digits : Bytes 11) (k : Kernel) : ScreenCall → Option Kernel
  | .notice n => (Shell.notice n).foldlM (VgaCall.onScreen digits) k
  | .clear => some (VGATextMode.clear k)
  | .vga call => call.onScreen digits k
  | .printHex32 value => some (VGATextMode.printHex32 value k)

/-! ## The page -/

namespace Terminal

/-- Any character: one that is not ASCII is written in white on white. -/
def putAny (c : UInt8) (t : Terminal) : Terminal :=
  if c < 0x80 then t.putChar c
  else
    let t := ({ t.write ⟨c, 15, 15⟩ with col := t.col + 1 }).wrap
    if t.row ≥ t.exposed then t.expose else t

def printAny (cs : List UInt8) (t : Terminal) : Terminal := cs.foldl (fun t c => t.putAny c) t

end Terminal

/-- The hexadecimal digits of a number, `n` of them. -/
def hexadecimal : ℕ → ℕ → List UInt8
  | 0, _ => []
  | n + 1, value => hexadecimal n (value / 16) ++ [hexDigit (.ofNat (value % 16))]

/-- A call on the page. -/
def VgaCall.onPage (t : Terminal) : VgaCall → Terminal
  | .setColor foreground background => t.setColor foreground background
  | .print text => t.printAny (text.takeWhile (· != 0))
  | .printHex value => t.print (hexadecimal 2 value.toNat)
  | .printNumber value => t.print (decimal value.toNat)

/-- What a command does on the page. -/
def ScreenCall.onPage (t : Terminal) : ScreenCall → Terminal
  | .notice n => (Shell.notice n).foldl VgaCall.onPage t
  | .clear => t.clear
  | .vga call => call.onPage t
  | .printHex32 value => t.print (hexadecimal 8 value.toNat)

/-! ## A character that is not ASCII -/

section Characters

variable {c0 : Crtc} {k k' : Kernel} {S : ℕ} {t u : Terminal} {c : UInt8} {cs : List UInt8}

open VGATextMode

/-- The sign of the character covers the colours. -/
theorem attrib_wide (vga : VGATextMode) (hc : ¬ c < 0x80) :
    vga.attrib ||| charBits c = Glyph.encode ⟨c, 15, 15⟩ := by
  have hlow : (vga.attrib ||| charBits c).toUInt8 = c := by
    rw [UInt16.toUInt8_or, toUInt8_attrib, toUInt8_charBits, UInt8.zero_or]
  have hhigh : highByte (vga.attrib ||| charBits c) = 0xFF := by
    have hones : ∀ x : UInt8, x ||| 0xFF = 0xFF := by decide +kernel
    rw [highByte_or, highByte_charBits, if_neg hc, hones]
  rw [← join_bytes (vga.attrib ||| charBits c)]
  change (vga.attrib ||| charBits c).toUInt8.toUInt16 |||
    (highByte (vga.attrib ||| charBits c)).toUInt16 <<< 8 = _
  have hcolors : (0xFF : UInt8).toUInt16 <<< 8 =
      (15 : UInt8).toUInt16 <<< 12 ||| (15 : UInt8).toUInt16 <<< 8 := rfl
  rw [hlow, hhigh, UInt16.or_comm, hcolors]
  rfl

/-- What `PutChar` does after the `switch`. -/
theorem View.afterSwitch
    (h : View ((VGATextMode.switchChar c k).2.setVga (VGATextMode.switchChar c k).1) S u)
    (hcol : u.wrap.col < 80) (hrow : u.wrap.row ≤ S + 25) :
    ∃ S', Shows c0 (VGATextMode.putChar c k) S'
      (if u.wrap.row ≥ u.wrap.exposed then u.wrap.expose else u.wrap) := by
  have hrow0 : u.row = S + (VGATextMode.switchChar c k).1.cursorY.toNat := h.row
  have hwrap := u.row_le_wrap
  have hbefore : View (beforeScroll c k) S u.wrap := h.wrapCursor (by omega)
  have hcol' := hbefore.col
  have hrow' := hbefore.row
  have hexposed' := hbefore.exposed
  have hy : (beforeScroll c k).dev.vga.cursorY ≥ 25 ↔
      25 ≤ (beforeScroll c k).dev.vga.cursorY.toNat := UInt8.le_iff_toNat_le
  rw [putChar_eq]
  by_cases hscroll : (beforeScroll c k).dev.vga.cursorY ≥ 25
  · have hge := hy.mp hscroll
    rw [if_pos hscroll, if_pos (by omega)]
    have hview := (hbefore.scroll (by omega)).1
    have hcol'' : u.wrap.col = _ := hview.col
    have hrow'' : u.wrap.row = _ := hview.row
    exact ⟨S + 1, hview.updateCursor (by omega) (by omega)⟩
  · have hlt := mt hy.mpr hscroll
    rw [if_neg hscroll, if_neg (by omega)]
    exact ⟨S, hbefore.updateCursor (by omega) (by omega)⟩

theorem switchChar_wide (hc : ¬ c < 0x80) : switchChar c k =
    ({ k.dev.vga with cursorX := k.dev.vga.cursorX + 1 },
      setCell (80 * k.dev.vga.cursorY.toNat + k.dev.vga.cursorX.toNat)
        (Glyph.encode ⟨c, 15, 15⟩) k) := by
  have hne {d : UInt8} (hd : d < 0x80) : c ≠ d := fun heq => hc (heq ▸ hd)
  rw [switchChar]
  simp only
  rw [if_neg (hne (by decide)), if_neg (hne (by decide)), if_neg (hne (by decide)),
    if_neg (hne (by decide)), attrib_wide _ hc]

/-- **`PutChar` of any character.** -/
theorem Shows.putAny (h : Shows c0 k S t) (c : UInt8) :
    ∃ S', Shows c0 (VGATextMode.putChar c k) S' (t.putAny c) := by
  rw [Terminal.putAny]
  split
  · next hc => exact ⟨_, (h.putChar hc).1⟩
  · next hc =>
    have hcol := h.col
    have hrow := h.row
    have hx := h.col_lt
    have hy := h.row_lt
    refine @View.afterSwitch c0 k S { t.write ⟨c, 15, 15⟩ with col := t.col + 1 } c ?_ ?_ ?_
    · rw [switchChar_wide hc]
      have hcells := h.cells_setCell (g := ⟨c, 15, 15⟩) hx hy
      refine ⟨h.foreground, h.background, ?_, h.row, h.exposed, ?_⟩
      · show t.col + 1 = (k.dev.vga.cursorX + 1).toNat
        rw [toNat_succ _ hx, hcol]
      · show ∀ r < 25, ∀ c' < 80, cell (setCell (80 * k.dev.vga.cursorY.toNat +
          k.dev.vga.cursorX.toNat) (Glyph.encode ⟨c, 15, 15⟩) k).mem (80 * r + c') =
            (if S + r = t.row ∧ c' = t.col then ⟨c, 15, 15⟩ else t.page (S + r) c').encode
        rw [hrow, hcol]
        exact hcells
    · rw [Terminal.wrap]
      split
      · exact Nat.zero_lt_succ _
      · next hlt => exact not_le.mp hlt
    · rw [Terminal.wrap]
      split
      · show t.row + 1 ≤ S + 25
        omega
      · show t.row ≤ S + 25
        omega

theorem Shows.printAny (h : Shows c0 k S t) (cs : List UInt8) :
    ∃ S', Shows c0 (cs.foldl (fun k c => VGATextMode.putChar c k) k) S' (t.printAny cs) := by
  induction cs generalizing k S t with
  | nil => exact ⟨S, h⟩
  | cons c cs ih =>
    obtain ⟨S', h'⟩ := h.putAny c
    exact ih h'

end Characters

/-! ## Numbers -/

section Numbers

variable {k : Kernel}

open VGATextMode

theorem hexDigit_lt {i : UInt8} (h : i < 16) : hexDigit i < 0x80 := by
  have hall : ∀ i : UInt8, i < 16 → hexDigit i < 0x80 := by decide +kernel
  exact hall i h

theorem hexadecimal_ascii (n value : ℕ) : ∀ c ∈ hexadecimal n value, c < 0x80 := by
  induction n generalizing value with
  | zero => exact fun c hc => absurd hc List.not_mem_nil
  | succ n ih =>
    intro c hc
    rcases List.mem_append.mp hc with hc | hc
    · exact ih _ c hc
    · rw [List.mem_singleton.mp hc]
      apply hexDigit_lt
      have h16 : (16 : UInt8).toNat = 16 := rfl
      have hlt : value % 16 < 16 := Nat.mod_lt _ (by decide)
      rw [UInt8.lt_iff_toNat_lt, h16, UInt8.toNat_ofNat']
      omega

/-- The digits of a number split at any place. -/
theorem hexadecimal_add (m n value : ℕ) :
    hexadecimal (m + n) value = hexadecimal m (value / 16 ^ n) ++ hexadecimal n value := by
  induction n generalizing value with
  | zero => simp [hexadecimal]
  | succ n ih =>
    rw [← Nat.add_assoc, hexadecimal, hexadecimal, ih, List.append_assoc, Nat.div_div_eq_div_mul,
      pow_succ']

/-- Digits further to the left do not matter. -/
theorem hexadecimal_mod (n value : ℕ) : hexadecimal n (value % 16 ^ n) = hexadecimal n value := by
  induction n generalizing value with
  | zero => rfl
  | succ n ih =>
    have hdiv : value % 16 ^ (n + 1) / 16 = value / 16 % 16 ^ n := by
      rw [pow_succ', Nat.mod_mul_right_div_self]
    have hmod : value % 16 ^ (n + 1) % 16 = value % 16 := by
      rw [pow_succ', Nat.mod_mul_right_mod]
    rw [hexadecimal, hexadecimal, hdiv, hmod, ih]

/-- `PrintHex` prints the two digits of the number. -/
theorem printHex_eq (value : UInt8) (k : Kernel) :
    printHex value k = (hexadecimal 2 value.toNat).foldl (fun k c => putChar c k) k := by
  have hdigits : ∀ v : UInt8, hexDigit ((v >>> 4) &&& 0x0F) = hexDigit (.ofNat (v.toNat / 16 % 16)) ∧
      hexDigit (v &&& 0x0F) = hexDigit (.ofNat (v.toNat % 16)) := by decide +kernel
  rw [printHex, (hdigits value).1, (hdigits value).2, hexadecimal, hexadecimal, hexadecimal,
    List.nil_append, List.singleton_append, List.foldl_cons, List.foldl_cons, List.foldl_nil]

theorem printHex16_eq (value : UInt16) (k : Kernel) :
    printHex16 value k = (hexadecimal 4 value.toNat).foldl (fun k c => putChar c k) k := by
  have hlt := value.toNat_lt
  have hhigh : ((value >>> 8) &&& 0xFF).toUInt8.toNat = value.toNat / 16 ^ 2 := by
    rw [UInt16.toNat_toUInt8, UInt16.toNat_and, UInt16.toNat_shiftRight]
    show (value.toNat >>> 8 &&& 2 ^ 8 - 1) % 2 ^ 8 = _
    rw [Nat.and_two_pow_sub_one_eq_mod, Nat.shiftRight_eq_div_pow]
    omega
  have hlow : (value &&& 0xFF).toUInt8.toNat = value.toNat % 16 ^ 2 := by
    rw [UInt16.toNat_toUInt8, UInt16.toNat_and]
    show (value.toNat &&& 2 ^ 8 - 1) % 2 ^ 8 = _
    rw [Nat.and_two_pow_sub_one_eq_mod]
    omega
  rw [printHex16, printHex_eq, printHex_eq, hhigh, hlow, hexadecimal_mod,
    hexadecimal_add 2 2, List.foldl_append]

theorem printHex32_eq (value : UInt32) (k : Kernel) :
    printHex32 value k = (hexadecimal 8 value.toNat).foldl (fun k c => putChar c k) k := by
  have hlt := value.toNat_lt
  have hhigh : ((value >>> 16) &&& 0xFFFF).toUInt16.toNat = value.toNat / 16 ^ 4 := by
    rw [UInt32.toNat_toUInt16, UInt32.toNat_and, UInt32.toNat_shiftRight]
    show (value.toNat >>> 16 &&& 2 ^ 16 - 1) % 2 ^ 16 = _
    rw [Nat.and_two_pow_sub_one_eq_mod, Nat.shiftRight_eq_div_pow]
    omega
  have hlow : (value &&& 0xFFFF).toUInt16.toNat = value.toNat % 16 ^ 4 := by
    rw [UInt32.toNat_toUInt16, UInt32.toNat_and]
    show (value.toNat &&& 2 ^ 16 - 1) % 2 ^ 16 = _
    rw [Nat.and_two_pow_sub_one_eq_mod]
    omega
  rw [printHex32, printHex16_eq, printHex16_eq, hhigh, hlow, hexadecimal_mod,
    hexadecimal_add 4 4, List.foldl_append]

/-- `PrintNumber` prints the decimal digits, whatever its buffer held. -/
theorem printNumber_eq (digits : Bytes 11) (value : UInt32) (k : Kernel) :
    printNumber 11 digits value k =
      some ((decimal value.toNat).foldl (fun k c => putChar c k) k) := by
  by_cases h0 : value = 0
  · rw [h0]
    rfl
  · have hpos : 0 < value.toNat := UInt32.lt_iff_toNat_lt.mp (UInt32.pos_iff_ne_zero.mpr h0)
    have hlt := value.toNat_lt
    obtain ⟨hlength, buffer, hstore, -, hbuffer⟩ := storeDigits_spec 10 11 value 0 digits
      (by omega) (by omega) (by omega)
    simp only [Nat.zero_add] at hstore hbuffer
    rw [printNumber, if_neg h0, hstore, decimal, if_neg hpos.ne']
    exact putDigits_eq (by omega) hbuffer k

theorem decimal_ascii (n : ℕ) : ∀ c ∈ decimal n, c < 0x80 := by
  intro c hc
  have h80 : (0x80 : UInt8).toNat = 128 := rfl
  have hdigit := (isDigit_decimal hc).2
  rw [UInt8.lt_iff_toNat_lt, h80]
  omega

end Numbers

/-! ## The calls -/

/-- The text of a call is short enough for the index of `Print`. -/
def VgaCall.Short : VgaCall → Prop
  | .print text => text.length < 2 ^ 31
  | _ => True

instance : DecidablePred VgaCall.Short
  | .print text => inferInstanceAs (Decidable (text.length < 2 ^ 31))
  | .setColor _ _ | .printHex _ | .printNumber _ => isTrue trivial

def ScreenCall.Short : ScreenCall → Prop
  | .vga call => call.Short
  | _ => True

section Calls

variable {c0 : Crtc} {k : Kernel} {S : ℕ} {t : Terminal} (digits : Bytes 11)

/-- `Print` of a text that does not lie in memory stops at its first NUL. -/
theorem forChars_takeWhile {str : CharPtr} {body : UInt8 → Kernel → Kernel} (text : List UInt8)
    {fuel i : ℕ} (hfuel : text.length < fuel) (hstr : ∀ m j, str m (i + j) = text.getD j 0)
    (k : Kernel) : forChars str body fuel i k =
      some ((text.takeWhile (· != 0)).foldl (fun k c => body c k) k) := by
  induction text generalizing fuel i k with
  | nil =>
    obtain ⟨fuel, rfl⟩ := Nat.exists_eq_succ_of_ne_zero (Nat.ne_of_gt hfuel)
    exact if_pos (hstr k.mem 0)
  | cons c text ih =>
    obtain ⟨fuel, rfl⟩ := Nat.exists_eq_succ_of_ne_zero (Nat.ne_of_gt (Nat.zero_lt_of_lt hfuel))
    rw [List.length_cons] at hfuel
    have hfirst : str k.mem i = c := hstr k.mem 0
    rw [forChars, hfirst]
    by_cases hc : c = 0
    · rw [if_pos hc, List.takeWhile_cons_of_neg (by simpa using hc)]
      rfl
    · rw [if_neg hc, List.takeWhile_cons_of_pos (by simpa using hc), List.foldl_cons]
      refine ih (by omega) (fun m j => ?_) (body c k)
      rw [Nat.add_assoc, Nat.add_comm 1 j, hstr m (j + 1), List.getD_cons_succ]

/-- **A call does on the screen what it does on the page.** -/
theorem Shows.call (h : Shows c0 k S t) {call : VgaCall} (hshort : call.Short) :
    ∃ k' S', call.onScreen digits k = some k' ∧ Shows c0 k' S' (call.onPage t) := by
  cases call with
  | setColor foreground background => exact ⟨_, S, rfl, h.setColor foreground background⟩
  | print text =>
    obtain ⟨S', h'⟩ := h.printAny (text.takeWhile (· != 0))
    have hprint := @forChars_takeWhile (fun _ i => text.getD i 0) VGATextMode.putChar text (2 ^ 31) 0
      hshort (fun m j => by rw [Nat.zero_add]) k
    exact ⟨_, S', hprint, h'⟩
  | printHex value =>
    have h' := (h.print (hexadecimal_ascii 2 value.toNat)).1
    rw [← printHex_eq] at h'
    exact ⟨_, _, rfl, h'⟩
  | printNumber value =>
    exact ⟨_, _, printNumber_eq digits value k, (h.print (decimal_ascii value.toNat)).1⟩

theorem Shows.calls (h : Shows c0 k S t) {calls : List VgaCall}
    (hshort : ∀ call ∈ calls, call.Short) :
    ∃ k' S', calls.foldlM (VgaCall.onScreen digits) k = some k' ∧
      Shows c0 k' S' (calls.foldl VgaCall.onPage t) := by
  induction calls generalizing k S t with
  | nil => exact ⟨k, S, rfl, h⟩
  | cons call calls ih =>
    rw [List.forall_mem_cons] at hshort
    obtain ⟨k', S', hk', h'⟩ := h.call digits hshort.1
    rw [List.foldlM_cons, hk']
    exact ih h' hshort.2

theorem short_notice (n : Notice) : ∀ call ∈ Shell.notice n, call.Short := by
  cases n <;> decide +kernel

/-- **What a command does on the screen** it does on the page. -/
theorem Shows.screenCalls (h : Shows c0 k S t) {calls : List ScreenCall}
    (hshort : ∀ call ∈ calls, call.Short) :
    ∃ k' S', calls.foldlM (ScreenCall.onScreen digits) k = some k' ∧
      Shows c0 k' S' (calls.foldl ScreenCall.onPage t) := by
  induction calls generalizing k S t with
  | nil => exact ⟨k, S, rfl, h⟩
  | cons call calls ih =>
    rw [List.forall_mem_cons] at hshort
    obtain ⟨k', S', hk', h'⟩ : ∃ k' S', call.onScreen digits k = some k' ∧
        Shows c0 k' S' (call.onPage t) := by
      cases call with
      | notice n => exact h.calls digits (short_notice n)
      | clear => exact ⟨_, 0, rfl, (shows_clear h.foreground h.background).1⟩
      | vga call => exact h.call digits hshort.1
      | printHex32 value =>
        have h' := (h.print (hexadecimal_ascii 8 value.toNat)).1
        rw [← printHex32_eq] at h'
        exact ⟨_, _, rfl, h'⟩
    rw [List.foldlM_cons, hk']
    exact ih h' hshort.2

end Calls
