/-
# A session: from the keyboard to the screen

The keyboard's handler, `Shell::HandleKeyPress` and `Shell::ExecuteCommand` with all that the
commands print, run on any bytes from the keyboard.  Beside it a transcript: the page of the
reference terminal with the line of the reference editor under it.  The two agree throughout.
-/
import HydraOS.ShellScreen

open X86 Pointer

/-! ## The session -/

/-- What the stack holds where `ExecuteCommand` and `PrintNumber` have their arrays. -/
structure Stack where
  cmd : Bytes 64
  digits : Bytes 11

/-- The `Shell` object with its screen, and the file system and the world behind it. -/
structure ShellSession (σ : Type) where
  line : CommandLine
  sys : Sys σ

namespace ShellSession

section Code

open VGATextMode

variable {σ : Type} (E : PointerEnv σ) (stack : Stack)

/-- `ExecuteCommand(commandBuffer)`, at `ms` milliseconds.  The commands do not read the screen,
so what they do on it is carried out behind them. -/
def executeCommand (ms : UInt32) (commandBuffer : Bytes 256) (sys : Sys σ) (k : Kernel) :
    Option (Sys σ × Kernel) := do
  let command ← Parser.parse ⟨commandBuffer.string, Parser.noNul_string commandBuffer⟩ stack.cmd
  match command with
  | none => some (sys, k)
  | some command =>
    let console := (Console.mk sys []).execute E ms command
    let k ← console.screen.foldlM (ScreenCall.onScreen stack.digits) k
    some (console.sys, k)

/-- `HandleKeyPress`. -/
def handleKeyPress (ms : UInt32) (c : UInt8) (s : ShellSession σ) : Option (ShellSession σ) :=
  if c = 10 then do
    let k ← print (literal "\n") s.line.kernel
    let commandBuffer := s.line.commandBuffer.set s.line.bufferIndex.toNat 0
    let (sys, k) ← (if s.line.bufferIndex > 0 then executeCommand E stack ms commandBuffer s.sys k
      else some (s.sys, k))
    let k ← printPrompt k
    some ⟨⟨k, fun _ => 0, 0⟩, sys⟩
  else some { s with line := s.line.edit c }

/-- `KeyboardDriver::HandleInterrupt` with the handler of the kernel, on a byte of the keyboard. -/
def handleInterrupt (s : ShellSession σ) (event : UInt8 × UInt32) : Option (ShellSession σ) :=
  match keyChar event.1 with
  | some c => s.handleKeyPress E stack event.2 c
  | none => some s

/-- The constructor and `Start`. -/
def start (sys : Sys σ) (k : Kernel) : Option (ShellSession σ) := do
  let k ← Shell.welcome.foldlM (VgaCall.onScreen stack.digits) k
  let k ← printPrompt k
  some ⟨⟨k, fun _ => 0, 0⟩, sys⟩

end Code

end ShellSession

/-! ## The transcript -/

/-- The C string in some characters. -/
def CStr.upTo (cs : List UInt8) : CStr :=
  ⟨cs.takeWhile (· != 0), fun h => absurd (List.mem_takeWhile_imp h) (by simp)⟩

/-- A page, the line that is being typed, and the world of the commands. -/
structure Transcript (σ : Type) where
  page : Terminal
  line : List UInt8
  sys : Sys σ

namespace Transcript

/-- What a key other than Enter shows. -/
def echo (c : UInt8) (line : List UInt8) : List UInt8 :=
  if c = 8 then if line = [] then [] else [8]
  else if c = 9 then List.replicate (min 4 (255 - line.length)) 32
  else if line.length < 255 then [c] else []

section Reference

variable {σ : Type} (E : PointerEnv σ)

/-- A line, executed. -/
def execute (ms : UInt32) (line : List UInt8) (sys : Sys σ) : Console σ :=
  if line = [] then ⟨sys, []⟩ else (Console.mk sys []).executeCommand E ms (.upTo line)

/-- A character from the keyboard. -/
def key (ms : UInt32) (c : UInt8) (t : Transcript σ) : Transcript σ :=
  if c = 10 then
    let console := execute E ms t.line t.sys
    let page := console.screen.foldl ScreenCall.onPage (t.page.putChar 10)
    ⟨Shell.prompt.foldl VgaCall.onPage page, [], console.sys⟩
  else { t with
    page := t.page.print (echo c t.line)
    line := (Editor.key ⟨t.line, []⟩ c).line }

/-- A byte from the keyboard. -/
def event (t : Transcript σ) (event : UInt8 × UInt32) : Transcript σ :=
  match keyChar event.1 with
  | some c => t.key E event.2 c
  | none => t

/-- After `Start`, on what the screen showed before. -/
def start (sys : Sys σ) (k : Kernel) : Transcript σ :=
  ⟨(Shell.welcome ++ Shell.prompt).foldl VgaCall.onPage (.ofScreen k), [], sys⟩

end Reference

end Transcript

/-! ## The texts are short -/

section Short

variable {σ : Type} {s : Shell σ} {calls : List VgaCall}

open Shell

/-- All that has been printed is short. -/
def Shell.ShortOut (s : Shell σ) : Prop := ∀ call ∈ s.out, call.Short

theorem Shell.ShortOut.say (h : s.ShortOut) (hcalls : ∀ call ∈ calls, call.Short) :
    (s.say calls).ShortOut := by
  intro call hcall
  rcases List.mem_append.mp hcall with hcall | hcall
  · exact h call hcall
  · exact hcalls call hcall

theorem Shell.ShortOut.withSys (h : s.ShortOut) (sys : Sys σ) : Shell.ShortOut ⟨sys, s.out⟩ := h

/-- The argument of a command. -/
def Shell.Command.args : Command → List UInt8
  | .touch args | .write args | .cat args | .rm args => args.chars
  | .format | .mount | .ls | .disk => []

theorem Bytes.length_string_le {n : ℕ} (b : Bytes n) : b.string.length ≤ n := by
  have hle := (List.takeWhile_sublist (· != 0) (l := List.ofFn b)).length_le
  rwa [List.length_ofFn] at hle

theorem short_firstBytes (data : Sector) : ∀ call ∈ firstBytes data, call.Short := by
  intro call hcall
  obtain ⟨i, -, hcall⟩ := List.mem_flatMap.mp hcall
  rcases List.mem_cons.mp hcall with rfl | hcall
  · exact trivial
  · rw [List.mem_singleton.mp hcall]
    decide

theorem shortOut_commandLs (h : s.ShortOut) : (commandLs s).ShortOut := by
  have hround (fs : FileSystem) (st : UInt32 × Shell σ) (i : Fin 64) (hst : st.2.ShortOut) :
      (listInode fs st i).2.ShortOut := by
    rw [listInode]
    split
    · refine hst.say ?_
      have hname := Bytes.length_string_le (fs.inodes i).name
      simp only [List.forall_mem_cons, List.not_mem_nil, false_imp_iff, implies_true, and_true]
      refine ⟨trivial, by decide, ?_, by decide, trivial, by decide⟩
      show _ < _
      omega
    · exact hst
  have hrounds (fs : FileSystem) (is : List (Fin 64)) (st : UInt32 × Shell σ)
      (hst : st.2.ShortOut) : (is.foldl (listInode fs) st).2.ShortOut := by
    induction is generalizing st with
    | nil => exact hst
    | cons i is ih => exact ih _ (hround fs st i hst)
  rw [commandLs]
  simp only
  refine ShortOut.say ?_ ?_
  · have hlist := hrounds s.sys.fs (List.finRange 64)
      (0, s.say [color lightCyan, text "Files:\n"]) (h.say (by decide))
    split
    · exact hlist.say (by decide)
    · exact hlist
  · simp only [List.forall_mem_cons, List.not_mem_nil, false_imp_iff, implies_true, and_true]
    exact ⟨trivial, by decide, trivial, by decide⟩

theorem shortOut_commandDisk (E : ShellEnv σ) (h : s.ShortOut) : (commandDisk E s).ShortOut := by
  have hlist (pre : List VgaCall) (data : Sector) (post : List VgaCall)
      (hpre : ∀ call ∈ pre, call.Short) (hpost : ∀ call ∈ post, call.Short) :
      ∀ call ∈ pre ++ firstBytes data ++ post, call.Short := by
    intro call hcall
    rcases List.mem_append.mp hcall with hcall | hcall
    · rcases List.mem_append.mp hcall with hcall | hcall
      · exact hpre call hcall
      · exact short_firstBytes data call hcall
    · exact hpost call hcall
  rw [commandDisk]
  simp only [say_sys]
  split
  · exact ShortOut.say (ShortOut.say (h.say (by decide)) (by decide)) (by decide)
  · refine ShortOut.withSys ?_ _
    split
    · refine ShortOut.say (ShortOut.say (ShortOut.say (ShortOut.say (ShortOut.say (ShortOut.say
        (h.say (by decide)) (by decide)) ?_) (by decide)) (by decide)) ?_) (by decide)
      · exact hlist _ _ _ (by decide) (by decide)
      · exact hlist _ _ _ (by decide) (by decide)
    · refine ShortOut.say (ShortOut.say (ShortOut.say (ShortOut.say (ShortOut.say (ShortOut.say
        (h.say (by decide)) (by decide)) ?_) (by decide)) (by decide)) ?_) (by decide)
      · exact hlist _ _ _ (by decide) (by decide)
      · exact hlist _ _ _ (by decide) (by decide)

/-- What the commands other than `cat` print. -/
theorem shortOut_executeCommand (E : ShellEnv σ) (h : s.ShortOut) {command : Command}
    (hargs : command.args.length < 2 ^ 31) (hcat : ∀ args, command ≠ .cat args) :
    (Shell.executeCommand E s command).ShortOut := by
  have hwith (args : CStr) (hlen : args.chars.length < 2 ^ 31) (pre post : List VgaCall)
      (hpre : ∀ call ∈ pre, call.Short) (hpost : ∀ call ∈ post, call.Short) :
      ∀ call ∈ pre ++ .print args.chars :: post, call.Short := by
    intro call hcall
    rcases List.mem_append.mp hcall with hcall | hcall
    · exact hpre call hcall
    · rcases List.mem_cons.mp hcall with rfl | hcall
      · exact hlen
      · exact hpost call hcall
  cases command with
  | format =>
    rw [Shell.executeCommand, commandFormat]
    simp only
    split
    · exact ShortOut.say (h.say (by decide)) (by decide)
    · exact ShortOut.say (h.say (by decide)) (by decide)
  | mount =>
    rw [Shell.executeCommand, commandMount]
    simp only
    split
    · exact ShortOut.say (h.say (by decide)) (by decide)
    · exact ShortOut.say (h.say (by decide)) (by decide)
  | ls => exact shortOut_commandLs h
  | disk => exact shortOut_commandDisk E h
  | cat args => exact absurd rfl (hcat args)
  | touch args =>
    rw [Shell.executeCommand, commandTouch]
    split
    · exact h.say (by decide)
    · simp only
      split
      · exact (h.withSys _).say (hwith args hargs [color lightGreen, text "File '"]
          [text "' created.\n"] (by decide) (by decide))
      · exact (h.withSys _).say (by decide)
  | write args =>
    rw [Shell.executeCommand, commandWrite]
    split
    · exact h.say (by decide)
    · simp only
      split
      · exact h.say (by decide)
      · split
        · refine (h.withSys _).say (hwith args hargs
            [color lightGreen, text "Wrote ", .printNumber _, text " bytes to '"] [text "'\n"] ?_
            (by decide))
          simp only [List.forall_mem_cons, List.not_mem_nil, false_imp_iff, implies_true, and_true]
          exact ⟨trivial, by decide, trivial, by decide⟩
        · exact (h.withSys _).say (by decide)
  | rm args =>
    rw [Shell.executeCommand, commandRm]
    split
    · exact h.say (by decide)
    · simp only
      split
      · exact (h.withSys _).say (hwith args hargs [color lightGreen, text "File '"]
          [text "' deleted.\n"] (by decide) (by decide))
      · exact (h.withSys _).say (by decide)

/-- What `cat` prints on the kernel's heap: the text is not longer than its block. -/
theorem shortOut_commandCat {δ : Type} (D : DiskService δ) {R : Region} {bs : List Block}
    {blocks : List (ℕ × ℕ)} {s : Shell (KernelWorld δ)} (h : s.ShortOut) (args : CStr)
    (hs : s.sys.world.heap.Sound R (fun _ _ => True) (bs, blocks))
    (hsize : R.stop ≤ R.start + 2 ^ 31) : (Pointer.commandCat (kernelEnv D) args s).ShortOut := by
  rw [Pointer.commandCat]
  split
  · exact h.say (by decide)
  · simp only
    split
    · exact h.say (by decide)
    · next hfd =>
      split
      · exact h.say (by decide)
      · rcases kernelEnv_mallocBytes D hs (s.sys.fs.getFileSize args + 1) with
          ⟨w, hm, -⟩ | ⟨block, w, bs', hm, hw, ⟨_, _, -, -, hl'⟩, -⟩
        · rw [hm]
          exact (h.withSys _).say (by decide)
        · rw [hm]
          simp only
          obtain ⟨i, hi⟩ := exists_lookup_of_openFile hfd
          have hfile : s.sys.fs.getFileSize args = (s.sys.fs.inodes i).size := by
            rw [FileSystem.getFileSize, hi]
          rw [readFile_of_lookup (kernelEnv D) { s.sys with world := w } hi]
          rw [hfile] at hw ⊢
          obtain ⟨b, hb, -, -, hn⟩ := hw.blocks _ List.mem_cons_self
          have hbounds := hl'.tiles.bounds hb
          have hn1 : (s.sys.fs.inodes i).size.toNat + 511 < 2 ^ 32 →
              ((s.sys.fs.inodes i).size + 1).toNat = (s.sys.fs.inodes i).size.toNat + 1 :=
            fun hwrap => by
              have h1 : (1 : UInt32).toNat = 1 := rfl
              rw [UInt32.toNat_add, h1]
              omega
          obtain ⟨-, hzero⟩ := readInode_sound D (s := { s.sys with world := w }) hw
            List.mem_cons_self (fun _ _ => trivial) fun hwrap => by rw [hn1 hwrap]; omega
          generalize readInode (kernelEnv D) (s.sys.fs.inodes i) block.ptr
            (s.sys.fs.inodes i).size { s.sys with world := w } = r at hzero ⊢
          obtain ⟨r, sys⟩ := r
          simp only at hzero ⊢
          refine ShortOut.withSys ?_ _
          split
          · next hr =>
            have hwrap : (s.sys.fs.inodes i).size.toNat + 511 < 2 ^ 32 := by
              by_contra hwrap
              exact hr (hzero hwrap)
            have hprint (cs : List UInt8) (hcs : cs.length = (s.sys.fs.inodes i).size.toNat + 1) :
                ∀ call ∈ [color white, .print (cs.takeWhile (· != 0))], call.Short := by
              simp only [List.forall_mem_cons, List.not_mem_nil, false_imp_iff, implies_true,
                and_true]
              refine ⟨trivial, ?_⟩
              have hle := (List.takeWhile_sublist (· != 0) (l := cs)).length_le
              show _ < _
              rw [hn1 hwrap] at hn
              omega
            have hrange (f : ℕ → UInt8) : ((List.range ((s.sys.fs.inodes i).size.toNat + 1)).map
                f).length = (s.sys.fs.inodes i).size.toNat + 1 := by
              rw [List.length_map, List.length_range]
            split
            · refine ShortOut.say (ShortOut.say ?_ (hprint _ (hrange _))) (by decide)
              exact h
            · refine ShortOut.say ?_ (hprint _ (hrange _))
              exact h
          · exact (h.withSys _).say (by decide)

/-- The argument of a line. -/
def Pointer.LineCommand.args : LineCommand → List UInt8
  | .echo args => args.chars
  | .file command => command.args
  | .unknown cmd => cmd.chars
  | .notice _ | .clear | .uptime => []

/-- The argument is a part of the line. -/
theorem length_args_le {line : CStr} {c : LineCommand} (h : parse line = some c) :
    c.args.length ≤ line.chars.length := by
  have hskip (s : CStr) : s.skipSpaces.chars.length ≤ s.chars.length :=
    (List.dropWhile_sublist (· == 32) (l := s.chars)).length_le
  have hword (s : CStr) : s.word.chars.length ≤ s.chars.length := by
    have hle := (List.takeWhile_sublist (· != 32) (l := s.chars)).length_le
    rw [CStr.word, List.length_take]
    omega
  have hdispatch (cmd args : CStr) (n : ℕ) (hcmd : cmd.chars.length ≤ n)
      (hargs : args.chars.length ≤ n) : (dispatch cmd args).args.length ≤ n := by
    have hlookup (names : List (CStr × LineCommand)) (h : ∀ e ∈ names, e.2.args.length ≤ n) :
        (Parser.lookup cmd names).args.length ≤ n := by
      induction names with
      | nil => exact hcmd
      | cons e names ih =>
        rw [List.forall_mem_cons] at h
        rw [Parser.lookup]
        split
        · exact h.1
        · exact ih h.2
    rw [← Parser.lookup_commands]
    apply hlookup
    simp only [Parser.commands, List.forall_mem_cons, List.not_mem_nil, false_imp_iff, implies_true,
      and_true]
    and_intros <;> first | exact hargs | exact Nat.zero_le n
  rw [parse] at h
  simp only at h
  split at h
  · cases h
  · cases h
    refine hdispatch _ _ _ ((hword _).trans (hskip _)) ((hskip _).trans ?_)
    rw [CStr.drop, List.length_drop]
    exact (Nat.sub_le _ _).trans (hskip _)

theorem short_commandUptime (ms : UInt32) : ∀ call ∈ commandUptime ms, call.Short := by
  have htwo (v : UInt8) (t : VgaCall) (ht : t.Short) : ∀ call ∈ [.printHex v, t], call.Short := by
    simp only [List.forall_mem_cons, List.not_mem_nil, false_imp_iff, implies_true, and_true]
    exact ⟨trivial, ht⟩
  have hif (p : Prop) [Decidable p] (calls : List VgaCall) (h : ∀ call ∈ calls, call.Short) :
      ∀ call ∈ if p then calls else [], call.Short := by
    split
    · exact h
    · exact fun call hcall => absurd hcall List.not_mem_nil
  rw [commandUptime]
  simp only [List.forall_mem_append, List.forall_mem_map]
  refine ⟨⟨⟨⟨?_, ?_⟩, ?_⟩, ?_⟩, ?_⟩
  · exact show ∀ call ∈ [color lightCyan, text "System uptime: ", color white], call.Short by decide
  · exact hif _ _ (htwo _ _ (by decide))
  · exact hif _ _ (htwo _ _ (by decide))
  · exact htwo _ _ (by decide)
  · simp only [List.forall_mem_cons, List.not_mem_nil, false_imp_iff, implies_true, and_true]
    exact ⟨trivial, show VgaCall.Short (text " ms)\n") by decide⟩

/-- **What a command prints is short**, on a heap of at most `2 ^ 31` bytes. -/
theorem short_execute {δ : Type} (D : DiskService δ) {R : Region} {bs : List Block}
    {blocks : List (ℕ × ℕ)} {sys : Sys (KernelWorld δ)}
    (hs : sys.world.heap.Sound R (fun _ _ => True) (bs, blocks))
    (hsize : R.stop ≤ R.start + 2 ^ 31) (ms : UInt32) {c : LineCommand}
    (hargs : c.args.length < 2 ^ 31) :
    ∀ call ∈ ((Console.mk sys []).execute (kernelEnv D) ms c).screen, call.Short := by
  have hempty : Shell.ShortOut ⟨sys, []⟩ := fun call hcall => absurd hcall List.not_mem_nil
  have hvga (calls : List VgaCall) (h : ∀ call ∈ calls, call.Short) :
      ∀ call ∈ ([] : List ScreenCall) ++ calls.map .vga, call.Short := by
    rw [List.nil_append]
    intro call hcall
    obtain ⟨c, hc, rfl⟩ := List.mem_map.mp hcall
    exact h c hc
  cases c with
  | notice n => exact fun call hcall => by rw [List.mem_singleton.mp hcall]; trivial
  | clear => exact fun call hcall => by rw [List.mem_singleton.mp hcall]; trivial
  | echo args =>
    refine hvga [.print args.chars, text "\n"] ?_
    simp only [List.forall_mem_cons, List.not_mem_nil, false_imp_iff, implies_true, and_true]
    exact ⟨hargs, by decide⟩
  | uptime => exact short_commandUptime ms
  | unknown cmd =>
    refine hvga [color lightRed, text "Unknown command: ", color white, .print cmd.chars,
      text "\nType 'help' for available commands\n"] ?_
    simp only [List.forall_mem_cons, List.not_mem_nil, false_imp_iff, implies_true, and_true]
    exact ⟨trivial, by decide, trivial, hargs, by decide⟩
  | file command =>
    refine hvga _ ?_
    by_cases hcat : ∃ args, command = .cat args
    · obtain ⟨args, rfl⟩ := hcat
      exact shortOut_commandCat D hempty args hs hsize
    · have hshort := shortOut_executeCommand (kernelEnv D).toShellEnv hempty hargs
        fun args hargs => hcat ⟨args, hargs⟩
      cases command with
      | cat args => exact absurd ⟨args, rfl⟩ hcat
      | _ => exact hshort

end Short

/-! ## The transcript is what happens -/

section Mirror

variable {δ : Type} {D : DiskService δ} {R : Region} {bs : List Block} {c0 : Crtc} {k : Kernel}
  {S : ℕ} {page : Terminal} {s : ShellSession (KernelWorld δ)} {t : Transcript (KernelWorld δ)}
  {stack : Stack} {sys : Sys (KernelWorld δ)} {c : UInt8}

open VGATextMode

/-- **The session is at the transcript.** -/
structure Mirrors (c0 : Crtc) (R : Region) (bs : List Block) (t : Transcript (KernelWorld δ))
    (s : ShellSession (KernelWorld δ)) : Prop where
  page : ∃ S, Shows c0 s.line.kernel S t.page
  line : ∃ r submitted, r.line = s.line ∧ Recorded.Follows r ⟨t.line, submitted⟩
  sys : s.sys = t.sys
  heap : t.sys.world.heap.Sound R (fun _ _ => True) (bs, [])

/-- A literal printed in a color. -/
theorem foldlM_colored {digits : Bytes 11} {foreground : UInt8} {str : String}
    {calls : List VgaCall} :
    (Shell.color foreground :: Shell.text str :: calls).foldlM (VgaCall.onScreen digits) k =
      (print (literal str) (setColor foreground black k)).bind
        (calls.foldlM (VgaCall.onScreen digits)) := rfl

/-- The prompt is printed by calls of the screen driver. -/
theorem printPrompt_calls (digits : Bytes 11) (k : Kernel) :
    printPrompt k = Shell.prompt.foldlM (VgaCall.onScreen digits) k := by
  unfold printPrompt
  rw [Shell.prompt, foldlM_colored]
  refine Option.bind_congr fun k _ => ?_
  rw [foldlM_colored]
  refine Option.bind_congr fun k _ => ?_
  rw [foldlM_colored]
  refine Option.bind_congr fun k _ => ?_
  rw [foldlM_colored]
  exact (Option.bind_fun_some _).symm

theorem short_prompt : ∀ call ∈ Shell.prompt, call.Short := by decide +kernel

theorem short_welcome : ∀ call ∈ Shell.welcome, call.Short := by decide +kernel

/-- A line that is executed. -/
theorem shows_execute (hsize : R.stop ≤ R.start + 2 ^ 31) (h : Shows c0 k S page)
    (hs : sys.world.heap.Sound R (fun _ _ => True) (bs, [])) {commandBuffer : Bytes 256}
    {line : List UInt8} (hline : HoldsString commandBuffer line) (ms : UInt32) :
    let console := (Console.mk sys []).executeCommand (kernelEnv D) ms (.upTo line)
    ∃ k' S', ShellSession.executeCommand (kernelEnv D) stack ms commandBuffer sys k =
        some (console.sys, k') ∧ Shows c0 k' S' (console.screen.foldl ScreenCall.onPage page) ∧
      console.sys.world.heap.Sound R (fun _ _ => True) (bs, []) := by
  have hstr : (⟨commandBuffer.string, Parser.noNul_string commandBuffer⟩ : CStr) = .upTo line := by
    apply CStr.ext
    show commandBuffer.string = line.takeWhile (· != 0)
    rw [hline.string_eq]
    symm
    rw [List.takeWhile_eq_self_iff]
    intro c hc
    simpa using fun h0 : c = 0 => hline.noNul (h0 ▸ hc)
  rw [ShellSession.executeCommand, hstr, Parser.parse_eq]
  simp only [Option.bind_eq_bind, Option.bind_some, Console.executeCommand]
  cases hparse : parse (.upTo line) with
  | none => exact ⟨k, S, rfl, h, hs⟩
  | some command =>
    have hargs : command.args.length < 2 ^ 31 := by
      have hle := length_args_le hparse
      have hlen : (CStr.upTo line).chars.length ≤ line.length :=
        (List.takeWhile_sublist (· != 0) (l := line)).length_le
      have hlt := hline.length_lt
      omega
    obtain ⟨k', S', hk', h'⟩ := h.screenCalls stack.digits
      (short_execute D hs hsize ms hargs)
    simp only [hk', Option.bind_some]
    exact ⟨k', S', rfl, h', Console.execute_sound ms command hs⟩

/-- **Enter.** -/
theorem Mirrors.enter (hsize : R.stop ≤ R.start + 2 ^ 31) (h : Mirrors c0 R bs t s) (ms : UInt32) :
    ∃ s', s.handleKeyPress (kernelEnv D) stack ms 10 = some s' ∧
      Mirrors c0 R bs (t.key (kernelEnv D) ms 10) s' := by
  obtain ⟨S, hpage⟩ := h.page
  obtain ⟨r, submitted, hr, hfollows⟩ := h.line
  have hnewline := (hpage.putChar (show (10 : UInt8) < 0x80 by decide)).1
  have hpos : s.line.bufferIndex > 0 ↔ t.line ≠ [] := by
    rw [← hr, ← List.length_pos_iff, ← hfollows.index]
    exact UInt8.lt_iff_toNat_lt
  have hexecute : ∃ k' S', (if s.line.bufferIndex > 0 then
        ShellSession.executeCommand (kernelEnv D) stack ms
          (s.line.commandBuffer.set s.line.bufferIndex.toNat 0) s.sys (putChar 10 s.line.kernel)
      else some (s.sys, putChar 10 s.line.kernel)) =
        some ((Transcript.execute (kernelEnv D) ms t.line t.sys).sys, k') ∧
      Shows c0 k' S' ((Transcript.execute (kernelEnv D) ms t.line t.sys).screen.foldl
        ScreenCall.onPage (t.page.putChar 10)) ∧
      (Transcript.execute (kernelEnv D) ms t.line t.sys).sys.world.heap.Sound R (fun _ _ => True)
        (bs, []) := by
    rw [Transcript.execute]
    by_cases hnil : t.line = []
    · rw [if_neg (mt hpos.mp (not_not.mpr hnil)), if_pos hnil, h.sys]
      exact ⟨_, _, rfl, hnewline, h.heap⟩
    · rw [if_pos (hpos.mpr hnil), if_neg hnil, h.sys]
      have hholds := hfollows.holdsString
      rw [hr] at hholds
      exact shows_execute hsize hnewline h.heap hholds ms
  obtain ⟨k', S', hk', hshows, hheap⟩ := hexecute
  obtain ⟨k'', S'', hk'', hprompt⟩ := hshows.calls stack.digits short_prompt
  rw [← printPrompt_calls] at hk''
  have hkey : t.key (kernelEnv D) ms 10 =
      ⟨Shell.prompt.foldl VgaCall.onPage ((Transcript.execute (kernelEnv D) ms t.line
        t.sys).screen.foldl ScreenCall.onPage (t.page.putChar 10)), [],
        (Transcript.execute (kernelEnv D) ms t.line t.sys).sys⟩ := by
    rw [Transcript.key, if_pos rfl]
  rw [hkey]
  generalize Transcript.execute (kernelEnv D) ms t.line t.sys = console at hk' hprompt hheap ⊢
  refine ⟨⟨⟨k'', fun _ => 0, 0⟩, console.sys⟩, ?_, ?_⟩
  · rw [ShellSession.handleKeyPress, if_pos rfl, Recorded.print_newline]
    simp only [Option.bind_eq_bind, Option.bind_some, hk', hk'']
  · refine ⟨⟨S'', ?_⟩, ⟨.start k'', [], rfl, Recorded.follows_start k''⟩, rfl, hheap⟩
    simp only
    exact hprompt

/-- What a key other than Enter does on the screen. -/
theorem kernel_edit (line : CommandLine) (c : UInt8) :
    (line.edit c).kernel = (line.echo c).foldl (fun k c => putChar c k) line.kernel := by
  have htype (cs : List UInt8) (line : CommandLine) :
      (cs.foldl (fun s c => s.type c) line).kernel =
        cs.foldl (fun k c => putChar c k) line.kernel := by
    induction cs generalizing line with
    | nil => rfl
    | cons c cs ih => exact ih (line.type c)
  by_cases hc : c = 8
  · rw [CommandLine.edit, CommandLine.echo, if_pos hc, if_pos hc]
    split <;> rfl
  · rw [CommandLine.edit_of_ne hc, htype]

theorem echo_eq {line : List UInt8} {l : CommandLine} (h : l.bufferIndex.toNat = line.length)
    (c : UInt8) : l.echo c = Transcript.echo c line := by
  have hpos : l.bufferIndex > 0 ↔ ¬ line = [] := by
    rw [← ne_eq, ← List.length_pos_iff, ← h]
    exact UInt8.lt_iff_toNat_lt
  have hlt : l.bufferIndex < 255 ↔ line.length < 255 := by
    rw [← h]
    exact CommandLine.lt_max_iff
  rw [CommandLine.echo, Transcript.echo, h]
  simp only [hpos, hlt, ite_not]

/-- **Any other key.** -/
theorem Mirrors.edit (h : Mirrors c0 R bs t s) (hc : c < 0x80) (h0 : c ≠ 0) (h10 : c ≠ 10)
    (ms : UInt32) : ∃ s', s.handleKeyPress (kernelEnv D) stack ms c = some s' ∧
      Mirrors c0 R bs (t.key (kernelEnv D) ms c) s' := by
  obtain ⟨S, hpage⟩ := h.page
  obtain ⟨r, submitted, hr, hfollows⟩ := h.line
  have hecho := @echo_eq t.line s.line (hr ▸ hfollows.index) c
  have hascii : ∀ d ∈ Transcript.echo c t.line, d < 0x80 := by
    rw [Transcript.echo]
    intro d hd
    split at hd
    · split at hd
      · exact absurd hd List.not_mem_nil
      · rw [List.mem_singleton.mp hd]
        decide
    · split at hd
      · rw [List.eq_of_mem_replicate hd]
        decide
      · split at hd
        · rw [List.mem_singleton.mp hd]
          exact hc
        · exact absurd hd List.not_mem_nil
  have hkey : ((Editor.key ⟨t.line, submitted⟩ c).line = (Editor.key ⟨t.line, []⟩ c).line) ∧
      (Editor.key ⟨t.line, submitted⟩ c).submitted = submitted := by
    simp only [Editor.key, if_neg h10]
    split_ifs <;> exact ⟨rfl, rfl⟩
  have hfollows' := hfollows.edit h0 h10
  rw [Transcript.key, if_neg h10]
  refine ⟨{ s with line := s.line.edit c }, ?_,
    ⟨S + scrollsOf (Transcript.echo c t.line) s.line.kernel, ?_⟩, ⟨r.edit c, submitted, ?_, ?_⟩,
    h.sys, h.heap⟩
  · rw [ShellSession.handleKeyPress, if_neg h10]
  · simp only
    rw [kernel_edit, hecho]
    exact (hpage.print hascii).1
  · rw [Recorded.line_edit, hr]
  · rw [← hkey.1]
    have heta : Editor.key ⟨t.line, submitted⟩ c =
        ⟨(Editor.key ⟨t.line, submitted⟩ c).line, submitted⟩ := by
      rw [Editor.mk.injEq]
      exact ⟨rfl, hkey.2⟩
    exact heta ▸ hfollows'

theorem keyChar_ne_zero {key : UInt8} (h : keyChar key = some c) : c ≠ 0 := by
  rw [keyChar] at h
  split at h
  · obtain ⟨e, he, rfl⟩ := Option.map_eq_some_iff.mp h
    have htable : ∀ e ∈ keyTable, e.2.toNat.toUInt8 ≠ 0 := by decide +kernel
    exact htable e (List.mem_of_find?_eq_some he)
  · cases h

variable (D stack)

/-- **A byte from the keyboard.** -/
theorem Mirrors.event (hsize : R.stop ≤ R.start + 2 ^ 31) (h : Mirrors c0 R bs t s)
    (e : UInt8 × UInt32) : ∃ s', s.handleInterrupt (kernelEnv D) stack e = some s' ∧
      Mirrors c0 R bs (t.event (kernelEnv D) e) s' := by
  rw [ShellSession.handleInterrupt, Transcript.event]
  cases hkey : keyChar e.1 with
  | none => exact ⟨s, rfl, h⟩
  | some c =>
    by_cases h10 : c = 10
    · rw [h10]
      exact h.enter hsize e.2
    · exact h.edit (keyChar_spec hkey).1 (keyChar_ne_zero hkey) h10 e.2

theorem Mirrors.events (hsize : R.stop ≤ R.start + 2 ^ 31) (h : Mirrors c0 R bs t s)
    (events : List (UInt8 × UInt32)) :
    ∃ s', events.foldlM (ShellSession.handleInterrupt (kernelEnv D) stack) s = some s' ∧
      Mirrors c0 R bs (events.foldl (Transcript.event (kernelEnv D)) t) s' := by
  induction events generalizing s t with
  | nil => exact ⟨s, rfl, h⟩
  | cons e events ih =>
    obtain ⟨s', hs', h'⟩ := h.event D stack hsize e
    rw [List.foldlM_cons, hs']
    exact ih h'

/-- **After `Start`.** -/
theorem mirrors_start (hon : CursorOn k) (hpos : (c0.after k.dev.ports).position = cursorPlace k)
    (hs : sys.world.heap.Sound R (fun _ _ => True) (bs, [])) :
    ∃ s, ShellSession.start stack sys k = some s ∧ Mirrors c0 R bs (.start sys k) s := by
  have hscreen : Shows c0 k 0 (.ofScreen k) := ⟨view_ofScreen k, hon.1, hon.2, hpos⟩
  obtain ⟨k', S', hk', hwelcome⟩ := hscreen.calls stack.digits short_welcome
  obtain ⟨k'', S'', hk'', hprompt⟩ := hwelcome.calls stack.digits short_prompt
  rw [← printPrompt_calls] at hk''
  rw [← List.foldl_append] at hprompt
  refine ⟨⟨⟨k'', fun _ => 0, 0⟩, sys⟩, ?_, ?_⟩
  · rw [ShellSession.start]
    simp only [hk', hk'', Option.bind_eq_bind, Option.bind_some]
  · refine ⟨⟨S'', ?_⟩, ⟨.start k'', [], rfl, Recorded.follows_start k''⟩, rfl, hs⟩
    rw [Transcript.start]
    simp only
    exact hprompt

end Mirror

/-- **The screen and the disk are what the transcript says.**  From any screen with the cursor
on it, for every file system, disk and heap of at most `2 ^ 31` bytes and all bytes from the
keyboard: every keystroke is handled and every command returns; the file system and the disk
are those that the submitted lines lead to, one after the other; the command buffer holds the
line under the transcript; the screen shows the last rows of its page, with the prompts, the
echo of the keys and all that the commands print; and the chunk list of the heap is what it
was. -/
theorem session_shows_transcript {δ : Type} (D : DiskService δ) {R : Region} {h : Heap}
    {bs : List Block} (hl : Layout R h bs) (hsize : R.stop ≤ R.start + 2 ^ 31) (fs : FileSystem)
    (disk : δ) (stack : Stack) (k0 : Kernel) (c0 : Crtc) (hon : CursorOn k0)
    (hpos : (c0.after k0.dev.ports).position = cursorPlace k0) (events : List (UInt8 × UInt32)) :
    let sys : Sys (KernelWorld δ) := ⟨fs, ⟨⟨some h, []⟩, disk⟩⟩
    let t := events.foldl (Transcript.event (kernelEnv D)) (.start sys k0)
    ∃ s0 s, ShellSession.start stack sys k0 = some s0 ∧
      events.foldlM (ShellSession.handleInterrupt (kernelEnv D) stack) s0 = some s ∧
      s.sys = t.sys ∧
      s.line.bufferIndex.toNat = t.line.length ∧
      (∀ j < 256, s.line.commandBuffer.get j = t.line.getD j 0) ∧
      (∃ S, t.page.exposed = S + 25 ∧ t.page.row = S + s.line.kernel.dev.vga.cursorY.toNat ∧
        t.page.col = s.line.kernel.dev.vga.cursorX.toNat ∧
        ∀ r < 25, ∀ c < 80, cell s.line.kernel.mem (80 * r + c) = (t.page.page (S + r) c).encode) ∧
      CursorOn s.line.kernel ∧
      (c0.after s.line.kernel.dev.ports).position = cursorPlace s.line.kernel ∧
      ∃ h', s.sys.world.heap.heap = some h' ∧
        MemoryManager.chunkList h' = MemoryManager.chunkList h := by
  intro sys t
  have hs : sys.world.heap.Sound R (fun _ _ => True) (bs, []) :=
    ⟨⟨h, rfl, hl⟩, rfl, by simp, fun _ _ _ => trivial⟩
  obtain ⟨s0, hs0, hstart⟩ := mirrors_start stack hon hpos hs
  obtain ⟨s, hrun, hmirrors⟩ := hstart.events D stack hsize events
  obtain ⟨S, hshows⟩ := hmirrors.page
  obtain ⟨r, submitted, hr, hfollows⟩ := hmirrors.line
  obtain ⟨h', hheap, hl'⟩ := hmirrors.heap.layout
  refine ⟨s0, s, hs0, hrun, hmirrors.sys, ?_, ?_,
    ⟨S, hshows.exposed, hshows.row, hshows.col, hshows.cells⟩, ⟨hshows.col_lt, hshows.row_lt⟩,
    hshows.position, h', ?_, hl.chunkList_eq hl'⟩
  · rw [← hr]
    exact hfollows.index
  · rw [← hr]
    exact hfollows.get_eq
  · rw [hmirrors.sys]
    exact hheap

/-- The keys `l`, `s` and Enter on a volume with a file. -/
theorem session_shows_transcript_ls :
    let sys : Sys (KernelWorld (UInt32 → Sector)) :=
      ⟨oneFile 5, ⟨⟨some smallHeap, []⟩, fun _ _ => 0⟩⟩
    let k0 := VGATextMode.construct Watched.blankKernel
    let events : List (UInt8 × UInt32) := [(0x26, 0), (0x1F, 0), (0x1C, 0)]
    let stack : Stack := ⟨fun _ => 0, fun _ => 0⟩
    ∃ s0 s, ShellSession.start stack sys k0 = some s0 ∧
      events.foldlM (ShellSession.handleInterrupt (kernelEnv plainDisk) stack) s0 = some s ∧
      s.line.bufferIndex.toNat = 0 := by
  intro sys k0 events stack
  have hclear : Shows ⟨0, fun _ => 0⟩ k0 0 .new := (@shows_clear _
    (Watched.blankKernel.setVga ⟨0, 0, VGATextMode.white, VGATextMode.black⟩)
    ⟨fun _ _ => ⟨32, 15, 0⟩, 25, 0, 0, 15, 0⟩ rfl rfl).1
  obtain ⟨s0, s, hs0, hs, -, hindex, -⟩ := session_shows_transcript plainDisk layout_smallHeap
    (by decide) (oneFile 5) (fun _ _ => 0) stack k0 ⟨0, fun _ => 0⟩ ⟨hclear.col_lt, hclear.row_lt⟩
    hclear.position events
  exact ⟨s0, s, hs0, hs, hindex⟩
