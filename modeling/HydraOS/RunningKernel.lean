/-
# The running kernel: `kernelMain` after `Start`

The kernel waits in `while(1)`, and everything happens in interrupts: ticks of the timer, bytes
from the keyboard, packets of the mouse, and requests that nobody handles.  They share the
screen.  In any order of requests the screen shows the page of the shell's transcript with the
mouse pointer and the messages of `printf` over it, and the mouse never changes a character.
-/
import HydraOS.Acknowledgement
import HydraOS.MouseDriver
import HydraOS.Timer
import HydraOS.ShellSession
import HydraOS.ScreenOverlays

open X86 VGATextMode

/-! ## The interrupts -/

/-- The objects of `kernelMain` that interrupts work on. -/
structure RunningKernel (σ : Type) where
  session : ShellSession σ
  timer : ProgrammableIntervalTimer
  mouse : MouseDriver
  pointer : MouseToConsole

/-- A request on one of the 16 lines, with the stack pointer that `int_bottom` passes on and what
the ports `0x64` and `0x60` hold. -/
structure HardwareInterrupt where
  line : Fin 16
  esp : UInt32
  status : UInt8
  data : UInt8

/-- The vector of a line after the constructor of `InterruptManager`. -/
def HardwareInterrupt.vector (e : HardwareInterrupt) : UInt8 := 0x20 + .ofNat e.line.val

/-- The controller of the keyboard and the mouse while a request is served. -/
def HardwareInterrupt.controller (e : HardwareInterrupt) : Device Unit where
  inb port _ := (if port = MouseDriver.commandport then e.status else e.data, ())
  inw _ _ := (0, ())
  outb _ _ _ := ()
  outw _ _ _ := ()

/-- A call of `MouseToConsole`, which has no handlers for the buttons. -/
def MouseToConsole.answer (s : MouseToConsole × Kernel) : MouseCall → MouseToConsole × Kernel
  | .onActivate => onActivate s.2
  | .onMouseMove x y => onMouseMove x y s.1 s.2
  | .onMouseDown _ => s
  | .onMouseUp _ => s

namespace RunningKernel

section Code

variable {σ : Type} (E : PointerEnv σ) (stack : Stack)

def kernel (s : RunningKernel σ) : Kernel := s.session.line.kernel

def setKernel (k : Kernel) (s : RunningKernel σ) : RunningKernel σ :=
  { s with session := { s.session with line := { s.session.line with kernel := k } } }

/-- `HandleInterrupt` of some object, which gets the stack pointer and returns one. -/
abbrev Handler (σ : Type) := UInt32 → RunningKernel σ → Option (UInt32 × RunningKernel σ)

/-- The timer. -/
def timerInterrupt : Handler σ := fun esp s =>
  let (timer, esp) := s.timer.handleInterrupt esp
  some (esp, { s with timer := timer })

/-- The keyboard, with the shell behind it. -/
def keyboardInterrupt (e : HardwareInterrupt) : Handler σ := fun esp s => do
  let session ← s.session.handleInterrupt E stack (e.data, s.timer.getMilliseconds)
  some (esp, { s with session := session })

/-- The mouse, with the pointer behind it. -/
def mouseInterrupt (e : HardwareInterrupt) : Handler σ := fun esp s =>
  let (m, i) := MouseDriver.handleInterrupt e.controller true (s.mouse, ⟨(), []⟩) esp
  let (pointer, k) := i.calls.foldl MouseToConsole.answer (s.pointer, s.kernel)
  some (i.esp, { s.setKernel k with mouse := m.1, pointer := pointer })

/-- The table after the constructors in `kernelMain`.  The entry `0x80` is left out: no line has
that vector. -/
def handlers (e : HardwareInterrupt) : UInt8 → Option (Handler σ) :=
  let table : UInt8 → Option (Handler σ) := fun _ => none
  let table := Function.update table 0x20 (some timerInterrupt)
  let table := Function.update table 0x21 (some (keyboardInterrupt E stack e))
  Function.update table 0x2C (some (mouseInterrupt e))

/-- What `DoHandleInterrupt` does first. -/
def dispatch (e : HardwareInterrupt) : Handler σ := fun esp s =>
  match handlers E stack e e.vector with
  | some handler => handler esp s
  | none =>
    if e.vector.toNat ≠ 0x20 then do
      let k ← printf (literal "UNHANDLED INTERRUPT 0x") s.kernel
      let k ← printfHex e.vector k
      some (esp, s.setKernel k)
    else some (esp, s)

/-- The acknowledgement of an interrupt. -/
def acknowledge (interrupt : UInt8) (k : Kernel) : Kernel :=
  if 0x20 ≤ interrupt.toNat ∧ interrupt.toNat < 0x20 + 16 then
    let k := k.write 0x20 0x20
    if 0x20 + 8 ≤ interrupt.toNat then k.write 0xA0 0x20 else k
  else k

/-- `DoHandleInterrupt`, with all objects. -/
def doHandleInterrupt (e : HardwareInterrupt) : Handler σ := fun esp s => do
  let (esp, s) ← dispatch E stack e esp s
  some (esp, s.setKernel (acknowledge e.vector s.kernel))

/-- A request.  The entry code goes on with the stack that it gets back, and that must be the one
of the interrupted code. -/
def interrupt (s : RunningKernel σ) (e : HardwareInterrupt) : Option (RunningKernel σ) := do
  let (esp, s) ← doHandleInterrupt E stack e e.esp s
  if esp = e.esp then some s else none

/-- The interrupt manager, as far as its handlers show on the kernel. -/
def manager (e : HardwareInterrupt) (s : RunningKernel σ) : InterruptManager where
  hardwareInterruptOffset := 0x20
  handlers v := (handlers E stack e v).map fun handler esp k =>
    (handler esp (s.setKernel k)).map fun r => (r.1, r.2.kernel)

/-- **The kernel after a request** is that of `InterruptManager::DoHandleInterrupt`. -/
theorem doHandleInterrupt_kernel (e : HardwareInterrupt) (esp : UInt32) (s : RunningKernel σ) :
    (doHandleInterrupt E stack e esp s).map (fun r => (r.1, r.2.kernel)) =
      (manager E stack e s).doHandleInterrupt e.vector esp s.kernel := by
  have h32 : UInt16.toNat 32 = 32 := rfl
  unfold doHandleInterrupt InterruptManager.doHandleInterrupt manager dispatch acknowledge
  simp only [Option.pure_def, Option.bind_eq_bind, h32]
  cases handlers E stack e e.vector with
  | none =>
    simp only [Option.map_none]
    by_cases hother : e.vector.toNat ≠ 32
    · rw [if_pos hother, if_pos hother]
      cases printf (literal "UNHANDLED INTERRUPT 0x") s.kernel with
      | none => rfl
      | some k =>
        simp only [Option.bind_some]
        cases printfHex e.vector k with
        | none => rfl
        | some k => rfl
    · rw [if_neg hother, if_neg hother]
      rfl
  | some handler =>
    have hself : s.setKernel s.kernel = s := rfl
    simp only [Option.map_some, hself]
    cases handler esp s with
    | none => rfl
    | some r => rfl

end Code

end RunningKernel

/-! ## The transcript -/

/-- The digits that `printfHex` prints. -/
def hexText (key : UInt8) : CStr where
  chars := [hexDigit ((key >>> 4) &&& 0x0F), hexDigit (key &&& 0x0F)]
  noNul := by
    revert key
    decide +kernel

/-- The text before them. -/
def unhandledText : CStr where
  chars := "UNHANDLED INTERRUPT 0x".toList.map fun c => c.toNat.toUInt8
  noNul := by decide +kernel

/-- The message for a vector without a handler. -/
def unhandledMessage (v : UInt8) : List CStr := [unhandledText, hexText v]

/-- The shell's transcript, the ticks so far, the mouse and its pointer, and the place of
`printf`. -/
structure KernelTranscript (σ : Type) where
  shell : Transcript σ
  ticks : ℕ
  mouse : MouseDriver
  pointer : MouseToConsole
  place : ℕ

namespace KernelTranscript

/-- The pointer, drawn over the page or taken away. -/
def point (m : MouseToConsole) (page : Terminal) : Terminal := page.alter Glyph.exchange m.index

/-- A call of the mouse. -/
def answer (s : MouseToConsole × Terminal) : MouseCall → MouseToConsole × Terminal
  | .onActivate => (⟨40, 12⟩, point ⟨40, 12⟩ s.2)
  | .onMouseMove x y =>
    let m : MouseToConsole := ⟨MouseToConsole.shift s.1.x x 80, MouseToConsole.shift s.1.y y 25⟩
    (m, point m (point s.1 s.2))
  | .onMouseDown _ => s
  | .onMouseUp _ => s

section Reference

variable {σ : Type} (E : PointerEnv σ)

def setPage (page : Terminal) (t : KernelTranscript σ) : KernelTranscript σ :=
  { t with shell := { t.shell with page := page } }

/-- A byte of the mouse. -/
def packet (data : UInt8) (t : KernelTranscript σ) : KernelTranscript σ :=
  let (m, calls) := MouseDriver.receive true t.mouse data
  let (pointer, page) := calls.foldl answer (t.pointer, t.shell.page)
  { t.setPage page with mouse := m, pointer := pointer }

/-- A message of `printf`. -/
def message (texts : List CStr) (t : KernelTranscript σ) : KernelTranscript σ :=
  let p := PrintfPage.print texts (t.shell.page.printfPage t.place)
  { t.setPage (t.shell.page.overprint p) with place := p.place }

/-- A request. -/
def interrupt (t : KernelTranscript σ) (e : HardwareInterrupt) : KernelTranscript σ :=
  if e.line.val = 0 then { t with ticks := t.ticks + 1 }
  else if e.line.val = 1 then
    { t with shell := t.shell.event E (e.data, .ofNat (1000 * t.ticks) / 100) }
  else if e.line.val = 12 then if e.status &&& 0x20 = 0 then t else t.packet e.data
  else t.message (unhandledMessage e.vector)

theorem interrupt_eq (t : KernelTranscript σ) (e : HardwareInterrupt) :
    t.interrupt E e =
      if e.line = 0 then { t with ticks := t.ticks + 1 }
      else if e.line = 1 then
        { t with shell := t.shell.event E (e.data, .ofNat (1000 * t.ticks) / 100) }
      else if e.line = 12 then if e.status &&& 0x20 = 0 then t else t.packet e.data
      else t.message (unhandledMessage e.vector) := by
  simp only [interrupt, Fin.ext_iff]
  rfl

end Reference

end KernelTranscript

/-- The same shell, with the same text in other colours. -/
structure Transcript.SameText {σ : Type} (t u : Transcript σ) : Prop where
  page : t.page.SameText u.page
  line : t.line = u.line
  sys : t.sys = u.sys

/-- A byte from the keyboard does the same to both. -/
theorem Transcript.SameText.event {σ : Type} {t u : Transcript σ} (h : t.SameText u)
    (E : PointerEnv σ) (event : UInt8 × UInt32) :
    (t.event E event).SameText (u.event E event) := by
  rw [Transcript.event, Transcript.event]
  cases keyChar event.1 with
  | none => exact h
  | some c =>
    simp only [Transcript.key, h.line, h.sys]
    by_cases h10 : c = 10
    · rw [if_pos h10, if_pos h10]
      have hpage := ((h.page.putChar 10).screenCalls
        (Transcript.execute E event.2 u.line u.sys).screen).calls Shell.prompt
      refine ⟨?_, rfl, rfl⟩
      simp only
      exact hpage
    · rw [if_neg h10, if_neg h10]
      exact ⟨h.page.print _, rfl, rfl⟩

/-! ## The kernel follows the transcript -/

section Simulation

variable {δ : Type} {D : DiskService δ} {R : Region} {bs : List Block} {c0 : Crtc} {k k' : Kernel}
  {S : ℕ} {page : Terminal} {s : RunningKernel (KernelWorld δ)}
  {t : KernelTranscript (KernelWorld δ)} {stack : Stack} {e : HardwareInterrupt}
  {m : MouseToConsole}

/-- Another page on another screen. -/
theorem Mirrors.setPage {t : Transcript (KernelWorld δ)} {s : ShellSession (KernelWorld δ)}
    (h : Mirrors c0 R bs t s) (hshows : Shows c0 k S page) :
    Mirrors c0 R bs { t with page := page } { s with line := { s.line with kernel := k } } := by
  obtain ⟨r, submitted, hr, hfollows⟩ := h.line
  refine ⟨⟨S, hshows⟩, ⟨{ r with line := { r.line with kernel := k } }, submitted, ?_,
    ⟨hfollows.index, hfollows.noNul, hfollows.get_eq, hfollows.accesses, hfollows.executed⟩⟩,
    h.sys, h.heap⟩
  simp only [hr]

/-- The place that the cursor of `printf` stands for. -/
def PrintfAt (place : ℕ) (cursor : UInt8 × UInt8) : Prop :=
  place = 80 * cursor.2.toNat + cursor.1.toNat ∧ cursor.1.toNat < 80 ∧ cursor.2.toNat < 25

/-- **The running kernel is at the transcript.** -/
structure RunningKernel.Agrees (c0 : Crtc) (R : Region) (bs : List Block)
    (t : KernelTranscript (KernelWorld δ)) (s : RunningKernel (KernelWorld δ)) : Prop where
  shell : Mirrors c0 R bs t.shell s.session
  ticks : s.timer.ticks = .ofNat t.ticks
  frequency : s.timer.frequency = 100
  mouse : s.mouse = t.mouse
  pointer : s.pointer = t.pointer
  onScreen : s.pointer.OnScreen
  cursor : PrintfAt t.place (printfCursor s.kernel)

namespace RunningKernel

/-! ### The mouse -/

/-- The pointer is drawn on the page. -/
theorem shows_swapCell (h : Shows c0 k S page) (hm : m.OnScreen) :
    Shows c0 (m.swapCell k) S (KernelTranscript.point m page) :=
  h.alter Glyph.encode_exchange hm.index_lt

theorem shows_answer (h : Shows c0 k S page) (hm : m.OnScreen) (call : MouseCall) :
    let s := MouseToConsole.answer (m, k) call
    let t := KernelTranscript.answer (m, page) call
    s.1 = t.1 ∧ s.1.OnScreen ∧ Shows c0 s.2 S t.2 ∧ printfCursor s.2 = printfCursor k := by
  cases call with
  | onActivate =>
    exact ⟨rfl, MouseToConsole.onScreen_onActivate (k := k),
      shows_swapCell h (MouseToConsole.onScreen_onActivate (k := k)), rfl⟩
  | onMouseMove x y =>
    have hto := MouseToConsole.onScreen_onMouseMove (m := m) (k := k) x y
    exact ⟨rfl, hto, shows_swapCell (shows_swapCell h hm) hto, rfl⟩
  | onMouseDown button => exact ⟨rfl, hm, h, rfl⟩
  | onMouseUp button => exact ⟨rfl, hm, h, rfl⟩

/-- Several calls of the mouse. -/
theorem shows_answers (h : Shows c0 k S page) (hm : m.OnScreen) (calls : List MouseCall) :
    let s := calls.foldl MouseToConsole.answer (m, k)
    let t := calls.foldl KernelTranscript.answer (m, page)
    s.1 = t.1 ∧ s.1.OnScreen ∧ Shows c0 s.2 S t.2 ∧ printfCursor s.2 = printfCursor k := by
  induction calls generalizing m k page with
  | nil => exact ⟨rfl, hm, h, rfl⟩
  | cons call calls ih =>
    obtain ⟨hm1, hon, hshows, hcursor⟩ := shows_answer h hm call
    intro s t
    have hs : s = calls.foldl MouseToConsole.answer
      ((MouseToConsole.answer (m, k) call).1, (MouseToConsole.answer (m, k) call).2) := rfl
    have ht : t = calls.foldl KernelTranscript.answer
      ((MouseToConsole.answer (m, k) call).1, (KernelTranscript.answer (m, page) call).2) := by
      rw [hm1]
      rfl
    obtain ⟨hm2, hon', hshows', hcursor'⟩ := ih hshows hon
    rw [hs, ht]
    exact ⟨hm2, hon', hshows', hcursor'.trans hcursor⟩

/-! ### The dispatch -/

theorem toNat_vector (e : HardwareInterrupt) : e.vector.toNat = 0x20 + e.line.val := by
  have hlt := e.line.isLt
  have h20 : (0x20 : UInt8).toNat = 0x20 := rfl
  rw [HardwareInterrupt.vector, UInt8.toNat_add, UInt8.toNat_ofNat', h20]
  omega

theorem handlers_vector (e : HardwareInterrupt) :
    handlers (kernelEnv D) stack e e.vector =
      if e.line = 0 then some timerInterrupt
      else if e.line = 1 then some (keyboardInterrupt (kernelEnv D) stack e)
      else if e.line = 12 then some (mouseInterrupt e)
      else none := by
  have hvector (v : UInt8) (n : Fin 16) (hv : v.toNat = 0x20 + n.val) :
      e.vector = v ↔ e.line = n := by
    rw [← UInt8.toNat_inj, toNat_vector, hv, Fin.ext_iff]
    omega
  simp only [handlers, Function.update_apply, hvector 0x20 0 rfl, hvector 0x21 1 rfl,
    hvector 0x2C 12 rfl]
  by_cases h0 : e.line = 0
  · simp [h0]
  · by_cases h1 : e.line = 1
    · simp [h1]
    · simp [h0, h1]

/-! ### The printing of the shell -/

variable {P : Kernel → Prop}

/-- What the text driver keeps, a keystroke keeps. -/
theorem kept_handleInterrupt (h : KeptByDriver P) {s s' : ShellSession (KernelWorld δ)}
    {event : UInt8 × UInt32} (hk : P s.line.kernel)
    (hrun : s.handleInterrupt (kernelEnv D) stack event = some s') : P s'.line.kernel := by
  rw [ShellSession.handleInterrupt] at hrun
  cases hkey : keyChar event.1 with
  | none =>
    rw [hkey] at hrun
    cases hrun
    exact hk
  | some c =>
    rw [hkey] at hrun
    replace hrun : s.handleKeyPress (kernelEnv D) stack event.2 c = some s' := hrun
    rw [ShellSession.handleKeyPress] at hrun
    split at hrun
    · obtain ⟨k1, hk1, hrun⟩ := Option.bind_eq_some_iff.mp hrun
      obtain ⟨r, hr, hrun⟩ := Option.bind_eq_some_iff.mp hrun
      obtain ⟨k3, hk3, hrun⟩ := Option.bind_eq_some_iff.mp hrun
      have hline : P k1 := h.print hk hk1
      have hcommand : P r.2 := by
        split at hr
        · rw [ShellSession.executeCommand] at hr
          obtain ⟨command, -, hr⟩ := Option.bind_eq_some_iff.mp hr
          cases command with
          | none =>
            cases hr
            exact hline
          | some command =>
            obtain ⟨k2, hk2, hr⟩ := Option.bind_eq_some_iff.mp hr
            cases hr
            exact h.screenCalls _ hline hk2
        · cases hr
          exact hline
      cases hrun
      rw [printPrompt_calls stack.digits] at hk3
      exact h.calls _ hcommand hk3
    · cases hrun
      simp only
      rw [kernel_edit]
      exact h.chars _ hk

/-! ### The interrupt controllers -/

/-- What the text driver sends, it sends to the screen. -/
theorem kept_leavesControllers (k0 : Kernel) :
    KeptByDriver fun k => Kernel.LeavesControllers k0 k where
  putChar c k hk := by
    have hports : (beforeScroll c k).dev.ports = k.dev.ports := by rw [dev_beforeScroll]
    have hbefore := hk.trans (.of_ports hports)
    rw [putChar_eq]
    split
    · have hscroll : (scroll (beforeScroll c k)).dev.ports = (beforeScroll c k).dev.ports := by
        rw [dev_scroll]
      exact (hbefore.trans (.of_ports hscroll)).trans (leavesControllers_updateCursor _)
    · exact hbefore.trans (leavesControllers_updateCursor _)
  setColor _ _ _ hk := hk.trans (.of_ports rfl)
  clear k hk := by
    obtain ⟨k', hpaint, hclear⟩ := clear_eq k
    have hports : k'.dev.ports = k.dev.ports := by rw [hpaint.dev]
    have hpainted := hk.trans (.of_ports hports)
    rw [hclear]
    generalize hk'' : k'.setVga { k.dev.vga with cursorX := 0, cursorY := 0 } = k''
    have hset : k''.dev.ports = k'.dev.ports := by rw [← hk'']; rfl
    exact (hpainted.trans (.of_ports hset)).trans (leavesControllers_updateCursor k'')

theorem dev_answers (calls : List MouseCall) (s : MouseToConsole × Kernel) :
    (calls.foldl MouseToConsole.answer s).2.dev = s.2.dev := by
  induction calls generalizing s with
  | nil => rfl
  | cons call calls ih =>
    rw [List.foldl_cons, ih]
    cases call <;> rfl

/-- The timer returns and sends nothing. -/
theorem timerInterrupt_leaves {σ : Type} (esp : UInt32) (s : RunningKernel σ) :
    ∃ r, timerInterrupt esp s = some r ∧ s.kernel.LeavesControllers r.2.kernel :=
  ⟨_, rfl, .of_ports rfl⟩

/-- The mouse returns and sends nothing, whatever its packet is. -/
theorem mouseInterrupt_leaves {σ : Type} (e : HardwareInterrupt) (esp : UInt32)
    (s : RunningKernel σ) :
    ∃ r, mouseInterrupt e esp s = some r ∧ s.kernel.LeavesControllers r.2.kernel :=
  ⟨_, rfl, .of_ports (congrArg Devices.ports (dev_answers _ (s.pointer, s.kernel)))⟩

/-- The keyboard, with the shell behind it, sends nothing but the shell's output. -/
theorem keyboardInterrupt_leaves {e : HardwareInterrupt} {esp : UInt32}
    {r : UInt32 × RunningKernel (KernelWorld δ)}
    (hrun : keyboardInterrupt (kernelEnv D) stack e esp s = some r) :
    s.kernel.LeavesControllers r.2.kernel := by
  rw [keyboardInterrupt] at hrun
  obtain ⟨session, hsession, hr⟩ := Option.bind_eq_some_iff.mp hrun
  cases hr
  exact kept_handleInterrupt (kept_leavesControllers s.kernel) (.of_ports rfl) hsession

/-- **The handlers of the kernel leave the interrupt controllers alone**, if that of the keyboard
returns; in a session that mirrors its transcript it does. -/
theorem leavesControllers_manager (e : HardwareInterrupt) (s : RunningKernel (KernelWorld δ))
    (hreturns : ∀ esp k, ∃ r,
      keyboardInterrupt (kernelEnv D) stack e esp (s.setKernel k) = some r) :
    (manager (kernelEnv D) stack e s).LeavesControllers := by
  intro v handler hhandler esp k
  obtain ⟨inner, hinner, rfl⟩ := Option.map_eq_some_iff.mp hhandler
  obtain ⟨r, hr, hleaves⟩ : ∃ r, inner esp (s.setKernel k) = some r ∧
      k.LeavesControllers r.2.kernel := by
    simp only [handlers, Function.update_apply] at hinner
    -- the mouse, the keyboard and the timer, in this order
    split at hinner
    · cases hinner
      exact mouseInterrupt_leaves e esp (s.setKernel k)
    split at hinner
    · cases hinner
      obtain ⟨r, hr⟩ := hreturns esp k
      exact ⟨r, hr, keyboardInterrupt_leaves hr⟩
    split at hinner
    · cases hinner
      exact timerInterrupt_leaves esp (s.setKernel k)
    · cases hinner
  refine ⟨r.1, r.2.kernel, ?_, hleaves⟩
  simp only [hr, Option.map_some]

/-! ### The requests -/

/-- The screen of a kernel that agrees. -/
theorem Agrees.setPage (h : Agrees c0 R bs t s) (hshows : Shows c0 k S page)
    (hcursor : printfCursor k = printfCursor s.kernel) :
    Agrees c0 R bs (t.setPage page) (s.setKernel k) where
  shell := h.shell.setPage hshows
  ticks := h.ticks
  frequency := h.frequency
  mouse := h.mouse
  pointer := h.pointer
  onScreen := h.onScreen
  cursor := (congrArg (PrintfAt t.place) hcursor).mpr h.cursor

theorem shows_acknowledge (h : Shows c0 k S page) (v : UInt8) :
    Shows c0 (acknowledge v k) S page ∧ printfCursor (acknowledge v k) = printfCursor k := by
  have hwrite {k : Kernel} (h : Shows c0 k S page) (port : UInt16) (data : UInt8)
      (hindex : port ≠ 0x3D4) (hdata : port ≠ 0x3D5) : Shows c0 (k.write port data) S page := by
    refine ⟨⟨h.foreground, h.background, h.col, h.row, h.exposed, h.cells⟩, h.col_lt, h.row_lt, ?_⟩
    show ((c0.after k.dev.ports).write port data).position = _
    rw [Crtc.write, if_neg hindex, if_neg hdata]
    exact h.position
  have hmaster := hwrite h 0x20 0x20 (by decide) (by decide)
  unfold acknowledge
  simp only
  split_ifs
  · exact ⟨hwrite hmaster 0xA0 0x20 (by decide) (by decide), rfl⟩
  · exact ⟨hmaster, rfl⟩
  · exact ⟨h, rfl⟩

/-- **A handler that does its part** leaves the acknowledgement. -/
theorem interrupt_of_dispatch {s' : RunningKernel (KernelWorld δ)}
    {t' : KernelTranscript (KernelWorld δ)}
    (hrun : dispatch (kernelEnv D) stack e e.esp s = some (e.esp, s')) (h : Agrees c0 R bs t' s') :
    ∃ s'', s.interrupt (kernelEnv D) stack e = some s'' ∧ Agrees c0 R bs t' s'' := by
  obtain ⟨S, hpage⟩ := h.shell.page
  obtain ⟨hshows, hcursor⟩ := shows_acknowledge hpage e.vector
  refine ⟨s'.setKernel (acknowledge e.vector s'.kernel), ?_, h.setPage hshows hcursor⟩
  rw [RunningKernel.interrupt, doHandleInterrupt, hrun]
  exact if_pos rfl

/-- A tick. -/
theorem Agrees.tick (h : Agrees c0 R bs t s) (esp : UInt32) :
    ∃ s', timerInterrupt esp s = some (esp, s') ∧
      Agrees c0 R bs { t with ticks := t.ticks + 1 } s' := by
  refine ⟨{ s with timer := { s.timer with ticks := s.timer.ticks + 1 } }, rfl,
    ⟨h.shell, ?_, h.frequency, h.mouse, h.pointer, h.onScreen, h.cursor⟩⟩
  show s.timer.ticks + 1 = .ofNat (t.ticks + 1)
  rw [h.ticks, UInt32.ofNat_add]
  rfl

/-- **A byte from the keyboard**, at the time of the timer. -/
theorem Agrees.keystroke (hsize : R.stop ≤ R.start + 2 ^ 31) (h : Agrees c0 R bs t s)
    (e : HardwareInterrupt) (esp : UInt32) :
    ∃ s', keyboardInterrupt (kernelEnv D) stack e esp s = some (esp, s') ∧
      Agrees c0 R bs { t with
        shell := t.shell.event (kernelEnv D) (e.data, .ofNat (1000 * t.ticks) / 100) } s' := by
  have hms : s.timer.getMilliseconds = .ofNat (1000 * t.ticks) / 100 := by
    rw [ProgrammableIntervalTimer.getMilliseconds, h.ticks, h.frequency, Nat.mul_comm,
      UInt32.ofNat_mul]
    rfl
  obtain ⟨session, hrun, hmirrors⟩ := h.shell.event D stack hsize
    (e.data, s.timer.getMilliseconds)
  have hcursor : printfCursor session.line.kernel = printfCursor s.kernel :=
    kept_handleInterrupt (kept_printfCursor _) rfl hrun
  rw [hms] at hmirrors
  refine ⟨{ s with session := session }, ?_, ⟨hmirrors, h.ticks, h.frequency, h.mouse, h.pointer,
    h.onScreen, (congrArg (PrintfAt t.place) hcursor).mpr h.cursor⟩⟩
  rw [keyboardInterrupt, hrun]
  rfl

/-- **A byte from the mouse**, or a request that is not of the mouse. -/
theorem Agrees.mouse_byte (h : Agrees c0 R bs t s) (e : HardwareInterrupt) (esp : UInt32) :
    ∃ s', mouseInterrupt e esp s = some (esp, s') ∧
      Agrees c0 R bs (if e.status &&& 0x20 = 0 then t else t.packet e.data) s' := by
  obtain ⟨S, hpage⟩ := h.shell.page
  rw [mouseInterrupt]
  by_cases hstatus : e.status &&& 0x20 = 0
  · rw [MouseDriver.handleInterrupt_foreign (D := e.controller) hstatus, if_pos hstatus]
    exact ⟨s, rfl, h⟩
  · rw [MouseDriver.handleInterrupt_data (D := e.controller) hstatus, if_neg hstatus]
    have hdata : ((((⟨(), []⟩ : Bus Unit).inb e.controller MouseDriver.commandport).2.inb
      e.controller MouseDriver.dataport)).1 = e.data := rfl
    simp only [hdata]
    obtain ⟨hm, hon, hshows, hcursor⟩ :=
      shows_answers hpage h.onScreen (MouseDriver.receive true s.mouse e.data).2
    have hset := h.setPage hshows hcursor
    have hpacket : t.packet e.data =
        { t.setPage ((MouseDriver.receive true s.mouse e.data).2.foldl KernelTranscript.answer
            (s.pointer, t.shell.page)).2 with
          mouse := (MouseDriver.receive true s.mouse e.data).1
          pointer := ((MouseDriver.receive true s.mouse e.data).2.foldl KernelTranscript.answer
            (s.pointer, t.shell.page)).1 } := by
      rw [h.mouse, h.pointer]
      rfl
    rw [hpacket]
    exact ⟨_, rfl, ⟨hset.shell, h.ticks, h.frequency, rfl, hm, hon, hset.cursor⟩⟩

theorem ascii_unhandled (v : UInt8) : ∀ text ∈ unhandledMessage v, ∀ c ∈ text.chars, c < 0x80 := by
  have hmessage : ∀ c ∈ unhandledText.chars, c < 0x80 := by decide +kernel
  have hdigit : ∀ i : UInt8, hexDigit (i &&& 0x0F) < 0x80 := by decide +kernel
  refine List.forall_mem_cons.mpr ⟨hmessage, List.forall_mem_singleton.mpr ?_⟩
  exact List.forall_mem_cons.mpr ⟨hdigit _, List.forall_mem_singleton.mpr (hdigit _)⟩

/-- **A vector without a handler.** -/
theorem Agrees.message (h : Agrees c0 R bs t s) (v : UInt8) :
    ∃ k k', printf (literal "UNHANDLED INTERRUPT 0x") s.kernel = some k ∧
      printfHex v k = some k' ∧
        Agrees c0 R bs (t.message (unhandledMessage v)) (s.setKernel k') := by
  obtain ⟨S, hpage⟩ : ∃ S, Shows c0 s.kernel S t.shell.page := h.shell.page
  obtain ⟨hplace, hcol, hrow⟩ := h.cursor
  have hscreen := showsPrintf_ofScreen (k := s.kernel) (UInt8.lt_iff_toNat_lt.mpr hcol)
    (UInt8.lt_iff_toNat_lt.mpr hrow)
  have hmessage : OffScreen s.kernel (literal "UNHANDLED INTERRUPT 0x") unhandledText :=
    fun _ _ _ _ => rfl
  have hdigits : OffScreen s.kernel
      (fun _ i => [hexDigit ((v >>> 4) &&& 0x0F), hexDigit (v &&& 0x0F)].getD i 0) (hexText v) :=
    fun _ _ _ _ => rfl
  obtain ⟨k, hk, htext⟩ := hscreen.text hmessage (by decide +kernel)
  obtain ⟨k', hk', hprintf⟩ := htext.text hdigits (show 2 < 2 ^ 31 by decide)
  replace hprintf : ShowsPrintf s.kernel (.print (unhandledMessage v) (.ofScreen s.kernel)) k' :=
    hprintf
  have hover := hpage.overprint hplace (ascii_unhandled v) hprintf
  have hsame := ((hpage.printfPage_same hplace).print (unhandledMessage v)).1
  refine ⟨k, k', hk, hk', ⟨h.shell.setPage hover, h.ticks, h.frequency, h.mouse, h.pointer,
    h.onScreen, ⟨?_, hprintf.col, hprintf.row⟩⟩⟩
  exact hsame.symm.trans hprintf.place

variable (D stack)

/-- **A request.** -/
theorem Agrees.request (hsize : R.stop ≤ R.start + 2 ^ 31) (h : Agrees c0 R bs t s)
    (e : HardwareInterrupt) :
    ∃ s', s.interrupt (kernelEnv D) stack e = some s' ∧
      Agrees c0 R bs (t.interrupt (kernelEnv D) e) s' := by
  obtain ⟨s', hrun, h'⟩ : ∃ s', dispatch (kernelEnv D) stack e e.esp s = some (e.esp, s') ∧
      Agrees c0 R bs (t.interrupt (kernelEnv D) e) s' := by
    rw [dispatch, handlers_vector, KernelTranscript.interrupt_eq]
    by_cases h0 : e.line = 0
    · rw [if_pos h0, if_pos h0]
      exact h.tick e.esp
    rw [if_neg h0, if_neg h0]
    by_cases h1 : e.line = 1
    · rw [if_pos h1, if_pos h1]
      exact h.keystroke hsize e e.esp
    rw [if_neg h1, if_neg h1]
    by_cases h12 : e.line = 12
    · rw [if_pos h12, if_pos h12]
      exact h.mouse_byte e e.esp
    rw [if_neg h12, if_neg h12]
    -- the timer's vector is the only one without a message
    have hvector : e.vector.toNat ≠ 0x20 := by
      rw [toNat_vector]
      exact fun heq => h0 (Fin.ext (by simpa using heq))
    obtain ⟨k, k', hk, hk', h'⟩ := h.message e.vector
    refine ⟨s.setKernel k', ?_, h'⟩
    simp only
    rw [if_pos hvector, hk]
    show (printfHex e.vector k).bind _ = _
    rw [hk']
    rfl
  exact interrupt_of_dispatch hrun h'

/-- **Requests in any order.** -/
theorem Agrees.requests (hsize : R.stop ≤ R.start + 2 ^ 31) (h : Agrees c0 R bs t s)
    (es : List HardwareInterrupt) :
    ∃ s', es.foldlM (RunningKernel.interrupt (kernelEnv D) stack) s = some s' ∧
      Agrees c0 R bs (es.foldl (KernelTranscript.interrupt (kernelEnv D)) t) s' := by
  induction es generalizing s t with
  | nil => exact ⟨s, rfl, h⟩
  | cons e es ih =>
    obtain ⟨s', hs', h'⟩ := h.request D stack hsize e
    rw [List.foldlM_cons, hs']
    exact ih h'

/-! ### After `Start` -/

/-- The transcript when `Start` returns. -/
def startTranscript (sys : Sys (KernelWorld δ)) (k : Kernel) (timer : ProgrammableIntervalTimer)
    (mouse : MouseDriver) (pointer : MouseToConsole) : KernelTranscript (KernelWorld δ) :=
  ⟨.start sys k, timer.ticks.toNat, mouse, pointer,
    80 * k.dev.printfY.toNat + k.dev.printfX.toNat⟩

theorem agrees_start {sys : Sys (KernelWorld δ)} {timer : ProgrammableIntervalTimer}
    {mouse : MouseDriver} {pointer : MouseToConsole} (hon : CursorOn k)
    (hpos : (c0.after k.dev.ports).position = cursorPlace k) (hcol : k.dev.printfX.toNat < 80)
    (hrow : k.dev.printfY.toNat < 25)
    (hs : sys.world.heap.Sound R (fun _ _ => True) (bs, [])) (hfrequency : timer.frequency = 100)
    (hpointer : pointer.OnScreen) :
    ∃ session, ShellSession.start stack sys k = some session ∧
      Agrees c0 R bs (startTranscript sys k timer mouse pointer)
        ⟨session, timer, mouse, pointer⟩ := by
  obtain ⟨session, hrun, hmirrors⟩ := mirrors_start stack hon hpos hs
  have hcursor : printfCursor session.line.kernel = printfCursor k := by
    have hkept := kept_printfCursor (printfCursor k)
    rw [ShellSession.start] at hrun
    obtain ⟨k1, hk1, hrun⟩ := Option.bind_eq_some_iff.mp hrun
    obtain ⟨k2, hk2, hrun⟩ := Option.bind_eq_some_iff.mp hrun
    cases hrun
    rw [printPrompt_calls stack.digits] at hk2
    exact hkept.calls _ (hkept.calls _ rfl hk1) hk2
  exact ⟨session, hrun, hmirrors, (UInt32.ofNat_toNat).symm, hfrequency, rfl, rfl, hpointer,
    (congrArg (PrintfAt _) hcursor).mpr ⟨rfl, hcol, hrow⟩⟩

/-! ### What the mouse does not change -/

/-- The same shell, clock and console, with the same text in other colours. -/
structure SameShell (t u : KernelTranscript (KernelWorld δ)) : Prop where
  shell : t.shell.SameText u.shell
  ticks : t.ticks = u.ticks
  place : t.place = u.place

variable {u : KernelTranscript (KernelWorld δ)} {E : PointerEnv (KernelWorld δ)}

theorem SameShell.refl (t : KernelTranscript (KernelWorld δ)) : SameShell t t :=
  ⟨⟨.refl _, rfl, rfl⟩, rfl, rfl⟩

theorem SameShell.symm (h : SameShell t u) : SameShell u t :=
  ⟨⟨h.shell.page.symm, h.shell.line.symm, h.shell.sys.symm⟩, h.ticks.symm, h.place.symm⟩

theorem SameShell.trans {v : KernelTranscript (KernelWorld δ)} (h : SameShell t u)
    (h' : SameShell u v) : SameShell t v :=
  ⟨⟨h.shell.page.trans h'.shell.page, h.shell.line.trans h'.shell.line,
    h.shell.sys.trans h'.shell.sys⟩, h.ticks.trans h'.ticks, h.place.trans h'.place⟩

/-- A request of the mouse changes only colours. -/
theorem SameShell.mouse (h : SameShell t u) (he : e.line = 12) : SameShell (t.interrupt E e) u := by
  have hpoint {page : Terminal} (hpage : page.SameText u.shell.page) (m : MouseToConsole) :
      (KernelTranscript.point m page).SameText u.shell.page :=
    hpage.alter Glyph.char_exchange m.index
  have hanswers (calls : List MouseCall) (m : MouseToConsole) (page : Terminal)
      (hpage : page.SameText u.shell.page) :
      (calls.foldl KernelTranscript.answer (m, page)).2.SameText u.shell.page := by
    induction calls generalizing m page with
    | nil => exact hpage
    | cons call calls ih =>
      cases call with
      | onActivate => exact ih _ _ (hpoint hpage _)
      | onMouseMove x y => exact ih _ _ (hpoint (hpoint hpage _) _)
      | onMouseDown button => exact ih _ _ hpage
      | onMouseUp button => exact ih _ _ hpage
  rw [KernelTranscript.interrupt_eq, he, if_neg (by decide), if_neg (by decide), if_pos rfl]
  split
  · exact h
  · exact ⟨⟨hanswers _ _ _ h.shell.page, h.shell.line, h.shell.sys⟩, h.ticks, h.place⟩

/-- Any other request does the same to both. -/
theorem SameShell.other (h : SameShell t u) (he : e.line ≠ 12) :
    SameShell (t.interrupt E e) (u.interrupt E e) := by
  rw [KernelTranscript.interrupt_eq, KernelTranscript.interrupt_eq, if_neg he, if_neg he]
  by_cases h0 : e.line = 0
  · rw [if_pos h0, if_pos h0]
    exact ⟨h.shell, congrArg (· + 1) h.ticks, h.place⟩
  rw [if_neg h0, if_neg h0]
  by_cases h1 : e.line = 1
  · rw [if_pos h1, if_pos h1, h.ticks]
    exact ⟨h.shell.event E _, rfl, h.place⟩
  rw [if_neg h1, if_neg h1]
  have hprint := (h.shell.page.printfPage t.place).print (unhandledMessage e.vector)
  rw [KernelTranscript.message, KernelTranscript.message, ← h.place]
  exact ⟨⟨h.shell.page.overprint hprint, h.shell.line, h.shell.sys⟩, h.ticks, hprint.1⟩

/-- **The requests of the mouse can be left out.** -/
theorem SameShell.requests (h : SameShell t u) (es : List HardwareInterrupt) :
    SameShell (es.foldl (KernelTranscript.interrupt E) t)
      ((es.filter fun e => e.line ≠ 12).foldl (KernelTranscript.interrupt E) u) := by
  induction es generalizing t u with
  | nil => exact h
  | cons e es ih =>
    by_cases he : e.line = 12
    · rw [List.filter_cons_of_neg (by simpa using he)]
      exact ih (h.mouse he)
    · rw [List.filter_cons_of_pos (by simpa using he)]
      exact ih (h.other he)

/-- What kernels have in common whose transcripts do. -/
theorem SameShell.kernels {s' : RunningKernel (KernelWorld δ)} (h : SameShell t u)
    (hs : Agrees c0 R bs t s) (hs' : Agrees c0 R bs u s') :
    s.session.sys = s'.session.sys ∧ s.timer = s'.timer ∧
      s.session.line.bufferIndex = s'.session.line.bufferIndex ∧
      (∀ j < 256, s.session.line.commandBuffer.get j = s'.session.line.commandBuffer.get j) ∧
      s.kernel.dev.vga.cursorX = s'.kernel.dev.vga.cursorX ∧
      s.kernel.dev.vga.cursorY = s'.kernel.dev.vga.cursorY ∧
      printfCursor s.kernel = printfCursor s'.kernel ∧
      ∀ j < 2000, (cell s.kernel.mem j).toUInt8 = (cell s'.kernel.mem j).toUInt8 := by
  obtain ⟨S, hshows⟩ : ∃ S, Shows c0 s.kernel S t.shell.page := hs.shell.page
  obtain ⟨S', hshows'⟩ : ∃ S, Shows c0 s'.kernel S u.shell.page := hs'.shell.page
  obtain ⟨r, submitted, hr, hfollows⟩ := hs.shell.line
  obtain ⟨r', submitted', hr', hfollows'⟩ := hs'.shell.line
  rw [← hr, ← hr']
  obtain rfl : S = S' := by
    have hexposed := hshows.exposed
    have hexposed' := hshows'.exposed
    have hsame := h.shell.page.exposed
    omega
  refine ⟨?_, ?_, ?_, fun j hj => ?_, ?_, ?_, ?_, fun j hj => ?_⟩
  · rw [hs.shell.sys, hs'.shell.sys, h.shell.sys]
  · have hticks : s.timer.ticks = s'.timer.ticks := by rw [hs.ticks, hs'.ticks, h.ticks]
    have hfrequency : s.timer.frequency = s'.timer.frequency := by
      rw [hs.frequency, hs'.frequency]
    exact congrArg₂ ProgrammableIntervalTimer.mk hfrequency hticks
  · rw [← UInt8.toNat_inj, hfollows.index, hfollows'.index]
    exact congrArg List.length h.shell.line
  · rw [hfollows.get_eq j hj, hfollows'.get_eq j hj]
    exact congrArg (fun line : List UInt8 => line.getD j 0) h.shell.line
  · rw [← UInt8.toNat_inj, ← hshows.col, ← hshows'.col, h.shell.page.col]
  · have hrow := hshows.row
    have hrow' := hshows'.row
    have hsame := h.shell.page.row
    rw [← UInt8.toNat_inj]
    omega
  · obtain ⟨hplace, hcol, hrow⟩ := hs.cursor
    obtain ⟨hplace', hcol', hrow'⟩ := hs'.cursor
    have hsame := h.place
    ext <;> omega
  · have hcell := hshows.cells (j / 80) (by omega) (j % 80) (Nat.mod_lt _ (by omega))
    have hcell' := hshows'.cells (j / 80) (by omega) (j % 80) (Nat.mod_lt _ (by omega))
    rw [Nat.div_add_mod] at hcell hcell'
    rw [hcell, hcell', Glyph.toUInt8_encode, Glyph.toUInt8_encode, h.shell.page.chars]

/-- The ticks are counted. -/
theorem ticks_requests (t : KernelTranscript (KernelWorld δ)) (es : List HardwareInterrupt) :
    (es.foldl (KernelTranscript.interrupt E) t).ticks =
      t.ticks + es.countP fun e => e.line = 0 := by
  induction es generalizing t with
  | nil => rfl
  | cons e es ih =>
    rw [List.foldl_cons, ih]
    by_cases h0 : e.line = 0
    · have htick : (t.interrupt E e).ticks = t.ticks + 1 := by
        rw [KernelTranscript.interrupt_eq, if_pos h0]
      rw [htick, List.countP_cons_of_pos (by simpa using h0)]
      omega
    · have hsame : (t.interrupt E e).ticks = t.ticks := by
        rw [KernelTranscript.interrupt_eq, if_neg h0]
        split_ifs <;> rfl
      rw [hsame, List.countP_cons_of_neg (by simpa using h0)]

/-! ## The results -/

/-- **The running kernel.**  From any screen with both cursors on it, for every file system, disk
and heap of at most `2 ^ 31` bytes, and for all requests on the 16 lines after `Start` in any
order: every handler returns to the code that was interrupted; each request of the timer is a
tick; the file system, the disk and the command buffer are those of the shell's transcript, whose
`uptime` reads that clock; and the screen shows the last rows of its page, with the pointer of the
mouse and the messages for unhandled vectors over it. -/
theorem running_kernel_shows_transcript {δ : Type} (D : DiskService δ) {R : Region} {h : Heap}
    {bs : List Block} (hl : Layout R h bs) (hsize : R.stop ≤ R.start + 2 ^ 31) (fs : FileSystem)
    (disk : δ) (stack : Stack) (k0 : Kernel) (c0 : Crtc) (hon : CursorOn k0)
    (hpos : (c0.after k0.dev.ports).position = cursorPlace k0)
    (hcol : k0.dev.printfX.toNat < 80) (hrow : k0.dev.printfY.toNat < 25)
    (timer : ProgrammableIntervalTimer) (hfrequency : timer.frequency = 100)
    (mouse : MouseDriver) (pointer : MouseToConsole) (hpointer : pointer.OnScreen)
    (es : List HardwareInterrupt) :
    let sys : Sys (KernelWorld δ) := ⟨fs, ⟨⟨some h, []⟩, disk⟩⟩
    let t := es.foldl (KernelTranscript.interrupt (kernelEnv D))
      (startTranscript sys k0 timer mouse pointer)
    ∃ session s, ShellSession.start stack sys k0 = some session ∧
      es.foldlM (interrupt (kernelEnv D) stack) ⟨session, timer, mouse, pointer⟩ = some s ∧
      s.timer.ticks = timer.ticks + .ofNat (es.countP fun e => e.line = 0) ∧
      s.session.sys = t.shell.sys ∧
      s.session.line.bufferIndex.toNat = t.shell.line.length ∧
      (∀ j < 256, s.session.line.commandBuffer.get j = t.shell.line.getD j 0) ∧
      s.pointer = t.pointer ∧ s.pointer.OnScreen ∧
      (∃ S, t.shell.page.exposed = S + 25 ∧
        t.shell.page.row = S + s.kernel.dev.vga.cursorY.toNat ∧
        t.shell.page.col = s.kernel.dev.vga.cursorX.toNat ∧
        ∀ r < 25, ∀ c < 80,
          cell s.kernel.mem (80 * r + c) = (t.shell.page.page (S + r) c).encode) ∧
      CursorOn s.kernel ∧ (c0.after s.kernel.dev.ports).position = cursorPlace s.kernel ∧
      ∃ h', s.session.sys.world.heap.heap = some h' ∧
        MemoryManager.chunkList h' = MemoryManager.chunkList h := by
  intro sys t
  have hs : sys.world.heap.Sound R (fun _ _ => True) (bs, []) :=
    ⟨⟨h, rfl, hl⟩, rfl, by simp, fun _ _ _ => trivial⟩
  obtain ⟨session, hstart, hagrees⟩ := @agrees_start _ R bs c0 k0 stack sys timer mouse pointer
    hon hpos hcol hrow hs hfrequency hpointer
  obtain ⟨s, hrun, hs'⟩ := hagrees.requests D stack hsize es
  obtain ⟨S, hshows⟩ := hs'.shell.page
  obtain ⟨r, submitted, hr, hfollows⟩ := hs'.shell.line
  obtain ⟨h', hheap, hl'⟩ := hs'.shell.heap.layout
  refine ⟨session, s, hstart, hrun, ?_, hs'.shell.sys, ?_, ?_, hs'.pointer, hs'.onScreen,
    ⟨S, hshows.exposed, hshows.row, hshows.col, hshows.cells⟩, ⟨hshows.col_lt, hshows.row_lt⟩,
    hshows.position, h', ?_, hl.chunkList_eq hl'⟩
  · have hticks : t.ticks = timer.ticks.toNat + es.countP fun e => e.line = 0 :=
      ticks_requests _ es
    rw [hs'.ticks, hticks, UInt32.ofNat_add, UInt32.ofNat_toNat]
  · rw [← hr]
    exact hfollows.index
  · rw [← hr]
    exact hfollows.get_eq
  · rw [hs'.shell.sys]
    exact hheap

/-- The screen after the constructor of the text driver. -/
theorem shows_constructed :
    Shows ⟨0, fun _ => 0⟩ (VGATextMode.construct Watched.blankKernel) 0 .new ∧
      printfCursor (VGATextMode.construct Watched.blankKernel) = (0, 0) :=
  ⟨(@shows_clear _ (Watched.blankKernel.setVga ⟨0, 0, VGATextMode.white, VGATextMode.black⟩)
      ⟨fun _ _ => ⟨32, 15, 0⟩, 25, 0, 0, 15, 0⟩ rfl rfl).1,
    (kept_printfCursor (0, 0)).clear
      (Watched.blankKernel.setVga ⟨0, 0, VGATextMode.white, VGATextMode.black⟩) rfl⟩

/-- A tick, a key, a byte of the mouse and a request that nobody handles. -/
theorem running_kernel_shows_transcript_four :
    let sys : Sys (KernelWorld (UInt32 → Sector)) :=
      ⟨oneFile 5, ⟨⟨some smallHeap, []⟩, fun _ _ => 0⟩⟩
    let k0 := VGATextMode.construct Watched.blankKernel
    let stack : Stack := ⟨fun _ => 0, fun _ => 0⟩
    let es : List HardwareInterrupt := [⟨0, 4096, 0, 0⟩, ⟨1, 4096, 0, 0x26⟩, ⟨12, 4096, 0x20, 8⟩,
      ⟨3, 4096, 0, 0⟩]
    ∃ session s, ShellSession.start stack sys k0 = some session ∧
      es.foldlM (interrupt (kernelEnv plainDisk) stack)
        ⟨session, ⟨100, 0⟩, ⟨fun _ => 0, 0, 0⟩, ⟨40, 12⟩⟩ = some s ∧ s.timer.ticks = 1 := by
  intro sys k0 stack es
  obtain ⟨hclear, hcursor⟩ := shows_constructed
  obtain ⟨session, s, hstart, hrun, hticks, -⟩ := running_kernel_shows_transcript plainDisk
    layout_smallHeap (by decide) (oneFile 5) (fun _ _ => 0) stack k0 ⟨0, fun _ => 0⟩
    ⟨hclear.col_lt, hclear.row_lt⟩ hclear.position
    ((congrArg (fun p => p.1.toNat) hcursor).trans_lt (by decide))
    ((congrArg (fun p => p.2.toNat) hcursor).trans_lt (by decide)) ⟨100, 0⟩ rfl
    ⟨fun _ => 0, 0, 0⟩ ⟨40, 12⟩ (MouseToConsole.onScreen_onActivate (k := k0)) es
  exact ⟨session, s, hstart, hrun, hticks⟩

/-- **The mouse never changes the text.**  Take two runs after `Start`, with whatever mice and
pointers, whose requests differ only in those of the mouse.  Then they have the same file system,
disk, heap and clock, the same command line, the same cursors, and the same character in every
cell of the screen. -/
theorem mouse_never_changes_text {δ : Type} (D : DiskService δ) {R : Region} {h : Heap}
    {bs : List Block} (hl : Layout R h bs) (hsize : R.stop ≤ R.start + 2 ^ 31) (fs : FileSystem)
    (disk : δ) (stack : Stack) (k0 : Kernel) (c0 : Crtc) (hon : CursorOn k0)
    (hpos : (c0.after k0.dev.ports).position = cursorPlace k0)
    (hcol : k0.dev.printfX.toNat < 80) (hrow : k0.dev.printfY.toNat < 25)
    (timer : ProgrammableIntervalTimer) (hfrequency : timer.frequency = 100)
    (mouse mouse' : MouseDriver) (pointer pointer' : MouseToConsole) (hpointer : pointer.OnScreen)
    (hpointer' : pointer'.OnScreen) (es es' : List HardwareInterrupt)
    (hes : (es.filter fun e => e.line ≠ 12) = es'.filter fun e => e.line ≠ 12) :
    let sys : Sys (KernelWorld δ) := ⟨fs, ⟨⟨some h, []⟩, disk⟩⟩
    ∃ session s s', ShellSession.start stack sys k0 = some session ∧
      es.foldlM (interrupt (kernelEnv D) stack) ⟨session, timer, mouse, pointer⟩ = some s ∧
      es'.foldlM (interrupt (kernelEnv D) stack) ⟨session, timer, mouse', pointer'⟩ = some s' ∧
      s.session.sys = s'.session.sys ∧ s.timer = s'.timer ∧
      s.session.line.bufferIndex = s'.session.line.bufferIndex ∧
      (∀ j < 256, s.session.line.commandBuffer.get j = s'.session.line.commandBuffer.get j) ∧
      s.kernel.dev.vga.cursorX = s'.kernel.dev.vga.cursorX ∧
      s.kernel.dev.vga.cursorY = s'.kernel.dev.vga.cursorY ∧
      printfCursor s.kernel = printfCursor s'.kernel ∧
      ∀ j < 2000, (cell s.kernel.mem j).toUInt8 = (cell s'.kernel.mem j).toUInt8 := by
  intro sys
  have hs : sys.world.heap.Sound R (fun _ _ => True) (bs, []) :=
    ⟨⟨h, rfl, hl⟩, rfl, by simp, fun _ _ _ => trivial⟩
  obtain ⟨session, hstart, hagrees⟩ := @agrees_start _ R bs c0 k0 stack sys timer mouse pointer
    hon hpos hcol hrow hs hfrequency hpointer
  obtain ⟨session', hstart', hagrees'⟩ := @agrees_start _ R bs c0 k0 stack sys timer mouse'
    pointer' hon hpos hcol hrow hs hfrequency hpointer'
  obtain rfl : session = session' := Option.some.inj (hstart.symm.trans hstart')
  obtain ⟨s, hrun, hs1⟩ := hagrees.requests D stack hsize es
  obtain ⟨s', hrun', hs1'⟩ := hagrees'.requests D stack hsize es'
  -- both transcripts are that of the other requests, up to colours
  have hsame : SameShell (startTranscript sys k0 timer mouse pointer)
      (startTranscript sys k0 timer mouse' pointer') :=
    ⟨⟨.refl _, rfl, rfl⟩, rfl, rfl⟩
  have htext := hsame.requests (E := kernelEnv D) es
  have htext' := (SameShell.refl (startTranscript sys k0 timer mouse' pointer')).requests
    (E := kernelEnv D) es'
  rw [hes] at htext
  refine ⟨session, s, s', hstart, hrun, hrun', ?_⟩
  exact (htext.trans htext'.symm).kernels hs1 hs1'

/-- A key, with a packet of the mouse before it or without one. -/
theorem mouse_never_changes_text_packet :
    let sys : Sys (KernelWorld (UInt32 → Sector)) :=
      ⟨oneFile 5, ⟨⟨some smallHeap, []⟩, fun _ _ => 0⟩⟩
    let k0 := VGATextMode.construct Watched.blankKernel
    let stack : Stack := ⟨fun _ => 0, fun _ => 0⟩
    let key : HardwareInterrupt := ⟨1, 4096, 0, 0x26⟩
    let packet : List HardwareInterrupt :=
      [⟨12, 4096, 0x20, 8⟩, ⟨12, 4096, 0x20, 5⟩, ⟨12, 4096, 0x20, 3⟩]
    ∃ session s s', ShellSession.start stack sys k0 = some session ∧
      (packet ++ [key]).foldlM (interrupt (kernelEnv plainDisk) stack)
        ⟨session, ⟨100, 0⟩, ⟨fun _ => 0, 0, 0⟩, ⟨40, 12⟩⟩ = some s ∧
      [key].foldlM (interrupt (kernelEnv plainDisk) stack)
        ⟨session, ⟨100, 0⟩, ⟨fun _ => 0, 0, 0⟩, ⟨40, 12⟩⟩ = some s' ∧
      s.session.line.bufferIndex = s'.session.line.bufferIndex := by
  intro sys k0 stack key packet
  obtain ⟨hclear, hcursor⟩ := shows_constructed
  obtain ⟨session, s, s', hstart, hrun, hrun', -, -, hindex, -⟩ := mouse_never_changes_text
    plainDisk layout_smallHeap (by decide) (oneFile 5) (fun _ _ => 0) stack k0 ⟨0, fun _ => 0⟩
    ⟨hclear.col_lt, hclear.row_lt⟩ hclear.position
    ((congrArg (fun p => p.1.toNat) hcursor).trans_lt (by decide))
    ((congrArg (fun p => p.2.toNat) hcursor).trans_lt (by decide)) ⟨100, 0⟩ rfl
    ⟨fun _ => 0, 0, 0⟩ ⟨fun _ => 0, 0, 0⟩ ⟨40, 12⟩ ⟨40, 12⟩
    (MouseToConsole.onScreen_onActivate (k := k0)) (MouseToConsole.onScreen_onActivate (k := k0))
    (packet ++ [key]) [key] rfl
  exact ⟨session, s, s', hstart, hrun, hrun', hindex⟩

end RunningKernel

end Simulation
