/-
# Interrupt requests: the constructor of `InterruptManager`, `DoHandleInterrupt`

The constructor and the acknowledgements of `DoHandleInterrupt` seen from the interrupt
controllers: together they are a dispatcher that loses no request, serves none twice, and
serves the most urgent one first, in every order of requests, interrupts and exceptions.
-/
import HydraOS.Interrupts
import HydraOS.InterruptController
import HydraOS.PrintfConsole

/-! ## What the controllers get -/

/-- The bytes that were sent to ports between two states, the first one first. -/
def sent (k k' : Kernel) : List (UInt16 × UInt8) :=
  (k'.dev.ports.take (k'.dev.ports.length - k.dev.ports.length)).reverse

/-- Between two states nothing was sent to the interrupt controllers. -/
def Kernel.LeavesControllers (k k' : Kernel) : Prop :=
  ∃ ws, k'.dev.ports = ws ++ k.dev.ports ∧ ∀ w ∈ ws, w.1 ∉ PicPair.ports

/-- Handlers that return and send nothing to the interrupt controllers. -/
def InterruptManager.LeavesControllers (im : InterruptManager) : Prop :=
  ∀ v handler, im.handlers v = some handler → ∀ esp k, ∃ esp' k',
    handler esp k = some (esp', k') ∧ Kernel.LeavesControllers k k'

/-! ## The system -/

/-- The kernel, the interrupt controllers and what the processor is at. -/
structure InterruptSystem where
  kernel : Kernel
  chips : PicPair
  /-- The vector of the request whose routine is running. -/
  running : Option UInt8
  /-- The numbers that `HandleInterrupt` got for requests, the latest first. -/
  handled : List UInt8

/-- What happens.  Requests come at any time.  A routine runs with interrupts disabled, but it
may cause exceptions and call the system. -/
inductive InterruptEvent where
  | raise (i : Irq)
  | accept
  | complete (esp : UInt32)
  | trap (v : UInt8) (esp : UInt32) (own : ¬ (0x20 ≤ v.toNat ∧ v.toNat < 0x30))

namespace InterruptSystem

/-- The routine in the gate of a vector, up to the return of `HandleInterrupt`. -/
def routine (idt : UInt8 → GateDescriptor) (im : InterruptManager) (v : UInt8) (esp : UInt32)
    (k : Kernel) : Option Kernel :=
  match (idt v).handler.number with
  | some num => (InterruptManager.handleInterrupt (some im) num esp k).map Prod.snd
  | none => some k

def step (idt : UInt8 → GateDescriptor) (im : InterruptManager) (s : InterruptSystem) :
    InterruptEvent → Option InterruptSystem
  | .raise i => some { s with chips := s.chips.raise i }
  | .accept =>
    match s.running, s.chips.acknowledge with
    | none, some (v, chips) => some { s with chips := chips, running := some v }
    | _, _ => some s
  | .complete esp =>
    match s.running with
    | none => some s
    | some v => do
      let k ← routine idt im v esp s.kernel
      some { kernel := k
             chips := (sent s.kernel k).foldl PicPair.write s.chips
             running := none
             handled := (idt v).handler.number.toList ++ s.handled }
  | .trap v esp _ => do
    let k ← routine idt im v esp s.kernel
    some { s with kernel := k, chips := (sent s.kernel k).foldl PicPair.write s.chips }

/-- The lines with a request that waits. -/
def waiting (s : InterruptSystem) : Finset Irq :=
  Finset.univ.filter fun i => s.chips.requests i.pin

/-- After the constructor. -/
def start (chips : PicPair) (k k' : Kernel) : InterruptSystem :=
  ⟨k', (sent k k').foldl PicPair.write chips, none, []⟩

end InterruptSystem

/-- What a dispatcher sees of it. -/
def InterruptEvent.dispatch : InterruptEvent → Option (Dispatch Irq)
  | raise i => some (.raise i)
  | accept => some .accept
  | complete _ => some .complete
  | trap _ _ _ => none

/-- The vector of a line. -/
def Irq.vector (i : Irq) : UInt8 := 0x20 + .ofNat i.val.val

section Acknowledgement

variable {k k' : Kernel} {im : InterruptManager} {v num : UInt8} {esp : UInt32}

theorem sent_of_append {ws : List (UInt16 × UInt8)} (h : k'.dev.ports = ws ++ k.dev.ports) :
    sent k k' = ws.reverse := by
  rw [sent, h, List.length_append, Nat.add_sub_cancel, List.take_left]

/-! ## Handlers that leave the controllers alone -/

/-- Code that sends nothing. -/
theorem Kernel.LeavesControllers.of_ports (h : k'.dev.ports = k.dev.ports) :
    k.LeavesControllers k' := ⟨[], h, fun _ hw => absurd hw List.not_mem_nil⟩

theorem Kernel.LeavesControllers.write (h : k.LeavesControllers k') {portnumber : UInt16}
    (hport : portnumber ∉ PicPair.ports) (data : UInt8) :
    k.LeavesControllers (k'.write portnumber data) := by
  obtain ⟨ws, hports, hother⟩ := h
  refine ⟨(portnumber, data) :: ws, congrArg _ hports, ?_⟩
  intro w hw
  rcases List.mem_cons.mp hw with rfl | hw
  · exact hport
  · exact hother w hw

theorem Kernel.LeavesControllers.trans {k'' : Kernel} (h : k.LeavesControllers k')
    (h' : k'.LeavesControllers k'') : k.LeavesControllers k'' := by
  obtain ⟨ws, hports, hother⟩ := h
  obtain ⟨ws', hports', hother'⟩ := h'
  refine ⟨ws' ++ ws, by rw [hports', hports, List.append_assoc], ?_⟩
  intro w hw
  rcases List.mem_append.mp hw with hw | hw
  · exact hother' w hw
  · exact hother w hw

/-- `UpdateCursor` sends to the screen only. -/
theorem leavesControllers_updateCursor (k : Kernel) :
    k.LeavesControllers (VGATextMode.updateCursor k) := by
  unfold VGATextMode.updateCursor
  refine .write (.write (.write (.write (.of_ports rfl) ?_ _) ?_ _) ?_ _) ?_ _
  all_goals decide

/-- After the constructor of `InterruptManager` there are no handlers. -/
theorem InterruptManager.leavesControllers_construct (hardwareInterruptOffset : UInt16) :
    (⟨hardwareInterruptOffset, fun _ => none⟩ : InterruptManager).LeavesControllers := by
  intro v handler h
  cases h

/-- One more handler. -/
theorem InterruptManager.LeavesControllers.register (h : im.LeavesControllers)
    {handler : InterruptHandler} (hhandler : ∀ esp k, ∃ esp' k',
      handler esp k = some (esp', k') ∧ Kernel.LeavesControllers k k') (num : UInt8) :
    (im.register num handler).LeavesControllers := by
  intro v handler' hv
  replace hv : Function.update im.handlers num (some handler) v = some handler' := hv
  by_cases hnum : v = num
  · subst hnum
    rw [Function.update_self] at hv
    cases hv
    exact hhandler
  · rw [Function.update_of_ne hnum] at hv
    exact h v handler' hv

/-! ## `printf` -/

theorem dev_blankScreen (k : Kernel) : (blankScreen k).dev = k.dev := by
  have hrow (y : ℕ) (k' : Kernel) (h : k'.dev = k.dev) :=
    @forLoop_keeps _ (fun x k => setCell (80 * y + x) (overprint (cell k.mem (80 * y + x)) 32) k) k'
      (fun k' => k'.dev = k.dev) (fun _ _ h => h) h (fun _ => true) 80 0
  exact forLoop_keeps (P := fun k' => k'.dev = k.dev) (fun y k' h => hrow y k' h) rfl _ 25 0

/-- `printf` sends nothing to ports. -/
theorem ports_printfChar (c : UInt8) (k : Kernel) :
    (printfChar c k).dev.ports = k.dev.ports := by
  have hfinish (x y : UInt8) (k : Kernel) : (printfFinish x y k).dev.ports = k.dev.ports := by
    unfold printfFinish
    generalize (if x ≥ 80 then ((0 : UInt8), y + 1) else (x, y)) = place
    by_cases hfull : place.2 ≥ 25
    · simp only [if_pos hfull, dev_blankScreen]
    · simp only [if_neg hfull]
  rw [printfChar_eq]
  split
  · exact hfinish _ _ _
  · exact hfinish _ _ _

/-- `printf` of characters that do not lie in memory. -/
theorem printf_of_chars {str : CharPtr} (cs : List UInt8) (h0 : 0 ∉ cs) (hlen : cs.length < 2 ^ 31)
    (hstr : ∀ m j, str m j = cs.getD j 0) (k : Kernel) :
    ∃ k', printf str k = some k' ∧ k'.dev.ports = k.dev.ports := by
  refine ⟨_, forChars_of_chars cs h0 hlen fun m j => by rw [Nat.zero_add, hstr], ?_⟩
  clear hlen hstr h0
  induction cs generalizing k with
  | nil => rfl
  | cons c cs ih =>
    rw [List.foldl_cons, ih]
    exact ports_printfChar c k

/-- The message about a vector without a handler. -/
theorem unhandled (num : UInt8) (k : Kernel) :
    ∃ k' k'', printf (literal "UNHANDLED INTERRUPT 0x") k = some k' ∧
      printfHex num k' = some k'' ∧ k''.dev.ports = k.dev.ports := by
  obtain ⟨k', hk', hports'⟩ := printf_of_chars
    ("UNHANDLED INTERRUPT 0x".toList.map fun c => c.toNat.toUInt8) (by simp) (by simp)
    (fun _ _ => rfl) k
  -- neither digit ends the text
  have hdigit : ∀ i : UInt8, hexDigit (i &&& 0x0F) ≠ 0 := by decide +kernel
  obtain ⟨k'', hk'', hports''⟩ := printf_of_chars
    [hexDigit ((num >>> 4) &&& 0x0F), hexDigit (num &&& 0x0F)]
    (by simp [(hdigit _).symm]) (by simp) (fun _ _ => rfl) k'
  exact ⟨k', k'', hk', hk'', hports''.trans hports'⟩

/-! ## The acknowledgement -/

/-- What `DoHandleInterrupt` sends to the controllers after the handler. -/
def acknowledgement (num : UInt8) : List (UInt16 × UInt8) :=
  if 0x20 ≤ num.toNat ∧ num.toNat < 0x30 then
    (0x20, 0x20) :: if 0x28 ≤ num.toNat then [(0xA0, 0x20)] else []
  else []

/-- The kernel after the acknowledgement. -/
def acknowledged (num : UInt8) (k : Kernel) : Kernel :=
  if 0x20 ≤ num.toNat ∧ num.toNat < 0x20 + 16 then
    let k := k.write 0x20 0x20
    if 0x20 + 8 ≤ num.toNat then k.write 0xA0 0x20 else k
  else k

theorem ports_acknowledged (num : UInt8) (k : Kernel) :
    (acknowledged num k).dev.ports = (acknowledgement num).reverse ++ k.dev.ports := by
  rw [acknowledged, acknowledgement]
  by_cases hnum : 0x20 ≤ num.toNat ∧ num.toNat < 0x20 + 16
  · rw [if_pos hnum, if_pos hnum]
    by_cases hslave : 0x20 + 8 ≤ num.toNat
    · simp only [if_pos hslave]
      rfl
    · simp only [if_neg hslave]
      rfl
  · rw [if_neg hnum, if_neg hnum]
    rfl

/-- Of what a handler and the acknowledgement send, the controllers get the acknowledgement. -/
theorem foldl_sent (h : k.LeavesControllers k') (num : UInt8) (chips : PicPair) :
    (sent k (acknowledged num k')).foldl PicPair.write chips =
      (acknowledgement num).foldl PicPair.write chips := by
  obtain ⟨ws, hports, hother⟩ := h
  have hall := ports_acknowledged num k'
  rw [hports, ← List.append_assoc] at hall
  rw [sent_of_append hall, List.reverse_append, List.reverse_reverse, List.foldl_append,
    PicPair.foldl_write_of_other fun w hw => hother w (List.mem_reverse.mp hw)]

/-- **`DoHandleInterrupt` returns**, and the controllers get only the acknowledgement. -/
theorem doHandleInterrupt_sent (him : im.hardwareInterruptOffset = 0x20)
    (hleaves : im.LeavesControllers) (num : UInt8) (esp : UInt32) (k : Kernel) :
    ∃ esp' k', im.doHandleInterrupt num esp k = some (esp', acknowledged num k') ∧
      k.LeavesControllers k' := by
  have hoffset : im.hardwareInterruptOffset.toNat = 0x20 := by rw [him]; rfl
  rw [InterruptManager.doHandleInterrupt, hoffset]
  cases hhandler : im.handlers num with
  | some handler =>
    obtain ⟨esp', k', hk', hleft⟩ := hleaves num handler hhandler esp k
    refine ⟨esp', k', ?_, hleft⟩
    simp only [hk', Option.bind_eq_bind, Option.bind_some, Option.pure_def, acknowledged]
  | none =>
    by_cases hnum : num.toNat ≠ 0x20
    · obtain ⟨k', k'', hk', hk'', hports⟩ := unhandled num k
      refine ⟨esp, k'', ?_, Kernel.LeavesControllers.of_ports hports⟩
      simp only [if_pos hnum, hk', hk'', Option.bind_eq_bind, Option.bind_some, Option.pure_def,
        acknowledged]
    · -- the timer without a handler prints nothing
      refine ⟨esp, k, ?_, Kernel.LeavesControllers.of_ports rfl⟩
      simp only [if_neg hnum, Option.bind_eq_bind, Option.bind_some, Option.pure_def, acknowledged]

/-! ## The gates -/

/-- The gate of a request passes its vector on. -/
theorem number_vector (codeSegment : UInt16) (idt : UInt8 → GateDescriptor) (i : Irq) :
    (InterruptManager.interruptDescriptorTable 0x20 codeSegment idt i.vector).handler.number =
      some i.vector := by
  have h20 : (0x20 : UInt16).toUInt8 = irqBase := rfl
  have hvector : i.vector - irqBase < 16 ∧ i.vector - irqBase + irqBase = i.vector := by
    revert i
    decide
  rw [InterruptManager.handler_interruptDescriptorTable, h20, if_pos hvector.1, Stub.number,
    hvector.2]

/-- The lines of the second controller get a second acknowledgement. -/
theorem acknowledgement_vector (i : Irq) :
    acknowledgement i.vector = PicPair.completion i := by
  revert i
  decide

theorem Irq.vector_injective : Function.Injective Irq.vector := by decide

/-! ## The system is a dispatcher -/

/-- **The system does the work of a dispatcher.** -/
structure Dispatches (d : Dispatcher Irq) (s : InterruptSystem) : Prop where
  chips : s.chips = .ofDispatcher 0x20 d
  running : s.running = d.serving.map Irq.vector
  handled : s.handled = d.served.map Irq.vector

section Runs

variable {codeSegment : UInt16} {idt : UInt8 → GateDescriptor} {d : Dispatcher Irq}
  {s : InterruptSystem} (him : im.hardwareInterruptOffset = 0x20) (hleaves : im.LeavesControllers)

include him hleaves

/-- The routine of a request ends it. -/
theorem Dispatches.complete (h : Dispatches d s) (esp : UInt32) :
    ∃ s', s.step (InterruptManager.interruptDescriptorTable 0x20 codeSegment idt) im
      (.complete esp) = some s' ∧ Dispatches (d.step Irq.order .complete) s' := by
  cases hserving : d.serving with
  | none =>
    have hrunning : s.running = none := by rw [h.running, hserving, Option.map_none]
    have hstep : d.step Irq.order .complete = d := by simp only [Dispatcher.step, hserving]
    exact ⟨s, by simp only [InterruptSystem.step, hrunning], by rw [hstep]; exact h⟩
  | some i =>
    have hrunning : s.running = some i.vector := by rw [h.running, hserving, Option.map_some]
    have hnumber := number_vector codeSegment idt i
    have hstep : d.step Irq.order .complete = ⟨d.pending, none, i :: d.served⟩ := by
      simp only [Dispatcher.step, hserving]
    obtain ⟨esp', k', hdo, hleft⟩ := doHandleInterrupt_sent him hleaves i.vector esp s.kernel
    refine ⟨⟨acknowledged i.vector k', (sent s.kernel (acknowledged i.vector k')).foldl
      PicPair.write s.chips, none, i.vector :: s.handled⟩, ?_, ?_, ?_, ?_⟩
    · simp only [InterruptSystem.step, hrunning, InterruptSystem.routine, hnumber,
        InterruptManager.handleInterrupt, hdo, Option.map_some, Option.bind_eq_bind,
        Option.bind_some, Option.toList_some, List.singleton_append]
    · simp only
      rw [foldl_sent hleft, acknowledgement_vector, h.chips, PicPair.foldl_completion hserving]
    · rw [hstep]
      rfl
    · rw [hstep, h.handled]
      rfl

/-- An exception or a system call leaves the requests alone. -/
theorem Dispatches.trap (h : Dispatches d s) {v : UInt8} {esp : UInt32}
    (own : ¬ (0x20 ≤ v.toNat ∧ v.toNat < 0x30)) :
    ∃ s', s.step (InterruptManager.interruptDescriptorTable 0x20 codeSegment idt) im
      (.trap v esp own) = some s' ∧ Dispatches d s' := by
  cases hnumber : (InterruptManager.interruptDescriptorTable 0x20 codeSegment idt
      v).handler.number with
  | none =>
    refine ⟨{ s with chips := (sent s.kernel s.kernel).foldl PicPair.write s.chips }, ?_, ?_,
      h.running, h.handled⟩
    · simp only [InterruptSystem.step, InterruptSystem.routine, hnumber, Option.bind_eq_bind,
        Option.bind_some]
    · simp only
      rw [@sent_of_append s.kernel s.kernel [] rfl]
      exact h.chips
  | some num =>
    obtain rfl := InterruptManager.number_eq_of_table hnumber
    obtain ⟨esp', k', hdo, hleft⟩ := doHandleInterrupt_sent him hleaves num esp s.kernel
    refine ⟨⟨acknowledged num k', (sent s.kernel (acknowledged num k')).foldl PicPair.write s.chips,
      s.running, s.handled⟩, ?_, ?_, h.running, h.handled⟩
    · simp only [InterruptSystem.step, InterruptSystem.routine, hnumber,
        InterruptManager.handleInterrupt, hdo, Option.map_some, Option.bind_eq_bind,
        Option.bind_some]
    · simp only
      rw [foldl_sent hleft, acknowledgement, if_neg own, h.chips]
      rfl

/-- **One step.** -/
theorem Dispatches.step (h : Dispatches d s) (e : InterruptEvent) :
    ∃ s', s.step (InterruptManager.interruptDescriptorTable 0x20 codeSegment idt) im e = some s' ∧
      Dispatches (e.dispatch.elim d (d.step Irq.order)) s' := by
  cases e with
  | raise i =>
    refine ⟨_, rfl, ?_, h.running, h.handled⟩
    exact (congrArg (PicPair.raise i) h.chips).trans PicPair.raise_ofDispatcher
  | accept =>
    cases hserving : d.serving with
    | some i =>
      -- no interrupt is taken while a routine runs
      have hrunning : s.running = some i.vector := by rw [h.running, hserving, Option.map_some]
      have hstep : d.step Irq.order .accept = d := by simp only [Dispatcher.step, hserving]
      refine ⟨s, by simp only [InterruptSystem.step, hrunning], ?_⟩
      rw [InterruptEvent.dispatch, Option.elim_some, hstep]
      exact h
    | none =>
      have hrunning : s.running = none := by rw [h.running, hserving, Option.map_none]
      have hchips := @PicPair.acknowledge_ofDispatcher 0x20 d hserving
      rw [← h.chips] at hchips
      cases hfirst : firstIn Irq.order d.pending with
      | none =>
        have hstep : d.step Irq.order .accept = d := by
          simp only [Dispatcher.step, hserving, hfirst]
        rw [hfirst, Option.map_none] at hchips
        refine ⟨s, by simp only [InterruptSystem.step, hrunning, hchips], ?_⟩
        rw [InterruptEvent.dispatch, Option.elim_some, hstep]
        exact h
      | some i =>
        have hstep : d.step Irq.order .accept =
            { d with pending := d.pending.erase i, serving := some i } := by
          simp only [Dispatcher.step, hserving, hfirst]
        rw [hfirst, Option.map_some] at hchips
        refine ⟨_, by simp only [InterruptSystem.step, hrunning, hchips]; rfl, rfl, ?_, ?_⟩
        · rw [InterruptEvent.dispatch, Option.elim_some, hstep]
          rfl
        · rw [InterruptEvent.dispatch, Option.elim_some, hstep]
          exact h.handled
  | complete esp => exact h.complete him hleaves esp
  | trap v esp own => exact h.trap him hleaves own

/-- **Every run.** -/
theorem Dispatches.run (h : Dispatches d s) (events : List InterruptEvent) :
    ∃ s', events.foldlM (InterruptSystem.step
        (InterruptManager.interruptDescriptorTable 0x20 codeSegment idt) im) s = some s' ∧
      Dispatches ((events.filterMap InterruptEvent.dispatch).foldl (Dispatcher.step Irq.order) d)
        s' := by
  induction events generalizing d s with
  | nil => exact ⟨s, rfl, h⟩
  | cons e events ih =>
    obtain ⟨s', hs', h'⟩ := h.step him hleaves e
    rw [List.foldlM_cons, hs', List.filterMap_cons]
    cases hdispatch : e.dispatch with
    | none =>
      rw [hdispatch] at h'
      exact ih h'
    | some e' =>
      rw [hdispatch] at h'
      exact ih h'

omit him hleaves

theorem Dispatches.waiting (h : Dispatches d s) : s.waiting = d.pending := by
  have hmem (chip : Fin 8 → Fin 8 ⊕ Fin 8) (i : Irq) (p : Fin 8) (hp : i.pin = chip p) :
      p ∈ PicPair.lines chip d.pending ↔ i ∈ d.pending := by
    rw [PicPair.mem_lines, ← hp]
    constructor
    · rintro ⟨j, hj, hpin⟩
      exact Irq.pin_injective hpin ▸ hj
    · intro hi
      exact ⟨i, hi, rfl⟩
  ext i
  rw [InterruptSystem.waiting, Finset.mem_filter, and_iff_right (Finset.mem_univ i), h.chips]
  cases hp : i.pin with
  | inl p => exact decide_eq_true_iff.trans (hmem .inl i p hp)
  | inr p => exact decide_eq_true_iff.trans (hmem .inr i p hp)

/-- The constructor programs both controllers. -/
theorem dispatches_start {chips : PicPair} (hmaster : chips.master.inService = ∅)
    (hslave : chips.slave.inService = ∅) (k : Kernel) :
    Dispatches .new (.start chips k (InterruptManager.remap 0x20 k)) := by
  have hports : (InterruptManager.remap 0x20 k).dev.ports =
      (PicPair.initialization 0x20).reverse ++ k.dev.ports := rfl
  refine ⟨?_, rfl, rfl⟩
  rw [InterruptSystem.start, sent_of_append hports, List.reverse_reverse,
    PicPair.foldl_initialization hmaster hslave (by decide)]

end Runs

/-- **The interrupt controllers and `DoHandleInterrupt` are a dispatcher with priorities.**  The
constructor programs both controllers from any state in which nothing is in service.  After it,
in every order of requests, interrupts, exceptions and system calls, with handlers that return
and leave the controllers alone: a request that waits is taken when it is the most urgent one
and no other is in service, `HandleInterrupt` gets its number once, and then nothing is in
service; and every request that was raised has been handled, is being handled or waits, except
for those raised on a line that was waiting. -/
theorem requests_dispatched (chips : PicPair) (hmaster : chips.master.inService = ∅)
    (hslave : chips.slave.inService = ∅) (codeSegment : UInt16) (idt : UInt8 → GateDescriptor)
    (k : Kernel) (im : InterruptManager) (him : im.hardwareInterruptOffset = 0x20)
    (hleaves : im.LeavesControllers) (events : List InterruptEvent) :
    let made := InterruptManager.construct 0x20 codeSegment idt k
    let seen := events.filterMap InterruptEvent.dispatch
    let d := seen.foldl (Dispatcher.step Irq.order) .new
    ∃ s, events.foldlM (InterruptSystem.step made.2.1 im) (.start chips k made.2.2) = some s ∧
      s.chips = .ofDispatcher 0x20 d ∧ s.waiting = d.pending ∧
      s.running = d.serving.map Irq.vector ∧ s.handled = d.served.map Irq.vector ∧
      ∀ i : Irq, (s.running.toList ++ s.handled).count i.vector + (if i ∈ s.waiting then 1 else 0) +
        Dispatcher.merged Irq.order i .new seen = seen.count (.raise i) := by
  intro made seen d
  obtain ⟨s, hs, (h : Dispatches d s)⟩ := @Dispatches.run _ codeSegment idt _ _ him hleaves
    (dispatches_start hmaster hslave k) events
  refine ⟨s, hs, h.chips, h.waiting, h.running, h.handled, fun i => ?_⟩
  have hcount : (s.running.toList ++ s.handled).count i.vector =
      (d.serving.toList ++ d.served).count i := by
    rw [h.running, h.handled, Option.toList_map, ← List.map_append,
      List.count_map_of_injective _ _ Irq.vector_injective]
  have haccount : Dispatcher.account i d + Dispatcher.merged Irq.order i .new seen = _ :=
    Dispatcher.account_foldl i .new seen
  rw [Dispatcher.account, ← hcount, ← h.waiting] at haccount
  exact haccount.trans (Nat.zero_add _)

/-- A handler that moves the cursor of the screen. -/
def cursorHandler : InterruptHandler := fun esp k => some (esp, VGATextMode.updateCursor k)

theorem leavesControllers_cursorHandler (offset : UInt16) (num : UInt8) :
    ((⟨offset, fun _ => none⟩ : InterruptManager).register num cursorHandler).LeavesControllers :=
  (InterruptManager.leavesControllers_construct offset).register
    (fun esp k => ⟨esp, _, rfl, leavesControllers_updateCursor k⟩) num

/-- The keyboard asks while the controllers wait for the rest of an initialization; its handler
moves the cursor. -/
theorem requests_dispatched_keyboard :
    let chips : PicPair := ⟨⟨.icw3, true, false, 0, 0, 0, {1}, {3}, ∅⟩,
      ⟨.icw4, true, true, 0, 7, 0, ∅, {5}, ∅⟩⟩
    let im := (⟨0x20, fun _ => none⟩ : InterruptManager).register 0x21 cursorHandler
    let made := InterruptManager.construct 0x20 0x10 (fun _ => ⟨.interruptIgnore, 0, 0, 0⟩)
      Watched.blankKernel
    ∃ s, [.raise ⟨1, by decide⟩, .accept, .complete 0].foldlM (InterruptSystem.step made.2.1 im)
        (.start chips Watched.blankKernel made.2.2) = some s ∧
      s.handled = [0x21] ∧ s.waiting = ∅ := by
  intro chips im made
  obtain ⟨s, hs, -, hwaiting, -, hhandled, -⟩ := requests_dispatched chips rfl rfl 0x10
    (fun _ => ⟨.interruptIgnore, 0, 0, 0⟩) Watched.blankKernel im rfl
    (leavesControllers_cursorHandler 0x20 0x21) [.raise ⟨1, by decide⟩, .accept, .complete 0]
  exact ⟨s, hs, hhandled.trans (by decide), hwaiting.trans (by decide)⟩

/-- **All that waits is handled, the most urgent request first.**  After any events, when no
routine is running, as many interrupts as there are waiting lines leave nothing waiting and
nothing in service, and `HandleInterrupt` has got the number of each line once, in the order
0, 1, 8, ..., 15, 3, ..., 7. -/
theorem waiting_requests_handled (chips : PicPair) (hmaster : chips.master.inService = ∅)
    (hslave : chips.slave.inService = ∅) (codeSegment : UInt16) (idt : UInt8 → GateDescriptor)
    (k : Kernel) (im : InterruptManager) (him : im.hardwareInterruptOffset = 0x20)
    (hleaves : im.LeavesControllers) (events : List InterruptEvent) :
    let made := InterruptManager.construct 0x20 codeSegment idt k
    ∃ s, events.foldlM (InterruptSystem.step made.2.1 im) (.start chips k made.2.2) = some s ∧
      let queue := Irq.order.filter fun i => i ∈ s.waiting
      ∀ esps : List UInt32, s.running = none → esps.length = queue.length →
        ∃ s', (esps.flatMap fun esp => [.accept, .complete esp]).foldlM
            (InterruptSystem.step made.2.1 im) s = some s' ∧
          s'.handled = (queue.map Irq.vector).reverse ++ s.handled ∧ s'.waiting = ∅ ∧
          s'.chips.master.inService = ∅ ∧ s'.chips.slave.inService = ∅ := by
  intro made
  obtain ⟨s, hs, h⟩ := @Dispatches.run _ codeSegment idt _ _ him hleaves
    (dispatches_start hmaster hslave k) events
  refine ⟨s, hs, ?_⟩
  intro queue esps hrunning hlen
  obtain ⟨s', hs', h'⟩ := @Dispatches.run _ codeSegment idt _ _ him hleaves h
    (esps.flatMap fun esp => [.accept, .complete esp])
  refine ⟨s', hs', ?_⟩
  have hidle := Option.map_eq_none_iff.mp (h.running.symm.trans hrunning)
  -- each pair of events is one round of the dispatcher
  have hrounds : (esps.flatMap fun esp =>
      [InterruptEvent.accept, .complete esp]).filterMap InterruptEvent.dispatch =
        Dispatcher.rounds queue.length := by
    rw [← hlen]
    clear hs' h' hlen
    induction esps with
    | nil => rfl
    | cons esp esps ih => exact congrArg (fun es => .accept :: .complete :: es) ih
  have hqueue : queue = Dispatcher.queue Irq.order
      ((events.filterMap InterruptEvent.dispatch).foldl (Dispatcher.step Irq.order) .new) := by
    simp only [queue, Dispatcher.queue, h.waiting]
  rw [hrounds, hqueue, Dispatcher.foldl_rounds Irq.nodup_order Irq.mem_order hidle, ← hqueue] at h'
  refine ⟨?_, h'.waiting, ?_, ?_⟩
  · rw [h'.handled, h.handled, List.map_append, List.map_reverse]
  · rw [h'.chips]
    rfl
  · rw [h'.chips]
    rfl

/-- The timer goes before the disk that asked first. -/
theorem waiting_requests_handled_timer :
    let chips : PicPair := ⟨⟨.icw3, true, false, 0, 0, 0, {1}, {3}, ∅⟩,
      ⟨.icw4, true, true, 0, 7, 0, ∅, {5}, ∅⟩⟩
    let im := (⟨0x20, fun _ => none⟩ : InterruptManager).register 0x2E cursorHandler
    let made := InterruptManager.construct 0x20 0x10 (fun _ => ⟨.interruptIgnore, 0, 0, 0⟩)
      Watched.blankKernel
    ∃ s s', [.raise ⟨14, by decide⟩, .raise ⟨0, by decide⟩].foldlM
        (InterruptSystem.step made.2.1 im) (.start chips Watched.blankKernel made.2.2) = some s ∧
      [.accept, .complete 0, .accept, .complete 0].foldlM (InterruptSystem.step made.2.1 im) s =
        some s' ∧ s'.handled = [0x2E, 0x20] := by
  intro chips im made
  obtain ⟨s, hs, hall⟩ := waiting_requests_handled chips rfl rfl 0x10
    (fun _ => ⟨.interruptIgnore, 0, 0, 0⟩) Watched.blankKernel im rfl
    (leavesControllers_cursorHandler 0x20 0x2E) [.raise ⟨14, by decide⟩, .raise ⟨0, by decide⟩]
  obtain ⟨t, ht, h⟩ := @Dispatches.run im 0x10 (fun _ => ⟨.interruptIgnore, 0, 0, 0⟩) _ _ rfl
    (leavesControllers_cursorHandler 0x20 0x2E)
    (@dispatches_start chips rfl rfl Watched.blankKernel)
    [.raise ⟨14, by decide⟩, .raise ⟨0, by decide⟩]
  obtain rfl : s = t := Option.some.inj (hs.symm.trans ht)
  have hqueue : (Irq.order.filter fun i => i ∈ s.waiting) =
      [⟨0, by decide⟩, ⟨14, by decide⟩] := by
    rw [h.waiting]
    decide
  simp only [hqueue] at hall
  obtain ⟨s', hs', hhandled, -⟩ := hall [0, 0] h.running rfl
  exact ⟨s, s', hs, hs', by rw [hhandled, h.handled]; rfl⟩

end Acknowledgement
