/-
# Interrupts: `interruptstubs.s`, `interrupts.cpp`

The entry code of every vector, the interrupt descriptor table that the constructor of
`InterruptManager` fills, and the C++ code that the entry code calls.
-/
import HydraOS.TextScreen

open X86

/-! ## The entry code -/

/-- The routines that a gate can hold: `InterruptIgnore`, `HandleException` with its
number, `HandleInterruptRequest` with its number. -/
inductive Stub where
  | interruptIgnore
  | handleException (num : UInt8)
  | handleInterruptRequest (num : UInt8)
  deriving DecidableEq

/-- Where the linker puts what the entry code refers to.  The kernel is linked at 1 MB. -/
structure KernelImage where
  address : Stub → UInt32
  interruptnumber : UInt32
  /-- The address of the instruction after the call in `int_bottom`. -/
  afterCall : UInt32
  linked : 0x100000 ≤ interruptnumber.toNat

/-- `IRQ_BASE`. -/
def irqBase : UInt8 := 0x20

namespace Stub

/-- `InterruptIgnore`. -/
def ignoreCode : List Instr := [.iret]

/-- `int_bottom`, which runs on into `InterruptIgnore`.  In AT&T order, `add %esp, 6`
adds the stack pointer to the word at address 6. -/
def intBottom (image : KernelImage) : List Instr :=
  [.pusha, .pushSeg .ds, .pushSeg .es, .pushSeg .fs, .pushSeg .gs,
    .push .esp, .pushMem image.interruptnumber, .call image.afterCall,
    .addMem .esp 6, .mov .eax .esp,
    .popSeg .gs, .popSeg .fs, .popSeg .es, .popSeg .ds, .popa] ++ ignoreCode

/-- The number that a stub stores in `interruptnumber`. -/
def number : Stub → Option UInt8
  | interruptIgnore => none
  | handleException num => some num
  | handleInterruptRequest num => some (num + irqBase)

/-- The code of a routine; the jump to `int_bottom` is followed. -/
def code (image : KernelImage) : Stub → List Instr
  | interruptIgnore => ignoreCode
  | handleException num => .movb num image.interruptnumber :: intBottom image
  | handleInterruptRequest num => .movb (num + irqBase) image.interruptnumber :: intBottom image

end Stub

/-! ## `InterruptManager` -/

/-- A gate.  `handler` stands for the two halves of the handler's address. -/
structure GateDescriptor where
  handler : Stub
  gdt_codeSegmentSelector : UInt16
  access : UInt8
  reserved : UInt8

/-- `InterruptHandler::HandleInterrupt` of some object: it gets the stack pointer and
returns one.  `none` means that it does not return. -/
abbrev InterruptHandler := UInt32 → Kernel → Option (UInt32 × Kernel)

/-- An `InterruptManager`. -/
structure InterruptManager where
  hardwareInterruptOffset : UInt16
  handlers : UInt8 → Option InterruptHandler

namespace InterruptManager

/-- `IDT_DESC_PRESENT`. -/
def idtDescPresent : UInt8 := 0x80

/-- `SetInterruptDescriptorTableEntry`. -/
def setInterruptDescriptorTableEntry (interrupt : UInt8) (codeSegment : UInt16) (handler : Stub)
    (descriptorPrivilegeLevel descriptorType : UInt8) (idt : UInt8 → GateDescriptor) :
    UInt8 → GateDescriptor :=
  Function.update idt interrupt
    { handler := handler
      gdt_codeSegmentSelector := codeSegment
      access := idtDescPresent ||| descriptorType ||| ((descriptorPrivilegeLevel &&& 3) <<< 5)
      reserved := 0 }

/-- `IDT_INTERRUPT_GATE`. -/
def idtInterruptGate : UInt8 := 0xE

/-- The vectors with a `HandleException` routine of their own. -/
def exceptions : List UInt8 :=
  [0x00, 0x01, 0x02, 0x03, 0x04, 0x05, 0x06, 0x07, 0x08, 0x09, 0x0A, 0x0B, 0x0C, 0x0D, 0x0E, 0x0F,
    0x10, 0x11, 0x12, 0x13, 0x80]

/-- The interrupt requests with a routine of their own. -/
def requests : List UInt8 :=
  [0x00, 0x01, 0x02, 0x03, 0x04, 0x05, 0x06, 0x07, 0x08, 0x09, 0x0A, 0x0B, 0x0C, 0x0D, 0x0E, 0x0F]

/-- The table that the constructor leaves. -/
def interruptDescriptorTable (hardwareInterruptOffset codeSegment : UInt16)
    (idt : UInt8 → GateDescriptor) : UInt8 → GateDescriptor :=
  let set (interrupt : UInt8) (handler : Stub) :=
    setInterruptDescriptorTableEntry interrupt codeSegment handler 0 idtInterruptGate
  let idt := forLoop (fun _ => true) (fun i => set (.ofNat (255 - i)) .interruptIgnore) 255 0 idt
  let idt := set 0 .interruptIgnore idt
  let idt := exceptions.foldl (fun idt num => set num (.handleException num) idt) idt
  requests.foldl (fun idt num =>
    set (hardwareInterruptOffset + num.toUInt16).toUInt8 (.handleInterruptRequest num) idt) idt

/-- What the constructor writes to the interrupt controllers. -/
def remap (hardwareInterruptOffset : UInt16) (k : Kernel) : Kernel :=
  let k := (k.write 0x20 0x11).write 0xA0 0x11
  let k := (k.write 0x21 hardwareInterruptOffset.toUInt8).write 0xA1
    (hardwareInterruptOffset + 8).toUInt8
  let k := (k.write 0x21 0x04).write 0xA1 0x02
  let k := (k.write 0x21 0x01).write 0xA1 0x01
  (k.write 0x21 0x00).write 0xA1 0x00

/-- `InterruptManager::InterruptManager`: the object, the table and the kernel after it. -/
def construct (hardwareInterruptOffset codeSegment : UInt16) (idt : UInt8 → GateDescriptor)
    (k : Kernel) : InterruptManager × (UInt8 → GateDescriptor) × Kernel :=
  (⟨hardwareInterruptOffset, fun _ => none⟩,
    interruptDescriptorTable hardwareInterruptOffset codeSegment idt,
    remap hardwareInterruptOffset k)

/-- `InterruptHandler::InterruptHandler`: the handler registers itself. -/
def register (im : InterruptManager) (interruptNumber : UInt8) (handler : InterruptHandler) :
    InterruptManager :=
  { im with handlers := Function.update im.handlers interruptNumber (some handler) }

/-- `DoHandleInterrupt`. -/
def doHandleInterrupt (im : InterruptManager) (interrupt : UInt8) (esp : UInt32) (k : Kernel) :
    Option (UInt32 × Kernel) := do
  let offset := im.hardwareInterruptOffset.toNat
  let (esp, k) ← match im.handlers interrupt with
    | some handler => handler esp k
    | none =>
      if interrupt.toNat ≠ offset then
        let k ← printf (literal "UNHANDLED INTERRUPT 0x") k
        let k ← printfHex interrupt k
        pure (esp, k)
      else pure (esp, k)
  -- hardware interrupts are acknowledged
  let k := if offset ≤ interrupt.toNat ∧ interrupt.toNat < offset + 16 then
      let k := k.write 0x20 0x20
      if offset + 8 ≤ interrupt.toNat then k.write 0xA0 0x20 else k
    else k
  pure (esp, k)

/-- `HandleInterrupt`, with the value of `ActiveInterruptManager`. -/
def handleInterrupt (activeInterruptManager : Option InterruptManager) (interruptNumber : UInt8)
    (esp : UInt32) (k : Kernel) : Option (UInt32 × Kernel) :=
  match activeInterruptManager with
  | some im => im.doHandleInterrupt interruptNumber esp k
  | none => some (esp, k)

/-! ## The table -/

/-- Gates set one after the other. -/
theorem foldl_set_apply {α : Type} (entry : α → UInt8) (gate : α → GateDescriptor) (l : List α)
    (idt : UInt8 → GateDescriptor) (v : UInt8) :
    (l.foldl (fun idt a => Function.update idt (entry a) (gate a)) idt) v =
      ((l.reverse.find? fun a => entry a = v).map gate).getD (idt v) := by
  induction l generalizing idt with
  | nil => rfl
  | cons a l ih =>
    rw [List.foldl_cons, ih, List.reverse_cons, List.find?_append]
    cases l.reverse.find? fun a => entry a = v with
    | some b => rfl
    | none =>
      by_cases h : entry a = v
      · simp [h]
      · simp [h, Function.update_of_ne (Ne.symm h)]

theorem mem_requests {n : UInt8} : n ∈ requests ↔ n < 16 := by
  constructor
  · intro h
    fin_cases h <;> decide
  · intro h
    have hn : n.toNat < 16 := UInt8.lt_iff_toNat_lt.mp h
    have hof : n = .ofNat n.toNat := by simp
    rw [hof]
    generalize n.toNat = k at hn
    interval_cases k <;> decide

theorem mem_exceptions {n : UInt8} : n ∈ exceptions ↔ n < 0x14 ∨ n = 0x80 := by
  constructor
  · intro h
    fin_cases h <;> decide
  · rintro (h | rfl)
    · have hn : n.toNat < 20 := UInt8.lt_iff_toNat_lt.mp h
      have hof : n = .ofNat n.toNat := by simp
      rw [hof]
      generalize n.toNat = k at hn
      interval_cases k <;> decide
    · decide

/-- The loop of the constructor and the entry after it. -/
theorem handler_ignored (codeSegment : UInt16) (idt : UInt8 → GateDescriptor) (v : UInt8) :
    (setInterruptDescriptorTableEntry 0 codeSegment .interruptIgnore 0 idtInterruptGate
      (forLoop (fun _ => true) (fun i => setInterruptDescriptorTableEntry (.ofNat (255 - i))
        codeSegment .interruptIgnore 0 idtInterruptGate) 255 0 idt) v).handler =
      .interruptIgnore := by
  have hloop := @forLoop_invariant_of_true _
    (fun i => setInterruptDescriptorTableEntry (.ofNat (255 - i)) codeSegment .interruptIgnore 0
      idtInterruptGate) 255 0 idt
    (fun i idt => ∀ v : UInt8, 255 - v.toNat < i → (idt v).handler = .interruptIgnore)
    (fun v h => absurd h (by omega))
    (fun i idt _ hi hinv v hv => by
      rw [setInterruptDescriptorTableEntry, Function.update_apply]
      split
      · rfl
      · next hne =>
        refine hinv v ?_
        have hlt := v.toNat_lt
        have hne' : v.toNat ≠ 255 - i := by
          intro h
          apply hne
          rw [← h, UInt8.ofNat_toNat]
        omega)
  rw [setInterruptDescriptorTableEntry, Function.update_apply]
  split
  · rfl
  · next hne =>
    refine hloop v ?_
    have hpos : v.toNat ≠ 0 := fun h => hne (UInt8.toNat_inj.mp h)
    omega

/-- **The gates that the constructor leaves**: the sixteen vectors from the hardware
interrupt offset on are for requests, the other vectors below 20 and the vector 128 for
exceptions, and the rest is ignored. -/
theorem handler_interruptDescriptorTable (hardwareInterruptOffset codeSegment : UInt16)
    (idt : UInt8 → GateDescriptor) (v : UInt8) :
    (interruptDescriptorTable hardwareInterruptOffset codeSegment idt v).handler =
      if v - hardwareInterruptOffset.toUInt8 < 16 then
        .handleInterruptRequest (v - hardwareInterruptOffset.toUInt8)
      else if v < 0x14 ∨ v = 0x80 then .handleException v
      else .interruptIgnore := by
  have hentry (n : UInt8) : (hardwareInterruptOffset + n.toUInt16).toUInt8 = v ↔
      n = v - hardwareInterruptOffset.toUInt8 := by
    rw [UInt16.toUInt8_add, UInt8.toUInt8_toUInt16]
    constructor
    · rintro rfl
      grind
    · rintro rfl
      grind
  rw [interruptDescriptorTable]
  simp only [setInterruptDescriptorTableEntry]
  rw [foldl_set_apply]
  cases hreq : requests.reverse.find? fun n =>
      (hardwareInterruptOffset + n.toUInt16).toUInt8 = v with
  | some n =>
    have hn : n = v - hardwareInterruptOffset.toUInt8 :=
      (hentry n).mp (by simpa using List.find?_some hreq)
    have hmem : n ∈ requests := List.mem_reverse.mp (List.mem_of_find?_eq_some hreq)
    rw [← hn, if_pos (mem_requests.mp hmem)]
    rfl
  | none =>
    have hno : ¬ v - hardwareInterruptOffset.toUInt8 < 16 := by
      intro h
      have hall := List.find?_eq_none.mp hreq _ (List.mem_reverse.mpr (mem_requests.mpr h))
      exact hall (by simpa using (hentry _).mpr rfl)
    rw [if_neg hno, Option.map_none, Option.getD_none, foldl_set_apply]
    cases hexc : exceptions.reverse.find? fun n => n = v with
    | some n =>
      have hn : n = v := by simpa using List.find?_some hexc
      have hmem : n ∈ exceptions := List.mem_reverse.mp (List.mem_of_find?_eq_some hexc)
      rw [hn] at hmem
      rw [if_pos (mem_exceptions.mp hmem), hn]
      rfl
    | none =>
      have hno' : ¬ (v < 0x14 ∨ v = 0x80) := by
        intro h
        have hall := List.find?_eq_none.mp hexc _ (List.mem_reverse.mpr (mem_exceptions.mpr h))
        exact hall (by simp)
      rw [if_neg hno', Option.map_none, Option.getD_none]
      exact handler_ignored codeSegment idt v

/-- With the offset of the kernel, a stub stores the number of its own vector. -/
theorem number_eq_of_table {codeSegment : UInt16} {idt : UInt8 → GateDescriptor} {v num : UInt8}
    (h : (interruptDescriptorTable 0x20 codeSegment idt v).handler.number = some num) : num = v := by
  have h20 : (0x20 : UInt16).toUInt8 = irqBase := rfl
  rw [handler_interruptDescriptorTable, h20] at h
  split at h
  · rw [← Option.some.inj h]
    grind
  · split at h
    · exact (Option.some.inj h).symm
    · cases h

end InterruptManager

/-! ## An interrupt -/

/-- The registers that a compiled routine leaves with arbitrary values. -/
structure Scratch where
  ecx : UInt32
  edx : UInt32
  eflags : UInt32

/-- The compiled `HandleInterrupt`: its arguments follow the return address. -/
def handleInterruptRoutine (active : Option InterruptManager) (scratch : Kernel → Scratch) :
    Routine Devices := fun esp k =>
  match InterruptManager.handleInterrupt active (loadByte k.mem (esp + 4)) (load k.mem (esp + 8)) k
    with
  | none => none
  | some (result, k') =>
    let junk := scratch k'
    some ⟨result, junk.ecx, junk.edx, junk.eflags, k'⟩

/-- The exceptions for which the processor pushes an error code. -/
def PushesErrorCode (v : UInt8) : Prop := v = 8 ∨ (10 ≤ v ∧ v ≤ 14) ∨ v = 17

instance (v : UInt8) : Decidable (PushesErrorCode v) := inferInstanceAs (Decidable (_ ∨ _))

/-- The machine at the entry of the routine in a gate. -/
def enter (P : Processor) (image : KernelImage) (gate : GateDescriptor) (v : UInt8)
    (error : UInt32) (M : Machine Devices) : Machine Devices :=
  M.deliver P gate.gdt_codeSegmentSelector (image.address gate.handler)
    (if PushesErrorCode v then some error else none)

/-- **An interrupt**, from the interrupted instruction to the `iret`. -/
def interrupt (P : Processor) (image : KernelImage) (active : Option InterruptManager)
    (scratch : Kernel → Scratch) (gate : GateDescriptor) (v : UInt8) (error : UInt32)
    (M : Machine Devices) : Outcome Devices :=
  run P (handleInterruptRoutine active scratch) (gate.handler.code image)
    (enter P image gate v error M)
