/-
# Interrupt transparency

What the interrupted code can see of an interrupt: in its registers, and in memory.
-/
import HydraOS.InterruptFrame
import HydraOS.SegmentDescriptors

open X86

/-! ## The entry -/

/-- The words that the processor pushes. -/
def entryWords (P : Processor) (v : UInt8) (error : UInt32) (M : Machine Devices) : List UInt32 :=
  [M.regs.eflags, selectorWord P.padCode M.regs.cs (load M.world.mem (M.regs.esp - 8)),
    M.regs.eip] ++ (if PushesErrorCode v then some error else none).toList

/-- The number of bytes that an interrupt pushes, up to the call of `HandleInterrupt`. -/
def stackBytes (v : UInt8) : ℕ := if PushesErrorCode v then 76 else 72

section Entry

variable {P : Processor} {image : KernelImage} {gate : GateDescriptor} {v num : UInt8}
  {error : UInt32} {M : Machine Devices} {x : UInt32}

theorem length_entryWords (P : Processor) (v : UInt8) (error : UInt32) (M : Machine Devices) :
    4 * (entryWords P v error M).length + 60 = stackBytes v := by
  rw [entryWords, stackBytes]
  split <;> rfl

/-- The machine at the entry of a stub. -/
theorem enter_eq : enter P image gate v error M =
    { regs := { M.regs with
        esp := M.regs.esp - 4 * .ofNat (entryWords P v error M).length
        cs := gate.gdt_codeSegmentSelector
        eip := image.address gate.handler
        eflags := M.regs.eflags &&& 0xFFFCBCFF }
      world := { M.world with
        mem := pushWords M.world.mem M.regs.esp (entryWords P v error M) } } := by
  rw [enter, Machine.deliver]
  simp only
  rw [pushAll_eq]
  rfl

theorem code_of_number {stub : Stub} (h : stub.number = some num) :
    stub.code image = .movb num image.interruptnumber :: Stub.intBottom image := by
  cases stub with
  | interruptIgnore => cases h
  | handleException n =>
    cases h
    rfl
  | handleInterruptRequest n =>
    cases h
    rfl

theorem esp_enter_of_error (herror : PushesErrorCode v) :
    (enter P image gate v error M).regs.esp = M.regs.esp - 16 := by
  rw [enter_eq, entryWords, if_pos herror]
  rfl

theorem esp_enter (herror : ¬ PushesErrorCode v) :
    (enter P image gate v error M).regs.esp = M.regs.esp - 12 := by
  rw [enter_eq, entryWords, if_neg herror]
  rfl

theorem stackBytes_cases (v : UInt8) : stackBytes v = 72 ∨ stackBytes v = 76 := by
  rw [stackBytes]
  split
  · exact .inr rfl
  · exact .inl rfl

theorem esp_enter_eq : (enter P image gate v error M).regs.esp =
    M.regs.esp - .ofNat (stackBytes v - 60) := by
  by_cases herror : PushesErrorCode v
  · rw [stackBytes, if_pos herror]
    exact esp_enter_of_error herror
  · rw [stackBytes, if_neg herror]
    exact esp_enter herror

theorem ss_enter (P : Processor) (image : KernelImage) (gate : GateDescriptor) (v : UInt8)
    (error : UInt32) (M : Machine Devices) :
    (enter P image gate v error M).regs.ss = M.regs.ss := by
  rw [enter_eq]

end Entry

/-! ## Registers -/

/-- The words that an interrupt pushes are clear of what else the entry code writes, the
byte `interruptnumber` and the word at address 6.  The kernel is linked at 1 MB, with
`interruptnumber` in its data and its stacks apart from that. -/
def StackClear (image : KernelImage) (esp : UInt32) : Prop :=
  ¬ Below esp 76 image.interruptnumber ∧ ∀ j < 4, ¬ Below esp 76 (6 + .ofNat j)

instance (image : KernelImage) (esp : UInt32) : Decidable (StackClear image esp) :=
  inferInstanceAs (Decidable (_ ∧ _))

/-- The called code leaves the words of the frame that the entry code restores. -/
def KeepsFrame (m m' : Mem) (frame : UInt32) : Prop := restored 0 m' frame = restored 0 m frame

instance (m m' : Mem) (frame : UInt32) : Decidable (KeepsFrame m m' frame) :=
  inferInstanceAs (Decidable (_ = _))

section Registers

variable {P : Processor} {image : KernelImage} {gate : GateDescriptor} {v num : UInt8}
  {error esp frame : UInt32}
  {M : Machine Devices} {m m' : Mem} {r : Returned Devices}

theorem keepsFrame_iff (ss : UInt16) :
    KeepsFrame m m' frame ↔ restored ss m' frame = restored ss m frame := by
  constructor
  · intro h
    have h' := congrArg (fun r : Regs => { r with ss := ss }) h
    exact h'
  · intro h
    have h' := congrArg (fun r : Regs => { r with ss := 0 }) h
    exact h'

/-- The stray store leaves a frame alone that is clear of it. -/
theorem restored_addToSix {ss : UInt16} (hclear : StackClear image (frame + 60)) :
    restored ss (addToSix m esp) frame = restored ss m frame := by
  refine restored_congr fun x hx => ?_
  rw [addToSix, loadByte_store, if_neg]
  intro hlt
  refine hclear.2 _ hlt ?_
  have hx' : 6 + UInt32.ofNat (x - 6).toNat = x := by
    rw [UInt32.ofNat_toNat]
    grind
  rw [hx']
  exact Nat.lt_trans hx (by decide)

/-- Without an error code the frame holds the registers of the interrupted code. -/
theorem restored_enter (herror : ¬ PushesErrorCode v) (hclear : StackClear image M.regs.esp) :
    restored M.regs.ss (callMem P image num (enter P image gate v error M)) (M.regs.esp - 60) =
      M.regs := by
  have hesp : (enter P image gate v error M).regs.esp = M.regs.esp - 12 := esp_enter herror
  have hframe : M.regs.esp - 60 = (enter P image gate v error M).regs.esp - 48 := by
    rw [hesp]
    grind
  have h12 : (enter P image gate v error M).regs.esp + 12 = M.regs.esp := by
    rw [hesp]
    grind
  have hword (i : ℕ) (hi : i < 3) {w : UInt32}
      (hw : (entryWords P v error M)[i]? = some w) :
      load (enter P image gate v error M).world.mem (M.regs.esp - 4 * .ofNat (i + 1)) = w := by
    have hlen := length_entryWords P v error M
    rw [stackBytes, if_neg herror] at hlen
    rw [enter_eq]
    exact load_pushWords rfl (by omega) hw
  have hwords : entryWords P v error M = [M.regs.eflags,
      selectorWord P.padCode M.regs.cs (load M.world.mem (M.regs.esp - 8)), M.regs.eip] := by
    rw [entryWords, if_neg herror]
    rfl
  have heip := hword 2 (by decide) (by rw [hwords]; rfl)
  have hcs := hword 1 (by decide) (by rw [hwords]; rfl)
  have hflags := hword 0 (by decide) (by rw [hwords]; rfl)
  rw [hframe, ← ss_enter P image gate v error M,
    restored_callMem (by rw [h12]; exact fun h => hclear.1 (Nat.lt_trans h (by decide))), h12, hesp]
  rw [show load (enter P image gate v error M).world.mem (M.regs.esp - 12) = _ from heip,
    show M.regs.esp - 12 + 4 = M.regs.esp - 8 by grind,
    show M.regs.esp - 12 + 8 = M.regs.esp - 4 by grind,
    show load (enter P image gate v error M).world.mem (M.regs.esp - 8) = _ from hcs,
    show load (enter P image gate v error M).world.mem (M.regs.esp - 4) = _ from hflags,
    toUInt16_selectorWord, enter_eq]

/-- An interrupt whose C++ code returns goes on with what it has returned, unless a selector
in the frame faults. -/
theorem interrupt_of_handleInterrupt (active : Option InterruptManager)
    (scratch : Kernel → Scratch) {k' : Kernel} (hgate : gate.handler.number = some num)
    (hclear : StackClear image M.regs.esp)
    (hret : InterruptManager.handleInterrupt active num
      ((enter P image gate v error M).regs.esp - 48)
      ⟨callMem P image num (enter P image gate v error M),
        (enter P image gate v error M).world.dev⟩ = some (esp, k')) :
    ∃ (r : Returned Devices) (regs : Regs), interrupt P image active scratch gate v error M =
      (if P.Loads (afterStub (enter P image gate v error M) r).regs then
        .done (afterStub (enter P image gate v error M) r)
      else .fault ⟨regs, (afterStub (enter P image gate v error M) r).world⟩) ∧
        r.eax = esp ∧ r.world = k' := by
  have hN : ¬ Below (enter P image gate v error M).regs.esp 60 image.interruptnumber := by
    intro h
    rw [esp_enter_eq] at h
    have hbytes := stackBytes_cases v
    exact hclear.1 (Nat.lt_of_lt_of_le (h.of_sub (by omega)) (by omega))
  have hcall := handleInterruptRoutine_callMem P num active scratch hN
  rw [hret, Option.map_some] at hcall
  obtain ⟨regs, hrun⟩ := run_stub hcall
  rw [interrupt, code_of_number hgate]
  exact ⟨_, regs, hrun, rfl, rfl⟩

/-- **Interrupt transparency of registers.**  If `HandleInterrupt` returns the stack
pointer it was given, then after the `iret` all registers are as they were if and only if
the vector pushes no error code, the called code has left the frame as it was and the
selectors in the segment registers can be loaded. -/
theorem interrupt_transparency (P : Processor) (image : KernelImage)
    (active : Option InterruptManager) (scratch : Kernel → Scratch) (offset codeSegment : UInt16)
    (idt : UInt8 → GateDescriptor) (v num : UInt8) (error : UInt32) (M : Machine Devices)
    (k' : Kernel) :
    let gate := InterruptManager.interruptDescriptorTable offset codeSegment idt v
    let S := enter P image gate v error M
    let frame := S.regs.esp - 48
    gate.handler.number = some num → StackClear image M.regs.esp →
      InterruptManager.handleInterrupt active num frame ⟨callMem P image num S, S.world.dev⟩ =
        some (frame, k') →
      ((∃ M', interrupt P image active scratch gate v error M = .done M' ∧ M'.regs = M.regs) ↔
        ¬ PushesErrorCode v ∧ KeepsFrame (callMem P image num S) k'.mem frame ∧
          P.Loads M.regs) := by
  intro gate S frame hgate hclear hret
  obtain ⟨r, regs, hrun, hr⟩ := interrupt_of_handleInterrupt active scratch hgate hclear hret
  have hend : (∃ M', interrupt P image active scratch gate v error M = .done M' ∧
      M'.regs = M.regs) ↔ (afterStub S r).regs = M.regs ∧ P.Loads M.regs := by
    rw [hrun]
    constructor
    · rintro ⟨M', hM', hregs⟩
      split at hM'
      · next hloads =>
        cases hM'
        exact ⟨hregs, hregs ▸ hloads⟩
      · cases hM'
    · rintro ⟨hregs, hloads⟩
      rw [if_pos (hregs ▸ hloads)]
      exact ⟨_, rfl, hregs⟩
  rw [hend, afterStub]
  simp only
  rw [hr.1, hr.2, ss_enter]
  by_cases herror : PushesErrorCode v
  · -- the error code is still on the stack
    refine iff_of_false (fun h => ?_) fun h => h.1 herror
    have h' : frame + 60 = M.regs.esp := congrArg Regs.esp h.1
    have hS : S.regs.esp = M.regs.esp - 16 := esp_enter_of_error herror
    have h4 : (4 : UInt32) = 0 := by grind
    exact absurd h4 (by decide)
  · have hS : S.regs.esp = M.regs.esp - 12 := esp_enter herror
    have hframe : frame = M.regs.esp - 60 := by
      show S.regs.esp - 48 = _
      rw [hS]
      grind
    have h60 : M.regs.esp - 60 + 60 = M.regs.esp := UInt32.sub_add_cancel _ _
    rw [hframe, restored_addToSix (by rw [h60]; exact hclear), keepsFrame_iff M.regs.ss,
      restored_enter herror hclear]
    exact ⟨fun h => ⟨herror, h⟩, fun h => h.2⟩

/-- A kernel image. -/
def sampleImage : KernelImage where
  address _ := 0x100010
  interruptnumber := 0x104000
  afterCall := 0x100200
  linked := by decide

/-- A table of empty gates. -/
def emptyTable : UInt8 → GateDescriptor := fun _ => ⟨.interruptIgnore, 0, 0, 0⟩

/-- A machine that runs kernel code, with the selectors of the kernel. -/
def sampleMachine : Machine Devices where
  regs := ⟨1, 2, 3, 4, 0x200000, 5, 6, 7, 0x100010, 0x202, 0x10, 0x18, 0x18, 0x18, 0x18, 0x18⟩
  world := ⟨fun _ => 0, ⟨[], 0, 0, ⟨0, 0, 15, 0⟩, none⟩⟩

/-- A processor with the table of the kernel. -/
def sampleProcessor : Processor :=
  let raw : SegmentDescriptor := ⟨fun _ => 0⟩
  (GlobalDescriptorTable.construct ⟨raw, raw, raw, raw⟩).processor

/-- A timer interrupt without a handler. -/
theorem interrupt_transparency_timer :
    let gate := InterruptManager.interruptDescriptorTable 0x20 16 emptyTable 0x20
    let S := enter sampleProcessor sampleImage gate 0x20 0 sampleMachine
    let frame := S.regs.esp - 48
    (∃ M', interrupt sampleProcessor sampleImage none (fun _ => ⟨0, 0, 0⟩) gate 0x20 0
        sampleMachine = .done M' ∧ M'.regs = sampleMachine.regs) ↔
      ¬ PushesErrorCode 0x20 ∧ KeepsFrame (callMem sampleProcessor sampleImage 0x20 S)
        (callMem sampleProcessor sampleImage 0x20 S) frame ∧
          sampleProcessor.Loads sampleMachine.regs :=
  interrupt_transparency sampleProcessor sampleImage none (fun _ => ⟨0, 0, 0⟩) 0x20 16 emptyTable
    0x20 0x20 0 sampleMachine
    ⟨callMem sampleProcessor sampleImage 0x20 (enter sampleProcessor sampleImage
        (InterruptManager.interruptDescriptorTable 0x20 16 emptyTable 0x20) 0x20 0 sampleMachine),
      sampleMachine.world.dev⟩
    (by decide +kernel) (by decide +kernel) rfl

/-- A general protection fault with error code 0, without a handler, resumes at the error code
as its address, with the lower half of the old address as its code segment and the stack
pointer off by one word. -/
theorem fault_not_transparent :
    (interrupt sampleProcessor sampleImage none (fun _ => ⟨0, 0, 0⟩)
        (InterruptManager.interruptDescriptorTable 0x20 16 emptyTable 13) 13 0
        sampleMachine).done?.map (fun M' => (M'.regs.eip, M'.regs.cs, M'.regs.esp)) =
      some (0, 0x10, sampleMachine.regs.esp - 4) := by
  decide +kernel

end Registers

/-! ## Memory -/

/-- The bytes of two words from the `k`-th on. -/
theorem bytes_eq_iff {x y k : ℕ} (hk : k ≤ 3) (hx : x < 2 ^ 32) (hy : y < 2 ^ 32) :
    (∀ j < 4, k ≤ j → x / 2 ^ (8 * j) % 256 = y / 2 ^ (8 * j) % 256) ↔
      x / 2 ^ (8 * k) = y / 2 ^ (8 * k) := by
  constructor
  · intro h
    have h0 := h 0 (by decide)
    have h1 := h 1 (by decide)
    have h2 := h 2 (by decide)
    have h3 := h 3 (by decide)
    obtain rfl | rfl | rfl | rfl : k = 0 ∨ k = 1 ∨ k = 2 ∨ k = 3 := by omega
    all_goals omega
  · intro h j hj hkj
    have hsplit : 2 ^ (8 * j) = 2 ^ (8 * k) * 2 ^ (8 * (j - k)) := by
      rw [← Nat.pow_add]
      congr 1
      omega
    rw [hsplit, ← Nat.div_div_eq_div_mul, ← Nat.div_div_eq_div_mul, h]

/-- Subtracting less than a byte leaves the bytes from the `k`-th on if it does not
borrow from them. -/
theorem sub_div_eq_iff {x y c k : ℕ} (hk : 1 ≤ k) (hk' : k ≤ 3) (hy : y < 2 ^ 32) (hc : 0 < c)
    (hcb : c < 256) (hx : x = (y + (2 ^ 32 - c)) % 2 ^ 32) :
    x / 2 ^ (8 * k) = y / 2 ^ (8 * k) ↔ c ≤ y % 2 ^ (8 * k) := by
  have hx' : (c ≤ y ∧ x = y - c) ∨ (y < c ∧ x = y + 2 ^ 32 - c) := by omega
  clear hx
  obtain rfl | rfl | rfl : k = 1 ∨ k = 2 ∨ k = 3 := by omega
  · omega
  · omega
  · omega

/-- All bytes that the stray store changes are on the interrupted stack: either the
whole word at address 6 is, or the stack starts inside it and what the addition changes
stays below that. -/
def StrayStoreHidden (v : UInt8) (r : Regs) : Prop :=
  (10 ≤ r.esp.toNat ∧ r.esp.toNat ≤ stackBytes v + 6) ∨
    (7 ≤ r.esp.toNat ∧ r.esp.toNat ≤ 9 ∧
      stackBytes v - 4 - r.esp.toNat ≤ r.eflags.toNat / 2 ^ (8 * (10 - r.esp.toNat)))

instance (v : UInt8) (r : Regs) : Decidable (StrayStoreHidden v r) :=
  inferInstanceAs (Decidable (_ ∨ _))

section Memory

variable {P : Processor} {image : KernelImage} {gate : GateDescriptor} {v num : UInt8}
  {error e x a b : UInt32}
  {M : Machine Devices} {m : Mem} {j n k : ℕ}

/-- Which of the bytes from address 6 on are on the stack. -/
theorem below_six_iff (hj : j < 4) :
    Below e n (6 + .ofNat j) ↔ (e.toNat + 2 ^ 32 - (7 + j)) % 2 ^ 32 < n := by
  have hsub : e - 1 - (6 + UInt32.ofNat j) = e - .ofNat (7 + j) := by
    rw [UInt32.ofNat_add]
    have h7 : UInt32.ofNat 7 = 7 := rfl
    grind
  have he := e.toNat_lt
  rw [Below, hsub, UInt32.toNat_sub, UInt32.toNat_ofNat']
  have hmod : (7 + j) % 2 ^ 32 = 7 + j := Nat.mod_eq_of_lt (by omega)
  rw [hmod, show 2 ^ 32 - (7 + j) + e.toNat = e.toNat + 2 ^ 32 - (7 + j) by omega]

theorem wordByte_eq_iff : Mem.wordByte a j = Mem.wordByte b j ↔
    a.toNat / 2 ^ (8 * j) % 256 = b.toNat / 2 ^ (8 * j) % 256 := by
  rw [Mem.wordByte, Mem.wordByte, ← UInt8.toNat_inj, UInt8.toNat_ofNat', UInt8.toNat_ofNat']

theorem byte_eq_of_wordByte_eq (h : Mem.wordByte a j = Mem.wordByte b k) :
    a.toNat / 2 ^ (8 * j) % 256 = b.toNat / 2 ^ (8 * k) % 256 := by
  rwa [Mem.wordByte, Mem.wordByte, ← UInt8.toNat_inj, UInt8.toNat_ofNat', UInt8.toNat_ofNat'] at h

/-- A byte after the stray store. -/
theorem loadByte_addToSix : loadByte (addToSix m a) x =
    if (x - 6).toNat < 4 then Mem.wordByte (load m 6 + a) (x - 6).toNat else loadByte m x :=
  loadByte_store

theorem six_add_sub : (6 + UInt32.ofNat j) - 6 = .ofNat j := by grind

/-- Off the stack and the byte `interruptnumber`, the memory with which the C++ code is
called is that of the interrupted code. -/
theorem loadByte_callMem_enter (gate : GateDescriptor) (num : UInt8) (error : UInt32)
    (hN : x ≠ image.interruptnumber)
    (hx : ¬ Below M.regs.esp (stackBytes v) x) :
    loadByte (callMem P image num (enter P image gate v error M)) x = loadByte M.world.mem x := by
  have hlen := length_entryWords P v error M
  rw [loadByte_callMem, if_neg hN, enter_eq]
  · exact loadByte_pushWords fun h => hx (Nat.lt_of_lt_of_le h (by omega))
  · rw [esp_enter_eq]
    intro h
    have hbytes := stackBytes_cases v
    have h' := h.of_sub (by omega)
    rw [show 60 + (stackBytes v - 60) = stackBytes v by omega] at h'
    exact hx h'

/-- What the stray store may change, byte by byte. -/
theorem unchanged_iff (hm : m = callMem P image num (enter P image gate v error M)) :
    (∀ x, x ≠ image.interruptnumber → ¬ Below M.regs.esp (stackBytes v) x →
        loadByte (addToSix m a) x = loadByte M.world.mem x) ↔
      ∀ j < 4, ¬ Below M.regs.esp (stackBytes v) (6 + .ofNat j) →
        Mem.wordByte (load m 6 + a) j = Mem.wordByte (load m 6) j := by
  constructor
  · intro h j hj hoff
    have hN : (6 + UInt32.ofNat j) ≠ image.interruptnumber := by
      intro h
      have hlinked := image.linked
      rw [← h, UInt32.toNat_add, UInt32.toNat_ofNat'] at hlinked
      have h6 : (6 : UInt32).toNat = 6 := rfl
      omega
    have hsame := h _ hN hoff
    rw [← loadByte_callMem_enter gate num error hN hoff, ← hm,
      loadByte_addToSix, six_add_sub, loadByte_add hj] at hsame
    have hj' : (UInt32.ofNat j).toNat = j := by
      rw [UInt32.toNat_ofNat']
      omega
    rwa [hj', if_pos hj] at hsame
  · intro h x hN hoff
    rw [← loadByte_callMem_enter gate num error hN hoff, ← hm,
      loadByte_addToSix]
    by_cases hx : (x - 6).toNat < 4
    · have hx' : 6 + UInt32.ofNat (x - 6).toNat = x := by
        rw [UInt32.ofNat_toNat]
        grind
      have hbyte := h _ hx (by rw [hx']; exact hoff)
      rw [if_pos hx, hbyte, ← loadByte_add hx, hx']
    · rw [if_neg hx]

/-- The bytes of the saved `EFLAGS` are on top of the stack. -/
theorem loadByte_flags (hj : j < 4) (hN : M.regs.esp - 4 + .ofNat j ≠ image.interruptnumber) :
    loadByte (callMem P image num (enter P image gate v error M)) (M.regs.esp - 4 + .ofNat j) =
      Mem.wordByte M.regs.eflags j := by
  have hlen := length_entryWords P v error M
  have hbytes := stackBytes_cases v
  have hflags : load (pushWords M.world.mem M.regs.esp (entryWords P v error M))
      (M.regs.esp - 4) = M.regs.eflags :=
    load_pushWords (i := 0) rfl (by omega) rfl
  rw [loadByte_callMem, if_neg hN, enter_eq]
  · simp only
    rw [loadByte_add hj, hflags]
  · rw [esp_enter_eq, Below]
    have hsub : M.regs.esp - .ofNat (stackBytes v - 60) - 1 - (M.regs.esp - 4 + .ofNat j) =
        3 - .ofNat (stackBytes v - 60 + j) := by
      rw [UInt32.ofNat_add]
      grind
    have h3 : (3 : UInt32).toNat = 3 := rfl
    rw [hsub, UInt32.toNat_sub, UInt32.toNat_ofNat', h3]
    omega

/-- When the stack starts inside the word at address 6, the bytes of the word that are on
the stack are those of the saved `EFLAGS`. -/
theorem low_bytes_eq (h7 : 7 ≤ M.regs.esp.toNat) (h9 : M.regs.esp.toNat ≤ 9)
    (hm : m = callMem P image num (enter P image gate v error M)) :
    (load m 6).toNat % 2 ^ (8 * (M.regs.esp.toNat - 6)) =
      M.regs.eflags.toNat / 2 ^ (8 * (10 - M.regs.esp.toNat)) := by
  obtain ⟨e, he⟩ : ∃ e, M.regs.esp.toNat = e := ⟨_, rfl⟩
  have hesp : M.regs.esp = .ofNat e := by rw [← he, UInt32.ofNat_toNat]
  -- byte `j` of the word lies `10 - e + j` bytes into the saved `EFLAGS`
  have hbyte (j : ℕ) (hj : 6 + j < e) : (load m 6).toNat / 2 ^ (8 * j) % 256 =
      M.regs.eflags.toNat / 2 ^ (8 * (10 - e + j)) % 256 := by
    have haddr : M.regs.esp - 4 + .ofNat (10 - e + j) = 6 + UInt32.ofNat j := by
      have hten : UInt32.ofNat (10 - e + e) = 10 := by rw [Nat.sub_add_cancel (by omega)]; rfl
      rw [UInt32.ofNat_add] at hten
      rw [hesp, UInt32.ofNat_add]
      grind
    have hN : M.regs.esp - 4 + .ofNat (10 - e + j) ≠ image.interruptnumber := by
      rw [haddr]
      intro h
      have hlinked := image.linked
      have h6 : (6 : UInt32).toNat = 6 := rfl
      rw [← h, UInt32.toNat_add, UInt32.toNat_ofNat'] at hlinked
      omega
    have hflags : loadByte (callMem P image num (enter P image gate v error M)) _ = _ :=
      loadByte_flags (by omega : 10 - e + j < 4) hN
    rw [haddr, ← hm, loadByte_add (by omega : j < 4)] at hflags
    exact byte_eq_of_wordByte_eq hflags
  have hD := (load m 6).toNat_lt
  have hf := M.regs.eflags.toNat_lt
  rw [he] at h7 h9 ⊢
  obtain rfl | rfl | rfl : e = 7 ∨ e = 8 ∨ e = 9 := by omega
  · have h0 := hbyte 0 (by omega)
    omega
  · have h0 := hbyte 0 (by omega)
    have h1 := hbyte 1 (by omega)
    omega
  · have h0 := hbyte 0 (by omega)
    have h1 := hbyte 1 (by omega)
    have h2 := hbyte 2 (by omega)
    omega

/-- The sum that `add %esp, 6` stores, as a number. -/
theorem toNat_addSix (P : Processor) (image : KernelImage) (gate : GateDescriptor) (v : UInt8)
    (error : UInt32) (M : Machine Devices) (D : UInt32) :
    (D + ((enter P image gate v error M).regs.esp - 56)).toNat =
      (D.toNat + (M.regs.esp.toNat + 2 ^ 32 - (stackBytes v - 4)) % 2 ^ 32) % 2 ^ 32 := by
  have hbytes := stackBytes_cases v
  have h56 : (enter P image gate v error M).regs.esp - 56 =
      M.regs.esp - .ofNat (stackBytes v - 4) := by
    rw [esp_enter_eq, show stackBytes v - 4 = stackBytes v - 60 + 56 by omega, UInt32.ofNat_add]
    have h56 : UInt32.ofNat 56 = 56 := rfl
    grind
  have hmod : (stackBytes v - 4) % 2 ^ 32 = stackBytes v - 4 := Nat.mod_eq_of_lt (by omega)
  rw [h56, UInt32.toNat_add, UInt32.toNat_sub, UInt32.toNat_ofNat', hmod,
    show 2 ^ 32 - (stackBytes v - 4) + M.regs.esp.toNat =
      M.regs.esp.toNat + 2 ^ 32 - (stackBytes v - 4) by omega]

/-- The bytes of the word at address 6 that are off the stack, as numbers. -/
theorem bytesAtSix_iff (D X : UInt32) :
    (∀ j < 4, ¬ Below M.regs.esp (stackBytes v) (6 + .ofNat j) →
        Mem.wordByte X j = Mem.wordByte D j) ↔
      ∀ j < 4, ¬ (M.regs.esp.toNat + 2 ^ 32 - (7 + j)) % 2 ^ 32 < stackBytes v →
        X.toNat / 2 ^ (8 * j) % 256 = D.toNat / 2 ^ (8 * j) % 256 := by
  refine forall_congr' fun j => forall_congr' fun hj => ?_
  rw [below_six_iff hj, wordByte_eq_iff]

/-- **When the stray store is hidden.** -/
theorem strayStoreHidden_iff (hm : m = callMem P image num (enter P image gate v error M)) :
    (∀ j < 4, ¬ Below M.regs.esp (stackBytes v) (6 + .ofNat j) →
        Mem.wordByte (load m 6 + ((enter P image gate v error M).regs.esp - 56)) j =
          Mem.wordByte (load m 6) j) ↔ StrayStoreHidden v M.regs := by
  have hlow : 7 ≤ M.regs.esp.toNat → M.regs.esp.toNat ≤ 9 →
      (load m 6).toNat % 2 ^ (8 * (M.regs.esp.toNat - 6)) =
        M.regs.eflags.toNat / 2 ^ (8 * (10 - M.regs.esp.toNat)) :=
    fun h7 h9 => low_bytes_eq h7 h9 hm
  obtain ⟨D, hD⟩ : ∃ D, load m 6 = D := ⟨_, rfl⟩
  obtain ⟨e, he⟩ : ∃ e, M.regs.esp.toNat = e := ⟨_, rfl⟩
  obtain ⟨d, hd⟩ : ∃ d, stackBytes v = d := ⟨_, rfl⟩
  have hbytes := stackBytes_cases v
  have helt := M.regs.esp.toNat_lt
  have hDlt := D.toNat_lt
  obtain ⟨X, hX⟩ : ∃ X, D + ((enter P image gate v error M).regs.esp - 56) = X := ⟨_, rfl⟩
  have hXlt := X.toNat_lt
  have hsum := toNat_addSix P image gate v error M D
  rw [hX, he, hd] at hsum
  rw [hD, hX, bytesAtSix_iff, StrayStoreHidden, he, hd]
  rw [hd] at hbytes
  rw [hD, he] at hlow
  by_cases hin : 10 ≤ e ∧ e ≤ d + 6
  · exact iff_of_true (fun j hj hoff => absurd (by omega) hoff) (.inl hin)
  by_cases hpart : 7 ≤ e ∧ e ≤ 9
  · -- the bytes from `e` on are off the stack
    have hoff : (∀ j < 4, ¬ (e + 2 ^ 32 - (7 + j)) % 2 ^ 32 < d →
          X.toNat / 2 ^ (8 * j) % 256 = D.toNat / 2 ^ (8 * j) % 256) ↔
        ∀ j < 4, e - 6 ≤ j → X.toNat / 2 ^ (8 * j) % 256 = D.toNat / 2 ^ (8 * j) % 256 := by
      refine forall_congr' fun j => forall_congr' fun hj => ?_
      have hiff : ¬ (e + 2 ^ 32 - (7 + j)) % 2 ^ 32 < d ↔ e - 6 ≤ j := by omega
      rw [hiff]
    rw [hoff, bytes_eq_iff (by omega) hXlt hDlt,
      sub_div_eq_iff (c := d - 4 - e) (by omega) (by omega) hDlt (by omega) (by omega)
        (by rw [hsum]; congr 2; omega), hlow hpart.1 hpart.2]
    constructor
    · exact fun h => .inr ⟨hpart.1, hpart.2, h⟩
    · rintro (h | ⟨-, -, h⟩)
      · omega
      · exact h
  · -- a byte off the stack changes
    refine iff_of_false (fun h => ?_) (by omega)
    by_cases hend : e = d + 7 ∨ e = d + 8 ∨ e = d + 9
    · have h0 := h 0 (by decide) (by omega)
      rw [hsum] at h0
      omega
    · have hall := (bytes_eq_iff (k := 0) (by decide) hXlt hDlt).mp fun j hj _ =>
        h j hj (by omega)
      rw [hsum] at hall
      omega

/-- **Interrupt transparency of memory.**  If the C++ code writes nothing, then an
interrupt, up to the end of the stub or to a selector that faults, changes nothing but the
byte `interruptnumber` and the words it pushes if and only if what `add %esp, 6` changes is
among these words. -/
theorem memory_transparency (P : Processor) (image : KernelImage)
    (active : Option InterruptManager) (scratch : Kernel → Scratch) (offset codeSegment : UInt16)
    (idt : UInt8 → GateDescriptor) (v num : UInt8) (error : UInt32) (M : Machine Devices)
    (r : Returned Devices) :
    let gate := InterruptManager.interruptDescriptorTable offset codeSegment idt v
    let S := enter P image gate v error M
    gate.handler.number = some num →
      handleInterruptRoutine active scratch (S.regs.esp - 60)
        ⟨callMem P image num S, S.world.dev⟩ = some r →
      r.world.mem = callMem P image num S →
      ((∃ M', (interrupt P image active scratch gate v error M).last = some M' ∧
          ∀ x, x ≠ image.interruptnumber → ¬ Below M.regs.esp (stackBytes v) x →
            loadByte M'.world.mem x = loadByte M.world.mem x) ↔
        StrayStoreHidden v M.regs) := by
  intro gate S hgate hcall hmem
  -- a selector that faults comes after the stray store, so the memory is the same
  obtain ⟨M1, hlast, hM1⟩ : ∃ M1, (interrupt P image active scratch gate v error M).last =
      some M1 ∧ M1.world = (afterStub S r).world := by
    obtain ⟨regs, hrun⟩ := run_stub hcall
    rw [interrupt, code_of_number hgate, hrun]
    split
    · exact ⟨_, rfl, rfl⟩
    · exact ⟨_, rfl, rfl⟩
  rw [← strayStoreHidden_iff (M := M) hmem, ← unchanged_iff hmem, hlast]
  constructor
  · rintro ⟨M', hM', h⟩
    rw [← Option.some.inj hM', hM1] at h
    exact h
  · intro h
    refine ⟨M1, rfl, ?_⟩
    rw [hM1]
    exact h

/-- A timer interrupt without a handler. -/
theorem memory_transparency_timer :
    let gate := InterruptManager.interruptDescriptorTable 0x20 16 emptyTable 0x20
    (∃ M', (interrupt sampleProcessor sampleImage none (fun _ => ⟨0, 0, 0⟩) gate 0x20 0
        sampleMachine).last = some M' ∧
        ∀ x, x ≠ sampleImage.interruptnumber →
          ¬ Below sampleMachine.regs.esp (stackBytes 0x20) x →
            loadByte M'.world.mem x = loadByte sampleMachine.world.mem x) ↔
      StrayStoreHidden 0x20 sampleMachine.regs :=
  memory_transparency sampleProcessor sampleImage none (fun _ => ⟨0, 0, 0⟩) 0x20 16 emptyTable
    0x20 0x20 0 sampleMachine
    ⟨_, 0, 0, 0, ⟨callMem sampleProcessor sampleImage 0x20 (enter sampleProcessor sampleImage
        (InterruptManager.interruptDescriptorTable 0x20 16 emptyTable 0x20) 0x20 0 sampleMachine),
      sampleMachine.world.dev⟩⟩
    (by decide +kernel) rfl rfl

/-- A timer interrupt changes the byte at address 6. -/
theorem timer_writes_six :
    let gate := InterruptManager.interruptDescriptorTable 0x20 16 emptyTable 0x20
    6 ≠ sampleImage.interruptnumber ∧ ¬ Below sampleMachine.regs.esp (stackBytes 0x20) 6 ∧
      loadByte sampleMachine.world.mem 6 = 0 ∧
      (interrupt sampleProcessor sampleImage none (fun _ => ⟨0, 0, 0⟩) gate 0x20 0
        sampleMachine).done?.map (fun M' => loadByte M'.world.mem 6) = some 0xBC := by
  decide +kernel

end Memory
