/-
# System calls: `syscalls.cpp`

The handler of `int $0x80` reads its arguments through `CPUState`, whose first words are
`eax`, `ebx`, `ecx` and `edx`.  The frame that it gets from the entry code starts with
the saved `GS`, `FS`, `ES` and `DS`.
-/
import HydraOS.Transparency
import HydraOS.HeapRuns

open X86 BlockList

/-! ## The handler -/

namespace CPUState

/-- `cpu->eax`, and the other fields that the handler reads. -/
def eax (m : Mem) (cpu : UInt32) : UInt32 := load m cpu
def ebx (m : Mem) (cpu : UInt32) : UInt32 := load m (cpu + 4)
def ecx (m : Mem) (cpu : UInt32) : UInt32 := load m (cpu + 8)
def edx (m : Mem) (cpu : UInt32) : UInt32 := load m (cpu + 12)

/-- `cpu->eax = v`. -/
def setEax (m : Mem) (cpu v : UInt32) : Mem := store m cpu v

end CPUState

/-- `malloc` of `memory.cpp`. -/
def kernelMalloc (size : UInt32) (k : Kernel) : Option (UInt32 × Kernel) :=
  match k.dev.activeMemoryManager with
  | none => some (0, k)
  | some first => do
    let (p, h) ← MemoryManager.malloc Arith.wrapping ⟨k.mem, first⟩ size.toNat
    pure (.ofNat p, { k with mem := h.mem })

/-- `free` of `memory.cpp`. -/
def kernelFree (ptr : UInt32) (k : Kernel) : Option Kernel :=
  match k.dev.activeMemoryManager with
  | none => some k
  | some first => do
    let h ← MemoryManager.free Arith.wrapping ⟨k.mem, first⟩ ptr.toNat
    pure { k with mem := h.mem }

/-- A `SystemCallHandler`; `vga` says whether its pointer is not null. -/
structure SystemCallHandler where
  vga : Bool

namespace SystemCallHandler

/-- What a system call gets. -/
structure Request where
  syscallNumber : UInt32
  arg1 : UInt32
  arg2 : UInt32
  arg3 : UInt32
  deriving DecidableEq

/-- What the handler reads from the frame at the address `esp`. -/
def request (m : Mem) (esp : UInt32) : Request where
  syscallNumber := CPUState.eax m esp
  arg1 := CPUState.ebx m esp
  arg2 := CPUState.ecx m esp
  arg3 := CPUState.edx m esp

/-- The case `SYSCALL_PRINTF`. -/
def syscallPrintf (self : SystemCallHandler) (arg1 : UInt32) (k : Kernel) : Option Kernel :=
  if self.vga then do
    let k := VGATextMode.setColor VGATextMode.lightBrown VGATextMode.black k
    let k ← VGATextMode.print (literal "[SYSCALL START] arg1=0x") k
    let k := VGATextMode.printHex32 arg1 k
    let k ← VGATextMode.print (literal "\n") k
    let k ← if arg1 ≠ 0 then do
        let k ← VGATextMode.print (literal "String ptr: 0x") k
        let k := VGATextMode.printHex32 arg1 k
        let k ← VGATextMode.print (literal " Content: ") k
        let k := VGATextMode.setColor VGATextMode.white VGATextMode.black k
        VGATextMode.print (charsAt arg1) k
      else VGATextMode.print (literal "(null string)\n") k
    let k := VGATextMode.setColor VGATextMode.lightBrown VGATextMode.black k
    let k ← VGATextMode.print (literal "[SYSCALL END]\n") k
    pure (VGATextMode.setColor VGATextMode.white VGATextMode.black k)
  else some k

/-- The `switch`: the value for `cpu->eax` and the kernel before it is stored. -/
def serve (self : SystemCallHandler) (q : Request) (k : Kernel) : Option (UInt32 × Kernel) :=
  match q.syscallNumber.toNat with
  | 1 => (self.syscallPrintf q.arg1 k).map fun k => (0, k)
  | 2 => some (0, k)
  | 3 => some (q.arg1, k)
  -- `asm volatile("nop")`, `arg1 * 1000` times
  | 4 => some (0, forLoop (fun _ => true) (fun _ k => k) (q.arg1 * 1000).toNat 0 k)
  | 5 => some (0, k)
  | 6 => kernelMalloc q.arg1 k
  | 7 => (kernelFree q.arg1 k).map fun k => (0, k)
  | _ => some (0xFFFFFFFF, k)

/-- `HandleInterrupt`. -/
def handleInterrupt (self : SystemCallHandler) : InterruptHandler := fun esp k => do
  let (result, k) ← self.serve (request k.mem esp) k
  pure (esp, { k with mem := CPUState.setEax k.mem esp result })

end SystemCallHandler

/-! ## The heap during a call -/

section Heap

variable {R : Region} {bs : List Block} {m m' : Mem} {first : ℕ} {k k' : Kernel} {p size : UInt32}

/-- A layout depends only on the bytes of the region. -/
theorem Layout.congr (hl : Layout R ⟨m, first⟩ bs)
    (h : ∀ c, R.start ≤ c → c < R.stop → m'.byte c = m.byte c) : Layout R ⟨m', first⟩ bs := by
  refine ⟨hl.first, hl.tiles, hl.coalesced, hl.linked.congr fun b hb => ?_⟩
  obtain ⟨-, hstart, hstop, -⟩ := hl.bounds hb
  exact header_congr fun i hi => h _ (by omega) (by omega)

/-- `malloc` returns null or an address in the region, and changes no byte outside it. -/
theorem kernelMalloc_spec (hactive : k.dev.activeMemoryManager = some first)
    (hl : Layout R ⟨k.mem, first⟩ bs) (h : kernelMalloc size k = some (p, k')) :
    (p = 0 ∨ 16 < p.toNat) ∧ ∀ x : UInt32, x.toNat < R.start ∨ R.stop ≤ x.toNat →
      loadByte k'.mem x = loadByte k.mem x := by
  rw [kernelMalloc, hactive] at h
  simp only at h
  rcases malloc_spec Arith.exact_wrapping hl size.toNat with
    ⟨-, hnull⟩ | ⟨q, bs', h', halloc, hsome, hl', hframe⟩
  · rw [hnull] at h
    cases h
    exact ⟨.inl rfl, fun _ _ => rfl⟩
  · rw [hsome] at h
    cases h
    obtain ⟨b, hb, d, -, rfl, -⟩ := allocate_used fits_spec halloc
    obtain ⟨hpos, -, hstop, hstop'⟩ := hl.bounds hb
    refine ⟨?_, fun x hx => hframe _ x.toNat_lt fun a ha => ?_⟩
    · simp only
      by_cases hend : b.addr + 16 = 2 ^ 32
      · rw [hend]
        exact .inl (by decide)
      · right
        rw [UInt32.toNat_ofNat', Nat.mod_eq_of_lt (by omega)]
        omega
    · obtain ⟨c, hc, rfl⟩ := List.mem_map.mp ha
      have hbounds := hl'.bounds hc
      omega

end Heap

/-! ## The interface of system calls -/

/-- The heap of the kernel is well formed and apart from what the entry code writes. -/
def HeapApart (image : KernelImage) (M : Machine Devices) : Prop :=
  ∀ first, M.world.dev.activeMemoryManager = some first →
    ∃ (R : Region) (bs : List Block), Layout R ⟨M.world.mem, first⟩ bs ∧
      ∀ x : UInt32, x = image.interruptnumber ∨ Below M.regs.esp 72 x →
        x.toNat < R.start ∨ R.stop ≤ x.toNat

/-- **The interface**: the handler reads the registers of the interrupted code; after the
`iret`, `EAX` is what the handler has stored in `cpu->eax` and the other general and
segment registers are unchanged. -/
def SyscallAbi (P : Processor) (image : KernelImage) (im : InterruptManager)
    (self : SystemCallHandler) (scratch : Kernel → Scratch) (gate : GateDescriptor)
    (M : Machine Devices) : Prop :=
  let S := enter P image gate 0x80 0 M
  let cpu := S.regs.esp - 48
  let k : Kernel := ⟨callMem P image 0x80 S, S.world.dev⟩
  SystemCallHandler.request k.mem cpu =
      ⟨M.regs.eax, M.regs.ebx, M.regs.ecx, M.regs.edx⟩ ∧
    ∃ k' M', self.handleInterrupt cpu k = some (cpu, k') ∧
      interrupt P image (some im) scratch gate 0x80 0 M = .done M' ∧
      M'.regs = { M.regs with
        eax := CPUState.eax k'.mem cpu, eip := M'.regs.eip, eflags := M'.regs.eflags }

/-- The words from which the handler takes its arguments: the four data segment registers,
each pushed over a word of the stack. -/
def selectorWords (P : Processor) (M : Machine Devices) : SystemCallHandler.Request where
  syscallNumber := selectorWord P.pad M.regs.gs (load M.world.mem (M.regs.esp - 60))
  arg1 := selectorWord P.pad M.regs.fs (load M.world.mem (M.regs.esp - 56))
  arg2 := selectorWord P.pad M.regs.es (load M.world.mem (M.regs.esp - 52))
  arg3 := selectorWord P.pad M.regs.ds (load M.world.mem (M.regs.esp - 48))

section Abi

variable {P : Processor} {image : KernelImage} {im : InterruptManager} {self : SystemCallHandler}
  {scratch : Kernel → Scratch} {gate : GateDescriptor} {M : Machine Devices} {num : UInt8}
  {m : Mem} {a v x : UInt32} {k k' : Kernel} {result : UInt32}

theorem esp_enter_syscall : (enter P image gate 0x80 0 M).regs.esp = M.regs.esp - 12 :=
  esp_enter (by decide)

/-- The address of the frame that the handler gets. -/
theorem cpu_eq : (enter P image gate 0x80 0 M).regs.esp - 48 = M.regs.esp - 60 := by
  rw [esp_enter_syscall]
  grind

theorem dev_enter : (enter P image gate 0x80 0 M).world.dev = M.world.dev := by rw [enter_eq]

/-- The first word of the frame comes back as `GS`. -/
theorem gs_restored (ss : UInt16) (m : Mem) (e : UInt32) :
    (restored ss m e).gs = (load m e).toUInt16 := rfl

/-- The last word of the frame comes back as `EAX`. -/
theorem eax_restored (ss : UInt16) (m : Mem) (e : UInt32) :
    (restored ss m (e - 60)).eax = load m (e - 16) := by
  have h44 : e - 60 + 44 = e - 16 := by grind
  rw [← h44]
  rfl

/-- The entry code saves `EAX` sixteen bytes below the interrupted stack pointer. -/
theorem load_savedEax (P : Processor) (image : KernelImage) (gate : GateDescriptor)
    (M : Machine Devices) :
    load (callMem P image 0x80 (enter P image gate 0x80 0 M)) (M.regs.esp - 16) = M.regs.eax := by
  refine load_callMem (i := 0) ?_ (by rw [enter_eq]; rfl)
  rw [esp_enter_syscall]
  have h4 : 4 * UInt32.ofNat (0 + 1) = 4 := rfl
  grind

/-- The words in which the segment registers are saved, until then. -/
theorem load_unused (P : Processor) (gate : GateDescriptor) (hclear : StackClear image M.regs.esp)
    {n : ℕ} (hn : 16 ≤ n) (hn' : n ≤ 76) :
    load (numberMem image 0x80 (enter P image gate 0x80 0 M)) (M.regs.esp - .ofNat n) =
      load M.world.mem (M.regs.esp - .ofNat n) := by
  refine load_congr fun i hi => ?_
  have hbelow := below_add (e := M.regs.esp) (n := n) (show i < n by omega) (by omega)
  have hoff : M.regs.esp - 1 - (M.regs.esp - .ofNat n + .ofNat i) = .ofNat n - .ofNat (i + 1) := by
    have h1 : UInt32.ofNat 1 = 1 := rfl
    rw [UInt32.ofNat_add i 1]
    grind
  have hlen := length_entryWords P 0x80 0 M
  have hbytes : stackBytes 0x80 = 72 := by decide
  rw [numberMem, loadByte_storeByte, if_neg, enter_eq]
  · refine loadByte_pushWords fun h => ?_
    rw [Below, hoff, UInt32.toNat_sub, UInt32.toNat_ofNat', UInt32.toNat_ofNat'] at h
    omega
  · intro hx
    rw [hx] at hbelow
    exact hclear.1 (Nat.lt_of_lt_of_le hbelow hn')

/-- The handler reads the saved segment registers. -/
theorem request_callMem (P : Processor) (gate : GateDescriptor)
    (hclear : StackClear image M.regs.esp) :
    SystemCallHandler.request (callMem P image 0x80 (enter P image gate 0x80 0 M))
        (M.regs.esp - 60) = selectorWords P M := by
  have hword (i n : ℕ) (hn : 4 * (i + 1) + n = 48) {w : UInt32}
      (hw : (savedWords P (numberMem image 0x80 (enter P image gate 0x80 0 M))
        (enter P image gate 0x80 0 M).regs)[i]? = some w) :=
    load_frame P image 0x80 hn hw
  have hold (i : ℕ) (c : UInt32) (hi : 36 ≤ i) (hi' : i ≤ 48) (hc : .ofNat (12 + i) = c) :
      load (numberMem image 0x80 (enter P image gate 0x80 0 M))
        ((enter P image gate 0x80 0 M).regs.esp - .ofNat i) =
          load M.world.mem (M.regs.esp - c) := by
    have haddr : (enter P image gate 0x80 0 M).regs.esp - .ofNat i =
        M.regs.esp - .ofNat (12 + i) := by
      have h12 : UInt32.ofNat 12 = 12 := rfl
      rw [esp_enter_syscall, UInt32.ofNat_add 12 i]
      grind
    rw [haddr, load_unused P gate hclear (by omega) (by omega), hc]
  have hgs := hword 11 0 rfl rfl
  rw [show ∀ c : UInt32, c + UInt32.ofNat 0 = c from UInt32.add_zero] at hgs
  rw [← @cpu_eq P image gate, SystemCallHandler.request, CPUState.eax,
    CPUState.ebx, CPUState.ecx, CPUState.edx, hgs,
    show load _ (_ + 4) = _ from hword 10 4 rfl rfl,
    show load _ (_ + 8) = _ from hword 9 8 rfl rfl,
    show load _ (_ + 12) = _ from hword 8 12 rfl rfl,
    show load _ (_ - 36) = _ from hold 36 48 (by decide) (by decide) rfl,
    show load _ (_ - 40) = _ from hold 40 52 (by decide) (by decide) rfl,
    show load _ (_ - 44) = _ from hold 44 56 (by decide) (by decide) rfl,
    show load _ (_ - 48) = _ from hold 48 60 (by decide) (by decide) rfl, enter_eq]
  rfl

/-- After the handler, acknowledging the interrupt does not touch the memory. -/
theorem doHandleInterrupt_of_handler {handler : InterruptHandler} {esp esp' : UInt32}
    (hhandler : im.handlers num = some handler) (h : handler esp k = some (esp', k')) :
    ∃ k'', im.doHandleInterrupt num esp k = some (esp', k'') ∧ k''.mem = k'.mem := by
  rw [InterruptManager.doHandleInterrupt, hhandler]
  simp only [h, Option.bind_eq_bind, Option.bind_some, Option.pure_def]
  refine ⟨_, rfl, ?_⟩
  split
  · split <;> rfl
  · rfl

/-- The registers after a system call. -/
theorem interrupt_syscall (scratch : Kernel → Scratch)
    (hgate : gate.handler = .handleException 0x80)
    (hhandler : im.handlers 0x80 = some self.handleInterrupt)
    (hclear : StackClear image M.regs.esp)
    (hcall : self.handleInterrupt (M.regs.esp - 60)
      ⟨callMem P image 0x80 (enter P image gate 0x80 0 M), M.world.dev⟩ =
        some (M.regs.esp - 60, k')) :
    ∃ (M' : Machine Devices) (regs : Regs), interrupt P image (some im) scratch gate 0x80 0 M =
        (if P.Loads M'.regs then .done M' else .fault ⟨regs, M'.world⟩) ∧
      M'.regs = restored M.regs.ss k'.mem (M.regs.esp - 60) := by
  obtain ⟨k'', hdo, hmem⟩ := doHandleInterrupt_of_handler hhandler hcall
  obtain ⟨r, regs, hrun, heax, hworld⟩ := interrupt_of_handleInterrupt (P := P) (M := M)
    (some im) scratch (show gate.handler.number = some 0x80 by rw [hgate]; rfl) hclear
    (by rw [cpu_eq, dev_enter]; exact hdo)
  have h60 : M.regs.esp - 60 + 60 = M.regs.esp := UInt32.sub_add_cancel _ _
  refine ⟨_, regs, hrun, ?_⟩
  rw [afterStub]
  simp only
  rw [heax, hworld, ss_enter,
    restored_addToSix (show StackClear image _ by rw [h60]; exact hclear), hmem]

/-- The heap is well formed when the handler is called. -/
theorem HeapApart.layout (P : Processor) (gate : GateDescriptor) (num : UInt8) {first : ℕ}
    (h : HeapApart image M)
    (hactive : M.world.dev.activeMemoryManager = some first) :
    ∃ (R : Region) (bs : List Block),
      Layout R ⟨callMem P image num (enter P image gate 0x80 0 M), first⟩ bs ∧
        ∀ x : UInt32, Below M.regs.esp 72 x → x.toNat < R.start ∨ R.stop ≤ x.toNat := by
  obtain ⟨R, bs, hl, hapart⟩ := h first hactive
  refine ⟨R, bs, hl.congr fun c hstart hstop => ?_, fun x hx => hapart x (.inr hx)⟩
  have hle := R.stop_le
  have hc : (UInt32.ofNat c).toNat = c := by
    rw [UInt32.toNat_ofNat', Nat.mod_eq_of_lt (by omega)]
  have hbyte (m : Mem) : m.byte c = loadByte m (.ofNat c) := by rw [loadByte, hc]
  rw [hbyte, hbyte, loadByte_callMem_enter gate num 0]
  · intro hN
    have := hapart (.ofNat c) (.inl hN)
    omega
  · intro hbelow
    have := hapart (.ofNat c) (.inr hbelow)
    omega

/-- A `malloc` of the handler returns null or a pointer above 16, and the saved `EAX`
survives it. -/
theorem HeapApart.malloc_spec {size : UInt32} (hheap : HeapApart image M)
    (h : kernelMalloc size ⟨callMem P image 0x80 (enter P image gate 0x80 0 M), M.world.dev⟩ =
      some (result, k)) :
    result = 0 ∨ 16 < result.toNat ∧ load k.mem (M.regs.esp - 16) = M.regs.eax := by
  cases hactive : M.world.dev.activeMemoryManager with
  | none =>
    rw [kernelMalloc, hactive] at h
    cases h
    exact .inl rfl
  | some first =>
    obtain ⟨R, bs, hl, hapart⟩ := hheap.layout P gate 0x80 hactive
    obtain ⟨hp, hframe⟩ := kernelMalloc_spec
      (k := ⟨callMem P image 0x80 (enter P image gate 0x80 0 M), M.world.dev⟩) hactive hl h
    refine hp.imp_right fun hgt => ⟨hgt, ?_⟩
    rw [← load_savedEax P image gate M]
    refine load_congr fun i hi => hframe _ (hapart _ ?_)
    have hbelow := below_add (e := M.regs.esp) (n := 72) (show 56 + i < 72 by omega) (by decide)
    have haddr : M.regs.esp - UInt32.ofNat 72 + UInt32.ofNat (56 + i) =
        M.regs.esp - 16 + .ofNat i := by
      rw [UInt32.ofNat_add]
      have h72 : UInt32.ofNat 72 = 72 := rfl
      have h56 : UInt32.ofNat 56 = 56 := rfl
      grind
    rwa [haddr] at hbelow

/-- If the value that the handler stores reaches both the saved `GS`, where it is stored,
and the saved `EAX`, then the system call is `SYSCALL_EXIT` with its own number, or the number
is the one that the handler stores for an unknown call. -/
theorem echo_of_serve (hheap : HeapApart image M)
    (hserve : self.serve ⟨M.regs.eax, M.regs.ebx, M.regs.ecx, M.regs.edx⟩
      ⟨callMem P image 0x80 (enter P image gate 0x80 0 M), M.world.dev⟩ = some (result, k))
    (hgs : result.toUInt16 = M.regs.eax.toUInt16)
    (heax : load k.mem (M.regs.esp - 16) = result) :
    M.regs.eax = 3 ∧ M.regs.ebx = 3 ∨ M.regs.eax = 0xFFFFFFFF := by
  -- a call that stores zero has a number whose lower half is zero
  have hzero (h0 : result = 0) : M.regs.eax.toNat % 65536 = 0 := by
    rw [h0] at hgs
    have h := congrArg UInt16.toNat hgs
    rw [UInt32.toNat_toUInt16, UInt32.toNat_toUInt16] at h
    exact h.symm
  rw [SystemCallHandler.serve] at hserve
  simp only at hserve
  split at hserve
  · next hn =>
    obtain ⟨k', -, h⟩ := Option.map_eq_some_iff.mp hserve
    cases h
    exact absurd (hzero rfl) (by omega)
  · next hn =>
    cases hserve
    exact absurd (hzero rfl) (by omega)
  · next hn =>
    cases hserve
    have h3 : M.regs.eax = 3 := UInt32.toNat_inj.mp hn
    rw [load_savedEax] at heax
    exact .inl ⟨h3, heax.symm.trans h3⟩
  · next hn =>
    cases hserve
    exact absurd (hzero rfl) (by omega)
  · next hn =>
    cases hserve
    exact absurd (hzero rfl) (by omega)
  · next hn =>
    rcases hheap.malloc_spec hserve with h0 | ⟨hgt, hkeep⟩
    · exact absurd (hzero h0) (by omega)
    · -- the saved `EAX` is still 6, which is no pointer
      have hsix : result.toNat = 6 := by rw [← heax, hkeep, hn]
      omega
  · next hn =>
    obtain ⟨k', -, h⟩ := Option.map_eq_some_iff.mp hserve
    cases h
    exact absurd (hzero rfl) (by omega)
  · next hn =>
    cases hserve
    rw [load_savedEax] at heax
    exact .inr heax

/-- A working system call stores what is there. -/
theorem echo_of_syscallAbi (hgate : gate.handler = .handleException 0x80)
    (hhandler : im.handlers 0x80 = some self.handleInterrupt)
    (hclear : StackClear image M.regs.esp) (hheap : HeapApart image M)
    (h : SyscallAbi P image im self scratch gate M) :
    (M.regs.eax = 3 ∧ M.regs.ebx = 3 ∨ M.regs.eax = 0xFFFFFFFF) ∧
      selectorWords P M = ⟨M.regs.eax, M.regs.ebx, M.regs.ecx, M.regs.edx⟩ ∧
        P.Loads M.regs := by
  have hrequest := request_callMem P gate hclear
  rw [SyscallAbi] at h
  simp only at h
  rw [cpu_eq, dev_enter] at h
  obtain ⟨hargs, k', M', hcall, hrun, hregs⟩ := h
  have hwords := hrequest.symm.trans hargs
  obtain ⟨M'', regs, hrun', hregs'⟩ := interrupt_syscall scratch hgate hhandler hclear hcall
  rw [hrun] at hrun'
  split at hrun'
  · next hloads =>
    cases hrun'
    rw [SystemCallHandler.handleInterrupt] at hcall
    obtain ⟨⟨result, k1⟩, hserve, hstore⟩ := Option.bind_eq_some_iff.mp hcall
    cases hstore
    rw [hargs] at hserve
    simp only [CPUState.setEax] at hregs hregs'
    rw [CPUState.eax, load_store_self] at hregs
    -- the selectors that are loaded are those of the interrupted code
    have hsame : P.Loads M.regs := by
      rw [hregs] at hloads
      exact hloads
    rw [hregs'] at hregs
    -- the stored value is what comes back as `GS`
    have hgs : result.toUInt16 = M.regs.gs := by
      have h := congrArg Regs.gs hregs
      rwa [gs_restored, load_store_self] at h
    -- and what the saved `EAX` holds
    have hslot : load k1.mem (M.regs.esp - 16) = result := by
      have h := congrArg Regs.eax hregs
      have hup : M.regs.esp - 16 - (M.regs.esp - 60) = 44 := by grind
      have hdown : M.regs.esp - 60 - (M.regs.esp - 16) = 0xFFFFFFD4 := by grind
      rwa [eax_restored, load_store_of_apart (by rw [hup]; decide) (by rw [hdown]; decide)] at h
    have hnumber : M.regs.gs = M.regs.eax.toUInt16 := by
      have h := congrArg SystemCallHandler.Request.syscallNumber hwords
      rw [← show selectorWord P.pad M.regs.gs _ = M.regs.eax from h, toUInt16_selectorWord]
    exact ⟨echo_of_serve hheap hserve (hgs.trans hnumber) hslot, hwords, hsame⟩
  · cases hrun'

/-- A system call whose handler stores what is there works when the segment registers agree
with the arguments and can be loaded. -/
theorem syscallAbi_of_echo (hgate : gate.handler = .handleException 0x80)
    (hhandler : im.handlers 0x80 = some self.handleInterrupt)
    (hclear : StackClear image M.regs.esp)
    (hcase : M.regs.eax = 3 ∧ M.regs.ebx = 3 ∨ M.regs.eax = 0xFFFFFFFF)
    (hwords : selectorWords P M = ⟨M.regs.eax, M.regs.ebx, M.regs.ecx, M.regs.edx⟩)
    (hloads : P.Loads M.regs) : SyscallAbi P image im self scratch gate M := by
  have hrequest := (request_callMem P gate hclear).trans hwords
  have hserve (k : Kernel) : self.serve ⟨M.regs.eax, M.regs.ebx, M.regs.ecx, M.regs.edx⟩ k =
      some (M.regs.eax, k) := by
    rcases hcase with ⟨heax, hebx⟩ | heax
    · rw [heax, hebx]
      rfl
    · rw [heax]
      rfl
  have hcall : self.handleInterrupt (M.regs.esp - 60)
      ⟨callMem P image 0x80 (enter P image gate 0x80 0 M), M.world.dev⟩ =
        some (M.regs.esp - 60, ⟨store (callMem P image 0x80 (enter P image gate 0x80 0 M))
          (M.regs.esp - 60) M.regs.eax, M.world.dev⟩) := by
    rw [SystemCallHandler.handleInterrupt]
    simp only
    rw [hrequest, hserve]
    rfl
  have hword : load (callMem P image 0x80 (enter P image gate 0x80 0 M)) (M.regs.esp - 60) =
      M.regs.eax := congrArg SystemCallHandler.Request.syscallNumber hrequest
  obtain ⟨M', regs, hrun, hregs⟩ := interrupt_syscall scratch hgate hhandler hclear hcall
  have hsame : M'.regs = M.regs := by
    rw [hregs]
    simp only
    rw [restored_congr fun x _ => loadByte_store_of_load hword,
      restored_enter (by decide) hclear]
  rw [hsame, if_pos hloads] at hrun
  rw [SyscallAbi]
  simp only
  rw [cpu_eq, dev_enter]
  refine ⟨hrequest, _, M', hcall, hrun, ?_⟩
  simp only
  rw [hsame, CPUState.eax, load_store_self]

/-- **The interface of system calls.**  It works if and only if the request is
`SYSCALL_EXIT` with exit code 3 or the number `0xFFFFFFFF`, the words in which the four data
segment registers are pushed are the four registers in which the request is passed, and these
selectors can be loaded. -/
theorem syscall_abi (P : Processor) (image : KernelImage) (im : InterruptManager)
    (self : SystemCallHandler) (scratch : Kernel → Scratch) (gate : GateDescriptor)
    (M : Machine Devices) (hgate : gate.handler = .handleException 0x80)
    (hhandler : im.handlers 0x80 = some self.handleInterrupt)
    (hclear : StackClear image M.regs.esp) (hheap : HeapApart image M) :
    SyscallAbi P image im self scratch gate M ↔
      (M.regs.eax = 3 ∧ M.regs.ebx = 3 ∨ M.regs.eax = 0xFFFFFFFF) ∧
        selectorWords P M = ⟨M.regs.eax, M.regs.ebx, M.regs.ecx, M.regs.edx⟩ ∧
          P.Loads M.regs := by
  constructor
  · intro h
    exact echo_of_syscallAbi hgate hhandler hclear hheap h
  · rintro ⟨hcase, hwords, hloads⟩
    exact syscallAbi_of_echo hgate hhandler hclear hcase hwords hloads

/-- The heap of the kernel: 10 MB from 10 MB on. -/
def kernelHeap : Region := ⟨0xA00000, 0x1400000, by decide, by decide, by decide⟩

/-- A machine with that heap that executes `int $0x80` with `eax` and `ebx`, with the data
segment of the kernel in `DS` and `ES` and with the selector `sel` in `FS` and `GS`. -/
def syscallMachine (eax ebx : UInt32) (sel : UInt16) : Machine Devices where
  regs := ⟨eax, 0x18, 0x18, ebx, 0x200000, 5, 6, 7, 0x100010, 0x202,
    0x10, 0x18, 0x18, sel, sel, 0x18⟩
  world := ⟨(MemoryManager.construct (fun _ => 0) 0xA00000 0xA00000).mem,
    ⟨[], 0, 0, ⟨0, 0, 15, 0⟩, some 0xA00000⟩⟩

/-- The manager with the system call handler. -/
def syscallManager : InterruptManager :=
  InterruptManager.register ⟨0x20, fun _ => none⟩ 0x80 (SystemCallHandler.handleInterrupt ⟨true⟩)

/-- `SYSCALL_EXIT` with exit code 3 and with the null selector 3 in `FS` and `GS`. -/
theorem syscall_abi_exit :
    SyscallAbi sampleProcessor sampleImage syscallManager ⟨true⟩ (fun _ => ⟨0, 0, 0⟩)
        ⟨.handleException 0x80, 16, 0x8E, 0⟩ (syscallMachine 3 3 3) ↔
      ((3 : UInt32) = 3 ∧ (3 : UInt32) = 3 ∨ (3 : UInt32) = 0xFFFFFFFF) ∧
        selectorWords sampleProcessor (syscallMachine 3 3 3) = ⟨3, 3, 0x18, 0x18⟩ ∧
          sampleProcessor.Loads (syscallMachine 3 3 3).regs := by
  refine syscall_abi sampleProcessor sampleImage syscallManager ⟨true⟩ (fun _ => ⟨0, 0, 0⟩)
    ⟨.handleException 0x80, 16, 0x8E, 0⟩ (syscallMachine 3 3 3) rfl rfl (by decide +kernel) ?_
  intro first hfirst
  cases hfirst
  refine ⟨kernelHeap, _, layout_construct kernelHeap _, fun x hx => .inl ?_⟩
  rcases hx with rfl | hx
  · decide
  · have hx' : (0x200000 - 1 - x : UInt32).toNat < 72 := hx
    have h2 : (0x200000 - 1 : UInt32).toNat = 0x1FFFFF := rfl
    have hlt := x.toNat_lt
    rw [UInt32.toNat_sub, h2] at hx'
    show x.toNat < 0xA00000
    omega

/-- `syscall_malloc(100)` with the selectors of the kernel: the handler reads the system call
number 24, stores -1 over the saved `GS`, and the entry code faults when it pops that. -/
theorem malloc_syscall_unknown :
    let M := syscallMachine 6 100 0x18
    let gate : GateDescriptor := ⟨.handleException 0x80, 16, 0x8E, 0⟩
    let S := enter sampleProcessor sampleImage gate 0x80 0 M
    let cpu := S.regs.esp - 48
    let k : Kernel := ⟨callMem sampleProcessor sampleImage 0x80 S, S.world.dev⟩
    SystemCallHandler.request k.mem cpu = ⟨24, 24, 24, 24⟩ ∧
      (SystemCallHandler.handleInterrupt ⟨true⟩ cpu k).map (fun r => CPUState.eax r.2.mem cpu) =
        some 0xFFFFFFFF ∧
      (interrupt sampleProcessor sampleImage (some syscallManager) (fun _ => ⟨0, 0, 0⟩) gate 0x80 0
        M).done?.isNone ∧
      ¬ SyscallAbi sampleProcessor sampleImage syscallManager ⟨true⟩ (fun _ => ⟨0, 0, 0⟩) gate
        M := by
  intro M gate S cpu k
  have hrequest : SystemCallHandler.request k.mem cpu = ⟨24, 24, 24, 24⟩ := by decide +kernel
  refine ⟨hrequest, by decide +kernel, by decide +kernel, fun h => ?_⟩
  exact absurd (hrequest.symm.trans h.1) (by decide)

end Abi
