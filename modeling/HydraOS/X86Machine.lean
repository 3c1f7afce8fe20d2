/-
# A 32-bit x86 machine

The part of the instruction set that interrupt entry code is made of: pushes and pops,
stores of immediates, calls of compiled routines, interrupt delivery and `iret`, all at
one privilege level and with flat segments.  Addresses are 32-bit words and wrap.  What a
push of a segment register leaves in the upper half of its word, and which selectors can be
loaded, depends on the processor and on its descriptor tables.
-/
import HydraOS.ByteMemory

namespace X86

/-! ## Memory accesses at 32-bit addresses -/

/-- The byte at an address. -/
def loadByte (m : Mem) (a : UInt32) : UInt8 := m.byte a.toNat

/-- Store a byte. -/
def storeByte (m : Mem) (a : UInt32) (b : UInt8) : Mem := m.setByte a.toNat b

/-- The little-endian word at an address. -/
def load (m : Mem) (a : UInt32) : UInt32 := m.word a.toNat

/-- Store a word. -/
def store (m : Mem) (a v : UInt32) : Mem := m.storeWord a.toNat v.toNat

section Memory

variable {m m' : Mem} {a c v x : UInt32} {b : UInt8} {i : ℕ}

theorem loadByte_storeByte : loadByte (storeByte m a b) x = if x = a then b else loadByte m x := by
  have ha := a.toNat_lt
  have hx := x.toNat_lt
  rw [loadByte, storeByte, Mem.byte_setByte, Nat.mod_eq_of_lt (by omega),
    Nat.mod_eq_of_lt (by omega)]
  simp only [UInt32.toNat_inj]
  rfl

/-- A byte after a word store. -/
theorem loadByte_store : loadByte (store m a v) x =
    if (x - a).toNat < 4 then Mem.wordByte v (x - a).toNat else loadByte m x := by
  have ha := a.toNat_lt
  have hx := x.toNat_lt
  have hsub := UInt32.toNat_sub x a
  by_cases h : (x - a).toNat < 4
  · rw [if_pos h, Mem.wordByte, ← Mem.byte_storeWord m a.toNat v.toNat h, loadByte, store,
      Mem.byte, Mem.byte]
    congr 1
    omega
  · rw [if_neg h, loadByte, store, Mem.storeWord, Mem.byte_setByte_of_ne _ _ (by omega),
      Mem.byte_setByte_of_ne _ _ (by omega), Mem.byte_setByte_of_ne _ _ (by omega),
      Mem.byte_setByte_of_ne _ _ (by omega)]
    rfl

/-- A stored word reads back. -/
theorem load_store_self : load (store m a v) a = v := by
  apply UInt32.toNat_inj.mp
  rw [load, store, Mem.word, Mem.loadWord_storeWord_self, UInt32.toNat_ofNat']
  have := v.toNat_lt
  omega

theorem byte_add (i : ℕ) : m.byte (a.toNat + i) = loadByte m (a + .ofNat i) := by
  rw [loadByte, UInt32.toNat_add, UInt32.toNat_ofNat', Mem.byte, Mem.byte]
  congr 1
  omega

/-- A word is determined by its bytes. -/
theorem load_congr {c' : UInt32}
    (h : ∀ i < 4, loadByte m' (c' + .ofNat i) = loadByte m (c + .ofNat i)) :
    load m' c' = load m c := by
  have hbyte : ∀ i < 4, m'.byte (c'.toNat + i) = m.byte (c.toNat + i) := by
    intro i hi
    rw [byte_add, byte_add, h i hi]
  have h0 := hbyte 0 (by omega)
  rw [Nat.add_zero, Nat.add_zero] at h0
  rw [load, load, Mem.word, Mem.word, Mem.loadWord, Mem.loadWord, h0, hbyte 1 (by omega),
    hbyte 2 (by omega), hbyte 3 (by omega)]

/-- The bytes of a word. -/
theorem loadByte_add (hi : i < 4) : loadByte m (c + .ofNat i) = Mem.wordByte (load m c) i := by
  have hword := Mem.loadWord_lt m c.toNat
  have hbytes : (load m c).toNat = m.loadWord c.toNat := by
    rw [load, Mem.word, UInt32.toNat_ofNat', Nat.mod_eq_of_lt hword]
  have h0 := (m.byte c.toNat).toNat_lt
  have h1 := (m.byte (c.toNat + 1)).toNat_lt
  have h2 := (m.byte (c.toNat + 2)).toNat_lt
  have h3 := (m.byte (c.toNat + 3)).toNat_lt
  apply UInt8.toNat_inj.mp
  rw [← byte_add, Mem.wordByte, UInt8.toNat_ofNat', hbytes, Mem.loadWord]
  obtain rfl | rfl | rfl | rfl : i = 0 ∨ i = 1 ∨ i = 2 ∨ i = 3 := by omega
  · rw [Nat.add_zero]
    omega
  · omega
  · omega
  · omega

/-- A word store leaves the words it does not overlap alone. -/
theorem load_store_of_apart (h : 4 ≤ (c - a).toNat) (h' : 4 ≤ (a - c).toNat) :
    load (store m a v) c = load m c := by
  refine load_congr fun i hi => ?_
  have ha := a.toNat_lt
  have hc := c.toNat_lt
  rw [loadByte_store, if_neg]
  rw [UInt32.toNat_sub, UInt32.toNat_add, UInt32.toNat_ofNat']
  rw [UInt32.toNat_sub] at h h'
  omega

/-- Storing what is there changes nothing. -/
theorem loadByte_store_of_load (h : load m a = v) : loadByte (store m a v) x = loadByte m x := by
  rw [loadByte_store]
  split
  · next hlt =>
    have hx : a + UInt32.ofNat (x - a).toNat = x := by
      rw [UInt32.ofNat_toNat]
      grind
    rw [← h, ← loadByte_add hlt, hx]
  · rfl

end Memory

/-! ## The stack -/

/-- `x` is one of the `n` bytes below the address `e`. -/
def Below (e : UInt32) (n : ℕ) (x : UInt32) : Prop := (e - 1 - x).toNat < n

instance (e : UInt32) (n : ℕ) (x : UInt32) : Decidable (Below e n x) :=
  inferInstanceAs (Decidable (_ < _))

/-- The memory after the words `vs` have been pushed, in this order, with the stack
pointer `e`. -/
def pushWords (m : Mem) (e : UInt32) : List UInt32 → Mem
  | [] => m
  | v :: vs => pushWords (store m (e - 4) v) (e - 4) vs

section Stack

variable {m : Mem} {c e x v : UInt32} {vs : List UInt32} {n i : ℕ}

/-- A push leaves the bytes alone that are not below the stack pointer. -/
theorem loadByte_pushWords (h : ¬ Below e (4 * vs.length) x) :
    loadByte (pushWords m e vs) x = loadByte m x := by
  induction vs generalizing m e with
  | nil => rfl
  | cons v vs ih =>
    rw [Below, List.length_cons] at h
    have h4 : (4 : UInt32).toNat = 4 := rfl
    have hlt := (e - 1 - x).toNat_lt
    have hstep : e - 4 - 1 - x = e - 1 - x - 4 := by grind
    have hsub : x - (e - 4) = 3 - (e - 1 - x) := by grind
    have h3 : (3 : UInt32).toNat = 3 := rfl
    rw [pushWords, ih, loadByte_store, if_neg]
    · rw [hsub, UInt32.toNat_sub, h3]
      omega
    · rw [Below, hstep, UInt32.toNat_sub, h4]
      omega

/-- The bytes that lie at an offset from the bottom of the `n` bytes below `e`. -/
theorem below_add {k : ℕ} (hk : k < n) (hn : n < 2 ^ 32) : Below e n (e - .ofNat n + .ofNat k) := by
  have hsub : e - 1 - (e - .ofNat n + .ofNat k) = .ofNat n - .ofNat (k + 1) := by
    rw [UInt32.ofNat_add]
    have h1 : UInt32.ofNat 1 = 1 := rfl
    grind
  rw [Below, hsub, UInt32.toNat_sub, UInt32.toNat_ofNat', UInt32.toNat_ofNat']
  omega

/-- Bytes below a lower address. -/
theorem Below.of_sub {k : ℕ} (h : Below (e - .ofNat k) n x) (hn : n + k < 2 ^ 32) :
    Below e (n + k) x := by
  have hsub : e - 1 - x = e - .ofNat k - 1 - x + .ofNat k := by grind
  rw [Below] at h
  rw [Below, hsub, UInt32.toNat_add, UInt32.toNat_ofNat']
  omega

/-- A word above the stack pointer is not changed by pushes. -/
theorem load_pushWords_of_above (hlen : 4 * vs.length + 4 ≤ (e - 1 - c).toNat + 1) :
    load (pushWords m e vs) c = load m c := by
  refine load_congr fun i hi => loadByte_pushWords ?_
  have hlt := (e - 1 - c).toNat_lt
  have hi' : (UInt32.ofNat i).toNat = i := by
    rw [UInt32.toNat_ofNat']
    omega
  have hsub : e - 1 - (c + .ofNat i) = e - 1 - c - .ofNat i := by grind
  rw [Below, hsub, UInt32.toNat_sub, hi']
  omega

/-- The `i`-th of the words that were pushed. -/
theorem load_pushWords (hc : c = e - 4 * .ofNat (i + 1)) (hlen : 4 * vs.length < 2 ^ 32)
    (hv : vs[i]? = some v) : load (pushWords m e vs) c = v := by
  induction vs generalizing m e i with
  | nil => simp at hv
  | cons w vs ih =>
    rw [List.length_cons] at hlen
    cases i with
    | zero =>
      have hc' : c = e - 4 := by
        rw [hc]
        have h1 : UInt32.ofNat (0 + 1) = 1 := rfl
        grind
      have hv' : w = v := by simpa using hv
      have habove : e - 4 - 1 - (e - 4) = 0xFFFFFFFF := by grind
      have hmax : (0xFFFFFFFF : UInt32).toNat = 4294967295 := rfl
      rw [pushWords, hc', load_pushWords_of_above (by rw [habove, hmax]; omega), load_store_self,
        hv']
    | succ i =>
      rw [pushWords]
      refine ih ?_ (by omega) (by simpa using hv)
      rw [hc, UInt32.ofNat_add (i + 1) 1]
      have h1 : UInt32.ofNat 1 = 1 := rfl
      grind

end Stack

/-! ## Registers -/

/-- The general registers. -/
inductive Reg where
  | eax | ecx | edx | ebx | esp | ebp | esi | edi
  deriving DecidableEq

/-- The data segment registers that entry code saves. -/
inductive Seg where
  | ds | es | fs | gs
  deriving DecidableEq

/-- The registers of the machine. -/
structure Regs where
  eax : UInt32
  ecx : UInt32
  edx : UInt32
  ebx : UInt32
  esp : UInt32
  ebp : UInt32
  esi : UInt32
  edi : UInt32
  eip : UInt32
  eflags : UInt32
  cs : UInt16
  ds : UInt16
  es : UInt16
  fs : UInt16
  gs : UInt16
  ss : UInt16
  deriving DecidableEq

namespace Regs

def get (r : Regs) : Reg → UInt32
  | .eax => r.eax
  | .ecx => r.ecx
  | .edx => r.edx
  | .ebx => r.ebx
  | .esp => r.esp
  | .ebp => r.ebp
  | .esi => r.esi
  | .edi => r.edi

def set (r : Regs) (v : UInt32) : Reg → Regs
  | .eax => { r with eax := v }
  | .ecx => { r with ecx := v }
  | .edx => { r with edx := v }
  | .ebx => { r with ebx := v }
  | .esp => { r with esp := v }
  | .ebp => { r with ebp := v }
  | .esi => { r with esi := v }
  | .edi => { r with edi := v }

def getSeg (r : Regs) : Seg → UInt16
  | .ds => r.ds
  | .es => r.es
  | .fs => r.fs
  | .gs => r.gs

def setSeg (r : Regs) (v : UInt16) : Seg → Regs
  | .ds => { r with ds := v }
  | .es => { r with es := v }
  | .fs => { r with fs := v }
  | .gs => { r with gs := v }

end Regs

/-! ## The machine -/

/-- The memory and the devices. -/
structure World (δ : Type) where
  mem : Mem
  dev : δ

/-- The registers and what they work on. -/
structure Machine (δ : Type) where
  regs : Regs
  world : World δ

/-- What depends on the processor and on the descriptor tables that it uses. -/
structure Processor where
  /-- The upper half of the word in which a data segment register is pushed, from what was
  there: some processors store zero, others store the selector only. -/
  pad : UInt16 → UInt16
  /-- The same for the code segment, when an interrupt is delivered. -/
  padCode : UInt16 → UInt16
  /-- The selectors that a data segment register can be loaded with. -/
  loads : UInt16 → Bool
  /-- The code segments to which `iret` returns at the same privilege level. -/
  returns : UInt16 → Bool

/-- The word that a pushed selector leaves where the word `old` was. -/
def selectorWord (pad : UInt16 → UInt16) (sel : UInt16) (old : UInt32) : UInt32 :=
  ((pad (old >>> 16).toUInt16).toUInt32 <<< 16) ||| sel.toUInt32

/-- The selectors in these registers can be loaded again. -/
def Processor.Loads (P : Processor) (r : Regs) : Prop :=
  P.loads r.gs ∧ P.loads r.fs ∧ P.loads r.es ∧ P.loads r.ds ∧ P.returns r.cs

instance (P : Processor) (r : Regs) : Decidable (P.Loads r) :=
  inferInstanceAs (Decidable (_ ∧ _))

/-- What a compiled routine leaves when it returns: its result in `eax` and the
registers that the calling convention does not preserve. -/
structure Returned (δ : Type) where
  eax : UInt32
  ecx : UInt32
  edx : UInt32
  eflags : UInt32
  world : World δ

/-- A compiled routine with the `cdecl` convention, given the address of its return
address: the arguments follow it.  `none` means that it does not return. -/
abbrev Routine (δ : Type) := UInt32 → World δ → Option (Returned δ)

/-- The instructions. -/
inductive Instr where
  /-- `movb $imm, (addr)` -/
  | movb (imm : UInt8) (addr : UInt32)
  | pusha
  | popa
  | pushSeg (s : Seg)
  | popSeg (s : Seg)
  | push (r : Reg)
  /-- `push (addr)` -/
  | pushMem (addr : UInt32)
  /-- `add %r, addr` -/
  | addMem (r : Reg) (addr : UInt32)
  /-- `mov %src, %dst` -/
  | mov (src dst : Reg)
  /-- A call that returns to `next`. -/
  | call (next : UInt32)
  | iret

/-- How instructions end: after the last one; at one that faults, with the machine that it
finds; or in a routine that does not return. -/
inductive Outcome (δ : Type) where
  | done (M : Machine δ)
  | fault (M : Machine δ)
  | lost

variable {δ : Type}

namespace Outcome

/-- The machine after the last instruction. -/
def done? : Outcome δ → Option (Machine δ)
  | done M => some M
  | fault _ | lost => none

/-- The machine after the last instruction or at one that faults. -/
def last : Outcome δ → Option (Machine δ)
  | done M | fault M => some M
  | lost => none

end Outcome

namespace Machine

/-- Push one word. -/
def pushWord (M : Machine δ) (v : UInt32) : Machine δ where
  regs := { M.regs with esp := M.regs.esp - 4 }
  world := { M.world with mem := store M.world.mem (M.regs.esp - 4) v }

/-- Push words, the first one first. -/
def pushAll (M : Machine δ) (vs : List UInt32) : Machine δ := vs.foldl pushWord M

/-- The word at an offset from the stack pointer. -/
def peek (M : Machine δ) (offset : UInt32) : UInt32 := load M.world.mem (M.regs.esp + offset)

end Machine

/-- `EFLAGS` after an addition: carry, parity, auxiliary carry, zero, sign, overflow. -/
def addFlags (x y flags : UInt32) : UInt32 :=
  let r : UInt32 := x + y
  let ones : UInt32 := (List.range 8).foldl (fun p i => p + ((r >>> .ofNat i) &&& 1)) 0
  let carry : UInt32 := if r < x then 0x1 else 0
  let parity : UInt32 := if ones % 2 = 0 then 0x4 else 0
  let adjust : UInt32 := (x ^^^ y ^^^ r) &&& 0x10
  let zero : UInt32 := if r = 0 then 0x40 else 0
  let sign : UInt32 := if r ≥ 0x80000000 then 0x80 else 0
  let overflow : UInt32 := if ((x ^^^ r) &&& (y ^^^ r)) ≥ 0x80000000 then 0x800 else 0
  let kept : UInt32 := flags &&& 0xFFFFF72A
  kept ||| carry ||| parity ||| adjust ||| zero ||| sign ||| overflow

/-- One instruction. -/
def exec (P : Processor) (callee : Routine δ) : Instr → Machine δ → Outcome δ
  | .movb imm addr, M =>
    .done { M with world := { M.world with mem := storeByte M.world.mem addr imm } }
  | .pusha, M =>
    let r := M.regs
    .done (M.pushAll [r.eax, r.ecx, r.edx, r.ebx, r.esp, r.ebp, r.esi, r.edi])
  -- the saved stack pointer is skipped
  | .popa, M => .done { M with regs := { M.regs with
      edi := M.peek 0, esi := M.peek 4, ebp := M.peek 8, ebx := M.peek 16, edx := M.peek 20,
      ecx := M.peek 24, eax := M.peek 28, esp := M.regs.esp + 32 } }
  | .pushSeg s, M =>
    .done (M.pushWord (selectorWord P.pad (M.regs.getSeg s) (load M.world.mem (M.regs.esp - 4))))
  | .popSeg s, M =>
    let sel := (M.peek 0).toUInt16
    let r := M.regs.setSeg sel s
    if P.loads sel then .done { M with regs := { r with esp := r.esp + 4 } } else .fault M
  | .push r, M => .done (M.pushWord (M.regs.get r))
  | .pushMem addr, M => .done (M.pushWord (load M.world.mem addr))
  | .addMem r addr, M =>
    let x := load M.world.mem addr
    let y := M.regs.get r
    .done { regs := { M.regs with eflags := addFlags x y M.regs.eflags },
            world := { M.world with mem := store M.world.mem addr (x + y) } }
  | .mov src dst, M => .done { M with regs := M.regs.set (M.regs.get src) dst }
  | .call next, M =>
    let M' := M.pushWord next
    match callee M'.regs.esp M'.world with
    | none => .lost
    | some r => .done { regs := { M.regs with
        eax := r.eax, ecx := r.ecx, edx := r.edx, eflags := r.eflags }, world := r.world }
  | .iret, M =>
    let cs := (M.peek 4).toUInt16
    if P.returns cs then .done { M with regs := { M.regs with
      eip := M.peek 0, cs := cs, eflags := M.peek 8, esp := M.regs.esp + 12 } }
    else .fault M

/-- A straight line of instructions. -/
def run (P : Processor) (callee : Routine δ) : List Instr → Machine δ → Outcome δ
  | [], M => .done M
  | i :: is, M =>
    match exec P callee i M with
    | .done M' => run P callee is M'
    | .fault M' => .fault M'
    | .lost => .lost

/-- Delivery of an interrupt through an interrupt gate at the same privilege level: the
processor pushes `EFLAGS`, `CS`, `EIP` and, for some vectors, an error code, and clears
the flags `TF`, `IF`, `NT`, `RF` and `VM`. -/
def Machine.deliver (P : Processor) (M : Machine δ) (selector : UInt16) (handler : UInt32)
    (error : Option UInt32) : Machine δ :=
  let r := M.regs
  let code := selectorWord P.padCode r.cs (load M.world.mem (r.esp - 8))
  let M' := M.pushAll ([r.eflags, code, r.eip] ++ error.toList)
  { M' with regs := { M'.regs with
      cs := selector, eip := handler, eflags := r.eflags &&& 0xFFFCBCFF } }

section Machine

variable {M : Machine δ} {v : UInt32} {vs ws : List UInt32}

/-- What pushes do to the machine. -/
theorem pushAll_eq : M.pushAll vs =
    { regs := { M.regs with esp := M.regs.esp - 4 * .ofNat vs.length },
      world := { M.world with mem := pushWords M.world.mem M.regs.esp vs } } := by
  induction vs generalizing M with
  | nil =>
    have h : M.regs.esp - 4 * .ofNat ([] : List UInt32).length = M.regs.esp := by simp
    rw [Machine.pushAll, List.foldl_nil, h]
    rfl
  | cons v vs ih =>
    have h : M.regs.esp - 4 * .ofNat (v :: vs).length =
        M.regs.esp - 4 - 4 * .ofNat vs.length := by
      rw [List.length_cons, UInt32.ofNat_add]
      have h1 : UInt32.ofNat 1 = 1 := rfl
      grind
    show (M.pushWord v).pushAll vs = _
    rw [ih, h]
    rfl

theorem pushWord_eq : M.pushWord v = M.pushAll [v] := rfl

theorem pushAll_append : (M.pushAll vs).pushAll ws = M.pushAll (vs ++ ws) :=
  List.foldl_append.symm

@[simp] theorem esp_pushAll :
    (M.pushAll vs).regs.esp = M.regs.esp - 4 * .ofNat vs.length := by rw [pushAll_eq]

@[simp] theorem getSeg_pushAll (s : Seg) : (M.pushAll vs).regs.getSeg s = M.regs.getSeg s := by
  rw [pushAll_eq]
  cases s <;> rfl

/-- The selector of a pushed segment register is the lower half of its word. -/
@[simp] theorem toUInt16_selectorWord (pad : UInt16 → UInt16) (sel : UInt16) (old : UInt32) :
    (selectorWord pad sel old).toUInt16 = sel := by
  -- what the processor adds lies above the selector
  have hhigh : ((pad (old >>> 16).toUInt16).toUInt32 <<< 16).toUInt16 = 0 := by
    apply UInt16.toNat_inj.mp
    simp [Nat.shiftLeft_eq]
  rw [selectorWord, UInt32.toUInt16_or, UInt16.toUInt16_toUInt32, hhigh, UInt16.zero_or]

/-- The word into which the next value is pushed is still what it was. -/
theorem load_pushAll_next (hlen : 4 * vs.length + 4 ≤ 2 ^ 32) :
    load (M.pushAll vs).world.mem ((M.pushAll vs).regs.esp - 4) =
      load M.world.mem (M.regs.esp - 4 * .ofNat (vs.length + 1)) := by
  have h1 : UInt32.ofNat 1 = 1 := rfl
  have haddr : M.regs.esp - 4 * .ofNat vs.length - 4 =
      M.regs.esp - 4 * .ofNat (vs.length + 1) := by
    rw [UInt32.ofNat_add]
    grind
  have hbelow : M.regs.esp - 1 - (M.regs.esp - 4 * .ofNat (vs.length + 1)) =
      .ofNat (4 * vs.length + 3) := by
    have h3 : UInt32.ofNat 3 = 3 := rfl
    have h4 : UInt32.ofNat 4 = 4 := rfl
    rw [UInt32.ofNat_add, UInt32.ofNat_add, UInt32.ofNat_mul]
    grind
  rw [pushAll_eq, haddr]
  apply load_pushWords_of_above
  rw [hbelow, UInt32.toNat_ofNat']
  omega

/-- Pushing a segment register behind other words. -/
theorem exec_pushSeg {P : Processor} {callee : Routine δ} (s : Seg)
    (hlen : 4 * vs.length + 4 ≤ 2 ^ 32) :
    exec P callee (.pushSeg s) (M.pushAll vs) = .done (M.pushAll (vs ++
      [selectorWord P.pad (M.regs.getSeg s)
        (load M.world.mem (M.regs.esp - 4 * .ofNat (vs.length + 1)))])) := by
  rw [exec, load_pushAll_next hlen, getSeg_pushAll, pushWord_eq, pushAll_append]

end Machine

end X86
