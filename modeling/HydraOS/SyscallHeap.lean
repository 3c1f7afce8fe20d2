/-
# The heap behind the system calls

Callers that share the kernel's heap through `SYSCALL_MALLOC` and `SYSCALL_FREE`.  The
handler passes every pointer on to `free`, which takes the 16 bytes in front of it for a
chunk and follows their links.  The heap and the blocks of all callers stay intact as long
as each freed pointer is a block of its caller or a free chunk, or the bytes in front of it
lead to nothing that could be merged.
-/
import HydraOS.FreeOrder
import HydraOS.SystemCalls

open X86 BlockList MemoryManager MemoryChunk

/-! ## Callers -/

/-- A block that a caller has got by `SYSCALL_MALLOC` and not given back. -/
structure CallerBlock where
  caller : ℕ
  ptr : UInt32
  size : UInt32
  deriving DecidableEq

/-- The kernel and the live blocks of its callers. -/
structure Callers where
  kernel : Kernel
  live : List CallerBlock

/-- What callers do: a request whose frame is at the address `esp`, or a store. -/
inductive CallerAction where
  | malloc (caller : ℕ) (esp size : UInt32)
  | free (caller : ℕ) (esp ptr : UInt32)
  | store (x : UInt32) (v : UInt8)

namespace Callers

/-- One action; `none` means that the handler does not return. -/
def step (self : SystemCallHandler) (s : Callers) : CallerAction → Option Callers
  | .malloc caller esp size => do
    let (_, k) ← self.handleInterrupt esp s.kernel
    let ptr := CPUState.eax k.mem esp
    pure ⟨k, if ptr = 0 then s.live else ⟨caller, ptr, size⟩ :: s.live⟩
  | .free caller esp ptr => do
    let (_, k) ← self.handleInterrupt esp s.kernel
    pure ⟨k, s.live.filter fun e => ¬ (e.caller = caller ∧ e.ptr = ptr)⟩
  | .store x v => some { s with kernel := { s.kernel with mem := storeByte s.kernel.mem x v } }

/-- The frame at `esp` holds a request, and it is not in the heap. -/
def Requested (R : Region) (s : Callers) (esp syscallNumber arg1 : UInt32) : Prop :=
  (SystemCallHandler.request s.kernel.mem esp).syscallNumber = syscallNumber ∧
    (SystemCallHandler.request s.kernel.mem esp).arg1 = arg1 ∧
    ∀ i < 4, (esp + .ofNat i).toNat < R.start ∨ R.stop ≤ (esp + .ofNat i).toNat

/-- What a caller can do: any request, and stores outside the heap or into a live block. -/
def CanDo (R : Region) (s : Callers) : CallerAction → Prop
  | .malloc _ esp size => Requested R s esp 6 size
  | .free _ esp ptr => Requested R s esp 7 ptr
  | .store x _ => (x.toNat < R.start ∨ R.stop ≤ x.toNat) ∨
      ∃ e ∈ s.live, e.ptr.toNat ≤ x.toNat ∧ x.toNat < e.ptr.toNat + e.size.toNat

/-- The chunk list of the kernel's heap on the region. -/
def chunks (R : Region) (s : Callers) : List (ℕ × Header) := chunkList ⟨s.kernel.mem, R.start⟩

/-- The 16 bytes in front of the pointer lead to no chunk to merge with, and their flag is
not in the header of a chunk.  The flags that they lead to are in forged chunks, so the byte
has to be 1: of a `bool` with another byte the compiler may test any bit. -/
def Detached (R : Region) (s : Callers) (ptr : UInt32) : Prop :=
  let chunk := (ptr - 16).toNat
  let m := setAllocated s.kernel.mem chunk false
  (next m chunk ≠ 0 → m.byte (next m chunk + 8) = 1) ∧
    (prev m chunk ≠ 0 → m.byte (prev m chunk + 8) = 1) ∧
    ∀ c ∈ s.chunks R, (ptr - 8).toNat < c.1 ∨ c.1 + 16 ≤ (ptr - 8).toNat

/-- The pointer is a live block of the caller, or a free chunk, or detached. -/
def FreeOk (R : Region) (s : Callers) (caller : ℕ) (ptr : UInt32) : Prop :=
  (∃ e ∈ s.live, e.caller = caller ∧ e.ptr = ptr) ∨
    (∃ c ∈ s.chunks R, c.1 + 16 = ptr.toNat ∧ c.2.allocated = false) ∨ Detached R s ptr

/-- The condition on an action under which the heap stays intact. -/
def Safe (R : Region) (s : Callers) : CallerAction → Prop
  | .free caller _ ptr => FreeOk R s caller ptr
  | _ => True

instance (R : Region) (s : Callers) (esp syscallNumber arg1 : UInt32) :
    Decidable (Requested R s esp syscallNumber arg1) := inferInstanceAs (Decidable (_ ∧ _))

instance (R : Region) (s : Callers) : (a : CallerAction) → Decidable (CanDo R s a)
  | .malloc _ esp size => inferInstanceAs (Decidable (Requested R s esp 6 size))
  | .free _ esp ptr => inferInstanceAs (Decidable (Requested R s esp 7 ptr))
  | .store _ _ => inferInstanceAs (Decidable (_ ∨ _))

instance (R : Region) (s : Callers) (caller : ℕ) (ptr : UInt32) :
    Decidable (FreeOk R s caller ptr) :=
  have : Decidable (Detached R s ptr) := inferInstanceAs (Decidable (_ ∧ _))
  inferInstanceAs (Decidable (_ ∨ _))

instance (R : Region) (s : Callers) : (a : CallerAction) → Decidable (Safe R s a)
  | .free caller _ ptr => inferInstanceAs (Decidable (FreeOk R s caller ptr))
  | .malloc _ _ _ | .store _ _ => isTrue trivial

/-- The heap and the live pointers, whoever they belong to. -/
def session (R : Region) (s : Callers) : Session :=
  ⟨⟨s.kernel.mem, R.start⟩, s.live.map fun e => (e.ptr.toNat, e.size.toNat)⟩

/-- **The invariant**: the heap is laid out on the region, and its used chunks are the live
blocks of the callers. -/
def Owned (R : Region) (s : Callers) : Prop :=
  s.kernel.dev.activeMemoryManager = some R.start ∧ ∃ bs, HeapInvariant R (s.session R) bs

end Callers

/-! ## The two requests -/

section Requests

variable {self : SystemCallHandler} {esp : UInt32} {k : Kernel} {first : ℕ}

/-- `SYSCALL_MALLOC`. -/
theorem handleInterrupt_malloc (hactive : k.dev.activeMemoryManager = some first)
    (hnum : (SystemCallHandler.request k.mem esp).syscallNumber = 6) :
    self.handleInterrupt esp k =
      (malloc .wrapping ⟨k.mem, first⟩ (SystemCallHandler.request k.mem esp).arg1.toNat).map
        fun r => (esp, { k with mem := store r.2.mem esp (.ofNat r.1) }) := by
  rw [SystemCallHandler.handleInterrupt, SystemCallHandler.serve, hnum]
  show (kernelMalloc _ k).bind _ = _
  rw [kernelMalloc, hactive]
  simp only
  cases malloc .wrapping ⟨k.mem, first⟩ (SystemCallHandler.request k.mem esp).arg1.toNat <;> rfl

/-- `SYSCALL_FREE`. -/
theorem handleInterrupt_free (hactive : k.dev.activeMemoryManager = some first)
    (hnum : (SystemCallHandler.request k.mem esp).syscallNumber = 7) :
    self.handleInterrupt esp k =
      (free .wrapping ⟨k.mem, first⟩ (SystemCallHandler.request k.mem esp).arg1.toNat).map
        fun h => (esp, { k with mem := store h.mem esp 0 }) := by
  rw [SystemCallHandler.handleInterrupt, SystemCallHandler.serve, hnum]
  show ((kernelFree _ k).map _).bind _ = _
  rw [kernelFree, hactive]
  simp only
  cases free .wrapping ⟨k.mem, first⟩ (SystemCallHandler.request k.mem esp).arg1.toNat <;> rfl

end Requests

/-! ## The chunk list of a layout -/

section Chunks

variable {R : Region} {h : Heap} {bs : List Block} {m : Mem} {p fuel : ℕ}

/-- A walk along a segment visits its blocks. -/
theorem Segment.chunks_eq_map (hs : Segment m p bs 0) (hpos : ∀ b ∈ bs, b.addr ≠ 0)
    (hfuel : bs.length < fuel) :
    MemoryManager.chunks m fuel (headAddr 0 bs) = bs.map fun b => (b.addr, header m b.addr) := by
  induction bs generalizing p fuel with
  | nil =>
    cases fuel with
    | zero => exact absurd hfuel (by simp)
    | succ fuel => rfl
  | cons b bs ih =>
    rw [List.forall_mem_cons] at hpos
    cases fuel with
    | zero => exact absurd hfuel (by simp)
    | succ fuel =>
      rw [List.length_cons] at hfuel
      have hnext : next m b.addr = headAddr 0 bs := congrArg Header.next hs.1
      rw [headAddr_cons, MemoryManager.chunks, if_neg hpos.1, hnext, ih hs.2 hpos.2 (by omega),
        List.map_cons]

/-- The chunk list of a layout is the list of its blocks. -/
theorem Layout.chunkList_eq_map (hl : Layout R h bs) :
    chunkList h = bs.map fun b => (b.addr, header h.mem b.addr) := by
  have hlen := hl.tiles.length_le
  have hstop := R.stop_le
  have hstart := R.start_pos
  rw [chunkList, hl.first, ← hl.headAddr_eq]
  apply hl.linked.chunks_eq_map
  · intro b hb
    exact (hl.bounds hb).1.ne'
  · omega

end Chunks

/-! ## One action -/

namespace Callers

section Step

variable {self : SystemCallHandler} {R : Region} {s t : Callers} {a : CallerAction}
  {bs : List Block} {esp ptr size : UInt32} {caller : ℕ} {m : Mem}

/-- Storing the result in the frame does not touch the heap. -/
theorem layout_store {h : Heap} {v : UInt32} (hl : Layout R h bs)
    (hframe : ∀ i < 4, (esp + .ofNat i).toNat < R.start ∨ R.stop ≤ (esp + .ofNat i).toNat) :
    Layout R ⟨store h.mem esp v, R.start⟩ bs := by
  have hle := R.stop_le
  refine Layout.congr (m := h.mem) (hl.first ▸ hl) fun c hstart hstop => ?_
  have hc : (UInt32.ofNat c).toNat = c := by
    rw [UInt32.toNat_ofNat', Nat.mod_eq_of_lt (by omega)]
  have hbyte (m : Mem) : m.byte c = loadByte m (.ofNat c) := by rw [loadByte, hc]
  rw [hbyte, hbyte, loadByte_store, if_neg]
  intro hlt
  have hout := hframe _ hlt
  have hsum : esp + UInt32.ofNat (UInt32.ofNat c - esp).toNat = UInt32.ofNat c := by
    rw [UInt32.ofNat_toNat]
    grind
  rw [hsum, hc] at hout
  omega

/-- The live blocks have different addresses. -/
theorem eq_of_ptr_eq (hlive : LiveBlocks bs (s.session R).live) {e f : CallerBlock}
    (he : e ∈ s.live) (hf : f ∈ s.live) (h : e.ptr = f.ptr) : e = f := by
  have hdistinct := hlive.distinct
  rw [session, List.pairwise_map] at hdistinct
  have hnodup : (s.live.map fun e => e.ptr.toNat).Nodup := List.pairwise_map.mpr hdistinct
  exact List.inj_on_of_nodup_map hnodup he hf (congrArg UInt32.toNat h)

/-- What `free` leaves to the callers, if the pointer was not live for another one. -/
theorem live_filter (hown : ∀ e ∈ s.live, e.ptr = ptr → e.caller = caller) :
    (s.live.filter fun e => ¬ (e.caller = caller ∧ e.ptr = ptr)).map
        (fun e => (e.ptr.toNat, e.size.toNat)) =
      (s.session R).live.filter fun e => e.1 ≠ ptr.toNat := by
  rw [session, List.filter_map]
  congr 1
  apply List.filter_congr
  intro e he
  have hiff : (e.caller = caller ∧ e.ptr = ptr) ↔ e.ptr.toNat = ptr.toNat := by
    rw [UInt32.toNat_inj]
    exact ⟨fun h => h.2, fun h => ⟨hown e he h, h⟩⟩
  simp only [hiff, Function.comp]

/-- `SYSCALL_MALLOC` returns, and the block that it hands out is a new live block. -/
theorem step_malloc (hs : Owned R s) (hcan : CanDo R s (.malloc caller esp size)) :
    ∃ t, step self s (.malloc caller esp size) = some t ∧ Owned R t := by
  obtain ⟨hactive, bs, hi⟩ := hs
  obtain ⟨hnum, harg, hframe⟩ := hcan
  obtain ⟨⟨p, h⟩, -, hcall⟩ := hi.malloc_total size.toNat
  have hnext : HeapStep (s.session R) (.malloc size.toNat)
      ⟨h, if p = 0 then (s.session R).live else (p, size.toNat) :: (s.session R).live⟩ :=
    .malloc size.toNat_lt hcall
  obtain ⟨bs', hl', hlive'⟩ := hnext.invariant ⟨bs, hi⟩
  have hhandler : self.handleInterrupt esp s.kernel =
      some (esp, { s.kernel with mem := store h.mem esp (.ofNat p) }) := by
    rw [handleInterrupt_malloc hactive hnum, harg]
    show Option.map _ (malloc .wrapping (s.session R).heap size.toNat) = _
    rw [hcall]
    rfl
  have hstep : step self s (.malloc caller esp size) =
      some ⟨{ s.kernel with mem := store h.mem esp (.ofNat p) },
        if UInt32.ofNat p = 0 then s.live else ⟨caller, .ofNat p, size⟩ :: s.live⟩ := by
    rw [step, hhandler]
    simp only [Option.bind_eq_bind, Option.bind_some, CPUState.eax, load_store_self]
    rfl
  refine ⟨_, hstep, hactive, bs', layout_store hl' hframe, ?_⟩
  by_cases hp : p = 0
  · subst hp
    exact hlive'
  · rw [if_neg hp] at hlive'
    have hlt := hlive'.lt _ List.mem_cons_self
    have hto : (UInt32.ofNat p).toNat = p := by
      rw [UInt32.toNat_ofNat', Nat.mod_eq_of_lt hlt]
    have hne : UInt32.ofNat p ≠ 0 := by
      intro h0
      rw [h0] at hto
      exact hp hto.symm
    simp only [session]
    rw [if_neg hne, List.map_cons, hto]
    exact hlive'

/-- `SYSCALL_FREE`, when the result of `free` is known. -/
theorem step_free_eq {h : Heap} (hactive : s.kernel.dev.activeMemoryManager = some R.start)
    (hcan : CanDo R s (.free caller esp ptr))
    (hfree : free .wrapping (s.session R).heap ptr.toNat = some h) :
    step self s (.free caller esp ptr) =
      some ⟨{ s.kernel with mem := store h.mem esp 0 },
        s.live.filter fun e => ¬ (e.caller = caller ∧ e.ptr = ptr)⟩ := by
  obtain ⟨hnum, harg, hframe⟩ := hcan
  have hhandler : self.handleInterrupt esp s.kernel =
      some (esp, { s.kernel with mem := store h.mem esp 0 }) := by
    rw [handleInterrupt_free hactive hnum, harg]
    show Option.map _ (free .wrapping (s.session R).heap ptr.toNat) = _
    rw [hfree]
    rfl
  rw [step, hhandler]
  rfl

/-- `SYSCALL_FREE` of a chunk of the list that is not a live block of another caller. -/
theorem step_free_chunk (hactive : s.kernel.dev.activeMemoryManager = some R.start)
    (hi : HeapInvariant R (s.session R) bs) (hcan : CanDo R s (.free caller esp ptr)) {b : Block}
    (hb : b ∈ bs) (haddr : b.addr + 16 = ptr.toNat)
    (hown : ∀ e ∈ s.live, e.ptr = ptr → e.caller = caller) :
    ∃ t, step self s (.free caller esp ptr) = some t ∧ Owned R t := by
  have hlt := ptr.toNat_lt
  obtain ⟨h, hfree, hl', -⟩ := free_spec Arith.exact_wrapping hi.layout hb (by omega)
  rw [haddr] at hfree hl'
  refine ⟨_, step_free_eq hactive hcan hfree, hactive, _, layout_store hl' hcan.2.2, ?_⟩
  simp only [session]
  rw [live_filter (R := R) hown]
  exact hi.live.filter_release _

/-- A flag of 1 is set. -/
theorem allocated_of_byte {chunk : ℕ} (h : m.byte (chunk + 8) = 1) : allocated m chunk = true := by
  rw [allocated, h]
  rfl

/-- A pointer behind which nothing is merged: `free` clears one byte. -/
theorem free_of_detached (h : Detached R s ptr) :
    free .wrapping (s.session R).heap ptr.toNat =
      some ⟨setAllocated s.kernel.mem (ptr - 16).toNat false, R.start⟩ := by
  obtain ⟨hnext, hprev, -⟩ := h
  have hsub : Arith.wrapping.sub ptr.toNat MemoryChunk.sizeof = some (ptr - 16).toNat := by
    have h16 : (16 : UInt32).toNat = 16 := rfl
    have hsizeof : MemoryChunk.sizeof = 16 := rfl
    rw [UInt32.toNat_sub, h16, hsizeof]
    simp only [Arith.wrapping, Option.some.injEq]
    omega
  rw [free, hsub]
  simp only [Option.bind_eq_bind, Option.bind_some, session]
  rw [mergeNext, if_neg (by rintro ⟨h0, h1⟩; rw [allocated_of_byte (hnext h0)] at h1; cases h1)]
  simp only [Option.pure_def, Option.bind_some]
  rw [mergePrev, if_neg (by rintro ⟨h0, h1⟩; rw [allocated_of_byte (hprev h0)] at h1; cases h1)]
  rfl

/-- The flag that `free` clears. -/
theorem setAllocated_detached (m : Mem) (ptr : UInt32) :
    setAllocated m (ptr - 16).toNat false = storeByte m (ptr - 8) 0 := by
  have hplus : ptr - 16 + 8 = ptr - 8 := by grind
  have hmod : ((ptr - 16).toNat + 8) % 2 ^ 32 = (ptr - 8).toNat := by
    rw [← hplus, UInt32.toNat_add]
    rfl
  rw [setAllocated, storeByte, Mem.setByte, Mem.setByte, hmod,
    Nat.mod_eq_of_lt (ptr - 8).toNat_lt]
  rfl

/-- The chunks of the list are the blocks of the layout. -/
theorem mem_chunks (hl : Layout R (s.session R).heap bs) {c : ℕ × Header} :
    c ∈ s.chunks R ↔ ∃ b ∈ bs, c = (b.addr, header s.kernel.mem b.addr) := by
  have hmap : s.chunks R = bs.map fun b => (b.addr, header s.kernel.mem b.addr) :=
    hl.chunkList_eq_map
  rw [hmap, List.mem_map]
  exact exists_congr fun b => and_congr_right fun _ => eq_comm

/-- `SYSCALL_FREE` of a detached pointer. -/
theorem step_free_detached (hactive : s.kernel.dev.activeMemoryManager = some R.start)
    (hi : HeapInvariant R (s.session R) bs) (hcan : CanDo R s (.free caller esp ptr))
    (h : Detached R s ptr) :
    ∃ t, step self s (.free caller esp ptr) = some t ∧ Owned R t := by
  have hout : ∀ b ∈ bs, (ptr - 8).toNat < b.addr ∨ b.addr + 16 ≤ (ptr - 8).toNat :=
    fun b hb => h.2.2 _ ((mem_chunks hi.layout).mpr ⟨b, hb, rfl⟩)
  have hfree := free_of_detached h
  rw [setAllocated_detached] at hfree
  have hl' : Layout R ⟨storeByte s.kernel.mem (ptr - 8) 0, R.start⟩ bs :=
    hi.layout.setByte 0 (ptr - 8).toNat_lt hout
  -- no caller has a block there: its flag would be the byte that is cleared
  have hnone : ∀ e ∈ s.live, e.ptr ≠ ptr := by
    rintro e he rfl
    obtain ⟨b, hb, -, haddr, -⟩ := hi.live.block_of_live _ (List.mem_map_of_mem he)
    have hb8 := hout b hb
    have hlt := e.ptr.toNat_lt
    have h8 : (8 : UInt32).toNat = 8 := rfl
    simp only at haddr
    rw [UInt32.toNat_sub, h8] at hb8
    omega
  refine ⟨_, step_free_eq hactive hcan hfree, hactive, bs, layout_store hl' hcan.2.2, ?_⟩
  have hkeep : (s.live.filter fun e => ¬ (e.caller = caller ∧ e.ptr = ptr)) = s.live := by
    rw [List.filter_eq_self]
    intro e he
    simp [hnone e he]
  simp only [session]
  rw [hkeep]
  exact hi.live

/-- **`SYSCALL_FREE`** under its condition. -/
theorem step_free (hs : Owned R s) (hcan : CanDo R s (.free caller esp ptr))
    (hok : FreeOk R s caller ptr) :
    ∃ t, step self s (.free caller esp ptr) = some t ∧ Owned R t := by
  obtain ⟨hactive, bs, hi⟩ := hs
  rcases hok with ⟨e, he, rfl, rfl⟩ | ⟨c, hc, haddr, hfree⟩ | hdetached
  · obtain ⟨b, hb, -, haddr, -⟩ := hi.live.block_of_live _ (List.mem_map_of_mem he)
    refine step_free_chunk hactive hi hcan hb haddr fun f hf hptr => ?_
    rw [eq_of_ptr_eq hi.live hf he hptr]
  · obtain ⟨b, hb, rfl⟩ := (mem_chunks hi.layout).mp hc
    refine step_free_chunk hactive hi hcan hb haddr fun f hf hptr => ?_
    -- a live block of anyone is a used chunk
    obtain ⟨d, hd, hused, hdaddr, -⟩ := hi.live.block_of_live _ (List.mem_map_of_mem hf)
    simp only at hdaddr haddr hfree
    have hbd : b = d := hi.layout.tiles.eq_of_addr_eq (by decide) hb hd (by rw [hptr] at hdaddr; omega)
    have hflag : (header s.kernel.mem b.addr).allocated = b.used :=
      (hi.layout.linked.header_of_mem hb).1
    rw [hflag, hbd, hused] at hfree
    cases hfree
  · exact step_free_detached hactive hi hcan hdetached

/-- A store outside the heap or into a live block. -/
theorem step_store {x : UInt32} {v : UInt8} (hs : Owned R s) (hcan : CanDo R s (.store x v)) :
    ∃ t, step self s (.store x v) = some t ∧ Owned R t := by
  obtain ⟨hactive, bs, hi⟩ := hs
  refine ⟨_, rfl, hactive, bs, ?_, hi.live⟩
  apply hi.layout.setByte v x.toNat_lt
  intro b hb
  have hbounds := hi.layout.bounds hb
  rcases hcan with hout | ⟨e, he, hge, hlt⟩
  · omega
  · have := hi.payload_apart (List.mem_map_of_mem he) hb
    omega

/-- **Every action returns and keeps the invariant**, if it meets its condition. -/
theorem Owned.step (hs : Owned R s) (hcan : CanDo R s a) (hsafe : Safe R s a) :
    ∃ t, Callers.step self s a = some t ∧ Owned R t := by
  cases a with
  | malloc caller esp size => exact step_malloc hs hcan
  | free caller esp ptr => exact step_free hs hcan hsafe
  | store x v => exact step_store hs hcan

end Step

/-! ## Runs on a small heap -/

/-- The frame that the entry code leaves for a request. -/
def frame (m : Mem) : CallerAction → Mem
  | .malloc _ esp size => store (store m esp 6) (esp + 4) size
  | .free _ esp ptr => store (store m esp 7) (esp + 4) ptr
  | .store _ _ => m

/-- A new heap of 256 bytes, with the frames for the requests in memory. -/
def start (actions : List CallerAction) : Callers :=
  ⟨⟨(construct (actions.foldl frame fun _ => 0) 0x100 0x100).mem,
    ⟨[], 0, 0, ⟨0, 0, 15, 0⟩, some 0x100⟩⟩, []⟩

end Callers
