/-
# The file system and the shell on the kernel's heap

The services of the shell with the heap of `memory.cpp` behind them.  The calls on the heap,
and the stores through a pointer that `malloc` returned to the shell, go into a trace; a trace
is safe when every store is into a block that is held at that time and every `free` gives a held
block back.  A buffer of 512 bytes is given to the file system as an array, which it cannot
leave, and its last contents are stored when it is freed.
-/
import HydraOS.AtaDriver
import HydraOS.FirstFit
import HydraOS.Shell
import HydraOS.TemporaryBuffers

open BlockList

/-! ## Traces of a heap -/

/-- A call on a heap, or a store at an offset of a block. -/
inductive HeapEvent where
  | malloc (size ptr : ℕ)
  | free (ptr : ℕ)
  | store (ptr index : ℕ)
  deriving DecidableEq

namespace HeapEvent

/-- What an event does to the blocks that are held, each with the size that was asked for;
`none` if it gives back or stores to what is not held. -/
def step : HeapEvent → List (ℕ × ℕ) → Option (List (ℕ × ℕ))
  | malloc size ptr, held => some (if ptr = 0 then held else (ptr, size) :: held)
  | free ptr, held =>
    if ∃ e ∈ held, e.1 = ptr then some (held.eraseP fun e => e.1 = ptr) else none
  | store ptr index, held =>
    if ∃ e ∈ held, e.1 = ptr ∧ index < e.2 then some held else none

/-- The blocks that are held after the events, the latest first. -/
def held : List HeapEvent → Option (List (ℕ × ℕ))
  | [] => some []
  | e :: trace => (held trace).bind e.step

variable {trace : List HeapEvent} {blocks : List (ℕ × ℕ)} {size ptr index : ℕ}

theorem held_malloc (h : held trace = some blocks) (hptr : ptr ≠ 0) :
    held (malloc size ptr :: trace) = some ((ptr, size) :: blocks) := by
  rw [held, h, Option.bind_some, step, if_neg hptr]

theorem held_malloc_null (h : held trace = some blocks) :
    held (malloc size 0 :: trace) = some blocks := by
  rw [held, h, Option.bind_some, step, if_pos rfl]

/-- The block that was taken last may be given back. -/
theorem held_free (h : held trace = some ((ptr, size) :: blocks)) :
    held (free ptr :: trace) = some blocks := by
  rw [held, h, Option.bind_some, step, if_pos ⟨(ptr, size), List.mem_cons_self, rfl⟩]
  simp

theorem held_store (h : held trace = some blocks) (hmem : (ptr, size) ∈ blocks)
    (hindex : index < size) : held (store ptr index :: trace) = some blocks := by
  rw [held, h, Option.bind_some, step, if_pos ⟨(ptr, size), hmem, rfl, hindex⟩]

end HeapEvent

/-! ## The heap with its trace -/

/-- A `MemoryManager` and the trace of what was done with it, the latest first.  The heap is
`none` after a call that does not return. -/
structure TracedHeap where
  heap : Option Heap
  trace : List HeapEvent

namespace TracedHeap

/-- `malloc(size)`. -/
def malloc (size : UInt32) (k : TracedHeap) : ℕ × TracedHeap :=
  match k.heap.bind fun h => MemoryManager.malloc .wrapping h size.toNat with
  | none => (0, { k with heap := none })
  | some (ptr, h) => (ptr, ⟨some h, .malloc size.toNat ptr :: k.trace⟩)

/-- `free(ptr)`. -/
def free (ptr : ℕ) (k : TracedHeap) : TracedHeap :=
  ⟨k.heap.bind fun h => MemoryManager.free .wrapping h ptr, .free ptr :: k.trace⟩

/-- `ptr[index] = v`. -/
def store (ptr : ℕ) (index : UInt32) (v : UInt8) (k : TracedHeap) : TracedHeap :=
  ⟨k.heap.map fun h => { h with mem := h.mem.setByte (ptr + index.toNat) v },
    .store ptr index.toNat :: k.trace⟩

/-- `ptr[index]`. -/
def load (ptr : ℕ) (index : UInt32) (k : TracedHeap) : UInt8 :=
  match k.heap with
  | none => 0
  | some h => h.mem.byte (ptr + index.toNat)

/-- The 512 bytes of a buffer are stored. -/
def fill (ptr : ℕ) (data : Sector) (h : Heap) : Heap :=
  forLoop (fun _ => true)
    (fun i h => { h with mem := h.mem.setByte (ptr + i) (data.get i) }) 512 0 h

/-- A buffer is given back with its last contents. -/
def freeBuffer (buffer : Buffer) (k : TracedHeap) : TracedHeap :=
  free buffer.ptr { k with heap := k.heap.map (fill buffer.ptr buffer.data) }

end TracedHeap

/-! ## The services -/

/-- What the disk driver does: one sector is read into an array or written from it, and the
drive is asked for its identity. -/
structure DiskService (δ : Type) where
  read28 : UInt32 → Sector → δ → Sector × δ
  write28 : UInt32 → Sector → δ → δ
  identify : δ → δ

/-- The driver of a drive on the bus. -/
def Ata.diskService {δ : Type} (a : Ata) (D : Device δ) : DiskService (Bus δ) where
  read28 sector data b := let r := a.read28 D sector data.get 1 b; (Bytes.tabulate r.1, r.2)
  write28 sector data b := a.write28 D sector data.get 1 b
  identify b := a.identify D b

/-- A disk that stores and returns sectors. -/
def plainDisk : DiskService (UInt32 → Sector) where
  read28 sector data d := (if sector ≤ 0x0FFFFFFF then d sector else data, d)
  write28 sector data d := if sector ≤ 0x0FFFFFFF then Function.update d sector data else d
  identify d := d

/-- The heap of the kernel and the disk. -/
structure KernelWorld (δ : Type) where
  heap : TracedHeap
  disk : δ

/-- The services of the shell, with loads and stores through a pointer to a block. -/
structure PointerEnv (σ : Type) extends ShellEnv σ where
  store : ℕ → UInt32 → UInt8 → σ → σ
  load : ℕ → UInt32 → σ → UInt8

/-- The services that the kernel provides. -/
def kernelEnv {δ : Type} (D : DiskService δ) : PointerEnv (KernelWorld δ) where
  malloc w :=
    let (ptr, heap) := w.heap.malloc 512
    (if ptr = 0 then none else some ⟨ptr, Bytes.tabulate fun i => heap.load ptr (.ofNat i)⟩,
      { w with heap := heap })
  free buffer w := { w with heap := w.heap.freeBuffer buffer }
  read28 sector buffer w :=
    let (data, disk) := D.read28 sector buffer.data w.disk
    ({ buffer with data := data }, { w with disk := disk })
  write28 sector buffer w := { w with disk := D.write28 sector buffer.data w.disk }
  mallocBytes size w :=
    let (ptr, heap) := w.heap.malloc size
    (if ptr = 0 then none else some ⟨ptr, fun i => heap.load ptr (.ofNat i)⟩,
      { w with heap := heap })
  -- the stores into such a block have been made one by one
  freeBytes block w := { w with heap := w.heap.free block.ptr }
  identify w := { w with disk := D.identify w.disk }
  store ptr index v w := { w with heap := w.heap.store ptr index v }
  load ptr index w := w.heap.load ptr index

/-- With the drive on the bus, the disk of the kernel is the one of `Ata.env`. -/
theorem kernelEnv_ata {δ : Type} (a : Ata) (D : Device δ) (H : HeapService TracedHeap)
    (sector : UInt32) (buffer : Buffer) (k : TracedHeap) (b : Bus δ) :
    let E := kernelEnv (a.diskService D)
    let r := (a.env D H).read28 sector buffer ⟨k, b⟩
    E.read28 sector buffer ⟨k, b⟩ = (r.1, ⟨r.2.heap, r.2.bus⟩) ∧
      E.write28 sector buffer ⟨k, b⟩ = ⟨k, ((a.env D H).write28 sector buffer ⟨k, b⟩).bus⟩ :=
  ⟨rfl, rfl⟩

/-! ## Stores into a block -/

section Blocks

variable {R : Region} {h : Heap} {bs : List Block} {p : ℕ}

/-- A store into the payload of a block leaves the layout alone. -/
theorem Layout.setByte_payload {c : ℕ} (hl : Layout R h bs) (v : UInt8) {b : Block} (hb : b ∈ bs)
    (hlo : b.addr + 16 ≤ c) (hhi : c < b.addr + 16 + b.size) :
    Layout R { h with mem := h.mem.setByte c v } bs := by
  have hbounds := hl.bounds hb
  refine hl.setByte v (by omega) fun d hd => ?_
  rcases hl.tiles.apart hb hd with rfl | hbd | hdb
  · exact .inr hlo
  · exact .inl (by omega)
  · exact .inr (by omega)

/-- Storing a buffer of 512 bytes into its block leaves the layout alone. -/
theorem Layout.fill (hl : Layout R h bs) (hp : HasBlock bs p 512) (data : Sector) :
    Layout R (TracedHeap.fill p data h) bs := by
  obtain ⟨b, hb, -, rfl, hsize⟩ := hp
  rw [TracedHeap.fill]
  exact forLoop_invariant_of_true (fun _ h => Layout R h bs) hl fun i h _ hi hh =>
    hh.setByte_payload _ hb (by omega) (by omega)

end Blocks

/-! ## The state of the kernel's heap -/

/-- **A sound state.**  The heap is laid out as the blocks `i.1`, the trace is safe and leaves
the blocks `i.2` held, each of which has its bytes in the layout, and all stores of the trace
are allowed by `P`. -/
structure TracedHeap.Sound (R : Region) (P : ℕ → ℕ → Prop) (i : List Block × List (ℕ × ℕ))
    (k : TracedHeap) : Prop where
  layout : ∃ h, k.heap = some h ∧ Layout R h i.1
  held : HeapEvent.held k.trace = some i.2
  blocks : ∀ e ∈ i.2, HasBlock i.1 e.1 e.2
  stores : ∀ ptr index, HeapEvent.store ptr index ∈ k.trace → P ptr index

namespace TracedHeap

variable {R : Region} {P : ℕ → ℕ → Prop} {k : TracedHeap} {bs : List Block}
  {blocks : List (ℕ × ℕ)} {ptr size : ℕ}

/-- A call of `malloc` that returns. -/
theorem malloc_eq {h h' : Heap} {n : UInt32} (hheap : k.heap = some h)
    (hm : MemoryManager.malloc .wrapping h n.toNat = some (ptr, h')) :
    k.malloc n = (ptr, ⟨some h', .malloc n.toNat ptr :: k.trace⟩) := by
  rw [TracedHeap.malloc, hheap, Option.bind_some, hm]

/-- `malloc` in a sound state: it returns null and changes nothing, or a new block, and then
freeing the block in a state that is sound with it leads back. -/
theorem Sound.malloc (hk : Sound R P (bs, blocks) k) (size : UInt32) :
    (∃ k', k.malloc size = (0, k') ∧ Sound R P (bs, blocks) k') ∨
      ∃ ptr k' bs', k.malloc size = (ptr, k') ∧ ptr ≠ 0 ∧
        Sound R P (bs', (ptr, size.toNat) :: blocks) k' ∧
        (∃ h h', k.heap = some h ∧ MemoryManager.malloc .wrapping h size.toNat = some (ptr, h') ∧
          Layout R h' bs') ∧
        ∀ k'', Sound R P (bs', (ptr, size.toNat) :: blocks) k'' →
          Sound R P (bs, blocks) (k''.free ptr) := by
  obtain ⟨⟨h, hheap, hl⟩, hheld, hblocks, hstores⟩ := hk
  rcases malloc_for_a_while Arith.exact_wrapping hl size.toNat with
    ⟨hm, -⟩ | ⟨ptr, h', bs', hm, -, hl', hptr, hnew, hkept, hfree⟩
  · refine .inl ⟨⟨some h, .malloc size.toNat 0 :: k.trace⟩, malloc_eq hheap hm, ⟨h, rfl, hl⟩,
      HeapEvent.held_malloc_null hheld, hblocks, fun ptr index hmem => ?_⟩
    exact hstores ptr index (List.mem_of_ne_of_mem (by simp) hmem)
  · refine .inr ⟨ptr, ⟨some h', .malloc size.toNat ptr :: k.trace⟩, bs', malloc_eq hheap hm, hptr,
      ⟨⟨h', rfl, hl'⟩, HeapEvent.held_malloc hheld hptr, fun e he => ?_, fun q index hmem => ?_⟩,
      ⟨h, h', hheap, hm, hl'⟩, fun k'' hk'' => ?_⟩
    · rcases List.mem_cons.mp he with rfl | he
      · exact hnew
      · obtain ⟨b, hb, hu, haddr, hsize⟩ := hblocks e he
        exact ⟨b, hkept b hb hu, hu, haddr, hsize⟩
    · exact hstores q index (List.mem_of_ne_of_mem (by simp) hmem)
    · obtain ⟨⟨h'', hheap'', hl''⟩, hheld'', -, hstores''⟩ := hk''
      obtain ⟨h₀, hf, hl₀⟩ := hfree h'' hl''
      refine ⟨⟨h₀, ?_, hl₀⟩, HeapEvent.held_free hheld'', hblocks, fun q index hmem => ?_⟩
      · rw [TracedHeap.free, hheap'', Option.bind_some, hf]
      · exact hstores'' q index (List.mem_of_ne_of_mem (by simp) hmem)

/-- A store into a block that is held. -/
theorem Sound.store (hk : Sound R P (bs, blocks) k) (index : UInt32) (v : UInt8)
    (hheld : (ptr, size) ∈ blocks) (hindex : index.toNat < size) (hP : P ptr index.toNat) :
    Sound R P (bs, blocks) (k.store ptr index v) := by
  obtain ⟨⟨h, hheap, hl⟩, htrace, hblocks, hstores⟩ := hk
  obtain ⟨b, hb, hu, haddr, hsize⟩ := hblocks _ hheld
  simp only at haddr hsize
  refine ⟨⟨{ h with mem := h.mem.setByte (ptr + index.toNat) v }, ?_, ?_⟩,
    HeapEvent.held_store htrace hheld hindex, hblocks, fun q j hmem => ?_⟩
  · rw [TracedHeap.store, hheap, Option.map_some]
  · exact hl.setByte_payload v hb (by omega) (by omega)
  · rcases List.mem_cons.mp hmem with heq | hmem
    · cases heq
      exact hP
    · exact hstores q j hmem

/-- What a buffer holds is stored in its block before it is freed. -/
theorem Sound.fill (hk : Sound R P (bs, blocks) k) (hheld : (ptr, 512) ∈ blocks)
    (data : Sector) :
    Sound R P (bs, blocks) { k with heap := k.heap.map (TracedHeap.fill ptr data) } := by
  obtain ⟨⟨h, hheap, hl⟩, htrace, hblocks, hstores⟩ := hk
  refine ⟨⟨TracedHeap.fill ptr data h, ?_, hl.fill (hblocks _ hheld) data⟩, htrace, hblocks,
    hstores⟩
  rw [hheap, Option.map_some]

end TracedHeap

section Kernel

variable {δ : Type} (D : DiskService δ) {R : Region} {P : ℕ → ℕ → Prop} {w : KernelWorld δ}
  {bs : List Block} {blocks : List (ℕ × ℕ)}

theorem kernelEnv_malloc_eq {ptr : ℕ} {k : TracedHeap} (hm : w.heap.malloc 512 = (ptr, k)) :
    (kernelEnv D).malloc w =
      (if ptr = 0 then none else some ⟨ptr, Bytes.tabulate fun i => k.load ptr (.ofNat i)⟩,
        { w with heap := k }) := by
  simp only [kernelEnv, hm]

/-- A buffer of 512 bytes. -/
theorem kernelEnv_malloc (hw : w.heap.Sound R P (bs, blocks)) :
    (∃ w', (kernelEnv D).malloc w = (none, w') ∧ w'.heap.Sound R P (bs, blocks)) ∨
      ∃ buffer w' bs', (kernelEnv D).malloc w = (some buffer, w') ∧
        w'.heap.Sound R P (bs', (buffer.ptr, 512) :: blocks) ∧
        ∀ b w'', b.ptr = buffer.ptr → w''.heap.Sound R P (bs', (buffer.ptr, 512) :: blocks) →
          ((kernelEnv D).free b w'').heap.Sound R P (bs, blocks) := by
  rcases hw.malloc 512 with ⟨k, hm, hk⟩ | ⟨ptr, k, bs', hm, hptr, hk, -, hfree⟩
  · exact .inl ⟨{ w with heap := k }, by rw [kernelEnv_malloc_eq D hm, if_pos rfl], hk⟩
  · refine .inr ⟨⟨ptr, Bytes.tabulate fun i => k.load ptr (.ofNat i)⟩, { w with heap := k }, bs',
      ?_, hk, ?_⟩
    · rw [kernelEnv_malloc_eq D hm, if_neg hptr]
    · rintro ⟨q, data⟩ w'' rfl hw''
      exact hfree _ (hw''.fill List.mem_cons_self data)

/-- A block of any size. -/
theorem kernelEnv_mallocBytes (hw : w.heap.Sound R P (bs, blocks)) (size : UInt32) :
    (∃ w', (kernelEnv D).mallocBytes size w = (none, w') ∧ w'.heap.Sound R P (bs, blocks)) ∨
      ∃ block w' bs', (kernelEnv D).mallocBytes size w = (some block, w') ∧
        w'.heap.Sound R P (bs', (block.ptr, size.toNat) :: blocks) ∧
        (∃ h h', w.heap.heap = some h ∧
          MemoryManager.malloc .wrapping h size.toNat = some (block.ptr, h') ∧ Layout R h' bs') ∧
        ∀ w'', w''.heap.Sound R P (bs', (block.ptr, size.toNat) :: blocks) →
          ((kernelEnv D).freeBytes block w'').heap.Sound R P (bs, blocks) := by
  rcases hw.malloc size with ⟨k, hm, hk⟩ | ⟨ptr, k, bs', hm, hptr, hk, hcall, hfree⟩
  · exact .inl ⟨{ w with heap := k }, by simp [kernelEnv, hm], hk⟩
  · refine .inr ⟨⟨ptr, fun i => k.load ptr (.ofNat i)⟩, { w with heap := k }, bs', ?_, hk, hcall,
      fun w'' hw'' => hfree _ hw''⟩
    simp [kernelEnv, hm, hptr]

/-- **The kernel's services keep the discipline of the heap.** -/
theorem kernelEnv_balanced (R : Region) (P : ℕ → ℕ → Prop) :
    (kernelEnv D).Balanced fun i w => w.heap.Sound R P i where
  malloc := by
    rintro ⟨bs, blocks⟩ w hw
    rcases kernelEnv_malloc D hw with hnone | ⟨buffer, w', bs', hm, hw', hfree⟩
    · exact .inl hnone
    · exact .inr ⟨buffer, w', (bs', (buffer.ptr, 512) :: blocks), hm, hw', hfree⟩
  read28 _ _ hw := hw
  read28_ptr _ _ _ := rfl
  write28 _ _ hw := hw

end Kernel

/-! ## A small kernel -/

/-- A heap of 256 bytes, all of them free. -/
def smallHeap : Heap :=
  MemoryManager.construct (fun _ => 0) smallRegion.start (smallRegion.stop - smallRegion.start)

theorem layout_smallHeap : Layout smallRegion smallHeap
    [⟨smallRegion.start, smallRegion.stop - smallRegion.start - 16, false⟩] :=
  layout_construct smallRegion _

/-- A mounted volume with one file, `a`, of the given size, in the sectors from 10 on. -/
def oneFile (size : UInt32) : FileSystem where
  inodes i := if i.val = 0 then
      ⟨fun j => if j.val = 0 then 97 else 0, size, 10, inodeTypeRegular, 0, 0⟩
    else ⟨fun _ => 0, 0, 0, inodeTypeEmpty, 0, 0⟩
  superblock := ⟨fsMagic, 1000, 1, 1, fun _ => 0⟩
  mounted := true
