/-
# The kernel heap: `memory.h`, `memory.cpp`

`MemoryManager` threads a doubly linked list of `MemoryChunk` headers through the
memory it manages: a header of 16 bytes stands in front of every payload.  The
functions below follow `MemoryManager::MemoryManager`, `malloc` and `free`
statement by statement on a byte memory.

They take the arithmetic of `size_t` as a parameter `A`.  `Arith.wrapping` is the
machine's; running the same code with `Arith.checked` tells whether a computation
left the 32-bit range.  A result `none` means that the call does not return.
-/
import HydraOS.ByteMemory

/-! ## `MemoryChunk` -/

namespace MemoryChunk

/-- `sizeof(MemoryChunk)`: two pointers, a `bool` padded to a word, a `size_t`. -/
abbrev sizeof : ℕ := 16

def next (m : Mem) (chunk : ℕ) : ℕ := m.loadWord chunk

def prev (m : Mem) (chunk : ℕ) : ℕ := m.loadWord (chunk + 4)

def allocated (m : Mem) (chunk : ℕ) : Bool := m.byte (chunk + 8) != 0

def size (m : Mem) (chunk : ℕ) : ℕ := m.loadWord (chunk + 12)

def setNext (m : Mem) (chunk v : ℕ) : Mem := m.storeWord chunk v

def setPrev (m : Mem) (chunk v : ℕ) : Mem := m.storeWord (chunk + 4) v

/-- Storing a `bool` writes one byte; the padding after it stays. -/
def setAllocated (m : Mem) (chunk : ℕ) (v : Bool) : Mem :=
  m.setByte (chunk + 8) (if v then 1 else 0)

def setSize (m : Mem) (chunk v : ℕ) : Mem := m.storeWord (chunk + 12) v

end MemoryChunk

open MemoryChunk

/-! ## `MemoryManager` -/

/-- A `MemoryManager` (its one field `first`) and the memory it works on. -/
structure Heap where
  mem : Mem
  first : ℕ

namespace MemoryManager

/-- `MemoryManager::MemoryManager(start, size)`. -/
def construct (m : Mem) (start size : ℕ) : Heap :=
  if size < MemoryChunk.sizeof then ⟨m, 0⟩
  else
    let m := setAllocated m start false
    let m := setPrev m start 0
    let m := setNext m start 0
    let m := setSize m start (size - MemoryChunk.sizeof)
    ⟨m, start⟩

/-- The search loop of `malloc`: the first free chunk with more than `size`
bytes, or 0.  The memory does not change during the loop and there are fewer than
`2 ^ 32` non-null addresses, so a walk of `2 ^ 32` steps has visited a chunk twice
and goes on for ever. -/
def search (m : Mem) (size : ℕ) : ℕ → ℕ → Option ℕ
  | 0, _ => none
  | fuel + 1, chunk =>
    if chunk = 0 then some 0
    else if size < MemoryChunk.size m chunk ∧ allocated m chunk = false then some chunk
    else search m size fuel (next m chunk)

/-- The split in `malloc`: a new chunk `temp` after the `size` bytes of `result`. -/
def split (A : Arith) (m : Mem) (result size : ℕ) : Option Mem := do
  let temp ← A.add (← A.add result MemoryChunk.sizeof) size
  let m := setAllocated m temp false
  let m := setSize m temp
    (← A.sub (← A.sub (MemoryChunk.size m result) size) MemoryChunk.sizeof)
  let m := setPrev m temp result
  let m := setNext m temp (next m result)
  let m := if next m temp ≠ 0 then setPrev m (next m temp) temp else m
  let m := setSize m result size
  let m := setNext m result temp
  return m

/-- `MemoryManager::malloc(size)`: the pointer returned and the heap after the call. -/
def malloc (A : Arith) (h : Heap) (size : ℕ) : Option (ℕ × Heap) := do
  let result ← search h.mem size (2 ^ 32) h.first
  if result = 0 then
    return (0, h)
  let needed ← A.add (← A.add size MemoryChunk.sizeof) 1
  let m ← if MemoryChunk.size h.mem result ≥ needed then split A h.mem result size
    else pure h.mem
  let m := setAllocated m result true
  let p ← A.add result MemoryChunk.sizeof
  return (p, { h with mem := m })

/-- The first half of `free`: merge with the next chunk if it is free. -/
def mergeNext (A : Arith) (m : Mem) (chunk : ℕ) : Option Mem := do
  if next m chunk ≠ 0 ∧ allocated m (next m chunk) = false then
    let size ← A.add (MemoryChunk.size m chunk)
      (← A.add (MemoryChunk.size m (next m chunk)) MemoryChunk.sizeof)
    let m := setSize m chunk size
    let m := setNext m chunk (next m (next m chunk))
    return if next m chunk ≠ 0 then setPrev m (next m chunk) chunk else m
  else
    return m

/-- The second half of `free`: merge with the previous chunk if it is free. -/
def mergePrev (A : Arith) (m : Mem) (chunk : ℕ) : Option Mem := do
  if prev m chunk ≠ 0 ∧ allocated m (prev m chunk) = false then
    let size ← A.add (MemoryChunk.size m (prev m chunk))
      (← A.add (MemoryChunk.size m chunk) MemoryChunk.sizeof)
    let m := setSize m (prev m chunk) size
    let m := setNext m (prev m chunk) (next m chunk)
    return if next m chunk ≠ 0 then setPrev m (next m chunk) (prev m chunk) else m
  else
    return m

/-- `MemoryManager::free(ptr)`. -/
def free (A : Arith) (h : Heap) (ptr : ℕ) : Option Heap := do
  let chunk ← A.sub ptr MemoryChunk.sizeof
  let m := setAllocated h.mem chunk false
  let m ← mergeNext A m chunk
  let m ← mergePrev A m chunk
  return { h with mem := m }

end MemoryManager
