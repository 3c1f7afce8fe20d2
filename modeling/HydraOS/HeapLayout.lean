/-
# The chunk list in memory

What it means for the memory of a `MemoryManager` to hold a given list of blocks
(`Layout`), and how the stores of `malloc` and `free` act on it.  The chain of
headers is described by `Segment`, which also speaks about parts of the list, so
that a store into one header is local: everything before and after keeps its
description by `HeaderFrame.header_eq`.
-/
import HydraOS.BlockList
import HydraOS.MemoryManager

open MemoryChunk BlockList

/-! ## Headers and frames -/

/-- The four fields of a `MemoryChunk`. -/
@[ext] structure Header where
  next : ℕ
  prev : ℕ
  allocated : Bool
  size : ℕ

/-- The header stored at an address. -/
def header (m : Mem) (a : ℕ) : Header := ⟨next m a, prev m a, allocated m a, size m a⟩

/-- `m'` differs from `m` at most inside the headers at the addresses `as`. -/
def HeaderFrame (as : List ℕ) (m m' : Mem) : Prop :=
  ∀ c < 2 ^ 32, (∀ a ∈ as, c < a ∨ a + 16 ≤ c) → m'.byte c = m.byte c

section Frames

variable {as as' : List ℕ} {m m' m'' : Mem} {a c v : ℕ}

/-- A header is determined by its 16 bytes. -/
theorem header_congr (h : ∀ i < 16, m'.byte (a + i) = m.byte (a + i)) :
    header m' a = header m a := by
  have hword : ∀ i, i + 4 ≤ 16 → m'.loadWord (a + i) = m.loadWord (a + i) := by
    intro i hi
    refine Mem.loadWord_congr fun j hj => ?_
    rw [Nat.add_assoc]
    exact h _ (by omega)
  have h0 : m'.loadWord a = m.loadWord a := hword 0 (by omega)
  have h8 : m'.byte (a + 8) = m.byte (a + 8) := h 8 (by omega)
  rw [header, header, next, next, prev, prev, allocated, allocated, size, size, h0,
    hword 4 (by omega), h8, hword 12 (by omega)]

namespace HeaderFrame

theorem refl (as : List ℕ) (m : Mem) : HeaderFrame as m m := fun _ _ _ => rfl

theorem trans (h : HeaderFrame as m m') (h' : HeaderFrame as m' m'') : HeaderFrame as m m'' :=
  fun c hc hout => (h' c hc hout).trans (h c hc hout)

theorem mono (h : HeaderFrame as m m') (hsub : ∀ a ∈ as, a ∈ as') : HeaderFrame as' m m' :=
  fun c hc hout => h c hc fun a ha => hout a (hsub a ha)

/-- A header apart from the changed ones reads the same. -/
theorem header_eq (h : HeaderFrame as m m') (hc : c + 16 ≤ 2 ^ 32)
    (hout : ∀ a ∈ as, c + 16 ≤ a ∨ a + 16 ≤ c) : header m' c = header m c :=
  header_congr fun i hi => h (c + i) (by omega) fun a ha => by
    have := hout a ha
    omega

/-- The form of `header_eq` for a store into a single header. -/
theorem header_eq_of_apart (h : HeaderFrame [a] m m') (hc : c + 16 ≤ 2 ^ 32)
    (hout : c + 16 ≤ a ∨ a + 16 ≤ c) : header m' c = header m c :=
  h.header_eq hc fun _ ha => by rwa [List.mem_singleton.mp ha]

/-- Storing the link of a chunk in the set. -/
theorem setNext (h : HeaderFrame as m m') (ha : a ∈ as) (hr : a + 16 ≤ 2 ^ 32) :
    HeaderFrame as m (setNext m' a v) := h.trans fun c hc hout => by
  have := hout a ha
  exact Mem.byte_storeWord_of_apart m' v (by omega) hc (by omega)

/-- Storing the link back of a chunk in the set. -/
theorem setPrev (h : HeaderFrame as m m') (ha : a ∈ as) (hr : a + 16 ≤ 2 ^ 32) :
    HeaderFrame as m (setPrev m' a v) := h.trans fun c hc hout => by
  have := hout a ha
  exact Mem.byte_storeWord_of_apart m' v (by omega) hc (by omega)

/-- Storing the size of a chunk in the set. -/
theorem setSize (h : HeaderFrame as m m') (ha : a ∈ as) (hr : a + 16 ≤ 2 ^ 32) :
    HeaderFrame as m (setSize m' a v) := h.trans fun c hc hout => by
  have := hout a ha
  exact Mem.byte_storeWord_of_apart m' v (by omega) hc (by omega)

/-- Storing the flag of a chunk in the set. -/
theorem setAllocated {b : Bool} (h : HeaderFrame as m m') (ha : a ∈ as)
    (hr : a + 16 ≤ 2 ^ 32) :
    HeaderFrame as m (setAllocated m' a b) := h.trans fun c hc hout => by
  have := hout a ha
  exact Mem.byte_setByte_of_ne m' _ (by omega)

end HeaderFrame

/-! ## A field after a store into its own header -/

/-- The header after its link is stored. -/
theorem header_setNext (m : Mem) (hr : a + 16 ≤ 2 ^ 32) (hv : v < 2 ^ 32) :
    header (setNext m a v) a = { header m a with next := v } := by
  simp only [header, setNext, next, prev, allocated, size, Mem.loadWord_storeWord_self,
    Nat.mod_eq_of_lt hv]
  rw [Mem.loadWord_storeWord_of_apart _ _ (by omega) (by omega) (by omega),
    Mem.loadWord_storeWord_of_apart _ _ (by omega) (by omega) (by omega),
    Mem.byte_storeWord_of_apart _ _ (by omega) (by omega) (by omega)]

theorem header_setPrev (m : Mem) (hr : a + 16 ≤ 2 ^ 32) (hv : v < 2 ^ 32) :
    header (setPrev m a v) a = { header m a with prev := v } := by
  simp only [header, setPrev, next, prev, allocated, size, Mem.loadWord_storeWord_self,
    Nat.mod_eq_of_lt hv]
  rw [Mem.loadWord_storeWord_of_apart _ _ (by omega) (by omega) (by omega),
    Mem.loadWord_storeWord_of_apart _ _ (by omega) (by omega) (by omega),
    Mem.byte_storeWord_of_apart _ _ (by omega) (by omega) (by omega)]

theorem header_setSize (m : Mem) (hr : a + 16 ≤ 2 ^ 32) (hv : v < 2 ^ 32) :
    header (setSize m a v) a = { header m a with size := v } := by
  simp only [header, setSize, next, prev, allocated, size, Mem.loadWord_storeWord_self,
    Nat.mod_eq_of_lt hv]
  rw [Mem.loadWord_storeWord_of_apart _ _ (by omega) (by omega) (by omega),
    Mem.loadWord_storeWord_of_apart _ _ (by omega) (by omega) (by omega),
    Mem.byte_storeWord_of_apart _ _ (by omega) (by omega) (by omega)]

theorem header_setAllocated (m : Mem) (b : Bool) (hr : a + 16 ≤ 2 ^ 32) :
    header (setAllocated m a b) a = { header m a with allocated := b } := by
  simp only [header, setAllocated, next, prev, allocated, size, Mem.byte_setByte_self]
  rw [Mem.loadWord_setByte_of_apart _ _ (by omega) (by omega) (by omega),
    Mem.loadWord_setByte_of_apart _ _ (by omega) (by omega) (by omega),
    Mem.loadWord_setByte_of_apart _ _ (by omega) (by omega) (by omega)]
  cases b <;> rfl

end Frames

/-! ## Chains of headers -/

/-- The address of the first block of a list, or `d`. -/
def headAddr (d : ℕ) : List Block → ℕ
  | [] => d
  | b :: _ => b.addr

/-- The address of the last block of a list, or `d`. -/
def lastAddr : ℕ → List Block → ℕ
  | d, [] => d
  | _, b :: bs => lastAddr b.addr bs

@[simp] theorem headAddr_nil (d : ℕ) : headAddr d [] = d := rfl

@[simp] theorem headAddr_cons (d : ℕ) (b : Block) (bs : List Block) :
    headAddr d (b :: bs) = b.addr := rfl

/-- Where a list of blocks starts, when it is followed by another. -/
theorem headAddr_append (d : ℕ) (xs ys : List Block) :
    headAddr d (xs ++ ys) = headAddr (headAddr d ys) xs := by
  cases xs <;> rfl

/-- The headers of the blocks `bs` are in memory and linked in this order, the
first pointing back to `p` and the last pointing on to `q`. -/
def Segment (m : Mem) : ℕ → List Block → ℕ → Prop
  | _, [], _ => True
  | p, b :: bs, q => header m b.addr = ⟨headAddr q bs, p, b.used, b.size⟩ ∧ Segment m b.addr bs q

section Segments

variable {m m' : Mem} {p q : ℕ} {a b : Block} {xs ys bs : List Block}

@[simp] theorem segment_nil : Segment m p [] q := trivial

@[simp] theorem segment_cons : Segment m p (b :: bs) q ↔
    header m b.addr = ⟨headAddr q bs, p, b.used, b.size⟩ ∧ Segment m b.addr bs q := Iff.rfl

/-- **A segment in two parts**: the first leads to the start of the second, whose first block
leads back to the last of the first. -/
theorem segment_append : Segment m p (xs ++ ys) q ↔
    Segment m p xs (headAddr q ys) ∧ Segment m (lastAddr p xs) ys q := by
  induction xs generalizing p with
  | nil => simp [lastAddr]
  | cons b xs ih =>
    rw [List.cons_append, segment_cons, segment_cons, ih, headAddr_append, lastAddr, and_assoc]

/-- A segment depends only on its own headers. -/
theorem Segment.congr (h : Segment m p bs q)
    (heq : ∀ b ∈ bs, header m' b.addr = header m b.addr) : Segment m' p bs q := by
  induction bs generalizing p with
  | nil => trivial
  | cons b bs ih =>
    rw [List.forall_mem_cons] at heq
    exact ⟨heq.1.trans h.1, ih h.2 heq.2⟩

/-- The blocks of a segment are those its headers record. -/
theorem Segment.header_of_mem (h : Segment m p bs q) (hb : b ∈ bs) :
    (header m b.addr).allocated = b.used ∧ (header m b.addr).size = b.size := by
  induction bs generalizing p with
  | nil => simp at hb
  | cons a bs ih =>
    rcases List.mem_cons.mp hb with rfl | hb
    · rw [h.1]
      exact ⟨rfl, rfl⟩
    · exact ih h.2 hb

/-- Point the header at `x` back to `v`, unless `x` is null. -/
def relink (m : Mem) (x v : ℕ) : Mem := if x ≠ 0 then setPrev m x v else m

end Segments

/-! ## Heap layouts -/

/-- The memory region that a `MemoryManager` is built on. -/
structure Region where
  start : ℕ
  stop : ℕ
  start_pos : 0 < start
  room : start + 16 ≤ stop
  stop_le : stop ≤ 2 ^ 32

/-- **The representation invariant.**  The chunk list of the heap `h` is the list
`bs`: it starts at the start of the region, tiles the region, contains no two
adjacent free chunks, and the headers in memory are linked accordingly. -/
structure Layout (R : Region) (h : Heap) (bs : List Block) : Prop where
  first : h.first = R.start
  tiles : Tiles 16 R.start R.stop bs
  coalesced : Coalesced bs
  linked : Segment h.mem 0 bs 0

namespace Layout

variable {R : Region} {h : Heap} {bs : List Block} {b : Block}

/-- A region is never without a chunk. -/
theorem ne_nil (hl : Layout R h bs) : bs ≠ [] := by
  rintro rfl
  have := hl.tiles
  have := R.room
  simp only [tiles_nil] at *
  omega

/-- The first chunk is at the start of the region. -/
theorem headAddr_eq (hl : Layout R h bs) : headAddr 0 bs = R.start := by
  cases bs with
  | nil => exact absurd rfl hl.ne_nil
  | cons b bs => exact hl.tiles.1

/-- A block of the layout is inside the region, hence inside the address space. -/
theorem bounds (hl : Layout R h bs) (hb : b ∈ bs) :
    0 < b.addr ∧ R.start ≤ b.addr ∧ b.addr + 16 + b.size ≤ R.stop ∧ R.stop ≤ 2 ^ 32 := by
  have := hl.tiles.bounds hb
  have := R.start_pos
  have := R.stop_le
  omega

end Layout
