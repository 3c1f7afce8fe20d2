/-
# Runs of the heap

The heap together with its clients: each step is a `malloc`, a `free` of a pointer
that is still live, or a store of a client into its own payload.  The layout of the
chunk list and its agreement with the live pointers hold in every state of every
run, no computation wraps, and no call touches a live payload.
-/
import HydraOS.HeapSpec
import HydraOS.Runs

open BlockList

/-! ## Sessions -/

/-- A heap and the live pointers, each with the size that was asked for. -/
structure Session where
  heap : Heap
  live : List (ℕ × ℕ)

/-- What the kernel can do with its heap. -/
inductive HeapAction where
  | malloc (n : ℕ)
  | free (p : ℕ)
  | store (p i : ℕ) (v : UInt8)

/-- One action on the heap.  `free` is called on a live pointer, and a client
stores only inside the bytes that it asked for. -/
inductive HeapStep : Session → HeapAction → Session → Prop
  | malloc {s : Session} {n p : ℕ} {h : Heap} (hn : n < 2 ^ 32)
      (hcall : MemoryManager.malloc .wrapping s.heap n = some (p, h)) :
      HeapStep s (.malloc n) ⟨h, if p = 0 then s.live else (p, n) :: s.live⟩
  | free {s : Session} {p n : ℕ} {h : Heap} (hlive : (p, n) ∈ s.live)
      (hcall : MemoryManager.free .wrapping s.heap p = some h) :
      HeapStep s (.free p) ⟨h, s.live.filter fun e => e.1 ≠ p⟩
  | store {s : Session} {p n i : ℕ} (v : UInt8) (hlive : (p, n) ∈ s.live) (hi : i < n) :
      HeapStep s (.store p i v) ⟨{ s.heap with mem := s.heap.mem.setByte (p + i) v }, s.live⟩

/-- The session that `MemoryManager::MemoryManager` starts on a region. -/
def Session.start (R : Region) (m : Mem) : Session :=
  ⟨MemoryManager.construct m R.start (R.stop - R.start), []⟩

/-- The sessions that a run on the region reaches. -/
def Session.Reachable (R : Region) (m : Mem) (s : Session) : Prop :=
  ∃ actions, Run HeapStep (Session.start R m) actions s

/-- The used blocks and the live pointers correspond one to one: a live pointer is
the payload of a used block with room for what was asked for, a used block belongs
to a live pointer, and no pointer is live twice. -/
structure LiveBlocks (bs : List Block) (live : List (ℕ × ℕ)) : Prop where
  distinct : live.Pairwise fun e f => e.1 ≠ f.1
  block_of_live : ∀ e ∈ live, ∃ b ∈ bs, b.used ∧ b.addr + 16 = e.1 ∧ e.2 ≤ b.size
  live_of_block : ∀ b ∈ bs, b.used → ∃ e ∈ live, e.1 = b.addr + 16
  lt : ∀ e ∈ live, e.1 < 2 ^ 32

/-- **The heap invariant** of a session: the chunk list is laid out in memory, and
its used chunks are the live blocks. -/
structure HeapInvariant (R : Region) (s : Session) (bs : List Block) : Prop where
  layout : Layout R s.heap bs
  live : LiveBlocks bs s.live

/-! ## One step -/

variable {R : Region} {m : Mem} {s t : Session} {a : HeapAction} {bs : List Block}

/-- The constructor lays out one free chunk over the whole region. -/
theorem layout_construct (R : Region) (m : Mem) :
    Layout R (MemoryManager.construct m R.start (R.stop - R.start))
      [⟨R.start, R.stop - R.start - 16, false⟩] := by
  have hroom := R.room
  have hstop := R.stop_le
  have hsizeof : MemoryChunk.sizeof = 16 := rfl
  rw [MemoryManager.construct, if_neg (by omega), hsizeof]
  refine ⟨rfl, ⟨rfl, ?_⟩, .singleton _, ?_, trivial⟩
  · simp only [tiles_nil]
    omega
  · simp only [headAddr_nil]
    rw [header_setSize _ (by omega) (by omega), header_setNext _ (by omega) (by omega),
      header_setPrev _ (by omega) (by omega), header_setAllocated _ _ (by omega)]

theorem heapInvariant_start (R : Region) (m : Mem) :
    ∃ bs, HeapInvariant R (Session.start R m) bs := by
  refine ⟨_, layout_construct R m, .nil, ?_, ?_, ?_⟩
  · intro e he
    cases he
  · intro b hb hused
    rw [List.mem_singleton.mp hb] at hused
    cases hused
  · intro e he
    cases he

/-- A store that reaches no header keeps the layout. -/
theorem Layout.setByte {h : Heap} {c : ℕ} (hl : Layout R h bs) (v : UInt8) (hc : c < 2 ^ 32)
    (hout : ∀ b ∈ bs, c < b.addr ∨ b.addr + 16 ≤ c) :
    Layout R { h with mem := h.mem.setByte c v } bs := by
  refine ⟨hl.first, hl.tiles, hl.coalesced, hl.linked.congr fun b hb => ?_⟩
  have := hl.bounds hb
  have := hout b hb
  exact header_congr fun i hi => Mem.byte_setByte_of_ne _ _ (by omega)

/-- The payload of a live pointer is inside a used block. -/
theorem HeapInvariant.exists_block {p n : ℕ} (hi : HeapInvariant R s bs) (h : (p, n) ∈ s.live) :
    ∃ b ∈ bs, b.used ∧ b.addr + 16 = p ∧ p + n ≤ b.addr + 16 + b.size := by
  obtain ⟨b, hb, hused, haddr, hsize⟩ := hi.live.block_of_live _ h
  exact ⟨b, hb, hused, haddr, by simp only at haddr hsize; omega⟩

/-- A live payload is apart from every header. -/
theorem HeapInvariant.payload_apart {p n : ℕ} (hi : HeapInvariant R s bs)
    (h : (p, n) ∈ s.live) {b : Block} (hb : b ∈ bs) : p + n ≤ b.addr ∨ b.addr + 16 ≤ p := by
  obtain ⟨c, hc, -, rfl, hsize⟩ := hi.exists_block h
  rcases hi.layout.tiles.apart hc hb with rfl | h | h <;> omega

theorem fits_spec {n : ℕ} (b : Block) (h : fits n b) : b.used = false ∧ n ≤ b.size :=
  (fits_iff.mp h).imp_right le_of_lt

/-- The block that `allocate` hands out becomes live. -/
theorem LiveBlocks.cons_allocate {n p : ℕ} {bs' : List Block} {live : List (ℕ × ℕ)}
    (h : LiveBlocks bs live) (hl : Layout R s.heap bs)
    (halloc : allocate 16 (fits n) n bs = some (p, bs')) (hp : p < 2 ^ 32) :
    LiveBlocks bs' ((p, n) :: live) := by
  obtain ⟨b, hb, d, hfit, rfl, hda, hdu, hds, hused⟩ := allocate_used fits_spec halloc
  have hbfree : b.used = false := (fits_iff.mp hfit).1
  refine ⟨List.Pairwise.cons ?_ h.distinct, ?_, ?_, ?_⟩
  · -- a live pointer belongs to a used block, `b` was unused
    intro e he heq
    obtain ⟨c, hc, hcu, hca, -⟩ := h.block_of_live e he
    have : b = c := hl.tiles.eq_of_addr_eq (by omega) hb hc (by simp only at heq; omega)
    rw [this, hcu] at hbfree
    cases hbfree
  · intro e he
    rcases List.mem_cons.mp he with rfl | he
    · exact ⟨d, (hused d hdu).mpr (.inl rfl), hdu, by rw [hda], hds⟩
    · obtain ⟨c, hc, hcu, hrest⟩ := h.block_of_live e he
      exact ⟨c, (hused c hcu).mpr (.inr hc), hcu, hrest⟩
  · intro c hc hcu
    rcases (hused c hcu).mp hc with rfl | hc
    · exact ⟨_, List.mem_cons_self, by rw [hda]⟩
    · obtain ⟨e, he, heq⟩ := h.live_of_block c hc hcu
      exact ⟨e, List.mem_cons_of_mem _ he, heq⟩
  · intro e he
    rcases List.mem_cons.mp he with rfl | he
    · exact hp
    · exact h.lt e he

/-- The block that `release` takes back is no longer live. -/
theorem LiveBlocks.filter_release {live : List (ℕ × ℕ)} (h : LiveBlocks bs live) (p : ℕ) :
    LiveBlocks (release 16 p bs) (live.filter fun e => e.1 ≠ p) := by
  refine ⟨h.distinct.filter _, ?_, ?_, ?_⟩
  · intro e he
    obtain ⟨he, hne⟩ := List.mem_filter.mp he
    obtain ⟨c, hc, hcu, hca, hcs⟩ := h.block_of_live e he
    refine ⟨c, (mem_release_of_used hcu).mpr ⟨hc, ?_⟩, hcu, hca, hcs⟩
    rw [hca]
    simpa using hne
  · intro c hc hcu
    obtain ⟨hc, hne⟩ := (mem_release_of_used hcu).mp hc
    obtain ⟨e, he, heq⟩ := h.live_of_block c hc hcu
    exact ⟨e, List.mem_filter.mpr ⟨he, by simpa [heq] using hne⟩, heq⟩
  · intro e he
    exact h.lt e (List.mem_filter.mp he).1

/-- **Every step keeps the invariant.** -/
theorem HeapStep.invariant (hstep : HeapStep s a t) (hi : ∃ bs, HeapInvariant R s bs) :
    ∃ bs, HeapInvariant R t bs := by
  obtain ⟨bs, hi⟩ := hi
  cases hstep with
  | @malloc n p h hn hcall =>
    rcases malloc_spec Arith.exact_wrapping hi.layout n with
      ⟨-, hnull⟩ | ⟨p', bs', h', halloc, hsome, hl', -⟩
    · cases hnull.symm.trans hcall
      exact ⟨bs, hi.layout, by simpa using hi.live⟩
    · cases hsome.symm.trans hcall
      obtain ⟨b, hb, -, hfit, hp, -⟩ := allocate_used fits_spec halloc
      have hroom := (fits_iff.mp hfit).2
      have hbounds := hi.layout.bounds hb
      refine ⟨bs', hl', ?_⟩
      rw [if_neg (by omega)]
      exact hi.live.cons_allocate hi.layout halloc (by omega)
  | @free p n h hlive hcall =>
    obtain ⟨b, hb, hbu, rfl, -⟩ := hi.exists_block hlive
    obtain ⟨h', hfree, hl', -⟩ := free_spec Arith.exact_wrapping hi.layout hb (hi.live.lt _ hlive)
    cases hfree.symm.trans hcall
    exact ⟨_, hl', hi.live.filter_release _⟩
  | @store p n i v hlive hlt =>
    obtain ⟨b, hb, -, rfl, hsize⟩ := hi.exists_block hlive
    have hbounds := hi.layout.bounds hb
    refine ⟨bs, hi.layout.setByte v (by omega) fun c hc => ?_, hi.live⟩
    have := hi.payload_apart hlive hc
    omega

/-- **The invariant holds in every reachable session.** -/
theorem Session.Reachable.invariant (h : Session.Reachable R m s) :
    ∃ bs, HeapInvariant R s bs := by
  obtain ⟨actions, hrun⟩ := h
  exact hrun.invariant (fun s => ∃ bs, HeapInvariant R s bs)
    (fun _ _ _ => HeapStep.invariant) (heapInvariant_start R m)

/-! ## The calls on a reachable heap -/

/-- `malloc` returns, with the same result when every computation is checked. -/
theorem HeapInvariant.malloc_total (hi : HeapInvariant R s bs) (n : ℕ) :
    ∃ r, MemoryManager.malloc .checked s.heap n = some r ∧
      MemoryManager.malloc .wrapping s.heap n = some r := by
  have hchecked : ∃ r, MemoryManager.malloc .checked s.heap n = some r := by
    rcases malloc_spec Arith.exact_checked hi.layout n with ⟨-, h⟩ | ⟨p, bs', h', -, h, -⟩
    · exact ⟨_, h⟩
    · exact ⟨_, h⟩
  obtain ⟨r, hr⟩ := hchecked
  exact ⟨r, hr, malloc_refines Arith.checked_refines_wrapping hr⟩

/-- `free` returns on a live pointer, also when every computation is checked. -/
theorem HeapInvariant.free_total {p n : ℕ} (hi : HeapInvariant R s bs) (h : (p, n) ∈ s.live) :
    ∃ h', MemoryManager.free .checked s.heap p = some h' ∧
      MemoryManager.free .wrapping s.heap p = some h' := by
  obtain ⟨b, hb, -, rfl, -⟩ := hi.exists_block h
  obtain ⟨h', hfree, -⟩ := free_spec Arith.exact_checked hi.layout hb (hi.live.lt _ h)
  exact ⟨h', hfree, free_refines Arith.checked_refines_wrapping hfree⟩

/-- `malloc` changes no byte of a live payload. -/
theorem HeapInvariant.malloc_frame {p n i k : ℕ} {r : ℕ × Heap} (hi : HeapInvariant R s bs)
    (hcall : MemoryManager.malloc .wrapping s.heap k = some r) (h : (p, n) ∈ s.live)
    (hlt : i < n) : r.2.mem.byte (p + i) = s.heap.mem.byte (p + i) := by
  rcases malloc_spec Arith.exact_wrapping hi.layout k with
    ⟨-, hnull⟩ | ⟨p', bs', h', halloc, hsome, hl', hframe⟩
  · cases hnull.symm.trans hcall
    rfl
  · cases hsome.symm.trans hcall
    obtain ⟨c, hc, hcu, rfl, hsize⟩ := hi.exists_block h
    obtain ⟨b, -, d, -, -, -, -, -, hused⟩ := allocate_used fits_spec halloc
    have hbounds := hi.layout.bounds hc
    -- the block of the payload is still there, so every header written is apart from it
    have hc' : c ∈ bs' := (hused c hcu).mpr (.inr hc)
    refine hframe _ (by omega) fun a ha => ?_
    obtain ⟨x, hx, rfl⟩ := List.mem_map.mp ha
    rcases hl'.tiles.apart hc' hx with rfl | h | h <;> omega

/-- `free` changes no byte of a live payload. -/
theorem HeapInvariant.free_frame {p n i q k : ℕ} {h' : Heap} (hi : HeapInvariant R s bs)
    (hq : (q, k) ∈ s.live) (hcall : MemoryManager.free .wrapping s.heap q = some h')
    (h : (p, n) ∈ s.live) (hlt : i < n) :
    h'.mem.byte (p + i) = s.heap.mem.byte (p + i) := by
  obtain ⟨b, hb, -, rfl, -⟩ := hi.exists_block hq
  obtain ⟨c, hc, -, rfl, hsize⟩ := hi.exists_block h
  obtain ⟨h'', hfree, -, hframe⟩ := free_spec Arith.exact_wrapping hi.layout hb (hi.live.lt _ hq)
  cases hfree.symm.trans hcall
  have hbounds := hi.layout.bounds hc
  refine hframe _ (by omega) fun a ha => ?_
  obtain ⟨x, hx, rfl⟩ := List.mem_map.mp ha
  have := hi.payload_apart h hx
  omega

/-- **Live payloads are apart from each other.** -/
theorem HeapInvariant.payloads_apart (hi : HeapInvariant R s bs) :
    s.live.Pairwise fun e f => e.1 + e.2 ≤ f.1 ∨ f.1 + f.2 ≤ e.1 := by
  refine hi.live.distinct.imp_of_mem fun {e f} he hf hne => ?_
  obtain ⟨b, hb, -, hbe, hbs⟩ := hi.live.block_of_live e he
  obtain ⟨c, hc, -, hcf, hcs⟩ := hi.live.block_of_live f hf
  rcases hi.layout.tiles.apart hb hc with rfl | h | h
  · exact absurd (hbe.symm.trans hcf) hne
  · omega
  · omega

/-- The payload byte `v` at offset `i` of the live block `p`. -/
def Session.Holds (s : Session) (p i : ℕ) (v : UInt8) : Prop :=
  (∃ n, (p, n) ∈ s.live ∧ i < n) ∧ s.heap.mem.byte (p + i) = v

/-- A step that neither frees the block nor stores at this byte keeps it. -/
theorem HeapStep.holds {p i : ℕ} {v : UInt8} (hstep : HeapStep s a t)
    (hi : HeapInvariant R s bs) (hfree : a ≠ .free p) (hstore : ∀ w, a ≠ .store p i w)
    (h : s.Holds p i v) : t.Holds p i v := by
  obtain ⟨⟨n, hlive, hlt⟩, hbyte⟩ := h
  cases hstep with
  | @malloc k q h' hk hcall =>
    refine ⟨⟨n, ?_, hlt⟩, (hi.malloc_frame hcall hlive hlt).trans hbyte⟩
    simp only
    split
    · exact hlive
    · exact List.mem_cons_of_mem _ hlive
  | @free q k h' hq hcall =>
    refine ⟨⟨n, List.mem_filter.mpr ⟨hlive, ?_⟩, hlt⟩, ?_⟩
    · have : p ≠ q := by
        rintro rfl
        exact hfree rfl
      simpa using this
    · exact (hi.free_frame hq hcall hlive hlt).trans hbyte
  | @store q k j w hq hj =>
    refine ⟨⟨n, hlive, hlt⟩, ?_⟩
    obtain ⟨b, hb, -, rfl, hbs⟩ := hi.exists_block hlive
    obtain ⟨c, hc, -, rfl, hcs⟩ := hi.exists_block hq
    have hbounds := hi.layout.bounds hb
    have hbounds' := hi.layout.bounds hc
    have hne : b.addr + 16 + i ≠ c.addr + 16 + j := by
      intro heq
      rcases hi.layout.tiles.apart hb hc with rfl | h | h
      · have : i = j := by omega
        subst this
        exact hstore w rfl
      · omega
      · omega
    exact (Mem.byte_setByte_of_ne _ _ (by omega)).trans hbyte

/-! ## The heap over whole runs -/

/-- **Heap invariant.**  In every session that a run reaches, the chunk list tiles
the region, has no two adjacent free chunks and is linked in both directions; its
used chunks are the live blocks; and the next `malloc` or `free` returns without a
computation that leaves the 32-bit range. -/
theorem heap_invariant (hr : Session.Reachable R m s) :
    (∃ bs, Layout R s.heap bs ∧ LiveBlocks bs s.live) ∧
    (∀ n < 2 ^ 32, ∃ r, MemoryManager.malloc .checked s.heap n = some r ∧
      MemoryManager.malloc .wrapping s.heap n = some r) ∧
    (∀ p n, (p, n) ∈ s.live → ∃ h, MemoryManager.free .checked s.heap p = some h ∧
      MemoryManager.free .wrapping s.heap p = some h) := by
  obtain ⟨bs, hi⟩ := hr.invariant
  refine ⟨⟨bs, hi.layout, hi.live⟩, fun n _ => hi.malloc_total n, fun p n h => ?_⟩
  exact hi.free_total h

/-- A region of 256 bytes. -/
def smallRegion : Region := ⟨0x100, 0x200, by decide, by decide, by decide⟩

/-- One `malloc(8)` on a zeroed small region. -/
theorem exists_reachable_malloc :
    ∃ s, Session.Reachable smallRegion (fun _ => 0) s ∧ s.live = [(0x110, 8)] := by
  have hp : (MemoryManager.malloc .wrapping (Session.start smallRegion fun _ => 0).heap 8).map
      Prod.fst = some 0x110 := by rfl
  obtain ⟨⟨p, h⟩, hcall, rfl⟩ := Option.map_eq_some_iff.mp hp
  exact ⟨_, ⟨[.malloc 8], .single (.malloc (by decide) hcall)⟩, rfl⟩

/-- The heap invariant with one live block. -/
theorem heap_invariant_after_malloc :
    ∃ s : Session, s.live = [(0x110, 8)] ∧ (∃ bs, Layout smallRegion s.heap bs ∧ LiveBlocks bs s.live) ∧
      (∀ n < 2 ^ 32, ∃ r, MemoryManager.malloc .checked s.heap n = some r ∧
        MemoryManager.malloc .wrapping s.heap n = some r) ∧
      (∀ p n, (p, n) ∈ s.live → ∃ h, MemoryManager.free .checked s.heap p = some h ∧
        MemoryManager.free .wrapping s.heap p = some h) := by
  obtain ⟨s, hr, hlive⟩ := exists_reachable_malloc
  exact ⟨s, hlive, heap_invariant hr⟩

/-- **Heap data integrity.**  Live payloads lie in the region, apart from each other
and from every header; `malloc` and `free` change no byte of a live payload; and a
stored byte stays until its block is freed or the byte is stored again. -/
theorem heap_data_integrity (hr : Session.Reachable R m s) :
    (∃ bs, Layout R s.heap bs ∧ ∀ p n, (p, n) ∈ s.live →
      R.start ≤ p ∧ p + n ≤ R.stop ∧ ∀ b ∈ bs, p + n ≤ b.addr ∨ b.addr + 16 ≤ p) ∧
    (s.live.Pairwise fun e f => e.1 + e.2 ≤ f.1 ∨ f.1 + f.2 ≤ e.1) ∧
    (∀ k < 2 ^ 32, ∃ r, MemoryManager.malloc .wrapping s.heap k = some r ∧
      ∀ p n, (p, n) ∈ s.live → ∀ i < n, r.2.mem.byte (p + i) = s.heap.mem.byte (p + i)) ∧
    (∀ q k, (q, k) ∈ s.live → ∃ h, MemoryManager.free .wrapping s.heap q = some h ∧
      ∀ p n, (p, n) ∈ s.live → p ≠ q → ∀ i < n,
        h.mem.byte (p + i) = s.heap.mem.byte (p + i)) ∧
    (∀ p i v s' actions t, HeapStep s (.store p i v) s' → Run HeapStep s' actions t →
      (∀ a ∈ actions, a ≠ .free p ∧ ∀ w, a ≠ .store p i w) →
        t.heap.mem.byte (p + i) = v) := by
  obtain ⟨bs, hi⟩ := hr.invariant
  refine ⟨⟨bs, hi.layout, fun p n h => ?_⟩, hi.payloads_apart, fun k _ => ?_, fun q k hq => ?_,
    fun p i v s' actions t hstore hrun hok => ?_⟩
  · obtain ⟨b, hb, -, rfl, hsize⟩ := hi.exists_block h
    have hbounds := hi.layout.bounds hb
    exact ⟨by omega, by omega, fun c hc => hi.payload_apart h hc⟩
  · obtain ⟨r, -, hcall⟩ := hi.malloc_total k
    exact ⟨r, hcall, fun p n h i hlt => hi.malloc_frame hcall h hlt⟩
  · obtain ⟨h', -, hcall⟩ := hi.free_total hq
    exact ⟨h', hcall, fun p n h _ i hlt => hi.free_frame hq hcall h hlt⟩
  · -- the invariant of the rest of the run: the layout, and the stored byte in place
    have hs' : (∃ bs, HeapInvariant R s' bs) ∧ s'.Holds p i v := by
      refine ⟨hstore.invariant ⟨bs, hi⟩, ?_⟩
      cases hstore with
      | store _ hlive hlt => exact ⟨⟨_, hlive, hlt⟩, Mem.byte_setByte_self _ _ _⟩
    have ht := hrun.invariant_of_labels (fun s => (∃ bs, HeapInvariant R s bs) ∧ s.Holds p i v)
      (fun s a t ha hst hs => ?_) hok hs'
    · exact ht.2.2
    · obtain ⟨⟨bs, hbs⟩, hholds⟩ := hs
      exact ⟨hst.invariant ⟨bs, hbs⟩, hst.holds hbs ha.1 ha.2 hholds⟩

/-- Data integrity of the heap with one live block. -/
theorem heap_data_integrity_after_malloc :
    ∃ s : Session, s.live = [(0x110, 8)] ∧ ∀ p i v s' actions t, HeapStep s (.store p i v) s' →
      Run HeapStep s' actions t → (∀ a ∈ actions, a ≠ .free p ∧ ∀ w, a ≠ .store p i w) →
        t.heap.mem.byte (p + i) = v := by
  obtain ⟨s, hr, hlive⟩ := exists_reachable_malloc
  exact ⟨s, hlive, (heap_data_integrity hr).2.2.2.2⟩
