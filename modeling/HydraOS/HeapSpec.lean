/-
# `malloc` and `free` on a laid out heap

One theorem for each of the two functions: on a heap whose memory holds the list
`bs`, they return, they have the effect of `BlockList.allocate` and
`BlockList.release` on the list, and they store into headers only.  The theorems
hold for every arithmetic that is right on results below `2 ^ 32`, so they say at
once that no computation of either function leaves that range.
-/
import HydraOS.HeapLayout

open MemoryChunk BlockList

variable {A : Arith} {R : Region} {h : Heap} {m m' : Mem} {p q v lo hi n : ℕ}
  {a b d : Block} {bs bs' pre post : List Block}

/-! ## Relinking the block after a change -/

theorem relink_frame (ht : Tiles 16 lo hi bs) (hhi : hi ≤ 2 ^ 32) :
    HeaderFrame (bs.map Block.addr) m (relink m (headAddr 0 bs) v) := by
  cases bs with
  | nil => exact HeaderFrame.refl _ _
  | cons b bs =>
    have hb := ht.bounds List.mem_cons_self
    rw [relink]
    split
    · exact (HeaderFrame.refl _ _).setPrev (by simp) (by rw [headAddr_cons]; omega)
    · exact HeaderFrame.refl _ _

/-- Relinking the first header of a segment redirects its back pointer. -/
theorem segment_relink (hs : Segment m p bs 0) (ht : Tiles 16 lo hi bs) (hlo : 0 < lo)
    (hhi : hi ≤ 2 ^ 32) (hv : v < 2 ^ 32) :
    Segment (relink m (headAddr 0 bs) v) v bs 0 := by
  cases bs with
  | nil => trivial
  | cons b bs =>
    have hb := ht.bounds List.mem_cons_self
    have hne : b.addr ≠ 0 := by omega
    rw [headAddr_cons, relink, if_pos hne]
    obtain ⟨hhead, htail⟩ := hs
    refine ⟨?_, htail.congr fun c hc => ?_⟩
    · rw [header_setPrev m (by omega) hv, hhead]
    · have hbc := ht.2.bounds hc
      have hframe : HeaderFrame [b.addr] m (setPrev m b.addr v) :=
        (HeaderFrame.refl _ _).setPrev List.mem_cons_self (by omega)
      exact hframe.header_eq_of_apart (by omega) (by omega)

/-- Storing the flag of one chunk marks its block, and changes no other. -/
theorem segment_setAllocated (hs : Segment m 0 (pre ++ b :: post) 0)
    (ht : Tiles 16 lo hi (pre ++ b :: post)) (hhi : hi ≤ 2 ^ 32) (used : Bool) :
    Segment (setAllocated m b.addr used) 0 (pre ++ { b with used := used } :: post) 0 := by
  have hb := ht.bounds (by simp : b ∈ pre ++ b :: post)
  have hframe : HeaderFrame [b.addr] m (setAllocated m b.addr used) :=
    (HeaderFrame.refl _ _).setAllocated (by simp) (by omega)
  obtain ⟨hpre, hbh, hpost⟩ := segment_append.mp hs
  obtain ⟨mid, tpre, rfl, tpost⟩ := tiles_append.mp ht
  refine segment_append.mpr ⟨Segment.congr hpre fun c hc => ?_, ?_,
    Segment.congr hpost fun c hc => ?_⟩
  · have := tpre.bounds hc
    exact hframe.header_eq_of_apart (by omega) (by omega)
  · rw [header_setAllocated _ _ (by omega), hbh]
  · have := tpost.bounds hc
    exact hframe.header_eq_of_apart (by omega) (by omega)

/-! ## A block absorbs its right neighbour -/

/-- The stores with which `free` merges the chunk at `d` into the chunk at `a`. -/
def absorb (m : Mem) (a d : ℕ) : Mem :=
  relink (setNext (setSize m a (size m a + (size m d + 16))) a (next m d)) (next m d) a

theorem absorb_frame (ht : Tiles 16 lo hi (pre ++ a :: d :: post)) (hhi : hi ≤ 2 ^ 32)
    (hs : Segment m 0 (pre ++ a :: d :: post) 0) :
    HeaderFrame ((pre ++ a :: d :: post).map Block.addr) m (absorb m a.addr d.addr) := by
  have hnext : next m d.addr = headAddr 0 post :=
    congrArg Header.next (segment_append.mp hs).2.2.1
  have ha := ht.bounds (by simp : a ∈ pre ++ a :: d :: post)
  obtain ⟨mid, -, -, -, hpost⟩ := tiles_append.mp ht
  have hmem : a.addr ∈ (pre ++ a :: d :: post).map Block.addr := by simp
  have hstores : HeaderFrame ((pre ++ a :: d :: post).map Block.addr) m
      (setNext (setSize m a.addr (size m a.addr + (size m d.addr + 16))) a.addr
        (next m d.addr)) :=
    ((HeaderFrame.refl _ _).setSize hmem (by omega)).setNext hmem (by omega)
  rw [absorb]
  refine hstores.trans ?_
  rw [hnext]
  refine (relink_frame hpost hhi).mono fun c hc => ?_
  rw [List.map_append, List.map_cons, List.map_cons]
  simp [hc]

/-- **Absorbing keeps the chain.**  Afterwards it is the chain with `a` and `d`
merged. -/
theorem segment_absorb (hs : Segment m 0 (pre ++ a :: d :: post) 0)
    (ht : Tiles 16 lo hi (pre ++ a :: d :: post)) (hhi : hi ≤ 2 ^ 32) :
    Segment (absorb m a.addr d.addr) 0 (pre ++ merge 16 a d :: post) 0 := by
  obtain ⟨hpre, ha, hd, hpost⟩ := segment_append.mp hs
  obtain ⟨mid, tpre, rfl, td, tpost⟩ := tiles_append.mp ht
  have hdpost := tpost.length_le
  have hnext : next m d.addr = headAddr 0 post := congrArg Header.next hd
  have hsize : size m a.addr = a.size := congrArg Header.size ha
  have hsized : size m d.addr = d.size := congrArg Header.size hd
  have hpost_lt : headAddr 0 post < 2 ^ 32 := by
    rw [← hnext]
    exact Mem.loadWord_lt _ _
  set m₁ := setSize m a.addr (a.size + (d.size + 16)) with hm₁
  set m₂ := setNext m₁ a.addr (headAddr 0 post) with hm₂
  have hframe : HeaderFrame [a.addr] m m₂ :=
    ((HeaderFrame.refl _ _).setSize (by simp) (by omega)).setNext (by simp) (by omega)
  have habs : absorb m a.addr d.addr = relink m₂ (headAddr 0 post) a.addr := by
    rw [absorb, hnext, hsize, hsized]
  have hrel : HeaderFrame (post.map Block.addr) m₂ (absorb m a.addr d.addr) :=
    habs ▸ relink_frame tpost hhi
  -- the header of `a` gets the new size and link, and relinking does not reach it
  have ha' : header (absorb m a.addr d.addr) a.addr
      = ⟨headAddr 0 post, lastAddr 0 pre, a.used, a.size + d.size + 16⟩ := by
    rw [hrel.header_eq (by omega), hm₂, header_setNext _ (by omega) hpost_lt, hm₁,
      header_setSize _ (by omega) (by omega), ha, Nat.add_assoc]
    intro c hc
    obtain ⟨e, he, rfl⟩ := List.mem_map.mp hc
    have := tpost.bounds he
    omega
  refine segment_append.mpr ⟨?_, ha', ?_⟩
  · refine Segment.congr hpre fun c hc => ?_
    have hcb := tpre.bounds hc
    rw [hrel.header_eq (by omega), hframe.header_eq_of_apart (by omega) (by omega)]
    intro x hx
    obtain ⟨e, he, rfl⟩ := List.mem_map.mp hx
    have := tpost.bounds he
    omega
  · rw [habs]
    refine segment_relink (hpost.congr fun c hc => ?_) tpost (by omega) hhi (by omega)
    have := tpost.bounds hc
    exact hframe.header_eq_of_apart (by omega) (by omega)

/-! ## The two halves of `free` -/

/-- The first half of `free` merges a free chunk with what follows it. -/
theorem mergeNext_spec (hA : A.Exact) (hs : Segment m 0 (pre ++ b :: post) 0)
    (ht : Tiles 16 lo hi (pre ++ b :: post)) (hlo : 0 < lo) (hhi : hi ≤ 2 ^ 32)
    (hb : b.used = false) :
    ∃ m', MemoryManager.mergeNext A m b.addr = some m' ∧
      Segment m' 0 (pre ++ push 16 b post) 0 ∧
      HeaderFrame ((pre ++ b :: post).map Block.addr) m m' := by
  have hnext : next m b.addr = headAddr 0 post :=
    congrArg Header.next (segment_append.mp hs).2.1
  cases post with
  | nil =>
    refine ⟨m, ?_, hs, HeaderFrame.refl _ _⟩
    rw [MemoryManager.mergeNext, hnext, headAddr_nil, if_neg (by simp)]
    rfl
  | cons d post =>
    have hbb := ht.bounds (by simp : b ∈ pre ++ b :: d :: post)
    have hdb := ht.bounds (by simp : d ∈ pre ++ b :: d :: post)
    obtain ⟨-, hbh, hdh, -⟩ := segment_append.mp hs
    obtain ⟨mid, -, -, hdaddr, -⟩ := tiles_append.mp ht
    have halloc : allocated m d.addr = d.used := congrArg Header.allocated hdh
    have hsize : size m b.addr = b.size := congrArg Header.size hbh
    have hsized : size m d.addr = d.size := congrArg Header.size hdh
    rw [headAddr_cons] at hnext
    cases hd : d.used with
    | true =>
      refine ⟨m, ?_, ?_, HeaderFrame.refl _ _⟩
      · rw [MemoryManager.mergeNext, hnext, halloc, if_neg (by simp [hd])]
        rfl
      · rw [push, if_pos (.inr hd)]
        exact hs
    | false =>
      have hpush : push 16 b (d :: post) = merge 16 b d :: post := by
        rw [push, if_neg (by simp [hb, hd])]
      refine ⟨absorb m b.addr d.addr, ?_, ?_, absorb_frame ht hhi hs⟩
      · have hlt : b.size + d.size + 16 < 2 ^ 32 := by omega
        set m₁ := setSize m b.addr (b.size + (d.size + 16)) with hm₁
        have hframe : HeaderFrame [b.addr] m m₁ :=
          (HeaderFrame.refl _ _).setSize (by simp) (by omega)
        have h₁b : header m₁ b.addr = { header m b.addr with size := b.size + (d.size + 16) } :=
          header_setSize m (by omega) (by omega)
        have h₁d : header m₁ d.addr = header m d.addr :=
          hframe.header_eq_of_apart (by omega) (by omega)
        have hnext₁ : next m₁ b.addr = d.addr := (congrArg Header.next h₁b).trans hnext
        have hnextd : next m₁ d.addr = next m d.addr := congrArg Header.next h₁d
        have hnext₂ : next (setNext m₁ b.addr (next m d.addr)) b.addr = next m d.addr :=
          congrArg Header.next (header_setNext m₁ (by omega) (Mem.loadWord_lt _ _))
        have hadd := hA.add_eq (show d.size + 16 < 2 ^ 32 by omega)
        have hadd' := hA.add_eq (show b.size + (d.size + 16) < 2 ^ 32 by omega)
        rw [MemoryManager.mergeNext, hnext, halloc, if_pos ⟨by omega, hd⟩, hsize, hsized]
        simp only [hadd, hadd', Option.bind_eq_bind, Option.bind_some, ← hm₁, hnext₁, hnextd,
          hnext₂]
        rw [absorb, relink, hsize, hsized]
        rfl
      · rw [hpush]
        exact segment_absorb hs ht hhi

theorem mergePrev_nil (hs : Segment m 0 (b :: post) 0) :
    MemoryManager.mergePrev A m b.addr = some m := by
  have hprev : prev m b.addr = 0 := congrArg Header.prev hs.1
  rw [MemoryManager.mergePrev, hprev, if_neg (by simp)]
  rfl

/-- The second half of `free` merges the chunk before a free chunk with it. -/
theorem mergePrev_spec (hA : A.Exact) (hs : Segment m 0 (pre ++ a :: b :: post) 0)
    (ht : Tiles 16 lo hi (pre ++ a :: b :: post)) (hlo : 0 < lo) (hhi : hi ≤ 2 ^ 32)
    (hb : b.used = false) :
    ∃ m', MemoryManager.mergePrev A m b.addr = some m' ∧
      Segment m' 0 (pre ++ push 16 a (b :: post)) 0 ∧
      HeaderFrame ((pre ++ a :: b :: post).map Block.addr) m m' := by
  have hab := ht.bounds (by simp : a ∈ pre ++ a :: b :: post)
  have hbb := ht.bounds (by simp : b ∈ pre ++ a :: b :: post)
  obtain ⟨-, hah, hbh, -⟩ := segment_append.mp hs
  obtain ⟨mid, -, -, hbaddr, -⟩ := tiles_append.mp ht
  have hprev : prev m b.addr = a.addr := congrArg Header.prev hbh
  have halloc : allocated m a.addr = a.used := congrArg Header.allocated hah
  have hsize : size m a.addr = a.size := congrArg Header.size hah
  have hsizeb : size m b.addr = b.size := congrArg Header.size hbh
  cases ha : a.used with
  | true =>
    refine ⟨m, ?_, ?_, HeaderFrame.refl _ _⟩
    · rw [MemoryManager.mergePrev, hprev, halloc, if_neg (by simp [ha])]
      rfl
    · rw [push, if_pos (.inl ha)]
      exact hs
  | false =>
    have hpush : push 16 a (b :: post) = merge 16 a b :: post := by
      rw [push, if_neg (by simp [ha, hb])]
    refine ⟨absorb m a.addr b.addr, ?_, ?_, absorb_frame ht hhi hs⟩
    · set m₁ := setSize m a.addr (a.size + (b.size + 16)) with hm₁
      set m₂ := setNext m₁ a.addr (next m b.addr) with hm₂
      have hframe₁ : HeaderFrame [a.addr] m m₁ :=
        (HeaderFrame.refl _ _).setSize (by simp) (by omega)
      have hframe₂ : HeaderFrame [a.addr] m m₂ := hframe₁.setNext (by simp) (by omega)
      have h₁ : header m₁ b.addr = header m b.addr :=
        hframe₁.header_eq_of_apart (by omega) (by omega)
      have h₂ : header m₂ b.addr = header m b.addr :=
        hframe₂.header_eq_of_apart (by omega) (by omega)
      have hprev₁ : prev m₁ b.addr = a.addr := (congrArg Header.prev h₁).trans hprev
      have hnext₁ : next m₁ b.addr = next m b.addr := congrArg Header.next h₁
      have hprev₂ : prev m₂ b.addr = a.addr := (congrArg Header.prev h₂).trans hprev
      have hnext₂ : next m₂ b.addr = next m b.addr := congrArg Header.next h₂
      have hadd := hA.add_eq (show b.size + 16 < 2 ^ 32 by omega)
      have hadd' := hA.add_eq (show a.size + (b.size + 16) < 2 ^ 32 by omega)
      rw [MemoryManager.mergePrev, hprev, halloc, if_pos ⟨by omega, ha⟩, hsize, hsizeb]
      simp only [hadd, hadd', Option.bind_eq_bind, Option.bind_some, ← hm₁, hprev₁, hnext₁,
        ← hm₂, hprev₂, hnext₂]
      rw [absorb, relink, hsize, hsizeb]
      rfl
    · rw [hpush]
      exact segment_absorb hs ht hhi

/-! ## `free` -/

/-- **`free` releases a block.**  On a laid out heap, `free` of the payload of a
block returns, releases the block in the list, and stores into headers only. -/
theorem free_spec (hA : A.Exact) (hl : Layout R h bs) (hb : b ∈ bs)
    (hlt : b.addr + 16 < 2 ^ 32) :
    ∃ h', MemoryManager.free A h (b.addr + 16) = some h' ∧
      Layout R h' (release 16 (b.addr + 16) bs) ∧
      HeaderFrame (bs.map Block.addr) h.mem h'.mem := by
  obtain ⟨pre, post, rfl⟩ := List.append_of_mem hb
  obtain ⟨hpos, -, hstop, hstop'⟩ := hl.bounds hb
  have hsub := hA.sub_eq (show 16 ≤ b.addr + 16 by omega) hlt
  rw [Nat.add_sub_cancel] at hsub
  -- the chunk is marked free before anything is merged
  set m₀ := setAllocated h.mem b.addr false with hm₀
  set b' : Block := { b with used := false } with hb'
  have hframe₀ : HeaderFrame [b.addr] h.mem m₀ :=
    (HeaderFrame.refl _ _).setAllocated (by simp) (by omega)
  have hs₀ : Segment m₀ 0 (pre ++ b' :: post) 0 :=
    segment_setAllocated hl.linked hl.tiles hstop' false
  obtain ⟨mid, tpre, rfl, tpost⟩ := tiles_append.mp hl.tiles
  have ht₀ : Tiles 16 R.start R.stop (pre ++ b' :: post) :=
    tiles_append.mpr ⟨b.addr, tpre, rfl, tpost⟩
  obtain ⟨m₁, hm₁, hs₁, hf₁⟩ := mergeNext_spec hA hs₀ ht₀ R.start_pos hstop' rfl
  have ht₁ : Tiles 16 R.start R.stop (pre ++ push 16 b' post) :=
    tiles_append.mpr ⟨b.addr, tpre, Tiles.push ⟨rfl, tpost⟩⟩
  have hframe₁ : HeaderFrame ((pre ++ b :: post).map Block.addr) h.mem m₁ := by
    refine (hframe₀.mono (by simp)).trans (hf₁.mono ?_)
    simp [hb']
  -- what follows `pre` now starts with a free chunk, still at the address of `b`
  obtain ⟨size, rest, hpush, hrest⟩ := exists_push_eq_cons 16 b' post
  set b₁ : Block := { b' with size := size } with hb₁
  have haddr : b.addr = b₁.addr := rfl
  rw [hpush] at hs₁ ht₁
  have hfree : MemoryManager.free A h (b.addr + 16)
      = (MemoryManager.mergePrev A m₁ b₁.addr).map fun m => { h with mem := m } := by
    rw [MemoryManager.free, hsub]
    simp only [Option.bind_eq_bind, Option.bind_some, ← hm₀]
    rw [haddr, hm₁, Option.bind_some, Option.map_eq_bind]
    rfl
  rw [hfree]
  rcases List.eq_nil_or_concat pre with rfl | ⟨pre, a, rfl⟩
  · rw [mergePrev_nil hs₁]
    refine ⟨{ h with mem := m₁ }, rfl,
      ⟨hl.first, hl.tiles.release _, coalesced_release _ _, ?_⟩, hframe₁⟩
    rw [List.nil_append, release_first hl.tiles (by omega) hl.coalesced, hpush]
    exact hs₁
  · simp only [List.concat_eq_append, List.append_assoc, List.singleton_append]
      at hl hs₁ ht₁ hframe₁ ⊢
    obtain ⟨m₂, hm₂, hs₂, hf₂⟩ := mergePrev_spec hA hs₁ ht₁ R.start_pos hstop' rfl
    rw [hm₂]
    refine ⟨{ h with mem := m₂ }, rfl,
      ⟨hl.first, hl.tiles.release _, coalesced_release _ _, ?_⟩, hframe₁.trans (hf₂.mono ?_)⟩
    · rw [release_after hl.tiles (by omega) hl.coalesced, hpush]
      exact hs₂
    · intro c hc
      obtain ⟨e, he, rfl⟩ := List.mem_map.mp hc
      simp only [List.mem_append, List.mem_cons] at he
      rcases he with he | rfl | rfl | he
      · exact List.mem_map_of_mem (by simp [he])
      · simp
      · simp [hb₁, hb']
      · exact List.mem_map_of_mem (by simp [hrest he])

/-! ## `malloc` -/

/-- The test of the search loop: a free chunk with more than `n` bytes. -/
def fits (n : ℕ) (b : Block) : Bool := !b.used && decide (n < b.size)

theorem fits_iff : fits n b ↔ b.used = false ∧ n < b.size := by
  simp [fits]

/-- The test of the search loop reads the block off its header. -/
theorem search_test_iff (hs : Segment m p bs q) (hb : b ∈ bs) :
    (n < size m b.addr ∧ allocated m b.addr = false) ↔ fits n b := by
  obtain ⟨halloc, hsize⟩ := hs.header_of_mem hb
  simp only [header] at halloc hsize
  rw [halloc, hsize, fits_iff, and_comm]

/-- The search loop walks past the blocks that do not fit. -/
theorem search_skip (hs : Segment m p (pre ++ post) 0) (hpos : ∀ b ∈ pre, b.addr ≠ 0)
    (hno : ∀ b ∈ pre, ¬ fits n b) (fuel : ℕ) :
    MemoryManager.search m n (pre.length + fuel) (headAddr 0 (pre ++ post))
      = MemoryManager.search m n fuel (headAddr 0 post) := by
  induction pre generalizing p with
  | nil => rw [List.length_nil, Nat.zero_add, List.nil_append]
  | cons b pre ih =>
    rw [List.forall_mem_cons] at hpos hno
    have htest : ¬ (n < size m b.addr ∧ allocated m b.addr = false) := by
      rw [search_test_iff hs (by simp)]
      exact hno.1
    have hnext : next m b.addr = headAddr 0 (pre ++ post) := congrArg Header.next hs.1
    rw [List.length_cons, Nat.add_right_comm, List.cons_append, headAddr_cons,
      MemoryManager.search, if_neg hpos.1, if_neg htest, hnext]
    exact ih hs.2 hpos.2 hno.2

/-- The split in `malloc` cuts the block in two and inserts the second header. -/
theorem split_spec (hA : A.Exact) (hs : Segment m 0 (pre ++ b :: post) 0)
    (ht : Tiles 16 lo hi (pre ++ b :: post)) (hlo : 0 < lo) (hhi : hi ≤ 2 ^ 32)
    (hn : n + 16 + 1 ≤ b.size) (d : Block) (hd : d = ⟨b.addr + 16 + n, b.size - n - 16, false⟩) :
    ∃ m', MemoryManager.split A m b.addr n = some m' ∧
      Segment m' 0 (pre ++ { b with size := n } :: d :: post) 0 ∧
      HeaderFrame ((pre ++ b :: d :: post).map Block.addr) m m' := by
  obtain ⟨hpre, hbh, hpost⟩ := segment_append.mp hs
  obtain ⟨mid, tpre, rfl, tpost⟩ := tiles_append.mp ht
  have hb := ht.bounds (by simp : b ∈ pre ++ b :: post)
  have hda : d.addr = b.addr + 16 + n := by rw [hd]
  have hnext : next m b.addr = headAddr 0 post := congrArg Header.next hbh
  have hx : headAddr 0 post < 2 ^ 32 := by
    rw [← hnext]
    exact Mem.loadWord_lt _ _
  have hadd := hA.add_eq (show b.addr + 16 < 2 ^ 32 by omega)
  have hadd' := hA.add_eq (show b.addr + 16 + n < 2 ^ 32 by omega)
  have hsub := hA.sub_eq (show n ≤ b.size by omega) (by omega)
  have hsub' := hA.sub_eq (show 16 ≤ b.size - n by omega) (by omega)
  -- the header of the new chunk
  set m₁ := setAllocated m d.addr false with hm₁
  set m₂ := setSize m₁ d.addr (b.size - n - 16) with hm₂
  set m₃ := setPrev m₂ d.addr b.addr with hm₃
  set m₄ := setNext m₃ d.addr (headAddr 0 post) with hm₄
  have hframe₁ : HeaderFrame [d.addr] m m₁ :=
    (HeaderFrame.refl _ _).setAllocated (by simp) (by omega)
  have hframe₃ : HeaderFrame [d.addr] m m₃ :=
    (hframe₁.setSize (by simp) (by omega)).setPrev (by simp) (by omega)
  have hframe₄ : HeaderFrame [d.addr] m m₄ := hframe₃.setNext (by simp) (by omega)
  have hsize₁ : size m₁ b.addr = b.size :=
    congrArg Header.size ((hframe₁.header_eq_of_apart (by omega) (by omega)).trans hbh)
  have hnext₃ : next m₃ b.addr = headAddr 0 post :=
    (congrArg Header.next (hframe₃.header_eq_of_apart (by omega) (by omega))).trans hnext
  have hd₄ : header m₄ d.addr = ⟨headAddr 0 post, b.addr, false, b.size - n - 16⟩ := by
    rw [hm₄, header_setNext _ (by omega) hx, hm₃, header_setPrev _ (by omega) (by omega), hm₂,
      header_setSize _ (by omega) (by omega), hm₁, header_setAllocated _ _ (by omega)]
  have hnext₄ : next m₄ d.addr = headAddr 0 post := congrArg Header.next hd₄
  -- the chunk after it, and the chunk that was split
  set m₅ := relink m₄ (headAddr 0 post) d.addr with hm₅
  set m₆ := setSize m₅ b.addr n with hm₆
  set m₇ := setNext m₆ b.addr d.addr with hm₇
  have hframe₅ : HeaderFrame (post.map Block.addr) m₄ m₅ := relink_frame tpost hhi
  have hframe₇ : HeaderFrame [b.addr] m₅ m₇ :=
    ((HeaderFrame.refl _ _).setSize (by simp) (by omega)).setNext (by simp) (by omega)
  -- a header before the end of `b` is not reached by the relinking
  have h₅ : ∀ c, c + 16 ≤ b.addr + 16 + b.size → header m₅ c = header m₄ c := by
    intro c hc
    refine hframe₅.header_eq (by omega) fun x hx => ?_
    obtain ⟨e, he, rfl⟩ := List.mem_map.mp hx
    have := tpost.bounds he
    omega
  refine ⟨m₇, ?_, segment_append.mpr ⟨?_, ?_, ?_, ?_⟩, ?_⟩
  · simp only [MemoryManager.split, hadd, hadd', Option.bind_eq_bind, Option.bind_some,
      ← hda, ← hm₁, hsize₁, hsub, hsub', ← hm₂, ← hm₃, hnext₃, ← hm₄, hnext₄]
    rfl
  · refine Segment.congr hpre fun c hc => ?_
    have := tpre.bounds hc
    rw [hframe₇.header_eq_of_apart (by omega) (by omega), h₅ _ (by omega),
      hframe₄.header_eq_of_apart (by omega) (by omega)]
  · rw [hm₇, header_setNext _ (by omega) (by omega), hm₆, header_setSize _ (by omega) (by omega),
      h₅ _ (by omega), hframe₄.header_eq_of_apart (by omega) (by omega), hbh]
    rfl
  · rw [hframe₇.header_eq_of_apart (by omega) (by omega), h₅ _ (by omega), hd₄, hd]
  · refine Segment.congr (m := m₅) ?_ fun c hc => ?_
    · refine segment_relink (hpost.congr fun c hc => ?_) tpost (by omega) hhi (by omega)
      have := tpost.bounds hc
      exact hframe₄.header_eq_of_apart (by omega) (by omega)
    · have := tpost.bounds hc
      exact hframe₇.header_eq_of_apart (by omega) (by omega)
  · refine ((hframe₄.mono ?_).trans (hframe₅.mono ?_)).trans (hframe₇.mono ?_)
    · simp
    · intro c hc
      simp only [List.map_append, List.map_cons, List.mem_append, List.mem_cons, hc, or_true]
    · simp

/-- When no free chunk has more than `n` bytes, `malloc` returns null and stores
nothing. -/
theorem malloc_null (hl : Layout R h bs) (hno : ∀ b ∈ bs, ¬ fits n b) :
    MemoryManager.malloc A h n = some (0, h) := by
  have hlen := hl.tiles.length_le
  have := R.stop_le
  obtain ⟨fuel, hfuel⟩ : ∃ fuel, 2 ^ 32 = bs.length + (fuel + 1) :=
    ⟨2 ^ 32 - bs.length - 1, by omega⟩
  have hlinked : Segment h.mem 0 (bs ++ []) 0 := by
    rw [List.append_nil]
    exact hl.linked
  have hskip := search_skip hlinked (fun b hb => (hl.bounds hb).1.ne') hno (fuel + 1)
  rw [List.append_nil, headAddr_nil, hl.headAddr_eq] at hskip
  rw [MemoryManager.malloc, hl.first, hfuel, hskip, MemoryManager.search, if_pos rfl]
  rfl

/-- **`malloc` carves the first block that fits.** -/
theorem malloc_first (hA : A.Exact) (hl : Layout R h (pre ++ b :: post))
    (hno : ∀ a ∈ pre, ¬ fits n a) (hfit : fits n b) :
    ∃ h', MemoryManager.malloc A h n = some (b.addr + 16, h') ∧
      Layout R h' (pre ++ carve 16 n b ++ post) ∧
      HeaderFrame ((pre ++ carve 16 n b ++ post).map Block.addr) h.mem h'.mem := by
  obtain ⟨hused, hn⟩ := fits_iff.mp hfit
  obtain ⟨hpos, -, hstop, hstop'⟩ := hl.bounds (by simp : b ∈ pre ++ b :: post)
  have hlen := hl.tiles.length_le
  rw [List.length_append, List.length_cons] at hlen
  obtain ⟨fuel, hfuel⟩ : ∃ fuel, 2 ^ 32 = pre.length + (fuel + 1) :=
    ⟨2 ^ 32 - pre.length - 1, by omega⟩
  have htest : n < size h.mem b.addr ∧ allocated h.mem b.addr = false :=
    (search_test_iff (segment_append.mp hl.linked).2 List.mem_cons_self).mpr hfit
  have hsearch : MemoryManager.search h.mem n (2 ^ 32) h.first = some b.addr := by
    have hskip := search_skip (n := n) hl.linked (fun a ha => (hl.bounds (by simp [ha])).1.ne')
      hno (fuel + 1)
    rw [hl.headAddr_eq] at hskip
    rw [hl.first, hfuel, hskip, headAddr_cons, MemoryManager.search, if_neg hpos.ne',
      if_pos htest]
  have hsize : size h.mem b.addr = b.size :=
    congrArg Header.size (segment_append.mp hl.linked).2.1
  have hadd := hA.add_eq (show n + 16 < 2 ^ 32 by omega)
  have hadd' := hA.add_eq (show n + 16 + 1 < 2 ^ 32 by omega)
  have hret := hA.add_eq (show b.addr + 16 < 2 ^ 32 by omega)
  have hmalloc : ∀ m', (if b.size ≥ n + 16 + 1 then MemoryManager.split A h.mem b.addr n
        else some h.mem) = some m' →
      MemoryManager.malloc A h n
        = some (b.addr + 16, { h with mem := setAllocated m' b.addr true }) := by
    intro m' hm'
    simp only [MemoryManager.malloc, hsearch, Option.bind_eq_bind, Option.bind_some, if_neg hpos.ne',
      hadd, hadd', hsize, hret]
    by_cases hge : b.size ≥ n + 16 + 1
    · rw [if_pos hge] at hm' ⊢
      rw [hm']
      rfl
    · rw [if_neg hge] at hm' ⊢
      cases hm'
      rfl
  have htiles := hl.tiles.carve (n := n)
  have hco : Coalesced (pre ++ carve 16 n b ++ post) := hl.coalesced.carve hused
  by_cases hsplit : n + 16 + 1 ≤ b.size
  · set d : Block := ⟨b.addr + 16 + n, b.size - n - 16, false⟩ with hd
    obtain ⟨m', hm', hs', hf'⟩ := split_spec hA hl.linked hl.tiles R.start_pos hstop' hsplit d hd
    have hcarve : carve 16 n b = [⟨b.addr, n, true⟩, d] := by rw [carve, if_pos hsplit]
    rw [hcarve, List.append_assoc] at htiles hco ⊢
    obtain ⟨mid, tpre, trest⟩ := tiles_append.mp htiles
    have ht' : Tiles 16 R.start R.stop (pre ++ { b with size := n } :: d :: post) :=
      tiles_append.mpr ⟨mid, tpre, trest⟩
    refine ⟨_, hmalloc m' (by rw [if_pos hsplit, hm']), ⟨hl.first, htiles, hco, ?_⟩, ?_⟩
    · exact segment_setAllocated hs' ht' hstop' true
    · refine (hf'.mono ?_).setAllocated (by simp) (by omega)
      simp
  · have hcarve : carve 16 n b = [{ b with used := true }] := by rw [carve, if_neg hsplit]
    rw [hcarve, List.append_assoc] at htiles hco ⊢
    refine ⟨_, hmalloc h.mem (by rw [if_neg hsplit]), ⟨hl.first, htiles, hco, ?_⟩, ?_⟩
    · exact segment_setAllocated hl.linked hl.tiles hstop' true
    · exact (HeaderFrame.refl _ _).setAllocated (by simp) (by omega)

/-- **`malloc` allocates.**  On a laid out heap `malloc` returns what `allocate`
returns on the list, and leaves the heap laid out as `allocate` leaves the list. -/
theorem malloc_spec (hA : A.Exact) (hl : Layout R h bs) (n : ℕ) :
    (allocate 16 (fits n) n bs = none ∧ MemoryManager.malloc A h n = some (0, h)) ∨
      ∃ p bs' h', allocate 16 (fits n) n bs = some (p, bs') ∧
        MemoryManager.malloc A h n = some (p, h') ∧ Layout R h' bs' ∧
        HeaderFrame (bs'.map Block.addr) h.mem h'.mem := by
  rcases forall_not_or_exists_first (fits n) bs with hno | ⟨pre, b, post, rfl, hno, hfit⟩
  · exact .inl ⟨allocate_eq_none hno, malloc_null hl hno⟩
  · obtain ⟨h', hm, hl', hf⟩ := malloc_first hA hl hno hfit
    exact .inr ⟨_, _, h', allocate_append hno hfit, hm, hl', hf⟩

/-! ## Changing the arithmetic -/

section Refines

variable {A' : Arith} {x y : ℕ} {r : ℕ × Heap} {h' : Heap}

/-- A computation that is only continued differently on the results it does not
have gives the same result. -/
theorem bind_eq_some_of_imp {α β : Type} {e e' : Option α} {f f' : α → Option β} {c : β}
    (he : ∀ v, e = some v → e' = some v) (hf : ∀ v, f v = some c → f' v = some c)
    (h : e.bind f = some c) : e'.bind f' = some c := by
  obtain ⟨v, hv, hc⟩ := Option.bind_eq_some_iff.mp h
  exact Option.bind_eq_some_iff.mpr ⟨v, he v hv, hf v hc⟩

theorem split_refines (hA : A.Refines A') (h : MemoryManager.split A m x n = some m') :
    MemoryManager.split A' m x n = some m' := by
  refine bind_eq_some_of_imp (fun _ => hA.add) (fun _ => ?_) h
  refine bind_eq_some_of_imp (fun _ => hA.add) (fun _ => ?_)
  refine bind_eq_some_of_imp (fun _ => hA.sub) (fun _ => ?_)
  exact bind_eq_some_of_imp (fun _ => hA.sub) (fun _ => id)

/-- A `malloc` that goes through with the arithmetic `A` goes through alike with
every arithmetic that has the results of `A`. -/
theorem malloc_refines (hA : A.Refines A') (hm : MemoryManager.malloc A h n = some r) :
    MemoryManager.malloc A' h n = some r := by
  refine bind_eq_some_of_imp (fun _ => id) (fun result => ?_) hm
  split
  · exact id
  · refine bind_eq_some_of_imp (fun _ => hA.add) (fun _ => ?_)
    refine bind_eq_some_of_imp (fun _ => hA.add) (fun _ => ?_)
    dsimp only
    split
    · refine bind_eq_some_of_imp (fun _ => split_refines hA) (fun _ => ?_)
      exact bind_eq_some_of_imp (fun _ => hA.add) (fun _ => id)
    · refine bind_eq_some_of_imp (fun _ => id) (fun _ => ?_)
      exact bind_eq_some_of_imp (fun _ => hA.add) (fun _ => id)

theorem free_refines (hA : A.Refines A') (hf : MemoryManager.free A h x = some h') :
    MemoryManager.free A' h x = some h' := by
  refine bind_eq_some_of_imp (fun _ => hA.sub) (fun _ => ?_) hf
  refine bind_eq_some_of_imp (fun _ => ?_) (fun _ => bind_eq_some_of_imp (fun _ => ?_) fun _ => id)
  · rw [MemoryManager.mergeNext, MemoryManager.mergeNext]
    split
    · refine bind_eq_some_of_imp (fun _ => hA.add) (fun _ => ?_)
      exact bind_eq_some_of_imp (fun _ => hA.add) (fun _ => id)
    · exact id
  · rw [MemoryManager.mergePrev, MemoryManager.mergePrev]
    split
    · refine bind_eq_some_of_imp (fun _ => hA.add) (fun _ => ?_)
      exact bind_eq_some_of_imp (fun _ => hA.add) (fun _ => id)
    · exact id

end Refines
