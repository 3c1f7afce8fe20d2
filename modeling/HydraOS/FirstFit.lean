/-
# First fit

`malloc` takes the first free chunk that is larger than the request.  A free chunk of exactly
the requested size is passed over, so that a request may fail, or be served at a higher
address, although that chunk would do.  Freeing the block at once always undoes the call.
-/
import HydraOS.FreeOrder

open BlockList MemoryManager

/-! ## A block for a while -/

section Blocks

variable {R : Region} {A : Arith} {h h' : Heap} {bs bs' : List Block} {b c : Block} {n p : ℕ}

/-- The list `bs'` has a used block at the pointer `p`, with at least `n` bytes. -/
def HasBlock (bs' : List Block) (p n : ℕ) : Prop :=
  ∃ b ∈ bs', b.used ∧ b.addr + 16 = p ∧ n ≤ b.size

/-- **`malloc` and `free` are inverse to each other.**  When `malloc` returns a block, freeing it
in any heap that is laid out the same leads back to the list of blocks before. -/
theorem malloc_for_a_while (hA : A.Exact) (hl : Layout R h bs) (n : ℕ) :
    (MemoryManager.malloc A h n = some (0, h) ∧ allocate 16 (fits n) n bs = none) ∨
      ∃ p h' bs', MemoryManager.malloc A h n = some (p, h') ∧
        allocate 16 (fits n) n bs = some (p, bs') ∧ Layout R h' bs' ∧ p ≠ 0 ∧
        HasBlock bs' p n ∧ (∀ c ∈ bs, c.used → c ∈ bs') ∧
        ∀ h'', Layout R h'' bs' → ∃ h₀, MemoryManager.free A h'' p = some h₀ ∧ Layout R h₀ bs := by
  rcases forall_not_or_exists_first (fits n) bs with hno | ⟨pre, b, post, rfl, hno, hfit⟩
  · exact .inl ⟨malloc_null hl hno, allocate_eq_none hno⟩
  · obtain ⟨hused, hn⟩ := fits_iff.mp hfit
    obtain ⟨h', hm, hl', -⟩ := malloc_first hA hl hno hfit
    obtain ⟨-, -, hstop, hle⟩ := hl.bounds (by simp : b ∈ pre ++ b :: post)
    obtain ⟨c, haddr, hc, hsize, hmem⟩ :=
      @exists_carved 16 _ _ pre post hused hn.le
    have hcmem : c ∈ pre ++ carve 16 n b ++ post := (hmem c hc).mpr (.inl rfl)
    refine .inr ⟨_, h', _, hm, allocate_append hno hfit, hl', by omega,
      ⟨c, hcmem, hc, by rw [haddr], hsize⟩, fun e he heu => (hmem e heu).mpr (.inr he),
      fun h'' hl'' => ?_⟩
    obtain ⟨h₀, hf, hl₀, -⟩ := free_spec hA hl'' hcmem (by omega)
    rw [haddr] at hf hl₀
    rw [release_carve hl.tiles (by omega) hl.coalesced hused] at hl₀
    exact ⟨h₀, hf, hl₀⟩

/-! ## The lowest chunk that would do -/

/-- The chunk list of the heap is `bs`.  A `MemoryManager` that got too little memory for a
header has no chunks. -/
def WellFormed (h : Heap) (bs : List Block) : Prop :=
  (h.first = 0 ∧ bs = []) ∨ ∃ R, Layout R h bs

/-- `b` is the free chunk of at least `n` bytes with the lowest address. -/
structure LowestFit (bs : List Block) (n : ℕ) (b : Block) : Prop where
  mem : b ∈ bs
  free : b.used = false
  size_le : n ≤ b.size
  lowest : ∀ c ∈ bs, c.used = false → n ≤ c.size → b.addr ≤ c.addr

/-- **The call `malloc(n)` fails only when nothing fits**: it returns null if and only if no
free chunk has `n` bytes, and otherwise the payload of the lowest one that has. -/
def FirstFit (h : Heap) (bs : List Block) (n : ℕ) : Prop :=
  ∃ p h', malloc .wrapping h n = some (p, h') ∧
    (p = 0 ↔ ∀ b ∈ bs, b.used = false → b.size < n) ∧
    (p ≠ 0 → ∃ b, LowestFit bs n b ∧ p = b.addr + 16)

/-- The first block of a tiling that satisfies a condition has the lowest address of those
that do. -/
theorem Layout.addr_le {pre post : List Block} {P : Block → Prop} (hl : Layout R h (pre ++ b :: post))
    (hno : ∀ a ∈ pre, ¬ P a) (hc : c ∈ pre ++ b :: post) (hP : P c) : b.addr ≤ c.addr := by
  obtain ⟨mid, -, hrest⟩ := tiles_append.mp hl.tiles
  have hmem : c ∈ b :: post := by
    rcases List.mem_append.mp hc with hpre | hpost
    · exact absurd hP (hno c hpre)
    · exact hpost
  have hmid : b.addr = mid := hrest.1
  have hle := (hrest.bounds hmem).1
  omega

/-- Some chunk is the lowest that would do, unless none would. -/
theorem Layout.exists_lowestFit (hl : Layout R h bs) (n : ℕ) :
    (∀ b ∈ bs, b.used = false → b.size < n) ∨ ∃ b, LowestFit bs n b := by
  have hiff (b : Block) : (!b.used && decide (n ≤ b.size)) = true ↔
      b.used = false ∧ n ≤ b.size := by simp
  rcases forall_not_or_exists_first (fun b => !b.used && decide (n ≤ b.size)) bs with
    hno | ⟨pre, b, post, rfl, hno, hb⟩
  · left
    intro b hb hused
    by_contra hlt
    exact hno b hb ((hiff b).mpr ⟨hused, by omega⟩)
  · right
    obtain ⟨hused, hsize⟩ := (hiff b).mp hb
    refine ⟨b, by simp, hused, hsize, ?_⟩
    intro c hc hcused hcsize
    exact hl.addr_le hno hc ((hiff c).mpr ⟨hcused, hcsize⟩)

/-- There is only one such chunk. -/
theorem LowestFit.eq (hl : Layout R h bs) (hb : LowestFit bs n b) (hc : LowestFit bs n c) :
    b = c := by
  apply hl.tiles.eq_of_addr_eq (by omega) hb.mem hc.mem
  have hbc := hb.lowest c hc.mem hc.free hc.size_le
  have hcb := hc.lowest b hb.mem hb.free hb.size_le
  omega

/-- The call returns null. -/
theorem firstFit_iff_of_null (hl : Layout R h bs) (hno : ∀ b ∈ bs, ¬ fits n b) :
    FirstFit h bs n ↔ ∀ b, LowestFit bs n b → b.size ≠ n := by
  constructor
  · rintro ⟨p, h', hm, hnull, -⟩ b hb -
    rw [malloc_null hl hno] at hm
    cases hm
    have hlt := hnull.mp rfl b hb.mem hb.free
    have hle := hb.size_le
    omega
  · intro hne
    have hnone : ∀ b ∈ bs, b.used = false → b.size < n := by
      rcases hl.exists_lowestFit n with hnone | ⟨b, hb⟩
      · exact hnone
      · -- nothing is larger than the request
        have hle := hb.size_le
        have hsize := hne b hb
        exact absurd (fits_iff.mpr ⟨hb.free, by omega⟩) (hno b hb.mem)
    refine ⟨0, h, malloc_null hl hno, ?_, ?_⟩
    · exact iff_of_true rfl hnone
    · intro h0
      exact absurd rfl h0

/-- The call returns the block `b`. -/
theorem firstFit_iff_of_fits {pre post : List Block} (hl : Layout R h (pre ++ b :: post))
    (hno : ∀ a ∈ pre, ¬ fits n a) (hfit : fits n b) :
    FirstFit h (pre ++ b :: post) n ↔
      ∀ c, LowestFit (pre ++ b :: post) n c → c.size ≠ n := by
  obtain ⟨hfree, hsize⟩ := fits_iff.mp hfit
  obtain ⟨h', hm, -, -⟩ := malloc_first Arith.exact_wrapping hl hno hfit
  have hmem : b ∈ pre ++ b :: post := by simp
  constructor
  · rintro ⟨p, h'', hm', -, hlowest⟩ c hc heq
    rw [hm] at hm'
    cases hm'
    -- the block returned is the lowest that would do, and it is larger than the request
    obtain ⟨d, hd, haddr⟩ := hlowest (by omega)
    have hdb : d = b := hl.tiles.eq_of_addr_eq (by omega) hd.mem hmem (by omega)
    rw [hc.eq hl hd, hdb] at heq
    omega
  · intro hne
    have hlow : LowestFit (pre ++ b :: post) n b := by
      rcases hl.exists_lowestFit n with hnone | ⟨c, hc⟩
      · have hlt := hnone b hmem hfree
        omega
      · -- the lowest one is larger than the request, so the search has found it
        have hle := hc.size_le
        have hcsize := hne c hc
        have hcfit : fits n c := fits_iff.mpr ⟨hc.free, by omega⟩
        have hbc := hl.addr_le hno hc.mem hcfit
        have hcb := hc.lowest b hmem hfree hsize.le
        have heq : b = c := hl.tiles.eq_of_addr_eq (by omega) hmem hc.mem (by omega)
        rwa [← heq] at hc
    refine ⟨_, h', hm, ?_, ?_⟩
    · apply iff_of_false (by omega)
      intro hall
      have hlt := hall b hmem hfree
      omega
    · intro _
      exact ⟨b, hlow, rfl⟩

end Blocks

/-- **When `malloc` fails only if nothing fits.**  On every well-formed heap and for every
size this is so exactly if the lowest free chunk of at least that size, if there is one, does
not have exactly that size. -/
theorem malloc_firstFit_iff {h : Heap} {bs : List Block} (hw : WellFormed h bs) (n : ℕ) :
    FirstFit h bs n ↔ ∀ b, LowestFit bs n b → b.size ≠ n := by
  rcases hw with ⟨hfirst, rfl⟩ | ⟨R, hl⟩
  · have hm : malloc .wrapping h n = some (0, h) := by
      rw [malloc, hfirst]
      rfl
    apply iff_of_true
    · refine ⟨0, h, hm, ?_, ?_⟩
      · exact iff_of_true rfl (by simp)
      · intro h0
        exact absurd rfl h0
    · intro b hb
      exact absurd hb.mem List.not_mem_nil
  · rcases forall_not_or_exists_first (fits n) bs with hno | ⟨pre, b, post, rfl, hno, hfit⟩
    · exact firstFit_iff_of_null hl hno
    · exact firstFit_iff_of_fits hl hno hfit

/-- A new heap with one free chunk. -/
theorem malloc_firstFit_new :
    FirstFit (construct (fun _ => 0) 0x100 0x100) [⟨0x100, 240, false⟩] 8 := by
  apply (malloc_firstFit_iff (.inr ⟨smallRegion, layout_construct smallRegion _⟩) 8).mpr
  intro b hb
  rw [List.mem_singleton.mp hb.mem]
  decide

/-- A heap that is laid out allocates like its list. -/
theorem malloc_of_allocate {R : Region} {h : Heap} {bs bs' : List Block} {n p : ℕ}
    (hl : Layout R h bs) (ha : allocate 16 (fits n) n bs = some (p, bs')) :
    ∃ h', malloc .wrapping h n = some (p, h') ∧ Layout R h' bs' := by
  rcases malloc_spec Arith.exact_wrapping hl n with ⟨hnone, -⟩ | ⟨q, cs, h', ha', hm, hl', -⟩
  · rw [hnone] at ha
    cases ha
  · rw [ha'] at ha
    cases ha
    exact ⟨h', hm, hl'⟩

/-- A block of 8 bytes is freed while all other memory is in use, and the next request of 8
bytes fails. -/
theorem malloc_passes_exact_fit :
    ∃ h₁ h₂ h₃, malloc .wrapping (construct (fun _ => 0) 0x100 0x100) 8 = some (0x110, h₁) ∧
      malloc .wrapping h₁ 215 = some (0x128, h₂) ∧ free .wrapping h₂ 0x110 = some h₃ ∧
      WellFormed h₃ [⟨0x100, 8, false⟩, ⟨0x118, 216, true⟩] ∧
      malloc .wrapping h₃ 8 = some (0, h₃) ∧
      ¬ FirstFit h₃ [⟨0x100, 8, false⟩, ⟨0x118, 216, true⟩] 8 := by
  obtain ⟨h₁, hm₁, hl₁⟩ := @malloc_of_allocate _ _ _ [⟨0x100, 8, true⟩, ⟨0x118, 216, false⟩] 8 0x110
    (layout_construct smallRegion fun _ => 0) (by decide)
  obtain ⟨h₂, hm₂, hl₂⟩ := @malloc_of_allocate _ _ _ [⟨0x100, 8, true⟩, ⟨0x118, 216, true⟩] 215 0x128
    hl₁ (by decide)
  obtain ⟨h₃, hf, hl₃, -⟩ := free_spec Arith.exact_wrapping hl₂ List.mem_cons_self (by decide)
  have hrelease : release 16 (0x100 + 16) [⟨0x100, 8, true⟩, ⟨0x118, 216, true⟩] =
      [⟨0x100, 8, false⟩, ⟨0x118, 216, true⟩] := by decide
  rw [hrelease] at hl₃
  have hnull : malloc .wrapping h₃ 8 = some (0, h₃) := malloc_null hl₃ (by decide)
  refine ⟨h₁, h₂, h₃, hm₁, hm₂, hf, .inr ⟨smallRegion, hl₃⟩, hnull, ?_⟩
  rintro ⟨p, h', hm, hiff, -⟩
  rw [hnull] at hm
  cases hm
  have hlt := hiff.mp rfl ⟨0x100, 8, false⟩ List.mem_cons_self rfl
  exact absurd hlt (by decide)

/-- **`free` undoes `malloc`.**  On every well-formed heap, freeing the block that a call of
`malloc` has returned leads back to the chunk list before the call. -/
theorem free_undoes_malloc {h h' : Heap} {bs : List Block} {n p : ℕ} (hw : WellFormed h bs)
    (hm : malloc .wrapping h n = some (p, h')) (hp : p ≠ 0) :
    ∃ h₀, free .wrapping h' p = some h₀ ∧ h₀.first = h.first ∧ chunkList h₀ = chunkList h := by
  rcases hw with ⟨hfirst, rfl⟩ | ⟨R, hl⟩
  · have hnull : malloc .wrapping h n = some (0, h) := by
      rw [malloc, hfirst]
      rfl
    rw [hnull] at hm
    cases hm
    exact absurd rfl hp
  · rcases malloc_for_a_while Arith.exact_wrapping hl n with
      ⟨hnull, -⟩ | ⟨q, h₁, bs', hq, -, hl', -, -, -, hfree⟩
    · rw [hnull] at hm
      cases hm
      exact absurd rfl hp
    · rw [hq] at hm
      cases hm
      obtain ⟨h₀, hf, hl₀⟩ := hfree h' hl'
      exact ⟨h₀, hf, hl₀.first.trans hl.first.symm, hl.chunkList_eq hl₀⟩

/-- A block that is carved from the one chunk of a new heap and merged with it again. -/
theorem free_undoes_malloc_new :
    ∃ h' h₀, malloc .wrapping (construct (fun _ => 0) 0x100 0x100) 8 = some (0x110, h') ∧
      free .wrapping h' 0x110 = some h₀ ∧
      h₀.first = (construct (fun _ => 0) 0x100 0x100).first ∧
      chunkList h₀ = chunkList (construct (fun _ => 0) 0x100 0x100) := by
  have hl := layout_construct smallRegion fun _ => 0
  obtain ⟨h', hm, -⟩ := @malloc_of_allocate _ _ _ [⟨0x100, 8, true⟩, ⟨0x118, 216, false⟩] 8 0x110
    hl (by decide)
  exact ⟨h', (free_undoes_malloc (.inr ⟨smallRegion, hl⟩) hm (by decide)).imp
    fun h₀ h => ⟨hm, h⟩⟩
