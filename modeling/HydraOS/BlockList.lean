/-
# Lists of blocks that tile an interval

The mathematics of an allocator that keeps a header of `hdr` bytes in front of
every block: a list of blocks tiles an interval when each block starts where the
one before it ends, header included.  Two operations act on such lists:

* `allocate` carves the first suitable block;
* `release` marks a block unused and merges every run of adjacent unused blocks.

Both keep the tiling and the absence of adjacent unused blocks, and both are
characterised at a split `pre ++ b :: post` of the list, which is the form in
which a pointer program meets them.
-/
import Mathlib

/-- A block: where its header starts, how many payload bytes follow the header,
and whether a client owns it. -/
@[ext] structure Block where
  addr : ℕ
  size : ℕ
  used : Bool
  deriving DecidableEq, Repr

namespace BlockList

variable {hdr lo hi n p : ℕ} {a b c : Block} {xs ys : List Block}

/-! ## Tilings -/

/-- The blocks, each with its header, fill the interval from `lo` to `hi` in
order, without gap or overlap. -/
def Tiles (hdr : ℕ) : ℕ → ℕ → List Block → Prop
  | lo, hi, [] => lo = hi
  | lo, hi, b :: bs => b.addr = lo ∧ Tiles hdr (b.addr + hdr + b.size) hi bs

@[simp] theorem tiles_nil : Tiles hdr lo hi [] ↔ lo = hi := Iff.rfl

@[simp] theorem tiles_cons :
    Tiles hdr lo hi (b :: xs) ↔ b.addr = lo ∧ Tiles hdr (b.addr + hdr + b.size) hi xs :=
  Iff.rfl

/-- A tiling of a concatenation splits at a point in between. -/
theorem tiles_append :
    Tiles hdr lo hi (xs ++ ys) ↔ ∃ mid, Tiles hdr lo mid xs ∧ Tiles hdr mid hi ys := by
  induction xs generalizing lo with
  | nil => simp
  | cons b xs ih => simp [ih, and_assoc]

/-- A tiled interval is not reversed, and every block takes at least its header. -/
theorem Tiles.length_le (h : Tiles hdr lo hi xs) : lo + xs.length * hdr ≤ hi := by
  induction xs generalizing lo with
  | nil => simp_all
  | cons b xs ih =>
    obtain ⟨rfl, h⟩ := h
    have := ih h
    rw [List.length_cons, Nat.succ_mul]
    omega

/-- Every block of a tiling lies in the tiled interval. -/
theorem Tiles.bounds (h : Tiles hdr lo hi xs) (hb : b ∈ xs) :
    lo ≤ b.addr ∧ b.addr + hdr + b.size ≤ hi := by
  induction xs generalizing lo with
  | nil => simp at hb
  | cons a xs ih =>
    obtain ⟨rfl, h⟩ := h
    rcases List.mem_cons.mp hb with rfl | hb
    · have := h.length_le
      constructor <;> omega
    · have := ih h hb
      constructor <;> omega

/-- Two blocks of a tiling are the same block or do not overlap. -/
theorem Tiles.apart (h : Tiles hdr lo hi xs) (ha : a ∈ xs) (hb : b ∈ xs) :
    a = b ∨ a.addr + hdr + a.size ≤ b.addr ∨ b.addr + hdr + b.size ≤ a.addr := by
  induction xs generalizing lo with
  | nil => simp at ha
  | cons c xs ih =>
    obtain ⟨rfl, h⟩ := h
    rcases List.mem_cons.mp ha with hac | hax <;> rcases List.mem_cons.mp hb with hbc | hbx
    · exact .inl (hac.trans hbc.symm)
    · rw [hac]
      exact .inr (.inl (h.bounds hbx).1)
    · rw [hbc]
      exact .inr (.inr (h.bounds hax).1)
    · exact ih h hax hbx

/-- With a positive header a block of a tiling is determined by its address. -/
theorem Tiles.eq_of_addr_eq (h : Tiles hdr lo hi xs) (hpos : 0 < hdr) (ha : a ∈ xs)
    (hb : b ∈ xs) (hab : a.addr = b.addr) : a = b := by
  rcases h.apart ha hb with h | h | h
  · exact h
  · omega
  · omega

/-- A tiling does not change when its blocks are marked used or unused. -/
theorem Tiles.map_used (h : Tiles hdr lo hi xs) (f : Block → Block)
    (haddr : ∀ b, (f b).addr = b.addr) (hsize : ∀ b, (f b).size = b.size) :
    Tiles hdr lo hi (xs.map f) := by
  induction xs generalizing lo with
  | nil => exact h
  | cons b xs ih =>
    obtain ⟨rfl, h⟩ := h
    refine ⟨haddr b, ?_⟩
    rw [haddr, hsize]
    exact ih h

/-! ## Merging adjacent unused blocks -/

/-- No two adjacent blocks are both unused. -/
def Coalesced (bs : List Block) : Prop := bs.IsChain fun a b => a.used ∨ b.used

/-- The block that covers `a` and the block `b` after it. -/
def merge (hdr : ℕ) (a b : Block) : Block := { a with size := a.size + b.size + hdr }

/-- Put a block in front of a list, merging it with the first block when both
are unused. -/
def push (hdr : ℕ) (b : Block) : List Block → List Block
  | [] => [b]
  | c :: cs => if b.used ∨ c.used then b :: c :: cs else merge hdr b c :: cs

/-- Merge every run of adjacent unused blocks. -/
def coalesce (hdr : ℕ) (bs : List Block) : List Block := bs.foldr (push hdr) []

theorem push_of_coalesced (h : Coalesced (b :: xs)) : push hdr b xs = b :: xs := by
  cases xs with
  | nil => rfl
  | cons c xs => rw [push, if_pos (List.isChain_cons_cons.mp h).1]

theorem Tiles.push (h : Tiles hdr lo hi (b :: xs)) : Tiles hdr lo hi (push hdr b xs) := by
  cases xs with
  | nil => exact h
  | cons c xs =>
    rw [BlockList.push]
    split
    · exact h
    · obtain ⟨rfl, hc, h⟩ := h
      refine ⟨rfl, ?_⟩
      have : b.addr + hdr + (b.size + c.size + hdr) = c.addr + hdr + c.size := by omega
      simp only [merge, this]
      exact h

theorem Coalesced.push (h : Coalesced xs) : Coalesced (push hdr b xs) := by
  cases xs with
  | nil => exact .singleton b
  | cons c xs =>
    rw [BlockList.push]
    split
    · next hbc => exact .cons_cons hbc h
    · next hbc =>
      -- the merged block is unused like `c` was, so its right neighbour is used
      cases xs with
      | nil => exact .singleton _
      | cons d xs =>
        obtain ⟨hcd, h⟩ := List.isChain_cons_cons.mp h
        refine .cons_cons ?_ h
        simp only [not_or] at hbc
        exact .inr (hcd.resolve_left hbc.2)

theorem Tiles.coalesce (h : Tiles hdr lo hi xs) : Tiles hdr lo hi (coalesce hdr xs) := by
  induction xs generalizing lo with
  | nil => exact h
  | cons b xs ih => exact Tiles.push ⟨h.1, ih h.2⟩

theorem coalesced_coalesce (xs : List Block) : Coalesced (coalesce hdr xs) := by
  induction xs with
  | nil => exact .nil
  | cons b xs ih => exact Coalesced.push ih

/-- Pushing the blocks of a list without adjacent unused blocks only prepends them. -/
theorem foldr_push_of_coalesced (h : Coalesced (xs ++ ys)) :
    xs.foldr (push hdr) ys = xs ++ ys := by
  induction xs with
  | nil => rfl
  | cons b xs ih =>
    rw [List.foldr_cons, ih (List.IsChain.of_cons h)]
    exact push_of_coalesced h

theorem coalesce_of_coalesced (h : Coalesced xs) : coalesce hdr xs = xs := by
  have : xs.foldr (push hdr) [] = xs ++ [] := foldr_push_of_coalesced (by simpa using h)
  rw [coalesce, this, List.append_nil]

/-- Merging neither makes nor loses a used block. -/
theorem mem_push_of_used (hc : c.used) : c ∈ push hdr b xs ↔ c = b ∨ c ∈ xs := by
  cases xs with
  | nil => simp [push]
  | cons d xs =>
    rw [push]
    split
    · simp
    · next h =>
      simp only [not_or] at h
      have hb : c ≠ b := by rintro rfl; exact h.1 hc
      have hd : c ≠ d := by rintro rfl; exact h.2 hc
      have hm : c ≠ merge hdr b d := by rintro rfl; exact h.1 hc
      simp [hb, hd, hm]

theorem mem_coalesce_of_used (hc : c.used) : c ∈ coalesce hdr xs ↔ c ∈ xs := by
  induction xs with
  | nil => rfl
  | cons b xs ih =>
    rw [List.mem_cons, ← ih]
    exact mem_push_of_used hc

/-! ## Releasing a block -/

/-- The list with the block whose payload starts at `p` marked unused. -/
def markUnused (hdr p : ℕ) (bs : List Block) : List Block :=
  bs.map fun b => if b.addr + hdr = p then { b with used := false } else b

/-- The list after the block with payload `p` is given back. -/
def release (hdr p : ℕ) (bs : List Block) : List Block := coalesce hdr (markUnused hdr p bs)

theorem Tiles.release (h : Tiles hdr lo hi xs) (p : ℕ) : Tiles hdr lo hi (release hdr p xs) := by
  refine Tiles.coalesce (h.map_used _ ?_ ?_)
  all_goals
    intro b
    split <;> rfl

theorem coalesced_release (p : ℕ) (xs : List Block) : Coalesced (release hdr p xs) :=
  coalesced_coalesce _

/-- The used blocks after a release are the used blocks before it, less the one
released. -/
theorem mem_release_of_used (hc : c.used) :
    c ∈ release hdr p xs ↔ c ∈ xs ∧ c.addr + hdr ≠ p := by
  rw [release, mem_coalesce_of_used hc, markUnused, List.mem_map]
  constructor
  · rintro ⟨b, hb, rfl⟩
    split at hc
    · simp at hc
    · next h => rw [if_neg h]; exact ⟨hb, h⟩
  · rintro ⟨hb, h⟩
    exact ⟨c, hb, if_neg h⟩

/-- Away from the released payload nothing is marked. -/
theorem markUnused_of_ne (h : ∀ b ∈ xs, b.addr + hdr ≠ p) : markUnused hdr p xs = xs := by
  rw [markUnused]
  refine (List.map_congr_left fun b hb => ?_).trans (List.map_id xs)
  rw [if_neg (h b hb), id]

/-- **Releasing at a split of the list.**  The block is marked and pushed onto
what follows it, and the result is pushed onto by what precedes it. -/
theorem release_append (h : Tiles hdr lo hi (xs ++ b :: ys)) (hpos : 0 < hdr)
    (hco : Coalesced (xs ++ b :: ys)) :
    release hdr (b.addr + hdr) (xs ++ b :: ys)
      = xs.foldr (push hdr) (push hdr { b with used := false } ys) := by
  obtain ⟨mid, hx, rfl, hy⟩ := tiles_append.mp h
  have hxs : ∀ c ∈ xs, c.addr + hdr ≠ b.addr + hdr := fun c hc => by
    have := hx.bounds hc
    omega
  have hys : ∀ c ∈ ys, c.addr + hdr ≠ b.addr + hdr := fun c hc => by
    have := hy.bounds hc
    omega
  have hcy : Coalesced ys := (List.isChain_append.mp hco).2.1.of_cons
  have hmark : markUnused hdr (b.addr + hdr) (xs ++ b :: ys)
      = xs ++ { b with used := false } :: ys := by
    have : markUnused hdr (b.addr + hdr) (xs ++ b :: ys)
        = markUnused hdr (b.addr + hdr) xs ++
          markUnused hdr (b.addr + hdr) (b :: ys) := List.map_append
    rw [this, markUnused_of_ne hxs]
    congr 1
    have : markUnused hdr (b.addr + hdr) (b :: ys)
        = { b with used := false } :: markUnused hdr (b.addr + hdr) ys := by simp [markUnused]
    rw [this, markUnused_of_ne hys]
  rw [release, hmark, coalesce, List.foldr_append, List.foldr_cons]
  congr 2
  exact coalesce_of_coalesced hcy

/-- Pushing leaves the first block where it was and as used as it was, and adds
no block behind it. -/
theorem exists_push_eq_cons (hdr : ℕ) (b : Block) (xs : List Block) :
    ∃ size rest, push hdr b xs = { b with size := size } :: rest ∧ rest ⊆ xs := by
  cases xs with
  | nil => exact ⟨b.size, [], rfl, List.Subset.refl _⟩
  | cons c xs =>
    rw [push]
    split
    · exact ⟨b.size, c :: xs, rfl, List.Subset.refl _⟩
    · exact ⟨_, xs, rfl, List.subset_cons_self c xs⟩

theorem Coalesced.append_push (h : Coalesced (xs ++ [a])) (hy : Coalesced ys) :
    Coalesced (xs ++ BlockList.push hdr a ys) := by
  obtain ⟨size, rest, hpush, -⟩ := exists_push_eq_cons hdr a ys
  obtain ⟨hx, -, hlast⟩ := List.isChain_append.mp h
  refine List.isChain_append.mpr ⟨hx, hy.push, fun c hc d hd => ?_⟩
  rw [hpush] at hd
  obtain rfl : _ = d := by simpa using hd
  exact hlast c hc a (by simp)

/-- Releasing the first block only merges to the right. -/
theorem release_first (h : Tiles hdr lo hi (b :: ys)) (hpos : 0 < hdr)
    (hco : Coalesced (b :: ys)) :
    release hdr (b.addr + hdr) (b :: ys) = push hdr { b with used := false } ys := by
  rw [← List.nil_append (b :: ys)] at h hco ⊢
  exact release_append h hpos hco

/-- Releasing a block with a left neighbour merges it to the right and the
neighbour with what that gives; the blocks before the neighbour stay. -/
theorem release_after (h : Tiles hdr lo hi (xs ++ a :: b :: ys)) (hpos : 0 < hdr)
    (hco : Coalesced (xs ++ a :: b :: ys)) :
    release hdr (b.addr + hdr) (xs ++ a :: b :: ys)
      = xs ++ push hdr a (push hdr { b with used := false } ys) := by
  have hassoc : xs ++ a :: b :: ys = (xs ++ [a]) ++ b :: ys := by simp
  rw [hassoc] at h hco ⊢
  obtain ⟨hxa, hby, -⟩ := List.isChain_append.mp hco
  rw [release_append h hpos hco, List.foldr_append, List.foldr_cons, List.foldr_nil]
  exact foldr_push_of_coalesced (Coalesced.append_push hxa (Coalesced.push hby.of_cons))

/-! ## Releasing several blocks -/

/-- The list after the blocks with the payloads `ps` are given back one by one. -/
def releaseAll (hdr : ℕ) (ps : List ℕ) (bs : List Block) : List Block :=
  ps.foldl (fun bs p => release hdr p bs) bs

/-- The list with all blocks whose payload is one of `ps` marked unused. -/
def markAll (hdr : ℕ) (ps : List ℕ) (bs : List Block) : List Block :=
  bs.map fun b => if b.addr + hdr ∈ ps then { b with used := false } else b

theorem markAll_nil : markAll hdr [] xs = xs := by
  unfold markAll
  simp

theorem markAll_cons (p : ℕ) (ps : List ℕ) :
    markAll hdr (p :: ps) xs = markAll hdr ps (markUnused hdr p xs) := by
  unfold markAll markUnused
  rw [List.map_map]
  apply List.map_congr_left
  intro b _
  by_cases hp : b.addr + hdr = p
  · simp [hp]
  · simp [hp]

/-- Two unused blocks in front of a list may be merged with each other first. -/
theorem push_merge (ha : a.used = false) (hb : b.used = false) :
    push hdr (merge hdr a b) xs = push hdr a (push hdr b xs) := by
  have hab : ¬ (a.used ∨ b.used) := by simp [ha, hb]
  cases xs with
  | nil => rw [push, push, push, if_neg hab]
  | cons c xs =>
    by_cases hc : c.used
    · rw [push, if_pos (.inr hc), push, if_pos (.inr hc), push, if_neg hab]
    · have hac : ¬ ((merge hdr a b).used ∨ c.used) := by simp [merge, ha, hc]
      have hbc : ¬ (b.used ∨ c.used) := by simp [hb, hc]
      have habc : ¬ (a.used ∨ (merge hdr b c).used) := by simp [merge, ha, hb]
      rw [push, if_neg hac, push, if_neg hbc, push, if_neg habc]
      congr 1
      simp only [merge]
      congr 1
      omega

/-- Whether adjacent unused blocks are merged before or after the marking makes no
difference to the merged list. -/
theorem coalesce_markUnused_push (p : ℕ) :
    coalesce hdr (markUnused hdr p (push hdr b xs)) =
      coalesce hdr (markUnused hdr p (b :: xs)) := by
  cases xs with
  | nil => rfl
  | cons c xs =>
    rw [push]
    split
    · rfl
    · next h =>
      simp only [not_or, Bool.not_eq_true] at h
      obtain ⟨hb, hc⟩ := h
      -- unused blocks are not changed by the marking
      have hmark : ∀ d : Block, d.used = false →
          (if d.addr + hdr = p then { d with used := false } else d) = d := by
        intro d hd
        split
        · exact Block.ext rfl rfl hd.symm
        · rfl
      simp only [markUnused, List.map_cons]
      rw [hmark b hb, hmark c hc, hmark (merge hdr b c) hb]
      unfold coalesce
      rw [List.foldr_cons, List.foldr_cons, List.foldr_cons]
      exact push_merge hb hc

theorem coalesce_markUnused_coalesce (p : ℕ) (xs : List Block) :
    coalesce hdr (markUnused hdr p (coalesce hdr xs)) = coalesce hdr (markUnused hdr p xs) := by
  induction xs with
  | nil => rfl
  | cons b xs ih =>
    have hcons : coalesce hdr (b :: xs) = push hdr b (coalesce hdr xs) := rfl
    have hmark (ys : List Block) : coalesce hdr (markUnused hdr p (b :: ys)) =
        push hdr (if b.addr + hdr = p then { b with used := false } else b)
          (coalesce hdr (markUnused hdr p ys)) := rfl
    rw [hcons, coalesce_markUnused_push, hmark, hmark, ih]

/-- **The canonical form.**  Giving back blocks one by one marks all of them and merges
once. -/
theorem releaseAll_eq (ps : List ℕ) (h : Coalesced xs) :
    releaseAll hdr ps xs = coalesce hdr (markAll hdr ps xs) := by
  have hfold : ∀ ys, releaseAll hdr ps (coalesce hdr ys) = coalesce hdr (markAll hdr ps ys) := by
    induction ps with
    | nil =>
      intro ys
      rw [markAll_nil]
      rfl
    | cons p ps ih =>
      intro ys
      rw [markAll_cons, ← ih]
      unfold releaseAll
      rw [List.foldl_cons, release, coalesce_markUnused_coalesce]
  rw [← hfold, coalesce_of_coalesced h]

/-- **The order in which blocks are given back makes no difference.** -/
theorem releaseAll_perm {ps qs : List ℕ} (h : Coalesced xs) (hperm : ps.Perm qs) :
    releaseAll hdr ps xs = releaseAll hdr qs xs := by
  rw [releaseAll_eq ps h, releaseAll_eq qs h]
  unfold markAll
  simp only [hperm.mem_iff]

/-- When every block is given back, a single unused block is left. -/
theorem releaseAll_all {ps : List ℕ} (h : Tiles hdr lo hi xs) (hco : Coalesced xs)
    (hlt : lo < hi) (hall : ∀ b ∈ xs, b.used → b.addr + hdr ∈ ps) :
    releaseAll hdr ps xs = [⟨lo, hi - lo - hdr, false⟩] := by
  rw [releaseAll_eq ps hco]
  have hunused : ∀ c ∈ coalesce hdr (markAll hdr ps xs), c.used = false := by
    intro c hc
    by_contra hcu
    rw [Bool.not_eq_false] at hcu
    rw [mem_coalesce_of_used hcu, markAll, List.mem_map] at hc
    obtain ⟨b, hb, rfl⟩ := hc
    split at hcu
    · simp at hcu
    · next hnot => exact hnot (hall b hb hcu)
  have htiles : Tiles hdr lo hi (coalesce hdr (markAll hdr ps xs)) := by
    refine Tiles.coalesce (h.map_used _ ?_ ?_)
    all_goals
      intro b
      split <;> rfl
  have hchain := (coalesced_coalesce (markAll hdr ps xs) : Coalesced (coalesce hdr (markAll hdr ps xs)))
  rcases hlist : coalesce hdr (markAll hdr ps xs) with _ | ⟨b, _ | ⟨c, cs⟩⟩
  · rw [hlist, tiles_nil] at htiles
    omega
  · rw [hlist, tiles_cons, tiles_nil] at htiles
    obtain ⟨haddr, hend⟩ := htiles
    have hb := hunused b (by simp [hlist])
    rw [List.cons.injEq]
    exact ⟨Block.ext haddr (by simp only; omega) hb, rfl⟩
  · -- two unused blocks would be adjacent
    rw [hlist] at hchain
    have hb := hunused b (by simp [hlist])
    have hc := hunused c (by simp [hlist])
    rcases (List.isChain_cons_cons.mp hchain).1 with hu | hu
    · rw [hb] at hu
      cases hu
    · rw [hc] at hu
      cases hu

/-! ## Allocating a block -/

/-- Give `n` bytes of an unused block to a client.  The rest of the block becomes
a block of its own when a header and at least one byte are left over. -/
def carve (hdr n : ℕ) (b : Block) : List Block :=
  if n + hdr + 1 ≤ b.size then
    [⟨b.addr, n, true⟩, ⟨b.addr + hdr + n, b.size - n - hdr, false⟩]
  else [{ b with used := true }]

/-- Carve the first block that `fits`, and return where its payload starts. -/
def allocate (hdr : ℕ) (fits : Block → Bool) (n : ℕ) : List Block → Option (ℕ × List Block)
  | [] => none
  | b :: bs =>
    if fits b then some (b.addr + hdr, carve hdr n b ++ bs)
    else (allocate hdr fits n bs).map fun r => (r.1, b :: r.2)

variable {fits : Block → Bool}

theorem allocate_eq_none (h : ∀ b ∈ xs, ¬ fits b) : allocate hdr fits n xs = none := by
  induction xs with
  | nil => rfl
  | cons b xs ih =>
    rw [List.forall_mem_cons] at h
    rw [allocate, if_neg h.1, ih h.2, Option.map_none]

/-- **Allocating at a split of the list** after the blocks that do not fit. -/
theorem allocate_append (h : ∀ a ∈ xs, ¬ fits a) (hb : fits b) :
    allocate hdr fits n (xs ++ b :: ys) = some (b.addr + hdr, xs ++ carve hdr n b ++ ys) := by
  induction xs with
  | nil => simp [allocate, hb]
  | cons a xs ih =>
    rw [List.forall_mem_cons] at h
    rw [List.cons_append, allocate, if_neg h.1, ih h.2]
    simp

/-- Either no block fits, or the list splits at the first one that does. -/
theorem forall_not_or_exists_first (fits : Block → Bool) (xs : List Block) :
    (∀ b ∈ xs, ¬ fits b) ∨
      ∃ pre b post, xs = pre ++ b :: post ∧ (∀ a ∈ pre, ¬ fits a) ∧ fits b := by
  rcases h : xs.find? fits with _ | b
  · exact .inl fun b hb => by simpa using List.find?_eq_none.mp h b hb
  · obtain ⟨hb, pre, post, rfl, hpre⟩ := List.find?_eq_some_iff_append.mp h
    exact .inr ⟨pre, b, post, rfl, fun a ha => by simpa using hpre a ha, hb⟩

theorem Tiles.carve (h : Tiles hdr lo hi (xs ++ b :: ys)) :
    Tiles hdr lo hi (xs ++ carve hdr n b ++ ys) := by
  rw [List.append_assoc]
  obtain ⟨mid, hx, rfl, hy⟩ := tiles_append.mp h
  refine tiles_append.mpr ⟨_, hx, ?_⟩
  rw [BlockList.carve]
  split
  · next hn =>
    refine ⟨rfl, rfl, ?_⟩
    have : b.addr + hdr + n + hdr + (b.size - n - hdr) = b.addr + hdr + b.size := by omega
    simp only [this]
    exact hy
  · exact ⟨rfl, hy⟩

theorem Coalesced.carve (h : Coalesced (xs ++ b :: ys)) (hb : b.used = false) :
    Coalesced (xs ++ BlockList.carve hdr n b ++ ys) := by
  obtain ⟨hx, hy, -⟩ := List.isChain_append.mp h
  have hhead : ∀ c ∈ ys.head?, b.used ∨ c.used := fun c hc =>
    (List.isChain_cons.mp hy).1 c hc
  -- both shapes of the carved list start with a used block, and only the second
  -- block of the longer one is unused, as `b` was
  rw [List.append_assoc]
  refine List.isChain_append.mpr ⟨hx, ?_, fun c _ d hd => .inr ?_⟩
  · rw [BlockList.carve]
    split
    · refine .cons_cons (.inl rfl) (List.isChain_cons.mpr ⟨fun c hc => ?_, hy.of_cons⟩)
      exact .inr ((hhead c hc).resolve_left (by simp [hb]))
    · exact List.isChain_cons.mpr ⟨fun c _ => .inl rfl, hy.of_cons⟩
  · rw [BlockList.carve] at hd
    split at hd
    all_goals
      simp only [List.cons_append, List.head?_cons, Option.mem_some_iff] at hd
      rw [← hd]

/-- **Releasing a carved block undoes the carving.** -/
theorem release_carve (h : Tiles hdr lo hi (xs ++ b :: ys)) (hpos : 0 < hdr)
    (hco : Coalesced (xs ++ b :: ys)) (hb : b.used = false) :
    release hdr (b.addr + hdr) (xs ++ carve hdr n b ++ ys) = xs ++ b :: ys := by
  have htiles : Tiles hdr lo hi (xs ++ carve hdr n b ++ ys) := h.carve
  have hcarved : Coalesced (xs ++ carve hdr n b ++ ys) := hco.carve hb
  rw [List.append_assoc] at htiles hcarved ⊢
  -- what is pushed back onto `ys` is `b`, in one piece or in two
  have hback : ∀ c cs, carve hdr n b = c :: cs → c.addr = b.addr ∧
      push hdr { c with used := false } (cs ++ ys) = b :: ys := by
    intro c cs hcs
    rw [carve] at hcs
    split at hcs
    · next hn =>
      cases hcs
      refine ⟨rfl, ?_⟩
      rw [List.singleton_append, push, if_neg (by simp)]
      congr 1
      exact Block.ext rfl (by simp only [merge]; omega) hb.symm
    · cases hcs
      refine ⟨rfl, ?_⟩
      have hsame : ({ b with used := false } : Block) = b := Block.ext rfl rfl hb.symm
      rw [List.nil_append]
      show push hdr { b with used := false } ys = b :: ys
      rw [hsame]
      exact push_of_coalesced (List.isChain_append.mp hco).2.1
  obtain ⟨c, cs, hcs⟩ : ∃ c cs, carve hdr n b = c :: cs := by
    rw [carve]
    split
    · exact ⟨_, _, rfl⟩
    · exact ⟨_, _, rfl⟩
  obtain ⟨haddr, hpush⟩ := hback c cs hcs
  rw [hcs, List.cons_append] at htiles hcarved ⊢
  rw [← haddr, release_append htiles hpos hcarved, hpush]
  exact foldr_push_of_coalesced hco

/-- The used blocks after carving `b` are those before it and the carved one,
which starts where `b` did and holds at least `n` bytes. -/
theorem exists_carved (hb : b.used = false) (hn : n ≤ b.size) :
    ∃ d : Block, d.addr = b.addr ∧ d.used ∧ n ≤ d.size ∧
      ∀ c : Block, c.used → (c ∈ xs ++ carve hdr n b ++ ys ↔ c = d ∨ c ∈ xs ++ b :: ys) := by
  rw [carve]
  split
  · refine ⟨⟨b.addr, n, true⟩, rfl, rfl, le_rfl, fun c hc => ?_⟩
    have h1 : c ≠ b := by rintro rfl; simp [hb] at hc
    have h2 : c ≠ ⟨b.addr + hdr + n, b.size - n - hdr, false⟩ := by rintro rfl; simp at hc
    simp only [List.mem_append, List.mem_cons, List.not_mem_nil, h1, h2]
    tauto
  · refine ⟨{ b with used := true }, rfl, rfl, hn, fun c hc => ?_⟩
    have h1 : c ≠ b := by rintro rfl; simp [hb] at hc
    simp only [List.mem_append, List.mem_cons, List.not_mem_nil, h1]
    tauto

/-- **What an allocation does to the used blocks**: it adds one, where a block that
fits stood. -/
theorem allocate_used (hfits : ∀ b, fits b → b.used = false ∧ n ≤ b.size)
    (h : allocate hdr fits n xs = some (p, ys)) :
    ∃ b ∈ xs, ∃ d : Block, fits b ∧ p = b.addr + hdr ∧ d.addr = b.addr ∧ d.used ∧ n ≤ d.size ∧
      ∀ c : Block, c.used → (c ∈ ys ↔ c = d ∨ c ∈ xs) := by
  rcases forall_not_or_exists_first fits xs with hno | ⟨pre, b, post, rfl, hno, hb⟩
  · rw [allocate_eq_none hno] at h
    cases h
  · rw [allocate_append hno hb] at h
    cases h
    obtain ⟨hused, hn⟩ := hfits b hb
    obtain ⟨d, haddr, hd, hsize, hmem⟩ := exists_carved hused hn
    exact ⟨b, by simp, d, hb, rfl, haddr, hd, hsize, hmem⟩

end BlockList
