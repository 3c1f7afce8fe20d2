/-
# The order of frees

`free` merges with whichever neighbours are free at the moment, so that each order of
freeing the same blocks takes its own way through the merges.  The chunk list that
remains is the same in all of them: it is the list with all these blocks marked free
and every run of adjacent free chunks merged.
-/
import HydraOS.HeapRuns

open MemoryChunk BlockList

/-! ## The chunk list of a heap -/

namespace MemoryManager

/-- The chunks from an address on, each with its header, in the order of the `next`
fields. -/
def chunks (m : Mem) : ℕ → ℕ → List (ℕ × Header)
  | 0, _ => []
  | fuel + 1, chunk =>
    if chunk = 0 then [] else (chunk, header m chunk) :: chunks m fuel (next m chunk)

/-- The chunk list that starts at `first`. -/
def chunkList (h : Heap) : List (ℕ × Header) := chunks h.mem (2 ^ 32) h.first

/-- `free` of several pointers, one after the other. -/
def freeAll (A : Arith) (h : Heap) (ps : List ℕ) : Option Heap :=
  ps.foldlM (fun h p => free A h p) h

end MemoryManager

open MemoryManager

section Chunks

variable {R : Region} {h h' : Heap} {bs : List Block} {m m' : Mem} {p fuel : ℕ}

/-- Two segments with the same blocks are walked alike. -/
theorem Segment.chunks_eq (hs : Segment m p bs 0) (hs' : Segment m' p bs 0)
    (hpos : ∀ b ∈ bs, b.addr ≠ 0) (hfuel : bs.length < fuel) :
    chunks m' fuel (headAddr 0 bs) = chunks m fuel (headAddr 0 bs) := by
  induction bs generalizing p fuel with
  | nil =>
    obtain ⟨fuel, rfl⟩ : ∃ k, fuel = k + 1 := ⟨fuel - 1, by simp only [List.length_nil] at hfuel; omega⟩
    rfl
  | cons b bs ih =>
    rw [List.length_cons] at hfuel
    rw [List.forall_mem_cons] at hpos
    obtain ⟨fuel, rfl⟩ : ∃ k, fuel = k + 1 := ⟨fuel - 1, by omega⟩
    obtain ⟨hb, hs⟩ := hs
    obtain ⟨hb', hs'⟩ := hs'
    have hnext : next m b.addr = headAddr 0 bs := congrArg Header.next hb
    have hnext' : next m' b.addr = headAddr 0 bs := congrArg Header.next hb'
    rw [headAddr_cons, chunks, chunks, if_neg hpos.1, if_neg hpos.1, hb, hb', hnext, hnext',
      ih hs hs' hpos.2 (by omega)]

/-- The blocks of a layout determine its chunk list. -/
theorem Layout.chunkList_eq (hl : Layout R h bs) (hl' : Layout R h' bs) :
    chunkList h' = chunkList h := by
  have hlen := hl.tiles.length_le
  have hstop := R.stop_le
  have hstart := R.start_pos
  unfold chunkList
  rw [hl.first, hl'.first, ← hl.headAddr_eq]
  apply hl.linked.chunks_eq hl'.linked
  · intro b hb
    exact (hl.bounds hb).1.ne'
  · omega

end Chunks

/-! ## Freeing in any order -/

section Order

variable {R : Region} {m : Mem} {s : Session} {bs : List Block} {ps qs : List ℕ}

/-- Freeing distinct live pointers gives back their blocks. -/
theorem HeapInvariant.freeAll (hi : HeapInvariant R s bs) (hnodup : ps.Nodup)
    (hlive : ∀ p ∈ ps, ∃ n, (p, n) ∈ s.live) :
    ∃ h, MemoryManager.freeAll .wrapping s.heap ps = some h ∧
      Layout R h (releaseAll 16 ps bs) := by
  induction ps generalizing s bs with
  | nil => exact ⟨s.heap, rfl, hi.layout⟩
  | cons p ps ih =>
    rw [List.nodup_cons] at hnodup
    obtain ⟨n, hp⟩ := hlive p List.mem_cons_self
    obtain ⟨b, hb, -, haddr, -⟩ := hi.exists_block hp
    have hlt := hi.live.lt _ hp
    obtain ⟨h₁, hfree, hl₁, -⟩ := free_spec Arith.exact_wrapping hi.layout hb (by omega)
    rw [haddr] at hfree hl₁
    have hi₁ : HeapInvariant R ⟨h₁, s.live.filter fun e => e.1 ≠ p⟩ (release 16 p bs) :=
      ⟨hl₁, hi.live.filter_release p⟩
    obtain ⟨h, hrest, hl⟩ := ih hi₁ hnodup.2 fun q hq => by
      obtain ⟨k, hk⟩ := hlive q (List.mem_cons_of_mem _ hq)
      have hne : q ≠ p := by
        rintro rfl
        exact hnodup.1 hq
      exact ⟨k, List.mem_filter.mpr ⟨hk, by simpa using hne⟩⟩
    refine ⟨h, ?_, hl⟩
    unfold MemoryManager.freeAll
    rw [List.foldlM_cons, hfree]
    exact hrest

/-- **Freeing is independent of the order and coalesces completely.**  On every
reachable heap, two orders of freeing the same live pointers leave the same chunk
list; freeing all of them leaves the one free chunk of the constructor. -/
theorem free_order_independent (hr : Session.Reachable R m s) (hperm : ps.Perm qs)
    (hnodup : ps.Nodup) (hlive : ∀ p ∈ ps, ∃ n, (p, n) ∈ s.live) :
    ∃ h h', MemoryManager.freeAll .wrapping s.heap ps = some h ∧
      MemoryManager.freeAll .wrapping s.heap qs = some h' ∧
      h.first = h'.first ∧ chunkList h = chunkList h' ∧
      ((∀ e ∈ s.live, e.1 ∈ ps) →
        chunkList h = [(R.start, ⟨0, 0, false, R.stop - R.start - 16⟩)] ∧
        chunkList h = chunkList (construct m R.start (R.stop - R.start))) := by
  obtain ⟨bs, hi⟩ := hr.invariant
  obtain ⟨h, hps, hl⟩ := hi.freeAll hnodup hlive
  obtain ⟨h', hqs, hl'⟩ := hi.freeAll (hperm.nodup_iff.mp hnodup) fun q hq =>
    hlive q (hperm.mem_iff.mpr hq)
  rw [← releaseAll_perm hi.layout.coalesced hperm] at hl'
  refine ⟨h, h', hps, hqs, hl.first.trans hl'.first.symm, hl'.chunkList_eq hl, ?_⟩
  intro hall
  have hroom := R.room
  have hone : releaseAll 16 ps bs = [⟨R.start, R.stop - R.start - 16, false⟩] := by
    apply releaseAll_all hi.layout.tiles hi.layout.coalesced (by omega)
    intro b hb hused
    obtain ⟨e, he, haddr⟩ := hi.live.live_of_block b hb hused
    rw [← haddr]
    exact hall e he
  rw [hone] at hl
  constructor
  · have hstart := R.start_pos
    obtain ⟨fuel, hfuel⟩ : ∃ k, 2 ^ 32 = k + 2 := ⟨2 ^ 32 - 2, by decide⟩
    have hheader : header h.mem R.start = ⟨0, 0, false, R.stop - R.start - 16⟩ := hl.linked.1
    have hnext : next h.mem R.start = 0 := congrArg Header.next hheader
    unfold chunkList
    rw [hl.first, hfuel, chunks, if_neg (by omega), hheader, hnext, chunks, if_pos rfl]
  · exact (layout_construct R m).chunkList_eq hl

/-- Two calls of `malloc(8)` on a zeroed small region. -/
theorem exists_reachable_two :
    ∃ s, Session.Reachable smallRegion (fun _ => 0) s ∧ s.live = [(0x128, 8), (0x110, 8)] := by
  have hp : ((MemoryManager.malloc .wrapping (Session.start smallRegion fun _ => 0).heap 8).bind
      fun r => (MemoryManager.malloc .wrapping r.2 8).map fun r' => (r.1, r'.1)) =
        some (0x110, 0x128) := by rfl
  obtain ⟨⟨p, h⟩, hcall, hp⟩ := Option.bind_eq_some_iff.mp hp
  obtain ⟨⟨p', h'⟩, hcall', heq⟩ := Option.map_eq_some_iff.mp hp
  cases heq
  exact ⟨_, ⟨[.malloc 8, .malloc 8],
    .cons (.malloc (by decide) hcall) (.single (.malloc (by decide) hcall'))⟩, rfl⟩

/-- Two blocks freed in both orders. -/
theorem free_order_independent_two :
    ∃ s : Session, s.live = [(0x128, 8), (0x110, 8)] ∧
      ∃ h h', MemoryManager.freeAll .wrapping s.heap [0x110, 0x128] = some h ∧
        MemoryManager.freeAll .wrapping s.heap [0x128, 0x110] = some h' ∧
        h.first = h'.first ∧ chunkList h = chunkList h' ∧
        ((∀ e ∈ s.live, e.1 ∈ [0x110, 0x128]) →
          chunkList h = [(0x100, ⟨0, 0, false, 0x200 - 0x100 - 16⟩)] ∧
          chunkList h = chunkList (construct (fun _ => 0) 0x100 (0x200 - 0x100))) := by
  obtain ⟨s, hr, hlive⟩ := exists_reachable_two
  refine ⟨s, hlive, free_order_independent hr (.swap 0x128 0x110 []) (by decide) ?_⟩
  intro p hp
  rw [hlive]
  exact ⟨8, by simpa [or_comm] using hp⟩

end Order
