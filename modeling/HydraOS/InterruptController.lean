/-
# Priority dispatch and the 8259 interrupt controller

A dispatcher that serves one request at a time, the first one in a fixed order, and the pair
of 8259 chips that is one: programmed by bytes, with the second chip on a line of the first.
-/
import Mathlib.Data.Finset.Card
import Mathlib.Data.Fintype.Basic
import Mathlib.Data.List.Nodup

/-! ## A dispatcher with priorities -/

section Dispatchers

variable {ι : Type*} [DecidableEq ι]

/-- The first element of a set in an order. -/
def firstIn (order : List ι) (s : Finset ι) : Option ι := order.find? fun i => i ∈ s

theorem firstIn_empty (order : List ι) : firstIn order ∅ = none :=
  List.find?_eq_none.mpr fun _ _ => by simp

/-- The first element is in the set, and no element of the set stands before it. -/
theorem firstIn_eq_some {order : List ι} {s : Finset ι} {i : ι} (h : firstIn order s = some i) :
    i ∈ s ∧ ∀ j ∈ s, order.idxOf i ≤ order.idxOf j := by
  induction order with
  | nil => cases h
  | cons a order ih =>
    rw [firstIn, List.find?_cons] at h
    by_cases ha : a ∈ s
    · rw [decide_eq_true ha] at h
      cases h
      exact ⟨ha, fun j _ => by rw [List.idxOf_cons_self]; exact Nat.zero_le _⟩
    · rw [decide_eq_false ha] at h
      obtain ⟨hi, hle⟩ := ih h
      have hne (j : ι) (hj : j ∈ s) : a ≠ j := fun heq => ha (heq ▸ hj)
      refine ⟨hi, fun j hj => ?_⟩
      rw [List.idxOf_cons_ne order (hne i hi), List.idxOf_cons_ne order (hne j hj)]
      exact Nat.succ_le_succ (hle j hj)

theorem firstIn_of_le {order : List ι} {s : Finset ι} {i : ι} (hmem : i ∈ order) (hi : i ∈ s)
    (hle : ∀ j ∈ s, order.idxOf i ≤ order.idxOf j) : firstIn order s = some i := by
  cases hfirst : firstIn order s with
  | none => exact absurd (List.find?_eq_none.mp hfirst i hmem) (by simpa using hi)
  | some j =>
    obtain ⟨hj, hle'⟩ := firstIn_eq_some hfirst
    have heq : order.idxOf j = order.idxOf i := le_antisymm (hle' i hi) (hle j hj)
    exact congrArg some ((List.idxOf_inj (List.mem_of_find?_eq_some hfirst)).mp heq)

/-- The requests that wait, the one in service, and those served, the latest first. -/
structure Dispatcher (ι : Type*) where
  pending : Finset ι
  serving : Option ι
  served : List ι

/-- What happens at a dispatcher. -/
inductive Dispatch (ι : Type*) where
  | raise (i : ι)
  | accept
  | complete
  deriving DecidableEq

namespace Dispatcher

/-- Nothing waits and nothing has been served. -/
def new : Dispatcher ι := ⟨∅, none, []⟩

/-- A request waits once however often it is raised, and the next one is taken only when the
last one is complete. -/
def step (order : List ι) (d : Dispatcher ι) : Dispatch ι → Dispatcher ι
  | .raise i => { d with pending := insert i d.pending }
  | .accept =>
    match d.serving, firstIn order d.pending with
    | none, some i => { d with pending := d.pending.erase i, serving := some i }
    | _, _ => d
  | .complete =>
    match d.serving with
    | some i => ⟨d.pending, none, i :: d.served⟩
    | none => d

/-- The requests that wait, in the order in which they will be served. -/
def queue (order : List ι) (d : Dispatcher ι) : List ι := order.filter fun i => i ∈ d.pending

variable {order : List ι} {d : Dispatcher ι} {i : ι}

theorem firstIn_pending : firstIn order d.pending = (d.queue order).head? :=
  (List.head?_filter ..).symm

/-- The first request leaves the queue. -/
theorem queue_erase (hnodup : order.Nodup) {rest : List ι} (hqueue : d.queue order = i :: rest)
    (serving : Option ι) (served : List ι) :
    queue order ⟨d.pending.erase i, serving, served⟩ = rest := by
  have hnodup' := hnodup.filter fun j => decide (j ∈ d.pending)
  have herase : queue order ⟨d.pending.erase i, serving, served⟩ =
      (d.queue order).filter fun j => j ≠ i := by
    rw [queue, queue, List.filter_filter]
    refine List.filter_congr fun j _ => ?_
    rw [← Bool.decide_and]
    exact decide_eq_decide.mpr (Finset.mem_erase)
  rw [← queue, hqueue, List.nodup_cons] at hnodup'
  rw [herase, hqueue, List.filter_cons_of_neg (by simp), List.filter_eq_self]
  intro j hj
  rw [decide_eq_true_eq]
  rintro rfl
  exact hnodup'.1 hj

/-- One round of an idle dispatcher serves the first request of the queue. -/
theorem round_step (hidle : d.serving = none) {rest : List ι} (hqueue : d.queue order = i :: rest) :
    (d.step order .accept).step order .complete = ⟨d.pending.erase i, none, i :: d.served⟩ := by
  have hfirst : firstIn order d.pending = some i := by
    rw [firstIn_pending, hqueue, List.head?_cons]
  simp only [step, hidle, hfirst]

/-- So many rounds. -/
def rounds : ℕ → List (Dispatch ι)
  | 0 => []
  | n + 1 => .accept :: .complete :: rounds n

/-- **The waiting requests are served in order**, each one once, by as many rounds as there are
requests. -/
theorem foldl_rounds (hnodup : order.Nodup) (hall : ∀ i, i ∈ order) (hidle : d.serving = none) :
    (rounds (d.queue order).length).foldl (step order) d =
      ⟨∅, none, (d.queue order).reverse ++ d.served⟩ := by
  generalize hn : (d.queue order).length = n
  induction n generalizing d with
  | zero =>
    have hempty := List.length_eq_zero_iff.mp hn
    have hpending : d.pending = ∅ := by
      rw [Finset.eq_empty_iff_forall_notMem]
      intro i hi
      have hmem : i ∈ d.queue order := List.mem_filter.mpr ⟨hall i, decide_eq_true hi⟩
      rw [hempty] at hmem
      exact List.not_mem_nil hmem
    rw [hempty]
    cases d
    cases hidle
    cases hpending
    rfl
  | succ n ih =>
    obtain ⟨i, rest, hqueue⟩ := List.exists_cons_of_length_eq_add_one hn
    have hrest := queue_erase hnodup hqueue none (i :: d.served)
    have hlen : rest.length = n := by
      rw [hqueue, List.length_cons] at hn
      omega
    rw [rounds, List.foldl_cons, List.foldl_cons, round_step hidle hqueue,
      ih rfl (by rw [hrest, hlen]), hrest, hqueue, List.reverse_cons, List.append_assoc]
    rfl

/-- How often a request was raised while it waited already. -/
def merged (order : List ι) (i : ι) : Dispatcher ι → List (Dispatch ι) → ℕ
  | _, [] => 0
  | d, e :: es =>
    (if e = .raise i ∧ i ∈ d.pending then 1 else 0) + merged order i (d.step order e) es

/-- How often a request has been served, is in service or waits. -/
def account (i : ι) (d : Dispatcher ι) : ℕ :=
  (d.serving.toList ++ d.served).count i + if i ∈ d.pending then 1 else 0

theorem account_step (i : ι) (d : Dispatcher ι) (e : Dispatch ι) :
    account i (d.step order e) + (if e = .raise i ∧ i ∈ d.pending then 1 else 0) =
      account i d + if e = .raise i then 1 else 0 := by
  cases e with
  | raise j =>
    simp only [account, step, Finset.mem_insert, Dispatch.raise.injEq]
    by_cases hji : j = i
    · by_cases hi : i ∈ d.pending
      · simp [hji, hi]
      · simp [hji, hi]
    · have hij : ¬ i = j := fun h => hji h.symm
      simp [hji, hij]
  | accept =>
    rw [step]
    split
    · next j hserving hfirst =>
      have hj : j ∈ d.pending := by simpa using List.find?_some hfirst
      simp only [account, hserving, Finset.mem_erase]
      by_cases hji : j = i
      · subst hji
        simp [hj]
      · have hij : ¬ i = j := fun h => hji h.symm
        simp [hji, hij]
    · simp
  | complete =>
    rw [step]
    split
    · next j hserving => simp [account, hserving]
    · simp

/-- **No request is lost or served twice**: every request that was raised has been served, is in
service or waits, unless it was raised while it waited already. -/
theorem account_foldl (i : ι) (d : Dispatcher ι) (es : List (Dispatch ι)) :
    account i (es.foldl (step order) d) + merged order i d es =
      account i d + es.count (.raise i) := by
  induction es generalizing d with
  | nil => rfl
  | cons e es ih =>
    have hfirst := @account_step _ _ order i d e
    have hrest := ih (d.step order e)
    rw [List.foldl_cons, merged, List.count_cons]
    simp only [beq_iff_eq]
    omega

end Dispatcher

end Dispatchers

/-! ## One chip -/

/-- What a byte at the data port is taken for. -/
inductive PicPhase where
  | icw2
  | icw3
  | icw4
  | operation
  deriving DecidableEq

/-- An 8259 with the fully nested priorities. -/
structure Pic where
  phase : PicPhase
  /-- The first command word: is the chip one of several, and does a fourth word follow? -/
  cascaded : Bool
  fourWords : Bool
  base : UInt8
  icw3 : UInt8
  icw4 : UInt8
  mask : Finset (Fin 8)
  requested : Finset (Fin 8)
  inService : Finset (Fin 8)

/-- The lines whose bits are set in a byte. -/
def linesOf (b : UInt8) : Finset (Fin 8) := Finset.univ.filter fun i => b.toNat.testBit i

namespace Pic

/-- The most urgent of some lines: the one with the lowest number. -/
def highest (s : Finset (Fin 8)) : Option (Fin 8) := firstIn (List.finRange 8) s

/-- The end of the most urgent interrupt in service. -/
def endOfInterrupt (p : Pic) : Pic :=
  match highest p.inService with
  | some i => { p with inService := p.inService.erase i }
  | none => p

/-- A byte at the command port.  The command words that rotate priorities are left out. -/
def command (b : UInt8) (p : Pic) : Pic :=
  if b &&& 0x10 ≠ 0 then
    { p with
      phase := .icw2
      cascaded := b &&& 2 = 0
      fourWords := b &&& 1 ≠ 0
      icw4 := 0
      mask := ∅
      requested := ∅ }
  else if b &&& 0x08 ≠ 0 then p
  else if b &&& 0xE0 = 0x20 then p.endOfInterrupt
  else if b &&& 0xE0 = 0x60 then
    { p with inService := p.inService.filter fun i => i.val ≠ (b &&& 7).toNat }
  else p

/-- A byte at the data port. -/
def data (b : UInt8) (p : Pic) : Pic :=
  let afterIcw3 : PicPhase := if p.fourWords then .icw4 else .operation
  match p.phase with
  | .icw2 => { p with base := b &&& 0xF8, phase := if p.cascaded then .icw3 else afterIcw3 }
  | .icw3 => { p with icw3 := b, phase := afterIcw3 }
  | .icw4 => { p with icw4 := b, phase := .operation }
  | .operation => { p with mask := linesOf b }

/-- A line goes up. -/
def raise (i : Fin 8) (p : Pic) : Pic := { p with requested := insert i p.requested }

/-- The line that the chip asks the processor to serve, with the lines `also` up too: the most
urgent one, if it is more urgent than all that is in service. -/
def asks (p : Pic) (also : Finset (Fin 8)) : Option (Fin 8) :=
  if p.phase = .operation then
    match highest ((p.requested ∪ also) \ p.mask) with
    | some i => if ∀ j ∈ p.inService, i < j then some i else none
    | none => none
  else none

/-- The processor takes a line.  With the automatic end of interrupts it is not in service. -/
def take (i : Fin 8) (p : Pic) : Pic :=
  { p with
    requested := p.requested.erase i
    inService := if p.icw4 &&& 2 = 0 then insert i p.inService else p.inService }

end Pic

/-! ## Two chips -/

/-- Two chips; the second one asks through line 2 of the first. -/
structure PicPair where
  master : Pic
  slave : Pic

namespace PicPair

/-- Line 2 of the first chip is up as long as the second chip asks. -/
def cascade (b : PicPair) : Finset (Fin 8) := if (b.slave.asks ∅).isSome then {2} else ∅

/-- **The processor takes an interrupt**: the vector, and the chips after it.  A line of the
first chip with a chip on it is answered by the chip whose number that is. -/
def acknowledge (b : PicPair) : Option (UInt8 × PicPair) :=
  match b.master.asks b.cascade with
  | none => none
  | some i =>
    if b.master.icw4 &&& 1 = 0 then none
    else if i ∉ linesOf b.master.icw3 then
      some (b.master.base + .ofNat i, { b with master := b.master.take i })
    else if b.slave.icw3 ≠ .ofNat i then none
    else
      match b.slave.asks ∅ with
      | some j => some (b.slave.base + .ofNat j, ⟨b.master.take i, b.slave.take j⟩)
      | none => some (b.slave.base + 7, { b with master := b.master.take i })

/-- A byte at a port. -/
def write (b : PicPair) (w : UInt16 × UInt8) : PicPair :=
  if w.1 = 0x20 then { b with master := b.master.command w.2 }
  else if w.1 = 0x21 then { b with master := b.master.data w.2 }
  else if w.1 = 0xA0 then { b with slave := b.slave.command w.2 }
  else if w.1 = 0xA1 then { b with slave := b.slave.data w.2 }
  else b

/-- The ports of the chips. -/
def ports : List UInt16 := [0x20, 0x21, 0xA0, 0xA1]

/-- Bytes to other ports. -/
theorem foldl_write_of_other {b : PicPair} {ws : List (UInt16 × UInt8)}
    (h : ∀ w ∈ ws, w.1 ∉ ports) : ws.foldl write b = b := by
  induction ws with
  | nil => rfl
  | cons w ws ih =>
    rw [List.forall_mem_cons] at h
    obtain ⟨h1, h2, h3, h4⟩ : w.1 ≠ 0x20 ∧ w.1 ≠ 0x21 ∧ w.1 ≠ 0xA0 ∧ w.1 ≠ 0xA1 := by
      simpa [ports] using h.1
    rw [List.foldl_cons, write, if_neg h1, if_neg h2, if_neg h3, if_neg h4, ih h.2]

end PicPair

/-! ## The lines of two chips -/

/-- A line of the two chips, but for the one between them. -/
def Irq := { i : Fin 16 // i ≠ 2 }
  deriving DecidableEq, Fintype

namespace Irq

/-- The lines in the order of their urgency. -/
def order : List Irq :=
  [⟨0, by decide⟩, ⟨1, by decide⟩, ⟨8, by decide⟩, ⟨9, by decide⟩, ⟨10, by decide⟩,
    ⟨11, by decide⟩, ⟨12, by decide⟩, ⟨13, by decide⟩, ⟨14, by decide⟩, ⟨15, by decide⟩,
    ⟨3, by decide⟩, ⟨4, by decide⟩, ⟨5, by decide⟩, ⟨6, by decide⟩, ⟨7, by decide⟩]

theorem nodup_order : order.Nodup := by decide

theorem mem_order (i : Irq) : i ∈ order := by
  revert i
  decide

/-- The line of the first or of the second chip. -/
def pin (i : Irq) : Fin 8 ⊕ Fin 8 :=
  if i.val.val < 8 then .inl (.ofNat 8 i.val.val) else .inr (.ofNat 8 (i.val.val - 8))

theorem pin_injective : Function.Injective pin := by decide

/-- Line 2 of the first chip is no line of its own. -/
theorem pin_ne (i : Irq) : i.pin ≠ .inl 2 := by
  revert i
  decide

end Irq

namespace Pic

variable {p : Pic} {s : Finset (Fin 8)} {i : Fin 8}

theorem highest_eq_some (h : highest s = some i) : i ∈ s ∧ ∀ j ∈ s, i ≤ j := by
  obtain ⟨hi, hle⟩ := firstIn_eq_some h
  exact ⟨hi, fun j hj => by simpa using hle j hj⟩

theorem highest_of_le (hi : i ∈ s) (hle : ∀ j ∈ s, i ≤ j) : highest s = some i :=
  firstIn_of_le (List.mem_finRange i) hi fun j hj => by simpa using hle j hj

end Pic

namespace PicPair

/-- A line goes up. -/
def raise (i : Irq) (b : PicPair) : PicPair :=
  match i.pin with
  | .inl p => { b with master := b.master.raise p }
  | .inr p => { b with slave := b.slave.raise p }

/-- Is there a request on a line of a chip? -/
def requests (b : PicPair) : Fin 8 ⊕ Fin 8 → Bool
  | .inl p => p ∈ b.master.requested
  | .inr p => p ∈ b.slave.requested

/-- The lines of one chip that belong to some lines. -/
def lines (chip : Fin 8 → Fin 8 ⊕ Fin 8) (s : Finset Irq) : Finset (Fin 8) :=
  Finset.univ.filter fun p => ∃ i ∈ s, i.pin = chip p

/-- **Two chips that do the work of a dispatcher**: sixteen vectors from `base` on, no line masked,
and an explicit end of each interrupt. -/
def ofDispatcher (base : UInt8) (d : Dispatcher Irq) : PicPair where
  master := ⟨.operation, true, true, base, 4, 1, ∅, lines .inl d.pending,
    match d.serving.map Irq.pin with
    | none => ∅
    | some (.inl p) => {p}
    | some (.inr _) => {2}⟩
  slave := ⟨.operation, true, true, base + 8, 2, 1, ∅, lines .inr d.pending,
    match d.serving.map Irq.pin with
    | some (.inr p) => {p}
    | _ => ∅⟩

variable {base : UInt8} {d : Dispatcher Irq} {s : Finset Irq} {i : Irq}

theorem mem_lines {chip : Fin 8 → Fin 8 ⊕ Fin 8} {p : Fin 8} :
    p ∈ lines chip s ↔ ∃ i ∈ s, i.pin = chip p := by
  rw [lines, Finset.mem_filter, and_iff_right (Finset.mem_univ p)]

theorem lines_insert {chip : Fin 8 → Fin 8 ⊕ Fin 8} (hchip : Function.Injective chip) {p : Fin 8}
    (hi : i.pin = chip p) : lines chip (insert i s) = insert p (lines chip s) := by
  ext q
  simp only [mem_lines, Finset.mem_insert, exists_eq_or_imp, hi, hchip.eq_iff,
    @eq_comm (Fin 8) p q]

theorem lines_insert_of_ne {chip : Fin 8 → Fin 8 ⊕ Fin 8} (hi : ∀ p, i.pin ≠ chip p) :
    lines chip (insert i s) = lines chip s := by
  ext q
  simp only [mem_lines, Finset.mem_insert, exists_eq_or_imp, hi q, false_or]

theorem lines_erase {chip : Fin 8 → Fin 8 ⊕ Fin 8} (hchip : Function.Injective chip) {p : Fin 8}
    (hi : i.pin = chip p) : lines chip (s.erase i) = (lines chip s).erase p := by
  ext q
  simp only [mem_lines, Finset.mem_erase]
  constructor
  · rintro ⟨j, ⟨hji, hj⟩, hq⟩
    refine ⟨?_, j, hj, hq⟩
    rintro rfl
    exact hji (Irq.pin_injective (hq.trans hi.symm))
  · rintro ⟨hqp, j, hj, hq⟩
    refine ⟨j, ⟨?_, hj⟩, hq⟩
    rintro rfl
    exact hqp (hchip (hq.symm.trans hi))

theorem lines_erase_of_ne {chip : Fin 8 → Fin 8 ⊕ Fin 8} (hi : ∀ p, i.pin ≠ chip p) :
    lines chip (s.erase i) = lines chip s := by
  ext q
  simp only [mem_lines, Finset.mem_erase]
  constructor
  · rintro ⟨j, ⟨-, hj⟩, hq⟩
    exact ⟨j, hj, hq⟩
  · rintro ⟨j, hj, hq⟩
    refine ⟨j, ⟨?_, hj⟩, hq⟩
    rintro rfl
    exact hi q hq

/-- A line that goes up is one more request. -/
theorem raise_ofDispatcher :
    raise i (ofDispatcher base d) = ofDispatcher base (d.step Irq.order (.raise i)) := by
  rw [raise]
  split
  · next p hp =>
    simp only [ofDispatcher, Dispatcher.step, Pic.raise, lines_insert Sum.inl_injective hp]
    rw [lines_insert_of_ne fun q => by rw [hp]; exact Sum.inl_ne_inr]
  · next p hp =>
    simp only [ofDispatcher, Dispatcher.step, Pic.raise, lines_insert Sum.inr_injective hp]
    rw [lines_insert_of_ne fun q => by rw [hp]; exact Sum.inr_ne_inl]

/-- A chip with nothing in service asks for its most urgent line. -/
theorem asks_of_idle {p : Pic} {also : Finset (Fin 8)} (hphase : p.phase = .operation)
    (hmask : p.mask = ∅) (hidle : p.inService = ∅) :
    p.asks also = Pic.highest (p.requested ∪ also) := by
  rw [Pic.asks, if_pos hphase, hmask, hidle, Finset.sdiff_empty]
  split
  · next i hi => rw [hi, if_pos fun j hj => absurd hj (Finset.notMem_empty j)]
  · next hi => exact hi.symm

/-- The urgency of a line of a chip. -/
def urgency : Fin 8 ⊕ Fin 8 → ℕ
  | .inl p => if p < 2 then p else p + 7
  | .inr p => p + 2

theorem urgency_pin (i : Irq) :
    urgency i.pin = Irq.order.idxOf i := by
  revert i
  decide

theorem le_of_urgency_inl {p q : Fin 8} (h : urgency (.inl p) ≤ urgency (.inl q)) : p ≤ q := by
  revert p q
  decide

theorem le_of_urgency_inr {p q : Fin 8} (h : urgency (.inr p) ≤ urgency (.inr q)) : p ≤ q := by
  revert p q
  decide

theorem le_two_of_urgency {p q : Fin 8} (h : urgency (.inl p) ≤ urgency (.inr q)) : p ≤ 2 := by
  revert p q
  decide

theorem two_le_of_urgency {p q : Fin 8} (h : urgency (.inr p) ≤ urgency (.inl q)) : 2 ≤ q := by
  revert p q
  decide

theorem urgency_le (hfirst : firstIn Irq.order s = some i) {j : Irq} (hj : j ∈ s) :
    urgency i.pin ≤ urgency j.pin := by
  rw [urgency_pin, urgency_pin]
  exact (firstIn_eq_some hfirst).2 j hj

/-- The number of a line. -/
theorem base_add_pin (base : UInt8) (i : Irq) :
    base + .ofNat i.val.val =
      match i.pin with
      | .inl p => base + .ofNat p.val
      | .inr p => base + 8 + .ofNat p.val := by
  have hnum : (UInt8.ofNat i.val.val) =
      match i.pin with
      | .inl p => .ofNat p.val
      | .inr p => 8 + .ofNat p.val := by
    revert i
    decide
  rw [hnum]
  split
  · rfl
  · exact (UInt8.add_assoc ..).symm

section Idle

variable (hidle : d.serving = none)
include hidle

theorem master_asks : (ofDispatcher base d).master.asks (ofDispatcher base d).cascade =
    Pic.highest (lines .inl d.pending ∪ (ofDispatcher base d).cascade) :=
  asks_of_idle rfl rfl (by simp only [ofDispatcher, hidle, Option.map_none])

theorem slave_asks :
    (ofDispatcher base d).slave.asks ∅ = Pic.highest (lines .inr d.pending) := by
  rw [asks_of_idle rfl rfl (by simp only [ofDispatcher, hidle, Option.map_none]),
    Finset.union_empty]
  rfl

/-- Line 2 of the first chip is up for a request at the second chip. -/
theorem mem_cascade {q : Fin 8} (hq : q ∈ (ofDispatcher base d).cascade) :
    q = 2 ∧ ∃ p, ∃ j ∈ d.pending, j.pin = .inr p := by
  rw [cascade, slave_asks hidle] at hq
  split at hq
  · next hsome =>
    obtain ⟨p, hp⟩ := Option.isSome_iff_exists.mp hsome
    exact ⟨Finset.mem_singleton.mp hq, p, mem_lines.mp (Pic.highest_eq_some hp).1⟩
  · exact absurd hq (Finset.notMem_empty q)

theorem acknowledge_of_empty (hempty : d.pending = ∅) :
    (ofDispatcher base d).acknowledge = none := by
  have hlines (chip : Fin 8 → Fin 8 ⊕ Fin 8) : lines chip d.pending = ∅ := by
    rw [hempty, Finset.eq_empty_iff_forall_notMem]
    intro p hp
    obtain ⟨i, hi, -⟩ := mem_lines.mp hp
    exact absurd hi (Finset.notMem_empty i)
  have hslave := @slave_asks base d hidle
  rw [hlines, Pic.highest, firstIn_empty] at hslave
  have hmaster : (ofDispatcher base d).master.asks (ofDispatcher base d).cascade = none := by
    rw [master_asks hidle, cascade, hslave, hlines]
    rfl
  rw [acknowledge, hmaster]

/-- A request at the first chip is more urgent than its line 2 only if no request at the second
chip is more urgent. -/
theorem acknowledge_of_inl (hfirst : firstIn Irq.order d.pending = some i) {p : Fin 8}
    (hpin : i.pin = .inl p) :
    (ofDispatcher base d).acknowledge = some (base + .ofNat p.val,
      ofDispatcher base { d with pending := d.pending.erase i, serving := some i }) := by
  have hp2 : p ≠ 2 := fun h => i.pin_ne (h ▸ hpin)
  have hasks : (ofDispatcher base d).master.asks (ofDispatcher base d).cascade = some p := by
    rw [master_asks hidle]
    refine Pic.highest_of_le (Finset.mem_union_left _
      (mem_lines.mpr ⟨i, (firstIn_eq_some hfirst).1, hpin⟩)) fun q hq => ?_
    rcases Finset.mem_union.mp hq with hq | hq
    · obtain ⟨j, hj, hjpin⟩ := mem_lines.mp hq
      exact le_of_urgency_inl (hpin ▸ hjpin ▸ urgency_le hfirst hj)
    · obtain ⟨rfl, r, j, hj, hjpin⟩ := mem_cascade hidle hq
      exact le_two_of_urgency (hpin ▸ hjpin ▸ urgency_le hfirst hj)
  have hline : p ∉ linesOf 4 := by
    clear hasks hpin
    revert p
    decide
  rw [acknowledge, hasks]
  simp only [ofDispatcher, hidle, Option.map_none, Option.map_some, hpin, Pic.take,
    lines_erase Sum.inl_injective hpin]
  rw [if_neg (by decide), if_pos hline, if_pos (by decide),
    lines_erase_of_ne fun q => by rw [hpin]; exact Sum.inl_ne_inr]
  rfl

/-- A request at the second chip comes through line 2 of the first chip. -/
theorem acknowledge_of_inr (hfirst : firstIn Irq.order d.pending = some i) {p : Fin 8}
    (hpin : i.pin = .inr p) :
    (ofDispatcher base d).acknowledge = some (base + 8 + .ofNat p.val,
      ofDispatcher base { d with pending := d.pending.erase i, serving := some i }) := by
  have hslave : (ofDispatcher base d).slave.asks ∅ = some p := by
    rw [slave_asks hidle]
    refine Pic.highest_of_le (mem_lines.mpr ⟨i, (firstIn_eq_some hfirst).1, hpin⟩) fun q hq => ?_
    obtain ⟨j, hj, hjpin⟩ := mem_lines.mp hq
    exact le_of_urgency_inr (hpin ▸ hjpin ▸ urgency_le hfirst hj)
  have hcascade : (ofDispatcher base d).cascade = {2} := by
    rw [cascade, hslave]
    rfl
  have hasks : (ofDispatcher base d).master.asks (ofDispatcher base d).cascade = some 2 := by
    rw [master_asks hidle, hcascade]
    refine Pic.highest_of_le (Finset.mem_union_right _ (Finset.mem_singleton_self 2))
      fun q hq => ?_
    rcases Finset.mem_union.mp hq with hq | hq
    · obtain ⟨j, hj, hjpin⟩ := mem_lines.mp hq
      exact two_le_of_urgency (hpin ▸ hjpin ▸ urgency_le hfirst hj)
    · exact (Finset.mem_singleton.mp hq).ge
  have hno : 2 ∉ lines .inl d.pending := by
    intro h
    obtain ⟨j, -, hj⟩ := mem_lines.mp h
    exact j.pin_ne hj
  rw [acknowledge, hasks, hslave]
  simp only [ofDispatcher, hidle, Option.map_none, Option.map_some, hpin, Pic.take,
    lines_erase Sum.inr_injective hpin]
  rw [if_neg (by decide), if_neg (by decide), if_neg (by decide), if_pos (by decide),
    if_pos (by decide), Finset.erase_eq_of_notMem hno,
    lines_erase_of_ne fun q => by rw [hpin]; exact Sum.inr_ne_inl]
  rfl

/-- **The chips acknowledge the most urgent request**, with the vector of its line. -/
theorem acknowledge_ofDispatcher :
    (ofDispatcher base d).acknowledge = (firstIn Irq.order d.pending).map fun i =>
      (base + .ofNat i.val.val, ofDispatcher base (d.step Irq.order .accept)) := by
  cases hfirst : firstIn Irq.order d.pending with
  | none =>
    refine acknowledge_of_empty hidle (Finset.eq_empty_iff_forall_notMem.mpr fun i hi => ?_)
    exact absurd (List.find?_eq_none.mp hfirst i (Irq.mem_order i)) (by simpa using hi)
  | some i =>
    have hstep : d.step Irq.order .accept =
        { d with pending := d.pending.erase i, serving := some i } := by
      simp only [Dispatcher.step, hidle, hfirst]
    rw [Option.map_some, hstep, base_add_pin]
    cases hpin : i.pin with
    | inl p => exact acknowledge_of_inl hidle hfirst hpin
    | inr p => exact acknowledge_of_inr hidle hfirst hpin

end Idle

/-- The end of an interrupt: a byte to the first chip, and one to the second chip for its lines. -/
def completion (i : Irq) : List (UInt16 × UInt8) :=
  (0x20, 0x20) :: if 8 ≤ i.val.val then [(0xA0, 0x20)] else []

theorem foldl_completion (hserving : d.serving = some i) :
    (completion i).foldl write (ofDispatcher base d) =
      ofDispatcher base (d.step Irq.order .complete) := by
  have hside : (match i.pin with | .inl _ => false | .inr _ => true) = decide (8 ≤ i.val.val) := by
    clear hserving
    revert i
    decide
  have hend (p : Fin 8) : Pic.highest {p} = some p :=
    Pic.highest_of_le (Finset.mem_singleton_self p) fun q hq => (Finset.mem_singleton.mp hq).ge
  have hcommand : Pic.command 0x20 = Pic.endOfInterrupt := rfl
  have hstep : d.step Irq.order .complete = ⟨d.pending, none, i :: d.served⟩ := by
    simp only [Dispatcher.step, hserving]
  rw [completion, hstep]
  cases hpin : i.pin with
  | inl p =>
    rw [hpin] at hside
    rw [if_neg (of_decide_eq_false hside.symm), List.foldl_cons, List.foldl_nil, write, if_pos rfl,
      hcommand, Pic.endOfInterrupt]
    simp only [ofDispatcher, hserving, Option.map_some, Option.map_none, hpin, hend,
      Finset.erase_singleton]
  | inr p =>
    rw [hpin] at hside
    rw [if_pos (of_decide_eq_true hside.symm), List.foldl_cons, List.foldl_cons, List.foldl_nil,
      write, write, if_pos rfl, if_neg (by simp), if_neg (by simp), if_pos rfl, hcommand,
      Pic.endOfInterrupt, Pic.endOfInterrupt]
    simp only [ofDispatcher, hserving, Option.map_some, Option.map_none, hpin, hend,
      Finset.erase_singleton]

/-- The bytes that program both chips for sixteen vectors from `base` on. -/
def initialization (base : UInt8) : List (UInt16 × UInt8) :=
  [(0x20, 0x11), (0xA0, 0x11), (0x21, base), (0xA1, base + 8), (0x21, 0x04), (0xA1, 0x02),
    (0x21, 0x01), (0xA1, 0x01), (0x21, 0x00), (0xA1, 0x00)]

theorem initialized (p : Pic) (base icw3 : UInt8) :
    ((((p.command 0x11).data base).data icw3).data 0x01).data 0x00 =
      ⟨.operation, true, true, base &&& 0xF8, icw3, 1, linesOf 0, ∅, p.inService⟩ := rfl

/-- **The chips are programmed from any state** in which nothing is in service, also when one of
them waits for the rest of another initialization. -/
theorem foldl_initialization {b : PicPair} (hmaster : b.master.inService = ∅)
    (hslave : b.slave.inService = ∅) (hbase : base &&& 0x07 = 0) :
    (initialization base).foldl write b = ofDispatcher base .new := by
  have hmask : base &&& 0xF8 = base ∧ (base + 8) &&& 0xF8 = base + 8 := by
    have hword (base : BitVec 8) (h : base &&& 7 = 0) :
        base &&& 0xF8 = base ∧ (base + 8) &&& 0xF8 = base + 8 := by
      revert base
      decide
    obtain ⟨h1, h2⟩ := hword base.toBitVec (congrArg UInt8.toBitVec hbase)
    exact ⟨UInt8.toBitVec_inj.mp h1, UInt8.toBitVec_inj.mp h2⟩
  have hnone : linesOf 0 = ∅ := by decide
  have hlines (chip : Fin 8 → Fin 8 ⊕ Fin 8) : lines chip ∅ = ∅ := by
    rw [Finset.eq_empty_iff_forall_notMem]
    intro p hp
    obtain ⟨i, hi, -⟩ := mem_lines.mp hp
    exact absurd hi (Finset.notMem_empty i)
  have hchips : (initialization base).foldl write b =
      ⟨((((b.master.command 0x11).data base).data 0x04).data 0x01).data 0x00,
        ((((b.slave.command 0x11).data (base + 8)).data 0x02).data 0x01).data 0x00⟩ := rfl
  rw [hchips, initialized, initialized, hmask.1, hmask.2, hmaster, hslave, hnone]
  simp only [ofDispatcher, Dispatcher.new, hlines, Option.map_none]

end PicPair
