/-
# The last permitted poll of the disk driver

The driver polls the status of the drive with a countdown, and takes a countdown of zero for
a timeout.  The countdown is zero as well when the last permitted read has found what the
driver was waiting for.  The driver decides rightly, on every drive, if and only if this does
not happen.
-/
import HydraOS.AtaTransfers

namespace Ata

section Polls

variable {δ : Type} (a : Ata) (D : Device δ)

/-- The number of port operations between two states of a bus. -/
def operations (b b' : Bus δ) : ℕ := b'.trace.length - b.trace.length

/-! ## `WaitReady` -/

/-- One of the first `n` statuses is not busy, and the first such has no error and no fault. -/
def FoundReady (n : ℕ) (b : Bus δ) : Prop :=
  ∃ k < n, (∀ j < k, busy (a.status D j b) = true) ∧ busy (a.status D k b) = false ∧
    err (a.status D k b) = false ∧ fault (a.status D k b) = false

/-- `WaitReady` answers what the statuses say that it has read. -/
def DecidesReady (b : Bus δ) : Prop :=
  (a.waitReady D b).1 = true ↔ a.FoundReady D (operations b (a.waitReady D b).2) b

/-- The drive gets ready at the last permitted read. -/
def LateReady (b : Bus δ) : Prop :=
  (∀ j < 100000, busy (a.status D j b) = true) ∧ busy (a.status D 100000 b) = false ∧
    err (a.status D 100000 b) = false ∧ fault (a.status D 100000 b) = false

variable {a D} {b : Bus δ}

theorem operations_reads (p : UInt16) (n : ℕ) : operations b (b.reads D p n) = n := by
  rw [operations, Bus.length_trace_reads]
  omega

/-- `WaitReady` only reads the status, a bounded number of times. -/
theorem waitReady_bounded (a : Ata) (D : Device δ) (b : Bus δ) :
    let n := operations b (a.waitReady D b).2
    (a.waitReady D b).2 = b.reads D (a.port .command) n ∧ 1 ≤ n ∧ n ≤ 100001 := by
  obtain ⟨n, hle, -, -, hreads, -⟩ := waitReady_poll a D b
  rw [hreads, operations_reads]
  exact ⟨rfl, by omega, by omega⟩

/-- **When `WaitReady` is right.** -/
theorem decidesReady_iff : a.DecidesReady D b ↔ ¬ a.LateReady D b := by
  obtain ⟨n, hle, hbusy, hidle, hreads, hok⟩ := waitReady_poll a D b
  rw [DecidesReady, hreads, operations_reads, hok]
  -- only the last status read can be the first that is not busy
  have hfound : a.FoundReady D (n + 1) b ↔ busy (a.status D n b) = false ∧
      err (a.status D n b) = false ∧ fault (a.status D n b) = false := by
    constructor
    · rintro ⟨k, hk, -, hlast⟩
      have hkn : k = n := by
        by_contra hne
        have hbusy' := hbusy k (by omega)
        rw [hlast.1] at hbusy'
        cases hbusy'
      rwa [hkn] at hlast
    · intro hlast
      exact ⟨n, Nat.lt_succ_self n, hbusy, hlast⟩
  rw [hfound]
  by_cases hn : n < 100000
  · have hnotLate : ¬ a.LateReady D b := by
      rintro ⟨hall, -⟩
      have hbusy' := hall n hn
      rw [hidle hn] at hbusy'
      cases hbusy'
    refine iff_of_true ?_ hnotLate
    constructor
    · rintro ⟨-, hlast⟩
      exact ⟨hidle hn, hlast⟩
    · rintro ⟨-, hlast⟩
      exact ⟨hn, hlast⟩
  · obtain rfl : n = 100000 := by omega
    constructor
    · rintro hiff ⟨-, hlate⟩
      exact hn (hiff.mpr hlate).1
    · intro hnotLate
      constructor
      · rintro ⟨hlt, -⟩
        exact absurd hlt hn
      · intro hlast
        exact absurd ⟨hbusy, hlast⟩ hnotLate

/-! ## The waits for data -/

variable (a D)

/-- The wait gives up only if no status that it has read requests data. -/
def GivesUpRightly (b : Bus δ) : Prop :=
  (a.waitData D b).1 = false →
    ∀ j < operations b (a.waitData D b).2, requests (a.status D j b) = false

/-- The drive requests data at the last permitted read. -/
def LateRequest (b : Bus δ) : Prop :=
  (∀ j < 100000, requests (a.status D j b) = false) ∧ requests (a.status D 100000 b) = true

variable {a D}

theorem waitData_bounded (a : Ata) (D : Device δ) (b : Bus δ) :
    let n := operations b (a.waitData D b).2
    (a.waitData D b).2 = b.reads D (a.port .command) n ∧ 1 ≤ n ∧ n ≤ 100001 := by
  obtain ⟨n, hle, -, -, hreads, -⟩ := waitData_poll a D b
  rw [hreads, operations_reads]
  exact ⟨rfl, by omega, by omega⟩

/-- **When the wait for data is right.** -/
theorem givesUpRightly_iff : a.GivesUpRightly D b ↔ ¬ a.LateRequest D b := by
  obtain ⟨n, hle, hno, hyes, hreads, hok⟩ := waitData_poll a D b
  rw [GivesUpRightly, hreads, operations_reads, ← Bool.not_eq_true, hok]
  by_cases hn : n < 100000
  · have hnotLate : ¬ a.LateRequest D b := by
      rintro ⟨hall, -⟩
      have hno' := hall n hn
      rw [hyes hn] at hno'
      cases hno'
    exact iff_of_true (fun hgives => absurd hn hgives) hnotLate
  · obtain rfl : n = 100000 := by omega
    constructor
    · rintro hgives ⟨-, hlate⟩
      have hlast := hgives hn 100000 (Nat.lt_succ_self _)
      rw [hlate] at hlast
      cases hlast
    · intro hnotLate _ j hj
      by_cases hlast : j < 100000
      · exact hno j hlast
      · obtain rfl : j = 100000 := by omega
        by_contra hreq
        exact hnotLate ⟨hno, Bool.eq_true_of_not_eq_false hreq⟩

/-! ## The waits of a call -/

variable (a D)

/-- `P` holds in front of every wait for data that the loop of `Read28` comes to. -/
def ReadWaits (P : Bus δ → Prop) : (count s : ℕ) → (ℕ → UInt8) × Bus δ → Prop
  | 0, _, _ => True
  | count + 1, s, (data, b) =>
    P b ∧ ((a.waitData D b).1 = true →
      ReadWaits P count (s + 1) (a.readWords D s (data, (a.waitData D b).2)))

/-- `P` holds in front of every wait for data that the loop of `Write28` comes to. -/
def WriteWaits (P : Bus δ → Prop) (data : ℕ → UInt8) : (count s : ℕ) → Bus δ → Prop
  | 0, _, _ => True
  | count + 1, s, b =>
    P b ∧ ((a.waitData D b).1 = true →
      WriteWaits P data count (s + 1) (a.writeWords D data s (a.waitData D b).2))

/-- `P` holds in front of every wait for data of a call of `Read28`. -/
def Read28Waits (P : Bus δ → Prop) (x : UInt32) (data : ℕ → UInt8) (count : ℕ) (b : Bus δ) :
    Prop :=
  x ≤ 0x0FFFFFFF → (a.waitReady D b).1 = true →
    a.ReadWaits D P count 0 (data, a.issue D cmdReadPio x count (a.waitReady D b).2)

/-- `P` holds in front of every wait for data of a call of `Write28`. -/
def Write28Waits (P : Bus δ → Prop) (x : UInt32) (data : ℕ → UInt8) (count : ℕ) (b : Bus δ) :
    Prop :=
  x ≤ 0x0FFFFFFF → (a.waitReady D b).1 = true →
    a.WriteWaits D P data count 0 (a.issue D cmdWritePio x count (a.waitReady D b).2)

variable {a D} {P Q : Bus δ → Prop} {count s : ℕ} {x : UInt32} {data : ℕ → UInt8}

/-- What holds at every index that is reached, when an index is reached if all before it go
on: the first index apart. -/
theorem forall_reached_succ {p goesOn : ℕ → Prop} {n : ℕ} :
    (∀ k < n + 1, (∀ j < k, goesOn j) → p k) ↔
      p 0 ∧ (goesOn 0 → ∀ k < n, (∀ j < k, goesOn (j + 1)) → p (k + 1)) := by
  constructor
  · intro h
    refine ⟨h 0 (Nat.succ_pos n) fun j hj => absurd hj (Nat.not_lt_zero j), ?_⟩
    intro h0 k hk hbefore
    refine h (k + 1) (by omega) fun j hj => ?_
    cases j with
    | zero => exact h0
    | succ j => exact hbefore j (by omega)
  · rintro ⟨hfirst, hrest⟩ k hk hbefore
    cases k with
    | zero => exact hfirst
    | succ k =>
      exact hrest (hbefore 0 (Nat.succ_pos k)) k (by omega) fun j hj => hbefore (j + 1) (by omega)

/-- The wait of the loop of `Read28` for the sector `k` is reached if those for the sectors
before it have all succeeded; the loop is then where it ends when it has only `k` rounds. -/
theorem readWaits_iff {st : (ℕ → UInt8) × Bus δ} :
    a.ReadWaits D P count s st ↔ ∀ k < count,
      (∀ j < k, (a.waitData D (a.readSectors D j s st).2).1 = true) →
        P (a.readSectors D k s st).2 := by
  induction count generalizing s st with
  | zero => exact iff_of_true trivial fun k hk => absurd hk (Nat.not_lt_zero k)
  | succ count ih =>
    obtain ⟨data, b⟩ := st
    have hround (hok : (a.waitData D b).1 = true) (k : ℕ) :
        a.readSectors D (k + 1) s (data, b) =
          a.readSectors D k (s + 1) (a.readWords D s (data, (a.waitData D b).2)) := by
      rw [readSectors]
      exact if_pos hok
    -- the first wait, and the later ones as those of a loop that starts behind it
    rw [forall_reached_succ, ReadWaits]
    refine and_congr Iff.rfl (forall_congr' fun hok => ?_)
    simp only [hround hok]
    exact ih

theorem writeWaits_iff {b : Bus δ} :
    a.WriteWaits D P data count s b ↔ ∀ k < count,
      (∀ j < k, (a.waitData D (a.writeSectors D data j s b).2).1 = true) →
        P (a.writeSectors D data k s b).2 := by
  induction count generalizing s b with
  | zero => exact iff_of_true trivial fun k hk => absurd hk (Nat.not_lt_zero k)
  | succ count ih =>
    have hround (hok : (a.waitData D b).1 = true) (k : ℕ) :
        a.writeSectors D data (k + 1) s b =
          a.writeSectors D data k (s + 1) (a.writeWords D data s (a.waitData D b).2) := by
      rw [writeSectors]
      exact if_pos hok
    rw [forall_reached_succ, WriteWaits]
    refine and_congr Iff.rfl (forall_congr' fun hok => ?_)
    simp only [hround hok]
    exact ih

/-- **The waits of `Read28`** are those that its loop comes to. -/
theorem read28_waits (hx : x ≤ 0x0FFFFFFF) (hready : (a.waitReady D b).1 = true) :
    let st := (data, a.issue D cmdReadPio x count (a.waitReady D b).2)
    a.read28 D x data count b = a.readSectors D count 0 st ∧
      (a.Read28Waits D P x data count b ↔ ∀ k < count,
        (∀ j < k, (a.waitData D (a.readSectors D j 0 st).2).1 = true) →
          P (a.readSectors D k 0 st).2) := by
  intro st
  constructor
  · rw [read28, if_neg (UInt32.not_lt.mpr hx)]
    exact if_pos hready
  · rw [Read28Waits, forall_prop_of_true hx, forall_prop_of_true hready]
    exact readWaits_iff

/-- **The waits of `Write28`** are those that its loop comes to; after the last one the call
flushes. -/
theorem write28_waits (hx : x ≤ 0x0FFFFFFF) (hready : (a.waitReady D b).1 = true) :
    let b' := a.issue D cmdWritePio x count (a.waitReady D b).2
    let r := a.writeSectors D data count 0 b'
    a.write28 D x data count b = (if r.1 then a.flush D r.2 else r.2) ∧
      (a.Write28Waits D P x data count b ↔ ∀ k < count,
        (∀ j < k, (a.waitData D (a.writeSectors D data j 0 b').2).1 = true) →
          P (a.writeSectors D data k 0 b').2) := by
  intro b' r
  constructor
  · rw [write28, if_neg (UInt32.not_lt.mpr hx)]
    exact if_pos hready
  · rw [Write28Waits, forall_prop_of_true hx, forall_prop_of_true hready]
    exact writeWaits_iff

theorem readWaits_congr (h : ∀ b, P b ↔ Q b) {st : (ℕ → UInt8) × Bus δ} :
    a.ReadWaits D P count s st ↔ a.ReadWaits D Q count s st := by
  induction count generalizing s st with
  | zero => exact Iff.rfl
  | succ count ih => exact and_congr (h st.2) (imp_congr_right fun _ => ih)

theorem writeWaits_congr (h : ∀ b, P b ↔ Q b) {data : ℕ → UInt8} {b : Bus δ} :
    a.WriteWaits D P data count s b ↔ a.WriteWaits D Q data count s b := by
  induction count generalizing s b with
  | zero => exact Iff.rfl
  | succ count ih => exact and_congr (h b) (imp_congr_right fun _ => ih)

/-- **When the polls decide rightly.**  On every drive, in every state of it, `WaitReady` and a
wait for data read the status at most 100001 times.  The answer of `WaitReady` is what these
statuses say if and only if the drive does not get ready at the last permitted read.  In every
call of `Read28` and `Write28` the waits for data give up only after statuses without the
request if and only if at none of them the request comes at the last permitted read. -/
theorem polls_decide_iff (a : Ata) (D : Device δ) (b : Bus δ) (x : UInt32) (data : ℕ → UInt8)
    (count : ℕ) :
    (operations b (a.waitReady D b).2 ≤ 100001 ∧ operations b (a.waitData D b).2 ≤ 100001) ∧
      (a.DecidesReady D b ↔ ¬ a.LateReady D b) ∧
      (a.Read28Waits D (a.GivesUpRightly D) x data count b ↔
        a.Read28Waits D (fun b => ¬ a.LateRequest D b) x data count b) ∧
      (a.Write28Waits D (a.GivesUpRightly D) x data count b ↔
        a.Write28Waits D (fun b => ¬ a.LateRequest D b) x data count b) := by
  obtain ⟨-, -, hready⟩ := waitReady_bounded a D b
  obtain ⟨-, -, hdata⟩ := waitData_bounded a D b
  refine ⟨⟨hready, hdata⟩, decidesReady_iff, ?_, ?_⟩
  · apply imp_congr_right
    intro _
    apply imp_congr_right
    intro _
    exact readWaits_congr fun b => givesUpRightly_iff
  · apply imp_congr_right
    intro _
    apply imp_congr_right
    intro _
    exact writeWaits_congr fun b => givesUpRightly_iff

end Polls

/-! ## A drive that is late -/

/-- A drive whose status is `early` for 100000 reads and `late` from then on; its state counts
the reads. -/
def lateDrive (early late : UInt8) : Device ℕ where
  inb _ n := (if n < 100000 then early else late, n + 1)
  inw _ n := (0, n)
  outb _ _ n := n
  outw _ _ n := n

theorem status_lateDrive (a : Ata) (early late : UInt8) (n : ℕ) :
    a.status (lateDrive early late) n ⟨0, []⟩ = if n < 100000 then early else late := by
  have hdev : ((⟨0, []⟩ : Bus ℕ).reads (lateDrive early late) (a.port .command) n).dev = n := by
    induction n with
    | zero => rfl
    | succ n ih =>
      show Nat.succ _ = _
      rw [ih]
  show (if Bus.dev _ < 100000 then early else late) = _
  rw [hdev]

/-- The drive is ready at the last permitted read, and `WaitReady` says that it is not; it
requests data there, and the wait gives up. -/
theorem waitReady_of_late :
    let b : Bus ℕ := ⟨0, []⟩
    ((primary.waitReady (lateDrive 0x80 0x50) b).1 = false ∧
        primary.FoundReady (lateDrive 0x80 0x50)
          (operations b (primary.waitReady (lateDrive 0x80 0x50) b).2) b) ∧
      (primary.waitData (lateDrive 0x50 0x58) b).1 = false ∧
        ∃ j < operations b (primary.waitData (lateDrive 0x50 0x58) b).2,
          requests (primary.status (lateDrive 0x50 0x58) j b) = true := by
  have hearly {early late : UInt8} {j : ℕ} (hj : j < 100000) :
      primary.status (lateDrive early late) j ⟨0, []⟩ = early := by
    rw [status_lateDrive, if_pos hj]
  have hlast {early late : UInt8} :
      primary.status (lateDrive early late) 100000 ⟨0, []⟩ = late := by
    rw [status_lateDrive, if_neg (lt_irrefl _)]
  intro b
  constructor
  · obtain ⟨n, hle, hbusy, hidle, hreads, hok⟩ := waitReady_poll primary (lateDrive 0x80 0x50) b
    obtain rfl : n = 100000 := by
      by_contra hne
      have hn := hidle (by omega)
      rw [hearly (by omega)] at hn
      cases hn
    constructor
    · rw [← Bool.not_eq_true, hok]
      rintro ⟨hlt, -⟩
      omega
    · rw [hreads, operations_reads]
      refine ⟨100000, Nat.lt_succ_self _, hbusy, ?_⟩
      rw [hlast]
      exact ⟨rfl, rfl, rfl⟩
  · obtain ⟨n, hle, hno, hyes, hreads, hok⟩ := waitData_poll primary (lateDrive 0x50 0x58) b
    obtain rfl : n = 100000 := by
      by_contra hne
      have hn := hyes (by omega)
      rw [hearly (by omega)] at hn
      cases hn
    constructor
    · rw [← Bool.not_eq_true, hok]
      exact lt_irrefl _
    · rw [hreads, operations_reads]
      refine ⟨100000, Nat.lt_succ_self _, ?_⟩
      rw [hlast]
      rfl

end Ata
