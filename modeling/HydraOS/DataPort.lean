/-
# The protocol of the data port

A host may access the data port when the drive is not busy, requests data and reports no
error; while the drive is busy the other bits of its status mean nothing.  The driver
reads the status until the data request shows and looks at nothing else, so it keeps the
protocol if and only if the drive never shows that bit together with one of the others.
-/
import HydraOS.AtaTransfers

namespace Ata

/-! ## The protocol -/

/-- A status with which the data port may be accessed. -/
def Offers (status : UInt8) : Prop :=
  busy status = false ∧ requests status = true ∧ err status = false

instance (status : UInt8) : Decidable (Offers status) :=
  inferInstanceAs (Decidable (_ ∧ _))

/-- The port of an operation. -/
def portOf : PortOp → UInt16
  | .inb p _ | .outb p _ | .inw p _ | .outw p _ => p

/-- The status byte that was read last. -/
def lastStatus (a : Ata) : List PortOp → Option UInt8
  | [] => none
  | .inb p v :: trace => if p = a.port .command then some v else a.lastStatus trace
  | _ :: trace => a.lastStatus trace

/-- **The protocol**: before every access of the data port the status byte that was read
last offers data. -/
def Guarded (a : Ata) : List PortOp → Prop
  | [] => True
  | op :: trace =>
    (portOf op = a.port .data → ∃ v, a.lastStatus trace = some v ∧ Offers v) ∧ a.Guarded trace

/-- The calls of the driver. -/
inductive DriverCall where
  | identify
  | read28 (sectorNum : UInt32) (data : ℕ → UInt8) (count : ℕ)
  | write28 (sectorNum : UInt32) (data : ℕ → UInt8) (count : ℕ)

/-- What a call does to the bus. -/
def run {δ : Type} (a : Ata) (D : Device δ) (b : Bus δ) : DriverCall → Bus δ
  | .identify => a.identify D b
  | .read28 sectorNum data count => (a.read28 D sectorNum data count b).2
  | .write28 sectorNum data count => a.write28 D sectorNum data count b

section Operations

variable {δ : Type} {a : Ata} {D : Device δ} {b : Bus δ}

/-! ## What the operations do -/

/-- Reading the status is no access to the data port. -/
theorem guarded_reads (n : ℕ) :
    a.Guarded (b.reads D (a.port .command) n).trace ↔ a.Guarded b.trace := by
  induction n with
  | zero => rfl
  | succ n ih =>
    rw [← ih]
    exact and_iff_right fun h => absurd (port_inj.mp h) (by decide)

/-- After reads of the status, the last one counts. -/
theorem lastStatus_reads (n : ℕ) :
    a.lastStatus (b.reads D (a.port .command) (n + 1)).trace = some (a.status D n b) := by
  show (if a.port .command = a.port .command then _ else _) = _
  rw [if_pos rfl]
  rfl

theorem guarded_wait : a.Guarded (a.wait D b).trace ↔ a.Guarded b.trace := guarded_reads 4

/-- Nor is writing another register. -/
theorem guarded_outb {r : Register} (hr : r ≠ .data) (v : UInt8) :
    a.Guarded (b.outb D (a.port r) v).trace ↔ a.Guarded b.trace := by
  rw [Bus.outb_trace, Guarded]
  exact and_iff_right fun h => absurd (port_inj.mp h) hr

/-- Issuing a command only writes registers and waits. -/
theorem guarded_issue (command : UInt8) (x : UInt32) (count : ℕ) :
    a.Guarded (a.issue D command x count b).trace ↔ a.Guarded b.trace := by
  unfold issue
  simp only [guarded_outb, guarded_wait, ne_eq, reduceCtorEq, not_false_eq_true]

/-- `WaitReady` only reads the status. -/
theorem guarded_waitReady : a.Guarded (a.waitReady D b).2.trace ↔ a.Guarded b.trace := by
  obtain ⟨n, hn⟩ := (waitReady_spec a D b).2
  rw [hn, guarded_reads]

/-- `Flush` moves no data. -/
theorem guarded_flush : a.Guarded (a.flush D b).trace ↔ a.Guarded b.trace := by
  unfold flush
  rw [guarded_waitReady, guarded_outb (by decide), guarded_wait, guarded_outb (by decide)]

/-- Operations on the data port are guarded by the status before the first of them. -/
def Accesses (a : Ata) (n : ℕ) (b b' : Bus δ) : Prop :=
  a.lastStatus b'.trace = a.lastStatus b.trace ∧
    (a.Guarded b'.trace ↔
      a.Guarded b.trace ∧ (0 < n → ∃ v, a.lastStatus b.trace = some v ∧ Offers v))

theorem accesses_zero : a.Accesses 0 b b :=
  ⟨rfl, (and_iff_left fun h => absurd h (by decide)).symm⟩

theorem Accesses.next {b' b'' : Bus δ} {n : ℕ} {op : PortOp} (h : a.Accesses n b b')
    (hop : b''.trace = op :: b'.trace) (hport : portOf op = a.port .data)
    (hlast : a.lastStatus (op :: b'.trace) = a.lastStatus b'.trace) :
    a.Accesses (n + 1) b b'' := by
  obtain ⟨hstatus, hguarded⟩ := h
  rw [Accesses, hop, hlast, Guarded, hguarded, hstatus]
  refine ⟨rfl, ?_⟩
  constructor
  · rintro ⟨hoffers, hb, -⟩
    exact ⟨hb, fun _ => hoffers hport⟩
  · rintro ⟨hb, hoffers⟩
    exact ⟨fun _ => hoffers (by omega), hb, fun _ => hoffers (by omega)⟩

theorem accesses_writeWords (data : ℕ → UInt8) (s : ℕ) :
    a.Accesses 256 b (a.writeWords D data s b) :=
  forLoop_invariant_of_true (fun i b' => a.Accesses i b b') accesses_zero
    fun _ _ _ _ h => h.next rfl rfl rfl

theorem accesses_readWords (data : ℕ → UInt8) (s : ℕ) :
    a.Accesses 256 b (a.readWords D s (data, b)).2 := by
  unfold readWords
  refine forLoop_invariant_of_true (fun i (st : (ℕ → UInt8) × Bus δ) => a.Accesses i b st.2)
    accesses_zero fun i st _ _ h => ?_
  exact h.next (Bus.inw_trace D (a.port .data) st.2) rfl rfl

theorem accesses_drop (n : ℕ) : a.Accesses n b
    (forLoop (fun _ => true) (fun _ b => (b.inw D (a.port .data)).2) n 0 b) := by
  have hrun := @forLoop_invariant_of_true _ (fun _ b => (b.inw D (a.port .data)).2) n 0 b
    (fun i b' => a.Accesses i b b') accesses_zero fun _ _ _ _ h => h.next rfl rfl rfl
  rw [Nat.zero_add] at hrun
  exact hrun

/-! ## Waiting for a sector -/

/-- The read of the status that ends the wait for data. -/
def FirstRequest (a : Ata) (D : Device δ) (b : Bus δ) (n : ℕ) : Prop :=
  n < 100000 ∧ requests (a.status D n b) = true ∧ ∀ j < n, requests (a.status D j b) = false

/-- **The drive shows its data request cleanly**: if the request appears within 100000
reads, then the first status with it is neither busy nor an error. -/
def RequestsCleanly (a : Ata) (D : Device δ) (b : Bus δ) : Prop :=
  ∀ n, a.FirstRequest D b n → busy (a.status D n b) = false ∧ err (a.status D n b) = false

/-- If the drive ever requests data, there is a first time. -/
theorem exists_firstRequest (h : a.Requests D b) : ∃ n, a.FirstRequest D b n := by
  obtain ⟨m, hm, hreq⟩ := h
  have hex : ∃ n, requests (a.status D n b) = true := ⟨m, hreq⟩
  refine ⟨Nat.find hex, (Nat.find_le hreq).trans_lt hm, Nat.find_spec hex, fun j hj => ?_⟩
  exact eq_false_of_ne_true (Nat.find_min hex hj)

theorem FirstRequest.unique {m n : ℕ} (hm : a.FirstRequest D b m) (hn : a.FirstRequest D b n) :
    m = n := by
  by_contra hne
  rcases Nat.lt_or_gt_of_ne hne with h | h
  · exact absurd hm.2.1 (by rw [hn.2.2 m h]; decide)
  · exact absurd hn.2.1 (by rw [hm.2.2 n h]; decide)

/-- The wait for data ends with the first request. -/
theorem waitData_of_firstRequest {n : ℕ} (h : a.FirstRequest D b n) :
    a.waitData D b = (true, b.reads D (a.port .command) (n + 1)) := by
  obtain ⟨m, hle, hwait, hend, hpoll⟩ := @Bus.poll_spec _ D (a.port .command)
    (fun status => !requests status) 100000 0 b
  simp only [Nat.zero_add] at hwait hend hpoll
  have hm : a.FirstRequest D b m := by
    have hlt : m < 100000 := by
      by_contra hge
      have := hwait n (by have := h.1; omega)
      rw [show b.value D (a.port .command) n = a.status D n b from rfl, h.2.1] at this
      cases this
    refine ⟨hlt, by simpa [status] using hend hlt, fun j hj => by simpa [status] using hwait j hj⟩
  obtain rfl := h.unique hm
  have hstatus : a.getStatus D b = (b.value D (a.port .command) 0, b.reads D (a.port .command) 1) :=
    rfl
  have hlt := h.1
  rw [waitData, hstatus]
  simp only
  rw [hpoll]
  simp only [Prod.mk.injEq, and_true, bne_iff_ne, ne_eq]
  omega

/-- **A sector**: a wait that succeeds, and then accesses of the data port. -/
theorem guarded_sector {n : ℕ} {b' : Bus δ} (hn : 0 < n) (hreq : a.Requests D b)
    (h : a.Accesses n (a.waitData D b).2 b') :
    a.Guarded b'.trace ↔ a.Guarded b.trace ∧ a.RequestsCleanly D b := by
  obtain ⟨m, hm⟩ := exists_firstRequest hreq
  rw [h.2, waitData_of_firstRequest hm, guarded_reads, lastStatus_reads]
  constructor
  · rintro ⟨hb, hoffers⟩
    obtain ⟨v, hv, hbusy, -, herr⟩ := hoffers hn
    cases hv
    refine ⟨hb, fun k hk => ?_⟩
    rw [hk.unique hm]
    exact ⟨hbusy, herr⟩
  · rintro ⟨hb, hclean⟩
    obtain ⟨hbusy, herr⟩ := hclean m hm
    exact ⟨hb, fun _ => ⟨_, rfl, hbusy, hm.2.1, herr⟩⟩

/-- Without a request there is nothing to show. -/
theorem requestsCleanly_of_not (h : ¬ a.Requests D b) : a.RequestsCleanly D b :=
  fun n hn => absurd ⟨n, hn.1, hn.2.1⟩ h

/-- The wait for data only reads the status. -/
theorem guarded_waitData : a.Guarded (a.waitData D b).2.trace ↔ a.Guarded b.trace := by
  obtain ⟨n, hn⟩ := (waitData_spec a D b).2
  rw [hn, guarded_reads]

end Operations

/-! ## The sectors of a call -/

section Calls

variable {δ : Type} {a : Ata} {D : Device δ} {b : Bus δ} {data : ℕ → UInt8}

/-- The drive shows its requests cleanly in the loop of `Read28` over the sectors. -/
def OffersRead (a : Ata) (D : Device δ) : (count s : ℕ) → (ℕ → UInt8) × Bus δ → Prop
  | 0, _, _ => True
  | count + 1, s, (data, b) =>
    a.RequestsCleanly D b ∧
      (a.Requests D b → OffersRead a D count (s + 1) (a.readWords D s (data, (a.waitData D b).2)))

/-- The same in the loop of `Write28`. -/
def OffersWrite (a : Ata) (D : Device δ) (data : ℕ → UInt8) : (count s : ℕ) → Bus δ → Prop
  | 0, _, _ => True
  | count + 1, s, b =>
    a.RequestsCleanly D b ∧ (a.Requests D b →
      OffersWrite a D data count (s + 1) (a.writeWords D data s (a.waitData D b).2))

/-- **The loop of `Read28`** is guarded if the drive offers each sector. -/
theorem guarded_readSectors (count s : ℕ) :
    a.Guarded (a.readSectors D count s (data, b)).2.trace ↔
      a.Guarded b.trace ∧ a.OffersRead D count s (data, b) := by
  induction count generalizing s b data with
  | zero => exact (and_iff_left trivial).symm
  | succ count ih =>
    rw [readSectors, OffersRead]
    simp only
    by_cases hreq : a.Requests D b
    · have hwords := accesses_readWords (a := a) (D := D) (b := (a.waitData D b).2) data s
      rw [if_pos ((waitData_spec a D b).1.mpr hreq)]
      generalize a.readWords D s (data, (a.waitData D b).2) = st at hwords ⊢
      obtain ⟨data', b'⟩ := st
      rw [ih, guarded_sector (by decide) hreq hwords, and_assoc]
      exact and_congr_right fun _ => and_congr_right fun _ => ⟨fun h _ => h, fun h => h hreq⟩
    · rw [if_neg fun hok => hreq ((waitData_spec a D b).1.mp hok), guarded_waitData]
      exact (and_iff_left ⟨requestsCleanly_of_not hreq, fun h => absurd h hreq⟩).symm

/-- **The loop of `Write28`.** -/
theorem guarded_writeSectors (count s : ℕ) :
    a.Guarded (a.writeSectors D data count s b).2.trace ↔
      a.Guarded b.trace ∧ a.OffersWrite D data count s b := by
  induction count generalizing s b with
  | zero => exact (and_iff_left trivial).symm
  | succ count ih =>
    rw [writeSectors, OffersWrite]
    simp only
    by_cases hreq : a.Requests D b
    · have hwords := accesses_writeWords (a := a) (D := D) (b := (a.waitData D b).2) data s
      rw [if_pos ((waitData_spec a D b).1.mpr hreq), ih, guarded_sector (by decide) hreq hwords,
        and_assoc]
      exact and_congr_right fun _ => and_congr_right fun _ => ⟨fun h _ => h, fun h => h hreq⟩
    · rw [if_neg fun hok => hreq ((waitData_spec a D b).1.mp hok), guarded_waitData]
      exact (and_iff_left ⟨requestsCleanly_of_not hreq, fun h => absurd h hreq⟩).symm

/-- The bus of `Identify` when it waits for the drive: the command has been sent, and one
status byte has been read. -/
def identifySent (a : Ata) (D : Device δ) (b : Bus δ) : Bus δ :=
  let b := b.outb D (a.port .device) (if a.master then 0xA0 else 0xB0)
  let b := a.wait D b
  let b := b.outb D (a.port .sectorCount) 0
  let b := b.outb D (a.port .lbaLow) 0
  let b := b.outb D (a.port .lbaMid) 0
  let b := b.outb D (a.port .lbaHi) 0
  let b := b.outb D (a.port .command) cmdIdentify
  a.wait D b

/-- **The drive keeps its data request clean** in every wait for data that a call comes
to: the first status byte with the request, if it is among the first 100000, is neither
busy nor an error. -/
def OffersCleanly (a : Ata) (D : Device δ) (b : Bus δ) : DriverCall → Prop
  | .identify =>
    let b := a.identifySent D b
    a.status D 0 b ≠ 0 → a.Ready D (a.getStatus D b).2 →
      a.RequestsCleanly D (a.waitReady D (a.getStatus D b).2).2
  | .read28 x data count =>
    x ≤ 0x0FFFFFFF → a.Ready D b →
      a.OffersRead D count 0 (data, a.issue D cmdReadPio x count (a.waitReady D b).2)
  | .write28 x data count =>
    x ≤ 0x0FFFFFFF → a.Ready D b →
      a.OffersWrite D data count 0 (a.issue D cmdWritePio x count (a.waitReady D b).2)

theorem guarded_identifySent : a.Guarded (a.identifySent D b).trace ↔ a.Guarded b.trace := by
  unfold identifySent
  rw [guarded_wait, guarded_outb (by decide), guarded_outb (by decide), guarded_outb (by decide),
    guarded_outb (by decide), guarded_outb (by decide), guarded_wait, guarded_outb (by decide)]

theorem guarded_getStatus : a.Guarded (a.getStatus D b).2.trace ↔ a.Guarded b.trace :=
  guarded_reads 1

/-- **`Identify`.** -/
theorem guarded_identify : a.Guarded (a.identify D b).trace ↔
    a.Guarded b.trace ∧ a.OffersCleanly D b .identify := by
  have hsplit : a.identify D b =
      if a.status D 0 (a.identifySent D b) = 0 then (a.getStatus D (a.identifySent D b)).2
      else
        if (a.waitReady D (a.getStatus D (a.identifySent D b)).2).1 then
          if (a.waitData D (a.waitReady D (a.getStatus D (a.identifySent D b)).2).2).1 then
            forLoop (fun _ => true) (fun _ b => (b.inw D (a.port .data)).2) 256 0
              (a.waitData D (a.waitReady D (a.getStatus D (a.identifySent D b)).2).2).2
          else (a.waitData D (a.waitReady D (a.getStatus D (a.identifySent D b)).2).2).2
        else (a.waitReady D (a.getStatus D (a.identifySent D b)).2).2 := rfl
  rw [hsplit, OffersCleanly]
  by_cases hnone : a.status D 0 (a.identifySent D b) = 0
  · rw [if_pos hnone, guarded_getStatus, guarded_identifySent]
    exact (and_iff_left fun h => absurd hnone h).symm
  · rw [if_neg hnone]
    by_cases hready : a.Ready D (a.getStatus D (a.identifySent D b)).2
    · rw [if_pos ((waitReady_spec a D _).1.mpr hready)]
      by_cases hreq : a.Requests D (a.waitReady D (a.getStatus D (a.identifySent D b)).2).2
      · rw [if_pos ((waitData_spec a D _).1.mpr hreq),
          guarded_sector (by decide) hreq (accesses_drop 256), guarded_waitReady,
          guarded_getStatus, guarded_identifySent]
        exact and_congr_right fun _ => ⟨fun h _ _ => h, fun h => h hnone hready⟩
      · rw [if_neg fun hok => hreq ((waitData_spec a D _).1.mp hok), guarded_waitData,
          guarded_waitReady, guarded_getStatus, guarded_identifySent]
        exact (and_iff_left fun _ _ => requestsCleanly_of_not hreq).symm
    · rw [if_neg fun hok => hready ((waitReady_spec a D _).1.mp hok), guarded_waitReady,
        guarded_getStatus, guarded_identifySent]
      exact (and_iff_left fun _ h => absurd h hready).symm

/-- **`Read28`.** -/
theorem guarded_read28 (x : UInt32) (count : ℕ) :
    a.Guarded (a.read28 D x data count b).2.trace ↔
      a.Guarded b.trace ∧ a.OffersCleanly D b (.read28 x data count) := by
  rw [read28, OffersCleanly]
  simp only
  by_cases hx : x ≤ 0x0FFFFFFF
  · rw [if_neg (UInt32.not_lt.mpr hx)]
    by_cases hready : a.Ready D b
    · rw [if_pos ((waitReady_spec a D b).1.mpr hready), guarded_readSectors, guarded_issue,
        guarded_waitReady]
      exact and_congr_right fun _ => ⟨fun h _ _ => h, fun h => h hx hready⟩
    · rw [if_neg fun hok => hready ((waitReady_spec a D b).1.mp hok), guarded_waitReady]
      exact (and_iff_left fun _ h => absurd h hready).symm
  · rw [if_pos (UInt32.not_le.mp hx)]
    exact (and_iff_left fun h => absurd h hx).symm

/-- **`Write28`.** -/
theorem guarded_write28 (x : UInt32) (count : ℕ) :
    a.Guarded (a.write28 D x data count b).trace ↔
      a.Guarded b.trace ∧ a.OffersCleanly D b (.write28 x data count) := by
  rw [write28, OffersCleanly]
  simp only
  by_cases hx : x ≤ 0x0FFFFFFF
  · rw [if_neg (UInt32.not_lt.mpr hx)]
    by_cases hready : a.Ready D b
    · have hsectors := @guarded_writeSectors δ a D
        (a.issue D cmdWritePio x count (a.waitReady D b).2) data count 0
      rw [guarded_issue, guarded_waitReady] at hsectors
      rw [if_pos ((waitReady_spec a D b).1.mpr hready)]
      have hend : a.Guarded b.trace ∧
          a.OffersWrite D data count 0 (a.issue D cmdWritePio x count (a.waitReady D b).2) ↔
          a.Guarded b.trace ∧ (x ≤ 0x0FFFFFFF → a.Ready D b →
            a.OffersWrite D data count 0 (a.issue D cmdWritePio x count (a.waitReady D b).2)) :=
        and_congr_right fun _ => ⟨fun h _ _ => h, fun h => h hx hready⟩
      rw [← hend, ← hsectors]
      split
      · exact guarded_flush
      · rfl
    · rw [if_neg fun hok => hready ((waitReady_spec a D b).1.mp hok), guarded_waitReady]
      exact (and_iff_left fun _ h => absurd h hready).symm
  · rw [if_pos (UInt32.not_le.mp hx)]
    exact (and_iff_left fun h => absurd h hx).symm

/-- **When the driver keeps the protocol of the data port.**  For every drive, in every
state, and every call of `Identify`, `Read28` or `Write28`: all accesses of the data port
come after a status byte without BSY and ERR and with DRQ if and only if the drive never
shows DRQ together with BSY or ERR in the status byte that ends a wait for data. -/
theorem data_port_guarded_iff (a : Ata) (D : Device δ) (dev : δ) (call : DriverCall) :
    a.Guarded (a.run D ⟨dev, []⟩ call).trace ↔ a.OffersCleanly D ⟨dev, []⟩ call := by
  have hstart : a.Guarded (⟨dev, []⟩ : Bus δ).trace := trivial
  cases call with
  | identify => exact guarded_identify.trans (and_iff_right hstart)
  | read28 x data count => exact (guarded_read28 x count).trans (and_iff_right hstart)
  | write28 x data count => exact (guarded_write28 x count).trans (and_iff_right hstart)

end Calls

/-! ## A drive that is busy -/

/-- A drive that is ready until a command arrives, and then shows `status`. -/
def busyAfterCommand (status : UInt8) : Device Bool where
  inb p sent := (if p = primary.port .command then if sent then status else 0x50 else 0, sent)
  inw _ sent := (0, sent)
  outb p _ sent := sent || p = primary.port .command
  outw _ _ sent := sent

/-- A drive that has begun to work on a read and shows stale bits beside BSY: the driver
takes its 256 words at once. -/
theorem data_port_busy : ¬ primary.Guarded
    (primary.run (busyAfterCommand 0x88) ⟨false, []⟩ (.read28 0 (fun _ => 0) 1)).trace := by
  rw [run, guarded_read28, OffersCleanly]
  rintro ⟨-, hread⟩
  have hready : primary.Ready (busyAfterCommand 0x88) ⟨false, []⟩ := by
    refine ⟨0, by decide, fun j hj => absurd hj (by omega), ?_⟩
    decide +kernel
  obtain ⟨hclean, -⟩ := hread (by decide) hready
  -- the first status after the command has both bits
  have hfirst := hclean 0 ⟨by decide, by decide +kernel, fun j hj => absurd hj (by omega)⟩
  exact absurd hfirst.1 (by decide +kernel)

end Ata
