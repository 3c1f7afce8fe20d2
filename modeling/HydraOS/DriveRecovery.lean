/-
# A drive that has reported an error

After a failed command an ATA drive keeps the ERR bit of its status set until the host
writes the next command byte.  `Read28` and `Write28` check this bit before they write
one, so an error that a call leaves behind is never cleared: no later call issues a
command, on whatever sector.
-/
import HydraOS.AtaTransfers

namespace Ata

/-! ## Calls of the driver -/

/-- A call of the driver with the caller's buffer. -/
inductive DiskCall where
  | read28 (sectorNum : UInt32) (data : ℕ → UInt8) (count : ℕ)
  | write28 (sectorNum : UInt32) (data : ℕ → UInt8) (count : ℕ)

section Calls

variable {δ : Type} (a : Ata) (D : Device δ)

/-- One call: the bus and the caller's buffer afterwards. -/
def diskStep (b : Bus δ) : DiskCall → Bus δ × (ℕ → UInt8)
  | .read28 x data count => let r := a.read28 D x data count b; (r.2, r.1)
  | .write28 x data count => (a.write28 D x data count b, data)

/-- **The call is performed**: it issues its command and transfers its sectors. -/
def Performs (b : Bus δ) : DiskCall → Prop
  | .read28 x data count =>
    let r := a.read28 D x data count b
    ∃ wss : List (List UInt16), wss.length = count ∧
      a.commands r.2 = cmdReadPio :: a.commands b ∧
      a.transfers r.2 = logged cmdReadPio x.toNat wss (a.transfers b) ∧
      ∀ k, r.1 k = if k / 512 < count then byteOf (wss.getD (k / 512) []) (k % 512) else data k
  | .write28 x data count =>
    let b' := a.write28 D x data count b
    a.commands b' = cmdCacheFlush :: cmdWritePio :: a.commands b ∧
      a.transfers b' =
        logged cmdWritePio x.toNat ((List.range count).map (sectorWords data)) (a.transfers b)

/-- The drive is not busy for 100000 reads of its status, and has no device fault. -/
def Idle (b : Bus δ) : Prop :=
  ∃ n < 100000, (∀ j < n, busy (a.status D j b) = true) ∧ busy (a.status D n b) = false ∧
    fault (a.status D n b) = false

/-- **The drive can serve the call**: the sector number has 28 bits, the drive is idle, and
would transfer the sectors if it got the command. -/
def CanServe (b : Bus δ) : DiskCall → Prop
  | .read28 x data count => x ≤ 0x0FFFFFFF ∧ a.Idle D b ∧
      a.RequestsRead D count 0 (data, a.issue D cmdReadPio x count (a.waitReady D b).2)
  | .write28 x data count => x ≤ 0x0FFFFFFF ∧ a.Idle D b ∧
      a.RequestsWrite D data count 0 (a.issue D cmdWritePio x count (a.waitReady D b).2)

/-! ## The error bit -/

/-- The status shows an error. -/
def ShowsErr (dev : δ) : Prop := err (D.inb (a.port .command) dev).1 = true

/-- **The drive keeps ERR set** until the next command byte is written. -/
structure LatchesErr : Prop where
  inb : ∀ p dev, ShowsErr a D dev → ShowsErr a D (D.inb p dev).2
  inw : ∀ p dev, ShowsErr a D dev → ShowsErr a D (D.inw p dev).2
  outb : ∀ p v dev, p ≠ a.port .command → ShowsErr a D dev → ShowsErr a D (D.outb p v dev)
  outw : ∀ p v dev, ShowsErr a D dev → ShowsErr a D (D.outw p v dev)

/-- **An error is pending**: the status shows it by the time the drive is no longer
busy. -/
def ErrPending (b : Bus δ) : Prop :=
  ∃ n, (∀ j < n, busy (a.status D j b) = true) ∧ err (a.status D n b) = true

variable {a D} {b : Bus δ} {call : DiskCall} {m n : ℕ}

@[simp] theorem diskStep_read28 {x : UInt32} {data : ℕ → UInt8} {count : ℕ} :
    (diskStep a D b (.read28 x data count)).1 = (a.read28 D x data count b).2 := rfl

theorem status_reads : a.status D m (b.reads D (a.port .command) n) = a.status D (n + m) b := by
  unfold status
  exact Bus.value_reads m n b

/-- Once the status shows an error, it shows it at every later read. -/
theorem LatchesErr.status (hD : LatchesErr a D) (h : err (a.status D n b) = true) (hle : n ≤ m) :
    err (a.status D m b) = true := by
  induction m, hle using Nat.le_induction with
  | base => exact h
  | succ m _ ih => exact hD.inb _ _ ih

/-- Reading the status does not clear an error. -/
theorem ErrPending.reads (hD : LatchesErr a D) (h : ErrPending a D b) (k : ℕ) :
    ErrPending a D (b.reads D (a.port .command) k) := by
  obtain ⟨n, hbusy, herr⟩ := h
  by_cases hk : k ≤ n
  · refine ⟨n - k, fun j hj => ?_, ?_⟩
    · rw [status_reads]
      exact hbusy _ (by omega)
    · rwa [status_reads, Nat.add_sub_cancel' hk]
  · refine ⟨0, fun j hj => absurd hj (by omega), ?_⟩
    rw [status_reads]
    exact hD.status herr (by omega)

/-- With a pending error the drive is not ready. -/
theorem ErrPending.not_ready (hD : LatchesErr a D) (h : ErrPending a D b) : ¬ a.Ready D b := by
  obtain ⟨n, hbusy, herr⟩ := h
  rintro ⟨m, -, -, hidle, hok, -⟩
  have hle : n ≤ m := by
    by_contra hlt
    rw [hbusy m (by omega)] at hidle
    cases hidle
  rw [hD.status herr hle] at hok
  cases hok

/-- Without one an idle drive is ready. -/
theorem Idle.ready (h : a.Idle D b) (hno : ¬ ErrPending a D b) : a.Ready D b := by
  obtain ⟨n, hn, hbusy, hidle, hfault⟩ := h
  refine ⟨n, hn, hbusy, hidle, ?_, hfault⟩
  rw [← Bool.not_eq_true]
  exact fun herr => hno ⟨n, hbusy, herr⟩

/-- A call of a drive that is not ready issues no command: it reads the status at most. -/
theorem diskStep_of_not_ready (h : ¬ a.Ready D b) (call : DiskCall) :
    ∃ n, (diskStep a D b call).1 = b.reads D (a.port .command) n := by
  obtain ⟨n, hn⟩ := (waitReady_spec a D b).2
  cases call with
  | read28 x data count =>
    rcases @read28_of_not_ready _ a D b x data count h with hr | hr
    · exact ⟨0, congrArg Prod.snd hr⟩
    · exact ⟨n, (congrArg Prod.snd hr).trans hn⟩
  | write28 x data count =>
    rcases @write28_of_not_ready _ a D b x data count h with hr | hr
    · exact ⟨0, hr⟩
    · exact ⟨n, hr.trans hn⟩

/-- **A pending error stays pending**, whatever is called. -/
theorem ErrPending.step (hD : LatchesErr a D) (h : ErrPending a D b) (call : DiskCall) :
    ErrPending a D (diskStep a D b call).1 := by
  obtain ⟨n, hn⟩ := diskStep_of_not_ready (h.not_ready hD) call
  rw [hn]
  exact h.reads hD n

theorem ErrPending.run (hD : LatchesErr a D) (h : ErrPending a D b) (calls : List DiskCall) :
    ErrPending a D (finalState (diskStep a D) b calls) :=
  finalState_invariant (ErrPending a D) (fun _ call hb _ => hb.step hD call) h
    (along_of_forall fun _ _ _ => trivial)

/-- With a pending error no call is performed. -/
theorem ErrPending.not_performs (hD : LatchesErr a D) (h : ErrPending a D b) :
    ¬ Performs a D b call := by
  obtain ⟨n, hn⟩ := diskStep_of_not_ready (h.not_ready hD) call
  have hsame : a.commands (diskStep a D b call).1 = a.commands b := by
    rw [hn, commands_eq, taskOf_reads]
    rfl
  intro hperf
  cases call with
  | read28 x data count =>
    obtain ⟨wss, -, hcommands, -⟩ := hperf
    exact List.cons_ne_self _ _ (hcommands.symm.trans hsame)
  | write28 x data count =>
    have hlen := congrArg List.length (hperf.1.symm.trans hsame)
    simp only [List.length_cons] at hlen
    omega

/-- A call that the drive can serve is performed if no error is pending. -/
theorem CanServe.performs (h : CanServe a D b call) (hno : ¬ ErrPending a D b) :
    Performs a D b call := by
  cases call with
  | read28 x data count => exact read28_of_serves ⟨h.1, h.2.1.ready hno, h.2.2⟩
  | write28 x data count => exact write28_of_serves ⟨h.1, h.2.1.ready hno, h.2.2⟩

/-- **The driver does not recover from an error.**  After any calls, a call that the drive
can serve is performed if and only if none of the calls has left an error pending. -/
theorem performs_iff_no_error (hD : LatchesErr a D) (b : Bus δ) (calls : List DiskCall)
    (call : DiskCall) (hcan : CanServe a D (finalState (diskStep a D) b calls) call) :
    Performs a D (finalState (diskStep a D) b calls) call ↔
      ∀ past, past <+: calls → ¬ ErrPending a D (finalState (diskStep a D) b past) := by
  constructor
  · rintro hperf past ⟨later, rfl⟩ herr
    rw [finalState_append] at hperf
    exact (herr.run hD later).not_performs hD hperf
  · intro hno
    exact hcan.performs (hno calls (List.prefix_refl _))

end Calls

/-! ## A drive with a bad sector -/

/-- The registers of a drive, the words of its sectors, and the position in the sector
that is being transferred. -/
structure DriveState where
  status : UInt8
  lbaLow : UInt8
  lbaMid : UInt8
  lbaHi : UInt8
  device : UInt8
  sectors : ℕ → ℕ → UInt16
  pos : ℕ

/-- The sector that the registers select. -/
def DriveState.lba (s : DriveState) : ℕ :=
  s.device.toNat % 16 * 2 ^ 24 + s.lbaHi.toNat * 2 ^ 16 + s.lbaMid.toNat * 2 ^ 8 + s.lbaLow.toNat

/-- A word has gone over the data port. -/
def DriveState.next (s : DriveState) : DriveState :=
  if s.pos = 255 then { s with status := 0x50, pos := 0 } else { s with pos := s.pos + 1 }

/-- A word arrives for the selected sector. -/
def DriveState.store (w : UInt16) (s : DriveState) : DriveState :=
  { s with sectors :=
      Function.update s.sectors s.lba (Function.update (s.sectors s.lba) s.pos w) }

/-- A command byte: a transfer of the bad sector fails with ERR. -/
def DriveState.execute (bad : ℕ) (command : UInt8) (s : DriveState) : DriveState :=
  if command = cmdReadPio ∨ command = cmdWritePio then
    if s.lba = bad then { s with status := 0x51 } else { s with status := 0x58, pos := 0 }
  else { s with status := 0x50 }

/-- A drive that is never busy, at the ports of the primary master. -/
def drive (bad : ℕ) : Device DriveState where
  inb p s := (if p = primary.port .command then s.status else 0, s)
  inw p s :=
    if p = primary.port .data ∧ s.status = 0x58 then (s.sectors s.lba s.pos, s.next) else (0, s)
  outb p v s :=
    if p = primary.port .lbaLow then { s with lbaLow := v }
    else if p = primary.port .lbaMid then { s with lbaMid := v }
    else if p = primary.port .lbaHi then { s with lbaHi := v }
    else if p = primary.port .device then { s with device := v }
    else if p = primary.port .command then s.execute bad v
    else s
  outw p w s :=
    if p = primary.port .data ∧ s.status = 0x58 then (s.store w).next else s

section Drive

variable {bad : ℕ} {b : Bus DriveState}

theorem showsErr_drive {s : DriveState} :
    ShowsErr primary (drive bad) s ↔ err s.status = true := by
  unfold ShowsErr drive
  simp only [if_true]

theorem drive_latchesErr (bad : ℕ) : LatchesErr primary (drive bad) := by
  -- a transfer moves words only while the status is 0x58
  have hmoving {s : DriveState} (h : err s.status = true) : ¬ s.status = 0x58 := by
    intro hs
    rw [hs] at h
    exact absurd h (by decide)
  constructor <;> simp only [showsErr_drive]
  · exact fun _ _ h => h
  · intro p s h
    simp only [drive, if_neg fun hp : p = primary.port .data ∧ _ => hmoving h hp.2]
    exact h
  · intro p v s hp h
    simp only [drive, if_neg hp]
    split_ifs <;> exact h
  · intro p w s h
    simp only [drive, if_neg fun hp : p = primary.port .data ∧ _ => hmoving h hp.2]
    exact h

/-- Reading the status changes nothing. -/
theorem drive_reads (n : ℕ) :
    (b.reads (drive bad) (primary.port .command) n).dev = b.dev := by
  induction n with
  | zero => rfl
  | succ n ih => exact ih

theorem drive_status (n : ℕ) : primary.status (drive bad) n b = b.dev.status := by
  have hread : primary.status (drive bad) n b =
      if primary.port .command = primary.port .command
        then (b.reads (drive bad) (primary.port .command) n).dev.status else 0 := rfl
  rw [hread, if_pos rfl, drive_reads]

theorem drive_waitReady : (primary.waitReady (drive bad) b).2.dev = b.dev := by
  obtain ⟨n, hn⟩ := (waitReady_spec primary (drive bad) b).2
  rw [hn, drive_reads]

theorem drive_waitData : (primary.waitData (drive bad) b).2.dev = b.dev := by
  obtain ⟨n, hn⟩ := (waitData_spec primary (drive bad) b).2
  rw [hn, drive_reads]

theorem drive_requests : primary.Requests (drive bad) b ↔ requests b.dev.status = true := by
  constructor
  · rintro ⟨n, -, hn⟩
    rwa [drive_status] at hn
  · intro h
    exact ⟨0, by decide, by rwa [drive_status]⟩

/-- The registers after a sector number has been written to them. -/
def DriveState.select (x : UInt32) (s : DriveState) : DriveState :=
  { s with
    lbaLow := (x &&& 0xFF).toUInt8
    lbaMid := ((x >>> 8) &&& 0xFF).toUInt8
    lbaHi := ((x >>> 16) &&& 0xFF).toUInt8
    device := primary.select x }

/-- What the drive does with a command for a sector. -/
theorem drive_issue (command : UInt8) (x : UInt32) (count : ℕ) :
    (primary.issue (drive bad) command x count b).dev = (b.dev.select x).execute bad command := by
  unfold issue
  simp only [Bus.outb_dev, drive, port_inj]
  rfl

/-- The drive before its first command. -/
def freshDrive : DriveState := ⟨0x50, 0, 0, 0, 0, fun _ _ => 0, 0⟩

theorem drive_ready (h : b.dev.status = 0x50) : primary.Ready (drive bad) b := by
  refine ⟨0, by decide, fun j hj => absurd hj (by omega), ?_⟩
  rw [drive_status, h]
  decide

theorem drive_idle (h : busy b.dev.status = false ∧ fault b.dev.status = false) :
    primary.Idle (drive bad) b := by
  refine ⟨0, by decide, fun j hj => absurd hj (by omega), ?_⟩
  rwa [drive_status]

/-- The drive can serve a read of any other sector. -/
theorem drive_canServe {x : UInt32} (data : ℕ → UInt8) (hx : x ≤ 0x0FFFFFFF)
    (h : busy b.dev.status = false ∧ fault b.dev.status = false)
    (hgood : (b.dev.select x).lba ≠ bad) :
    CanServe primary (drive bad) b (.read28 x data 1) := by
  have hreq : primary.Requests (drive bad)
      (primary.issue (drive bad) cmdReadPio x 1 (primary.waitReady (drive bad) b).2) := by
    rw [drive_requests, drive_issue, drive_waitReady, DriveState.execute, if_pos (.inl rfl),
      if_neg hgood]
    exact (by decide : requests 0x58 = true)
  exact ⟨hx, drive_idle h, hreq, trivial⟩

/-- After a read of sector 7 the drive serves a read of sector 8. -/
theorem performs_iff_no_error_two_reads :
    let calls := [DiskCall.read28 7 (fun _ => 0) 1]
    Performs primary (drive 5) (finalState (diskStep primary (drive 5)) ⟨freshDrive, []⟩ calls)
        (.read28 8 (fun _ => 0) 1) ↔
      ∀ past, past <+: calls →
        ¬ ErrPending primary (drive 5)
          (finalState (diskStep primary (drive 5)) ⟨freshDrive, []⟩ past) :=
  performs_iff_no_error (drive_latchesErr 5) ⟨freshDrive, []⟩ [.read28 7 (fun _ => 0) 1]
    (.read28 8 (fun _ => 0) 1)
    (drive_canServe _ (by decide) (by decide +kernel) (by decide +kernel))

/-- A read of the bad sector leaves ERR in the status. -/
theorem drive_read_bad {x : UInt32} (data : ℕ → UInt8) (hx : x ≤ 0x0FFFFFFF)
    (h : b.dev.status = 0x50) (hbad : (b.dev.select x).lba = bad) :
    (primary.read28 (drive bad) x data 1 b).2.dev = { b.dev.select x with status := 0x51 } := by
  have hissue := @drive_issue bad (primary.waitReady (drive bad) b).2 cmdReadPio x 1
  rw [drive_waitReady, DriveState.execute, if_pos (.inl rfl), if_pos hbad] at hissue
  have hnone : ¬ primary.Requests (drive bad)
      (primary.issue (drive bad) cmdReadPio x 1 (primary.waitReady (drive bad) b).2) := by
    rw [drive_requests, hissue]
    exact (by decide : ¬ requests 0x51 = true)
  rw [(@read28_of_not_requests _ primary (drive bad) b x data 0 hx (drive_ready h) hnone).2,
    drive_waitData, hissue]

/-- The drive after a read of its bad sector. -/
def failedBus : Bus DriveState :=
  finalState (diskStep primary (drive 5)) ⟨freshDrive, []⟩ [.read28 5 (fun _ => 0) 1]

theorem failedBus_dev : failedBus.dev = { freshDrive.select 5 with status := 0x51 } := by
  unfold failedBus
  rw [finalState_cons, finalState_nil, diskStep_read28,
    drive_read_bad (fun _ => 0) (by decide) rfl (by decide)]

/-- After a read of the bad sector the drive can serve a read of another sector, but the
driver does not perform it. -/
theorem error_stops_other_reads :
    LatchesErr primary (drive 5) ∧ ¬ ErrPending primary (drive 5) ⟨freshDrive, []⟩ ∧
      CanServe primary (drive 5) failedBus (.read28 7 (fun _ => 0) 1) ∧
      ¬ Performs primary (drive 5) failedBus (.read28 7 (fun _ => 0) 1) := by
  have herr : ErrPending primary (drive 5) failedBus := by
    refine ⟨0, fun j hj => absurd hj (by omega), ?_⟩
    rw [drive_status, failedBus_dev]
    decide
  have hcan : CanServe primary (drive 5) failedBus (.read28 7 (fun _ => 0) 1) := by
    apply drive_canServe
    · decide
    · rw [failedBus_dev]
      decide
    · rw [failedBus_dev]
      decide
  refine ⟨drive_latchesErr 5, ?_, hcan, ?_⟩
  · exact fun hfresh => hfresh.not_ready (drive_latchesErr 5) (drive_ready rfl)
  · exact herr.not_performs (drive_latchesErr 5)

end Drive

end Ata
