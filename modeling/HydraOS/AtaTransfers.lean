/-
# What the disk driver transfers

`Read28` and `Write28` move the sectors that they are asked for when the drive *serves*
the call: the sector number has 28 bits, the drive is ready within 100000 reads of its
status, and after the command it requests each sector within 100000 more.  A call for one
sector moves its 256 words in this case, and nothing otherwise.
-/
import HydraOS.AtaDriver
import HydraOS.Bytes

namespace Ata

/-! ## The task file of the driver's operations -/

section TaskFile

variable {δ : Type} {a : Ata} {D : Device δ} {b : Bus δ} {t : TaskFile} {ws : List UInt16}

@[simp] theorem port_inj {r r' : Register} : a.port r = a.port r' ↔ r = r' := by
  unfold port
  rw [UInt16.add_right_inj]
  constructor
  · intro h
    revert h
    cases r <;> cases r' <;> decide
  · rintro rfl
    rfl

/-- The task file after the operations of a bus. -/
def taskOf (a : Ata) (b : Bus δ) : TaskFile := a.taskFile b.trace

@[simp] theorem taskOf_reads (p : UInt16) (n : ℕ) : a.taskOf (b.reads D p n) = a.taskOf b := by
  induction n with
  | zero => rfl
  | succ n ih => exact ih

@[simp] theorem taskOf_wait : a.taskOf (a.wait D b) = a.taskOf b := rfl

theorem taskOf_outb (r : Register) (v : UInt8) :
    a.taskOf (b.outb D (a.port r) v) = match r with
      | .lbaLow => { a.taskOf b with lbaLow := v }
      | .lbaMid => { a.taskOf b with lbaMid := v }
      | .lbaHi => { a.taskOf b with lbaHi := v }
      | .device => { a.taskOf b with device := v }
      | .command => { a.taskOf b with
          command := v, commands := v :: (a.taskOf b).commands, blocks := 0, moved := [] }
      | _ => a.taskOf b := by
  unfold taskOf taskFile
  rw [Bus.outb_trace, List.foldr_cons]
  unfold step
  cases r <;> simp

theorem taskOf_outw (w : UInt16) :
    a.taskOf (b.outw D (a.port .data) w) = (a.taskOf b).move w := by
  unfold taskOf taskFile
  rw [Bus.outw_trace, List.foldr_cons]
  unfold step
  simp

theorem taskOf_inw : a.taskOf (b.inw D (a.port .data)).2 =
    (a.taskOf b).move (b.inw D (a.port .data)).1 := by
  unfold taskOf taskFile
  rw [Bus.inw_trace, List.foldr_cons]
  unfold step
  simp

/-- After the registers are written the task file is that of the command. -/
theorem taskOf_issue (command : UInt8) (sectorNum : UInt32) (count : ℕ) :
    a.taskOf (a.issue D command sectorNum count b) =
      { a.taskOf b with
        lbaLow := (sectorNum &&& 0xFF).toUInt8
        lbaMid := ((sectorNum >>> 8) &&& 0xFF).toUInt8
        lbaHi := ((sectorNum >>> 16) &&& 0xFF).toUInt8
        device := a.select sectorNum
        command := command
        commands := command :: (a.taskOf b).commands
        blocks := 0
        moved := [] } := by
  unfold issue
  simp only [taskOf_outb, taskOf_wait]

/-- The drive number bits do not disturb the sector number. -/
theorem toNat_select (sectorNum : UInt32) (h : sectorNum ≤ 0x0FFFFFFF) :
    (a.select sectorNum).toNat % 16 = sectorNum.toNat / 2 ^ 24 := by
  rw [UInt32.le_iff_toNat_le] at h
  have hlt : sectorNum.toNat / 2 ^ 24 < 16 := by
    have h28 : (0x0FFFFFFF : UInt32).toNat = 2 ^ 28 - 1 := rfl
    omega
  have hbits : ((sectorNum >>> 24) &&& 0x0F).toUInt8.toNat = sectorNum.toNat / 2 ^ 24 := by
    have h24 : (24 : UInt32).toNat % 32 = 24 := rfl
    have h15 : (0x0F : UInt32).toNat = 2 ^ 4 - 1 := rfl
    rw [UInt32.toNat_toUInt8, UInt32.toNat_and, UInt32.toNat_shiftRight, h24, h15,
      Nat.and_two_pow_sub_one_eq_mod, Nat.shiftRight_eq_div_pow]
    omega
  have hor : ∀ x < 16, (0xE0 ||| x) % 16 = x ∧ (0xF0 ||| x) % 16 = x := by decide
  unfold select
  rw [UInt8.toNat_or, hbits]
  split
  · exact (hor _ hlt).1
  · exact (hor _ hlt).2

/-- The registers hold the sector number. -/
theorem lba_issue (command : UInt8) {sectorNum : UInt32} (count : ℕ)
    (h : sectorNum ≤ 0x0FFFFFFF) :
    (a.taskOf (a.issue D command sectorNum count b)).lba = sectorNum.toNat := by
  rw [taskOf_issue, TaskFile.lba]
  simp only
  rw [toNat_select sectorNum h]
  have h8 : (8 : UInt32).toNat = 8 := rfl
  have h16 : (16 : UInt32).toNat = 16 := rfl
  rw [toNat_byteAt sectorNum 8 (by decide), toNat_byteAt sectorNum 16 (by decide), toNat_lowByte,
    h8, h16]
  omega

/-! ### Moving words -/

theorem foldl_move_lt (h : t.moved.length + ws.length < 256) :
    ws.foldl TaskFile.move t = { t with moved := ws.reverse ++ t.moved } := by
  induction ws generalizing t with
  | nil => rfl
  | cons w ws ih =>
    rw [List.length_cons] at h
    rw [List.foldl_cons, TaskFile.move, if_neg (by omega),
      ih (by simp only [List.length_cons]; omega), List.reverse_cons, List.append_assoc]
    rfl

/-- **Moving a sector**: after 256 words there is one more transfer. -/
theorem foldl_move_sector (hmoved : t.moved = []) (hlen : ws.length = 256) :
    ws.foldl TaskFile.move t =
      { t with blocks := t.blocks + 1, moved := [],
               log := ⟨t.command, t.lba + t.blocks, ws⟩ :: t.log } := by
  obtain ⟨init, last, rfl⟩ : ∃ init last, ws = init ++ [last] :=
    ⟨ws.dropLast, ws.getLast (by rintro rfl; simp at hlen),
      (List.dropLast_append_getLast _).symm⟩
  rw [List.length_append, List.length_singleton] at hlen
  have hinit : init.foldl TaskFile.move t = { t with moved := init.reverse ++ t.moved } :=
    foldl_move_lt (by rw [hmoved, List.length_nil]; omega)
  rw [List.foldl_append, hinit, List.foldl_cons, List.foldl_nil, TaskFile.move, hmoved,
    List.append_nil, if_pos (by rw [List.length_reverse]; omega), List.reverse_cons,
    List.reverse_reverse]
  rfl

@[simp] theorem TaskFile.lba_moved {blocks : ℕ} {moved : List UInt16} {log : List Transfer} :
    TaskFile.lba { t with blocks := blocks, moved := moved, log := log } = t.lba := rfl

/-- The words of the sector `s` of a buffer. -/
def sectorWords (data : ℕ → UInt8) (s : ℕ) : List UInt16 :=
  (List.range 256).map fun i => word data (s * 512 + i * 2)

/-- The bytes of a sector, by its words. -/
def byteOf (ws : List UInt16) (k : ℕ) : UInt8 :=
  if k % 2 = 0 then (ws.getD (k / 2) 0 &&& 0xFF).toUInt8
  else ((ws.getD (k / 2) 0 >>> 8) &&& 0xFF).toUInt8

theorem length_sectorWords (data : ℕ → UInt8) (s : ℕ) : (sectorWords data s).length = 256 := by
  unfold sectorWords
  rw [List.length_map, List.length_range]

/-- The loop of `Write28` moves the words of the sector. -/
theorem taskOf_writeWords (data : ℕ → UInt8) (s : ℕ) :
    a.taskOf (a.writeWords D data s b) = (sectorWords data s).foldl TaskFile.move (a.taskOf b) := by
  unfold writeWords sectorWords
  refine forLoop_invariant_of_true (fun i b' => a.taskOf b' =
    ((List.range i).map fun i => word data (s * 512 + i * 2)).foldl TaskFile.move (a.taskOf b))
    rfl fun i b' _ _ hinv => ?_
  rw [taskOf_outw, hinv, List.range_succ, List.map_append, List.foldl_append]
  rfl

/-- The state of the loop of `Read28` after `i` words: they have gone over the port, and
their bytes are in the buffer. -/
def MovedSoFar (a : Ata) (b : Bus δ) (data : ℕ → UInt8) (s i : ℕ)
    (st : (ℕ → UInt8) × Bus δ) : Prop :=
  ∃ ws : List UInt16, ws.length = i ∧ a.taskOf st.2 = ws.foldl TaskFile.move (a.taskOf b) ∧
    ∀ k, st.1 k = if s * 512 ≤ k ∧ k < s * 512 + i * 2 then byteOf ws (k - s * 512) else data k

theorem movedSoFar_zero (data : ℕ → UInt8) (s : ℕ) : MovedSoFar a b data s 0 (data, b) :=
  ⟨[], rfl, rfl, fun k => by rw [if_neg (by omega)]⟩

/-- The bytes of the words before the last one stay what they are. -/
theorem byteOf_append {w : UInt16} {k : ℕ} (h : k < ws.length * 2) :
    byteOf (ws ++ [w]) k = byteOf ws k := by
  have hget : (ws ++ [w]).getD (k / 2) 0 = ws.getD (k / 2) 0 := by
    rw [List.getD_eq_getElem?_getD, List.getD_eq_getElem?_getD, List.getElem?_append_left (by omega)]
  rw [byteOf, byteOf, hget]

theorem byteOf_append_last {w : UInt16} {k : ℕ} (h : k / 2 = ws.length) :
    byteOf (ws ++ [w]) k =
      if k % 2 = 0 then (w &&& 0xFF).toUInt8 else ((w >>> 8) &&& 0xFF).toUInt8 := by
  have hget : (ws ++ [w]).getD (k / 2) 0 = w := by
    rw [h, List.getD_eq_getElem?_getD, List.getElem?_concat_length]
    rfl
  rw [byteOf, hget]

/-- One more word. -/
theorem MovedSoFar.next {data data' : ℕ → UInt8} {s i : ℕ} {b' : Bus δ}
    (h : MovedSoFar a b data s i (data', b')) :
    let w := (b'.inw D (a.port .data)).1
    MovedSoFar a b data s (i + 1)
      (Function.update (Function.update data' (s * 512 + i * 2) (w &&& 0xFF).toUInt8)
          (s * 512 + i * 2 + 1) ((w >>> 8) &&& 0xFF).toUInt8,
        (b'.inw D (a.port .data)).2) := by
  intro w
  obtain ⟨ws, hlen, htask, hdata⟩ := h
  simp only at htask hdata
  refine ⟨ws ++ [w], by rw [List.length_append, hlen, List.length_singleton], ?_, fun k => ?_⟩
  · rw [List.foldl_append, ← htask]
    exact taskOf_inw
  · simp only
    by_cases hhigh : k = s * 512 + i * 2 + 1
    · subst hhigh
      rw [Function.update_self, if_pos (by omega), byteOf_append_last (by omega),
        if_neg (by omega)]
    · rw [Function.update_of_ne hhigh]
      by_cases hlow : k = s * 512 + i * 2
      · subst hlow
        rw [Function.update_self, if_pos (by omega), byteOf_append_last (by omega),
          if_pos (by omega)]
      · rw [Function.update_of_ne hlow, hdata]
        by_cases hk : s * 512 ≤ k ∧ k < s * 512 + i * 2
        · rw [if_pos hk, if_pos (by omega), byteOf_append (by omega)]
        · rw [if_neg hk, if_neg (by omega)]

/-- The loop of `Read28` moves 256 words and puts their bytes into the buffer. -/
theorem readWords_spec (data : ℕ → UInt8) (s : ℕ) :
    ∃ ws : List UInt16, ws.length = 256 ∧
      a.taskOf (a.readWords D s (data, b)).2 = ws.foldl TaskFile.move (a.taskOf b) ∧
      ∀ k, (a.readWords D s (data, b)).1 k =
        if k / 512 = s then byteOf ws (k % 512) else data k := by
  have hrun := @forLoop_invariant_of_true _ _ 256 0 _ (MovedSoFar a b data s)
    (movedSoFar_zero data s) fun i st _ _ hinv => MovedSoFar.next (D := D) hinv
  rw [Nat.zero_add] at hrun
  have hall : MovedSoFar a b data s 256 (a.readWords D s (data, b)) := hrun
  obtain ⟨ws, hlen, htask, hdata⟩ := hall
  refine ⟨ws, hlen, htask, fun k => (hdata k).trans ?_⟩
  by_cases hk : k / 512 = s
  · have hmod : k - s * 512 = k % 512 := by omega
    rw [if_pos (by omega), if_pos hk, hmod]
  · rw [if_neg (by omega), if_neg hk]

end TaskFile

/-! ## Waiting for the drive -/

section Waiting

variable {δ : Type} {a : Ata} {D : Device δ} {b : Bus δ}

/-- The status that the read after `n` others finds. -/
def status (a : Ata) (D : Device δ) (n : ℕ) (b : Bus δ) : UInt8 := b.value D (a.port .command) n

/-- The drive is ready: it is busy for fewer than 100000 reads of its status, and then
neither an error nor a fault is pending. -/
def Ready (a : Ata) (D : Device δ) (b : Bus δ) : Prop :=
  ∃ n < 100000, (∀ j < n, busy (a.status D j b) = true) ∧ busy (a.status D n b) = false ∧
    err (a.status D n b) = false ∧ fault (a.status D n b) = false

/-- The drive requests data within 100000 reads of its status. -/
def Requests (a : Ata) (D : Device δ) (b : Bus δ) : Prop :=
  ∃ n < 100000, requests (a.status D n b) = true

/-- `WaitReady` reads the status until it is not busy, 100001 times at most, and looks at the
last one unless it has used up its timeout. -/
theorem waitReady_poll (a : Ata) (D : Device δ) (b : Bus δ) :
    ∃ n ≤ 100000, (∀ j < n, busy (a.status D j b) = true) ∧
      (n < 100000 → busy (a.status D n b) = false) ∧
      (a.waitReady D b).2 = b.reads D (a.port .command) (n + 1) ∧
      ((a.waitReady D b).1 = true ↔
        n < 100000 ∧ err (a.status D n b) = false ∧ fault (a.status D n b) = false) := by
  obtain ⟨n, hle, hbusy, hend, hpoll⟩ :=
    @Bus.poll_spec _ D (a.port .command) busy 100000 0 b
  simp only [Nat.zero_add] at hbusy hend hpoll
  have hstatus : a.getStatus D b = (b.value D (a.port .command) 0, b.reads D (a.port .command) 1) :=
    rfl
  refine ⟨n, hle, hbusy, hend, ?_⟩
  rw [waitReady, hstatus]
  simp only
  rw [hpoll]
  simp only
  have hlast : b.value D (a.port .command) n = a.status D n b := rfl
  rw [hlast]
  by_cases hn : n < 100000
  · rw [if_neg (by omega)]
    by_cases herr : err (a.status D n b) = true
    · rw [if_pos herr]
      exact ⟨rfl, by simp [herr]⟩
    · rw [if_neg herr]
      by_cases hfault : fault (a.status D n b) = true
      · rw [if_pos hfault]
        exact ⟨rfl, by simp [hfault]⟩
      · rw [if_neg hfault]
        exact ⟨rfl, by simp [hn, herr, hfault]⟩
  · rw [if_pos (by omega)]
    exact ⟨rfl, by simp [hn]⟩

/-- `WaitReady` only reads the status, and reports whether the drive is ready. -/
theorem waitReady_spec (a : Ata) (D : Device δ) (b : Bus δ) :
    ((a.waitReady D b).1 = true ↔ a.Ready D b) ∧
      ∃ n, (a.waitReady D b).2 = b.reads D (a.port .command) n := by
  obtain ⟨n, hle, hbusy, hend, hreads, hok⟩ := waitReady_poll a D b
  refine ⟨?_, _, hreads⟩
  rw [hok]
  -- the first status that is not busy decides
  constructor
  · rintro ⟨hn, herr, hfault⟩
    exact ⟨n, hn, hbusy, hend hn, herr, hfault⟩
  · rintro ⟨m, hm, hbusy', hidle, herr, hfault⟩
    have hmn : m = n := by
      by_contra hne
      rcases Nat.lt_or_gt_of_ne hne with h | h
      · exact absurd (hbusy m h) (by rw [hidle]; decide)
      · exact absurd (hbusy' n h) (by rw [hend (by omega)]; decide)
    subst hmn
    exact ⟨hm, herr, hfault⟩

/-- The wait for data reads the status until it requests data, 100001 times at most, and
gives up if it has used up its timeout. -/
theorem waitData_poll (a : Ata) (D : Device δ) (b : Bus δ) :
    ∃ n ≤ 100000, (∀ j < n, requests (a.status D j b) = false) ∧
      (n < 100000 → requests (a.status D n b) = true) ∧
      (a.waitData D b).2 = b.reads D (a.port .command) (n + 1) ∧
      ((a.waitData D b).1 = true ↔ n < 100000) := by
  obtain ⟨n, hle, hwait, hend, hpoll⟩ := @Bus.poll_spec _ D (a.port .command)
    (fun status => !requests status) 100000 0 b
  simp only [Nat.zero_add] at hwait hend hpoll
  have hstatus : a.getStatus D b = (b.value D (a.port .command) 0, b.reads D (a.port .command) 1) :=
    rfl
  refine ⟨n, hle, ?_, ?_, ?_⟩
  · intro j hj
    simpa [status] using hwait j hj
  · intro hn
    simpa [status] using hend hn
  · rw [waitData, hstatus]
    simp only
    rw [hpoll]
    refine ⟨rfl, ?_⟩
    simp only [bne_iff_ne, ne_eq, Nat.sub_eq_zero_iff_le, not_le]

/-- The wait for data only reads the status, and reports whether the drive requests
data. -/
theorem waitData_spec (a : Ata) (D : Device δ) (b : Bus δ) :
    ((a.waitData D b).1 = true ↔ a.Requests D b) ∧
      ∃ n, (a.waitData D b).2 = b.reads D (a.port .command) n := by
  obtain ⟨n, hle, hwait, hend, hreads, hok⟩ := waitData_poll a D b
  refine ⟨?_, _, hreads⟩
  rw [hok]
  constructor
  · intro hn
    exact ⟨n, hn, hend hn⟩
  · rintro ⟨m, hm, hreq⟩
    by_contra hn
    have hno := hwait m (by omega)
    rw [hreq] at hno
    cases hno

end Waiting

/-! ## The two calls -/

section Calls

variable {δ : Type} {a : Ata} {D : Device δ} {b : Bus δ} {x : UInt32} {data : ℕ → UInt8}
  {count s : ℕ}

/-- The drive requests the sectors of a write one after the other. -/
def RequestsWrite (a : Ata) (D : Device δ) (data : ℕ → UInt8) : (count s : ℕ) → Bus δ → Prop
  | 0, _, _ => True
  | count + 1, s, b =>
    a.Requests D b ∧ RequestsWrite a D data count (s + 1) (a.writeWords D data s (a.waitData D b).2)

/-- The drive offers the sectors of a read one after the other. -/
def RequestsRead (a : Ata) (D : Device δ) : (count s : ℕ) → (ℕ → UInt8) × Bus δ → Prop
  | 0, _, _ => True
  | count + 1, s, (data, b) =>
    a.Requests D b ∧ RequestsRead a D count (s + 1) (a.readWords D s (data, (a.waitData D b).2))

/-- **The drive serves a write**: the sector number has 28 bits, the drive is ready, and
after the command it requests the data. -/
def ServesWrite (a : Ata) (D : Device δ) (x : UInt32) (data : ℕ → UInt8) (count : ℕ)
    (b : Bus δ) : Prop :=
  x ≤ 0x0FFFFFFF ∧ a.Ready D b ∧
    a.RequestsWrite D data count 0 (a.issue D cmdWritePio x count (a.waitReady D b).2)

/-- **The drive serves a read.** -/
def ServesRead (a : Ata) (D : Device δ) (x : UInt32) (data : ℕ → UInt8) (count : ℕ)
    (b : Bus δ) : Prop :=
  x ≤ 0x0FFFFFFF ∧ a.Ready D b ∧
    a.RequestsRead D count 0 (data, a.issue D cmdReadPio x count (a.waitReady D b).2)

/-- The log after the sectors with the given words, from a sector on, have gone over the
data port. -/
def logged (command : UInt8) : (sector : ℕ) → List (List UInt16) → List Transfer → List Transfer
  | _, [], log => log
  | sector, ws :: wss, log => logged command (sector + 1) wss (⟨command, sector, ws⟩ :: log)

theorem commands_eq (b : Bus δ) : a.commands b = (a.taskOf b).commands := rfl

theorem transfers_eq (b : Bus δ) : a.transfers b = (a.taskOf b).log := rfl

@[simp] theorem taskOf_waitReady : a.taskOf (a.waitReady D b).2 = a.taskOf b := by
  obtain ⟨n, hn⟩ := (waitReady_spec a D b).2
  rw [hn, taskOf_reads]

@[simp] theorem taskOf_waitData : a.taskOf (a.waitData D b).2 = a.taskOf b := by
  obtain ⟨n, hn⟩ := (waitData_spec a D b).2
  rw [hn, taskOf_reads]

/-- `Flush` issues its command and transfers nothing. -/
theorem flush_spec : a.commands (a.flush D b) = cmdCacheFlush :: a.commands b ∧
    a.transfers (a.flush D b) = a.transfers b := by
  unfold flush
  rw [transfers_eq, transfers_eq, commands_eq, commands_eq, taskOf_waitReady, taskOf_outb]
  simp only
  rw [taskOf_wait, taskOf_outb]
  exact ⟨rfl, rfl⟩

/-- The loop of `Write28` over the sectors, when the drive requests them all. -/
theorem writeSectors_spec (hmoved : (a.taskOf b).moved = [])
    (hreq : a.RequestsWrite D data count s b) :
    (a.writeSectors D data count s b).1 = true ∧
      (a.taskOf (a.writeSectors D data count s b).2).commands = (a.taskOf b).commands ∧
      (a.taskOf (a.writeSectors D data count s b).2).log =
        logged (a.taskOf b).command ((a.taskOf b).lba + (a.taskOf b).blocks)
          ((List.range' s count).map (sectorWords data)) (a.taskOf b).log := by
  induction count generalizing s b with
  | zero => exact ⟨rfl, rfl, rfl⟩
  | succ count ih =>
    obtain ⟨hfirst, hrest⟩ := hreq
    have htask := taskOf_writeWords (a := a) (D := D) (b := (a.waitData D b).2) data s
    rw [taskOf_waitData, foldl_move_sector hmoved (length_sectorWords data s)] at htask
    obtain ⟨hok, hcommands, hlog⟩ := ih (by rw [htask]) hrest
    unfold writeSectors
    simp only
    rw [if_pos ((waitData_spec a D b).1.mpr hfirst)]
    refine ⟨hok, ?_, ?_⟩
    · rw [hcommands, htask]
    · rw [hlog, htask, List.range'_succ, List.map_cons]
      simp only [logged, TaskFile.lba_moved, Nat.add_assoc]

/-- The loop of `Read28` over the sectors, when the drive offers them all. -/
theorem readSectors_spec (hmoved : (a.taskOf b).moved = [])
    (hreq : a.RequestsRead D count s (data, b)) :
    ∃ wss : List (List UInt16), wss.length = count ∧
      (a.taskOf (a.readSectors D count s (data, b)).2).commands = (a.taskOf b).commands ∧
      (a.taskOf (a.readSectors D count s (data, b)).2).log =
        logged (a.taskOf b).command ((a.taskOf b).lba + (a.taskOf b).blocks) wss (a.taskOf b).log ∧
      ∀ k, (a.readSectors D count s (data, b)).1 k =
        if s ≤ k / 512 ∧ k / 512 < s + count then byteOf (wss.getD (k / 512 - s) []) (k % 512)
        else data k := by
  induction count generalizing s b data with
  | zero =>
    refine ⟨[], rfl, rfl, rfl, fun k => ?_⟩
    rw [if_neg (by omega)]
    rfl
  | succ count ih =>
    obtain ⟨hfirst, hrest⟩ := hreq
    obtain ⟨ws, hlen, htask, hdata⟩ := readWords_spec (a := a) (D := D) (b := (a.waitData D b).2)
      data s
    rw [taskOf_waitData, foldl_move_sector hmoved hlen] at htask
    unfold readSectors
    simp only
    generalize a.readWords D s (data, (a.waitData D b).2) = st at hrest htask hdata ⊢
    obtain ⟨data', b'⟩ := st
    simp only at htask hdata
    obtain ⟨wss, hlen', hcommands, hlog, hout⟩ := ih (by rw [htask]) hrest
    rw [if_pos ((waitData_spec a D b).1.mpr hfirst)]
    refine ⟨ws :: wss, by rw [List.length_cons, hlen'], ?_, ?_, fun k => ?_⟩
    · rw [hcommands, htask]
    · rw [hlog, htask]
      simp only [logged, TaskFile.lba_moved, Nat.add_assoc]
    · rw [hout, hdata]
      by_cases hlater : s + 1 ≤ k / 512 ∧ k / 512 < s + 1 + count
      · have hsub : k / 512 - s = (k / 512 - (s + 1)) + 1 := by omega
        rw [if_pos hlater, if_pos (by omega), hsub, List.getD_cons_succ]
      · rw [if_neg hlater]
        by_cases hk : k / 512 = s
        · rw [if_pos hk, if_pos (by omega), hk, Nat.sub_self, List.getD_cons_zero]
        · rw [if_neg hk, if_neg (by omega)]

/-- **A write that the drive serves** issues its command, transfers its sectors and
flushes. -/
theorem write28_of_serves (h : a.ServesWrite D x data count b) :
    a.commands (a.write28 D x data count b) = cmdCacheFlush :: cmdWritePio :: a.commands b ∧
      a.transfers (a.write28 D x data count b) =
        logged cmdWritePio x.toNat ((List.range count).map (sectorWords data)) (a.transfers b) := by
  obtain ⟨hx, hready, hreq⟩ := h
  have hissue := taskOf_issue (a := a) (D := D) (b := (a.waitReady D b).2) cmdWritePio x count
  have hlba := lba_issue (a := a) (D := D) (b := (a.waitReady D b).2) cmdWritePio count hx
  obtain ⟨hok, hcommands, hlog⟩ := writeSectors_spec (by rw [hissue]) hreq
  unfold write28
  rw [if_neg (UInt32.not_lt.mpr hx)]
  simp only
  rw [if_pos ((waitReady_spec a D b).1.mpr hready), if_pos hok, flush_spec.1, flush_spec.2,
    commands_eq, transfers_eq, hcommands, hlog, hlba, hissue, taskOf_waitReady, List.range_eq_range']
  exact ⟨rfl, rfl⟩

/-- **A read that the drive serves** issues its command, transfers its sectors and puts
them into the buffer. -/
theorem read28_of_serves (h : a.ServesRead D x data count b) :
    ∃ wss : List (List UInt16), wss.length = count ∧
      a.commands (a.read28 D x data count b).2 = cmdReadPio :: a.commands b ∧
      a.transfers (a.read28 D x data count b).2 =
        logged cmdReadPio x.toNat wss (a.transfers b) ∧
      ∀ k, (a.read28 D x data count b).1 k =
        if k / 512 < count then byteOf (wss.getD (k / 512) []) (k % 512) else data k := by
  obtain ⟨hx, hready, hreq⟩ := h
  have hissue := taskOf_issue (a := a) (D := D) (b := (a.waitReady D b).2) cmdReadPio x count
  have hlba := lba_issue (a := a) (D := D) (b := (a.waitReady D b).2) cmdReadPio count hx
  obtain ⟨wss, hlen, hcommands, hlog, hout⟩ := readSectors_spec (by rw [hissue]) hreq
  unfold read28
  rw [if_neg (UInt32.not_lt.mpr hx)]
  simp only
  rw [if_pos ((waitReady_spec a D b).1.mpr hready)]
  refine ⟨wss, hlen, ?_, ?_, fun k => ?_⟩
  · rw [commands_eq, hcommands, hissue, taskOf_waitReady]
    rfl
  · rw [transfers_eq, hlog, hlba, hissue, taskOf_waitReady]
    rfl
  · rw [hout]
    simp only [Nat.zero_le, true_and, Nat.zero_add, Nat.sub_zero]

/-- A call for which the drive is not ready only reads the status. -/
theorem write28_of_not_ready (h : ¬ a.Ready D b) :
    a.write28 D x data count b = b ∨ a.write28 D x data count b = (a.waitReady D b).2 := by
  unfold write28
  split
  · exact .inl rfl
  · simp only
    rw [if_neg fun hok => h ((waitReady_spec a D b).1.mp hok)]
    exact .inr rfl

theorem read28_of_not_ready (h : ¬ a.Ready D b) :
    a.read28 D x data count b = (data, b) ∨
      a.read28 D x data count b = (data, (a.waitReady D b).2) := by
  unfold read28
  split
  · exact .inl rfl
  · simp only
    rw [if_neg fun hok => h ((waitReady_spec a D b).1.mp hok)]
    exact .inr rfl

/-- A read whose first sector the drive does not offer ends after the command. -/
theorem read28_of_not_requests (hx : x ≤ 0x0FFFFFFF) (hready : a.Ready D b)
    (hreq : ¬ a.Requests D (a.issue D cmdReadPio x (count + 1) (a.waitReady D b).2)) :
    (a.read28 D x data (count + 1) b).1 = data ∧ (a.read28 D x data (count + 1) b).2 =
      (a.waitData D (a.issue D cmdReadPio x (count + 1) (a.waitReady D b).2)).2 := by
  unfold read28
  rw [if_neg (UInt32.not_lt.mpr hx)]
  simp only
  rw [if_pos ((waitReady_spec a D b).1.mpr hready)]
  unfold readSectors
  simp only
  rw [if_neg fun hok => hreq ((waitData_spec a D _).1.mp hok)]
  exact ⟨rfl, rfl⟩

/-- A read of one sector that the drive does not serve transfers nothing and leaves the
buffer alone. -/
theorem read28_of_not_serves (h : ¬ a.ServesRead D x data 1 b) :
    a.transfers (a.read28 D x data 1 b).2 = a.transfers b ∧
      (a.read28 D x data 1 b).1 = data := by
  by_cases hready : a.Ready D b
  · by_cases hx : x ≤ 0x0FFFFFFF
    · obtain ⟨hdata, hbus⟩ := @read28_of_not_requests _ a D b x data 0 hx hready
        fun hreq => h ⟨hx, hready, hreq, trivial⟩
      refine ⟨?_, hdata⟩
      rw [hbus, transfers_eq, taskOf_waitData, taskOf_issue, taskOf_waitReady]
      rfl
    · unfold read28
      rw [if_pos (UInt32.not_le.mp hx)]
      exact ⟨rfl, rfl⟩
  · rcases @read28_of_not_ready _ a D b x data 1 hready with hr | hr
    · rw [hr]
      exact ⟨rfl, rfl⟩
    · rw [hr, transfers_eq, taskOf_waitReady]
      exact ⟨rfl, rfl⟩

end Calls

end Ata
