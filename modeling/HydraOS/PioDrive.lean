/-
# The disk driver as a store of sectors

Two drives share the registers of a channel, and bit 4 of the device register selects one.
A drive that is always ready takes a command from the task file, the sector number from
four registers and the number of sectors from a fifth, and then moves a word with every
access of the data port.  Against such drives `Write28` stores its sectors and no others,
and `Read28` finds them again.
-/
import HydraOS.AtaTransfers

/-! ## The drives of a channel -/

/-- A transfer that a command has started: the drive, the direction, the sector whose turn
it is, how many sectors are left with it, and its words so far, the latest first. -/
structure PioTransfer where
  master : Bool
  write : Bool
  sector : ℕ
  left : ℕ
  moved : List UInt16

/-- The registers of a channel, the sectors of its two drives, `true` for the master, and
the transfer in progress. -/
structure PioChannel where
  sectorCount : UInt8
  lbaLow : UInt8
  lbaMid : UInt8
  lbaHi : UInt8
  device : UInt8
  disk : Bool → ℕ → Sector
  transfer : Option PioTransfer

namespace PioChannel

open Ata

/-- The sector number in the registers: 28 bits. -/
def lba (c : PioChannel) : ℕ :=
  c.device.toNat % 16 * 2 ^ 24 + c.lbaHi.toNat * 2 ^ 16 + c.lbaMid.toNat * 2 ^ 8 + c.lbaLow.toNat

/-- The number of sectors in the register, where 0 stands for 256. -/
def count (c : PioChannel) : ℕ := if c.sectorCount = 0 then 256 else c.sectorCount.toNat

/-- The drives are never busy and never fail; they request data during a transfer. -/
def status (c : PioChannel) : UInt8 := if c.transfer.isSome then 0x58 else 0x50

/-- A command.  A transfer needs a sector number, bit 6 of the device register; every other
command is done at once. -/
def start (c : PioChannel) (command : UInt8) : PioChannel :=
  let t := ⟨c.device &&& 0x10 = 0, command = cmdWritePio, c.lba, c.count, []⟩
  if (command = cmdReadPio ∨ command = cmdWritePio) ∧ c.device &&& 0x40 ≠ 0 then
    { c with transfer := some t }
  else { c with transfer := none }

/-- The word `i` of a sector: its low byte comes first. -/
def wordOf (sector : Sector) (i : ℕ) : UInt16 := word sector.get (i * 2)

/-- The transfer after a whole sector. -/
def nextSector (t : PioTransfer) : Option PioTransfer :=
  if t.left = 1 then none
  else some { t with sector := t.sector + 1, left := t.left - 1, moved := [] }

/-- The transfer after one more word. -/
def advance (t : PioTransfer) (w : UInt16) : Option PioTransfer :=
  if t.moved.length = 255 then nextSector t else some { t with moved := w :: t.moved }

/-- The sector with the given words. -/
def sectorOf (ws : List UInt16) : Sector := Bytes.tabulate (byteOf ws)

/-- A word that the host takes. -/
def give (c : PioChannel) : UInt16 × PioChannel :=
  match c.transfer with
  | some t =>
    if t.write then (0, c)
    else
      let w := wordOf (c.disk t.master t.sector) t.moved.length
      (w, { c with transfer := advance t w })
  | none => (0, c)

/-- A word from the host.  The last word of a sector stores it. -/
def take (c : PioChannel) (w : UInt16) : PioChannel :=
  match c.transfer with
  | some t =>
    if t.write then
      { c with
        transfer := advance t w
        disk := if t.moved.length = 255 then
            Function.update c.disk t.master
              (Function.update (c.disk t.master) t.sector (sectorOf (w :: t.moved).reverse))
          else c.disk }
    else c
  | none => c

end PioChannel

/-- The channel behind the ports of a driver. -/
def Ata.channel (a : Ata) : Device PioChannel where
  inb p c := (if p = a.port .command then c.status else 0, c)
  inw p c := if p = a.port .data then c.give else (0, c)
  outb p v c :=
    if p = a.port .sectorCount then { c with sectorCount := v }
    else if p = a.port .lbaLow then { c with lbaLow := v }
    else if p = a.port .lbaMid then { c with lbaMid := v }
    else if p = a.port .lbaHi then { c with lbaHi := v }
    else if p = a.port .device then { c with device := v }
    else if p = a.port .command then c.start v
    else c
  outw p w c := if p = a.port .data then c.take w else c

namespace PioChannel

open Ata

section Registers

variable {a : Ata} {b : Bus PioChannel}

/-! ## The registers -/

/-- Reading the status changes nothing. -/
@[simp] theorem reads_dev (n : ℕ) : (b.reads a.channel (a.port .command) n).dev = b.dev := by
  induction n with
  | zero => rfl
  | succ n ih => exact ih

@[simp] theorem wait_dev : (a.wait a.channel b).dev = b.dev := reads_dev 4

theorem status_eq (n : ℕ) : a.status a.channel n b = b.dev.status := by
  show (if a.port .command = a.port .command then _ else _) = _
  rw [if_pos rfl, reads_dev]

theorem outb_register (r : Register) (v : UInt8) :
    (b.outb a.channel (a.port r) v).dev = match r with
      | .sectorCount => { b.dev with sectorCount := v }
      | .lbaLow => { b.dev with lbaLow := v }
      | .lbaMid => { b.dev with lbaMid := v }
      | .lbaHi => { b.dev with lbaHi := v }
      | .device => { b.dev with device := v }
      | .command => b.dev.start v
      | _ => b.dev := by
  rw [Bus.outb_dev, channel]
  cases r <;> simp

/-- **The drives are ready.** -/
theorem ready : a.Ready a.channel b := by
  refine ⟨0, by decide, fun j hj => absurd hj (by omega), ?_⟩
  rw [status_eq, status]
  split <;> exact ⟨by decide, by decide, by decide⟩

/-- **They request data during a transfer.** -/
theorem requests_of_transfer (h : b.dev.transfer.isSome) : a.Requests a.channel b := by
  refine ⟨0, by decide, ?_⟩
  rw [status_eq, status, if_pos h]
  decide

@[simp] theorem waitReady_dev : (a.waitReady a.channel b).2.dev = b.dev := by
  obtain ⟨n, hn⟩ := (waitReady_spec a a.channel b).2
  rw [hn, reads_dev]

@[simp] theorem waitData_dev : (a.waitData a.channel b).2.dev = b.dev := by
  obtain ⟨n, hn⟩ := (waitData_spec a a.channel b).2
  rw [hn, reads_dev]

/-- The number of sectors in its register. -/
theorem count_ofNat {c : PioChannel} {n : ℕ} (h : 1 ≤ n) (hle : n ≤ 256) :
    count { c with sectorCount := .ofNat n } = n := by
  have hn : (UInt8.ofNat n).toNat = n % 256 := UInt8.toNat_ofNat'
  unfold count
  by_cases h256 : n = 256
  · subst h256
    rfl
  · rw [if_neg]
    · rw [hn]
      omega
    · intro h0
      change UInt8.ofNat n = 0 at h0
      rw [h0] at hn
      have hz : (0 : UInt8).toNat = 0 := rfl
      omega

/-- The value of the device register asks for a sector number and selects the drive. -/
theorem select_bits (a : Ata) (x : UInt32) : a.select x &&& 0x40 ≠ 0 ∧
    (decide (a.select x &&& 0x10 = 0) = a.master) := by
  have hbits : ∀ y : UInt8, y.toNat < 16 → ((0xE0 : UInt8) ||| y) &&& 0x40 ≠ 0 ∧
      ((0xF0 : UInt8) ||| y) &&& 0x40 ≠ 0 ∧ ((0xE0 : UInt8) ||| y) &&& 0x10 = 0 ∧
      ((0xF0 : UInt8) ||| y) &&& 0x10 ≠ 0 := by
    decide +kernel
  have hlow : ((x >>> 24) &&& 0x0F).toUInt8.toNat < 16 := by
    have h15 : (0x0F : UInt32).toNat = 2 ^ 4 - 1 := rfl
    rw [UInt32.toNat_toUInt8, UInt32.toNat_and, h15, Nat.and_two_pow_sub_one_eq_mod]
    omega
  obtain ⟨h1, h2, h3, h4⟩ := hbits _ hlow
  unfold select
  cases a.master
  · exact ⟨h2, decide_eq_false h4⟩
  · exact ⟨h1, decide_eq_true h3⟩

/-- **After the registers are written** the transfer starts, and the sectors are what they
were. -/
theorem issue_dev {command : UInt8} (hcmd : command = cmdReadPio ∨ command = cmdWritePio)
    {x : UInt32} (hx : x ≤ 0x0FFFFFFF) {n : ℕ} (hn : 1 ≤ n) (hle : n ≤ 256) :
    let c := (a.issue a.channel command x n b).dev
    c.disk = b.dev.disk ∧
      c.transfer = some ⟨a.master, command = cmdWritePio, x.toNat, n, []⟩ := by
  intro c
  -- the registers are those of the task file
  have hlba := lba_issue (a := a) (D := a.channel) (b := b) command n hx
  rw [taskOf_issue, TaskFile.lba] at hlba
  obtain ⟨hmode, hdrive⟩ := select_bits a x
  have hcount := @count_ofNat ⟨0, (x &&& 0xFF).toUInt8, ((x >>> 8) &&& 0xFF).toUInt8,
    ((x >>> 16) &&& 0xFF).toUInt8, a.select x, b.dev.disk, b.dev.transfer⟩ n hn hle
  have hc : c = start ⟨.ofNat n, (x &&& 0xFF).toUInt8, ((x >>> 8) &&& 0xFF).toUInt8,
      ((x >>> 16) &&& 0xFF).toUInt8, a.select x, b.dev.disk, b.dev.transfer⟩ command := by
    show (a.issue a.channel command x n b).dev = _
    unfold issue
    simp only [outb_register, wait_dev]
  rw [hc, start]
  simp only
  rw [if_pos ⟨hcmd, hmode⟩]
  refine ⟨rfl, ?_⟩
  rw [hdrive, hcount, lba]
  exact congrArg (fun sector => some (PioTransfer.mk a.master _ sector n [])) hlba

end Registers

/-! ## Words and sectors -/

section Words

theorem toNat_word (data : ℕ → UInt8) (k : ℕ) :
    (word data k).toNat = (data k).toNat + 256 * (data (k + 1)).toNat := toNat_bytes _ _

theorem low_word (data : ℕ → UInt8) (k : ℕ) : (word data k &&& 0xFF).toUInt8 = data k := by
  have hword := toNat_word data k
  have hlow := (data k).toNat_lt
  have h255 : (0xFF : UInt16).toNat = 2 ^ 8 - 1 := rfl
  rw [← UInt8.toNat_inj, UInt16.toNat_toUInt8, UInt16.toNat_and, h255,
    Nat.and_two_pow_sub_one_eq_mod, hword]
  omega

theorem high_word (data : ℕ → UInt8) (k : ℕ) :
    ((word data k >>> 8) &&& 0xFF).toUInt8 = data (k + 1) := by
  have hword := toNat_word data k
  have hlow := (data k).toNat_lt
  have hhigh := (data (k + 1)).toNat_lt
  have h8 : (8 : UInt16).toNat % 16 = 8 := rfl
  have h255 : (0xFF : UInt16).toNat = 2 ^ 8 - 1 := rfl
  rw [← UInt8.toNat_inj, UInt16.toNat_toUInt8, UInt16.toNat_and, h255,
    Nat.and_two_pow_sub_one_eq_mod, UInt16.toNat_shiftRight, h8, Nat.shiftRight_eq_div_pow, hword]
  omega

/-- The words of a sector give back its bytes. -/
theorem sectorOf_words (data : ℕ → UInt8) (s : ℕ) :
    sectorOf (sectorWords data s) = Bytes.tabulate fun j => data (s * 512 + j) := by
  funext j
  have hj := j.isLt
  have hget (i : ℕ) (hi : i < 256) :
      (sectorWords data s).getD i 0 = word data (s * 512 + i * 2) := by
    rw [sectorWords, List.getD_eq_getElem _ _ (by rw [List.length_map, List.length_range]; omega),
      List.getElem_map, List.getElem_range]
  rw [sectorOf, Bytes.tabulate, Bytes.tabulate, byteOf, hget _ (by omega)]
  split
  · rw [low_word]
    exact congrArg data (by omega)
  · rw [high_word]
    exact congrArg data (by omega)

end Words

/-! ## The loops over the words -/

section Loops

variable {a : Ata} {b : Bus PioChannel} {c : PioChannel} {t : PioTransfer} {ws : List UInt16}

theorem foldl_take_lt (ht : c.transfer = some t) (hwrite : t.write = true)
    (h : t.moved.length + ws.length < 256) :
    ws.foldl take c = { c with transfer := some { t with moved := ws.reverse ++ t.moved } } := by
  induction ws generalizing c t with
  | nil =>
    cases c
    cases ht
    rfl
  | cons w ws ih =>
    rw [List.length_cons] at h
    have hfirst : c.take w = { c with transfer := some { t with moved := w :: t.moved } } := by
      rw [take, ht]
      simp only
      rw [if_pos hwrite, advance, if_neg (by omega), if_neg (by omega)]
    rw [List.foldl_cons, hfirst,
      ih (t := { t with moved := w :: t.moved }) rfl hwrite (by simp only [List.length_cons]; omega),
      List.reverse_cons, List.append_assoc]
    rfl

/-- **The words of a sector store it.** -/
theorem foldl_take_sector (ht : c.transfer = some t) (hwrite : t.write = true)
    (hmoved : t.moved = []) (hlen : ws.length = 256) :
    ws.foldl take c = { c with
      transfer := nextSector t
      disk := Function.update c.disk t.master
        (Function.update (c.disk t.master) t.sector (sectorOf ws)) } := by
  obtain ⟨init, last, rfl⟩ : ∃ init last, ws = init ++ [last] :=
    ⟨ws.dropLast, ws.getLast (by rintro rfl; simp at hlen),
      (List.dropLast_append_getLast _).symm⟩
  rw [List.length_append, List.length_singleton] at hlen
  rw [List.foldl_append, foldl_take_lt ht hwrite (by rw [hmoved, List.length_nil]; omega),
    List.foldl_cons, List.foldl_nil, take, hmoved, List.append_nil]
  simp only
  have h255 : init.reverse.length = 255 := by
    rw [List.length_reverse]
    omega
  rw [if_pos hwrite, advance, if_pos h255, if_pos h255, List.reverse_cons, List.reverse_reverse]
  rfl

/-- The loop of `Write28` over the words hands them to the drive. -/
theorem writeWords_dev (data : ℕ → UInt8) (s : ℕ) :
    (a.writeWords a.channel data s b).dev = (sectorWords data s).foldl take b.dev := by
  unfold writeWords sectorWords
  refine forLoop_invariant_of_true (fun i (b' : Bus PioChannel) => b'.dev =
    ((List.range i).map fun i => word data (s * 512 + i * 2)).foldl take b.dev)
    rfl fun i b' _ _ hinv => ?_
  rw [List.range_succ, List.map_append, List.foldl_append, ← hinv]
  show (if a.port .data = a.port .data then _ else _) = _
  rw [if_pos rfl]
  rfl

/-- The loop of `Read28` after `i` words of a sector. -/
def GivenSoFar (b : Bus PioChannel) (t : PioTransfer) (data : ℕ → UInt8) (s i : ℕ)
    (st : (ℕ → UInt8) × Bus PioChannel) : Prop :=
  st.2.dev = { b.dev with transfer := if i = 256 then nextSector t else some { t with
    moved := ((List.range i).map (wordOf (b.dev.disk t.master t.sector))).reverse } } ∧
  ∀ k, st.1 k = if s * 512 ≤ k ∧ k < s * 512 + i * 2 then
    (b.dev.disk t.master t.sector).get (k - s * 512) else data k

/-- One more word. -/
theorem GivenSoFar.next {data data' : ℕ → UInt8} {s i : ℕ} {b' : Bus PioChannel}
    (h : GivenSoFar b t data s i (data', b')) (hread : t.write = false) (hi : i < 256) :
    let w := (b'.inw a.channel (a.port .data)).1
    GivenSoFar b t data s (i + 1)
      (Function.update (Function.update data' (s * 512 + i * 2) (w &&& 0xFF).toUInt8)
          (s * 512 + i * 2 + 1) ((w >>> 8) &&& 0xFF).toUInt8,
        (b'.inw a.channel (a.port .data)).2) := by
  intro w
  obtain ⟨hdev, hdata⟩ := h
  simp only at hdev hdata
  rw [if_neg (by omega)] at hdev
  have hgive : a.channel.inw (a.port .data) b'.dev = b'.dev.give := if_pos rfl
  have hlen : ((List.range i).map (wordOf (b.dev.disk t.master t.sector))).reverse.length = i := by
    rw [List.length_reverse, List.length_map, List.length_range]
  have hw : w = wordOf (b.dev.disk t.master t.sector) i := by
    show (a.channel.inw (a.port .data) b'.dev).1 = _
    rw [hgive, hdev, give]
    simp only
    rw [if_neg (by rw [hread]; decide), hlen]
  refine ⟨?_, fun k => ?_⟩
  · show (a.channel.inw (a.port .data) b'.dev).2 = _
    rw [hgive, hdev, give]
    simp only
    rw [if_neg (by rw [hread]; decide), advance, hlen]
    by_cases h255 : i = 255
    · rw [if_pos h255, if_pos (by omega)]
      rfl
    · rw [if_neg h255, if_neg (by omega), List.range_succ, List.map_append, List.reverse_append]
      rfl
  · simp only
    rw [hw, wordOf, low_word, high_word]
    by_cases hhigh : k = s * 512 + i * 2 + 1
    · subst hhigh
      rw [Function.update_self, if_pos (by omega)]
      exact congrArg _ (by omega)
    · rw [Function.update_of_ne hhigh]
      by_cases hlow : k = s * 512 + i * 2
      · subst hlow
        rw [Function.update_self, if_pos (by omega)]
        exact congrArg _ (by omega)
      · rw [Function.update_of_ne hlow, hdata]
        by_cases hk : s * 512 ≤ k ∧ k < s * 512 + i * 2
        · rw [if_pos hk, if_pos (by omega)]
        · rw [if_neg hk, if_neg (by omega)]

/-- **The loop of `Read28` over the words** copies the sector. -/
theorem readWords_dev (ht : b.dev.transfer = some t) (hread : t.write = false)
    (hmoved : t.moved = []) (data : ℕ → UInt8) (s : ℕ) :
    let r := a.readWords a.channel s (data, b)
    r.2.dev = { b.dev with transfer := nextSector t } ∧
      ∀ k, r.1 k = if k / 512 = s then (b.dev.disk t.master t.sector).get (k % 512)
        else data k := by
  have hzero : GivenSoFar b t data s 0 (data, b) := by
    refine ⟨?_, fun k => by rw [if_neg (by omega)]⟩
    rw [if_neg (by decide), List.range_zero, List.map_nil, List.reverse_nil, ← hmoved, ← ht]
  have hrun := @forLoop_invariant_of_true _ _ 256 0 _ (GivenSoFar b t data s) hzero
    fun i st _ hi hinv => GivenSoFar.next (a := a) hinv hread (by omega)
  rw [Nat.zero_add] at hrun
  have hall : GivenSoFar b t data s 256 (a.readWords a.channel s (data, b)) := hrun
  refine ⟨by rw [hall.1, if_pos rfl], fun k => (hall.2 k).trans ?_⟩
  by_cases hk : k / 512 = s
  · have hmod : k - s * 512 = k % 512 := by omega
    rw [if_pos (by omega), if_pos hk, hmod]
  · rw [if_neg (by omega), if_neg hk]

/-! ## The loops over the sectors -/

/-- The sectors of a drive after the sectors of a buffer from `s` on have been stored from
the sector `x` on. -/
def stored (disk : Bool → ℕ → Sector) (master : Bool) (x : ℕ) (data : ℕ → UInt8) :
    (count s : ℕ) → Bool → ℕ → Sector
  | 0, _ => disk
  | count + 1, s => stored (Function.update disk master (Function.update (disk master) x
      (Bytes.tabulate fun j => data (s * 512 + j)))) master (x + 1) data count (s + 1)

theorem stored_eq (disk : Bool → ℕ → Sector) (master : Bool) (x : ℕ) (data : ℕ → UInt8)
    (count s : ℕ) (m : Bool) (y : ℕ) :
    stored disk master x data count s m y = if m = master ∧ x ≤ y ∧ y < x + count then
      Bytes.tabulate fun j => data ((s + (y - x)) * 512 + j) else disk m y := by
  induction count generalizing disk x s with
  | zero => rw [stored, if_neg (by omega)]
  | succ count ih =>
    rw [stored, ih]
    by_cases hlater : m = master ∧ x + 1 ≤ y ∧ y < x + 1 + count
    · have hsub : s + 1 + (y - (x + 1)) = s + (y - x) := by omega
      rw [if_pos hlater, if_pos ⟨hlater.1, by omega, by omega⟩, hsub]
    · rw [if_neg hlater]
      by_cases hy : m = master ∧ y = x
      · obtain ⟨rfl, rfl⟩ := hy
        rw [Function.update_self, Function.update_self, if_pos ⟨rfl, le_rfl, by omega⟩,
          Nat.sub_self, Nat.add_zero]
      · by_cases hm : m = master
        · subst hm
          have hyx : y ≠ x := fun h => hy ⟨rfl, h⟩
          rw [Function.update_self, Function.update_of_ne hyx,
            if_neg fun h => hlater ⟨rfl, by omega, by omega⟩]
        · rw [Function.update_of_ne hm, if_neg fun h => hm h.1]

/-- **The loop of `Write28` over the sectors** stores them. -/
theorem writeSectors_dev {count x : ℕ} (hcount : 1 ≤ count) (data : ℕ → UInt8) (s : ℕ)
    (ht : b.dev.transfer = some ⟨a.master, true, x, count, []⟩) :
    let r := a.writeSectors a.channel data count s b
    r.1 = true ∧ r.2.dev.disk = stored b.dev.disk a.master x data count s := by
  induction count generalizing x s b with
  | zero => omega
  | succ count ih =>
    have hreq : a.Requests a.channel b := requests_of_transfer (by rw [ht]; rfl)
    have hdev := writeWords_dev (a := a) (b := (a.waitData a.channel b).2) data s
    rw [waitData_dev, foldl_take_sector ht rfl rfl (length_sectorWords data s),
      sectorOf_words] at hdev
    unfold writeSectors
    simp only
    rw [if_pos ((waitData_spec a a.channel b).1.mpr hreq), stored]
    generalize a.writeWords a.channel data s (a.waitData a.channel b).2 = b' at hdev ⊢
    cases count with
    | zero => exact ⟨rfl, congrArg PioChannel.disk hdev⟩
    | succ count =>
      have hnext : b'.dev.transfer = some ⟨a.master, true, x + 1, count + 1, []⟩ := by
        rw [hdev, nextSector, if_neg (by simp)]
        rfl
      obtain ⟨hok, hdisk⟩ := ih (by omega) (s + 1) hnext
      refine ⟨hok, hdisk.trans ?_⟩
      rw [hdev]

/-- **The loop of `Read28` over the sectors** copies them. -/
theorem readSectors_dev {count x : ℕ} (hcount : 1 ≤ count) (data : ℕ → UInt8) (s : ℕ)
    (ht : b.dev.transfer = some ⟨a.master, false, x, count, []⟩) :
    let r := a.readSectors a.channel count s (data, b)
    r.2.dev.disk = b.dev.disk ∧
      ∀ k, r.1 k = if s ≤ k / 512 ∧ k / 512 < s + count then
        (b.dev.disk a.master (x + (k / 512 - s))).get (k % 512) else data k := by
  induction count generalizing x s b data with
  | zero => omega
  | succ count ih =>
    have hreq : a.Requests a.channel b := requests_of_transfer (by rw [ht]; rfl)
    obtain ⟨hdev, hdata⟩ := readWords_dev (a := a) (b := (a.waitData a.channel b).2)
      (by rw [waitData_dev, ht]) rfl rfl data s
    rw [waitData_dev] at hdev hdata
    unfold readSectors
    simp only
    rw [if_pos ((waitData_spec a a.channel b).1.mpr hreq)]
    generalize a.readWords a.channel s (data, (a.waitData a.channel b).2) = st at hdev hdata ⊢
    obtain ⟨data', b'⟩ := st
    simp only at hdev hdata
    have hsame : b'.dev.disk = b.dev.disk := by rw [hdev]
    have hfirst (k : ℕ) (hk : k / 512 = s) :
        (if s ≤ k / 512 ∧ k / 512 < s + (count + 1) then
          (b.dev.disk a.master (x + (k / 512 - s))).get (k % 512) else data k) = data' k := by
      rw [hdata, if_pos hk, if_pos (by omega), hk, Nat.sub_self, Nat.add_zero]
    cases count with
    | zero =>
      refine ⟨hsame, fun k => ?_⟩
      by_cases hk : k / 512 = s
      · exact (hfirst k hk).symm
      · rw [if_neg (by omega)]
        exact (hdata k).trans (if_neg hk)
    | succ count =>
      have hnext : b'.dev.transfer = some ⟨a.master, false, x + 1, count + 1, []⟩ := by
        rw [hdev, nextSector, if_neg (by simp)]
        rfl
      obtain ⟨hdisk, hout⟩ := ih (by omega) data' (s + 1) hnext
      refine ⟨hdisk.trans hsame, fun k => (hout k).trans ?_⟩
      by_cases hk : k / 512 = s
      · rw [if_neg (by omega)]
        exact (hfirst k hk).symm
      · by_cases hlater : s + 1 ≤ k / 512 ∧ k / 512 < s + 1 + (count + 1)
        · have hsub : x + 1 + (k / 512 - (s + 1)) = x + (k / 512 - s) := by omega
          rw [if_pos hlater, if_pos (by omega), hsub, hdev]
        · rw [if_neg hlater, if_neg (by omega), hdata, if_neg hk]

end Loops

/-! ## The store -/

section Store

variable {a : Ata} {b : Bus PioChannel} {x : UInt32} {count : ℕ} {data : ℕ → UInt8}

theorem le_of_add_le (hcount : 1 ≤ count) (h : x.toNat + count ≤ 2 ^ 28) : x ≤ 0x0FFFFFFF := by
  have h28 : (0x0FFFFFFF : UInt32).toNat = 2 ^ 28 - 1 := rfl
  rw [UInt32.le_iff_toNat_le]
  omega

/-- `Flush` moves no data. -/
theorem flush_disk : (a.flush a.channel b).dev.disk = b.dev.disk := by
  unfold flush
  rw [waitReady_dev, outb_register]
  simp only
  rw [start, if_neg (by simp [cmdCacheFlush, cmdReadPio, cmdWritePio]), wait_dev, outb_register]

/-- **`Write28` stores its sectors.** -/
theorem write28_disk (hcount : 1 ≤ count) (hle : count ≤ 256) (h : x.toNat + count ≤ 2 ^ 28) :
    (a.write28 a.channel x data count b).dev.disk =
      stored b.dev.disk a.master x.toNat data count 0 := by
  have hx := le_of_add_le hcount h
  obtain ⟨hdisk, htransfer⟩ := issue_dev (a := a) (b := (a.waitReady a.channel b).2)
    (.inr rfl) hx hcount hle
  obtain ⟨hok, hstored⟩ := writeSectors_dev hcount data 0 htransfer
  unfold write28
  rw [if_neg (UInt32.not_lt.mpr hx)]
  simp only
  rw [if_pos ((waitReady_spec a a.channel b).1.mpr ready), if_pos hok, flush_disk, hstored, hdisk,
    waitReady_dev]

/-- **`Read28` copies the sectors.** -/
theorem read28_data (hcount : 1 ≤ count) (hle : count ≤ 256) (h : x.toNat + count ≤ 2 ^ 28) :
    let r := a.read28 a.channel x data count b
    r.2.dev.disk = b.dev.disk ∧ ∀ k, r.1 k = if k / 512 < count then
      (b.dev.disk a.master (x.toNat + k / 512)).get (k % 512) else data k := by
  have hx := le_of_add_le hcount h
  obtain ⟨hdisk, htransfer⟩ := issue_dev (a := a) (b := (a.waitReady a.channel b).2)
    (.inl rfl) hx hcount hle
  obtain ⟨hsame, hdata⟩ := readSectors_dev hcount data 0 htransfer
  unfold read28
  rw [if_neg (UInt32.not_lt.mpr hx)]
  simp only
  rw [if_pos ((waitReady_spec a a.channel b).1.mpr ready)]
  rw [hdisk, waitReady_dev] at hsame hdata
  refine ⟨hsame, fun k => (hdata k).trans ?_⟩
  simp only [Nat.zero_le, true_and, Nat.zero_add, Nat.sub_zero]

/-- **The driver is a store of sectors.**  Against drives that are always ready, whatever
their sectors, their registers and the drive that is selected: `Write28` of 1 to 256
sectors below 2^28 makes them hold the data and changes no other sector of either drive,
and `Read28` of the same sectors then fills a buffer with the data and changes no sector.
For a sector number above 0x0FFFFFFF neither operates any port of any device. -/
theorem sector_store (a : Ata) (x : UInt32) (count : ℕ) (data : ℕ → UInt8)
    (b : Bus PioChannel) :
    (1 ≤ count → count ≤ 256 → x.toNat + count ≤ 2 ^ 28 →
      let b' := a.write28 a.channel x data count b
      (∀ s < count, b'.dev.disk a.master (x.toNat + s) =
          Bytes.tabulate fun j => data (s * 512 + j)) ∧
        (∀ m y, ¬(m = a.master ∧ x.toNat ≤ y ∧ y < x.toNat + count) →
          b'.dev.disk m y = b.dev.disk m y) ∧
        ∀ buf, let r := a.read28 a.channel x buf count b'
          (∀ k, r.1 k = if k < count * 512 then data k else buf k) ∧
            r.2.dev.disk = b'.dev.disk) ∧
      (x > 0x0FFFFFFF → ∀ {δ : Type} (D : Device δ) (c : Bus δ) (buf : ℕ → UInt8),
        a.write28 D x data count c = c ∧ a.read28 D x buf count c = (buf, c)) := by
  constructor
  · intro hcount hle h b'
    have hdisk : b'.dev.disk = stored b.dev.disk a.master x.toNat data count 0 :=
      write28_disk hcount hle h
    have hhold (s : ℕ) (hs : s < count) : b'.dev.disk a.master (x.toNat + s) =
        Bytes.tabulate fun j => data (s * 512 + j) := by
      rw [hdisk, stored_eq, if_pos ⟨rfl, by omega, by omega⟩, Nat.add_sub_cancel_left, Nat.zero_add]
    refine ⟨hhold, fun m y hy => ?_, fun buf => ?_⟩
    · rw [hdisk, stored_eq, if_neg hy]
    · obtain ⟨hsame, hdata⟩ := @read28_data a b' x count buf hcount hle h
      refine ⟨fun k => (hdata k).trans ?_, hsame⟩
      by_cases hk : k < count * 512
      · have hs : k / 512 < count := by omega
        rw [if_pos hs, if_pos hk, hhold _ hs, Bytes.get_tabulate _ (Nat.mod_lt _ (by decide))]
        exact congrArg data (by omega)
      · rw [if_neg (by omega), if_neg hk]
  · intro hx δ D c buf
    constructor
    · rw [write28, if_pos hx]
    · rw [read28, if_pos hx]

/-- Two blank drives, with nothing to do. -/
def blankChannel : PioChannel := ⟨0, 0, 0, 0, 0, fun _ _ _ => 0, none⟩

/-- Two sectors on the slave, at the end of its 28-bit range. -/
theorem sector_store_slave :
    let a : Ata := ⟨false, 0x1F0⟩
    let b := a.write28 a.channel 0x0FFFFFFE (fun k => .ofNat (k / 512 + 7)) 2 ⟨blankChannel, []⟩
    (b.dev.disk false 0x0FFFFFFF).get 511 = 8 ∧ (b.dev.disk true 0x0FFFFFFF).get 511 = 0 ∧
      (a.read28 a.channel 0x0FFFFFFE (fun _ => 0) 2 b).1 600 = 8 := by
  intro a b
  have hb : b = a.write28 a.channel 0x0FFFFFFE (fun k => .ofNat (k / 512 + 7)) 2
      ⟨blankChannel, []⟩ := rfl
  obtain ⟨hhold, hother, hread⟩ := (sector_store a 0x0FFFFFFE 2 (fun k => .ofNat (k / 512 + 7))
    ⟨blankChannel, []⟩).1 (by decide) (by decide) (by decide)
  have hmaster : a.master = false := rfl
  have hsector : (0x0FFFFFFE : UInt32).toNat + 1 = 0x0FFFFFFF := rfl
  have hlast := hhold 1 (by decide)
  rw [hmaster, hsector] at hlast
  -- with `b` in its place the kernel compares the two sides without running the driver
  rw [hb]
  refine ⟨?_, ?_, ?_⟩
  · rw [hlast]
    exact Bytes.get_tabulate _ (by decide)
  · rw [hother true 0x0FFFFFFF (by simp [a])]
    rfl
  · rw [(hread fun _ => 0).1 600]
    decide

end Store

end PioChannel
