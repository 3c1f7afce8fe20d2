/-
# The timer: `pit.cpp`

The programmable interval timer counts its interrupts in 32 bits.  The conversion between
ticks and milliseconds multiplies before it divides, and the product wraps: the time of day
jumps back after twelve hours, and a long sleep ends early.  The divisor that the timer chip
gets has only 16 bits, which is too few for frequencies below 19 Hz.
-/
import HydraOS.Bytes
import HydraOS.IoPorts
import HydraOS.Runs

/-! ## Quotients of wrapped numbers -/

theorem wrapped_div_lt {n c m : ℕ} (hc : 0 < c) (hcm : c ≤ m) (h : m ≤ n) : n % m / c < n / c := by
  have hmod := Nat.mod_add_div n m
  have hquot : 1 ≤ n / m := (Nat.one_le_div_iff (by omega)).mpr h
  have hle : n % m + c ≤ n := by
    have hmul : m * 1 ≤ m * (n / m) := Nat.mul_le_mul_left m hquot
    omega
  calc n % m / c < n % m / c + 1 := Nat.lt_succ_self _
    _ = (n % m + c) / c := (Nat.add_div_right _ hc).symm
    _ ≤ n / c := Nat.div_le_div_right hle

/-- **A quotient survives the wrap** of the dividend only if there is none. -/
theorem wrapped_div_eq_iff {n c m : ℕ} (hc : 0 < c) (hcm : c ≤ m) : n % m / c = n / c ↔ n < m := by
  constructor
  · intro h
    by_contra hle
    have hlt := wrapped_div_lt hc hcm (not_lt.mp hle)
    omega
  · intro h
    rw [Nat.mod_eq_of_lt h]

/-! ## The driver -/

/-- A `ProgrammableIntervalTimer` object. -/
structure ProgrammableIntervalTimer where
  frequency : UInt32
  ticks : UInt32

namespace ProgrammableIntervalTimer

/-- The port of channel 0. -/
def dataPort0 : UInt16 := 0x40

/-- The port for commands. -/
def commandPort : UInt16 := 0x43

section Driver

variable {δ : Type} (D : Device δ)

/-- `SetFrequency`. -/
def setFrequency (freq : UInt32) (t : ProgrammableIntervalTimer) (b : Bus δ) :
    ProgrammableIntervalTimer × Bus δ :=
  if freq = 0 then (t, b)
  else
    let t := { t with frequency := freq }
    let divisor : UInt32 := 1193180 / freq
    let b := b.outb D commandPort 0x36
    let b := b.outb D dataPort0 (divisor &&& 0xFF).toUInt8
    let b := b.outb D dataPort0 ((divisor >>> 8) &&& 0xFF).toUInt8
    (t, b)

/-- The constructor, on memory that holds `raw`. -/
def construct (raw : ProgrammableIntervalTimer) (b : Bus δ) : ProgrammableIntervalTimer × Bus δ :=
  setFrequency D 100 { raw with ticks := 0 } b

end Driver

/-- `GetFrequency`. -/
def getFrequency (t : ProgrammableIntervalTimer) : UInt32 := t.frequency

/-- `GetMilliseconds`. -/
def getMilliseconds (t : ProgrammableIntervalTimer) : UInt32 := (t.ticks * 1000) / t.frequency

/-- `HandleInterrupt(esp)`. -/
def handleInterrupt (t : ProgrammableIntervalTimer) (esp : UInt32) :
    ProgrammableIntervalTimer × UInt32 :=
  ({ t with ticks := t.ticks + 1 }, esp)

/-- Each interrupt is a tick. -/
theorem finalState_handleInterrupt (t : ProgrammableIntervalTimer) (esps : List UInt32) :
    finalState handleInterrupt t esps = { t with ticks := t.ticks + .ofNat esps.length } := by
  induction esps generalizing t with
  | nil =>
    rw [List.length_nil]
    exact congrArg (ProgrammableIntervalTimer.mk t.frequency) (UInt32.add_zero _).symm
  | cons esp esps ih =>
    rw [finalState_cons, ih, List.length_cons]
    apply congrArg (ProgrammableIntervalTimer.mk t.frequency)
    show t.ticks + 1 + _ = _
    rw [UInt32.add_assoc, UInt32.ofNat_add, UInt32.add_comm 1]
    rfl

/-! ## The time since the start -/

section Uptime

variable {δ : Type} (D : Device δ) (raw : ProgrammableIntervalTimer) (b : Bus δ)

/-- The result of `GetMilliseconds` after the interrupts `esps`, from the constructor on. -/
def uptime (esps : List UInt32) : ℕ :=
  (finalState handleInterrupt (construct D raw b).1 esps).getMilliseconds.toNat

theorem uptime_eq (esps : List UInt32) :
    uptime D raw b esps = esps.length * 1000 % 2 ^ 32 / 100 := by
  have hstart : (construct D raw b).1 = ⟨100, 0⟩ := rfl
  have h100 : (100 : UInt32).toNat = 100 := rfl
  have h1000 : (1000 : UInt32).toNat = 1000 := rfl
  rw [uptime, finalState_handleInterrupt, hstart, getMilliseconds, UInt32.toNat_div,
    UInt32.toNat_mul, UInt32.zero_add, UInt32.toNat_ofNat', h100, h1000, Nat.mod_mul_mod]

/-- **When the uptime is exact.**  After every number of interrupts for which ten milliseconds
each fit in 32 bits, the uptime is that number, and has never decreased on the way, if and only
if a thousand times the number of interrupts fits too. -/
theorem uptime_exact_iff (esps : List UInt32) (hfit : 10 * esps.length < 2 ^ 32) :
    (uptime D raw b esps = 10 * esps.length ↔ esps.length * 1000 < 2 ^ 32) ∧
      ((∀ past esp, past ++ [esp] <+: esps →
          uptime D raw b past ≤ uptime D raw b (past ++ [esp])) ↔ esps.length * 1000 < 2 ^ 32) := by
  constructor
  · have hexact : 10 * esps.length = esps.length * 1000 / 100 := by omega
    rw [uptime_eq, hexact]
    exact wrapped_div_eq_iff (by omega) (by omega)
  · constructor
    · intro hmono
      by_contra hwrap
      -- the first interrupt at which the product wraps
      have hprefix : esps.take 4294968 <+: esps := List.take_prefix 4294968 esps
      have hlength : (esps.take 4294968).length = 4294968 := by
        rw [List.length_take]
        omega
      obtain ⟨past, esp, heq⟩ : ∃ past esp, esps.take 4294968 = past ++ [esp] := by
        have hne : esps.take 4294968 ≠ [] := List.ne_nil_of_length_pos (by omega)
        exact ⟨_, _, (List.dropLast_append_getLast hne).symm⟩
      rw [heq] at hprefix hlength
      have hpast : past.length = 4294967 := by
        rw [List.length_append, List.length_singleton] at hlength
        omega
      have hle := hmono past esp hprefix
      rw [uptime_eq, uptime_eq, hlength, hpast] at hle
      exact absurd hle (by decide)
    · intro hwrap past esp hprefix
      have hle := hprefix.length_le
      rw [List.length_append, List.length_singleton] at hle
      have hafter : (past.length + 1) * 1000 < 2 ^ 32 :=
        (Nat.mul_le_mul_right 1000 hle).trans_lt hwrap
      have hstep : past.length * 1000 ≤ (past.length + 1) * 1000 :=
        Nat.mul_le_mul_right 1000 (Nat.le_succ _)
      rw [uptime_eq, uptime_eq, List.length_append, List.length_singleton,
        Nat.mod_eq_of_lt (hstep.trans_lt hafter), Nat.mod_eq_of_lt hafter]
      exact Nat.div_le_div_right hstep

end Uptime

/-- Nothing behind the ports. -/
def noDevice : Device Unit := ⟨fun _ s => (0, s), fun _ s => (0, s), fun _ _ s => s, fun _ _ s => s⟩

theorem uptime_exact_three : uptime noDevice ⟨0, 0⟩ ⟨(), []⟩ [0, 0, 0] = 30 :=
  (uptime_exact_iff noDevice ⟨0, 0⟩ ⟨(), []⟩ [0, 0, 0] (by norm_num)).1.mpr (by norm_num)

/-- After not quite twelve hours the uptime starts again at seven milliseconds. -/
theorem uptime_jumps_back :
    10 * (List.replicate 4294968 (0 : UInt32)).length < 2 ^ 32 ∧
      uptime noDevice ⟨0, 0⟩ ⟨(), []⟩ (List.replicate 4294967 0) = 42949670 ∧
      uptime noDevice ⟨0, 0⟩ ⟨(), []⟩ (List.replicate 4294968 0) = 7 := by
  rw [uptime_eq, uptime_eq, List.length_replicate, List.length_replicate]
  norm_num

/-! ## Sleep -/

/-- A call of `Sleep` that waits, with its variables, and whether it has returned. -/
structure Sleeping where
  timer : ProgrammableIntervalTimer
  startTicks : UInt32
  targetTicks : UInt32
  returned : Bool

/-- What happens while a call of `Sleep` waits: an interrupt, or the test of its loop. -/
inductive SleepEvent where
  | interrupt (esp : UInt32)
  | test

/-- `Sleep(milliseconds)` in front of its loop. -/
def sleep (milliseconds : UInt32) (t : ProgrammableIntervalTimer) : Sleeping :=
  ⟨t, t.ticks, (milliseconds * t.frequency) / 1000, false⟩

/-- One event. -/
def Sleeping.step (s : Sleeping) : SleepEvent → Sleeping × Unit
  | .interrupt esp => ({ s with timer := (s.timer.handleInterrupt esp).1 }, ())
  | .test =>
    if s.timer.ticks - s.startTicks < s.targetTicks then (s, ())
    else ({ s with returned := true }, ())

/-- The number of interrupts. -/
def interrupts : List SleepEvent → ℕ
  | [] => 0
  | .interrupt _ :: es => interrupts es + 1
  | .test :: es => interrupts es

/-- The events, in any order, from the call on. -/
def sleepRun (milliseconds : UInt32) (t : ProgrammableIntervalTimer) (es : List SleepEvent) :
    Sleeping :=
  finalState Sleeping.step (sleep milliseconds t) es

section Sleep

variable {t : ProgrammableIntervalTimer} {milliseconds : UInt32} {s : Sleeping}
  {es es' : List SleepEvent}

theorem interrupts_append : interrupts (es ++ es') = interrupts es + interrupts es' := by
  induction es with
  | nil => exact (Nat.zero_add _).symm
  | cons e es ih =>
    cases e with
    | interrupt esp =>
      rw [List.cons_append, interrupts, interrupts, ih, Nat.add_right_comm]
    | test =>
      rw [List.cons_append, interrupts, interrupts, ih]

/-- The call after `n` interrupts. -/
structure Waited (t : ProgrammableIntervalTimer) (milliseconds : UInt32) (n : ℕ) (s : Sleeping) :
    Prop where
  ticks : s.timer.ticks = t.ticks + .ofNat n
  startTicks : s.startTicks = t.ticks
  targetTicks : s.targetTicks = (milliseconds * t.frequency) / 1000
  enough : s.returned = true → s.targetTicks.toNat ≤ n

/-- The number of ticks since the call, as the loop computes it. -/
theorem Waited.elapsed {n : ℕ} (h : Waited t milliseconds n s) :
    (s.timer.ticks - s.startTicks).toNat = n % 2 ^ 32 := by
  rw [h.ticks, h.startTicks, UInt32.add_comm, UInt32.add_sub_cancel, UInt32.toNat_ofNat']

/-- One event. -/
theorem Waited.step {n : ℕ} (h : Waited t milliseconds n s) (e : SleepEvent) :
    Waited t milliseconds (n + interrupts [e]) (s.step e).1 := by
  cases e with
  | interrupt esp =>
    refine ⟨?_, h.startTicks, h.targetTicks, fun hret => (h.enough hret).trans (by omega)⟩
    show s.timer.ticks + 1 = _
    rw [h.ticks, UInt32.add_assoc]
    exact congrArg _ (UInt32.ofNat_add n 1).symm
  | test =>
    rw [Sleeping.step]
    split
    · exact h
    · next hlt =>
      refine ⟨h.ticks, h.startTicks, h.targetTicks, fun _ => ?_⟩
      -- a count that has wrapped is larger still
      rw [UInt32.lt_iff_toNat_lt, h.elapsed, not_lt] at hlt
      exact hlt.trans (Nat.mod_le n _)

/-- Several events. -/
theorem Waited.run {n : ℕ} (h : Waited t milliseconds n s) (es : List SleepEvent) :
    Waited t milliseconds (n + interrupts es) (finalState Sleeping.step s es) := by
  induction es generalizing n s with
  | nil => exact h
  | cons e es ih =>
    have hstep := ih (h.step e)
    rwa [Nat.add_assoc, ← interrupts_append, List.singleton_append] at hstep

theorem waited_sleepRun (milliseconds : UInt32) (t : ProgrammableIntervalTimer)
    (es : List SleepEvent) :
    Waited t milliseconds (interrupts es) (sleepRun milliseconds t es) := by
  have hstart : Waited t milliseconds 0 (sleep milliseconds t) :=
    ⟨(UInt32.add_zero _).symm, rfl, rfl, nofun⟩
  have hrun := hstart.run es
  rwa [Nat.zero_add] at hrun

/-- The test returns as soon as there have been enough interrupts. -/
theorem returned_of_le (h : ((milliseconds * t.frequency) / 1000).toNat ≤ interrupts es)
    (hlt : interrupts es < 2 ^ 32) : (sleepRun milliseconds t (es ++ [.test])).returned = true := by
  have hwaited := waited_sleepRun milliseconds t es
  have hge : ¬ (sleepRun milliseconds t es).timer.ticks - (sleepRun milliseconds t es).startTicks <
      (sleepRun milliseconds t es).targetTicks := by
    rw [UInt32.lt_iff_toNat_lt, hwaited.elapsed, hwaited.targetTicks, Nat.mod_eq_of_lt hlt]
    omega
  rw [sleepRun, finalState_append]
  show (Sleeping.step (sleepRun milliseconds t es) .test).1.returned = true
  rw [Sleeping.step, if_neg hge]

theorem interrupts_replicate (n : ℕ) : interrupts (List.replicate n (.interrupt 0)) = n := by
  induction n with
  | zero => rfl
  | succ n ih => rw [List.replicate_succ, interrupts, ih]

/-- **When `Sleep` waits long enough.**  For every state of the timer and every duration, in
every order of interrupts and tests: the call returns only after the interrupts of that
duration, and at the first test after them, if and only if the product of the duration and the
frequency fits in 32 bits. -/
theorem sleep_waits_iff (t : ProgrammableIntervalTimer) (milliseconds : UInt32) :
    let ticks := milliseconds.toNat * t.frequency.toNat / 1000
    ((∀ es, (sleepRun milliseconds t es).returned = true → ticks ≤ interrupts es) ∧
        ∀ es, ticks ≤ interrupts es → interrupts es < 2 ^ 32 →
          (sleepRun milliseconds t (es ++ [.test])).returned = true) ↔
      milliseconds.toNat * t.frequency.toNat < 2 ^ 32 := by
  intro ticks
  have h1000 : (1000 : UInt32).toNat = 1000 := rfl
  have htarget : ((milliseconds * t.frequency) / 1000).toNat =
      milliseconds.toNat * t.frequency.toNat % 2 ^ 32 / 1000 := by
    rw [UInt32.toNat_div, UInt32.toNat_mul, h1000]
  constructor
  · rintro ⟨hlong, -⟩
    by_contra hwrap
    -- the call returns at the wrapped target
    have hlt := @wrapped_div_lt _ 1000 _ (by omega) (by omega) (not_lt.mp hwrap)
    rw [← htarget] at hlt
    have hcount := interrupts_replicate ((milliseconds * t.frequency) / 1000).toNat
    have hreturned := @returned_of_le t milliseconds _ hcount.ge
      (by rw [hcount]; exact UInt32.toNat_lt _)
    have hle := hlong _ hreturned
    rw [interrupts_append, hcount] at hle
    exact absurd hle (not_le.mpr hlt)
  · intro hfits
    have heq : ((milliseconds * t.frequency) / 1000).toNat = ticks := by
      rw [htarget, Nat.mod_eq_of_lt hfits]
    constructor
    · intro es hreturned
      have hwaited := waited_sleepRun milliseconds t es
      have henough := hwaited.enough hreturned
      rwa [hwaited.targetTicks, heq] at henough
    · intro es hle hlt
      exact returned_of_le (heq.trans_le hle) hlt

/-- A sleep of not quite twelve hours at 100 Hz returns at once. -/
theorem sleep_returns_at_once :
    let t : ProgrammableIntervalTimer := ⟨100, 0⟩
    (42949673 : UInt32).toNat * t.frequency.toNat / 1000 = 4294967 ∧
      (sleepRun 42949673 t [.test]).returned = true ∧ interrupts [.test] = 0 := by
  refine ⟨rfl, ?_, rfl⟩
  have htarget : ((42949673 * 100 : UInt32) / 1000).toNat ≤ interrupts [] := by decide
  exact @returned_of_le ⟨100, 0⟩ 42949673 [] htarget (by decide)

end Sleep

end ProgrammableIntervalTimer

/-! ## The timer chip -/

/-- Channel 0 of the timer chip, which takes the low and the high byte of its divisor in turn. -/
structure TimerChip where
  low : Option UInt8
  count : UInt16

namespace TimerChip

/-- A write to one of its ports: the command for low and high byte, or the next of the two. -/
def write (port : UInt16) (v : UInt8) (c : TimerChip) : TimerChip :=
  if port = 0x43 then
    if v >>> 4 = 3 then { c with low := none } else c
  else if port = 0x40 then
    match c.low with
    | none => { c with low := some v }
    | some low => ⟨none, (v.toUInt16 <<< 8) ||| low.toUInt16⟩
  else c

/-- The chip behind the ports. -/
def device : Device TimerChip := ⟨fun _ c => (0, c), fun _ c => (0, c), write, fun _ _ c => c⟩

/-- The divisor that the chip counts down from. -/
def divisor (c : TimerChip) : ℕ := if c.count = 0 then 65536 else c.count.toNat

/-- The chip gets the quotient without its upper half. -/
theorem count_setFrequency (freq : UInt32) (hfreq : freq ≠ 0) (t : ProgrammableIntervalTimer)
    (b : Bus TimerChip) :
    (t.setFrequency device freq b).2.dev.count.toNat = 1193180 / freq.toNat % 65536 := by
  have hcount : (t.setFrequency device freq b).2.dev.count =
      ((((1193180 / freq) >>> 8) &&& 0xFF : UInt32).toUInt8.toUInt16 <<< 8) |||
        (1193180 / freq &&& 0xFF : UInt32).toUInt8.toUInt16 := by
    unfold ProgrammableIntervalTimer.setFrequency
    rw [if_neg hfreq]
    rfl
  have h8 : (8 : UInt32).toNat = 8 := rfl
  have hclock : (1193180 : UInt32).toNat = 1193180 := rfl
  rw [hcount, UInt16.or_comm, toNat_bytes, toNat_byteAt _ 8 (by decide), toNat_lowByte,
    UInt32.toNat_div, hclock, h8]
  omega

end TimerChip

namespace ProgrammableIntervalTimer

/-- **When the chip gets the divisor.**  The driver reports the frequency that it was given;
the chip divides by the quotient for it if and only if it is 19 Hz or more. -/
theorem setFrequency_divisor_iff (freq : UInt32) (hfreq : freq ≠ 0) (hle : freq.toNat ≤ 1193180)
    (t : ProgrammableIntervalTimer) (b : Bus TimerChip) :
    let r := t.setFrequency TimerChip.device freq b
    r.1.getFrequency = freq ∧
      (r.2.dev.divisor = 1193180 / r.1.getFrequency.toNat ↔ 19 ≤ freq.toNat) := by
  intro r
  have hreported : r.1.getFrequency = freq := by
    show (t.setFrequency TimerChip.device freq b).1.getFrequency = freq
    unfold setFrequency
    rw [if_neg hfreq]
    rfl
  have hpos : 0 < freq.toNat := UInt32.lt_iff_toNat_lt.mp (UInt32.pos_iff_ne_zero.mpr hfreq)
  have hcount : r.2.dev.count.toNat = 1193180 / freq.toNat % 65536 :=
    TimerChip.count_setFrequency freq hfreq t b
  refine ⟨hreported, ?_⟩
  rw [hreported, TimerChip.divisor]
  constructor
  · intro heq
    by_contra hslow
    -- a quotient of more than 16 bits
    have hlarge : 66287 ≤ 1193180 / freq.toNat := (Nat.le_div_iff_mul_le hpos).mpr (by omega)
    split at heq <;> omega
  · intro hfast
    have hsmall : 1193180 / freq.toNat < 65536 := (Nat.div_lt_iff_lt_mul hpos).mpr (by omega)
    have hquot : 1 ≤ 1193180 / freq.toNat := (Nat.one_le_div_iff hpos).mpr hle
    rw [Nat.mod_eq_of_lt hsmall] at hcount
    rw [if_neg, hcount]
    intro h0
    rw [h0, UInt16.toNat_zero] at hcount
    omega

theorem setFrequency_divisor_hundred :
    (setFrequency TimerChip.device 100 ⟨0, 0⟩ ⟨⟨none, 0⟩, []⟩).2.dev.divisor = 11931 :=
  (setFrequency_divisor_iff 100 (by decide) (by decide) ⟨0, 0⟩ ⟨⟨none, 0⟩, []⟩).2.mpr (by decide)

/-- At 18 Hz the chip interrupts more than 1500 times a second. -/
theorem setFrequency_divisor_eighteen :
    let (t, b) := setFrequency TimerChip.device 18 ⟨0, 0⟩ ⟨⟨none, 0⟩, []⟩
    t.getFrequency = 18 ∧ 1193180 / t.getFrequency.toNat = 66287 ∧ b.dev.divisor = 751 := by
  decide

end ProgrammableIntervalTimer
