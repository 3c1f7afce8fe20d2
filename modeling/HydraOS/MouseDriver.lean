/-
# The mouse: `mouse.cpp`

The mouse sends three bytes for each packet, one with every interrupt.  The driver collects
them and calls its handler after the third.  Whatever the bytes are and wherever the stream is
cut, each button goes down and up in turn, as the first bytes of the packets say.  The motion
is right only within 8 bits: its two sign bits, which are in the first byte, are not looked at.
-/
import HydraOS.Bytes
import HydraOS.IoPorts
import HydraOS.Runs

/-! ## The driver -/

/-- A call of the `MouseEventHandler`. -/
inductive MouseCall where
  | onActivate
  | onMouseDown (button : UInt8)
  | onMouseUp (button : UInt8)
  | onMouseMove (x y : ℤ)
  deriving DecidableEq

/-- A `MouseDriver` object without its ports and its handler. -/
structure MouseDriver where
  buffer : Bytes 3
  offset : UInt8
  buttons : UInt8

/-- What an interrupt does outside the driver: the index and the byte that it stores, its calls
of the handler, and its result. -/
structure MouseInterrupt where
  stored : Option (UInt8 × UInt8)
  calls : List MouseCall
  esp : UInt32

namespace MouseDriver

/-- The port for data. -/
def dataport : UInt16 := 0x60

/-- The port for commands and the status. -/
def commandport : UInt16 := 0x64

/-- The call for the second and the third byte. -/
def moveCall (x y : UInt8) : List MouseCall :=
  if x ≠ 0 ∨ y ≠ 0 then [.onMouseMove x.toInt8.toInt (-y.toInt8.toInt)] else []

/-- The round of the loop for one button. -/
def buttonCall (flags buttons i : UInt8) : List MouseCall :=
  if flags &&& (1 <<< i) ≠ buttons &&& (1 <<< i) then
    if buttons &&& (1 <<< i) ≠ 0 then [.onMouseUp (i + 1)] else [.onMouseDown (i + 1)]
  else []

/-- `HandleInterrupt` with the data byte, with or without a handler. -/
def receive (handler : Bool) (m : MouseDriver) (data : UInt8) : MouseDriver × List MouseCall :=
  let m := { m with buffer := m.buffer.set m.offset.toNat data }
  if handler = false then (m, [])
  else
    let m := { m with offset := .ofNat ((m.offset.toNat + 1) % 3) }
    if m.offset = 0 then
      ({ m with buttons := m.buffer.get 0 },
        moveCall (m.buffer.get 1) (m.buffer.get 2) ++
          [0, 1, 2].flatMap (buttonCall (m.buffer.get 0) m.buttons))
    else (m, [])

section Driver

variable {δ : Type} (D : Device δ) (handler : Bool)

/-- `while(commandport.Read() & 0x1) dataport.Read();` -/
def clearOutput : (fuel : ℕ) → Bus δ → Option (Bus δ)
  | 0, _ => none
  | fuel + 1, b =>
    let (v, b) := b.inb D commandport
    if v &&& 1 ≠ 0 then clearOutput fuel (b.inb D dataport).2 else some b

/-- `while(!(commandport.Read() & 0x1));` -/
def awaitOutput : (fuel : ℕ) → Bus δ → Option (Bus δ)
  | 0, _ => none
  | fuel + 1, b =>
    let (v, b) := b.inb D commandport
    if v &&& 1 = 0 then awaitOutput fuel b else some b

/-- `Activate`, with `fuel` rounds for each of its two loops. -/
def activate (fuel : ℕ) (m : MouseDriver) (b : Bus δ) :
    Option ((MouseDriver × Bus δ) × List MouseCall) := do
  let m := { m with offset := 0, buttons := 0 }
  let calls := if handler then [.onActivate] else []
  let b ← clearOutput D fuel b
  let b := b.outb D commandport 0xA8
  let b := b.outb D commandport 0x20
  let b ← awaitOutput D fuel b
  let (v, b) := b.inb D dataport
  let status := v ||| 2
  let b := b.outb D commandport 0x60
  let b := b.outb D dataport status
  let b := b.outb D commandport 0xD4
  let b := b.outb D dataport 0xF4
  let (_, b) := b.inb D dataport
  return ((m, b), calls)

/-- `HandleInterrupt(esp)`. -/
def handleInterrupt (s : MouseDriver × Bus δ) (esp : UInt32) :
    (MouseDriver × Bus δ) × MouseInterrupt :=
  let (status, b) := s.2.inb D commandport
  if status &&& 0x20 = 0 then ((s.1, b), ⟨none, [], esp⟩)
  else
    let (data, b) := b.inb D dataport
    let (m, calls) := receive handler s.1 data
    ((m, b), ⟨some (s.1.offset, data), calls, esp⟩)

/-- The bytes that the interrupts take. -/
def taken (is : List MouseInterrupt) : List UInt8 := is.filterMap fun i => i.stored.map Prod.snd

/-- The calls that the interrupts make. -/
def allCalls (is : List MouseInterrupt) : List MouseCall := is.flatMap MouseInterrupt.calls

end Driver

/-! ## A run is a run on the bytes that it takes -/

section Lift

variable {δ : Type} {D : Device δ} {handler : Bool} {s : MouseDriver × Bus δ} {esp : UInt32}

/-- The interrupt of another device. -/
theorem handleInterrupt_foreign (h : (s.2.inb D commandport).1 &&& 0x20 = 0) :
    handleInterrupt D handler s esp = ((s.1, (s.2.inb D commandport).2), ⟨none, [], esp⟩) := by
  unfold handleInterrupt
  simp only
  rw [if_pos h]

theorem handleInterrupt_data (h : (s.2.inb D commandport).1 &&& 0x20 ≠ 0) :
    let d := (s.2.inb D commandport).2.inb D dataport
    handleInterrupt D handler s esp = (((receive handler s.1 d.1).1, d.2),
      ⟨some (s.1.offset, d.1), (receive handler s.1 d.1).2, esp⟩) := by
  intro d
  unfold handleInterrupt
  simp only
  rw [if_neg h]

/-- The driver and its calls depend on the bytes alone. -/
theorem run_eq_receive (s : MouseDriver × Bus δ) (esps : List UInt32) :
    let is := outputs (handleInterrupt D handler) s esps
    (finalState (handleInterrupt D handler) s esps).1 =
        finalState (receive handler) s.1 (taken is) ∧
      allCalls is = (outputs (receive handler) s.1 (taken is)).flatten := by
  induction esps generalizing s with
  | nil => exact ⟨rfl, rfl⟩
  | cons esp esps ih =>
    by_cases hstatus : (s.2.inb D commandport).1 &&& 0x20 = 0
    · have hstep := @handleInterrupt_foreign _ _ handler _ esp hstatus
      rw [outputs, finalState_cons, hstep]
      exact ih _
    · have hstep := @handleInterrupt_data _ _ handler _ esp hstatus
      rw [outputs, finalState_cons, hstep]
      obtain ⟨hstate, hcalls⟩ := ih _
      exact ⟨hstate, congrArg (_ ++ ·) hcalls⟩

end Lift

/-! ## Groups of three bytes -/

/-- The calls for the groups of three among the bytes, from the given buttons on. -/
def groupCalls : UInt8 → List UInt8 → List MouseCall
  | buttons, flags :: x :: y :: ds =>
    moveCall x y ++ [0, 1, 2].flatMap (buttonCall flags buttons) ++ groupCalls flags ds
  | _, _ => []

/-- The first byte of the last whole group. -/
def lastFlags : UInt8 → List UInt8 → UInt8
  | _, flags :: _ :: _ :: ds => lastFlags flags ds
  | buttons, _ => buttons

section Groups

variable {m : MouseDriver}

theorem receive_first (h : m.offset = 0) (flags : UInt8) :
    receive true m flags = (⟨m.buffer.set 0 flags, 1, m.buttons⟩, []) := by
  obtain ⟨buffer, offset, buttons⟩ := m
  cases h
  rfl

theorem receive_second (h : m.offset = 1) (x : UInt8) :
    receive true m x = (⟨m.buffer.set 1 x, 2, m.buttons⟩, []) := by
  obtain ⟨buffer, offset, buttons⟩ := m
  cases h
  rfl

theorem receive_third (h : m.offset = 2) (y : UInt8) :
    receive true m y = (⟨m.buffer.set 2 y, 0, m.buffer.get 0⟩, moveCall (m.buffer.get 1) y ++
      [0, 1, 2].flatMap (buttonCall (m.buffer.get 0) m.buttons)) := by
  have h2 : (2 : UInt8).toNat = 2 := rfl
  have hnext : UInt8.ofNat ((2 + 1) % 3) = 0 := rfl
  have hflags : (m.buffer.set 2 y).get 0 = m.buffer.get 0 := rfl
  have hx : (m.buffer.set 2 y).get 1 = m.buffer.get 1 := rfl
  have hy : (m.buffer.set 2 y).get 2 = y := rfl
  unfold receive
  simp only
  rw [h, h2, hnext, if_neg (by decide), if_pos rfl, hflags, hx, hy]

/-- **A run on bytes**, from the start of a group: the calls are those for its groups, and the
driver stands within the last one. -/
theorem receive_run : ∀ (ds : List UInt8) (m : MouseDriver), m.offset = 0 →
    (outputs (receive true) m ds).flatten = groupCalls m.buttons ds ∧
      (finalState (receive true) m ds).offset.toNat = ds.length % 3
  | [], m, h => by
    rw [finalState_nil, h]
    exact ⟨rfl, rfl⟩
  | [flags], m, h => by
    rw [outputs, finalState_cons, receive_first h]
    exact ⟨rfl, rfl⟩
  | [flags, x], m, h => by
    rw [outputs, outputs, finalState_cons, finalState_cons, receive_first h, receive_second rfl]
    exact ⟨rfl, rfl⟩
  | flags :: x :: y :: ds, m, h => by
    rw [outputs, outputs, outputs, finalState_cons, finalState_cons, finalState_cons,
      receive_first h, receive_second rfl, receive_third rfl]
    obtain ⟨hcalls, hoffset⟩ :=
      receive_run ds ⟨((m.buffer.set 0 flags).set 1 x).set 2 y, 0, flags⟩ rfl
    constructor
    · exact congrArg (_ ++ ·) hcalls
    · have hlength : (flags :: x :: y :: ds).length % 3 = ds.length % 3 := Nat.add_mod_right _ 3
      exact hoffset.trans hlength.symm

end Groups

/-! ## The buttons go down and up in turn -/

/-- The calls for one button: whether it went down. -/
def presses (button : UInt8) (calls : List MouseCall) : List Bool :=
  calls.filterMap fun
    | .onMouseDown b => if button = b then some true else none
    | .onMouseUp b => if button = b then some false else none
    | _ => none

/-- Each value differs from the one before, and the first from `last`. -/
def Alternates : Bool → List Bool → Prop
  | _, [] => True
  | last, e :: es => e = !last ∧ Alternates e es

/-- The bit for button `i + 1`. -/
def bit (flags i : UInt8) : Bool := flags &&& (1 <<< i) ≠ 0

section Buttons

variable {i : UInt8}

theorem presses_append (button : UInt8) (calls calls' : List MouseCall) :
    presses button (calls ++ calls') = presses button calls ++ presses button calls' :=
  List.filterMap_append

theorem presses_moveCall (button x y : UInt8) : presses button (moveCall x y) = [] := by
  rw [moveCall]
  split <;> rfl

theorem eq_of_lt_three (hi : i < 3) : i = 0 ∨ i = 1 ∨ i = 2 := by
  have hlt : i.toNat < 3 := hi
  rw [← UInt8.toNat_inj, ← UInt8.toNat_inj, ← UInt8.toNat_inj]
  show i.toNat = 0 ∨ i.toNat = 1 ∨ i.toNat = 2
  omega

/-- What is left of a byte under a mask of one bit. -/
theorem and_mask (flags : UInt8) (hi : i < 3) :
    flags &&& (1 <<< i) = if bit flags i then 1 <<< i else 0 := by
  have hmask : (1 <<< i : UInt8).toNat = 2 ^ i.toNat := by
    rcases eq_of_lt_three hi with rfl | rfl | rfl <;> rfl
  have hand : (flags &&& (1 <<< i)).toNat = (flags.toNat.testBit i.toNat).toNat * 2 ^ i.toNat := by
    rw [UInt8.toNat_and, hmask, Nat.and_two_pow]
  rw [bit]
  by_cases h0 : flags &&& (1 <<< i) = 0
  · rw [h0]
    rfl
  · rw [if_pos (decide_eq_true h0)]
    apply UInt8.toNat_inj.mp
    rw [hand, hmask]
    cases htest : flags.toNat.testBit i.toNat with
    | true => exact Nat.one_mul _
    | false =>
      rw [htest, Bool.toNat_false, Nat.zero_mul] at hand
      exact absurd (UInt8.toNat_inj.mp hand) h0

theorem mask_ne_zero (hi : i < 3) : (1 <<< i : UInt8) ≠ 0 := by
  rcases eq_of_lt_three hi with rfl | rfl | rfl <;> decide

/-- One round of the loop: only a change of the bit makes a call. -/
theorem presses_buttonCall (button flags buttons : UInt8) (hi : i < 3) :
    presses button (buttonCall flags buttons i) =
      if button = i + 1 ∧ bit flags i ≠ bit buttons i then [bit flags i] else [] := by
  have hne := mask_ne_zero hi
  unfold buttonCall
  rw [and_mask flags hi, and_mask buttons hi]
  cases bit flags i <;> cases bit buttons i <;> by_cases hb : button = i + 1 <;>
    simp [presses, hne, hne.symm, hb]

/-- The loop for a button. -/
theorem presses_loop (flags buttons : UInt8) (hi : i < 3) :
    presses (i + 1) ([0, 1, 2].flatMap (buttonCall flags buttons)) =
      if bit flags i ≠ bit buttons i then [bit flags i] else [] := by
  have h0 := presses_buttonCall (i + 1) flags buttons (i := 0) (by decide)
  have h1 := presses_buttonCall (i + 1) flags buttons (i := 1) (by decide)
  have h2 := presses_buttonCall (i + 1) flags buttons (i := 2) (by decide)
  rw [List.flatMap_cons, List.flatMap_cons, List.flatMap_cons, List.flatMap_nil, presses_append,
    presses_append, presses_append, h0, h1, h2]
  rcases eq_of_lt_three hi with rfl | rfl | rfl <;> simp [presses]

/-- **The events of a button** in a run on bytes: they alternate, and the last of them agrees
with the first byte of the last whole group. -/
theorem presses_groupCalls (hi : i < 3) : ∀ (ds : List UInt8) (buttons : UInt8),
    Alternates (bit buttons i) (presses (i + 1) (groupCalls buttons ds)) ∧
      (presses (i + 1) (groupCalls buttons ds)).getLastD (bit buttons i) =
        bit (lastFlags buttons ds) i
  | [], buttons => ⟨trivial, rfl⟩
  | [flags], buttons => ⟨trivial, rfl⟩
  | [flags, x], buttons => ⟨trivial, rfl⟩
  | flags :: x :: y :: ds, buttons => by
    obtain ⟨halt, hlast⟩ := presses_groupCalls hi ds flags
    rw [groupCalls, lastFlags, presses_append, presses_append, presses_moveCall, List.nil_append,
      presses_loop flags buttons hi]
    by_cases hchange : bit flags i ≠ bit buttons i
    · rw [if_pos hchange, List.singleton_append, List.getLastD_cons]
      have hnot : bit flags i = !bit buttons i := by
        cases hf : bit flags i <;> cases hb : bit buttons i <;> simp_all
      exact ⟨⟨hnot, halt⟩, hlast⟩
    · rw [if_neg hchange, List.nil_append, ← not_not.mp hchange]
      exact ⟨halt, hlast⟩

theorem lastFlags_append (flags x y : UInt8) {rest : List UInt8} (hrest : rest.length < 3) :
    ∀ (past : List UInt8) (buttons : UInt8), past.length % 3 = 0 →
      lastFlags buttons (past ++ flags :: x :: y :: rest) = flags
  | [], buttons, _ => by
    rw [List.nil_append, lastFlags]
    rcases rest with _ | ⟨_, _ | ⟨_, _ | ⟨_, rest⟩⟩⟩
    · rfl
    · rfl
    · rfl
    · exact absurd hrest (by simp)
  | [_], _, h => absurd h (by simp)
  | [_, _], _, h => absurd h (by simp)
  | flags' :: _ :: _ :: past, _, h =>
    lastFlags_append flags x y hrest past flags' ((Nat.add_mod_right past.length 3).symm.trans h)

end Buttons

/-! ## From `Activate` on -/

section Activated

variable {δ : Type} {D : Device δ} {fuel : ℕ} {raw : MouseDriver} {b : Bus δ}
  {s : MouseDriver × Bus δ} {calls : List MouseCall}

/-- `Activate` starts a group. -/
theorem activate_state {handler : Bool} (h : activate D handler fuel raw b = some (s, calls)) :
    s.1 = ⟨raw.buffer, 0, 0⟩ := by
  unfold activate at h
  obtain ⟨b1, -, h⟩ := Option.bind_eq_some_iff.mp h
  obtain ⟨b2, -, h⟩ := Option.bind_eq_some_iff.mp h
  cases h
  rfl

/-- The calls after `Activate`. -/
theorem allCalls_activated (h : activate D true fuel raw b = some (s, calls)) (esps : List UInt32) :
    let is := outputs (handleInterrupt D true) s esps
    allCalls is = groupCalls 0 (taken is) := by
  intro is
  have hstart := activate_state h
  have hzero : s.1.offset = 0 := by rw [hstart]
  have hbuttons : s.1.buttons = 0 := by rw [hstart]
  obtain ⟨-, hcalls⟩ := @run_eq_receive _ D true s esps
  obtain ⟨hgroups, -⟩ := receive_run (taken is) s.1 hzero
  rw [hbuttons] at hgroups
  exact hcalls.trans hgroups

/-- One interrupt keeps the index in the buffer. -/
theorem handleInterrupt_offset (s : MouseDriver × Bus δ) (esp : UInt32) (h : s.1.offset < 3) :
    (handleInterrupt D true s esp).1.1.offset < 3 ∧
      ∀ p ∈ (handleInterrupt D true s esp).2.stored, p.1 < 3 := by
  by_cases hstatus : (s.2.inb D commandport).1 &&& 0x20 = 0
  · rw [handleInterrupt_foreign hstatus]
    exact ⟨h, fun p hp => absurd hp (Option.not_mem_none p)⟩
  · rw [handleInterrupt_data hstatus]
    constructor
    · show (receive true s.1 _).1.offset < 3
      rcases eq_of_lt_three h with h0 | h1 | h2
      · rw [receive_first h0]
        show (1 : UInt8) < 3
        decide
      · rw [receive_second h1]
        show (2 : UInt8) < 3
        decide
      · rw [receive_third h2]
        show (0 : UInt8) < 3
        decide
    · intro p hp
      cases hp
      exact h

/-- **Button events are balanced.**  For every device, that is for all status and data bytes,
and for every number of interrupts after `Activate`: the events of each button alternate, the
first being a press; every byte is stored within the buffer; an interrupt whose status lacks
the bit 0x20 reads no data and changes nothing; and each button is down if and only if its bit is
set in the first byte of the last whole group. -/
theorem buttons_balanced (h : activate D true fuel raw b = some (s, calls)) (esps : List UInt32) :
    let is := outputs (handleInterrupt D true) s esps
    (∀ i < 3, Alternates false (presses (i + 1) (allCalls is))) ∧
      (∀ j ∈ is, ∀ p ∈ j.stored, p.1 < 3) ∧
      (∀ t esp, (t.2.inb D commandport).1 &&& 0x20 = 0 →
        handleInterrupt D true t esp = ((t.1, (t.2.inb D commandport).2), ⟨none, [], esp⟩)) ∧
      ∀ past flags x y rest, taken is = past ++ flags :: x :: y :: rest → past.length % 3 = 0 →
        rest.length < 3 →
          ∀ i < 3, ((presses (i + 1) (allCalls is)).getLastD false ↔ flags &&& (1 <<< i) ≠ 0) := by
  intro is
  have hcalls : allCalls is = groupCalls 0 (taken is) := allCalls_activated h esps
  have hzero (i : UInt8) : bit 0 i = false := by
    rw [bit, UInt8.zero_and]
    rfl
  refine ⟨?_, ?_, fun t esp => handleInterrupt_foreign, ?_⟩
  · intro i hi
    obtain ⟨halt, -⟩ := presses_groupCalls hi (taken is) 0
    rwa [hcalls, ← hzero i]
  · have hstart : s.1.offset < 3 := by
      rw [activate_state h]
      show (0 : UInt8) < 3
      decide
    exact outputs_forall (fun s => s.1.offset < 3) handleInterrupt_offset hstart
  · intro past flags x y rest htaken hpast hrest i hi
    obtain ⟨-, hlast⟩ := presses_groupCalls hi (taken is) 0
    rw [htaken, lastFlags_append flags x y hrest past 0 hpast, ← htaken, ← hcalls, hzero] at hlast
    rw [hlast, bit, decide_eq_true_iff]

end Activated

/-- A device that replies the bytes of a list, one to each read. -/
def script : Device (List UInt8) :=
  ⟨fun _ s => (s.headD 0, s.tail), fun _ s => (0, s), fun _ _ s => s, fun _ _ s => s⟩

/-- The driver after `Activate`, with the replies that are still to come. -/
def activatedScript (replies : List UInt8) : MouseDriver × Bus (List UInt8) :=
  (⟨fun _ => 0, 0, 0⟩, ⟨replies,
    [.inb dataport 0xFA, .outb dataport 0xF4, .outb commandport 0xD4, .outb dataport 2,
      .outb commandport 0x60, .inb dataport 0, .inb commandport 1, .outb commandport 0x20,
      .outb commandport 0xA8, .inb commandport 0]⟩)

theorem activate_script (replies : List UInt8) :
    activate script true 1 ⟨fun _ => 0, 0, 0⟩ ⟨0 :: 1 :: 0 :: 0xFA :: replies, []⟩ =
      some (activatedScript replies, [.onActivate]) := by
  simp [activate, clearOutput, awaitOutput, activatedScript, script, Bus.inb, Bus.outb]

/-- The left button goes down, after the interrupt of another device. -/
theorem buttons_balanced_press :
    let is := outputs (handleInterrupt script true)
      (activatedScript [0, 0x20, 0x09, 0x20, 0, 0x20, 0]) [0, 0, 0, 0]
    taken is = [0x09, 0, 0] ∧
      ((presses 1 (allCalls is)).getLastD false ↔ (0x09 : UInt8) &&& 1 ≠ 0) := by
  intro is
  have htaken : taken is = [] ++ 0x09 :: 0 :: 0 :: [] := rfl
  obtain ⟨-, -, -, hdown⟩ := buttons_balanced (activate_script _) [0, 0, 0, 0]
  exact ⟨htaken, hdown [] 0x09 0 0 [] htaken rfl (by decide) 0 (by decide)⟩

/-! ## Motion -/

/-- A packet without overflow. -/
structure Packet where
  flags : UInt8
  x : UInt8
  y : UInt8
  noOverflow : flags &&& 0xC0 = 0

/-- A displacement of 9 bits, in two's complement. -/
def displacement (sign low : UInt8) : ℤ := low.toNat - if sign ≠ 0 then 256 else 0

namespace Packet

def bytes (p : Packet) : List UInt8 := [p.flags, p.x, p.y]

def dx (p : Packet) : ℤ := displacement (p.flags &&& 0x10) p.x

def dy (p : Packet) : ℤ := displacement (p.flags &&& 0x20) p.y

end Packet

/-- The sums of the offsets. -/
def moved : List MouseCall → ℤ × ℤ
  | [] => (0, 0)
  | .onMouseMove x y :: calls => (x + (moved calls).1, y + (moved calls).2)
  | _ :: calls => moved calls

theorem moved_append (calls calls' : List MouseCall) :
    moved (calls ++ calls') =
      ((moved calls).1 + (moved calls').1, (moved calls).2 + (moved calls').2) := by
  induction calls with
  | nil =>
    rw [List.nil_append, moved, zero_add, zero_add]
  | cons call calls ih =>
    cases call with
    | onMouseMove x y =>
      rw [List.cons_append, moved, moved, ih, add_assoc, add_assoc]
    | onActivate => exact ih
    | onMouseDown button => exact ih
    | onMouseUp button => exact ih

theorem moved_moveCall (x y : UInt8) :
    moved (moveCall x y) = (x.toInt8.toInt, -y.toInt8.toInt) := by
  unfold moveCall
  split
  · exact Prod.ext (add_zero _) (add_zero _)
  · next hzero =>
    -- no call, and no motion either
    obtain ⟨rfl, rfl⟩ : x = 0 ∧ y = 0 := by
      rwa [not_or, not_not, not_not] at hzero
    rfl

theorem moved_buttonCall (flags buttons i : UInt8) :
    moved (buttonCall flags buttons i) = (0, 0) := by
  unfold buttonCall
  split_ifs <;> rfl

theorem moved_groupCalls (packets : List Packet) (buttons : UInt8) :
    moved (groupCalls buttons (packets.flatMap Packet.bytes)) =
      ((packets.map fun p => p.x.toInt8.toInt).sum,
        -(packets.map fun p => p.y.toInt8.toInt).sum) := by
  induction packets generalizing buttons with
  | nil => rfl
  | cons p packets ih =>
    have hbytes : (p :: packets).flatMap Packet.bytes =
        p.flags :: p.x :: p.y :: packets.flatMap Packet.bytes := rfl
    have hbuttons : moved ([0, 1, 2].flatMap (buttonCall p.flags buttons)) = (0, 0) := by
      rw [List.flatMap_cons, List.flatMap_cons, List.flatMap_cons, List.flatMap_nil, moved_append,
        moved_append, moved_append, moved_buttonCall, moved_buttonCall, moved_buttonCall]
      rfl
    rw [hbytes, groupCalls, moved_append, moved_append, hbuttons, moved_moveCall, ih, List.map_cons,
      List.map_cons, List.sum_cons, List.sum_cons, add_zero, add_zero, neg_add]

/-- The byte alone is off by 256 for the displacements that it cannot hold. -/
theorem toInt8_displacement (sign low : UInt8) :
    low.toInt8.toInt + (if 128 ≤ displacement sign low then 256 else 0) =
      displacement sign low + if displacement sign low < -128 then 256 else 0 := by
  have hlt := low.toNat_lt
  have hbyte : low.toInt8.toInt =
      if 2 * low.toNat < 256 then (low.toNat : ℤ) else low.toNat - 256 :=
    BitVec.toInt_eq_toNat_cond low.toBitVec
  rw [hbyte, displacement]
  split_ifs <;> omega

/-- The sums for one axis. -/
theorem sum_narrowed (packets : List Packet) (sign low : Packet → UInt8) :
    (packets.map fun p => (low p).toInt8.toInt).sum +
        256 * (packets.countP fun p => 128 ≤ displacement (sign p) (low p)) =
      (packets.map fun p => displacement (sign p) (low p)).sum +
        256 * (packets.countP fun p => displacement (sign p) (low p) < -128) := by
  induction packets with
  | nil => rfl
  | cons p packets ih =>
    have hp := toInt8_displacement (sign p) (low p)
    rw [List.map_cons, List.map_cons, List.sum_cons, List.sum_cons, List.countP_cons,
      List.countP_cons]
    push_cast
    simp only [decide_eq_true_eq]
    split_ifs at hp ⊢ <;> linarith

section Motion

variable {δ : Type} {D : Device δ} {fuel : ℕ} {raw : MouseDriver} {b : Bus δ}
  {s : MouseDriver × Bus δ} {calls : List MouseCall}

/-- **When the motion is right.**  For every sequence of whole packets after `Activate`, the
offsets that the handler gets add up to the displacements of the packets if and only if, on
each axis, as many displacements lie above the range of a byte as below it; so it is in
particular when there are none. -/
theorem moved_exact_iff (h : activate D true fuel raw b = some (s, calls)) (esps : List UInt32)
    (packets : List Packet)
    (htaken : taken (outputs (handleInterrupt D true) s esps) = packets.flatMap Packet.bytes) :
    moved (allCalls (outputs (handleInterrupt D true) s esps)) =
        ((packets.map Packet.dx).sum, -(packets.map Packet.dy).sum) ↔
      (packets.countP fun p => 128 ≤ p.dx) = (packets.countP fun p => p.dx < -128) ∧
        (packets.countP fun p => 128 ≤ p.dy) = packets.countP fun p => p.dy < -128 := by
  have hcalls : allCalls (outputs (handleInterrupt D true) s esps) =
      groupCalls 0 (packets.flatMap Packet.bytes) := htaken ▸ allCalls_activated h esps
  have hx := sum_narrowed packets (fun p => p.flags &&& 0x10) Packet.x
  have hy := sum_narrowed packets (fun p => p.flags &&& 0x20) Packet.y
  simp only [← Packet.dx.eq_1, ← Packet.dy.eq_1] at hx hy
  rw [hcalls, moved_groupCalls, Prod.mk.injEq, neg_inj]
  have hfold : (packets.map fun p => p.dx) = packets.map Packet.dx := rfl
  have hfold' : (packets.map fun p => p.dy) = packets.map Packet.dy := rfl
  rw [hfold] at hx
  rw [hfold'] at hy
  apply and_congr
  · constructor <;> intro heq <;> omega
  · constructor <;> intro heq <;> omega

end Motion

theorem moved_exact_five :
    moved (allCalls (outputs (handleInterrupt script true)
      (activatedScript [0x20, 0x08, 0x20, 5, 0x20, 3]) [0, 0, 0])) = (5, -3) :=
  (moved_exact_iff (activate_script _) [0, 0, 0] [⟨0x08, 5, 3, by decide⟩] rfl).mpr
    ⟨by decide, by decide⟩

/-- A move by 128 to the right is reported as one to the left. -/
theorem moved_right_reported_left :
    let p : Packet := ⟨0x08, 0x80, 0, by decide⟩
    let is := outputs (handleInterrupt script true)
      (activatedScript [0x20, 0x08, 0x20, 0x80, 0x20, 0]) [0, 0, 0]
    taken is = [p].flatMap Packet.bytes ∧ p.dx = 128 ∧ moved (allCalls is) = (-128, 0) := by
  intro p is
  exact ⟨rfl, by decide, by decide⟩

end MouseDriver
