/-
# Devices behind ports

A device is whatever answers to the port instructions of the processor: its replies and
its next state are arbitrary functions of its state.  A bus is a device together with all
port operations that have taken place, so that a statement about a driver can be one about
what it has done to the device.  The loop that reads a port until its value changes, or a
counter runs out, occurs in every polling driver and has its rule here.
-/
import Mathlib

/-! ## Devices and buses -/

/-- A device with states `δ`: what it replies to a read of a port, and what a read or a
write makes of its state. -/
structure Device (δ : Type*) where
  inb : UInt16 → δ → UInt8 × δ
  inw : UInt16 → δ → UInt16 × δ
  outb : UInt16 → UInt8 → δ → δ
  outw : UInt16 → UInt16 → δ → δ

/-- A port operation and the value it moved. -/
inductive PortOp where
  | inb (port : UInt16) (v : UInt8)
  | outb (port : UInt16) (v : UInt8)
  | inw (port : UInt16) (v : UInt16)
  | outw (port : UInt16) (v : UInt16)

/-- A device and the operations so far, the latest first. -/
structure Bus (δ : Type*) where
  dev : δ
  trace : List PortOp

namespace Bus

variable {δ : Type*} (D : Device δ)

/-- `Port8Bit::Read`. -/
def inb (port : UInt16) (b : Bus δ) : UInt8 × Bus δ :=
  let (v, dev) := D.inb port b.dev
  (v, ⟨dev, .inb port v :: b.trace⟩)

/-- `Port16Bit::Read`. -/
def inw (port : UInt16) (b : Bus δ) : UInt16 × Bus δ :=
  let (v, dev) := D.inw port b.dev
  (v, ⟨dev, .inw port v :: b.trace⟩)

/-- `Port8Bit::Write`. -/
def outb (port : UInt16) (v : UInt8) (b : Bus δ) : Bus δ :=
  ⟨D.outb port v b.dev, .outb port v :: b.trace⟩

/-- `Port16Bit::Write`. -/
def outw (port : UInt16) (v : UInt16) (b : Bus δ) : Bus δ :=
  ⟨D.outw port v b.dev, .outw port v :: b.trace⟩

@[simp] theorem outb_dev (port : UInt16) (v : UInt8) (b : Bus δ) :
    (b.outb D port v).dev = D.outb port v b.dev := rfl

@[simp] theorem outb_trace (port : UInt16) (v : UInt8) (b : Bus δ) :
    (b.outb D port v).trace = .outb port v :: b.trace := rfl

@[simp] theorem outw_trace (port : UInt16) (v : UInt16) (b : Bus δ) :
    (b.outw D port v).trace = .outw port v :: b.trace := rfl

@[simp] theorem inw_trace (port : UInt16) (b : Bus δ) :
    (b.inw D port).2.trace = .inw port (b.inw D port).1 :: b.trace := rfl

/-! ## Polling -/

/-- The bus after `n` reads of a port. -/
def reads (port : UInt16) : ℕ → Bus δ → Bus δ
  | 0, b => b
  | n + 1, b => (Bus.inb D port (reads port n b)).2

/-- The value that the read after `n` others finds. -/
def value (port : UInt16) (n : ℕ) (b : Bus δ) : UInt8 := (Bus.inb D port (b.reads D port n)).1

/-- `while (again(v) && timeout > 0) { v = read(port); timeout--; }`, from the value `v`
on: the last value, what is left of the timeout, and the bus. -/
def poll (port : UInt16) (again : UInt8 → Bool) :
    (timeout : ℕ) → UInt8 → Bus δ → UInt8 × ℕ × Bus δ
  | 0, v, b => (v, 0, b)
  | timeout + 1, v, b =>
    if again v then
      let (v, b) := b.inb D port
      poll port again timeout v b
    else (v, timeout + 1, b)

variable {D} {port : UInt16} {again : UInt8 → Bool}

theorem inb_reads (n : ℕ) (b : Bus δ) :
    Bus.inb D port (b.reads D port n) = (b.value D port n, b.reads D port (n + 1)) := rfl

/-- Reads after reads. -/
theorem reads_reads (m n : ℕ) (b : Bus δ) :
    (b.reads D port n).reads D port m = b.reads D port (n + m) := by
  induction m with
  | zero => rfl
  | succ m ih =>
    rw [reads, ih]
    rfl

/-- What a port holds after some reads is what a later read gets. -/
theorem value_reads (m n : ℕ) (b : Bus δ) :
    (b.reads D port n).value D port m = b.value D port (n + m) := by
  unfold value
  rw [reads_reads]

/-- Every read is in the trace. -/
theorem length_trace_reads (n : ℕ) (b : Bus δ) :
    (b.reads D port n).trace.length = b.trace.length + n := by
  induction n with
  | zero => rfl
  | succ n ih =>
    show (b.reads D port n).trace.length + 1 = _
    rw [ih, Nat.add_assoc]

/-- **The polling rule.**  The loop reads until the first value that ends it, or until the
timeout has run out. -/
theorem poll_spec (timeout k : ℕ) (b : Bus δ) :
    ∃ n ≤ timeout, (∀ j < n, again (b.value D port (k + j)) = true) ∧
      (n < timeout → again (b.value D port (k + n)) = false) ∧
      poll D port again timeout (b.value D port k) (b.reads D port (k + 1)) =
        (b.value D port (k + n), timeout - n, b.reads D port (k + n + 1)) := by
  induction timeout generalizing k with
  | zero => exact ⟨0, le_rfl, fun j hj => absurd hj (by omega), fun h => absurd h (by omega), rfl⟩
  | succ timeout ih =>
    unfold poll
    by_cases hv : again (b.value D port k) = true
    · obtain ⟨n, hle, hbusy, hend, hpoll⟩ := ih (k + 1)
      refine ⟨n + 1, by omega, fun j hj => ?_, fun hlt => ?_, ?_⟩
      · cases j with
        | zero => exact hv
        | succ j =>
          rw [show k + (j + 1) = k + 1 + j by omega]
          exact hbusy j (by omega)
      · rw [show k + (n + 1) = k + 1 + n by omega]
        exact hend (by omega)
      · rw [if_pos hv, inb_reads]
        simp only
        rw [hpoll, show k + (n + 1) = k + 1 + n by omega, Nat.add_sub_add_right]
    · refine ⟨0, by omega, fun j hj => absurd hj (by omega), fun _ => ?_, ?_⟩
      · simpa using hv
      · rw [if_neg hv]
        rfl

end Bus
