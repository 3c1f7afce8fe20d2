/-
# Byte-addressed memory of a 32-bit little-endian machine

A memory is a function from addresses to bytes.  Addresses are natural numbers
and every access takes them modulo `2 ^ 32`, so a word read near the top of the
address space wraps to its bottom.  The lemmas come in two forms: what an access
finds after a store at the same place, and what it finds at a place the store
does not reach (stated with intervals, so that `omega` discharges the premises).
-/
import Mathlib

/-- A byte memory; `m a` is only ever looked at for `a < 2 ^ 32`. -/
abbrev Mem := ℕ → UInt8

namespace Mem

/-- The byte at address `a`. -/
def byte (m : Mem) (a : ℕ) : UInt8 := m (a % 2 ^ 32)

/-- Store the byte `b` at address `a`. -/
def setByte (m : Mem) (a : ℕ) (b : UInt8) : Mem := Function.update m (a % 2 ^ 32) b

/-- The little-endian word at address `a`. -/
def loadWord (m : Mem) (a : ℕ) : ℕ :=
  (m.byte a).toNat + 2 ^ 8 * (m.byte (a + 1)).toNat + 2 ^ 16 * (m.byte (a + 2)).toNat
    + 2 ^ 24 * (m.byte (a + 3)).toNat

/-- Store the low 32 bits of `v` at address `a`, least significant byte first. -/
def storeWord (m : Mem) (a v : ℕ) : Mem :=
  (((m.setByte a (.ofNat v)).setByte (a + 1) (.ofNat (v / 2 ^ 8))).setByte
    (a + 2) (.ofNat (v / 2 ^ 16))).setByte (a + 3) (.ofNat (v / 2 ^ 24))

/-! ## Bytes -/

/-- A stored byte reads back. -/
@[simp] theorem byte_setByte_self (m : Mem) (a : ℕ) (b : UInt8) :
    (m.setByte a b).byte a = b := by
  simp [byte, setByte]

/-- A byte store leaves every other address alone. -/
theorem byte_setByte_of_ne (m : Mem) {a c : ℕ} (b : UInt8)
    (h : c % 2 ^ 32 ≠ a % 2 ^ 32) : (m.setByte a b).byte c = m.byte c := by
  simp only [byte, setByte]
  exact Function.update_of_ne h _ _

/-- A byte store read at an arbitrary address. -/
theorem byte_setByte (m : Mem) (a c : ℕ) (b : UInt8) :
    (m.setByte a b).byte c = if c % 2 ^ 32 = a % 2 ^ 32 then b else m.byte c := by
  split
  · next h => rw [byte, setByte, h, Function.update_self]
  · next h => exact byte_setByte_of_ne m b h

/-- A word store changes only the four bytes it addresses. -/
theorem byte_storeWord_of_apart (m : Mem) {a c : ℕ} (v : ℕ) (ha : a + 4 ≤ 2 ^ 32)
    (hc : c < 2 ^ 32) (h : c < a ∨ a + 4 ≤ c) : (m.storeWord a v).byte c = m.byte c := by
  simp only [storeWord]
  rw [byte_setByte_of_ne _ _ (by omega), byte_setByte_of_ne _ _ (by omega),
    byte_setByte_of_ne _ _ (by omega), byte_setByte_of_ne _ _ (by omega)]

/-- The `i`-th byte of a stored word. -/
theorem byte_storeWord (m : Mem) (a v : ℕ) {i : ℕ} (hi : i < 4) :
    (m.storeWord a v).byte (a + i) = .ofNat (v / 2 ^ (8 * i)) := by
  simp only [storeWord, byte_setByte]
  have : i = 0 ∨ i = 1 ∨ i = 2 ∨ i = 3 := by omega
  rcases this with rfl | rfl | rfl | rfl
  · rw [if_neg (by omega), if_neg (by omega), if_neg (by omega), if_pos (by omega)]
    simp
  · rw [if_neg (by omega), if_neg (by omega), if_pos (by omega)]
  · rw [if_neg (by omega), if_pos (by omega)]
  · rw [if_pos (by omega)]

/-! ## Words -/

/-- A loaded word fits in 32 bits. -/
theorem loadWord_lt (m : Mem) (a : ℕ) : m.loadWord a < 2 ^ 32 := by
  have h0 := (m.byte a).toNat_lt
  have h1 := (m.byte (a + 1)).toNat_lt
  have h2 := (m.byte (a + 2)).toNat_lt
  have h3 := (m.byte (a + 3)).toNat_lt
  unfold loadWord
  omega

/-- A word is determined by its four bytes. -/
theorem loadWord_congr {m m' : Mem} {a : ℕ} (h : ∀ i < 4, m'.byte (a + i) = m.byte (a + i)) :
    m'.loadWord a = m.loadWord a := by
  have h0 := h 0 (by omega)
  rw [Nat.add_zero] at h0
  rw [loadWord, loadWord, h0, h 1 (by omega), h 2 (by omega), h 3 (by omega)]

/-- A stored word reads back modulo `2 ^ 32`. -/
theorem loadWord_storeWord_self (m : Mem) (a v : ℕ) :
    (m.storeWord a v).loadWord a = v % 2 ^ 32 := by
  have h0 : (m.storeWord a v).byte (a + 0) = _ := byte_storeWord m a v (by omega)
  rw [Nat.add_zero] at h0
  rw [loadWord, h0, byte_storeWord m a v (by omega), byte_storeWord m a v (by omega),
    byte_storeWord m a v (by omega)]
  simp only [UInt8.toNat_ofNat']
  omega

/-- A word store leaves the words it does not overlap alone. -/
theorem loadWord_storeWord_of_apart (m : Mem) {a c : ℕ} (v : ℕ) (ha : a + 4 ≤ 2 ^ 32)
    (hc : c + 4 ≤ 2 ^ 32) (h : c + 4 ≤ a ∨ a + 4 ≤ c) :
    (m.storeWord a v).loadWord c = m.loadWord c :=
  loadWord_congr fun i hi => byte_storeWord_of_apart m v ha (by omega) (by omega)

/-- A byte store outside a word leaves the word alone. -/
theorem loadWord_setByte_of_apart (m : Mem) {a c : ℕ} (b : UInt8) (ha : a < 2 ^ 32)
    (hc : c + 4 ≤ 2 ^ 32) (h : a < c ∨ c + 4 ≤ a) :
    (m.setByte a b).loadWord c = m.loadWord c :=
  loadWord_congr fun i hi => byte_setByte_of_ne m b (by omega)

/-- The `i`-th byte of a 32-bit word, least significant byte first. -/
def wordByte (v : UInt32) (i : ℕ) : UInt8 := .ofNat (v.toNat / 2 ^ (8 * i))

/-- The 32-bit word whose bytes start at address `a`. -/
def word (m : Mem) (a : ℕ) : UInt32 := .ofNat (m.loadWord a)

/-- Four bytes of `v` in a row are the word `v`. -/
theorem word_eq {m : Mem} {a : ℕ} {v : UInt32} (ha : a + 4 ≤ 2 ^ 32)
    (h : ∀ i < 4, m (a + i) = wordByte v i) : m.word a = v := by
  have hbyte : ∀ i < 4, m.byte (a + i) = wordByte v i := by
    intro i hi
    rw [byte, Nat.mod_eq_of_lt (by omega)]
    exact h i hi
  have h0 := hbyte 0 (by omega)
  rw [Nat.add_zero] at h0
  have hv := v.toNat_lt
  apply UInt32.toNat_inj.mp
  rw [word, loadWord, h0, hbyte 1 (by omega), hbyte 2 (by omega), hbyte 3 (by omega)]
  simp only [wordByte, UInt8.toNat_ofNat', UInt32.toNat_ofNat']
  omega

end Mem

/-! ## Unsigned 32-bit arithmetic -/

/-- An interpretation of the additions and subtractions of a 32-bit program.
`none` stands for an operation that the interpretation refuses. -/
structure Arith where
  add : ℕ → ℕ → Option ℕ
  sub : ℕ → ℕ → Option ℕ

namespace Arith

/-- The machine's arithmetic: results are taken modulo `2 ^ 32`. -/
def wrapping : Arith where
  add a b := some ((a + b) % 2 ^ 32)
  sub a b := some ((a + 2 ^ 32 - b) % 2 ^ 32)

/-- Arithmetic that refuses every operation whose result does not fit in 32 bits. -/
def checked : Arith where
  add a b := if a + b < 2 ^ 32 then some (a + b) else none
  sub a b := if b ≤ a ∧ a - b < 2 ^ 32 then some (a - b) else none

/-- The interpretation is right wherever the exact result fits in 32 bits. -/
structure Exact (A : Arith) : Prop where
  add_eq : ∀ {a b}, a + b < 2 ^ 32 → A.add a b = some (a + b)
  sub_eq : ∀ {a b}, b ≤ a → a < 2 ^ 32 → A.sub a b = some (a - b)

theorem exact_wrapping : Exact wrapping where
  add_eq h := by simp only [wrapping, Nat.mod_eq_of_lt h]
  sub_eq {a b} h ha := by
    have : (a + 2 ^ 32 - b) % 2 ^ 32 = a - b := by omega
    simp only [wrapping, this]

theorem exact_checked : Exact checked where
  add_eq h := by simp only [checked, if_pos h]
  sub_eq {a b} h ha := by
    have : b ≤ a ∧ a - b < 2 ^ 32 := ⟨h, by omega⟩
    simp only [checked, if_pos this]

/-- Every operation that `A` allows has the same result in `A'`. -/
structure Refines (A A' : Arith) : Prop where
  add : ∀ {a b v}, A.add a b = some v → A'.add a b = some v
  sub : ∀ {a b v}, A.sub a b = some v → A'.sub a b = some v

theorem checked_refines_wrapping : Refines checked wrapping where
  add {a b v} h := by
    simp only [checked, Option.ite_none_right_eq_some, Option.some.injEq] at h
    simp only [wrapping, Option.some.injEq]
    omega
  sub {a b v} h := by
    simp only [checked, Option.ite_none_right_eq_some, Option.some.injEq] at h
    simp only [wrapping, Option.some.injEq]
    omega

end Arith
