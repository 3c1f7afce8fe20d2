/-
# Decimal numbers: `PrintNumber` of `vga.cpp`

`PrintNumber` collects the digits of a number from the last one on in a buffer of 11 bytes, and
prints them in reverse.  For every number the loop ends within the buffer, and what goes to the
screen is the canonical decimal representation.
-/
import HydraOS.Bytes
import HydraOS.TextScreen

open X86

/-! ## Decimal representations -/

/-- The character of a digit. -/
def digitChar (d : ℕ) : UInt8 := .ofNat (48 + d)

/-- The decimal representation, with the most significant digit first. -/
def decimal (n : ℕ) : List UInt8 :=
  if n = 0 then [digitChar 0] else (Nat.digits 10 n).reverse.map digitChar

/-- The number that a string of digits stands for. -/
def readDecimal (cs : List UInt8) : ℕ := cs.foldl (fun n c => 10 * n + (c.toNat - 48)) 0

theorem toNat_digitChar {d : ℕ} (h : d < 10) : (digitChar d).toNat = 48 + d := by
  rw [digitChar, UInt8.toNat_ofNat']
  exact Nat.mod_eq_of_lt (by omega)

theorem digit_lt {n d : ℕ} (h : d ∈ Nat.digits 10 n) : d < 10 := Nat.digits_lt_base (by omega) h

/-- The characters are digits. -/
theorem isDigit_decimal {n : ℕ} {c : UInt8} (h : c ∈ decimal n) : 48 ≤ c.toNat ∧ c.toNat ≤ 57 := by
  have hdigit : ∃ d < 10, digitChar d = c := by
    unfold decimal at h
    split at h
    · exact ⟨0, by omega, (List.mem_singleton.mp h).symm⟩
    · obtain ⟨d, hd, hdc⟩ := List.mem_map.mp h
      exact ⟨d, digit_lt (List.mem_reverse.mp hd), hdc⟩
  obtain ⟨d, hd, rfl⟩ := hdigit
  rw [toNat_digitChar hd]
  omega

/-- **Only 0 starts with a zero**, and it has no other digit. -/
theorem head_decimal {n : ℕ} (h : (decimal n).head? = some 48) : n = 0 := by
  by_contra hn
  have hne : Nat.digits 10 n ≠ [] := Nat.digits_ne_nil_iff_ne_zero.mpr hn
  have hlast := Nat.getLast_digit_ne_zero 10 hn
  have hlt : (Nat.digits 10 n).getLast hne < 10 := digit_lt (List.getLast_mem hne)
  rw [decimal, if_neg hn, List.head?_map, List.head?_reverse, List.getLast?_eq_some_getLast hne,
    Option.map_some, Option.some_inj] at h
  have hchar := toNat_digitChar hlt
  rw [h] at hchar
  have h48 : (48 : UInt8).toNat = 48 := rfl
  omega

theorem readDecimal_append (cs : List UInt8) (c : UInt8) :
    readDecimal (cs ++ [c]) = 10 * readDecimal cs + (c.toNat - 48) := by
  rw [readDecimal, List.foldl_append]
  rfl

/-- **Reading the representation** gives the number. -/
theorem readDecimal_decimal (n : ℕ) : readDecimal (decimal n) = n := by
  have hread : ∀ ds : List ℕ, (∀ d ∈ ds, d < 10) →
      readDecimal (ds.reverse.map digitChar) = Nat.ofDigits 10 ds := by
    intro ds hds
    induction ds with
    | nil => rfl
    | cons d ds ih =>
      rw [List.forall_mem_cons] at hds
      rw [List.reverse_cons, List.map_append, List.map_singleton, readDecimal_append, ih hds.2,
        toNat_digitChar hds.1, Nat.ofDigits_cons]
      omega
  unfold decimal
  split
  · next h0 =>
    rw [h0]
    rfl
  · rw [hread _ fun d hd => digit_lt hd, Nat.ofDigits_digits]

/-! ## The code -/

namespace VGATextMode

/-- `while(value > 0) { buffer[i++] = '0' + (value % 10); value /= 10; }`, for at most `fuel`
tests.  `none` stands for a store outside the buffer, and for a loop that goes on. -/
def storeDigits : (fuel : ℕ) → (value : UInt32) → (i : ℕ) → Bytes 11 → Option (ℕ × Bytes 11)
  | 0, _, _, _ => none
  | fuel + 1, value, i, buffer =>
    if value > 0 then
      if i < 11 then
        storeDigits fuel (value / 10) (i + 1) (buffer.set i (48 + value % 10).toUInt8)
      else none
    else some (i, buffer)

/-- `while(i > 0) PutChar(buffer[--i]);` -/
def putDigits (buffer : Bytes 11) : (i : ℕ) → Kernel → Option Kernel
  | 0, k => some k
  | i + 1, k => if i < 11 then putDigits buffer i (putChar (buffer.get i) k) else none

/-- `PrintNumber(value)`, with a buffer that holds `raw`. -/
def printNumber (fuel : ℕ) (raw : Bytes 11) (value : UInt32) (k : Kernel) : Option Kernel :=
  if value = 0 then some (putChar 48 k)
  else do
    let (i, buffer) ← storeDigits fuel value 0 raw
    putDigits buffer i k

theorem toUInt8_digit (value : UInt32) :
    (48 + value % 10).toUInt8 = digitChar (value.toNat % 10) := by
  have h10 : (10 : UInt32).toNat = 10 := rfl
  have h48 : (48 : UInt32).toNat = 48 := rfl
  have hlt : value.toNat % 10 < 10 := Nat.mod_lt _ (by omega)
  apply UInt8.toNat_inj.mp
  rw [toNat_digitChar hlt, UInt32.toNat_toUInt8, UInt32.toNat_add, UInt32.toNat_mod, h10, h48]
  omega

theorem storeDigits_zero (fuel i : ℕ) (buffer : Bytes 11) :
    storeDigits (fuel + 1) 0 i buffer = some (i, buffer) := by
  rw [storeDigits, if_neg (by decide)]

/-- **The loop over the digits**, for a number of at most `d` digits: it ends after one test
for each digit and one more, has stored the digits from index `i` on, and has not touched the
bytes before. -/
theorem storeDigits_spec (d fuel : ℕ) (value : UInt32) (i : ℕ) (buffer : Bytes 11)
    (hvalue : value.toNat < 10 ^ d) (hfuel : d < fuel) (hi : i + d ≤ 11) :
    let ds := Nat.digits 10 value.toNat
    ds.length ≤ d ∧ ∃ buffer', storeDigits fuel value i buffer = some (i + ds.length, buffer') ∧
      (∀ j < i, buffer'.get j = buffer.get j) ∧
      ∀ j (h : j < ds.length), buffer'.get (i + j) = digitChar ds[j] := by
  obtain ⟨fuel, rfl⟩ := Nat.exists_eq_succ_of_ne_zero (Nat.ne_zero_of_lt hfuel)
  induction d generalizing fuel value i buffer with
  | zero =>
    obtain rfl : value = 0 := UInt32.toNat_inj.mp (Nat.lt_one_iff.mp hvalue)
    exact ⟨le_rfl, buffer, storeDigits_zero fuel i buffer, fun j _ => rfl,
      fun j h => absurd h (Nat.not_lt_zero j)⟩
  | succ d ih =>
    by_cases h0 : value = 0
    · rw [h0]
      exact ⟨Nat.zero_le _, buffer, storeDigits_zero fuel i buffer, fun j _ => rfl,
        fun j h => absurd h (Nat.not_lt_zero j)⟩
    · have hgo : 0 < value := UInt32.pos_iff_ne_zero.mpr h0
      have hpos : 0 < value.toNat := UInt32.lt_iff_toNat_lt.mp hgo
      have hquot : (value / 10).toNat = value.toNat / 10 := UInt32.toNat_div value 10
      have hdigits : Nat.digits 10 value.toNat =
          value.toNat % 10 :: Nat.digits 10 (value / 10).toNat := by
        rw [hquot]
        exact Nat.digits_def' (by omega) hpos
      obtain ⟨fuel, rfl⟩ := Nat.exists_eq_succ_of_ne_zero (n := fuel) (by omega)
      have hsmall : (value / 10).toNat < 10 ^ d := by
        rw [hquot, Nat.div_lt_iff_lt_mul (by omega), ← pow_succ]
        exact hvalue
      obtain ⟨hlength, buffer', hstore, hbefore, hfrom⟩ := ih (value / 10) (i + 1)
        (buffer.set i (48 + value % 10).toUInt8) hsmall (by omega) fuel (by omega)
      rw [hdigits, storeDigits, if_pos hgo, if_pos (by omega), hstore]
      refine ⟨Nat.succ_le_succ hlength, buffer', ?_, ?_, ?_⟩
      · rw [List.length_cons, Nat.add_right_comm, Nat.add_assoc]
      · intro j hj
        rw [hbefore j (by omega), Bytes.get_set (by omega), if_neg (by omega)]
      · intro j hj
        cases j with
        | zero =>
          rw [Nat.add_zero, hbefore i (Nat.lt_succ_self i), Bytes.get_set (by omega), if_pos rfl,
            toUInt8_digit]
          rfl
        | succ j =>
          have hj' := hfrom j (Nat.lt_of_succ_lt_succ hj)
          rwa [Nat.add_right_comm, Nat.add_assoc] at hj'

/-- The loop that prints the digits. -/
theorem putDigits_eq {buffer : Bytes 11} {ds : List ℕ} (hlength : ds.length ≤ 11)
    (hbuffer : ∀ j (h : j < ds.length), buffer.get j = digitChar ds[j]) (k : Kernel) :
    putDigits buffer ds.length k =
      some ((ds.reverse.map digitChar).foldl (fun k c => putChar c k) k) := by
  induction ds using List.reverseRecOn generalizing k with
  | nil => rfl
  | append_singleton ds d ih =>
    rw [List.length_append, List.length_singleton] at hlength
    have hlast := hbuffer ds.length (by simp)
    rw [List.getElem_concat_length rfl] at hlast
    have hrest := ih (by omega) fun j hj => by
      rw [hbuffer j (by simp; omega), List.getElem_append_left hj]
    rw [List.length_append, List.length_singleton, putDigits, if_pos (by omega), hlast, hrest,
      List.reverse_append]
    rfl

/-- **Decimal printing is exact.**  For every number, whatever the buffer held before: the
loops end without an index outside the buffer, and what goes to `PutChar` is the decimal
representation, which consists of digits, starts with a zero for 0 alone, and reads back as the
number. -/
theorem printNumber_exact (fuel : ℕ) (raw : Bytes 11) (value : UInt32) (k : Kernel) :
    printNumber (11 + fuel) raw value k =
        some ((decimal value.toNat).foldl (fun k c => putChar c k) k) ∧
      (∀ c ∈ decimal value.toNat, 48 ≤ c.toNat ∧ c.toNat ≤ 57) ∧
      ((decimal value.toNat).head? = some 48 → value = 0 ∧ decimal value.toNat = [48]) ∧
      readDecimal (decimal value.toNat) = value.toNat := by
  refine ⟨?_, fun c hc => isDigit_decimal hc, ?_, readDecimal_decimal _⟩
  · by_cases h0 : value = 0
    · rw [h0]
      rfl
    · have hpos : 0 < value.toNat := UInt32.lt_iff_toNat_lt.mp (UInt32.pos_iff_ne_zero.mpr h0)
      have hlt := value.toNat_lt
      obtain ⟨hlength, buffer, hstore, -, hbuffer⟩ := storeDigits_spec 10 (11 + fuel) value 0 raw
        (by omega) (by omega) (by omega)
      simp only [Nat.zero_add] at hstore hbuffer
      rw [printNumber, if_neg h0, hstore, decimal, if_neg hpos.ne']
      exact putDigits_eq (by omega) hbuffer k
  · intro hhead
    obtain rfl : value = 0 := UInt32.toNat_inj.mp (head_decimal hhead)
    exact ⟨rfl, rfl⟩

end VGATextMode
