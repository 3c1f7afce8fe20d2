/-
# Fixed-size byte arrays and C strings

Arrays of `n` bytes with the reads and writes of C, NUL-terminated strings, and the
string that an array holds.  An array may keep stale bytes behind the NUL, so what
it holds (`Bytes.string`) is related to its bytes by `HoldsString`.
-/
import HydraOS.ByteMemory

/-- An array of `n` bytes. -/
abbrev Bytes (n : ℕ) := Fin n → UInt8

namespace Bytes

variable {n i j : ℕ} {b : Bytes n} {v : UInt8}

/-- The byte at index `i`; a read beyond the array gives 0. -/
def get (b : Bytes n) (i : ℕ) : UInt8 := if h : i < n then b ⟨i, h⟩ else 0

/-- Write the byte `v` at index `i`; a write beyond the array is lost. -/
def set (b : Bytes n) (i : ℕ) (v : UInt8) : Bytes n := fun j => if j.val = i then v else b j

/-- The array with the byte `f i` at each index `i`. -/
def tabulate (f : ℕ → UInt8) : Bytes n := fun j => f j

theorem get_of_lt (h : i < n) : b.get i = b ⟨i, h⟩ := dif_pos h

@[simp] theorem get_val (i : Fin n) : b.get i = b i := dif_pos i.isLt

theorem get_tabulate (f : ℕ → UInt8) (h : i < n) : (tabulate f : Bytes n).get i = f i :=
  get_of_lt h

theorem get_set (h : j < n) : (b.set i v).get j = if j = i then v else b.get j := by
  rw [get_of_lt h, get_of_lt h, set]

end Bytes

/-! ## Bytes of a word -/

theorem toNat_lowByte (x : UInt32) : (x &&& 0xFF).toUInt8.toNat = x.toNat % 256 := by
  have h255 : (0xFF : UInt32).toNat = 2 ^ 8 - 1 := rfl
  rw [UInt32.toNat_toUInt8, UInt32.toNat_and, h255, Nat.and_two_pow_sub_one_eq_mod]
  omega

/-- The byte from bit `k` on. -/
theorem toNat_byteAt (x k : UInt32) (hk : k.toNat < 32) :
    ((x >>> k) &&& 0xFF).toUInt8.toNat = x.toNat / 2 ^ k.toNat % 256 := by
  rw [toNat_lowByte, UInt32.toNat_shiftRight, Nat.mod_eq_of_lt hk, Nat.shiftRight_eq_div_pow]

/-- The word of two bytes. -/
theorem toNat_bytes (low high : UInt8) :
    (low.toUInt16 ||| (high.toUInt16 <<< 8)).toNat = low.toNat + 256 * high.toNat := by
  have hlow := low.toNat_lt
  have hhigh := high.toNat_lt
  have h8 : (8 : UInt16).toNat % 16 = 8 := rfl
  have hshift : (high.toUInt16 <<< 8).toNat = high.toNat <<< 8 := by
    rw [UInt16.toNat_shiftLeft, h8, UInt8.toNat_toUInt16, Nat.shiftLeft_eq]
    omega
  rw [UInt16.toNat_or, hshift, UInt8.toNat_toUInt16, Nat.or_comm,
    ← Nat.shiftLeft_add_eq_or_of_lt (by omega), Nat.shiftLeft_eq]
  omega

/-! ## C strings -/

/-- A NUL-terminated string: its characters, none of which is NUL. -/
structure CStr where
  chars : List UInt8
  noNul : 0 ∉ chars

namespace CStr

variable {f : CStr} {i : ℕ}

/-- The characters `f[0]`, ..., with the NUL that ends the string. -/
def get (f : CStr) (i : ℕ) : UInt8 := f.chars.getD i 0

theorem get_of_lt (h : i < f.chars.length) : f.get i = f.chars[i] := by
  rw [get, List.getD_eq_getElem _ _ h]

theorem get_length (f : CStr) : f.get f.chars.length = 0 := by
  rw [get, List.getD_eq_default _ _ le_rfl]

/-- Only the terminator is NUL. -/
theorem get_ne_zero (h : i < f.chars.length) : f.get i ≠ 0 := by
  rw [get_of_lt h]
  intro h0
  exact f.noNul (h0 ▸ List.getElem_mem h)

@[ext] theorem ext {f g : CStr} (h : f.chars = g.chars) : f = g := by
  cases f
  cases g
  simpa using h

end CStr

/-! ## The string in an array -/

section HoldsString

variable {n : ℕ} {b : Bytes n} {cs : List UInt8}

/-- The C string that the array holds: its bytes up to the first NUL. -/
def Bytes.string (b : Bytes n) : List UInt8 := (List.ofFn b).takeWhile (· != 0)

/-- The array starts with the characters `cs` and a NUL. -/
structure HoldsString (b : Bytes n) (cs : List UInt8) : Prop where
  noNul : 0 ∉ cs
  length_lt : cs.length < n
  get_eq : ∀ j ≤ cs.length, b.get j = cs.getD j 0

/-- What an array holds is determined by its bytes. -/
theorem HoldsString.string_eq (h : HoldsString b cs) : b.string = cs := by
  have hlt := h.length_lt
  have hlen : cs.length < (List.ofFn b).length := by simpa using hlt
  have hsplit : List.ofFn b = cs ++ 0 :: (List.ofFn b).drop (cs.length + 1) := by
    have hend : (List.ofFn b)[cs.length] = 0 := by
      have := h.get_eq cs.length le_rfl
      rw [List.getD_eq_default _ _ le_rfl, Bytes.get_of_lt hlt] at this
      simpa using this
    have htake : (List.ofFn b).take cs.length = cs := by
      refine List.ext_getElem (by simpa using hlt.le) fun j hj hj' => ?_
      have := h.get_eq j hj'.le
      rw [List.getD_eq_getElem _ _ hj', Bytes.get_of_lt (by omega)] at this
      simpa using this
    conv_lhs => rw [← List.take_append_drop cs.length (List.ofFn b), htake]
    rw [List.drop_eq_getElem_cons hlen, hend]
  rw [Bytes.string, hsplit, List.takeWhile_append_of_pos]
  · simp
  · intro c hc
    have : c ≠ 0 := fun h0 => h.noNul (h0 ▸ hc)
    simpa using this

/-- An array with a NUL in it holds a string. -/
theorem holdsString_string (h : ∃ i, b i = 0) : HoldsString b b.string := by
  have hmem : (0 : UInt8) ∈ List.ofFn b := by
    obtain ⟨i, hi⟩ := h
    exact (List.mem_ofFn' b 0).mpr ⟨i, hi⟩
  have hnoNul : 0 ∉ b.string := by
    intro h0
    have := List.mem_takeWhile_imp h0
    simp at this
  -- the array is its string, then the NUL, then stale bytes
  obtain ⟨post, hsplit⟩ : ∃ post, List.ofFn b = b.string ++ 0 :: post := by
    have happ : List.ofFn b = b.string ++ (List.ofFn b).dropWhile (· != 0) :=
      List.takeWhile_append_dropWhile.symm
    have hne : (List.ofFn b).dropWhile (· != 0) ≠ [] := by
      intro hnil
      rw [hnil, List.append_nil] at happ
      exact hnoNul (happ ▸ hmem)
    obtain ⟨c, post, hcons⟩ := List.exists_cons_of_ne_nil hne
    have hc := List.head_dropWhile_not (· != 0) hne
    simp only [hcons, List.head_cons, bne_eq_false_iff_eq] at hc
    exact ⟨post, by rw [happ, hcons, hc]⟩
  have hlen : n = b.string.length + (post.length + 1) := by
    have := congrArg List.length hsplit
    simpa using this
  refine ⟨hnoNul, by omega, fun j hj => ?_⟩
  have hget : b.get j = (List.ofFn b).getD j 0 := by
    rw [Bytes.get_of_lt (by omega), List.getD_eq_getElem _ _ (by simp; omega)]
    simp
  rw [hget, hsplit]
  rcases Nat.lt_or_eq_of_le hj with hj | rfl
  · rw [List.getD_append _ _ _ _ hj]
  · rw [List.getD_append_right _ _ _ _ le_rfl, List.getD_eq_default _ _ le_rfl]
    simp

end HoldsString
