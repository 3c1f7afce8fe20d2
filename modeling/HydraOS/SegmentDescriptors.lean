/-
# Segment descriptors: `gdt.cpp`

A segment descriptor scatters its base and its limit over eight bytes, and a limit above 64
KiB is stored in pages.  The base and the type are stored exactly; the limit is rounded down
to the end of a page where it has to be, and building a descriptor from what another one says
changes nothing.
-/
import HydraOS.Bytes
import HydraOS.X86Machine

/-! ## The code -/

/-- A `SegmentDescriptor`, as its eight bytes. -/
structure SegmentDescriptor where
  target : Bytes 8

namespace SegmentDescriptor

/-- The limit that is stored, and the flags that stand above its last bits. -/
def scaled (limit : UInt32) : UInt32 × UInt8 :=
  if limit ≤ 65536 then (limit, 0x40)
  else if limit &&& 0xFFF ≠ 0xFFF then ((limit >>> 12) - 1, 0xC0)
  else (limit >>> 12, 0xC0)

/-- The constructor, on memory that holds `raw`. -/
def construct (raw : SegmentDescriptor) (base limit : UInt32) (type : UInt8) : SegmentDescriptor :=
  let (limit, flags) := scaled limit
  let target := raw.target.set 6 flags
  let target := target.set 0 (limit &&& 0xFF).toUInt8
  let target := target.set 1 ((limit >>> 8) &&& 0xFF).toUInt8
  let target := target.set 6 (target.get 6 ||| ((limit >>> 16) &&& 0xF).toUInt8)
  let target := target.set 2 (base &&& 0xFF).toUInt8
  let target := target.set 3 ((base >>> 8) &&& 0xFF).toUInt8
  let target := target.set 4 ((base >>> 16) &&& 0xFF).toUInt8
  let target := target.set 7 ((base >>> 24) &&& 0xFF).toUInt8
  ⟨target.set 5 type⟩

/-- `Base`. -/
def base (d : SegmentDescriptor) : UInt32 :=
  let result := (d.target.get 7).toUInt32
  let result := (result <<< 8) + (d.target.get 4).toUInt32
  let result := (result <<< 8) + (d.target.get 3).toUInt32
  (result <<< 8) + (d.target.get 2).toUInt32

/-- `Limit`. -/
def limit (d : SegmentDescriptor) : UInt32 :=
  let result := (d.target.get 6 &&& 0xF).toUInt32
  let result := (result <<< 8) + (d.target.get 1).toUInt32
  let result := (result <<< 8) + (d.target.get 0).toUInt32
  if d.target.get 6 &&& 0xC0 = 0xC0 then (result <<< 12) ||| 0xFFF else result

/-- The type byte. -/
def type (d : SegmentDescriptor) : UInt8 := d.target.get 5

/-! ## What the bytes say -/

/-- The number that `(result << 8) + v` is. -/
theorem toNat_appendByte (result : UInt32) (v : UInt8) (h : result.toNat < 2 ^ 24) :
    ((result <<< 8) + v.toUInt32).toNat = result.toNat * 256 + v.toNat := by
  have h8 : (8 : UInt32).toNat % 32 = 8 := rfl
  have hv := v.toNat_lt
  rw [UInt32.toNat_add, UInt32.toNat_shiftLeft, h8, UInt8.toNat_toUInt32, Nat.shiftLeft_eq]
  omega

/-- The number that `(result << 12) | 0xFFF` is. -/
theorem toNat_lastOfPage (result : UInt32) (h : result.toNat < 2 ^ 20) :
    ((result <<< 12) ||| 0xFFF).toNat = result.toNat * 4096 + 4095 := by
  have h12 : (12 : UInt32).toNat % 32 = 12 := rfl
  have hones : (0xFFF : UInt32).toNat = 4095 := rfl
  have hshift : result.toNat <<< 12 % 2 ^ 32 = result.toNat <<< 12 := by
    rw [Nat.shiftLeft_eq]
    exact Nat.mod_eq_of_lt (by omega)
  rw [UInt32.toNat_or, UInt32.toNat_shiftLeft, h12, hones, hshift,
    ← Nat.shiftLeft_add_eq_or_of_lt (by omega), Nat.shiftLeft_eq]

section Fields

variable (d : SegmentDescriptor)

theorem toNat_base : d.base.toNat = (((d.target.get 7).toNat * 256 + (d.target.get 4).toNat) * 256 +
    (d.target.get 3).toNat) * 256 + (d.target.get 2).toNat := by
  have h7 := (d.target.get 7).toNat_lt
  have h4 := (d.target.get 4).toNat_lt
  have h3 := (d.target.get 3).toNat_lt
  have hvhi : (d.target.get 7).toUInt32.toNat = (d.target.get 7).toNat := UInt8.toNat_toUInt32 _
  have hhi := toNat_appendByte (d.target.get 7).toUInt32 (d.target.get 4) (by omega)
  have hmid := toNat_appendByte _ (d.target.get 3) (by rw [hhi]; omega)
  rw [base, toNat_appendByte _ _ (by rw [hmid, hhi]; omega), hmid, hhi, hvhi]

/-- The limit as stored, which counts pages or bytes. -/
def storedLimit : ℕ :=
  ((d.target.get 6).toNat % 16 * 256 + (d.target.get 1).toNat) * 256 + (d.target.get 0).toNat

theorem toNat_limit : d.limit.toNat =
    if d.target.get 6 &&& 0xC0 = 0xC0 then d.storedLimit * 4096 + 4095 else d.storedLimit := by
  have h1 := (d.target.get 1).toNat_lt
  have h0 := (d.target.get 0).toNat_lt
  have hnibble : (d.target.get 6 &&& 0xF).toUInt32.toNat = (d.target.get 6).toNat % 16 := by
    have h15 : (0xF : UInt8).toNat = 2 ^ 4 - 1 := rfl
    rw [UInt8.toNat_toUInt32, UInt8.toNat_and, h15, Nat.and_two_pow_sub_one_eq_mod]
  have hmid := toNat_appendByte (d.target.get 6 &&& 0xF).toUInt32 (d.target.get 1)
    (by rw [hnibble]; omega)
  have hstored := toNat_appendByte _ (d.target.get 0) (by rw [hmid, hnibble]; omega)
  rw [hmid, hnibble] at hstored
  rw [limit, storedLimit]
  split
  · rw [toNat_lastOfPage _ (by rw [hstored]; omega), hstored]
  · exact hstored

end Fields

/-! ## The constructor -/

/-- The flags and the last bits of the limit do not disturb each other. -/
theorem flags_or {flags nibble : UInt8} (hflags : flags = 0x40 ∨ flags = 0xC0)
    (hnibble : nibble.toNat < 16) :
    (flags ||| nibble).toNat % 16 = nibble.toNat ∧ (flags ||| nibble) &&& 0xC0 = flags := by
  have hall : ∀ n < 16, (0x40 ||| UInt8.ofNat n).toNat % 16 = n ∧
      (0x40 ||| UInt8.ofNat n) &&& 0xC0 = 0x40 ∧ (0xC0 ||| UInt8.ofNat n).toNat % 16 = n ∧
        (0xC0 ||| UInt8.ofNat n) &&& 0xC0 = 0xC0 := by
    decide
  obtain ⟨h40, h40', hC0, hC0'⟩ := hall nibble.toNat hnibble
  rw [UInt8.ofNat_toNat] at h40 h40' hC0 hC0'
  rcases hflags with rfl | rfl
  · exact ⟨h40, h40'⟩
  · exact ⟨hC0, hC0'⟩

section Construct

variable (raw : SegmentDescriptor) (base limit : UInt32) (type : UInt8)

theorem base_construct : (construct raw base limit type).base = base := by
  have hlt := base.toNat_lt
  have h2 : (construct raw base limit type).target.get 2 = (base &&& 0xFF).toUInt8 := rfl
  have h3 : (construct raw base limit type).target.get 3 = ((base >>> 8) &&& 0xFF).toUInt8 := rfl
  have h4 : (construct raw base limit type).target.get 4 = ((base >>> 16) &&& 0xFF).toUInt8 := rfl
  have h7 : (construct raw base limit type).target.get 7 = ((base >>> 24) &&& 0xFF).toUInt8 := rfl
  have n8 : (8 : UInt32).toNat = 8 := rfl
  have n16 : (16 : UInt32).toNat = 16 := rfl
  have n24 : (24 : UInt32).toNat = 24 := rfl
  apply UInt32.toNat_inj.mp
  rw [toNat_base, h2, h3, h4, h7, toNat_byteAt base 8 (by decide),
    toNat_byteAt base 16 (by decide), toNat_byteAt base 24 (by decide), toNat_lowByte, n8, n16, n24]
  omega

theorem type_construct : (construct raw base limit type).type = type := rfl

theorem endOfPage_iff : limit &&& 0xFFF = 0xFFF ↔ limit.toNat % 4096 = 4095 := by
  have hones : (0xFFF : UInt32).toNat = 2 ^ 12 - 1 := rfl
  rw [← UInt32.toNat_inj, UInt32.toNat_and, hones, Nat.and_two_pow_sub_one_eq_mod]
  rfl

theorem le_iff_toNat : limit ≤ 65536 ↔ limit.toNat ≤ 65536 := UInt32.le_iff_toNat_le

/-- **What is stored of a limit**: all of it, or the end of its last whole page. -/
theorem scaled_cases :
    limit.toNat ≤ 65536 ∧ (scaled limit).1.toNat = limit.toNat ∧ (scaled limit).2 = 0x40 ∨
      65536 < limit.toNat ∧ (scaled limit).2 = 0xC0 ∧
        (limit.toNat % 4096 = 4095 ∧ (scaled limit).1.toNat * 4096 + 4095 = limit.toNat ∨
          limit.toNat % 4096 < 4095 ∧
            (scaled limit).1.toNat * 4096 + 4096 + limit.toNat % 4096 = limit.toNat) := by
  have hlt := limit.toNat_lt
  have h12 : (12 : UInt32).toNat % 32 = 12 := rfl
  have hpages : (limit >>> 12).toNat = limit.toNat / 4096 := by
    rw [UInt32.toNat_shiftRight, h12, Nat.shiftRight_eq_div_pow]
  have hlast := endOfPage_iff limit
  unfold scaled
  split
  · next hle =>
    rw [le_iff_toNat] at hle
    exact .inl ⟨hle, rfl, rfl⟩
  · next hle =>
    rw [le_iff_toNat, not_le] at hle
    split
    · next hpart =>
      have h1 : (1 : UInt32).toNat = 1 := rfl
      have hpart' := mt hlast.mpr hpart
      have hpred : (limit >>> 12 - 1).toNat = limit.toNat / 4096 - 1 := by
        have hle' : (1 : UInt32) ≤ limit >>> 12 := by
          rw [UInt32.le_iff_toNat_le, hpages, h1]
          omega
        rw [UInt32.toNat_sub_of_le _ _ hle', hpages, h1]
      refine .inr ⟨hle, rfl, .inr ⟨by omega, ?_⟩⟩
      rw [hpred]
      omega
    · next hwhole =>
      have hwhole' := hlast.mp (not_not.mp hwhole)
      refine .inr ⟨hle, rfl, .inl ⟨hwhole', ?_⟩⟩
      rw [hpages]
      omega

theorem limit_construct : (construct raw base limit type).limit.toNat =
    if (scaled limit).2 = 0xC0 then (scaled limit).1.toNat * 4096 + 4095
    else (scaled limit).1.toNat := by
  have hlt := limit.toNat_lt
  have hcases := scaled_cases limit
  have hflags : (scaled limit).2 = 0x40 ∨ (scaled limit).2 = 0xC0 := by
    rcases hcases with ⟨-, -, h40⟩ | ⟨-, hC0, -⟩
    · exact .inl h40
    · exact .inr hC0
  have hsmall : (scaled limit).1.toNat < 2 ^ 20 := by omega
  have h0 : (construct raw base limit type).target.get 0 =
      ((scaled limit).1 &&& 0xFF).toUInt8 := rfl
  have h1 : (construct raw base limit type).target.get 1 =
      (((scaled limit).1 >>> 8) &&& 0xFF).toUInt8 := rfl
  have h6 : (construct raw base limit type).target.get 6 =
      (scaled limit).2 ||| (((scaled limit).1 >>> 16) &&& 0xF).toUInt8 := rfl
  have n8 : (8 : UInt32).toNat = 8 := rfl
  have hnibble : (((scaled limit).1 >>> 16) &&& 0xF).toUInt8.toNat =
      (scaled limit).1.toNat / 2 ^ 16 := by
    have h16 : (16 : UInt32).toNat % 32 = 16 := rfl
    have h15 : (0xF : UInt32).toNat = 2 ^ 4 - 1 := rfl
    rw [UInt32.toNat_toUInt8, UInt32.toNat_and, UInt32.toNat_shiftRight, h16, h15,
      Nat.and_two_pow_sub_one_eq_mod, Nat.shiftRight_eq_div_pow]
    omega
  obtain ⟨hlow, hhigh⟩ := flags_or hflags (by rw [hnibble]; omega)
  have hstored : (construct raw base limit type).storedLimit = (scaled limit).1.toNat := by
    rw [storedLimit, h0, h1, h6, hlow, hnibble, toNat_byteAt _ 8 (by decide), toNat_lowByte, n8]
    omega
  rw [toNat_limit, hstored, h6, hhigh]

/-- **The limit of a descriptor**: the limit itself, or the end of its last whole page. -/
theorem limit_cases :
    (limit.toNat ≤ 65536 ∨ limit.toNat % 4096 = 4095) ∧
        (construct raw base limit type).limit.toNat = limit.toNat ∨
      65536 < limit.toNat ∧ limit.toNat % 4096 < 4095 ∧
        (construct raw base limit type).limit.toNat + 1 + limit.toNat % 4096 = limit.toNat := by
  have hlimit := limit_construct raw base limit type
  have hne : (0x40 : UInt8) ≠ 0xC0 := by decide
  rcases scaled_cases limit with ⟨hle, hsame, h40⟩ | ⟨hlt, hC0, ⟨hlast, hsame⟩ | ⟨hpart, hdown⟩⟩
  · rw [h40, if_neg hne] at hlimit
    exact .inl ⟨.inl hle, hlimit.trans hsame⟩
  · rw [if_pos hC0] at hlimit
    exact .inl ⟨.inr hlast, hlimit.trans hsame⟩
  · rw [if_pos hC0] at hlimit
    exact .inr ⟨hlt, hpart, by omega⟩

end Construct

/-- **The round trip.**  For every base, limit and type: the base and the type come back; the
limit comes back if it is at most 65536 or the end of a page, and otherwise as the last end of
a page below it; and a descriptor that is built from what this one says says the same. -/
theorem round_trip (raw : SegmentDescriptor) (base limit : UInt32) (type : UInt8) :
    let d := construct raw base limit type
    d.base = base ∧ d.type = type ∧
      (limit ≤ 65536 ∨ limit &&& 0xFFF = 0xFFF → d.limit = limit) ∧
      (¬ (limit ≤ 65536 ∨ limit &&& 0xFFF = 0xFFF) →
        (∃ k, d.limit.toNat = 4096 * k + 4095) ∧ d.limit < limit ∧
          limit.toNat < d.limit.toNat + 4096 ∧
          ∀ k, 4096 * k + 4095 < limit.toNat → 4096 * k + 4095 ≤ d.limit.toNat) ∧
      ∀ raw', (construct raw' d.base d.limit d.type).base = d.base ∧
        (construct raw' d.base d.limit d.type).limit = d.limit := by
  intro d
  have hd := limit_cases raw base limit type
  rw [le_iff_toNat, endOfPage_iff]
  refine ⟨base_construct raw base limit type, type_construct raw base limit type, ?_, ?_,
    fun raw' => ⟨base_construct _ _ _ _, ?_⟩⟩
  · intro hexact
    apply UInt32.toNat_inj.mp
    rcases hd with ⟨-, hsame⟩ | ⟨hlt, hpart, -⟩
    · exact hsame
    · omega
  · intro hinexact
    rcases hd with ⟨hexact, -⟩ | ⟨hlt, hpart, hdown⟩
    · exact absurd hexact hinexact
    · refine ⟨⟨limit.toNat / 4096 - 1, ?_⟩, ?_, ?_, fun k hk => ?_⟩
      · show (construct raw base limit type).limit.toNat = _
        omega
      · show (construct raw base limit type).limit.toNat < limit.toNat
        omega
      · show limit.toNat < (construct raw base limit type).limit.toNat + 4096
        omega
      · show _ ≤ (construct raw base limit type).limit.toNat
        omega
  · -- a limit that comes back is of the kind that does
    apply UInt32.toNat_inj.mp
    rcases limit_cases raw' d.base d.limit d.type with ⟨-, hsame⟩ | ⟨hlt, hpart, -⟩
    · exact hsame
    · have hlt' : 65536 < (construct raw base limit type).limit.toNat := hlt
      have hpart' : (construct raw base limit type).limit.toNat % 4096 < 4095 := hpart
      omega

end SegmentDescriptor

/-! ## The table -/

/-- A `GlobalDescriptorTable`. -/
structure GlobalDescriptorTable where
  nullSegmentSelector : SegmentDescriptor
  unusedSegmentSelector : SegmentDescriptor
  codeSegmentSelector : SegmentDescriptor
  dataSegmentSelector : SegmentDescriptor

namespace GlobalDescriptorTable

/-- The constructor, on memory that holds `raw`. -/
def construct (raw : GlobalDescriptorTable) : GlobalDescriptorTable where
  nullSegmentSelector := raw.nullSegmentSelector.construct 0 0 0
  unusedSegmentSelector := raw.unusedSegmentSelector.construct 0 0 0
  codeSegmentSelector := raw.codeSegmentSelector.construct 0 (64 * 1024 * 1024) 0x9A
  dataSegmentSelector := raw.dataSegmentSelector.construct 0 (64 * 1024 * 1024) 0x92

section Selectors

open X86

variable (gdt : GlobalDescriptorTable) (sel : UInt16)

/-- The descriptor to which a selector refers.  Bit 2 would choose the local table, and the
first descriptor is never used. -/
def descriptor : Option SegmentDescriptor :=
  if sel &&& 4 ≠ 0 then none
  else
    match (sel >>> 3).toNat with
    | 1 => some gdt.unusedSegmentSelector
    | 2 => some gdt.codeSegmentSelector
    | 3 => some gdt.dataSegmentSelector
    | _ => none

/-- The selectors with which a data segment register can be loaded at privilege level 0: the
null selectors, and those of a present segment that can be read, with a privilege level that
is not below the one requested unless the segment is conforming. -/
def loads : Bool :=
  sel < 4 ||
    match gdt.descriptor sel with
    | none => false
    | some d =>
      d.type &&& 0x90 == 0x90 && (d.type &&& 0x8 == 0 || d.type &&& 0x2 != 0) &&
        (d.type &&& 0xC == 0xC || decide ((sel &&& 3).toNat ≤ ((d.type >>> 5) &&& 3).toNat))

/-- The selectors to which `iret` returns at privilege level 0: those of a present code
segment of this level. -/
def returns : Bool :=
  match gdt.descriptor sel with
  | none => false
  | some d => sel &&& 3 == 0 && d.type &&& 0x98 == 0x98 && d.type &&& 0x60 == 0

/-- A processor that uses this table at privilege level 0, and that stores the selector only
when it pushes a segment register. -/
def processor : Processor where
  pad old := old
  padCode old := old
  loads := gdt.loads
  returns := gdt.returns

end Selectors

end GlobalDescriptorTable
