/-
# The bounds of `ReadFile`

The same function with its checks: it fails when a sum or a difference wraps, when an index is
not below the size of the request or of the sector buffer, and when it has read more bytes than
were asked for or than the file has.  Only the number of sectors is computed as in the source,
where it wraps for the 511 largest sizes, and so is the number of a sector.
-/
import HydraOS.FileSystemRuns

open FileSystem

/-! ## `ReadFile` with checks -/

namespace Checked

/-- A sum that must not wrap. -/
def add (a b : UInt32) : Option UInt32 := if a.toNat + b.toNat < 2 ^ 32 then some (a + b) else none

/-- A difference that must not wrap. -/
def sub (a b : UInt32) : Option UInt32 := if b ≤ a then some (a - b) else none

/-- `if(done + bytesToCopy > limit) bytesToCopy = limit - done;` -/
def clip (done limit bytesToCopy : UInt32) : Option UInt32 := do
  if (← add done bytesToCopy) > limit then sub limit done else some bytesToCopy

/-- `buffer[bytesRead + j] = diskBuffer[j];` -/
def copyByte (data : Sector) (bytesRead size : UInt32) (j : ℕ) (out : ℕ → UInt8) :
    Option (ℕ → UInt8) := do
  let index ← add bytesRead (.ofNat j)
  if index < size ∧ j < 512 then some (Function.update out index.toNat (data.get j)) else none

section Functions

variable {σ : Type} (E : Env σ)

/-- One round of the loop of `ReadFile`. -/
def readRound (inode : Inode) (size : UInt32) (i : ℕ) (st : ReadState σ) :
    Option (ReadState σ) := do
  let (diskBuffer, w) := E.read28 (inode.startSector + .ofNat i) st.diskBuffer st.world
  let bytesToCopy ← clip st.bytesRead inode.size 512
  let bytesToCopy ← clip st.bytesRead size bytesToCopy
  let (out, _) ← tryLoop (fun _ => true) (copyByte diskBuffer.data st.bytesRead size)
    bytesToCopy.toNat 0 st.out
  let bytesRead ← add st.bytesRead bytesToCopy
  if bytesRead ≤ size ∧ bytesRead ≤ inode.size then some ⟨w, diskBuffer, out, bytesRead⟩ else none

/-- `ReadFile` on an inode that is in use, with the number of sectors that it reads. -/
def readInode (inode : Inode) (out : ℕ → UInt8) (size : UInt32) (s : Sys σ) :
    Option (((ℤ × (ℕ → UInt8)) × Sys σ) × ℕ) :=
  if inode.size > 0 ∧ inode.startSector > 0 then
    match E.malloc s.world with
    | (none, w) => some (((0, out), { s with world := w }), 0)
    | (some diskBuffer, w) => do
      let (st, sectors) ← tryLoop (fun st => st.bytesRead < size) (readRound E inode size)
        (sectorCount inode.size).toNat 0 ⟨w, diskBuffer, out, 0⟩
      some (((toInt32 st.bytesRead, st.out), { s with world := E.free st.diskBuffer st.world }),
        sectors)
  else some (((0, out), s), 0)

theorem toNat_lt_of_index {s : Sys σ} {inodeIndex : ℤ}
    (h : ¬ (s.fs.mounted = false ∨ inodeIndex < 0 ∨ inodeIndex ≥ 64)) : inodeIndex.toNat < 64 := by
  omega

/-- `FileSystem::ReadFile`. -/
def readFile (inodeIndex : ℤ) (out : ℕ → UInt8) (size : UInt32) (s : Sys σ) :
    Option (((ℤ × (ℕ → UInt8)) × Sys σ) × ℕ) :=
  if h : s.fs.mounted = false ∨ inodeIndex < 0 ∨ inodeIndex ≥ 64 then some (((-1, out), s), 0)
  else
    let inode := s.fs.inodes ⟨inodeIndex.toNat, toNat_lt_of_index h⟩
    if inode.type = inodeTypeEmpty then some (((-1, out), s), 0)
    else readInode E inode out size s

end Functions

/-! ## The checks pass -/

section Bounds

variable {σ : Type} {E : Env σ} {inode : Inode} {size : UInt32} {i : ℕ} {st : ReadState σ}

theorem add_eq {a b : UInt32} (h : a.toNat + b.toNat < 2 ^ 32) : add a b = some (a + b) := if_pos h

theorem clip_eq {done limit count : UInt32} (hle : done.toNat ≤ limit.toNat)
    (hwrap : done.toNat + count.toNat < 2 ^ 32) :
    clip done limit count = some (FileSystem.clip done limit count) := by
  rw [clip, add_eq hwrap, FileSystem.clip, Option.bind_eq_bind, Option.bind_some]
  split
  · rw [sub, if_pos (UInt32.le_iff_toNat_le.mpr hle)]
  · rfl

/-- The innermost loop stays in both buffers. -/
theorem copy_eq (data : Sector) {bytesRead : UInt32} {count : ℕ} (out : ℕ → UInt8)
    (hsize : bytesRead.toNat + count ≤ size.toNat) (hcount : count ≤ 512) :
    ∃ n, tryLoop (fun _ => true) (copyByte data bytesRead size) count 0 out =
      some (forLoop (fun _ => true)
        (fun j out => Function.update out (bytesRead + .ofNat j).toNat (data.get j)) count 0 out,
        n) := by
  have hlt := size.toNat_lt
  have hround : ∀ j out', j < 0 + count → copyByte data bytesRead size j out' =
      some (Function.update out' (bytesRead + .ofNat j).toNat (data.get j)) := by
    intro j out' hj
    have hofNat : (UInt32.ofNat j).toNat = j := toNat_ofNat_of_lt (by omega)
    have hindex : bytesRead + .ofNat j < size := by
      rw [UInt32.lt_iff_toNat_lt, UInt32.toNat_add, hofNat]
      omega
    rw [copyByte, add_eq (by omega), Option.bind_eq_bind, Option.bind_some,
      if_pos ⟨hindex, by omega⟩]
  obtain ⟨n, -, hsome⟩ := @tryLoop_eq _ (fun _ => true) _ _ _ out _ (fun _ _ => True) trivial
    fun j out' _ hj _ _ => ⟨hround j out' hj, trivial⟩
  exact ⟨n, hsome⟩

/-- **One round** passes its checks. -/
theorem readRound_eq_some (hbytes : st.bytesRead.toNat = 512 * i)
    (hlt : 512 * i < min size.toNat (storedLength inode.size)) :
    readRound E inode size i st = some (FileSystem.readRound E inode size i st) := by
  have hstored := storedLength_le inode.size
  -- where the number of sectors wraps there is no round
  have hwrap : inode.size.toNat + 511 < 2 ^ 32 := by
    by_contra h
    rw [storedLength, if_neg h] at hlt
    omega
  have h512 : (512 : UInt32).toNat = 512 := rfl
  have hrequest := size.toNat_lt
  have hfirst := toNat_clip_512 hbytes (by omega) hwrap
  have hsecond := @toNat_clip st.bytesRead size (FileSystem.clip st.bytesRead inode.size 512)
    (by omega) (by omega)
  have hclip := @clip_eq st.bytesRead inode.size 512 (by omega) (by omega)
  have hclip' := @clip_eq st.bytesRead size (FileSystem.clip st.bytesRead inode.size 512) (by omega)
    (by omega)
  obtain ⟨c, hc⟩ : ∃ c, FileSystem.clip st.bytesRead size
    (FileSystem.clip st.bytesRead inode.size 512) = c := ⟨_, rfl⟩
  rw [hc] at hsecond hclip'
  have hsum : (st.bytesRead + c).toNat = st.bytesRead.toNat + c.toNat := by
    rw [UInt32.toNat_add]
    omega
  have hle : st.bytesRead + c ≤ size ∧ st.bytesRead + c ≤ inode.size := by
    rw [UInt32.le_iff_toNat_le, UInt32.le_iff_toNat_le]
    omega
  rw [readRound, FileSystem.readRound_of_clip E inode size i st hc]
  generalize E.read28 (inode.startSector + .ofNat i) st.diskBuffer st.world = r
  obtain ⟨diskBuffer, w⟩ := r
  obtain ⟨n, hcopy⟩ := @copy_eq size diskBuffer.data st.bytesRead c.toNat st.out (by omega)
    (by omega)
  simp only [hclip, hclip', Option.bind_eq_bind, Option.bind_some]
  rw [hcopy, Option.bind_some, add_eq (by omega), Option.bind_some]
  exact if_pos hle

/-- **The loop** passes its checks, and reads no more sectors than the bytes to read take. -/
theorem readRounds_eq_some (h0 : st.bytesRead = 0) :
    ∃ n ≤ (min size.toNat inode.size.toNat + 511) / 512,
      tryLoop (fun st => decide (st.bytesRead < size)) (readRound E inode size)
          (sectorCount inode.size).toNat 0 st =
        some (forLoop (fun st => decide (st.bytesRead < size)) (FileSystem.readRound E inode size)
          (sectorCount inode.size).toNat 0 st, n) := by
  have hstored := storedLength_le inode.size
  -- after some rounds all their bytes have been read, unless fewer were wanted
  obtain ⟨n, ⟨hn, -⟩, hsome⟩ := @tryLoop_eq _ (fun st => decide (st.bytesRead < size))
    (FileSystem.readRound E inode size) (sectorCount inode.size).toNat 0 st
    (readRound E inode size)
    (fun i st => i ≤ (min size.toNat (storedLength inode.size) + 511) / 512 ∧
      st.bytesRead.toNat = min (512 * i) (min size.toNat (storedLength inode.size)))
    ⟨Nat.zero_le _, by rw [h0]; exact (Nat.zero_min _).symm⟩
    (fun i st _ hi hcond ⟨hle, hbytes⟩ => by
      have hmore := lt_of_lt_sectorCount (Nat.zero_add _ ▸ hi)
      have hcount := toNat_sectorCount inode.size
      have hrequest := UInt32.lt_iff_toNat_lt.mp (of_decide_eq_true hcond)
      have hlt : 512 * i < min size.toNat (storedLength inode.size) := by omega
      obtain ⟨v, hv, hround⟩ := readRound_eq E (by omega : st.bytesRead.toNat = 512 * i) hlt
      refine ⟨readRound_eq_some (by omega) hlt, by omega, ?_⟩
      rw [hround]
      exact hv)
  exact ⟨n, by omega, hsome⟩

end Bounds

/-- **`ReadFile` stays in its buffers.**  For every inode table, drive and heap, every index and
every size of the request, no check of `ReadFile` fails, and it reads at most as many sectors as
the smaller of the request and the file takes. -/
theorem readFile_in_bounds {σ : Type} (E : Env σ) (inodeIndex : ℤ) (out : ℕ → UInt8)
    (size : UInt32) (s : Sys σ) :
    ∃ sectors, readFile E inodeIndex out size s =
        some (FileSystem.readFile E inodeIndex out size s, sectors) ∧
      ∀ i : Fin 64, (i.val : ℤ) = inodeIndex →
        sectors ≤ (min size.toNat (s.fs.inodes i).size.toNat + 511) / 512 := by
  rw [readFile, FileSystem.readFile]
  split
  · exact ⟨0, rfl, fun _ _ => Nat.zero_le _⟩
  · next h =>
    simp only
    split
    · exact ⟨0, rfl, fun _ _ => Nat.zero_le _⟩
    · have hindex : ∀ i : Fin 64, (i.val : ℤ) = inodeIndex →
          (⟨inodeIndex.toNat, toNat_lt_of_index h⟩ : Fin 64) = i := by
        intro i hi
        apply Fin.ext
        simp only
        omega
      rw [readInode, FileSystem.readInode]
      split
      · rcases E.malloc s.world with ⟨_ | diskBuffer, w⟩
        · exact ⟨0, rfl, fun _ _ => Nat.zero_le _⟩
        · obtain ⟨n, hn, hsome⟩ := @readRounds_eq_some _ E
            (s.fs.inodes ⟨inodeIndex.toNat, toNat_lt_of_index h⟩) size ⟨w, diskBuffer, out, 0⟩ rfl
          refine ⟨n, ?_, ?_⟩
          · simp only
            rw [hsome]
            rfl
          · intro i hi
            rwa [hindex i hi] at hn
      · exact ⟨0, rfl, fun _ _ => Nat.zero_le _⟩

end Checked
