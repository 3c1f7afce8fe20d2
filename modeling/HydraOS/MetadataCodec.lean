/-
# The metadata codec, byte by byte

The two `Save` functions lay the packed structures out in sectors, a superblock in the first 48
bytes of sector 1 and eight inodes of 52 bytes each in slots of 64 bytes; the two `Load`
functions take them out again.  Here their copying loops are those of the source, and they come
to what `FileSystem` says in one piece.  Saving and then loading gives back the structures, and
loading and then saving gives back the sectors except for the bytes outside the structures,
which become zero.
-/
import HydraOS.FileSystemSpec

open FileSystem

/-! ## Bytes of the packed structures -/

/-- The bytes of a word that was put together from them. -/
theorem Mem.wordByte_word {m : Mem} {a i : ℕ} (ha : a + 4 ≤ 2 ^ 32) (hi : i < 4) :
    wordByte (m.word a) i = m (a + i) := by
  have hbyte : ∀ j < 4, m.byte (a + j) = m (a + j) := by
    intro j hj
    rw [byte, Nat.mod_eq_of_lt (by omega)]
  have h0 := hbyte 0 (by omega)
  rw [Nat.add_zero] at h0
  have hlt : ∀ j, (m (a + j)).toNat < 256 := fun j => UInt8.toNat_lt _
  have hlt0 := hlt 0
  have hlt1 := hlt 1
  have hlt2 := hlt 2
  have hlt3 := hlt 3
  rw [Nat.add_zero] at hlt0
  apply UInt8.toNat_inj.mp
  rw [wordByte, word, loadWord, h0, hbyte 1 (by omega), hbyte 2 (by omega), hbyte 3 (by omega)]
  simp only [UInt8.toNat_ofNat', UInt32.toNat_ofNat']
  obtain rfl | rfl | rfl | rfl : i = 0 ∨ i = 1 ∨ i = 2 ∨ i = 3 := by omega
  · simp only [Nat.mul_zero, Nat.pow_zero, Nat.div_one, Nat.add_zero]
    omega
  · omega
  · omega
  · omega

/-- A byte of the word at `a`, by its address. -/
theorem Mem.wordByte_word_sub {m : Mem} {a i : ℕ} (ha : a + 4 ≤ 2 ^ 32) (hle : a ≤ i)
    (hlt : i < a + 4) : wordByte (m.word a) (i - a) = m i := by
  rw [wordByte_word ha (by omega), Nat.add_sub_cancel' hle]

/-- The bytes of the superblock with given bytes. -/
theorem Superblock.toMem_ofMem {m : Mem} {i : ℕ} (hi : i < 48) : (ofMem m).toMem i = m i := by
  rw [toMem]
  split_ifs with h0 h1 h2 h3
  · exact @Mem.wordByte_word_sub m 0 i (by omega) (by omega) h0
  · exact @Mem.wordByte_word_sub m 4 i (by omega) (by omega) h1
  · exact @Mem.wordByte_word_sub m 8 i (by omega) (by omega) h2
  · exact @Mem.wordByte_word_sub m 12 i (by omega) (by omega) h3
  · rw [ofMem, Bytes.get_tabulate _ (by omega), Nat.add_sub_cancel' (by omega)]

/-- The bytes of the inode with given bytes. -/
theorem Inode.toMem_ofMem {m : Mem} {i : ℕ} (hi : i < 52) : (ofMem m).toMem i = m i := by
  rw [toMem]
  split_ifs with h0 h1 h2 h3 h4
  · rw [ofMem, Bytes.get_tabulate _ h0]
  · exact @Mem.wordByte_word_sub m 32 i (by omega) (by omega) h1
  · exact @Mem.wordByte_word_sub m 36 i (by omega) (by omega) h2
  · exact @Mem.wordByte_word_sub m 40 i (by omega) (by omega) h3
  · exact @Mem.wordByte_word_sub m 44 i (by omega) (by omega) h4
  · exact @Mem.wordByte_word_sub m 48 i (by omega) (by omega) (by omega)

/-- Arrays with the same bytes are equal. -/
theorem Bytes.ext_get {n : ℕ} {b c : Bytes n} (h : ∀ k < n, b.get k = c.get k) : b = c := by
  funext i
  have hi := h i.val i.isLt
  rwa [Bytes.get_val, Bytes.get_val] at hi

/-! ## The copying loops -/

namespace Bytewise

/-- `buffer[offset + j] = bytes[j];` for `count` indices `j`. -/
def store (offset : ℕ) (bytes : ℕ → UInt8) (count : ℕ) (buffer : Sector) : Sector :=
  forLoop (fun _ => true) (fun j buffer => buffer.set (offset + j) (bytes j)) count 0 buffer

/-- `bytes[j] = buffer[offset + j];` for `count` indices `j`. -/
def fetch (offset : ℕ) (buffer : Sector) (count : ℕ) (bytes : Mem) : Mem :=
  forLoop (fun _ => true) (fun j bytes => Function.update bytes j (buffer.get (offset + j)))
    count 0 bytes

/-- `buffer[i] = 0;` for all 512 bytes. -/
def clear (buffer : Sector) : Sector := store 0 (fun _ => 0) 512 buffer

/-- Eight inodes into a buffer. -/
def storeInodes (inodes : Fin 64 → Inode) (sector : ℕ) (buffer : Sector) : Sector :=
  forLoop (fun _ => true)
    (fun i buffer =>
      if h : sector * 8 + i < 64 then store (i * 64) (inodes ⟨sector * 8 + i, h⟩).toMem 52 buffer
      else buffer)
    8 0 (clear buffer)

/-- Eight inodes out of a buffer. -/
def fetchInodes (sector : ℕ) (buffer : Sector) (inodes : Fin 64 → Inode) : Fin 64 → Inode :=
  forLoop (fun _ => true)
    (fun i inodes =>
      if h : sector * 8 + i < 64 then
        Function.update inodes ⟨sector * 8 + i, h⟩
          (Inode.ofMem (fetch (i * 64) buffer 52 (inodes ⟨sector * 8 + i, h⟩).toMem))
      else inodes)
    8 0 inodes

section Loops

variable {offset count k : ℕ} {bytes : ℕ → UInt8} {buffer : Sector}

theorem get_store (hk : k < 512) : (store offset bytes count buffer).get k =
    if offset ≤ k ∧ k < offset + count then bytes (k - offset) else buffer.get k := by
  induction count with
  | zero =>
    rw [if_neg (by omega)]
    rfl
  | succ count ih =>
    rw [store] at ih ⊢
    rw [forLoop_succ_last, Nat.zero_add, Bytes.get_set hk, ih]
    by_cases heq : k = offset + count
    · rw [if_pos heq, if_pos (by omega), heq, Nat.add_sub_cancel_left]
    · have hiff : k < offset + (count + 1) ↔ k < offset + count := by omega
      rw [if_neg heq]
      simp only [hiff]

theorem fetch_apply (m : Mem) (j : ℕ) : fetch offset buffer count m j =
    if j < count then buffer.get (offset + j) else m j := by
  induction count with
  | zero =>
    rw [if_neg (by omega)]
    rfl
  | succ count ih =>
    rw [fetch] at ih ⊢
    rw [forLoop_succ_last, Nat.zero_add]
    by_cases heq : j = count
    · rw [heq, Function.update_self, if_pos (by omega)]
    · have hiff : j < count + 1 ↔ j < count := by omega
      rw [Function.update_of_ne heq, ih]
      simp only [hiff]

theorem get_clear (hk : k < 512) : (clear buffer).get k = 0 := by
  rw [clear, get_store hk, if_pos (by omega)]

/-- The sector of the superblock. -/
theorem store_superblock (sb : Superblock) : store 0 sb.toMem 48 (clear buffer) =
    superblockSector sb := by
  apply Bytes.ext_get
  intro k hk
  rw [get_store hk, get_clear hk, superblockSector, Bytes.get_tabulate _ hk]
  simp only [Nat.zero_le, true_and, Nat.zero_add, Nat.sub_zero]

theorem fetch_superblock (m : Mem) :
    Superblock.ofMem (fetch 0 buffer 48 m) = Superblock.ofMem buffer.get := by
  apply Superblock.ofMem_eq
  intro i hi
  rw [fetch_apply, if_pos hi, Nat.zero_add, Superblock.toMem_ofMem hi]

theorem fetch_inode (m : Mem) : Inode.ofMem (fetch offset buffer 52 m) =
    Inode.ofMem fun j => buffer.get (offset + j) := by
  apply Inode.ofMem_eq
  intro i hi
  rw [fetch_apply, if_pos hi, Inode.toMem_ofMem hi]

/-- The byte `k` of a sector of the table in which the first `n` slots are in place. -/
def slotByte (inodes : Fin 64 → Inode) (sector k n : ℕ) : UInt8 :=
  if k / 64 < n ∧ k % 64 < 52 then
    if h : sector * 8 + k / 64 < 64 then (inodes ⟨sector * 8 + k / 64, h⟩).toMem (k % 64) else 0
  else 0

/-- One more slot, when the byte is in it, -/
theorem slotByte_succ (inodes : Fin 64 → Inode) {sector : ℕ} (h : sector * 8 + k / 64 < 64) :
    slotByte inodes sector k (k / 64 + 1) =
      if k % 64 < 52 then (inodes ⟨sector * 8 + k / 64, h⟩).toMem (k % 64) else 0 := by
  have hiff : (k / 64 < k / 64 + 1 ∧ k % 64 < 52) ↔ k % 64 < 52 := by omega
  rw [slotByte, dif_pos h]
  simp only [hiff]

/-- and when it is not. -/
theorem slotByte_succ_of_ne (inodes : Fin 64 → Inode) {sector n : ℕ}
    (h : k / 64 = n → ¬ sector * 8 + n < 64) :
    slotByte inodes sector k (n + 1) = slotByte inodes sector k n := by
  by_cases hslot : k / 64 = n
  · rw [slotByte, slotByte, dif_neg (hslot ▸ h hslot), ite_self, ite_self]
  · have hiff : k / 64 < n + 1 ↔ k / 64 < n := by omega
    rw [slotByte, slotByte]
    simp only [hiff]

/-- The sector of eight inodes. -/
theorem storeInodes_eq (inodes : Fin 64 → Inode) (sector : ℕ) :
    storeInodes inodes sector buffer = inodeTableSector inodes sector := by
  apply Bytes.ext_get
  intro k hk
  have hend : (storeInodes inodes sector buffer).get k = slotByte inodes sector k (0 + 8) := by
    apply @forLoop_invariant_of_true _ _ 8 0 (clear buffer)
      (fun n (b : Sector) => b.get k = slotByte inodes sector k n)
    · rw [get_clear hk, slotByte, if_neg (by omega)]
    · intro n b _ hn hinv
      by_cases h : sector * 8 + n < 64
      · rw [dif_pos h, get_store hk, hinv]
        by_cases hslot : k / 64 = n
        · subst hslot
          have hiff : (k / 64 * 64 ≤ k ∧ k < k / 64 * 64 + 52) ↔ k % 64 < 52 := by omega
          have hmod : k - k / 64 * 64 = k % 64 := by omega
          have hbefore : slotByte inodes sector k (k / 64) = 0 := if_neg (by omega)
          rw [slotByte_succ inodes h, hbefore]
          simp only [hiff, hmod]
        · rw [if_neg (by omega), slotByte_succ_of_ne inodes fun heq => absurd heq hslot]
      · rw [dif_neg h, hinv, slotByte_succ_of_ne inodes fun _ => h]
  have hiff : (k / 64 < 0 + 8 ∧ k % 64 < 52) ↔ k % 64 < 52 := by omega
  rw [hend, slotByte, inodeTableSector, Bytes.get_tabulate _ hk]
  simp only [hiff]

/-- Eight inodes of the table are loaded. -/
theorem fetchInodes_eq (inodes : Fin 64 → Inode) (sector : ℕ) :
    fetchInodes sector buffer inodes = loadInodes inodes sector buffer := by
  funext index
  have hindex := index.isLt
  have hend : fetchInodes sector buffer inodes index =
      if sector * 8 ≤ index.val ∧ index.val < sector * 8 + (0 + 8) then
        Inode.ofMem fun j => buffer.get (index.val % 8 * 64 + j) else inodes index := by
    apply @forLoop_invariant_of_true _ _ 8 0 inodes
      (fun n (table : Fin 64 → Inode) => table index =
        if sector * 8 ≤ index.val ∧ index.val < sector * 8 + n then
          Inode.ofMem fun j => buffer.get (index.val % 8 * 64 + j) else inodes index)
    · rw [if_neg (by omega)]
    · intro n table _ hn hinv
      by_cases heq : index.val = sector * 8 + n
      · have h : sector * 8 + n < 64 := by omega
        have hfin : index = ⟨sector * 8 + n, h⟩ := Fin.ext heq
        have hmod : index.val % 8 * 64 = n * 64 := by omega
        rw [dif_pos h, ← hfin, Function.update_self, fetch_inode, if_pos (by omega), hmod]
      · have hiff : index.val < sector * 8 + (n + 1) ↔ index.val < sector * 8 + n := by omega
        simp only [hiff]
        rw [← hinv]
        split
        · rw [Function.update_of_ne fun h => heq (congrArg Fin.val h)]
        · rfl
  have hiff : (sector * 8 ≤ index.val ∧ index.val < sector * 8 + (0 + 8)) ↔
    index.val / 8 = sector := by omega
  rw [hend, loadInodes]
  simp only [hiff]

end Loops

/-! ## The four functions with these loops -/

section Functions

variable {σ : Type} (E : Env σ)

/-- `FileSystem::LoadSuperblock`. -/
def loadSuperblock (s : Sys σ) : Sys σ :=
  match E.malloc s.world with
  | (none, w) => { s with world := w }
  | (some buffer, w) =>
    let (buffer, w) := E.read28 fsSuperblockSec buffer w
    let superblock := Superblock.ofMem (fetch 0 buffer.data 48 s.fs.superblock.toMem)
    { fs := { s.fs with superblock := superblock }, world := E.free buffer w }

/-- `FileSystem::SaveSuperblock`. -/
def saveSuperblock (s : Sys σ) : Sys σ :=
  match E.malloc s.world with
  | (none, w) => { s with world := w }
  | (some buffer, w) =>
    let buffer := { buffer with data := store 0 s.fs.superblock.toMem 48 (clear buffer.data) }
    { s with world := E.free buffer (E.write28 fsSuperblockSec buffer w) }

/-- One round of the loop of `LoadInodeTable`. -/
def loadInodeRound (sector : ℕ) :
    (Fin 64 → Inode) × Buffer × σ → (Fin 64 → Inode) × Buffer × σ
  | (inodes, buffer, w) =>
    let (buffer, w) := E.read28 (tableSector sector) buffer w
    (fetchInodes sector buffer.data inodes, buffer, w)

/-- `FileSystem::LoadInodeTable`. -/
def loadInodeTable (s : Sys σ) : Sys σ :=
  match E.malloc s.world with
  | (none, w) => { s with world := w }
  | (some buffer, w) =>
    let (inodes, buffer, w) :=
      forLoop (fun _ => true) (loadInodeRound E) 8 0 (s.fs.inodes, buffer, w)
    { fs := { s.fs with inodes := inodes }, world := E.free buffer w }

/-- One round of the loop of `SaveInodeTable`. -/
def saveInodeRound (inodes : Fin 64 → Inode) (sector : ℕ) : Buffer × σ → Buffer × σ
  | (buffer, w) =>
    let buffer := { buffer with data := storeInodes inodes sector buffer.data }
    (buffer, E.write28 (tableSector sector) buffer w)

/-- `FileSystem::SaveInodeTable`. -/
def saveInodeTable (s : Sys σ) : Sys σ :=
  match E.malloc s.world with
  | (none, w) => { s with world := w }
  | (some buffer, w) =>
    let (buffer, w) := forLoop (fun _ => true) (saveInodeRound E s.fs.inodes) 8 0 (buffer, w)
    { s with world := E.free buffer w }

theorem loadSuperblock_eq : loadSuperblock E = FileSystem.loadSuperblock E := by
  funext s
  rcases hmalloc : E.malloc s.world with ⟨_ | buffer, w⟩
  all_goals simp only [loadSuperblock, FileSystem.loadSuperblock, hmalloc, fetch_superblock]

theorem saveSuperblock_eq : saveSuperblock E = FileSystem.saveSuperblock E := by
  funext s
  rcases hmalloc : E.malloc s.world with ⟨_ | buffer, w⟩
  all_goals simp only [saveSuperblock, FileSystem.saveSuperblock, hmalloc, store_superblock]

theorem loadInodeTable_eq : loadInodeTable E = FileSystem.loadInodeTable E := by
  have hround : loadInodeRound E = FileSystem.loadInodeRound E := by
    funext sector st
    simp only [loadInodeRound, FileSystem.loadInodeRound, fetchInodes_eq]
  funext s
  rcases hmalloc : E.malloc s.world with ⟨_ | buffer, w⟩
  all_goals simp only [loadInodeTable, FileSystem.loadInodeTable, hmalloc, hround]

theorem saveInodeTable_eq : saveInodeTable E = FileSystem.saveInodeTable E := by
  have hround (inodes : Fin 64 → Inode) :
      saveInodeRound E inodes = FileSystem.saveInodeRound E inodes := by
    funext sector st
    simp only [saveInodeRound, FileSystem.saveInodeRound, storeInodes_eq]
  funext s
  rcases hmalloc : E.malloc s.world with ⟨_ | buffer, w⟩
  all_goals simp only [saveInodeTable, FileSystem.saveInodeTable, hmalloc, hround]

end Functions

/-! ## The round trips -/

section RoundTrips

variable {σ : Type} (F : FaithfulEnv σ) (s : Sys σ)

/-- `SaveSuperblock` and `SaveInodeTable`. -/
def save (E : Env σ) (s : Sys σ) : Sys σ := saveInodeTable E (saveSuperblock E s)

/-- `LoadSuperblock` and `LoadInodeTable`. -/
def load (E : Env σ) (s : Sys σ) : Sys σ := loadInodeTable E (loadSuperblock E s)

/-- What is on the disk after saving. -/
theorem disk_save (x : UInt32) : F.disk (save F.toEnv s).world x =
    if 2 ≤ x.toNat ∧ x.toNat < 10 then inodeTableSector s.fs.inodes (x.toNat - 2)
    else if x = fsSuperblockSec then superblockSector s.fs.superblock
    else F.disk s.world x := by
  rw [save, saveInodeTable_eq, saveSuperblock_eq, disk_saveInodeTable, saveSuperblock_fs,
    disk_saveSuperblock, Function.update_apply]

/-- What is in memory after loading. -/
theorem load_spec : (load F.toEnv s).fs =
      { s.fs with
        superblock := diskSuperblock (F.disk s.world), inodes := diskInodes (F.disk s.world) } ∧
    F.disk (load F.toEnv s).world = F.disk s.world := by
  obtain ⟨hsuperblock, hdisk⟩ := loadSuperblock_spec F s
  obtain ⟨hinodes, hdisk'⟩ := loadInodeTable_spec F (FileSystem.loadSuperblock F.toEnv s)
  rw [load, loadInodeTable_eq, loadSuperblock_eq]
  constructor
  · rw [hinodes, hsuperblock, hdisk]
  · rw [hdisk', hdisk]

/-- The disk holds what was saved. -/
theorem synced_save : Synced s.fs (F.disk (save F.toEnv s).world) := by
  constructor
  · rw [disk_save, if_neg (by decide), if_pos rfl]
  · intro sector hsec
    have hnat := toNat_tableSector hsec
    rw [disk_save, if_pos (by omega), hnat, Nat.add_sub_cancel_left]

/-- A byte of the sector of the superblock that a disk holds. -/
theorem get_superblockSector_disk (d : UInt32 → Sector) {k : ℕ} (hk : k < 512) :
    (superblockSector (diskSuperblock d)).get k =
      if k < 48 then (d fsSuperblockSec).get k else 0 := by
  rw [superblockSector, Bytes.get_tabulate _ hk]
  split
  · next h => exact Superblock.toMem_ofMem h
  · rfl

/-- A byte of a sector of the inode table that a disk holds. -/
theorem get_inodeTableSector_disk (d : UInt32 → Sector) {sector k : ℕ} (hsec : sector < 8)
    (hk : k < 512) : (inodeTableSector (diskInodes d) sector).get k =
      if k % 64 < 52 then (d (tableSector sector)).get k else 0 := by
  rw [inodeTableSector, Bytes.get_tabulate _ hk]
  split
  · next h =>
    have hdiv : (sector * 8 + k / 64) / 8 = sector := by omega
    have hmod : (sector * 8 + k / 64) % 8 * 64 + k % 64 = k := by omega
    rw [dif_pos (by omega), diskInodes, Inode.toMem_ofMem h]
    simp only [hdiv, hmod]
  · rfl

/-- **The codec round trips.**  On a drive that stores and returns sectors, with memory for the
buffers: what one object saves, any other loads; and loading and then saving leaves every byte
of the disk as it was, except that the bytes after the superblock in its sector and after each
inode in its slot become zero. -/
theorem codec_round_trips :
    (∀ t : FileSystem,
      let r := load F.toEnv { save F.toEnv s with fs := t }
      r.fs = { t with superblock := s.fs.superblock, inodes := s.fs.inodes } ∧
        ∀ x : UInt32, ¬ (1 ≤ x.toNat ∧ x.toNat < 10) → F.disk r.world x = F.disk s.world x) ∧
      ∀ (x : UInt32) (k : ℕ), k < 512 →
        (F.disk (save F.toEnv (load F.toEnv s)).world x).get k =
          if x.toNat = 1 ∧ 48 ≤ k ∨ (2 ≤ x.toNat ∧ x.toNat < 10) ∧ 52 ≤ k % 64 then 0
          else (F.disk s.world x).get k := by
  constructor
  · intro t
    have hsynced := synced_save F s
    obtain ⟨hfs, hdisk⟩ := load_spec F { save F.toEnv s with fs := t }
    simp only
    rw [hfs, hdisk, hsynced.diskSuperblock_eq, hsynced.diskInodes_eq]
    refine ⟨rfl, ?_⟩
    intro x hx
    have hone : x ≠ fsSuperblockSec := by
      rintro rfl
      exact hx (by decide)
    rw [disk_save, if_neg (by omega), if_neg hone]
  · intro x k hk
    obtain ⟨hfs, hdisk⟩ := load_spec F s
    rw [disk_save, hfs, hdisk]
    by_cases htable : 2 ≤ x.toNat ∧ x.toNat < 10
    · have hx : tableSector (x.toNat - 2) = x := by
        apply UInt32.toNat_inj.mp
        rw [toNat_tableSector (by omega)]
        omega
      rw [if_pos htable, get_inodeTableSector_disk _ (by omega) hk, hx]
      by_cases hin : k % 64 < 52
      · rw [if_pos hin, if_neg (by omega)]
      · rw [if_neg hin, if_pos (by omega)]
    · rw [if_neg htable]
      by_cases hx : x = fsSuperblockSec
      · subst hx
        have hone : fsSuperblockSec.toNat = 1 := rfl
        rw [if_pos rfl, get_superblockSector_disk _ hk]
        by_cases hin : k < 48
        · rw [if_pos hin, if_neg (by omega)]
        · rw [if_neg hin, if_pos (by omega)]
      · have hone : x.toNat ≠ 1 := fun h => hx (UInt32.toNat_inj.mp h)
        rw [if_neg hx, if_neg (by omega)]

end RoundTrips

end Bytewise
