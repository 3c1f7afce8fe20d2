/-
# What the functions of the file system do

First the metadata codec: what the two `Load` functions make of a disk, and that
they undo the two `Save` functions.  Then one theorem for each function that touches
the disk or a file's contents.  The effect on the object in memory is stated for
every `Env`, the effect on the disk for every `FaithfulEnv`.
-/
import HydraOS.FileSystem

open FileSystem

/-! ## The metadata codec -/

/-- The 48 bytes of a superblock determine it. -/
theorem Superblock.ofMem_eq {m : Mem} {sb : Superblock} (h : ∀ i < 48, m i = sb.toMem i) :
    Superblock.ofMem m = sb := by
  have hword : ∀ a v, a + 4 ≤ 48 → (∀ i < 4, sb.toMem (a + i) = Mem.wordByte v i) →
      m.word a = v := by
    intro a v ha hv
    refine Mem.word_eq (by omega) fun i hi => ?_
    rw [h _ (by omega), hv i hi]
  apply Superblock.ext
  · refine hword 0 _ (by omega) fun i hi => ?_
    rw [toMem, if_pos (by omega), Nat.zero_add]
  · refine hword 4 _ (by omega) fun i hi => ?_
    rw [toMem, if_neg (by omega), if_pos (by omega), Nat.add_sub_cancel_left]
  · refine hword 8 _ (by omega) fun i hi => ?_
    rw [toMem, if_neg (by omega), if_neg (by omega), if_pos (by omega), Nat.add_sub_cancel_left]
  · refine hword 12 _ (by omega) fun i hi => ?_
    rw [toMem, if_neg (by omega), if_neg (by omega), if_neg (by omega), if_pos (by omega),
      Nat.add_sub_cancel_left]
  · funext i
    have hi := i.isLt
    simp only [ofMem, Bytes.tabulate]
    rw [h _ (by omega), toMem, if_neg (by omega), if_neg (by omega), if_neg (by omega),
      if_neg (by omega), Nat.add_sub_cancel_left, Bytes.get_val]

/-- The 52 bytes of an inode determine it. -/
theorem Inode.ofMem_eq {m : Mem} {inode : Inode} (h : ∀ i < 52, m i = inode.toMem i) :
    Inode.ofMem m = inode := by
  have hword : ∀ a v, a + 4 ≤ 52 → (∀ i < 4, inode.toMem (a + i) = Mem.wordByte v i) →
      m.word a = v := by
    intro a v ha hv
    refine Mem.word_eq (by omega) fun i hi => ?_
    rw [h _ (by omega), hv i hi]
  apply Inode.ext
  · funext i
    have hi := i.isLt
    simp only [ofMem, Bytes.tabulate]
    rw [h _ (by omega), toMem, if_pos hi, Bytes.get_val]
  · refine hword 32 _ (by omega) fun i hi => ?_
    rw [toMem, if_neg (by omega), if_pos (by omega), Nat.add_sub_cancel_left]
  · refine hword 36 _ (by omega) fun i hi => ?_
    rw [toMem, if_neg (by omega), if_neg (by omega), if_pos (by omega), Nat.add_sub_cancel_left]
  · refine hword 40 _ (by omega) fun i hi => ?_
    rw [toMem, if_neg (by omega), if_neg (by omega), if_neg (by omega), if_pos (by omega),
      Nat.add_sub_cancel_left]
  · refine hword 44 _ (by omega) fun i hi => ?_
    rw [toMem, if_neg (by omega), if_neg (by omega), if_neg (by omega), if_neg (by omega),
      if_pos (by omega), Nat.add_sub_cancel_left]
  · refine hword 48 _ (by omega) fun i hi => ?_
    rw [toMem, if_neg (by omega), if_neg (by omega), if_neg (by omega), if_neg (by omega),
      if_neg (by omega), Nat.add_sub_cancel_left]

/-- The superblock that a disk holds. -/
def diskSuperblock (d : UInt32 → Sector) : Superblock := Superblock.ofMem (d fsSuperblockSec).get

/-- The inode table that a disk holds. -/
def diskInodes (d : UInt32 → Sector) : Fin 64 → Inode := fun i =>
  Inode.ofMem fun j => (d (tableSector (i.val / 8))).get (i.val % 8 * 64 + j)

/-- The disk holds the superblock and the inode table of the object. -/
structure Synced (fs : FileSystem) (d : UInt32 → Sector) : Prop where
  superblock : d fsSuperblockSec = superblockSector fs.superblock
  inodes : ∀ sector < 8, d (tableSector sector) = inodeTableSector fs.inodes sector

section Codec

variable {fs : FileSystem} {d : UInt32 → Sector}

theorem toNat_tableSector {sector : ℕ} (h : sector < 8) :
    (tableSector sector).toNat = 2 + sector := by
  have h2 : fsInodeStartSec.toNat = 2 := rfl
  rw [tableSector, UInt32.toNat_add, UInt32.toNat_ofNat', h2]
  omega

theorem tableSector_le {sector : ℕ} (h : sector < 8) : tableSector sector ≤ 0x0FFFFFFF := by
  rw [UInt32.le_iff_toNat_le, toNat_tableSector h]
  exact (by omega : 2 + sector ≤ 10).trans (by decide)

/-- Loading gives back the superblock that was saved. -/
theorem diskSuperblock_of_sector {sb : Superblock} (h : d fsSuperblockSec = superblockSector sb) :
    diskSuperblock d = sb := by
  refine Superblock.ofMem_eq fun i hi => ?_
  rw [h, superblockSector, Bytes.get_tabulate _ (by omega), if_pos hi]

/-- The bytes of an inode in its sector of the table. -/
theorem get_inodeTableSector (inodes : Fin 64 → Inode) (i : Fin 64) {j : ℕ} (hj : j < 52) :
    (inodeTableSector inodes (i.val / 8)).get (i.val % 8 * 64 + j) = (inodes i).toMem j := by
  have hi := i.isLt
  have hmod : (i.val % 8 * 64 + j) % 64 = j := by omega
  have hdiv : i.val / 8 * 8 + (i.val % 8 * 64 + j) / 64 = i.val := by omega
  rw [inodeTableSector, Bytes.get_tabulate _ (by omega)]
  simp only [hmod, hdiv, if_pos hj, dif_pos hi]

/-- Loading gives back an inode that was saved. -/
theorem diskInodes_of_sector {inodes : Fin 64 → Inode} {i : Fin 64}
    (h : d (tableSector (i.val / 8)) = inodeTableSector inodes (i.val / 8)) :
    diskInodes d i = inodes i := by
  refine Inode.ofMem_eq fun j hj => ?_
  rw [h, get_inodeTableSector inodes i hj]

theorem Synced.diskSuperblock_eq (h : Synced fs d) : diskSuperblock d = fs.superblock :=
  diskSuperblock_of_sector h.superblock

/-- Loading gives back the inode table that was saved. -/
theorem Synced.diskInodes_eq (h : Synced fs d) : diskInodes d = fs.inodes := by
  funext i
  have hi := i.isLt
  exact diskInodes_of_sector (h.inodes _ (by omega))

end Codec

/-! ## Saving and loading -/

namespace FileSystem

section InMemory

variable {σ : Type} (E : Env σ) (s : Sys σ)

@[simp] theorem saveSuperblock_fs : (saveSuperblock E s).fs = s.fs := by
  rw [saveSuperblock]
  split <;> rfl

@[simp] theorem saveInodeTable_fs : (saveInodeTable E s).fs = s.fs := by
  rw [saveInodeTable]
  split <;> rfl

@[simp] theorem allocateSector_fst :
    (allocateSector E s).1 = fsDataStartSec + s.fs.superblock.usedSectors := rfl

@[simp] theorem allocateSector_fs : (allocateSector E s).2.fs =
    { s.fs with superblock :=
      { s.fs.superblock with usedSectors := s.fs.superblock.usedSectors + 1 } } := by
  rw [allocateSector, saveSuperblock_fs]

theorem loadInodeTable_superblock : (loadInodeTable E s).fs.superblock = s.fs.superblock := by
  rw [loadInodeTable]
  split <;> rfl

/-- `Mount` of a superblock with the magic number, -/
theorem mount_of_loaded (h : (loadSuperblock E s).fs.superblock.magic = fsMagic) :
    let t := loadInodeTable E (loadSuperblock E s)
    mount E s = (true, { t with fs := { t.fs with mounted := true } }) := by
  rw [mount]
  simp only
  rw [if_neg (not_not.mpr h)]

/-- and of one without it. -/
theorem mount_of_not_loaded (h : (loadSuperblock E s).fs.superblock.magic ≠ fsMagic) :
    mount E s = (false, loadSuperblock E s) := by
  rw [mount]
  simp only
  rw [if_pos h]

end InMemory

section OnDisk

variable {σ : Type} (F : FaithfulEnv σ) (s : Sys σ)

/-- `SaveSuperblock` on the disk. -/
theorem disk_saveSuperblock : F.disk (saveSuperblock F.toEnv s).world =
    Function.update (F.disk s.world) fsSuperblockSec (superblockSector s.fs.superblock) := by
  obtain ⟨buffer, w, hmalloc, hw⟩ := F.malloc_spec s.world
  rw [saveSuperblock, hmalloc]
  simp only
  rw [F.disk_free, F.disk_write28 _ _ _ (by decide), hw]

/-- The loop of `SaveInodeTable` on the disk. -/
theorem disk_saveInodeRounds (inodes : Fin 64 → Inode) (buffer : Buffer) (w : σ)
    (x : UInt32) :
    F.disk (forLoop (fun _ => true) (saveInodeRound F.toEnv inodes) 8 0 (buffer, w)).2 x =
      if 2 ≤ x.toNat ∧ x.toNat < 10 then inodeTableSector inodes (x.toNat - 2)
      else F.disk w x := by
  refine forLoop_invariant_of_true (fun sector (st : Buffer × σ) => F.disk st.2 x =
    if 2 ≤ x.toNat ∧ x.toNat < 2 + sector then inodeTableSector inodes (x.toNat - 2)
    else F.disk w x) ?_ fun sector st _ hlt hinv => ?_
  · rw [if_neg (by omega)]
  · have hsec := @toNat_tableSector sector (by omega)
    have hround : F.disk (saveInodeRound F.toEnv inodes sector st).2 =
        Function.update (F.disk st.2) (tableSector sector) (inodeTableSector inodes sector) :=
      F.disk_write28 _ _ _ (tableSector_le (by omega))
    rw [hround]
    by_cases hx : x = tableSector sector
    · rw [hx, hsec, Function.update_self, if_pos (by omega), Nat.add_sub_cancel_left]
    · have hne : x.toNat ≠ 2 + sector := fun h => hx (UInt32.toNat_inj.mp (h.trans hsec.symm))
      have hiff : x.toNat < 2 + (sector + 1) ↔ x.toNat < 2 + sector := by omega
      rw [Function.update_of_ne hx, hinv]
      simp only [hiff]

/-- `SaveInodeTable` on the disk. -/
theorem disk_saveInodeTable (x : UInt32) : F.disk (saveInodeTable F.toEnv s).world x =
    if 2 ≤ x.toNat ∧ x.toNat < 10 then inodeTableSector s.fs.inodes (x.toNat - 2)
    else F.disk s.world x := by
  obtain ⟨buffer, w, hmalloc, hw⟩ := F.malloc_spec s.world
  rw [saveInodeTable, hmalloc]
  simp only
  rw [F.disk_free, disk_saveInodeRounds, hw]

/-- `LoadSuperblock` reads the superblock on the disk. -/
theorem loadSuperblock_spec :
    (loadSuperblock F.toEnv s).fs =
        { s.fs with superblock := diskSuperblock (F.disk s.world) } ∧
      F.disk (loadSuperblock F.toEnv s).world = F.disk s.world := by
  obtain ⟨buffer, w, hmalloc, hw⟩ := F.malloc_spec s.world
  rw [loadSuperblock, hmalloc]
  simp only
  rw [F.disk_free, F.disk_read28, F.read28_data _ _ _ (by decide), hw]
  exact ⟨rfl, rfl⟩

/-- The loop of `LoadInodeTable`. -/
theorem loadInodeRounds_spec (inodes : Fin 64 → Inode) (buffer : Buffer) (w : σ) :
    let st := forLoop (fun _ => true) (loadInodeRound F.toEnv) 8 0 (inodes, buffer, w)
    st.1 = diskInodes (F.disk w) ∧ F.disk st.2.2 = F.disk w := by
  -- after some rounds the inodes of the sectors read are in place
  have hinit : (∀ i : Fin 64, i.val / 8 < 0 → inodes i = diskInodes (F.disk w) i) ∧
      F.disk w = F.disk w := ⟨fun i hi => absurd hi (by omega), rfl⟩
  have hend := @forLoop_invariant_of_true _ (loadInodeRound F.toEnv) 8 0 (inodes, buffer, w)
    (fun sector st => (∀ i : Fin 64, i.val / 8 < sector → st.1 i = diskInodes (F.disk w) i) ∧
      F.disk st.2.2 = F.disk w) hinit
    (fun sector st _ hlt hinv => by
      simp only [loadInodeRound, loadInodes]
      rw [F.disk_read28, F.read28_data _ _ _ (tableSector_le (by omega)), hinv.2]
      refine ⟨fun i hi => ?_, rfl⟩
      by_cases heq : i.val / 8 = sector
      · rw [if_pos heq, diskInodes, heq]
      · rw [if_neg heq]
        exact hinv.1 i (by omega))
  refine ⟨?_, hend.2⟩
  funext i
  have hi := i.isLt
  exact hend.1 i (by omega)

/-- `LoadInodeTable` reads the inode table on the disk. -/
theorem loadInodeTable_spec :
    (loadInodeTable F.toEnv s).fs = { s.fs with inodes := diskInodes (F.disk s.world) } ∧
      F.disk (loadInodeTable F.toEnv s).world = F.disk s.world := by
  obtain ⟨buffer, w, hmalloc, hw⟩ := F.malloc_spec s.world
  obtain ⟨hinodes, hdisk⟩ := loadInodeRounds_spec F s.fs.inodes buffer w
  rw [loadInodeTable, hmalloc]
  simp only
  rw [F.disk_free, hdisk, hinodes, hw]
  exact ⟨rfl, rfl⟩

/-- `Mount` does not change the disk. -/
theorem disk_mount : F.disk (mount F.toEnv s).2.world = F.disk s.world := by
  obtain ⟨-, hsb⟩ := loadSuperblock_spec F s
  by_cases h : (loadSuperblock F.toEnv s).fs.superblock.magic = fsMagic
  · rw [mount_of_loaded _ _ h]
    exact (loadInodeTable_spec F _).2.trans hsb
  · rw [mount_of_not_loaded _ _ h]
    exact hsb

/-- **`Mount` reads the metadata on the disk** if the magic number there is right. -/
theorem mount_of_magic (h : (diskSuperblock (F.disk s.world)).magic = fsMagic) :
    (mount F.toEnv s).1 = true ∧ (mount F.toEnv s).2.fs =
      ⟨diskInodes (F.disk s.world), diskSuperblock (F.disk s.world), true⟩ := by
  obtain ⟨hfs, hw⟩ := loadSuperblock_spec F s
  obtain ⟨hfs', -⟩ := loadInodeTable_spec F (loadSuperblock F.toEnv s)
  rw [mount_of_loaded _ _ (by rw [hfs]; exact h)]
  refine ⟨rfl, ?_⟩
  simp only
  rw [hfs', hfs, hw]

end OnDisk

/-! ## The arithmetic of the two chunking loops -/

section Chunks

variable {v size bytes : UInt32} {i : ℕ}

/-- The number of bytes that the loops transfer for a size: rounding up to sectors
overflows for the last 511 values, and then there are no rounds at all. -/
def storedLength (size : UInt32) : ℕ := if size.toNat + 511 < 2 ^ 32 then size.toNat else 0

theorem storedLength_le (size : UInt32) : storedLength size ≤ size.toNat := by
  rw [storedLength]
  split <;> omega

theorem storedLength_eq (h : size.toNat < 2 ^ 31) : storedLength size = size.toNat :=
  if_pos (by omega)

/-- The number of rounds. -/
theorem toNat_sectorCount (size : UInt32) :
    (sectorCount size).toNat = (storedLength size + 511) / 512 := by
  have hsize := size.toNat_lt
  have h511 : (511 : UInt32).toNat = 511 := rfl
  have h512 : (512 : UInt32).toNat = 512 := rfl
  rw [sectorCount, storedLength, UInt32.toNat_div, UInt32.toNat_add, h511, h512]
  split <;> omega

theorem toNat_sectorCount_le (size : UInt32) : (sectorCount size).toNat ≤ 2 ^ 23 := by
  have hsize := size.toNat_lt
  have hle := storedLength_le size
  rw [toNat_sectorCount]
  omega

/-- In each round there are bytes left. -/
theorem lt_of_lt_sectorCount (h : i < (sectorCount size).toNat) :
    512 * i < size.toNat ∧ size.toNat + 511 < 2 ^ 32 := by
  rw [toNat_sectorCount, storedLength] at h
  split at h <;> omega

theorem toInt32_of_lt (h : v.toNat < 2 ^ 31) : toInt32 v = v.toNat := if_pos h

theorem toNat_ofNat_of_lt {n : ℕ} (h : n < 2 ^ 32) : (UInt32.ofNat n).toNat = n := by
  rw [UInt32.toNat_ofNat', Nat.mod_eq_of_lt h]

/-- The sign of a count of bytes as an `int32_t`. -/
theorem toInt32_count {n : ℕ} (hn : n < 2 ^ 32) :
    (toInt32 (.ofNat n) = 0 ↔ n = 0) ∧ (0 < toInt32 (.ofNat n) ↔ 0 < n ∧ n < 2 ^ 31) := by
  rw [toInt32, toNat_ofNat_of_lt hn]
  split
  · constructor <;> omega
  · constructor <;> omega

theorem toInt32_nonneg_iff {n : ℕ} (hn : n < 2 ^ 32) : 0 ≤ toInt32 (.ofNat n) ↔ n < 2 ^ 31 := by
  obtain ⟨hzero, hpos⟩ := toInt32_count hn
  rw [le_iff_lt_or_eq, hpos, eq_comm, hzero]
  omega

/-- Clipping a count that does not overflow. -/
theorem toNat_clip {done limit count : UInt32} (hle : done.toNat ≤ limit.toNat)
    (hwrap : done.toNat + count.toNat < 2 ^ 32) :
    (clip done limit count).toNat = min count.toNat (limit.toNat - done.toNat) := by
  have hadd : (done + count).toNat = done.toNat + count.toNat := by
    rw [UInt32.toNat_add, Nat.mod_eq_of_lt hwrap]
  rw [clip]
  split
  · next h =>
    rw [gt_iff_lt, UInt32.lt_iff_toNat_lt, hadd] at h
    rw [UInt32.toNat_sub_of_le _ _ (UInt32.le_iff_toNat_le.mpr hle)]
    omega
  · next h =>
    rw [gt_iff_lt, UInt32.lt_iff_toNat_lt, hadd] at h
    omega

/-- A round takes what is left, at most 512 bytes. -/
theorem toNat_clip_512 (hbytes : bytes.toNat = 512 * i) (hlt : 512 * i < size.toNat)
    (hsize : size.toNat + 511 < 2 ^ 32) :
    (clip bytes size 512).toNat = min 512 (size.toNat - 512 * i) := by
  have h512 : (512 : UInt32).toNat = 512 := rfl
  rw [toNat_clip (by omega) (by omega), h512, hbytes]

end Chunks

/-! ## Reading -/

/-- The byte at offset `k` of a file that starts at a sector. -/
def fileByte (d : UInt32 → Sector) (start : UInt32) (k : ℕ) : UInt8 :=
  (d (start + .ofNat (k / 512))).get (k % 512)

/-- The number of bytes that `ReadFile` transfers. -/
def readLength (inode : Inode) (size : UInt32) : ℕ :=
  if inode.startSector = 0 then 0 else min size.toNat (storedLength inode.size)

theorem readLength_le (inode : Inode) (size : UInt32) : readLength inode size ≤ size.toNat := by
  rw [readLength]
  split <;> omega

section Reading

variable {σ : Type} (F : FaithfulEnv σ) {inode : Inode} {size : UInt32} {out : ℕ → UInt8}

/-- The innermost loop of `ReadFile` copies the first bytes of the sector buffer. -/
theorem copyOut_eq (data : Sector) {bytesRead : UInt32} {count : ℕ}
    (h : bytesRead.toNat + count < 2 ^ 32) (k : ℕ) :
    forLoop (fun _ => true)
      (fun j out => Function.update out (bytesRead + .ofNat j).toNat (data.get j)) count 0 out k =
      if bytesRead.toNat ≤ k ∧ k < bytesRead.toNat + count
        then data.get (k - bytesRead.toNat) else out k := by
  have hend := @forLoop_invariant_of_true _
    (fun j out => Function.update out (bytesRead + .ofNat j).toNat (data.get j)) count 0 out
    (fun j out' => ∀ k, out' k = if bytesRead.toNat ≤ k ∧ k < bytesRead.toNat + j
        then data.get (k - bytesRead.toNat) else out k)
    (fun k => by rw [if_neg (by omega)])
    (fun j out' _ hlt hinv k => by
      have hidx : (bytesRead + .ofNat j).toNat = bytesRead.toNat + j := by
        rw [UInt32.toNat_add, toNat_ofNat_of_lt (by omega)]
        omega
      rw [hidx]
      by_cases hk : k = bytesRead.toNat + j
      · rw [hk, Function.update_self, if_pos (by omega), Nat.add_sub_cancel_left]
      · have hiff : k < bytesRead.toNat + (j + 1) ↔ k < bytesRead.toNat + j := by omega
        rw [Function.update_of_ne hk, hinv]
        simp only [hiff])
  rw [hend k, Nat.zero_add]

/-- A round of `ReadFile` with the count that the two clippings leave. -/
theorem readRound_of_clip {σ : Type} (E : Env σ) (inode : Inode) (size : UInt32) (i : ℕ)
    (st : ReadState σ) {c : UInt32}
    (hc : clip st.bytesRead size (clip st.bytesRead inode.size 512) = c) :
    readRound E inode size i st =
      let r := E.read28 (inode.startSector + .ofNat i) st.diskBuffer st.world
      ⟨r.2, r.1, forLoop (fun _ => true)
        (fun j out => Function.update out (st.bytesRead + .ofNat j).toNat (r.1.data.get j))
        c.toNat 0 st.out, st.bytesRead + c⟩ := by
  subst hc
  rfl

/-- **One round of `ReadFile`** copies the next bytes, at most 512, out of its sector
buffer. -/
theorem readRound_eq {σ : Type} (E : Env σ) {st : ReadState σ} {i : ℕ}
    (hbytes : st.bytesRead.toNat = 512 * i)
    (hlt : 512 * i < min size.toNat (storedLength inode.size)) :
    ∃ v : UInt32, v.toNat = min (512 * (i + 1)) (min size.toNat (storedLength inode.size)) ∧
      readRound E inode size i st =
        let r := E.read28 (inode.startSector + .ofNat i) st.diskBuffer st.world
        ⟨r.2, r.1, fun k => if 512 * i ≤ k ∧ k < v.toNat then r.1.data.get (k % 512) else st.out k,
          v⟩ := by
  have hstored := storedLength_le inode.size
  have hnowrap : inode.size.toNat + 511 < 2 ^ 32 := by
    by_contra h
    rw [storedLength, if_neg h] at hlt
    omega
  have hsize : storedLength inode.size = inode.size.toNat := if_pos hnowrap
  have hclip := toNat_clip_512 hbytes (by omega) hnowrap
  obtain ⟨c, hc⟩ : ∃ c, clip st.bytesRead size (clip st.bytesRead inode.size 512) = c := ⟨_, rfl⟩
  have hcount : c.toNat = min 512 (min size.toNat (storedLength inode.size) - 512 * i) := by
    rw [← hc, toNat_clip (by omega) (by omega), hclip]
    omega
  have hadd : (st.bytesRead + c).toNat = 512 * i + c.toNat := by
    rw [UInt32.toNat_add, hbytes]
    omega
  refine ⟨st.bytesRead + c, by omega, ?_⟩
  rw [readRound_of_clip _ _ _ _ _ hc]
  simp only [ReadState.mk.injEq, true_and, and_true]
  funext k
  rw [copyOut_eq _ (by omega), hadd, hbytes]
  by_cases hk : 512 * i ≤ k ∧ k < 512 * i + c.toNat
  · have hmod : k - 512 * i = k % 512 := by omega
    rw [if_pos hk, if_pos hk, hmod]
  · rw [if_neg hk, if_neg hk]

/-- The bytes that some rounds of `ReadFile` have read. -/
theorem readRounds_bytesRead {σ : Type} (E : Env σ) {st : ReadState σ} (h0 : st.bytesRead = 0)
    {n : ℕ} (hn : n ≤ (min size.toNat (storedLength inode.size) + 511) / 512) :
    (forLoop (fun _ => true) (readRound E inode size) n 0 st).bytesRead.toNat =
      min (512 * n) (min size.toNat (storedLength inode.size)) := by
  have hend := @forLoop_invariant_of_true _ (readRound E inode size) n 0 st
    (fun i st => st.bytesRead.toNat = min (512 * i) (min size.toNat (storedLength inode.size)))
    (by rw [h0]; exact (Nat.zero_min _).symm)
    (fun i st _ hi hbytes => by
      obtain ⟨v, hv, hround⟩ := @readRound_eq inode size _ E st i (by omega) (by omega)
      rw [hround]
      exact hv)
  rwa [Nat.zero_add] at hend

/-- **The rounds of `ReadFile`**: one for each sector with bytes to read. -/
theorem readRounds_eq {σ : Type} (E : Env σ) {st : ReadState σ} (h0 : st.bytesRead = 0) :
    forLoop (fun st => decide (st.bytesRead < size)) (readRound E inode size)
        (sectorCount inode.size).toNat 0 st =
      forLoop (fun _ => true) (readRound E inode size)
        ((min size.toNat (storedLength inode.size) + 511) / 512) 0 st := by
  have hcount := toNat_sectorCount inode.size
  apply forLoop_eq_of_stops
  · omega
  · intro j hj
    have hbytes := @readRounds_bytesRead inode size _ E st h0 j hj.le
    apply decide_eq_true
    rw [UInt32.lt_iff_toNat_lt, hbytes]
    omega
  · intro hlt
    have hbytes := @readRounds_bytesRead inode size _ E st h0 _ le_rfl
    apply decide_eq_false
    rw [UInt32.lt_iff_toNat_lt, hbytes]
    omega

/-- The loop of `ReadFile` before round `i`, on the disk `d`, with `total` bytes to read:
the bytes of all earlier rounds are in the caller's buffer. -/
structure ReadSoFar (d : UInt32 → Sector) (start : UInt32) (out : ℕ → UInt8) (total i : ℕ)
    (st : ReadState σ) : Prop where
  disk : F.disk st.world = d
  bytesRead : st.bytesRead.toNat = min (512 * i) total
  out : ∀ k, st.out k = if k < st.bytesRead.toNat then fileByte d start k else out k

/-- A round of `ReadFile` keeps the invariant of its loop. -/
theorem ReadSoFar.step {d : UInt32 → Sector} {st : ReadState σ} {i : ℕ}
    (h : ReadSoFar F d inode.startSector out (min size.toNat (storedLength inode.size)) i st)
    (hlt : 512 * i < min size.toNat (storedLength inode.size))
    (hsec : inode.startSector + .ofNat i ≤ 0x0FFFFFFF) :
    ReadSoFar F d inode.startSector out (min size.toNat (storedLength inode.size)) (i + 1)
      (readRound F.toEnv inode size i st) := by
  obtain ⟨hdisk, hbytes, hout⟩ := h
  obtain ⟨v, hv, hround⟩ := @readRound_eq inode size _ F.toEnv st i (by omega) hlt
  rw [hround]
  refine ⟨(F.disk_read28 _ _ _).trans hdisk, hv, fun k => ?_⟩
  simp only
  rw [F.read28_data _ _ _ hsec, hdisk]
  by_cases hk : k < v.toNat
  · by_cases hk' : 512 * i ≤ k
    · have hdiv : k / 512 = i := by omega
      rw [if_pos ⟨hk', hk⟩, if_pos hk, fileByte, hdiv]
    · rw [if_neg (by omega), hout, if_pos (by omega), if_pos hk]
  · rw [if_neg (by omega), hout, if_neg (by omega), if_neg hk]

/-- **The loop of `ReadFile`** ends when the file or the request is exhausted. -/
theorem readRounds_spec (st : ReadState σ) (h0 : st.bytesRead = 0)
    (hsec : ∀ i, 512 * i < min size.toNat (storedLength inode.size) →
      inode.startSector + .ofNat i ≤ 0x0FFFFFFF) :
    let st' := forLoop (fun st => decide (st.bytesRead < size)) (readRound F.toEnv inode size)
      (sectorCount inode.size).toNat 0 st
    st'.bytesRead = .ofNat (min size.toNat (storedLength inode.size)) ∧
      ∀ k, st'.out k = if k < min size.toNat (storedLength inode.size)
        then fileByte (F.disk st.world) inode.startSector k else st.out k := by
  rw [readRounds_eq F.toEnv h0]
  obtain ⟨-, hbytes, hout⟩ := @forLoop_invariant_of_true _ (readRound F.toEnv inode size)
    ((min size.toNat (storedLength inode.size) + 511) / 512) 0 st
    (ReadSoFar F (F.disk st.world) inode.startSector st.out
      (min size.toNat (storedLength inode.size)))
    ⟨rfl, by simp [h0], by simp [h0]⟩
    (fun i st' _ hi h => h.step F (by omega) (hsec i (by omega)))
  have hsize := size.toNat_lt
  have hread := hbytes.trans (by omega : _ = min size.toNat (storedLength inode.size))
  constructor
  · apply UInt32.toNat_inj.mp
    rw [hread, toNat_ofNat_of_lt (by omega)]
  · intro k
    rw [hout k, hread]

/-- Without a first sector or without a size there is nothing to read. -/
theorem readLength_eq_zero (h : ¬ (inode.size > 0 ∧ inode.startSector > 0)) :
    readLength inode size = 0 := by
  rw [readLength]
  split
  · rfl
  · next hstart =>
    have hsize : inode.size = 0 := by
      by_contra hne
      exact h ⟨UInt32.pos_iff_ne_zero.mpr hne, UInt32.pos_iff_ne_zero.mpr hstart⟩
    have hle := storedLength_le inode.size
    have h0 : inode.size.toNat = 0 := congrArg UInt32.toNat hsize
    omega

/-- `ReadFile` does not change the disk. -/
theorem disk_readInode (s : Sys σ) :
    F.disk (readInode F.toEnv inode out size s).2.world = F.disk s.world := by
  obtain ⟨buffer, w, hmalloc, hw⟩ := F.malloc_spec s.world
  rw [readInode]
  split
  · rw [hmalloc]
    simp only
    obtain ⟨i, -, hdisk, -⟩ := @forLoop_invariant _
      (fun st => decide (st.bytesRead < size)) (readRound F.toEnv inode size)
      (sectorCount inode.size).toNat 0 ⟨w, buffer, out, 0⟩
      (fun _ st => F.disk st.world = F.disk s.world) hw
      (fun i st _ _ _ hdisk => by
        rw [readRound_of_clip _ _ _ _ _ rfl]
        exact (F.disk_read28 _ _ _).trans hdisk)
    exact (F.disk_free _ _).trans hdisk
  · rfl

/-- **`ReadFile` on an inode in use** returns the number of bytes there are and copies
this many bytes of the file. -/
theorem readInode_spec (s : Sys σ)
    (hsec : ∀ i, 512 * i < readLength inode size → inode.startSector + .ofNat i ≤ 0x0FFFFFFF) :
    (readInode F.toEnv inode out size s).1 =
        (toInt32 (.ofNat (readLength inode size)), fun k => if k < readLength inode size
          then fileByte (F.disk s.world) inode.startSector k else out k) := by
  rw [readInode]
  by_cases hcond : inode.size > 0 ∧ inode.startSector > 0
  · have hstart : inode.startSector ≠ 0 := UInt32.pos_iff_ne_zero.mp hcond.2
    have hlen : readLength inode size = min size.toNat (storedLength inode.size) := if_neg hstart
    rw [hlen] at hsec ⊢
    obtain ⟨buffer, w, hmalloc, hw⟩ := F.malloc_spec s.world
    obtain ⟨hread, hout⟩ := readRounds_spec F ⟨w, buffer, out, 0⟩ rfl hsec
    rw [if_pos hcond, hmalloc]
    simp only
    rw [hread, Prod.mk.injEq]
    refine ⟨rfl, ?_⟩
    funext k
    rw [hout k, hw]
  · rw [if_neg hcond, readLength_eq_zero hcond]
    simp only [Nat.not_lt_zero, if_false]
    rfl

end Reading

/-! ## Writing -/

/-- The sector that a round of `WriteFile` fills: the chunk of the data, padded with
zeros. -/
def chunk (buffer : ℕ → UInt8) (length i : ℕ) : Sector :=
  Bytes.tabulate fun j => if 512 * i + j < length then buffer (512 * i + j) else 0

/-- `k` further sectors are in use. -/
def bumpUsed (fs : FileSystem) (k : ℕ) : FileSystem :=
  { fs with superblock :=
    { fs.superblock with usedSectors := fs.superblock.usedSectors + .ofNat k } }

/-- The sector at which a write to the inode starts. -/
def writeStart (fs : FileSystem) (index : Fin 64) : UInt32 :=
  if (fs.inodes index).startSector = 0 then fsDataStartSec + fs.superblock.usedSectors
  else (fs.inodes index).startSector

/-- The number of sectors that a write to the inode allocates. -/
def allocCount (fs : FileSystem) (index : Fin 64) (size : UInt32) : ℕ :=
  (if (fs.inodes index).startSector = 0 then 1 else 0) + ((sectorCount size).toNat - 1)

/-- The object after a write to the inode. -/
def written (fs : FileSystem) (index : Fin 64) (size : UInt32) : FileSystem :=
  (fs.bumpUsed (fs.allocCount index size)).setInode index
    { fs.inodes index with startSector := fs.writeStart index, size := size, modified := 0 }

section Writing

variable {fs : FileSystem} {index : Fin 64} {buffer : ℕ → UInt8} {size : UInt32} {k l i : ℕ}

@[simp] theorem bumpUsed_inodes : (fs.bumpUsed k).inodes = fs.inodes := rfl

@[simp] theorem bumpUsed_zero : fs.bumpUsed 0 = fs := by
  have h : fs.superblock.usedSectors + .ofNat 0 = fs.superblock.usedSectors := UInt32.add_zero _
  rw [bumpUsed, h]

/-- Counting sectors changes the number of used ones. -/
theorem usedSectors_bumpUsed_iff (hk : k < 2 ^ 32) :
    (fs.bumpUsed k).superblock.usedSectors = fs.superblock.usedSectors ↔ k = 0 := by
  constructor
  · intro h
    have hused : fs.superblock.usedSectors + .ofNat k = fs.superblock.usedSectors := h
    have hzero : UInt32.ofNat k = 0 := by simpa using hused
    have hval := congrArg UInt32.toNat hzero
    rwa [toNat_ofNat_of_lt hk] at hval
  · rintro rfl
    rw [bumpUsed_zero]

theorem bumpUsed_bumpUsed : (fs.bumpUsed k).bumpUsed l = fs.bumpUsed (k + l) := by
  simp only [bumpUsed, UInt32.ofNat_add, UInt32.add_assoc]

section InMemory

variable {σ : Type} (E : Env σ)

/-- A round of `WriteFile` writes its chunk, after one more allocation from the second
round on. -/
theorem writeRound_eq (st : WriteState σ) (hbytes : st.bytesWritten.toNat = 512 * i)
    (hi : i < (sectorCount size).toNat) :
    ∃ b : Buffer, ∃ v : UInt32, b.data = chunk buffer size.toNat i ∧
      v.toNat = min (512 * (i + 1)) size.toNat ∧
      writeRound E index buffer size i st =
        let s := if i > 0 then (allocateSector E st.sys).2 else st.sys
        ⟨{ s with world := E.write28 ((s.fs.inodes index).startSector + .ofNat i) b s.world },
          b, v⟩ := by
  obtain ⟨hlt, hsize⟩ := lt_of_lt_sectorCount hi
  have hclip := toNat_clip_512 hbytes hlt hsize
  refine ⟨⟨st.diskBuffer.ptr, _⟩, _, ?_, ?_, rfl⟩
  · funext j
    have hj := j.isLt
    simp only [chunk, Bytes.tabulate, hclip]
    by_cases hlt' : 512 * i + j.val < size.toNat
    · have hidx : (st.bytesWritten + .ofNat j.val).toNat = 512 * i + j.val := by
        rw [UInt32.toNat_add, toNat_ofNat_of_lt (by omega), hbytes]
        omega
      rw [if_pos (by omega), if_pos hlt', hidx]
    · rw [if_neg (by omega), if_neg hlt']
  · rw [UInt32.toNat_add, hclip, hbytes]
    omega

theorem allocateSector_fs_eq (s : Sys σ) : (allocateSector E s).2.fs = s.fs.bumpUsed 1 :=
  allocateSector_fs E s

/-- The first allocation in memory. -/
theorem firstSector_fs (s : Sys σ) : (firstSector E index s).fs =
    if (s.fs.inodes index).startSector = 0 then
      (s.fs.bumpUsed 1).setInode index
        { s.fs.inodes index with startSector := fsDataStartSec + s.fs.superblock.usedSectors }
    else s.fs := by
  rw [firstSector]
  split
  · simp only [allocateSector_fs_eq, allocateSector_fst, bumpUsed_inodes]
  · rfl

/-- The first allocation decides where the file starts. -/
theorem firstSector_startSector (index : Fin 64) (s : Sys σ) :
    ((firstSector E index s).fs.inodes index).startSector = s.fs.writeStart index := by
  rw [firstSector_fs, writeStart]
  split
  · simp only [setInode, Function.update_self]
  · rfl

/-- Some rounds of `WriteFile` in memory: one sector is allocated in each but the first. -/
theorem writeRounds_upto (index : Fin 64) (buffer : ℕ → UInt8) (size : UInt32)
    (st : WriteState σ) (h0 : st.bytesWritten = 0) {n : ℕ} (hn : n ≤ (sectorCount size).toNat) :
    let st' := forLoop (fun _ => true) (writeRound E index buffer size) n 0 st
    st'.sys.fs = st.sys.fs.bumpUsed (n - 1) ∧
      st'.bytesWritten.toNat = min (512 * n) size.toNat := by
  have hend := @forLoop_invariant_of_true _ (writeRound E index buffer size) n 0 st
    (fun i st' => st'.sys.fs = st.sys.fs.bumpUsed (i - 1) ∧
      st'.bytesWritten.toNat = min (512 * i) size.toNat)
    ⟨bumpUsed_zero.symm, by rw [h0]; exact (Nat.zero_min _).symm⟩
    (fun i st' _ hi hinv => by
      obtain ⟨hfs, hbytes⟩ := hinv
      have hi : i < (sectorCount size).toNat := by omega
      have hlt := lt_of_lt_sectorCount hi
      obtain ⟨b, v, -, hv, hround⟩ := @writeRound_eq index buffer size i σ E st' (by omega) hi
      rw [hround]
      refine ⟨?_, hv⟩
      simp only
      split
      · rw [allocateSector_fs_eq, hfs, bumpUsed_bumpUsed]
        congr 1
        omega
      · rw [hfs]
        congr 1
        omega)
  rwa [Nat.zero_add] at hend

/-- The loop of `WriteFile` in memory. -/
theorem writeRounds_fs (index : Fin 64) (buffer : ℕ → UInt8) (size : UInt32) (st : WriteState σ)
    (h0 : st.bytesWritten = 0) :
    let st' := forLoop (fun _ => true) (writeRound E index buffer size) (sectorCount size).toNat 0 st
    st'.sys.fs = st.sys.fs.bumpUsed ((sectorCount size).toNat - 1) ∧
      st'.bytesWritten = .ofNat (storedLength size) := by
  obtain ⟨hfs, hbytes⟩ := writeRounds_upto E index buffer size st h0 le_rfl
  refine ⟨hfs, UInt32.toNat_inj.mp ?_⟩
  have hsize := size.toNat_lt
  have hle := storedLength_le size
  rw [hbytes, toNat_ofNat_of_lt (by omega), toNat_sectorCount]
  rw [storedLength]
  split <;> omega

/-- **`WriteFile` on an inode in use, in memory**: without memory only the first sector
is allocated. -/
theorem writeInode_cases (index : Fin 64) (buffer : ℕ → UInt8) (size : UInt32) (s : Sys σ) :
    ((E.malloc (firstSector E index s).world).1 = none ∧
        (writeInode E index buffer size s).1 = -1 ∧
        (writeInode E index buffer size s).2.fs = (firstSector E index s).fs) ∨
      (writeInode E index buffer size s).1 = toInt32 (.ofNat (storedLength size)) ∧
        (writeInode E index buffer size s).2.fs = s.fs.written index size := by
  rw [writeInode]
  generalize hr : E.malloc (firstSector E index s).world = r
  obtain ⟨_ | diskBuffer, w⟩ := r
  · exact .inl ⟨rfl, rfl, rfl⟩
  · right
    obtain ⟨hfs, hbytes⟩ := writeRounds_fs E index buffer size
      ⟨⟨(firstSector E index s).fs, w⟩, diskBuffer, 0⟩ rfl
    simp only [saveInodeTable_fs] at hfs ⊢
    rw [hbytes, hfs, firstSector_fs]
    refine ⟨rfl, ?_⟩
    by_cases hstart : (s.fs.inodes index).startSector = 0
    · rw [if_pos hstart, written, writeStart, allocCount, if_pos hstart, if_pos hstart,
        ← bumpUsed_bumpUsed]
      simp only [setInode, bumpUsed, Function.update_self, Function.update_idem]
    · rw [if_neg hstart, written, writeStart, allocCount, if_neg hstart, if_neg hstart,
        Nat.zero_add]
      rfl

/-- `WriteFile` on an inode in use, when there is memory. -/
theorem writeInode_fs (hE : E.NeverFull) (index : Fin 64) (buffer : ℕ → UInt8) (size : UInt32)
    (s : Sys σ) :
    (writeInode E index buffer size s).1 = toInt32 (.ofNat (storedLength size)) ∧
      (writeInode E index buffer size s).2.fs = s.fs.written index size := by
  refine (writeInode_cases E index buffer size s).resolve_left fun h => ?_
  obtain ⟨diskBuffer, hmalloc⟩ := hE (firstSector E index s).world
  rw [hmalloc] at h
  cases h.1

end InMemory

section OnDisk

variable {σ : Type} (F : FaithfulEnv σ)

/-- `AllocateSector` saves the superblock. -/
theorem disk_allocateSector (s : Sys σ) : F.disk (allocateSector F.toEnv s).2.world =
    Function.update (F.disk s.world) fsSuperblockSec
      (superblockSector (allocateSector F.toEnv s).2.fs.superblock) := by
  rw [allocateSector_fs, allocateSector, disk_saveSuperblock]

/-- The disk `d'` differs from `d` in sector 1 and in the sectors of the first `k`
chunks of the data, those that the drive can address. -/
def ChunksWritten (buffer : ℕ → UInt8) (size start : UInt32) (k : ℕ)
    (d d' : UInt32 → Sector) : Prop :=
  ∀ x ≠ fsSuperblockSec, d' x =
    if start.toNat ≤ x.toNat ∧ x.toNat < start.toNat + k ∧ x ≤ 0x0FFFFFFF
      then chunk buffer size.toNat (x.toNat - start.toNat) else d x

/-- One more chunk. -/
theorem ChunksWritten.succ {start : UInt32} {d d' : UInt32 → Sector} {s : Sys σ} {b : Buffer}
    (h : ChunksWritten buffer size start k d d')
    (hd : ∀ x ≠ fsSuperblockSec, F.disk s.world x = d' x)
    (hb : b.data = chunk buffer size.toNat k) (hlt : start.toNat + k < 2 ^ 32) :
    ChunksWritten buffer size start (k + 1) d
      (F.disk (F.write28 (start + .ofNat k) b s.world)) := by
  have hsec : (start + .ofNat k).toNat = start.toNat + k := by
    rw [UInt32.toNat_add, toNat_ofNat_of_lt (by omega), Nat.mod_eq_of_lt hlt]
  intro x hx
  by_cases hle : start + .ofNat k ≤ 0x0FFFFFFF
  · rw [F.disk_write28 _ _ _ hle]
    by_cases hxk : x = start + .ofNat k
    · rw [hxk, Function.update_self, hb, hsec, if_pos ⟨by omega, by omega, hle⟩,
        Nat.add_sub_cancel_left]
    · have hne : x.toNat ≠ start.toNat + k := fun h => hxk (UInt32.toNat_inj.mp (h.trans hsec.symm))
      have hiff : x.toNat < start.toNat + (k + 1) ↔ x.toNat < start.toNat + k := by omega
      rw [Function.update_of_ne hxk, hd x hx, h x hx]
      simp only [hiff]
  · have hgt : start + .ofNat k > 0x0FFFFFFF := UInt32.not_le.mp hle
    rw [F.disk_write28_of_gt _ _ _ hgt, hd x hx, h x hx]
    have hiff : (x.toNat < start.toNat + (k + 1) ∧ x ≤ 0x0FFFFFFF) ↔
        (x.toNat < start.toNat + k ∧ x ≤ 0x0FFFFFFF) := by
      rw [UInt32.le_iff_toNat_le]
      rw [UInt32.le_iff_toNat_le, hsec] at hle
      omega
    simp only [hiff]

/-- The loop of `WriteFile` on the disk: the superblock is saved from the second round on. -/
theorem writeRounds_disk (index : Fin 64) (buffer : ℕ → UInt8) (size : UInt32)
    (st : WriteState σ) (h0 : st.bytesWritten = 0) {start : UInt32}
    (hstart : (st.sys.fs.inodes index).startSector = start)
    (h10 : (sectorCount size).toNat = 0 ∨ 10 ≤ start.toNat)
    (hwrap : start.toNat + (sectorCount size).toNat ≤ 2 ^ 32) :
    let st' := forLoop (fun _ => true) (writeRound F.toEnv index buffer size)
      (sectorCount size).toNat 0 st
    F.disk st'.sys.world fsSuperblockSec =
        (if (sectorCount size).toNat ≤ 1 then F.disk st.sys.world fsSuperblockSec
        else superblockSector st'.sys.fs.superblock) ∧
      ChunksWritten buffer size start (sectorCount size).toNat (F.disk st.sys.world)
        (F.disk st'.sys.world) := by
  have hend := @forLoop_invariant_of_true _ (writeRound F.toEnv index buffer size)
    (sectorCount size).toNat 0 st
    (fun i st' => st'.sys.fs.inodes = st.sys.fs.inodes ∧
      st'.bytesWritten.toNat = min (512 * i) size.toNat ∧
      F.disk st'.sys.world fsSuperblockSec = (if i ≤ 1 then F.disk st.sys.world fsSuperblockSec
        else superblockSector st'.sys.fs.superblock) ∧
      ChunksWritten buffer size start i (F.disk st.sys.world) (F.disk st'.sys.world))
    ⟨rfl, by rw [h0]; exact (Nat.zero_min _).symm, rfl, fun x _ => by rw [if_neg (by omega)]⟩
    (fun i st' _ hi hinv => by
      obtain ⟨hinodes, hbytes, hsb, hchunks⟩ := hinv
      rw [Nat.zero_add] at hi
      have hlt := lt_of_lt_sectorCount hi
      obtain ⟨b, v, hb, hv, hround⟩ :=
        @writeRound_eq index buffer size i σ F.toEnv st' (by omega) hi
      -- the state after the allocation of this round
      obtain ⟨s, hs⟩ : ∃ s, s = if i > 0 then (allocateSector F.toEnv st'.sys).2 else st'.sys :=
        ⟨_, rfl⟩
      have halloc : s.fs.inodes = st.sys.fs.inodes ∧
          F.disk s.world fsSuperblockSec =
            (if i + 1 ≤ 1 then F.disk st.sys.world fsSuperblockSec
            else superblockSector s.fs.superblock) ∧
          ∀ x ≠ fsSuperblockSec, F.disk s.world x = F.disk st'.sys.world x := by
        rw [hs]
        split
        · rw [allocateSector_fs_eq, disk_allocateSector, allocateSector_fs_eq,
            if_neg (by omega : ¬ i + 1 ≤ 1)]
          exact ⟨hinodes, Function.update_self _ _ _, fun x hx => Function.update_of_ne hx _ _⟩
        · rw [if_pos (by omega)] at hsb
          rw [if_pos (by omega)]
          exact ⟨hinodes, hsb, fun _ _ => rfl⟩
      obtain ⟨hinodes', hsb', hd⟩ := halloc
      have hstart' : (s.fs.inodes index).startSector = start := by rw [hinodes', hstart]
      have hsucc := hchunks.succ F hd hb (by omega)
      rw [hround]
      simp only
      rw [← hs, hstart']
      have hne : fsSuperblockSec ≠ start + .ofNat i := by
        intro h
        have h1 : (start + .ofNat i).toNat = 1 := congrArg UInt32.toNat h.symm
        rw [UInt32.toNat_add, toNat_ofNat_of_lt (by omega)] at h1
        omega
      exact ⟨hinodes', hv, (F.disk_write28_of_ne _ _ hne).trans hsb', hsucc⟩)
  rw [Nat.zero_add] at hend
  exact hend.2.2

/-- The first allocation on the disk. -/
theorem disk_firstSector (index : Fin 64) (s : Sys σ) :
    F.disk (firstSector F.toEnv index s).world fsSuperblockSec =
        (if (s.fs.inodes index).startSector = 0
        then superblockSector (firstSector F.toEnv index s).fs.superblock
        else F.disk s.world fsSuperblockSec) ∧
      ∀ x ≠ fsSuperblockSec,
        F.disk (firstSector F.toEnv index s).world x = F.disk s.world x := by
  rw [firstSector]
  split
  · simp only [setInode]
    rw [disk_allocateSector]
    exact ⟨Function.update_self _ _ _, fun x hx => Function.update_of_ne hx _ _⟩
  · exact ⟨rfl, fun _ _ => rfl⟩

/-- The last step of `WriteFile` saves the inode table; before that, the disk is what
its loop leaves. -/
theorem disk_writeInode (index : Fin 64) (buffer : ℕ → UInt8) (size : UInt32) (s : Sys σ)
    {diskBuffer : Buffer} {w : σ}
    (hmalloc : F.malloc (firstSector F.toEnv index s).world = (some diskBuffer, w)) (x : UInt32) :
    F.disk (writeInode F.toEnv index buffer size s).2.world x =
      if 2 ≤ x.toNat ∧ x.toNat < 10 then
        inodeTableSector (s.fs.written index size).inodes (x.toNat - 2)
      else F.disk (forLoop (fun _ => true) (writeRound F.toEnv index buffer size)
        (sectorCount size).toNat 0
        ⟨⟨(firstSector F.toEnv index s).fs, w⟩, diskBuffer, 0⟩).sys.world x := by
  obtain ⟨-, hfs⟩ := writeInode_fs F.toEnv F.malloc_some index buffer size s
  rw [writeInode, hmalloc] at hfs ⊢
  simp only [saveInodeTable_fs] at hfs
  simp only
  rw [disk_saveInodeTable, F.disk_free, ← hfs]

/-- After every `WriteFile` the disk holds the inode table of the object, wherever the
data went. -/
theorem disk_writeInode_table (index : Fin 64) (buffer : ℕ → UInt8) (size : UInt32) (s : Sys σ)
    {sector : ℕ} (h : sector < 8) :
    F.disk (writeInode F.toEnv index buffer size s).2.world (tableSector sector) =
      inodeTableSector (s.fs.written index size).inodes sector := by
  obtain ⟨diskBuffer, w, hmalloc, -⟩ := F.malloc_spec (firstSector F.toEnv index s).world
  have htab := toNat_tableSector h
  rw [disk_writeInode F index buffer size s hmalloc, if_pos (by omega), htab,
    Nat.add_sub_cancel_left]

/-- The superblock on the disk after a `WriteFile` whose data, if there is any, goes to data
sectors: it is saved if a sector is allocated. -/
theorem disk_writeInode_superblock (index : Fin 64) (buffer : ℕ → UInt8) (size : UInt32)
    (s : Sys σ) (h10 : (sectorCount size).toNat = 0 ∨ 10 ≤ (s.fs.writeStart index).toNat)
    (hwrap : (s.fs.writeStart index).toNat + (sectorCount size).toNat ≤ 2 ^ 32) :
    F.disk (writeInode F.toEnv index buffer size s).2.world fsSuperblockSec =
      if s.fs.allocCount index size = 0 then F.disk s.world fsSuperblockSec
      else superblockSector (s.fs.written index size).superblock := by
  obtain ⟨diskBuffer, w, hmalloc, hw⟩ := F.malloc_spec (firstSector F.toEnv index s).world
  have hfirst := (disk_firstSector F index s).1
  have hstart := firstSector_startSector F.toEnv index s
  have hrounds := (writeRounds_disk F index buffer size
    ⟨⟨(firstSector F.toEnv index s).fs, w⟩, diskBuffer, 0⟩ rfl hstart h10 hwrap).1
  have hrfs := (writeRounds_fs F.toEnv index buffer size
    ⟨⟨(firstSector F.toEnv index s).fs, w⟩, diskBuffer, 0⟩ rfl).1
  simp only at hrounds hrfs
  rw [disk_writeInode F index buffer size s hmalloc, if_neg (by decide), hrounds, hw, hfirst, hrfs,
    firstSector_fs, written, allocCount]
  by_cases hcount : (sectorCount size).toNat ≤ 1
  · -- one round allocates nothing, so only the first sector can be new
    rw [if_pos hcount, Nat.sub_eq_zero_of_le hcount]
    by_cases hzero : (s.fs.inodes index).startSector = 0
    · simp only [if_pos hzero]
      rfl
    · simp only [if_neg hzero]
      rfl
  · rw [if_neg hcount]
    by_cases hzero : (s.fs.inodes index).startSector = 0
    · simp only [if_pos hzero]
      rw [if_neg (by omega), ← bumpUsed_bumpUsed]
      rfl
    · simp only [if_neg hzero, Nat.zero_add]
      rw [if_neg (by omega)]
      rfl

/-- The data on the disk after a `WriteFile` whose data goes to data sectors. -/
theorem disk_writeInode_data (index : Fin 64) (buffer : ℕ → UInt8) (size : UInt32) (s : Sys σ)
    (h10 : 10 ≤ (s.fs.writeStart index).toNat)
    (hwrap : (s.fs.writeStart index).toNat + (sectorCount size).toNat ≤ 2 ^ 32) {x : UInt32}
    (hx : 10 ≤ x.toNat ∨ x.toNat = 0) :
    F.disk (writeInode F.toEnv index buffer size s).2.world x =
      if (s.fs.writeStart index).toNat ≤ x.toNat ∧
          x.toNat < (s.fs.writeStart index).toNat + (sectorCount size).toNat ∧ x ≤ 0x0FFFFFFF
        then chunk buffer size.toNat (x.toNat - (s.fs.writeStart index).toNat)
        else F.disk s.world x := by
  obtain ⟨diskBuffer, w, hmalloc, hw⟩ := F.malloc_spec (firstSector F.toEnv index s).world
  have hfirst := (disk_firstSector F index s).2
  have hstart := firstSector_startSector F.toEnv index s
  have hchunks := (writeRounds_disk F index buffer size
    ⟨⟨(firstSector F.toEnv index s).fs, w⟩, diskBuffer, 0⟩ rfl hstart (.inr h10) hwrap).2
  have hx1 : x ≠ fsSuperblockSec := by
    rintro rfl
    exact absurd hx (by decide)
  rw [disk_writeInode F index buffer size s hmalloc, if_neg (by omega), hchunks x hx1, hw,
    hfirst x hx1]

/-- **`WriteFile` on an inode in use, on the disk.**  The metadata sectors hold the
object's metadata, the sectors from the start of the file hold the chunks of the data,
and every other sector is unchanged. -/
theorem writeInode_disk (index : Fin 64) (buffer : ℕ → UInt8) (size : UInt32) (s : Sys σ)
    (h10 : 10 ≤ (s.fs.writeStart index).toNat)
    (hwrap : (s.fs.writeStart index).toNat + (sectorCount size).toNat ≤ 2 ^ 32)
    (hsb : F.disk s.world fsSuperblockSec = superblockSector s.fs.superblock) :
    let d := F.disk (writeInode F.toEnv index buffer size s).2.world
    Synced (s.fs.written index size) d ∧ ∀ x, 10 ≤ x.toNat ∨ x.toNat = 0 → d x =
      if (s.fs.writeStart index).toNat ≤ x.toNat ∧
          x.toNat < (s.fs.writeStart index).toNat + (sectorCount size).toNat ∧ x ≤ 0x0FFFFFFF
        then chunk buffer size.toNat (x.toNat - (s.fs.writeStart index).toNat)
        else F.disk s.world x := by
  refine ⟨⟨?_, fun sector hsec => disk_writeInode_table F index buffer size s hsec⟩,
    fun x hx => disk_writeInode_data F index buffer size s h10 hwrap hx⟩
  rw [disk_writeInode_superblock F index buffer size s (.inr h10) hwrap]
  by_cases hcount : s.fs.allocCount index size = 0
  · rw [if_pos hcount, hsb, written, hcount, bumpUsed_zero]
    rfl
  · rw [if_neg hcount]

end OnDisk

end Writing

end FileSystem
