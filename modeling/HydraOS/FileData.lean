/-
# File contents

What a read returns after a write: of the same file the data that was written, of
another file what it returned before, exactly if the sectors that were written are not
its own.  They can be: every write asks for new sectors, but it writes to those that
follow the start of its file.
-/
import HydraOS.Names

namespace FileSystem

section FileData

variable {σ : Type} {F : FaithfulEnv σ} {s : Sys σ} {B : ℕ} {i a b : Fin 64}
  {size m : UInt32} {buffer out : ℕ → UInt8} {k : ℕ}

/-! ## Reading below the drive's limit -/

theorem le_limit_iff {x : UInt32} : x ≤ 0x0FFFFFFF ↔ x.toNat < 2 ^ 28 := by
  rw [UInt32.le_iff_toNat_le]
  exact Nat.le_iff_lt_add_one

/-- The sectors of the bytes that are read are sectors of the file. -/
theorem div_lt_of_lt_readLength {inode : Inode} (h : k < readLength inode m) :
    inode.startSector ≠ 0 ∧ k / 512 < (sectorCount inode.size).toNat := by
  rw [readLength] at h
  split at h
  · omega
  · next h0 =>
    rw [toNat_sectorCount]
    exact ⟨h0, by omega⟩

theorem toNat_add_ofNat {start : UInt32} {n : ℕ} (h : start.toNat + n < 2 ^ 32) :
    (start + .ofNat n).toNat = start.toNat + n := by
  rw [UInt32.toNat_add, toNat_ofNat_of_lt (by omega), Nat.mod_eq_of_lt h]

/-- **`ReadFile` on a file below the drive's limit.** -/
theorem readFile_eq (hm : s.fs.mounted = true) (hi : s.fs.InUse i)
    (hlimit : (s.fs.inodes i).startSector ≠ 0 → ∀ k < (sectorCount (s.fs.inodes i).size).toNat,
      (s.fs.inodes i).startSector.toNat + k < 2 ^ 28) (out : ℕ → UInt8) (m : UInt32) :
    (readFile F.toEnv i.val out m s).1 =
      (toInt32 (.ofNat (readLength (s.fs.inodes i) m)), fun k =>
        if k < readLength (s.fs.inodes i) m
          then fileByte (F.disk s.world) (s.fs.inodes i).startSector k else out k) := by
  rw [readFile_of_inUse F.toEnv s hm hi]
  refine readInode_spec F s fun j hj => ?_
  obtain ⟨h0, hlt⟩ := div_lt_of_lt_readLength hj
  have hlow := hlimit h0 j (by omega)
  rw [le_limit_iff, toNat_add_ofNat (by omega)]
  exact hlow

/-! ## The data that a write leaves -/

/-- A byte of any file after a write: data if its sector is one of those written. -/
theorem fileByte_written {start : UInt32} (hdata : s.fs.OnDataSectors a size)
    (hstart : 10 ≤ start.toNat) (hk : start.toNat + k / 512 < 2 ^ 28) :
    fileByte (F.disk (writeInode F.toEnv a buffer size s).2.world) start k =
      if (s.fs.writeStart a).toNat ≤ start.toNat + k / 512 ∧
          start.toNat + k / 512 < (s.fs.writeStart a).toNat + (sectorCount size).toNat
        then (chunk buffer size.toNat (start.toNat + k / 512 - (s.fs.writeStart a).toNat)).get
          (k % 512)
        else fileByte (F.disk s.world) start k := by
  have hsec : (start + .ofNat (k / 512)).toNat = start.toNat + k / 512 :=
    toNat_add_ofNat (by omega)
  have hlow : start + .ofNat (k / 512) ≤ 0x0FFFFFFF := by
    rw [le_limit_iff, hsec]
    exact hk
  rw [fileByte, fileByte, disk_writeInode_data F a buffer size s hdata.1 hdata.2 (by omega), hsec]
  by_cases hin : (s.fs.writeStart a).toNat ≤ start.toNat + k / 512 ∧
      start.toNat + k / 512 < (s.fs.writeStart a).toNat + (sectorCount size).toNat
  · rw [if_pos ⟨hin.1, hin.2, hlow⟩, if_pos hin]
  · rw [if_neg fun h => hin ⟨h.1, h.2.1⟩, if_neg hin]

theorem get_chunk {length j : ℕ} (hj : j < 512) (hlt : 512 * k + j < length) :
    (chunk buffer length k).get j = buffer (512 * k + j) := by
  rw [chunk, Bytes.get_tabulate _ hj, if_pos hlt]

/-- The bytes of the file after a write to it. -/
theorem fileByte_writeInode (hdata : s.fs.OnDataSectors i size)
    (hlimit : s.fs.SectorsBelow (2 ^ 28) i size) (hk : k < storedLength size) :
    fileByte (F.disk (writeInode F.toEnv i buffer size s).2.world) (s.fs.writeStart i) k =
      buffer k := by
  have hle := storedLength_le size
  have hcount := toNat_sectorCount size
  have hidx : 512 * (k / 512) + k % 512 = k := Nat.div_add_mod k 512
  rw [fileByte_written hdata hdata.1 (hlimit.2 _ (by omega)), if_pos ⟨by omega, by omega⟩,
    Nat.add_sub_cancel_left, get_chunk (Nat.mod_lt _ (by decide)) (by omega), hidx]

/-! ## Reading back -/

/-- The data of a write to the inode, if there is any, goes to data sectors: the file has no
sectors yet, or it starts at sector 10 or above. -/
def ToDataSectors (fs : FileSystem) (index : Fin 64) (size : UInt32) : Prop :=
  size = 0 ∨ (fs.inodes index).startSector = 0 ∨ 10 ≤ (fs.inodes index).startSector.toNat

instance (fs : FileSystem) (index : Fin 64) (size : UInt32) :
    Decidable (fs.ToDataSectors index size) := inferInstanceAs (Decidable (_ ∨ _))

/-- The magic number in sector 1 after such a write: that of the object if the write
allocates a sector, which saves the superblock, and otherwise the one that is on the disk. -/
def magicAfter (fs : FileSystem) (d : UInt32 → Sector) (index : Fin 64) (size : UInt32) : UInt32 :=
  if fs.allocCount index size = 0 then (diskSuperblock d).magic else fs.superblock.magic

/-- **A write reads back**: it returns its length, and a read right after it returns the data,
also by a fresh object that mounts the disk. -/
def ReadsBack (F : FaithfulEnv σ) (s : Sys σ) (i : Fin 64) (buffer : ℕ → UInt8) (n : UInt32) :
    Prop :=
  let r := writeFile F.toEnv i.val buffer n s
  r.1 = n.toNat ∧ ∀ (out : ℕ → UInt8) (m : UInt32),
    let result : ℤ × (ℕ → UInt8) := (((min m.toNat n.toNat : ℕ) : ℤ), fun k =>
      if k < min m.toNat n.toNat then buffer k else out k)
    (readFile F.toEnv i.val out m r.2).1 = result ∧
      ∀ raw, (readFile F.toEnv i.val out m
        (mount F.toEnv ⟨construct raw, r.2.world⟩).2).1 = result

/-- Below the drive's limit a file without sectors gets a data sector. -/
theorem ToDataSectors.onDataSectors (h : s.fs.ToDataSectors i size)
    (hlimit : s.fs.SectorsBelow (2 ^ 28) i size) :
    size = 0 ∨ s.fs.OnDataSectors i size := by
  rcases h with h0 | h
  · exact .inl h0
  · right
    have hsize := size.toNat_lt
    have hle := storedLength_le size
    have hcount := toNat_sectorCount size
    have hmark (h0 : (s.fs.inodes i).startSector = 0) : s.fs.mark < 2 ^ 28 :=
      hlimit.1 0 (by rw [allocCount, if_pos h0]; omega)
    have hstart : 10 ≤ (s.fs.writeStart i).toNat := by
      rw [toNat_writeStart fun h0 => (hmark h0).trans (by decide)]
      split
      · rw [mark]
        omega
      · next h0 => exact h.resolve_left h0
    refine ⟨hstart, ?_⟩
    by_cases hzero : (sectorCount size).toNat = 0
    · have hlt := (s.fs.writeStart i).toNat_lt
      omega
    · have hlast := hlimit.2 ((sectorCount size).toNat - 1) (by omega)
      omega

/-- A read of data that was just written, by any object with the inode. -/
theorem readFile_of_written (hi : s.fs.InUse i) (hsize : size.toNat < 2 ^ 31)
    (hdata : size = 0 ∨ s.fs.OnDataSectors i size) (hlimit : s.fs.SectorsBelow (2 ^ 28) i size)
    {t : Sys σ} (hm : t.fs.mounted = true) (hinode : t.fs.inodes = (s.fs.written i size).inodes)
    (hdisk : F.disk t.world = F.disk (writeInode F.toEnv i buffer size s).2.world)
    (out : ℕ → UInt8) (m : UInt32) :
    (readFile F.toEnv i.val out m t).1 = (((min m.toNat size.toNat : ℕ) : ℤ), fun k =>
      if k < min m.toNat size.toNat then buffer k else out k) := by
  have hinode' : t.fs.inodes i =
      { s.fs.inodes i with startSector := s.fs.writeStart i, size := size, modified := 0 } := by
    rw [hinode, inodes_written_self]
  have hinUse : t.fs.InUse i := by
    rw [InUse, hinode']
    exact hi
  have hlen : readLength (t.fs.inodes i) m = min m.toNat size.toNat := by
    rw [readLength, hinode', storedLength_eq hsize]
    simp only
    split
    · next h0 =>
      rcases hdata with rfl | hdata
      · exact (Nat.min_zero _).symm
      · have h10 := hdata.1
        rw [h0] at h10
        exact absurd h10 (by decide)
    · rfl
  rw [readFile_eq hm hinUse (by rw [hinode']; exact fun _ => hlimit.2), hlen,
    toInt32_of_lt (by rw [toNat_ofNat_of_lt (by omega)]; omega), toNat_ofNat_of_lt (by omega),
    hdisk, Prod.mk.injEq]
  refine ⟨rfl, ?_⟩
  funext k
  by_cases hk : k < min m.toNat size.toNat
  · have hdata' : s.fs.OnDataSectors i size := by
      refine hdata.resolve_left ?_
      rintro rfl
      exact absurd (Nat.lt_of_lt_of_le hk (Nat.min_le_right _ _)) (Nat.not_lt_zero k)
    rw [if_pos hk, if_pos hk, hinode',
      fileByte_writeInode hdata' hlimit (by rw [storedLength_eq hsize]; omega)]
  · rw [if_neg hk, if_neg hk]

/-- The inode table on the disk after a write. -/
theorem diskInodes_writeInode :
    diskInodes (F.disk (writeInode F.toEnv i buffer size s).2.world) =
      (s.fs.written i size).inodes := by
  funext j
  have hj := j.isLt
  exact diskInodes_of_sector (disk_writeInode_table F i buffer size s (by omega))

/-- The magic number on the disk after a write that goes to data sectors. -/
theorem magic_writeInode (hdata : size = 0 ∨ s.fs.OnDataSectors i size) :
    (diskSuperblock (F.disk (writeInode F.toEnv i buffer size s).2.world)).magic =
      s.fs.magicAfter (F.disk s.world) i size := by
  have hsb : F.disk (writeInode F.toEnv i buffer size s).2.world fsSuperblockSec =
      if s.fs.allocCount i size = 0 then F.disk s.world fsSuperblockSec
      else superblockSector (s.fs.written i size).superblock := by
    refine disk_writeInode_superblock F i buffer size s ?_ ?_
    · rcases hdata with rfl | hdata
      · exact .inl rfl
      · exact .inr hdata.1
    · rcases hdata with rfl | hdata
      · have hlt := (s.fs.writeStart i).toNat_lt
        exact Nat.le_of_lt hlt
      · exact hdata.2
  rw [magicAfter]
  split
  · next hcount =>
    rw [if_pos hcount] at hsb
    rw [diskSuperblock, hsb]
    rfl
  · next hcount =>
    rw [if_neg hcount] at hsb
    rw [diskSuperblock_of_sector hsb]
    rfl

/-- A disk without the magic number cannot be read by a fresh object. -/
theorem readFile_of_not_magic {w : σ} (h : (diskSuperblock (F.disk w)).magic ≠ fsMagic)
    (raw : FileSystem) :
    (readFile F.toEnv i.val out m (mount F.toEnv ⟨construct raw, w⟩).2).1 = (-1, out) := by
  have hload := (loadSuperblock_spec F ⟨construct raw, w⟩).1
  have hmounted : (mount F.toEnv ⟨construct raw, w⟩).2.fs.mounted = false := by
    rw [mount_of_not_loaded _ _ (by rw [hload]; exact h), hload]
    rfl
  rw [readFile, dif_pos (.inl hmounted)]

/-- A write to data sectors reads back when the magic number is in place. -/
theorem readsBack_of_toDataSectors (hm : s.fs.mounted = true) (hi : s.fs.InUse i)
    (hsize : size.toNat < 2 ^ 31) (hlimit : s.fs.SectorsBelow (2 ^ 28) i size)
    (hdata : s.fs.ToDataSectors i size)
    (hmagic : s.fs.magicAfter (F.disk s.world) i size = fsMagic) (buffer : ℕ → UInt8) :
    ReadsBack F s i buffer size := by
  have hdata' := hdata.onDataSectors hlimit
  obtain ⟨hval, hfs⟩ := writeInode_fs F.toEnv F.malloc_some i buffer size s
  unfold ReadsBack
  rw [writeFile_of_inUse F.toEnv s hm hi]
  refine ⟨?_, fun out m => ⟨?_, fun raw => ?_⟩⟩
  · rw [hval, storedLength_eq hsize, toInt32_of_lt (by rwa [toNat_ofNat_of_lt (by omega)]),
      toNat_ofNat_of_lt (by omega)]
  · refine readFile_of_written hi hsize hdata' hlimit ?_ ?_ rfl out m
    · rw [hfs]
      exact hm
    · rw [hfs]
  · -- the fresh object loads the table that the write has saved
    have hmount := (mount_of_magic F
      ⟨construct raw, (writeInode F.toEnv i buffer size s).2.world⟩
      ((magic_writeInode hdata').trans hmagic)).2
    refine readFile_of_written hi hsize hdata' hlimit ?_ ?_ ?_ out m
    · rw [hmount]
    · rw [hmount]
      exact diskInodes_writeInode
    · rw [disk_mount]

/-- A byte of the file in a sector of the inode table is not read back: the table is saved
last. -/
theorem not_readsBack_of_table (hm : s.fs.mounted = true) (hi : s.fs.InUse i)
    (hsize : size.toNat < 2 ^ 31) (hlimit : s.fs.SectorsBelow (2 ^ 28) i size)
    (h0 : s.fs.writeStart i ≠ 0) {sector : ℕ} (hsector : sector < 8) (hk : k < size.toNat)
    (hsec : (s.fs.writeStart i).toNat + k / 512 = 2 + sector) :
    ∃ buffer, ¬ ReadsBack F s i buffer size := by
  obtain ⟨v, hv⟩ : ∃ v, v =
      (inodeTableSector (s.fs.written i size).inodes sector).get (k % 512) := ⟨_, rfl⟩
  -- data that differs from the byte which the table has there
  refine ⟨fun _ => v + 1, fun h => ?_⟩
  unfold ReadsBack at h
  rw [writeFile_of_inUse F.toEnv s hm hi] at h
  have hfs := (writeInode_fs F.toEnv F.malloc_some i (fun _ => v + 1) size s).2
  have htable := disk_writeInode_table F i (fun _ => v + 1) size s hsector
  have hread := (h.2 (fun _ => 0) size).1
  generalize (writeInode F.toEnv i (fun _ => v + 1) size s).2 = t at hfs htable hread
  have hinode : t.fs.inodes i =
      { s.fs.inodes i with startSector := s.fs.writeStart i, size := size, modified := 0 } := by
    rw [hfs, inodes_written_self]
  have hlen : readLength (t.fs.inodes i) size = size.toNat := by
    rw [readLength, hinode]
    simp only
    rw [if_neg h0, storedLength_eq hsize, Nat.min_self]
  have haddr : s.fs.writeStart i + .ofNat (k / 512) = tableSector sector := by
    apply UInt32.toNat_inj.mp
    rw [toNat_add_ofNat (by omega), toNat_tableSector hsector, hsec]
  rw [readFile_eq (by rw [hfs]; exact hm) (by rw [InUse, hinode]; exact hi)
    (by rw [hinode]; exact fun _ => hlimit.2), hlen, Nat.min_self] at hread
  have hbyte := congrFun (congrArg Prod.snd hread) k
  simp only [if_pos hk] at hbyte
  rw [fileByte, hinode] at hbyte
  simp only at hbyte
  rw [haddr, htable, ← hv] at hbyte
  exact absurd hbyte (by simp)

/-- A write of one sector to the superblock cannot be read by a fresh object: the magic number
is lost. -/
theorem not_readsBack_of_superblock (hm : s.fs.mounted = true) (hi : s.fs.InUse i)
    (hcount : (sectorCount size).toNat = 1) (hstart : s.fs.writeStart i = fsSuperblockSec) :
    ¬ ReadsBack F s i (fun _ => 0) size := by
  intro h
  unfold ReadsBack at h
  rw [writeFile_of_inUse F.toEnv s hm hi] at h
  have hdisk : F.disk (writeInode F.toEnv i (fun _ => 0) size s).2.world fsSuperblockSec =
      fun _ => 0 := by
    obtain ⟨diskBuffer, w, hmalloc, -⟩ := F.malloc_spec (firstSector F.toEnv i s).world
    have hfirst := firstSector_startSector F.toEnv i s
    rw [disk_writeInode F i _ size s hmalloc, if_neg (by decide), hcount]
    generalize (firstSector F.toEnv i s).fs = fs at hfirst ⊢
    -- the one round of the loop fills the sector with zeros
    obtain ⟨c, v, hc, -, hround⟩ := @writeRound_eq i (fun _ => 0) size 0 _ F.toEnv
      ⟨⟨fs, w⟩, diskBuffer, 0⟩ rfl (by omega)
    rw [forLoop_succ_last, forLoop, Nat.zero_add, hround]
    simp only [gt_iff_lt, lt_irrefl, if_false, hfirst, hstart]
    rw [F.disk_write28 _ _ _ (by decide), hc]
    funext j
    exact ite_self _
  have hmagic : (diskSuperblock
      (F.disk (writeInode F.toEnv i (fun _ => 0) size s).2.world)).magic ≠ fsMagic := by
    rw [diskSuperblock, hdisk]
    decide
  have hread := (h.2 (fun _ => 0) 0).2 blank
  rw [readFile_of_not_magic hmagic blank] at hread
  exact absurd (congrArg Prod.fst hread) (by simp)

/-- **If every data reads back, then it goes to data sectors.** -/
theorem toDataSectors_of_readsBack (hm : s.fs.mounted = true) (hi : s.fs.InUse i)
    (hsize : size.toNat < 2 ^ 31) (hlimit : s.fs.SectorsBelow (2 ^ 28) i size)
    (h : ∀ buffer, ReadsBack F s i buffer size) : s.fs.ToDataSectors i size := by
  by_contra hno
  rw [ToDataSectors, not_or, not_or, not_le] at hno
  obtain ⟨hpos, h0, h10⟩ := hno
  have hstart : s.fs.writeStart i = (s.fs.inodes i).startSector := if_neg h0
  have hne : s.fs.writeStart i ≠ 0 := by rwa [hstart]
  have hpos' : 0 < size.toNat := Nat.pos_of_ne_zero fun hz => hpos (UInt32.toNat_inj.mp hz)
  have hstart' : 0 < (s.fs.writeStart i).toNat :=
    Nat.pos_of_ne_zero fun hz => hne (UInt32.toNat_inj.mp hz)
  rw [← hstart] at h10
  have hcount := toNat_sectorCount size
  rw [storedLength_eq hsize] at hcount
  -- which bytes are lost depends on the metadata sector at which the file starts
  have hbad : ∃ buffer, ¬ ReadsBack F s i buffer size := by
    by_cases hone : (s.fs.writeStart i).toNat = 1
    · by_cases hshort : size.toNat ≤ 512
      · exact ⟨_, not_readsBack_of_superblock hm hi (by omega) (UInt32.toNat_inj.mp hone)⟩
      · -- the second sector of the file is the first one of the table
        exact not_readsBack_of_table (k := 512) hm hi hsize hlimit hne (show 0 < 8 by decide)
          (by omega) (by omega)
    · exact not_readsBack_of_table hm hi hsize hlimit hne
        (show (s.fs.writeStart i).toNat - 2 < 8 by omega) hpos' (by omega)
  obtain ⟨buffer, hbuffer⟩ := hbad
  exact hbuffer (h buffer)

/-- **Read returns what was written.**  In every state of a mounted object, a write below the
drive's limit reads back, whatever its data is, if and only if its data goes to data sectors
and the magic number is in sector 1 afterwards. -/
theorem read_after_write (F : FaithfulEnv σ) (s : Sys σ) (i : Fin 64) (n : UInt32)
    (hm : s.fs.mounted = true) (hi : s.fs.InUse i) (hn : n.toNat < 2 ^ 31)
    (hlimit : s.fs.SectorsBelow (2 ^ 28) i n) :
    (∀ buffer, ReadsBack F s i buffer n) ↔
      s.fs.ToDataSectors i n ∧ s.fs.magicAfter (F.disk s.world) i n = fsMagic := by
  constructor
  · intro h
    have hdata := toDataSectors_of_readsBack hm hi hn hlimit h
    refine ⟨hdata, ?_⟩
    -- without the magic number a fresh object does not mount the disk
    by_contra hmagic
    have hread := h fun _ => 0
    unfold ReadsBack at hread
    rw [writeFile_of_inUse F.toEnv s hm hi] at hread
    have hfresh := (hread.2 (fun _ => 0) 0).2 blank
    rw [← magic_writeInode (hdata.onDataSectors hlimit)] at hmagic
    rw [readFile_of_not_magic hmagic blank] at hfresh
    exact absurd (congrArg Prod.fst hfresh) (by simp)
  · rintro ⟨hdata, hmagic⟩
    exact readsBack_of_toDataSectors hm hi hn hlimit hdata hmagic

/-- After a `Format` the magic number stays in place as long as no data goes to the metadata
sectors. -/
theorem magicAfter_run (label : CStr) {calls : List FsCall}
    (hok : Along (fsStep F.toEnv) (WriteMeets OnDataSectors) s (.format label :: calls)) :
    let t := finalState (fsStep F.toEnv) s (.format label :: calls)
    t.fs.magicAfter (F.disk t.world) i size = fsMagic := by
  intro t
  have hsaved : Saved t.fs (F.disk t.world) := saved_run label hok
  rw [magicAfter, hsaved.synced.diskSuperblock_eq, hsaved.magic, ite_self]

/-- Every write of one byte to the first file of a fresh disk reads back. -/
theorem read_after_write_one_byte :
    let t := finalState (fsStep idealEnv.toEnv) ⟨blank, fun _ _ => 0⟩
      [.format nameA, .mount, .createFile nameA]
    ∀ buffer, ReadsBack idealEnv t 0 buffer 1 := by
  intro t
  refine (read_after_write idealEnv t 0 1 (by decide +kernel) (by decide +kernel)
    (by decide +kernel) (by decide +kernel)).mpr ⟨by decide +kernel, ?_⟩
  exact magicAfter_run nameA (by decide +kernel)

/-! ## Reading another file -/

/-- The write to `a` addresses a sector of the file `b`. -/
def Overlaps (fs : FileSystem) (a : Fin 64) (size : UInt32) (b : Fin 64) : Prop :=
  ∃ x, ((fs.writeStart a).toNat ≤ x ∧ x < (fs.writeStart a).toNat + (sectorCount size).toNat) ∧
    (fs.inodes b).startSector ≠ 0 ∧ (fs.inodes b).startSector.toNat ≤ x ∧
    x < (fs.inodes b).startSector.toNat + (sectorCount (fs.inodes b).size).toNat

/-- Below `2 ^ 28` every write goes to data sectors. -/
theorem Extents.onDataSectors_of_limit (h : Extents (2 ^ 28) s.fs) (ha : s.fs.InUse a) :
    s.fs.OnDataSectors a size := by
  have hmark := h.mark_le
  have hcount := toNat_sectorCount size
  have hle := storedLength_le size
  have hsize := size.toNat_lt
  rw [OnDataSectors, toNat_writeStart fun _ => by omega]
  split
  · rw [mark] at hmark ⊢
    omega
  · next h0 =>
    have := h.file a ha h0
    omega

/-- A write apart from a file changes no byte of it. -/
theorem readFile_of_not_overlaps (h : Consistent (2 ^ 28) s.fs (F.disk s.world))
    (hm : s.fs.mounted = true) (ha : s.fs.InUse a) (hb : s.fs.InUse b) (hne : b ≠ a)
    (hapart : ¬ s.fs.Overlaps a size b) (buffer out : ℕ → UInt8) (m : UInt32) :
    (readFile F.toEnv b.val out m (writeInode F.toEnv a buffer size s).2).1 =
      (readFile F.toEnv b.val out m s).1 := by
  have hdata : s.fs.OnDataSectors a size := h.extents.onDataSectors_of_limit ha
  have hfs := (writeInode_fs F.toEnv F.malloc_some a buffer size s).2
  have hinode : (writeInode F.toEnv a buffer size s).2.fs.inodes b = s.fs.inodes b := by
    rw [hfs, inodes_written_of_ne s.fs hne]
  have hbelow := h.extents.mark_le
  have hfile := h.extents.file b hb
  rw [readFile_eq (s := s) hm hb (fun h0 k hk => by have := hfile h0; omega),
    readFile_eq (s := (writeInode F.toEnv a buffer size s).2) (by rw [hfs]; exact hm)
      (by rw [InUse, hinode]; exact hb)
      (by rw [hinode]; exact fun h0 k hk => by have := hfile h0; omega),
    hinode, Prod.mk.injEq]
  refine ⟨rfl, ?_⟩
  funext k
  by_cases hk : k < readLength (s.fs.inodes b) m
  · obtain ⟨h0, hlt⟩ := div_lt_of_lt_readLength hk
    obtain ⟨h10, -, hmark⟩ := hfile h0
    rw [if_pos hk, if_pos hk, fileByte_written hdata h10 (by omega),
      if_neg fun hin => hapart ⟨_, hin, h0, by omega, by omega⟩]
  · rw [if_neg hk, if_neg hk]

/-- A write on a sector of another file can change what is read of it. -/
theorem not_overlaps_of_readFile (h : Consistent (2 ^ 28) s.fs (F.disk s.world))
    (hm : s.fs.mounted = true) (ha : s.fs.InUse a) (hb : s.fs.InUse b) (hne : b ≠ a)
    (hsame : ∀ buffer out m, (readFile F.toEnv b.val out m
      (writeInode F.toEnv a buffer size s).2).1 = (readFile F.toEnv b.val out m s).1) :
    ¬ s.fs.Overlaps a size b := by
  rintro ⟨x, hwritten, h0, hge, hlt⟩
  have hdata : s.fs.OnDataSectors a size := h.extents.onDataSectors_of_limit ha
  obtain ⟨h10, -, hmark⟩ := h.extents.file b hb h0
  have hbelow := h.extents.mark_le
  -- the first byte of the sector, read before the write
  obtain ⟨k, hk⟩ : ∃ k, k = 512 * (x - (s.fs.inodes b).startSector.toNat) := ⟨_, rfl⟩
  obtain ⟨v, hv⟩ : ∃ v, v = fileByte (F.disk s.world) (s.fs.inodes b).startSector k := ⟨_, rfl⟩
  have hdiv : (s.fs.inodes b).startSector.toNat + k / 512 = x := by omega
  have hmod : k % 512 = 0 := by omega
  have hfs := (writeInode_fs F.toEnv F.malloc_some a (fun _ => v + 1) size s).2
  have hinode : (writeInode F.toEnv a (fun _ => v + 1) size s).2.fs.inodes b = s.fs.inodes b := by
    rw [hfs, inodes_written_of_ne s.fs hne]
  have hlen : k < readLength (s.fs.inodes b) (s.fs.inodes b).size := by
    have hcount := toNat_sectorCount (s.fs.inodes b).size
    have hle := storedLength_le (s.fs.inodes b).size
    rw [readLength, if_neg h0]
    omega
  have hbytes := hsame (fun _ => v + 1) (fun _ => 0) (s.fs.inodes b).size
  rw [readFile_eq (s := s) hm hb (fun _ k hk => by omega),
    readFile_eq (s := (writeInode F.toEnv a (fun _ => v + 1) size s).2) (by rw [hfs]; exact hm)
      (by rw [InUse, hinode]; exact hb) (by rw [hinode]; exact fun _ k hk => by omega),
    hinode, Prod.mk.injEq] at hbytes
  have hbyte := congrFun hbytes.2 k
  -- the write puts another byte there
  have hin := lt_of_lt_sectorCount (by omega :
    x - (s.fs.writeStart a).toNat < (sectorCount size).toNat)
  simp only [if_pos hlen] at hbyte
  rw [fileByte_written hdata h10 (by omega), hdiv, if_pos hwritten, hmod,
    get_chunk (by decide) (by omega), ← hv] at hbyte
  exact absurd hbyte (by simp)

/-- **File isolation.**  In every state that a run after a `Format` reaches with the data
sectors below `2 ^ 28`, a write to the file `a` leaves every read of the file `b` as it
was if and only if none of the sectors it writes is a sector of `b`. -/
theorem file_isolation (F : FaithfulEnv σ) (s : Sys σ) (label : CStr) (calls : List FsCall)
    (hok : Along (fsStep F.toEnv) (CallBelow (2 ^ 28)) s (.format label :: calls)) :
    let t := finalState (fsStep F.toEnv) s (.format label :: calls)
    ∀ (a b : Fin 64) (size : UInt32), b ≠ a → t.fs.InUse a → t.fs.InUse b →
      ((∀ (buffer out : ℕ → UInt8) (m : UInt32),
          (readFile F.toEnv b.val out m (writeFile F.toEnv a.val buffer size t).2).1 =
            (readFile F.toEnv b.val out m t).1) ↔
        (t.fs.mounted = true → ¬ t.fs.Overlaps a size b)) := by
  intro t a b size hne ha hb
  have h : Consistent (2 ^ 28) t.fs (F.disk t.world) :=
    consistent_run (by decide) (by decide) label hok
  by_cases hm : t.fs.mounted = true
  · simp only [writeFile_of_inUse F.toEnv t hm ha, hm, true_imp_iff]
    exact ⟨not_overlaps_of_readFile h hm ha hb hne,
      fun hapart buffer out m => readFile_of_not_overlaps h hm ha hb hne hapart buffer out m⟩
  · refine iff_of_true (fun buffer out m => ?_) fun hm' => absurd hm' hm
    rcases writeFile_cases F.toEnv t a.val buffer size with ⟨-, hres⟩ | ⟨-, hm', -⟩
    · rw [hres]
    · exact absurd hm' hm

/-- The file name `b`. -/
def nameB : CStr := ⟨[98], by decide⟩

/-- Two files of one byte each. -/
def twoFileCalls : List FsCall :=
  [.mount, .createFile nameA, .createFile nameB, .writeFile 0 (fun _ => 7) 1,
    .writeFile 1 (fun _ => 8) 1]

/-- A rewrite of the first file with one byte leaves the second alone. -/
theorem file_isolation_two_files :
    let t := finalState (fsStep idealEnv.toEnv) ⟨blank, fun _ _ => 0⟩
      (.format nameA :: twoFileCalls)
    (∀ (buffer out : ℕ → UInt8) (m : UInt32),
        (readFile idealEnv.toEnv (1 : Fin 64).val out m
            (writeFile idealEnv.toEnv (0 : Fin 64).val buffer 1 t).2).1 =
          (readFile idealEnv.toEnv (1 : Fin 64).val out m t).1) ↔
      (t.fs.mounted = true → ¬ t.fs.Overlaps 0 1 1) :=
  file_isolation idealEnv ⟨blank, fun _ _ => 0⟩ nameA twoFileCalls (by decide +kernel) 0 1 1
    (by decide) (by decide +kernel) (by decide +kernel)

/-- A rewrite of the first file with two sectors puts the second sector on the second
file. -/
theorem growing_rewrite_overlaps :
    let t := finalState (fsStep idealEnv.toEnv) ⟨blank, fun _ _ => 0⟩
      (.format nameA :: twoFileCalls)
    t.fs.InUse 0 ∧ t.fs.InUse 1 ∧
      (readFile idealEnv.toEnv (1 : Fin 64).val (fun _ => 0) 1 t).1.2 0 = 8 ∧
      (readFile idealEnv.toEnv (1 : Fin 64).val (fun _ => 0) 1
        (writeFile idealEnv.toEnv (0 : Fin 64).val (fun _ => 9) 1024 t).2).1.2 0 = 9 := by
  decide +kernel

/-! ## When the sector counter overflows -/

/-- A rewrite of the same size only uses up sectors. -/
theorem written_of_same (fs : FileSystem) (h0 : (fs.inodes i).startSector ≠ 0)
    (hsize : (fs.inodes i).size = size) (hmod : (fs.inodes i).modified = 0) :
    fs.written i size = fs.bumpUsed ((sectorCount size).toNat - 1) := by
  rw [written, allocCount, if_neg h0, writeStart, if_neg h0, Nat.zero_add, setInode, ← hsize,
    ← hmod, bumpUsed_inodes]
  simp only [Function.update_eq_self]
  rfl

/-- Many rewrites of the same size. -/
theorem fs_rewrites (F : FaithfulEnv σ) (buffer : ℕ → UInt8) (size : UInt32) (n : ℕ)
    (hm : s.fs.mounted = true) (hi : s.fs.InUse i) (h0 : (s.fs.inodes i).startSector ≠ 0)
    (hsize : (s.fs.inodes i).size = size) (hmod : (s.fs.inodes i).modified = 0) :
    (finalState (fsStep F.toEnv) s (List.replicate n (.writeFile i.val buffer size))).fs =
      s.fs.bumpUsed (n * ((sectorCount size).toNat - 1)) := by
  induction n generalizing s with
  | zero => rw [List.replicate_zero, finalState_nil, Nat.zero_mul, bumpUsed_zero]
  | succ n ih =>
    have hfs := fs_writeFile F.toEnv s F.malloc_some hm hi buffer size
    rw [written_of_same s.fs h0 hsize hmod] at hfs
    rw [List.replicate_succ, finalState_cons, ih (by rw [hfs]; exact hm) (by rw [hfs]; exact hi)
      (by rw [hfs]; exact h0) (by rw [hfs]; exact hsize) (by rw [hfs]; exact hmod), hfs,
      bumpUsed_bumpUsed, Nat.succ_mul, Nat.add_comm]

/-- The largest size below `2 ^ 31` that is a multiple of the sector size. -/
def bigSize : UInt32 := 2147483136

/-- A history of writes that uses up the sector numbers: the last file gets sector 2,
a sector of the inode table. -/
def overflowCalls : List FsCall :=
  [.createFile nameA, .writeFile 0 (fun _ => 0) bigSize] ++
    (List.replicate 1023 (.writeFile 0 (fun _ => 0) bigSize) ++
      [.writeFile 0 (fun _ => 0) 1044480, .createFile nameB, .writeFile 1 (fun _ => 0) 1])

/-- The object before the rewrites of that history. -/
def bigFile : FileSystem :=
  ({ blank.formatted nameA with mounted := true }.created 0 nameA).written 0 bigSize

/-- The object after the last rewrite. -/
def rewritten : FileSystem := (bigFile.bumpUsed (1023 * 4194302)).written 0 1044480

/-- The object after the history. -/
def overflowed : FileSystem := (rewritten.created 1 nameB).written 1 1

/-- The state after the first file and its first write. -/
theorem fs_firstFile (F : FaithfulEnv σ)
    (hs : s.fs = { blank.formatted nameA with mounted := true }) :
    (finalState (fsStep F.toEnv) s [.createFile nameA, .writeFile 0 (fun _ => 0) bigSize]).fs =
      bigFile := by
  have h1 := fs_createFile (f := nameA) (i := 0) F.toEnv s (by rw [hs]) (by rw [hs]; decide +kernel)
    (by rw [hs]; decide +kernel)
  rw [hs] at h1
  rw [finalState_cons]
  generalize (fsStep F.toEnv s (.createFile nameA)).1 = s1 at h1 ⊢
  have h2 := fs_writeFile (i := 0) F.toEnv s1 F.malloc_some (by rw [h1]; decide +kernel)
    (by rw [h1]; decide +kernel) (fun _ => 0) bigSize
  rw [h1] at h2
  exact h2

/-- The state after the rewrites. -/
theorem fs_rewritten (F : FaithfulEnv σ) (hs : s.fs = bigFile) (n : ℕ) :
    (finalState (fsStep F.toEnv) s (List.replicate n (.writeFile 0 (fun _ => 0) bigSize))).fs =
      bigFile.bumpUsed (n * 4194302) := by
  have h := fs_rewrites (s := s) (i := 0) F (fun _ => 0) bigSize n
    (by rw [hs]; decide +kernel) (by rw [hs]; decide +kernel) (by rw [hs]; decide +kernel)
    (by rw [hs]; decide +kernel) (by rw [hs]; decide +kernel)
  have hcount : (sectorCount bigSize).toNat - 1 = 4194302 := by decide +kernel
  rw [hs, hcount] at h
  exact h

/-- The state after the last rewrite, the second file and its first write. -/
theorem fs_secondFile (F : FaithfulEnv σ) (hs : s.fs = bigFile.bumpUsed (1023 * 4194302)) :
    (finalState (fsStep F.toEnv) s [.writeFile 0 (fun _ => 0) 1044480, .createFile nameB,
      .writeFile 1 (fun _ => 0) 1]).fs = overflowed := by
  have h1 : (fsStep F.toEnv s (.writeFile 0 (fun _ => 0) 1044480)).1.fs = rewritten := by
    have h := fs_writeFile (i := 0) F.toEnv s F.malloc_some (by rw [hs]; decide +kernel)
      (by rw [hs]; decide +kernel) (fun _ => 0) 1044480
    rwa [hs] at h
  rw [finalState_cons, finalState_cons]
  generalize (fsStep F.toEnv s (.writeFile 0 (fun _ => 0) 1044480)).1 = s1 at h1 ⊢
  have h2 := fs_createFile (f := nameB) (i := 1) F.toEnv s1 (by rw [h1]; decide +kernel)
    (by rw [h1]; decide +kernel) (by rw [h1]; decide +kernel)
  rw [h1] at h2
  generalize (fsStep F.toEnv s1 (.createFile nameB)).1 = s2 at h2 ⊢
  have h3 := fs_writeFile (i := 1) F.toEnv s2 F.malloc_some (by rw [h2]; decide +kernel)
    (by rw [h2]; decide +kernel) (fun _ => 0) 1
  rw [h2] at h3
  exact h3

/-- A write of one byte to the second file, which starts at sector 2, does not read
back: the inode table is saved last. -/
theorem read_overflowed (F : FaithfulEnv σ) (hs : s.fs = overflowed) :
    s.fs.mounted = true ∧ s.fs.InUse 1 ∧ s.fs.SectorsBelow (2 ^ 28) 1 1 ∧
      ((readFile F.toEnv (1 : Fin 64).val (fun _ => 0) 1
        (writeFile F.toEnv (1 : Fin 64).val (fun _ => 7) 1 s).2).1.2 0 = 97) := by
  have hm : s.fs.mounted = true := by
    rw [hs]
    decide +kernel
  have hi : s.fs.InUse 1 := by
    rw [hs]
    decide +kernel
  refine ⟨hm, hi, by rw [hs]; decide +kernel, ?_⟩
  rw [writeFile_of_inUse F.toEnv s hm hi]
  have hfs := (writeInode_fs F.toEnv F.malloc_some 1 (fun _ => 7) 1 s).2
  have htable := disk_writeInode_table F 1 (fun _ => 7) 1 s (by decide : 0 < 8)
  rw [hs] at hfs htable
  generalize (writeInode F.toEnv 1 (fun _ => 7) 1 s).2 = t at hfs htable ⊢
  have hread := readFile_eq (F := F) (s := t) (i := 1) (by rw [hfs]; decide +kernel)
    (by rw [hfs]; decide +kernel) (by rw [hfs]; decide +kernel) (fun _ => 0) 1
  have hlen : 0 < readLength (t.fs.inodes 1) 1 := by
    rw [hfs]
    decide +kernel
  have hstart : (t.fs.inodes 1).startSector = tableSector 0 := by
    rw [hfs]
    decide +kernel
  have hsec : tableSector 0 + .ofNat (0 / 512) = tableSector 0 := by decide
  rw [hread]
  simp only
  rw [if_pos hlen, hstart, fileByte, hsec, htable]
  decide +kernel

theorem fs_overflowCalls (F : FaithfulEnv σ) (hs : s.fs = blank) :
    (finalState (fsStep F.toEnv) s ([.format nameA, .mount] ++ overflowCalls)).fs =
      overflowed := by
  have h0 := fs_format_mount F nameA s
  rw [hs] at h0
  rw [overflowCalls, finalState_append, finalState_append, finalState_append]
  generalize finalState (fsStep F.toEnv) s [.format nameA, .mount] = s0 at h0 ⊢
  have h1 := fs_firstFile F h0
  generalize finalState (fsStep F.toEnv) s0
    [.createFile nameA, .writeFile 0 (fun _ => 0) bigSize] = s1 at h1 ⊢
  have h2 := fs_rewritten F h1 1023
  generalize finalState (fsStep F.toEnv) s1
    (List.replicate 1023 (.writeFile 0 (fun _ => 0) bigSize)) = s2 at h2 ⊢
  exact fs_secondFile F h2

/-- After that history, a write of one byte to the last file stays below the drive's
limit, but a read after it returns the first character of the first file's name. -/
theorem overflow_read_differs :
    let t := finalState (fsStep idealEnv.toEnv) ⟨blank, fun _ _ => 0⟩
      ([.format nameA, .mount] ++ overflowCalls)
    let r := writeFile idealEnv.toEnv (1 : Fin 64).val (fun _ => 7) 1 t
    t.fs.mounted = true ∧ t.fs.InUse 1 ∧ t.fs.SectorsBelow (2 ^ 28) 1 1 ∧
      (readFile idealEnv.toEnv (1 : Fin 64).val (fun _ => 0) 1 r.2).1.2 0 = 97 :=
  read_overflowed idealEnv (fs_overflowCalls idealEnv rfl)

end FileData

end FileSystem
