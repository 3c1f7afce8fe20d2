/-
# Cutting a call between two sector writes

A drive with a log remembers the states after each of its writes: the points at which a
call can be cut.  At every such point of a call but `Format` each sector of the inode
table is the one from before the call or the one from after it, and the superblock
already counts the sectors of an inode that has reached the disk.
-/
import HydraOS.FileSystemRuns

/-! ## A drive with a log -/

/-- The drive `F` with a log of its states after each write, the latest first. -/
def FaithfulEnv.logged {σ : Type} (F : FaithfulEnv σ) : FaithfulEnv (σ × List σ) where
  malloc w := let (buffer, w') := F.malloc w.1; (buffer, w', w.2)
  free buffer w := (F.free buffer w.1, w.2)
  read28 sector buffer w := let (buffer, w') := F.read28 sector buffer w.1; (buffer, w', w.2)
  write28 sector buffer w := let w' := F.write28 sector buffer w.1; (w', w' :: w.2)
  disk w := F.disk w.1
  malloc_some w := F.malloc_some w.1
  disk_malloc w := F.disk_malloc w.1
  disk_free buffer w := F.disk_free buffer w.1
  read28_data sector buffer w h := F.read28_data sector buffer w.1 h
  read28_data_of_gt sector buffer w h := F.read28_data_of_gt sector buffer w.1 h
  disk_read28 sector buffer w := F.disk_read28 sector buffer w.1
  disk_write28 sector buffer w h := F.disk_write28 sector buffer w.1 h
  disk_write28_of_gt sector buffer w h := F.disk_write28_of_gt sector buffer w.1 h

namespace FileSystem

/-- **The cuts of a call**: the states of the drive after each of its sector writes. -/
def cuts {σ : Type} (F : FaithfulEnv σ) (s : Sys σ) (call : FsCall) : List σ :=
  (fsStep F.logged.toEnv ⟨s.fs, (s.world, [])⟩ call).1.world.2

section Logs

variable {σ : Type} {F : FaithfulEnv σ} {P Q : (UInt32 → Sector) → Prop}
  {w w' w'' : σ × List σ} {s : Sys (σ × List σ)}

/-- From `w` to `w'` the log grows by disks with a property only. -/
def Adds (F : FaithfulEnv σ) (P : (UInt32 → Sector) → Prop) (w w' : σ × List σ) : Prop :=
  ∀ c ∈ w'.2, c ∈ w.2 ∨ P (F.disk c)

theorem Adds.refl (w : σ × List σ) : Adds F P w w := fun _ hc => .inl hc

theorem Adds.trans (h : Adds F P w w') (h' : Adds F P w' w'') : Adds F P w w'' := by
  intro c hc
  rcases h' c hc with hc | hc
  · exact h c hc
  · exact .inr hc

theorem Adds.of_log_eq (h : w'.2 = w.2) : Adds F P w w' := by
  intro c hc
  rw [h] at hc
  exact .inl hc

theorem adds_write28 {sector : UInt32} {buffer : Buffer}
    (h : P (F.logged.disk (F.logged.write28 sector buffer w))) :
    Adds F P w (F.logged.write28 sector buffer w) := by
  intro c hc
  rcases List.mem_cons.mp hc with rfl | hc
  · exact .inr h
  · exact .inl hc

/-- A call of `malloc(512)` returns a buffer and writes nothing. -/
theorem logged_malloc_spec (F : FaithfulEnv σ) (w : σ × List σ) :
    ∃ buffer w', F.logged.malloc w = (some buffer, w') ∧ F.logged.disk w' = F.logged.disk w ∧
      w'.2 = w.2 := by
  obtain ⟨buffer, w', hmalloc, hdisk⟩ := F.logged.malloc_spec w
  refine ⟨buffer, w', hmalloc, hdisk, ?_⟩
  have hw : w' = (F.logged.malloc w).2 := by rw [hmalloc]
  rw [hw]
  rfl

/-! ### Saving -/

/-- The disk when the first `k` sectors of the inode table have been saved. -/
def tableSaved (inodes : Fin 64 → Inode) (k : ℕ) (d : UInt32 → Sector) : UInt32 → Sector := fun x =>
  if 2 ≤ x.toNat ∧ x.toNat < 2 + k then inodeTableSector inodes (x.toNat - 2) else d x

section TableSaved

variable {inodes : Fin 64 → Inode} {d : UInt32 → Sector} {k n : ℕ}

theorem tableSaved_zero : tableSaved inodes 0 d = d := by
  funext x
  rw [tableSaved, if_neg (by omega)]

/-- One more sector of the table. -/
theorem tableSaved_succ (hk : k < 8) : tableSaved inodes (k + 1) d =
    Function.update (tableSaved inodes k d) (tableSector k) (inodeTableSector inodes k) := by
  have hsec := toNat_tableSector hk
  funext x
  by_cases hx : x = tableSector k
  · rw [hx, Function.update_self, tableSaved, if_pos (by omega), hsec, Nat.add_sub_cancel_left]
  · have hne : x.toNat ≠ 2 + k := fun h => hx (UInt32.toNat_inj.mp (h.trans hsec.symm))
    have hiff : x.toNat < 2 + (k + 1) ↔ x.toNat < 2 + k := by omega
    rw [Function.update_of_ne hx, tableSaved, tableSaved]
    simp only [hiff]

theorem tableSaved_superblock : tableSaved inodes k d fsSuperblockSec = d fsSuperblockSec := by
  apply if_neg
  intro h
  exact absurd h.1 (by decide)

theorem tableSaved_tableSector (hn : n < 8) : tableSaved inodes k d (tableSector n) =
    if n < k then inodeTableSector inodes n else d (tableSector n) := by
  have hsec := toNat_tableSector hn
  have hiff : 2 ≤ 2 + n ∧ 2 + n < 2 + k ↔ n < k := by omega
  rw [tableSaved, hsec, Nat.add_sub_cancel_left]
  simp only [hiff]

end TableSaved

theorem saveSuperblock_adds (h : P (Function.update (F.logged.disk s.world) fsSuperblockSec
      (superblockSector s.fs.superblock))) :
    Adds F P s.world (saveSuperblock F.logged.toEnv s).world := by
  obtain ⟨buffer, w, hmalloc, hdisk, hlog⟩ := logged_malloc_spec F s.world
  unfold saveSuperblock
  rw [hmalloc]
  refine (Adds.of_log_eq hlog).trans ?_
  refine Adds.trans (adds_write28 ?_) (Adds.of_log_eq rfl)
  rw [F.logged.disk_write28 _ _ _ (by decide), hdisk]
  exact h

theorem saveInodeTable_adds
    (h : ∀ k ≤ 8, P (tableSaved s.fs.inodes k (F.logged.disk s.world))) :
    Adds F P s.world (saveInodeTable F.logged.toEnv s).world := by
  obtain ⟨buffer, w, hmalloc, hdisk, hlog⟩ := logged_malloc_spec F s.world
  unfold saveInodeTable
  rw [hmalloc]
  refine (Adds.of_log_eq hlog).trans ?_
  have hloop := @forLoop_invariant_of_true _ (saveInodeRound F.logged.toEnv s.fs.inodes) 8 0
    (buffer, w)
    (fun k st => F.logged.disk st.2 = tableSaved s.fs.inodes k (F.logged.disk s.world) ∧
      Adds F P w st.2)
    ⟨?_, Adds.refl w⟩ fun k st _ hk hinv => ?_
  · exact hloop.2.trans (Adds.of_log_eq rfl)
  · rw [hdisk, tableSaved_zero]
  · have hround : F.logged.disk (saveInodeRound F.logged.toEnv s.fs.inodes k st).2 =
        tableSaved s.fs.inodes (k + 1) (F.logged.disk s.world) := by
      refine (F.logged.disk_write28 _ _ _ (tableSector_le (by omega))).trans ?_
      rw [hinv.1, tableSaved_succ (by omega)]
    refine ⟨hround, hinv.2.trans (adds_write28 ?_)⟩
    exact hround ▸ h (k + 1) (by omega)

/-! ### Reading -/

theorem loadSuperblock_log (s : Sys (σ × List σ)) :
    (loadSuperblock F.logged.toEnv s).world.2 = s.world.2 := by
  obtain ⟨buffer, w, hmalloc, -, hlog⟩ := logged_malloc_spec F s.world
  unfold loadSuperblock
  rw [hmalloc]
  exact hlog

theorem loadInodeTable_log (s : Sys (σ × List σ)) :
    (loadInodeTable F.logged.toEnv s).world.2 = s.world.2 := by
  obtain ⟨buffer, w, hmalloc, -, hlog⟩ := logged_malloc_spec F s.world
  unfold loadInodeTable
  rw [hmalloc]
  exact @forLoop_invariant_of_true _ (loadInodeRound F.logged.toEnv) 8 0
    (s.fs.inodes, buffer, w) (fun _ st => st.2.2.2 = s.world.2) hlog fun _ _ _ _ hinv => hinv

theorem mount_log (s : Sys (σ × List σ)) : (mount F.logged.toEnv s).2.world.2 = s.world.2 := by
  unfold mount
  simp only
  split
  · exact loadSuperblock_log s
  · exact (loadInodeTable_log _).trans (loadSuperblock_log s)

theorem readFile_log (inodeIndex : ℤ) (out : ℕ → UInt8) (size : UInt32) (s : Sys (σ × List σ)) :
    (readFile F.logged.toEnv inodeIndex out size s).2.world.2 = s.world.2 := by
  rcases readFile_cases F.logged.toEnv s inodeIndex out size with ⟨-, h⟩ | ⟨i, -, -, -, h⟩
  · rw [h]
  · rw [h, readInode]
    split
    · obtain ⟨buffer, w, hmalloc, -, hlog⟩ := logged_malloc_spec F s.world
      rw [hmalloc]
      obtain ⟨-, -, hinv, -⟩ := @forLoop_invariant _
        (fun st => decide (st.bytesRead < size)) (readRound F.logged.toEnv (s.fs.inodes i) size)
        (sectorCount (s.fs.inodes i).size).toNat 0 ⟨w, buffer, out, 0⟩
        (fun _ st => st.world.2 = s.world.2) hlog fun _ _ _ _ _ hinv => hinv
      exact hinv
    · rfl

end Logs

/-! ## Between two states of the object -/

/-- **The disk is between the object `fs` and the object `fs'`**: it carries the magic
number, each sector of its inode table is that of `fs` or that of `fs'`, and its allocation
counter covers the objects whose sectors it has. -/
def Between (fs fs' : FileSystem) (d : UInt32 → Sector) : Prop :=
  ∃ sb : Superblock, d fsSuperblockSec = superblockSector sb ∧ sb.magic = fsMagic ∧
    fs.superblock.usedSectors.toNat ≤ sb.usedSectors.toNat ∧
    ∀ sector < 8, d (tableSector sector) = inodeTableSector fs.inodes sector ∨
      d (tableSector sector) = inodeTableSector fs'.inodes sector ∧
        fs'.superblock.usedSectors.toNat ≤ sb.usedSectors.toNat

section Between

variable {fs fs' : FileSystem} {sb : Superblock} {d : UInt32 → Sector} {k : ℕ}

theorem tableSector_ne_superblock {sector : ℕ} (h : sector < 8) :
    tableSector sector ≠ fsSuperblockSec := by
  intro heq
  have hone : (tableSector sector).toNat = 1 := congrArg UInt32.toNat heq
  rw [toNat_tableSector h] at hone
  omega

/-- The old table with a counter that has not gone back. -/
theorem Between.of_synced (h : Synced { fs with superblock := sb } d) (hmagic : sb.magic = fsMagic)
    (hused : fs.superblock.usedSectors.toNat ≤ sb.usedSectors.toNat) : Between fs fs' d :=
  ⟨sb, h.superblock, hmagic, hused, fun sector hsec => .inl (h.inodes sector hsec)⟩

/-- Some sectors of the new table, with a counter that covers it. -/
theorem Between.of_tableSaved (h : Synced { fs with superblock := sb } d)
    (hmagic : sb.magic = fsMagic)
    (hused : fs.superblock.usedSectors.toNat ≤ sb.usedSectors.toNat)
    (hused' : fs'.superblock.usedSectors.toNat ≤ sb.usedSectors.toNat) :
    Between fs fs' (tableSaved fs'.inodes k d) := by
  refine ⟨sb, ?_, hmagic, hused, fun sector hsec => ?_⟩
  · rw [tableSaved_superblock]
    exact h.superblock
  · rw [tableSaved_tableSector hsec]
    split
    · exact .inr ⟨rfl, hused'⟩
    · exact .inl (h.inodes sector hsec)

/-- The new table under a new superblock. -/
theorem Between.of_saved (htable : ∀ sector < 8,
      d (tableSector sector) = inodeTableSector fs'.inodes sector)
    (hmagic : fs'.superblock.magic = fsMagic)
    (hused : fs.superblock.usedSectors.toNat ≤ fs'.superblock.usedSectors.toNat) :
    Between fs fs' (Function.update d fsSuperblockSec (superblockSector fs'.superblock)) := by
  refine ⟨_, Function.update_self _ _ _, hmagic, hused, fun sector hsec => ?_⟩
  rw [Function.update_of_ne (tableSector_ne_superblock hsec)]
  exact .inr ⟨htable sector hsec, le_rfl⟩

end Between

/-! ## The cuts of a call -/

section Cuts

variable {σ : Type} {F : FaithfulEnv σ} {s : Sys (σ × List σ)} {fs fs' : FileSystem} {k : ℕ}

/-- `CreateFile` and `DeleteFile` save the table and then the superblock. -/
theorem save_adds (hs : Saved fs (F.logged.disk s.world)) (hfs : s.fs = fs')
    (hsb : fs'.superblock.magic = fsMagic)
    (hused : fs'.superblock.usedSectors = fs.superblock.usedSectors) :
    Adds F (Between fs fs') s.world
      (saveSuperblock F.logged.toEnv (saveInodeTable F.logged.toEnv s)).world := by
  subst hfs
  refine (saveInodeTable_adds fun k hk => ?_).trans (saveSuperblock_adds ?_)
  · exact @Between.of_tableSaved fs _ fs.superblock _ _ hs.synced hs.magic le_rfl (by rw [hused])
  · rw [saveInodeTable_fs]
    refine Between.of_saved (fun sector hsec => ?_) hsb (by rw [hused])
    have htab := toNat_tableSector hsec
    rw [disk_saveInodeTable, if_pos (by omega), htab, Nat.add_sub_cancel_left]

/-- In the course of a write to a file of the object `fs`, after `k` allocations, the disk
has the inode table of `fs` and the present superblock. -/
structure WriteStage (F : FaithfulEnv σ) (fs : FileSystem) (k : ℕ) (s : Sys (σ × List σ)) :
    Prop where
  synced : Synced { fs with superblock := s.fs.superblock } (F.logged.disk s.world)
  magic : s.fs.superblock.magic = fsMagic
  used : s.fs.superblock.usedSectors.toNat = fs.superblock.usedSectors.toNat + k

theorem WriteStage.between (h : WriteStage F fs k s) : Between fs fs' (F.logged.disk s.world) :=
  Between.of_synced h.synced h.magic (by rw [h.used]; omega)

/-- An allocation. -/
theorem WriteStage.allocate (h : WriteStage F fs k s)
    (hwrap : fs.superblock.usedSectors.toNat + (k + 1) < 2 ^ 32) :
    WriteStage F fs (k + 1) (allocateSector F.logged.toEnv s).2 ∧
      Adds F (Between fs fs') s.world (allocateSector F.logged.toEnv s).2.world := by
  have hdisk := disk_allocateSector F.logged s
  have hstage : WriteStage F fs (k + 1) (allocateSector F.logged.toEnv s).2 := by
    refine ⟨⟨?_, fun sector hsec => ?_⟩, ?_, ?_⟩
    · rw [hdisk, Function.update_self]
    · rw [hdisk, Function.update_of_ne (tableSector_ne_superblock hsec)]
      exact h.synced.inodes sector hsec
    · rw [allocateSector_fs]
      exact h.magic
    · have h1 : (1 : UInt32).toNat = 1 := rfl
      have hused := h.used
      rw [allocateSector_fs]
      simp only
      rw [UInt32.toNat_add, h1]
      omega
  refine ⟨hstage, saveSuperblock_adds ?_⟩
  have hbetween : Between fs fs' _ := hstage.between
  rw [hdisk, allocateSector_fs] at hbetween
  exact hbetween

/-- A write of data. -/
theorem WriteStage.write (h : WriteStage F fs k s) {x : UInt32} (hx : 10 ≤ x.toNat)
    (buffer : Buffer) :
    WriteStage F fs k { s with world := F.logged.write28 x buffer s.world } ∧
      Adds F (Between fs fs') s.world (F.logged.write28 x buffer s.world) := by
  have hother {y : UInt32} (hy : y.toNat < 10) :
      F.logged.disk (F.logged.write28 x buffer s.world) y = F.logged.disk s.world y := by
    apply F.logged.disk_write28_of_ne
    rintro rfl
    omega
  have hstage : WriteStage F fs k { s with world := F.logged.write28 x buffer s.world } := by
    refine ⟨⟨?_, fun sector hsec => ?_⟩, h.magic, h.used⟩
    · rw [hother (by decide)]
      exact h.synced.superblock
    · have htab := toNat_tableSector hsec
      rw [hother (by omega)]
      exact h.synced.inodes sector hsec
  exact ⟨hstage, adds_write28 hstage.between⟩

/-- The first allocation of a write. -/
theorem firstSector_stage (index : Fin 64) (hs : Saved s.fs (F.logged.disk s.world))
    (hwrap : s.fs.superblock.usedSectors.toNat + 1 < 2 ^ 32) :
    WriteStage F s.fs (if (s.fs.inodes index).startSector = 0 then 1 else 0)
        (firstSector F.logged.toEnv index s) ∧
      Adds F (Between s.fs fs') s.world (firstSector F.logged.toEnv index s).world := by
  have hzero : WriteStage F s.fs 0 s := ⟨hs.synced, hs.magic, rfl⟩
  unfold firstSector
  split
  · obtain ⟨hstage, hadds⟩ := @WriteStage.allocate _ F s s.fs fs' 0 hzero (by omega)
    exact ⟨⟨hstage.synced, hstage.magic, hstage.used⟩, hadds⟩
  · exact ⟨hzero, Adds.refl _⟩

/-- The rounds of a write. -/
theorem writeRounds_stage (index : Fin 64) (buffer : ℕ → UInt8) (size : UInt32)
    {st : WriteState (σ × List σ)} (h0 : st.bytesWritten = 0) (hst : WriteStage F fs k st.sys)
    {start : UInt32} (hstart : (st.sys.fs.inodes index).startSector = start)
    (h10 : 10 ≤ start.toNat) (hend : start.toNat + (sectorCount size).toNat ≤ 2 ^ 32)
    (hwrap : fs.superblock.usedSectors.toNat + (k + (sectorCount size).toNat) < 2 ^ 32) :
    let st' := forLoop (fun _ => true) (writeRound F.logged.toEnv index buffer size)
      (sectorCount size).toNat 0 st
    WriteStage F fs (k + ((sectorCount size).toNat - 1)) st'.sys ∧
      Adds F (Between fs fs') st.sys.world st'.sys.world := by
  have hloop := @forLoop_invariant_of_true _ (writeRound F.logged.toEnv index buffer size)
    (sectorCount size).toNat 0 st
    (fun i st' => st'.bytesWritten.toNat = min (512 * i) size.toNat ∧
      st'.sys.fs.inodes = st.sys.fs.inodes ∧ WriteStage F fs (k + (i - 1)) st'.sys ∧
      Adds F (Between fs fs') st.sys.world st'.sys.world)
    ⟨by rw [h0]; exact (Nat.zero_min _).symm, rfl, hst, Adds.refl _⟩
    (fun i st' _ hi hinv => by
      obtain ⟨hbytes, hinodes, hstage, hadds⟩ := hinv
      rw [Nat.zero_add] at hi
      have hlt := lt_of_lt_sectorCount hi
      obtain ⟨b, v, -, hv, hround⟩ := @writeRound_eq index buffer size i _ F.logged.toEnv st'
        (by omega) hi
      -- the state after the allocation of this round
      obtain ⟨t, ht⟩ : ∃ t, t = if i > 0 then (allocateSector F.logged.toEnv st'.sys).2
        else st'.sys := ⟨_, rfl⟩
      have halloc : WriteStage F fs (k + (i + 1 - 1)) t ∧ t.fs.inodes = st.sys.fs.inodes ∧
          Adds F (Between fs fs') st.sys.world t.world := by
        rw [ht]
        split
        · next hpos =>
          obtain ⟨hstage', hadds'⟩ := @WriteStage.allocate _ F _ fs fs' _ hstage (by omega)
          rw [show k + (i - 1) + 1 = k + (i + 1 - 1) by omega] at hstage'
          rw [allocateSector_fs]
          exact ⟨hstage', hinodes, hadds.trans hadds'⟩
        · next hzero =>
          rw [show k + (i - 1) = k + (i + 1 - 1) by omega] at hstage
          exact ⟨hstage, hinodes, hadds⟩
      obtain ⟨hstage', hinodes', hadds'⟩ := halloc
      rw [hround]
      simp only
      rw [← ht, hinodes', hstart]
      have hsec : 10 ≤ (start + UInt32.ofNat i).toNat := by
        rw [UInt32.toNat_add, toNat_ofNat_of_lt (by omega), Nat.mod_eq_of_lt (by omega)]
        omega
      obtain ⟨hstage'', hadds''⟩ := @WriteStage.write _ F _ fs fs' _ hstage' _ hsec b
      exact ⟨hv, rfl, hstage'', hadds'.trans hadds''⟩)
  rw [Nat.zero_add] at hloop
  exact hloop.2.2

/-- **A write**: its allocations and its data come first, the inode table comes last. -/
theorem writeInode_adds (index : Fin 64) (buffer : ℕ → UInt8) (size : UInt32)
    (hs : Saved s.fs (F.logged.disk s.world)) (hdata : s.fs.OnDataSectors index size)
    (hwrap : s.fs.superblock.usedSectors.toNat + ((sectorCount size).toNat + 1) < 2 ^ 32) :
    Adds F (Between s.fs (s.fs.written index size)) s.world
      (writeInode F.logged.toEnv index buffer size s).2.world := by
  obtain ⟨hfirst, hadds⟩ := @firstSector_stage _ F s (s.fs.written index size) index hs (by omega)
  obtain ⟨b, w, hmalloc, hdisk, hlog⟩ :=
    logged_malloc_spec F (firstSector F.logged.toEnv index s).world
  have hstage : WriteStage F s.fs (if (s.fs.inodes index).startSector = 0 then 1 else 0)
      ⟨(firstSector F.logged.toEnv index s).fs, w⟩ :=
    ⟨by rw [hdisk]; exact hfirst.synced, hfirst.magic, hfirst.used⟩
  have hk : (if (s.fs.inodes index).startSector = 0 then 1 else 0) ≤ 1 := by
    split <;> omega
  obtain ⟨hrounds, hadds'⟩ := @writeRounds_stage _ F _ (s.fs.written index size) _
    index buffer size ⟨⟨(firstSector F.logged.toEnv index s).fs, w⟩, b, 0⟩ rfl hstage _
    (firstSector_startSector F.logged.toEnv index s) hdata.1 hdata.2 (by omega)
  have hfs := (writeInode_fs F.logged.toEnv F.logged.malloc_some index buffer size s).2
  rw [writeInode, hmalloc] at hfs ⊢
  simp only [saveInodeTable_fs] at hfs
  refine hadds.trans ((Adds.of_log_eq hlog).trans (hadds'.trans ?_))
  refine Adds.trans (Adds.of_log_eq rfl) (saveInodeTable_adds fun k _ => ?_)
  rw [hfs]
  simp only
  rw [F.logged.disk_free]
  refine Between.of_tableSaved hrounds.synced hrounds.magic ?_ ?_
  · rw [hrounds.used]
    omega
  · -- the counter has reached its last value
    have hused : (s.fs.written index size).superblock.usedSectors.toNat ≤
        s.fs.superblock.usedSectors.toNat + s.fs.allocCount index size := by
      show (s.fs.superblock.usedSectors + .ofNat (s.fs.allocCount index size)).toNat ≤ _
      rw [UInt32.toNat_add, UInt32.toNat_ofNat']
      omega
    rw [hrounds.used]
    exact hused

/-- `Unmount` saves what is on the disk already. -/
theorem unmount_adds (hs : Saved s.fs (F.logged.disk s.world)) :
    Adds F (Between s.fs (unmount F.logged.toEnv s).fs) s.world
      (unmount F.logged.toEnv s).world := by
  unfold unmount
  split
  · simp only [saveInodeTable_fs, saveSuperblock_fs]
    have hsync : Synced s.fs (Function.update (F.logged.disk s.world) fsSuperblockSec
        (superblockSector s.fs.superblock)) := by
      refine ⟨Function.update_self _ _ _, fun sector hsec => ?_⟩
      rw [Function.update_of_ne (tableSector_ne_superblock hsec)]
      exact hs.synced.inodes sector hsec
    refine (saveSuperblock_adds ?_).trans (saveInodeTable_adds fun k _ => ?_)
    · exact Between.of_synced hsync hs.magic le_rfl
    · rw [saveSuperblock_fs, disk_saveSuperblock]
      exact @Between.of_tableSaved s.fs { s.fs with mounted := false } _ _ _ hsync hs.magic
        le_rfl le_rfl
  · exact Adds.refl _

/-- The counter does not overflow in a write that stays below `2 ^ 28`. -/
theorem SectorsBelow.used_lt {B : ℕ} {fs : FileSystem} {index : Fin 64} {size : UInt32}
    (h : fs.SectorsBelow B index size) (hB : B ≤ 2 ^ 28) (hext : Extents B fs) :
    fs.superblock.usedSectors.toNat + ((sectorCount size).toNat + 1) < 2 ^ 32 := by
  have hmark := mark_add_allocCount_le hext h
  have hle : (sectorCount size).toNat - 1 ≤ fs.allocCount index size := Nat.le_add_left _ _
  unfold mark at hmark
  omega

end Cuts

section Calls

variable {σ : Type} {F : FaithfulEnv σ} {s : Sys σ} {call : FsCall}

/-- **The cuts of every call but `Format`** are between the object before the call and the
object after it. -/
theorem cuts_between (h : Consistent (2 ^ 28) s.fs (F.disk s.world))
    (hcall : CallBelow (2 ^ 28) s call) (hcut : ∀ label, call ≠ .format label) :
    ∀ c ∈ cuts F s call, Between s.fs (fsStep F.toEnv s call).1.fs (F.disk c) := by
  obtain ⟨s', hs'⟩ : ∃ s' : Sys (σ × List σ), s' = ⟨s.fs, (s.world, [])⟩ := ⟨_, rfl⟩
  have hfs : s'.fs = s.fs := by rw [hs']
  have hsaved : Saved s'.fs (F.logged.disk s'.world) := by
    rw [hs']
    exact h.saved
  suffices hadds : Adds F (Between s.fs (fsStep F.toEnv s call).1.fs) s'.world
      (fsStep F.logged.toEnv s' call).1.world by
    intro c hc
    unfold cuts at hc
    rw [← hs'] at hc
    refine (hadds c hc).resolve_left fun hnil => ?_
    rw [hs'] at hnil
    cases hnil
  cases call with
  | format label => exact absurd rfl (hcut label)
  | mount => exact Adds.of_log_eq (mount_log s')
  | unmount =>
    have hun := unmount_adds hsaved
    have hsame : (unmount F.logged.toEnv s').fs = (unmount F.toEnv s).fs := by
      unfold unmount
      rw [hfs]
      split
      · simp only [saveInodeTable_fs, saveSuperblock_fs, hfs]
      · exact hfs
    rwa [hfs, hsame] at hun
  | createFile f =>
    rcases createFile_cases F.logged.toEnv s' (f := f) with ⟨-, hres⟩ | ⟨i, hm, hex, hfree, hres⟩
    · exact Adds.of_log_eq (congrArg (fun r => r.2.world.2) hres)
    · rw [hfs] at hm hex hfree
      rw [fs_createFile F.toEnv s hm hex hfree, fsStep, hres, hfs]
      exact save_adds (s := { s' with fs := s.fs.created i f }) (hfs ▸ hsaved) rfl h.saved.magic rfl
  | openFile f => exact Adds.refl _
  | deleteFile f =>
    rcases deleteFile_cases F.logged.toEnv s' (f := f) with ⟨-, hres⟩ | ⟨i, -, hlookup, hres⟩
    · exact Adds.of_log_eq (congrArg (fun r => r.2.world.2) hres)
    · rw [hfs] at hlookup
      rw [fs_deleteFile F.toEnv s hlookup, fsStep, hres, hfs]
      exact save_adds (s := { s' with fs := s.fs.deleted i }) (hfs ▸ hsaved) rfl h.saved.magic rfl
  | readFile inodeIndex out size => exact Adds.of_log_eq (readFile_log inodeIndex out size s')
  | writeFile inodeIndex buffer size =>
    rcases writeFile_cases F.logged.toEnv s' inodeIndex buffer size with
      ⟨-, hres⟩ | ⟨i, hm, rfl, hi, hres⟩
    · exact Adds.of_log_eq (congrArg (fun r => r.2.world.2) hres)
    · rw [hfs] at hm hi
      have hbelow := hcall hm i rfl hi
      have hdata := h.extents.onDataSectors (by decide) hi hbelow
      have hwrap := hbelow.used_lt le_rfl h.extents
      rw [fs_writeFile F.toEnv s F.malloc_some hm hi, fsStep, hres]
      rw [← hfs] at hdata hwrap ⊢
      exact writeInode_adds i buffer size hsaved hdata hwrap
  | fileExists f => exact Adds.refl _
  | getFileSize f => exact Adds.refl _

end Calls

end FileSystem
