/-
# Updates without memory

`CreateFile`, `DeleteFile` and `WriteFile` change the object in memory and then save it, each
save in a buffer of its own.  A save that gets no buffer is skipped without a word.  So whether
an update is all or nothing depends on the room in the heap: on one chunk for a buffer, and for
a file of several sectors on a second one while the first is held.
-/
import HydraOS.Crashes
import HydraOS.KernelHeap

open FileSystem BlockList

/-! ## Room for buffers -/

/-- There is a free chunk for `malloc(512)`. -/
def HasRoom (bs : List Block) : Prop := ∃ b ∈ bs, b.used = false ∧ 512 < b.size

instance (bs : List Block) : Decidable (HasRoom bs) :=
  inferInstanceAs (Decidable (∃ b ∈ bs, b.used = false ∧ 512 < b.size))

/-- The blocks after `malloc(512)`. -/
def afterBuffer (bs : List Block) : List Block :=
  match allocate 16 (fits 512) 512 bs with
  | none => bs
  | some (_, bs') => bs'

theorem allocate_eq_none_iff {bs : List Block} :
    allocate 16 (fits 512) 512 bs = none ↔ ¬ HasRoom bs := by
  constructor
  · rintro hnone ⟨b, hb, hfit⟩
    rcases forall_not_or_exists_first (fits 512) bs with hno | ⟨pre, c, post, rfl, hno, hc⟩
    · exact hno b hb (fits_iff.mpr hfit)
    · rw [allocate_append hno hc] at hnone
      cases hnone
  · intro hroom
    exact allocate_eq_none fun b hb hfit => hroom ⟨b, hb, fits_iff.mp hfit⟩

/-- A disk driver whose writes store: a sector number of 28 bits addresses its own sector, a
larger one none. -/
structure StoringDisk (δ : Type) extends DiskService δ where
  sectors : δ → UInt32 → Sector
  sectors_write28 : ∀ sector data d, sector ≤ 0x0FFFFFFF →
    sectors (write28 sector data d) = Function.update (sectors d) sector data
  sectors_write28_of_gt : ∀ sector data d, sector > 0x0FFFFFFF →
    sectors (write28 sector data d) = sectors d

/-- The plain disk is one. -/
def plainStoring : StoringDisk (UInt32 → Sector) where
  toDiskService := plainDisk
  sectors d := d
  sectors_write28 _ _ _ h := if_pos h
  sectors_write28_of_gt _ _ _ h := if_neg (UInt32.not_le.mpr h)

namespace StoringDisk

variable {δ : Type} (D : StoringDisk δ) {R : Region} {bs : List Block} {w : KernelWorld δ}

/-- The services of the file system with this disk. -/
def env : Env (KernelWorld δ) := (kernelEnv D.toDiskService).toEnv

/-- The sectors that a state of the kernel has on the disk. -/
def disk (w : KernelWorld δ) : UInt32 → Sector := D.sectors w.disk

/-- The heap is laid out as the blocks `bs`. -/
def LaidOut (R : Region) (bs : List Block) (w : KernelWorld δ) : Prop :=
  ∃ h, w.heap.heap = some h ∧ Layout R h bs

/-- `malloc(512)` on the traced heap. -/
theorem malloc_buffer_eq {k : TracedHeap} {h h' : Heap} {p : ℕ} (hheap : k.heap = some h)
    (hm : MemoryManager.malloc .wrapping h 512 = some (p, h')) :
    k.malloc 512 = (p, ⟨some h', .malloc 512 p :: k.trace⟩) := by
  have h512 : (512 : UInt32).toNat = 512 := rfl
  have hcall := @TracedHeap.malloc_eq k p h h' 512 hheap
  rw [h512] at hcall
  exact hcall hm

theorem malloc_full (hw : LaidOut R bs w) (hroom : ¬ HasRoom bs) :
    ∃ w', D.env.malloc w = (none, w') ∧ LaidOut R bs w' ∧ D.disk w' = D.disk w := by
  obtain ⟨h, hheap, hl⟩ := hw
  rcases malloc_for_a_while Arith.exact_wrapping hl 512 with ⟨hm, -⟩ | ⟨p, h', bs', -, ha, -⟩
  · have hcall := kernelEnv_malloc_eq D.toDiskService (w := w) (malloc_buffer_eq hheap hm)
    rw [if_pos rfl] at hcall
    exact ⟨_, hcall, ⟨h, rfl, hl⟩, rfl⟩
  · rw [allocate_eq_none_iff.mpr hroom] at ha
    cases ha

theorem malloc_room (hw : LaidOut R bs w) (hroom : HasRoom bs) :
    ∃ buffer w', D.env.malloc w = (some buffer, w') ∧ LaidOut R (afterBuffer bs) w' ∧
      D.disk w' = D.disk w ∧ ∀ b w'', b.ptr = buffer.ptr → LaidOut R (afterBuffer bs) w'' →
        LaidOut R bs (D.env.free b w'') := by
  obtain ⟨h, hheap, hl⟩ := hw
  rcases malloc_for_a_while Arith.exact_wrapping hl 512 with
    ⟨-, ha⟩ | ⟨p, h', bs', hm, ha, hl', hp, hblock, -, hfree⟩
  · exact absurd hroom (allocate_eq_none_iff.mp ha)
  · have hafter : afterBuffer bs = bs' := by rw [afterBuffer, ha]
    have hcall := kernelEnv_malloc_eq D.toDiskService (w := w) (malloc_buffer_eq hheap hm)
    rw [if_neg hp] at hcall
    rw [hafter]
    refine ⟨_, _, hcall, ⟨h', rfl, hl'⟩, rfl, ?_⟩
    rintro ⟨q, data⟩ w'' hq ⟨h'', hheap'', hl''⟩
    obtain rfl : q = p := hq
    obtain ⟨h₀, hf, hl₀⟩ := hfree _ (hl''.fill hblock data)
    refine ⟨h₀, ?_, hl₀⟩
    have hfreed : (D.env.free ⟨q, data⟩ w'').heap =
        TracedHeap.free q { w''.heap with heap := w''.heap.heap.map (TracedHeap.fill q data) } :=
      rfl
    rw [hfreed, TracedHeap.free, hheap'', Option.map_some, Option.bind_some, hf]

theorem disk_free (b : Buffer) : D.disk (D.env.free b w) = D.disk w := rfl

theorem disk_write28 {sector : UInt32} (b : Buffer) (h : sector ≤ 0x0FFFFFFF) :
    D.disk (D.env.write28 sector b w) = Function.update (D.disk w) sector b.data :=
  D.sectors_write28 sector b.data w.disk h

/-- A write changes at most the sector that it addresses. -/
theorem disk_write28_of_ne {sector x : UInt32} (b : Buffer) (h : x ≠ sector) :
    D.disk (D.env.write28 sector b w) x = D.disk w x := by
  by_cases hle : sector ≤ 0x0FFFFFFF
  · rw [disk_write28 D b hle, Function.update_of_ne h]
  · exact congrFun (D.sectors_write28_of_gt sector b.data w.disk (UInt32.not_le.mp hle)) x

theorem LaidOut.write28 (hw : LaidOut R bs w) (sector : UInt32) (b : Buffer) :
    LaidOut R bs (D.env.write28 sector b w) := hw

/-! ## Saving -/

variable {s : Sys (KernelWorld δ)}

/-- The superblock is saved if there is room, and otherwise nothing happens. -/
theorem saveSuperblock_room (hs : LaidOut R bs s.world) :
    LaidOut R bs (saveSuperblock D.env s).world ∧
      D.disk (saveSuperblock D.env s).world =
        if HasRoom bs then
          Function.update (D.disk s.world) fsSuperblockSec (superblockSector s.fs.superblock)
        else D.disk s.world := by
  rw [saveSuperblock]
  by_cases hroom : HasRoom bs
  · obtain ⟨buffer, w, hm, hw, hd, hfree⟩ := malloc_room D hs hroom
    rw [if_pos hroom, hm]
    refine ⟨hfree _ _ rfl hw, ?_⟩
    simp only
    rw [disk_free, disk_write28 D _ (by decide), hd]
  · obtain ⟨w, hm, hw, hd⟩ := malloc_full D hs hroom
    rw [if_neg hroom, hm]
    exact ⟨hw, hd⟩

/-- The rounds of `SaveInodeTable`. -/
theorem disk_saveInodeRounds (inodes : Fin 64 → Inode) (buffer : Buffer) {n : ℕ} (hn : n ≤ 8) :
    let st := forLoop (fun _ => true) (saveInodeRound D.env inodes) n 0 (buffer, w)
    (st.2.heap = w.heap ∧ st.1.ptr = buffer.ptr) ∧
      D.disk st.2 = tableSaved inodes n (D.disk w) := by
  induction n with
  | zero =>
    refine ⟨⟨rfl, rfl⟩, ?_⟩
    rw [tableSaved_zero]
    rfl
  | succ n ih =>
    obtain ⟨hkept, hdisk⟩ := ih (by omega)
    simp only
    rw [forLoop_succ_last, Nat.zero_add]
    refine ⟨hkept, ?_⟩
    refine (disk_write28 D _ (tableSector_le (by omega))).trans ?_
    rw [hdisk, tableSaved_succ (by omega)]

/-- The inode table is saved if there is room, and otherwise nothing happens. -/
theorem saveInodeTable_room (hs : LaidOut R bs s.world) :
    LaidOut R bs (saveInodeTable D.env s).world ∧
      D.disk (saveInodeTable D.env s).world =
        if HasRoom bs then tableSaved s.fs.inodes 8 (D.disk s.world) else D.disk s.world := by
  rw [saveInodeTable]
  by_cases hroom : HasRoom bs
  · obtain ⟨buffer, w, hm, hw, hd, hfree⟩ := malloc_room D hs hroom
    rw [if_pos hroom, hm]
    obtain ⟨⟨hheap, hptr⟩, hdisk⟩ := @disk_saveInodeRounds δ D w s.fs.inodes buffer 8 le_rfl
    refine ⟨hfree _ _ hptr ?_, ?_⟩
    · rw [LaidOut, hheap]
      exact hw
    · simp only
      rw [disk_free, hdisk, hd]
  · obtain ⟨w, hm, hw, hd⟩ := malloc_full D hs hroom
    rw [if_neg hroom, hm]
    exact ⟨hw, hd⟩

/-- `AllocateSector` counts the sector in memory also when the superblock is not saved. -/
theorem allocateSector_room (hs : LaidOut R bs s.world) :
    LaidOut R bs (allocateSector D.env s).2.world ∧
      D.disk (allocateSector D.env s).2.world =
        if HasRoom bs then
          Function.update (D.disk s.world) fsSuperblockSec
            (superblockSector (s.fs.bumpUsed 1).superblock)
        else D.disk s.world :=
  saveSuperblock_room D (s := { s with fs := s.fs.bumpUsed 1 }) hs

/-! ## The rounds of `WriteFile` -/

variable {index : Fin 64} {buffer : ℕ → UInt8} {size start : UInt32} {v : Sector} {n : ℕ}

/-- What sector 1 holds after `n` rounds of a write from the sector `start` on, when it held
`v` before and `fs` was the object: a round stores its data, after the superblock has been
saved if there was room for that. -/
def sectorOne (room : Prop) [Decidable room] (fs : FileSystem) (buffer : ℕ → UInt8)
    (size start : UInt32) (v : Sector) : ℕ → Sector
  | 0 => v
  | n + 1 =>
    if start + .ofNat n = fsSuperblockSec then chunk buffer size.toNat n
    else if n > 0 ∧ room then superblockSector (fs.bumpUsed n).superblock
    else sectorOne room fs buffer size start v n

/-- The rounds keep the heap and their buffer, and leave sector 1 as described. -/
theorem writeRounds_room {st : WriteState (KernelWorld δ)} (h0 : st.bytesWritten = 0)
    (hst : LaidOut R bs st.sys.world) (hstart : (st.sys.fs.inodes index).startSector = start)
    (hn : n ≤ (sectorCount size).toNat) :
    let st' := forLoop (fun _ => true) (writeRound D.env index buffer size) n 0 st
    (LaidOut R bs st'.sys.world ∧ st'.diskBuffer.ptr = st.diskBuffer.ptr) ∧
      D.disk st'.sys.world fsSuperblockSec =
        sectorOne (HasRoom bs) st.sys.fs buffer size start
          (D.disk st.sys.world fsSuperblockSec) n := by
  induction n with
  | zero => exact ⟨⟨hst, rfl⟩, rfl⟩
  | succ n ih =>
    obtain ⟨⟨hl, hptr⟩, hone⟩ := ih (by omega)
    obtain ⟨hfs, hbytes⟩ := writeRounds_upto D.env index buffer size st h0 (n := n) (by omega)
    simp only
    rw [forLoop_succ_last, Nat.zero_add]
    generalize forLoop (fun _ => true) (writeRound D.env index buffer size) n 0 st = st'
      at hl hptr hone hfs hbytes ⊢
    have hlt := lt_of_lt_sectorCount (show n < (sectorCount size).toNat by omega)
    obtain ⟨b, u, hb, -, hround⟩ := @writeRound_eq index buffer size n _ D.env st' (by omega)
      (by omega)
    have hptr' := (writeRound_ptr D.env index buffer size n st').trans hptr
    -- the state after the allocation of this round
    obtain ⟨t, ht⟩ : ∃ t, t = if n > 0 then (allocateSector D.env st'.sys).2 else st'.sys :=
      ⟨_, rfl⟩
    have halloc : LaidOut R bs t.world ∧ (t.fs.inodes index).startSector = start ∧
        D.disk t.world fsSuperblockSec =
          if n > 0 ∧ HasRoom bs then superblockSector (st.sys.fs.bumpUsed n).superblock
          else D.disk st'.sys.world fsSuperblockSec := by
      rw [ht]
      by_cases hpos : n > 0
      · obtain ⟨hl', hd⟩ := allocateSector_room D hl
        have hbump : st'.sys.fs.bumpUsed 1 = st.sys.fs.bumpUsed n := by
          rw [hfs, bumpUsed_bumpUsed]
          congr 1
          omega
        rw [if_pos hpos]
        refine ⟨hl', ?_, ?_⟩
        · rw [allocateSector_fs_eq, hbump]
          exact hstart
        · rw [hd, hbump]
          by_cases hroom : HasRoom bs
          · rw [if_pos hroom, if_pos ⟨hpos, hroom⟩, Function.update_self]
          · rw [if_neg hroom, if_neg fun h => hroom h.2]
      · rw [if_neg hpos, if_neg fun h => hpos h.1]
        refine ⟨hl, ?_, rfl⟩
        rw [hfs]
        exact hstart
    obtain ⟨hl', hstart', hd⟩ := halloc
    refine ⟨⟨?_, hptr'⟩, ?_⟩
    · rw [hround]
      simp only
      rw [← ht]
      exact LaidOut.write28 D hl' _ b
    · rw [hround]
      simp only
      rw [← ht, hstart', sectorOne]
      by_cases heq : start + .ofNat n = fsSuperblockSec
      · rw [if_pos heq, heq, disk_write28 D b (by decide), Function.update_self, hb]
      · rw [if_neg heq, disk_write28_of_ne D b (Ne.symm heq), hd, hone]

end StoringDisk

/-! ## Sector 1 after a write -/

namespace FileSystem

theorem superblockSector_inj {sb sb' : Superblock}
    (h : superblockSector sb = superblockSector sb') : sb = sb' := by
  have hsb : diskSuperblock (fun _ => superblockSector sb) = sb := diskSuperblock_of_sector rfl
  rw [h] at hsb
  exact hsb.symm.trans (diskSuperblock_of_sector rfl)

/-- Counting sectors changes the superblock. -/
theorem bumpUsed_superblock_ne {fs : FileSystem} {k : ℕ} (h0 : 0 < k) (hk : k < 2 ^ 32) :
    (fs.bumpUsed k).superblock ≠ fs.superblock := by
  intro h
  exact h0.ne' ((usedSectors_bumpUsed_iff hk).mp (congrArg Superblock.usedSectors h))

section SectorOne

open StoringDisk

variable {fs : FileSystem} {buffer : ℕ → UInt8} {size start : UInt32} {v : Sector} {n i j : ℕ}

/-- At most one sector of a write is sector 1. -/
theorem start_add_inj (hi : i < 2 ^ 32) (hj : j < 2 ^ 32) (h : start + .ofNat i = fsSuperblockSec)
    (h' : start + .ofNat j = fsSuperblockSec) : i = j := by
  have heq : UInt32.ofNat i = UInt32.ofNat j := UInt32.add_right_inj start |>.mp (h.trans h'.symm)
  have := congrArg UInt32.toNat heq
  rwa [toNat_ofNat_of_lt hi, toNat_ofNat_of_lt hj] at this

/-- Without room only the data can change sector 1. -/
theorem sectorOne_of_full {room : Prop} [Decidable room] (hroom : ¬ room) (n : ℕ) :
    (∃ i < n, start + .ofNat i = fsSuperblockSec ∧
        sectorOne room fs buffer size start v n = chunk buffer size.toNat i) ∨
      (∀ i < n, start + .ofNat i ≠ fsSuperblockSec) ∧
        sectorOne room fs buffer size start v n = v := by
  induction n with
  | zero => exact .inr ⟨fun i hi => absurd hi (by omega), rfl⟩
  | succ n ih =>
    rw [sectorOne]
    by_cases heq : start + .ofNat n = fsSuperblockSec
    · rw [if_pos heq]
      exact .inl ⟨n, by omega, heq, rfl⟩
    · rw [if_neg heq, if_neg fun h => hroom h.2]
      rcases ih with ⟨i, hi, hone, hsec⟩ | ⟨hno, hsec⟩
      · exact .inl ⟨i, by omega, hone, hsec⟩
      · refine .inr ⟨fun i hi => ?_, hsec⟩
        rcases Nat.lt_succ_iff_lt_or_eq.mp hi with hi | rfl
        · exact hno i hi
        · exact heq

/-- **When sector 1 ends as the last superblock**: the last round saves it, if there is more
than one, and does not write its data there; or the data written there are its very bytes. -/
theorem sectorOne_eq_iff {room : Prop} [Decidable room] (hn : n < 2 ^ 32) :
    sectorOne room fs buffer size start (superblockSector fs.superblock) n =
        superblockSector (fs.bumpUsed (n - 1)).superblock ↔
      (n = 0 ∨ (n = 1 ∨ room) ∧ start + .ofNat (n - 1) ≠ fsSuperblockSec) ∨
        ∃ i < n, start + .ofNat i = fsSuperblockSec ∧
          chunk buffer size.toNat i = superblockSector (fs.bumpUsed (n - 1)).superblock := by
  cases n with
  | zero =>
    have hzero : fs.bumpUsed (0 - 1) = fs := bumpUsed_zero
    rw [hzero]
    exact ⟨fun _ => .inl (.inl rfl), fun _ => rfl⟩
  | succ n =>
    rw [Nat.add_sub_cancel]
    by_cases heq : start + .ofNat n = fsSuperblockSec
    · -- the data of the last round
      rw [sectorOne, if_pos heq]
      constructor
      · exact fun h => .inr ⟨n, by omega, heq, h⟩
      · rintro ((h | ⟨-, h⟩) | ⟨i, hi, hone, hdata⟩)
        · omega
        · exact absurd heq h
        · rwa [start_add_inj (by omega) (by omega) hone heq] at hdata
    · by_cases hsave : n = 0 ∨ room
      · -- the superblock of the last round
        have hlast : sectorOne room fs buffer size start (superblockSector fs.superblock) (n + 1) =
            superblockSector (fs.bumpUsed n).superblock := by
          rw [sectorOne, if_neg heq]
          rcases Nat.eq_zero_or_pos n with rfl | hpos
          · rw [if_neg fun h => absurd h.1 (by omega), bumpUsed_zero]
            rfl
          · rw [if_pos ⟨hpos, hsave.resolve_left hpos.ne'⟩]
        refine iff_of_true hlast (.inl (.inr ⟨?_, heq⟩))
        exact hsave.imp_left fun h => by rw [h]
      · -- no save at all
        rw [not_or] at hsave
        have hne := @bumpUsed_superblock_ne fs n (by omega) (by omega)
        rcases @sectorOne_of_full fs buffer size start (superblockSector fs.superblock) room _
          hsave.2 (n + 1) with ⟨i, hi, hone, hsec⟩ | ⟨hno, hsec⟩
        · rw [hsec]
          constructor
          · exact fun h => .inr ⟨i, hi, hone, h⟩
          · rintro ((h | ⟨h | h, -⟩) | ⟨j, hj, hone', hdata⟩)
            · omega
            · omega
            · exact absurd h hsave.2
            · rwa [start_add_inj (by omega) (by omega) hone' hone] at hdata
        · rw [hsec]
          refine iff_of_false (fun h => hne (superblockSector_inj h).symm) ?_
          rintro ((h | ⟨h | h, -⟩) | ⟨j, hj, hone', -⟩)
          · omega
          · omega
          · exact hsave.2 h
          · exact hno j hj hone'

end SectorOne

end FileSystem

/-! ## All or nothing -/

/-- An update of the volume. -/
inductive Update where
  | createFile (filename : CStr)
  | deleteFile (filename : CStr)
  | writeFile (inodeIndex : ℤ) (buffer : ℕ → UInt8) (size : UInt32)

/-- The call of the file system. -/
def Update.call : Update → FsCall
  | .createFile filename => .createFile filename
  | .deleteFile filename => .deleteFile filename
  | .writeFile inodeIndex buffer size => .writeFile inodeIndex buffer size

/-- The call reports failure: `-1` or `false`. -/
def FsResult.Failed : FsResult → Prop
  | .index r => r = -1
  | .flag b => b = false
  | _ => False

section AllOrNothing

variable {δ : Type} (D : StoringDisk δ)

/-- **All or nothing**: the update reports success and the disk holds the updated superblock
and inode table, or it reports failure and has changed neither the superblock and the inode
table in memory nor any sector of the disk. -/
def AllOrNothing (s : Sys (KernelWorld δ)) (u : Update) : Prop :=
  let r := fsStep D.env s u.call
  (r.2.Failed → r.1.fs.superblock = s.fs.superblock ∧ r.1.fs.inodes = s.fs.inodes ∧
    D.disk r.1.world = D.disk s.world) ∧
  (¬ r.2.Failed → Synced r.1.fs (D.disk r.1.world))

/-- A write to an inode in use ends with the superblock in its sector: there is room to save
it in the last round, if that is not the first, and the data of that round go elsewhere; or the
data written to sector 1 are the bytes of the last superblock. -/
def SuperblockSaved (bs : List Block) (fs : FileSystem) (index : Fin 64) (buffer : ℕ → UInt8)
    (size : UInt32) : Prop :=
  let n := (sectorCount size).toNat
  let last := { fs.superblock with
    usedSectors := fs.superblock.usedSectors + .ofNat (fs.allocCount index size) }
  (n = 0 ∨ (n = 1 ∨ HasRoom (afterBuffer bs)) ∧
      fs.writeStart index + .ofNat (n - 1) ≠ fsSuperblockSec) ∨
    ∃ i < n, fs.writeStart index + .ofNat i = fsSuperblockSec ∧
      chunk buffer size.toNat i = superblockSector last

/-- **The condition**: the update is refused, or the heap has the room that it needs. -/
def Affordable (bs : List Block) (fs : FileSystem) : Update → Prop
  | .createFile f => fs.fileExists f = true ∨ fs.findFreeInode = none ∨ HasRoom bs
  | .deleteFile f => fs.lookup f = none ∨ HasRoom bs
  | .writeFile inodeIndex buffer size => ∀ index : Fin 64, (index.val : ℤ) = inodeIndex →
      fs.InUse index →
        if HasRoom bs then SuperblockSaved bs fs index buffer size
        else (fs.inodes index).startSector ≠ 0

variable {D} {R : Region} {bs : List Block} {s : Sys (KernelWorld δ)} {fs : FileSystem}

open StoringDisk

/-- A refused update changes nothing. -/
theorem refused_allOrNothing {u : Update} {r : FsResult} (hfail : r.Failed)
    (hres : fsStep D.env s u.call = (s, r)) : AllOrNothing D s u := by
  rw [AllOrNothing, hres]
  constructor
  · intro _
    exact ⟨rfl, rfl, rfl⟩
  · intro hok
    exact absurd hfail hok

/-- A disk whose table has just been saved. -/
theorem synced_tableSaved_iff {d : UInt32 → Sector} :
    Synced fs (tableSaved fs.inodes 8 d) ↔ d fsSuperblockSec = superblockSector fs.superblock := by
  constructor
  · intro h
    exact tableSaved_superblock.symm.trans h.superblock
  · intro h
    refine ⟨tableSaved_superblock.trans h, fun sector hsec => ?_⟩
    rw [tableSaved_tableSector hsec, if_pos hsec]

/-- Saving both after a change of the superblock. -/
theorem save_synced_iff (hs : LaidOut R bs s.world) (hsync : Synced fs (D.disk s.world))
    (hne : s.fs.superblock ≠ fs.superblock) :
    Synced s.fs (D.disk (saveSuperblock D.env (saveInodeTable D.env s)).world) ↔ HasRoom bs := by
  obtain ⟨hl, hd⟩ := saveInodeTable_room D hs
  obtain ⟨-, hd'⟩ := saveSuperblock_room D hl
  rw [hd', hd, saveInodeTable_fs]
  by_cases hroom : HasRoom bs
  · rw [if_pos hroom, if_pos hroom]
    refine iff_of_true ⟨Function.update_self _ _ _, fun sector hsec => ?_⟩ hroom
    rw [Function.update_of_ne (tableSector_ne_superblock hsec), tableSaved_tableSector hsec,
      if_pos hsec]
  · rw [if_neg hroom, if_neg hroom]
    refine iff_of_false (fun h => hne ?_) hroom
    exact superblockSector_inj (h.superblock.symm.trans hsync.superblock)

theorem createFile_iff (hs : LaidOut R bs s.world) (hm : s.fs.mounted = true)
    (hsync : Synced s.fs (D.disk s.world)) (f : CStr) :
    AllOrNothing D s (.createFile f) ↔ Affordable bs s.fs (.createFile f) := by
  rcases createFile_cases D.env s (f := f) with ⟨href, hres⟩ | ⟨i, -, hex, hfree, hres⟩
  · have hrefused : s.fs.fileExists f = true ∨ s.fs.findFreeInode = none := by
      rcases href with h | h
      · rw [hm] at h
        cases h
      · exact h
    refine iff_of_true ?_ (hrefused.imp_right .inl)
    apply @refused_allOrNothing δ D s _ (.index (-1)) rfl
    rw [Update.call, fsStep, hres]
  · have hne : (s.fs.created i f).superblock ≠ s.fs.superblock := by
      intro h
      have hcount : s.fs.superblock.inodeCount + 1 = s.fs.superblock.inodeCount :=
        congrArg Superblock.inodeCount h
      simp at hcount
    have hnot : ¬ ((i.val : ℤ) = -1) := by omega
    have hsave := save_synced_iff (s := { s with fs := s.fs.created i f }) hs hsync hne
    rw [AllOrNothing, Update.call, fsStep, hres, Affordable, hex, hfree]
    simp only [FsResult.Failed, hnot, false_implies, true_and, not_false_eq_true, true_implies,
      saveSuperblock_fs, saveInodeTable_fs, Bool.false_eq_true, reduceCtorEq, false_or]
    exact hsave

theorem deleteFile_iff (hs : LaidOut R bs s.world) (hsync : Synced s.fs (D.disk s.world))
    (f : CStr) : AllOrNothing D s (.deleteFile f) ↔ Affordable bs s.fs (.deleteFile f) := by
  rcases deleteFile_cases D.env s (f := f) with ⟨hnone, hres⟩ | ⟨i, -, hlookup, hres⟩
  · refine iff_of_true ?_ (.inl hnone)
    apply @refused_allOrNothing δ D s _ (.flag false) rfl
    rw [Update.call, fsStep, hres]
  · have hne : (s.fs.deleted i).superblock ≠ s.fs.superblock := by
      intro h
      have hcount : s.fs.superblock.inodeCount - 1 = s.fs.superblock.inodeCount :=
        congrArg Superblock.inodeCount h
      simp at hcount
    have hsave := save_synced_iff (s := { s with fs := s.fs.deleted i }) hs hsync hne
    rw [AllOrNothing, Update.call, fsStep, hres, Affordable, hlookup]
    simp only [FsResult.Failed, Bool.true_eq_false, false_implies, true_and, not_false_eq_true,
      true_implies, saveSuperblock_fs, saveInodeTable_fs, reduceCtorEq, false_or]
    exact hsave

/-- The first allocation of `WriteFile`. -/
theorem firstSector_room (hs : LaidOut R bs s.world) (hsync : Synced s.fs (D.disk s.world))
    (index : Fin 64) :
    LaidOut R bs (firstSector D.env index s).world ∧
      (HasRoom bs → D.disk (firstSector D.env index s).world fsSuperblockSec =
        superblockSector (firstSector D.env index s).fs.superblock) := by
  rw [firstSector]
  split
  · obtain ⟨hl, hd⟩ := allocateSector_room D hs
    refine ⟨hl, fun hroom => ?_⟩
    rw [if_pos hroom] at hd
    simp only [setInode]
    rw [hd, Function.update_self, allocateSector_fs_eq]
  · exact ⟨hs, fun _ => hsync.superblock⟩

/-- What a write counts in all. -/
theorem firstSector_bumpUsed (index : Fin 64) (size : UInt32) :
    ((firstSector D.env index s).fs.bumpUsed ((sectorCount size).toNat - 1)).superblock =
      (s.fs.bumpUsed (s.fs.allocCount index size)).superblock := by
  rw [firstSector_fs, allocCount]
  split
  · rw [← bumpUsed_bumpUsed]
    rfl
  · rw [Nat.zero_add]

/-- Without room for its buffer, `WriteFile` fails; by then it has counted a sector if the file
had none. -/
theorem writeInode_full (hs : LaidOut R bs s.world) (hsync : Synced s.fs (D.disk s.world))
    (hroom : ¬ HasRoom bs) (index : Fin 64) (buffer : ℕ → UInt8) (size : UInt32) :
    let r := writeInode D.env index buffer size s
    r.1 = -1 ∧ ((r.2.fs.superblock = s.fs.superblock ∧ r.2.fs.inodes = s.fs.inodes ∧
      D.disk r.2.world = D.disk s.world) ↔ (s.fs.inodes index).startSector ≠ 0) := by
  obtain ⟨hl, -⟩ := firstSector_room hs hsync index
  obtain ⟨w, hm, -, hd⟩ := malloc_full D hl hroom
  simp only [writeInode, hm, true_and]
  by_cases hstart : (s.fs.inodes index).startSector = 0
  · have hne := @bumpUsed_superblock_ne s.fs 1 (by omega) (by omega)
    refine iff_of_false (fun h => hne ?_) (fun h => h hstart)
    rw [firstSector_fs, if_pos hstart] at h
    exact h.1
  · have hfirst : firstSector D.env index s = s := by rw [firstSector, if_neg hstart]
    rw [hfirst] at hd ⊢
    exact iff_of_true ⟨rfl, rfl, hd⟩ hstart

/-- A write that goes through does not report `-1`. -/
theorem toInt32_storedLength_ne (size : UInt32) : toInt32 (.ofNat (storedLength size)) ≠ -1 := by
  have hlt := size.toNat_lt
  have hle := storedLength_le size
  rw [toInt32, toNat_ofNat_of_lt (by omega)]
  split
  · omega
  · -- a size of which rounding up to sectors does not wrap
    rw [storedLength]
    split <;> omega

/-- With room for its buffer, `WriteFile` succeeds and saves the inode table; the superblock is
on the disk if sector 1 ends as it should. -/
theorem writeInode_room (hs : LaidOut R bs s.world) (hsync : Synced s.fs (D.disk s.world))
    (hroom : HasRoom bs) (index : Fin 64) (buffer : ℕ → UInt8) (size : UInt32) :
    let r := writeInode D.env index buffer size s
    r.1 ≠ -1 ∧ (Synced r.2.fs (D.disk r.2.world) ↔
      SuperblockSaved bs s.fs index buffer size) := by
  obtain ⟨hl, hone⟩ := firstSector_room hs hsync index
  obtain ⟨b, w, hm, hw, hd, hfree⟩ := malloc_room D hl hroom
  obtain ⟨hres, hfs⟩ := (writeInode_cases D.env index buffer size s).resolve_left fun h => by
    rw [hm] at h
    cases h.1
  obtain ⟨⟨hl', hptr⟩, hsector⟩ := @writeRounds_room δ D R (afterBuffer bs) index buffer
    size (s.fs.writeStart index) (sectorCount size).toNat
    ⟨⟨(firstSector D.env index s).fs, w⟩, b, 0⟩ rfl hw (firstSector_startSector D.env index s) le_rfl
  have hcount := toNat_sectorCount_le size
  rw [hd, hone hroom] at hsector
  refine ⟨?_, ?_⟩
  · rw [hres]
    exact toInt32_storedLength_ne size
  · have hlast := @sectorOne_eq_iff (firstSector D.env index s).fs buffer size
      (s.fs.writeStart index) _ (HasRoom (afterBuffer bs)) _ (hcount.trans_lt (by decide))
    rw [← hsector, firstSector_bumpUsed] at hlast
    rw [hfs]
    simp only [writeInode, hm] at hfs ⊢
    rw [saveInodeTable_fs] at hfs
    generalize forLoop (fun _ => true) (writeRound D.env index buffer size)
      (sectorCount size).toNat 0 ⟨⟨(firstSector D.env index s).fs, w⟩, b, 0⟩ = st
      at hl' hptr hlast hfs ⊢
    have hend : LaidOut R bs (D.env.free st.diskBuffer st.sys.world) := hfree _ _ hptr hl'
    obtain ⟨-, hdisk⟩ := saveInodeTable_room D
      (s := ⟨_, D.env.free st.diskBuffer st.sys.world⟩) hend
    rw [hdisk, if_pos hroom, hfs, disk_free, synced_tableSaved_iff]
    exact hlast

theorem writeFile_iff (hs : LaidOut R bs s.world) (hm : s.fs.mounted = true)
    (hsync : Synced s.fs (D.disk s.world)) (inodeIndex : ℤ) (buffer : ℕ → UInt8) (size : UInt32) :
    AllOrNothing D s (.writeFile inodeIndex buffer size) ↔
      Affordable bs s.fs (.writeFile inodeIndex buffer size) := by
  rcases writeFile_cases D.env s inodeIndex buffer size with ⟨href, hres⟩ | ⟨i, -, rfl, hi, hres⟩
  · have hnone : ∀ i : Fin 64, (i.val : ℤ) = inodeIndex → ¬ s.fs.InUse i :=
      href.resolve_left (by rw [hm]; decide)
    refine iff_of_true ?_ fun index hindex huse => absurd huse (hnone index hindex)
    apply @refused_allOrNothing δ D s _ (.index (-1)) rfl
    rw [Update.call, fsStep, hres]
  · have hcond : Affordable bs s.fs (.writeFile i.val buffer size) ↔
        if HasRoom bs then SuperblockSaved bs s.fs i buffer size
        else (s.fs.inodes i).startSector ≠ 0 := by
      constructor
      · exact fun h => h i rfl hi
      · intro h index hindex _
        obtain rfl : index = i := by
          apply Fin.ext
          exact_mod_cast hindex
        exact h
    rw [hcond, AllOrNothing, Update.call, fsStep, hres]
    by_cases hroom : HasRoom bs
    · obtain ⟨hok, hiff⟩ := writeInode_room hs hsync hroom i buffer size
      rw [if_pos hroom, ← hiff]
      constructor
      · intro h
        exact h.2 hok
      · intro h
        exact ⟨fun hfail => absurd hfail hok, fun _ => h⟩
    · obtain ⟨hfail, hiff⟩ := writeInode_full hs hsync hroom i buffer size
      rw [if_neg hroom, ← hiff]
      constructor
      · intro h
        exact h.1 hfail
      · intro h
        exact ⟨fun _ => h, fun hok => absurd hfail hok⟩

end AllOrNothing

/-- **Updates when memory may run out.**  On a mounted volume whose metadata are on the disk,
however the heap is laid out, an update is all or nothing exactly if it is affordable. -/
theorem all_or_nothing_iff {δ : Type} (D : StoringDisk δ) {R : Region} {h : Heap}
    {bs : List Block} {s : Sys (KernelWorld δ)} (hheap : s.world.heap.heap = some h)
    (hl : Layout R h bs) (hm : s.fs.mounted = true) (hsync : Synced s.fs (D.disk s.world))
    (u : Update) : AllOrNothing D s u ↔ Affordable bs s.fs u := by
  have hs : StoringDisk.LaidOut R bs s.world := ⟨h, hheap, hl⟩
  cases u with
  | createFile f => exact createFile_iff hs hm hsync f
  | deleteFile f => exact deleteFile_iff hs hsync f
  | writeFile inodeIndex buffer size => exact writeFile_iff hs hm hsync inodeIndex buffer size

/-- The disk that holds the metadata of a volume. -/
def imageOf (fs : FileSystem) : UInt32 → Sector :=
  tableSaved fs.inodes 8 fun _ => superblockSector fs.superblock

/-- The small kernel with the volume `oneFile` on a disk that holds its metadata. -/
def smallKernel : Sys (KernelWorld (UInt32 → Sector)) :=
  ⟨oneFile 5, ⟨⟨some smallHeap, []⟩, imageOf (oneFile 5)⟩⟩

theorem synced_smallKernel : Synced smallKernel.fs (plainStoring.disk smallKernel.world) :=
  synced_tableSaved_iff.mpr rfl

/-- A heap of 256 bytes has no room for a buffer.  A write to the file, which has its sector,
fails and changes nothing. -/
theorem all_or_nothing_smallKernel :
    AllOrNothing plainStoring smallKernel (.writeFile 0 (fun _ => 7) 5) := by
  refine (all_or_nothing_iff plainStoring rfl layout_smallHeap rfl synced_smallKernel _).mpr ?_
  intro index hindex _
  obtain rfl : index = 0 := by
    apply Fin.ext
    exact Int.ofNat_inj.mp hindex
  rw [if_neg (by decide)]
  decide

/-- On the same heap a new file is reported as created, and is not on the disk. -/
theorem createFile_lost :
    smallKernel.fs.mounted = true ∧ Synced smallKernel.fs (plainStoring.disk smallKernel.world) ∧
      (fsStep plainStoring.env smallKernel (.createFile ⟨[98], by decide⟩)).2 = .index 1 ∧
      ¬ AllOrNothing plainStoring smallKernel (.createFile ⟨[98], by decide⟩) := by
  refine ⟨rfl, synced_smallKernel, ?_, fun h => ?_⟩
  · rfl
  · have hcond := (createFile_iff ⟨smallHeap, rfl, layout_smallHeap⟩ rfl synced_smallKernel _).mp h
    rcases hcond with h | h | h
    · exact absurd h (by decide)
    · exact absurd h (by decide)
    · exact absurd h (by decide)
