/-
# The storage stack

The file system asks the heap for buffers and the disk driver for sectors, and the results
about it assume services that never fail.  Here the services are the kernel's own: buffers
from the chunk list of `memory.cpp`, sectors through the port registers of a channel with two
drives.  As long as the heap has room for two buffers at a time, the file system on this stack
cannot be told from the file system on any faithful disk.
-/
import HydraOS.FileData
import HydraOS.PioDrive
import HydraOS.SuccessMessages
import HydraOS.SyscallHeap

open FileSystem BlockList

/-! ## One environment in the place of another -/

section Simulation

variable {σ τ ι : Type}

/-- **The environment `E` does what the environment `F` does.**  In related states `n` more
buffers can be had.  Fresh buffers may differ; a sector that is read makes them equal. -/
structure Env.Simulates (E : Env σ) (F : Env τ) (R : ℕ → ι → σ → τ → Prop) : Prop where
  malloc : ∀ {n i w v}, R (n + 1) i w v → ∃ b w' c v' j, E.malloc w = (some b, w') ∧
    F.malloc v = (some c, v') ∧ R n j w' v' ∧ ∀ b' w'' c' v'', b'.ptr = b.ptr → R n j w'' v'' →
      R (n + 1) i (E.free b' w'') (F.free c' v'')
  read28 : ∀ {n i w v} sector b c, sector ≤ 0x0FFFFFFF → R n i w v →
    (E.read28 sector b w).1.data = (F.read28 sector c v).1.data ∧
      R n i (E.read28 sector b w).2 (F.read28 sector c v).2
  read28_ptr : ∀ sector b w, (E.read28 sector b w).1.ptr = b.ptr
  write28 : ∀ {n i w v} sector b c, b.data = c.data → R n i w v →
    R n i (E.write28 sector b w) (F.write28 sector c v)

namespace FileSystem

/-- The two objects are equal, and their worlds related. -/
structure Agree (R : ℕ → ι → σ → τ → Prop) (n : ℕ) (i : ι) (s : Sys σ) (t : Sys τ) : Prop where
  fs : s.fs = t.fs
  world : R n i s.world t.world

variable {E : Env σ} {F : Env τ} {R : ℕ → ι → σ → τ → Prop} {n : ℕ} {i : ι} {s : Sys σ} {t : Sys τ}

/-! ### Superblock and inode table -/

theorem loadSuperblock_agree (hE : E.Simulates F R) (h : Agree R (n + 1) i s t) :
    Agree R (n + 1) i (loadSuperblock E s) (loadSuperblock F t) := by
  obtain ⟨b, w, c, v, j, hm, hm', hw, hfree⟩ := hE.malloc h.world
  obtain ⟨hdata, hread⟩ := hE.read28 fsSuperblockSec b c (by decide) hw
  rw [loadSuperblock, loadSuperblock, hm, hm']
  refine ⟨?_, hfree _ _ _ _ (hE.read28_ptr _ _ _) hread⟩
  simp only
  rw [h.fs, hdata]

theorem saveSuperblock_agree (hE : E.Simulates F R) (h : Agree R (n + 1) i s t) :
    Agree R (n + 1) i (saveSuperblock E s) (saveSuperblock F t) := by
  obtain ⟨b, w, c, v, j, hm, hm', hw, hfree⟩ := hE.malloc h.world
  rw [saveSuperblock, saveSuperblock, hm, hm', h.fs]
  exact ⟨rfl, hfree _ _ _ _ rfl (hE.write28 _ _ _ rfl hw)⟩

theorem loadInodeTable_agree (hE : E.Simulates F R) (h : Agree R (n + 1) i s t) :
    Agree R (n + 1) i (loadInodeTable E s) (loadInodeTable F t) := by
  obtain ⟨b, w, c, v, j, hm, hm', hw, hfree⟩ := hE.malloc h.world
  rw [loadInodeTable, loadInodeTable, hm, hm', h.fs]
  -- the inodes are equal, the pointer is that of the buffer, and the worlds are related
  have hloop := @forLoop_related _ _ (fun _ => true) (loadInodeRound E) 8 0
    (t.fs.inodes, b, w) (fun _ => true) (loadInodeRound F) (t.fs.inodes, c, v)
    (fun x y => x.1 = y.1 ∧ x.2.1.ptr = b.ptr ∧ R n j x.2.2 y.2.2) ⟨rfl, rfl, hw⟩
    (fun _ _ _ => rfl) (fun k x y _ hk hxy => by
      obtain ⟨hinodes, hptr, hworld⟩ := hxy
      obtain ⟨hdata, hread⟩ := hE.read28 (tableSector k) x.2.1 y.2.1 (tableSector_le hk) hworld
      refine ⟨?_, (hE.read28_ptr _ _ _).trans hptr, hread⟩
      rw [loadInodeRound, loadInodeRound]
      simp only
      rw [hinodes, hdata])
  obtain ⟨hinodes, hptr, hworld⟩ := hloop
  refine ⟨?_, hfree _ _ _ _ hptr hworld⟩
  simp only
  rw [hinodes]

theorem saveInodeTable_agree (hE : E.Simulates F R) (h : Agree R (n + 1) i s t) :
    Agree R (n + 1) i (saveInodeTable E s) (saveInodeTable F t) := by
  obtain ⟨b, w, c, v, j, hm, hm', hw, hfree⟩ := hE.malloc h.world
  rw [saveInodeTable, saveInodeTable, hm, hm', h.fs]
  have hloop := @forLoop_related _ _ (fun _ => true) (saveInodeRound E t.fs.inodes) 8 0 (b, w)
    (fun _ => true) (saveInodeRound F t.fs.inodes) (c, v)
    (fun x y => x.1.ptr = b.ptr ∧ R n j x.2 y.2) ⟨rfl, hw⟩ (fun _ _ _ => rfl)
    (fun k x y _ _ hxy => ⟨hxy.1, hE.write28 _ _ _ rfl hxy.2⟩)
  exact ⟨rfl, hfree _ _ _ _ hloop.1 hloop.2⟩

theorem allocateSector_agree (hE : E.Simulates F R) (h : Agree R (n + 1) i s t) :
    Agree R (n + 1) i (allocateSector E s).2 (allocateSector F t).2 := by
  rw [allocateSector, allocateSector]
  apply saveSuperblock_agree hE
  refine ⟨?_, h.world⟩
  simp only
  rw [h.fs]

/-! ### File contents -/

/-- The sectors of a file are below the limit of the drive. -/
def FileBelow (inode : Inode) : Prop :=
  inode.startSector ≠ 0 → ∀ k < (sectorCount inode.size).toNat, inode.startSector.toNat + k < 2 ^ 28

theorem readInode_agree (hE : E.Simulates F R) {inode : Inode} (hbelow : FileBelow inode)
    (out : ℕ → UInt8) (size : UInt32) (h : Agree R (n + 1) i s t) :
    (readInode E inode out size s).1 = (readInode F inode out size t).1 ∧
      Agree R (n + 1) i (readInode E inode out size s).2 (readInode F inode out size t).2 := by
  rw [readInode, readInode]
  split
  · next hcond =>
    obtain ⟨b, w, c, v, j, hm, hm', hw, hfree⟩ := hE.malloc h.world
    have hlow := hbelow (UInt32.pos_iff_ne_zero.mp hcond.2)
    rw [hm, hm']
    have hloop := @forLoop_related _ _ (fun st => decide (st.bytesRead < size))
      (readRound E inode size) (sectorCount inode.size).toNat 0 ⟨w, b, out, 0⟩
      (fun st => decide (st.bytesRead < size)) (readRound F inode size) ⟨v, c, out, 0⟩
      (fun x y => x.out = y.out ∧ x.bytesRead = y.bytesRead ∧ x.diskBuffer.ptr = b.ptr ∧
        R n j x.world y.world) ⟨rfl, rfl, rfl, hw⟩ (fun x y hxy => by rw [hxy.2.1])
      (fun k x y _ hk hxy => by
        obtain ⟨hout, hbytes, hptr, hworld⟩ := hxy
        have hk' := hlow k (by omega)
        have hsector : inode.startSector + .ofNat k ≤ 0x0FFFFFFF := by
          rw [le_limit_iff, toNat_add_ofNat (by omega)]
          exact hk'
        obtain ⟨hdata, hread⟩ := hE.read28 _ x.diskBuffer y.diskBuffer hsector hworld
        refine ⟨?_, ?_, (hE.read28_ptr _ _ _).trans hptr, hread⟩
        · rw [readRound, readRound]
          simp only
          rw [hout, hbytes, hdata]
        · rw [readRound, readRound]
          simp only
          rw [hbytes])
    obtain ⟨hout, hbytes, hptr, hworld⟩ := hloop
    refine ⟨?_, h.fs, hfree _ _ _ _ hptr hworld⟩
    simp only
    rw [hout, hbytes]
  · exact ⟨rfl, h⟩

theorem firstSector_agree (hE : E.Simulates F R) (index : Fin 64) (h : Agree R (n + 1) i s t) :
    Agree R (n + 1) i (firstSector E index s) (firstSector F index t) := by
  have halloc := allocateSector_agree hE h
  rw [firstSector, firstSector, h.fs]
  split
  · refine ⟨?_, halloc.world⟩
    simp only [allocateSector_fst]
    rw [halloc.fs, h.fs]
  · exact h

/-- One round of `WriteFile` in both, with the buffers of the call still held. -/
theorem writeRound_agree (hE : E.Simulates F R) (index : Fin 64) (buffer : ℕ → UInt8)
    (size : UInt32) (k : ℕ) {st : WriteState σ} {st' : WriteState τ}
    (hbytes : st.bytesWritten = st'.bytesWritten) (h : Agree R (n + 1) i st.sys st'.sys) :
    (writeRound E index buffer size k st).bytesWritten =
        (writeRound F index buffer size k st').bytesWritten ∧
      Agree R (n + 1) i (writeRound E index buffer size k st).sys
        (writeRound F index buffer size k st').sys := by
  have hsys : Agree R (n + 1) i (if k > 0 then (allocateSector E st.sys).2 else st.sys)
      (if k > 0 then (allocateSector F st'.sys).2 else st'.sys) := by
    split
    · exact allocateSector_agree hE h
    · exact h
  rw [writeRound, writeRound]
  simp only
  rw [hbytes, hsys.fs]
  exact ⟨rfl, rfl, hE.write28 _ _ _ rfl hsys.world⟩

theorem writeInode_agree (hE : E.Simulates F R) (index : Fin 64) (buffer : ℕ → UInt8)
    (size : UInt32) (h : Agree R (n + 2) i s t) :
    (writeInode E index buffer size s).1 = (writeInode F index buffer size t).1 ∧
      Agree R (n + 2) i (writeInode E index buffer size s).2
        (writeInode F index buffer size t).2 := by
  have hfirst := firstSector_agree hE index h
  obtain ⟨b, w, c, v, j, hm, hm', hw, hfree⟩ := hE.malloc hfirst.world
  rw [writeInode, writeInode]
  simp only [hm, hm']
  have hloop := @forLoop_related _ _ (fun _ => true) (writeRound E index buffer size)
    (sectorCount size).toNat 0 ⟨⟨(firstSector E index s).fs, w⟩, b, 0⟩ (fun _ => true)
    (writeRound F index buffer size) ⟨⟨(firstSector F index t).fs, v⟩, c, 0⟩
    (fun x y => x.diskBuffer.ptr = b.ptr ∧ x.bytesWritten = y.bytesWritten ∧
      Agree R (n + 1) j x.sys y.sys) ⟨rfl, rfl, hfirst.fs, hw⟩ (fun _ _ _ => rfl)
    (fun k x y _ _ hxy => ⟨(writeRound_ptr E index buffer size k x).trans hxy.1,
      writeRound_agree hE index buffer size k hxy.2.1 hxy.2.2⟩)
  obtain ⟨hptr, hbytes, hsys⟩ := hloop
  rw [hbytes]
  refine ⟨rfl, saveInodeTable_agree hE ⟨?_, hfree _ _ _ _ hptr hsys.world⟩⟩
  simp only
  rw [hsys.fs]

/-! ### Every call -/

/-- If the call reads a file, then its sectors are below the limit of the drive. -/
def ReadsBelow (fs : FileSystem) : FsCall → Prop
  | .readFile inodeIndex _ _ =>
    fs.mounted → ∀ i : Fin 64, (i.val : ℤ) = inodeIndex → fs.InUse i → FileBelow (fs.inodes i)
  | _ => True

theorem mount_agree (hE : E.Simulates F R) (h : Agree R (n + 1) i s t) :
    (mount E s).1 = (mount F t).1 ∧ Agree R (n + 1) i (mount E s).2 (mount F t).2 := by
  have hload := loadSuperblock_agree hE h
  rw [mount, mount]
  simp only
  rw [hload.fs]
  split
  · exact ⟨rfl, hload⟩
  · have htable := loadInodeTable_agree hE hload
    refine ⟨rfl, ?_, htable.world⟩
    simp only
    rw [htable.fs]

theorem save_agree (hE : E.Simulates F R) (h : Agree R (n + 1) i s t) :
    Agree R (n + 1) i (saveInodeTable E (saveSuperblock E s))
      (saveInodeTable F (saveSuperblock F t)) :=
  saveInodeTable_agree hE (saveSuperblock_agree hE h)

/-- Two equal objects, changed in the same way. -/
theorem Agree.with (h : Agree R n i s t) (fs : FileSystem) :
    Agree R n i { s with fs := fs } { t with fs := fs } := ⟨rfl, h.world⟩

theorem createFile_agree (hE : E.Simulates F R) (filename : CStr) (h : Agree R (n + 1) i s t) :
    (createFile E filename s).1 = (createFile F filename t).1 ∧
      Agree R (n + 1) i (createFile E filename s).2 (createFile F filename t).2 := by
  rw [createFile, createFile, h.fs]
  split
  · exact ⟨rfl, h⟩
  · split
    · exact ⟨rfl, h⟩
    · split
      · exact ⟨rfl, h⟩
      · exact ⟨rfl, saveSuperblock_agree hE (saveInodeTable_agree hE (h.with _))⟩

theorem deleteFile_agree (hE : E.Simulates F R) (filename : CStr) (h : Agree R (n + 1) i s t) :
    (deleteFile E filename s).1 = (deleteFile F filename t).1 ∧
      Agree R (n + 1) i (deleteFile E filename s).2 (deleteFile F filename t).2 := by
  rw [deleteFile, deleteFile, h.fs]
  split
  · exact ⟨rfl, h⟩
  · split
    · exact ⟨rfl, h⟩
    · exact ⟨rfl, saveSuperblock_agree hE (saveInodeTable_agree hE (h.with _))⟩

theorem readFile_agree (hE : E.Simulates F R) {inodeIndex : ℤ} {out : ℕ → UInt8} {size : UInt32}
    (hbelow : ReadsBelow t.fs (.readFile inodeIndex out size)) (h : Agree R (n + 1) i s t) :
    (readFile E inodeIndex out size s).1 = (readFile F inodeIndex out size t).1 ∧
      Agree R (n + 1) i (readFile E inodeIndex out size s).2
        (readFile F inodeIndex out size t).2 := by
  rcases readFile_cases F t inodeIndex out size with ⟨hno, ht⟩ | ⟨k, hm, rfl, hi, ht⟩
  · rcases readFile_cases E s inodeIndex out size with ⟨-, hs⟩ | ⟨k, hm, hk, hi, -⟩
    · rw [hs, ht]
      exact ⟨rfl, h⟩
    · rw [h.fs] at hm hi
      exact absurd hno (not_or.mpr ⟨by simp [hm], fun hno => hno k hk hi⟩)
  · rw [readFile_of_inUse E s (h.fs ▸ hm) (h.fs ▸ hi), ht, h.fs]
    exact readInode_agree hE (hbelow hm k rfl hi) out size h

theorem writeFile_agree (hE : E.Simulates F R) (inodeIndex : ℤ) (buffer : ℕ → UInt8)
    (size : UInt32) (h : Agree R (n + 2) i s t) :
    (writeFile E inodeIndex buffer size s).1 = (writeFile F inodeIndex buffer size t).1 ∧
      Agree R (n + 2) i (writeFile E inodeIndex buffer size s).2
        (writeFile F inodeIndex buffer size t).2 := by
  rcases writeFile_cases F t inodeIndex buffer size with ⟨hno, ht⟩ | ⟨k, hm, rfl, hi, ht⟩
  · rcases writeFile_cases E s inodeIndex buffer size with ⟨-, hs⟩ | ⟨k, hm, hk, hi, -⟩
    · rw [hs, ht]
      exact ⟨rfl, h⟩
    · rw [h.fs] at hm hi
      exact absurd hno (not_or.mpr ⟨by simp [hm], fun hno => hno k hk hi⟩)
  · rw [writeFile_of_inUse E s (h.fs ▸ hm) (h.fs ▸ hi), ht]
    exact writeInode_agree hE k buffer size h

/-- **One call.** -/
theorem fsStep_agree (hE : E.Simulates F R) {call : FsCall} (hbelow : ReadsBelow t.fs call)
    (h : Agree R (n + 2) i s t) : (fsStep E s call).2 = (fsStep F t call).2 ∧
      Agree R (n + 2) i (fsStep E s call).1 (fsStep F t call).1 := by
  cases call with
  | format label =>
    refine ⟨rfl, save_agree hE ?_⟩
    rw [h.fs]
    exact h.with _
  | mount =>
    obtain ⟨hres, hnext⟩ := mount_agree hE h
    exact ⟨congrArg FsResult.flag hres, hnext⟩
  | unmount =>
    refine ⟨rfl, ?_⟩
    rw [fsStep, fsStep, unmount, unmount, h.fs]
    split
    · have hsave := save_agree hE h
      simp only
      rw [hsave.fs]
      exact hsave.with _
    · exact h
  | createFile filename =>
    obtain ⟨hres, hnext⟩ := createFile_agree hE filename h
    exact ⟨congrArg FsResult.index hres, hnext⟩
  | openFile filename =>
    rw [fsStep, fsStep, h.fs]
    exact ⟨rfl, h⟩
  | deleteFile filename =>
    obtain ⟨hres, hnext⟩ := deleteFile_agree hE filename h
    exact ⟨congrArg FsResult.flag hres, hnext⟩
  | readFile inodeIndex buffer size =>
    obtain ⟨hres, hnext⟩ := readFile_agree hE hbelow h
    exact ⟨congrArg FsResult.bytes hres, hnext⟩
  | writeFile inodeIndex buffer size =>
    obtain ⟨hres, hnext⟩ := writeFile_agree hE inodeIndex buffer size h
    exact ⟨congrArg FsResult.index hres, hnext⟩
  | fileExists filename =>
    rw [fsStep, fsStep, h.fs]
    exact ⟨rfl, h⟩
  | getFileSize filename =>
    rw [fsStep, fsStep, h.fs]
    exact ⟨rfl, h⟩

end FileSystem

end Simulation

/-! ## Room for buffers -/

/-- `n` buffers of 512 bytes can be had from the blocks, one after the other. -/
def BufferRoom : ℕ → List Block → Prop
  | 0, _ => True
  | n + 1, bs => ∃ p bs', allocate 16 (fits 512) 512 bs = some (p, bs') ∧ BufferRoom n bs'

/-- One large free block is enough, whatever the other blocks are. -/
theorem bufferRoom_of_free {n : ℕ} {bs : List Block} {b : Block} (hb : b ∈ bs)
    (hfree : b.used = false) (hsize : 528 * n < b.size + 16) : BufferRoom n bs := by
  induction n generalizing bs b with
  | zero => trivial
  | succ n ih =>
    rcases forall_not_or_exists_first (fits 512) bs with hno | ⟨pre, c, post, rfl, hno, hfit⟩
    · exact absurd (fits_iff.mpr ⟨hfree, by omega⟩) (hno b hb)
    · refine ⟨_, _, allocate_append hno hfit, ?_⟩
      by_cases hbc : b = c
      · -- what is left over of the block itself
        subst hbc
        cases n with
        | zero => trivial
        | succ n =>
          have hcarve : carve 16 512 b =
              [⟨b.addr, 512, true⟩, ⟨b.addr + 16 + 512, b.size - 512 - 16, false⟩] := by
            rw [carve, if_pos (by omega)]
          rw [hcarve]
          exact ih (b := ⟨b.addr + 16 + 512, b.size - 512 - 16, false⟩) (by simp) rfl
            (by simp only; omega)
      · have hmem : b ∈ pre ∨ b ∈ post := by simpa [hbc] using hb
        exact ih (by simp only [List.mem_append]; tauto) hfree (by omega)

/-- The blocks of a layout are determined by the heap. -/
theorem Layout.blocks_eq {R : Region} {h : Heap} {bs bs' : List Block} (hl : Layout R h bs)
    (hl' : Layout R h bs') : bs = bs' := by
  have hblock {cs : List Block} (hc : Layout R h cs) :
      (MemoryManager.chunkList h).map (fun c => (⟨c.1, c.2.size, c.2.allocated⟩ : Block)) = cs := by
    rw [hc.chunkList_eq_map, List.map_map]
    conv_rhs => rw [← List.map_id cs]
    refine List.map_congr_left fun b hb => ?_
    obtain ⟨hused, hsize⟩ := hc.linked.header_of_mem hb
    exact Block.ext rfl hsize hused
  rw [← hblock hl, hblock hl']

/-! ## The stack -/

section Stack

variable {τ : Type} {a : Ata} {F : FaithfulEnv τ} {R : Region} {n : ℕ}
  {i : List Block × List (ℕ × ℕ)} {other : ℕ → Sector} {w : KernelWorld (Bus PioChannel)} {v : τ}

/-- The services that the kernel gives to the file system, with a channel of two drives behind
the ports of the driver. -/
def storageStack (a : Ata) : Env (KernelWorld (Bus PioChannel)) :=
  (kernelEnv (a.diskService a.channel)).toEnv

/-- **The kernel's stack and a faithful disk.**  The heap is sound, with the blocks `i` and room
for `n` buffers; the selected drive holds the sectors of the disk, and the other drive what
it has held all along. -/
structure StackHolds (a : Ata) (F : FaithfulEnv τ) (R : Region) (other : ℕ → Sector) (n : ℕ)
    (i : List Block × List (ℕ × ℕ)) (w : KernelWorld (Bus PioChannel)) (v : τ) : Prop where
  heap : w.heap.Sound R (fun _ _ => True) i
  room : BufferRoom n i.1
  disk : ∀ x ≤ 0x0FFFFFFF, w.disk.dev.disk a.master x.toNat = F.disk v x
  other : w.disk.dev.disk (!a.master) = other

/-- With room for a buffer, `malloc(512)` returns one. -/
theorem StackHolds.malloc (h : StackHolds a F R other (n + 1) i w v) :
    ∃ b w' j, (storageStack a).malloc w = (some b, w') ∧ w'.disk = w.disk ∧ BufferRoom n j.1 ∧
      w'.heap.Sound R (fun _ _ => True) j ∧ ∀ b' w'', b'.ptr = b.ptr →
        w''.heap.Sound R (fun _ _ => True) j →
          ((storageStack a).free b' w'').heap.Sound R (fun _ _ => True) i := by
  obtain ⟨bs, blocks⟩ := i
  obtain ⟨p, bs', halloc, hroom⟩ := h.room
  obtain ⟨heap, hheap, hl⟩ := h.heap.layout
  rcases malloc_for_a_while Arith.exact_wrapping hl 512 with
    ⟨-, hnone⟩ | ⟨q, heap', bs'', hm, halloc', hl', hq, -⟩
  · rw [hnone] at halloc
    cases halloc
  rw [halloc'] at halloc
  cases halloc
  have hcall := StoringDisk.malloc_buffer_eq hheap hm
  rcases h.heap.malloc 512 with ⟨k, hk, -⟩ | ⟨ptr, k, cs, hk, hptr, hsound, hlayout, hfree⟩
  · rw [hcall] at hk
    exact absurd (congrArg Prod.fst hk) hq
  · obtain ⟨heap₁, heap₂, hheap₁, hm₁, hl₁⟩ := hlayout
    rw [hheap] at hheap₁
    cases hheap₁
    have hm₂ : MemoryManager.malloc .wrapping heap 512 = some (ptr, heap₂) := hm₁
    rw [hm] at hm₂
    cases hm₂
    obtain rfl : cs = bs' := hl₁.blocks_eq hl'
    refine ⟨⟨p, Bytes.tabulate fun i => k.load p (.ofNat i)⟩, { w with heap := k }, (cs, _), ?_,
      rfl, hroom, hsound, ?_⟩
    · rw [storageStack, kernelEnv_malloc_eq _ hk, if_neg hptr]
    · rintro ⟨r, data⟩ w'' rfl hw''
      exact hfree _ (hw''.fill List.mem_cons_self data)

/-- A sector that the driver reads. -/
theorem read28_sector {x : UInt32} (hx : x ≤ 0x0FFFFFFF) (data : Sector) (b : Bus PioChannel) :
    let r := (a.diskService a.channel).read28 x data b
    r.1 = b.dev.disk a.master x.toNat ∧ r.2.dev.disk = b.dev.disk := by
  have hbound : x.toNat + 1 ≤ 2 ^ 28 := le_limit_iff.mp hx
  obtain ⟨hdisk, hdata⟩ := @PioChannel.read28_data a b x 1 data.get le_rfl (by decide) hbound
  refine ⟨?_, hdisk⟩
  funext j
  have hj : j.val / 512 = 0 := by omega
  have hmod : j.val % 512 = j.val := by omega
  show (a.read28 a.channel x data.get 1 b).1 j.val = _
  rw [hdata, if_pos (by omega), hj, hmod, Nat.add_zero]
  exact dif_pos j.isLt

/-- A sector that the driver writes. -/
theorem write28_sector (x : UInt32) (data : Sector) (b : Bus PioChannel) :
    ((a.diskService a.channel).write28 x data b).dev.disk =
      if x ≤ 0x0FFFFFFF then Function.update b.dev.disk a.master
        (Function.update (b.dev.disk a.master) x.toNat data) else b.dev.disk := by
  split
  · next hx =>
    have hbound : x.toNat + 1 ≤ 2 ^ 28 := le_limit_iff.mp hx
    have hstored := @PioChannel.write28_disk a b x 1 data.get le_rfl (by decide) hbound
    rw [PioChannel.stored, PioChannel.stored] at hstored
    refine hstored.trans ?_
    congr 2
    funext j
    exact (congrArg data.get (by omega)).trans (dif_pos j.isLt)
  · next hx =>
    have hsame : a.write28 a.channel x data.get 1 b = b := if_pos (UInt32.not_le.mp hx)
    exact congrArg (fun c : Bus PioChannel => c.dev.disk) hsame

/-- **The stack simulates a faithful disk.** -/
theorem storageStack_simulates (a : Ata) (F : FaithfulEnv τ) (R : Region) (other : ℕ → Sector) :
    (storageStack a).Simulates F.toEnv (StackHolds a F R other) where
  malloc := by
    intro n i w v h
    obtain ⟨b, w', j, hm, hdisk, hroom, hsound, hfree⟩ := h.malloc
    obtain ⟨c, v', hm', hv⟩ := F.malloc_spec v
    refine ⟨b, w', c, v', j, hm, hm', ⟨hsound, hroom, ?_, ?_⟩, fun b' w'' c' v'' hptr hw'' => ?_⟩
    · rw [hdisk, hv]
      exact h.disk
    · rw [hdisk]
      exact h.other
    · refine ⟨hfree b' w'' hptr hw''.heap, h.room, ?_, hw''.other⟩
      rw [F.disk_free]
      exact hw''.disk
  read28 := by
    intro n i w v sector b c hsector h
    obtain ⟨hdata, hdisk⟩ := read28_sector (a := a) hsector b.data w.disk
    refine ⟨?_, h.heap, h.room, fun x hx => ?_, ?_⟩
    · rw [F.read28_data _ _ _ hsector, ← h.disk _ hsector]
      exact hdata
    · rw [F.disk_read28, ← h.disk x hx]
      exact congrFun (congrFun hdisk a.master) x.toNat
    · exact (congrFun hdisk _).trans h.other
  read28_ptr _ _ _ := rfl
  write28 := by
    intro n i w v sector b c hbc h
    have hdisk := write28_sector (a := a) sector b.data w.disk
    refine ⟨h.heap, h.room, fun x hx => ?_, ?_⟩
    · refine (congrFun (congrFun hdisk a.master) x.toNat).trans ?_
      split
      · next hsector =>
        rw [F.disk_write28 _ _ _ hsector, Function.update_self, ← hbc]
        by_cases hxs : x = sector
        · subst hxs
          rw [Function.update_self, Function.update_self]
        · rw [Function.update_of_ne (fun h => hxs (UInt32.toNat_inj.mp h)),
            Function.update_of_ne hxs, h.disk x hx]
      · next hsector =>
        rw [F.disk_write28_of_gt _ _ _ (UInt32.not_le.mp hsector), h.disk x hx]
    · refine (congrFun hdisk _).trans ?_
      split
      · rw [Function.update_of_ne (by simp), h.other]
      · exact h.other

/-- In a consistent state every file is below the limit of the drive. -/
theorem readsBelow_of_consistent {t : Sys τ} (h : Consistent (2 ^ 28) t.fs (F.disk t.world))
    (call : FsCall) : ReadsBelow t.fs call := by
  cases call with
  | readFile inodeIndex out size =>
    intro hm k hk hi h0 m hlt
    have hfile := h.extents.file k hi h0
    have hmark := h.extents.mark_le
    omega
  | _ => trivial

/-- **The file system on the kernel's stack is the file system on a faithful disk.**  Let the
heap have a free chunk of more than 1040 bytes, and let the drive that the driver selects hold
the sectors of the disk.  Then after a `Format` every run of calls whose data sectors stay below
`2 ^ 28` returns the same on both, and leaves equal objects and equal sectors, while the other
drive of the channel and the chunk list of the heap are what they were. -/
theorem storage_stack_refines (a : Ata) (F : FaithfulEnv τ) {h : Heap} {bs : List Block}
    (hl : Layout R h bs) (hroom : ∃ c ∈ bs, c.used = false ∧ 1040 < c.size) (fs : FileSystem)
    (b : Bus PioChannel) (v : τ)
    (hdisk : ∀ x ≤ 0x0FFFFFFF, b.dev.disk a.master x.toNat = F.disk v x)
    (label : CStr) (calls : List FsCall)
    (hok : Along (fsStep F.toEnv) (CallBelow (2 ^ 28)) ⟨fs, v⟩ (.format label :: calls)) :
    let run := .format label :: calls
    let s := finalState (fsStep (storageStack a)) ⟨fs, ⟨⟨some h, []⟩, b⟩⟩ run
    let t := finalState (fsStep F.toEnv) ⟨fs, v⟩ run
    outputs (fsStep (storageStack a)) ⟨fs, ⟨⟨some h, []⟩, b⟩⟩ run =
        outputs (fsStep F.toEnv) ⟨fs, v⟩ run ∧
      s.fs = t.fs ∧
      (∀ x ≤ 0x0FFFFFFF, s.world.disk.dev.disk a.master x.toNat = F.disk t.world x) ∧
      s.world.disk.dev.disk (!a.master) = b.dev.disk (!a.master) ∧
      ∃ h', s.world.heap.heap = some h' ∧ MemoryManager.chunkList h' = MemoryManager.chunkList h := by
  intro run s t
  obtain ⟨c, hc, hfree, hsize⟩ := hroom
  have hstart : Agree (StackHolds a F R (b.dev.disk (!a.master))) 2 (bs, [])
      ⟨fs, ⟨⟨some h, []⟩, b⟩⟩ ⟨fs, v⟩ :=
    ⟨rfl, ⟨⟨h, rfl, hl⟩, rfl, by simp, by simp⟩, bufferRoom_of_free hc hfree (by omega), hdisk, rfl⟩
  have hreads : Along (fsStep F.toEnv) (fun t call => ReadsBelow t.fs call) ⟨fs, v⟩ run :=
    ⟨trivial, hok.2.of_invariant (fun t => Consistent (2 ^ 28) t.fs (F.disk t.world))
      (fun _ _ hs hcall => hs.step (by decide) (by decide) hcall)
      (fun _ call hs _ => readsBelow_of_consistent hs call)
      (consistent_format (by decide) label ⟨fs, v⟩)⟩
  obtain ⟨hout, hend⟩ := simulation
    (fun t s => Agree (StackHolds a F R (b.dev.disk (!a.master))) 2 (bs, []) s t)
    (fun t s call hst hcall => by
      obtain ⟨hres, hnext⟩ := fsStep_agree (storageStack_simulates a F R _) hcall hst
      exact ⟨hres.symm, hnext⟩) hstart hreads
  obtain ⟨h', hheap, hl'⟩ := hend.world.heap.layout
  exact ⟨hout.symm, hend.fs, hend.world.disk, hend.world.other, h', hheap, hl.chunkList_eq hl'⟩

end Stack

/-- A region of 4 KB. -/
def bufferRegion : Region := ⟨0x700, 0x1A00, by decide, by decide, by decide⟩

/-- A new heap in this region. -/
def bufferHeap : Heap :=
  MemoryManager.construct (fun _ => 0) bufferRegion.start (bufferRegion.stop - bufferRegion.start)

/-- A file that is written and read back through the ports of a blank drive. -/
theorem storage_stack_refines_one_byte :
    let run := [.format nameA, .mount, .createFile nameA, .writeFile 0 (fun _ => 7) 1,
      .readFile 0 (fun _ => 0) 1]
    let s : Sys (KernelWorld (Bus PioChannel)) :=
      ⟨blank, ⟨⟨some bufferHeap, []⟩, ⟨PioChannel.blankChannel, []⟩⟩⟩
    outputs (fsStep (storageStack .primary)) s run =
      outputs (fsStep idealEnv.toEnv) ⟨blank, fun _ _ => 0⟩ run :=
  (storage_stack_refines .primary idealEnv (layout_construct bufferRegion _)
    ⟨_, List.mem_cons_self, rfl, by decide⟩ blank ⟨PioChannel.blankChannel, []⟩ (fun _ _ => 0)
    (fun _ _ => rfl) nameA [.mount, .createFile nameA, .writeFile 0 (fun _ => 7) 1,
      .readFile 0 (fun _ => 0) 1] (by decide +kernel)).1
