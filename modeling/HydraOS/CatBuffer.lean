/-
# The buffer of `cat`

`CommandCat` passes `ReadFile` a pointer to a block of `size + 1` bytes, where `size` is what
the inode table on the disk says.  Here both functions store through that pointer, byte by byte.
With the block kept apart from the rest of the state they are the functions of `Shell` and
`FileSystem`; on the kernel's heap every store is inside the payload of the block.
-/
import HydraOS.FileCounts
import HydraOS.KernelHeap

open FileSystem Shell

/-! ## `ReadFile` and `CommandCat` on memory -/

namespace Pointer

section Commands

variable {σ : Type} (E : PointerEnv σ)

/-- The locals of `ReadFile`. -/
structure ReadState (σ : Type) where
  world : σ
  diskBuffer : Buffer
  bytesRead : UInt32

/-- One round of the loop of `ReadFile`. -/
def readRound (inode : Inode) (buffer : ℕ) (size : UInt32) (i : ℕ) (st : ReadState σ) :
    ReadState σ :=
  let (diskBuffer, w) := E.read28 (inode.startSector + .ofNat i) st.diskBuffer st.world
  let bytesToCopy := clip st.bytesRead inode.size 512
  let bytesToCopy := clip st.bytesRead size bytesToCopy
  let w := forLoop (fun _ => true)
    (fun j w => E.store buffer (st.bytesRead + .ofNat j) (diskBuffer.data.get j) w)
    bytesToCopy.toNat 0 w
  ⟨w, diskBuffer, st.bytesRead + bytesToCopy⟩

/-- `ReadFile` on an inode that is in use. -/
def readInode (inode : Inode) (buffer : ℕ) (size : UInt32) (s : Sys σ) : ℤ × Sys σ :=
  if inode.size > 0 ∧ inode.startSector > 0 then
    match E.malloc s.world with
    | (none, w) => (0, { s with world := w })
    | (some diskBuffer, w) =>
      let st := forLoop (fun st => st.bytesRead < size) (readRound E inode buffer size)
        (sectorCount inode.size).toNat 0 ⟨w, diskBuffer, 0⟩
      (toInt32 st.bytesRead, { s with world := E.free st.diskBuffer st.world })
  else (0, s)

theorem toNat_lt_of_served {s : Sys σ} {inodeIndex : ℤ}
    (h : ¬ (s.fs.mounted = false ∨ inodeIndex < 0 ∨ inodeIndex ≥ 64)) : inodeIndex.toNat < 64 := by
  omega

/-- `FileSystem::ReadFile`. -/
def readFile (inodeIndex : ℤ) (buffer : ℕ) (size : UInt32) (s : Sys σ) : ℤ × Sys σ :=
  if h : s.fs.mounted = false ∨ inodeIndex < 0 ∨ inodeIndex ≥ 64 then (-1, s)
  else
    let inode := s.fs.inodes ⟨inodeIndex.toNat, toNat_lt_of_served h⟩
    if inode.type = inodeTypeEmpty then (-1, s) else readInode E inode buffer size s

/-- A change of the world behind the shell. -/
def onWorld (f : σ → σ) (s : Shell σ) : Shell σ :=
  { s with sys := { s.sys with world := f s.sys.world } }

/-- `CommandCat`. -/
def commandCat (args : CStr) (s : Shell σ) : Shell σ :=
  if args.get 0 = 0 then s.say [color lightRed, text "Usage: cat <filename>\n"]
  else
    let fd := s.sys.fs.openFile args
    if fd < 0 then s.say [color lightRed, text "File not found.\n"]
    else
      let size := s.sys.fs.getFileSize args
      if size = 0 then s.say [color lightBrown, text "(empty file)\n"]
      else
        match E.mallocBytes (size + 1) s.sys.world with
        | (none, w) =>
          { s with sys := { s.sys with world := w } }.say [color lightRed, text "Out of memory.\n"]
        | (some buffer, w) =>
          let (r, sys) := readFile E fd buffer.ptr size { s.sys with world := w }
          let s := { s with sys := sys }
          let s := if r ≠ 0 then
              let s := onWorld (E.store buffer.ptr size 0) s
              let chars := ((List.range (size.toNat + 1)).map fun i =>
                E.load buffer.ptr (.ofNat i) s.sys.world).takeWhile (· != 0)
              let s := s.say [color white, .print chars]
              if E.load buffer.ptr (size - 1) s.sys.world ≠ 10 then s.say [text "\n"] else s
            else s.say [color lightRed, text "Failed to read file.\n"]
          onWorld (E.freeBytes buffer) s

end Commands

/-! ## The block kept apart -/

section Apart

variable {σ : Type}

/-- The services with the bytes of the one block of the shell kept apart. -/
def apart (E : ShellEnv σ) : PointerEnv (σ × (ℕ → UInt8)) where
  malloc w := ((E.malloc w.1).1, ((E.malloc w.1).2, w.2))
  free buffer w := (E.free buffer w.1, w.2)
  read28 sector buffer w :=
    ((E.read28 sector buffer w.1).1, ((E.read28 sector buffer w.1).2, w.2))
  write28 sector buffer w := (E.write28 sector buffer w.1, w.2)
  mallocBytes size w :=
    match E.mallocBytes size w.1 with
    | (none, w') => (none, (w', w.2))
    | (some block, w') => (some block, (w', block.data))
  freeBytes block w := (E.freeBytes { block with data := w.2 } w.1, w.2)
  identify w := (E.identify w.1, w.2)
  store _ index v w := (w.1, Function.update w.2 index.toNat v)
  load _ index w := w.2 index.toNat

variable (E : ShellEnv σ) {inode : Inode} {buffer : ℕ} {size : UInt32}

theorem apart_malloc (w : σ × (ℕ → UInt8)) :
    (apart E).malloc w = ((E.malloc w.1).1, ((E.malloc w.1).2, w.2)) := rfl

theorem apart_mallocBytes (size : UInt32) (w : σ × (ℕ → UInt8)) :
    (apart E).mallocBytes size w =
      match E.mallocBytes size w.1 with
      | (none, w') => (none, (w', w.2))
      | (some block, w') => (some block, (w', block.data)) := rfl

theorem apart_read28 (sector : UInt32) (buffer : Buffer) (w : σ × (ℕ → UInt8)) :
    (apart E).read28 sector buffer w =
      ((E.read28 sector buffer w.1).1, ((E.read28 sector buffer w.1).2, w.2)) := rfl

/-- The loop that copies one sector. -/
theorem copy_apart (data : Sector) (bytesRead : UInt32) (count : ℕ) (w : σ) (out : ℕ → UInt8) :
    forLoop (fun _ => true)
        (fun j w => (apart E).store buffer (bytesRead + .ofNat j) (data.get j) w) count 0 (w, out) =
      (w, forLoop (fun _ => true)
        (fun j out => Function.update out (bytesRead + .ofNat j).toNat (data.get j))
        count 0 out) := by
  induction count with
  | zero => rfl
  | succ count ih => rw [forLoop_succ_last, forLoop_succ_last, ih, apart]

/-- The state of `ReadFile` with the caller's buffer in it. -/
def ReadState.join (st : ReadState (σ × (ℕ → UInt8))) : FileSystem.ReadState σ :=
  ⟨st.world.1, st.diskBuffer, st.world.2, st.bytesRead⟩

theorem readRound_apart (i : ℕ) (st : ReadState (σ × (ℕ → UInt8))) :
    (readRound (apart E) inode buffer size i st).join =
      FileSystem.readRound E.toEnv inode size i st.join := by
  rw [readRound, FileSystem.readRound]
  simp only [apart_read28, ReadState.join]
  rw [copy_apart]

theorem readRounds_apart (count first : ℕ) (st : ReadState (σ × (ℕ → UInt8))) :
    (forLoop (fun st => st.bytesRead < size) (readRound (apart E) inode buffer size) count first
        st).join =
      forLoop (fun st => st.bytesRead < size) (FileSystem.readRound E.toEnv inode size) count first
        st.join := by
  induction count generalizing first st with
  | zero => rfl
  | succ count ih =>
    have hbytes : st.join.bytesRead = st.bytesRead := rfl
    rw [forLoop, forLoop, hbytes]
    split
    · rw [ih, readRound_apart]
    · rfl

/-- **`ReadFile` with the caller's buffer kept apart.** -/
theorem readFile_apart (inodeIndex : ℤ) (fs : FileSystem) (w : σ) (out : ℕ → UInt8) :
    readFile (apart E) inodeIndex buffer size ⟨fs, (w, out)⟩ =
      let r := FileSystem.readFile E.toEnv inodeIndex out size ⟨fs, w⟩
      (r.1.1, ⟨r.2.fs, (r.2.world, r.1.2)⟩) := by
  rw [readFile, FileSystem.readFile]
  split
  · rfl
  · simp only
    split
    · rfl
    · rw [readInode, FileSystem.readInode]
      split
      · rw [apart_malloc]
        rcases E.malloc w with ⟨_ | diskBuffer, w'⟩
        · rfl
        · have hrounds := @readRounds_apart σ E
            (fs.inodes ⟨inodeIndex.toNat, by omega⟩) buffer size
            (sectorCount (fs.inodes ⟨inodeIndex.toNat, by omega⟩).size).toNat 0
            ⟨(w', out), diskBuffer, 0⟩
          have hjoin : (⟨(w', out), diskBuffer, 0⟩ : ReadState (σ × (ℕ → UInt8))).join =
            ⟨w', diskBuffer, out, 0⟩ := rfl
          rw [hjoin] at hrounds
          simp only
          rw [← hrounds]
          rfl
      · rfl

/-- **`CommandCat` with its block kept apart.** -/
theorem commandCat_apart (args : CStr) (fs : FileSystem) (w : σ) (out : ℕ → UInt8)
    (calls : List VgaCall) :
    let s := commandCat (apart E) args ⟨⟨fs, (w, out)⟩, calls⟩
    let s' := Shell.commandCat E args ⟨⟨fs, w⟩, calls⟩
    s.out = s'.out ∧ s.sys.fs = s'.sys.fs ∧ s.sys.world.1 = s'.sys.world := by
  simp only
  rw [commandCat, Shell.commandCat]
  split
  · exact ⟨rfl, rfl, rfl⟩
  · simp only
    split
    · exact ⟨rfl, rfl, rfl⟩
    · split
      · exact ⟨rfl, rfl, rfl⟩
      · next hsize =>
        rw [apart_mallocBytes]
        simp only
        rcases E.mallocBytes (fs.getFileSize args + 1) w with ⟨_ | block, w'⟩
        · exact ⟨rfl, rfl, rfl⟩
        · simp only
          rw [readFile_apart]
          simp only
          generalize FileSystem.readFile E.toEnv (fs.openFile args) block.data
            (fs.getFileSize args) ⟨fs, w'⟩ = r
          obtain ⟨⟨n, data⟩, ⟨fs', w''⟩⟩ := r
          simp only
          split
          · have hlast : (fs.getFileSize args - 1).toNat = (fs.getFileSize args).toNat - 1 :=
              UInt32.toNat_sub_of_le _ _ (by
                rw [UInt32.le_iff_toNat_le]
                exact Nat.one_le_iff_ne_zero.mpr fun h => hsize (UInt32.toNat_inj.mp h))
            have hchars : ∀ data : ℕ → UInt8,
                (List.range ((fs.getFileSize args).toNat + 1)).map
                    (fun i => data (UInt32.ofNat i).toNat) =
                  (List.range ((fs.getFileSize args).toNat + 1)).map data := by
              intro data
              refine List.map_congr_left fun i hi => ?_
              rw [List.mem_range] at hi
              have hlt := (fs.getFileSize args).toNat_lt
              rw [toNat_ofNat_of_lt (by omega)]
            simp only [onWorld, say, apart, hlast, hchars]
            split <;> exact ⟨rfl, rfl, rfl⟩
          · exact ⟨rfl, rfl, rfl⟩

end Apart

/-! ## Every store is inside the block -/

section Safety

variable {δ : Type} (D : DiskService δ) {R : Region} {P : ℕ → ℕ → Prop} {bs : List Block}
  {blocks : List (ℕ × ℕ)} {inode : Inode} {buffer n : ℕ} {size : UInt32}

/-- One round of `ReadFile`, on a size for which the number of sectors does not wrap: what it
copies ends with the block. -/
theorem readRound_sound (i : ℕ) {st : ReadState (KernelWorld δ)}
    (hst : st.world.heap.Sound R P (bs, blocks)) (hmem : (buffer, n) ∈ blocks)
    (hP : ∀ index < n, P buffer index) (hn : inode.size.toNat ≤ n)
    (hwrap : inode.size.toNat + 511 < 2 ^ 32) (hlt : st.bytesRead < inode.size) :
    (readRound (kernelEnv D) inode buffer inode.size i st).world.heap.Sound R P (bs, blocks) := by
  rw [UInt32.lt_iff_toNat_lt] at hlt
  have h512 : (512 : UInt32).toNat = 512 := rfl
  have hfirst := @toNat_clip st.bytesRead inode.size 512 hlt.le (by omega)
  have hclip := @toNat_clip st.bytesRead inode.size (clip st.bytesRead inode.size 512) hlt.le
    (by omega)
  rw [readRound]
  refine forLoop_invariant_of_true
    (fun _ w => (w : KernelWorld δ).heap.Sound R P (bs, blocks)) hst fun j w _ hj hw => ?_
  have hindex : (st.bytesRead + .ofNat j).toNat = st.bytesRead.toNat + j := by
    rw [UInt32.toNat_add, toNat_ofNat_of_lt (by omega)]
    omega
  exact TracedHeap.Sound.store hw _ _ hmem (by omega) (hP _ (by omega))

/-- `ReadFile` on an inode.  When the number of sectors wraps around, it reads nothing. -/
theorem readInode_sound {s : Sys (KernelWorld δ)} (hs : s.world.heap.Sound R P (bs, blocks))
    (hmem : (buffer, n) ∈ blocks) (hP : ∀ index < n, P buffer index)
    (hn : inode.size.toNat + 511 < 2 ^ 32 → inode.size.toNat ≤ n) :
    (readInode (kernelEnv D) inode buffer inode.size s).2.world.heap.Sound R P (bs, blocks) ∧
      (¬ inode.size.toNat + 511 < 2 ^ 32 →
        (readInode (kernelEnv D) inode buffer inode.size s).1 = 0) := by
  rw [readInode]
  split
  · rcases kernelEnv_malloc D hs with ⟨w, hm, hw⟩ | ⟨diskBuffer, w, bs', hm, hw, hfree⟩
    · rw [hm]
      exact ⟨hw, fun _ => rfl⟩
    · rw [hm]
      simp only
      by_cases hwrap : inode.size.toNat + 511 < 2 ^ 32
      · refine ⟨?_, fun h => absurd hwrap h⟩
        obtain ⟨_, -, hloop, -⟩ := @forLoop_invariant _ (fun st => st.bytesRead < inode.size)
          (readRound (kernelEnv D) inode buffer inode.size) (sectorCount inode.size).toNat 0
          ⟨w, diskBuffer, 0⟩
          (fun _ st => st.diskBuffer.ptr = diskBuffer.ptr ∧
            st.world.heap.Sound R P (bs', (diskBuffer.ptr, 512) :: blocks))
          ⟨rfl, hw⟩ fun i st _ _ hlt hst =>
            ⟨hst.1, readRound_sound D i hst.2 (List.mem_cons_of_mem _ hmem) hP (hn hwrap) hwrap
              (by simpa using hlt)⟩
        exact hfree _ _ hloop.1 hloop.2
      · have hcount : (sectorCount inode.size).toNat = 0 := by
          rw [toNat_sectorCount, storedLength, if_neg hwrap]
        rw [hcount]
        exact ⟨hfree _ _ rfl hw, fun _ => rfl⟩
  · exact ⟨hs, fun _ => rfl⟩

/-- A descriptor that `OpenFile` returns is an inode that it has found. -/
theorem exists_lookup_of_openFile {fs : FileSystem} {args : CStr} (h : ¬ fs.openFile args < 0) :
    ∃ i, fs.lookup args = some i := by
  rw [openFile] at h
  cases hi : fs.lookup args with
  | none =>
    rw [hi] at h
    exact absurd (by decide) h
  | some i => exact ⟨i, rfl⟩

/-- `ReadFile` on what `OpenFile` returns reads the inode. -/
theorem readFile_of_lookup {σ : Type} (E : PointerEnv σ) (s : Sys σ) {args : CStr} {i : Fin 64}
    (h : s.fs.lookup args = some i) :
    readFile E (s.fs.openFile args) buffer size s =
      readInode E (s.fs.inodes i) buffer size s := by
  have hmounted : s.fs.mounted = true := mounted_of_lookup h
  have hopen : s.fs.openFile args = (i.val : ℤ) := openFile_eq_iff.mpr h
  have hi := i.isLt
  have huse : (s.fs.inodes i).type ≠ inodeTypeEmpty := inUse_of_lookup h
  have hindex : ¬ (s.fs.mounted = false ∨ (i.val : ℤ) < 0 ∨ (i.val : ℤ) ≥ 64) := by
    rw [hmounted]
    simp only [Bool.true_eq_false, false_or, not_or]
    omega
  rw [readFile, hopen, dif_neg hindex]
  exact if_neg huse

/-- **`CommandCat` on a sound state.**  All its stores are into the block that its `malloc`
returned, and the blocks held afterwards are those before. -/
theorem commandCat_sound (args : CStr) {s : Shell (KernelWorld δ)}
    (hs : s.sys.world.heap.Sound R P (bs, blocks))
    (hP : ∀ h ptr h' bs', s.sys.world.heap.heap = some h →
      MemoryManager.malloc .wrapping h (s.sys.fs.getFileSize args + 1).toNat = some (ptr, h') →
      Layout R h' bs' → HasBlock bs' ptr (s.sys.fs.getFileSize args + 1).toNat →
      ∀ index < (s.sys.fs.getFileSize args + 1).toNat, P ptr index) :
    (commandCat (kernelEnv D) args s).sys.world.heap.Sound R P (bs, blocks) := by
  rw [commandCat]
  split
  · exact hs
  · simp only
    split
    · exact hs
    · next hfd =>
      split
      · exact hs
      · rcases kernelEnv_mallocBytes D hs (s.sys.fs.getFileSize args + 1) with
          ⟨w, hm, hw⟩ | ⟨block, w, bs', hm, hw, ⟨h, h', hheap, hcall, hl'⟩, hfree⟩
        · rw [hm]
          exact hw
        · rw [hm]
          simp only
          -- the descriptor is an inode in use, and the size is its size
          obtain ⟨i, hi⟩ := exists_lookup_of_openFile hfd
          have hsize : s.sys.fs.getFileSize args = (s.sys.fs.inodes i).size := by
            rw [getFileSize, hi]
          have hblock := hP h block.ptr h' bs' hheap hcall hl'
            (hw.blocks _ List.mem_cons_self)
          rw [readFile_of_lookup (kernelEnv D) { s.sys with world := w } hi]
          rw [hsize] at hw hblock hfree ⊢
          have hn : (s.sys.fs.inodes i).size.toNat + 511 < 2 ^ 32 →
              ((s.sys.fs.inodes i).size + 1).toNat = (s.sys.fs.inodes i).size.toNat + 1 :=
            fun hwrap => by
              have h1 : (1 : UInt32).toNat = 1 := rfl
              rw [UInt32.toNat_add, h1]
              omega
          obtain ⟨hread, hzero⟩ := readInode_sound D (s := { s.sys with world := w }) hw
            List.mem_cons_self hblock fun hwrap => by rw [hn hwrap]; omega
          generalize readInode (kernelEnv D) (s.sys.fs.inodes i) block.ptr
            (s.sys.fs.inodes i).size { s.sys with world := w } = r at hread hzero ⊢
          obtain ⟨r, sys⟩ := r
          simp only at hread hzero ⊢
          split
          · next hr =>
            have hwrap : (s.sys.fs.inodes i).size.toNat + 511 < 2 ^ 32 := by
              by_contra hwrap
              exact hr (hzero hwrap)
            have hlt : (s.sys.fs.inodes i).size.toNat < ((s.sys.fs.inodes i).size + 1).toNat := by
              rw [hn hwrap]
              omega
            have hstore := TracedHeap.Sound.store hread (s.sys.fs.inodes i).size 0
              List.mem_cons_self hlt (hblock _ hlt)
            split
            · exact hfree _ hstore
            · exact hfree _ hstore
          · exact hfree _ hread

end Safety

/-- **Displaying a file is memory-safe.**  Whatever inode table has been mounted, whatever the
disk returns and however the heap is laid out, `CommandCat` stores through its buffer only
inside the payload of the block that `malloc(size + 1)` returned, while it holds the block; it
gives back every block that it or `ReadFile` has allocated, and leaves the chunk list of the
heap as it was. -/
theorem cat_memory_safe {δ : Type} (D : DiskService δ) {R : Region} {h : Heap} {bs : List Block}
    (hl : Layout R h bs) (fs : FileSystem) (disk : δ) (args : CStr) (calls : List VgaCall) :
    let s := commandCat (kernelEnv D) args ⟨⟨fs, ⟨⟨some h, []⟩, disk⟩⟩, calls⟩
    let k := s.sys.world.heap
    (∀ ptr index, HeapEvent.store ptr index ∈ k.trace →
      ∃ h' bs' b, MemoryManager.malloc .wrapping h (fs.getFileSize args + 1).toNat = some (ptr, h') ∧
        Layout R h' bs' ∧ b ∈ bs' ∧ b.used ∧ b.addr + 16 = ptr ∧ index < b.size) ∧
      HeapEvent.held k.trace = some [] ∧
      ∃ h', k.heap = some h' ∧ MemoryManager.chunkList h' = MemoryManager.chunkList h := by
  have hsound := commandCat_sound D (R := R)
    (P := fun ptr index => ∃ h' bs' b,
      MemoryManager.malloc .wrapping h (fs.getFileSize args + 1).toNat = some (ptr, h') ∧
        Layout R h' bs' ∧ b ∈ bs' ∧ b.used ∧ b.addr + 16 = ptr ∧ index < b.size)
    args (s := ⟨⟨fs, ⟨⟨some h, []⟩, disk⟩⟩, calls⟩)
    ⟨⟨h, rfl, hl⟩, rfl, by simp, by simp⟩ ?_
  · obtain ⟨⟨h', hheap, hl'⟩, hheld, -, hstores⟩ := hsound
    exact ⟨hstores, hheld, h', hheap, hl.chunkList_eq hl'⟩
  · rintro h₁ ptr h' bs' hheap hcall hl' ⟨b, hb, hu, haddr, hsize⟩ index hindex
    cases hheap
    exact ⟨h', bs', b, hcall, hl', hb, hu, haddr, by omega⟩

/-- The disk says that the file has `2 ^ 32 - 1` bytes, so `malloc(size + 1)` is `malloc(0)`, and
returns a block. -/
theorem cat_memory_safe_huge :
    (oneFile 0xFFFFFFFF).getFileSize ⟨[97], by decide⟩ + 1 = 0 ∧
      HeapEvent.held (commandCat (kernelEnv plainDisk) ⟨[97], by decide⟩
        ⟨⟨oneFile 0xFFFFFFFF, ⟨⟨some smallHeap, []⟩, fun _ _ => 0⟩⟩, []⟩).sys.world.heap.trace =
        some [] :=
  ⟨by decide, (cat_memory_safe plainDisk layout_smallHeap (oneFile 0xFFFFFFFF) (fun _ _ => 0)
    ⟨[97], by decide⟩ []).2.1⟩

end Pointer
