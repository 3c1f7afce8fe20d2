/-
# Temporary buffers

Every function of the file system that needs a sector of memory allocates one and gives it
back before it returns, also where it is called while its caller holds another.  Here `I i`
stands for anything that describes a state of the heap: when giving a buffer back undoes what
its allocation did, every function leaves the heap as it found it.
-/
import HydraOS.FileSystemRuns

open FileSystem

variable {σ ι : Type} {E : Env σ} {I : ι → σ → Prop} {i : ι} {s : Sys σ}

/-- **The discipline of the heap.**  An allocation fails and changes nothing, or it leads from
`i` to some `j` from which freeing the buffer leads back to `i`.  The disk driver does not touch
the heap. -/
structure Env.Balanced (E : Env σ) (I : ι → σ → Prop) : Prop where
  malloc : ∀ {i w}, I i w → (∃ w', E.malloc w = (none, w') ∧ I i w') ∨
    ∃ buffer w' j, E.malloc w = (some buffer, w') ∧ I j w' ∧
      ∀ b w'', b.ptr = buffer.ptr → I j w'' → I i (E.free b w'')
  read28 : ∀ {i w} sector buffer, I i w → I i (E.read28 sector buffer w).2
  read28_ptr : ∀ sector buffer w, (E.read28 sector buffer w).1.ptr = buffer.ptr
  write28 : ∀ {i w} sector buffer, I i w → I i (E.write28 sector buffer w)

namespace FileSystem

/-! ## Superblock and inode table -/

/-- `LoadSuperblock` gives its buffer back, also when it finds no magic number. -/
theorem loadSuperblock_keeps (hE : E.Balanced I) (h : I i s.world) :
    I i (loadSuperblock E s).world := by
  rw [loadSuperblock]
  rcases hE.malloc h with ⟨w, hm, hw⟩ | ⟨buffer, w, j, hm, hw, hfree⟩
  · rw [hm]
    exact hw
  · rw [hm]
    exact hfree _ _ (hE.read28_ptr _ _ _) (hE.read28 _ _ hw)

/-- `SaveSuperblock` gives its buffer back. -/
theorem saveSuperblock_keeps (hE : E.Balanced I) (h : I i s.world) :
    I i (saveSuperblock E s).world := by
  rw [saveSuperblock]
  rcases hE.malloc h with ⟨w, hm, hw⟩ | ⟨buffer, w, j, hm, hw, hfree⟩
  · rw [hm]
    exact hw
  · rw [hm]
    exact hfree _ _ rfl (hE.write28 _ _ hw)

/-- `LoadInodeTable` uses one buffer for its eight sectors. -/
theorem loadInodeTable_keeps (hE : E.Balanced I) (h : I i s.world) :
    I i (loadInodeTable E s).world := by
  rw [loadInodeTable]
  rcases hE.malloc h with ⟨w, hm, hw⟩ | ⟨buffer, w, j, hm, hw, hfree⟩
  · rw [hm]
    exact hw
  · rw [hm]
    have hround : ∀ k (st : (Fin 64 → Inode) × Buffer × σ),
        st.2.1.ptr = buffer.ptr ∧ I j st.2.2 →
          (loadInodeRound E k st).2.1.ptr = buffer.ptr ∧ I j (loadInodeRound E k st).2.2 :=
      fun k st hst => ⟨(hE.read28_ptr _ _ _).trans hst.1, hE.read28 _ _ hst.2⟩
    have hloop := forLoop_keeps hround (s := (s.fs.inodes, buffer, w)) ⟨rfl, hw⟩ (fun _ => true) 8 0
    exact hfree _ _ hloop.1 hloop.2

/-- `SaveInodeTable` uses one buffer for its eight sectors. -/
theorem saveInodeTable_keeps (hE : E.Balanced I) (h : I i s.world) :
    I i (saveInodeTable E s).world := by
  rw [saveInodeTable]
  rcases hE.malloc h with ⟨w, hm, hw⟩ | ⟨buffer, w, j, hm, hw, hfree⟩
  · rw [hm]
    exact hw
  · rw [hm]
    have hround : ∀ k (st : Buffer × σ), st.1.ptr = buffer.ptr ∧ I j st.2 →
        (saveInodeRound E s.fs.inodes k st).1.ptr = buffer.ptr ∧
          I j (saveInodeRound E s.fs.inodes k st).2 :=
      fun k st hst => ⟨hst.1, hE.write28 _ _ hst.2⟩
    have hloop := forLoop_keeps hround (s := (buffer, w)) ⟨rfl, hw⟩ (fun _ => true) 8 0
    exact hfree _ _ hloop.1 hloop.2

/-- `AllocateSector` saves the superblock and nothing else. -/
theorem allocateSector_keeps (hE : E.Balanced I) (h : I i s.world) :
    I i (allocateSector E s).2.world :=
  saveSuperblock_keeps hE h

/-! ## File contents -/

/-- The part of `ReadFile` behind its checks. -/
theorem readInode_keeps (hE : E.Balanced I) (inode : Inode) (out : ℕ → UInt8) (size : UInt32)
    (h : I i s.world) : I i (readInode E inode out size s).2.world := by
  rw [readInode]
  split
  · rcases hE.malloc h with ⟨w, hm, hw⟩ | ⟨buffer, w, j, hm, hw, hfree⟩
    · rw [hm]
      exact hw
    · rw [hm]
      have hround : ∀ k (st : ReadState σ), st.diskBuffer.ptr = buffer.ptr ∧ I j st.world →
          (readRound E inode size k st).diskBuffer.ptr = buffer.ptr ∧
            I j (readRound E inode size k st).world :=
        fun k st hst => ⟨(hE.read28_ptr _ _ _).trans hst.1, hE.read28 _ _ hst.2⟩
      have hloop := forLoop_keeps hround (s := ⟨w, buffer, out, 0⟩) ⟨rfl, hw⟩
        (fun st => st.bytesRead < size) (sectorCount inode.size).toNat 0
      exact hfree _ _ hloop.1 hloop.2
  · exact h

/-- **`ReadFile`**, also of an index without a file. -/
theorem readFile_keeps (hE : E.Balanced I) (inodeIndex : ℤ) (out : ℕ → UInt8) (size : UInt32)
    (h : I i s.world) : I i (readFile E inodeIndex out size s).2.world := by
  rw [readFile]
  split
  · exact h
  · simp only
    split
    · exact h
    · exact readInode_keeps hE _ out size h

/-- The first sector of a new file. -/
theorem firstSector_keeps (hE : E.Balanced I) (index : Fin 64) (h : I i s.world) :
    I i (firstSector E index s).world := by
  rw [firstSector]
  split
  · exact allocateSector_keeps hE h
  · exact h

/-- One round of `WriteFile`, with the buffer of the call still held. -/
theorem writeRound_keeps (hE : E.Balanced I) (index : Fin 64) (buffer : ℕ → UInt8)
    (size : UInt32) (k : ℕ) {st : WriteState σ} (h : I i st.sys.world) :
    I i (writeRound E index buffer size k st).sys.world := by
  rw [writeRound]
  apply hE.write28
  split
  · exact allocateSector_keeps hE h
  · exact h

/-- A round of `WriteFile` does not exchange its buffer for another. -/
theorem writeRound_ptr (E : Env σ) (index : Fin 64) (buffer : ℕ → UInt8) (size : UInt32) (k : ℕ)
    (st : WriteState σ) :
    (writeRound E index buffer size k st).diskBuffer.ptr = st.diskBuffer.ptr := by
  rw [writeRound]

/-- The part of `WriteFile` behind its checks: it may fail for want of memory, and then it has
nothing to give back. -/
theorem writeInode_keeps (hE : E.Balanced I) (index : Fin 64) (buffer : ℕ → UInt8)
    (size : UInt32) (h : I i s.world) : I i (writeInode E index buffer size s).2.world := by
  have hfirst := firstSector_keeps hE index h
  rw [writeInode]
  rcases hE.malloc hfirst with ⟨w, hm, hw⟩ | ⟨diskBuffer, w, j, hm, hw, hfree⟩
  · simp only [hm]
    exact hw
  · simp only [hm]
    apply saveInodeTable_keeps hE
    have hround : ∀ k (st : WriteState σ),
        st.diskBuffer.ptr = diskBuffer.ptr ∧ I j st.sys.world →
          (writeRound E index buffer size k st).diskBuffer.ptr = diskBuffer.ptr ∧
            I j (writeRound E index buffer size k st).sys.world :=
      fun k st hst => ⟨(writeRound_ptr E index buffer size k st).trans hst.1,
        writeRound_keeps hE index buffer size k hst.2⟩
    have hloop := forLoop_keeps hround (s := ⟨⟨(firstSector E index s).fs, w⟩, diskBuffer, 0⟩)
      ⟨rfl, hw⟩ (fun _ => true) (sectorCount size).toNat 0
    exact hfree _ _ hloop.1 hloop.2

/-- **`WriteFile`**, also to an index without a file. -/
theorem writeFile_keeps (hE : E.Balanced I) (inodeIndex : ℤ) (buffer : ℕ → UInt8)
    (size : UInt32) (h : I i s.world) : I i (writeFile E inodeIndex buffer size s).2.world := by
  rw [writeFile]
  split
  · exact h
  · simp only
    split
    · exact h
    · exact writeInode_keeps hE _ buffer size h

/-! ## Every operation -/

/-- **Every call of the file system leaves the heap as it found it.** -/
theorem fsStep_keeps (hE : E.Balanced I) (call : FsCall) (h : I i s.world) :
    I i (fsStep E s call).1.world := by
  cases call with
  | format label => exact saveInodeTable_keeps hE (saveSuperblock_keeps hE h)
  | mount =>
    have hload := loadSuperblock_keeps hE h
    rw [fsStep, mount]
    simp only
    split
    · exact hload
    · exact loadInodeTable_keeps hE hload
  | unmount =>
    rw [fsStep, unmount]
    split
    · exact saveInodeTable_keeps hE (saveSuperblock_keeps hE h)
    · exact h
  | createFile filename =>
    rw [fsStep, createFile]
    split
    · exact h
    · split
      · exact h
      · split
        · exact h
        · exact saveSuperblock_keeps hE (saveInodeTable_keeps hE h)
  | openFile filename => exact h
  | deleteFile filename =>
    rw [fsStep, deleteFile]
    split
    · exact h
    · split
      · exact h
      · exact saveSuperblock_keeps hE (saveInodeTable_keeps hE h)
  | readFile inodeIndex buffer size => exact readFile_keeps hE inodeIndex buffer size h
  | writeFile inodeIndex buffer size => exact writeFile_keeps hE inodeIndex buffer size h
  | fileExists filename => exact h
  | getFileSize filename => exact h

end FileSystem
