/-
# Writing over a file in place

`WriteFile` allocates a sector in every round but the first, whatever the file already holds.
So a write to a file that is large enough uses up sectors as soon as it takes more than one.
-/
import HydraOS.FileData

namespace FileSystem

/-- The number of sectors that hold `n` bytes. -/
def sectorsFor (n : ℕ) : ℕ := (n + 511) / 512

/-- The write needs no more sectors than the file in the inode holds. -/
def Overwrites (fs : FileSystem) (i : Fin 64) (size : UInt32) : Prop :=
  fs.mounted = true ∧ fs.InUse i ∧ 1 ≤ sectorsFor (fs.inodes i).size.toNat ∧
    sectorsFor size.toNat ≤ sectorsFor (fs.inodes i).size.toNat

/-- **Overwriting in place does not consume space**: a call that writes over a file leaves the
number of used sectors as it was. -/
def KeepsUsed {σ : Type} (E : Env σ) (s : Sys σ) : FsCall → Prop
  | .writeFile inodeIndex buffer size => ∀ i : Fin 64, (i.val : ℤ) = inodeIndex →
      s.fs.Overwrites i size →
        (fsStep E s (.writeFile inodeIndex buffer size)).1.fs.superblock.usedSectors =
          s.fs.superblock.usedSectors
  | _ => True

/-- **The condition**: the file has a start sector, and the write takes at most one sector, or
is refused for want of a buffer. -/
def InOneSector {σ : Type} (E : Env σ) (s : Sys σ) : FsCall → Prop
  | .writeFile inodeIndex _ size => ∀ i : Fin 64, (i.val : ℤ) = inodeIndex →
      s.fs.Overwrites i size →
        (s.fs.inodes i).startSector ≠ 0 ∧
          ((E.malloc s.world).1 = none ∨ (sectorCount size).toNat ≤ 1)
  | _ => True

section Writes

variable {σ : Type} (E : Env σ) {s : Sys σ} {i : Fin 64}

/-- What a write to an inode in use counts. -/
theorem writeFile_used_iff (hm : s.fs.mounted = true) (hi : s.fs.InUse i) (buffer : ℕ → UInt8)
    (size : UInt32) :
    (writeFile E i.val buffer size s).2.fs.superblock.usedSectors = s.fs.superblock.usedSectors ↔
      (s.fs.inodes i).startSector ≠ 0 ∧
        ((E.malloc s.world).1 = none ∨ (sectorCount size).toNat ≤ 1) := by
  have hcount := toNat_sectorCount_le size
  rw [writeFile_of_inUse E s hm hi]
  by_cases h0 : (s.fs.inodes i).startSector = 0
  · -- the first sector is counted in any case
    apply iff_of_false
    · intro heq
      rcases writeInode_cases E i buffer size s with ⟨-, -, hfs⟩ | ⟨-, hfs⟩
      · rw [hfs, firstSector_fs, if_pos h0] at heq
        exact absurd ((usedSectors_bumpUsed_iff (by omega)).mp heq) (by omega)
      · rw [hfs] at heq
        have hzero := (usedSectors_bumpUsed_iff (by rw [allocCount, if_pos h0]; omega)).mp heq
        rw [allocCount, if_pos h0] at hzero
        omega
    · intro h
      exact h.1 h0
  · have hfirst : firstSector E i s = s := by rw [firstSector, if_neg h0]
    rcases hmalloc : E.malloc s.world with ⟨_ | b, w⟩
    · apply iff_of_true
      · rw [writeInode, hfirst, hmalloc]
      · exact ⟨h0, .inl rfl⟩
    · obtain ⟨-, hfs⟩ := (writeInode_cases E i buffer size s).resolve_left fun h => by
        rw [hfirst, hmalloc] at h
        cases h.1
      have halloc : s.fs.allocCount i size = (sectorCount size).toNat - 1 := by
        rw [allocCount, if_neg h0, Nat.zero_add]
      rw [hfs]
      constructor
      · intro heq
        have hzero := (usedSectors_bumpUsed_iff (by omega)).mp heq
        exact ⟨h0, .inr (by omega)⟩
      · rintro ⟨-, hnone | hone⟩
        · cases hnone
        · exact (usedSectors_bumpUsed_iff (by omega)).mpr (by omega)

theorem keepsUsed_iff (s : Sys σ) (call : FsCall) : KeepsUsed E s call ↔ InOneSector E s call := by
  cases call with
  | writeFile inodeIndex buffer size =>
    apply forall_congr'
    intro i
    apply imp_congr_right
    rintro rfl
    apply imp_congr_right
    rintro ⟨hm, hi, -⟩
    exact writeFile_used_iff E hm hi buffer size
  | _ => exact Iff.rfl

/-- **When overwriting consumes no space.**  In every run, for every drive and allocator, all
writes over a file leave the number of used sectors as it was if and only if each of them takes
at most one sector, or is refused. -/
theorem overwrites_keep_used_iff (s : Sys σ) (calls : List FsCall) :
    Along (fsStep E) (KeepsUsed E) s calls ↔ Along (fsStep E) (InOneSector E) s calls :=
  along_congr (keepsUsed_iff E)

end Writes

/-- A file of two sectors, written again with the same size. -/
theorem overwrite_consumes :
    let write : FsCall := .writeFile (0 : Fin 64).val (fun _ => 7) 1024
    let t := finalState (fsStep idealEnv.toEnv) ⟨blank, fun _ _ => 0⟩
      [.format nameA, .mount, .createFile nameA, write]
    t.fs.Overwrites 0 1024 ∧ t.fs.superblock.usedSectors = 2 ∧
      (fsStep idealEnv.toEnv t write).1.fs.superblock.usedSectors = 3 ∧
      ¬ KeepsUsed idealEnv.toEnv t write := by
  intro write t
  have hover : t.fs.Overwrites 0 1024 := by
    refine ⟨?_, ?_, ?_, ?_⟩
    all_goals decide +kernel
  have hbefore : t.fs.superblock.usedSectors = 2 := by decide +kernel
  have hafter : (fsStep idealEnv.toEnv t write).1.fs.superblock.usedSectors = 3 := by decide +kernel
  refine ⟨hover, hbefore, hafter, ?_⟩
  intro hkeeps
  have hsame := hkeeps 0 rfl hover
  rw [hbefore] at hsame
  exact absurd (hafter.symm.trans hsame) (by decide)

end FileSystem
