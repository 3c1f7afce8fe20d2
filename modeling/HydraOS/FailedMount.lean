/-
# A mount that fails

`Mount` reads the superblock into the object before it looks at the magic number.  When it
then fails, the object keeps what was read, and if it was mounted it stays so.  The next save
puts that superblock on the disk.
-/
import HydraOS.FileData

namespace FileSystem

section Mount

variable {σ : Type} (E : Env σ)

/-- **A failed mount changes nothing**: neither the superblock nor the inode table nor the
flag. -/
def MountKeeps (s : Sys σ) : FsCall → Prop
  | .mount => (fsStep E s .mount).2 = .flag false → (fsStep E s .mount).1.fs = s.fs
  | _ => True

/-- **The condition**: there is no buffer for the sector, or what is in the buffer after the
read has the magic number, or it is the superblock in memory. -/
def MountHarmless (s : Sys σ) : FsCall → Prop
  | .mount => ∀ buffer w, E.malloc s.world = (some buffer, w) →
      let superblock := Superblock.ofMem (E.read28 fsSuperblockSec buffer w).1.data.get
      superblock.magic = fsMagic ∨ superblock = s.fs.superblock
  | _ => True

/-- The superblock is the only thing that loading it changes. -/
theorem loadSuperblock_fs_iff (s : Sys σ) :
    (loadSuperblock E s).fs = s.fs ↔ (loadSuperblock E s).fs.superblock = s.fs.superblock := by
  constructor
  · intro h
    rw [h]
  · intro h
    rw [loadSuperblock] at h ⊢
    split
    · rfl
    · next hmalloc =>
      rw [hmalloc] at h
      exact FileSystem.ext rfl h rfl

theorem mountKeeps_iff (s : Sys σ) (call : FsCall) : MountKeeps E s call ↔ MountHarmless E s call := by
  cases call with
  | mount =>
    have hload : (∀ buffer w, E.malloc s.world = (some buffer, w) →
        let superblock := Superblock.ofMem (E.read28 fsSuperblockSec buffer w).1.data.get
        superblock.magic = fsMagic ∨ superblock = s.fs.superblock) ↔
          (loadSuperblock E s).fs.superblock.magic = fsMagic ∨
            (loadSuperblock E s).fs.superblock = s.fs.superblock := by
      rw [loadSuperblock]
      rcases E.malloc s.world with ⟨_ | buffer, w⟩
      · apply iff_of_true
        · intro buffer w h
          cases h
        · exact .inr rfl
      · constructor
        · intro h
          exact h buffer w rfl
        · rintro h _ _ ⟨⟩
          exact h
    rw [MountHarmless, hload, MountKeeps, fsStep]
    by_cases hmagic : (loadSuperblock E s).fs.superblock.magic = fsMagic
    · apply iff_of_true
      · intro h
        rw [mount_of_loaded E s hmagic] at h
        cases h
      · exact .inl hmagic
    · rw [mount_of_not_loaded E s hmagic]
      simp only [true_implies]
      rw [loadSuperblock_fs_iff]
      exact (or_iff_right hmagic).symm
  | _ => exact Iff.rfl

/-- Every call keeps the magic number if a failed mount is harmless. -/
theorem magic_fsStep {s : Sys σ} {call : FsCall} (hmagic : s.fs.superblock.magic = fsMagic)
    (h : MountHarmless E s call) : (fsStep E s call).1.fs.superblock.magic = fsMagic := by
  by_cases hmount : call = .mount
  · subst hmount
    rw [fsStep]
    by_cases hloaded : (loadSuperblock E s).fs.superblock.magic = fsMagic
    · rw [mount_of_loaded E s hloaded]
      exact (congrArg Superblock.magic (loadInodeTable_superblock E _)).trans hloaded
    · have hkeeps := (mountKeeps_iff E s .mount).mpr h
      rw [MountKeeps, fsStep] at hkeeps
      rw [hkeeps (by rw [mount_of_not_loaded E s hloaded])]
      exact hmagic
  · have hchange := fsStep_change E s hmount
    generalize (fsStep E s call).1.fs = after at hchange ⊢
    generalize s.fs = before at hchange hmagic
    cases hchange with
    | same => exact hmagic
    | formatted => rfl
    | mounted => exact hmagic
    | created => exact hmagic
    | deleted => exact hmagic
    | written => exact hmagic
    | allocated =>
      rw [allocated]
      split <;> exact hmagic

/-- **When a failed mount changes nothing.**  In every run, for every drive and allocator, no
failed mount changes the object if and only if each of them is harmless; and then a superblock
that has the magic number is never replaced by one that has not, so none is saved. -/
theorem failed_mounts_keep_iff (s : Sys σ) (calls : List FsCall) :
    (Along (fsStep E) (MountKeeps E) s calls ↔ Along (fsStep E) (MountHarmless E) s calls) ∧
      (s.fs.superblock.magic = fsMagic → Along (fsStep E) (MountHarmless E) s calls →
        (finalState (fsStep E) s calls).fs.superblock.magic = fsMagic) := by
  constructor
  · exact along_congr (mountKeeps_iff E)
  · intro hmagic hok
    exact finalState_invariant (fun s => s.fs.superblock.magic = fsMagic)
      (fun _ _ h hok => magic_fsStep E h hok) hmagic hok

end Mount

/-- A drive that no longer delivers data: a read leaves the buffer as it was. -/
def deadReads : Env (UInt32 → Sector) :=
  { idealEnv.toEnv with read28 := fun _ buffer w => (buffer, w) }

/-- A mounted volume is mounted again, and the read fails.  The call reports failure, the
volume stays mounted, and creating a file saves a superblock that was never read. -/
theorem failed_mount_lost_superblock :
    let s := finalState (fsStep idealEnv.toEnv) ⟨blank, fun _ _ => 0⟩ [.format nameA, .mount]
    let t := (fsStep deadReads s .mount).1
    let u := fsStep deadReads t (.createFile nameB)
    s.fs.mounted = true ∧ (fsStep deadReads s .mount).2 = .flag false ∧
      ¬ MountKeeps deadReads s .mount ∧ t.fs.mounted = true ∧ u.2 = .index 0 ∧
      (diskSuperblock s.world).magic = fsMagic ∧ (diskSuperblock u.1.world).magic ≠ fsMagic := by
  intro s t u
  have hmagic : s.fs.superblock.magic = fsMagic := by decide +kernel
  have hlost : t.fs.superblock.magic ≠ fsMagic := by decide +kernel
  refine ⟨by decide +kernel, rfl, ?_, by decide +kernel, rfl, by decide +kernel,
    by decide +kernel⟩
  intro hkeeps
  have hsame : t.fs = s.fs := hkeeps rfl
  rw [hsame] at hlost
  exact hlost hmagic

end FileSystem
