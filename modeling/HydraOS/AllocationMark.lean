/-
# Extents below the allocation mark

`AllocateSector` hands out the sector at the mark and moves the mark.  A first write takes
one sector for the start of the file and one for every further sector; a rewrite, for its
second sector and every later one, takes a sector that it does not use.  The mark so moves
at least as far as the files grow, and no file reaches beyond it.
-/
import HydraOS.FileSystemRuns

namespace FileSystem

/-! ## Calls that keep the counter small -/

/-- A write of less than `2 ^ 31` bytes, or another call. -/
def SmallWrite : FsCall → Prop
  | .writeFile _ _ size => size.toNat < 2 ^ 31
  | _ => True

/-- A small write, or another call, after which fewer than `2 ^ 28` sectors are used. -/
def KeepsUsedBelow {σ : Type} (E : Env σ) (s : Sys σ) (call : FsCall) : Prop :=
  SmallWrite call ∧ (fsStep E s call).1.fs.superblock.usedSectors.toNat < 2 ^ 28

instance : ∀ call, Decidable (SmallWrite call)
  | .writeFile _ _ size => inferInstanceAs (Decidable (size.toNat < 2 ^ 31))
  | .format _ | .mount | .unmount | .createFile _ | .openFile _ | .deleteFile _ | .readFile _ _ _
  | .fileExists _ | .getFileSize _ => isTrue trivial

instance {σ : Type} (E : Env σ) (s : Sys σ) (call : FsCall) : Decidable (KeepsUsedBelow E s call) :=
  inferInstanceAs (Decidable (_ ∧ _))

/-- The files have less than `2 ^ 31` bytes, and fewer than `2 ^ 28` sectors are used. -/
structure Small (fs : FileSystem) : Prop where
  used : fs.superblock.usedSectors.toNat < 2 ^ 28
  size : ∀ i, fs.InUse i → (fs.inodes i).size.toNat < 2 ^ 31

section Small

variable {σ : Type} {E : Env σ} {fs fs' : FileSystem} {i : Fin 64} {call : FsCall} {size : UInt32}

/-- The sizes stay small under small writes. -/
theorem FsChange.size_lt (h : FsChange E fs call fs') (hsmall : SmallWrite call)
    (hsize : ∀ i, fs.InUse i → (fs.inodes i).size.toNat < 2 ^ 31) (i : Fin 64) (hi : fs'.InUse i) :
    (fs'.inodes i).size.toNat < 2 ^ 31 := by
  cases h with
  | same => exact hsize i hi
  | formatted label => exact absurd rfl hi
  | mounted _ b => exact hsize i hi
  | @created f j hfree =>
    by_cases hij : i = j
    · subst hij
      simp [FileSystem.created, setInode]
    · rw [inodes_created_of_ne f hij]
      exact hsize i (((inUse_created f).mp hi).resolve_left hij)
  | deleted hlookup =>
    obtain ⟨hi', hsame⟩ := file_of_deleted hi
    rw [hsame]
    exact hsize i hi'
  | @written j buffer size hm hj =>
    by_cases hij : i = j
    · subst hij
      rw [inodes_written_self]
      exact hsmall
    · rw [InUse, inodes_written_of_ne fs hij] at hi
      rw [inodes_written_of_ne fs hij]
      exact hsize i hi
  | @allocated j buffer size hm hj hfull =>
    unfold FileSystem.allocated at hi ⊢
    split at hi
    · next h0 =>
      rw [if_pos h0]
      by_cases hij : i = j
      · subst hij
        simpa [setInode] using hsize i hj
      · have hsame : (((fs.bumpUsed 1).setInode j { fs.inodes j with
            startSector := fsDataStartSec + fs.superblock.usedSectors }).inodes i) = fs.inodes i :=
          Function.update_of_ne hij _ _
        rw [InUse, hsame] at hi
        rw [hsame]
        exact hsize i hi
    · next h0 =>
      rw [if_neg h0]
      exact hsize i hi

/-- A small write takes at most `2 ^ 22 + 1` sectors. -/
theorem allocCount_le (fs : FileSystem) (i : Fin 64) (h : size.toNat < 2 ^ 31) :
    fs.allocCount i size ≤ 2 ^ 22 + 1 := by
  have hcount := toNat_sectorCount size
  rw [storedLength_eq h] at hcount
  rw [allocCount]
  split <;> omega

/-- **The counter after a small write** has not overflowed if it is small again. -/
theorem mark_written (hused : fs.superblock.usedSectors.toNat < 2 ^ 28) (hsize : size.toNat < 2 ^ 31) :
    (fs.written i size).mark = fs.mark + fs.allocCount i size := by
  have hle := allocCount_le fs i hsize
  exact mark_bumpUsed (by rw [mark]; omega)

/-- A write that keeps the counter small stays below the sector `2 ^ 28 + 10`. -/
theorem Extents.sectorsBelow (h : Extents (2 ^ 28 + 10) fs) (hi : fs.InUse i)
    (hused : fs.superblock.usedSectors.toNat < 2 ^ 28) (hsize : size.toNat < 2 ^ 31)
    (hused' : (fs.written i size).superblock.usedSectors.toNat < 2 ^ 28) :
    fs.SectorsBelow (2 ^ 28 + 10) i size := by
  have hmark := mark_written (i := i) hused hsize
  have hmark' : (fs.written i size).mark < 2 ^ 28 + 10 := by
    rw [mark]
    omega
  have hstart := @toNat_writeStart fs i fun _ => (by rw [mark]; omega : fs.mark < 2 ^ 32)
  refine ⟨fun k hk => by omega, fun k hk => ?_⟩
  rw [hstart]
  rw [allocCount] at hmark
  split at hmark
  · next h0 =>
    rw [if_pos h0]
    omega
  · next h0 =>
    have hfile := h.file i hi h0
    rw [if_neg h0]
    omega

end Small

/-! ## Runs -/

section Runs

variable {σ : Type} {F : FaithfulEnv σ} {s : Sys σ} {call : FsCall}

/-- **A call that keeps the counter small** stays below the sector `2 ^ 28 + 10`. -/
theorem KeepsUsedBelow.callBelow (h : Extents (2 ^ 28 + 10) s.fs) (hs : Small s.fs)
    (hcall : KeepsUsedBelow F.toEnv s call) : CallBelow (2 ^ 28 + 10) s call := by
  cases call with
  | writeFile inodeIndex buffer size =>
    rintro hm i rfl hi
    have hused := hcall.2
    rw [fs_writeFile F.toEnv s F.malloc_some hm hi] at hused
    exact h.sectorsBelow hi hs.used hcall.1 hused
  | _ => trivial

/-- After a `Format`, the files and the counter stay small and below the mark. -/
theorem small_run (label : CStr) {calls : List FsCall}
    (hok : Along (fsStep F.toEnv) (KeepsUsedBelow F.toEnv) s (.format label :: calls)) :
    let t := finalState (fsStep F.toEnv) s (.format label :: calls)
    Consistent (2 ^ 28 + 10) t.fs (F.disk t.world) ∧ Small t.fs := by
  refine finalState_invariant
    (fun s => Consistent (2 ^ 28 + 10) s.fs (F.disk s.world) ∧ Small s.fs)
    (fun s call h hcall => ?_) ⟨consistent_format (by decide) label s, ?_⟩ hok.2
  · exact ⟨h.1.step (by decide) (by decide) (hcall.callBelow h.1.extents h.2), hcall.2,
      (h.1.saved.change call).size_lt hcall.1 h.2.size⟩
  · rw [fs_format]
    exact ⟨show 0 < 2 ^ 28 by decide, fun i hi => absurd rfl hi⟩

/-- **Extents stay below the allocation mark.**  After a `Format` and any further calls
with writes of less than `2 ^ 31` bytes, as long as fewer than `2 ^ 28` sectors are used,
every file with a start sector lies on the data sectors below the mark; and a next call that
writes to a file without one changes data sectors from the mark on only. -/
theorem extents_below_mark (F : FaithfulEnv σ) (s : Sys σ) (label : CStr) (calls : List FsCall)
    (hok : Along (fsStep F.toEnv) (KeepsUsedBelow F.toEnv) s (.format label :: calls)) :
    let t := finalState (fsStep F.toEnv) s (.format label :: calls)
    (∀ i, t.fs.InUse i → (t.fs.inodes i).startSector ≠ 0 →
        10 ≤ (t.fs.inodes i).startSector.toNat ∧
          (t.fs.inodes i).startSector.toNat + ((t.fs.inodes i).size.toNat + 511) / 512 ≤
            10 + t.fs.superblock.usedSectors.toNat) ∧
      ∀ (i : Fin 64) (buffer : ℕ → UInt8) (size : UInt32),
        (t.fs.inodes i).startSector = 0 →
        KeepsUsedBelow F.toEnv t (.writeFile i.val buffer size) →
        ∀ x : UInt32, 10 ≤ x.toNat ∨ x.toNat = 0 → x.toNat < 10 + t.fs.superblock.usedSectors.toNat →
          F.disk (fsStep F.toEnv t (.writeFile i.val buffer size)).1.world x = F.disk t.world x := by
  intro t
  obtain ⟨hconsistent, hsmall⟩ : Consistent (2 ^ 28 + 10) t.fs (F.disk t.world) ∧ Small t.fs :=
    small_run label hok
  refine ⟨fun i hi h0 => ?_, fun i buffer size h0 hcall x hx hlt => ?_⟩
  · have hfile := hconsistent.extents.file i hi h0
    rw [toNat_sectorCount, storedLength_eq (hsmall.size i hi)] at hfile
    exact ⟨hfile.1, hfile.2.2⟩
  · have hbelow := hcall.callBelow hconsistent.extents hsmall
    rw [fsStep]
    rcases writeFile_cases F.toEnv t i.val buffer size with ⟨-, hres⟩ | ⟨j, hm, hij, hj, hres⟩
    · rw [hres]
    · obtain rfl : j = i := Fin.ext (by exact_mod_cast hij)
      obtain ⟨h10, hwrap⟩ := hconsistent.extents.onDataSectors (by decide) hj (hbelow hm j rfl hj)
      have hstart := @toNat_writeStart t.fs j fun _ => by
        have := hsmall.used
        rw [mark]
        omega
      rw [if_pos h0, mark] at hstart
      have hdisk := (writeInode_disk F j buffer size t h10 hwrap
        hconsistent.saved.synced.superblock).2 x hx
      simp only [hres]
      rw [hdisk, if_neg (by omega)]

/-- A file of two sectors, cut to one byte and then grown to three sectors. -/
theorem extents_below_mark_regrown :
    let t := finalState (fsStep idealEnv.toEnv) ⟨blank, fun _ _ => 0⟩
      [.format nameA, .mount, .createFile nameA, .writeFile 0 (fun _ => 7) 1000,
        .writeFile 0 (fun _ => 7) 1, .writeFile 0 (fun _ => 7) 1500]
    t.fs.superblock.usedSectors = 4 ∧ 10 ≤ (t.fs.inodes 0).startSector.toNat ∧
      (t.fs.inodes 0).startSector.toNat + ((t.fs.inodes 0).size.toNat + 511) / 512 ≤
        10 + t.fs.superblock.usedSectors.toNat :=
  ⟨by decide +kernel, (extents_below_mark idealEnv ⟨blank, fun _ _ => 0⟩ nameA
    [.mount, .createFile nameA, .writeFile 0 (fun _ => 7) 1000, .writeFile 0 (fun _ => 7) 1,
      .writeFile 0 (fun _ => 7) 1500] (by decide +kernel)).1 0 (by decide +kernel)
    (by decide +kernel)⟩

end Runs

end FileSystem
