/-
# What a power failure leaves behind

A run of the file system is cut between two sector writes, and a fresh object mounts the
disk.  Only one inode can have changed, and every file still starts below the allocation
mark, so that no later allocation hands out its first sector.  The exception is a cut in a
later `Format`, which resets the allocation counter before it clears the inode table.
-/
import HydraOS.Crashes

namespace FileSystem

/-! ## Locality -/

/-- The call is about the inode. -/
def CallAbout (fs : FileSystem) (i : Fin 64) : FsCall → Prop
  | .createFile f =>
    fs.mounted = true ∧ fs.fileExists f = false ∧ fs.findFreeInode = some i
  | .deleteFile f => fs.lookup f = some i
  | .writeFile inodeIndex _ _ => (i.val : ℤ) = inodeIndex
  | _ => False

/-- Byte `j` of an inode on the disk. -/
def inodeByte (d : UInt32 → Sector) (i : Fin 64) (j : ℕ) : UInt8 :=
  (d (tableSector (i.val / 8))).get (i.val % 8 * 64 + j)

section Locality

variable {σ : Type} {F : FaithfulEnv σ} {s : Sys σ} {call : FsCall} {i : Fin 64}

/-- A call changes no inode but the one that it is about. -/
theorem inodes_of_not_about (h : Saved s.fs (F.disk s.world))
    (hcall : ∀ label, call ≠ .format label) (hi : ¬ CallAbout s.fs i call) :
    (fsStep F.toEnv s call).1.fs.inodes i = s.fs.inodes i := by
  have hchange := h.change call
  generalize hfs' : (fsStep F.toEnv s call).1.fs = fs' at hchange ⊢
  cases hchange with
  | same => rfl
  | formatted label => exact absurd rfl (hcall label)
  | mounted _ b => rfl
  | @created f j hfree =>
    rcases createFile_cases F.toEnv s (f := f) with ⟨-, hres⟩ | ⟨k, hm, hex, -, -⟩
    · rw [← hfs', fsStep, hres]
    · refine Function.update_of_ne (fun hij => hi ?_) _ _
      exact ⟨hm, hex, hij ▸ hfree⟩
  | deleted hlookup =>
    refine Function.update_of_ne (fun hij => hi ?_) _ _
    exact hij ▸ hlookup
  | written buffer size hm hinuse =>
    refine Function.update_of_ne (fun hij => hi ?_) _ _
    exact congrArg (fun k : Fin 64 => (k.val : ℤ)) hij
  | allocated buffer size hm hinuse hfull => exact absurd F.malloc_some hfull

/-- An inode that is the same before and after has the same bytes at every point between. -/
theorem Between.inodeByte_eq {fs fs' : FileSystem} {d d' : UInt32 → Sector}
    (h : Between fs fs' d) (hsync : Synced fs d') (hsame : fs'.inodes i = fs.inodes i) {j : ℕ}
    (hj : j < 52) : inodeByte d i j = inodeByte d' i j := by
  have hi := i.isLt
  obtain ⟨sb, -, -, -, htable⟩ := h
  unfold inodeByte
  rw [hsync.inodes _ (by omega), get_inodeTableSector fs.inodes i hj]
  rcases htable (i.val / 8) (by omega) with hold | ⟨hnew, -⟩
  · rw [hold, get_inodeTableSector fs.inodes i hj]
  · rw [hnew, get_inodeTableSector fs'.inodes i hj, hsame]

end Locality

/-- **Crash locality.**  Cut any call but `Format` between two of its sector writes, in any
state that a run below sector `2 ^ 28` reaches after a `Format`: the superblock on the disk
still has the magic number, and every inode that the call is not about has the bytes that
it had before the call. -/
theorem crash_locality {σ : Type} (F : FaithfulEnv σ) (s : Sys σ) (label : CStr)
    (calls : List FsCall) (call : FsCall)
    (hok : Along (fsStep F.toEnv) (CallBelow (2 ^ 28)) s (.format label :: (calls ++ [call])))
    (hcall : ∀ label, call ≠ .format label) :
    let t := finalState (fsStep F.toEnv) s (.format label :: calls)
    ∀ c ∈ cuts F t call, (diskSuperblock (F.disk c)).magic = fsMagic ∧
      ∀ i, ¬ CallAbout t.fs i call → ∀ j < 52,
        inodeByte (F.disk c) i j = inodeByte (F.disk t.world) i j := by
  intro t c hc
  rw [← List.cons_append] at hok
  obtain ⟨hrun, hlast⟩ := hok.append
  have ht := consistent_run (by decide) (by decide) label hrun
  have hbetween := cuts_between ht hlast.1 hcall c hc
  refine ⟨?_, fun i hi j hj => ?_⟩
  · obtain ⟨sb, hsb, hmagic, -⟩ := hbetween
    rw [diskSuperblock_of_sector hsb, hmagic]
  · exact hbetween.inodeByte_eq ht.saved.synced (inodes_of_not_about ht.saved hcall hi) hj

/-- One file is deleted. -/
theorem crash_locality_delete :
    let t := finalState (fsStep idealEnv.toEnv) ⟨blank, fun _ _ => 0⟩
      [.format nameA, .mount, .createFile nameA, .writeFile 0 (fun _ => 7) 1]
    ∀ c ∈ cuts idealEnv t (.deleteFile nameA),
      (diskSuperblock (idealEnv.disk c)).magic = fsMagic ∧
        ∀ i, ¬ CallAbout t.fs i (.deleteFile nameA) → ∀ j < 52,
          inodeByte (idealEnv.disk c) i j = inodeByte (idealEnv.disk t.world) i j :=
  crash_locality idealEnv ⟨blank, fun _ _ => 0⟩ nameA
    [.mount, .createFile nameA, .writeFile 0 (fun _ => 7) 1] (.deleteFile nameA)
    (by decide +kernel) (by simp)

/-! ## Allocation -/

/-- Every file that has sectors starts between the first data sector and the mark. -/
def StartsBelowMark (fs : FileSystem) : Prop :=
  ∀ i, fs.InUse i → (fs.inodes i).startSector ≠ 0 →
    10 ≤ (fs.inodes i).startSector.toNat ∧ (fs.inodes i).startSector.toNat < fs.mark

/-- No file has sectors. -/
def NoneHasSectors (fs : FileSystem) : Prop :=
  ∀ i, fs.InUse i → (fs.inodes i).startSector = 0

/-- **A fresh object that mounts the disk** finds every file below the allocation mark. -/
def MountsSafely {σ : Type} (F : FaithfulEnv σ) (d : UInt32 → Sector) : Prop :=
  ∀ raw w, F.disk w = d →
    let r := mount F.toEnv ⟨construct raw, w⟩
    r.1 = true → StartsBelowMark r.2.fs

/-- The object that `Mount` makes of a disk. -/
def onDisk (d : UInt32 → Sector) : FileSystem := ⟨diskInodes d, diskSuperblock d, true⟩

section Allocation

variable {σ : Type} {F : FaithfulEnv σ} {fs fs' : FileSystem} {d : UInt32 → Sector} {B : ℕ}

theorem mountsSafely_iff {w : σ} (hw : F.disk w = d)
    (hmagic : (diskSuperblock d).magic = fsMagic) :
    MountsSafely F d ↔ StartsBelowMark (onDisk d) := by
  constructor
  · intro h
    obtain ⟨hok, hfs⟩ := mount_of_magic F ⟨construct blank, w⟩ (by rw [hw]; exact hmagic)
    have hsafe := h blank w hw hok
    rwa [hfs, hw] at hsafe
  · intro h raw w' hw' r hr
    obtain ⟨-, hfs⟩ := mount_of_magic F ⟨construct raw, w'⟩ (by rw [hw']; exact hmagic)
    show StartsBelowMark (mount F.toEnv ⟨construct raw, w'⟩).2.fs
    rw [hfs, hw']
    exact h

/-- Files below the marks of two objects are below the mark of every disk between them. -/
theorem Between.startsBelowMark (h : Between fs fs' d) (hext : Extents B fs)
    (hext' : Extents B fs') : StartsBelowMark (onDisk d) := by
  obtain ⟨sb, hsb, -, hused, htable⟩ := h
  intro i hinuse hstart
  have hi := i.isLt
  have hmark : (onDisk d).mark = 10 + sb.usedSectors.toNat := by
    unfold mark onDisk
    rw [diskSuperblock_of_sector hsb]
  have hfile {inodes : Fin 64 → Inode}
      (h : d (tableSector (i.val / 8)) = inodeTableSector inodes (i.val / 8)) :
      (onDisk d).inodes i = inodes i := diskInodes_of_sector h
  unfold InUse at hinuse
  rw [hmark]
  rcases htable (i.val / 8) (by omega) with hold | ⟨hnew, hused'⟩
  · rw [hfile hold] at hinuse hstart ⊢
    have hlt := hext.file i hinuse hstart
    unfold mark at hlt
    omega
  · rw [hfile hnew] at hinuse hstart ⊢
    have hlt := hext'.file i hinuse hstart
    unfold mark at hlt
    omega

/-- The superblock that `Format` writes first: no sectors are in use. -/
def Emptied (d : UInt32 → Sector) : Prop :=
  (diskSuperblock d).magic = fsMagic ∧ (diskSuperblock d).usedSectors = 0

/-- **The cuts of `Format`** have the new superblock. -/
theorem cuts_format (s : Sys σ) (label : CStr) :
    ∀ c ∈ cuts F s (.format label), Emptied (F.disk c) := by
  obtain ⟨s', hs'⟩ : ∃ s' : Sys (σ × List σ), s' = ⟨s.fs.formatted label, (s.world, [])⟩ :=
    ⟨_, rfl⟩
  have hemptied {d : UInt32 → Sector}
      (hd : d fsSuperblockSec = superblockSector s'.fs.superblock) : Emptied d := by
    rw [hs'] at hd
    unfold Emptied
    rw [diskSuperblock_of_sector hd]
    exact ⟨rfl, rfl⟩
  have hadds : Adds F Emptied s'.world
      (saveInodeTable F.logged.toEnv (saveSuperblock F.logged.toEnv s')).world := by
    refine (saveSuperblock_adds ?_).trans (saveInodeTable_adds fun k _ => ?_)
    · exact hemptied (Function.update_self _ _ _)
    · apply hemptied
      rw [tableSaved_superblock, disk_saveSuperblock, Function.update_self]
  intro c hc
  refine (hadds c ?_).resolve_left fun hnil => ?_
  · rw [hs']
    exact hc
  · rw [hs'] at hnil
    cases hnil

/-- Under this superblock no file may have sectors. -/
theorem Emptied.startsBelowMark_iff (h : Emptied d) :
    StartsBelowMark (onDisk d) ↔ NoneHasSectors (onDisk d) := by
  have hmark : (onDisk d).mark = 10 := by
    show 10 + (diskSuperblock d).usedSectors.toNat = 10
    rw [h.2]
    rfl
  constructor
  · intro hbelow i hi
    by_contra hstart
    have hlt := hbelow i hi hstart
    omega
  · intro hnone i hi hstart
    exact absurd (hnone i hi) hstart

end Allocation

/-- **Crash safety of allocation.**  Cut any run below sector `2 ^ 28` after a `Format`
between two sector writes, and mount the disk with a fresh object: every file that has
sectors starts between the first data sector and the allocation mark.  For a cut in a later
`Format` this is so exactly when no file on the disk has sectors any more. -/
theorem crash_allocation {σ : Type} (F : FaithfulEnv σ) (s : Sys σ) (label : CStr)
    (calls : List FsCall) (call : FsCall)
    (hok : Along (fsStep F.toEnv) (CallBelow (2 ^ 28)) s (.format label :: (calls ++ [call]))) :
    let t := finalState (fsStep F.toEnv) s (.format label :: calls)
    MountsSafely F (F.disk t.world) ∧ ∀ c ∈ cuts F t call, MountsSafely F (F.disk c) ↔
      ((∃ label, call = .format label) → NoneHasSectors (onDisk (F.disk c))) := by
  intro t
  rw [← List.cons_append] at hok
  obtain ⟨hrun, hlast⟩ := hok.append
  have ht : Consistent (2 ^ 28) t.fs (F.disk t.world) :=
    consistent_run (by decide) (by decide) label hrun
  have hnow : Between t.fs t.fs (F.disk t.world) :=
    Between.of_synced ht.saved.synced ht.saved.magic le_rfl
  have hsafe {c : σ} {fs' : FileSystem} (h : Between t.fs fs' (F.disk c))
      (hext' : Extents (2 ^ 28) fs') : MountsSafely F (F.disk c) := by
    refine (mountsSafely_iff rfl ?_).mpr (h.startsBelowMark ht.extents hext')
    obtain ⟨sb, hsb, hmagic, -⟩ := h
    rw [diskSuperblock_of_sector hsb, hmagic]
  refine ⟨hsafe hnow ht.extents, fun c hc => ?_⟩
  by_cases hformat : ∃ label, call = .format label
  · obtain ⟨label', rfl⟩ := hformat
    have hempty := cuts_format t label' c hc
    rw [mountsSafely_iff rfl hempty.1, hempty.startsBelowMark_iff]
    simp
  · have hcall : ∀ label, call ≠ .format label := fun label' h => hformat ⟨label', h⟩
    have hext' := @Consistent.extents_step _ F _ _ call (by decide) (by decide) ht hlast.1
    exact ⟨fun _ h => absurd h hformat, fun _ =>
      hsafe (cuts_between ht hlast.1 hcall c hc) hext'⟩

/-- One file is rewritten. -/
theorem crash_allocation_rewrite :
    let t := finalState (fsStep idealEnv.toEnv) ⟨blank, fun _ _ => 0⟩
      [.format nameA, .mount, .createFile nameA, .writeFile 0 (fun _ => 7) 1]
    MountsSafely idealEnv (idealEnv.disk t.world) ∧
      ∀ c ∈ cuts idealEnv t (.writeFile 0 (fun _ => 8) 513),
        MountsSafely idealEnv (idealEnv.disk c) ↔
          ((∃ label, FsCall.writeFile 0 (fun _ => 8) 513 = .format label) →
            NoneHasSectors (onDisk (idealEnv.disk c))) :=
  crash_allocation idealEnv ⟨blank, fun _ _ => 0⟩ nameA
    [.mount, .createFile nameA, .writeFile 0 (fun _ => 7) 1] (.writeFile 0 (fun _ => 8) 513)
    (by decide +kernel)

/-- A disk with one file is formatted again and the call is cut after its first write: the
file is still there, and a fresh object will hand out its sector again. -/
theorem reformat_cut_reuses_sector :
    let t := finalState (fsStep idealEnv.toEnv) ⟨blank, fun _ _ => 0⟩
      [.format nameA, .mount, .createFile nameA, .writeFile 0 (fun _ => 7) 1]
    ∃ c ∈ cuts idealEnv t (.format nameA),
      let r := mount idealEnv.toEnv ⟨construct blank, c⟩
      r.1 = true ∧ r.2.fs.InUse 0 ∧ (r.2.fs.inodes 0).startSector = 10 ∧
        (allocateSector idealEnv.toEnv r.2).1 = 10 ∧ ¬ MountsSafely idealEnv c := by
  intro t
  have hne : cuts idealEnv t (.format nameA) ≠ [] := by
    rw [← List.length_pos_iff]
    decide +kernel
  have hr : ∀ hne : cuts idealEnv t (.format nameA) ≠ [],
      let r := mount idealEnv.toEnv ⟨construct blank, (cuts idealEnv t (.format nameA)).getLast hne⟩
      r.1 = true ∧ r.2.fs.InUse 0 ∧ (r.2.fs.inodes 0).startSector = 10 ∧
        (allocateSector idealEnv.toEnv r.2).1 = 10 ∧ r.2.fs.mark = 10 := by
    decide +kernel
  replace hr := hr hne
  have hmem := List.getLast_mem hne
  generalize (cuts idealEnv t (.format nameA)).getLast hne = c at hr hmem
  refine ⟨c, hmem, ?_⟩
  obtain ⟨hok, hi, hstart, halloc, hmark⟩ := hr
  refine ⟨hok, hi, hstart, halloc, fun hsafe => ?_⟩
  have hbelow := hsafe blank c rfl hok 0 hi (by rw [hstart]; decide)
  rw [hstart, hmark] at hbelow
  exact absurd hbelow.2 (by decide)

end FileSystem
