/-
# Where file data goes

`Format` reserves 1000 sectors behind the inode table, and no function looks at this
number again.  As long as every write fits, the allocation counter and all data stay in
the reserved area; a write that does not fit is not refused.  On a disk image of unknown
origin it is the start sectors in the image that decide whether file data can reach the
metadata sectors.
-/
import HydraOS.DataWrites

namespace FileSystem

/-! ## The sectors of a write -/

/-- The sector belongs to the reserved data sectors. -/
def InArea (fs : FileSystem) (x : UInt32) : Prop :=
  10 ≤ x.toNat ∧ x.toNat < 10 + fs.superblock.totalSectors.toNat

/-- The sectors that the write allocates are still free in the reserved area. -/
def Fits (fs : FileSystem) (index : Fin 64) (size : UInt32) : Prop :=
  fs.superblock.usedSectors.toNat + fs.allocCount index size ≤ fs.superblock.totalSectors.toNat

instance (fs : FileSystem) (index : Fin 64) (size : UInt32) : Decidable (fs.Fits index size) :=
  inferInstanceAs (Decidable (_ ≤ _))

/-- After the write no more sectors are in use than there are; the sectors to which it has
written data are reserved ones, and so is every sector that it has written, saves of the
metadata apart; and if it did not fit, then it was refused. -/
def StaysInside {σ : Type} (E : Env σ) (s : Sys σ) (inodeIndex : ℤ) (buffer : ℕ → UInt8)
    (size : UInt32) : Prop :=
  let r := writeFile E inodeIndex buffer size s
  r.2.fs.superblock.usedSectors ≤ r.2.fs.superblock.totalSectors ∧
    (∀ x, WritesDataTo E s inodeIndex buffer size x → s.fs.InArea x) ∧
    (∀ e ∈ writeRecord E s inodeIndex buffer size, SavesMetadata e ∨ s.fs.InArea e.1) ∧
    (¬ WriteMeets Fits s (.writeFile inodeIndex buffer size) → r = (-1, s))

section Area

variable {fs : FileSystem} {index : Fin 64} {size : UInt32} {B : ℕ}

/-- A write that fits stays below the end of the reserved area. -/
theorem Extents.sectorsBelow_of_fits (h : Extents B fs) (hi : fs.InUse index)
    (hfits : fs.Fits index size) :
    fs.SectorsBelow (10 + fs.superblock.totalSectors.toNat) index size := by
  unfold Fits allocCount at hfits
  unfold SectorsBelow allocCount
  have htotal := fs.superblock.totalSectors.toNat_lt
  have hmark : fs.mark = 10 + fs.superblock.usedSectors.toNat := rfl
  constructor
  · intro k hk
    omega
  · intro k hk
    by_cases h0 : (fs.inodes index).startSector = 0
    · rw [if_pos h0] at hfits
      have hle : (fs.writeStart index).toNat ≤ fs.mark := by
        unfold writeStart
        rw [if_pos h0, UInt32.toNat_add, hmark]
        exact Nat.mod_le _ _
      omega
    · rw [if_neg h0] at hfits
      have hstart : fs.writeStart index = (fs.inodes index).startSector := if_neg h0
      have hfile := h.file index hi h0
      rw [hstart]
      omega

/-- Where such a write goes. -/
theorem Extents.inArea (h : Extents B fs) (hB : B ≤ 2 ^ 32) (hi : fs.InUse index)
    (hbelow : fs.SectorsBelow B index size) (htotal : B = 10 + fs.superblock.totalSectors.toNat)
    {k : ℕ} (hk : k < (sectorCount size).toNat) : fs.InArea (fs.writeSector index k) := by
  have hstart := h.writeStart_bounds hB hi hbelow
  have hle := mark_add_allocCount_le h hbelow
  have hsector : (fs.writeSector index k).toNat = (fs.writeStart index).toNat + k := by
    unfold writeSector
    rw [UInt32.toNat_add, toNat_ofNat_of_lt (by omega), Nat.mod_eq_of_lt (by omega)]
  unfold InArea
  rw [hsector]
  omega

end Area

/-! ## The reserved area -/

section Reserved

variable {σ : Type} {F : FaithfulEnv σ} {s : Sys σ} {call : FsCall}

/-- **The reserved area**: the metadata is saved, the files lie in the 1000 sectors that
`Format` reserves. -/
structure Reserved (fs : FileSystem) (d : UInt32 → Sector) : Prop where
  consistent : Consistent 1010 fs d
  total : fs.superblock.totalSectors = 1000

theorem Reserved.used_le {fs : FileSystem} {d : UInt32 → Sector} (h : Reserved fs d) :
    fs.superblock.usedSectors.toNat ≤ 1000 := by
  have hmark := h.consistent.extents.mark_le
  unfold mark at hmark
  omega

/-- A call whose write fits stays below sector 1010. -/
theorem Reserved.callBelow (h : Reserved s.fs (F.disk s.world)) (hcall : WriteMeets Fits s call) :
    CallBelow 1010 s call := by
  cases call with
  | writeFile inodeIndex buffer size =>
    intro hm i hidx hi
    have hbelow := h.consistent.extents.sectorsBelow_of_fits hi (hcall hm i hidx hi)
    rwa [h.total] at hbelow
  | _ => trivial

/-- **Every call whose write fits stays in the reserved area.** -/
theorem Reserved.step (h : Reserved s.fs (F.disk s.world)) (hcall : WriteMeets Fits s call) :
    Reserved (fsStep F.toEnv s call).1.fs (F.disk (fsStep F.toEnv s call).1.world) := by
  refine ⟨h.consistent.step (by decide) (by decide) (h.callBelow hcall), ?_⟩
  have hchange := h.consistent.saved.change call
  generalize (fsStep F.toEnv s call).1.fs = fs' at hchange
  cases hchange with
  | formatted label => rfl
  | allocated buffer size hm hi hfull => exact absurd F.malloc_some hfull
  | _ => exact h.total

/-- After a `Format`, every run whose writes fit stays in the reserved area. -/
theorem reserved_run (label : CStr) {calls : List FsCall}
    (hok : Along (fsStep F.toEnv) (WriteMeets Fits) s (.format label :: calls)) :
    Reserved (finalState (fsStep F.toEnv) s (.format label :: calls)).fs
      (F.disk (finalState (fsStep F.toEnv) s (.format label :: calls)).world) := by
  refine finalState_invariant (fun s => Reserved s.fs (F.disk s.world))
    (fun _ _ h hcall => h.step hcall) ⟨consistent_format (by decide) label s, ?_⟩ hok.2
  rw [fs_format]
  rfl

/-- A write that fits stays inside. -/
theorem Reserved.staysInside (h : Reserved s.fs (F.disk s.world)) {inodeIndex : ℤ}
    {buffer : ℕ → UInt8} {size : UInt32}
    (hcall : WriteMeets Fits s (.writeFile inodeIndex buffer size)) :
    StaysInside F.toEnv s inodeIndex buffer size := by
  have hnext := h.step hcall
  have hdata : ∀ x, WritesDataTo F.toEnv s inodeIndex buffer size x → s.fs.InArea x := by
    intro x hx
    obtain ⟨hm, i, hidx, hi, k, hk, rfl⟩ := hx.eq_writeSector
    exact h.consistent.extents.inArea (by decide) hi (h.callBelow hcall hm i hidx hi)
      (by rw [h.total]; rfl) hk
  refine ⟨?_, hdata, ?_, fun hno => absurd hcall hno⟩
  · have hused := hnext.used_le
    have htotal := hnext.total
    rw [fsStep] at hused htotal
    rw [htotal, UInt32.le_iff_toNat_le]
    exact hused
  · intro e he
    exact ((record_writeFile F.toEnv s inodeIndex buffer size).1 e he).imp_right (hdata e.1)

/-- A write that does not fit is made all the same, and the counter leaves the area. -/
theorem Reserved.fits_of_staysInside (h : Reserved s.fs (F.disk s.world)) {inodeIndex : ℤ}
    {buffer : ℕ → UInt8} {size : UInt32} (hin : StaysInside F.toEnv s inodeIndex buffer size) :
    WriteMeets Fits s (.writeFile inodeIndex buffer size) := by
  intro hm i hidx hi
  subst hidx
  have hle := hin.1
  have hused := h.used_le
  have hcount := toNat_sectorCount_le size
  have halloc : s.fs.allocCount i size ≤ 2 ^ 23 + 1 := by
    unfold allocCount
    split <;> omega
  rw [writeFile_of_inUse F.toEnv s hm hi, (writeInode_fs F.toEnv F.malloc_some i buffer size s).2,
    UInt32.le_iff_toNat_le] at hle
  have hsum : (s.fs.written i size).superblock.usedSectors.toNat =
      s.fs.superblock.usedSectors.toNat + s.fs.allocCount i size := by
    show (s.fs.superblock.usedSectors + .ofNat (s.fs.allocCount i size)).toNat = _
    rw [UInt32.toNat_add, toNat_ofNat_of_lt (by omega), Nat.mod_eq_of_lt (by omega)]
  rw [hsum] at hle
  exact hle

/-- **The file system stays inside its reserved area as long as its writes fit.**  In
every state that a run of fitting writes reaches after a `Format`, the counter is at most
the reserved number, and a further write stays inside if and only if it fits. -/
theorem reserved_area (F : FaithfulEnv σ) (s : Sys σ) (label : CStr) (calls : List FsCall)
    (hok : Along (fsStep F.toEnv) (WriteMeets Fits) s (.format label :: calls)) :
    let t := finalState (fsStep F.toEnv) s (.format label :: calls)
    t.fs.superblock.usedSectors ≤ t.fs.superblock.totalSectors ∧
      ∀ inodeIndex buffer size, StaysInside F.toEnv t inodeIndex buffer size ↔
        WriteMeets Fits t (.writeFile inodeIndex buffer size) := by
  have h := reserved_run (F := F) label hok
  refine ⟨?_, fun inodeIndex buffer size => ⟨h.fits_of_staysInside, h.staysInside⟩⟩
  rw [h.total, UInt32.le_iff_toNat_le]
  exact h.used_le

/-- One file of one sector. -/
theorem reserved_area_one_file :
    let t := finalState (fsStep idealEnv.toEnv) ⟨blank, fun _ _ => 0⟩
      [.format nameA, .mount, .createFile nameA, .writeFile 0 (fun _ => 7) 1]
    t.fs.superblock.usedSectors ≤ t.fs.superblock.totalSectors ∧
      ∀ inodeIndex buffer size, StaysInside idealEnv.toEnv t inodeIndex buffer size ↔
        WriteMeets Fits t (.writeFile inodeIndex buffer size) :=
  reserved_area idealEnv ⟨blank, fun _ _ => 0⟩ nameA
    [.mount, .createFile nameA, .writeFile 0 (fun _ => 7) 1] (by decide +kernel)

/-- A write of 1001 sectors is made, with 1000 reserved. -/
theorem overlong_write_not_refused :
    let t := finalState (fsStep idealEnv.toEnv) ⟨blank, fun _ _ => 0⟩
      [.format nameA, .mount, .createFile nameA]
    let r := writeFile idealEnv.toEnv (0 : Fin 64).val (fun _ => 7) 512512 t
    r.1 = 512512 ∧ r.2.fs.superblock.totalSectors = 1000 ∧
      r.2.fs.superblock.usedSectors = 1001 := by
  intro t r
  have hm : t.fs.mounted = true := by decide +kernel
  have hi : t.fs.InUse 0 := by decide +kernel
  obtain ⟨hres, hfs⟩ := writeInode_fs idealEnv.toEnv idealEnv.malloc_some 0 (fun _ => 7) 512512 t
  have hr : r = writeInode idealEnv.toEnv 0 (fun _ => 7) 512512 t :=
    writeFile_of_inUse idealEnv.toEnv t hm hi
  rw [hr, hres, hfs]
  decide +kernel

end Reserved

/-! ## Images of unknown origin -/

/-- A call on the files of a mounted disk. -/
def OnFiles : FsCall → Prop
  | .format _ | .mount | .unmount => False
  | _ => True

/-- Neither the allocation counter nor the sector numbers of the write pass `2 ^ 32`. -/
def NoWrap (fs : FileSystem) (index : Fin 64) (size : UInt32) : Prop :=
  ((fs.inodes index).startSector = 0 → fs.mark < 2 ^ 32) ∧
    (fs.writeStart index).toNat + (sectorCount size).toNat ≤ 2 ^ 32

/-- If the call writes to a file, then no sector to which it writes file data is a metadata
sector or the boot sector, and all that it writes to these saves metadata. -/
def SparesMetadata {σ : Type} (E : Env σ) (s : Sys σ) : FsCall → Prop
  | .writeFile inodeIndex buffer size =>
    (∀ x, WritesDataTo E s inodeIndex buffer size x → 10 ≤ x.toNat) ∧
      ∀ e ∈ writeRecord E s inodeIndex buffer size, SavesMetadata e ∨ 10 ≤ e.1.toNat
  | _ => True

/-- From the state `s` on, all calls on files that do not wrap spare the metadata. -/
def Protected {σ : Type} (E : Env σ) (s : Sys σ) : Prop :=
  ∀ calls, (∀ call ∈ calls, OnFiles call) → Along (fsStep E) (WriteMeets NoWrap) s calls →
    Along (fsStep E) (SparesMetadata E) s calls

/-- Every file that has sectors starts on a data sector. -/
def StartsOnData (fs : FileSystem) : Prop :=
  ∀ i, fs.InUse i → (fs.inodes i).startSector = 0 ∨ 10 ≤ (fs.inodes i).startSector.toNat

instance (fs : FileSystem) (index : Fin 64) (size : UInt32) : Decidable (fs.NoWrap index size) :=
  inferInstanceAs (Decidable (_ ∧ _))

instance (fs : FileSystem) : Decidable fs.StartsOnData := inferInstanceAs (Decidable (∀ _, _))

section Images

variable {σ : Type} {E : Env σ} {s : Sys σ} {fs : FileSystem} {index : Fin 64} {size : UInt32}
  {call : FsCall}

/-- A write that does not wrap starts on a data sector. -/
theorem StartsOnData.writeStart (h : fs.StartsOnData) (hi : fs.InUse index)
    (hwrap : (fs.inodes index).startSector = 0 → fs.mark < 2 ^ 32) :
    10 ≤ (fs.writeStart index).toNat := by
  rw [toNat_writeStart hwrap]
  split
  · unfold mark
    omega
  · next h0 => exact (h index hi).resolve_left h0

/-- All sectors of a write that does not wrap are data sectors. -/
theorem StartsOnData.le_writeSector (h : fs.StartsOnData) (hi : fs.InUse index)
    (hwrap : fs.NoWrap index size) {k : ℕ} (hk : k < (sectorCount size).toNat) :
    10 ≤ (fs.writeSector index k).toNat := by
  have hstart := h.writeStart hi hwrap.1
  have hend := hwrap.2
  unfold writeSector
  rw [UInt32.toNat_add, toNat_ofNat_of_lt (by omega), Nat.mod_eq_of_lt (by omega)]
  omega

/-- Replacing one inode by one that is free or starts on a data sector. -/
theorem StartsOnData.update {fs' : FileSystem} (h : fs.StartsOnData)
    (hother : ∀ j ≠ index, fs'.inodes j = fs.inodes j)
    (hself : fs'.InUse index → (fs'.inodes index).startSector = 0 ∨
      10 ≤ (fs'.inodes index).startSector.toNat) : fs'.StartsOnData := by
  intro j hj
  by_cases hji : j = index
  · subst hji
    exact hself hj
  · unfold InUse at hj
    rw [hother j hji] at hj ⊢
    exact h j hj

/-- **Every call on files that does not wrap keeps the start sectors on data sectors.** -/
theorem StartsOnData.step (h : s.fs.StartsOnData) (hcall : OnFiles call)
    (hwrap : WriteMeets NoWrap s call) : (fsStep E s call).1.fs.StartsOnData := by
  have hchange := @fsStep_change _ E s call (by rintro rfl; exact hcall)
  generalize (fsStep E s call).1.fs = fs' at hchange
  cases hchange with
  | same => exact h
  | formatted label => exact absurd hcall id
  | mounted call b => exact h
  | created hfree =>
    refine h.update (fun j hj => Function.update_of_ne hj _ _) fun _ => .inl ?_
    simp [FileSystem.created, setInode]
  | deleted hlookup =>
    refine h.update (fun j hj => Function.update_of_ne hj _ _) fun hi => absurd hi ?_
    simp [InUse, FileSystem.deleted, setInode]
  | @written i buffer size hm hi =>
    refine h.update (fun j hj => Function.update_of_ne hj _ _) fun _ => .inr ?_
    have hstart := h.writeStart hi (hwrap hm i rfl hi).1
    simpa [FileSystem.written, setInode] using hstart
  | @allocated i buffer size hm hi =>
    unfold FileSystem.allocated
    split
    · next h0 =>
      refine h.update (fun j hj => Function.update_of_ne hj _ _) fun _ => .inr ?_
      have hstart := h.writeStart hi (hwrap hm i rfl hi).1
      rw [FileSystem.writeStart, if_pos h0] at hstart
      simpa [setInode] using hstart
    · exact h

theorem StartsOnData.sparesMetadata (h : s.fs.StartsOnData) (hwrap : WriteMeets NoWrap s call) :
    SparesMetadata E s call := by
  cases call with
  | writeFile inodeIndex buffer size =>
    have hdata : ∀ x, WritesDataTo E s inodeIndex buffer size x → 10 ≤ x.toNat := by
      intro x hx
      obtain ⟨hm, i, hidx, hi, k, hk, rfl⟩ := hx.eq_writeSector
      exact h.le_writeSector hi (hwrap hm i hidx hi) hk
    refine ⟨hdata, ?_⟩
    intro e he
    exact ((record_writeFile E s inodeIndex buffer size).1 e he).imp_right (hdata e.1)
  | _ => trivial

/-- A file that starts on a metadata sector is one write away from its loss. -/
theorem Protected.startsOnData (h : Protected E s) (hE : E.NeverFull) (hm : s.fs.mounted = true) :
    s.fs.StartsOnData := by
  intro i hi
  by_contra hstart
  rw [not_or, not_le] at hstart
  have hws : s.fs.writeStart i = (s.fs.inodes i).startSector := if_neg hstart.1
  have hone : (sectorCount 1).toNat = 1 := by decide
  -- a write of one byte
  have hspare := (h [.writeFile i.val (fun _ => 0) 1] (by simp [OnFiles])
    ⟨fun _ j hj _ => ?_, trivial⟩).1.1 _
    (writesDataTo_writeSector hE hm hi (show 0 < (sectorCount 1).toNat by decide))
  · unfold writeSector at hspare
    rw [hws, show ∀ x : UInt32, x + UInt32.ofNat 0 = x from UInt32.add_zero] at hspare
    omega
  · obtain rfl : j = i := Fin.ext (by omega)
    refine ⟨fun h0 => absurd h0 hstart.1, ?_⟩
    rw [hws, hone]
    omega

/-- **Metadata is protected exactly from images whose files start on data sectors.**  After a
successful `Mount`, all calls on files, as long as they do not wrap, write file data to data
sectors only if every file in the table that `Mount` loaded has no sectors or starts at sector
10 or above; and, with memory for the buffers, only then. -/
theorem metadata_protected (E : Env σ) (s : Sys σ) (hmount : (mount E s).1 = true) :
    ((mount E s).2.fs.StartsOnData → Protected E (mount E s).2) ∧
      (E.NeverFull → Protected E (mount E s).2 → (mount E s).2.fs.StartsOnData) := by
  constructor
  · intro h calls hcalls hok
    exact (hok.and_forall hcalls).of_invariant (fun s => s.fs.StartsOnData)
      (fun s call hs hcall => hs.step hcall.2 hcall.1)
      (fun s call hs hcall => hs.sparesMetadata hcall.1) h
  · intro hE h
    refine h.startsOnData hE ?_
    by_cases hmagic : (loadSuperblock E s).fs.superblock.magic = fsMagic
    · rw [mount_of_loaded E s hmagic]
    · rw [mount_of_not_loaded E s hmagic] at hmount
      cases hmount

/-- A disk whose superblock has the magic number and whose first inode is a file of one
byte that starts at the sector `start`. -/
def imageDisk (start : UInt32) : UInt32 → Sector := fun x =>
  if x = fsSuperblockSec then superblockSector ⟨fsMagic, 1000, 0, 1, fun _ => 0⟩
  else if x = tableSector 0 then
    inodeTableSector (fun i => ⟨fun _ => 97, 1, start, if i.val = 0 then 1 else 0, 0, 0⟩) 0
  else fun _ => 0

/-- An image with a file at sector 20. -/
theorem metadata_protected_image :
    Protected idealEnv.toEnv (mount idealEnv.toEnv ⟨construct blank, imageDisk 20⟩).2 ↔
      (mount idealEnv.toEnv ⟨construct blank, imageDisk 20⟩).2.fs.StartsOnData := by
  have h := metadata_protected idealEnv.toEnv ⟨construct blank, imageDisk 20⟩ (by decide +kernel)
  exact ⟨h.2 idealEnv.malloc_some, h.1⟩

/-- On an image with a file at sector 1, one write to that file replaces the superblock,
and the disk cannot be mounted again. -/
theorem write_replaces_superblock :
    let s : Sys (UInt32 → Sector) := ⟨construct blank, imageDisk 1⟩
    let r := writeFile idealEnv.toEnv 0 (fun _ => 7) 1 (mount idealEnv.toEnv s).2
    (mount idealEnv.toEnv s).1 = true ∧ r.1 = 1 ∧
      r.2.world fsSuperblockSec 0 = 7 ∧ (mount idealEnv.toEnv r.2).1 = false := by
  decide +kernel

end Images

end FileSystem
