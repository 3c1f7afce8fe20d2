/-
# The disk test and the files

The command `disk` of the shell writes a pattern to sector 100, "to avoid overwriting
important data", but that sector belongs to the area from which the file system takes its
data sectors.  A file survives the test if and only if it keeps none of its bytes there,
or the same bytes; after the other commands of the shell this means that it does not start
at sector 100, which is the start of the file that takes the 91st sector.
-/
import HydraOS.Shell

open FileSystem

/-! ## What a file keeps in the sector of the test -/

namespace FileSystem

/-- The sectors of a file are sectors of the drive. -/
def OnDrive (fs : FileSystem) (i : Fin 64) : Prop :=
  (fs.inodes i).startSector ≠ 0 → ∀ k < (sectorCount (fs.inodes i).size).toNat,
    (fs.inodes i).startSector.toNat + k < 2 ^ 28

/-- The bytes that a file has in sector 100 are those of the test pattern. -/
def Spares (fs : FileSystem) (d : UInt32 → Sector) (i : Fin 64) : Prop :=
  (fs.inodes i).startSector ≠ 0 → ∀ k < storedLength (fs.inodes i).size,
    (fs.inodes i).startSector + .ofNat (k / 512) = 100 →
      (d 100).get (k % 512) = Shell.testSector.get (k % 512)

/-- The superblock and the inode table on two disks are the same. -/
def MetadataSame (d d' : UInt32 → Sector) : Prop :=
  d' fsSuperblockSec = d fsSuperblockSec ∧
    ∀ sector < 8, d' (tableSector sector) = d (tableSector sector)

end FileSystem

namespace Shell

section DiskTest

variable {σ : Type} {F : FaithfulShellEnv σ} {s : Shell σ} {fs : FileSystem}
  {d : UInt32 → Sector} {i : Fin 64}

/-- A byte of a file on the disk that the test leaves. -/
theorem fileByte_testSector (d : UInt32 → Sector) (start : UInt32) (k : ℕ) :
    fileByte (Function.update d 100 testSector) start k =
      if start + .ofNat (k / 512) = 100 then testSector.get (k % 512)
      else fileByte d start k := by
  unfold fileByte
  split
  · next h => rw [h, Function.update_self]
  · next h => rw [Function.update_of_ne h]

/-- The test does not touch the metadata. -/
theorem metadataSame_testSector (d : UInt32 → Sector) :
    MetadataSame d (Function.update d 100 testSector) := by
  refine ⟨Function.update_of_ne (by decide) _ _, fun sector hsec => ?_⟩
  apply Function.update_of_ne
  intro h
  have htab := toNat_tableSector hsec
  rw [h] at htab
  have h100 : (100 : UInt32).toNat = 100 := rfl
  omega

/-- Whether every read of a file returns the same after the test. -/
def ReadsSame (F : FaithfulShellEnv σ) (s : Shell σ) (i : Fin 64) : Prop :=
  ∀ (out : ℕ → UInt8) (m : UInt32),
    (readFile F.toEnv i.val out m (executeCommand F.toShellEnv s .disk).sys).1 =
      (readFile F.toEnv i.val out m s.sys).1

/-- Without a mounted file system there is nothing to read. -/
theorem readsSame_of_not_mounted (hm : s.sys.fs.mounted = false) : ReadsSame F s i := by
  intro out m
  have hfs : (executeCommand F.toShellEnv s .disk).sys.fs = s.sys.fs := (commandDisk_spec F s).1
  rw [readFile, dif_pos (.inl (by rw [hfs, hm])), readFile, dif_pos (.inl hm)]

/-- **What the test does to a file** that lies on the drive. -/
theorem readsSame_iff (hi : s.sys.fs.InUse i) (hon : s.sys.fs.OnDrive i) :
    ReadsSame F s i ↔ (s.sys.fs.mounted = true → s.sys.fs.Spares (F.disk s.sys.world) i) := by
  obtain ⟨hfs, hdisk⟩ := commandDisk_spec F s
  have hbefore := @readFile_eq σ F.toFaithfulEnv s.sys i
  have hafter := @readFile_eq σ F.toFaithfulEnv (executeCommand F.toShellEnv s .disk).sys i
  have hfs' : (executeCommand F.toShellEnv s .disk).sys.fs = s.sys.fs := hfs
  have hdisk' : F.disk (executeCommand F.toShellEnv s .disk).sys.world =
    Function.update (F.disk s.sys.world) 100 testSector := hdisk
  rw [hfs', hdisk'] at hafter
  constructor
  · intro hsame hm h0 k hk h100
    -- the byte of a read of the whole file
    have hlen : k < readLength (s.sys.fs.inodes i) (s.sys.fs.inodes i).size := by
      rw [readLength, if_neg h0]
      have hle := storedLength_le (s.sys.fs.inodes i).size
      omega
    have hread := hsame (fun _ => 0) (s.sys.fs.inodes i).size
    rw [hafter hm hi hon, hbefore hm hi hon, Prod.mk.injEq] at hread
    have hbyte := congrFun hread.2 k
    simp only [if_pos hlen, fileByte_testSector, if_pos h100] at hbyte
    rw [hbyte, fileByte, h100]
  · intro hspares
    cases hm : s.sys.fs.mounted
    · exact readsSame_of_not_mounted hm
    · intro out m
      rw [hafter hm hi hon, hbefore hm hi hon, Prod.mk.injEq]
      refine ⟨rfl, ?_⟩
      funext k
      split
      · next hk =>
        rw [fileByte_testSector]
        split
        · next h100 =>
          rw [readLength] at hk
          split at hk
          · omega
          · next h0 => rw [← hspares hm h0 k (by omega) h100, fileByte, h100]
        · rfl
      · rfl

end DiskTest

end Shell

/-! ## The files of the shell -/

namespace Shell

/-- Every file with data holds the text of `CommandWrite`. -/
def TextFiles (fs : FileSystem) (d : UInt32 → Sector) : Prop :=
  ∀ i, fs.InUse i → (fs.inodes i).startSector ≠ 0 →
    (fs.inodes i).size = 52 ∧
      d (fs.inodes i).startSector = chunk (fun k => testData.getD k 0) 52 0

/-- The sectors that a command allocates and addresses are below `B`. -/
def CommandBelow {σ : Type} (B : ℕ) (s : Shell σ) (command : Command) : Prop :=
  ∀ call ∈ callOf s.sys.fs command, CallBelow B s.sys call

instance {σ : Type} (B : ℕ) (s : Shell σ) (command : Command) :
    Decidable (CommandBelow B s command) :=
  inferInstanceAs (Decidable (∀ call ∈ callOf s.sys.fs command, CallBelow B s.sys call))

/-- One command. -/
def step {σ : Type} (E : ShellEnv σ) (s : Shell σ) (command : Command) : Shell σ × Unit :=
  (executeCommand E s command, ())

section TextFiles

variable {σ : Type} {F : FaithfulShellEnv σ} {s : Shell σ} {fs fs' : FileSystem}
  {d d' : UInt32 → Sector} {command : Command} {i : Fin 64}

/-- The shell writes one text only. -/
theorem callOf_eq_writeFile {n : ℤ} {buffer : ℕ → UInt8} {size : UInt32}
    (h : callOf fs command = some (.writeFile n buffer size)) :
    buffer = (fun k => testData.getD k 0) ∧ size = 52 := by
  cases command with
  | write args =>
    rw [callOf] at h
    split at h
    · cases h
    · cases h
      exact ⟨rfl, rfl⟩
  | touch args =>
    rw [callOf] at h
    split at h <;> cases h
  | rm args =>
    rw [callOf] at h
    split at h <;> cases h
  | format => cases h
  | mount => cases h
  | ls => cases h
  | cat args => cases h
  | disk => cases h

/-- A write of the text to one more file. -/
theorem TextFiles.written {s : Sys σ} (h : TextFiles s.fs (F.disk s.world))
    (hsaved : Consistent (2 ^ 28) s.fs (F.disk s.world)) (hi : s.fs.InUse i)
    (hbelow : s.fs.SectorsBelow (2 ^ 28) i 52) :
    TextFiles (s.fs.written i 52)
      (F.disk (writeInode F.toEnv i (fun k => testData.getD k 0) 52 s).2.world) := by
  have hdata := hsaved.extents.onDataSectors (by decide) hi hbelow
  have hdisk := (writeInode_disk F.toFaithfulEnv i (fun k => testData.getD k 0) 52 s hdata.1
    hdata.2 hsaved.saved.synced.superblock).2
  have hcount : (sectorCount 52).toNat = 1 := rfl
  have hlow := hbelow.2 0 (by omega)
  intro j hj h0
  by_cases hji : j = i
  · subst hji
    rw [inodes_written_self]
    refine ⟨rfl, ?_⟩
    show F.disk _ (s.fs.writeStart j) = _
    rw [hdisk _ (.inl hdata.1), if_pos ⟨le_rfl, by omega, le_limit_iff.mpr hlow⟩, Nat.sub_self]
    rfl
  · rw [InUse, inodes_written_of_ne s.fs hji] at hj
    rw [inodes_written_of_ne s.fs hji] at h0 ⊢
    obtain ⟨hsize, htext⟩ := h j hj h0
    refine ⟨hsize, ?_⟩
    have hext := hsaved.extents.file j hj h0
    rw [hdisk _ (.inl hext.1)]
    split
    · -- the same text once more, also if the sectors were the same
      next hin =>
      rw [show (s.fs.inodes j).startSector.toNat - (s.fs.writeStart i).toNat = 0 by omega]
      rfl
    · exact htext

/-- The state that the commands of the shell keep after a `format`. -/
def Holds (F : FaithfulShellEnv σ) (s : Shell σ) : Prop :=
  Consistent (2 ^ 28) s.sys.fs (F.disk s.sys.world) ∧ TextFiles s.sys.fs (F.disk s.sys.world)

/-- A `format` reaches such a state. -/
theorem holds_format (s : Shell σ) : Holds F (executeCommand F.toShellEnv s .format) := by
  rw [Holds, executeCommand_of_call (show callOf _ .format = some (.format label) from rfl)]
  refine ⟨consistent_format (F := F.toFaithfulEnv) (by decide) label s.sys, fun i hi => ?_⟩
  rw [fs_format] at hi
  exact absurd rfl hi

/-- **Every command but the test keeps it**, as long as its sectors are on the drive. -/
theorem Holds.step (h : Holds F s) (hdisk : command ≠ .disk)
    (hbelow : CommandBelow (2 ^ 28) s command) :
    Holds F (executeCommand F.toShellEnv s command) := by
  obtain ⟨hsaved, htext⟩ := h
  cases hcall : callOf s.sys.fs command with
  | none =>
    obtain ⟨hfs, hd⟩ := executeCommand_same hcall hdisk
    rw [Holds, hfs, hd]
    exact ⟨hsaved, htext⟩
  | some call =>
    have hcb : CallBelow (2 ^ 28) s.sys call := hbelow call hcall
    rw [Holds, executeCommand_of_call hcall]
    refine ⟨hsaved.step (by decide) (by decide) hcb, ?_⟩
    by_cases hwrite : ∃ n buffer size, call = .writeFile n buffer size
    · obtain ⟨n, buffer, size, rfl⟩ := hwrite
      obtain ⟨rfl, rfl⟩ := callOf_eq_writeFile hcall
      rw [fsStep]
      rcases writeFile_cases F.toEnv s.sys n (fun k => testData.getD k 0) 52 with
        ⟨-, hres⟩ | ⟨i, hm, hidx, hi, hres⟩
      · simp only [hres]
        exact htext
      · simp only [hres]
        rw [(writeInode_fs F.toEnv F.malloc_some i _ 52 s.sys).2]
        exact htext.written hsaved hi (hcb hm i hidx hi)
    · -- no data is written: what is in use holds what it held
      have hcall' : ∀ n buffer size, call ≠ .writeFile n buffer size :=
        fun n buffer size heq => hwrite ⟨n, buffer, size, heq⟩
      intro i hi h0
      obtain ⟨hi', hsame⟩ := (hsaved.saved.change call).file_of_not_writeFile hcall' hi h0
      rw [hsame] at h0 ⊢
      have h10 := (hsaved.extents.file i hi' h0).1
      have hdata := @dataSame_of_not_writeFile σ F.toFaithfulEnv s.sys call hcall'
      rw [hdata _ (.inl h10)]
      exact htext i hi' h0

/-- Every run after a `format`. -/
theorem holds_run {commands : List Command} (hdisk : .disk ∉ commands)
    (hok : Along (Shell.step F.toShellEnv) (CommandBelow (2 ^ 28)) s (.format :: commands)) :
    Holds F (finalState (Shell.step F.toShellEnv) s (.format :: commands)) := by
  have hok' := hok.2.and_forall (p := fun command => command ≠ .disk)
    fun _ hmem heq => hdisk (heq ▸ hmem)
  rw [finalState_cons]
  exact finalState_invariant (Holds F) (fun _ _ h hc => h.step hc.2 hc.1) (holds_format s) hok'

/-- The files of the shell lie on the drive. -/
theorem Holds.onDrive (h : Holds F s) (hi : s.sys.fs.InUse i) : s.sys.fs.OnDrive i := by
  intro h0 k hk
  have hmark := h.1.extents.mark_le
  have hfile := h.1.extents.file i hi h0
  omega

/-- **A file of the shell is spared** if it does not start at sector 100. -/
theorem Holds.spares_iff (h : Holds F s) (hi : s.sys.fs.InUse i) :
    s.sys.fs.Spares (F.disk s.sys.world) i ↔ (s.sys.fs.inodes i).startSector ≠ 100 := by
  have h52 : storedLength 52 = 52 := storedLength_eq (by decide)
  constructor
  · intro hspares h100
    have h0 : (s.sys.fs.inodes i).startSector ≠ 0 := by
      rw [h100]
      decide
    obtain ⟨hsize, htext⟩ := h.2 i hi h0
    have hbyte := hspares h0 0 (by rw [hsize, h52]; decide) (by rw [h100]; rfl)
    rw [h100] at htext
    -- the text begins with an `H`, the pattern with a zero
    rw [htext] at hbyte
    exact absurd hbyte (by decide)
  · intro hne h0 k hk h100
    rw [(h.2 i hi h0).1, h52] at hk
    rw [Nat.div_eq_of_lt (by omega)] at h100
    exact absurd ((UInt32.add_zero _).symm.trans h100) hne

/-- **When the disk test damages no file.**  The command `disk` never changes the
superblock and the inode table, and it leaves every read of a file on the drive as it was
if and only if the file has no bytes in sector 100 other than those of the test pattern.
After a `format` and further commands of the shell that stay on the drive, all files are
on the drive, and the condition is that the file does not start at sector 100. -/
theorem disk_test_spares (F : FaithfulShellEnv σ) (s : Shell σ) (commands : List Command) :
    let t := finalState (Shell.step F.toShellEnv) s commands
    MetadataSame (F.disk t.sys.world)
        (F.disk (executeCommand F.toShellEnv t .disk).sys.world) ∧
      (∀ i, t.sys.fs.InUse i → t.sys.fs.OnDrive i →
        (ReadsSame F t i ↔
          (t.sys.fs.mounted = true → t.sys.fs.Spares (F.disk t.sys.world) i))) ∧
      ∀ past, commands = .format :: past → .disk ∉ past →
        Along (Shell.step F.toShellEnv) (CommandBelow (2 ^ 28)) s commands →
        ∀ i, t.sys.fs.InUse i → t.sys.fs.OnDrive i ∧
          (ReadsSame F t i ↔
            (t.sys.fs.mounted = true → (t.sys.fs.inodes i).startSector ≠ 100)) := by
  intro t
  have hdisk : F.disk (executeCommand F.toShellEnv t .disk).sys.world =
    Function.update (F.disk t.sys.world) 100 testSector := (commandDisk_spec F t).2
  refine ⟨?_, fun i hi hon => readsSame_iff hi hon, ?_⟩
  · rw [hdisk]
    exact metadataSame_testSector _
  · rintro past rfl hpast hok i hi
    have h : Holds F t := holds_run hpast hok
    rw [readsSame_iff hi (h.onDrive hi), h.spares_iff hi]
    exact ⟨h.onDrive hi, Iff.rfl⟩

/-! ## A file at sector 100 -/

/-- The ideal drive, with a heap that is never used up for blocks of other sizes. -/
def idealShellEnv : FaithfulShellEnv (UInt32 → Sector) where
  toFaithfulEnv := idealEnv
  mallocBytes _ w := (some ⟨0, fun _ => 0⟩, w)
  freeBytes _ w := w
  identify w := w
  disk_mallocBytes _ _ := rfl
  disk_freeBytes _ _ := rfl
  disk_identify _ := rfl

/-- The shell on a blank disk. -/
def blankShell : Shell (UInt32 → Sector) := ⟨⟨blank, fun _ _ => 0⟩, []⟩

/-- A new file system with one file. -/
def oneFile : List Command := [.format, .mount, .touch nameA, .write nameA]

/-- The same after `n` files that were written and removed. -/
def oneFileAfter (n : ℕ) : List Command :=
  [.format, .mount] ++ (List.replicate n [.touch nameA, .write nameA, .rm nameA]).flatten ++
    [.touch nameA, .write nameA]

/-- The first file of a new file system survives the test. -/
theorem disk_test_spares_first_file :
    let t := finalState (Shell.step idealShellEnv.toShellEnv) blankShell oneFile
    t.sys.fs.InUse 0 ∧ t.sys.fs.OnDrive 0 ∧ ReadsSame idealShellEnv t 0 := by
  have hin : (finalState (Shell.step idealShellEnv.toShellEnv) blankShell oneFile).sys.fs.InUse 0 :=
    by decide +kernel
  obtain ⟨hon, hreads⟩ := (disk_test_spares idealShellEnv blankShell oneFile).2.2
    [.mount, .touch nameA, .write nameA] rfl (by simp) (by decide +kernel) 0 hin
  exact ⟨hin, hon, hreads.mpr fun _ => by decide +kernel⟩

/-- After 90 files the next one starts at sector 100.  Its first character is an `H`, and
after the test a zero. -/
theorem disk_test_damages_file :
    let t := finalState (Shell.step idealShellEnv.toShellEnv) blankShell (oneFileAfter 90)
    let r := executeCommand idealShellEnv.toShellEnv t .disk
    t.sys.fs.InUse 0 ∧
      (readFile idealShellEnv.toEnv (0 : Fin 64).val (fun _ => 1) 1 t.sys).1.2 0 = 72 ∧
      (readFile idealShellEnv.toEnv (0 : Fin 64).val (fun _ => 1) 1 r.sys).1.2 0 = 0 := by
  decide +kernel

end TextFiles

end Shell
