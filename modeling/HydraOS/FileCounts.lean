/-
# The number of files

The superblock counts the files, `ls` goes through the inode table with a filter of its own,
and the user can count what `touch` and `rm` have reported.  After a `format` all three
agree, in every state that the commands of the shell reach without the disk test.
-/
import HydraOS.DiskTest

open FileSystem

/-! ## The inodes in use -/

namespace FileSystem

/-- The inodes in use. -/
def usedInodes (fs : FileSystem) : Finset (Fin 64) := Finset.univ.filter fun i => fs.InUse i

/-- **The counter and the names of the inodes in use**, as `ls` relies on them. -/
structure Counted (fs : FileSystem) : Prop where
  count : fs.superblock.inodeCount.toNat = fs.usedInodes.card
  listed : ∀ i, fs.InUse i → (fs.inodes i).type = inodeTypeRegular ∧ (fs.inodes i).name.get 0 ≠ 0

section Counted

variable {fs fs' : FileSystem} {i : Fin 64} {f : CStr} {size : UInt32}

theorem mem_usedInodes : i ∈ fs.usedInodes ↔ fs.InUse i := by
  unfold usedInodes
  rw [Finset.mem_filter]
  exact and_iff_right (Finset.mem_univ i)

theorem card_usedInodes_le (fs : FileSystem) : fs.usedInodes.card ≤ 64 := Finset.card_le_univ _

theorem usedInodes_created (f : CStr) : (fs.created i f).usedInodes = insert i fs.usedInodes := by
  ext j
  rw [Finset.mem_insert, mem_usedInodes, mem_usedInodes, inUse_created]

theorem usedInodes_deleted : (fs.deleted i).usedInodes = fs.usedInodes.erase i := by
  ext j
  rw [Finset.mem_erase, mem_usedInodes, mem_usedInodes, inUse_deleted]

theorem counted_formatted (fs : FileSystem) (label : CStr) : Counted (fs.formatted label) where
  count := by
    have hnone : (fs.formatted label).usedInodes = ∅ := by
      ext i
      rw [mem_usedInodes]
      exact iff_of_false (fun hi => absurd rfl hi) (Finset.notMem_empty i)
    rw [hnone]
    rfl
  listed i hi := absurd rfl hi

/-- **A created file** is counted, and `ls` lists it. -/
theorem Counted.created (h : Counted fs) (hfree : fs.findFreeInode = some i) (hf : f.get 0 ≠ 0) :
    Counted (fs.created i f) := by
  have hnot := not_inUse_of_findFreeInode hfree
  have hmem : i ∉ fs.usedInodes := fun hi => hnot (mem_usedInodes.mp hi)
  have hcard := Finset.card_insert_of_notMem hmem
  have hle := card_usedInodes_le (fs.created i f)
  rw [usedInodes_created] at hle
  refine ⟨?_, fun j hj => ?_⟩
  · have h1 : (1 : UInt32).toNat = 1 := rfl
    rw [usedInodes_created, hcard]
    show (fs.superblock.inodeCount + 1).toNat = _
    rw [UInt32.toNat_add, h1, h.count]
    omega
  · by_cases hji : j = i
    · subst hji
      have hname : ((fs.created j f).inodes j).name = copyString f 31 0 (fs.inodes j).name := by
        simp [FileSystem.created, setInode]
      have htype : ((fs.created j f).inodes j).type = inodeTypeRegular := by
        simp [FileSystem.created, setInode]
      refine ⟨htype, ?_⟩
      have hlen : 0 < f.chars.length := by
        by_contra hnil
        rw [CStr.get, List.getD_eq_default _ _ (by omega)] at hf
        exact hf rfl
      rw [hname, get_copyString (by omega) (by decide) (by decide), if_neg (by omega),
        if_pos (by omega)]
      exact hf
    · rw [inodes_created_of_ne f hji]
      exact h.listed j (((inUse_created f).mp hj).resolve_left hji)

/-- **A deleted file** is not. -/
theorem Counted.deleted (h : Counted fs) (hi : fs.InUse i) : Counted (fs.deleted i) := by
  have hcard := Finset.card_erase_add_one (mem_usedInodes.mpr hi)
  refine ⟨?_, fun j hj => ?_⟩
  · have h1 : (1 : UInt32).toNat = 1 := rfl
    have hcount := h.count
    rw [usedInodes_deleted]
    show (fs.superblock.inodeCount - 1).toNat = _
    rw [UInt32.toNat_sub_of_le _ _ (UInt32.le_iff_toNat_le.mpr (by omega)), h1]
    omega
  · obtain ⟨hj', hsame⟩ := file_of_deleted hj
    rw [hsame]
    exact h.listed j hj'

/-- Inodes with the same names and types are counted alike. -/
theorem Counted.congr (h : Counted fs)
    (hcount : fs'.superblock.inodeCount = fs.superblock.inodeCount)
    (hsame : ∀ j, (fs'.inodes j).type = (fs.inodes j).type ∧
      (fs'.inodes j).name = (fs.inodes j).name) : Counted fs' := by
  have huse (j : Fin 64) : fs'.InUse j ↔ fs.InUse j := by
    rw [InUse, InUse, (hsame j).1]
  refine ⟨?_, fun j hj => ?_⟩
  · rw [hcount, h.count]
    congr 1
    ext j
    rw [mem_usedInodes, mem_usedInodes, huse]
  · rw [(hsame j).1, (hsame j).2]
    exact h.listed j ((huse j).mp hj)

/-- A write changes neither. -/
theorem Counted.written (h : Counted fs) : Counted (fs.written i size) := by
  refine h.congr rfl fun j => ?_
  by_cases hji : j = i
  · rw [hji, inodes_written_self]
    exact ⟨rfl, rfl⟩
  · rw [inodes_written_of_ne fs hji]
    exact ⟨rfl, rfl⟩

/-- `OpenFile` finds inodes in use only. -/
theorem inUse_of_lookup (h : fs.lookup f = some i) : fs.InUse i := by
  rw [lookup] at h
  split at h
  · have hfound := List.find?_some h
    rw [Bool.and_eq_true, bne_iff_ne] at hfound
    exact hfound.1
  · cases h

/-- A file is found on a mounted volume only. -/
theorem mounted_of_lookup (h : fs.lookup f = some i) : fs.mounted = true := by
  rw [lookup] at h
  by_contra hm
  rw [if_neg hm] at h
  cases h

end Counted

end FileSystem

/-! ## What `ls` shows -/

namespace Shell

/-- `ls` lists the inode. -/
def Lists (fs : FileSystem) (i : Fin 64) : Prop :=
  (fs.inodes i).type = inodeTypeRegular ∧ (fs.inodes i).name.get 0 ≠ 0

instance (fs : FileSystem) (i : Fin 64) : Decidable (Lists fs i) :=
  inferInstanceAs (Decidable (_ ∧ _))

/-- The inodes that `ls` lists. -/
def listed (fs : FileSystem) : List (Fin 64) := (List.finRange 64).filter fun i => Lists fs i

/-- The line of a file. -/
def fileLine (inode : Inode) : List VgaCall :=
  [color white, text "  ", .print inode.name.string, text " (", .printNumber inode.size,
    text " bytes)\n"]

/-- What it shows instead of files. -/
def emptyTip : List VgaCall :=
  [color lightBrown, text "  (empty)\n", text "  Tip: Use 'format' and 'mount' if not done yet\n"]

/-- The last line. -/
def totalLine (count : UInt32) : List VgaCall :=
  [color white, text "Total: ", .printNumber count, text " file(s)\n"]

section Listing

variable {σ : Type} {fs : FileSystem}

theorem listInodes_eq (is : List (Fin 64)) (n : UInt32) (s : Shell σ) :
    is.foldl (listInode fs) (n, s) =
      (n + .ofNat (is.filter fun i => Lists fs i).length,
        s.say ((is.filter fun i => Lists fs i).flatMap fun i => fileLine (fs.inodes i))) := by
  induction is generalizing n s with
  | nil => simp [say]
  | cons i is ih =>
    rw [List.foldl_cons, listInode]
    simp only
    split
    · next hshown =>
      have hlists : decide (Lists fs i) = true := decide_eq_true hshown
      rw [ih, List.filter_cons_of_pos (p := fun i => decide (Lists fs i)) hlists]
      rw [List.length_cons, List.flatMap_cons, UInt32.ofNat_add, UInt32.add_assoc, UInt32.add_comm 1]
      simp [say, fileLine]
    · next hhidden =>
      have hnot : ¬decide (Lists fs i) = true := fun h => hhidden (of_decide_eq_true h)
      rw [ih, List.filter_cons_of_neg (p := fun i => decide (Lists fs i)) hnot]

theorem listed_length_le (fs : FileSystem) : (listed fs).length ≤ 64 :=
  (List.length_filter_le _ _).trans (List.length_finRange).le

/-- **`ls` shows a line for each listed file and their number.** -/
theorem commandLs_out (s : Shell σ) :
    (commandLs s).out = s.out ++ [color lightCyan, text "Files:\n"] ++
      (listed s.sys.fs).flatMap (fun i => fileLine (s.sys.fs.inodes i)) ++
      (if listed s.sys.fs = [] then emptyTip else []) ++
      totalLine (.ofNat (listed s.sys.fs).length) := by
  have hle := listed_length_le s.sys.fs
  have hzero : (UInt32.ofNat (listed s.sys.fs).length = 0) ↔ listed s.sys.fs = [] := by
    rw [← UInt32.toNat_inj, toNat_ofNat_of_lt (by omega)]
    exact List.length_eq_zero_iff
  rw [commandLs]
  simp only
  generalize hr : (List.finRange 64).foldl _ _ = r
  rw [listInodes_eq, UInt32.zero_add, say_sys, ← listed] at hr
  subst hr
  simp only
  by_cases hnone : listed s.sys.fs = []
  · rw [if_pos (hzero.mpr hnone), if_pos hnone]
    simp [say, hnone, emptyTip, totalLine]
  · rw [if_neg (mt hzero.mp hnone), if_neg hnone]
    simp [say, totalLine]

end Listing

/-! ## What the user can count -/

/-- The shell, and how many files `touch` and `rm` have reported to be created and deleted
since the last `format`. -/
structure Tally (σ : Type) where
  shell : Shell σ
  created : ℕ
  removed : ℕ

section Tally

variable {σ : Type} (E : ShellEnv σ)

/-- `touch` reports that it has created a file. -/
def Touches (s : Shell σ) (args : CStr) : Prop :=
  args.get 0 ≠ 0 ∧ (createFile E.toEnv args s.sys).1 ≥ 0

/-- `rm` reports that it has deleted one. -/
def Removes (s : Shell σ) (args : CStr) : Prop :=
  args.get 0 ≠ 0 ∧ (deleteFile E.toEnv args s.sys).1 = true

instance (s : Shell σ) (args : CStr) : Decidable (Touches E s args) :=
  inferInstanceAs (Decidable (_ ∧ _))

instance (s : Shell σ) (args : CStr) : Decidable (Removes E s args) :=
  inferInstanceAs (Decidable (_ ∧ _))

/-- One command and what the user counts. -/
def Tally.step (t : Tally σ) (command : Command) : Tally σ × Unit :=
  let shell := executeCommand E t.shell command
  (match command with
    | .format => ⟨shell, 0, 0⟩
    | .touch args => ⟨shell, t.created + if Touches E t.shell args then 1 else 0, t.removed⟩
    | .rm args => ⟨shell, t.created, t.removed + if Removes E t.shell args then 1 else 0⟩
    | _ => { t with shell := shell }, ())

end Tally

section Runs

variable {σ : Type} {F : FaithfulShellEnv σ} {t : Tally σ} {command : Command}

/-- The metadata is consistent, and the counts agree. -/
structure CountsAgree (F : FaithfulShellEnv σ) (t : Tally σ) : Prop where
  consistent : Consistent (2 ^ 28) t.shell.sys.fs (F.disk t.shell.sys.world)
  counted : Counted t.shell.sys.fs
  tally : t.shell.sys.fs.superblock.inodeCount.toNat + t.removed = t.created

theorem Tally.step_shell : (t.step F.toShellEnv command).1.shell =
    executeCommand F.toShellEnv t.shell command := by
  cases command <;> rfl

/-- The metadata stays consistent. -/
theorem CountsAgree.consistent_step (h : CountsAgree F t) (hdisk : command ≠ .disk)
    (hbelow : CommandBelow (2 ^ 28) t.shell command) :
    let s := executeCommand F.toShellEnv t.shell command
    Consistent (2 ^ 28) s.sys.fs (F.disk s.sys.world) := by
  intro s
  cases hcall : callOf t.shell.sys.fs command with
  | none =>
    obtain ⟨hfs, hd⟩ := executeCommand_same hcall hdisk
    rw [hfs, hd]
    exact h.consistent
  | some call =>
    have hsys : s.sys = (fsStep F.toEnv t.shell.sys call).1 := executeCommand_of_call hcall
    rw [hsys]
    exact h.consistent.step (by decide) (by decide) (hbelow call hcall)

/-- **`touch` counts what it creates.** -/
theorem CountsAgree.touch (h : CountsAgree F t) (args : CStr) :
    let s := executeCommand F.toShellEnv t.shell (.touch args)
    Counted s.sys.fs ∧ s.sys.fs.superblock.inodeCount.toNat + t.removed =
      t.created + if Touches F.toShellEnv t.shell args then 1 else 0 := by
  intro s
  by_cases hargs : args.get 0 = 0
  · have hfs : s.sys.fs = t.shell.sys.fs :=
      (executeCommand_same (by rw [callOf, if_pos hargs]) (by simp)).1
    rw [hfs, if_neg fun hc => hc.1 hargs]
    exact ⟨h.counted, h.tally⟩
  · have hsys : s.sys = (fsStep F.toEnv t.shell.sys (.createFile args)).1 :=
      executeCommand_of_call (by rw [callOf, if_neg hargs])
    rw [hsys, fsStep]
    rcases createFile_cases F.toEnv t.shell.sys (f := args) with
      ⟨-, hres⟩ | ⟨i, hm, hex, hfree, hres⟩
    · rw [if_neg (fun hc => absurd hc.2 (by simp [hres]))]
      simp only [hres]
      exact ⟨h.counted, h.tally⟩
    · have htouch : Touches F.toShellEnv t.shell args := ⟨hargs, by rw [hres]; simp⟩
      have hcounted := h.counted.created hfree hargs
      have hcard := Finset.card_insert_of_notMem fun hi =>
        not_inUse_of_findFreeInode hfree (mem_usedInodes.mp hi)
      rw [if_pos htouch]
      simp only [hres, saveSuperblock_fs, saveInodeTable_fs]
      refine ⟨hcounted, ?_⟩
      rw [hcounted.count, usedInodes_created, hcard, ← h.counted.count, ← h.tally]
      omega

/-- **`rm` counts what it deletes.** -/
theorem CountsAgree.rm (h : CountsAgree F t) (args : CStr) :
    let s := executeCommand F.toShellEnv t.shell (.rm args)
    Counted s.sys.fs ∧ s.sys.fs.superblock.inodeCount.toNat +
      (t.removed + if Removes F.toShellEnv t.shell args then 1 else 0) = t.created := by
  intro s
  by_cases hargs : args.get 0 = 0
  · have hfs : s.sys.fs = t.shell.sys.fs :=
      (executeCommand_same (by rw [callOf, if_pos hargs]) (by simp)).1
    rw [hfs, if_neg fun hc => hc.1 hargs]
    exact ⟨h.counted, h.tally⟩
  · have hsys : s.sys = (fsStep F.toEnv t.shell.sys (.deleteFile args)).1 :=
      executeCommand_of_call (by rw [callOf, if_neg hargs])
    rw [hsys, fsStep]
    rcases deleteFile_cases F.toEnv t.shell.sys (f := args) with
      ⟨-, hres⟩ | ⟨i, hm, hlookup, hres⟩
    · rw [if_neg (fun hc => absurd hc.2 (by simp [hres]))]
      simp only [hres]
      exact ⟨h.counted, h.tally⟩
    · have hremove : Removes F.toShellEnv t.shell args := ⟨hargs, by rw [hres]⟩
      have hi := inUse_of_lookup hlookup
      have hcounted := h.counted.deleted hi
      have hcard := Finset.card_erase_add_one (mem_usedInodes.mpr hi)
      have hcount := h.counted.count
      have htally := h.tally
      rw [if_pos hremove]
      simp only [hres, saveSuperblock_fs, saveInodeTable_fs]
      refine ⟨hcounted, ?_⟩
      rw [hcounted.count, usedInodes_deleted]
      omega

/-- **Every command but the disk test** keeps the counts in agreement. -/
theorem CountsAgree.step (h : CountsAgree F t) (hdisk : command ≠ .disk)
    (hbelow : CommandBelow (2 ^ 28) t.shell command) :
    CountsAgree F (t.step F.toShellEnv command).1 := by
  have hconsistent := h.consistent_step hdisk hbelow
  have hsame (hcall : callOf t.shell.sys.fs command = none) :
      (executeCommand F.toShellEnv t.shell command).sys.fs = t.shell.sys.fs :=
    (executeCommand_same hcall hdisk).1
  cases command with
  | format =>
    have hfs : (executeCommand F.toShellEnv t.shell .format).sys.fs =
        t.shell.sys.fs.formatted label := by
      rw [executeCommand_of_call (show callOf _ .format = some (.format label) from rfl), fs_format]
    exact ⟨hconsistent, hfs ▸ counted_formatted _ _, congrArg
      (fun fs : FileSystem => fs.superblock.inodeCount.toNat + 0) hfs⟩
  | mount =>
    have hfs : (executeCommand F.toShellEnv t.shell .mount).sys.fs =
        { t.shell.sys.fs with mounted := true } := by
      rw [executeCommand_of_call (show callOf _ .mount = some .mount from rfl)]
      exact (h.consistent.saved.mount t.shell.sys.fs).2
    exact ⟨hconsistent, hfs ▸ h.counted.congr rfl fun _ => ⟨rfl, rfl⟩, hfs ▸ h.tally⟩
  | touch args =>
    obtain ⟨hcounted, htally⟩ := h.touch args
    exact ⟨hconsistent, hcounted, htally⟩
  | rm args =>
    obtain ⟨hcounted, htally⟩ := h.rm args
    exact ⟨hconsistent, hcounted, htally⟩
  | write args =>
    have hwrite : Counted (executeCommand F.toShellEnv t.shell (.write args)).sys.fs ∧
        (executeCommand F.toShellEnv t.shell (.write args)).sys.fs.superblock.inodeCount =
          t.shell.sys.fs.superblock.inodeCount := by
      cases hcall : callOf t.shell.sys.fs (.write args) with
      | none =>
        rw [hsame hcall]
        exact ⟨h.counted, rfl⟩
      | some call =>
        rw [executeCommand_of_call hcall]
        rw [callOf] at hcall
        split at hcall
        · cases hcall
        · cases hcall
          rw [fsStep]
          rcases writeFile_cases F.toEnv t.shell.sys (t.shell.sys.fs.openFile args)
            (fun k => testData.getD k 0) (.ofNat testData.length) with
            ⟨-, hres⟩ | ⟨i, hm, hidx, hi, hres⟩
          · rw [hres]
            exact ⟨h.counted, rfl⟩
          · simp only [hres]
            rw [(writeInode_fs F.toEnv F.malloc_some i _ _ t.shell.sys).2]
            exact ⟨h.counted.written, rfl⟩
    exact ⟨hconsistent, hwrite.1, hwrite.2 ▸ h.tally⟩
  | ls => exact ⟨hconsistent, hsame rfl ▸ h.counted, hsame rfl ▸ h.tally⟩
  | cat args => exact ⟨hconsistent, hsame rfl ▸ h.counted, hsame rfl ▸ h.tally⟩
  | disk => exact absurd rfl hdisk

/-- A `format` resets the counts. -/
theorem countsAgree_format (t : Tally σ) : CountsAgree F (t.step F.toShellEnv .format).1 := by
  have hcall : callOf t.shell.sys.fs .format = some (.format label) := rfl
  have hsys := executeCommand_of_call (E := F.toShellEnv) hcall
  have hfs : (executeCommand F.toShellEnv t.shell .format).sys.fs =
      t.shell.sys.fs.formatted label := by rw [hsys, fs_format]
  refine ⟨?_, hfs ▸ counted_formatted _ _, ?_⟩
  · show Consistent (2 ^ 28) (executeCommand F.toShellEnv t.shell .format).sys.fs _
    rw [Tally.step_shell, hsys]
    exact consistent_format (F := F.toFaithfulEnv) (by decide) label t.shell.sys
  · show (executeCommand F.toShellEnv t.shell .format).sys.fs.superblock.inodeCount.toNat + 0 = 0
    rw [hfs]
    rfl

/-- Every run after a `format`. -/
theorem countsAgree_run {commands : List Command} (hdisk : .disk ∉ commands)
    (hok : Along (Tally.step F.toShellEnv) (fun t => CommandBelow (2 ^ 28) t.shell) t
      (.format :: commands)) :
    CountsAgree F (finalState (Tally.step F.toShellEnv) t (.format :: commands)) := by
  have hok' := hok.2.and_forall (p := fun command => command ≠ .disk)
    fun _ hmem heq => hdisk (heq ▸ hmem)
  rw [finalState_cons]
  exact finalState_invariant (CountsAgree F) (fun _ _ h hc => h.step hc.2 hc.1)
    (countsAgree_format t) hok'

/-- The inodes that `ls` lists are those in use. -/
theorem mem_listed {fs : FileSystem} (h : Counted fs) (i : Fin 64) : i ∈ listed fs ↔ fs.InUse i := by
  have hmem : i ∈ listed fs ↔ Lists fs i := by
    rw [listed, List.mem_filter, decide_eq_true_iff]
    exact and_iff_right (List.mem_finRange i)
  rw [hmem]
  constructor
  · intro hi hempty
    exact absurd (hi.1.symm.trans hempty) (by decide)
  · exact h.listed i

theorem listed_length {fs : FileSystem} (h : Counted fs) :
    (listed fs).length = fs.superblock.inodeCount.toNat := by
  have hnodup : (listed fs).Nodup := (List.nodup_finRange 64).filter _
  rw [h.count, ← List.toFinset_card_of_nodup hnodup]
  congr 1
  ext i
  rw [List.mem_toFinset, mem_listed h, mem_usedInodes]

/-- **The three counts.**  After a `format` and further commands of the shell without the
disk test, in every state: the counter in the superblock is the number of inodes in use;
`ls` prints a line for each of them, in order, and the counter as their total; and the
files that `touch` has reported as created since the last `format` are those in use and
those that `rm` has reported as deleted. -/
theorem file_counts (F : FaithfulShellEnv σ) (t : Tally σ) (commands : List Command)
    (hdisk : .disk ∉ commands)
    (hok : Along (Tally.step F.toShellEnv) (fun t => CommandBelow (2 ^ 28) t.shell) t
      (.format :: commands)) :
    let t' := finalState (Tally.step F.toShellEnv) t (.format :: commands)
    let fs := t'.shell.sys.fs
    t'.shell = finalState (Shell.step F.toShellEnv) t.shell (.format :: commands) ∧
      fs.superblock.inodeCount.toNat = fs.usedInodes.card ∧
      (∀ i, i ∈ listed fs ↔ (fs.inodes i).type ≠ inodeTypeEmpty) ∧
      (executeCommand F.toShellEnv t'.shell .ls).out =
        t'.shell.out ++ [color lightCyan, text "Files:\n"] ++
          (listed fs).flatMap (fun i => fileLine (fs.inodes i)) ++
          (if listed fs = [] then emptyTip else []) ++ totalLine fs.superblock.inodeCount ∧
      (listed fs).length = fs.superblock.inodeCount.toNat ∧
      fs.superblock.inodeCount.toNat + t'.removed = t'.created := by
  intro t' fs
  have h : CountsAgree F t' := countsAgree_run hdisk hok
  refine ⟨?_, h.counted.count, mem_listed h.counted, ?_, listed_length h.counted, h.tally⟩
  · have hstep (t : Tally σ) (s : Shell σ) (command : Command) (hts : t.shell = s) :
        (t.step F.toShellEnv command).2 = (Shell.step F.toShellEnv s command).2 ∧
          (t.step F.toShellEnv command).1.shell = (Shell.step F.toShellEnv s command).1 := by
      subst hts
      exact ⟨rfl, Tally.step_shell⟩
    exact (simulation (fun t s => t.shell = s) (fun t s command hts _ => hstep t s command hts)
      rfl hok).2
  · have hout := commandLs_out t'.shell
    rw [listed_length h.counted, UInt32.ofNat_toNat] at hout
    exact hout

end Runs

/-- Two files are created and one of them is deleted. -/
theorem file_counts_one_left :
    let t := finalState (Tally.step idealShellEnv.toShellEnv) ⟨blankShell, 0, 0⟩
      [.format, .mount, .touch nameA, .touch nameB, .write nameA, .rm nameA, .rm nameA]
    t.shell.sys.fs.superblock.inodeCount.toNat = 1 ∧ (listed t.shell.sys.fs).length = 1 ∧
      t.created = 2 ∧ t.removed = 1 := by
  have h := file_counts idealShellEnv ⟨blankShell, 0, 0⟩
    [.mount, .touch nameA, .touch nameB, .write nameA, .rm nameA, .rm nameA]
    (by simp) (by decide +kernel)
  refine ⟨?_, ?_⟩
  · decide +kernel
  · rw [h.2.2.2.2.1]
    decide +kernel

end Shell
