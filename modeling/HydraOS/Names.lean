/-
# File names

`CreateFile` keeps at most 31 characters of a name and a NUL behind them; `OpenFile`
compares up to 32 characters of the name it is given with the stored one.  For names
that fit the two agree, so the names in use stay distinct and a file is found under
the name it was created with.  A longer name is stored cut off, and never found.
-/
import HydraOS.FileSystemRuns

namespace FileSystem

/-! ## Copying and comparing names -/

section Loops

variable {src f : CStr} {dst name : Bytes 32} {cs : List UInt8} {bound count i j : ℕ}

/-- The copy loop: characters up to the bound or the end of the string, a NUL, and the
old bytes around them. -/
theorem get_copyString (hi : i ≤ src.chars.length) (hbound : i + bound < 32) (hj : j < 32) :
    (copyString src bound i dst).get j =
      if j < i then dst.get j
      else if j < min (i + bound) src.chars.length then src.get j
      else if j = min (i + bound) src.chars.length then 0 else dst.get j := by
  induction bound generalizing i dst with
  | zero =>
    rw [copyString, Bytes.get_set hj]
    by_cases hji : j = i
    · rw [if_pos hji, if_neg (by omega), if_neg (by omega), if_pos (by omega)]
    · rw [if_neg hji]
      split
      · rfl
      · rw [if_neg (by omega), if_neg (by omega)]
  | succ bound ih =>
    rw [copyString]
    by_cases hend : i = src.chars.length
    · rw [hend, if_neg (not_not.mpr src.get_length), Bytes.get_set hj]
      by_cases hji : j = src.chars.length
      · rw [if_pos hji, if_neg (by omega), if_neg (by omega), if_pos (by omega)]
      · rw [if_neg hji]
        split
        · rfl
        · rw [if_neg (by omega), if_neg (by omega)]
    · have hlt : i < src.chars.length := by omega
      have hmin : min (i + 1 + bound) src.chars.length = min (i + (bound + 1)) src.chars.length := by
        omega
      rw [if_pos (CStr.get_ne_zero hlt), ih (by omega) (by omega), Bytes.get_set hj, hmin]
      by_cases hji : j = i
      · rw [hji, if_pos (by omega), if_pos rfl, if_neg (by omega), if_pos (by omega)]
      · rw [if_neg hji]
        by_cases hlt' : j < i
        · rw [if_pos (by omega), if_pos hlt']
        · rw [if_neg (by omega), if_neg hlt']

/-- `CreateFile` stores the first 31 characters of a name. -/
theorem holdsString_copyString (f : CStr) (dst : Bytes 32) :
    HoldsString (copyString f 31 0 dst) (f.chars.take 31) := by
  have hlen : (f.chars.take 31).length = min 31 f.chars.length := List.length_take
  refine ⟨fun h => f.noNul (List.mem_of_mem_take h), by omega, fun j hj => ?_⟩
  rw [get_copyString (Nat.zero_le _) (by omega) (by omega), if_neg (by omega), Nat.zero_add]
  by_cases hlt : j < min 31 f.chars.length
  · rw [if_pos hlt, List.getD_eq_getElem _ _ (by omega), List.getElem_take,
      CStr.get_of_lt (by omega)]
  · rw [if_neg hlt, if_pos (by omega), List.getD_eq_default _ _ (by omega)]

/-- The comparison loop: agreement up to the end of the given name, or of the field. -/
theorem compareName_iff : compareName name f count j = true ↔
    ∀ k, j ≤ k → k < j + count → (∀ l, j ≤ l → l < k → f.get l ≠ 0) →
      name.get k = f.get k := by
  induction count generalizing j with
  | zero =>
    refine ⟨fun _ k h1 h2 => absurd h2 (by omega), fun _ => rfl⟩
  | succ count ih =>
    rw [compareName]
    by_cases hne : name.get j = f.get j
    · rw [if_neg (not_not.mpr hne)]
      by_cases hz : f.get j = 0
      · rw [if_pos hz]
        refine ⟨fun _ k h1 _ hpre => ?_, fun _ => rfl⟩
        obtain rfl : k = j := by
          by_contra hkj
          exact hpre j le_rfl (by omega) hz
        exact hne
      · rw [if_neg hz, ih]
        constructor
        · intro h k h1 h2 hpre
          by_cases hkj : k = j
          · rw [hkj]
            exact hne
          · exact h k (by omega) (by omega) fun l h3 h4 => hpre l (by omega) h4
        · intro h k h1 h2 hpre
          refine h k (by omega) (by omega) fun l h3 h4 => ?_
          by_cases hlj : l = j
          · rw [hlj]
            exact hz
          · exact hpre l (by omega) h4
    · rw [if_pos hne]
      refine ⟨fun h => absurd h (by decide), fun h => absurd (h j le_rfl (by omega) ?_) hne⟩
      intro l h1 h2
      omega

/-- **The comparison of `OpenFile`** is equality with the stored string. -/
theorem compareName_iff_eq (h : HoldsString name cs) :
    compareName name f 32 0 = true ↔ cs = f.chars := by
  have hlt := h.length_lt
  rw [compareName_iff]
  constructor
  · intro hall
    have hne : ∀ j (hj : j < cs.length), cs[j] ≠ 0 := fun j hj h0 =>
      h.noNul (h0 ▸ List.getElem_mem hj)
    -- the given name ends where the stored one does
    have hlen : f.chars.length = cs.length := by
      by_contra hlen
      rcases Nat.lt_or_gt_of_ne hlen with hshort | hlong
      · have := hall f.chars.length (Nat.zero_le _) (by omega) fun l _ hl => CStr.get_ne_zero hl
        rw [h.get_eq _ hshort.le, List.getD_eq_getElem _ _ hshort, CStr.get_length] at this
        exact hne _ hshort this
      · have := hall cs.length (Nat.zero_le _) (by omega)
          fun l _ hl => CStr.get_ne_zero (by omega)
        rw [h.get_eq _ le_rfl, List.getD_eq_default _ _ le_rfl] at this
        exact CStr.get_ne_zero hlong this.symm
    refine List.ext_getElem hlen.symm fun j hj hj' => ?_
    have := hall j (Nat.zero_le _) (by omega) fun l _ hl => CStr.get_ne_zero (by omega)
    rwa [h.get_eq _ hj.le, List.getD_eq_getElem _ _ hj, CStr.get_of_lt hj'] at this
  · rintro rfl k - hk hpre
    have hle : k ≤ f.chars.length := by
      by_contra hgt
      exact hpre f.chars.length (Nat.zero_le _) (by omega) f.get_length
    rw [h.get_eq k hle]
    rfl

end Loops

/-! ## The names in use -/

/-- The name stored in an inode. -/
def storedName (fs : FileSystem) (i : Fin 64) : List UInt8 := (fs.inodes i).name.string

/-- **The names in use** are NUL-terminated and distinct. -/
structure Named (fs : FileSystem) : Prop where
  terminated : ∀ i, fs.InUse i → ∃ j, (fs.inodes i).name j = 0
  unique : ∀ i j, fs.InUse i → fs.InUse j → fs.storedName i = fs.storedName j → i = j

/-- The first index with a property, as the loops over the inode table find it. -/
theorem find?_finRange_eq_some {n : ℕ} {p : Fin n → Bool} {i : Fin n} :
    (List.finRange n).find? p = some i ↔ p i ∧ ∀ j < i, p j = false := by
  rw [List.find?_eq_some_iff_getElem]
  refine and_congr_right fun _ => ⟨?_, fun h => ?_⟩
  · rintro ⟨k, hk, rfl, hlt⟩ j hj
    have := hlt j.val (by simpa [Fin.lt_def] using hj)
    simpa using this
  · refine ⟨i.val, by simp, by simp, fun j hj => ?_⟩
    simpa using h ⟨j, by omega⟩ hj

section Named

variable {σ : Type} {fs : FileSystem} {f : CStr} {i j : Fin 64} {size : UInt32}

theorem Named.holdsString (h : Named fs) (hi : fs.InUse i) :
    HoldsString (fs.inodes i).name (fs.storedName i) :=
  holdsString_string (h.terminated i hi)

/-- **Lookup** finds the inode in use with the given name. -/
theorem Named.lookup_eq_some (h : Named fs) (hm : fs.mounted = true) :
    fs.lookup f = some i ↔ fs.InUse i ∧ fs.storedName i = f.chars := by
  have hmatch : ∀ j, ((fs.inodes j).type != inodeTypeEmpty &&
      compareName (fs.inodes j).name f 32 0) = true ↔
      fs.InUse j ∧ fs.storedName j = f.chars := by
    intro j
    rw [Bool.and_eq_true, bne_iff_ne]
    exact and_congr_right fun hj => compareName_iff_eq (h.holdsString hj)
  rw [lookup, if_pos hm, find?_finRange_eq_some, hmatch]
  refine and_iff_left_of_imp fun hi j hj => ?_
  rw [Bool.eq_false_iff, ne_eq, hmatch]
  intro hj'
  exact absurd (h.unique j i hj'.1 hi.1 (hj'.2.trans hi.2.symm)) hj.ne

theorem Named.lookup_eq_none (h : Named fs) (hm : fs.mounted = true) :
    fs.lookup f = none ↔ ∀ i, fs.InUse i → fs.storedName i ≠ f.chars := by
  rw [Option.eq_none_iff_forall_ne_some]
  refine forall_congr' fun i => ?_
  rw [ne_eq, h.lookup_eq_some hm, not_and]

theorem fileExists_iff : fs.fileExists f = true ↔ fs.lookup f ≠ none := by
  rw [fileExists, openFile, decide_eq_true_iff]
  cases fs.lookup f with
  | none => simp [indexResult]
  | some i => simp [indexResult]

theorem openFile_eq_iff : fs.openFile f = (i.val : ℤ) ↔ fs.lookup f = some i := by
  rw [openFile]
  cases fs.lookup f with
  | none =>
    simp only [indexResult, reduceCtorEq]
  | some j =>
    simp only [indexResult, Nat.cast_inj, Option.some.injEq]
    exact Fin.ext_iff.symm

/-- A name that is found is a stored one, hence at most 31 characters long. -/
theorem lookup_sound (hterm : ∀ i, fs.InUse i → ∃ j, (fs.inodes i).name j = 0)
    (h : fs.lookup f = some i) :
    fs.InUse i ∧ fs.storedName i = f.chars ∧ f.chars.length ≤ 31 := by
  rw [lookup] at h
  split at h
  · obtain ⟨hmatch, -⟩ := find?_finRange_eq_some.mp h
    rw [Bool.and_eq_true, bne_iff_ne] at hmatch
    have hholds := holdsString_string (hterm i hmatch.1)
    have heq := (compareName_iff_eq hholds).mp hmatch.2
    have hlt := hholds.length_lt
    rw [heq] at hlt
    exact ⟨hmatch.1, heq, by omega⟩
  · cases h

/-! ## What the calls do to the names -/

/-- The two objects have the same names in use. -/
structure SameNames (fs fs' : FileSystem) : Prop where
  name_eq : ∀ i, (fs'.inodes i).name = (fs.inodes i).name
  type_eq : ∀ i, (fs'.inodes i).type = (fs.inodes i).type

theorem SameNames.inUse_iff {fs' : FileSystem} (h : SameNames fs fs') (i : Fin 64) :
    fs'.InUse i ↔ fs.InUse i := by
  rw [InUse, InUse, h.type_eq]

theorem SameNames.storedName_eq {fs' : FileSystem} (h : SameNames fs fs') (i : Fin 64) :
    fs'.storedName i = fs.storedName i := by
  rw [storedName, storedName, h.name_eq]

theorem SameNames.named {fs' : FileSystem} (h : SameNames fs fs') (hn : Named fs) :
    Named fs' where
  terminated i hi := by
    rw [h.name_eq]
    exact hn.terminated i ((h.inUse_iff i).mp hi)
  unique i j hi hj heq := by
    rw [h.storedName_eq, h.storedName_eq] at heq
    exact hn.unique i j ((h.inUse_iff i).mp hi) ((h.inUse_iff j).mp hj) heq

/-- Replacing an inode by one with the same name and type. -/
theorem SameNames.setInode {fs' : FileSystem} (h : SameNames fs fs') {inode : Inode}
    (hname : inode.name = (fs.inodes i).name) (htype : inode.type = (fs.inodes i).type) :
    SameNames fs (fs'.setInode i inode) := by
  constructor <;> intro j <;> by_cases hji : j = i
  · simp [FileSystem.setInode, hji, hname]
  · simp [FileSystem.setInode, hji, h.name_eq]
  · simp [FileSystem.setInode, hji, htype]
  · simp [FileSystem.setInode, hji, h.type_eq]

theorem sameNames_refl : SameNames fs fs := ⟨fun _ => rfl, fun _ => rfl⟩

theorem SameNames.bumpUsed {fs' : FileSystem} {k : ℕ} (h : SameNames fs fs') :
    SameNames fs (fs'.bumpUsed k) := ⟨h.name_eq, h.type_eq⟩

theorem sameNames_written : SameNames fs (fs.written i size) :=
  sameNames_refl.bumpUsed.setInode rfl rfl

theorem storedName_created_self (f : CStr) :
    (fs.created i f).storedName i = f.chars.take 31 := by
  have h := (holdsString_copyString f (fs.inodes i).name).string_eq
  simpa [storedName, FileSystem.created, setInode] using h

theorem storedName_created_of_ne (f : CStr) (hji : j ≠ i) :
    (fs.created i f).storedName j = fs.storedName j := by
  rw [storedName, inodes_created_of_ne f hji]
  rfl

theorem terminated_created (f : CStr)
    (hterm : ∀ i, fs.InUse i → ∃ j, (fs.inodes i).name j = 0) (j : Fin 64)
    (hj : (fs.created i f).InUse j) : ∃ k, ((fs.created i f).inodes j).name k = 0 := by
  by_cases hji : j = i
  · have hholds := holdsString_copyString f (fs.inodes i).name
    refine ⟨⟨(f.chars.take 31).length, hholds.length_lt⟩, ?_⟩
    have hend := hholds.get_eq _ le_rfl
    rw [Bytes.get_of_lt hholds.length_lt, List.getD_eq_default _ _ le_rfl] at hend
    rw [hji]
    simpa [FileSystem.created, setInode] using hend
  · rw [inodes_created_of_ne f hji]
    exact hterm j (((inUse_created f).mp hj).resolve_left hji)

/-- A new name that fits, and is not in use, keeps the names distinct. -/
theorem Named.created (h : Named fs) (hlen : f.chars.length ≤ 31)
    (hnew : ∀ j, fs.InUse j → fs.storedName j ≠ f.chars) : Named (fs.created i f) := by
  have hself : (fs.created i f).storedName i = f.chars := by
    rw [storedName_created_self, List.take_of_length_le hlen]
  refine ⟨terminated_created f h.terminated, fun j k hj hk heq => ?_⟩
  rw [inUse_created] at hj hk
  by_cases hji : j = i <;> by_cases hki : k = i
  · rw [hji, hki]
  · rw [hji, hself, storedName_created_of_ne f hki] at heq
    exact absurd heq.symm (hnew k (hk.resolve_left hki))
  · rw [hki, hself, storedName_created_of_ne f hji] at heq
    exact absurd heq (hnew j (hj.resolve_left hji))
  · rw [storedName_created_of_ne f hji, storedName_created_of_ne f hki] at heq
    exact h.unique j k (hj.resolve_left hji) (hk.resolve_left hki) heq

theorem Named.deleted (h : Named fs) : Named (fs.deleted i) := by
  refine ⟨fun j hj => ?_, fun j k hj hk heq => ?_⟩
  · rw [inUse_deleted] at hj
    rw [inodes_deleted_of_ne hj.1]
    exact h.terminated j hj.2
  · rw [inUse_deleted] at hj hk
    rw [storedName, storedName, inodes_deleted_of_ne hj.1, inodes_deleted_of_ne hk.1] at heq
    exact h.unique j k hj.2 hk.2 heq

theorem named_formatted (fs : FileSystem) (label : CStr) : Named (fs.formatted label) :=
  ⟨fun _ h => absurd rfl h, fun _ _ h => absurd rfl h⟩

theorem not_inUse_of_findFreeInode (h : fs.findFreeInode = some i) : ¬ fs.InUse i := by
  have := (find?_finRange_eq_some.mp h).1
  rw [beq_iff_eq] at this
  exact not_not.mpr this

/-- `WriteFile` changes no name, whether or not it finds memory. -/
theorem sameNames_writeFile (E : Env σ) (inodeIndex : ℤ) (buffer : ℕ → UInt8) (size : UInt32)
    (s : Sys σ) : SameNames s.fs (writeFile E inodeIndex buffer size s).2.fs := by
  rcases writeFile_cases E s inodeIndex buffer size with ⟨-, h⟩ | ⟨i, -, -, -, h⟩
  · rw [h]
    exact sameNames_refl
  · rw [h]
    rcases writeInode_cases E i buffer size s with ⟨-, -, hfs⟩ | ⟨-, hfs⟩
    · rw [hfs, firstSector_fs]
      split
      · exact sameNames_refl.bumpUsed.setInode rfl rfl
      · exact sameNames_refl
    · rw [hfs]
      exact sameNames_written

end Named

/-! ## Names over whole runs -/

section Runs

variable {σ : Type} {E : Env σ} {s : Sys σ} {f : CStr} {i : Fin 64} {call : FsCall}

/-- When `CreateFile` creates the file: the object is mounted, the name is not found and an
inode is free. -/
def Creates (fs : FileSystem) (filename : CStr) : Prop :=
  fs.mounted = true ∧ fs.fileExists filename = false ∧ fs.findFreeInode ≠ none

/-- A name that is really created has at most 31 characters. -/
def ShortName (s : Sys σ) : FsCall → Prop
  | .createFile filename => s.fs.Creates filename → filename.chars.length ≤ 31
  | _ => True

/-- The calls under which names are kept apart: names that are created have at most 31
characters, and a `Mount` finds on the disk the inode table that memory holds. -/
def NameCall (E : Env σ) (s : Sys σ) : FsCall → Prop
  | .createFile filename => s.fs.Creates filename → filename.chars.length ≤ 31
  | .mount => (mount E s).2.fs.inodes = s.fs.inodes
  | _ => True

/-- `Unmount` keeps the inodes. -/
theorem inodes_unmount : (unmount E s).fs.inodes = s.fs.inodes := by
  rw [unmount]
  split
  · simp only [saveInodeTable_fs, saveSuperblock_fs]
  · rfl

/-- The names in use depend only on the inodes. -/
theorem sameNames_of_inodes {fs fs' : FileSystem} (h : fs'.inodes = fs.inodes) :
    SameNames fs fs' := ⟨fun _ => by rw [h], fun _ => by rw [h]⟩

/-- **Every call keeps the names distinct.** -/
theorem Named.step (h : Named s.fs) (hcall : NameCall E s call) :
    Named (fsStep E s call).1.fs := by
  cases call with
  | format label =>
    rw [fs_format]
    exact named_formatted _ _
  | mount => exact (sameNames_of_inodes hcall).named h
  | unmount => exact (sameNames_of_inodes inodes_unmount).named h
  | createFile f =>
    rw [fsStep]
    rcases createFile_cases E s (f := f) with ⟨-, hres⟩ | ⟨i, hm, hex, hfree, hres⟩
    · rw [hres]
      exact h
    · -- the name is really created, so all of it is stored
      have hlen : f.chars.length ≤ 31 :=
        hcall ⟨hm, hex, by rw [hfree]; exact Option.some_ne_none i⟩
      have hnone : s.fs.lookup f = none := by
        by_contra hne
        rw [fileExists_iff.mpr hne] at hex
        cases hex
      simp only [hres, saveSuperblock_fs, saveInodeTable_fs]
      exact h.created hlen ((h.lookup_eq_none hm).mp hnone)
  | deleteFile f =>
    rw [fsStep]
    rcases deleteFile_cases E s (f := f) with ⟨-, hres⟩ | ⟨i, -, -, hres⟩
    · rw [hres]
      exact h
    · simp only [hres, saveSuperblock_fs, saveInodeTable_fs]
      exact h.deleted
  | readFile inodeIndex out size =>
    rw [fsStep]
    simp only
    rw [readFile_fs]
    exact h
  | writeFile inodeIndex buffer size => exact (sameNames_writeFile E _ _ _ s).named h
  | openFile _ => exact h
  | fileExists _ => exact h
  | getFileSize _ => exact h

/-- The inode is in use under the name. -/
def HoldsName (fs : FileSystem) (i : Fin 64) (f : CStr) : Prop :=
  fs.InUse i ∧ fs.storedName i = f.chars

theorem SameNames.holdsName {fs fs' : FileSystem} (h : SameNames fs fs')
    (hi : fs.HoldsName i f) : fs'.HoldsName i f := by
  rwa [HoldsName, h.inUse_iff, h.storedName_eq]

/-- A file keeps its inode under every call that does not delete it. -/
theorem HoldsName.step (h : s.fs.HoldsName i f) (hn : Named s.fs) (hcall : NameCall E s call)
    (hkeep : call ≠ .deleteFile f ∧ ∀ label, call ≠ .format label) :
    (fsStep E s call).1.fs.HoldsName i f := by
  cases call with
  | format label => exact absurd rfl (hkeep.2 label)
  | mount => exact (sameNames_of_inodes hcall).holdsName h
  | unmount => exact (sameNames_of_inodes inodes_unmount).holdsName h
  | createFile g =>
    rw [fsStep]
    rcases createFile_cases E s (f := g) with ⟨-, hres⟩ | ⟨j, -, -, hfree, hres⟩
    · rw [hres]
      exact h
    · have hji : i ≠ j := by
        rintro rfl
        exact not_inUse_of_findFreeInode hfree h.1
      simp only [hres, saveSuperblock_fs, saveInodeTable_fs]
      rw [HoldsName, inUse_created, storedName_created_of_ne g hji]
      exact ⟨.inr h.1, h.2⟩
  | deleteFile g =>
    rw [fsStep]
    rcases deleteFile_cases E s (f := g) with ⟨-, hres⟩ | ⟨j, -, hlook, hres⟩
    · rw [hres]
      exact h
    · have hji : i ≠ j := by
        rintro rfl
        have hg := (lookup_sound hn.terminated hlook).2.1
        exact hkeep.1 (by rw [CStr.ext (hg.symm.trans h.2)])
      simp only [hres, saveSuperblock_fs, saveInodeTable_fs]
      rw [HoldsName, inUse_deleted, storedName, inodes_deleted_of_ne hji]
      exact ⟨⟨hji, h.1⟩, h.2⟩
  | readFile inodeIndex out size =>
    rw [fsStep]
    simp only
    rw [readFile_fs]
    exact h
  | writeFile inodeIndex buffer size => exact (sameNames_writeFile E _ _ _ s).holdsName h
  | openFile _ => exact h
  | fileExists _ => exact h
  | getFileSize _ => exact h

/-- A successful `CreateFile` takes a free inode of a mounted object and stores the
first 31 characters of the name. -/
theorem createFile_eq_val (h : (createFile E f s).1 = (i.val : ℤ)) :
    s.fs.mounted = true ∧ s.fs.lookup f = none ∧ ¬ s.fs.InUse i ∧
      (createFile E f s).2.fs = s.fs.created i f := by
  rcases createFile_cases E s (f := f) with ⟨-, hres⟩ | ⟨j, hm, hex, hfree, hres⟩
  · rw [hres] at h
    simp only at h
    omega
  · rw [hres] at h ⊢
    obtain rfl : j = i := Fin.ext (by simpa using h)
    refine ⟨hm, ?_, not_inUse_of_findFreeInode hfree, by simp⟩
    by_contra hne
    rw [fileExists_iff.mpr hne] at hex
    cases hex

/-- A name that is found is not created again. -/
theorem createFile_of_lookup (h : s.fs.lookup f = some i) : (createFile E f s).1 = -1 := by
  have hex : s.fs.fileExists f = true := by
    rw [fileExists_iff, h]
    exact Option.some_ne_none i
  rcases createFile_cases E s (f := f) with ⟨-, hres⟩ | ⟨j, -, hno, -, -⟩
  · rw [hres]
  · rw [hex] at hno
    cases hno

/-- An object that is not mounted finds nothing. -/
theorem lookup_of_not_mounted (fs : FileSystem) (hm : ¬ fs.mounted = true) :
    fs.lookup f = none := by
  rw [lookup, if_neg hm]

/-- On a faithful drive a `Mount` always finds the inode table that memory holds, as
long as no data goes to the metadata sectors. -/
theorem along_nameCall (F : FaithfulEnv σ) (label : CStr) {calls : List FsCall}
    (hok : Along (fsStep F.toEnv) (fun t call => WriteMeets OnDataSectors t call ∧ ShortName t call)
      s (.format label :: calls)) :
    Along (fsStep F.toEnv) (NameCall F.toEnv) s (.format label :: calls) := by
  refine ⟨trivial, ?_⟩
  refine hok.2.of_invariant (fun s => Saved s.fs (F.disk s.world))
    (fun _ _ h hcall => h.step hcall.1) (fun t call h hcall => ?_) (saved_format label s)
  cases call with
  | mount =>
    have hfs : (FileSystem.mount F.toEnv t).2.fs = { t.fs with mounted := true } :=
      (h.mount t.fs).2
    show (FileSystem.mount F.toEnv t).2.fs.inodes = t.fs.inodes
    rw [hfs]
  | createFile f => exact hcall.2
  | _ => trivial

/-- **Name uniqueness and lookup.**  In every run whose created names have at most 31
characters the names in use are distinct, and until it is deleted or the disk is formatted a
created file is not created again, and is found under its name exactly while the object is
mounted.  A file is found under the name it was created with exactly if that has at most 31
characters. -/
theorem name_uniqueness (E : Env σ) (s : Sys σ) (label : CStr) (calls : List FsCall)
    (hok : Along (fsStep E) (NameCall E) s (.format label :: calls)) :
    let t := finalState (fsStep E) s (.format label :: calls)
    (∀ i j, t.fs.InUse i → t.fs.InUse j → t.fs.storedName i = t.fs.storedName j → i = j) ∧
    (∀ (f : CStr) (i : Fin 64), (createFile E f t).1 = (i.val : ℤ) →
      f.chars.length ≤ 31 → ∀ more,
        Along (fsStep E) (NameCall E) (createFile E f t).2 more →
        (∀ call ∈ more, call ≠ .deleteFile f ∧ ∀ l, call ≠ .format l) →
        let u := finalState (fsStep E) (createFile E f t).2 more
        (u.fs.openFile f = (i.val : ℤ) ↔ u.fs.mounted = true) ∧ (createFile E f u).1 = -1) ∧
    (∀ (f : CStr) (i : Fin 64), (createFile E f t).1 = (i.val : ℤ) →
      ((createFile E f t).2.fs.openFile f = (i.val : ℤ) ↔ f.chars.length ≤ 31)) := by
  intro t
  have hnamed : Named t.fs := by
    refine finalState_invariant (fun s => Named s.fs) (fun _ _ h hcall => h.step hcall) ?_ hok.2
    rw [fs_format]
    exact named_formatted _ _
  have hholds : ∀ (f : CStr) (i : Fin 64), (createFile E f t).1 = (i.val : ℤ) →
      f.chars.length ≤ 31 → Named (createFile E f t).2.fs ∧
        (createFile E f t).2.fs.HoldsName i f := by
    intro f i hres hlen
    obtain ⟨hm, hnone, -, hfs⟩ := createFile_eq_val hres
    rw [hfs, HoldsName, inUse_created, storedName_created_self, List.take_of_length_le hlen]
    exact ⟨hnamed.created hlen ((hnamed.lookup_eq_none hm).mp hnone), .inl rfl, rfl⟩
  refine ⟨hnamed.unique, ?_, ?_⟩
  · intro f i hres hlen more hmore hkeep u
    have hu : Named u.fs ∧ u.fs.HoldsName i f :=
      finalState_invariant (fun s => Named s.fs ∧ s.fs.HoldsName i f)
        (fun _ _ h hcall => ⟨h.1.step hcall.1, h.2.step h.1 hcall.1 hcall.2⟩)
        (hholds f i hres hlen) (hmore.and_forall hkeep)
    by_cases hm : u.fs.mounted = true
    · have hlook : u.fs.lookup f = some i := (hu.1.lookup_eq_some hm).mpr hu.2
      exact ⟨iff_of_true (openFile_eq_iff.mpr hlook) hm, createFile_of_lookup hlook⟩
    · have hlook := lookup_of_not_mounted (f := f) u.fs hm
      refine ⟨iff_of_false (fun hopen => ?_) hm, ?_⟩
      · rw [openFile_eq_iff, hlook] at hopen
        cases hopen
      · rw [createFile, if_pos]
        simpa using hm
  · intro f i hres
    obtain ⟨hm, hnone, hfree, hfs⟩ := createFile_eq_val hres
    refine ⟨fun hopen => ?_, fun hlen => ?_⟩
    · rw [openFile_eq_iff, hfs] at hopen
      exact (lookup_sound (terminated_created f hnamed.terminated) hopen).2.2
    · obtain ⟨hnamed', hname⟩ := hholds f i hres hlen
      have hm' : (createFile E f t).2.fs.mounted = true := by
        rw [hfs]
        exact hm
      rw [openFile_eq_iff, hnamed'.lookup_eq_some hm']
      exact hname

/-- The names of a run with one file. -/
theorem name_uniqueness_one_file :
    let s : Sys (UInt32 → Sector) := ⟨blank, fun _ _ => 0⟩
    let t := finalState (fsStep idealEnv.toEnv) s [.format nameA, .mount]
    let r := createFile idealEnv.toEnv nameA t
    r.1 = 0 ∧ r.2.fs.openFile nameA = 0 ∧ (createFile idealEnv.toEnv nameA r.2).1 = -1 := by
  intro s t r
  have hok : Along (fsStep idealEnv.toEnv) (NameCall idealEnv.toEnv) s [.format nameA, .mount] :=
    along_nameCall idealEnv nameA
      ⟨⟨by decide +kernel, trivial⟩, ⟨by decide +kernel, trivial⟩, trivial⟩
  have hres : r.1 = ((0 : Fin 64).val : ℤ) := by decide +kernel
  have hm : r.2.fs.mounted = true := by decide +kernel
  obtain ⟨hfound, hagain⟩ := (name_uniqueness idealEnv.toEnv s nameA [.mount] hok).2.1 nameA 0
    hres (by decide) [] trivial (by simp)
  exact ⟨hres, hfound.mpr hm, hagain⟩

/-- A name of 32 characters. -/
def longName : CStr := ⟨List.replicate 32 97, by decide⟩

/-- A file with a name of 32 characters is not found under its name, and a second
file with the same stored name is created. -/
theorem longName_not_found :
    let s := finalState (fsStep idealEnv.toEnv) ⟨blank, fun _ _ => 0⟩ [.format nameA, .mount]
    let r := createFile idealEnv.toEnv longName s
    let r' := createFile idealEnv.toEnv longName r.2
    r.1 = 0 ∧ r.2.fs.openFile longName = -1 ∧ r'.1 = 1 ∧
      r'.2.fs.InUse 0 ∧ r'.2.fs.InUse 1 ∧ r'.2.fs.storedName 0 = r'.2.fs.storedName 1 := by
  decide +kernel

end Runs

end FileSystem
