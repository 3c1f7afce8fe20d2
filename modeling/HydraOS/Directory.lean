/-
# The directory as a finite map

The abstract directory is a partial map from names to an index and a size, in which a
new name gets the lowest index that no other name has.  The inode table implements it:
slots are reused, stale bytes stay behind names, and a lookup walks over all slots, but
every call answers as the map does.
-/
import HydraOS.Names

/-! ## Slot maps -/

/-- A partial map from keys to a slot number and a value. -/
abbrev SlotMap (κ ν : Type*) := κ → Option (ℕ × ν)

namespace SlotMap

variable {κ ν : Type*} {d : SlotMap κ ν} {n m : κ} {i : ℕ} {v : ν}

/-- The map without entries. -/
def empty : SlotMap κ ν := fun _ => none

/-- The keys that have an entry. -/
def keys (d : SlotMap κ ν) : Set κ := {n | d n ≠ none}

/-- Some entry has the slot `i`. -/
def Uses (d : SlotMap κ ν) (i : ℕ) : Prop := ∃ n v, d n = some (i, v)

/-- The lowest slot that no entry has. -/
noncomputable def lowestUnused (d : SlotMap κ ν) : ℕ := sInf {i | ¬ d.Uses i}

section Entries

variable [DecidableEq κ]

open Classical in
/-- Bind a new key to the lowest unused slot, unless the key is present or the map has
`capacity` entries. -/
noncomputable def create (capacity : ℕ) (d : SlotMap κ ν) (n : κ) (v : ν) :
    Option ℕ × SlotMap κ ν :=
  if n ∈ d.keys ∨ capacity ≤ d.keys.ncard then (none, d)
  else (some d.lowestUnused, Function.update d n (some (d.lowestUnused, v)))

open Classical in
/-- Remove the entry of a key. -/
noncomputable def delete (d : SlotMap κ ν) (n : κ) : Bool × SlotMap κ ν :=
  if n ∈ d.keys then (true, Function.update d n none) else (false, d)

open Classical in
/-- Creating disturbs no other entry. -/
theorem create_other {capacity : ℕ} (h : m ≠ n) : (d.create capacity n v).2 m = d m := by
  rw [create]
  split
  · rfl
  · exact Function.update_of_ne h _ _

open Classical in
/-- Deleting disturbs no other entry. -/
theorem delete_other (h : m ≠ n) : (d.delete n).2 m = d m := by
  rw [delete]
  split
  · exact Function.update_of_ne h _ _
  · rfl

end Entries

/-- Set the value of the entry with the slot `i`. -/
def setValue (d : SlotMap κ ν) (i : ℕ) (v : ν) : SlotMap κ ν :=
  fun n => (d n).map fun e => if e.1 = i then (i, v) else e

/-- Setting a value disturbs no entry with another slot. -/
theorem setValue_other (h : ∀ w, d m ≠ some (i, w)) : d.setValue i v m = d m := by
  rw [setValue]
  cases hd : d m with
  | none => rfl
  | some e =>
    have hne : e.1 ≠ i := fun heq => h e.2 (by rw [hd, ← heq])
    rw [Option.map_some, if_neg hne]

/-- The lowest unused slot, found as the least one. -/
theorem lowestUnused_eq (h : ¬ d.Uses i) (hmin : ∀ j < i, d.Uses j) : d.lowestUnused = i := by
  have hleast : IsLeast {i | ¬ d.Uses i} i := by
    refine ⟨h, fun j hj => ?_⟩
    by_contra hlt
    exact hj (hmin j (by omega))
  exact hleast.csInf_eq

end SlotMap

namespace FileSystem

/-! ## The abstract directory -/

/-- The calls that concern the directory. -/
inductive DirCall where
  | format (label : CStr)
  | createFile (filename : CStr)
  | deleteFile (filename : CStr)
  | writeFile (inodeIndex : ℤ) (buffer : ℕ → UInt8) (size : UInt32)
  | openFile (filename : CStr)
  | fileExists (filename : CStr)
  | getFileSize (filename : CStr)

/-- The call of the file system. -/
def DirCall.call : DirCall → FsCall
  | .format label => .format label
  | .createFile filename => .createFile filename
  | .deleteFile filename => .deleteFile filename
  | .writeFile inodeIndex buffer size => .writeFile inodeIndex buffer size
  | .openFile filename => .openFile filename
  | .fileExists filename => .fileExists filename
  | .getFileSize filename => .getFileSize filename

/-- Created names have at most 31 characters; other names may have any length. -/
def DirCall.Short : DirCall → Prop
  | .createFile filename => filename.chars.length ≤ 31
  | _ => True

/-- The directory that `CreateFile` and the other calls describe: names with the index
and the size of their file. -/
abbrev Dir := SlotMap (List UInt8) UInt32

open Classical in
/-- **The abstract directory**: what each call does and returns. -/
noncomputable def dirStep (d : Dir) : DirCall → Dir × FsResult
  | .format _ => (SlotMap.empty, .flag true)
  | .createFile filename =>
    let r := d.create 64 filename.chars 0
    (r.2, .index (r.1.elim (-1) fun i => i))
  | .deleteFile filename =>
    let r := d.delete filename.chars
    (r.2, .flag r.1)
  | .writeFile inodeIndex _ size =>
    if 0 ≤ inodeIndex ∧ d.Uses inodeIndex.toNat then
      (d.setValue inodeIndex.toNat size, .index (toInt32 (.ofNat (storedLength size))))
    else (d, .index (-1))
  | .openFile filename => (d, .index ((d filename.chars).elim (-1) fun e => e.1))
  | .fileExists filename => (d, .flag (d filename.chars).isSome)
  | .getFileSize filename => (d, .size ((d filename.chars).elim 0 fun e => e.2))

/-- The entries that a call may change: that of its own name, that of the index it
writes to, and with `Format` all of them. -/
def DirCall.Touches (d : Dir) (n : List UInt8) : DirCall → Prop
  | .format _ => True
  | .createFile filename => n = filename.chars
  | .deleteFile filename => n = filename.chars
  | .writeFile inodeIndex _ _ => ∃ z, d n = some (inodeIndex.toNat, z)
  | _ => False

/-- **No call disturbs another entry.** -/
theorem dirStep_other {d : Dir} {n : List UInt8} {call : DirCall} (h : ¬ call.Touches d n) :
    (dirStep d call).1 n = d n := by
  cases call with
  | format label => exact absurd trivial h
  | createFile f => exact SlotMap.create_other h
  | deleteFile f => exact SlotMap.delete_other h
  | writeFile inodeIndex buffer size =>
    rw [dirStep]
    split
    · exact SlotMap.setValue_other fun z hz => h ⟨z, hz⟩
    · rfl
  | openFile _ => rfl
  | fileExists _ => rfl
  | getFileSize _ => rfl

/-! ## The directory that an inode table implements -/

/-- The directory of an object: what its lookups find. -/
def directory (fs : FileSystem) : Dir := fun n =>
  if h : 0 ∉ n then (fs.lookup ⟨n, h⟩).map fun i => (i.val, (fs.inodes i).size) else none

section Directory

variable {fs : FileSystem} {f : CStr} {i : Fin 64} {n : List UInt8} {k : ℕ} {z size : UInt32}

theorem directory_chars : fs.directory f.chars =
    (fs.lookup f).map fun i => (i.val, (fs.inodes i).size) := dif_pos f.noNul

/-- An entry of the directory is an inode in use with its name. -/
theorem Named.directory_eq_some (h : Named fs) (hm : fs.mounted = true) :
    fs.directory n = some (k, z) ↔
      ∃ i, fs.InUse i ∧ fs.storedName i = n ∧ i.val = k ∧ (fs.inodes i).size = z := by
  rw [directory]
  split
  · next hn =>
    rw [Option.map_eq_some_iff]
    refine exists_congr fun i => ?_
    rw [h.lookup_eq_some hm, Prod.mk.injEq, and_assoc]
  · next hn =>
    refine ⟨fun h => absurd h (by simp), ?_⟩
    rintro ⟨i, hi, rfl, -⟩
    exact absurd (h.holdsString hi).noNul hn

/-- A directory is determined by its entries. -/
theorem dir_ext {d d' : Dir} (h : ∀ n k z, d n = some (k, z) ↔ d' n = some (k, z)) : d = d' := by
  funext n
  exact Option.ext fun e => h n e.1 e.2

theorem Named.uses_iff (h : Named fs) (hm : fs.mounted = true) :
    fs.directory.Uses k ↔ ∃ i, fs.InUse i ∧ i.val = k := by
  constructor
  · rintro ⟨n, z, he⟩
    obtain ⟨i, hi, -, hk, -⟩ := (h.directory_eq_some hm).mp he
    exact ⟨i, hi, hk⟩
  · rintro ⟨i, hi, hk⟩
    exact ⟨_, _, (h.directory_eq_some hm).mpr ⟨i, hi, rfl, hk, rfl⟩⟩

/-- The keys of the directory are the stored names. -/
theorem Named.keys_eq (h : Named fs) (hm : fs.mounted = true) :
    fs.directory.keys = fs.storedName '' {i | fs.InUse i} := by
  ext n
  rw [SlotMap.keys, Set.mem_ofPred_eq, Option.ne_none_iff_exists']
  constructor
  · rintro ⟨⟨k, z⟩, he⟩
    obtain ⟨i, hi, hn, -⟩ := (h.directory_eq_some hm).mp he
    exact ⟨i, hi, hn⟩
  · rintro ⟨i, hi, hn⟩
    exact ⟨_, (h.directory_eq_some hm).mpr ⟨i, hi, hn, rfl, rfl⟩⟩

/-- The number of names is that of the inodes in use. -/
theorem Named.ncard_keys (h : Named fs) (hm : fs.mounted = true) :
    fs.directory.keys.ncard = {i | fs.InUse i}.ncard := by
  have hinj : Set.InjOn fs.storedName {i | fs.InUse i} := fun i hi j hj => h.unique i j hi hj
  rw [h.keys_eq hm, hinj.ncard_image]

/-- The directory has at most 64 entries. -/
theorem Named.ncard_keys_le (h : Named fs) (hm : fs.mounted = true) :
    fs.directory.keys.ncard ≤ 64 := by
  rw [h.ncard_keys hm]
  exact (Set.ncard_le_card _).trans_eq (Nat.card_fin 64)

/-- The inode table is full exactly if the directory has 64 names. -/
theorem Named.full_iff (h : Named fs) (hm : fs.mounted = true) :
    64 ≤ fs.directory.keys.ncard ↔ fs.findFreeInode = none := by
  have hle := h.ncard_keys_le hm
  have hfree : fs.findFreeInode = none ↔ {i | fs.InUse i} = Set.univ := by
    rw [findFreeInode, List.find?_eq_none, Set.eq_univ_iff_forall]
    simp [InUse]
  rw [hfree, Set.eq_univ_iff_ncard, Nat.card_fin, ← h.ncard_keys hm]
  omega

/-- The free inode that `CreateFile` takes is the lowest unused index. -/
theorem Named.lowestUnused_eq (h : Named fs) (hm : fs.mounted = true)
    (hfree : fs.findFreeInode = some i) : fs.directory.lowestUnused = i.val := by
  obtain ⟨-, hmin⟩ := find?_finRange_eq_some.mp hfree
  refine SlotMap.lowestUnused_eq ?_ fun j hj => ?_
  · rw [h.uses_iff hm]
    rintro ⟨j, hj, heq⟩
    rw [Fin.ext heq] at hj
    exact not_inUse_of_findFreeInode hfree hj
  · rw [h.uses_iff hm]
    refine ⟨⟨j, by omega⟩, ?_, rfl⟩
    have := hmin ⟨j, by omega⟩ hj
    simpa [InUse] using this

/-! ## Calls on the implemented directory -/

/-- `CreateFile` adds an entry. -/
theorem Named.directory_created (h : Named fs) (hm : fs.mounted = true)
    (hlen : f.chars.length ≤ 31) (hnone : fs.lookup f = none) (hi : ¬ fs.InUse i) :
    (fs.created i f).directory = Function.update fs.directory f.chars (some (i.val, 0)) := by
  have hnew := (h.lookup_eq_none hm).mp hnone
  have h' : Named (fs.created i f) := h.created hlen hnew
  have hself : (fs.created i f).storedName i = f.chars := by
    rw [storedName_created_self, List.take_of_length_le hlen]
  have hsize : ((fs.created i f).inodes i).size = 0 := by simp [FileSystem.created, setInode]
  refine dir_ext fun n k z => ?_
  rw [h'.directory_eq_some hm]
  by_cases hn : n = f.chars
  · rw [hn, Function.update_self, Option.some.injEq, Prod.mk.injEq]
    constructor
    · rintro ⟨j, hj, hname, hk, hz⟩
      obtain rfl : j = i := h'.unique j i hj ((inUse_created f).mpr (.inl rfl)) (hname.trans hself.symm)
      exact ⟨hk, hsize.symm.trans hz⟩
    · rintro ⟨hk, hz⟩
      exact ⟨i, (inUse_created f).mpr (.inl rfl), hself, hk, hsize.trans hz⟩
  · rw [Function.update_of_ne hn, h.directory_eq_some hm]
    have hother : ∀ j, (fs.created i f).storedName j = n ∧ (fs.created i f).InUse j →
        j ≠ i := by
      rintro j ⟨hname, -⟩ rfl
      exact hn (hname.symm.trans hself)
    constructor
    · rintro ⟨j, hj, hname, hk, hz⟩
      have hji := hother j ⟨hname, hj⟩
      rw [storedName_created_of_ne f hji] at hname
      rw [inodes_created_of_ne f hji] at hz
      exact ⟨j, ((inUse_created f).mp hj).resolve_left hji, hname, hk, hz⟩
    · rintro ⟨j, hj, hname, hk, hz⟩
      have hji : j ≠ i := by
        rintro rfl
        exact hi hj
      refine ⟨j, (inUse_created f).mpr (.inr hj), ?_, hk, ?_⟩
      · rw [storedName_created_of_ne f hji, hname]
      · rw [inodes_created_of_ne f hji, hz]

/-- `DeleteFile` removes an entry. -/
theorem Named.directory_deleted (h : Named fs) (hm : fs.mounted = true)
    (hlook : fs.lookup f = some i) :
    (fs.deleted i).directory = Function.update fs.directory f.chars none := by
  obtain ⟨hi, hname⟩ := (h.lookup_eq_some hm).mp hlook
  refine dir_ext fun n k z => ?_
  have hentry : (∃ j, (fs.deleted i).InUse j ∧ (fs.deleted i).storedName j = n ∧ j.val = k ∧
      ((fs.deleted i).inodes j).size = z) ↔ ∃ j, j ≠ i ∧ fs.InUse j ∧ fs.storedName j = n ∧
        j.val = k ∧ (fs.inodes j).size = z := by
    refine exists_congr fun j => ?_
    rw [inUse_deleted, and_assoc]
    refine and_congr_right fun hji => ?_
    rw [storedName, inodes_deleted_of_ne hji]
    rfl
  rw [h.deleted.directory_eq_some hm, hentry]
  by_cases hn : n = f.chars
  · rw [hn, Function.update_self]
    refine ⟨?_, fun h => absurd h (by simp)⟩
    rintro ⟨j, hji, hj, hname', -⟩
    exact absurd (h.unique j i hj hi (hname'.trans hname.symm)) hji
  · rw [Function.update_of_ne hn, h.directory_eq_some hm]
    refine exists_congr fun j => and_iff_right_of_imp ?_
    rintro ⟨-, hname', -⟩ rfl
    exact hn (hname'.symm.trans hname)

/-- `WriteFile` sets the size of an entry. -/
theorem Named.directory_written (h : Named fs) (hm : fs.mounted = true) (hi : fs.InUse i) :
    (fs.written i size).directory = fs.directory.setValue i.val size := by
  have h' : Named (fs.written i size) := sameNames_written.named h
  have hself : ((fs.written i size).inodes i).size = size := by simp [FileSystem.written, setInode]
  have hother : ∀ j ≠ i, (fs.written i size).inodes j = fs.inodes j :=
    fun j hji => inodes_written_of_ne fs hji size
  refine dir_ext fun n k z => ?_
  rw [h'.directory_eq_some hm, SlotMap.setValue, Option.map_eq_some_iff]
  constructor
  · rintro ⟨j, hj, hname, hk, hz⟩
    rw [sameNames_written.inUse_iff] at hj
    rw [sameNames_written.storedName_eq] at hname
    refine ⟨(j.val, (fs.inodes j).size), (h.directory_eq_some hm).mpr ⟨j, hj, hname, rfl, rfl⟩, ?_⟩
    by_cases hji : j = i
    · subst hji
      rw [if_pos rfl, ← hk, ← hz, hself]
    · rw [hother j hji] at hz
      rw [if_neg fun heq => hji (Fin.ext heq), hk, hz]
  · rintro ⟨⟨k', z'⟩, he, heq⟩
    obtain ⟨j, hj, hname, hk', hz'⟩ := (h.directory_eq_some hm).mp he
    refine ⟨j, (sameNames_written.inUse_iff j).mpr hj, ?_, ?_⟩
    · rw [sameNames_written.storedName_eq, hname]
    · by_cases hji : j = i
      · subst hji
        rw [if_pos hk'.symm, Prod.mk.injEq] at heq
        rw [hself]
        exact heq
      · rw [if_neg fun h0 => hji (Fin.ext (hk'.trans h0)), Prod.mk.injEq] at heq
        rw [hother j hji, hk', hz']
        exact heq

theorem directory_formatted (fs : FileSystem) (label : CStr) (hm : fs.mounted = true) :
    (fs.formatted label).directory = SlotMap.empty := by
  have hn : Named (fs.formatted label) := named_formatted fs label
  refine dir_ext fun n k z => ?_
  rw [hn.directory_eq_some hm]
  refine ⟨?_, fun h => absurd h (by simp [SlotMap.empty])⟩
  rintro ⟨i, hi, -⟩
  exact absurd rfl hi

end Directory

/-! ## The refinement -/

section Refinement

variable {σ : Type} {E : Env σ} {s : Sys σ} {call : DirCall}

/-- The machine of the directory calls. -/
def directoryStep (E : Env σ) (s : Sys σ) (call : DirCall) : Sys σ × FsResult :=
  fsStep E s call.call

/-- The object is mounted, its names are distinct, and `d` is its directory. -/
structure Implements (s : Sys σ) (d : Dir) : Prop where
  named : Named s.fs
  mounted : s.fs.mounted = true
  directory_eq : s.fs.directory = d

theorem mem_keys_iff {fs : FileSystem} {f : CStr} :
    f.chars ∈ fs.directory.keys ↔ fs.lookup f ≠ none := by
  rw [SlotMap.keys, Set.mem_ofPred_eq, directory_chars, ne_eq, Option.map_eq_none_iff]

/-- The calls that only look up. -/
theorem lookup_results (fs : FileSystem) (f : CStr) :
    fs.openFile f = (fs.directory f.chars).elim (-1 : ℤ) (fun e => e.1) ∧
      fs.fileExists f = (fs.directory f.chars).isSome ∧
      fs.getFileSize f = (fs.directory f.chars).elim 0 (fun e => e.2) := by
  rw [directory_chars, fileExists, openFile, getFileSize]
  cases fs.lookup f with
  | none => exact ⟨rfl, rfl, rfl⟩
  | some i => exact ⟨rfl, by simp [indexResult], rfl⟩

/-- `CreateFile` answers as the abstract directory does. -/
theorem Implements.createFile {f : CStr} {d : Dir} (h : Implements s d)
    (hlen : f.chars.length ≤ 31) :
    (directoryStep E s (.createFile f)).2 = (dirStep d (.createFile f)).2 ∧
      Implements (directoryStep E s (.createFile f)).1 (dirStep d (.createFile f)).1 := by
  obtain ⟨hn, hm, rfl⟩ := h
  rw [directoryStep, DirCall.call, fsStep, dirStep, SlotMap.create]
  rcases createFile_cases E s (f := f) with ⟨hwhy, hres⟩ | ⟨i, -, hex, hfree, hres⟩
  · have hrefuse : f.chars ∈ s.fs.directory.keys ∨ 64 ≤ s.fs.directory.keys.ncard := by
      rw [mem_keys_iff, hn.full_iff hm, ← fileExists_iff]
      rcases hwhy with h | h | h
      · rw [hm] at h
        cases h
      · exact .inl h
      · exact .inr h
    rw [if_pos hrefuse, hres]
    exact ⟨rfl, hn, hm, rfl⟩
  · have hnone : s.fs.lookup f = none := by
      by_contra hne
      rw [fileExists_iff.mpr hne] at hex
      cases hex
    have haccept : ¬ (f.chars ∈ s.fs.directory.keys ∨ 64 ≤ s.fs.directory.keys.ncard) := by
      rw [mem_keys_iff, hn.full_iff hm, hnone, hfree]
      simp
    have hfs : (saveSuperblock E (saveInodeTable E { s with fs := s.fs.created i f })).fs =
        s.fs.created i f := by simp
    rw [if_neg haccept, hn.lowestUnused_eq hm hfree, hres]
    refine ⟨rfl, ?_, ?_, ?_⟩
    · simp only [hfs]
      exact hn.created hlen ((hn.lookup_eq_none hm).mp hnone)
    · simp only [hfs]
      exact hm
    · simp only [hfs]
      exact hn.directory_created hm hlen hnone (not_inUse_of_findFreeInode hfree)

/-- `DeleteFile` answers as the abstract directory does. -/
theorem Implements.deleteFile {f : CStr} {d : Dir} (h : Implements s d) :
    (directoryStep E s (.deleteFile f)).2 = (dirStep d (.deleteFile f)).2 ∧
      Implements (directoryStep E s (.deleteFile f)).1 (dirStep d (.deleteFile f)).1 := by
  obtain ⟨hn, hm, rfl⟩ := h
  rw [directoryStep, DirCall.call, fsStep, dirStep, SlotMap.delete]
  rcases deleteFile_cases E s (f := f) with ⟨hnone, hres⟩ | ⟨i, -, hlook, hres⟩
  · rw [if_neg (by rw [mem_keys_iff, hnone]; simp), hres]
    exact ⟨rfl, hn, hm, rfl⟩
  · have hfs : (saveSuperblock E (saveInodeTable E { s with fs := s.fs.deleted i })).fs =
        s.fs.deleted i := by simp
    rw [if_pos (by rw [mem_keys_iff, hlook]; simp), hres]
    refine ⟨rfl, ?_, ?_, ?_⟩
    · simp only [hfs]
      exact hn.deleted
    · simp only [hfs]
      exact hm
    · simp only [hfs]
      exact hn.directory_deleted hm hlook

/-- `WriteFile` answers as the abstract directory does. -/
theorem Implements.writeFile (hE : E.NeverFull) {d : Dir} (h : Implements s d) (inodeIndex : ℤ)
    (buffer : ℕ → UInt8) (size : UInt32) :
    (directoryStep E s (.writeFile inodeIndex buffer size)).2 =
        (dirStep d (.writeFile inodeIndex buffer size)).2 ∧
      Implements (directoryStep E s (.writeFile inodeIndex buffer size)).1
        (dirStep d (.writeFile inodeIndex buffer size)).1 := by
  obtain ⟨hn, hm, rfl⟩ := h
  rw [directoryStep, DirCall.call, fsStep, dirStep]
  rcases writeFile_cases E s inodeIndex buffer size with ⟨hwhy, hres⟩ | ⟨i, -, hidx, hi, hres⟩
  · have hno : ¬ (0 ≤ inodeIndex ∧ s.fs.directory.Uses inodeIndex.toNat) := by
      rintro ⟨hpos, huses⟩
      obtain ⟨i, hi, hk⟩ := (hn.uses_iff hm).mp huses
      rcases hwhy with h | h
      · rw [hm] at h
        cases h
      · exact h i (by omega) hi
    rw [if_neg hno, hres]
    exact ⟨rfl, hn, hm, rfl⟩
  · have hnat : inodeIndex.toNat = i.val := by omega
    have hyes : 0 ≤ inodeIndex ∧ s.fs.directory.Uses inodeIndex.toNat :=
      ⟨by omega, (hn.uses_iff hm).mpr ⟨i, hi, hnat.symm⟩⟩
    obtain ⟨hval, hfs⟩ := writeInode_fs E hE i buffer size s
    rw [if_pos hyes, hres, hnat]
    refine ⟨congrArg FsResult.index hval, ?_, ?_, ?_⟩
    · simp only [hfs]
      exact sameNames_written.named hn
    · simp only [hfs]
      exact hm
    · simp only [hfs]
      exact hn.directory_written hm hi

/-- **Every call answers as the abstract directory does.** -/
theorem Implements.step (hE : E.NeverFull) {d : Dir} (h : Implements s d) (hok : call.Short) :
    (directoryStep E s call).2 = (dirStep d call).2 ∧
      Implements (directoryStep E s call).1 (dirStep d call).1 := by
  cases call with
  | format label =>
    have hfs : (directoryStep E s (.format label)).1.fs = s.fs.formatted label := fs_format E s label
    refine ⟨rfl, ?_, ?_, ?_⟩
    · rw [hfs]
      exact named_formatted _ _
    · rw [hfs]
      exact h.mounted
    · rw [hfs]
      exact directory_formatted _ _ h.mounted
  | createFile f => exact h.createFile hok
  | deleteFile f => exact h.deleteFile
  | writeFile inodeIndex buffer size => exact h.writeFile hE inodeIndex buffer size
  | openFile f =>
    refine ⟨congrArg FsResult.index ?_, h⟩
    rw [← h.directory_eq]
    exact (lookup_results s.fs f).1
  | fileExists f =>
    refine ⟨congrArg FsResult.flag ?_, h⟩
    rw [← h.directory_eq]
    exact (lookup_results s.fs f).2.1
  | getFileSize f =>
    refine ⟨congrArg FsResult.size ?_, h⟩
    rw [← h.directory_eq]
    exact (lookup_results s.fs f).2.2

/-- A mounted object without files implements the empty directory. -/
theorem implements_empty (hm : s.fs.mounted = true) (hempty : ∀ i, ¬ s.fs.InUse i) :
    Implements s SlotMap.empty := by
  have hn : Named s.fs :=
    ⟨fun i hi => absurd hi (hempty i), fun i _ hi => absurd hi (hempty i)⟩
  refine ⟨hn, hm, dir_ext fun n k z => ?_⟩
  rw [hn.directory_eq_some hm]
  refine ⟨?_, fun h => absurd h (by simp [SlotMap.empty])⟩
  rintro ⟨i, hi, -⟩
  exact absurd hi (hempty i)

/-- `Format` and `Mount` on a faithful drive give a mounted object without files. -/
theorem mounted_of_format_mount (F : FaithfulEnv σ) (label : CStr) (s : Sys σ) :
    let t := finalState (fsStep F.toEnv) s [.format label, .mount]
    t.fs.mounted = true ∧ ∀ i, ¬ t.fs.InUse i := by
  have ht := fs_format_mount F label s
  intro t
  rw [ht]
  exact ⟨rfl, fun i hi => hi rfl⟩

/-- **The directory refines a bounded finite map.**  On a formatted and mounted file
system, whose internal allocations succeed, every sequence of directory calls (with
created names of at most 31 characters) has the results that the abstract directory
gives.  It ends with the entries of the abstract directory, at most 64, and the next
call disturbs no entry but its own. -/
theorem directory_refinement (hE : E.NeverFull) (hm : s.fs.mounted = true)
    (hempty : ∀ i, ¬ s.fs.InUse i) (calls : List DirCall) (hshort : ∀ call ∈ calls, call.Short) :
    let t := finalState (directoryStep E) s calls
    outputs (directoryStep E) s calls = outputs dirStep SlotMap.empty calls ∧
      t.fs.directory = finalState dirStep SlotMap.empty calls ∧
      t.fs.directory.keys.ncard ≤ 64 ∧
      ∀ call : DirCall, call.Short → ∀ n, ¬ call.Touches t.fs.directory n →
        (directoryStep E t call).1.fs.directory n = t.fs.directory n := by
  have hok : Along (directoryStep E) (fun _ call => call.Short) s calls :=
    along_of_forall fun call hcall _ => hshort call hcall
  obtain ⟨hout, himp⟩ := simulation (g := dirStep) Implements
    (fun s d call h hok => h.step hE hok) (implements_empty hm hempty) hok
  refine ⟨hout, himp.directory_eq, himp.named.ncard_keys_le himp.mounted, ?_⟩
  intro call hcall n hn
  have hself : Implements (finalState (directoryStep E) s calls)
      (finalState (directoryStep E) s calls).fs.directory := ⟨himp.named, himp.mounted, rfl⟩
  rw [(hself.step hE hcall).2.directory_eq, dirStep_other hn]

/-- The directory after one creation, on a freshly formatted and mounted disk. -/
theorem directory_refinement_one_file :
    let s := finalState (fsStep idealEnv.toEnv) ⟨blank, fun _ _ => 0⟩ [.format nameA, .mount]
    outputs (directoryStep idealEnv.toEnv) s [.createFile nameA, .openFile nameA] =
      outputs dirStep SlotMap.empty [.createFile nameA, .openFile nameA] := by
  intro s
  obtain ⟨hm, hempty⟩ := mounted_of_format_mount idealEnv nameA ⟨blank, fun _ _ => 0⟩
  refine (directory_refinement idealEnv.malloc_some hm hempty
    [.createFile nameA, .openFile nameA] ?_).1
  intro call hcall
  rcases List.mem_cons.mp hcall with rfl | hcall
  · exact (by decide : nameA.chars.length ≤ 31)
  · rw [List.mem_singleton.mp hcall]
    trivial

end Refinement

end FileSystem
