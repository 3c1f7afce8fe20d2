/-
# Where `WriteFile` writes

A record of all calls of `Write28` shows to which sectors a call of `WriteFile` writes the
data of the file: every round of its loop ends with the write of one of them.
-/
import HydraOS.FileSystemRuns

/-! ## Services with a record -/

/-- The services `E` with a record of the calls of `Write28`, the latest first. -/
def Env.recorded {σ : Type} (E : Env σ) : Env (σ × List (UInt32 × Sector)) where
  malloc w := let r := E.malloc w.1; (r.1, (r.2, w.2))
  free buffer w := (E.free buffer w.1, w.2)
  read28 sector buffer w := let r := E.read28 sector buffer w.1; (r.1, (r.2, w.2))
  write28 sector buffer w := (E.write28 sector buffer w.1, (sector, buffer.data) :: w.2)

/-- The state with an empty record. -/
def Sys.recorded {σ : Type} (s : Sys σ) : Sys (σ × List (UInt32 × Sector)) := ⟨s.fs, (s.world, [])⟩

/-- The state without the record. -/
def Sys.forget {σ : Type} (s : Sys (σ × List (UInt32 × Sector))) : Sys σ := ⟨s.fs, s.world.1⟩

theorem Env.NeverFull.recorded {σ : Type} {E : Env σ} (h : E.NeverFull) : E.recorded.NeverFull :=
  fun w => h w.1

namespace FileSystem

section Record

variable {σ : Type} {E : Env σ} {s : Sys (σ × List (UInt32 × Sector))} {index : Fin 64}
  {buffer : ℕ → UInt8} {size : UInt32}

/-! ### The record changes nothing -/

/-- `malloc` leaves the record alone. -/
theorem malloc_recorded {w w' : σ} {record : List (UInt32 × Sector)} {r : Option Buffer}
    (h : E.malloc w = (r, w')) : E.recorded.malloc (w, record) = (r, (w', record)) := by
  rw [Env.recorded]
  simp only [h]

theorem saveSuperblock_forget :
    (saveSuperblock E.recorded s).forget = saveSuperblock E s.forget := by
  obtain ⟨fs, w, record⟩ := s
  obtain ⟨r, w', hmalloc⟩ : ∃ r w', E.malloc w = (r, w') := ⟨_, _, rfl⟩
  unfold saveSuperblock Sys.forget
  rw [malloc_recorded hmalloc, hmalloc]
  cases r <;> rfl

theorem saveInodeTable_forget :
    (saveInodeTable E.recorded s).forget = saveInodeTable E s.forget := by
  obtain ⟨fs, w, record⟩ := s
  obtain ⟨r, w', hmalloc⟩ : ∃ r w', E.malloc w = (r, w') := ⟨_, _, rfl⟩
  unfold saveInodeTable Sys.forget
  rw [malloc_recorded hmalloc, hmalloc]
  cases r with
  | none => rfl
  | some b =>
    -- the two loops stay together, up to the record
    have hloop := @forLoop_related _ _ (fun _ => true) (saveInodeRound E.recorded fs.inodes) 8 0
      (b, (w', record)) (fun _ => true) (saveInodeRound E fs.inodes) (b, w')
      (fun st st' => st' = (st.1, st.2.1)) rfl (fun _ _ _ => rfl) fun k st st' _ _ h => ?_
    · simp only
      rw [hloop]
      rfl
    · subst h
      rfl

/-- `AllocateSector` hands out the same sector. -/
theorem allocateSector_forget : (allocateSector E.recorded s).1 = (allocateSector E s.forget).1 ∧
    (allocateSector E.recorded s).2.forget = (allocateSector E s.forget).2 :=
  ⟨rfl, saveSuperblock_forget⟩

theorem firstSector_forget :
    (firstSector E.recorded index s).forget = firstSector E index s.forget := by
  unfold firstSector
  have hnext := @allocateSector_forget _ E s
  split
  · next h0 =>
    rw [if_pos (show (s.forget.fs.inodes index).startSector = 0 from h0)]
    generalize allocateSector E.recorded s = r at hnext
    generalize allocateSector E s.forget = r' at hnext
    obtain ⟨sector, t⟩ := r
    obtain ⟨sector', t'⟩ := r'
    obtain ⟨hsector, ht⟩ := hnext
    subst hsector ht
    rfl
  · next h0 => rw [if_neg (show ¬ (s.forget.fs.inodes index).startSector = 0 from h0)]

/-- The locals without the record. -/
def WriteState.forget (st : WriteState (σ × List (UInt32 × Sector))) : WriteState σ :=
  ⟨st.sys.forget, st.diskBuffer, st.bytesWritten⟩

/-- A round of the loop is the same round. -/
theorem writeRound_forget (k : ℕ) (st : WriteState (σ × List (UInt32 × Sector))) :
    WriteState.forget (writeRound E.recorded index buffer size k st) =
      writeRound E index buffer size k (WriteState.forget st) := by
  have hnext := @allocateSector_forget _ E st.sys
  unfold writeRound WriteState.forget
  -- every round but the first one allocates
  by_cases hk : k > 0
  · simp only [if_pos hk]
    rw [← hnext.2]
    rfl
  · simp only [if_neg hk]
    rfl

/-- **The record changes nothing**: neither the result of `WriteFile` nor the state that it
leaves. -/
theorem writeInode_forget (index : Fin 64) (buffer : ℕ → UInt8) (size : UInt32)
    (s : Sys (σ × List (UInt32 × Sector))) :
    (writeInode E.recorded index buffer size s).1 = (writeInode E index buffer size s.forget).1 ∧
      (writeInode E.recorded index buffer size s).2.forget =
        (writeInode E index buffer size s.forget).2 := by
  have hfirst := @firstSector_forget _ E s index
  unfold writeInode
  rw [← hfirst]
  generalize firstSector E.recorded index s = t
  obtain ⟨fs, w, record⟩ := t
  obtain ⟨r, w', hmalloc⟩ : ∃ r w', E.malloc w = (r, w') := ⟨_, _, rfl⟩
  have hloop := fun b => @forLoop_related _ _ (fun _ => true)
    (writeRound E.recorded index buffer size) (sectorCount size).toNat 0
    ⟨⟨fs, (w', record)⟩, b, 0⟩ (fun _ => true) (writeRound E index buffer size) ⟨⟨fs, w'⟩, b, 0⟩
    (fun st st' => WriteState.forget st = st') rfl (fun _ _ _ => rfl) fun k st st' _ _ h => by
      subst h
      exact writeRound_forget k st
  simp only
  rw [malloc_recorded hmalloc, Sys.forget, hmalloc]
  cases r with
  | none => exact ⟨rfl, rfl⟩
  | some b =>
    simp only
    rw [← hloop b, saveInodeTable_forget]
    exact ⟨rfl, rfl⟩

/-- The record does not show outside it. -/
theorem writeFile_forget (inodeIndex : ℤ) (buffer : ℕ → UInt8) (size : UInt32)
    (s : Sys (σ × List (UInt32 × Sector))) :
    (writeFile E.recorded inodeIndex buffer size s).1 =
        (writeFile E inodeIndex buffer size s.forget).1 ∧
      (writeFile E.recorded inodeIndex buffer size s).2.forget =
        (writeFile E inodeIndex buffer size s.forget).2 := by
  unfold writeFile
  by_cases h : s.fs.mounted = false ∨ inodeIndex < 0 ∨ inodeIndex ≥ 64
  · rw [dif_pos h, dif_pos (show s.forget.fs.mounted = false ∨ _ from h)]
    exact ⟨rfl, rfl⟩
  · rw [dif_neg h, dif_neg (show ¬ (s.forget.fs.mounted = false ∨ _) from h)]
    simp only
    split
    · next he =>
      rw [if_pos (show (s.forget.fs.inodes _).type = _ from he)]
      exact ⟨rfl, rfl⟩
    · next he =>
      rw [if_neg (show ¬ (s.forget.fs.inodes _).type = _ from he)]
      exact writeInode_forget _ buffer size s

end Record

/-! ## The rounds of `WriteFile` -/

/-- The sector that round `k` of a write to the inode addresses. -/
def writeSector (fs : FileSystem) (index : Fin 64) (k : ℕ) : UInt32 :=
  fs.writeStart index + .ofNat k

section Rounds

variable {σ : Type} (E : Env σ)

/-- `WriteFile` comes to its round `k` with these locals. -/
def WriteReaches (i : Fin 64) (buffer : ℕ → UInt8) (size : UInt32) (s : Sys σ) (k : ℕ)
    (st : WriteState σ) : Prop :=
  ∃ diskBuffer w, E.malloc (firstSector E i s).world = (some diskBuffer, w) ∧
    st = forLoop (fun _ => true) (writeRound E i buffer size) k 0
      ⟨⟨(firstSector E i s).fs, w⟩, diskBuffer, 0⟩

/-- The state in which round `k` writes its data. -/
def beforeData (k : ℕ) (st : WriteState σ) : Sys σ :=
  if k > 0 then (allocateSector E st.sys).2 else st.sys

variable {E} {i : Fin 64} {buffer : ℕ → UInt8} {size : UInt32} {s : Sys σ} {k : ℕ}
  {st : WriteState σ}

/-- A round that the loop comes to writes its chunk to its sector. -/
theorem WriteReaches.round (h : WriteReaches E i buffer size s k st)
    (hk : k < (sectorCount size).toNat) :
    ∃ b : Buffer, b.data = chunk buffer size.toNat k ∧
      (writeRound E i buffer size k st).sys.world =
        E.write28 (s.fs.writeSector i k) b (beforeData E k st).world := by
  obtain ⟨diskBuffer, w, -, hst⟩ := h
  obtain ⟨hfs, hbytes⟩ := writeRounds_upto E i buffer size
    ⟨⟨(firstSector E i s).fs, w⟩, diskBuffer, 0⟩ rfl hk.le
  rw [← hst] at hfs hbytes
  have hlt := lt_of_lt_sectorCount hk
  obtain ⟨b, v, hb, -, hround⟩ := @writeRound_eq i buffer size k _ E st (by omega) hk
  -- the rounds before this one have only counted sectors
  have hinodes : (beforeData E k st).fs.inodes = (firstSector E i s).fs.inodes := by
    unfold beforeData
    split
    · rw [allocateSector_fs_eq, bumpUsed_inodes, hfs, bumpUsed_inodes]
    · rw [hfs, bumpUsed_inodes]
  refine ⟨b, hb, ?_⟩
  rw [hround]
  show E.write28 (((beforeData E k st).fs.inodes i).startSector + .ofNat k) b _ = _
  rw [hinodes, firstSector_startSector]
  rfl

/-- From each round the loop comes to the next one. -/
theorem WriteReaches.next (h : WriteReaches E i buffer size s k st) :
    WriteReaches E i buffer size s (k + 1) (writeRound E i buffer size k st) := by
  obtain ⟨diskBuffer, w, hmalloc, hst⟩ := h
  refine ⟨diskBuffer, w, hmalloc, ?_⟩
  rw [forLoop_succ_last, Nat.zero_add, ← hst]

/-- With memory for its buffer the loop comes to every round. -/
theorem exists_writeReaches (h : (E.malloc (firstSector E i s).world).1 ≠ none) (k : ℕ) :
    ∃ st, WriteReaches E i buffer size s k st := by
  obtain ⟨diskBuffer, hb⟩ := Option.ne_none_iff_exists'.mp h
  induction k with
  | zero => exact ⟨_, diskBuffer, _, Prod.ext hb rfl, rfl⟩
  | succ k ih =>
    obtain ⟨st, hst⟩ := ih
    exact ⟨_, hst.next⟩

/-- **After the last round** `WriteFile` saves the inode and returns what it has counted. -/
theorem WriteReaches.writeFile_eq
    (h : WriteReaches E i buffer size s (sectorCount size).toNat st)
    (hm : s.fs.mounted = true) (hi : s.fs.InUse i) :
    writeFile E i.val buffer size s = (toInt32 st.bytesWritten, saveInodeTable E
      { fs := st.sys.fs.setInode i { st.sys.fs.inodes i with size := size, modified := 0 }
        world := E.free st.diskBuffer st.sys.world }) := by
  obtain ⟨diskBuffer, w, hmalloc, hst⟩ := h
  rw [writeFile_of_inUse E s hm hi, writeInode]
  simp only
  rw [hmalloc, hst]

end Rounds

/-! ## The sectors with file data -/

/-- **A call of `WriteFile` writes file data to the sector `x`**: in the recorded call, `x` is
the sector of the last `Write28` of a round of its loop. -/
def WritesDataTo {σ : Type} (E : Env σ) (s : Sys σ) (inodeIndex : ℤ) (buffer : ℕ → UInt8)
    (size x : UInt32) : Prop :=
  s.fs.mounted = true ∧ ∃ i : Fin 64, (i.val : ℤ) = inodeIndex ∧ s.fs.InUse i ∧
    ∃ k < (sectorCount size).toNat, ∃ st, WriteReaches E.recorded i buffer size s.recorded k st ∧
      ∃ data, (writeRound E.recorded i buffer size k st).sys.world.2 =
        (x, data) :: (beforeData E.recorded k st).world.2

section Sectors

variable {σ : Type} {E : Env σ} {s : Sys σ} {inodeIndex : ℤ} {buffer : ℕ → UInt8}
  {size x : UInt32}

/-- The sectors with file data follow the start of the file. -/
theorem WritesDataTo.eq_writeSector (h : WritesDataTo E s inodeIndex buffer size x) :
    s.fs.mounted = true ∧ ∃ i : Fin 64, (i.val : ℤ) = inodeIndex ∧ s.fs.InUse i ∧
      ∃ k < (sectorCount size).toNat, x = s.fs.writeSector i k := by
  obtain ⟨hm, i, hidx, hi, k, hk, st, hst, data, hdata⟩ := h
  obtain ⟨b, -, hround⟩ := hst.round hk
  refine ⟨hm, i, hidx, hi, k, hk, ?_⟩
  rw [hround] at hdata
  exact (congrArg Prod.fst (List.cons.inj hdata).1).symm

/-- With memory the call writes to all of them. -/
theorem writesDataTo_writeSector (hE : E.NeverFull) (hm : s.fs.mounted = true) {i : Fin 64}
    (hi : s.fs.InUse i) {k : ℕ} (hk : k < (sectorCount size).toNat) :
    WritesDataTo E s i.val buffer size (s.fs.writeSector i k) := by
  have hmalloc : (E.recorded.malloc (firstSector E.recorded i s.recorded).world).1 ≠ none := by
    obtain ⟨b, hb⟩ := hE.recorded (firstSector E.recorded i s.recorded).world
    rw [hb]
    exact Option.some_ne_none b
  obtain ⟨st, hst⟩ := @exists_writeReaches _ E.recorded i buffer size s.recorded hmalloc k
  obtain ⟨b, -, hround⟩ := hst.round hk
  refine ⟨hm, i, rfl, hi, k, hk, st, hst, b.data, ?_⟩
  rw [hround]
  rfl

end Sectors

/-! ## All calls of `Write28` -/

/-- From `w` to `w'` the record grows by entries with a property only. -/
def Records {σ : Type} (P : UInt32 × Sector → Prop) (w w' : σ × List (UInt32 × Sector)) : Prop :=
  ∃ added, w'.2 = added ++ w.2 ∧ ∀ e ∈ added, P e

/-- A save of a superblock or of a sector of an inode table. -/
def SavesMetadata (e : UInt32 × Sector) : Prop :=
  (∃ superblock, e = (fsSuperblockSec, superblockSector superblock)) ∨
    ∃ inodes, ∃ n < 8, e = (tableSector n, inodeTableSector inodes n)

/-- The calls of `Write28` that a call of `WriteFile` makes, the latest first. -/
def writeRecord {σ : Type} (E : Env σ) (s : Sys σ) (inodeIndex : ℤ) (buffer : ℕ → UInt8)
    (size : UInt32) : List (UInt32 × Sector) :=
  (writeFile E.recorded inodeIndex buffer size s.recorded).2.world.2

section Calls

variable {σ : Type} {E : Env σ} {P Q : UInt32 × Sector → Prop}
  {w w' w'' : σ × List (UInt32 × Sector)} {s : Sys (σ × List (UInt32 × Sector))} {i : Fin 64}
  {buffer : ℕ → UInt8} {size : UInt32}

theorem Records.of_eq (h : w'.2 = w.2) : Records P w w' := ⟨[], h, by simp⟩

/-- The calls of two pieces of code, one after the other. -/
theorem Records.trans (h : Records P w w') (h' : Records P w' w'') : Records P w w'' := by
  obtain ⟨added, hw', hP⟩ := h
  obtain ⟨added', hw'', hP'⟩ := h'
  refine ⟨added' ++ added, by rw [hw'', hw', List.append_assoc], fun e he => ?_⟩
  rcases List.mem_append.mp he with he | he
  · exact hP' e he
  · exact hP e he

theorem Records.or (h : Records P w w') : Records (fun e => P e ∨ Q e) w w' := by
  obtain ⟨added, hw', hP⟩ := h
  exact ⟨added, hw', fun e he => .inl (hP e he)⟩

/-- What is in the record stays in it. -/
theorem Records.mem (h : Records P w w') {e : UInt32 × Sector} (he : e ∈ w.2) : e ∈ w'.2 := by
  obtain ⟨added, hw', -⟩ := h
  rw [hw']
  exact List.mem_append_right _ he

/-- One call. -/
theorem records_write28 {sector : UInt32} {b : Buffer} (h : P (sector, b.data)) :
    Records P w (E.recorded.write28 sector b w) :=
  ⟨[(sector, b.data)], rfl, by simpa using h⟩

theorem saveSuperblock_records (E : Env σ) (s : Sys (σ × List (UInt32 × Sector))) :
    Records SavesMetadata s.world (saveSuperblock E.recorded s).world := by
  obtain ⟨fs, w, record⟩ := s
  obtain ⟨r, w', hmalloc⟩ : ∃ r w', E.malloc w = (r, w') := ⟨_, _, rfl⟩
  unfold saveSuperblock
  simp only
  rw [malloc_recorded hmalloc]
  cases r with
  | none => exact .of_eq rfl
  | some b =>
    refine ⟨[(fsSuperblockSec, superblockSector fs.superblock)], rfl, ?_⟩
    intro e he
    exact .inl ⟨fs.superblock, List.mem_singleton.mp he⟩

theorem saveInodeTable_records (E : Env σ) (s : Sys (σ × List (UInt32 × Sector))) :
    Records SavesMetadata s.world (saveInodeTable E.recorded s).world := by
  obtain ⟨fs, w, record⟩ := s
  obtain ⟨r, w', hmalloc⟩ : ∃ r w', E.malloc w = (r, w') := ⟨_, _, rfl⟩
  unfold saveInodeTable
  simp only
  rw [malloc_recorded hmalloc]
  cases r with
  | none => exact .of_eq rfl
  | some b =>
    have hloop := @forLoop_invariant_of_true _ (saveInodeRound E.recorded fs.inodes) 8 0
      (b, (w', record)) (fun _ st => Records SavesMetadata (w', record) st.2) (.of_eq rfl)
      fun k st _ hk h => h.trans (records_write28 (.inr ⟨fs.inodes, k, by omega, rfl⟩))
    exact hloop

theorem allocateSector_records (E : Env σ) (s : Sys (σ × List (UInt32 × Sector))) :
    Records SavesMetadata s.world (allocateSector E.recorded s).2.world :=
  saveSuperblock_records E _

/-- Before the loop only the superblock is saved. -/
theorem firstSector_records (E : Env σ) (i : Fin 64) (s : Sys (σ × List (UInt32 × Sector))) :
    Records SavesMetadata s.world (firstSector E.recorded i s).world := by
  unfold firstSector
  split
  · exact allocateSector_records E s
  · exact .of_eq rfl

/-- Before a round writes its data, it saves at most the superblock. -/
theorem beforeData_records (E : Env σ) (k : ℕ)
    (st : WriteState (σ × List (UInt32 × Sector))) :
    Records SavesMetadata st.sys.world (beforeData E.recorded k st).world := by
  unfold beforeData
  split
  · exact allocateSector_records E st.sys
  · exact .of_eq rfl

/-- The calls of `Write28` in the first rounds of the loop of `WriteFile`. -/
theorem WriteReaches.records {t : Sys σ} {k : ℕ} {st : WriteState (σ × List (UInt32 × Sector))}
    (h : WriteReaches E.recorded i buffer size t.recorded k st) (hm : t.fs.mounted = true)
    (hi : t.fs.InUse i) (hk : k ≤ (sectorCount size).toNat) :
    Records (fun e => SavesMetadata e ∨ WritesDataTo E t i.val buffer size e.1)
        t.recorded.world st.sys.world ∧
      ∀ j < k, ∃ data, (t.fs.writeSector i j, data) ∈ st.sys.world.2 := by
  induction k generalizing st with
  | zero =>
    obtain ⟨diskBuffer, w, hmalloc, rfl⟩ := h
    refine ⟨?_, fun j hj => absurd hj (by omega)⟩
    exact (firstSector_records E i t.recorded).or.trans
      (.of_eq (congrArg (fun r => r.2.2) hmalloc).symm)
  | succ k ih =>
    obtain ⟨diskBuffer, w, hmalloc, hst⟩ := h
    rw [forLoop_succ_last, Nat.zero_add] at hst
    have hprev : WriteReaches E.recorded i buffer size t.recorded k _ :=
      ⟨diskBuffer, w, hmalloc, rfl⟩
    rw [hst]
    generalize forLoop _ _ k 0 _ = prev at hprev
    obtain ⟨hrecords, hall⟩ := ih hprev (by omega)
    obtain ⟨b, -, hround⟩ := hprev.round (by omega)
    have hdata : WritesDataTo E t i.val buffer size (t.fs.writeSector i k) :=
      ⟨hm, i, rfl, hi, k, by omega, prev, hprev, b.data, by rw [hround]; rfl⟩
    -- the round allocates, which saves the superblock, and then writes its data
    have hbefore := beforeData_records E k prev
    rw [hround]
    refine ⟨(hrecords.trans hbefore.or).trans (records_write28 (.inr hdata)),
      fun j hj => ?_⟩
    by_cases hjk : j = k
    · subst hjk
      exact ⟨b.data, List.mem_cons_self⟩
    · obtain ⟨data, hmem⟩ := hall j (by omega)
      exact ⟨data, List.mem_cons_of_mem _ (hbefore.mem hmem)⟩

/-- **The calls of `Write28` in a call of `WriteFile`** save metadata or write the sectors with
file data, and the call writes each of these. -/
theorem record_writeFile (E : Env σ) (s : Sys σ) (inodeIndex : ℤ) (buffer : ℕ → UInt8)
    (size : UInt32) :
    (∀ e ∈ writeRecord E s inodeIndex buffer size,
        SavesMetadata e ∨ WritesDataTo E s inodeIndex buffer size e.1) ∧
      ∀ x, WritesDataTo E s inodeIndex buffer size x →
        ∃ data, (x, data) ∈ writeRecord E s inodeIndex buffer size := by
  constructor
  · have hrecords : Records (fun e => SavesMetadata e ∨ WritesDataTo E s inodeIndex buffer size e.1)
        s.recorded.world (writeFile E.recorded inodeIndex buffer size s.recorded).2.world := by
      rcases writeFile_cases E.recorded s.recorded inodeIndex buffer size with
        ⟨-, h⟩ | ⟨i, hm, hidx, hi, h⟩
      · rw [h]
        exact .of_eq rfl
      · subst hidx
        -- without memory for its buffer the call ends after the first sector
        by_cases hmalloc : (E.recorded.malloc (firstSector E.recorded i s.recorded).world).1 = none
        · refine (firstSector_records E i s.recorded).or.trans (.of_eq ?_)
          rw [h, writeInode]
          obtain ⟨r, w', hr⟩ : ∃ r w', E.recorded.malloc (firstSector E.recorded i
            s.recorded).world = (r, w') := ⟨_, _, rfl⟩
          rw [hr] at hmalloc
          obtain rfl : r = none := hmalloc
          simp only
          rw [hr]
          exact (congrArg (fun r => r.2.2) hr).symm
        · obtain ⟨st, hst⟩ := @exists_writeReaches _ E.recorded i buffer size s.recorded hmalloc
            (sectorCount size).toNat
          rw [hst.writeFile_eq hm hi]
          exact ((hst.records hm hi le_rfl).1.trans (.of_eq rfl)).trans
            (saveInodeTable_records E _).or
    obtain ⟨added, hadded, hP⟩ := hrecords
    intro e he
    rw [writeRecord, hadded] at he
    replace he : e ∈ added ++ [] := he
    rw [List.append_nil] at he
    exact hP e he
  · intro x hx
    obtain ⟨hm, i, rfl, hi, k, hk, st, hst, data, hdata⟩ := hx
    obtain ⟨b, -, hround⟩ := hst.round hk
    -- the loop goes on to its end, and what is in the record stays there
    obtain ⟨diskBuffer, w, hmalloc, -⟩ := hst
    obtain ⟨last, hlast⟩ := @exists_writeReaches _ E.recorded i buffer size s.recorded
      (by rw [hmalloc]; exact Option.some_ne_none _) (sectorCount size).toNat
    obtain ⟨data', hmem⟩ := (hlast.records hm hi le_rfl).2 k hk
    have hx : s.fs.writeSector i k = x := by
      rw [hround] at hdata
      exact congrArg Prod.fst (List.cons.inj hdata).1
    refine ⟨data', ?_⟩
    rw [← hx, writeRecord, hlast.writeFile_eq hm hi]
    exact (saveInodeTable_records E _).mem hmem

end Calls

end FileSystem
