/-
# What the file system makes of disk errors

`Read28` and `Write28` return nothing, so `ReadFile` and `WriteFile` count a sector whether
or not the drive has transferred it.  What they report is true exactly when the drive
serves each of their accesses to the sectors of the file.
-/
import HydraOS.AtaTransfers
import HydraOS.DataWrites

namespace FileSystem

open Ata

/-! ## Inside the loop of `ReadFile` -/

section Loops

variable {σ : Type} (E : Env σ)

/-- `ReadFile` comes to its round `k` with these locals. -/
def ReadReaches (inode : Inode) (out : ℕ → UInt8) (size : UInt32) (s : Sys σ) (k : ℕ)
    (st : ReadState σ) : Prop :=
  ∃ diskBuffer w, E.malloc s.world = (some diskBuffer, w) ∧
    st = forLoop (fun _ => true) (readRound E inode size) k 0 ⟨w, diskBuffer, out, 0⟩

end Loops

/-! ## What the results say -/

section Reports

variable {δ η : Type} (a : Ata) (D : Device δ) (H : HeapService η)
  (s : Sys (DiskWorld δ η)) (inodeIndex : ℤ) (size : UInt32)

/-- The byte at offset `j` of a file that starts at a sector is one of a transfer of the
sector to which it belongs. -/
def Delivered (start : UInt32) (new : List Transfer) (j : ℕ) (v : UInt8) : Prop :=
  ∃ t ∈ new, t.command = cmdReadPio ∧ t.sector = (start + .ofNat (j / 512)).toNat ∧
    v = byteOf t.words (j % 512)

/-- The drive serves the read for round `k`. -/
def ReadServed (inode : Inode) (out : ℕ → UInt8) (k : ℕ) : Prop :=
  ∀ st, ReadReaches (a.env D H) inode out size s k st →
    a.ServesRead D (inode.startSector + .ofNat k) st.diskBuffer.data.get 1 st.world.bus

/-- The transfers of the first `k` rounds of `ReadFile`: only rounds that the drive served
have any, and if all were served, then the bytes read so far come from them. -/
def ReadLog (inode : Inode) (out : ℕ → UInt8) (k : ℕ)
    (st : ReadState (DiskWorld δ η)) : Prop :=
  ∃ new, a.transfers st.world.bus = new ++ a.transfers s.world.bus ∧
    (∀ t ∈ new, ∃ j < k, ReadServed a D H s size inode out j ∧
      t.sector = (inode.startSector + .ofNat j).toNat) ∧
    ((∀ j < k, ReadServed a D H s size inode out j) →
      ∀ j < min (512 * k) (min size.toNat (storedLength inode.size)),
        Delivered inode.startSector new j (st.out j))

variable {a D H s inodeIndex size} {buffer out : ℕ → UInt8}

/-! ### Writing -/

variable {inode : Inode} {k : ℕ} {st : ReadState (DiskWorld δ η)}

theorem Delivered.cons {start : UInt32} {new : List Transfer} {j : ℕ} {v : UInt8}
    (h : Delivered start new j v) (t : Transfer) : Delivered start (t :: new) j v := by
  obtain ⟨t', ht', hrest⟩ := h
  exact ⟨t', List.mem_cons_of_mem _ ht', hrest⟩

/-- A round has only one state in which it starts. -/
theorem ReadReaches.unique {σ : Type} {E : Env σ} {s : Sys σ} {st st' : ReadState σ}
    (h : ReadReaches E inode out size s k st) (h' : ReadReaches E inode out size s k st') :
    st' = st := by
  obtain ⟨diskBuffer, w, hmalloc, rfl⟩ := h
  obtain ⟨diskBuffer', w', hmalloc', rfl⟩ := h'
  rw [hmalloc] at hmalloc'
  cases hmalloc'
  rfl

theorem readServed_iff (h : ReadReaches (a.env D H) inode out size s k st) :
    ReadServed a D H s size inode out k ↔
      a.ServesRead D (inode.startSector + .ofNat k) st.diskBuffer.data.get 1 st.world.bus := by
  constructor
  · exact fun hserved => hserved st h
  · intro hserves st' hst'
    rwa [h.unique hst']

/-- **One round of `ReadFile`** adds the transfer of its sector if the drive serves it. -/
theorem ReadLog.step (h : ReadLog a D H s size inode out k st)
    (hst : ReadReaches (a.env D H) inode out size s k st)
    (hlt : 512 * k < min size.toNat (storedLength inode.size)) :
    ReadLog a D H s size inode out (k + 1) (readRound (a.env D H) inode size k st) := by
  obtain ⟨new, hnew, hfrom, hbytes⟩ := h
  have hread : st.bytesRead.toNat = 512 * k := by
    obtain ⟨diskBuffer, w, -, rfl⟩ := hst
    rw [readRounds_bytesRead (a.env D H) rfl (by omega)]
    omega
  obtain ⟨v, hv, hround⟩ := readRound_eq (a.env D H) hread hlt
  rw [hround]
  by_cases hserved : ReadServed a D H s size inode out k
  · obtain ⟨wss, hlen, -, hlog, hdata⟩ := read28_of_serves ((readServed_iff hst).mp hserved)
    obtain ⟨ws, rfl⟩ := List.length_eq_one_iff.mp hlen
    refine ⟨⟨cmdReadPio, (inode.startSector + .ofNat k).toNat, ws⟩ :: new, ?_, ?_, ?_⟩
    · rw [List.cons_append, ← hnew]
      exact hlog
    · intro t ht
      rcases List.mem_cons.mp ht with rfl | ht
      · exact ⟨k, by omega, hserved, rfl⟩
      · obtain ⟨j, hj, hrest⟩ := hfrom t ht
        exact ⟨j, by omega, hrest⟩
    · intro hall j hj
      simp only
      by_cases hk : 512 * k ≤ j
      · -- the byte is in the sector of this round
        have hdiv : j / 512 = k := by omega
        refine ⟨_, List.mem_cons_self, rfl, by rw [hdiv], ?_⟩
        rw [if_pos ⟨hk, by omega⟩]
        have hget := Bytes.get_tabulate (n := 512)
          (a.read28 D (inode.startSector + .ofNat k) st.diskBuffer.data.get 1 st.world.bus).1
          (Nat.mod_lt j (by decide))
        refine hget.trans ((hdata _).trans ?_)
        have hzero : j % 512 / 512 = 0 := by omega
        rw [if_pos (by omega), hzero, Nat.mod_mod]
        rfl
      · rw [if_neg (by omega)]
        exact (hbytes (fun j hj => hall j (by omega)) j (by omega)).cons _
  · refine ⟨new, ?_, ?_, ?_⟩
    · rw [← hnew]
      exact (read28_of_not_serves fun h => hserved ((readServed_iff hst).mpr h)).1
    · intro t ht
      obtain ⟨j, hj, hrest⟩ := hfrom t ht
      exact ⟨j, by omega, hrest⟩
    · intro hall
      exact absurd (hall k (by omega)) hserved

end Reports

/-! ## A drive that has gone away -/

end FileSystem
