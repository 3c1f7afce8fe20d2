/-
# Success messages of the shell

`touch`, `write`, `cat` and `rm` report on one call of the file system.  The four calls say in
four ways that they have failed: `-1` instead of an index, `false`, `-1` instead of a count, a
count of `0`.  The commands test `fd >= 0`, the result itself, and twice `!= 0`.  For
`CommandWrite` that is the wrong test: the `-1` of `WriteFile` is taken for success.
-/
import HydraOS.CommandLine
import HydraOS.MemoryExhaustion

open FileSystem Shell BlockList

/-! ## What a command says and what is true -/

/-- The commands that report on a call of the file system. -/
inductive FileCommand where
  | touch (args : CStr)
  | write (args : CStr)
  | cat (args : CStr)
  | rm (args : CStr)

/-- The command of the shell. -/
def FileCommand.command : FileCommand → Command
  | .touch args => .touch args
  | .write args => .write args
  | .cat args => .cat args
  | .rm args => .rm args

/-- What the success branch of a command prints. -/
def SuccessBranch : FileCommand → List VgaCall → Prop
  | .touch args, calls =>
    calls = [color lightGreen, text "File '", .print args.chars, text "' created.\n"]
  | .write args, calls =>
    calls = [color lightGreen, text "Wrote ", .printNumber (.ofNat testData.length),
      text " bytes to '", .print args.chars, text "'\n"]
  | .cat _, calls => ∃ chars, calls = [color white, .print chars] ∨
      calls = [color white, .print chars, text "\n"]
  | .rm args, calls =>
    calls = [color lightGreen, text "File '", .print args.chars, text "' deleted.\n"]

section Truthful

variable {σ ι : Type} (E : PointerEnv σ) (s : Shell σ)

/-- The command comes to its call of the file system, and the call reports success: an index,
the full length, a positive count or `true`. -/
def CallSucceeds : FileCommand → Prop
  | .touch args => args.get 0 ≠ 0 ∧ 0 ≤ (createFile E.toEnv args s.sys).1
  | .write args => args.get 0 ≠ 0 ∧ 0 ≤ s.sys.fs.openFile args ∧
      (writeFile E.toEnv (s.sys.fs.openFile args) (fun i => testData.getD i 0)
        (.ofNat testData.length) s.sys).1 = testData.length
  | .cat args => args.get 0 ≠ 0 ∧ 0 ≤ s.sys.fs.openFile args ∧ s.sys.fs.getFileSize args ≠ 0 ∧
      ∃ buffer w, E.mallocBytes (s.sys.fs.getFileSize args + 1) s.sys.world = (some buffer, w) ∧
        0 < (Pointer.readFile E (s.sys.fs.openFile args) buffer.ptr (s.sys.fs.getFileSize args)
          { s.sys with world := w }).1
  | .rm args => args.get 0 ≠ 0 ∧ (deleteFile E.toEnv args s.sys).1 = true

/-- **The message is true**: the command takes its success branch if and only if the call
reports success. -/
def Truthful (c : FileCommand) : Prop :=
  ∃ calls, (Pointer.fileCommand E s c.command).out = s.out ++ calls ∧
    (SuccessBranch c calls ↔ CallSucceeds E s c)

variable {E s} {c : FileCommand} {calls : List VgaCall}

/-- A success message is green or white. -/
theorem SuccessBranch.color_eq {f : UInt8} (h : SuccessBranch c (color f :: calls)) :
    f = lightGreen ∨ f = white := by
  cases c with
  | touch args =>
    cases h
    exact .inl rfl
  | write args =>
    cases h
    exact .inl rfl
  | cat args =>
    obtain ⟨chars, h | h⟩ := h
    · cases h
      exact .inr rfl
    · cases h
      exact .inr rfl
  | rm args =>
    cases h
    exact .inl rfl

/-- A command that prints in another colour reports failure. -/
theorem truthful_of_failure {f : UInt8}
    (hout : (Pointer.fileCommand E s c.command).out = s.out ++ color f :: calls)
    (hf : ¬ (f = lightGreen ∨ f = white)) (hno : ¬ CallSucceeds E s c) : Truthful E s c := by
  refine ⟨_, hout, ?_⟩
  apply iff_of_false
  · intro h
    exact hf h.color_eq
  · exact hno

/-- A command in its success branch tells the truth if its call reports success. -/
theorem truthful_iff_of_success
    (hout : (Pointer.fileCommand E s c.command).out = s.out ++ calls)
    (hsuccess : SuccessBranch c calls) : Truthful E s c ↔ CallSucceeds E s c := by
  constructor
  · rintro ⟨calls', hout', hiff⟩
    obtain rfl : calls' = calls := List.append_cancel_left (hout'.symm.trans hout)
    exact hiff.mp hsuccess
  · intro hcall
    exact ⟨calls, hout, iff_of_true hsuccess hcall⟩

/-! ## `touch` and `rm` -/

theorem truthful_touch (args : CStr) : Truthful E s (.touch args) := by
  have hcommand : Pointer.fileCommand E s (FileCommand.touch args).command =
    commandTouch E.toShellEnv args s := rfl
  rw [commandTouch] at hcommand
  simp only at hcommand
  by_cases hargs : args.get 0 = 0
  · rw [if_pos hargs] at hcommand
    apply truthful_of_failure (congrArg Shell.out hcommand) (by decide)
    intro h
    exact h.1 hargs
  · rw [if_neg hargs] at hcommand
    by_cases hfd : (createFile E.toEnv args s.sys).1 ≥ 0
    · rw [if_pos hfd] at hcommand
      apply (truthful_iff_of_success (congrArg Shell.out hcommand) rfl).mpr
      exact ⟨hargs, hfd⟩
    · rw [if_neg hfd] at hcommand
      apply truthful_of_failure (congrArg Shell.out hcommand) (by decide)
      intro h
      exact hfd h.2

theorem truthful_rm (args : CStr) : Truthful E s (.rm args) := by
  have hcommand : Pointer.fileCommand E s (FileCommand.rm args).command =
    commandRm E.toShellEnv args s := rfl
  rw [commandRm] at hcommand
  simp only at hcommand
  by_cases hargs : args.get 0 = 0
  · rw [if_pos hargs] at hcommand
    apply truthful_of_failure (congrArg Shell.out hcommand) (by decide)
    intro h
    exact h.1 hargs
  · rw [if_neg hargs] at hcommand
    by_cases hok : (deleteFile E.toEnv args s.sys).1 = true
    · rw [if_pos hok] at hcommand
      apply (truthful_iff_of_success (congrArg Shell.out hcommand) rfl).mpr
      exact ⟨hargs, hok⟩
    · rw [if_neg hok] at hcommand
      apply truthful_of_failure (congrArg Shell.out hcommand) (by decide)
      intro h
      exact hok h.2

/-! ## `write` and `cat` on a heap that is used with discipline -/

/-- After the block of `size + 1` bytes for the text of a file there is room for a buffer. -/
def RoomToRead (bs : List Block) (size : UInt32) : Prop :=
  ∃ p bs', allocate 16 (fits (size + 1).toNat) (size + 1).toNat bs = some (p, bs') ∧ HasRoom bs'

/-- In the states `I`, allocations succeed as the blocks `bs` say. -/
structure Rooms (E : PointerEnv σ) (I : σ → Prop) (bs : List Block) : Prop where
  malloc : ∀ {w}, I w → ((E.malloc w).1 = none ↔ ¬ HasRoom bs)
  read : ∀ {w} size, I w → ((∃ buffer w', E.mallocBytes (size + 1) w = (some buffer, w') ∧
    (E.malloc w').1 ≠ none) ↔ RoomToRead bs size)

variable {I : ι → σ → Prop} {i : ι} {bs : List Block}

/-- What `WriteFile` returns for an inode in use: without a buffer `-1`, and never `0` for a size
that is positive. -/
theorem writeInode_result {E : Env σ} {j : Fin 64} {buffer : ℕ → UInt8} {size : UInt32}
    {s : Sys σ} {room : Prop} (hroom : (E.malloc (firstSector E j s).world).1 = none ↔ ¬ room)
    (hsize : 0 < size.toNat ∧ size.toNat < 2 ^ 31) :
    ((writeInode E j buffer size s).1 = size.toNat ↔ room) ∧
      (writeInode E j buffer size s).1 ≠ 0 := by
  by_cases hnone : (E.malloc (firstSector E j s).world).1 = none
  · have hres : (writeInode E j buffer size s).1 = -1 := by
      rw [writeInode]
      generalize E.malloc (firstSector E j s).world = r at hnone
      obtain ⟨_ | diskBuffer, w⟩ := r
      · rfl
      · cases hnone
    rw [hres]
    constructor
    · apply iff_of_false
      · omega
      · exact hroom.mp hnone
    · decide
  · have hres := (writeInode_cases E j buffer size s).resolve_left fun h => hnone h.1
    rw [hres.1, storedLength_eq hsize.2, UInt32.ofNat_toNat, toInt32_of_lt hsize.2]
    constructor
    · apply iff_of_true rfl
      by_contra h
      exact hnone (hroom.mpr h)
    · omega

/-- `CommandWrite` tells the truth unless `WriteFile` gets no buffer. -/
theorem truthful_write_iff (hE : E.Balanced I) (hrooms : Rooms E (I i) bs)
    (h : I i s.sys.world) (args : CStr) :
    Truthful E s (.write args) ↔
      args.get 0 = 0 ∨ s.sys.fs.lookup args = none ∨ HasRoom bs := by
  have hcommand : Pointer.fileCommand E s (FileCommand.write args).command =
    commandWrite E.toShellEnv args s := rfl
  rw [commandWrite] at hcommand
  simp only at hcommand
  by_cases hargs : args.get 0 = 0
  · rw [if_pos hargs] at hcommand
    refine iff_of_true ?_ (.inl hargs)
    apply truthful_of_failure (congrArg Shell.out hcommand) (by decide)
    intro h
    exact h.1 hargs
  · rw [if_neg hargs] at hcommand
    by_cases hfd : s.sys.fs.openFile args < 0
    · rw [if_pos hfd] at hcommand
      refine iff_of_true ?_ (.inr (.inl ?_))
      · apply truthful_of_failure (congrArg Shell.out hcommand) (by decide)
        intro h
        exact absurd h.2.1 (by omega)
      · cases hlookup : s.sys.fs.lookup args with
        | none => rfl
        | some j =>
          rw [openFile_eq_iff.mpr hlookup] at hfd
          omega
    · -- the result is the full length or -1, and neither is 0
      rw [if_neg hfd] at hcommand
      obtain ⟨j, hj⟩ := Pointer.exists_lookup_of_openFile hfd
      have hopen := openFile_eq_iff.mpr hj
      have hcall : writeFile E.toEnv (s.sys.fs.openFile args) (fun i => testData.getD i 0)
          (.ofNat testData.length) s.sys =
          writeInode E.toEnv j (fun i => testData.getD i 0) (.ofNat testData.length) s.sys := by
        rw [hopen]
        exact writeFile_of_inUse E.toEnv s.sys (mounted_of_lookup hj) (inUse_of_lookup hj)
      have hresult := @writeInode_result _ E.toEnv j (fun i => testData.getD i 0)
        (.ofNat testData.length) s.sys _ (hrooms.malloc (firstSector_keeps hE j h)) (by decide)
      have hlength : (UInt32.ofNat testData.length).toNat = testData.length := by decide
      rw [hlength] at hresult
      rw [hcall, if_pos hresult.2] at hcommand
      rw [truthful_iff_of_success (congrArg Shell.out hcommand) rfl, CallSucceeds, hcall,
        hresult.1]
      constructor
      · intro h
        exact .inr (.inr h.2.2)
      · rintro (h | h | h)
        · exact absurd h hargs
        · rw [hj] at h
          cases h
        · exact ⟨hargs, by omega, h⟩

/-- The rounds count the same whether the bytes go through a pointer or not. -/
theorem bytesRead_pointer {inode : Inode} {buffer : ℕ} {size : UInt32} (count first : ℕ)
    {st : Pointer.ReadState σ} {st' : FileSystem.ReadState σ}
    (hst : st.bytesRead = st'.bytesRead) :
    (forLoop (fun st => st.bytesRead < size) (Pointer.readRound E inode buffer size)
        count first st).bytesRead =
      (forLoop (fun st => decide (st.bytesRead < size)) (FileSystem.readRound E.toEnv inode size)
        count first st').bytesRead := by
  induction count generalizing first st st' with
  | zero => exact hst
  | succ count ih =>
    rw [forLoop, forLoop, hst]
    split
    · apply ih
      rw [Pointer.readRound, FileSystem.readRound]
      simp only [hst]
    · exact hst

/-- What `ReadFile` returns for an inode in use: without a buffer `0`. -/
theorem readInode_result {inode : Inode} {buffer : ℕ} {size : UInt32} {s : Sys σ} :
    (Pointer.readInode E inode buffer size s).1 =
      if (E.malloc s.world).1 ≠ none then toInt32 (.ofNat (readLength inode size)) else 0 := by
  rw [Pointer.readInode]
  by_cases hcond : inode.size > 0 ∧ inode.startSector > 0
  · rw [if_pos hcond]
    generalize E.malloc s.world = r
    obtain ⟨_ | diskBuffer, w⟩ := r
    · rfl
    · have hlen : readLength inode size = min size.toNat (storedLength inode.size) :=
        if_neg (UInt32.pos_iff_ne_zero.mp hcond.2)
      have hread := @readRounds_bytesRead inode size _ E.toEnv ⟨w, diskBuffer, fun _ => 0, 0⟩ rfl
        _ le_rfl
      have hsize := size.toNat_lt
      simp only [ne_eq, reduceCtorEq, not_false_eq_true, if_true]
      rw [@bytesRead_pointer _ E inode buffer size _ 0 ⟨w, diskBuffer, 0⟩
        ⟨w, diskBuffer, fun _ => 0, 0⟩ rfl, readRounds_eq E.toEnv rfl, hlen]
      apply congrArg toInt32
      apply UInt32.toNat_inj.mp
      rw [hread, toNat_ofNat_of_lt (by omega)]
      omega
  · rw [if_neg hcond, readLength_eq_zero hcond]
    split <;> rfl

/-- `CommandCat` without a block for the text reports failure. -/
theorem truthful_cat_of_none {args : CStr} {w : σ}
    (hm : E.mallocBytes (s.sys.fs.getFileSize args + 1) s.sys.world = (none, w)) :
    Truthful E s (.cat args) := by
  have hcommand : Pointer.fileCommand E s (FileCommand.cat args).command =
    Pointer.commandCat E args s := rfl
  rw [Pointer.commandCat] at hcommand
  simp only [hm] at hcommand
  have hno : ¬ CallSucceeds E s (.cat args) := by
    rintro ⟨-, -, -, buffer, w', hm', -⟩
    rw [hm] at hm'
    cases hm'
  split at hcommand
  · exact truthful_of_failure (congrArg Shell.out hcommand) (by decide) hno
  · split at hcommand
    · exact truthful_of_failure (congrArg Shell.out hcommand) (by decide) hno
    · split at hcommand
      · exact truthful_of_failure (congrArg Shell.out hcommand) (by decide) hno
      · exact truthful_of_failure (congrArg Shell.out hcommand) (by decide) hno

/-- `CommandCat` with a block takes every result but `0` for success. -/
theorem truthful_cat_of_some {args : CStr} {buffer : HeapBlock} {w : σ}
    (hm : E.mallocBytes (s.sys.fs.getFileSize args + 1) s.sys.world = (some buffer, w)) :
    Truthful E s (.cat args) ↔
      args.get 0 = 0 ∨ s.sys.fs.openFile args < 0 ∨ s.sys.fs.getFileSize args = 0 ∨
        0 ≤ (Pointer.readFile E (s.sys.fs.openFile args) buffer.ptr (s.sys.fs.getFileSize args)
          { s.sys with world := w }).1 := by
  have hcommand : Pointer.fileCommand E s (FileCommand.cat args).command =
    Pointer.commandCat E args s := rfl
  rw [Pointer.commandCat] at hcommand
  simp only [hm] at hcommand
  have hcall : CallSucceeds E s (.cat args) ↔ args.get 0 ≠ 0 ∧ 0 ≤ s.sys.fs.openFile args ∧
      s.sys.fs.getFileSize args ≠ 0 ∧ 0 < (Pointer.readFile E (s.sys.fs.openFile args) buffer.ptr
        (s.sys.fs.getFileSize args) { s.sys with world := w }).1 := by
    rw [CallSucceeds, hm]
    simp
  generalize Pointer.readFile E (s.sys.fs.openFile args) buffer.ptr (s.sys.fs.getFileSize args)
    { s.sys with world := w } = r at hcommand hcall ⊢
  obtain ⟨r, sys⟩ := r
  simp only at hcommand hcall ⊢
  split at hcommand
  · next hargs =>
    refine iff_of_true ?_ (.inl hargs)
    apply truthful_of_failure (congrArg Shell.out hcommand) (by decide)
    exact fun h => (hcall.mp h).1 hargs
  · next hargs =>
    split at hcommand
    · next hfd =>
      refine iff_of_true ?_ (.inr (.inl hfd))
      apply truthful_of_failure (congrArg Shell.out hcommand) (by decide)
      exact fun h => absurd (hcall.mp h).2.1 (by omega)
    · next hfd =>
      split at hcommand
      · next hsize =>
        refine iff_of_true ?_ (.inr (.inr (.inl hsize)))
        apply truthful_of_failure (congrArg Shell.out hcommand) (by decide)
        exact fun h => (hcall.mp h).2.2.1 hsize
      · next hsize =>
        by_cases hr : r = 0
        · rw [if_neg (not_not.mpr hr)] at hcommand
          refine iff_of_true ?_ (.inr (.inr (.inr hr.ge)))
          apply truthful_of_failure (congrArg Shell.out hcommand) (by decide)
          exact fun h => absurd (hcall.mp h).2.2.2 (by omega)
        · rw [if_pos hr] at hcommand
          have hiff : (args.get 0 = 0 ∨ s.sys.fs.openFile args < 0 ∨
              s.sys.fs.getFileSize args = 0 ∨ 0 ≤ r) ↔ CallSucceeds E s (.cat args) := by
            rw [hcall]
            simp only [hargs, hfd, hsize, false_or]
            constructor
            · intro h
              exact ⟨hargs, by omega, hsize, by omega⟩
            · intro h
              exact h.2.2.2.le
          rw [hiff]
          split at hcommand
          · exact truthful_iff_of_success ((congrArg Shell.out hcommand).trans
              (List.append_assoc _ _ _)) ⟨_, .inr rfl⟩
          · exact truthful_iff_of_success (congrArg Shell.out hcommand) ⟨_, .inl rfl⟩

/-- The command on a file, with a block for its text. -/
theorem truthful_cat_of_lookup {args : CStr} {buffer : HeapBlock} {w : σ} {j : Fin 64}
    (hj : s.sys.fs.lookup args = some j)
    (hm : E.mallocBytes ((s.sys.fs.inodes j).size + 1) s.sys.world = (some buffer, w)) :
    Truthful E s (.cat args) ↔ args.get 0 = 0 ∨
      readLength (s.sys.fs.inodes j) (s.sys.fs.inodes j).size < 2 ^ 31 ∨ (E.malloc w).1 = none := by
  have hgetsize : s.sys.fs.getFileSize args = (s.sys.fs.inodes j).size := by
    rw [getFileSize, hj]
  have hopen : ¬ s.sys.fs.openFile args < 0 := by
    rw [openFile_eq_iff.mpr hj]
    omega
  have hle := readLength_le (s.sys.fs.inodes j) (s.sys.fs.inodes j).size
  have hcount := toInt32_nonneg_iff (hle.trans_lt (s.sys.fs.inodes j).size.toNat_lt)
  rw [← hgetsize] at hm
  rw [truthful_cat_of_some hm, hgetsize, or_iff_right hopen,
    Pointer.readFile_of_lookup E { s.sys with world := w } hj, readInode_result]
  apply or_congr_right
  by_cases hnone : (E.malloc w).1 = none
  · rw [if_neg (not_not.mpr hnone)]
    exact iff_of_true (.inr le_rfl) (.inr hnone)
  · rw [if_pos hnone, hcount, or_iff_left hnone]
    constructor
    · rintro (hsize | hlt)
      · -- of an empty file nothing is read
        rw [hsize] at hle ⊢
        exact hle.trans_lt (show (0 : UInt32).toNat < 2 ^ 31 by decide)
      · exact hlt
    · exact .inr

/-- `CommandCat` tells the truth unless the number of bytes read is not an `int32_t`. -/
theorem truthful_cat_iff (hrooms : Rooms E (I i) bs) (h : I i s.sys.world) (args : CStr) :
    Truthful E s (.cat args) ↔
      args.get 0 = 0 ∨ ∀ j, s.sys.fs.lookup args = some j →
        readLength (s.sys.fs.inodes j) (s.sys.fs.inodes j).size < 2 ^ 31 ∨
          ¬ RoomToRead bs (s.sys.fs.inodes j).size := by
  cases hj : s.sys.fs.lookup args with
  | none =>
    have hopen : s.sys.fs.openFile args < 0 := by
      rw [openFile, hj]
      decide
    apply iff_of_true
    · rcases hm : E.mallocBytes (s.sys.fs.getFileSize args + 1) s.sys.world with ⟨_ | buffer, w⟩
      · exact truthful_cat_of_none hm
      · exact (truthful_cat_of_some hm).mpr (.inr (.inl hopen))
    · right
      intro j hj'
      cases hj'
  | some j =>
    have hgetsize : s.sys.fs.getFileSize args = (s.sys.fs.inodes j).size := by
      rw [getFileSize, hj]
    have hread := hrooms.read (s.sys.fs.inodes j).size h
    simp only [Option.some.injEq, forall_eq']
    rcases hm : E.mallocBytes ((s.sys.fs.inodes j).size + 1) s.sys.world with ⟨_ | buffer, w⟩
    · refine iff_of_true ?_ (.inr (.inr ?_))
      · rw [← hgetsize] at hm
        exact truthful_cat_of_none hm
      · intro hroom
        obtain ⟨buffer, w', hm', -⟩ := hread.mpr hroom
        rw [hm] at hm'
        cases hm'
    · have hroom : (E.malloc w).1 = none ↔ ¬ RoomToRead bs (s.sys.fs.inodes j).size := by
        rw [← hread, hm]
        simp
      rw [truthful_cat_of_lookup hj hm, hroom]

end Truthful

/-! ## On the kernel's heap -/

section Kernel

variable {δ : Type} (D : DiskService δ) {R : Region} {bs : List Block} {w : KernelWorld δ}
  {h : Heap}

/-- A call of `malloc` on a heap that is laid out as the blocks `bs`. -/
theorem mallocBytes_of_layout (hheap : w.heap.heap = some h) (hl : Layout R h bs) (n : UInt32) :
    ((kernelEnv D).mallocBytes n w).1 = none ∧ allocate 16 (fits n.toNat) n.toNat bs = none ∨
      ∃ buffer w' p h' bs', (kernelEnv D).mallocBytes n w = (some buffer, w') ∧
        allocate 16 (fits n.toNat) n.toNat bs = some (p, bs') ∧ w'.heap.heap = some h' ∧
        Layout R h' bs' := by
  rcases malloc_for_a_while Arith.exact_wrapping hl n.toNat with
    ⟨hm, hnone⟩ | ⟨p, h', bs', hm, hsome, hl', hp, -⟩
  · left
    have hcall := TracedHeap.malloc_eq hheap hm
    constructor
    · simp [kernelEnv, hcall]
    · exact hnone
  · right
    have hcall := TracedHeap.malloc_eq hheap hm
    refine ⟨⟨p, fun i => (w.heap.malloc n).2.load p (.ofNat i)⟩, { w with heap := (w.heap.malloc n).2 },
      p, h', bs', ?_, hsome, ?_, hl'⟩
    · simp [kernelEnv, hcall, hp]
    · simp [hcall]

/-- A buffer of 512 bytes on such a heap. -/
theorem malloc_none_iff (hheap : w.heap.heap = some h) (hl : Layout R h bs) :
    ((kernelEnv D).malloc w).1 = none ↔ ¬ HasRoom bs := by
  rw [← allocate_eq_none_iff]
  rcases malloc_for_a_while Arith.exact_wrapping hl 512 with
    ⟨hm, hnone⟩ | ⟨p, h', bs', hm, hsome, -, hp, -⟩
  · rw [kernelEnv_malloc_eq D (StoringDisk.malloc_buffer_eq hheap hm), if_pos rfl]
    exact iff_of_true rfl hnone
  · rw [kernelEnv_malloc_eq D (StoringDisk.malloc_buffer_eq hheap hm), if_neg hp, hsome]
    apply iff_of_false
    · intro h
      cases h
    · intro h
      cases h

/-- The kernel's services give what the blocks of the heap allow. -/
theorem rooms_of_layout {P : ℕ → ℕ → Prop} {blocks : List (ℕ × ℕ)} :
    Rooms (kernelEnv D) (fun w => w.heap.Sound R P (bs, blocks)) bs where
  malloc hw := by
    obtain ⟨h, hheap, hl⟩ := hw.layout
    exact malloc_none_iff D hheap hl
  read size hw := by
    obtain ⟨h, hheap, hl⟩ := hw.layout
    rcases mallocBytes_of_layout D hheap hl (size + 1) with
      ⟨hnone, ha⟩ | ⟨buffer, w', p, h', bs', hm, ha, hheap', hl'⟩
    · apply iff_of_false
      · rintro ⟨buffer, w', hm, -⟩
        rw [hm] at hnone
        cases hnone
      · rintro ⟨p, bs', ha', -⟩
        rw [ha] at ha'
        cases ha'
    · have hnone := malloc_none_iff D hheap' hl'
      constructor
      · rintro ⟨buffer', w'', hm', hsome⟩
        rw [hm] at hm'
        cases hm'
        exact ⟨p, bs', ha, not_not.mp (mt hnone.mpr hsome)⟩
      · rintro ⟨p', bs'', ha', hroom⟩
        rw [ha] at ha'
        cases ha'
        exact ⟨buffer, w', hm, fun h => hnone.mp h hroom⟩

/-- A heap that got too little memory for a header gives nothing. -/
theorem malloc_without_chunks (hheap : w.heap.heap = some h) (hfirst : h.first = 0) (n : UInt32) :
    ∃ k, w.heap.malloc n = (0, k) ∧ k.heap = some h := by
  have hm : MemoryManager.malloc .wrapping h n.toNat = some (0, h) := by
    rw [MemoryManager.malloc, hfirst]
    rfl
  exact ⟨_, TracedHeap.malloc_eq hheap hm, rfl⟩

/-- A heap without chunks. -/
def NoChunks (w : KernelWorld δ) : Prop := ∃ h, w.heap.heap = some h ∧ h.first = 0

/-- No buffer comes from such a heap. -/
theorem NoChunks.malloc (hw : NoChunks w) :
    ∃ w', (kernelEnv D).malloc w = (none, w') ∧ NoChunks w' := by
  obtain ⟨h, hheap, hfirst⟩ := hw
  obtain ⟨k, hm, hk⟩ := malloc_without_chunks hheap hfirst 512
  refine ⟨{ w with heap := k }, ?_, ⟨h, hk, hfirst⟩⟩
  rw [kernelEnv_malloc_eq D hm, if_pos rfl]

theorem balanced_of_noChunks :
    (kernelEnv D).Balanced (fun (_ : Unit) (w : KernelWorld δ) => NoChunks w) where
  malloc hw := .inl (hw.malloc D)
  read28 _ _ hw := hw
  read28_ptr _ _ _ := rfl
  write28 _ _ hw := hw

theorem rooms_of_noChunks : Rooms (kernelEnv D) (NoChunks (δ := δ)) [] where
  malloc hw := by
    obtain ⟨w', hm, -⟩ := hw.malloc D
    rw [hm]
    exact iff_of_true rfl (by decide)
  read size hw := by
    obtain ⟨h, hheap, hfirst⟩ := hw
    obtain ⟨k, hm, -⟩ := malloc_without_chunks hheap hfirst (size + 1)
    apply iff_of_false
    · rintro ⟨buffer, w', hm', -⟩
      simp [kernelEnv, hm] at hm'
    · rintro ⟨p, bs', ha, -⟩
      cases ha

end Kernel

/-- A read of the whole file returns fewer than `2 ^ 31` bytes: nothing if the file has no
sectors, or if rounding its size up to sectors overflows. -/
theorem readLength_size_lt_iff (inode : Inode) :
    readLength inode inode.size < 2 ^ 31 ↔ inode.startSector = 0 ∨ inode.size.toNat < 2 ^ 31 ∨
      2 ^ 32 ≤ inode.size.toNat + 511 := by
  rw [readLength, storedLength]
  split
  · next h0 => exact iff_of_true (by decide) (.inl h0)
  · next h0 =>
    rw [or_iff_right h0]
    split <;> omega

/-- **The condition**: `WriteFile` gets its buffer if the command comes to it; and if `cat` has
room for the file, this has no sectors, or fewer than `2 ^ 31` bytes, or one of the last 511
sizes. -/
def Reliable (bs : List Block) (fs : FileSystem) : FileCommand → Prop
  | .touch _ | .rm _ => True
  | .write args => args.get 0 = 0 ∨ fs.lookup args = none ∨ HasRoom bs
  | .cat args => args.get 0 = 0 ∨ ∀ i, fs.lookup args = some i →
      ((fs.inodes i).startSector = 0 ∨ (fs.inodes i).size.toNat < 2 ^ 31 ∨
        2 ^ 32 ≤ (fs.inodes i).size.toNat + 511) ∨ ¬ RoomToRead bs (fs.inodes i).size

theorem truthful_iff_of_rooms {σ ι : Type} {E : PointerEnv σ} {I : ι → σ → Prop} {i : ι}
    {bs : List Block} {s : Shell σ} (hE : E.Balanced I) (hrooms : Rooms E (I i) bs)
    (h : I i s.sys.world) (c : FileCommand) : Truthful E s c ↔ Reliable bs s.sys.fs c := by
  cases c with
  | touch args => exact iff_of_true (truthful_touch args) trivial
  | write args => exact truthful_write_iff hE hrooms h args
  | cat args =>
    rw [truthful_cat_iff hrooms h args, Reliable]
    simp only [readLength_size_lt_iff]
  | rm args => exact iff_of_true (truthful_rm args) trivial

/-- **When the messages of the shell are true.**  For every file system, disk and heap and for
every argument, the command takes its success branch exactly when its call of the file system
reports success, if and only if it is reliable. -/
theorem messages_truthful_iff {δ : Type} (D : DiskService δ) {h : Heap} {bs : List Block}
    (hwf : WellFormed h bs) (fs : FileSystem) (disk : δ) (out : List VgaCall)
    (c : FileCommand) :
    Truthful (kernelEnv D) ⟨⟨fs, ⟨⟨some h, []⟩, disk⟩⟩, out⟩ c ↔ Reliable bs fs c := by
  rcases hwf with ⟨hfirst, rfl⟩ | ⟨R, hl⟩
  · exact truthful_iff_of_rooms (i := ()) (balanced_of_noChunks D) (rooms_of_noChunks D)
      ⟨h, rfl, hfirst⟩ c
  · exact truthful_iff_of_rooms (i := (bs, [])) (kernelEnv_balanced D R fun _ _ => True)
      (rooms_of_layout D)
      ⟨⟨h, rfl, hl⟩, rfl, fun e he => absurd he List.not_mem_nil, fun _ _ _ => trivial⟩ c

/-- A region of 4096 bytes. -/
def roomyRegion : Region := ⟨0x1000, 0x2000, by decide, by decide, by decide⟩

/-- On a new heap in it `write` of a file tells the truth. -/
theorem messages_truthful_write :
    Truthful (kernelEnv plainDisk) ⟨⟨oneFile 5, ⟨⟨some (MemoryManager.construct (fun _ => 0)
      roomyRegion.start (roomyRegion.stop - roomyRegion.start)), []⟩, fun _ _ => 0⟩⟩, []⟩
      (.write ⟨[97], by decide⟩) := by
  refine (messages_truthful_iff plainDisk (.inr ⟨roomyRegion, layout_construct roomyRegion _⟩)
    _ _ _ _).mpr ?_
  exact .inr (.inr ⟨_, List.mem_singleton_self _, rfl, by decide⟩)

/-- On a heap of 256 bytes `write a` prints that it wrote 52 bytes, though `WriteFile` returned
`-1`. -/
theorem write_prints_success :
    let s : Shell (KernelWorld (UInt32 → Sector)) :=
      ⟨⟨oneFile 5, ⟨⟨some smallHeap, []⟩, fun _ _ => 0⟩⟩, []⟩
    let c : FileCommand := .write ⟨[97], by decide⟩
    (writeFile (kernelEnv plainDisk).toEnv 0 (fun i => testData.getD i 0)
        (.ofNat testData.length) s.sys).1 = -1 ∧
      SuccessBranch c (Pointer.fileCommand (kernelEnv plainDisk) s c.command).out ∧
      ¬ Truthful (kernelEnv plainDisk) s c := by
  intro s c
  have hresult : (writeFile (kernelEnv plainDisk).toEnv 0 (fun i => testData.getD i 0)
    (.ofNat testData.length) s.sys).1 = -1 := rfl
  have hout : SuccessBranch c (Pointer.fileCommand (kernelEnv plainDisk) s c.command).out := rfl
  refine ⟨hresult, hout, ?_⟩
  intro htruthful
  have hcall := (truthful_iff_of_success (List.nil_append _).symm hout).mp htruthful
  have hopen : s.sys.fs.openFile ⟨[97], by decide⟩ = 0 := by decide
  have hlength := hcall.2.2
  rw [hopen, hresult] at hlength
  exact absurd hlength (by decide)
