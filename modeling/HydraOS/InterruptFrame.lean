/-
# What an interrupt leaves

The entry code saves the registers on the interrupted stack, calls the C++ code with
the address of the saved frame and restores the registers from the frame at the address
that comes back.
-/
import HydraOS.Interrupts

open X86

/-! ## The saved frame -/

/-- The registers that `int_bottom` pushes over the memory `m`, and the address of the
frame, its argument. -/
def savedWords (P : Processor) (m : Mem) (r : Regs) : List UInt32 :=
  [r.eax, r.ecx, r.edx, r.ebx, r.esp, r.ebp, r.esi, r.edi,
    selectorWord P.pad r.ds (load m (r.esp - 36)), selectorWord P.pad r.es (load m (r.esp - 40)),
    selectorWord P.pad r.fs (load m (r.esp - 44)), selectorWord P.pad r.gs (load m (r.esp - 48)),
    r.esp - 48]

/-- The memory after the first instruction of a stub with the number `num`. -/
def numberMem (image : KernelImage) (num : UInt8) (M : Machine Devices) : Mem :=
  storeByte M.world.mem image.interruptnumber num

/-- The word that is pushed as the interrupt number. -/
def numberWord (P : Processor) (image : KernelImage) (num : UInt8) (M : Machine Devices) :
    UInt32 :=
  load (pushWords (numberMem image num M) M.regs.esp
    (savedWords P (numberMem image num M) M.regs)) image.interruptnumber

/-- The memory at the first instruction of `HandleInterrupt`, when a stub with the number
`num` is entered in the state `M`. -/
def callMem (P : Processor) (image : KernelImage) (num : UInt8) (M : Machine Devices) : Mem :=
  pushWords (numberMem image num M) M.regs.esp
    (savedWords P (numberMem image num M) M.regs ++ [numberWord P image num M, image.afterCall])

/-- What `add %esp, 6` does to the memory. -/
def addToSix (m : Mem) (esp : UInt32) : Mem := store m 6 (load m 6 + esp)

/-- The registers after the frame at the address `frame` has been popped. -/
def restored (ss : UInt16) (m : Mem) (frame : UInt32) : Regs where
  gs := (load m frame).toUInt16
  fs := (load m (frame + 4)).toUInt16
  es := (load m (frame + 8)).toUInt16
  ds := (load m (frame + 12)).toUInt16
  edi := load m (frame + 16)
  esi := load m (frame + 20)
  ebp := load m (frame + 24)
  ebx := load m (frame + 32)
  edx := load m (frame + 36)
  ecx := load m (frame + 40)
  eax := load m (frame + 44)
  eip := load m (frame + 48)
  cs := (load m (frame + 52)).toUInt16
  eflags := load m (frame + 56)
  esp := frame + 60
  ss := ss

/-- The machine after the stub, when the called code has returned `r`. -/
def afterStub (M : Machine Devices) (r : Returned Devices) : Machine Devices :=
  let m := addToSix r.world.mem (M.regs.esp - 56)
  { regs := restored M.regs.ss m r.eax, world := { r.world with mem := m } }

section Stub

variable {P : Processor} {image : KernelImage} {callee : Routine Devices} {M : Machine Devices}
  {num : UInt8} {r : Returned Devices} {is : List Instr}

/-- The part of `int_bottom` that saves the registers. -/
def saveCode : List Instr :=
  [.pusha, .pushSeg .ds, .pushSeg .es, .pushSeg .fs, .pushSeg .gs, .push .esp]

/-- The part of `int_bottom` that restores them from a frame. -/
def restoreCode : List Instr := [.popSeg .gs, .popSeg .fs, .popSeg .es, .popSeg .ds, .popa]

theorem run_of_done {i : Instr} {M' : Machine Devices} (h : exec P callee i M = .done M') :
    run P callee (i :: is) M = run P callee is M' := by rw [run, h]

theorem run_of_fault {i : Instr} {M' : Machine Devices} (h : exec P callee i M = .fault M') :
    run P callee (i :: is) M = .fault M' := by rw [run, h]

theorem run_save (M : Machine Devices) (is : List Instr) :
    run P callee (saveCode ++ is) M =
      run P callee is (M.pushAll (savedWords P M.world.mem M.regs)) := by
  rw [saveCode, List.cons_append, run_of_done (by rw [exec]), List.cons_append,
    run_of_done (exec_pushSeg .ds (by simp)), List.cons_append,
    run_of_done (exec_pushSeg .es (by simp)), List.cons_append,
    run_of_done (exec_pushSeg .fs (by simp)), List.cons_append,
    run_of_done (exec_pushSeg .gs (by simp)), List.cons_append, run_of_done (by rw [exec]),
    pushWord_eq, pushAll_append, List.nil_append, Regs.get, esp_pushAll]
  rfl

/-- A selector that is popped is loaded, or faults. -/
theorem run_popSeg {s : Seg} {r r' : Regs} {w : World Devices} {sel : UInt16}
    (hsel : (load w.mem r.esp).toUInt16 = sel)
    (hr : { r.setSeg sel s with esp := (r.setSeg sel s).esp + 4 } = r') :
    run P callee (.popSeg s :: is) ⟨r, w⟩ =
      if P.loads sel then run P callee is ⟨r', w⟩ else .fault ⟨r, w⟩ := by
  have hpeek : (Machine.peek ⟨r, w⟩ 0).toUInt16 = sel := by
    rw [Machine.peek, UInt32.add_zero, hsel]
  have hpop : exec P callee (.popSeg s) ⟨r, w⟩ =
      if P.loads sel then .done ⟨r', w⟩ else .fault ⟨r, w⟩ := by
    rw [exec, hpeek, ← hr]
  by_cases hload : P.loads sel
  · rw [if_pos hload] at hpop ⊢
    exact run_of_done hpop
  · rw [if_neg hload] at hpop ⊢
    exact run_of_fault hpop

/-- What may fault at once or later. -/
theorem done_or_fault {o o' d : Outcome Devices} {p q : Prop} [Decidable p] [Decidable q]
    {r : Regs} {w : World Devices} (h : o = if p then o' else .fault ⟨r, w⟩)
    (h' : ∃ regs, o' = if q then d else .fault ⟨regs, w⟩) :
    ∃ regs, o = if p ∧ q then d else .fault ⟨regs, w⟩ := by
  by_cases hp : p
  · obtain ⟨regs, h'⟩ := h'
    refine ⟨regs, ?_⟩
    rw [h, if_pos hp, h']
    exact if_congr ⟨fun hq => ⟨hp, hq⟩, fun hpq => hpq.2⟩ rfl rfl
  · refine ⟨r, ?_⟩
    rw [h, if_neg hp, if_neg fun hpq => hp hpq.1]

/-- The last two instructions return to the interrupted code, or fault. -/
theorem run_return {r r' : Regs} {w : World Devices} {e : UInt32} (hesp : r.esp = e + 16)
    (hr : { restored r.ss w.mem e with gs := r.gs, fs := r.fs, es := r.es, ds := r.ds } = r') :
    ∃ regs, run P callee (.popa :: Stub.ignoreCode) ⟨r, w⟩ =
      if P.returns r'.cs then .done ⟨r', w⟩ else .fault ⟨regs, w⟩ := by
  obtain ⟨r1, hr1⟩ : ∃ r1 : Regs, { r with
      edi := load w.mem (e + 16), esi := load w.mem (e + 20), ebp := load w.mem (e + 24)
      ebx := load w.mem (e + 32), edx := load w.mem (e + 36), ecx := load w.mem (e + 40)
      eax := load w.mem (e + 44), esp := e + 48 } = r1 := ⟨_, rfl⟩
  have hpopa : exec P callee .popa ⟨r, w⟩ = .done ⟨r1, w⟩ := by
    rw [exec, ← hr1]
    simp only [Machine.peek, hesp, UInt32.add_assoc, UInt32.reduceAdd, UInt32.add_zero]
  have hiret : exec P callee .iret ⟨r1, w⟩ =
      if P.returns r'.cs then .done ⟨r', w⟩ else .fault ⟨r1, w⟩ := by
    rw [exec, ← hr, ← hr1]
    simp only [Machine.peek, restored, UInt32.add_assoc, UInt32.reduceAdd, UInt32.add_zero]
    rfl
  refine ⟨r1, ?_⟩
  rw [run_of_done hpopa]
  by_cases hreturns : P.returns r'.cs
  · rw [if_pos hreturns] at hiret ⊢
    exact run_of_done hiret
  · rw [if_neg hreturns] at hiret ⊢
    exact run_of_fault hiret

/-- The frame is restored when its selectors can be loaded; otherwise one of them faults. -/
theorem run_restore (r : Regs) (w : World Devices) :
    ∃ regs, run P callee (restoreCode ++ Stub.ignoreCode) ⟨r, w⟩ =
      if P.Loads (restored r.ss w.mem r.esp) then .done ⟨restored r.ss w.mem r.esp, w⟩
      else .fault ⟨regs, w⟩ := by
  obtain ⟨e, he⟩ : ∃ e, r.esp = e := ⟨_, rfl⟩
  obtain ⟨R, hR⟩ : ∃ R, restored r.ss w.mem e = R := ⟨_, rfl⟩
  have h8 : e + 4 + 4 = e + 8 := UInt32.add_assoc e 4 4
  have h12 : e + 8 + 4 = e + 12 := UInt32.add_assoc e 8 4
  have h16 : e + 12 + 4 = e + 16 := UInt32.add_assoc e 12 4
  -- the registers after each pop, all taken from the same frame
  let r1 : Regs := { r with gs := R.gs, esp := e + 4 }
  let r2 : Regs := { r1 with fs := R.fs, esp := e + 8 }
  let r3 : Regs := { r2 with es := R.es, esp := e + 12 }
  let r4 : Regs := { r3 with ds := R.ds, esp := e + 16 }
  have hgs (is : List Instr) : run P callee (.popSeg .gs :: is) ⟨r, w⟩ =
      if P.loads R.gs then run P callee is ⟨r1, w⟩ else .fault ⟨r, w⟩ :=
    run_popSeg (by rw [he, ← hR, restored]) (by rw [Regs.setSeg, he])
  have hfs (is : List Instr) : run P callee (.popSeg .fs :: is) ⟨r1, w⟩ =
      if P.loads R.fs then run P callee is ⟨r2, w⟩ else .fault ⟨r1, w⟩ :=
    run_popSeg (by rw [← hR, restored]) (by rw [Regs.setSeg, h8])
  have hes (is : List Instr) : run P callee (.popSeg .es :: is) ⟨r2, w⟩ =
      if P.loads R.es then run P callee is ⟨r3, w⟩ else .fault ⟨r2, w⟩ :=
    run_popSeg (by rw [← hR, restored]) (by rw [Regs.setSeg, h12])
  have hds (is : List Instr) : run P callee (.popSeg .ds :: is) ⟨r3, w⟩ =
      if P.loads R.ds then run P callee is ⟨r4, w⟩ else .fault ⟨r3, w⟩ :=
    run_popSeg (by rw [← hR, restored]) (by rw [Regs.setSeg, h16])
  have hreturn : ∃ regs, run P callee (.popa :: Stub.ignoreCode) ⟨r4, w⟩ =
      if P.returns R.cs then .done ⟨R, w⟩ else .fault ⟨regs, w⟩ :=
    run_return rfl (by subst hR; rfl)
  rw [he, hR]
  exact done_or_fault (hgs _) (done_or_fault (hfs _) (done_or_fault (hes _)
    (done_or_fault (hds _) hreturn)))

theorem intBottom_eq (image : KernelImage) : Stub.intBottom image =
    saveCode ++ (.pushMem image.interruptnumber :: .call image.afterCall :: .addMem .esp 6 ::
      .mov .eax .esp :: (restoreCode ++ Stub.ignoreCode)) := rfl

/-- The machine after the first instruction of a stub. -/
def numbered (image : KernelImage) (num : UInt8) (M : Machine Devices) : Machine Devices :=
  { M with world := { M.world with mem := numberMem image num M } }

/-- **A stub, from its entry to `iret`**: it calls the C++ code and goes on where the
frame says, unless a selector in the frame faults. -/
theorem run_stub (hcall : callee (M.regs.esp - 60) ⟨callMem P image num M, M.world.dev⟩ = some r) :
    ∃ regs, run P callee (.movb num image.interruptnumber :: Stub.intBottom image) M =
      if P.Loads (afterStub M r).regs then .done (afterStub M r)
      else .fault ⟨regs, (afterStub M r).world⟩ := by
  -- the stack at the first instruction of the C++ code
  have hpushed : ((numbered image num M).pushAll (savedWords P (numberMem image num M) M.regs)
      |>.pushWord (numberWord P image num M)).pushWord image.afterCall =
        { regs := { M.regs with esp := M.regs.esp - 60 }
          world := ⟨callMem P image num M, M.world.dev⟩ } := by
    rw [pushWord_eq, pushWord_eq, pushAll_append, pushAll_append, pushAll_eq]
    rfl
  -- the number goes through memory, where the pushes above may have changed it
  have hnumber : exec P callee (.pushMem image.interruptnumber)
      ((numbered image num M).pushAll (savedWords P (numberMem image num M) M.regs)) =
        .done (((numbered image num M).pushAll
          (savedWords P (numberMem image num M) M.regs)).pushWord (numberWord P image num M)) := by
    rw [exec, pushAll_eq]
    rfl
  have hpushed' : (((numbered image num M).pushAll
      (savedWords P (numberMem image num M) M.regs)).pushWord (numberWord P image num M)).regs =
        { M.regs with esp := M.regs.esp - 56 } := by
    rw [pushWord_eq, pushAll_append, pushAll_eq]
    rfl
  have hsaved (is : List Instr) : run P callee (saveCode ++ is) (numbered image num M) =
      run P callee is ((numbered image num M).pushAll
        (savedWords P (numberMem image num M) M.regs)) := run_save _ _
  have hmovb : exec P callee (.movb num image.interruptnumber) M = .done (numbered image num M) :=
    rfl
  rw [intBottom_eq, run_of_done hmovb, hsaved, run_of_done hnumber, run, exec, hpushed]
  simp only [hcall]
  rw [run_of_done (by rw [exec]), run_of_done (by rw [exec])]
  simp only [Regs.get, Regs.set, hpushed']
  exact run_restore _ _

end Stub

section Frame

variable {P : Processor} {image : KernelImage} {M : Machine Devices} {num : UInt8}
  {c v x frame : UInt32} {i : ℕ} {ss : UInt16} {m m' : Mem}

/-- The call changes only the stack and the byte `interruptnumber`. -/
theorem loadByte_callMem (hx : ¬ Below M.regs.esp 60 x) : loadByte (callMem P image num M) x =
    if x = image.interruptnumber then num else loadByte M.world.mem x := by
  rw [callMem, loadByte_pushWords hx, numberMem, loadByte_storeByte]

/-- The words that were saved. -/
theorem load_callMem (hc : c = M.regs.esp - 4 * .ofNat (i + 1))
    (hv : (savedWords P (numberMem image num M) M.regs)[i]? = some v) :
    load (callMem P image num M) c = v := by
  have hi : i < (savedWords P (numberMem image num M) M.regs).length :=
    (List.getElem?_eq_some_iff.mp hv).1
  exact load_pushWords hc (by simp [savedWords]) ((List.getElem?_append_left hi).trans hv)

/-- The words that were saved, from the address of the frame. -/
theorem load_frame (P : Processor) (image : KernelImage) (num : UInt8) {k : ℕ}
    (hk : 4 * (i + 1) + k = 48) (hv : (savedWords P (numberMem image num M) M.regs)[i]? = some v) :
    load (callMem P image num M) (M.regs.esp - 48 + .ofNat k) = v := by
  refine load_callMem ?_ hv
  have h48 : UInt32.ofNat (4 * (i + 1) + k) = 48 := by rw [hk]; rfl
  rw [UInt32.ofNat_add, UInt32.ofNat_mul] at h48
  have h4 : UInt32.ofNat 4 = 4 := rfl
  grind

/-- The words above the stack pointer. -/
theorem load_callMem_of_above (num : UInt8) {k : ℕ} (hk : k ≤ 8)
    (hN : ¬ Below (M.regs.esp + 12) 12 image.interruptnumber) :
    load (callMem P image num M) (M.regs.esp + .ofNat k) =
      load M.world.mem (M.regs.esp + .ofNat k) := by
  refine load_congr fun i hi => ?_
  have habove : M.regs.esp - 1 - (M.regs.esp + .ofNat k + .ofNat i) = 0 - .ofNat (k + i + 1) := by
    rw [UInt32.ofNat_add (k + i) 1, UInt32.ofNat_add k i]
    have h1 : UInt32.ofNat 1 = 1 := rfl
    grind
  have hzero : (0 : UInt32).toNat = 0 := rfl
  rw [loadByte_callMem, if_neg]
  · rintro hxN
    apply hN
    have h := below_add (e := M.regs.esp + 12) (n := 12) (show k + i < 12 by omega) (by decide)
    have haddr : M.regs.esp + 12 - UInt32.ofNat 12 + UInt32.ofNat (k + i) =
        M.regs.esp + .ofNat k + .ofNat i := by
      rw [UInt32.ofNat_add k i]
      have h12 : UInt32.ofNat 12 = 12 := rfl
      grind
    rwa [haddr, hxN] at h
  · rw [Below, habove, UInt32.toNat_sub, UInt32.toNat_ofNat', hzero]
    omega

/-- The registers in the frame that `HandleInterrupt` gets. -/
theorem restored_callMem (hN : ¬ Below (M.regs.esp + 12) 12 image.interruptnumber) :
    restored M.regs.ss (callMem P image num M) (M.regs.esp - 48) =
      { M.regs with
        eip := load M.world.mem M.regs.esp, cs := (load M.world.mem (M.regs.esp + 4)).toUInt16,
        eflags := load M.world.mem (M.regs.esp + 8), esp := M.regs.esp + 12 } := by
  have hword (i : ℕ) (c : UInt32) (hc : 4 * (i + 1) + c.toNat = 48) {v : UInt32}
      (hv : (savedWords P (numberMem image num M) M.regs)[i]? = some v) :
      load (callMem P image num M) (M.regs.esp - 48 + c) = v := by
    have h := load_frame P image num hc hv
    rwa [UInt32.ofNat_toNat] at h
  have habove (c d : UInt32) (hc : c.toNat ≤ 8) (hd : 48 + c = d) :
      load (callMem P image num M) (M.regs.esp - 48 + d) = load M.world.mem (M.regs.esp + c) := by
    have h := load_callMem_of_above (P := P) (M := M) num hc hN
    rw [UInt32.ofNat_toNat] at h
    rw [← h, ← hd]
    congr 1
    grind
  have hgs := hword 11 0 rfl rfl
  have heip := habove 0 48 (by decide) rfl
  rw [UInt32.add_zero] at hgs heip
  have hesp : M.regs.esp - 48 + 60 = M.regs.esp + 12 := by grind
  rw [restored, hgs, hesp, hword 10 4 rfl rfl, hword 9 8 rfl rfl, hword 8 12 rfl rfl,
    hword 7 16 rfl rfl, hword 6 20 rfl rfl, hword 5 24 rfl rfl, hword 3 32 rfl rfl,
    hword 2 36 rfl rfl, hword 1 40 rfl rfl, hword 0 44 rfl rfl, heip,
    habove 4 52 (by decide) rfl, habove 8 56 (by decide) rfl]
  simp only [toUInt16_selectorWord]

/-- The C++ code gets the number of the stub and the address of the frame. -/
theorem handleInterruptRoutine_callMem (P : Processor) (num : UInt8)
    (active : Option InterruptManager) (scratch : Kernel → Scratch)
    (hN : ¬ Below M.regs.esp 60 image.interruptnumber) :
    handleInterruptRoutine active scratch (M.regs.esp - 60) ⟨callMem P image num M, M.world.dev⟩ =
      (InterruptManager.handleInterrupt active num (M.regs.esp - 48)
        ⟨callMem P image num M, M.world.dev⟩).map fun r =>
          ⟨r.1, (scratch r.2).ecx, (scratch r.2).edx, (scratch r.2).eflags, r.2⟩ := by
  have hzero (a : UInt32) : a + UInt32.ofNat 0 = a := UInt32.add_zero a
  have h4 : M.regs.esp - 60 + 4 = M.regs.esp - 4 * .ofNat (13 + 1) := by
    have h56 : 4 * UInt32.ofNat (13 + 1) = 56 := rfl
    grind
  have h8 : M.regs.esp - 60 + 8 = M.regs.esp - 4 * .ofNat (12 + 1) := by
    have h52 : 4 * UInt32.ofNat (12 + 1) = 52 := rfl
    grind
  have hesp : load (callMem P image num M) (M.regs.esp - 60 + 8) = M.regs.esp - 48 :=
    load_callMem h8 rfl
  have hword : load (callMem P image num M) (M.regs.esp - 60 + 4) = numberWord P image num M :=
    load_pushWords h4 (by simp [savedWords]) rfl
  have hnum : loadByte (callMem P image num M) (M.regs.esp - 60 + 4) = num := by
    have hbyte := loadByte_add (m := callMem P image num M) (c := M.regs.esp - 60 + 4)
      (by decide : 0 < 4)
    have hbyte' := loadByte_add (c := image.interruptnumber)
      (m := pushWords (numberMem image num M) M.regs.esp
        (savedWords P (numberMem image num M) M.regs)) (by decide : 0 < 4)
    rw [hzero] at hbyte hbyte'
    have hN' : ¬ Below M.regs.esp
        (4 * (savedWords P (numberMem image num M) M.regs).length) image.interruptnumber :=
      fun h => hN (Nat.lt_trans h (by simp [savedWords]))
    rw [hbyte, hword, numberWord, ← hbyte', loadByte_pushWords hN', numberMem,
      loadByte_storeByte, if_pos rfl]
  rw [handleInterruptRoutine, hesp, hnum]
  cases InterruptManager.handleInterrupt active num (M.regs.esp - 48)
    ⟨callMem P image num M, M.world.dev⟩ <;> rfl

/-- The registers that are restored depend on the 60 bytes of the frame only. -/
theorem restored_congr
    (h : ∀ x, Below (frame + 60) 60 x → loadByte m' x = loadByte m x) :
    restored ss m' frame = restored ss m frame := by
  have hword (c : UInt32) (hc : c.toNat ≤ 56) : load m' (frame + c) = load m (frame + c) := by
    refine load_congr fun i hi => h _ ?_
    have hbelow := below_add (e := frame + 60) (n := 60) (show c.toNat + i < 60 by omega)
      (by decide)
    have haddr : frame + 60 - UInt32.ofNat 60 + UInt32.ofNat (c.toNat + i) =
        frame + c + .ofNat i := by
      rw [UInt32.ofNat_add, UInt32.ofNat_toNat]
      have h60 : UInt32.ofNat 60 = 60 := rfl
      grind
    rwa [haddr] at hbelow
  have h0 := hword 0 (by decide)
  rw [UInt32.add_zero] at h0
  rw [restored, restored, h0, hword 4 (by decide), hword 8 (by decide), hword 12 (by decide),
    hword 16 (by decide), hword 20 (by decide), hword 24 (by decide), hword 32 (by decide),
    hword 36 (by decide), hword 40 (by decide), hword 44 (by decide), hword 48 (by decide),
    hword 52 (by decide), hword 56 (by decide)]

end Frame
