/-
# The line in the command buffer: `Shell::HandleKeyPress`

The same line editor with a record of what it does: the indices at which it accesses
`commandBuffer`, and the buffers that it passes to `ExecuteCommand`.  It is compared with a
reference editor that keeps the line as a list.  The index has eight bits and runs to 255, where
all four kinds of key stop in time.
-/
import HydraOS.LineEditor

open X86 VGATextMode

/-! ## The recorded editor -/

/-- The line with the indices accessed, the latest first, and the buffers executed. -/
structure Recorded where
  line : CommandLine
  accesses : List ℕ
  executed : List (Bytes 256)

namespace Recorded

/-- `commandBuffer[bufferIndex++] = c; vga->PutChar(c);` -/
def type (c : UInt8) (s : Recorded) : Recorded :=
  ⟨s.line.type c, s.line.bufferIndex.toNat :: s.accesses, s.executed⟩

/-- `HandleKeyPress` for every character but Enter. -/
def edit (c : UInt8) (s : Recorded) : Recorded :=
  if c = 8 then
    if s.line.bufferIndex > 0 then
      ⟨⟨putChar 8 s.line.kernel, s.line.commandBuffer.set (s.line.bufferIndex - 1).toNat 0,
        s.line.bufferIndex - 1⟩, (s.line.bufferIndex - 1).toNat :: s.accesses, s.executed⟩
    else s
  else if c = 9 then forLoop (fun s => s.line.bufferIndex < 255) (fun _ s => s.type 32) 4 0 s
  else if s.line.bufferIndex < 255 then s.type c
  else s

/-- `HandleKeyPress`, with `execute` for `ExecuteCommand`. -/
def handleKeyPress (execute : Bytes 256 → Kernel → Option Kernel) (c : UInt8) (s : Recorded) :
    Option Recorded :=
  if c = 10 then do
    let k ← print (literal "\n") s.line.kernel
    let commandBuffer := s.line.commandBuffer.set s.line.bufferIndex.toNat 0
    let accesses := s.line.bufferIndex.toNat :: s.accesses
    let (k, executed) ← (if s.line.bufferIndex > 0 then
        (execute commandBuffer k).map fun k => (k, s.executed ++ [commandBuffer])
      else some (k, s.executed))
    let k ← printPrompt k
    some ⟨⟨k, fun _ => 0, 0⟩, (List.range 256).reverse ++ accesses, executed⟩
  else some (s.edit c)

/-- The shell after its constructor. -/
def start (k : Kernel) : Recorded := ⟨⟨k, fun _ => 0, 0⟩, [], []⟩

/-- Several characters. -/
def run (execute : Bytes 256 → Kernel → Option Kernel) (cs : List UInt8) (s : Recorded) :
    Option Recorded :=
  cs.foldlM (fun s c => s.handleKeyPress execute c) s

end Recorded

/-! ## The reference editor -/

/-- A line and the lines submitted so far. -/
structure Editor where
  line : List UInt8
  submitted : List (List UInt8)

/-- **What a key does**: Enter submits the line unless it is empty, backspace removes the last
character, a tab appends up to four spaces and any other key itself, as long as the line is
shorter than 255. -/
def Editor.key (e : Editor) (c : UInt8) : Editor :=
  if c = 10 then ⟨[], if e.line = [] then e.submitted else e.submitted ++ [e.line]⟩
  else if c = 8 then { e with line := e.line.dropLast }
  else if c = 9 then { e with line := e.line ++ List.replicate (min 4 (255 - e.line.length)) 32 }
  else if e.line.length < 255 then { e with line := e.line ++ [c] }
  else e

/-! ## The record leaves the editor as it is -/

namespace Recorded

variable {execute : Bytes 256 → Kernel → Option Kernel} {s t : Recorded} {c : UInt8}
  {cs : List UInt8}

theorem line_tab (count first : ℕ) (s : Recorded) :
    (forLoop (fun s => s.line.bufferIndex < 255) (fun _ s => s.type 32) count first s).line =
      forLoop (fun s => s.bufferIndex < 255) (fun _ s => s.type 32) count first s.line := by
  induction count generalizing first s with
  | zero => rfl
  | succ count ih =>
    rw [forLoop, forLoop]
    split
    · exact ih (first + 1) (s.type 32)
    · rfl

theorem line_edit : (s.edit c).line = s.line.edit c := by
  rw [edit, CommandLine.edit]
  split
  · split <;> rfl
  · split
    · exact line_tab 4 0 s
    · split <;> rfl

theorem print_newline (k : Kernel) : print (literal "\n") k = some (putChar 10 k) := by
  apply forChars_of_chars [10] (by decide) (by decide)
  intro m j
  rw [Nat.zero_add, literal]
  rfl

/-- One key. -/
theorem line_handleKeyPress :
    (s.handleKeyPress execute c).map line = s.line.handleKeyPress execute c := by
  rw [handleKeyPress, CommandLine.handleKeyPress]
  by_cases hc : c = 10
  · rw [if_pos hc, if_pos hc]
    simp only [print_newline, printPrompt_eq, Option.bind_eq_bind, Option.bind_some]
    split
    · generalize execute (s.line.commandBuffer.set s.line.bufferIndex.toNat 0) _ = r
      cases r with
      | none => rfl
      | some k => rfl
    · rfl
  · rw [if_neg hc, if_neg hc, Option.map_some, line_edit]

/-- **Several keys**: the recorded run is a run of `HandleKeyPress`. -/
theorem line_run : (run execute cs s).map line =
    cs.foldlM (fun s c => s.handleKeyPress execute c) s.line := by
  induction cs generalizing s with
  | nil => rfl
  | cons c cs ih =>
    rw [run, List.foldlM_cons, List.foldlM_cons, ← line_handleKeyPress]
    cases s.handleKeyPress execute c with
    | none => rfl
    | some t => exact ih

/-- Enter returns if the command does. -/
theorem isSome_handleKeyPress (hexecute : ∀ b k, (execute b k).isSome) (s : Recorded) (c : UInt8) :
    (s.handleKeyPress execute c).isSome := by
  rw [handleKeyPress]
  split
  · rw [print_newline]
    simp only [Option.bind_eq_bind, Option.bind_some]
    split
    · obtain ⟨k, hk⟩ := Option.isSome_iff_exists.mp
        (hexecute (s.line.commandBuffer.set s.line.bufferIndex.toNat 0) (putChar 10 s.line.kernel))
      rw [hk, Option.map_some, Option.bind_some, printPrompt_eq]
      rfl
    · rw [Option.bind_some, printPrompt_eq]
      rfl
  · rfl

theorem isSome_run (hexecute : ∀ b k, (execute b k).isSome) (cs : List UInt8) (s : Recorded) :
    (run execute cs s).isSome := by
  induction cs generalizing s with
  | nil => rfl
  | cons c cs ih =>
    obtain ⟨t, ht⟩ := Option.isSome_iff_exists.mp (isSome_handleKeyPress hexecute s c)
    rw [run, List.foldlM_cons, ht]
    exact ih t

/-! ## The buffer is the line -/

/-- **The buffer holds the line** of the reference editor, all accesses have been inside it, and
the buffers executed hold the lines submitted. -/
structure Follows (s : Recorded) (e : Editor) : Prop where
  index : s.line.bufferIndex.toNat = e.line.length
  noNul : 0 ∉ e.line
  get_eq : ∀ j < 256, s.line.commandBuffer.get j = e.line.getD j 0
  accesses : ∀ i ∈ s.accesses, i < 256
  executed : List.Forall₂ HoldsString s.executed e.submitted

variable {e : Editor}

theorem follows_start (k : Kernel) : Follows (start k) ⟨[], []⟩ where
  index := rfl
  noNul := List.not_mem_nil
  get_eq _ hj := Bytes.get_of_lt hj
  accesses _ hi := absurd hi List.not_mem_nil
  executed := .nil

/-- One more access is inside the buffer. -/
theorem Follows.access (h : Follows s e) (i : UInt8) : ∀ j ∈ i.toNat :: s.accesses, j < 256 := by
  intro j hj
  rcases List.mem_cons.mp hj with rfl | hj
  · exact i.toNat_lt
  · exact h.accesses j hj

/-- Typing a character appends it, as long as the line is not full. -/
theorem Follows.type (h : Follows s e) (hlt : s.line.bufferIndex < 255) (hc : c ≠ 0) :
    Follows (s.type c) { e with line := e.line ++ [c] } where
  index := by
    have hindex := CommandLine.toNat_type (c := c) (CommandLine.lt_max_iff.mp hlt)
    rw [List.length_append, List.length_singleton, ← h.index]
    exact hindex
  noNul := by
    rw [List.mem_append, List.mem_singleton, not_or]
    exact ⟨h.noNul, hc.symm⟩
  get_eq j hj := by
    show (s.line.commandBuffer.set s.line.bufferIndex.toNat c).get j = _
    rw [Bytes.get_set hj, h.index]
    by_cases heq : j = e.line.length
    · rw [if_pos heq, heq, List.getD_append_right _ _ _ _ le_rfl, Nat.sub_self]
      rfl
    · rw [if_neg heq, h.get_eq j hj]
      by_cases hin : j < e.line.length
      · rw [List.getD_append _ _ _ _ hin]
      · rw [List.getD_eq_default _ _ (by omega), List.getD_eq_default]
        rw [List.length_append, List.length_singleton]
        omega
  accesses := h.access _
  executed := h.executed

/-- The loop for a tab. -/
theorem Follows.tab (h : Follows s e) (count first : ℕ) :
    Follows (forLoop (fun s => s.line.bufferIndex < 255) (fun _ s => s.type 32) count first s)
      { e with line := e.line ++ List.replicate (min count (255 - e.line.length)) 32 } := by
  induction count generalizing first s e with
  | zero =>
    rw [Nat.zero_min, List.replicate_zero, List.append_nil]
    exact h
  | succ count ih =>
    rw [forLoop]
    by_cases hlt : s.line.bufferIndex < 255
    · have hline := CommandLine.lt_max_iff.mp hlt
      rw [h.index] at hline
      have hmin : min (count + 1) (255 - e.line.length) =
          min count (255 - (e.line ++ [32]).length) + 1 := by
        rw [List.length_append, List.length_singleton]
        omega
      have hnext := ih (h.type hlt (c := 32) (by decide)) (first + 1)
      rw [List.append_assoc, List.singleton_append, ← List.replicate_succ, ← hmin] at hnext
      rw [if_pos (decide_eq_true hlt)]
      exact hnext
    · have hline : ¬ e.line.length < 255 := by
        rw [← h.index]
        exact mt CommandLine.lt_max_iff.mpr hlt
      have hmin : min (count + 1) (255 - e.line.length) = 0 := by omega
      rw [if_neg (by simpa using hlt), hmin, List.replicate_zero, List.append_nil]
      exact h

/-- Backspace removes the last character, if there is one. -/
theorem Follows.backspace (h : Follows s e) :
    Follows (s.edit 8) { e with line := e.line.dropLast } := by
  rw [edit, if_pos rfl]
  have hpos : s.line.bufferIndex > 0 ↔ 0 < e.line.length := by
    rw [← h.index]
    exact UInt8.lt_iff_toNat_lt
  by_cases hline : 0 < e.line.length
  · have hle : (1 : UInt8) ≤ s.line.bufferIndex := by
      rw [UInt8.le_iff_toNat_le, h.index]
      exact hline
    have hindex : (s.line.bufferIndex - 1).toNat = e.line.length - 1 := by
      rw [UInt8.toNat_sub_of_le _ _ hle, h.index]
      rfl
    rw [if_pos (hpos.mpr hline)]
    refine ⟨?_, ?_, ?_, h.access _, h.executed⟩
    · rw [List.length_dropLast]
      exact hindex
    · intro hmem
      exact h.noNul (List.mem_of_mem_dropLast hmem)
    · intro j hj
      show (s.line.commandBuffer.set (s.line.bufferIndex - 1).toNat 0).get j = _
      rw [Bytes.get_set hj, hindex, h.get_eq j hj]
      by_cases hin : j < e.line.length - 1
      · rw [if_neg (by omega), List.getD_eq_getElem _ _ (by omega),
          List.getD_eq_getElem _ _ (by rw [List.length_dropLast]; exact hin),
          List.getElem_dropLast]
      · have hout : e.line.dropLast.getD j 0 = 0 := by
          rw [List.getD_eq_default]
          rw [List.length_dropLast]
          omega
        rw [hout]
        split
        · rfl
        · rw [List.getD_eq_default _ _ (by omega)]
  · have hnil : e.line = [] := List.length_eq_zero_iff.mp (by omega)
    rw [if_neg (mt hpos.mp hline), hnil]
    rw [List.dropLast_nil, ← hnil]
    exact h

/-- Every key but Enter. -/
theorem Follows.edit (h : Follows s e) (hc : c ≠ 0) (h10 : c ≠ 10) :
    Follows (s.edit c) (e.key c) := by
  rw [Editor.key, if_neg h10]
  by_cases h8 : c = 8
  · subst h8
    rw [if_pos rfl]
    exact h.backspace
  · rw [Recorded.edit, if_neg h8, if_neg h8]
    by_cases h9 : c = 9
    · rw [if_pos h9, if_pos h9]
      exact h.tab 4 0
    · rw [if_neg h9, if_neg h9]
      have hiff : s.line.bufferIndex < 255 ↔ e.line.length < 255 := by
        rw [← h.index]
        exact CommandLine.lt_max_iff
      by_cases hlt : s.line.bufferIndex < 255
      · rw [if_pos hlt, if_pos (hiff.mp hlt)]
        exact h.type hlt hc
      · rw [if_neg hlt, if_neg (mt hiff.mpr hlt)]
        exact h

/-- The buffer that Enter terminates holds the line. -/
theorem Follows.holdsString (h : Follows s e) :
    HoldsString (s.line.commandBuffer.set s.line.bufferIndex.toNat 0) e.line where
  noNul := h.noNul
  length_lt := by
    rw [← h.index]
    exact s.line.bufferIndex.toNat_lt
  get_eq j hj := by
    have hlt : s.line.bufferIndex.toNat < 256 := s.line.bufferIndex.toNat_lt
    have hindex := h.index
    rw [Bytes.get_set (by omega), h.get_eq j (by omega)]
    split
    · rw [List.getD_eq_default _ _ (by omega)]
    · rfl

/-- **Enter** passes the line on unless it is empty, and empties it. -/
theorem Follows.enter (h : Follows s e) (ht : s.handleKeyPress execute 10 = some t) :
    Follows t (e.key 10) := by
  rw [handleKeyPress, if_pos rfl] at ht
  obtain ⟨k1, -, ht⟩ := Option.bind_eq_some_iff.mp ht
  obtain ⟨⟨k2, executed⟩, hexecuted, ht⟩ := Option.bind_eq_some_iff.mp ht
  obtain ⟨k3, -, ht⟩ := Option.bind_eq_some_iff.mp ht
  cases ht
  have hlines : List.Forall₂ HoldsString executed (e.key 10).submitted := by
    rw [Editor.key, if_pos rfl]
    by_cases hpos : s.line.bufferIndex > 0
    · have hne : e.line ≠ [] := by
        have hlt := UInt8.lt_iff_toNat_lt.mp hpos
        rw [h.index] at hlt
        exact List.ne_nil_of_length_pos hlt
      rw [if_pos hpos] at hexecuted
      obtain ⟨k, -, heq⟩ := Option.map_eq_some_iff.mp hexecuted
      cases heq
      rw [if_neg hne]
      exact List.rel_append h.executed (.cons h.holdsString .nil)
    · have hnil : e.line = [] := by
        apply List.length_eq_zero_iff.mp
        rw [← h.index]
        by_contra hne
        exact hpos (UInt8.lt_iff_toNat_lt.mpr (Nat.pos_of_ne_zero hne))
      rw [if_neg hpos] at hexecuted
      cases hexecuted
      rw [if_pos hnil]
      exact h.executed
  refine ⟨rfl, List.not_mem_nil, fun _ hj => Bytes.get_of_lt hj, ?_, hlines⟩
  intro i hi
  rcases List.mem_append.mp hi with hi | hi
  · exact List.mem_range.mp (List.mem_reverse.mp hi)
  · exact h.access _ i hi

/-- One key. -/
theorem Follows.step (h : Follows s e) (hc : c ≠ 0) (ht : s.handleKeyPress execute c = some t) :
    Follows t (e.key c) := by
  by_cases h10 : c = 10
  · subst h10
    exact h.enter ht
  · rw [handleKeyPress, if_neg h10] at ht
    cases ht
    exact h.edit hc h10

/-- Several keys. -/
theorem Follows.run (h : Follows s e) (hcs : 0 ∉ cs) (ht : run execute cs s = some t) :
    Follows t (cs.foldl Editor.key e) := by
  induction cs generalizing s e with
  | nil =>
    cases ht
    exact h
  | cons c cs ih =>
    rw [List.mem_cons, not_or] at hcs
    rw [Recorded.run, List.foldlM_cons] at ht
    obtain ⟨u, hu, hrest⟩ := Option.bind_eq_some_iff.mp ht
    exact ih (h.step (Ne.symm hcs.1) hu) hcs.2 hrest

end Recorded

open Recorded

/-- **The line editor is exact.**  For every `ExecuteCommand` and every sequence of characters
other than NUL, the recorded run is a run of `HandleKeyPress` from the constructor on, and it
returns if the commands do.  Then the index is the length of the reference editor's line, at
most 255, the buffer holds that line and NULs behind it, every access has been inside the
buffer, and the buffers passed to `ExecuteCommand` hold the lines submitted, in their order. -/
theorem line_editor_exact (execute : Bytes 256 → Kernel → Option Kernel) (k : Kernel)
    {cs : List UInt8} (hcs : 0 ∉ cs) :
    let e := cs.foldl Editor.key ⟨[], []⟩
    (run execute cs (start k)).map line =
        cs.foldlM (fun s c => s.handleKeyPress execute c) (start k).line ∧
      ((∀ b k, (execute b k).isSome) → (run execute cs (start k)).isSome) ∧
      ∀ s, run execute cs (start k) = some s →
        e.line.length ≤ 255 ∧ s.line.bufferIndex.toNat = e.line.length ∧
          (∀ j, e.line.length ≤ j → j < 256 → s.line.commandBuffer.get j = 0) ∧
          (∀ j (hj : j < e.line.length), s.line.commandBuffer.get j = e.line[j]) ∧
          (∀ i ∈ s.accesses, i < 256) ∧
          List.Forall₂ HoldsString s.executed e.submitted := by
  intro e
  refine ⟨line_run, fun hexecute => isSome_run hexecute cs _, ?_⟩
  intro s hs
  have h : Follows s e := (follows_start k).run hcs hs
  have hlt : s.line.bufferIndex.toNat < 256 := s.line.bufferIndex.toNat_lt
  have hindex := h.index
  refine ⟨by omega, hindex, ?_, ?_, h.accesses, h.executed⟩
  · intro j hj hj'
    rw [h.get_eq j hj', List.getD_eq_default _ _ hj]
  · intro j hj
    rw [h.get_eq j (by omega), List.getD_eq_getElem _ _ hj]

/-- The keys `a`, backspace, Enter, `b`, tab, Enter submit one line, `b` and four spaces. -/
theorem line_editor_exact_tab :
    ∃ s, run (fun _ k => some k) [97, 8, 10, 98, 9, 10] (start Watched.blankKernel) = some s ∧
      List.Forall₂ HoldsString s.executed [[98, 32, 32, 32, 32]] := by
  obtain ⟨-, hreturns, hlines⟩ := @line_editor_exact (fun _ k => some k) Watched.blankKernel
    [97, 8, 10, 98, 9, 10] (by decide)
  obtain ⟨s, hs⟩ := Option.isSome_iff_exists.mp (hreturns fun _ _ => rfl)
  exact ⟨s, hs, (hlines s hs).2.2.2.2.2⟩
