/-
# Parsing a command line: the loops of `Shell::ExecuteCommand`

Every read of the line and every access to `cmd[64]` is checked here: a read behind the
terminator of the line, or an index from 64 on, leaves no result.  The checked parser comes to
the same commands as `Pointer.parse`.  A word of more than 63 characters is cut off in `cmd`,
and since the names are shorter it is never taken for one of them.
-/
import HydraOS.CommandLine

open FileSystem Shell

namespace Parser

/-! ## The loops -/

section Loops

variable (s : CStr)

/-- `command[i]`. -/
def read (i : ℕ) : Option UInt8 := if i ≤ s.chars.length then some (s.get i) else none

/-- `while(*p == ' ') p++;` from the character `i` on. -/
def skipSpaces : (fuel i : ℕ) → Option ℕ
  | 0, _ => none
  | fuel + 1, i => do if (← read s i) = 32 then skipSpaces fuel (i + 1) else some i

/-- `strlen(command + start)`. -/
def strlen (start : ℕ) : (fuel len : ℕ) → Option ℕ
  | 0, _ => none
  | fuel + 1, len => do if (← read s (start + len)) ≠ 0 then strlen start fuel (len + 1) else some len

/-- `cmd[i]`. -/
def readCmd (cmd : Bytes 64) (i : ℕ) : Option UInt8 := if i < 64 then some (cmd.get i) else none

/-- `cmd[i] = c;` -/
def writeCmd (cmd : Bytes 64) (i : ℕ) (c : UInt8) : Option (Bytes 64) :=
  if i < 64 then some (cmd.set i c) else none

/-- The loop that copies the word at `command + start` into `cmd`. -/
def copyWord (start : ℕ) : (fuel i : ℕ) → Bytes 64 → Option (ℕ × Bytes 64)
  | 0, _, _ => none
  | fuel + 1, i, cmd => do
    let c ← read s (start + i)
    if c ≠ 0 ∧ c ≠ 32 ∧ i < 63 then copyWord start fuel (i + 1) (← writeCmd cmd i c)
    else some (i, cmd)

/-- `strcmp(cmd, name)`. -/
def compare (cmd : Bytes 64) (name : CStr) : (fuel i : ℕ) → Option Bool
  | 0, _ => none
  | fuel + 1, i => do
    let a ← readCmd cmd i
    let b ← read name i
    if a ≠ 0 ∧ b ≠ 0 then if a ≠ b then some false else compare cmd name fuel (i + 1)
    else some (a == b)

end Loops

/-! ## The chain of comparisons -/

/-- A string literal. -/
def name (t : String) (h : 0 ∉ t.toList.map fun c => c.toNat.toUInt8) : CStr := ⟨_, h⟩

/-- The names in the order in which they are compared, with what is then called. -/
def commands (args : CStr) : List (CStr × LineCommand) :=
  [(name "help" (by decide), .notice .help), (name "clear" (by decide), .clear),
    (name "cls" (by decide), .clear), (name "echo" (by decide), .echo args),
    (name "uptime" (by decide), .uptime), (name "about" (by decide), .notice .about),
    (name "meminfo" (by decide), .notice .meminfo), (name "uname" (by decide), .notice .uname),
    (name "syscall" (by decide), .notice .syscall), (name "disk" (by decide), .file .disk),
    (name "format" (by decide), .file .format), (name "mount" (by decide), .file .mount),
    (name "ls" (by decide), .file .ls), (name "touch" (by decide), .file (.touch args)),
    (name "write" (by decide), .file (.write args)), (name "cat" (by decide), .file (.cat args)),
    (name "rm" (by decide), .file (.rm args))]

theorem noNul_string {n : ℕ} (b : Bytes n) : 0 ∉ b.string := by
  intro h
  have := List.mem_takeWhile_imp h
  simp at this

/-- The string in `cmd`, which is printed for an unknown command. -/
def cmdString (cmd : Bytes 64) : Option CStr :=
  if ∃ i, cmd i = 0 then some ⟨cmd.string, noNul_string cmd⟩ else none

/-- `if(strcmp(cmd, name)) ... else if ...` -/
def dispatch (cmd : Bytes 64) : List (CStr × LineCommand) → Option LineCommand
  | [] => do return .unknown (← cmdString cmd)
  | (name, command) :: rest => do
    if ← compare cmd name 64 0 then return command else dispatch cmd rest

/-- `ExecuteCommand` up to the call of a handler; `raw` is what the stack holds where `cmd` is
placed. -/
def parse (s : CStr) (raw : Bytes 64) : Option (Option LineCommand) := do
  let fuel := s.chars.length + 1
  let start ← skipSpaces s fuel 0
  if (← strlen s start fuel 0) = 0 then return none
  let (i, cmd) ← copyWord s start 64 0 raw
  let cmd ← writeCmd cmd i 0
  let args ← skipSpaces s fuel (start + i)
  return some (← dispatch cmd (commands (s.drop args)))

/-! ## What the loops compute -/

section Spec

variable {s : CStr} {pre cs : List UInt8} {fuel : ℕ}

/-- A read at the place where the rest of the line is `cs`. -/
theorem read_eq (h : s.chars = pre ++ cs) : read s pre.length = some (cs.headD 0) := by
  have hle : pre.length ≤ s.chars.length := by
    rw [h, List.length_append]
    omega
  rw [read, if_pos hle, CStr.get, h, List.getD_append_right _ _ _ _ le_rfl, Nat.sub_self]
  cases cs <;> rfl

/-- The place behind one more character. -/
theorem append_cons {c : UInt8} (h : s.chars = pre ++ c :: cs) : s.chars = (pre ++ [c]) ++ cs := by
  rw [h, List.append_assoc, List.singleton_append]

theorem ne_zero_of_mem {c : UInt8} (h : s.chars = pre ++ c :: cs) : c ≠ 0 := by
  rintro rfl
  apply s.noNul
  rw [h]
  simp

theorem skipSpaces_eq (h : s.chars = pre ++ cs) (hfuel : cs.length < fuel) :
    skipSpaces s fuel pre.length = some (pre.length + (cs.takeWhile (· == 32)).length) := by
  induction cs generalizing pre fuel with
  | nil =>
    obtain ⟨fuel, rfl⟩ := Nat.exists_eq_succ_of_ne_zero (Nat.ne_of_gt hfuel)
    rw [skipSpaces, read_eq h]
    rfl
  | cons c cs ih =>
    obtain ⟨fuel, rfl⟩ := Nat.exists_eq_succ_of_ne_zero (Nat.ne_of_gt (Nat.zero_lt_of_lt hfuel))
    rw [skipSpaces, read_eq h, Option.bind_eq_bind, Option.bind_some, List.headD_cons]
    by_cases hc : c = 32
    · have hrest := ih (append_cons h) (Nat.lt_of_succ_lt_succ hfuel)
      rw [List.length_append, List.length_singleton] at hrest
      rw [if_pos hc, hrest, List.takeWhile_cons_of_pos (by simpa using hc), List.length_cons]
      congr 1
      omega
    · rw [if_neg hc, List.takeWhile_cons_of_neg (by simpa using hc)]
      rfl

theorem strlen_eq {start len : ℕ} (h : s.chars = pre ++ cs) (hpre : start + len = pre.length)
    (hfuel : cs.length < fuel) : strlen s start fuel len = some (len + cs.length) := by
  induction cs generalizing pre fuel len with
  | nil =>
    obtain ⟨fuel, rfl⟩ := Nat.exists_eq_succ_of_ne_zero (Nat.ne_of_gt hfuel)
    rw [strlen, hpre, read_eq h]
    rfl
  | cons c cs ih =>
    obtain ⟨fuel, rfl⟩ := Nat.exists_eq_succ_of_ne_zero (Nat.ne_of_gt (Nat.zero_lt_of_lt hfuel))
    have hrest := @ih (pre ++ [c]) fuel (len + 1) (append_cons h)
      (by rw [List.length_append, List.length_singleton]; omega) (Nat.lt_of_succ_lt_succ hfuel)
    rw [strlen, hpre, read_eq h, Option.bind_eq_bind, Option.bind_some, List.headD_cons,
      if_pos (ne_zero_of_mem h), hrest, List.length_cons]
    congr 1
    omega

/-- The word is copied, at most 63 characters of it, and nothing else in `cmd` changes. -/
theorem copyWord_eq {start i : ℕ} {cmd : Bytes 64} (h : s.chars = pre ++ cs)
    (hpre : start + i = pre.length) (hi : i ≤ 63) (hfuel : 63 - i < fuel) :
    ∃ cmd' m, copyWord s start fuel i cmd = some (i + m, cmd') ∧
      m = min (63 - i) (cs.takeWhile (· != 32)).length ∧
      ∀ k < 64, cmd'.get k = if i ≤ k ∧ k < i + m then cs.getD (k - i) 0 else cmd.get k := by
  induction cs generalizing pre fuel i cmd with
  | nil =>
    obtain ⟨fuel, rfl⟩ := Nat.exists_eq_succ_of_ne_zero (Nat.ne_of_gt (Nat.zero_lt_of_lt hfuel))
    refine ⟨cmd, 0, ?_, (Nat.min_zero _).symm, fun k _ => by rw [if_neg (by omega)]⟩
    rw [copyWord, hpre, read_eq h]
    rfl
  | cons c cs ih =>
    obtain ⟨fuel, rfl⟩ := Nat.exists_eq_succ_of_ne_zero (Nat.ne_of_gt (Nat.zero_lt_of_lt hfuel))
    have hread : read s (start + i) = some c := by rw [hpre, read_eq h, List.headD_cons]
    by_cases hgo : c ≠ 32 ∧ i < 63
    · obtain ⟨cmd', m, hcopy, hm, hget⟩ := @ih (pre ++ [c]) fuel (i + 1) (cmd.set i c)
        (append_cons h) (by rw [List.length_append, List.length_singleton]; omega) (by omega)
        (by omega)
      have hword : ((c :: cs).takeWhile (· != 32)).length =
          (cs.takeWhile (· != 32)).length + 1 := by
        rw [List.takeWhile_cons_of_pos (by simpa using hgo.1), List.length_cons]
      refine ⟨cmd', m + 1, ?_, by omega, ?_⟩
      · rw [copyWord, hread, Option.bind_eq_bind, Option.bind_some,
          if_pos ⟨ne_zero_of_mem h, hgo⟩, writeCmd, if_pos (by omega), Option.bind_eq_bind,
          Option.bind_some, hcopy]
        congr 2
        omega
      · intro k hk
        rw [hget k hk, Bytes.get_set hk]
        by_cases hki : k = i
        · rw [if_neg (by omega), if_pos hki, if_pos (by omega), hki, Nat.sub_self]
          rfl
        · have hiff : (i + 1 ≤ k ∧ k < i + 1 + m) ↔ i ≤ k ∧ k < i + (m + 1) := by omega
          rw [if_neg hki]
          by_cases hin : i ≤ k ∧ k < i + (m + 1)
          · obtain ⟨d, hd⟩ : ∃ d, k - i = d + 1 := ⟨k - (i + 1), by omega⟩
            have hd' : k - (i + 1) = d := by omega
            rw [if_pos (hiff.mpr hin), if_pos hin, hd, hd', List.getD_cons_succ]
          · rw [if_neg (mt hiff.mp hin), if_neg hin]
    · have hm : 0 = min (63 - i) ((c :: cs).takeWhile (· != 32)).length := by
        by_cases hc : c = 32
        · rw [List.takeWhile_cons_of_neg (by simpa using hc), List.length_nil, Nat.min_zero]
        · have hi63 : i = 63 := by
            by_contra hne
            exact hgo ⟨hc, by omega⟩
          omega
      refine ⟨cmd, 0, ?_, hm, fun k _ => by rw [if_neg (by omega)]⟩
      rw [copyWord, hread, Option.bind_eq_bind, Option.bind_some, if_neg fun h => hgo h.2]
      rfl

/-- A read of `cmd` at the place where the rest of its string is `cs`. -/
theorem readCmd_eq {cmd : Bytes 64} {w : List UInt8} (hcmd : HoldsString cmd w)
    (hw : w = pre ++ cs) : readCmd cmd pre.length = some (cs.headD 0) := by
  have hlt := hcmd.length_lt
  have hle : pre.length ≤ w.length := by
    rw [hw, List.length_append]
    omega
  rw [readCmd, if_pos (by omega), hcmd.get_eq _ hle, hw, List.getD_append_right _ _ _ _ le_rfl,
    Nat.sub_self]
  cases cs <;> rfl

/-- `strcmp` stays in both strings and compares them. -/
theorem compare_eq {cmd : Bytes 64} {w : List UInt8} {name : CStr} {pre' bs : List UInt8}
    (hcmd : HoldsString cmd w) (hw : w = pre ++ cs) (hname : name.chars = pre' ++ bs)
    (hlen : pre.length = pre'.length) (hfuel : cs.length < fuel) :
    compare cmd name fuel pre.length = some (strcmp cs bs) := by
  induction cs generalizing pre pre' bs fuel with
  | nil =>
    obtain ⟨fuel, rfl⟩ := Nat.exists_eq_succ_of_ne_zero (Nat.ne_of_gt hfuel)
    have hread : read name pre.length = some (bs.headD 0) := by rw [hlen, read_eq hname]
    rw [compare, readCmd_eq hcmd hw, hread]
    cases bs <;> rfl
  | cons c cs ih =>
    obtain ⟨fuel, rfl⟩ := Nat.exists_eq_succ_of_ne_zero (Nat.ne_of_gt (Nat.zero_lt_of_lt hfuel))
    have hread : read name pre.length = some (bs.headD 0) := by rw [hlen, read_eq hname]
    have hc : c ≠ 0 := by
      rintro rfl
      apply hcmd.noNul
      rw [hw]
      simp
    rw [compare, readCmd_eq hcmd hw, hread, Option.bind_eq_bind, Option.bind_some, List.headD_cons]
    cases bs with
    | nil =>
      rw [Option.bind_some, if_neg (fun h => h.2 rfl)]
      rfl
    | cons b bs =>
      have hb : b ≠ 0 := ne_zero_of_mem hname
      rw [Option.bind_some, List.headD_cons, if_pos ⟨hc, hb⟩, strcmp]
      by_cases hcb : c = b
      · have hrest := ih (hw.trans (List.append_cons pre c cs)) (append_cons hname)
          (by rw [List.length_append, List.length_append, hlen]; rfl) (Nat.lt_of_succ_lt_succ hfuel)
        rw [List.length_append, List.length_singleton] at hrest
        rw [if_neg (not_not.mpr hcb), if_neg (not_not.mpr hcb), hrest]
      · rw [if_pos hcb, if_pos hcb]

/-- The names are compared with the whole string in `cmd`. -/
theorem compare_iff {cmd : Bytes 64} {w : List UInt8} (hcmd : HoldsString cmd w) (name : CStr) :
    compare cmd name 64 0 = some (decide (w = name.chars)) := by
  have hlt := hcmd.length_lt
  have hcompare := @compare_eq [] w 64 cmd w name [] name.chars hcmd rfl rfl rfl hlt
  rw [List.length_nil] at hcompare
  rw [hcompare, Option.some.injEq, Bool.eq_iff_iff, strcmp_iff hcmd.noNul name.noNul,
    decide_eq_true_iff]

end Spec

/-! ## The chain -/

section Chain

variable {cmd : Bytes 64} {w : CStr}

/-- What the chain finds for a word. -/
def lookup (w : CStr) : List (CStr × LineCommand) → LineCommand
  | [] => .unknown w
  | (name, command) :: rest => if w.chars = name.chars then command else lookup w rest

theorem cmdString_eq (hcmd : HoldsString cmd w.chars) : cmdString cmd = some w := by
  have hnul : ∃ i, cmd i = 0 := by
    refine ⟨⟨w.chars.length, hcmd.length_lt⟩, ?_⟩
    have hend := hcmd.get_eq _ le_rfl
    rwa [Bytes.get_of_lt hcmd.length_lt, List.getD_eq_default _ _ le_rfl] at hend
  rw [cmdString, if_pos hnul, Option.some.injEq]
  exact CStr.ext hcmd.string_eq

theorem dispatch_eq (hcmd : HoldsString cmd w.chars) (names : List (CStr × LineCommand)) :
    dispatch cmd names = some (lookup w names) := by
  induction names with
  | nil =>
    rw [dispatch, cmdString_eq hcmd]
    rfl
  | cons e rest ih =>
    obtain ⟨name, command⟩ := e
    rw [dispatch, compare_iff hcmd, lookup, Option.bind_eq_bind, Option.bind_some]
    by_cases heq : w.chars = name.chars
    · rw [if_pos (decide_eq_true heq), if_pos heq]
      rfl
    · rw [if_neg (by simpa using heq), if_neg heq, ih]

/-- A word that is a name gets its command, -/
theorem lookup_of_mem {names : List (CStr × LineCommand)} {e : CStr × LineCommand}
    (hnames : (names.map fun e => e.1.chars).Nodup) (he : e ∈ names)
    (hw : w.chars = e.1.chars) : lookup w names = e.2 := by
  induction names with
  | nil => exact absurd he List.not_mem_nil
  | cons f rest ih =>
    rw [List.map_cons, List.nodup_cons] at hnames
    rw [lookup]
    rcases List.mem_cons.mp he with rfl | he
    · rw [if_pos hw]
    · have hne : w.chars ≠ f.1.chars := by
        intro heq
        apply hnames.1
        rw [← heq, hw]
        exact List.mem_map_of_mem he
      rw [if_neg hne]
      exact ih hnames.2 he

/-- and any other is unknown. -/
theorem lookup_of_forall_ne {names : List (CStr × LineCommand)}
    (h : ∀ e ∈ names, w.chars ≠ e.1.chars) : lookup w names = .unknown w := by
  induction names with
  | nil => rfl
  | cons e rest ih =>
    rw [List.forall_mem_cons] at h
    rw [lookup, if_neg h.1, ih h.2]

theorem isName_iff (t : String) (h : 0 ∉ t.toList.map fun c => c.toNat.toUInt8) :
    Pointer.isName w t = true ↔ w.chars = (name t h).chars := strcmp_iff w.noNul h

/-- It is the chain of `Pointer.dispatch`. -/
theorem lookup_commands (args : CStr) : lookup w (commands args) = Pointer.dispatch w args := by
  simp only [commands, lookup, Pointer.dispatch, ← isName_iff, Bool.or_eq_true, ite_or]

/-- The names are different, not empty and shorter than 63 characters. -/
theorem names_commands (args : CStr) : ((commands args).map fun e => e.1.chars).Nodup ∧
    ∀ e ∈ commands args, 0 < e.1.chars.length ∧ e.1.chars.length < 63 := by
  have hnames : (commands args).map (fun e => e.1.chars) =
    (commands ⟨[], List.not_mem_nil⟩).map fun e => e.1.chars := rfl
  constructor
  · rw [hnames]
    decide
  · intro e he
    have hmem : e.1.chars ∈ (commands args).map fun e => e.1.chars := List.mem_map_of_mem he
    rw [hnames] at hmem
    have hall : ∀ n ∈ (commands ⟨[], List.not_mem_nil⟩).map (fun e => e.1.chars),
      0 < n.length ∧ n.length < 63 := by decide
    exact hall _ hmem

end Chain

/-! ## The whole parser -/

/-- `cmd` holds the word that was copied. -/
theorem holdsString_word {cmd raw : Bytes 64} {cs w : List UInt8} (h0 : 0 ∉ cs)
    (hw : w = (cs.takeWhile (· != 32)).take 63)
    (hget : ∀ k < 64, cmd.get k = if k < w.length then cs.getD k 0 else raw.get k) :
    HoldsString (cmd.set w.length 0) w := by
  have hlen : w.length ≤ 63 := by
    rw [hw, List.length_take]
    omega
  have hsplit : ∃ rest, cs = w ++ rest := by
    obtain ⟨post, hpost⟩ := (List.take_prefix 63 (cs.takeWhile (· != 32))).trans
      (List.takeWhile_prefix (· != 32))
    exact ⟨post, by rw [hw, hpost]⟩
  obtain ⟨rest, hrest⟩ := hsplit
  refine ⟨?_, by omega, ?_⟩
  · intro hmem
    apply h0
    rw [hrest]
    exact List.mem_append_left _ hmem
  · intro j hj
    rw [Bytes.get_set (by omega), hget j (by omega)]
    by_cases heq : j = w.length
    · rw [if_pos heq, List.getD_eq_default _ _ heq.ge]
    · rw [if_neg heq, if_pos (by omega), hrest, List.getD_append _ _ _ _ (by omega)]

theorem drop_takeWhile (p : UInt8 → Bool) (cs : List UInt8) :
    cs.drop (cs.takeWhile p).length = cs.dropWhile p := by
  have hdrop := @List.drop_append_length _ (cs.takeWhile p) (cs.dropWhile p)
  rwa [List.takeWhile_append_dropWhile] at hdrop

/-- The spaces behind the part of the word that was copied. -/
theorem skipSpaces_args {s : CStr} {sp : List UInt8} {m : ℕ}
    (hchars : s.chars = sp ++ s.skipSpaces.chars) (hm : m ≤ s.skipSpaces.chars.length) :
    ∃ args, skipSpaces s (s.chars.length + 1) (sp.length + m) = some args ∧
      s.drop args = (s.skipSpaces.drop m).skipSpaces := by
  have hrest : s.chars = (sp ++ s.skipSpaces.chars.take m) ++ s.skipSpaces.chars.drop m := by
    rw [List.append_assoc, List.take_append_drop]
    exact hchars
  have hplace : (sp ++ s.skipSpaces.chars.take m).length = sp.length + m := by
    rw [List.length_append, List.length_take, Nat.min_eq_left hm]
  have htail : (s.skipSpaces.chars.drop m).length ≤ s.chars.length := by
    rw [hchars, List.length_append, List.length_drop]
    omega
  have hargs := @skipSpaces_eq s _ _ (s.chars.length + 1) hrest (by omega)
  rw [hplace] at hargs
  refine ⟨_, hargs, ?_⟩
  apply CStr.ext
  show s.chars.drop _ = (s.skipSpaces.chars.drop m).dropWhile _
  generalize s.skipSpaces.chars.drop m = tail at hrest
  rw [hrest, ← hplace, List.drop_length_add_append, drop_takeWhile]

/-- **No check fails**, and the result is that of `Pointer.parse`. -/
theorem parse_eq (s : CStr) (raw : Bytes 64) : parse s raw = some (Pointer.parse s) := by
  obtain ⟨sp, hsp⟩ : ∃ sp, s.chars.takeWhile (· == 32) = sp := ⟨_, rfl⟩
  have hchars : s.chars = sp ++ s.skipSpaces.chars := by
    rw [← hsp]
    exact List.takeWhile_append_dropWhile.symm
  have hlength : s.chars.length = sp.length + s.skipSpaces.chars.length := by
    rw [hchars, List.length_append]
  have hskip := @skipSpaces_eq s [] s.chars (s.chars.length + 1) rfl (Nat.lt_succ_self _)
  rw [hsp, List.length_nil, Nat.zero_add] at hskip
  have hstrlen := @strlen_eq s sp s.skipSpaces.chars (s.chars.length + 1) sp.length 0 hchars rfl
    (by omega)
  rw [Nat.zero_add] at hstrlen
  rw [parse, Pointer.parse, hskip]
  simp only [Option.bind_eq_bind, Option.bind_some, hstrlen]
  by_cases hempty : s.skipSpaces.chars.length = 0
  · rw [if_pos hempty, if_pos hempty]
    rfl
  · rw [if_neg hempty, if_neg hempty]
    obtain ⟨cmd, m, hcopy, hm, hget⟩ := @copyWord_eq s sp s.skipSpaces.chars 64 sp.length 0 raw
      hchars rfl (by omega) (by omega)
    have hword : s.skipSpaces.word.chars.length = m := by
      rw [hm, CStr.word, List.length_take]
    have hholds : HoldsString (cmd.set m 0) s.skipSpaces.word.chars := by
      rw [← hword]
      refine @holdsString_word cmd raw s.skipSpaces.chars s.skipSpaces.word.chars
        s.skipSpaces.noNul rfl fun k hk => ?_
      rw [hget k hk, hword]
      simp only [Nat.zero_le, true_and, Nat.zero_add, Nat.sub_zero]
    have hle : m ≤ s.skipSpaces.chars.length := by
      have htake := (List.takeWhile_sublist (· != 32) (l := s.skipSpaces.chars)).length_le
      omega
    obtain ⟨args, hargs, hdrop⟩ := skipSpaces_args hchars hle
    rw [← hword] at hdrop
    rw [Nat.zero_add] at hcopy
    rw [hcopy, Option.bind_some, writeCmd, if_pos (by omega), Option.bind_some, hargs,
      Option.bind_some, hdrop, dispatch_eq hholds, lookup_commands]
    rfl

/-! ## What a line does -/

/-- The first word of a line: its first maximal run of characters that are no spaces. -/
def firstWord (s : CStr) : List UInt8 := s.skipSpaces.chars.takeWhile (· != 32)

/-- The rest of the line after the first word and the spaces that follow it. -/
def rest (s : CStr) : CStr := (s.skipSpaces.drop (firstWord s).length).skipSpaces

section Line

variable {s : CStr}

theorem firstWord_eq_nil_iff : firstWord s = [] ↔ s.skipSpaces.chars = [] := by
  rw [firstWord]
  constructor
  · intro h
    cases hchars : s.chars.dropWhile (· == 32) with
    | nil => exact hchars
    | cons c cs =>
      have hne : s.chars.dropWhile (· == 32) ≠ [] := by
        rw [hchars]
        exact List.cons_ne_nil c cs
      have hc := List.head_dropWhile_not (· == 32) hne
      simp only [hchars, List.head_cons] at hc
      have hskip : s.skipSpaces.chars = c :: cs := hchars
      rw [hskip, List.takeWhile_cons_of_pos (by simpa using hc)] at h
      cases h
  · intro h
    rw [h, List.takeWhile_nil]

/-- An empty line asks for nothing. -/
theorem parse_of_empty (h : firstWord s = []) : Pointer.parse s = none := by
  rw [Pointer.parse]
  exact if_pos (List.length_eq_zero_iff.mpr (firstWord_eq_nil_iff.mp h))

/-- Any other line asks for what the chain finds. -/
theorem parse_of_ne_empty (h : firstWord s ≠ []) : Pointer.parse s =
    some (lookup s.skipSpaces.word
      (commands (s.skipSpaces.drop s.skipSpaces.word.chars.length).skipSpaces)) := by
  rw [Pointer.parse, lookup_commands]
  exact if_neg (mt List.length_eq_zero_iff.mp (mt firstWord_eq_nil_iff.mpr h))

theorem word_eq_take : s.skipSpaces.word.chars = (firstWord s).take 63 := rfl

/-- A first word that is short is copied as it is. -/
theorem word_eq_of_lt (h : ((firstWord s).take 63).length < 63) :
    s.skipSpaces.word.chars = firstWord s := by
  rw [List.length_take] at h
  rw [word_eq_take, List.take_of_length_le (by omega)]

/-- **Cutting a word off does not make it a name.** -/
theorem word_eq_name_iff {args : CStr} {e : CStr × LineCommand} (he : e ∈ commands args) :
    s.skipSpaces.word.chars = e.1.chars ↔ firstWord s = e.1.chars := by
  have hshort := ((names_commands args).2 e he).2
  constructor
  · intro h
    rw [← h]
    symm
    apply word_eq_of_lt
    rw [← word_eq_take, h]
    exact hshort
  · intro h
    rw [← h]
    apply word_eq_of_lt
    rw [h, List.length_take]
    omega

end Line

/-- **What a line does.**  For every line the checked parser comes to the command of
`Pointer.parse`.  If the first word is empty nothing happens; if it is a name, exactly that
command is executed, with the rest of the line; and otherwise its first 63 characters are
reported as unknown. -/
theorem executeCommand_exact {σ : Type} (E : PointerEnv σ) (ms : UInt32) (s : CStr)
    (raw : Bytes 64) (console : Pointer.Console σ) :
    parse s raw = some (Pointer.parse s) ∧
      (firstWord s = [] → console.executeCommand E ms s = console) ∧
      (∀ e ∈ commands (rest s), firstWord s = e.1.chars →
        console.executeCommand E ms s = console.execute E ms e.2) ∧
      (firstWord s ≠ [] → (∀ e ∈ commands (rest s), firstWord s ≠ e.1.chars) →
        ∃ cmd : CStr, cmd.chars = (firstWord s).take 63 ∧
          console.executeCommand E ms s = console.execute E ms (.unknown cmd)) := by
  refine ⟨parse_eq s raw, ?_, ?_, ?_⟩
  · intro h
    rw [Pointer.Console.executeCommand, parse_of_empty h]
  · intro e he h
    have hnames := names_commands (rest s)
    have hne : firstWord s ≠ [] := by
      rw [h]
      exact List.ne_nil_of_length_pos (hnames.2 e he).1
    have hword := (word_eq_name_iff he).mpr h
    have hrest : (s.skipSpaces.drop s.skipSpaces.word.chars.length).skipSpaces = rest s := by
      rw [hword, ← h]
      rfl
    rw [Pointer.Console.executeCommand, parse_of_ne_empty hne, hrest,
      lookup_of_mem hnames.1 he hword]
  · intro hne h
    refine ⟨s.skipSpaces.word, word_eq_take, ?_⟩
    rw [Pointer.Console.executeCommand, parse_of_ne_empty hne, lookup_of_forall_ne]
    intro e he heq
    -- the names do not depend on the rest of the line
    have hname : e.1 ∈ (commands _).map Prod.fst := List.mem_map_of_mem he
    change e.1 ∈ (commands (rest s)).map Prod.fst at hname
    obtain ⟨e', he', hfst⟩ := List.mem_map.mp hname
    apply h e' he'
    rw [hfst]
    exact (word_eq_name_iff he).mp heq

end Parser
