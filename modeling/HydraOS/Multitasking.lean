/-
# The scheduler: `multitasking.h`, `multitasking.cpp`

`TaskManager` keeps a table of tasks and the index of the running one.  `Schedule` gets
the saved state of the running task, stores it in the task and hands out the state of the
next one.  The runs below are arbitrary sequences of `AddTask` and `Schedule`; the calls of
`Schedule` that select a task are recorded together with the tasks added so far.
-/
import HydraOS.RoundRobin
import HydraOS.Runs

/-! ## The task manager -/

/-- A `TaskManager` object: the table holds pointers to `Task` objects. -/
structure TaskManager where
  tasks : Fin 256 → UInt32
  numTasks : ℤ
  currentTask : ℤ

/-- A task manager, and the field `cpustate` of the `Task` object at each address. -/
structure Multitasking where
  manager : TaskManager
  cpustate : UInt32 → UInt32

namespace TaskManager

/-- `TaskManager::TaskManager` on uninitialised memory. -/
def construct (raw : TaskManager) : TaskManager := { raw with numTasks := 0, currentTask := -1 }

/-- `tasks[i]`; a read outside the table gives null. -/
def task (tm : TaskManager) (i : ℤ) : UInt32 :=
  if h : 0 ≤ i ∧ i < 256 then tm.tasks ⟨i.toNat, by omega⟩ else 0

/-- `tasks[i] = t`; a write outside the table is lost. -/
def setTask (i : ℤ) (t : UInt32) (tm : TaskManager) : TaskManager :=
  { tm with tasks := fun j => if (j.val : ℤ) = i then t else tm.tasks j }

/-- `AddTask`. -/
def addTask (t : UInt32) (tm : TaskManager) : Bool × TaskManager :=
  if tm.numTasks ≥ 256 then (false, tm)
  else (true, { tm.setTask tm.numTasks t with numTasks := tm.numTasks + 1 })

/-- `Schedule`. -/
def schedule (cpustate : UInt32) (s : Multitasking) : UInt32 × Multitasking :=
  let tm := s.manager
  if tm.numTasks ≤ 0 then (cpustate, s)
  else
    let saved := if tm.currentTask ≥ 0
      then Function.update s.cpustate (tm.task tm.currentTask) cpustate else s.cpustate
    let currentTask := tm.currentTask + 1
    let currentTask := if currentTask ≥ tm.numTasks then 0 else currentTask
    let tm := { tm with currentTask := currentTask }
    (saved (tm.task currentTask), ⟨tm, saved⟩)

end TaskManager

open TaskManager

/-! ## Runs -/

/-- A call of the task manager. -/
inductive SchedulerCall where
  | addTask (t : UInt32)
  | schedule (cpustate : UInt32)

/-- The task that a call adds. -/
def SchedulerCall.added : SchedulerCall → Option UInt32
  | addTask t => some t
  | schedule _ => none

/-- A call of `Schedule` that selected a task: the state that was passed to it, the task,
the state that it returned, and the tasks in the table, in the order of their addition. -/
structure Switch where
  passed : UInt32
  task : UInt32
  resumed : UInt32
  present : List UInt32

/-- The system with what has been observed of it: the tasks that were added, and the
switches, the first one first. -/
structure Observed where
  sys : Multitasking
  order : List UInt32
  switches : List Switch

namespace Observed

/-- One call, and what it returns. -/
def step (w : Observed) : SchedulerCall → Observed × (Bool ⊕ UInt32)
  | .addTask t =>
    let r := w.sys.manager.addTask t
    (⟨{ w.sys with manager := r.2 }, if r.1 then w.order ++ [t] else w.order, w.switches⟩, .inl r.1)
  | .schedule cpustate =>
    let r := TaskManager.schedule cpustate w.sys
    let tm := r.2.manager
    let switches := if tm.numTasks > 0
      then w.switches ++ [⟨cpustate, tm.task tm.currentTask, r.1, w.order⟩] else w.switches
    (⟨r.2, w.order, switches⟩, .inr r.1)

/-- After the constructor, when the tasks have their initial states. -/
def start (raw : TaskManager) (init : UInt32 → UInt32) : Observed :=
  ⟨⟨construct raw, init⟩, [], []⟩

end Observed

/-! ## The state of a task and the next task -/

/-- The task after `t` in the cyclic order of a list. -/
def nextTask (present : List UInt32) (t : UInt32) : UInt32 :=
  present.getD ((present.idxOf t + 1) % present.length) 0

/-- **The state of a task** after the switches `sw`: what was passed at the call that last
switched the task out, or its initial state if it never ran. -/
inductive StateOf (init : UInt32 → UInt32) (sw : List Switch) (t : UInt32) : UInt32 → Prop
  | initial (h : ∀ z ∈ sw.dropLast, z.task ≠ t) : StateOf init sw t (init t)
  | switched {past later : List Switch} {x y : Switch} (hsw : sw = past ++ x :: y :: later)
      (hx : x.task = t) (hlater : ∀ z ∈ (y :: later).dropLast, z.task ≠ t) :
      StateOf init sw t y.passed

/-- One switch follows another: the tasks are those before and perhaps more, and the next
one in cyclic order runs. -/
def Follows (x y : Switch) : Prop := x.present <+: y.present ∧ y.task = nextTask y.present x.task

/-! ## The invariant -/

/-- The table holds the tasks in the order of their addition, and the index is inside. -/
structure Table (tm : TaskManager) (order : List UInt32) : Prop where
  num : tm.numTasks = order.length
  num_le : order.length ≤ 256
  task : ∀ (i : ℕ) (hi : i < order.length), tm.task i = order[i]
  ge : -1 ≤ tm.currentTask
  lt : tm.currentTask < tm.numTasks

section Table

variable {tm : TaskManager} {order : List UInt32} {t : UInt32} {i : ℕ}

theorem table_construct (raw : TaskManager) : Table (construct raw) [] where
  num := rfl
  num_le := Nat.zero_le _
  task i hi := absurd hi (Nat.not_lt_zero i)
  ge := le_rfl
  lt := show (-1 : ℤ) < 0 by decide

/-- `AddTask` on a full table is refused, -/
theorem Table.addTask_full (h : Table tm order) (hfull : order.length = 256) :
    tm.addTask t = (false, tm) := by
  have hnum := h.num
  rw [addTask, if_pos (by omega)]

/-- and otherwise the task comes last. -/
theorem Table.addTask_room (h : Table tm order) (hroom : order.length < 256) :
    (tm.addTask t).1 = true ∧ Table (tm.addTask t).2 (order ++ [t]) ∧
      (tm.addTask t).2.currentTask = tm.currentTask := by
  have hnum := h.num
  have hge := h.ge
  have hlt := h.lt
  rw [addTask, if_neg (by omega)]
  refine ⟨rfl, ⟨?_, ?_, fun i hi => ?_, hge, ?_⟩, rfl⟩
  · simp [hnum]
  · simpa using hroom
  · rw [List.length_append, List.length_singleton] at hi
    have hslot : (i : ℤ) = tm.numTasks ↔ i = order.length := by omega
    rw [TaskManager.task, dif_pos (by omega)]
    simp only [setTask, Int.toNat_natCast, hslot]
    by_cases hi' : i = order.length
    · subst hi'
      rw [if_pos rfl, List.getElem_concat_length rfl]
    · have hold := h.task i (by omega)
      rw [TaskManager.task, dif_pos (by omega)] at hold
      rw [if_neg hi', List.getElem_append_left (by omega), ← hold]
      rfl
  · show tm.currentTask < tm.numTasks + 1
    omega

/-- **`Schedule`** goes to the next index, and stores the state that was passed in the task
that was running. -/
theorem Table.schedule {s : Multitasking} (h : Table s.manager order) (hpos : 0 < order.length)
    (cpustate : UInt32) :
    ∃ i : ℕ, ∃ hi : i < order.length,
      (i : ℤ) = (if s.manager.currentTask + 1 ≥ order.length then 0 else s.manager.currentTask + 1) ∧
      (schedule cpustate s).2.manager = { s.manager with currentTask := i } ∧
      (schedule cpustate s).2.manager.task i = order[i] ∧
      (schedule cpustate s).1 = (schedule cpustate s).2.cpustate order[i] ∧
      (schedule cpustate s).2.cpustate = if s.manager.currentTask ≥ 0
        then Function.update s.cpustate (s.manager.task s.manager.currentTask) cpustate
        else s.cpustate := by
  have hnum := h.num
  have hge := h.ge
  have hlt := h.lt
  obtain ⟨i, hi⟩ : ∃ i : ℕ, (i : ℤ) =
      if s.manager.currentTask + 1 ≥ s.manager.numTasks then 0 else s.manager.currentTask + 1 := by
    refine ⟨_, Int.toNat_of_nonneg ?_⟩
    split <;> omega
  have hin : i < order.length := by
    split at hi <;> omega
  have htask : TaskManager.task { s.manager with currentTask := i } i = order[i] := h.task i hin
  refine ⟨i, hin, by rw [hi, hnum], ?_⟩
  unfold TaskManager.schedule
  simp only
  rw [if_neg (by omega), ← hi]
  exact ⟨rfl, htask, by rw [htask], rfl⟩

end Table

section StateOf

variable {init : UInt32 → UInt32} {sw : List Switch} {x y : Switch} {t v : UInt32}

/-- A switch changes the state only of the task that was running. -/
theorem StateOf.append (h : StateOf init sw t v) (hlast : ∀ y ∈ sw.getLast?, y.task ≠ t)
    (x : Switch) : StateOf init (sw ++ [x]) t v := by
  have hall {zs : List Switch} (hzs : ∀ z ∈ zs.dropLast, z.task ≠ t)
      (hend : ∀ y ∈ zs.getLast?, y.task ≠ t) : ∀ z ∈ zs, z.task ≠ t := by
    intro z hz
    rcases List.eq_nil_or_concat zs with rfl | ⟨ys, y, rfl⟩
    · cases hz
    · rw [List.concat_eq_append] at hz hzs hend
      rw [List.dropLast_concat] at hzs
      rcases List.mem_append.mp hz with hz | hz
      · exact hzs z hz
      · rw [List.mem_singleton.mp hz]
        exact hend y (by simp)
  cases h with
  | initial h =>
    refine .initial ?_
    rw [List.dropLast_concat]
    exact hall h hlast
  | @switched past later x₀ y₀ hsw hx hlater =>
    refine @StateOf.switched init _ t past (later ++ [x]) x₀ y₀ ?_ hx ?_
    · rw [hsw, List.append_assoc]
      rfl
    · rw [← List.cons_append, List.dropLast_concat]
      refine hall hlater fun z hz => hlast z ?_
      rw [hsw]
      simpa using hz

/-- The state of that task is what was passed. -/
theorem stateOf_running (hy : y ∈ sw.getLast?) (x : Switch) :
    StateOf init (sw ++ [x]) y.task x.passed := by
  obtain ⟨past, rfl⟩ := List.getLast?_eq_some_iff.mp hy
  refine @StateOf.switched init _ y.task past [] y x ?_ rfl (by simp)
  rw [List.append_assoc]
  rfl

end StateOf

/-- What holds of every run. -/
structure Scheduled (init : UInt32 → UInt32) (w : Observed) : Prop where
  table : Table w.sys.manager w.order
  idle : w.switches = [] → w.sys.manager.currentTask = -1
  running : ∀ y ∈ w.switches.getLast?, y.task ∈ w.order ∧
    w.sys.manager.currentTask = w.order.idxOf y.task ∧
    w.sys.manager.task w.sys.manager.currentTask = y.task
  present : ∀ x ∈ w.switches, x.present <+: w.order ∧ x.task ∈ x.present
  first : ∀ x ∈ w.switches.head?, x.present.head? = some x.task
  follows : w.switches.IsChain Follows
  resumed : ∀ past x later, w.switches = past ++ x :: later →
    StateOf init (past ++ [x]) x.task x.resumed
  saved : ∀ t, StateOf init w.switches t (w.sys.cpustate t)

section Steps

variable {init : UInt32 → UInt32} {w : Observed} {t cpustate : UInt32}

theorem scheduled_start (raw : TaskManager) (init : UInt32 → UInt32) :
    Scheduled init (Observed.start raw init) where
  table := table_construct raw
  idle _ := rfl
  running y hy := by cases hy
  present x hx := by cases hx
  first x hx := by cases hx
  follows := .nil
  resumed past x later h := by simp [Observed.start] at h
  saved t := .initial (by simp [Observed.start])

/-- **`AddTask`** keeps the invariant. -/
theorem Scheduled.addTask (h : Scheduled init w) (t : UInt32) :
    Scheduled init (w.step (.addTask t)).1 := by
  have hle := h.table.num_le
  by_cases hfull : w.order.length = 256
  · have hstep : (w.step (.addTask t)).1 = w := by
      rw [Observed.step]
      simp only
      rw [h.table.addTask_full hfull]
      rfl
    rwa [hstep]
  · obtain ⟨hok, htable, hcur⟩ := @Table.addTask_room _ _ t h.table (by omega)
    rw [Observed.step]
    simp only
    rw [if_pos hok]
    refine ⟨htable, fun hs => hcur.trans (h.idle hs), fun y hy => ?_, fun x hx => ?_, h.first,
      h.follows, h.resumed, h.saved⟩
    · obtain ⟨hmem, hidx, htask⟩ := h.running y hy
      have hlt := List.idxOf_lt_length_of_mem hmem
      refine ⟨List.mem_append_left _ hmem, ?_, ?_⟩
      · rw [List.idxOf_append_of_mem hmem]
        exact hcur.trans hidx
      · show (w.sys.manager.addTask t).2.task (w.sys.manager.addTask t).2.currentTask = y.task
        rw [hcur, hidx, htable.task _ (by rw [List.length_append]; omega),
          List.getElem_append_left hlt, List.getElem_idxOf]
    · exact ⟨(h.present x hx).1.trans (List.prefix_append _ _), (h.present x hx).2⟩

/-- **`Schedule`** keeps the invariant. -/
theorem Scheduled.schedule (h : Scheduled init w) (hnodup : w.order.Nodup) (cpustate : UInt32) :
    Scheduled init (w.step (.schedule cpustate)).1 := by
  have hnum := h.table.num
  by_cases hpos : 0 < w.order.length
  · obtain ⟨i, hi, hnext, hmanager, htask, hret, hsaved⟩ := h.table.schedule hpos cpustate
    rw [Observed.step]
    generalize TaskManager.schedule cpustate w.sys = r at hmanager htask hret hsaved ⊢
    obtain ⟨resumed, manager, saved⟩ := r
    simp only at hmanager htask hret hsaved
    subst hmanager hret
    have hgt : w.sys.manager.numTasks > 0 := by omega
    simp only
    rw [if_pos hgt, htask]
    set x : Switch := ⟨cpustate, w.order[i], saved w.order[i], w.order⟩ with hx
    -- the state that was passed goes to the task that was running
    have hstate : ∀ t, StateOf init (w.switches ++ [x]) t (saved t) := by
      intro t
      rcases hlast : w.switches.getLast? with _ | y
      · have hcur := h.idle (List.getLast?_eq_none_iff.mp hlast)
        rw [if_neg (by omega)] at hsaved
        rw [hsaved]
        exact (h.saved t).append (by simp [hlast]) x
      · obtain ⟨-, hcur, hrunning⟩ := h.running y hlast
        rw [if_pos (by omega), hrunning] at hsaved
        rw [hsaved]
        by_cases ht : t = y.task
        · rw [ht, Function.update_self]
          exact stateOf_running hlast x
        · rw [Function.update_of_ne ht]
          refine (h.saved t).append (fun z hz => ?_) x
          cases hlast.symm.trans hz
          exact fun heq => ht heq.symm
    have hfollows : ∀ y ∈ w.switches.getLast?, Follows y x := by
      intro y hy
      obtain ⟨hmem, hcur, -⟩ := h.running y hy
      refine ⟨(h.present y (List.mem_of_getLast? hy)).1, ?_⟩
      have hlt := List.idxOf_lt_length_of_mem hmem
      have hi' : (w.order.idxOf y.task + 1) % w.order.length = i := by
        split at hnext
        · rw [show w.order.idxOf y.task + 1 = w.order.length by omega, Nat.mod_self]
          omega
        · rw [Nat.mod_eq_of_lt (by omega)]
          omega
      rw [nextTask, hx]
      simp only
      rw [hi', List.getD_eq_getElem _ _ hi]
    refine ⟨⟨hnum, h.table.num_le, h.table.task, show -1 ≤ (i : ℤ) by omega,
      show (i : ℤ) < w.sys.manager.numTasks by omega⟩, ?_, ?_, ?_, ?_, ?_, ?_, hstate⟩
    · intro hs
      simp at hs
    · intro y hy
      obtain rfl : x = y := by simpa using hy
      refine ⟨List.getElem_mem hi, ?_, htask⟩
      rw [hx]
      simp only
      rw [hnodup.idxOf_getElem]
    · intro y hy
      rcases List.mem_append.mp hy with hy | hy
      · exact h.present y hy
      · rw [List.mem_singleton.mp hy]
        exact ⟨List.prefix_refl _, List.getElem_mem hi⟩
    · intro y hy
      cases hsw : w.switches with
      | nil =>
        have hcur := h.idle hsw
        rw [hsw] at hy
        obtain rfl : x = y := by simpa using hy
        have hi0 : i = 0 := by
          split at hnext <;> omega
        subst hi0
        rw [hx]
        simp only
        rw [List.head?_eq_getElem?, List.getElem?_eq_getElem hi]
      | cons z zs =>
        rw [hsw] at hy
        exact h.first y (by rw [hsw]; simpa using hy)
    · exact List.isChain_append.mpr ⟨h.follows, .singleton x, fun y hy z hz => by
        obtain rfl : x = z := by simpa using hz
        exact hfollows y hy⟩
    · intro past y later heq
      rcases List.eq_nil_or_concat later with rfl | ⟨later, z, rfl⟩
      · obtain ⟨rfl, hxy⟩ := List.append_inj' heq rfl
        cases hxy
        exact hstate _
      · rw [List.concat_eq_append, ← List.cons_append, ← List.append_assoc] at heq
        exact h.resumed past y later (List.append_inj' heq rfl).1
  · have hstep : (w.step (.schedule cpustate)).1 = w := by
      rw [Observed.step, TaskManager.schedule]
      simp only
      rw [if_pos (by omega)]
      simp only
      rw [if_neg (by omega)]
    rwa [hstep]

end Steps

/-! ## Taking turns -/

section Turns

variable {init : UInt32 → UInt32} {w : Observed}

/-- The place of the task that the switch `k` selects, -/
def place (sw : List Switch) (k : ℕ) : ℕ :=
  (sw[k]?.map fun x => x.present.idxOf x.task).getD 0

/-- and the number of tasks at that time. -/
def tasksAt (sw : List Switch) (k : ℕ) : ℕ := (sw[k]?.map fun x => x.present.length).getD 0

theorem place_eq {sw : List Switch} {k : ℕ} (hk : k < sw.length) :
    place sw k = sw[k].present.idxOf sw[k].task := by
  rw [place, List.getElem?_eq_getElem hk]
  rfl

theorem tasksAt_eq {sw : List Switch} {k : ℕ} (hk : k < sw.length) :
    tasksAt sw k = sw[k].present.length := by
  rw [tasksAt, List.getElem?_eq_getElem hk]
  rfl

/-- A task keeps its place when the list grows at its end. -/
theorem idxOf_of_prefix {xs ys : List UInt32} {t : UInt32} (h : xs <+: ys) (ht : t ∈ xs) :
    ys.idxOf t = xs.idxOf t := by
  obtain ⟨zs, rfl⟩ := h
  exact List.idxOf_append_of_mem ht

/-- The tasks of an earlier switch are tasks of a later one. -/
theorem Scheduled.present_prefix (h : Scheduled init w) {k l : ℕ} (hkl : k ≤ l)
    (hl : l < w.switches.length) : w.switches[k].present <+: w.switches[l].present := by
  induction l, hkl using Nat.le_induction with
  | base => exact List.prefix_refl _
  | succ l hkl ih =>
    exact (ih (by omega)).trans (List.isChain_iff_getElem.mp h.follows l hl).1

/-- **The switches go around the list of tasks.** -/
theorem Scheduled.rounds (h : Scheduled init w) (hnodup : w.order.Nodup) :
    Rounds (place w.switches) (tasksAt w.switches) w.switches.length where
  lt k hk := by
    rw [place_eq hk, tasksAt_eq hk]
    exact List.idxOf_lt_length_of_mem (h.present _ (List.getElem_mem hk)).2
  mono k hk := by
    rw [tasksAt_eq hk, tasksAt_eq (by omega)]
    exact (h.present_prefix (Nat.le_succ k) hk).length_le
  step k hk := by
    obtain ⟨hbefore, hnext⟩ := List.isChain_iff_getElem.mp h.follows k hk
    have hmem := (h.present _ (List.getElem_mem (by omega : k < w.switches.length))).2
    have hpresent := (h.present _ (List.getElem_mem hk)).1.sublist.nodup hnodup
    have hlt := List.idxOf_lt_length_of_mem (hbefore.subset hmem)
    rw [place_eq hk, place_eq (by omega), tasksAt_eq hk, hnext, nextTask,
      ← idxOf_of_prefix hbefore hmem, List.getD_eq_getElem _ _ (Nat.mod_lt _ (by omega)),
      hpresent.idxOf_getElem]
    split
    · next hin => exact Nat.mod_eq_of_lt hin
    · next hout =>
      have hend : w.switches[k + 1].present.idxOf w.switches[k].task + 1 =
          w.switches[k + 1].present.length := by omega
      rw [hend, Nat.mod_self]

end Turns

/-! ## The scheduler over whole runs -/

section Runs

variable {init : UInt32 → UInt32} {w : Observed} {calls : List SchedulerCall}

/-- The invariant holds in every run that adds distinct tasks. -/
theorem Scheduled.run (h : Scheduled init w)
    (hdistinct : (w.order ++ calls.filterMap SchedulerCall.added).Nodup) :
    Scheduled init (finalState Observed.step w calls) ∧
      (finalState Observed.step w calls).order.Nodup := by
  induction calls generalizing w with
  | nil => exact ⟨h, by simpa using hdistinct⟩
  | cons call calls ih =>
    rw [finalState_cons]
    cases call with
    | addTask t =>
      rw [List.filterMap_cons_some (show SchedulerCall.added (.addTask t) = some t from rfl)]
        at hdistinct
      refine ih (h.addTask t) ?_
      rw [Observed.step]
      simp only
      split
      · rwa [List.append_assoc]
      · exact hdistinct.sublist (List.Sublist.append_left (List.sublist_cons_self _ _) _)
    | schedule cpustate =>
      rw [List.filterMap_cons_none (show SchedulerCall.added (.schedule cpustate) = none from rfl)]
        at hdistinct
      exact ih (h.schedule hdistinct.of_append_left cpustate) hdistinct

/-- **The scheduler.**  In every run that adds distinct tasks the index stays in the table.
Every switch returns the state of the task that it selects.  The tasks are selected in
cyclic order, the first one first, so that between two selections of a task each other task
that was there has exactly one turn.  A full table refuses a task and stays as it is. -/
theorem round_robin (raw : TaskManager) (init : UInt32 → UInt32) (calls : List SchedulerCall)
    (hdistinct : (calls.filterMap SchedulerCall.added).Nodup) :
    let w := finalState Observed.step (Observed.start raw init) calls
    let tm := w.sys.manager
    (-1 ≤ tm.currentTask ∧ tm.currentTask < tm.numTasks ∧ tm.numTasks ≤ 256 ∧
        tm.numTasks = w.order.length) ∧
      (∀ past x later, w.switches = past ++ x :: later →
        StateOf init (past ++ [x]) x.task x.resumed) ∧
      ((∀ x ∈ w.switches.head?, x.present.head? = some x.task) ∧ w.switches.IsChain Follows) ∧
      (∀ k l (hkl : k < l) (hl : l < w.switches.length),
        w.switches[l].task = w.switches[k].task →
        (∀ j (_ : k < j) (hj : j < l), w.switches[j].task ≠ w.switches[k].task) →
        ∀ u ∈ w.switches[k].present, u ≠ w.switches[k].task →
          ∃! j, k < j ∧ j < l ∧ w.switches[j]?.map Switch.task = some u) ∧
      ∀ t, ((tm.addTask t).1 = false ↔ tm.numTasks = 256) ∧
        (tm.numTasks = 256 → (tm.addTask t).2 = tm) := by
  intro w tm
  obtain ⟨h, hnodup⟩ : Scheduled init w ∧ w.order.Nodup := (scheduled_start raw init).run hdistinct
  have hnum : tm.numTasks = w.order.length := h.table.num
  have hle : w.order.length ≤ 256 := h.table.num_le
  refine ⟨⟨h.table.ge, h.table.lt, by omega, hnum⟩, h.resumed, ⟨h.first, h.follows⟩, ?_, ?_⟩
  · intro k l hkl hl hback hne u hu hother
    -- a task is recognised by its place
    have hplace {j : ℕ} (hkj : k ≤ j) (hj : j < w.switches.length) {t : UInt32}
        (ht : t ∈ w.switches[k].present) :
        w.switches[j].task = t ↔ place w.switches j = w.switches[k].present.idxOf t := by
      have hbefore := h.present_prefix hkj hj
      rw [place_eq hj, ← idxOf_of_prefix hbefore ht]
      exact (List.idxOf_inj (h.present _ (List.getElem_mem hj)).2).symm
    have hk := (h.present _ (List.getElem_mem (by omega : k < w.switches.length))).2
    have hself := place_eq (by omega : k < w.switches.length)
    obtain ⟨j, ⟨h1, h2, hj⟩, huniq⟩ := (h.rounds hnodup).exists_unique_turn hkl hl
      (((hplace hkl.le hl hk).mp hback).trans hself.symm)
      (fun j h1 h2 heq => hne j h1 h2 ((hplace h1.le (by omega) hk).mpr (heq.trans hself)))
      (tasksAt_eq (by omega : k < w.switches.length) ▸ List.idxOf_lt_length_of_mem hu)
      (fun heq => hother ((List.idxOf_inj hu).mp (heq.trans hself)))
    refine ⟨j, ⟨h1, h2, ?_⟩, fun i hi => huniq i ⟨hi.1, hi.2.1, ?_⟩⟩
    · rw [List.getElem?_eq_getElem (by omega), Option.map_some, (hplace h1.le (by omega) hu).mpr hj]
    · have htask := hi.2.2
      rw [List.getElem?_eq_getElem (by omega)] at htask
      exact (hplace hi.1.le (by omega) hu).mp (Option.some.inj htask)
  · intro t
    by_cases hfull : w.order.length = 256
    · rw [h.table.addTask_full hfull]
      exact ⟨⟨fun _ => by omega, fun _ => rfl⟩, fun _ => rfl⟩
    · have hroom := (@Table.addTask_room _ _ t h.table (by omega)).1
      rw [hroom]
      refine ⟨by simp; omega, fun h256 => absurd h256 (by omega)⟩

/-- Two tasks, the second one added while the first one runs. -/
theorem round_robin_two_tasks :
    let w := finalState Observed.step (Observed.start ⟨fun _ => 0, 0, 0⟩ fun t => t + 0x1000)
      [.addTask 8, .schedule 1, .addTask 16, .schedule 2, .schedule 3]
    w.switches.map Switch.resumed = [0x1008, 0x1010, 2] ∧
      StateOf (fun t => t + 0x1000) w.switches 8 2 := by
  intro w
  have hw := round_robin ⟨fun _ => 0, 0, 0⟩ (fun t => t + 0x1000)
    [.addTask 8, .schedule 1, .addTask 16, .schedule 2, .schedule 3] (by decide)
  exact ⟨by decide, hw.2.1 [⟨1, 8, 0x1008, [8]⟩, ⟨2, 16, 0x1010, [8, 16]⟩]
    ⟨3, 8, 2, [8, 16]⟩ [] rfl⟩

end Runs
