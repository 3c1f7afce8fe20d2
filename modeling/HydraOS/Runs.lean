/-
# Runs of transition systems

Two shapes of system occur: a relation between states, labelled by actions, and a
machine that computes its next state and an output.  For each there is the one
induction over runs that the developments built on it use: an invariant of every
step is an invariant of every run, and a simulation of single steps makes two
machines answer alike for ever.  The same rule for a counted loop stands first.
-/
import Mathlib

variable {σ τ α ι ω : Type*}

/-! ## Counted loops -/

/-- `for (i = first; i < first + count && cond; i++) body`. -/
def forLoop (cond : σ → Bool) (body : ℕ → σ → σ) : (count first : ℕ) → σ → σ
  | 0, _, s => s
  | count + 1, first, s =>
    if cond s then forLoop cond body count (first + 1) (body first s) else s

section Loops

variable {cond : σ → Bool} {body : ℕ → σ → σ} {count first : ℕ} {s : σ}

/-- **The loop rule.**  An invariant of the body, indexed by the loop counter, holds
at the counter with which the loop ends: the last one, or one at which the
condition fails. -/
theorem forLoop_invariant (Inv : ℕ → σ → Prop) (hs : Inv first s)
    (hbody : ∀ i s, first ≤ i → i < first + count → cond s → Inv i s → Inv (i + 1) (body i s)) :
    ∃ i ≤ first + count, Inv i (forLoop cond body count first s) ∧
      (i < first + count → cond (forLoop cond body count first s) = false) := by
  induction count generalizing first s with
  | zero => exact ⟨first, le_rfl, hs, fun h => absurd h (by omega)⟩
  | succ count ih =>
    rw [forLoop]
    by_cases hcond : cond s = true
    · rw [if_pos hcond]
      obtain ⟨i, hle, hinv, hend⟩ := ih (hbody first s le_rfl (by omega) hcond hs)
        fun i s hle hlt => hbody i s (by omega) (by omega)
      exact ⟨i, by omega, hinv, fun h => hend (by omega)⟩
    · rw [if_neg hcond]
      exact ⟨first, by omega, hs, fun _ => by simpa using hcond⟩

/-- The loop rule for a loop without a further condition. -/
theorem forLoop_invariant_of_true (Inv : ℕ → σ → Prop) (hs : Inv first s)
    (hbody : ∀ i s, first ≤ i → i < first + count → Inv i s → Inv (i + 1) (body i s)) :
    Inv (first + count) (forLoop (fun _ => true) body count first s) := by
  obtain ⟨i, hle, hinv, hend⟩ :=
    @forLoop_invariant σ (fun _ => true) body count first s Inv hs
      fun i s h1 h2 _ => hbody i s h1 h2
  obtain rfl : i = first + count := by
    by_contra hne
    exact absurd (hend (by omega)) (by decide)
  exact hinv

/-- What every round keeps, the loop keeps. -/
theorem forLoop_keeps {P : σ → Prop} (hbody : ∀ i s, P s → P (body i s)) (hs : P s)
    (cond : σ → Bool) (count first : ℕ) : P (forLoop cond body count first s) := by
  obtain ⟨_, -, hP, -⟩ := @forLoop_invariant σ cond body count first s (fun _ s => P s) hs
    fun i s _ _ _ => hbody i s
  exact hP

/-- **The loop rule for two loops in step.**  A relation that every round of both keeps, and
in which their conditions agree, holds at the end. -/
theorem forLoop_related {cond' : τ → Bool} {body' : ℕ → τ → τ} {t : τ} (Rel : σ → τ → Prop)
    (hst : Rel s t) (hcond : ∀ s t, Rel s t → cond s = cond' t)
    (hbody : ∀ i s t, first ≤ i → i < first + count → Rel s t → Rel (body i s) (body' i t)) :
    Rel (forLoop cond body count first s) (forLoop cond' body' count first t) := by
  induction count generalizing first s t with
  | zero => exact hst
  | succ count ih =>
    rw [forLoop, forLoop, hcond s t hst]
    by_cases hgo : cond' t = true
    · rw [if_pos hgo, if_pos hgo]
      exact ih (hbody first s t le_rfl (by omega) hst)
        fun i s t hle hlt => hbody i s t (by omega) (by omega)
    · rw [if_neg hgo, if_neg hgo]
      exact hst

/-- The last round of a loop without a further condition. -/
theorem forLoop_succ_last : forLoop (fun _ => true) body (count + 1) first s =
    body (first + count) (forLoop (fun _ => true) body count first s) := by
  induction count generalizing first s with
  | zero => rfl
  | succ count ih =>
    unfold forLoop
    rw [if_pos rfl, if_pos rfl, ih, Nat.add_right_comm, Nat.add_assoc first]

/-- A loop that its condition ends after `n` rounds. -/
theorem forLoop_eq_of_stops {n : ℕ} (hn : n ≤ count)
    (hgo : ∀ j < n, cond (forLoop (fun _ => true) body j first s) = true)
    (hstop : n < count → cond (forLoop (fun _ => true) body n first s) = false) :
    forLoop cond body count first s = forLoop (fun _ => true) body n first s := by
  induction count generalizing first s n with
  | zero =>
    obtain rfl : n = 0 := by omega
    rfl
  | succ count ih =>
    cases n with
    | zero =>
      have hs : cond s = false := hstop (by omega)
      unfold forLoop
      rw [if_neg (by rw [hs]; decide)]
    | succ n =>
      have hs : cond s = true := hgo 0 (by omega)
      rw [forLoop, if_pos hs]
      exact ih (by omega) (fun j hj => hgo (j + 1) (by omega)) fun hlt => hstop (by omega)

/-- The loop with a body that may fail: the last state and the number of rounds. -/
def tryLoop (cond : σ → Bool) (body : ℕ → σ → Option σ) : (count first : ℕ) → σ → Option (σ × ℕ)
  | 0, _, s => some (s, 0)
  | count + 1, first, s =>
    if cond s then do
      let t ← body first s
      let (u, rounds) ← tryLoop cond body count (first + 1) t
      return (u, rounds + 1)
    else some (s, 0)

/-- **The loop rule** for a body that fails in no round. -/
theorem tryLoop_eq {body' : ℕ → σ → Option σ} (Inv : ℕ → σ → Prop) (hs : Inv first s)
    (hbody : ∀ i s, first ≤ i → i < first + count → cond s → Inv i s →
      body' i s = some (body i s) ∧ Inv (i + 1) (body i s)) :
    ∃ n, Inv (first + n) (forLoop cond body count first s) ∧
      tryLoop cond body' count first s = some (forLoop cond body count first s, n) := by
  induction count generalizing first s with
  | zero => exact ⟨0, hs, rfl⟩
  | succ count ih =>
    rw [forLoop, tryLoop]
    by_cases hcond : cond s = true
    · rw [if_pos hcond, if_pos hcond]
      obtain ⟨hsome, hnext⟩ := hbody first s le_rfl (by omega) hcond hs
      obtain ⟨n, hinv, hrest⟩ := ih hnext fun i s hle hlt => hbody i s (by omega) (by omega)
      refine ⟨n + 1, ?_, ?_⟩
      · rwa [Nat.add_right_comm] at hinv
      · rw [hsome, Option.bind_eq_bind, Option.bind_some, hrest]
        rfl
    · rw [if_neg hcond, if_neg hcond]
      exact ⟨0, hs, rfl⟩

end Loops

/-! ## Labelled transition relations -/

/-- `Run step s as t`: the actions `as` lead from `s` to `t`. -/
inductive Run (step : σ → α → σ → Prop) : σ → List α → σ → Prop
  | nil (s : σ) : Run step s [] s
  | cons {s t u : σ} {a : α} {as : List α} :
      step s a t → Run step t as u → Run step s (a :: as) u

namespace Run

variable {step : σ → α → σ → Prop} {s t u : σ} {a : α} {as : List α}

theorem single (h : step s a t) : Run step s [a] t := cons h (nil t)

/-- **The invariant rule.**  What every step preserves, every run preserves. -/
theorem invariant (Inv : σ → Prop) (hstep : ∀ s a t, step s a t → Inv s → Inv t)
    (h : Run step s as t) (hs : Inv s) : Inv t := by
  induction h with
  | nil s => exact hs
  | cons hst _ ih => exact ih (hstep _ _ _ hst hs)

/-- The invariant rule for runs whose labels are all in `ok`. -/
theorem invariant_of_labels (Inv : σ → Prop) {ok : α → Prop}
    (hstep : ∀ s a t, ok a → step s a t → Inv s → Inv t)
    (h : Run step s as t) (hok : ∀ a ∈ as, ok a) (hs : Inv s) : Inv t := by
  induction h with
  | nil s => exact hs
  | cons hst _ ih =>
    rw [List.forall_mem_cons] at hok
    exact ih hok.2 (hstep _ _ _ hok.1 hst hs)

/-- A relation with more steps has more runs. -/
theorem mono {step' : σ → α → σ → Prop} (himp : ∀ s a t, step s a t → step' s a t)
    (h : Run step s as t) : Run step' s as t := by
  induction h with
  | nil s => exact nil s
  | cons hst _ ih => exact cons (himp _ _ _ hst) ih

end Run

/-! ## Machines with outputs -/

section Machines

variable (f : σ → ι → σ × ω) (g : τ → ι → τ × ω)

/-- The state of the machine `f` after the inputs `is`. -/
def finalState (s : σ) (is : List ι) : σ := is.foldl (fun s i => (f s i).1) s

/-- The outputs of the machine `f` on the inputs `is`. -/
def outputs : σ → List ι → List ω
  | _, [] => []
  | s, i :: is => (f s i).2 :: outputs (f s i).1 is

/-- Each input meets the condition `ok` in the state in which it arrives. -/
def Along (ok : σ → ι → Prop) : σ → List ι → Prop
  | _, [] => True
  | s, i :: is => ok s i ∧ Along ok (f s i).1 is

variable {f g} {s : σ} {t : τ} {i : ι} {is js : List ι} {ok : σ → ι → Prop}

@[simp] theorem finalState_nil : finalState f s [] = s := rfl

@[simp] theorem finalState_cons :
    finalState f s (i :: is) = finalState f (f s i).1 is := rfl

theorem finalState_append :
    finalState f s (is ++ js) = finalState f (finalState f s is) js := List.foldl_append

/-- A condition along two lists of inputs. -/
theorem Along.append (h : Along f ok s (is ++ js)) :
    Along f ok s is ∧ Along f ok (finalState f s is) js := by
  induction is generalizing s with
  | nil => exact ⟨trivial, h⟩
  | cons i is ih =>
    obtain ⟨hfirst, hrest⟩ := ih h.2
    exact ⟨⟨h.1, hfirst⟩, hrest⟩

/-- A condition that holds of inputs in states with an invariant. -/
theorem Along.of_invariant (Inv : σ → Prop) {ok' : σ → ι → Prop}
    (hstep : ∀ s i, Inv s → ok s i → Inv (f s i).1)
    (himp : ∀ s i, Inv s → ok s i → ok' s i) (hs : Inv s) (h : Along f ok s is) :
    Along f ok' s is := by
  induction is generalizing s with
  | nil => trivial
  | cons i is ih => exact ⟨himp _ _ hs h.1, ih (hstep s i hs h.1) h.2⟩

/-- A condition on the inputs alone. -/
theorem along_of_forall (h : ∀ i ∈ is, ∀ s, ok s i) : Along f ok s is := by
  induction is generalizing s with
  | nil => trivial
  | cons i is ih =>
    rw [List.forall_mem_cons] at h
    exact ⟨h.1 s, ih h.2⟩

/-- Two conditions that agree in every state. -/
theorem along_congr {ok' : σ → ι → Prop} (h : ∀ s i, ok s i ↔ ok' s i) :
    Along f ok s is ↔ Along f ok' s is := by
  induction is generalizing s with
  | nil => exact Iff.rfl
  | cons i is ih => exact and_congr (h s i) ih

/-- A condition on the inputs alone joins a condition along the run. -/
theorem Along.and_forall {p : ι → Prop} (h : Along f ok s is) (hp : ∀ i ∈ is, p i) :
    Along f (fun s i => ok s i ∧ p i) s is := by
  induction is generalizing s with
  | nil => trivial
  | cons i is ih =>
    rw [List.forall_mem_cons] at hp
    exact ⟨⟨h.1, hp.1⟩, ih h.2 hp.2⟩

instance Along.decidable [∀ s i, Decidable (ok s i)] :
    ∀ (s : σ) (is : List ι), Decidable (Along f ok s is)
  | _, [] => isTrue trivial
  | s, i :: is =>
    have := @Along.decidable _ (f s i).1 is
    inferInstanceAs (Decidable (ok s i ∧ Along f ok (f s i).1 is))

/-- **The invariant rule** for machines. -/
theorem finalState_invariant (Inv : σ → Prop)
    (hstep : ∀ s i, Inv s → ok s i → Inv (f s i).1) (hs : Inv s) (hok : Along f ok s is) :
    Inv (finalState f s is) := by
  induction is generalizing s with
  | nil => exact hs
  | cons i is ih => exact ih (hstep s i hs hok.1) hok.2

/-- What every step keeps and puts out, every run puts out. -/
theorem outputs_forall (Inv : σ → Prop) {Q : ω → Prop}
    (hstep : ∀ s i, Inv s → Inv (f s i).1 ∧ Q (f s i).2) (hs : Inv s) :
    ∀ o ∈ outputs f s is, Q o := by
  induction is generalizing s with
  | nil =>
    intro o ho
    exact absurd ho List.not_mem_nil
  | cons i is ih =>
    obtain ⟨hnext, hout⟩ := hstep s i hs
    rw [outputs, List.forall_mem_cons]
    exact ⟨hout, ih hnext⟩

/-- **The exact condition for a property of every state.**  Let `Inv` be an invariant of the
steps that meet the condition, and let the property hold with it and fail after every step
that does not meet the condition.  Then the property holds in all states of a run if and
only if all its steps meet the condition. -/
theorem forall_prefix_iff_along (Inv P : σ → Prop) (q : ι → Prop) (hP : ∀ s, Inv s → P s)
    (hstep : ∀ s i, Inv s → q i → ok s i → Inv (f s i).1)
    (hbad : ∀ s i, Inv s → q i → ¬ ok s i → ¬ P (f s i).1) (hs : Inv s) (hq : ∀ i ∈ is, q i) :
    (∀ past, past <+: is → P (finalState f s past)) ↔ Along f ok s is := by
  induction is generalizing s with
  | nil =>
    refine iff_of_true (fun past hpast => ?_) trivial
    rw [List.prefix_nil.mp hpast]
    exact hP s hs
  | cons i is ih =>
    rw [List.forall_mem_cons] at hq
    constructor
    · intro hall
      have hok : ok s i := by
        by_contra hok
        exact hbad s i hs hq.1 hok (hall [i] (List.prefix_append [i] is))
      refine ⟨hok, (ih (hstep s i hs hq.1 hok) hq.2).mp fun past hpast => ?_⟩
      exact hall (i :: past) ((List.prefix_cons_inj i).mpr hpast)
    · rintro ⟨hok, hrest⟩ past hpast
      cases past with
      | nil => exact hP s hs
      | cons j past =>
        obtain ⟨rfl, hpast'⟩ := List.cons_prefix_cons.mp hpast
        exact (ih (hstep s j hs hq.1 hok) hq.2).mpr hrest past hpast'

/-- Two machines side by side, on the same inputs. -/
def sideBySide (f : σ → ι → σ × ω) (g : τ → ι → τ × ω) (u : σ × τ) (i : ι) : (σ × τ) × ω × ω :=
  (((f u.1 i).1, (g u.2 i).1), (f u.1 i).2, (g u.2 i).2)

theorem finalState_sideBySide :
    finalState (sideBySide f g) (s, t) is = (finalState f s is, finalState g t is) := by
  induction is generalizing s t with
  | nil => rfl
  | cons i is ih => exact ih

theorem along_sideBySide {ok : τ → ι → Prop} :
    Along (sideBySide f g) (fun u i => ok u.2 i) (s, t) is ↔ Along g ok t is := by
  induction is generalizing s t with
  | nil => exact Iff.rfl
  | cons i is ih => exact and_congr_right fun _ => ih

/-- **The exact condition for agreement** of two machines in all states, where the condition
is one on the second machine. -/
theorem forall_prefix_agree_iff (Inv P : σ → τ → Prop) {ok : τ → ι → Prop} (q : ι → Prop)
    (hP : ∀ s t, Inv s t → P s t)
    (hstep : ∀ s t i, Inv s t → q i → ok t i → Inv (f s i).1 (g t i).1)
    (hbad : ∀ s t i, Inv s t → q i → ¬ ok t i → ¬ P (f s i).1 (g t i).1)
    (hst : Inv s t) (hq : ∀ i ∈ is, q i) :
    (∀ past, past <+: is → P (finalState f s past) (finalState g t past)) ↔ Along g ok t is := by
  have hboth := @forall_prefix_iff_along _ _ _ (sideBySide f g) (s, t) is (fun u i => ok u.2 i)
    (fun u => Inv u.1 u.2) (fun u => P u.1 u.2) q (fun u => hP u.1 u.2)
    (fun u i => hstep u.1 u.2 i) (fun u i => hbad u.1 u.2 i) hst hq
  rw [along_sideBySide] at hboth
  rw [← hboth]
  simp only [finalState_sideBySide]

/-- **The simulation rule.**  If related states answer every input alike and go to
related states, then on every run the two machines have the same outputs and end in
related states. -/
theorem simulation (R : σ → τ → Prop)
    (hstep : ∀ s t i, R s t → ok s i → (f s i).2 = (g t i).2 ∧ R (f s i).1 (g t i).1)
    (hst : R s t) (hok : Along f ok s is) :
    outputs f s is = outputs g t is ∧ R (finalState f s is) (finalState g t is) := by
  induction is generalizing s t with
  | nil => exact ⟨rfl, hst⟩
  | cons i is ih =>
    obtain ⟨hout, hnext⟩ := hstep s t i hst hok.1
    obtain ⟨houts, hend⟩ := ih hnext hok.2
    rw [outputs, outputs, hout, houts]
    exact ⟨rfl, hend⟩

end Machines
