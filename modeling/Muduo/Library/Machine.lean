import Mathlib.Data.List.Basic
import Mathlib.Logic.Relation

/-!
# Labelled state machines

A machine is a partial step function driven by labels. A label names the actor
and fixes every choice of its environment, so a list of labels is a run and a
run can be evaluated. Proofs quantify over the labels.

`Reach ok` collects the states at the end of runs whose every step meets `ok`,
a condition on the state before the step and on its label. Unrestricted runs are
the case where `ok` always holds.
-/

/-- Partial steps, one successor for each label. -/
structure Machine (State Label : Type*) where
  init : State → Prop
  step : State → Label → Option State

namespace Machine

variable {State Label : Type*} (M : Machine State Label)

/-- Execute the labels in order; `none` as soon as one of them is not enabled. -/
def run : State → List Label → Option State
  | s, [] => some s
  | s, l :: ls => (M.step s l).bind fun t => run t ls

theorem run_append (s : State) (xs ys : List Label) :
    M.run s (xs ++ ys) = (M.run s xs).bind fun t => M.run t ys := by
  induction xs generalizing s with
  | nil => rfl
  | cons l xs ih =>
    simp only [List.cons_append, run, Option.bind_assoc]
    congr 1
    funext t
    exact ih t

/-- A condition met by every step of the run of `ls` from `s`. -/
def Along (ok : State → Label → Prop) : State → List Label → Prop
  | _, [] => True
  | s, l :: ls => ok s l ∧ ∀ t, M.step s l = some t → Along ok t ls

/-- The ends of runs from an initial state whose every step meets `ok`. -/
inductive Reach (ok : State → Label → Prop) : State → Prop where
  | init {s : State} : M.init s → Reach ok s
  | step {s t : State} (l : Label) :
      Reach ok s → ok s l → M.step s l = some t → Reach ok t

/-- The ends of all runs from an initial state. -/
abbrev Reachable : State → Prop := M.Reach fun _ _ => True

variable {M} {ok : State → Label → Prop}

/-- What holds initially and survives every step that meets `ok` holds at the end
of every run whose steps all meet `ok`. -/
theorem Reach.invariant {I : State → Prop} (init : ∀ s, M.init s → I s)
    (step : ∀ s l t, I s → ok s l → M.step s l = some t → I t) {s : State}
    (h : M.Reach ok s) : I s := by
  induction h with
  | init hs => exact init _ hs
  | step l _ hok hst ih => exact step _ _ _ ih hok hst

/-- A stronger condition reaches fewer states. -/
theorem Reach.mono {ok' : State → Label → Prop} (imp : ∀ s l, ok s l → ok' s l) {s : State}
    (h : M.Reach ok s) : M.Reach ok' s := by
  induction h with
  | init hs => exact .init hs
  | step l _ hok hst ih => exact .step l ih (imp _ _ hok) hst

theorem Reach.reachable {s : State} (h : M.Reach ok s) : M.Reachable s :=
  h.mono fun _ _ _ => trivial

theorem along_true (s : State) (ls : List Label) : M.Along (fun _ _ => True) s ls := by
  induction ls generalizing s with
  | nil => trivial
  | cons l ls ih => exact ⟨trivial, fun t _ => ih t⟩

theorem along_of_forall {s : State} {ls : List Label} (h : ∀ l ∈ ls, ∀ s, ok s l) :
    M.Along ok s ls := by
  induction ls generalizing s with
  | nil => trivial
  | cons l ls ih =>
    exact ⟨h l List.mem_cons_self s, fun t _ => ih fun l' hl => h l' (List.mem_cons_of_mem l hl)⟩

/-- What the steps of a run keep holds at its end, wherever the run starts. -/
theorem Along.invariant {I : State → Prop}
    (step : ∀ s l t, I s → ok s l → M.step s l = some t → I t) {s t : State} {ls : List Label}
    (along : M.Along ok s ls) (hs : I s) (hrun : M.run s ls = some t) : I t := by
  induction ls generalizing s with
  | nil => exact Option.some.inj hrun ▸ hs
  | cons l ls ih =>
    obtain ⟨u, hu, hrest⟩ := Option.bind_eq_some_iff.mp hrun
    exact ih (along.2 u hu) (step _ _ _ hs along.1 hu) hrest

/-- A run whose steps meet `ok` ends in a reached state. -/
theorem Reach.run {s t : State} {ls : List Label} (h : M.Reach ok s)
    (along : M.Along ok s ls) (hrun : M.run s ls = some t) : M.Reach ok t :=
  along.invariant (fun _ l _ hs hok hst => .step l hs hok hst) h hrun

theorem run_invariant {I : State → Prop} (step : ∀ s l t, I s → M.step s l = some t → I t)
    {s t : State} {ls : List Label} (hs : I s) (hrun : M.run s ls = some t) : I t :=
  (along_true s ls).invariant (fun _ _ _ h _ hst => step _ _ _ h hst) hs hrun

theorem reachable_run {s t : State} (hs : M.init s) (ls : List Label)
    (hrun : M.run s ls = some t) : M.Reachable t :=
  Reach.run (.init hs) (along_true s ls) hrun

/-- A run that can be executed ends in a reachable state. -/
theorem exists_run {s : State} {ls : List Label} (hs : M.init s) (h : (M.run s ls).isSome = true)
    {P : State → Prop} (hP : ∀ t, M.run s ls = some t → M.Reachable t → P t) :
    ∃ t, M.run s ls = some t ∧ P t := by
  obtain ⟨t, ht⟩ := Option.isSome_iff_exists.mp h
  exact ⟨t, ht, hP t ht (reachable_run hs ls ht)⟩

variable (M ok) in
/-- Execute the labels in order, as long as each step meets `ok`. -/
def runIf [∀ s l, Decidable (ok s l)] : State → List Label → Option State
  | s, [] => some s
  | s, l :: ls => if ok s l then (M.step s l).bind fun t => runIf t ls else none

theorem Reach.runIf [∀ s l, Decidable (ok s l)] {s t : State} (h : M.Reach ok s)
    (ls : List Label) (hrun : M.runIf ok s ls = some t) : M.Reach ok t := by
  induction ls generalizing s with
  | nil => exact Option.some.inj hrun ▸ h
  | cons l ls ih =>
    obtain ⟨hok, hrun⟩ := Option.ite_none_right_eq_some.mp hrun
    obtain ⟨u, hu, hrest⟩ := Option.bind_eq_some_iff.mp hrun
    exact ih (.step l h hok hu) hrest

theorem exists_runIf [∀ s l, Decidable (ok s l)] {s : State} {ls : List Label} (hs : M.init s)
    (h : (M.runIf ok s ls).isSome = true) {P : State → Prop}
    (hP : ∀ t, M.runIf ok s ls = some t → M.Reach ok t → P t) :
    ∃ t, M.runIf ok s ls = some t ∧ P t := by
  obtain ⟨t, ht⟩ := Option.isSome_iff_exists.mp h
  exact ⟨t, ht, hP t ht (.runIf (.init hs) ls ht)⟩

/-- Where good steps keep `J`, a bad step leads to `Q`, and nothing leads back from `Q`,
a run from `J` ends well exactly if all its steps are good. -/
theorem run_iff_along {J P Q : State → Prop}
    (good : ∀ s l t, J s → ok s l → M.step s l = some t → J t)
    (bad : ∀ s l t, J s → ¬ ok s l → M.step s l = some t → Q t)
    (stays : ∀ s l t, Q s → M.step s l = some t → Q t)
    (hJ : ∀ s, J s → P s) (hQ : ∀ s, Q s → ¬ P s)
    {s t : State} {ls : List Label} (hs : J s) (hrun : M.run s ls = some t) :
    P t ↔ M.Along ok s ls := by
  induction ls generalizing s with
  | nil =>
    obtain rfl := Option.some.inj hrun
    exact ⟨fun _ => trivial, fun _ => hJ _ hs⟩
  | cons l ls ih =>
    obtain ⟨u, hu, hrest⟩ := Option.bind_eq_some_iff.mp hrun
    by_cases hok : ok s l
    · refine (ih (good _ _ _ hs hok hu) hrest).trans ⟨?_, ?_⟩
      · intro h
        exact ⟨hok, fun v hv => Option.some.inj (hu.symm.trans hv) ▸ h⟩
      · intro h
        exact h.2 u hu
    · have hq : Q t := run_invariant stays (bad _ _ _ hs hok hu) hrest
      constructor
      · intro h
        exact absurd h (hQ _ hq)
      · intro h
        exact absurd h.1 hok

variable (M) in
/-- A property of every state that the run of `ls` from `s` goes through. -/
def Throughout (P : State → Prop) : State → List Label → Prop
  | s, [] => P s
  | s, l :: ls => P s ∧ ∀ t, M.step s l = some t → Throughout P t ls

/-- Where good steps keep `J` and a bad step falsifies `P` at once, a run from `J` keeps `P`
exactly if all its steps are good. -/
theorem throughout_iff_along {J P : State → Prop}
    (good : ∀ s l t, J s → ok s l → M.step s l = some t → J t)
    (bad : ∀ s l t, J s → ¬ ok s l → M.step s l = some t → ¬ P t) (hJ : ∀ s, J s → P s)
    {s t : State} {ls : List Label} (hs : J s) (hrun : M.run s ls = some t) :
    M.Throughout P s ls ↔ M.Along ok s ls := by
  induction ls generalizing s with
  | nil => exact ⟨fun _ => trivial, fun _ => hJ s hs⟩
  | cons l ls ih =>
    obtain ⟨u, hu, hrest⟩ := Option.bind_eq_some_iff.mp hrun
    have hnext : ∀ {Q : State → Prop}, (∀ v, M.step s l = some v → Q v) ↔ Q u := by
      intro Q
      exact ⟨fun h => h u hu, fun h v hv => Option.some.inj (hu.symm.trans hv) ▸ h⟩
    simp only [Throughout, Along, hnext]
    by_cases hok : ok s l
    · rw [ih (good _ _ _ hs hok hu) hrest]
      exact ⟨fun h => ⟨hok, h.2⟩, fun h => ⟨hJ s hs, h.2⟩⟩
    · have hP : ¬ P u := bad _ _ _ hs hok hu
      constructor
      · intro h
        cases ls with
        | nil => exact absurd h.2 hP
        | cons l' ls => exact absurd h.2.1 hP
      · intro h
        exact absurd h.1 hok

/-! ## Progress -/

variable (M) in
/-- Some run from `s` ends in `P`. -/
def Leads (s : State) (P : State → Prop) : Prop := ∃ ls t, M.run s ls = some t ∧ P t

namespace Leads

variable {s t : State} {P Q : State → Prop}

theorem now (h : P s) : M.Leads s P := ⟨[], s, rfl, h⟩

theorem step (l : Label) (hst : M.step s l = some t) (h : M.Leads t P) : M.Leads s P := by
  obtain ⟨ls, u, hrun, hu⟩ := h
  exact ⟨l :: ls, u, by rw [run, hst, Option.bind_some, hrun], hu⟩

/-- Runs are put together. -/
theorem trans (h : M.Leads s P) (hP : ∀ t, P t → M.Leads t Q) : M.Leads s Q := by
  obtain ⟨ls, t, hrun, ht⟩ := h
  induction ls generalizing s with
  | nil => exact Option.some.inj hrun ▸ hP t ht
  | cons l ls ih =>
    obtain ⟨u, hu, hrest⟩ := Option.bind_eq_some_iff.mp hrun
    exact .step l hu (ih hrest)

theorem mono (h : M.Leads s P) (hP : ∀ t, P t → Q t) : M.Leads s Q :=
  h.trans fun t ht => .now (hP t ht)

end Leads

/-! ## Refinement -/

variable {AState ALabel : Type*}

/-- Every step of `M` is matched by a run of the abstract machine, possibly empty. -/
structure Simulation (M : Machine State Label) (ok : State → Label → Prop)
    (A : Machine AState ALabel) (rel : State → AState → Prop) : Prop where
  init : ∀ s, M.init s → ∃ a, A.init a ∧ rel s a
  step : ∀ s l t a, rel s a → ok s l → M.step s l = some t →
    ∃ ls b, A.run a ls = some b ∧ rel t b

/-- A simulation relates every reached state to a reachable abstract one. -/
theorem Simulation.reach {A : Machine AState ALabel} {rel : State → AState → Prop}
    (sim : Simulation M ok A rel) {s : State} (h : M.Reach ok s) :
    ∃ a, A.Reachable a ∧ rel s a := by
  induction h with
  | init hs =>
    obtain ⟨a, ha, hr⟩ := sim.init _ hs
    exact ⟨a, .init ha, hr⟩
  | step l _ hok hst ih =>
    obtain ⟨a, ha, hr⟩ := ih
    obtain ⟨ls, b, hrun, hb⟩ := sim.step _ _ _ a hr hok hst
    exact ⟨b, ha.run (along_true a ls) hrun, hb⟩

end Machine
