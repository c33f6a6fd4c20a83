import Muduo.Library.Fairness

/-!
# Machines that move together

Two machines side by side. Some labels move one of them, others are shared and move both at
once, and `joint` says when a label may be taken. The product does nothing that one of its
sides could not do, so what holds along the runs and the executions of a side holds in the
product. What is left to show of a product is that its sides do not hold each other up.
-/

namespace Machine

/-- Which of two machines moves, and how. -/
inductive Joint (L K : Type*) where
  | left (l : L)
  | right (k : K)
  | both (l : L) (k : K)
  deriving Repr

namespace Joint

variable {L K : Type*}

def left? : Joint L K → Option L
  | .left l | .both l _ => some l
  | .right _ => none

def right? : Joint L K → Option K
  | .right k | .both _ k => some k
  | .left _ => none

end Joint

variable {S T L K : Type*} (M : Machine S L) (N : Machine T K)
  (joint : S × T → Joint L K → Prop) [∀ s j, Decidable (joint s j)]

def sync : Machine (S × T) (Joint L K) where
  init s := M.init s.1 ∧ N.init s.2
  step s j :=
    if joint s j then
      match j with
      | .left l => (M.step s.1 l).map fun u => (u, s.2)
      | .right k => (N.step s.2 k).map fun v => (s.1, v)
      | .both l k => (M.step s.1 l).bind fun u => (N.step s.2 k).map fun v => (u, v)
    else none

/-- Each side meets its own condition in the steps that it takes. -/
def Both (okM : S → L → Prop) (okN : T → K → Prop) (s : S × T) : Joint L K → Prop
  | .left l => okM s.1 l
  | .right k => okN s.2 k
  | .both l k => okM s.1 l ∧ okN s.2 k

variable {M N joint} {okM : S → L → Prop} {okN : T → K → Prop} {s t : S × T} {j : Joint L K}

instance [∀ s l, Decidable (okM s l)] [∀ s k, Decidable (okN s k)] :
    Decidable (Both okM okN s j) :=
  match j with
  | .left l => inferInstanceAs (Decidable (okM s.1 l))
  | .right k => inferInstanceAs (Decidable (okN s.2 k))
  | .both l k => inferInstanceAs (Decidable (okM s.1 l ∧ okN s.2 k))

theorem both_true : Both (fun _ _ => True) (fun _ _ => True) s j := by
  cases j with
  | left | right => trivial
  | both => exact ⟨trivial, trivial⟩

/-! ## The steps -/

theorem step_sync_left {l : L} :
    (M.sync N joint).step s (.left l) = some t ↔
      joint s (.left l) ∧ M.step s.1 l = some t.1 ∧ t.2 = s.2 := by
  obtain ⟨u, v⟩ := t
  simp only [sync, Option.ite_none_right_eq_some, Option.map_eq_some_iff, Prod.mk.injEq]
  grind

theorem step_sync_right {k : K} :
    (M.sync N joint).step s (.right k) = some t ↔
      joint s (.right k) ∧ t.1 = s.1 ∧ N.step s.2 k = some t.2 := by
  obtain ⟨u, v⟩ := t
  simp only [sync, Option.ite_none_right_eq_some, Option.map_eq_some_iff, Prod.mk.injEq]
  grind

theorem step_sync_both {l : L} {k : K} :
    (M.sync N joint).step s (.both l k) = some t ↔
      joint s (.both l k) ∧ M.step s.1 l = some t.1 ∧ N.step s.2 k = some t.2 := by
  obtain ⟨u, v⟩ := t
  simp only [sync, Option.ite_none_right_eq_some, Option.bind_eq_some_iff,
    Option.map_eq_some_iff, Prod.mk.injEq]
  grind

/-- What a step of the product is for its first machine. -/
theorem step_fst (hok : Both okM okN s j) (hst : (M.sync N joint).step s j = some t) :
    match j.left? with
    | none => t.1 = s.1
    | some l => okM s.1 l ∧ M.step s.1 l = some t.1 := by
  cases j with
  | left l => exact ⟨hok, (step_sync_left.mp hst).2.1⟩
  | right k => exact (step_sync_right.mp hst).2.1
  | both l k => exact ⟨hok.1, (step_sync_both.mp hst).2.1⟩

theorem step_snd (hok : Both okM okN s j) (hst : (M.sync N joint).step s j = some t) :
    match j.right? with
    | none => t.2 = s.2
    | some k => okN s.2 k ∧ N.step s.2 k = some t.2 := by
  cases j with
  | left l => exact (step_sync_left.mp hst).2.2
  | right k => exact ⟨hok, (step_sync_right.mp hst).2.2⟩
  | both l k => exact ⟨hok.2, (step_sync_both.mp hst).2.2⟩

/-! ## The sides of runs and executions -/

theorem Reach.fst (h : (M.sync N joint).Reach (Both okM okN) s) : M.Reach okM s.1 := by
  induction h with
  | init hs => exact .init hs.1
  | step j _ hok hst ih =>
    have hside := step_fst hok hst
    split at hside
    · rwa [hside]
    · exact .step _ ih hside.1 hside.2

namespace Execution

variable (e : (M.sync N joint).Execution (Both okM okN))

theorem next_fst (n : ℕ) :
    match (e.label n).bind Joint.left? with
    | none => (e.state (n + 1)).1 = (e.state n).1
    | some l => okM (e.state n).1 l ∧ M.step (e.state n).1 l = some (e.state (n + 1)).1 := by
  have hnext := e.next n
  cases hl : e.label n with
  | none =>
    simp only [hl] at hnext
    exact congrArg Prod.fst hnext
  | some j =>
    simp only [hl] at hnext
    exact step_fst hnext.1 hnext.2

theorem next_snd (n : ℕ) :
    match (e.label n).bind Joint.right? with
    | none => (e.state (n + 1)).2 = (e.state n).2
    | some k => okN (e.state n).2 k ∧ N.step (e.state n).2 k = some (e.state (n + 1)).2 := by
  have hnext := e.next n
  cases hl : e.label n with
  | none =>
    simp only [hl] at hnext
    exact congrArg Prod.snd hnext
  | some j =>
    simp only [hl] at hnext
    exact step_snd hnext.1 hnext.2

/-- What the first machine does in the product; where it has no part in a step it pauses. -/
def fst : M.Execution okM where
  state n := (e.state n).1
  label n := (e.label n).bind Joint.left?
  init := e.init.1
  next := e.next_fst

def snd : N.Execution okN where
  state n := (e.state n).2
  label n := (e.label n).bind Joint.right?
  init := e.init.2
  next := e.next_snd

end Execution

end Machine
