import Muduo.Library.Machine
import Mathlib.Data.Prod.Lex

/-!
# Rankings and executions

Finite runs say what never happens. What does happen is said of executions, which go on
for ever and in which the machine may also pause: where helpful steps lower a rank, no
other step raises it, and helpful steps keep coming, the goal is reached.

The same rank answers two more questions. It bounds the helpful steps of every finite run,
and where a helpful step is always enabled it leads to the goal.
-/

namespace Machine

variable {State Label : Type*} (M : Machine State Label) (ok : State → Label → Prop)

/-- The machine without the steps that do not meet `ok`. -/
def within [∀ s l, Decidable (ok s l)] : Machine State Label where
  init := M.init
  step s l := if ok s l then M.step s l else none

/-- A behaviour without end: at each time a step that meets `ok`, or a pause. -/
structure Execution where
  state : ℕ → State
  label : ℕ → Option Label
  init : M.init (state 0)
  next : ∀ n, match label n with
    | none => state (n + 1) = state n
    | some l => ok (state n) l ∧ M.step (state n) l = some (state (n + 1))

variable {M ok}

theorem step_within [∀ s l, Decidable (ok s l)] {s t : State} {l : Label} :
    (M.within ok).step s l = some t ↔ ok s l ∧ M.step s l = some t :=
  Option.ite_none_right_eq_some

theorem Along.cons {s t : State} {l : Label} {ls : List Label} (hok : ok s l)
    (hst : M.step s l = some t) (h : M.Along ok t ls) : M.Along ok s (l :: ls) :=
  ⟨hok, fun _ hu => Option.some.inj (hst.symm.trans hu) ▸ h⟩

theorem along_of_runIf [∀ s l, Decidable (ok s l)] {s : State} {ls : List Label}
    (h : (M.runIf ok s ls).isSome = true) : M.Along ok s ls := by
  induction ls generalizing s with
  | nil => trivial
  | cons l ls ih =>
    obtain ⟨t, ht⟩ := Option.isSome_iff_exists.mp h
    obtain ⟨hok, hrun⟩ := Option.ite_none_right_eq_some.mp ht
    obtain ⟨u, hu, hrest⟩ := Option.bind_eq_some_iff.mp hrun
    exact .cons hok hu (ih (hrest ▸ rfl))

/-- The end of a run meets the condition that the whole run meets. -/
theorem along_drop {s t : State} {xs ys : List Label} (along : M.Along ok s (xs ++ ys))
    (hrun : M.run s xs = some t) : M.Along ok t ys := by
  induction xs generalizing s with
  | nil => exact Option.some.inj hrun ▸ along
  | cons l xs ih =>
    obtain ⟨u, hu, hrest⟩ := Option.bind_eq_some_iff.mp hrun
    exact ih (along.2 u hu) hrest

/-! ## Steps that lower a rank -/

/-- A run has no more helpful steps on the way to its goal than its rank allows. -/
theorem countP_add_rank_le {J P : State → Prop} (helpful : Label → Bool) (rank : State → ℕ)
    (keeps : ∀ s l t, J s → ok s l → M.step s l = some t → J t)
    (final : ∀ s l t, J s → ok s l → M.step s l = some t → P s → P t)
    (lowers : ∀ s l t, J s → M.step s l = some t → ¬ P s → helpful l = true → rank t < rank s)
    (others : ∀ s l t, J s → M.step s l = some t → ¬ P s → rank t ≤ rank s)
    {s t : State} {ls : List Label} (hs : J s) (along : M.Along ok s ls)
    (hrun : M.run s ls = some t) (ht : ¬ P t) : ls.countP helpful + rank t ≤ rank s := by
  induction ls generalizing s with
  | nil =>
    obtain rfl := Option.some.inj hrun
    simp
  | cons l ls ih =>
    obtain ⟨u, hu, hrest⟩ := Option.bind_eq_some_iff.mp hrun
    have hle := ih (keeps s l u hs along.1 hu) (along.2 u hu) hrest
    have hP : ¬ P s := by
      intro hP
      have hJP : J t ∧ P t := by
        refine along.invariant (I := fun s => J s ∧ P s) ?_ ⟨hs, hP⟩ hrun
        exact fun s l t h hok hst => ⟨keeps s l t h.1 hok hst, final s l t h.1 hok hst h.2⟩
      exact ht hJP.2
    rw [List.countP_cons]
    cases hl : helpful l with
    | true =>
      have hlt := lowers s l u hs hu hP hl
      simp only [if_true]
      omega
    | false =>
      have hle' := others s l u hs hu hP
      simp only [Bool.false_eq_true, if_false]
      omega

/-- Where a step that lowers the rank is always enabled, some run reaches the goal. -/
theorem leads_of_rank {J P : State → Prop} (rank : State → ℕ)
    (progress : ∀ s, J s → ¬ P s → ∃ l t, M.step s l = some t ∧ J t ∧ rank t < rank s)
    {s : State} (hs : J s) : M.Leads s fun t => J t ∧ P t := by
  induction hn : rank s using Nat.strong_induction_on generalizing s with
  | _ n ih =>
    by_cases hP : P s
    · exact .now ⟨hs, hP⟩
    · obtain ⟨l, t, hst, ht, hlt⟩ := progress s hs hP
      exact .step l hst (ih (rank t) (hn ▸ hlt) ht rfl)

/-! ## Executions -/

namespace Execution

variable (e : M.Execution ok)

theorem reach (n : ℕ) : M.Reach ok (e.state n) := by
  induction n with
  | zero => exact .init e.init
  | succ n ih =>
    have hnext := e.next n
    split at hnext
    · rwa [hnext]
    · exact .step _ ih hnext.1 hnext.2

/-- The label of a finite run, or the one that `next` picks after its end. -/
def pick (ls : List Label) (next : ℕ → State → Option Label) (n : ℕ) (s : State) :
    Option Label :=
  ls[n]?.or (next n s)

variable (M) in
/-- The states on the way of these labels. -/
def trace (ls : List Label) (next : ℕ → State → Option Label) (s : State) : ℕ → State
  | 0 => s
  | n + 1 =>
    match pick ls next n (trace ls next s n) with
    | none => trace ls next s n
    | some l => (M.step (trace ls next s n) l).getD (trace ls next s n)

section OfRun

variable {s t : State} {ls : List Label} {next : ℕ → State → Option Label} {I : State → Prop}

theorem trace_succ {n : ℕ} {l : Label} {u : State}
    (hl : pick ls next n (trace M ls next s n) = some l)
    (hst : M.step (trace M ls next s n) l = some u) : trace M ls next s (n + 1) = u := by
  rw [trace, hl]
  simp [hst]

/-- A run that is under way can be split at each of its labels. -/
theorem run_trace (hrun : M.run s ls = some t) {n : ℕ} (hn : n ≤ ls.length) :
    M.run s (ls.take n) = some (trace M ls next s n) := by
  induction n with
  | zero => rfl
  | succ n ih =>
    obtain ⟨l, hl⟩ : ∃ l, ls[n]? = some l := ⟨_, List.getElem?_eq_getElem hn⟩
    have htake : ls.take (n + 1) = ls.take n ++ [l] := by
      rw [List.take_add_one, hl, Option.toList_some]
    obtain ⟨u, hu⟩ : ∃ u, M.run s (ls.take (n + 1)) = some u := by
      rw [← List.take_append_drop (n + 1) ls, M.run_append] at hrun
      obtain ⟨u, hu, -⟩ := Option.bind_eq_some_iff.mp hrun
      exact ⟨u, hu⟩
    have hstep : M.step (trace M ls next s n) l = some u := by
      rw [htake, M.run_append, ih (by omega)] at hu
      simpa [Machine.run] using hu
    rw [hu, trace_succ (by simp [pick, hl]) hstep]

/-- The states after the run. -/
theorem trace_after (hrun : M.run s ls = some t) (ht : I t)
    (hnext : ∀ n u l, I u → next n u = some l → ok u l ∧ ∃ v, M.step u l = some v ∧ I v) {n : ℕ}
    (hn : ls.length ≤ n) : I (trace M ls next s n) := by
  induction n, hn using Nat.le_induction with
  | base =>
    have hend : M.run s (ls.take ls.length) = some (trace M ls next s ls.length) :=
      run_trace hrun le_rfl
    rw [List.take_length, hrun] at hend
    exact Option.some.inj hend ▸ ht
  | succ n hn ih =>
    have hpick : pick ls next n (trace M ls next s n) = next n (trace M ls next s n) := by
      simp [pick, List.getElem?_eq_none hn]
    cases hl : next n (trace M ls next s n) with
    | none =>
      rw [trace, hpick, hl]
      exact ih
    | some l =>
      obtain ⟨-, v, hv, hI⟩ := hnext _ _ _ ih hl
      exact trace_succ (hpick.trans hl) hv ▸ hI

theorem next_trace (along : M.Along ok s ls) (hrun : M.run s ls = some t) (ht : I t)
    (hnext : ∀ n u l, I u → next n u = some l → ok u l ∧ ∃ v, M.step u l = some v ∧ I v) (n : ℕ) :
    match pick ls next n (trace M ls next s n) with
    | none => trace M ls next s (n + 1) = trace M ls next s n
    | some l => ok (trace M ls next s n) l ∧
        M.step (trace M ls next s n) l = some (trace M ls next s (n + 1)) := by
  rcases Nat.lt_or_ge n ls.length with hn | hn
  · obtain ⟨l, hl⟩ : ∃ l, ls[n]? = some l := ⟨_, List.getElem?_eq_getElem hn⟩
    have hpick : pick ls next n (trace M ls next s n) = some l := by simp [pick, hl]
    have hsplit : ls = ls.take n ++ l :: ls.drop (n + 1) := by
      obtain ⟨hlt, hget⟩ := List.getElem?_eq_some_iff.mp hl
      rw [← hget, List.getElem_cons_drop, List.take_append_drop]
    have hu : M.run s (ls.take n) = some (trace M ls next s n) := run_trace hrun hn.le
    have hstep : ∃ v, M.step (trace M ls next s n) l = some v := by
      rw [hsplit, M.run_append, hu, Option.bind_some] at hrun
      obtain ⟨v, hv, -⟩ := Option.bind_eq_some_iff.mp hrun
      exact ⟨v, hv⟩
    obtain ⟨v, hv⟩ := hstep
    rw [hsplit] at along
    have hok := along_drop along hu
    rw [hpick]
    exact ⟨hok.1, hv.trans (congrArg some (trace_succ hpick hv).symm)⟩
  · have hI := trace_after hrun ht hnext hn
    have hpick : pick ls next n (trace M ls next s n) = next n (trace M ls next s n) := by
      simp [pick, List.getElem?_eq_none hn]
    cases hl : next n (trace M ls next s n) with
    | none =>
      rw [hpick, hl]
      simp [trace, hpick, hl]
    | some l =>
      obtain ⟨hok, v, hv, -⟩ := hnext _ _ _ hI hl
      rw [hpick, hl]
      exact ⟨hok, hv.trans (congrArg some (trace_succ (hpick.trans hl) hv).symm)⟩

/-- A finite run that goes on for ever: from a state in `I`, the label that `next` picks leads
to a state in `I`. -/
def ofRun (I : State → Prop) (next : ℕ → State → Option Label) (hs : M.init s)
    (along : M.Along ok s ls) (hrun : M.run s ls = some t) (ht : I t)
    (hnext : ∀ n u l, I u → next n u = some l → ok u l ∧ ∃ v, M.step u l = some v ∧ I v) :
    M.Execution ok where
  state := trace M ls next s
  label n := pick ls next n (trace M ls next s n)
  init := hs
  next := next_trace along hrun ht hnext

variable {hs : M.init s} {along : M.Along ok s ls} {hrun : M.run s ls = some t} {ht : I t}
  {hnext : ∀ n u l, I u → next n u = some l → ok u l ∧ ∃ v, M.step u l = some v ∧ I v} {n : ℕ}

theorem state_ofRun (hn : ls.length ≤ n) : I ((ofRun I next hs along hrun ht hnext).state n) :=
  trace_after hrun ht hnext hn

theorem label_ofRun (hn : ls.length ≤ n) :
    (ofRun I next hs along hrun ht hnext).label n =
      next n ((ofRun I next hs along hrun ht hnext).state n) := by
  simp [ofRun, pick, List.getElem?_eq_none hn]

end OfRun

variable {e}

theorem step_of_label {n : ℕ} {l : Label} (hl : e.label n = some l) :
    ok (e.state n) l ∧ M.step (e.state n) l = some (e.state (n + 1)) := by
  have hnext := e.next n
  simpa only [hl] using hnext

/-- What every step keeps holds from then on. -/
theorem stays {J : State → Prop}
    (keeps : ∀ s l t, M.Reach ok s → ok s l → M.step s l = some t → J s → J t) {n m : ℕ}
    (hnm : n ≤ m) (hn : J (e.state n)) : J (e.state m) := by
  induction m, hnm using Nat.le_induction with
  | base => exact hn
  | succ m _ ih =>
    have hnext := e.next m
    split at hnext
    · rwa [hnext]
    · exact keeps _ _ _ (e.reach m) hnext.1 hnext.2 ih

/-- What holds later and not now is brought about by some step. -/
theorem exists_step {Q : State → Prop} {n m : ℕ} (hnm : n ≤ m) (hn : ¬ Q (e.state n))
    (hm : Q (e.state m)) :
    ∃ k l, n ≤ k ∧ e.label k = some l ∧ M.step (e.state k) l = some (e.state (k + 1)) ∧
      ¬ Q (e.state k) ∧ Q (e.state (k + 1)) := by
  induction m, hnm using Nat.le_induction with
  | base => exact absurd hm hn
  | succ m hnm ih =>
    by_cases hQ : Q (e.state m)
    · exact ih hQ
    · have hnext := e.next m
      split at hnext
      · exact absurd (hnext ▸ hm) hQ
      · exact ⟨m, _, hnm, ‹_›, hnext.2, hQ, hm⟩

/-- Short of the goal, helpful steps lower the rank and no other step raises it. Where
helpful steps keep coming, the goal is reached. -/
theorem eventually {α : Type*} [Preorder α] [WellFoundedLT α] {J P : State → Prop}
    (helpful : State → Label → Prop) (rank : State → α)
    (keeps : ∀ s l t, M.Reach ok s → ok s l → M.step s l = some t → J s → J t)
    (lowers : ∀ s l t, M.Reach ok s → ok s l → M.step s l = some t → J s → ¬ P s → ¬ P t →
      helpful s l → rank t < rank s)
    (others : ∀ s l t, M.Reach ok s → ok s l → M.step s l = some t → J s → ¬ P s → ¬ P t →
      rank t ≤ rank s)
    {n : ℕ} (hn : J (e.state n))
    (fair : ∀ k, n ≤ k → (∀ j, n ≤ j → ¬ P (e.state j)) →
      ∃ m l, k ≤ m ∧ e.label m = some l ∧ helpful (e.state m) l) :
    ∃ m, n ≤ m ∧ P (e.state m) := by
  by_contra! hnever
  have hJ : ∀ k, n ≤ k → J (e.state k) := fun k hk => stays keeps hk hn
  have hle : ∀ k, n ≤ k → rank (e.state (k + 1)) ≤ rank (e.state k) := by
    intro k hk
    have hnext := e.next k
    split at hnext
    · rw [hnext]
    · exact others _ _ _ (e.reach k) hnext.1 hnext.2 (hJ k hk) (hnever k hk)
        (hnever _ (by omega))
  have hanti : ∀ k m, n ≤ k → k ≤ m → rank (e.state m) ≤ rank (e.state k) := by
    intro k m hk hkm
    induction m, hkm using Nat.le_induction with
    | base => exact le_rfl
    | succ m hkm ih => exact (hle m (hk.trans hkm)).trans ih
  -- the first helpful step after each time starts the descent again
  suffices h : ∀ a : α, ∀ k, n ≤ k → rank (e.state k) = a → False from h _ n le_rfl rfl
  intro a
  induction a using WellFoundedLT.induction with
  | ind a ih =>
    rintro k hk rfl
    obtain ⟨m, l, hkm, hl, hhelp⟩ := fair k hk hnever
    have hnm : n ≤ m := hk.trans hkm
    have hnext := e.step_of_label hl
    have hlt := lowers _ _ _ (e.reach m) hnext.1 hnext.2 (hJ m hnm) (hnever m hnm)
      (hnever _ (by omega)) hhelp
    exact ih _ (hlt.trans_le (hanti k m hk hkm)) (m + 1) (by omega) rfl

/-! ## Strong fairness -/

/-- A step that is possible again and again is taken in the end. -/
def StronglyFair (e : M.Execution ok) (l : Label) : Prop :=
  ∀ n, (∀ k, n ≤ k → ∃ m, k ≤ m ∧ ok (e.state m) l ∧ (M.step (e.state m) l).isSome = true) →
    ∃ m, n ≤ m ∧ e.label m = some l

/-- What all other steps keep holds until the step is taken and brings about its effect. To see
that the step is possible again and again, one may assume that it goes on to hold. -/
theorem StronglyFair.leads {l : Label} (hfair : e.StronglyFair l) {J Q : State → Prop}
    (keeps : ∀ s k t, M.Reach ok s → ok s k → M.step s k = some t → k ≠ l → J s → J t)
    (effect : ∀ s t, M.Reach ok s → ok s l → M.step s l = some t → J s → Q t) {n : ℕ}
    (hn : J (e.state n))
    (possible : (∀ m, n ≤ m → J (e.state m)) →
      ∀ k, n ≤ k → ∃ m, k ≤ m ∧ ok (e.state m) l ∧ (M.step (e.state m) l).isSome = true) :
    ∃ m, n ≤ m ∧ Q (e.state m) := by
  by_contra! hnever
  have htaken : ∀ m, n ≤ m → J (e.state m) → e.label m ≠ some l := by
    intro m hm hJ hl
    obtain ⟨hok, hst⟩ := e.step_of_label hl
    exact hnever (m + 1) (by omega) (effect _ _ (e.reach m) hok hst hJ)
  have hJ : ∀ m, n ≤ m → J (e.state m) := by
    intro m hm
    induction m, hm using Nat.le_induction with
    | base => exact hn
    | succ m hm ih =>
      have hnext := e.next m
      split at hnext
      · rwa [hnext]
      · rename_i k hk
        refine keeps _ k _ (e.reach m) hnext.1 hnext.2 ?_ ih
        rintro rfl
        exact htaken m hm ih hk
  obtain ⟨m, hm, hl⟩ := hfair n (possible hJ)
  exact htaken m hm (hJ m hm) hl

/-- A step that has become impossible for good owes nothing. -/
theorem stronglyFair_of_impossible {l : Label} {n : ℕ}
    (h : ∀ m, n ≤ m → M.step (e.state m) l = none) : e.StronglyFair l := by
  intro k hpossible
  obtain ⟨m, hm, -, hsome⟩ := hpossible (max k n) (le_max_left k n)
  simp [h m ((le_max_right k n).trans hm)] at hsome

end Execution

end Machine
