import Mathlib.Data.List.Infix

/-!
# Logs

A log grows at its end. `EveryTime x P` says that each occurrence of `x` in a log comes
after a history that meets `P`, and `sinceLast x` is what the log says since the last
occurrence of `x`. Both are followed here through what a step appends.
-/

namespace Log

variable {α : Type*} {x y : α} {P : List α → Prop} {log es fs : List α}

/-! ## What came before each occurrence -/

/-- Each `x` in the log comes after a history that meets `P`. -/
def EveryTime (x : α) (P : List α → Prop) (log : List α) : Prop :=
  ∀ pre post, log = pre ++ x :: post → P pre

theorem everyTime_nil : EveryTime x P [] := by
  intro pre post h
  simp at h

theorem EveryTime.concat (h : EveryTime x P log) (hy : y = x → P log) :
    EveryTime x P (log ++ [y]) := by
  intro pre post he
  rcases List.eq_nil_or_concat post with rfl | ⟨post, z, rfl⟩
  · obtain ⟨rfl, hx⟩ := List.append_inj' he rfl
    exact hy (List.singleton_inj.mp hx)
  · rw [List.concat_eq_append, ← List.cons_append, ← List.append_assoc] at he
    exact h pre post (List.append_inj' he rfl).1

theorem EveryTime.append (h : EveryTime x P log) (hx : x ∉ es) : EveryTime x P (log ++ es) := by
  induction es generalizing log with
  | nil => simpa using h
  | cons e es ih =>
    rw [List.append_cons]
    have hne : e ≠ x := fun he => hx (he ▸ List.mem_cons_self)
    exact ih (h.concat fun he => absurd he hne) fun hm => hx (List.mem_cons_of_mem e hm)

/-- One more occurrence. -/
theorem EveryTime.append_once (h : EveryTime x P log) (hes : x ∉ es) (hfs : x ∉ fs)
    (hP : P (log ++ es)) : EveryTime x P (log ++ (es ++ x :: fs)) := by
  rw [← List.append_assoc, List.append_cons]
  exact ((h.append hes).concat fun _ => hP).append hfs

/-! ## What came after the last occurrence -/

variable [DecidableEq α]

/-- What follows the last `x`, newest first; the whole log if there is none. -/
def sinceLast (x : α) (log : List α) : List α := log.reverse.takeWhile (· ≠ x)

theorem mem_sinceLast_append (hx : x ∉ es) :
    y ∈ sinceLast x (log ++ es) ↔ y ∈ sinceLast x log ∨ y ∈ es := by
  have hall : ∀ a ∈ es.reverse, decide (a ≠ x) = true := by
    intro a ha
    simp only [decide_eq_true_eq]
    rintro rfl
    exact hx (List.mem_reverse.mp ha)
  rw [sinceLast, List.reverse_append, List.takeWhile_append_of_pos hall, ← sinceLast]
  simp [or_comm]

@[simp] theorem sinceLast_concat_self : sinceLast x (log ++ [x]) = [] := by
  simp [sinceLast]

theorem mem_sinceLast_append_once (hfs : x ∉ fs) :
    y ∈ sinceLast x (log ++ (es ++ x :: fs)) ↔ y ∈ fs := by
  rw [← List.append_assoc, List.append_cons, mem_sinceLast_append hfs, sinceLast_concat_self]
  simp

/-- Nothing from before an `x` is left. -/
theorem mem_of_mem_sinceLast (hy : y ∈ sinceLast x (log ++ x :: es)) : y ∈ es := by
  induction es using List.reverseRecOn with
  | nil => simp at hy
  | append_singleton es e ih =>
    rw [← List.cons_append, ← List.append_assoc] at hy
    by_cases he : e = x
    · subst he
      rw [sinceLast_concat_self] at hy
      contradiction
    · have hne : x ∉ [e] := by simpa using Ne.symm he
      rcases (mem_sinceLast_append hne).mp hy with hy | hy
      · exact List.mem_append_left _ (ih hy)
      · exact List.mem_append_right _ hy

end Log
