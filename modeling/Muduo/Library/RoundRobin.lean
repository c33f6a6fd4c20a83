import Muduo.Library.Machine
import Mathlib.Data.List.Basic
import Mathlib.Tactic.Ring

/-!
# Round robin with a growing window

A queue is served a window at a time: what fits is served and goes back to the tail, so
an element that was missed moves forward by the whole window. Where the window doubles
every time it was full, an element that keeps being missed is reached after a number of
turns that is logarithmic in its place.
-/

namespace RoundRobin

variable {α : Type*}

/-- The first `n` elements are served and wait again at the tail. -/
def serve (q : List α) (n : ℕ) : List α := q.drop n ++ q.take n

/-- An element waits at the tail unless it waits already. -/
def enqueue [DecidableEq α] (q : List α) (x : α) : List α := if x ∈ q then q else q ++ [x]

variable {q : List α} {n : ℕ} {x y : α}

theorem perm_serve : (serve q n).Perm q := by
  unfold serve
  exact List.perm_append_comm.trans (by rw [List.take_append_drop])

theorem mem_serve : x ∈ serve q n ↔ x ∈ q := perm_serve.mem_iff

theorem nodup_serve : (serve q n).Nodup ↔ q.Nodup := perm_serve.nodup_iff

variable [DecidableEq α]

theorem mem_enqueue : y ∈ enqueue q x ↔ y ∈ q ∨ y = x := by
  unfold enqueue
  split <;> grind

theorem nodup_enqueue (h : q.Nodup) : (enqueue q x).Nodup := by
  unfold enqueue
  split
  · exact h
  · simp only [List.nodup_append, List.nodup_cons, List.not_mem_nil]
    grind

/-- A new arrival does not overtake. -/
theorem idxOf_enqueue (h : x ∈ q) : (enqueue q y).idxOf x = q.idxOf x := by
  unfold enqueue
  split
  · rfl
  · exact List.idxOf_append_of_mem h

/-- A departure only moves the others forward. -/
theorem idxOf_erase_le (h : y ≠ x) : (q.erase y).idxOf x ≤ q.idxOf x := by
  induction q with
  | nil => simp
  | cons z q ih =>
    simp only [List.erase_cons, List.idxOf_cons]
    split_ifs with hz
    · have hzx : (z == x) = false := by simpa [beq_iff_eq.mp hz] using h
      simp [hzx]
    · rw [List.idxOf_cons]
      cases z == x <;> simp [ih]

/-- A missed element was behind the window, and moves forward by all of it. -/
theorem idxOf_serve (h : x ∈ q) (hmiss : x ∉ q.take n) :
    (serve q n).idxOf x + n = q.idxOf x := by
  have hdrop : x ∈ q.drop n := by
    rw [← List.take_append_drop n q, List.mem_append] at h
    exact h.resolve_left hmiss
  have hn : n ≤ q.length := by
    by_contra hlt
    rw [List.drop_eq_nil_of_le (by omega)] at hdrop
    simp at hdrop
  have hq : q.idxOf x = (q.take n ++ q.drop n).idxOf x := by rw [List.take_append_drop]
  rw [hq, List.idxOf_append_of_notMem hmiss, List.length_take, min_eq_left hn, serve,
    List.idxOf_append_of_mem hdrop, Nat.add_comm]

/-- The window was full when something was missed. -/
theorem length_take_of_missed (h : x ∈ q) (hmiss : x ∉ q.take n) : (q.take n).length = n := by
  have hidx := idxOf_serve h hmiss
  have hlt := List.idxOf_lt_length_of_mem h
  simp only [List.length_take]
  omega

end RoundRobin

namespace Machine

variable {State Label : Type*} {M : Machine State Label} {ok : State → Label → Prop}

/-- Where every turn moves an element forward by the window and doubles the window, and
nothing else moves it back, the turns that miss it are few. -/
theorem doubling_window (J : State → Prop) (turn : Label → Bool) (place window : State → ℕ)
    (keeps : ∀ s l t, J s → ok s l → M.step s l = some t → J t)
    (turns : ∀ s l t, J s → ok s l → M.step s l = some t → turn l = true →
      place t + window s = place s ∧ window t = 2 * window s)
    (others : ∀ s l t, J s → ok s l → M.step s l = some t → turn l = false →
      place t ≤ place s ∧ window t = window s)
    {s t : State} {ls : List Label} (hs : J s) (along : M.Along ok s ls)
    (hrun : M.run s ls = some t) :
    window s * 2 ^ ls.countP turn ≤ place s + window s := by
  suffices h : window t = window s * 2 ^ ls.countP turn ∧
      place t + window t ≤ place s + window s by
    rw [← h.1]
    omega
  induction ls generalizing s with
  | nil =>
    obtain rfl := Option.some.inj hrun
    simp
  | cons l ls ih =>
    obtain ⟨u, hu, hrest⟩ := Option.bind_eq_some_iff.mp hrun
    obtain ⟨hw, hp⟩ := ih (keeps s l u hs along.1 hu) (along.2 u hu) hrest
    rw [List.countP_cons]
    cases hl : turn l with
    | true =>
      obtain ⟨hplace, hwindow⟩ := turns s l u hs along.1 hu hl
      refine ⟨?_, by omega⟩
      rw [hw, hwindow, if_pos rfl, pow_succ]
      ring
    | false =>
      obtain ⟨hplace, hwindow⟩ := others s l u hs along.1 hu hl
      refine ⟨?_, by omega⟩
      simp [hw, hwindow]

end Machine
