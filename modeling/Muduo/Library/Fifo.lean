import Muduo.Library.Machine

/-!
# First-in first-out queues with their history

A queue is kept together with everything that ever entered and left it. The field
`balanced` is the law of such a queue: what left, followed by what waits, is what
entered, in order. A component shown to move its data as a `Fifo` does therefore
loses, duplicates and reorders nothing.
-/

/-- A queue, its past arrivals and its past departures. -/
structure Fifo (α : Type*) where
  entered : List α
  left : List α
  waiting : List α
  balanced : left ++ waiting = entered

namespace Fifo

variable {α : Type*}

def empty : Fifo α := ⟨[], [], [], rfl⟩

/-- `xs` arrive in order. -/
def enter (q : Fifo α) (xs : List α) : Fifo α where
  entered := q.entered ++ xs
  left := q.left
  waiting := q.waiting ++ xs
  balanced := by rw [← List.append_assoc, q.balanced]

/-- The first `n` waiting elements depart, or all of them when there are fewer. -/
def leave (q : Fifo α) (n : Nat) : Fifo α where
  entered := q.entered
  left := q.left ++ q.waiting.take n
  waiting := q.waiting.drop n
  balanced := by rw [List.append_assoc, List.take_append_drop, q.balanced]

@[simp] theorem waiting_empty : (empty : Fifo α).waiting = [] := rfl
@[simp] theorem left_empty : (empty : Fifo α).left = [] := rfl
@[simp] theorem entered_empty : (empty : Fifo α).entered = [] := rfl
@[simp] theorem waiting_enter (q : Fifo α) (xs : List α) :
    (q.enter xs).waiting = q.waiting ++ xs := rfl
@[simp] theorem left_enter (q : Fifo α) (xs : List α) : (q.enter xs).left = q.left := rfl
@[simp] theorem entered_enter (q : Fifo α) (xs : List α) :
    (q.enter xs).entered = q.entered ++ xs := rfl
@[simp] theorem waiting_leave (q : Fifo α) (n : Nat) :
    (q.leave n).waiting = q.waiting.drop n := rfl
@[simp] theorem left_leave (q : Fifo α) (n : Nat) :
    (q.leave n).left = q.left ++ q.waiting.take n := rfl
@[simp] theorem entered_leave (q : Fifo α) (n : Nat) : (q.leave n).entered = q.entered := rfl

inductive Move (α : Type*) where
  | enter (xs : List α)
  | leave (n : Nat)

/-- The queue as a machine: it starts empty and every move is enabled. -/
def machine (α : Type*) : Machine (Fifo α) (Move α) where
  init q := q = empty
  step q m := some <| match m with
    | .enter xs => q.enter xs
    | .leave n => q.leave n

@[simp] theorem run_nil (q : Fifo α) : (machine α).run q [] = some q := rfl
@[simp] theorem run_enter (q : Fifo α) (xs : List α) :
    (machine α).run q [.enter xs] = some (q.enter xs) := rfl
@[simp] theorem run_leave (q : Fifo α) (n : Nat) :
    (machine α).run q [.leave n] = some (q.leave n) := rfl

end Fifo
