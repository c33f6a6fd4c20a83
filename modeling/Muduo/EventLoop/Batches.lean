import Mathlib.Data.List.Basic

/-!
# Functors as objects

`doPendingFunctors` swaps the queue into a local vector, calls its functors one after the
other and destroys them all together at its end. So what a functor owns it owns until the
whole batch has been called.
-/

namespace Muduo

/-- `pendingFunctors_` and the local vector `functors` of `doPendingFunctors`, in three
parts: called, being called, and not called yet. -/
structure LoopFunctors (F : Type*) where
  pendingFunctors_ : List F := []
  called : List F := []
  running : Option F := none
  functors : List F := []

namespace LoopFunctors

variable {F : Type*}

section

variable (q : LoopFunctors F)

/-- `pendingFunctors_.emplace_back(f)` -/
def push (f : F) : LoopFunctors F := { q with pendingFunctors_ := q.pendingFunctors_ ++ [f] }

/-- `functors.swap(pendingFunctors_)`, where `functors` is a fresh vector. -/
def swap : LoopFunctors F := { functors := q.pendingFunctors_ }

/-- The next functor of the batch is entered. -/
def call : Option (F × LoopFunctors F) :=
  match q.running, q.functors with
  | none, f :: fs => some (f, { q with running := some f, functors := fs })
  | _, _ => none

/-- The running functor returns. -/
def finish : LoopFunctors F := { q with running := none, called := q.called ++ q.running.toList }

/-- The vector is destroyed. -/
def release : LoopFunctors F := { q with called := [] }

/-- All functors of the batch have returned. -/
def through : Prop := q.running = none ∧ q.functors = []

instance : Decidable q.through := inferInstanceAs (Decidable (_ ∧ _))

/-- The vector of the batch. -/
def batch : List F := q.called ++ (q.running.toList ++ q.functors)

/-- The functors that have not been called yet, oldest first. -/
def waiting : List F := q.functors ++ q.pendingFunctors_

/-- The functors that have not returned yet. -/
def ahead : List F := q.running.toList ++ q.waiting

/-- The functors that exist. -/
def objects : List F := q.batch ++ q.pendingFunctors_

end

variable {q q' : LoopFunctors F} {f g : F}

theorem call_eq_some (h : q.call = some (f, q')) :
    q.running = none ∧ q.functors = f :: q'.functors ∧
      q' = { q with running := some f, functors := q'.functors } := by
  unfold call at h
  split at h
  · simp only [Option.some.injEq, Prod.mk.injEq] at h
    obtain ⟨rfl, rfl⟩ := h
    exact ⟨‹_›, ‹_›, rfl⟩
  · contradiction

theorem waiting_call (h : q.call = some (f, q')) : q.waiting = f :: q'.waiting := by
  obtain ⟨-, hf, hq⟩ := call_eq_some h
  have hp : q'.pendingFunctors_ = q.pendingFunctors_ := by rw [hq]
  rw [waiting, waiting, hf, hp]
  rfl

theorem batch_call (h : q.call = some (f, q')) : q'.batch = q.batch := by
  obtain ⟨hr, hf, hq⟩ := call_eq_some h
  rw [hq, batch, batch, hr, hf]
  rfl

@[simp] theorem waiting_push (q : LoopFunctors F) (f : F) :
    (q.push f).waiting = q.waiting ++ [f] := by
  simp [waiting, push]

@[simp] theorem ahead_push (q : LoopFunctors F) (f : F) : (q.push f).ahead = q.ahead ++ [f] := by
  simp [ahead, push, waiting]

@[simp] theorem batch_finish (q : LoopFunctors F) : q.finish.batch = q.batch := by
  simp [batch, finish]

@[simp] theorem ahead_swap (q : LoopFunctors F) : q.swap.ahead = q.pendingFunctors_ := by
  simp [ahead, swap, waiting]

theorem mem_objects_of_mem_ahead (h : f ∈ q.ahead) : f ∈ q.objects := by
  simp only [ahead, waiting, objects, batch, List.mem_append] at h ⊢
  tauto

theorem mem_objects_of_mem_waiting (h : f ∈ q.waiting) : f ∈ q.objects :=
  mem_objects_of_mem_ahead (List.mem_append_right _ h)

/-! ## Owners that last -/

/-- Every functor that does not own is called before some owning functor is destroyed. -/
structure Outlived (q : LoopFunctors F) (owns : F → Bool) : Prop where
  pending : ∀ f ∈ q.pendingFunctors_, owns f = false →
    ∃ g ∈ q.pendingFunctors_, owns g = true
  batch : ∀ f ∈ q.running.toList ++ q.functors, owns f = false →
    ∃ g ∈ q.objects, owns g = true

namespace Outlived

variable {owns : F → Bool}

instance : Decidable (q.Outlived owns) :=
  decidable_of_iff (_ ∧ _) ⟨fun h => ⟨h.1, h.2⟩, fun h => ⟨h.pending, h.batch⟩⟩

/-- The newest functor lasts longest. -/
theorem push (hg : owns g = true) : (q.push g).Outlived owns where
  pending := fun _ _ _ => ⟨g, by simp [LoopFunctors.push], hg⟩
  batch := fun _ _ _ => ⟨g, by simp [LoopFunctors.push, objects], hg⟩

theorem foldl_push (h : q.Outlived owns) {fs : List F} (hfs : ∀ f ∈ fs, owns f = true) :
    (fs.foldl LoopFunctors.push q).Outlived owns := by
  induction fs generalizing q with
  | nil => exact h
  | cons f fs ih =>
    have hf : owns f = true := hfs f List.mem_cons_self
    exact ih (.push hf) fun g hg => hfs g (List.mem_cons_of_mem f hg)

theorem swap (h : q.Outlived owns) : q.swap.Outlived owns where
  pending := by simp [LoopFunctors.swap]
  batch := by
    intro f hf ho
    obtain ⟨g, hg, hog⟩ := h.pending f (by simpa [LoopFunctors.swap] using hf) ho
    exact ⟨g, by simpa [LoopFunctors.swap, objects, LoopFunctors.batch] using hg, hog⟩

theorem call (h : q.Outlived owns) (hq : q.call = some (f, q')) : q'.Outlived owns := by
  obtain ⟨hr, hf, he⟩ := call_eq_some hq
  have hb := batch_call hq
  constructor
  · rw [he]
    exact h.pending
  · intro g hg ho
    have hmem : g ∈ q.running.toList ++ q.functors := by
      rw [he] at hg
      simpa [hr, hf] using hg
    rw [objects, hb, he]
    exact h.batch g hmem ho

theorem finish (h : q.Outlived owns) : q.finish.Outlived owns where
  pending := h.pending
  batch := by
    intro f hf ho
    rw [objects, batch_finish]
    exact h.batch f (List.mem_append_right _ (by simpa [LoopFunctors.finish] using hf)) ho

theorem release (h : q.Outlived owns) (ht : q.through) : q.release.Outlived owns where
  pending := h.pending
  batch := by simp [LoopFunctors.release, ht.1, ht.2]

theorem exists_owner (h : q.Outlived owns) (hf : f ∈ q.ahead) (ho : owns f = false) :
    ∃ g ∈ q.objects, owns g = true := by
  rw [ahead, waiting, ← List.append_assoc] at hf
  rcases List.mem_append.mp hf with hf | hf
  · exact h.batch f hf ho
  · obtain ⟨g, hg, hog⟩ := h.pending f hf ho
    exact ⟨g, List.mem_append_right _ hg, hog⟩

end Outlived

end LoopFunctors

end Muduo
