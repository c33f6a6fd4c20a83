import Muduo.Library.Machine

/-!
# Tracking a specification

An implementation tracks a specification along a run when no step fails, every state is
well-formed, and every step does to the abstract value what the specification does. Where
single steps do so under an exact condition, runs do so under that condition along them.
-/

namespace Machine

variable {State Label Abstract : Type*} (M : Machine State Label) (wf : State → Prop)
  (abs : State → Abstract) (spec : Abstract → Label → Abstract)

/-- The step succeeds and does what the specification does. -/
def Does (s : State) (l : Label) : Prop :=
  ∃ t, M.step s l = some t ∧ wf t ∧ abs t = spec (abs s) l

/-- Every step of the run does what the specification does. -/
def Tracks : State → List Label → Prop
  | s, [] => wf s
  | s, l :: ls => wf s ∧ ∃ t, M.step s l = some t ∧ abs t = spec (abs s) l ∧ Tracks t ls

variable {M wf abs spec} {s : State} {ls : List Label}

theorem Tracks.wellFormed (h : M.Tracks wf abs spec s ls) : wf s := by
  cases ls with
  | nil => exact h
  | cons l ls => exact h.1

/-- Where `ok` is the exact condition for one step, as long as the environment keeps `given`,
it is the exact condition for a run. -/
theorem tracks_iff_along {given ok : State → Label → Prop}
    (step : ∀ s l, wf s → given s l → (M.Does wf abs spec s l ↔ ok s l)) (hs : wf s)
    (hgiven : M.Along given s ls) : M.Tracks wf abs spec s ls ↔ M.Along ok s ls := by
  induction ls generalizing s with
  | nil => exact ⟨fun _ => trivial, fun _ => hs⟩
  | cons l ls ih =>
    have hstep := step s l hs hgiven.1
    constructor
    · rintro ⟨-, t, ht, habs, hrest⟩
      refine ⟨hstep.mp ⟨t, ht, hrest.wellFormed, habs⟩, ?_⟩
      intro u hu
      obtain rfl := Option.some.inj (ht.symm.trans hu)
      exact (ih hrest.wellFormed (hgiven.2 t ht)).mp hrest
    · rintro ⟨hok, hrest⟩
      obtain ⟨t, ht, hwf, habs⟩ := hstep.mpr hok
      exact ⟨hs, t, ht, habs, (ih hwf (hgiven.2 t ht)).mpr (hrest t ht)⟩

end Machine
