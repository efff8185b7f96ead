import Mathlib.Data.Nat.Notation
import Mathlib.Logic.Relation

/-! # Runs of a labeled step function

The label of a step carries every choice that is not determined by the state, so the step itself is a
partial function and a run on given labels can be evaluated. `Reaches` forgets the labels and keeps a
condition on the state and the label before each step.
-/

namespace Transition

variable {State Label : Type} (step : State → Label → Option State) (allowed : State → Label → Prop)

/-- One allowed step. -/
def Next (source target : State) : Prop := ∃ label, allowed source label ∧ step source label = some target

/-- Any number of allowed steps. -/
def Reaches : State → State → Prop := Relation.ReflTransGen (Next step allowed)

/-- The labels can be followed by allowed steps, and the run ends in a state satisfying `goal`. -/
def Leads (goal : State → Prop) : State → List Label → Prop
  | source, [] => goal source
  | source, label :: rest => allowed source label ∧
      match step source label with
      | some target => Leads goal target rest
      | none => False

instance Leads.decidable [∀ state label, Decidable (allowed state label)] (goal : State → Prop)
    [DecidablePred goal] : (source : State) → (labels : List Label) →
      Decidable (Leads step allowed goal source labels)
  | source, [] => inferInstanceAs (Decidable (goal source))
  | source, label :: rest =>
    have : Decidable (match step source label with
      | some target => Leads step allowed goal target rest
      | none => False) := match step source label with
      | some target => Leads.decidable goal target rest
      | none => inferInstanceAs (Decidable False)
    inferInstanceAs (Decidable (_ ∧ _))

variable {step allowed}

theorem Reaches.refl (state : State) : Reaches step allowed state state := Relation.ReflTransGen.refl

theorem Reaches.trans {first middle last : State} (left : Reaches step allowed first middle)
    (right : Reaches step allowed middle last) : Reaches step allowed first last :=
  Relation.ReflTransGen.trans left right

/-- What holds at the start and is kept by every allowed step holds in every reachable state. -/
theorem Reaches.invariant {inv : State → Prop} {source target : State}
    (reaches : Reaches step allowed source target) (start : inv source)
    (kept : ∀ state label next, inv state → allowed state label → step state label = some next → inv next) :
    inv target := by
  induction reaches with
  | refl => exact start
  | tail _ last ih =>
    obtain ⟨label, fits, stepped⟩ := last
    exact kept _ label _ ih fits stepped

/-- A weaker condition on the steps reaches at least as much. -/
theorem Reaches.mono {other : State → Label → Prop} {source target : State}
    (reaches : Reaches step allowed source target)
    (implies : ∀ state label, allowed state label → other state label) :
    Reaches step other source target := by
  refine Relation.ReflTransGen.mono (fun first second => ?_) _ _ reaches
  rintro ⟨label, fits, stepped⟩
  exact ⟨label, implies _ _ fits, stepped⟩

/-- A followed list of labels is a run. -/
theorem Leads.exists_reaches {goal : State → Prop} {source : State} {labels : List Label}
    (leads : Leads step allowed goal source labels) :
    ∃ target, Reaches step allowed source target ∧ goal target := by
  induction labels generalizing source with
  | nil => exact ⟨source, .refl source, leads⟩
  | cons label rest ih =>
    obtain ⟨fits, leads⟩ := leads
    cases stepped : step source label with
    | none => simp only [stepped] at leads
    | some middle =>
      simp only [stepped] at leads
      obtain ⟨target, reaches, holds⟩ := ih leads
      exact ⟨target, Relation.ReflTransGen.head ⟨label, fits, stepped⟩ reaches, holds⟩

/-! ## Runs that come to an end -/

variable (step allowed) in
/-- No run of allowed steps goes on for ever from this state. -/
def Terminates (state : State) : Prop := Acc (fun next previous => Next step allowed previous next) state

theorem Terminates.stops {state : State} (terminates : Terminates step allowed state) :
    ∀ run : ℕ → State, run 0 = state → ∃ n, ¬ Next step allowed (run n) (run (n + 1)) := by
  induction terminates with
  | intro state _ ih =>
    rintro run rfl
    by_cases moves : Next step allowed (run 0) (run 1)
    · obtain ⟨n, stops⟩ := ih (run 1) moves (fun n => run (n + 1)) rfl
      exact ⟨n + 1, stops⟩
    · exact ⟨0, moves⟩

/-- Runs terminate where an invariant holds and every allowed step goes down in a well-founded order. The rank may
look at a view of the state. -/
theorem terminates_of_rank {View Rank : Type} {less : Rank → Rank → Prop} (order : WellFounded less)
    (inv : State → View → Prop) (rank : State → View → Rank)
    (falls : ∀ state view label next, inv state view → allowed state label → step state label = some next →
      ∃ later, inv next later ∧ less (rank next later) (rank state view))
    {state : State} {view : View} (holds : inv state view) : Terminates step allowed state := by
  induction ranked : rank state view using order.induction generalizing state view with
  | h _ ih =>
    refine .intro _ ?_
    rintro next ⟨label, fits, stepped⟩
    obtain ⟨later, kept, lower⟩ := falls state view label next holds fits stepped
    exact ih _ (ranked ▸ lower) kept rfl

end Transition
