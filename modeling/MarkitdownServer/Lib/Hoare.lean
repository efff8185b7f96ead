import MarkitdownServer.Lib.Outcome

/-! # Preconditions and postconditions

Hoare triples for programs that run against a stateful service. The postcondition sees how the program has ended, so
one rule covers the value that goes on and the exception that propagates, and an invariant holds between any two calls.
The calls made before are arbitrary: a triple holds at every place of a larger program.
-/

namespace Effects.Program

variable {Op : Type} {Reply : Op → Type} {Exc : Type} {α β World : Type}
  (answer : List (Call Op Reply Exc) → (op : Op) → World → Except Exc (Reply op) × World)

/-- Run from a world that satisfies `pre`, the program keeps the invariant and ends with a result and a world that
satisfy `post`. -/
def Triple (inv pre : World → Prop) (program : Program Op Reply Exc α) (post : Except Exc α → World → Prop) : Prop :=
  ∀ calls world, pre world → program.Ensures answer inv post calls world

variable {answer} {inv pre : World → Prop} {post : Except Exc α → World → Prop} {mid : Except Exc β → World → Prop}

theorem Ensures.weaken {weaker : Except Exc α → World → Prop} {program : Program Op Reply Exc α}
    {calls : List (Call Op Reply Exc)} {world : World} (ensures : program.Ensures answer inv post calls world)
    (implies : ∀ result world, post result world → weaker result world) :
    program.Ensures answer inv weaker calls world := by
  induction program generalizing calls world with
  | pure value => exact ⟨ensures.1, implies _ _ ensures.2⟩
  | raise error => exact ⟨ensures.1, implies _ _ ensures.2⟩
  | call op next ih => exact ⟨ensures.1, ih _ ensures.2⟩

/-- The invariant holds at the end. -/
theorem Ensures.finish {program : Program Op Reply Exc α} {calls : List (Call Op Reply Exc)} {world : World}
    (ensures : program.Ensures answer inv post calls world) : inv (program.eval answer calls world).2.2 := by
  induction program generalizing calls world with
  | pure value => exact ensures.1
  | raise error => exact ensures.1
  | call op next ih => exact ih _ ensures.2

/-- How a program ends, without an invariant. -/
theorem Ensures.of_eval {program : Program Op Reply Exc α} {calls : List (Call Op Reply Exc)} {world : World}
    (ends : post (program.eval answer calls world).1 (program.eval answer calls world).2.2) :
    program.Ensures answer (fun _ => True) post calls world := by
  induction program generalizing calls world with
  | pure value => exact ⟨trivial, ends⟩
  | raise error => exact ⟨trivial, ends⟩
  | call op next ih => exact ⟨trivial, ih _ ends⟩

namespace Triple

theorem pure {value : α} (within : ∀ world, pre world → inv world)
    (holds : ∀ world, pre world → post (.ok value) world) : Triple answer inv pre (.pure value) post :=
  fun _ world start => ⟨within world start, holds world start⟩

theorem raise {error : Exc} (within : ∀ world, pre world → inv world)
    (holds : ∀ world, pre world → post (.error error) world) : Triple answer inv pre (.raise error) post :=
  fun _ world start => ⟨within world start, holds world start⟩

/-- A stronger precondition. -/
theorem strengthen {stronger : World → Prop} {program : Program Op Reply Exc α}
    (triple : Triple answer inv pre program post) (before : ∀ world, stronger world → pre world) :
    Triple answer inv stronger program post :=
  fun calls world start => triple calls world (before world start)

/-- A weaker postcondition. -/
theorem weaken {weaker : Except Exc α → World → Prop} {program : Program Op Reply Exc α}
    (triple : Triple answer inv pre program post) (implies : ∀ result world, post result world → weaker result world) :
    Triple answer inv pre program weaker :=
  fun calls world start => (triple calls world start).weaken implies

/-- Sequencing; an exception of the first part is one of the whole. -/
theorem bind {program : Program Op Reply Exc β} {next : β → Program Op Reply Exc α}
    (first : Triple answer inv pre program mid) (ok : ∀ value, Triple answer inv (mid (.ok value)) (next value) post)
    (error : ∀ error world, mid (.error error) world → post (.error error) world) :
    Triple answer inv pre (program.bind next) post := by
  intro calls world start
  apply Ensures.bind (first calls world start)
  · exact fun value seen after _ middle => ok value seen after middle
  · exact error

/-- A `try` and what follows it, entered with the value or with the exception. -/
theorem attempt_bind {program : Program Op Reply Exc β} {next : Except Exc β → Program Op Reply Exc α}
    (first : Triple answer inv pre program mid) (rest : ∀ result, Triple answer inv (mid result) (next result) post) :
    Triple answer inv pre (program.attempt.bind next) post := by
  intro calls world start
  apply Ensures.attempt_bind (first calls world start)
  exact fun result seen after _ middle => rest result seen after middle

/-- One call. -/
theorem perform {op : Op} {post : Except Exc (Reply op) → World → Prop} (within : ∀ world, pre world → inv world)
    (answers : ∀ calls world, pre world →
      inv (answer calls op world).2 ∧ post (answer calls op world).1 (answer calls op world).2) :
    Triple answer inv pre (perform op) post := by
  intro calls world start
  refine ⟨within world start, ?_⟩
  have answered := answers calls world start
  generalize answer calls op world = ran at answered
  obtain ⟨result, after⟩ := ran
  cases result with
  | ok value => exact answered
  | error error => exact answered

end Triple

/-- A program whose calls all keep an assertion keeps it. -/
theorem Makes.triple {kind : Op → Prop} {program : Program Op Reply Exc α} (makes : program.Makes kind)
    (keeps : ∀ calls op world, kind op → inv world → inv (answer calls op world).2) :
    Triple answer inv inv program fun _ => inv := by
  intro calls world start
  induction program generalizing calls world with
  | pure value => exact ⟨start, start⟩
  | raise error => exact ⟨start, start⟩
  | call op next ih => exact ⟨start, ih _ (makes.2 _) _ _ (keeps calls op world makes.1 start)⟩

end Effects.Program
