import MarkitdownServer.Lib.Program

/-! # What a program ensures

A statement about a program that runs alone: how it ends, and what holds of the world before and after each of its
calls. The rules follow the way the program is put together.
-/

namespace Effects.Program

variable {Op : Type} {Reply : Op → Type} {Exc : Type} {α β World : Type}
  (answer : List (Call Op Reply Exc) → (op : Op) → World → Except Exc (Reply op) × World)

/-- The world satisfies `inv` between any two calls, and the end satisfies `post`. -/
def Ensures (inv : World → Prop) (post : Except Exc α → World → Prop) :
    Program Op Reply Exc α → List (Call Op Reply Exc) → World → Prop
  | .pure value, _, world => inv world ∧ post (.ok value) world
  | .raise error, _, world => inv world ∧ post (.error error) world
  | .call op next, calls, world =>
    inv world ∧ (next (answer calls op world).1).Ensures inv post (calls ++ [⟨op, (answer calls op world).1⟩])
      (answer calls op world).2

variable {answer} {inv : World → Prop} {post : Except Exc α → World → Prop} {mid : Except Exc β → World → Prop}
  {calls : List (Call Op Reply Exc)} {world : World}

theorem Ensures.start {program : Program Op Reply Exc α} (ensures : program.Ensures answer inv post calls world) :
    inv world := by
  cases program with
  | pure value => exact ensures.1
  | raise error => exact ensures.1
  | call op next => exact ensures.1

/-- The world satisfies the invariant after any number of calls. -/
theorem Ensures.steps {program : Program Op Reply Exc α} (ensures : program.Ensures answer inv post calls world)
    (count : ℕ) : inv (program.steps answer count calls world).2.2 := by
  induction count generalizing program calls world with
  | zero => exact ensures.start
  | succ count ih =>
    cases program with
    | pure value => exact ensures.1
    | raise error => exact ensures.1
    | call op next => exact ih ensures.2

/-- The program ends as it should. -/
theorem Ensures.eval {program : Program Op Reply Exc α} (ensures : program.Ensures answer inv post calls world) :
    post (program.eval answer calls world).1 (program.eval answer calls world).2.2 := by
  induction program generalizing calls world with
  | pure value => exact ensures.2
  | raise error => exact ensures.2
  | call op next ih => exact ih _ ensures.2

theorem Ensures.bind {program : Program Op Reply Exc β} {next : β → Program Op Reply Exc α}
    (first : program.Ensures answer inv mid calls world)
    (ok : ∀ value seen after, inv after → mid (.ok value) after → (next value).Ensures answer inv post seen after)
    (error : ∀ error after, mid (.error error) after → post (.error error) after) :
    (program.bind next).Ensures answer inv post calls world := by
  induction program generalizing calls world with
  | pure value => exact ok value calls world first.1 first.2
  | raise raised => exact ⟨first.1, error raised world first.2⟩
  | call op rest ih => exact ⟨first.1, ih _ first.2⟩

/-- A `try`: what follows is entered with the value or with the exception. -/
theorem Ensures.attempt_bind {program : Program Op Reply Exc β} {next : Except Exc β → Program Op Reply Exc α}
    (first : program.Ensures answer inv mid calls world)
    (rest : ∀ result seen after, inv after → mid result after → (next result).Ensures answer inv post seen after) :
    (program.attempt.bind next).Ensures answer inv post calls world := by
  induction program generalizing calls world with
  | pure value => exact rest (.ok value) calls world first.1 first.2
  | raise error => exact rest (.error error) calls world first.1 first.2
  | call op more ih => exact ⟨first.1, ih _ first.2⟩

/-- A call that is answered. -/
theorem Ensures.perform_bind {op : Op} {next : Reply op → Program Op Reply Exc α} {value : Reply op} {after : World}
    (answered : answer calls op world = (.ok value, after)) (start : inv world)
    (rest : (next value).Ensures answer inv post (calls ++ [⟨op, .ok value⟩]) after) :
    ((perform op).bind next).Ensures answer inv post calls world := by
  refine ⟨start, ?_⟩
  rw [answered]
  exact rest

/-- A call that raises ends the program. -/
theorem Ensures.perform_bind_error {op : Op} {next : Reply op → Program Op Reply Exc α} {error : Exc} {after : World}
    (raised : answer calls op world = (.error error, after)) (start : inv world) (finish : inv after)
    (ends : post (.error error) after) : ((perform op).bind next).Ensures answer inv post calls world := by
  refine ⟨start, ?_⟩
  rw [raised]
  exact ⟨finish, ends⟩

end Effects.Program
