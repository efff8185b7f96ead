import MarkitdownServer.Lib.Program

/-! # Programs that share their services

A program whose services are used by others too meets, at each of its calls, a world that the others have
moved on. They are trusted to keep an invariant and to let the world grow along a preorder. `Withstands` says
that on this trust the program keeps both itself and ends as it should; the rules follow the way the program is
put together.
-/

namespace Effects

/-- The answer to the call was an exception. -/
def Call.raised {Op : Type} {Reply : Op → Type} {Exc : Type} (call : Call Op Reply Exc) : Prop :=
  ∃ error, call.reply = .error error

namespace Program

variable {Op : Type} {Reply : Op → Type} {Exc : Type} {α β World : Type}

/-- What a program that is over has come to. -/
def outcome : Program Op Reply Exc α → Option (Except Exc α)
  | .pure value => some (.ok value)
  | .raise error => some (.error error)
  | .call _ _ => none

variable (serves : World → (op : Op) → Except Exc (Reply op) → World → Prop) (inv : World → Prop)
  (grows : World → World → Prop)

/-- Whatever the others do in between, the calls of the program keep the invariant and let the world grow, and
`post` holds of its result whenever it is looked at. -/
def Withstands (post : Except Exc α → List (Call Op Reply Exc) → World → Prop) :
    Program Op Reply Exc α → List (Call Op Reply Exc) → World → Prop
  | .pure value, calls, world => ∀ later, inv later → grows world later → post (.ok value) calls later
  | .raise error, calls, world => ∀ later, inv later → grows world later → post (.error error) calls later
  | .call op next, calls, world => ∀ later, inv later → grows world later → ∀ reply after,
      serves later op reply after →
        inv after ∧ grows later after ∧ (next reply).Withstands post (calls ++ [⟨op, reply⟩]) after

/-- A promise about the value that a program returns; and if it ends with the exception `verdict`, one of its calls
has raised. -/
def Excused (verdict : Exc) (holds : α → List (Call Op Reply Exc) → World → Prop) :
    Except Exc α → List (Call Op Reply Exc) → World → Prop
  | .ok value, calls, world => holds value calls world
  | .error error, calls, _ => error = verdict → ∃ call ∈ calls, call.raised

/-- A promise about the value that a program returns, if it returns. -/
def OnOk (holds : α → List (Call Op Reply Exc) → World → Prop) :
    Except Exc α → List (Call Op Reply Exc) → World → Prop
  | .ok value, calls, world => holds value calls world
  | .error _, _, _ => True

variable {serves inv grows} {post weaker : Except Exc α → List (Call Op Reply Exc) → World → Prop}
  {mid : Except Exc β → List (Call Op Reply Exc) → World → Prop} {calls : List (Call Op Reply Exc)} {world : World}

/-- The result of a program that is over. -/
theorem Withstands.of_outcome {program : Program Op Reply Exc α} {result : Except Exc α}
    (withstands : program.Withstands serves inv grows post calls world) (ended : program.outcome = some result)
    {later : World} (kept : inv later) (grown : grows world later) : post result calls later := by
  cases program with
  | pure value =>
    cases ended
    exact withstands later kept grown
  | raise error =>
    cases ended
    exact withstands later kept grown
  | call op next => cases ended

theorem Withstands.weaken {program : Program Op Reply Exc α}
    (withstands : program.Withstands serves inv grows post calls world)
    (implies : ∀ result calls world, inv world → post result calls world → weaker result calls world) :
    program.Withstands serves inv grows weaker calls world := by
  induction program generalizing calls world with
  | pure value => exact fun later kept grown => implies _ _ _ kept (withstands later kept grown)
  | raise error => exact fun later kept grown => implies _ _ _ kept (withstands later kept grown)
  | call op next ih =>
    intro later kept grown reply after served
    obtain ⟨keeps, growth, rest⟩ := withstands later kept grown reply after served
    exact ⟨keeps, growth, ih reply rest⟩

/-- What the others do in the meantime takes nothing away. -/
theorem Withstands.later {program : Program Op Reply Exc α}
    (withstands : program.Withstands serves inv grows post calls world)
    (trans : ∀ {first second third}, grows first second → grows second third → grows first third)
    {after : World} (grown : grows world after) : program.Withstands serves inv grows post calls after := by
  cases program with
  | pure value => exact fun final kept more => withstands final kept (trans grown more)
  | raise error => exact fun final kept more => withstands final kept (trans grown more)
  | call op next => exact fun final kept more => withstands final kept (trans grown more)

/-- The calls made before and what there was in the world are still there at the end. -/
theorem Withstands.framed {program : Program Op Reply Exc α}
    (withstands : program.Withstands serves inv grows post calls world)
    (trans : ∀ {first second third}, grows first second → grows second third → grows first third) :
    program.Withstands serves inv grows
      (fun result final later => post result final later ∧ calls <+: final ∧ grows world later) calls world := by
  induction program generalizing calls world with
  | pure value => exact fun later kept grown => ⟨withstands later kept grown, List.prefix_rfl, grown⟩
  | raise error => exact fun later kept grown => ⟨withstands later kept grown, List.prefix_rfl, grown⟩
  | call op next ih =>
    intro later kept grown reply after served
    obtain ⟨keeps, growth, rest⟩ := withstands later kept grown reply after served
    refine ⟨keeps, growth, (ih reply rest).weaken ?_⟩
    rintro result final last _ ⟨holds, more, further⟩
    exact ⟨holds, (List.prefix_append calls _).trans more, trans grown (trans growth further)⟩

/-- A program that goes through the phases of a machine makes calls of the machine only. -/
theorem Tracks.makes {Phase : Type} {machine : Machine Op Reply Exc Phase} {kind : Op → Prop}
    {ends : Except Exc α → Phase → Prop} {program : Program Op Reply Exc α} {phase : Phase} (holds : Phase → Prop)
    (tracks : program.Tracks machine ends phase) (start : holds phase)
    (fits : ∀ phase op onward, holds phase → machine phase = some ⟨op, onward⟩ →
      kind op ∧ ∀ reply, holds (onward reply)) : program.Makes kind := by
  induction program generalizing phase with
  | pure value => trivial
  | raise error => trivial
  | call op next ih =>
    obtain ⟨onward, moves, rest⟩ := tracks
    obtain ⟨fit, kept⟩ := fits phase op onward start moves
    exact ⟨fit, fun reply => ih reply (rest reply) (kept reply)⟩

theorem Makes.weaken {kind other : Op → Prop} {program : Program Op Reply Exc α} (makes : program.Makes kind)
    (implies : ∀ op, kind op → other op) : program.Makes other := by
  induction program with
  | pure value => trivial
  | raise error => trivial
  | call op next ih => exact ⟨implies op makes.1, fun reply => ih reply (makes.2 reply)⟩

/-- A program withstands the others if each of its calls keeps the invariant and lets the world grow. -/
theorem Makes.withstands {kind : Op → Prop} {program : Program Op Reply Exc α} (makes : program.Makes kind)
    (keeps : ∀ world op reply after, kind op → inv world → serves world op reply after →
      inv after ∧ grows world after) :
    program.Withstands serves inv grows (fun _ _ _ => True) calls world := by
  induction program generalizing calls world with
  | pure value => exact fun _ _ _ => trivial
  | raise error => exact fun _ _ _ => trivial
  | call op next ih =>
    intro later kept _ reply after served
    obtain ⟨holds, growth⟩ := keeps later op reply after makes.1 kept served
    exact ⟨holds, growth, ih reply (makes.2 reply)⟩

/-- A program that goes through the phases of a machine withstands the others if what holds of a phase survives what
they do, and every move leads from what holds of one phase to what holds of the next. -/
theorem Tracks.withstands {Phase : Type} {machine : Machine Op Reply Exc Phase} {ends : Except Exc α → Phase → Prop}
    {program : Program Op Reply Exc α} {phase : Phase} (holds : Phase → World → Prop)
    (tracks : program.Tracks machine ends phase) (start : holds phase world)
    (later : ∀ {phase world after}, holds phase world → grows world after → holds phase after)
    (moves : ∀ phase op onward world reply after, holds phase world → inv world → machine phase = some ⟨op, onward⟩ →
      serves world op reply after → inv after ∧ grows world after ∧ holds (onward reply) after) :
    program.Withstands serves inv grows (fun _ _ _ => True) calls world := by
  induction program generalizing phase calls world with
  | pure value => exact fun _ _ _ => trivial
  | raise error => exact fun _ _ _ => trivial
  | call op next ih =>
    obtain ⟨onward, moved, rest⟩ := tracks
    intro met kept grown reply after served
    obtain ⟨keeps, growth, arrives⟩ := moves phase op onward met reply after (later start grown) kept moved served
    exact ⟨keeps, growth, ih reply (rest reply) arrives⟩

/-- One call and what follows it. -/
theorem Withstands.perform_bind {op : Op} {next : Reply op → Program Op Reply Exc α}
    (keeps : ∀ later reply after, inv later → grows world later → serves later op reply after →
      inv after ∧ grows later after)
    (ok : ∀ later value after, inv later → inv after → grows world later → serves later op (.ok value) after →
      (next value).Withstands serves inv grows post (calls ++ [⟨op, .ok value⟩]) after)
    (error : ∀ later error after, inv after → grows world later → serves later op (.error error) after →
      ∀ final, inv final → grows after final → post (.error error) (calls ++ [⟨op, .error error⟩]) final) :
    ((perform op).bind next).Withstands serves inv grows post calls world := by
  intro later kept grown reply after served
  obtain ⟨holds, growth⟩ := keeps later reply after kept grown served
  refine ⟨holds, growth, ?_⟩
  cases reply with
  | ok value => exact ok later value after kept holds grown served
  | error raised => exact error later raised after holds grown served

section Rules

variable (refl : ∀ world : World, grows world world)

include refl

/-- It is enough to look at the world as it is when the program moves. -/
theorem Withstands.of_later {program : Program Op Reply Exc α}
    (withstands : ∀ later, inv later → grows world later → program.Withstands serves inv grows post calls later) :
    program.Withstands serves inv grows post calls world := by
  cases program with
  | pure value => exact fun later kept grown => withstands later kept grown later kept (refl later)
  | raise error => exact fun later kept grown => withstands later kept grown later kept (refl later)
  | call op next => exact fun later kept grown => withstands later kept grown later kept (refl later)

theorem Withstands.bind {program : Program Op Reply Exc β} {next : β → Program Op Reply Exc α}
    (first : program.Withstands serves inv grows mid calls world)
    (ok : ∀ value seen after, inv after → mid (.ok value) seen after →
      (next value).Withstands serves inv grows post seen after)
    (error : ∀ error seen after, inv after → mid (.error error) seen after → post (.error error) seen after) :
    (program.bind next).Withstands serves inv grows post calls world := by
  induction program generalizing calls world with
  | pure value =>
    exact .of_later refl fun later kept grown => ok value calls later kept (first later kept grown)
  | raise raised => exact fun later kept grown => error raised calls later kept (first later kept grown)
  | call op rest ih =>
    intro later kept grown reply after served
    obtain ⟨keeps, growth, more⟩ := first later kept grown reply after served
    exact ⟨keeps, growth, ih reply more⟩

/-- A `try`: what follows is entered with the value or with the exception. -/
theorem Withstands.attempt_bind {program : Program Op Reply Exc β}
    {next : Except Exc β → Program Op Reply Exc α} (first : program.Withstands serves inv grows mid calls world)
    (rest : ∀ result seen after, inv after → mid result seen after →
      (next result).Withstands serves inv grows post seen after) :
    (program.attempt.bind next).Withstands serves inv grows post calls world := by
  induction program generalizing calls world with
  | pure value =>
    exact .of_later refl fun later kept grown => rest (.ok value) calls later kept (first later kept grown)
  | raise raised =>
    exact .of_later refl fun later kept grown => rest (.error raised) calls later kept (first later kept grown)
  | call op more ih =>
    intro later kept grown reply after served
    obtain ⟨keeps, growth, others⟩ := first later kept grown reply after served
    exact ⟨keeps, growth, ih reply others⟩

end Rules

end Program

end Effects
