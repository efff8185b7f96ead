import Mathlib.Data.Nat.Notation
import Mathlib.Logic.Basic

/-! # Programs that call services and may catch what the calls raise

A program is a finite tree: it returns a value, raises an exception, or makes one call and continues
with whatever the service answers, an exception included. The tree says nothing about what a call
does; `eval` runs a program alone against a stateful service, and `Tracks` ties it to a machine whose
phases say where in its text the program stands, whatever the service is.
-/

namespace Effects

/-- One service call with the reply that came back. -/
structure Call (Op : Type) (Reply : Op → Type) (Exc : Type) where
  op : Op
  reply : Except Exc (Reply op)

/-- A terminating program over the calls `Op`, each answered by its `Reply` or by an exception. -/
inductive Program (Op : Type) (Reply : Op → Type) (Exc : Type) (α : Type) where
  | pure (value : α)
  | raise (error : Exc)
  | call (op : Op) (next : Except Exc (Reply op) → Program Op Reply Exc α)

namespace Program

variable {Op : Type} {Reply : Op → Type} {Exc : Type} {α β γ : Type}

/-- Sequencing; an exception skips the continuation. -/
def bind (program : Program Op Reply Exc α) (next : α → Program Op Reply Exc β) :
    Program Op Reply Exc β :=
  match program with
  | .pure value => next value
  | .raise error => .raise error
  | .call op rest => .call op fun reply => (rest reply).bind next

/-- The body of a `try`: run a program and hand back its exception as a value. -/
def attempt : Program Op Reply Exc α → Program Op Reply Exc (Except Exc α)
  | .pure value => .pure (.ok value)
  | .raise error => .pure (.error error)
  | .call op rest => .call op fun reply => (rest reply).attempt

/-- A result that is already known. -/
def ofExcept : Except Exc α → Program Op Reply Exc α
  | .ok value => .pure value
  | .error error => .raise error

/-- Make one call; an exception it raises propagates. -/
def perform (op : Op) : Program Op Reply Exc (Reply op) := .call op ofExcept

instance : Monad (Program Op Reply Exc) where
  pure := .pure
  bind := bind

/-- Whether the program has come to its end. -/
def isDone : Program Op Reply Exc α → Bool
  | .call _ _ => false
  | _ => true

@[simp] theorem monad_pure (value : α) : (Pure.pure value : Program Op Reply Exc α) = .pure value := rfl

@[simp] theorem monad_bind (program : Program Op Reply Exc α) (next : α → Program Op Reply Exc β) :
    program >>= next = program.bind next := rfl

@[simp] theorem pure_bind (value : α) (next : α → Program Op Reply Exc β) :
    (Program.pure value).bind next = next value := rfl

@[simp] theorem raise_bind (error : Exc) (next : α → Program Op Reply Exc β) :
    (Program.raise error).bind next = .raise error := rfl

@[simp] theorem call_bind (op : Op) (rest : Except Exc (Reply op) → Program Op Reply Exc α)
    (next : α → Program Op Reply Exc β) :
    (Program.call op rest).bind next = .call op fun reply => (rest reply).bind next := rfl

theorem bind_assoc (program : Program Op Reply Exc α) (next : α → Program Op Reply Exc β)
    (last : β → Program Op Reply Exc γ) :
    (program.bind next).bind last = program.bind fun value => (next value).bind last := by
  induction program with
  | pure value => rfl
  | raise error => rfl
  | call op rest ih => exact congrArg _ (funext ih)

/-- What a program goes on with after its next call. -/
def Follows (rest program : Program Op Reply Exc α) : Prop := ∃ op next reply, program = .call op next ∧ rest = next reply

/-- No program makes calls for ever. -/
theorem wellFounded_follows : WellFounded (Follows : Program Op Reply Exc α → Program Op Reply Exc α → Prop) := by
  refine ⟨fun program => ?_⟩
  induction program with
  | pure | raise => exact .intro _ (by rintro _ ⟨_, _, _, ⟨⟩, _⟩)
  | call op next ih =>
    refine .intro _ ?_
    rintro _ ⟨_, _, reply, ⟨⟩, rfl⟩
    exact ih reply

/-! ## Which calls a program makes -/

/-- Along every path of replies the program makes calls of this kind only. -/
def Makes (kind : Op → Prop) : Program Op Reply Exc α → Prop
  | .pure _ => True
  | .raise _ => True
  | .call op next => kind op ∧ ∀ reply, (next reply).Makes kind

theorem Makes.bind {kind : Op → Prop} {program : Program Op Reply Exc α} {next : α → Program Op Reply Exc β}
    (first : program.Makes kind) (rest : ∀ value, (next value).Makes kind) : (program.bind next).Makes kind := by
  induction program with
  | pure value => exact rest value
  | raise error => trivial
  | call op more ih => exact ⟨first.1, fun reply => ih reply (first.2 reply)⟩

theorem Makes.attempt {kind : Op → Prop} {program : Program Op Reply Exc α} (makes : program.Makes kind) :
    program.attempt.Makes kind := by
  induction program with
  | pure value => trivial
  | raise error => trivial
  | call op more ih => exact ⟨makes.1, fun reply => ih reply (makes.2 reply)⟩

theorem Makes.perform {kind : Op → Prop} {op : Op} (fits : kind op) :
    (perform op : Program Op Reply Exc (Reply op)).Makes kind :=
  ⟨fits, fun reply => by cases reply <;> trivial⟩

/-- Along every path of replies the program makes at most so many calls of this kind. -/
def AtMost (kind : Op → Bool) : Program Op Reply Exc α → ℕ → Prop
  | .pure _, _ => True
  | .raise _, _ => True
  | .call op next, bound => (kind op = true → 0 < bound) ∧
      ∀ reply, (next reply).AtMost kind (if kind op then bound - 1 else bound)

theorem AtMost.mono {kind : Op → Bool} {program : Program Op Reply Exc α} {first second : ℕ}
    (most : program.AtMost kind first) (more : first ≤ second) : program.AtMost kind second := by
  induction program generalizing first second with
  | pure value => trivial
  | raise error => trivial
  | call op next ih =>
    refine ⟨fun counts => Nat.lt_of_lt_of_le (most.1 counts) more, fun reply => ih reply (most.2 reply) ?_⟩
    split <;> omega

theorem AtMost.bind {kind : Op → Bool} {program : Program Op Reply Exc α} {next : α → Program Op Reply Exc β}
    {first second : ℕ} (most : program.AtMost kind first) (rest : ∀ value, (next value).AtMost kind second) :
    (program.bind next).AtMost kind (first + second) := by
  induction program generalizing first with
  | pure value => exact (rest value).mono (Nat.le_add_left second first)
  | raise error => trivial
  | call op more ih =>
    refine ⟨fun counts => Nat.add_pos_left (most.1 counts) second, fun reply => ?_⟩
    refine (ih reply (most.2 reply)).mono ?_
    split
    · next counts =>
      have some := most.1 counts
      omega
    · exact Nat.le_refl _

theorem AtMost.attempt {kind : Op → Bool} {program : Program Op Reply Exc α} {bound : ℕ}
    (most : program.AtMost kind bound) : program.attempt.AtMost kind bound := by
  induction program generalizing bound with
  | pure value => trivial
  | raise error => trivial
  | call op more ih => exact ⟨most.1, fun reply => ih reply (most.2 reply)⟩

theorem Makes.atMost {kind : Op → Bool} {program : Program Op Reply Exc α}
    (makes : program.Makes fun op => kind op = false) : program.AtMost kind 0 := by
  induction program with
  | pure value => trivial
  | raise error => trivial
  | call op more ih =>
    refine ⟨fun counts => absurd (makes.1.symm.trans counts) Bool.false_ne_true, fun reply => ?_⟩
    rw [if_neg (Bool.eq_false_iff.mp makes.1)]
    exact ih reply (makes.2 reply)

theorem AtMost.perform (kind : Op → Bool) (op : Op) : (perform op : Program Op Reply Exc (Reply op)).AtMost kind 1 :=
  ⟨fun _ => Nat.one_pos, fun reply => by cases reply <;> trivial⟩

section Sequential

variable {World : Type} (answer : List (Call Op Reply Exc) → (op : Op) → World → Except Exc (Reply op) × World)

/-- Run a program alone. The service sees the calls made so far, the new call and the world. -/
def eval : Program Op Reply Exc α → List (Call Op Reply Exc) → World →
    Except Exc α × List (Call Op Reply Exc) × World
  | .pure value, calls, world => (.ok value, calls, world)
  | .raise error, calls, world => (.error error, calls, world)
  | .call op next, calls, world =>
    let (reply, after) := answer calls op world
    (next reply).eval (calls ++ [⟨op, reply⟩]) after

/-- Run a program alone for at most `count` calls: what is left of it, the calls and the world. -/
def steps : ℕ → Program Op Reply Exc α → List (Call Op Reply Exc) → World →
    Program Op Reply Exc α × List (Call Op Reply Exc) × World
  | count + 1, .call op next, calls, world =>
    let (reply, after) := answer calls op world
    steps count (next reply) (calls ++ [⟨op, reply⟩]) after
  | _, program, calls, world => (program, calls, world)

/-- A program that is not over has made all the calls it was given. -/
theorem length_steps (program : Program Op Reply Exc α) (count : ℕ) (calls : List (Call Op Reply Exc)) (world : World)
    (underway : (program.steps answer count calls world).1.isDone = false) :
    (program.steps answer count calls world).2.1.length = calls.length + count := by
  induction count generalizing program calls world with
  | zero => rfl
  | succ count ih =>
    cases program with
    | pure value => cases underway
    | raise error => cases underway
    | call op next =>
      have length := ih (next (answer calls op world).1) _ _ underway
      rw [List.length_append, List.length_singleton] at length
      refine length.trans ?_
      omega

/-- A program makes no more calls than it was given. -/
theorem length_steps_le (program : Program Op Reply Exc α) (count : ℕ) (calls : List (Call Op Reply Exc))
    (world : World) : (program.steps answer count calls world).2.1.length ≤ calls.length + count := by
  induction count generalizing program calls world with
  | zero => exact Nat.le_refl _
  | succ count ih =>
    cases program with
    | pure value => exact Nat.le_add_right _ _
    | raise error => exact Nat.le_add_right _ _
    | call op next =>
      have most := ih (next (answer calls op world).1) (calls ++ [⟨op, (answer calls op world).1⟩])
        (answer calls op world).2
      rw [List.length_append, List.length_singleton] at most
      refine Nat.le_trans most ?_
      omega

theorem eval_bind (program : Program Op Reply Exc α) (next : α → Program Op Reply Exc β)
    (calls : List (Call Op Reply Exc)) (world : World) :
    (program.bind next).eval answer calls world =
      match program.eval answer calls world with
      | (.ok value, seen, after) => (next value).eval answer seen after
      | (.error error, seen, after) => (.error error, seen, after) := by
  induction program generalizing calls world with
  | pure value => rfl
  | raise error => rfl
  | call op rest ih => exact ih _ _ _

theorem eval_attempt (program : Program Op Reply Exc α)
    (calls : List (Call Op Reply Exc)) (world : World) :
    program.attempt.eval answer calls world =
      match program.eval answer calls world with
      | (result, seen, after) => (.ok result, seen, after) := by
  induction program generalizing calls world with
  | pure value => rfl
  | raise error => rfl
  | call op rest ih => exact ih _ _ _

/-- One call. -/
theorem eval_perform (op : Op) (calls : List (Call Op Reply Exc)) (world : World) :
    (perform op).eval answer calls world =
      ((answer calls op world).1, calls ++ [⟨op, (answer calls op world).1⟩], (answer calls op world).2) := by
  rw [perform, eval]
  dsimp only
  cases (answer calls op world).1 <;> rfl

variable {answer}

/-- What the calls of a kind do to the world, a program that makes no others does. -/
theorem Makes.eval {kind : Op → Prop} {grows : World → World → Prop} {program : Program Op Reply Exc α}
    (makes : program.Makes kind) (refl : ∀ world, grows world world)
    (trans : ∀ {first second third}, grows first second → grows second third → grows first third)
    (kept : ∀ calls op world, kind op → grows world (answer calls op world).2) (calls : List (Call Op Reply Exc))
    (world : World) : grows world (program.eval answer calls world).2.2 := by
  induction program generalizing calls world with
  | pure value => exact refl world
  | raise error => exact refl world
  | call op next ih => exact trans (kept calls op world makes.1) (ih _ (makes.2 _) _ _)

/-- A program makes no more calls of a kind than it may. -/
theorem AtMost.eval {kind : Op → Bool} {program : Program Op Reply Exc α} {bound : ℕ} (most : program.AtMost kind bound)
    (calls : List (Call Op Reply Exc)) (world : World) :
    (program.eval answer calls world).2.1.countP (kind ·.op) ≤ calls.countP (kind ·.op) + bound := by
  induction program generalizing bound calls world with
  | pure value => exact Nat.le_add_right _ _
  | raise error => exact Nat.le_add_right _ _
  | call op next ih =>
    refine Nat.le_trans (ih _ (most.2 _) _ _) ?_
    rw [List.countP_append, List.countP_singleton]
    split
    · next counts =>
      have some := most.1 counts
      omega
    · omega

/-- A sequence that returned went through its first part. -/
theorem eval_bind_eq_ok {program : Program Op Reply Exc α} {next : α → Program Op Reply Exc β}
    {calls seen : List (Call Op Reply Exc)} {world after : World} {value : β}
    (returned : (program.bind next).eval answer calls world = (.ok value, seen, after)) :
    ∃ first earlier middle, program.eval answer calls world = (.ok first, earlier, middle) ∧
      (next first).eval answer earlier middle = (.ok value, seen, after) := by
  rw [eval_bind] at returned
  cases first : program.eval answer calls world with
  | mk result rest =>
    rw [first] at returned
    cases result with
    | ok value => exact ⟨value, rest.1, rest.2, rfl, returned⟩
    | error error => cases returned

/-- A call that returned was answered so. -/
theorem eval_perform_eq_ok {op : Op} {calls seen : List (Call Op Reply Exc)} {world after : World} {value : Reply op}
    (returned : (perform op).eval answer calls world = (.ok value, seen, after)) :
    answer calls op world = (.ok value, after) := by
  rw [perform, eval] at returned
  cases answered : answer calls op world with
  | mk reply final =>
    rw [answered] at returned
    cases reply <;> cases returned
    rfl

/-- A call that is answered hands its answer on. -/
theorem eval_perform_ok {op : Op} {next : Reply op → Program Op Reply Exc α} {calls : List (Call Op Reply Exc)}
    {world after : World} {value : Reply op} (answered : answer calls op world = (.ok value, after)) :
    ((perform op).bind next).eval answer calls world = (next value).eval answer (calls ++ [⟨op, .ok value⟩]) after := by
  rw [perform, call_bind, eval, answered]
  rfl

/-- A call that raises ends the program. -/
theorem eval_perform_error {op : Op} {next : Reply op → Program Op Reply Exc α} {calls : List (Call Op Reply Exc)}
    {world after : World} {error : Exc} (raised : answer calls op world = (.error error, after)) :
    ((perform op).bind next).eval answer calls world = (.error error, calls ++ [⟨op, .error error⟩], after) := by
  rw [perform, call_bind, eval, raised]
  rfl

end Sequential

/-- A control machine: in each phase the one call that comes next and the phase each reply leads to, or
the end. -/
abbrev Machine (Op : Type) (Reply : Op → Type) (Exc Phase : Type) : Type :=
  Phase → Option (Σ op : Op, Except Exc (Reply op) → Phase)

section Machines

variable {Phase : Type} (machine : Machine Op Reply Exc Phase)

/-- Along every path of replies the program makes the calls of the machine, and its result and the phase
it ends in satisfy `post`. -/
def Tracks (post : Except Exc α → Phase → Prop) : Program Op Reply Exc α → Phase → Prop
  | .pure value, phase => post (.ok value) phase
  | .raise error, phase => post (.error error) phase
  | .call op next, phase => ∃ onward, machine phase = some ⟨op, onward⟩ ∧ ∀ reply, (next reply).Tracks post (onward reply)

/-- A program that ends in one phase for each value and in one for each exception. -/
def Ends (ok : α → Phase) (failed : Exc → Phase) : Except Exc α → Phase → Prop
  | .ok value, phase => phase = ok value
  | .error error, phase => phase = failed error

variable {machine} {post : Except Exc α → Phase → Prop}

theorem Tracks.weaken {other : Except Exc α → Phase → Prop} {program : Program Op Reply Exc α} {phase : Phase}
    (tracks : program.Tracks machine post phase) (implies : ∀ result phase, post result phase → other result phase) :
    program.Tracks machine other phase := by
  induction program generalizing phase with
  | pure value => exact implies _ _ tracks
  | raise error => exact implies _ _ tracks
  | call op next ih =>
    obtain ⟨onward, moves, rest⟩ := tracks
    exact ⟨onward, moves, fun reply => ih reply (rest reply)⟩

/-- As long as the machine moves, the program makes the call of the machine. -/
theorem Tracks.call_of_move {program : Program Op Reply Exc α} {phase : Phase} {op : Op}
    {onward : Except Exc (Reply op) → Phase}
    (tracks : program.Tracks machine (fun _ phase => machine phase = none) phase)
    (moves : machine phase = some ⟨op, onward⟩) : ∃ rest, program = .call op rest := by
  cases program with
  | pure | raise => exact absurd (moves.symm.trans tracks) (Option.some_ne_none _)
  | call other rest =>
    obtain ⟨_, same, _⟩ := tracks
    cases moves.symm.trans same
    exact ⟨rest, rfl⟩

theorem Tracks.bind {R : Except Exc β → Phase → Prop} {program : Program Op Reply Exc β}
    {next : β → Program Op Reply Exc α} {phase : Phase} (tracks : program.Tracks machine R phase)
    (ok : ∀ value phase, R (.ok value) phase → (next value).Tracks machine post phase)
    (error : ∀ error phase, R (.error error) phase → post (.error error) phase) :
    (program.bind next).Tracks machine post phase := by
  induction program generalizing phase with
  | pure value => exact ok _ _ tracks
  | raise raised => exact error _ _ tracks
  | call op rest ih =>
    obtain ⟨onward, moves, rest⟩ := tracks
    exact ⟨onward, moves, fun reply => ih reply (rest reply)⟩

/-- A `try`: what follows is entered with the value or with the exception. -/
theorem Tracks.attempt_bind {R : Except Exc β → Phase → Prop} {program : Program Op Reply Exc β}
    {next : Except Exc β → Program Op Reply Exc α} {phase : Phase} (tracks : program.Tracks machine R phase)
    (rest : ∀ result phase, R result phase → (next result).Tracks machine post phase) :
    (program.attempt.bind next).Tracks machine post phase := by
  induction program generalizing phase with
  | pure value => exact rest _ _ tracks
  | raise raised => exact rest _ _ tracks
  | call op next ih =>
    obtain ⟨onward, moves, others⟩ := tracks
    exact ⟨onward, moves, fun reply => ih reply (others reply)⟩

theorem Tracks.perform {op : Op} {onward : Except Exc (Reply op) → Phase}
    {post : Except Exc (Reply op) → Phase → Prop} {phase : Phase} (moves : machine phase = some ⟨op, onward⟩)
    (holds : ∀ reply, post reply (onward reply)) : (perform op).Tracks machine post phase := by
  refine ⟨onward, moves, fun reply => ?_⟩
  cases reply with
  | ok value => exact holds (.ok value)
  | error error => exact holds (.error error)

theorem Tracks.perform_bind {op : Op} {onward : Except Exc (Reply op) → Phase} {phase : Phase}
    {next : Reply op → Program Op Reply Exc α} (moves : machine phase = some ⟨op, onward⟩)
    (error : ∀ error, post (.error error) (onward (.error error)))
    (ok : ∀ value, (next value).Tracks machine post (onward (.ok value))) :
    ((Program.perform op).bind next).Tracks machine post phase := by
  refine ⟨onward, moves, fun reply => ?_⟩
  cases reply with
  | ok value => exact ok value
  | error raised => exact error raised

/-- A program that ends where the machine ends is over when the machine is. -/
theorem Tracks.isDone_eq {program : Program Op Reply Exc α} {phase : Phase}
    (tracks : program.Tracks machine (fun _ phase => machine phase = none) phase) :
    program.isDone = (machine phase).isNone := by
  cases program with
  | pure value => exact (Option.isNone_iff_eq_none.mpr tracks).symm
  | raise error => exact (Option.isNone_iff_eq_none.mpr tracks).symm
  | call op next =>
    obtain ⟨onward, moves, _⟩ := tracks
    rw [moves]
    rfl

variable {World : Type} {answer : List (Call Op Reply Exc) → (op : Op) → World → Except Exc (Reply op) × World}
  (inv : List (Call Op Reply Exc) → World → Phase → Prop) {calls : List (Call Op Reply Exc)} {world : World}

/-- What the service preserves along the phases holds wherever the program stops on its way. -/
theorem Tracks.steps {program : Program Op Reply Exc α} {phase : Phase} (tracks : program.Tracks machine post phase)
    (start : inv calls world phase)
    (kept : ∀ calls world phase op onward, inv calls world phase → machine phase = some ⟨op, onward⟩ →
      inv (calls ++ [⟨op, (answer calls op world).1⟩]) (answer calls op world).2 (onward (answer calls op world).1))
    (count : ℕ) :
    ∃ phase, (program.steps answer count calls world).1.Tracks machine post phase ∧
      inv (program.steps answer count calls world).2.1 (program.steps answer count calls world).2.2 phase := by
  induction count generalizing program calls world phase with
  | zero => exact ⟨phase, tracks, start⟩
  | succ count ih =>
    cases program with
    | pure value => exact ⟨phase, tracks, start⟩
    | raise error => exact ⟨phase, tracks, start⟩
    | call op next =>
      obtain ⟨onward, moves, rest⟩ := tracks
      exact ih (rest _) (kept calls world phase op onward start moves)

/-- What the service preserves along the phases holds when the program has ended. -/
theorem Tracks.eval {program : Program Op Reply Exc α} {phase : Phase} (tracks : program.Tracks machine post phase)
    (start : inv calls world phase)
    (kept : ∀ calls world phase op onward, inv calls world phase → machine phase = some ⟨op, onward⟩ →
      inv (calls ++ [⟨op, (answer calls op world).1⟩]) (answer calls op world).2 (onward (answer calls op world).1)) :
    ∃ phase, post (program.eval answer calls world).1 phase ∧
      inv (program.eval answer calls world).2.1 (program.eval answer calls world).2.2 phase := by
  induction program generalizing calls world phase with
  | pure value => exact ⟨phase, tracks, start⟩
  | raise error => exact ⟨phase, tracks, start⟩
  | call op next ih =>
    obtain ⟨onward, moves, rest⟩ := tracks
    exact ih _ (rest _) (kept calls world phase op onward start moves)

end Machines

end Program

end Effects
