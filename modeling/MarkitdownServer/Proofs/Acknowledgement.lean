import Mathlib.Tactic.IntervalCases
import MarkitdownServer.Proofs.Redelivery
import MarkitdownServer.Proofs.Topology

/-! # What is left of a message when it is acked

The consumer acks a message whatever its handler came to, so the handler has to leave the chunk in good
hands: done, failed with its job, or on its way to a next attempt. It does so when nothing raises outside
the conversion. `get_job`, `start_chunk`, `complete_chunk` and everything that `_handle_failure` calls are
outside the `try`, and an exception there loses the chunk, unless it was done before. `Safe` says exactly
for which choice of raising calls the chunk is kept.
-/

namespace MarkitdownServer

open Effects Transition

/-- The call fetches a job. -/
def Step.loads : Step → Bool
  | ⟨.db (.getJob _), _⟩ => true
  | _ => false

namespace Worker

/-- What must hold of a chunk once its message is acked: its job is gone, done or failed, the chunk is done and
assembly has been attempted if it was the last one (the argument of `assemble` is the second `get_job` of the
run), or the broker has accepted the next attempt. -/
def Accounted (task : ChunkTask) (before : World) (calls : List Step) (after : World) : Prop :=
  (∀ job, after.db.getJob task.jobId = some job → job.status.isTerminal = true) ∨
    (after.db.chunkStatus task.jobId task.chunkIndex = some .done ∧
      (Handler.isLast task before = true → 2 ≤ calls.countP Step.loads)) ∨
    ∃ entry ∈ after.broker.messages.drop before.broker.messages.length, entry.2.body = .task task.nextAttempt

end Worker

/-! ## When the chunk is kept -/

namespace Sending

variable (raises : ℕ → Option Exc)

/-- The second round of a publish of one body, begun with call `n`: the number of the call after it, if it gets
through. -/
def resent (n : ℕ) : Option ℕ := if (raises n).isNone && (raises (n + 1)).isNone then some (n + 2) else none

/-- The number of the call after a publish of one body that now makes call `n`, if it gets through. -/
def arrives : Sending → ℕ → Option ℕ
  | .sending true _ _, n => if (raises n).isNone then some (n + 1) else none
  | .opening true, n => resent raises n
  | .sending false _ _, n =>
    match raises n with
    | none => some (n + 1)
    | some error => if error.isAmqpError then resent raises (n + 1) else none
  | .opening false, n =>
    match raises n, raises (n + 1) with
    | none, none => some (n + 2)
    | none, some error => if error.isAmqpError then resent raises (n + 2) else none
    | some error, _ => if error.isAmqpError then resent raises (n + 1) else none

variable {Phase : Type} {exchange routingKey : Str} {body : Body} {inside : Sending → Phase} {done : Phase}
  {failed : Exc → Phase} (config : Config) (parent : Option Message) (markdown : Str) (calls : List Step)
  (world : World)

/-- A call of a publish of one body: it goes on with nothing published yet, it has published the body, or it
gives up. -/
theorem serve_cases {sending : Sending} {op : Op} {onward : Except Exc op.Reply → Phase} (single : Single body sending)
    (moves : some (sending.step exchange routingKey [body] inside done failed) = some ⟨op, onward⟩) :
    let answer := serve config parent markdown raises calls op world
    (∃ next, onward answer.1 = inside next ∧ Single body next ∧ answer.2 = world ∧
        next.arrives raises (calls.length + 1) = sending.arrives raises calls.length) ∨
      (onward answer.1 = done ∧ sending.arrives raises calls.length = some (calls.length + 1) ∧
        answer.2 = { world with
          broker := world.broker.publish (declare config) parent exchange routingKey body }) ∨
      ∃ error, onward answer.1 = failed error ∧ answer.2 = world ∧ sending.arrives raises calls.length = none := by
  dsimp only
  cases sending with
  | opening resending =>
    cases moves
    cases raised : raises calls.length with
    | some error =>
      rw [serve_raised raised]
      dsimp only [recover]
      cases resending with
      | true => exact .inr (.inr ⟨error, rfl, rfl, by simp [arrives, resent, raised]⟩)
      | false =>
        by_cases amqp : error.isAmqpError
        · exact .inl ⟨.opening true, by simp [amqp], trivial, rfl, by simp [arrives, raised, amqp]⟩
        · exact .inr (.inr ⟨error, by simp [amqp], rfl, by simp [arrives, raised, amqp]⟩)
    | none =>
      rw [serve_amqp raised]
      refine .inl ⟨.sending resending body [], rfl, ⟨rfl, rfl⟩, rfl, ?_⟩
      cases resending with
      | true => simp [arrives, resent, raised]
      | false =>
        simp only [arrives, raised]
        split <;> simp_all
  | sending resending other rest =>
    obtain ⟨rfl, rfl⟩ := single
    cases moves
    cases raised : raises calls.length with
    | some error =>
      rw [serve_raised raised]
      dsimp only [recover]
      cases resending with
      | true => exact .inr (.inr ⟨error, rfl, rfl, by simp [arrives, raised]⟩)
      | false =>
        by_cases amqp : error.isAmqpError
        · exact .inl ⟨.opening true, by simp [amqp], trivial, rfl, by simp [arrives, raised, amqp]⟩
        · exact .inr (.inr ⟨error, by simp [amqp], rfl, by simp [arrives, raised, amqp]⟩)
    | none =>
      rw [serve_amqp raised]
      refine .inr (.inl ⟨rfl, ?_, rfl⟩)
      cases resending <;> simp [arrives, raised]

end Sending

def Obj.isSource : Obj → Bool
  | .source _ => true
  | _ => false

namespace Worker

variable (config : Config) (raises : ℕ → Option Exc) (task : ChunkTask)

/-- The call with which the conversion fails, if it does: reading the source, building the converter,
converting, or storing the part. -/
def failsAt (hasSource : Bool) : Option ℕ :=
  if hasSource && (raises 3).isNone then [4, 5, 6].find? fun n => (raises n).isSome else some 3

/-- `fail_chunk`, as call `n`, and `fail_job`. A chunk that was done before stays so only if `fail_chunk` raises. -/
def failSafe (done : Bool) (n : ℕ) : Bool := if (raises n).isSome then done else (raises (n + 1)).isNone

/-- `_handle_failure` begun with call `n` keeps the chunk. -/
def failureSafe (done : Bool) (n : ℕ) : Bool :=
  if config.maxAttempts ≤ task.attempt then
    match Sending.arrives raises (.opening false) n with
    | none => done
    | some next => failSafe raises done next
  else
    done || ((raises n).isNone && (Sending.arrives raises (.opening false) (n + 1)).isSome &&
      (decide (1 ≤ task.attempt) && !config.retryDelays.isEmpty))

/-- The calls that raise do not lose the chunk: the job is not active to begin with, or nothing raises that is not
followed by a retry decision, or the chunk was done before and is not failed without its job. -/
def safe (world : World) : Bool :=
  match world.db.getJob task.jobId with
  | none => true
  | some job => job.status.isTerminal ||
    let done := decide (world.db.chunkStatus task.jobId task.chunkIndex = some .done)
    if (raises 0).isSome || (raises 1).isSome || (raises 2).isSome then done
    else match failsAt raises ((world.store (sourceKey task.fileHash)).any Obj.isSource) with
      | none => done || (world.db.chunkStatus task.jobId task.chunkIndex).isSome && (raises 7).isNone
      | some n => failureSafe config raises task done (n + 1)

end Worker

namespace Handler

variable {config : Config} {raises : ℕ → Option Exc} {task : ChunkTask} {start world : World} {calls : List Step}

/-- The chunk was done before. -/
def doneBefore (task : ChunkTask) (start : World) : Bool :=
  decide (start.db.chunkStatus task.jobId task.chunkIndex = some .done)

/-- No next attempt has been published. -/
def Unsent (task : ChunkTask) (start world : World) : Prop :=
  ∃ new, world.broker.messages = start.broker.messages ++ new ∧ ∀ entry ∈ new, entry.2.body ≠ .task task.nextAttempt

/-- The job is active and nothing has become of the chunk yet. -/
structure Undecided (task : ChunkTask) (start : World) (calls : List Step) (world : World) : Prop where
  same : SameView task start world
  unsent : Unsent task start world
  loaded : 1 ≤ calls.countP Step.loads

/-- The phases from `start_chunk` to the stored part. -/
def isConverting : Phase → Bool
  | .startingRow | .startingJob | .fetching | .preparing _ | .converting _ | .storing _ => true
  | _ => false

/-- The phases of an assembly after its `get_job`. -/
def isAssembling : Phase → Bool
  | .listing _ | .reading _ _ _ _ | .writing _ _ _ | .recording _ _ | .finishing _ | .aborting _ => true
  | _ => false

/-- The phases in which a handler has ended. -/
def isOver : Phase → Bool
  | .dropped | .counted | .finished | .aborted | .failed | .retried | .escaped => true
  | _ => false

/-- Where a run stands whose calls raise as chosen, and what the fate of the chunk still depends on. -/
def Keeping (config : Config) (raises : ℕ → Option Exc) (task : ChunkTask) (start : World) (calls : List Step)
    (world : World) : Phase → Prop
  | .looking => calls.length = 0 ∧ world = start
  | .startingRow => calls.length = 1 ∧ (∀ n < 1, raises n = none) ∧ Undecided task start calls world ∧
      world.store = start.store
  | .startingJob => calls.length = 2 ∧ (∀ n < 2, raises n = none) ∧ Undecided task start calls world ∧
      world.store = start.store
  | .fetching => calls.length = 3 ∧ (∀ n < 3, raises n = none) ∧ Undecided task start calls world ∧
      world.store = start.store
  | .preparing _ => calls.length = 4 ∧ (∀ n < 4, raises n = none) ∧ Undecided task start calls world ∧
      (start.store (sourceKey task.fileHash)).any Obj.isSource = true
  | .converting _ => calls.length = 5 ∧ (∀ n < 5, raises n = none) ∧ Undecided task start calls world ∧
      (start.store (sourceKey task.fileHash)).any Obj.isSource = true
  | .storing _ => calls.length = 6 ∧ (∀ n < 6, raises n = none) ∧ Undecided task start calls world ∧
      (start.store (sourceKey task.fileHash)).any Obj.isSource = true
  | .completing => calls.length = 7 ∧ (∀ n < 7, raises n = none) ∧ Undecided task start calls world ∧
      (start.store (sourceKey task.fileHash)).any Obj.isSource = true
  | .parking error sending => Undecided task start calls world ∧
      sending.Single (.failed task (error.describe.take 2000)) ∧
      Worker.safe config raises task start = match sending.arrives raises calls.length with
        | none => doneBefore task start
        | some next => Worker.failSafe raises (doneBefore task start) next
  | .failingChunk _ => Undecided task start calls world ∧
      Worker.safe config raises task start = Worker.failSafe raises (doneBefore task start) calls.length
  | .failingJob _ => Unsent task start world ∧
      (∃ job, world.db.getJob task.jobId = some job ∧ job.status.isTerminal = false) ∧
      world.db.chunkStatus task.jobId task.chunkIndex ≠ some .done ∧
      Worker.safe config raises task start = (raises calls.length).isNone
  | .rescheduling _ => Undecided task start calls world ∧ Worker.safe config raises task start =
      (doneBefore task start || ((raises calls.length).isNone &&
        (Sending.arrives raises (.opening false) (calls.length + 1)).isSome &&
        (decide (1 ≤ task.attempt) && !config.retryDelays.isEmpty)))
  | .retrying sending => Undecided task start calls world ∧ sending.Single (.task task.nextAttempt) ∧
      Worker.safe config raises task start =
      (doneBefore task start || ((sending.arrives raises calls.length).isSome &&
        (decide (1 ≤ task.attempt) && !config.retryDelays.isEmpty)))
  | .loading => world.db.chunkStatus task.jobId task.chunkIndex = some .done ∧ 1 ≤ calls.countP Step.loads ∧
      Worker.safe config raises task start = true
  | .listing _ | .reading _ _ _ _ | .writing _ _ _ | .recording _ _ | .finishing _ | .aborting _ =>
      world.db.chunkStatus task.jobId task.chunkIndex = some .done ∧ 2 ≤ calls.countP Step.loads ∧
      Worker.safe config raises task start = true
  | .dropped | .counted | .finished | .aborted | .failed | .retried | .escaped =>
      Worker.safe config raises task start = true ↔ Worker.Accounted task start calls world

theorem Unsent.not_accepted (unsent : Unsent task start world) :
    ¬ ∃ entry ∈ world.broker.messages.drop start.broker.messages.length, entry.2.body = .task task.nextAttempt := by
  obtain ⟨new, messages, others⟩ := unsent
  rw [messages, List.drop_left]
  rintro ⟨entry, member, sent⟩
  exact others entry member sent

theorem SameView.done_iff (same : SameView task start world) :
    world.db.chunkStatus task.jobId task.chunkIndex = some .done ↔ doneBefore task start = true := by
  have chunk := same.chunk
  rw [doneBefore, decide_eq_true_eq]
  cases one : start.db.chunkStatus task.jobId task.chunkIndex <;>
    cases two : world.db.chunkStatus task.jobId task.chunkIndex <;> simp_all

theorem isLast_of_doneBefore (done : doneBefore task start = true) : isLast task start = false := by
  rw [doneBefore, decide_eq_true_eq] at done
  unfold isLast
  split
  · next job status found chunk =>
    cases done.symm.trans chunk
    simp
  · rfl

/-- If the run ends here, only a chunk that was done before is accounted for. -/
theorem Undecided.accounted_iff (undecided : Undecided task start calls world) :
    Worker.Accounted task start calls world ↔ doneBefore task start = true := by
  constructor
  · rintro (inactive | ⟨done, _⟩ | accepted)
    · obtain ⟨_, job, _, found, _, active, _⟩ := undecided.same.job
      cases (inactive job found).symm.trans active
    · exact undecided.same.done_iff.mp done
    · exact absurd accepted undecided.unsent.not_accepted
  · intro done
    refine .inr (.inl ⟨undecided.same.done_iff.mpr done, fun last => ?_⟩)
    cases last.symm.trans (isLast_of_doneBefore done)

theorem Undecided.later {call : Step} {after : World} (undecided : Undecided task start calls world)
    (same : SameView task world after) (broker : after.broker = world.broker) :
    Undecided task start (calls ++ [call]) after :=
  ⟨undecided.same.trans same, by rw [Unsent, broker]; exact undecided.unsent,
    Nat.le_trans undecided.loaded (by rw [List.countP_append]; omega)⟩

/-- A call that raises changes nothing. -/
theorem Undecided.raised {call : Step} (undecided : Undecided task start calls world) :
    Undecided task start (calls ++ [call]) world := by
  obtain ⟨_, job, _, found, _, active, _⟩ := undecided.same.job
  exact undecided.later (.refl found active) rfl

/-- An exception reaches `on_task`. -/
theorem keeping_escaped {call : Step} (undecided : Undecided task start calls world)
    (lost : Worker.safe config raises task start = doneBefore task start) :
    Keeping config raises task start (calls ++ [call]) world .escaped := by
  rw [Keeping, undecided.raised.accounted_iff, lost]

/-- The conversion fails with call `n`. -/
theorem keeping_failure {call : Step} {error : Exc} (undecided : Undecided task start (calls ++ [call]) world)
    (depends : Worker.safe config raises task start =
      Worker.failureSafe config raises task (doneBefore task start) (calls.length + 1)) :
    Keeping config raises task start (calls ++ [call]) world (failure config task error) := by
  unfold Worker.failureSafe at depends
  unfold failure
  split
  · next exhausted =>
    rw [if_pos exhausted] at depends
    refine ⟨undecided, trivial, ?_⟩
    rw [List.length_append, List.length_singleton]
    exact depends
  · next left =>
    rw [if_neg left] at depends
    refine ⟨undecided, ?_⟩
    rw [List.length_append, List.length_singleton]
    exact depends

/-- What the fate of the chunk depends on once the job has been found active and the chunk started. -/
theorem safe_eq (active : ∃ job, start.db.getJob task.jobId = some job ∧ job.status.isTerminal = false)
    (started : ∀ n < 3, raises n = none) :
    Worker.safe config raises task start =
      match Worker.failsAt raises ((start.store (sourceKey task.fileHash)).any Obj.isSource) with
      | none => doneBefore task start ||
          (start.db.chunkStatus task.jobId task.chunkIndex).isSome && (raises 7).isNone
      | some n => Worker.failureSafe config raises task (doneBefore task start) (n + 1) := by
  obtain ⟨job, found, active⟩ := active
  simp only [Worker.safe, found, active, Bool.false_or, started 0 (by decide), started 1 (by decide),
    started 2 (by decide), Option.isSome_none, Bool.or_self, Bool.false_eq_true, if_false, doneBefore]

theorem safe_of_early (n : ℕ) (active : ∃ job, start.db.getJob task.jobId = some job ∧ job.status.isTerminal = false)
    (early : n < 3) (raised : (raises n).isSome = true) :
    Worker.safe config raises task start = doneBefore task start := by
  obtain ⟨job, found, active⟩ := active
  have some_ : ((raises 0).isSome || (raises 1).isSome || (raises 2).isSome) = true := by
    interval_cases n <;> simp [raised]
  simp only [Worker.safe, found, active, Bool.false_or, some_, if_true, doneBefore]

/-- The conversion fails at the first of its calls that raises, or at the source if there is none. -/
theorem failsAt_eq {n : ℕ} (low : 3 ≤ n) (high : n ≤ 6) (before : ∀ m < n, raises m = none)
    (raised : (raises n).isSome = true ∨ n = 3 ∧ (start.store (sourceKey task.fileHash)).any Obj.isSource = false)
    (source : 3 < n → (start.store (sourceKey task.fileHash)).any Obj.isSource = true) :
    Worker.failsAt raises ((start.store (sourceKey task.fileHash)).any Obj.isSource) = some n := by
  unfold Worker.failsAt
  interval_cases n
  · rcases raised with raised | ⟨_, missing⟩
    · simp [Option.ne_none_iff_isSome.mpr raised]
    · simp [missing]
  · have raised : (raises 4).isSome = true := by simpa using raised
    simp [source (by decide), before 3 (by decide), raised]
  · have raised : (raises 5).isSome = true := by simpa using raised
    simp [source (by decide), before 3 (by decide), before 4 (by decide), raised]
  · have raised : (raises 6).isSome = true := by simpa using raised
    simp [source (by decide), before 3 (by decide), before 4 (by decide), before 5 (by decide), raised]

section Steps

variable {owner markdown : Str} {parent : Option Message} {op : Op} {onward : Except Exc op.Reply → Phase}

private theorem below_succ {bound : ℕ} (before : ∀ n < bound, raises n = none) (now : raises bound = none) :
    ∀ n < bound + 1, raises n = none := by
  intro n below
  rcases Nat.lt_succ_iff_lt_or_eq.mp below with less | rfl
  · exact before n less
  · exact now

theorem Keeping.looking (length : calls.length = 0)
    (moves : step config owner task .looking = some ⟨op, onward⟩) :
    let answer := serve config parent markdown raises calls op start
    Keeping config raises task start (calls ++ [⟨op, answer.1⟩]) answer.2 (onward answer.1) := by
  cases moves
  have begun {job : JobRow} (call : Step) (loads : call.loads = true) (found : start.db.getJob task.jobId = some job)
      (active : job.status.isTerminal = false) : Undecided task start (calls ++ [call]) start :=
    ⟨.refl found active, ⟨[], by simp, by simp⟩, by simp [List.countP_append, loads]⟩
  dsimp only
  cases raised : raises calls.length with
  | some error =>
    rw [serve_raised raised]
    rw [length] at raised
    show _ ↔ _
    cases found : start.db.getJob task.jobId with
    | none =>
      simp only [Worker.safe, found, true_iff]
      exact .inl (by simp [found])
    | some job =>
      cases active : job.status.isTerminal with
      | true =>
        simp only [Worker.safe, found, active, Bool.true_or, true_iff]
        exact .inl (by simp [found, active])
      | false =>
        rw [(begun _ rfl found active).accounted_iff]
        simp [Worker.safe, found, active, raised, doneBefore]
  | none =>
    rw [serve_db raised]
    rw [length] at raised
    simp only [Stmt.exec]
    cases found : start.db.getJob task.jobId with
    | none =>
      show _ ↔ _
      simp only [Worker.safe, found, true_iff]
      exact .inl (by simp [found])
    | some job =>
      cases active : job.status.isTerminal with
      | true =>
        simp only [active, if_true]
        show _ ↔ _
        simp only [Worker.safe, found, active, Bool.true_or, true_iff]
        exact .inl (by simp [found, active])
      | false =>
        simp only [active, Bool.false_eq_true, if_false]
        refine ⟨by simp [length], ?_, begun _ rfl found active, rfl⟩
        intro n below
        rwa [show n = 0 by omega]

/-- A call of the conversion fails. -/
private theorem keeping_failsAt {n : ℕ} {call : Step} {error : Exc} (length : calls.length = n) (low : 3 ≤ n)
    (high : n ≤ 6) (before : ∀ m < n, raises m = none) (undecided : Undecided task start (calls ++ [call]) world)
    (raised : (raises n).isSome = true ∨ n = 3 ∧ (start.store (sourceKey task.fileHash)).any Obj.isSource = false)
    (source : 3 < n → (start.store (sourceKey task.fileHash)).any Obj.isSource = true) :
    Keeping config raises task start (calls ++ [call]) world (failure config task error) := by
  obtain ⟨job, _, found, _, active, _⟩ := undecided.same.job
  refine keeping_failure undecided ?_
  rw [safe_eq ⟨job, found, active⟩ fun m below => before m (by omega), failsAt_eq low high before raised source, length]

theorem Keeping.converting {phase : Phase} (keeping : Keeping config raises task start calls world phase)
    (between : isConverting phase = true)
    (moves : step config owner task phase = some ⟨op, onward⟩) :
    let answer := serve config parent markdown raises calls op world
    Keeping config raises task start (calls ++ [⟨op, answer.1⟩]) answer.2 (onward answer.1) := by
  dsimp only
  cases phase with
  | startingRow =>
    obtain ⟨length, before, undecided, store⟩ := keeping
    obtain ⟨old, job, there, found, wasActive, active, _⟩ := undecided.same.job
    cases moves
    cases raised : raises calls.length with
    | some error =>
      rw [serve_raised raised]
      rw [length] at raised
      exact keeping_escaped undecided (safe_of_early 1 ⟨old, there, wasActive⟩ (by decide) (by rw [raised]; rfl))
    | none =>
      rw [serve_db raised]
      rw [length] at raised
      exact ⟨by simp [length], below_succ before raised,
        undecided.later (.startChunkRow found active owner task.attempt) rfl, store⟩
  | startingJob =>
    obtain ⟨length, before, undecided, store⟩ := keeping
    obtain ⟨old, job, there, found, wasActive, active, _⟩ := undecided.same.job
    cases moves
    cases raised : raises calls.length with
    | some error =>
      rw [serve_raised raised]
      rw [length] at raised
      exact keeping_escaped undecided (safe_of_early 2 ⟨old, there, wasActive⟩ (by decide) (by rw [raised]; rfl))
    | none =>
      rw [serve_db raised]
      rw [length] at raised
      exact ⟨by simp [length], below_succ before raised, undecided.later (.startChunkJob found active) rfl, store⟩
  | fetching =>
    obtain ⟨length, before, undecided, store⟩ := keeping
    cases moves
    cases raised : raises calls.length with
    | some error =>
      rw [serve_raised raised]
      rw [length] at raised
      exact keeping_failsAt length (by decide) (by decide) before undecided.raised (.inl (by rw [raised]; rfl))
        fun late => absurd late (by decide)
    | none =>
      rw [serve_s3 raised]
      rw [length] at raised
      simp only [S3.exec]
      have fails (missing : (start.store (sourceKey task.fileHash)).any Obj.isSource = false) (call : Step) :
          Keeping config raises task start (calls ++ [call]) world (failure config task Storage.clientError) :=
        keeping_failsAt length (by decide) (by decide) before undecided.raised (.inr ⟨rfl, missing⟩)
          fun late => absurd late (by decide)
      cases found : world.store (sourceKey task.fileHash) with
      | none => exact fails (by simp [← store, found]) _
      | some obj =>
        cases obj with
        | source file =>
          exact ⟨by simp [length], below_succ before raised, undecided.raised, by simp [← store, found, Obj.isSource]⟩
        | text content => exact fails (by simp [← store, found, Obj.isSource]) _
        | manifest manifest => exact fails (by simp [← store, found, Obj.isSource]) _
  | preparing file =>
    obtain ⟨length, before, undecided, source⟩ := keeping
    cases moves
    cases raised : raises calls.length with
    | some error =>
      rw [serve_raised raised]
      rw [length] at raised
      exact keeping_failsAt length (by decide) (by decide) before undecided.raised (.inl (by rw [raised]; rfl))
        fun _ => source
    | none =>
      rw [serve_markItDown raised]
      rw [length] at raised
      exact ⟨by simp [length], below_succ before raised, undecided.raised, source⟩
  | converting file =>
    obtain ⟨length, before, undecided, source⟩ := keeping
    cases moves
    cases raised : raises calls.length with
    | some error =>
      rw [serve_raised raised]
      rw [length] at raised
      exact keeping_failsAt length (by decide) (by decide) before undecided.raised (.inl (by rw [raised]; rfl))
        fun _ => source
    | none =>
      rw [serve_convert raised]
      rw [length] at raised
      exact ⟨by simp [length], below_succ before raised, undecided.raised, source⟩
  | storing text =>
    obtain ⟨length, before, undecided, source⟩ := keeping
    obtain ⟨_, job, _, found, _, active, _⟩ := undecided.same.job
    cases moves
    cases raised : raises calls.length with
    | some error =>
      rw [serve_raised raised]
      rw [length] at raised
      exact keeping_failsAt length (by decide) (by decide) before undecided.raised (.inl (by rw [raised]; rfl))
        fun _ => source
    | none =>
      rw [serve_s3 raised]
      rw [length] at raised
      exact ⟨by simp [length], below_succ before raised, undecided.later (.putPart found active text) rfl, source⟩
  | _ => cases between

theorem Keeping.completing (keeping : Keeping config raises task start calls world .completing)
    (moves : step config owner task .completing = some ⟨op, onward⟩) :
    let answer := serve config parent markdown raises calls op world
    Keeping config raises task start (calls ++ [⟨op, answer.1⟩]) answer.2 (onward answer.1) := by
  obtain ⟨length, before, undecided, source⟩ := keeping
  obtain ⟨old, job, there, found, wasActive, active, remaining, _⟩ := undecided.same.job
  have converted : Worker.failsAt raises ((start.store (sourceKey task.fileHash)).any Obj.isSource) = none := by
    simp [Worker.failsAt, source, before 3 (by decide), before 4 (by decide), before 5 (by decide), before 6 (by decide)]
  have depends : Worker.safe config raises task start =
      (doneBefore task start || (start.db.chunkStatus task.jobId task.chunkIndex).isSome && (raises 7).isNone) := by
    rw [safe_eq ⟨old, there, wasActive⟩ fun n below => before n (by omega), converted]
  cases moves
  dsimp only
  cases raised : raises calls.length with
  | some error =>
    rw [serve_raised raised]
    rw [length] at raised
    refine keeping_escaped undecided ?_
    rw [depends, raised]
    simp
  | none =>
    rw [serve_db raised]
    rw [length] at raised
    simp only [Stmt.exec]
    by_cases closed : ∀ status, world.db.chunkStatus task.jobId task.chunkIndex = some status → status = .done
    · rw [completeChunk_closed closed]
      show _ ↔ _
      have same : doneBefore task start = (start.db.chunkStatus task.jobId task.chunkIndex).isSome := by
        have chunk := undecided.same.chunk
        rw [doneBefore]
        cases one : start.db.chunkStatus task.jobId task.chunkIndex <;>
          cases two : world.db.chunkStatus task.jobId task.chunkIndex <;> simp_all
      rw [depends, raised, ← same]
      simp only [Option.isNone_none, Bool.and_true, Bool.or_self]
      exact undecided.raised.accounted_iff.symm
    · simp only [not_forall, exists_prop] at closed
      obtain ⟨status, chunk, opened⟩ := closed
      obtain ⟨value, _⟩ := completeChunk_counted chunk opened found active (partKey task.docKey task.chunkIndex)
      have done := chunkStatus_exec (.completeChunk task.jobId task.chunkIndex (partKey task.docKey task.chunkIndex)) chunk
      simp only [Stmt.exec, Stmt.chunkEffect, and_self, if_true] at done
      have exists_ : (start.db.chunkStatus task.jobId task.chunkIndex).isSome = true := by
        have same := undecided.same.chunk
        rw [chunk] at same
        cases one : start.db.chunkStatus task.jobId task.chunkIndex <;> simp_all
      have kept : Worker.safe config raises task start = true := by
        rw [depends, exists_, raised]
        simp
      rw [value]
      by_cases zero : job.remainingChunks - 1 = 0
      · simp only [zero, if_true]
        exact ⟨done, undecided.raised.loaded, kept⟩
      · simp only [zero, if_false]
        show _ ↔ _
        simp only [kept, true_iff]
        refine .inr (.inl ⟨done, fun last => ?_⟩)
        obtain ⟨row, _, foundRow, _, _, _, one⟩ := isLast_iff.mp last
        cases there.symm.trans foundRow
        omega

theorem keeping_of_done {call : Step} {phase : Phase}
    (done : world.db.chunkStatus task.jobId task.chunkIndex = some .done) (kept : Worker.safe config raises task start = true)
    (loaded : 2 ≤ (calls ++ [call]).countP Step.loads) (goes : isAssembling phase = true ∨ isOver phase = true) :
    Keeping config raises task start (calls ++ [call]) world phase := by
  have accounted : Worker.Accounted task start (calls ++ [call]) world := .inr (.inl ⟨done, fun _ => loaded⟩)
  cases phase with
  | listing | reading | writing | recording | finishing | aborting => exact ⟨done, loaded, kept⟩
  | dropped | counted | finished | aborted | failed | retried | escaped => exact iff_of_true kept accounted
  | _ => exact goes.elim (by rintro ⟨⟩) (by rintro ⟨⟩)

/-- From its `get_job` on an assembly goes on or ends, and leaves the chunks alone. -/
theorem isAssembling_onward {phase : Phase} (late : phase = .loading ∨ isAssembling phase = true)
    (moves : step config owner task phase = some ⟨op, onward⟩) :
    (∀ reply, isAssembling (onward reply) = true ∨ isOver (onward reply) = true) ∧
      ∀ stmt, op = .db stmt → ∀ status, stmt.chunkEffect task.jobId task.chunkIndex status = status := by
  have gathers (job : JobRow) (parts : List Str) (indices : List ℕ) : isAssembling (gather job parts indices) = true := by
    cases indices <;> rfl
  cases phase with
  | loading | listing | reading | recording | finishing | aborting =>
    cases moves
    refine ⟨fun reply => ?_, ?_⟩
    · dsimp only
      split <;> first | exact .inl rfl | exact .inr rfl | exact .inl (gathers _ _ _)
    · rintro _ ⟨⟩ status <;> rfl
  | writing job parts written =>
    simp only [step] at moves
    split at moves <;> cases moves
    · refine ⟨fun reply => ?_, by rintro _ ⟨⟩⟩
      cases reply <;> exact .inl rfl
    · refine ⟨fun reply => ?_, by rintro _ ⟨⟩⟩
      cases reply <;> exact .inl rfl
  | _ => exact late.elim (by rintro ⟨⟩) (by rintro ⟨⟩)

/-- From the last completion on the chunk is accounted for, whatever raises. -/
theorem Keeping.assembling {phase : Phase} (keeping : Keeping config raises task start calls world phase)
    (late : phase = .loading ∨ isAssembling phase = true) (moves : step config owner task phase = some ⟨op, onward⟩) :
    let answer := serve config parent markdown raises calls op world
    Keeping config raises task start (calls ++ [⟨op, answer.1⟩]) answer.2 (onward answer.1) := by
  dsimp only
  obtain ⟨goes, keeps⟩ := isAssembling_onward late moves
  have facts : world.db.chunkStatus task.jobId task.chunkIndex = some .done ∧
      Worker.safe config raises task start = true ∧
      ∀ reply : Except Exc op.Reply, 2 ≤ (calls ++ [(⟨op, reply⟩ : Step)]).countP Step.loads := by
    rcases late with rfl | late
    · obtain ⟨done, loaded, kept⟩ := keeping
      cases moves
      refine ⟨done, kept, fun reply => ?_⟩
      rw [List.countP_append]
      exact Nat.add_le_add loaded (Nat.le_refl 1)
    · cases phase with
      | listing | reading | writing | recording | finishing | aborting =>
        obtain ⟨done, loaded, kept⟩ := keeping
        refine ⟨done, kept, fun reply => Nat.le_trans loaded ?_⟩
        rw [List.countP_append]
        omega
      | _ => cases late
  obtain ⟨done, kept, loaded⟩ := facts
  refine keeping_of_done ?_ kept (loaded _) (goes _)
  cases raised : raises calls.length with
  | some error => rwa [serve_raised raised]
  | none =>
    cases op with
    | db stmt =>
      rw [serve_db raised]
      exact (chunkStatus_exec stmt done).trans (by rw [keeps stmt rfl])
    | s3 request => rwa [serve_s3 raised]
    | amqp request => rwa [serve_amqp raised]
    | tool request =>
      simp only [serve, raised]
      cases request <;> exact done

/-- A published body is put behind the messages that are there. -/
theorem messages_publish (broker : Broker) (message : Message) (exchange routingKey : Str) (body : Body) :
    (broker.publish (declare config) (some message) exchange routingKey body).messages =
      broker.messages ++ ((declare config).route exchange routingKey).map fun queue =>
        (queue, ⟨message.origin, body⟩) := rfl

theorem Keeping.parking {message : Message} {error : Exc} {sending : Sending}
    (keeping : Keeping config raises task start calls world (.parking error sending))
    (moves : step config owner task (.parking error sending) = some ⟨op, onward⟩) :
    let answer := serve config (some message) markdown raises calls op world
    Keeping config raises task start (calls ++ [⟨op, answer.1⟩]) answer.2 (onward answer.1) := by
  obtain ⟨undecided, single, depends⟩ := keeping
  have later {call : Step} : (calls ++ [call]).length = calls.length + 1 := by simp
  dsimp only
  rcases Sending.serve_cases raises config (some message) markdown calls world single moves with
    ⟨next, arrives, still, same, rest⟩ | ⟨arrives, through, published⟩ | ⟨raised, arrives, same, lost⟩
  · rw [arrives, same]
    refine ⟨undecided.raised, still, ?_⟩
    rw [depends, later, rest]
  · rw [arrives, published]
    refine ⟨⟨undecided.same.broker _, ?_, undecided.raised.loaded⟩, ?_⟩
    · obtain ⟨new, messages, others⟩ := undecided.unsent
      refine ⟨new ++ ((declare config).route config.dlxExchange config.rabbitmqQueue).map fun queue =>
        (queue, ⟨message.origin, .failed task (error.describe.take 2000)⟩), ?_, ?_⟩
      · rw [messages_publish, messages, List.append_assoc]
      · intro entry member
        rcases List.mem_append.mp member with old | added
        · exact others entry old
        · obtain ⟨queue, _, rfl⟩ := List.mem_map.mp added
          rintro ⟨⟩
    · rw [depends, through, later]
  · rw [arrives, same]
    refine keeping_escaped undecided ?_
    rw [depends, lost]

/-- The next attempt has been published: it is accepted if there is a queue for it. -/
private theorem keeping_retried {message : Message} {call : Step} (undecided : Undecided task start calls world)
    (depends : Worker.safe config raises task start =
      (doneBefore task start || (decide (1 ≤ task.attempt) && !config.retryDelays.isEmpty))) :
    Keeping config raises task start (calls ++ [call])
      { world with
        broker := world.broker.publish (declare config) (some message) config.retryExchange
          (config.retryQueueName task.attempt) (.task task.nextAttempt) } .retried := by
  have routable : (decide (1 ≤ task.attempt) && !config.retryDelays.isEmpty) = true ↔
      1 ≤ task.attempt ∧ config.retryDelays ≠ [] := by simp
  have same := undecided.same.broker (world.broker.publish (declare config) (some message) config.retryExchange
    (config.retryQueueName task.attempt) (.task task.nextAttempt))
  obtain ⟨new, messages, others⟩ := undecided.unsent
  rw [Keeping, depends, Bool.or_eq_true, routable]
  constructor
  · rintro (done | tier)
    · refine .inr (.inl ⟨same.done_iff.mpr done, fun last => ?_⟩)
      cases last.symm.trans (isLast_of_doneBefore done)
    · refine .inr (.inr ⟨(config.retryQueueName task.attempt, ⟨message.origin, .task task.nextAttempt⟩), ?_, rfl⟩)
      rw [messages_publish, messages, List.append_assoc, List.drop_left, config.route_retryQueueName, if_pos tier]
      exact List.mem_append_right _ (List.mem_singleton_self _)
  · rintro (inactive | ⟨done, _⟩ | ⟨entry, member, sent⟩)
    · obtain ⟨_, job, _, found, _, active, _⟩ := same.job
      cases (inactive job found).symm.trans active
    · exact .inl (same.done_iff.mp done)
    · rw [messages_publish, messages, List.append_assoc, List.drop_left, config.route_retryQueueName] at member
      rcases List.mem_append.mp member with old | added
      · exact absurd sent (others entry old)
      · split at added
        · next tier => exact .inr tier
        · cases added

theorem Keeping.retrying {message : Message} {sending : Sending}
    (keeping : Keeping config raises task start calls world (.retrying sending))
    (moves : step config owner task (.retrying sending) = some ⟨op, onward⟩) :
    let answer := serve config (some message) markdown raises calls op world
    Keeping config raises task start (calls ++ [⟨op, answer.1⟩]) answer.2 (onward answer.1) := by
  obtain ⟨undecided, single, depends⟩ := keeping
  have later {call : Step} : (calls ++ [call]).length = calls.length + 1 := by simp
  dsimp only
  rcases Sending.serve_cases raises config (some message) markdown calls world single moves with
    ⟨next, arrives, still, same, rest⟩ | ⟨arrives, through, published⟩ | ⟨raised, arrives, same, lost⟩
  · rw [arrives, same]
    refine ⟨undecided.raised, still, ?_⟩
    rw [depends, later, rest]
  · rw [arrives, published]
    exact keeping_retried undecided (by rw [depends, through]; simp)
  · rw [arrives, same]
    refine keeping_escaped undecided ?_
    rw [depends, lost]
    simp

theorem Keeping.failing {phase : Phase} {error : Exc} (keeping : Keeping config raises task start calls world phase)
    (at_ : phase = .failingChunk error ∨ phase = .failingJob error ∨ phase = .rescheduling error)
    (moves : step config owner task phase = some ⟨op, onward⟩) :
    let answer := serve config parent markdown raises calls op world
    Keeping config raises task start (calls ++ [⟨op, answer.1⟩]) answer.2 (onward answer.1) := by
  have later {call : Step} : (calls ++ [call]).length = calls.length + 1 := by simp
  dsimp only
  rcases at_ with rfl | rfl | rfl
  · obtain ⟨undecided, depends⟩ := keeping
    obtain ⟨_, job, _, found, _, active, _⟩ := undecided.same.job
    cases moves
    cases raised : raises calls.length with
    | some error =>
      rw [serve_raised raised]
      refine keeping_escaped undecided ?_
      rw [depends, Worker.failSafe, raised, Option.isSome_some, if_pos rfl]
    | none =>
      rw [serve_db raised]
      refine ⟨undecided.unsent, ⟨job, found, active⟩, ?_, ?_⟩
      · cases chunk : world.db.chunkStatus task.jobId task.chunkIndex with
        | none =>
          rcases chunkStatus_fresh (.failChunk task.jobId task.chunkIndex error.describe) chunk with
            absent | ⟨_, _, _, _, _, same, _⟩
          · simp only [absent, ne_eq, reduceCtorEq, not_false_eq_true]
          · cases same
        | some status =>
          rw [chunkStatus_exec (.failChunk task.jobId task.chunkIndex error.describe) chunk]
          simp [Stmt.chunkEffect]
      · rw [depends, Worker.failSafe, raised, later]
        simp
  · obtain ⟨unsent, ⟨job, found, active⟩, undone, depends⟩ := keeping
    cases moves
    cases raised : raises calls.length with
    | some error =>
      rw [serve_raised raised]
      rw [raised] at depends
      refine iff_of_false (by simp [depends]) ?_
      rintro (inactive | ⟨done, _⟩ | accepted)
      · cases (inactive job found).symm.trans active
      · exact undone done
      · exact unsent.not_accepted accepted
    | none =>
      rw [serve_db raised]
      rw [raised] at depends
      refine iff_of_true depends (.inl fun row failed => ?_)
      rw [Stmt.exec, getJob_failJob found active] at failed
      cases failed
      rfl
  · obtain ⟨undecided, depends⟩ := keeping
    obtain ⟨_, job, _, found, _, active, _⟩ := undecided.same.job
    cases moves
    cases raised : raises calls.length with
    | some error =>
      rw [serve_raised raised]
      refine keeping_escaped undecided ?_
      rw [depends, raised]
      simp
    | none =>
      rw [serve_db raised]
      refine ⟨undecided.later (.rescheduleChunk found active error.describe) rfl, trivial, ?_⟩
      rw [depends, raised, later]
      simp

/-- Every call of a run leads on, whether it raises or not. -/
theorem Keeping.step {message : Message} {phase : Phase} (keeping : Keeping config raises task start calls world phase)
    (moves : Handler.step config owner task phase = some ⟨op, onward⟩) :
    let answer := serve config (some message) markdown raises calls op world
    Keeping config raises task start (calls ++ [⟨op, answer.1⟩]) answer.2 (onward answer.1) := by
  cases phase with
  | looking =>
    obtain ⟨length, rfl⟩ := keeping
    exact Keeping.looking length moves
  | startingRow | startingJob | fetching | preparing | converting | storing => exact keeping.converting rfl moves
  | completing => exact keeping.completing moves
  | loading => exact keeping.assembling (.inl rfl) moves
  | listing | reading | writing | recording | finishing | aborting => exact keeping.assembling (.inr rfl) moves
  | parking => exact keeping.parking moves
  | retrying => exact keeping.retrying moves
  | failingChunk => exact keeping.failing (.inl rfl) moves
  | failingJob => exact keeping.failing (.inr (.inl rfl)) moves
  | rescheduling => exact keeping.failing (.inr (.inr rfl)) moves
  | dropped | counted | finished | aborted | failed | retried | escaped => cases moves

end Steps

end Handler

namespace Worker

/-- The run of `on_task` on a message, when the calls raise as chosen and the converter answers as given: what it
returns, its calls, and the world in which the message is acked. -/
def acked (config : Config) (owner : Str) (origin : ℕ) (task : ChunkTask) (markdown : Str) (raises : ℕ → Option Exc)
    (world : World) : Except Exc Unit × List Step × World :=
  (onTask config owner task).eval (serve config (some ⟨origin, .task task⟩) markdown raises) [] world

end Worker

namespace Deployment

end Deployment

end MarkitdownServer
