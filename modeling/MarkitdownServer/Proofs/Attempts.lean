import Mathlib.Data.List.Perm.Subperm
import MarkitdownServer.Proofs.Calm
import MarkitdownServer.Proofs.Counter
import MarkitdownServer.Proofs.Ledger

/-! # The attempts of a chunk

The limit on attempts is checked against the number in the message, and only a published retry increases
that number. A worker that dies while it converts leaves the message as it was, so the redelivered message
starts a conversion at an attempt that has been used already. As long as no worker dies later than that,
every attempt number starts one conversion at most, and the last one to fail takes its job with it.
-/

namespace MarkitdownServer

open Effects Transition

/-- A conversion is started. -/
def Step.starts : Step → Bool
  | ⟨.tool (.markItDown _), _⟩ => true
  | _ => false

/-- A message is published. -/
def Step.publishes : Step → Bool
  | ⟨.amqp (.basicPublish ..), _⟩ => true
  | _ => false

/-- A started conversion fails: the converter raises, or its text cannot be stored. -/
def Step.failsConversion (task : ChunkTask) : Step → Bool
  | ⟨.tool _, .error _⟩ => true
  | ⟨.s3 (.putObject key _), .error _⟩ => key = partKey task.docKey task.chunkIndex
  | _ => false

/-- The origin and the attempt of the message for which a conversion is started. -/
def Event.start? : Event → Option (ℕ × ℕ)
  | .called (some ⟨origin, .task task⟩) call => if call.starts then some (origin, task.attempt) else none
  | _ => none

namespace Handler

/-- What a handler has done on the way to its phase. -/
def Linked (calls : List Step) : Phase → Prop
  | .looking | .startingRow | .startingJob | .fetching | .preparing _ =>
      calls.any Step.starts = false ∧ calls.any Step.publishes = false
  | .converting _ | .storing _ | .completing => calls.any Step.starts = true ∧ calls.any Step.publishes = false
  | .parking _ _ | .rescheduling _ | .retrying _ => calls.any Step.publishes = false
  | .failingChunk _ | .failingJob _ | .failed | .retried => calls.any Step.publishes = true
  | .loading | .listing _ | .reading _ _ _ _ | .writing _ _ _ | .recording _ _ | .finishing _ | .aborting _
  | .counted | .finished | .aborted => calls.any Step.starts = true
  | .dropped | .escaped => True

variable {config : Config} {owner : Str} {task : ChunkTask} {origin : ℕ} {world after : World} {calls : List Step}
  {phase : Phase} {op : Op} {onward : Except Exc op.Reply → Phase} {reply : Except Exc op.Reply} {fate : Fate}

/-- A handler that has neither started a conversion nor published is still about its chunk. -/
theorem Linked.stage (linked : Linked calls phase) (unstarted : calls.any Step.starts = false)
    (unpublished : calls.any Step.publishes = false) :
    phase.stage = .carrying ∨ phase.stage = .exhausting ∨ phase.stage = .dropped := by
  cases phase with
  | looking | startingRow | startingJob | fetching | preparing | rescheduling | retrying => exact .inl rfl
  | converting | storing | completing => exact .inl rfl
  | parking | failingChunk | failingJob => exact .inr (.inl rfl)
  | dropped | escaped => exact .inr (.inr rfl)
  | failed | retried => cases unpublished.symm.trans linked
  | _ => cases unstarted.symm.trans linked

theorem linked_failure {error : Exc} (unpublished : calls.any Step.publishes = false) :
    Linked calls (failure config task error) := by
  unfold failure
  split <;> exact unpublished

theorem linked_gather {job : JobRow} {parts : List Str} (indices : List ℕ) (started : calls.any Step.starts = true) :
    Linked calls (gather job parts indices) := by
  cases indices <;> exact started

/-- Which calls start a conversion or publish, and from where. -/
inductive Counts (config : Config) (origin : ℕ) (task : ChunkTask) (world after : World) (call : Step) : Phase → Prop
  | plain {phase : Phase} (unstarted : call.starts = false) (unpublished : call.publishes = false)
      (broker : after.broker = world.broker) : Counts config origin task world after call phase
  | start (source : Bytes) (started : call.starts = true) (unpublished : call.publishes = false)
      (broker : after.broker = world.broker) : Counts config origin task world after call (.preparing source)
  | retry (sending : Sending) (unstarted : call.starts = false) (published : call.publishes = true)
      (broker : after.broker = world.broker.publish (declare config) (some ⟨origin, .task task⟩) config.retryExchange
        (config.retryQueueName task.attempt) (.task task.nextAttempt)) :
      Counts config origin task world after call (.retrying sending)
  | park (error : Exc) (sending : Sending) (text : Str) (unstarted : call.starts = false)
      (published : call.publishes = true)
      (broker : after.broker = world.broker.publish (declare config) (some ⟨origin, .task task⟩) config.dlxExchange
        config.rabbitmqQueue (.failed task text)) : Counts config origin task world after call (.parking error sending)

theorem counts (proper : Proper config task phase) (moves : step config owner task phase = some ⟨op, onward⟩)
    (carried : op.carry config (some ⟨origin, .task task⟩) world fate = some (reply, after))
    (calm : op.isDurable = true → fate = .done) : Counts config origin task world after ⟨op, reply⟩ phase := by
  cases phase with
  | dropped | counted | finished | aborted | failed | retried | escaped => cases moves
  | looking | startingRow | startingJob | completing | loading | listing | recording | finishing | aborting
  | failingChunk | failingJob | rescheduling =>
    cases moves
    cases calm rfl
    cases carried
    exact .plain rfl rfl rfl
  | fetching | storing | reading =>
    cases moves
    exact .plain rfl rfl (carry_s3_frame carried).2
  | writing =>
    simp only [Handler.step] at moves
    split at moves <;> cases moves <;> exact .plain rfl rfl (carry_s3_frame carried).2
  | converting =>
    cases moves
    exact .plain rfl rfl (carry_tool carried ▸ rfl)
  | preparing source =>
    cases moves
    exact .start source rfl rfl (carry_tool carried ▸ rfl)
  | parking error sending =>
    cases sending with
    | opening resending =>
      cases moves
      cases calm rfl
      cases carried
      exact .plain rfl rfl rfl
    | sending resending body rest =>
      obtain ⟨rfl, rfl⟩ := proper.2
      cases moves
      cases calm rfl
      cases carried
      exact .park error _ _ rfl rfl rfl
  | retrying sending =>
    cases sending with
    | opening resending =>
      cases moves
      cases calm rfl
      cases carried
      exact .plain rfl rfl rfl
    | sending resending body rest =>
      obtain ⟨rfl, rfl⟩ := proper.2
      cases moves
      cases calm rfl
      cases carried
      exact .retry _ rfl rfl rfl

/-- The messages after a call: those before it, the next attempt within the limit, and parked tasks. -/
theorem Counts.messages {call : Step} (counts : Counts config origin task world after call phase)
    (proper : Proper config task phase) {entry : Str × Message} (member : entry ∈ after.broker.messages) :
    entry ∈ world.broker.messages ∨
      (entry.2 = ⟨origin, .task task.nextAttempt⟩ ∧ task.attempt < config.maxAttempts) ∨
      ∃ text, entry.2 = ⟨origin, .failed task text⟩ := by
  cases counts with
  | plain _ _ broker | start _ _ _ broker =>
    rw [broker] at member
    exact .inl member
  | retry sending _ _ broker =>
    rw [broker] at member
    rcases List.mem_append.mp member with old | new
    · exact .inl old
    · obtain ⟨queue, _, rfl⟩ := List.mem_map.mp new
      exact .inr (.inl ⟨rfl, proper.1⟩)
  | park error sending text _ _ broker =>
    rw [broker] at member
    rcases List.mem_append.mp member with old | new
    · exact .inl old
    · obtain ⟨queue, _, rfl⟩ := List.mem_map.mp new
      exact .inr (.inr ⟨text, rfl⟩)

/-- One more call, by what it counts as. -/
theorem any_call (calls : List Step) (call : Step) :
    (calls ++ [call]).any Step.starts = (calls.any Step.starts || call.starts) ∧
      (calls ++ [call]).any Step.publishes = (calls.any Step.publishes || call.publishes) := by
  simp only [List.any_append, List.any_cons, List.any_nil, Bool.or_false, and_self]

theorem Linked.step (linked : Linked calls phase) (proper : Proper config task phase)
    (moves : step config owner task phase = some ⟨op, onward⟩)
    (carried : op.carry config (some ⟨origin, .task task⟩) world fate = some (reply, after))
    (calm : op.isDurable = true → fate = .done) : Linked (calls ++ [⟨op, reply⟩]) (onward reply) := by
  obtain ⟨starts, publishes⟩ := any_call calls ⟨op, reply⟩
  have still (call : Step) (kept : calls.any Step.starts = true) : (calls ++ [call]).any Step.starts = true := by
    rw [(any_call calls call).1, kept, Bool.true_or]
  have none (call : Step) (kept : calls.any Step.publishes = false) (silent : call.publishes = false) :
      (calls ++ [call]).any Step.publishes = false := by
    rw [(any_call calls call).2, kept, silent, Bool.or_self]
  cases phase with
  | dropped | counted | finished | aborted | failed | retried | escaped => cases moves
  | looking | startingRow | startingJob =>
    cases moves
    rw [linked.1, Bool.false_or] at starts
    rw [linked.2, Bool.false_or] at publishes
    dsimp only
    split <;> (try split) <;> trivial
  | fetching =>
    cases moves
    rw [linked.1, Bool.false_or] at starts
    rw [linked.2, Bool.false_or] at publishes
    dsimp only
    split <;> first | exact ⟨starts, publishes⟩ | exact linked_failure publishes
  | preparing source =>
    cases moves
    rw [linked.2, Bool.false_or] at publishes
    dsimp only
    split
    · exact ⟨starts.trans (Bool.or_true _), publishes⟩
    · exact linked_failure publishes
  | converting | storing =>
    cases moves
    have unpublished := none ⟨_, reply⟩ linked.2 rfl
    dsimp only
    split <;> first | exact ⟨still _ linked.1, unpublished⟩ | exact linked_failure unpublished
  | completing =>
    cases moves
    dsimp only
    split <;> (try split) <;> first | trivial | exact still _ linked.1
  | loading | recording | finishing | aborting =>
    cases moves
    dsimp only
    split <;> first | trivial | exact still _ linked
  | listing | reading =>
    cases moves
    dsimp only
    split <;> first | exact linked_gather _ (still _ linked) | exact still _ linked
  | writing =>
    simp only [Handler.step] at moves
    split at moves <;> cases moves <;> dsimp only <;> split <;> exact still _ linked
  | failingChunk | failingJob =>
    cases moves
    dsimp only
    split
    · exact publishes.trans (by rw [linked, Bool.true_or])
    · trivial
  | rescheduling =>
    cases moves
    dsimp only
    split
    · exact none _ linked rfl
    · trivial
  | parking error sending =>
    obtain ⟨request, rfl⟩ := Sending.op_of_step moves
    cases calm rfl
    cases sending with
    | opening resending =>
      cases moves
      cases carried
      exact none _ linked rfl
    | sending resending body rest =>
      obtain ⟨rfl, rfl⟩ := proper.2
      cases moves
      cases carried
      exact publishes.trans (Bool.or_true _)
  | retrying sending =>
    obtain ⟨request, rfl⟩ := Sending.op_of_step moves
    cases calm rfl
    cases sending with
    | opening resending =>
      cases moves
      cases carried
      exact none _ linked rfl
    | sending resending body rest =>
      obtain ⟨rfl, rfl⟩ := proper.2
      cases moves
      cases carried
      exact publishes.trans (Bool.or_true _)

/-- A conversion that fails at the last attempt leaves a handler that gives the chunk up. -/
theorem exhausting_of_fails (linked : Linked calls phase) (moves : step config owner task phase = some ⟨op, onward⟩)
    (exhausted : config.maxAttempts ≤ task.attempt) (fails : Step.failsConversion task ⟨op, reply⟩ = true) :
    (onward reply).stage = .exhausting ∧ (calls ++ [(⟨op, reply⟩ : Step)]).any Step.starts = true := by
  have given (error : Exc) : (failure config task error).stage = .exhausting := by
    rw [failure, if_pos exhausted]
    rfl
  have starts := (any_call calls (⟨op, reply⟩ : Step)).1
  cases phase with
  | dropped | counted | finished | aborted | failed | retried | escaped => cases moves
  | preparing source =>
    cases moves
    cases reply with
    | ok => cases fails
    | error error => exact ⟨given error, starts.trans (Bool.or_true _)⟩
  | converting | storing =>
    cases moves
    cases reply with
    | ok => cases fails
    | error error => exact ⟨given error, starts.trans (by rw [linked.1, Bool.true_or])⟩
  | writing =>
    simp only [Handler.step] at moves
    split at moves <;> cases moves <;> cases reply <;> simp [Step.failsConversion] at fails
  | parking | retrying =>
    obtain ⟨request, rfl⟩ := Sending.op_of_step moves
    cases fails
  | _ =>
    cases moves
    cases fails

end Handler

/-! ## Runs in which workers die early only -/

namespace Deployment

/-- Statements and publishes are carried out, the broker copies no message, and no worker dies that has started
a conversion or published. -/
def diesEarly (state : Deployment) : Label → Bool
  | .duplicate _ => false
  | .crash index =>
    match state.procs[index]? with
    | some proc => proc.message.isNone || !proc.calls.any fun call => call.starts || call.publishes
    | none => true
  | label => state.calm label

end Deployment

namespace Fleet

variable (env : Env)

/-- The same of a step of the fleet. -/
structure DiesEarly (fleet : Fleet) (label : Label) : Prop where
  copies : ∀ index, label ≠ .duplicate index
  calm : Calm env fleet label
  early : ∀ before agent rest, label = .crash before.length → fleet.agents = before ++ agent :: rest →
    agent.message = none ∨ agent.calls.any Step.starts = false ∧ agent.calls.any Step.publishes = false

variable {env}

theorem Mirrors.diesEarly {state : Deployment} {fleet : Fleet} {label : Label} (mirrors : Mirrors env state fleet)
    (early : state.diesEarly label = true) : DiesEarly env fleet label := by
  refine ⟨?_, ?_, ?_⟩
  · rintro index rfl
    cases early
  · rintro fate before agent rest op rfl found next durable
    exact mirrors.calm early found next durable
  · rintro before agent rest rfl found
    obtain ⟨proc, at_, runs⟩ := mirrors.exists_proc found
    have messages : proc.message = agent.message := by cases agent <;> exact runs.1
    simp only [Deployment.diesEarly, at_, Bool.or_eq_true, Option.isNone_iff_eq_none, Bool.not_eq_eq_eq_not,
      Bool.not_true, messages, runs.calls] at early
    refine early.imp id fun none => ?_
    have each : ∀ call ∈ agent.calls, call.starts = false ∧ call.publishes = false := by
      simpa only [List.any_eq_false, Bool.or_eq_true, not_or, Bool.not_eq_true] using none
    exact ⟨List.any_eq_false.mpr fun call member => by simp [(each call member).1],
      List.any_eq_false.mpr fun call member => by simp [(each call member).2]⟩

end Fleet

/-! ## What holds of every process and message -/

/-- A task with an attempt number within the limit. -/
def ChunkTask.InRange (config : Config) (task : ChunkTask) : Prop :=
  1 ≤ task.attempt ∧ (task.attempt : ℤ) ≤ config.maxAttempts

theorem ChunkTask.InRange.nextAttempt {config : Config} {task : ChunkTask} (range : task.InRange config)
    (left : task.attempt < config.maxAttempts) : task.nextAttempt.InRange config := by
  obtain ⟨positive, _⟩ := range
  simp only [ChunkTask.InRange, ChunkTask.nextAttempt]
  omega

/-- What holds of a process on its own. -/
def Agent.Regular (env : Env) : Agent → Prop
  | .producer _ useLlm phase _ => Producer.Proper env useLlm phase
  | .handler _ _ task phase calls =>
      Handler.Proper env.toConfig task phase ∧ Handler.Linked calls phase ∧ task.InRange env.toConfig

namespace Producer

variable {env : Env} {useLlm : Bool} {file : Bytes} {ranges : List (ℤ × ℤ)} {jobId : Str}

private theorem map_tasksFrom (jobId key fileHash : Str) (total : ℕ) (useLlm : Bool) (index : ℕ)
    (ranges : List (ℤ × ℤ)) :
    (Api.tasksFrom jobId key fileHash total useLlm index ranges).map
      (fun task => (task.jobId, task.chunkIndex, task.attempt)) =
      (List.range' index ranges.length).map fun i => (jobId, i, 1) := by
  induction ranges generalizing index with
  | nil => rfl
  | cons range ranges ih => exact congrArg (List.cons (jobId, index, 1)) (ih (index + 1))

/-- The tasks of a new job are numbered in order, each at its first attempt. -/
theorem map_tasks : (tasks env useLlm file ranges jobId).map (fun task => (task.jobId, task.chunkIndex, task.attempt)) =
    (List.range ranges.length).map fun i => (jobId, i, 1) := by
  rw [tasks, map_tasksFrom, List.range_eq_range']

theorem mem_tasks {task : ChunkTask} (member : task ∈ tasks env useLlm file ranges jobId) :
    task.jobId = jobId ∧ task.chunkIndex < ranges.length ∧ task.attempt = 1 := by
  have mapped := List.mem_map_of_mem (f := fun task : ChunkTask => (task.jobId, task.chunkIndex, task.attempt)) member
  rw [map_tasks] at mapped
  obtain ⟨i, bound, same⟩ := List.mem_map.mp mapped
  simp only [Prod.mk.injEq] at same
  exact ⟨same.1.symm, same.2.1 ▸ List.mem_range.mp bound, same.2.2.symm⟩

/-- What is yet to publish are first attempts. -/
theorem Proper.first_attempt {phase : Phase} (proper : Proper env useLlm phase) {body : Body}
    (member : body ∈ unsent env useLlm phase) : ∃ task, body = .task task ∧ task.attempt = 1 := by
  rcases proper.unsent_suffix with none | ⟨file, ranges, jobId, suffix⟩
  · rw [none] at member
    cases member
  · obtain ⟨task, inside, rfl⟩ := List.mem_map.mp (suffix.subset member)
    exact ⟨task, rfl, (mem_tasks inside).2.2⟩

end Producer

namespace Fleet

/-- What holds of the processes, the messages and the past of a fleet on their own. -/
structure Regular (env : Env) (fleet : Fleet) : Prop where
  agents : ∀ agent ∈ fleet.agents, agent.Regular env
  messages : ∀ entry ∈ fleet.world.broker.messages, ∀ task, entry.2.body = .task task → task.InRange env.toConfig
  trace : ∀ event ∈ fleet.trace, ∀ origin attempt, event.start? = some (origin, attempt) →
    1 ≤ attempt ∧ (attempt : ℤ) ≤ env.maxAttempts

variable {env : Env} {fleet after : Fleet} {label : Label}

theorem Regular.handler (regular : Regular env fleet) {before rest : List Agent} {owner : Str} {origin : ℕ}
    {task : ChunkTask} {phase : Handler.Phase} {calls : List Step}
    (found : fleet.agents = before ++ .handler owner origin task phase calls :: rest) :
    Handler.Proper env.toConfig task phase ∧ Handler.Linked calls phase ∧ task.InRange env.toConfig :=
  regular.agents (.handler owner origin task phase calls) (found ▸ List.mem_append_right _ (List.mem_cons_self ..))

theorem Regular.producer (regular : Regular env fleet) {before rest : List Agent} {url : Str} {useLlm : Bool}
    {phase : Producer.Phase} {calls : List Step}
    (found : fleet.agents = before ++ .producer url useLlm phase calls :: rest) :
    Producer.Proper env useLlm phase :=
  regular.agents (.producer url useLlm phase calls) (found ▸ List.mem_append_right _ (List.mem_cons_self ..))

theorem DiesEarly.durable (early : DiesEarly env fleet label) {before rest : List Agent} {agent : Agent} {op : Op}
    {fate : Fate} (acts : label = .act before.length fate) (found : fleet.agents = before ++ agent :: rest)
    (next : agent.next env = some op) : op.isDurable = true → fate = .done :=
  early.calm fate before agent rest op acts found next

theorem regular_agents_of_stepped (regular : Regular env fleet) (early : DiesEarly env fleet label)
    (stepped : Stepped env fleet label after) : ∀ agent ∈ after.agents, agent.Regular env := by
  refine stepped.forall_agents (fun _ => Agent.Regular env) regular.agents (fun _ _ holds => holds) ?_ ?_ ?_ ?_
  · intro url useLlm _
    trivial
  · intro index owner origin task _ member
    exact ⟨trivial, ⟨rfl, rfl⟩, regular.messages _ member task rfl⟩
  · intro index fate url useLlm phase calls op onward reply before rest acts found position moves carried
    exact (regular.producer found).step moves reply
  · rintro index fate owner origin task phase calls op onward reply before rest acts found rfl moves carried
    obtain ⟨proper, linked, range⟩ := regular.handler found
    have calm := early.durable acts found (by rw [Agent.next, moves]; rfl)
    exact ⟨proper.step moves carried, linked.step proper moves carried calm, range⟩

theorem regular_messages_of_stepped (positive : 1 ≤ env.maxAttempts) (regular : Regular env fleet)
    (early : DiesEarly env fleet label) (stepped : Stepped env fleet label after) :
    ∀ entry ∈ after.world.broker.messages, ∀ task, entry.2.body = .task task → task.InRange env.toConfig := by
  cases stepped with
  | submit url useLlm | finish found position ended => exact regular.messages
  | @deliver index owner origin task before rest found =>
    intro entry member
    refine regular.messages entry (found ▸ ?_)
    exact List.perm_middle.mem_iff.mpr (List.mem_cons_of_mem _ member)
  | duplicate found => exact absurd rfl (early.copies _)
  | @expire index queue exchange message decl before rest found declared named timed target =>
    intro entry member
    rcases List.mem_append.mp member with old | again
    · refine regular.messages entry (found ▸ ?_)
      exact List.perm_middle.mem_iff.mpr (List.mem_cons_of_mem _ old)
    · obtain ⟨target, _, rfl⟩ := List.mem_map.mp again
      exact regular.messages (queue, message) (found ▸ List.mem_append_right _ (List.mem_cons_self ..))
  | @produced index fate url useLlm phase calls op onward reply world before rest found position moves carried =>
    have advance := Producer.advance moves carried
      (early.durable (position ▸ rfl) found (by rw [Agent.next, moves]; rfl))
    generalize onward reply = next at advance
    cases advance with
    | idle same db broker =>
      rw [broker]
      exact regular.messages
    | create created => exact regular.messages
    | @publish _ _ body more first left =>
      intro entry member task same
      rcases List.mem_append.mp member with old | new
      · exact regular.messages entry old task same
      · obtain ⟨queue, _, rfl⟩ := List.mem_map.mp new
        obtain ⟨other, rfl, attempt⟩ := (regular.producer found).first_attempt
          (first ▸ List.mem_cons_self : body ∈ Producer.unsent env useLlm phase)
        cases same
        exact ⟨attempt.ge, by rw [attempt]; exact positive⟩
  | @handled index fate owner origin task phase calls op onward reply world before rest found position moves
      carried =>
    obtain ⟨proper, linked, range⟩ := regular.handler found
    have counts := Handler.counts proper moves carried
      (early.durable (position ▸ rfl) found (by rw [Agent.next, moves]; rfl))
    intro entry member other same
    rcases counts.messages proper member with old | ⟨next, left⟩ | ⟨text, parked⟩
    · exact regular.messages entry old other same
    · rw [next] at same
      cases same
      exact ChunkTask.InRange.nextAttempt range left
    · rw [parked] at same
      cases same
  | @crash index agent before rest found position =>
    intro entry member task same
    rcases List.mem_append.mp member with old | again
    · exact regular.messages entry old task same
    · cases agent with
      | producer url useLlm phase calls => cases again
      | handler owner origin other phase calls =>
        cases List.mem_singleton.mp again
        cases same
        exact (regular.handler found).2.2

theorem regular_of_stepped (positive : 1 ≤ env.maxAttempts) (regular : Regular env fleet)
    (early : DiesEarly env fleet label) (stepped : Stepped env fleet label after) : Regular env after := by
  refine ⟨regular_agents_of_stepped regular early stepped,
    regular_messages_of_stepped positive regular early stepped, ?_⟩
  have extended {event : Event} (new : ∀ origin attempt, event.start? = some (origin, attempt) →
      1 ≤ attempt ∧ (attempt : ℤ) ≤ env.maxAttempts) : ∀ other ∈ fleet.trace ++ [event], ∀ origin attempt,
      other.start? = some (origin, attempt) → 1 ≤ attempt ∧ (attempt : ℤ) ≤ env.maxAttempts := by
    intro other member
    rcases List.mem_append.mp member with old | last
    · exact regular.trace other old
    · cases List.mem_singleton.mp last
      exact new
  cases stepped with
  | submit | expire => exact regular.trace
  | duplicate => exact regular.trace
  | deliver | finish | crash | produced => exact extended (by rintro _ _ ⟨⟩)
  | @handled index fate owner origin task phase calls op onward reply world before rest found position moves
      carried =>
    refine extended fun start attempt same => ?_
    simp only [Event.start?, Option.ite_none_right_eq_some, Option.some.injEq, Prod.mk.injEq] at same
    exact same.2.2 ▸ (regular.handler found).2.2

/-! ## Every attempt number is used once -/

/-- What may still start a conversion of a lineage at an attempt number, or has started it. -/
def burning (lineage number : ℕ) : Ledger where
  message
    | (_, ⟨origin, .task task⟩) => if origin = lineage ∧ task.attempt ≤ number then 1 else 0
    | _ => 0
  agent
    | .handler _ origin task _ calls =>
      if origin = lineage ∧ calls.any Step.publishes = false ∧
        (task.attempt < number ∨ task.attempt = number ∧ calls.any Step.starts = false) then 1 else 0
    | .producer .. => 0
  event event := if event.start? = some (lineage, number) then 1 else 0

section Burning

variable (lineage number : ℕ)

@[simp] theorem burning_task (queue : Str) (origin : ℕ) (task : ChunkTask) :
    (burning lineage number).message (queue, ⟨origin, .task task⟩) =
      if origin = lineage ∧ task.attempt ≤ number then 1 else 0 := rfl

@[simp] theorem burning_failed (queue : Str) (origin : ℕ) (task : ChunkTask) (error : Str) :
    (burning lineage number).message (queue, ⟨origin, .failed task error⟩) = 0 := rfl

@[simp] theorem burning_producer (url : Str) (useLlm : Bool) (phase : Producer.Phase) (calls : List Step) :
    (burning lineage number).agent (.producer url useLlm phase calls) = 0 := rfl

@[simp] theorem burning_handler (owner : Str) (origin : ℕ) (task : ChunkTask) (phase : Handler.Phase)
    (calls : List Step) :
    (burning lineage number).agent (.handler owner origin task phase calls) =
      if origin = lineage ∧ calls.any Step.publishes = false ∧
        (task.attempt < number ∨ task.attempt = number ∧ calls.any Step.starts = false) then 1 else 0 := rfl

@[simp] theorem burning_call (origin : ℕ) (task : ChunkTask) (call : Step) :
    (burning lineage number).event (.called (some ⟨origin, .task task⟩) call) =
      if call.starts = true ∧ origin = lineage ∧ task.attempt = number then 1 else 0 := by
  cases started : call.starts <;> simp [burning, Event.start?, started]

end Burning

theorem fresh_le_of_carry {config : Config} {parent : Option Message} {world after : World} {op : Op} {fate : Fate}
    {reply : Except Exc op.Reply} (carried : op.carry config parent world fate = some (reply, after)) :
    world.broker.fresh ≤ after.broker.fresh := by
  have published (request : Amqp) : world.broker.fresh ≤ (request.exec config parent world.broker).fresh := by
    cases request with
    | channel => exact Nat.le_refl _
    | basicPublish exchange routingKey body =>
      cases parent with
      | none => exact Nat.le_succ _
      | some message => exact Nat.le_refl _
  cases op with
  | db stmt => rcases carry_db carried with ⟨_, _, rfl⟩ | ⟨_, _, _, rfl⟩ | ⟨_, _, _, rfl⟩ <;> exact Nat.le_refl _
  | s3 request => rw [(Handler.carry_s3_frame carried).2]
  | tool request => rw [carry_tool carried]
  | amqp request =>
    rcases carry_amqp carried with ⟨_, _, rfl⟩ | ⟨_, _, _, rfl⟩ | ⟨_, _, _, rfl⟩
    · exact published request
    · exact Nat.le_refl _
    · exact published request

theorem fresh_le_of_stepped (stepped : Stepped env fleet label after) :
    fleet.world.broker.fresh ≤ after.world.broker.fresh := by
  cases stepped with
  | produced found position moves carried | handled found position moves carried => exact fresh_le_of_carry carried
  | _ => exact Nat.le_refl _

/-- A lineage that has begun starts one conversion for each attempt number at most. -/
theorem burning_of_stepped {lineage number : ℕ} (regular : Regular env fleet) (early : DiesEarly env fleet label)
    (stepped : Stepped env fleet label after)
    (bounded : (burning lineage number).total fleet ≤ if lineage < fleet.world.broker.fresh then 1 else 0) :
    (burning lineage number).total after ≤ if lineage < after.world.broker.fresh then 1 else 0 := by
  have grows := fresh_le_of_stepped stepped
  have added := (burning lineage number).total_le_of_stepped stepped
    (if fleet.world.broker.fresh ≤ lineage ∧ lineage < after.world.broker.fresh then 1 else 0)
    (fun _ _ => rfl) ?_ early.copies ?_ ?_ ?_ (fun _ => rfl) ?_
  · split_ifs at bounded added ⊢ <;> omega
  · intro owner origin task
    have silent : (burning lineage number).event (.delivered ⟨origin, .task task⟩) = 0 := rfl
    simp only [silent, burning_task, burning_handler, List.any_nil, true_and, and_true, Nat.add_zero,
      ← Nat.le_iff_lt_or_eq, Nat.le_refl]
  · rintro queue ⟨origin, _ | _⟩ <;> exact Nat.le_refl _
  · intro index fate url useLlm phase calls op onward reply before rest acts found position moves carried
    have advance := Producer.advance moves carried
      (early.durable (position ▸ acts) found (by rw [Agent.next, moves]; rfl))
    have silent : (burning lineage number).event (.called none ⟨op, reply⟩) = 0 := rfl
    rw [silent]
    generalize onward reply = next at advance
    generalize after.world = world at advance
    cases advance with
    | idle same db broker =>
      rw [broker]
      exact Nat.le_add_right _ _
    | create created => exact Nat.le_add_right _ _
    | @publish _ _ body more first left =>
      obtain ⟨task, rfl, attempt⟩ := (regular.producer found).first_attempt
        (first ▸ List.mem_cons_self : body ∈ Producer.unsent env useLlm phase)
      have fresh : (fleet.world.broker.publish (declare env.toConfig) none env.rabbitmqExchange env.rabbitmqQueue
          (.task task)).fresh = fleet.world.broker.fresh + 1 := rfl
      simp only [Ledger.queued_publish_first, burning_task, burning_producer, fresh, Nat.add_zero]
      split_ifs <;> omega
  · intro index fate owner origin task phase calls op onward reply before rest acts found position moves carried
    obtain ⟨proper, linked, range⟩ := regular.handler found
    have counts := Handler.counts proper moves carried
      (early.durable (position ▸ acts) found (by rw [Agent.next, moves]; rfl))
    obtain ⟨starts, publishes⟩ := Handler.any_call calls ⟨op, reply⟩
    generalize after.world = world at counts
    rw [burning_handler, burning_handler, burning_call, starts, publishes]
    cases counts with
    | plain unstarted unpublished broker =>
      simp only [broker, unstarted, unpublished, Bool.or_false, Bool.false_eq_true, false_and, if_false, Nat.add_zero,
        Nat.le_refl]
    | start source started unpublished broker =>
      simp only [broker, started, unpublished, linked.1, linked.2, Bool.or_false, Bool.or_true, Bool.true_eq_false,
        and_false, or_false, true_and, and_true]
      split_ifs <;> omega
    | retry sending unstarted published broker =>
      have sent := (burning lineage number).queued_publish_retry env.toConfig fleet.world.broker ⟨origin, .task task⟩
        task.attempt (.task task.nextAttempt)
      rw [← broker, burning_task] at sent
      have paid : (if origin = lineage ∧ task.nextAttempt.attempt ≤ number then 1 else 0) ≤
          if origin = lineage ∧ calls.any Step.publishes = false ∧
            (task.attempt < number ∨ task.attempt = number ∧ calls.any Step.starts = false) then 1 else 0 := by
        split_ifs with next now
        · exact Nat.le_refl _
        · exact absurd ⟨next.1, linked, .inl next.2⟩ now
        · exact Nat.zero_le _
        · exact Nat.le_refl _
      simp only [unstarted, published, Bool.or_true, Bool.true_eq_false, Bool.false_eq_true, false_and, and_false,
        if_false, Nat.add_zero]
      exact sent.trans (Nat.add_le_add_left paid _)
    | park error sending text unstarted published broker =>
      have sent := (burning lineage number).queued_publish_failed env.toConfig fleet.world.broker ⟨origin, .task task⟩
        (.failed task text)
      rw [← broker, burning_failed] at sent
      simp only [sent, unstarted, published, Bool.or_true, Bool.true_eq_false, Bool.false_eq_true, false_and, and_false,
        if_false]
      omega
  · rintro index agent before rest crashed found rfl
    rcases early.early before agent rest crashed found with none | ⟨unstarted, unpublished⟩
    · rw [none]
      exact Nat.zero_le _
    · cases agent with
      | producer url useLlm phase calls => exact Nat.zero_le _
      | handler owner origin task phase calls =>
        have silent : (burning lineage number).event (.died (some ⟨origin, .task task⟩)) = 0 := rfl
        have unstarted : calls.any Step.starts = false := unstarted
        have unpublished : calls.any Step.publishes = false := unpublished
        simp only [Agent.message, Option.toList_some, List.map_cons, List.map_nil, Ledger.queued_cons, Ledger.queued_nil,
          silent, burning_task, burning_handler, unstarted, unpublished, true_and, and_true, Nat.add_zero,
          ← Nat.le_iff_lt_or_eq, Nat.le_refl]

/-- The starts of a lineage at an attempt number weigh what they count. -/
theorem sum_burning (lineage number : ℕ) (trace : List Event) :
    (trace.map (burning lineage number).event).sum = (trace.filterMap Event.start?).count (lineage, number) := by
  induction trace with
  | nil => rfl
  | cons event trace ih =>
    rw [List.map_cons, List.sum_cons, ih]
    have weight : (burning lineage number).event event = if event.start? = some (lineage, number) then 1 else 0 := rfl
    rw [weight]
    cases found : event.start? with
    | none =>
      rw [List.filterMap_cons_none found, if_neg (Option.some_ne_none _).symm, Nat.zero_add]
    | some start =>
      rw [List.filterMap_cons_some found, List.count_cons, Nat.add_comm]
      simp only [Option.some.injEq, beq_iff_eq]

/-- What holds in every state of a run in which workers die early only. -/
structure Burnt (env : Env) (fleet : Fleet) : Prop extends Regular env fleet where
  once : ∀ lineage number, (burning lineage number).total fleet ≤ if lineage < fleet.world.broker.fresh then 1 else 0

theorem Burnt.step (positive : 1 ≤ env.maxAttempts) (burnt : Burnt env fleet) (early : DiesEarly env fleet label)
    (stepped : Stepped env fleet label after) : Burnt env after :=
  ⟨regular_of_stepped positive burnt.toRegular early stepped,
    fun lineage number => burning_of_stepped burnt.toRegular early stepped (burnt.once lineage number)⟩

theorem Burnt.nodup (burnt : Burnt env fleet) : (fleet.trace.filterMap Event.start?).Nodup := by
  rw [List.nodup_iff_count_le_one]
  rintro ⟨lineage, number⟩
  have once := burnt.once lineage number
  rw [← sum_burning]
  unfold Ledger.total at once
  split_ifs at once <;> omega

/-- Distinct numbers up to a limit are no more than the limit. -/
theorem Burnt.length_le (burnt : Burnt env fleet) (lineage : ℕ) :
    (((fleet.trace.filterMap Event.start?).filter fun start => start.1 = lineage).length : ℤ) ≤
      max env.maxAttempts 0 := by
  have distinct := burnt.nodup.filter fun start => decide (start.1 = lineage)
  generalize listed : (fleet.trace.filterMap Event.start?).filter (fun start => decide (start.1 = lineage)) = starts at *
  have within : starts ⊆ (List.range env.maxAttempts.toNat).map fun i => (lineage, i + 1) := by
    rintro ⟨origin, attempt⟩ member
    obtain ⟨began, same⟩ := List.mem_filter.mp (listed ▸ member)
    obtain ⟨event, past, found⟩ := List.mem_filterMap.mp began
    obtain ⟨positive, limit⟩ := burnt.trace event past origin attempt found
    refine List.mem_map.mpr ⟨attempt - 1, List.mem_range.mpr (by omega), ?_⟩
    rw [← of_decide_eq_true same, Nat.sub_add_cancel positive]
  have short := (List.subperm_of_subset distinct within).length_le
  rw [List.length_map, List.length_range] at short
  omega

end Fleet

end MarkitdownServer
