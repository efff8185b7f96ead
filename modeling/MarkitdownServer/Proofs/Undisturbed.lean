import Mathlib.Logic.Hydra
import MarkitdownServer.Proofs.Calm
import MarkitdownServer.Proofs.Ledger

/-! # Workers that nothing disturbs

Jobs have been created and their messages published; from there on only workers move, none of them dies, and
every call outside a conversion is carried out. A message is handled a bounded number of times, since each
retry uses up an attempt, so every run of such workers comes to an end.
-/

namespace MarkitdownServer

open Effects Transition

/-- A call inside a conversion: a call on the tools, or the one that fetches the source. -/
def Op.converts (task : ChunkTask) : Op → Bool
  | .tool _ => true
  | .s3 (.getObject key) => key = sourceKey task.fileHash
  | _ => false

theorem Op.converts_of_durable {task : ChunkTask} {op : Op} (durable : op.isDurable = true) :
    op.converts task = false := by
  cases op with
  | db | amqp => rfl
  | s3 | tool => cases durable

namespace Deployment

/-- A step of a worker or of the broker: nobody dies, the broker copies nothing, and a call outside a conversion is
carried out. -/
def undisturbed (state : Deployment) : Label → Bool
  | .submit _ _ | .duplicate _ | .crash _ => false
  | .deliver _ _ | .expire _ | .finish _ => true
  | .act index fate =>
    match state.procs[index]? with
    | some ⟨some ⟨_, .task task⟩, .call op _, _⟩ => op.converts task || fate.isDone
    | _ => false

end Deployment

namespace Fleet

variable (env : Env)

/-- The same of a step of the fleet. -/
structure Undisturbed (fleet : Fleet) (label : Label) : Prop where
  submits : ∀ url useLlm, label ≠ .submit url useLlm
  copies : ∀ index, label ≠ .duplicate index
  dies : ∀ index, label ≠ .crash index
  done : ∀ fate before owner origin task phase calls rest op onward, label = .act before.length fate →
    fleet.agents = before ++ .handler owner origin task phase calls :: rest →
    Handler.step env.toConfig owner task phase = some ⟨op, onward⟩ → op.converts task = false → fate = .done

variable {env}

theorem Mirrors.undisturbed {state : Deployment} {fleet : Fleet} {label : Label} (mirrors : Mirrors env state fleet)
    (calm : state.undisturbed label = true) : Undisturbed env fleet label := by
  refine ⟨?_, ?_, ?_, ?_⟩
  · rintro url useLlm rfl
    cases calm
  · rintro index rfl
    cases calm
  · rintro index rfl
    cases calm
  · rintro fate before owner origin task phase calls rest op onward rfl found moves outside
    obtain ⟨⟨message, prog, made⟩, at_, runs⟩ := mirrors.exists_proc found
    obtain ⟨next, called⟩ := Agent.Runs.pending_call runs (by rw [Agent.next, moves]; rfl : _ = some op)
    obtain ⟨named, _, _⟩ := runs
    subst named called
    simp only [Deployment.undisturbed, at_, outside, Bool.false_or] at calm
    exact Fate.eq_done calm

end Fleet

/-! ## Only handlers are at work -/

/-- A handler on its way, for an attempt counted from one. -/
def Agent.Works (env : Env) : Agent → Prop
  | .producer .. => False
  | .handler _ _ task phase _ => Handler.Proper env.toConfig task phase ∧ 1 ≤ task.attempt

/-- A task on a queue, for an attempt counted from one, or a task that is parked. -/
def Config.Holds (config : Config) (entry : Str × Message) : Prop :=
  (∃ task, entry.2.body = .task task ∧ 1 ≤ task.attempt ∧
    (entry.1 = config.rabbitmqQueue ∨ ∃ tier, entry.1 = config.tierQueue tier)) ∨
  (entry.1 = config.failedQueue ∧ ∃ task error, entry.2.body = .failed task error)

namespace Fleet

/-- What holds of the handlers and the messages on their own. -/
structure Working (env : Env) (fleet : Fleet) : Prop where
  agents : ∀ agent ∈ fleet.agents, agent.Works env
  messages : ∀ entry ∈ fleet.world.broker.messages, env.Holds entry

variable {env : Env} {fleet after : Fleet} {label : Label}

theorem Working.handler (working : Working env fleet) {before rest : List Agent} {owner : Str} {origin : ℕ}
    {task : ChunkTask} {phase : Handler.Phase} {calls : List Step}
    (found : fleet.agents = before ++ .handler owner origin task phase calls :: rest) :
    Handler.Proper env.toConfig task phase ∧ 1 ≤ task.attempt :=
  working.agents (.handler owner origin task phase calls) (found ▸ List.mem_append_right _ (List.mem_cons_self ..))

theorem Working.no_producer (working : Working env fleet) {before rest : List Agent} {url : Str} {useLlm : Bool}
    {phase : Producer.Phase} {calls : List Step}
    (found : fleet.agents = before ++ .producer url useLlm phase calls :: rest) : False :=
  working.agents (.producer url useLlm phase calls) (found ▸ List.mem_append_right _ (List.mem_cons_self ..))

theorem Undisturbed.calm (undisturbed : Undisturbed env fleet label) (working : Working env fleet) :
    Calm env fleet label := by
  intro fate before agent rest op acts found next durable
  cases agent with
  | producer => exact (working.no_producer found).elim
  | handler owner origin task phase calls =>
    obtain ⟨⟨_, onward⟩, moves, rfl⟩ := Option.map_eq_some_iff.mp next
    exact undisturbed.done fate before owner origin task phase calls rest _ onward acts found moves
      (Op.converts_of_durable durable)

/-- What a call of a handler does. -/
theorem Undisturbed.advance (undisturbed : Undisturbed env fleet label) (working : Working env fleet)
    {before rest : List Agent} {owner : Str} {origin : ℕ} {task : ChunkTask} {phase : Handler.Phase}
    {calls : List Step} {op : Op} {onward : Except Exc op.Reply → Handler.Phase} {reply : Except Exc op.Reply}
    {world : World} {fate : Fate} (acts : label = .act before.length fate)
    (found : fleet.agents = before ++ .handler owner origin task phase calls :: rest)
    (moves : Handler.step env.toConfig owner task phase = some ⟨op, onward⟩)
    (carried : op.carry env.toConfig (some ⟨origin, .task task⟩) fleet.world fate = some (reply, world)) :
    Handler.Advance env.toConfig origin task fleet.world phase world (onward reply) :=
  Handler.advance (working.handler found).1 moves carried
    (undisturbed.calm working _ _ _ _ _ acts found (by rw [Agent.next, moves]; rfl))

theorem working_of_stepped (working : Working env fleet) (undisturbed : Undisturbed env fleet label)
    (stepped : Stepped env fleet label after) : Working env after := by
  constructor
  · refine stepped.forall_agents (fun _ => Agent.Works env) working.agents (fun _ _ works => works) ?_ ?_ ?_ ?_
    · intro url useLlm submits
      exact absurd submits (undisturbed.submits url useLlm)
    · intro index owner origin task _ member
      refine ⟨trivial, ?_⟩
      rcases working.messages _ member with ⟨other, same, positive, _⟩ | ⟨parked, _⟩
      · cases same
        exact positive
      · exact absurd parked.symm env.failedQueue_ne
    · intro index fate url useLlm phase calls op onward reply before rest acts found
      exact (working.no_producer found).elim
    · rintro index fate owner origin task phase calls op onward reply before rest acts found rfl moves carried
      obtain ⟨proper, positive⟩ := working.handler found
      exact ⟨proper.step moves carried, positive⟩
  · cases stepped with
    | submit url useLlm => exact absurd rfl (undisturbed.submits url useLlm)
    | duplicate => exact absurd rfl (undisturbed.copies _)
    | crash => exact absurd rfl (undisturbed.dies _)
    | finish => exact working.messages
    | deliver found =>
      intro entry member
      refine working.messages entry (found ▸ ?_)
      exact List.perm_middle.mem_iff.mpr (List.mem_cons_of_mem _ member)
    | @expire index queue exchange message decl before rest found declared named timed target =>
      intro entry member
      rcases List.mem_append.mp member with old | again
      · refine working.messages entry (found ▸ ?_)
        exact List.perm_middle.mem_iff.mpr (List.mem_cons_of_mem _ old)
      · rw [Config.route_expired declared timed target] at again
        cases List.mem_singleton.mp again
        obtain ⟨tier, tiered⟩ := Config.tierQueue_of_timed declared timed
        rcases working.messages _ (found ▸ List.mem_append_right _ (List.mem_cons_self ..)) with
          ⟨task, same, positive, _⟩ | ⟨parked, _⟩
        · exact .inl ⟨task, same, positive, .inl rfl⟩
        · exact absurd (parked.symm.trans (named.symm.trans tiered)) (env.failedQueue_ne_tierQueue tier)
    | produced found => exact (working.no_producer found).elim
    | @handled index fate owner origin task phase calls op onward reply world before rest found position moves
        carried =>
      have advance := undisturbed.advance working (position ▸ rfl) found moves carried
      generalize onward reply = next at advance
      cases advance with
      | stay stmt same mild db broker | exhaust carrying exhausted db broker | abort assembling db broker =>
        rw [broker]
        exact working.messages
      | drop | failChunk | failJob | complete | finish | aborted => exact working.messages
      | retry left =>
        intro entry member
        rcases List.mem_append.mp member with old | new
        · exact working.messages entry old
        · obtain ⟨queue, inside, rfl⟩ := List.mem_map.mp new
          rw [env.route_retryQueueName] at inside
          split at inside
          · cases List.mem_singleton.mp inside
            exact .inl ⟨task.nextAttempt, rfl, Nat.le_add_left 1 _, .inr ⟨_, rfl⟩⟩
          · cases inside
      | park text =>
        intro entry member
        rcases List.mem_append.mp member with old | new
        · exact working.messages entry old
        · obtain ⟨queue, inside, rfl⟩ := List.mem_map.mp new
          rw [env.route_failed] at inside
          cases List.mem_singleton.mp inside
          exact .inr ⟨rfl, task, text, rfl⟩

/-! ## Every message is handled a bounded number of times -/

end Fleet

/-- How often a message of this attempt is handled at most. -/
def Config.patience (config : Config) (attempt : ℕ) : ℕ := (max 1 (config.maxAttempts - attempt + 1)).toNat

theorem Config.patience_pos (config : Config) (attempt : ℕ) : 1 ≤ config.patience attempt := by
  unfold Config.patience
  omega

theorem Config.patience_next {config : Config} {attempt : ℕ} (left : attempt < config.maxAttempts) :
    config.patience (attempt + 1) + 1 = config.patience attempt := by
  unfold Config.patience
  omega

/-- The attempt in a body. -/
def Body.attempt : Body → ℕ
  | .task chunk | .failed chunk _ => chunk.attempt

/-- A handler that has published its next attempt. -/
def Handler.Phase.isRetried : Handler.Phase → Bool
  | .retried => true
  | _ => false

theorem Handler.isRetried_of_step {config : Config} {owner : Str} {task : ChunkTask} {phase : Phase}
    {move : Σ op : Op, Except Exc op.Reply → Phase} (moves : step config owner task phase = some move) :
    phase.isRetried = false := by
  cases phase with
  | retried => cases moves
  | _ => rfl

namespace Fleet

/-- What the messages and the handlers of a lineage can still come to in deliveries, and those there have been. -/
def delivering (env : Env) (lineage : ℕ) : Ledger where
  message
    | (_, ⟨origin, .task task⟩) => if origin = lineage then env.patience task.attempt else 0
    | _ => 0
  agent
    | .handler _ origin task phase _ =>
      if origin = lineage ∧ phase.isRetried = false then env.patience task.attempt - 1 else 0
    | .producer .. => 0
  event
    | .delivered message => if message.origin = lineage then 1 else 0
    | _ => 0

section Delivering

variable (env : Env) (lineage : ℕ)

theorem delivering_task (queue : Str) (origin : ℕ) (task : ChunkTask) :
    (delivering env lineage).message (queue, ⟨origin, .task task⟩) =
      if origin = lineage then env.patience task.attempt else 0 := rfl

theorem delivering_failed (queue : Str) (origin : ℕ) (task : ChunkTask) (error : Str) :
    (delivering env lineage).message (queue, ⟨origin, .failed task error⟩) = 0 := rfl

theorem delivering_handler (owner : Str) (origin : ℕ) (task : ChunkTask) (phase : Handler.Phase) (calls : List Step) :
    (delivering env lineage).agent (.handler owner origin task phase calls) =
      if origin = lineage ∧ phase.isRetried = false then env.patience task.attempt - 1 else 0 := rfl

theorem delivering_delivered (message : Message) :
    (delivering env lineage).event (.delivered message) = if message.origin = lineage then 1 else 0 := rfl

theorem delivering_called (message : Option Message) (call : Step) :
    (delivering env lineage).event (.called message call) = 0 := rfl

end Delivering

variable {env : Env} {fleet after : Fleet} {label : Label}

/-- No step adds to the deliveries a lineage can come to. -/
theorem delivering_of_stepped (lineage : ℕ) (working : Working env fleet) (undisturbed : Undisturbed env fleet label)
    (stepped : Stepped env fleet label after) :
    (delivering env lineage).total after ≤ (delivering env lineage).total fleet := by
  refine (delivering env lineage).total_le_of_stepped stepped 0 (fun _ _ => rfl) ?_ undisturbed.copies ?_ ?_ ?_
    (fun _ => rfl) ?_
  · intro owner origin task
    have positive := env.patience_pos task.attempt
    rw [delivering_handler, delivering_delivered, delivering_task]
    simp only [Handler.Phase.isRetried, and_true]
    split <;> omega
  · rintro queue ⟨origin, _ | _⟩ <;> exact Nat.le_refl _
  · intro index fate url useLlm phase calls op onward reply before rest acts found
    exact (working.no_producer found).elim
  · intro index fate owner origin task phase calls op onward reply before rest acts found position moves carried
    have advance := undisturbed.advance working (position ▸ acts) found moves carried
    have waiting := Handler.isRetried_of_step moves
    have weight (next : Handler.Phase) : (if origin = lineage ∧ next.isRetried = false then
        env.patience task.attempt - 1 else 0) ≤ if origin = lineage then env.patience task.attempt - 1 else 0 := by
      split_ifs <;> omega
    rw [delivering_called, delivering_handler, delivering_handler, waiting]
    simp only [and_true, Nat.add_zero]
    generalize onward reply = next at advance
    generalize after.world = world at advance
    cases advance with
    | stay stmt same mild db broker | exhaust carrying exhausted db broker | abort assembling db broker =>
      rw [broker]
      exact Nat.add_le_add_left (weight _) _
    | drop | failChunk | failJob | complete | finish | aborted => exact Nat.add_le_add_left (weight _) _
    | retry left =>
      have sent := (delivering env lineage).queued_publish_retry env.toConfig fleet.world.broker ⟨origin, .task task⟩
        task.attempt (.task task.nextAttempt)
      have fewer := Config.patience_next left
      rw [delivering_task] at sent
      simp only [Handler.Phase.isRetried, Bool.true_eq_false, and_false, if_false, Nat.add_zero]
      refine sent.trans (Nat.add_le_add_left ?_ _)
      simp only [ChunkTask.nextAttempt]
      split <;> omega
    | park text =>
      rw [Ledger.queued_publish_failed, delivering_failed]
      exact Nat.add_le_add_left (weight _) _
  · intro index agent before rest crashed
    exact absurd crashed (undisturbed.dies index)

/-! ## Every run comes to an end -/

/-- What is left to do: a message on a tier has to expire, a message on the work queue to be delivered, and a handler
to publish its next attempt or to end. -/
def pending (env : Env) : Ledger where
  message entry :=
    if entry.1 = env.failedQueue then 0
    else 3 * env.patience entry.2.body.attempt + if entry.1 = env.rabbitmqQueue then 0 else 1
  agent
    | .handler _ _ task phase _ => if phase.isRetried then 0 else 3 * env.patience task.attempt - 1
    | .producer .. => 0
  event _ := 0

section Pending

variable (env : Env)

theorem pending_handler (owner : Str) (origin : ℕ) (task : ChunkTask) (phase : Handler.Phase) (calls : List Step) :
    (pending env).agent (.handler owner origin task phase calls) =
      if phase.isRetried then 0 else 3 * env.patience task.attempt - 1 := rfl

theorem pending_event (event : Event) : (pending env).event event = 0 := rfl

theorem pending_work (message : Message) :
    (pending env).message (env.rabbitmqQueue, message) = 3 * env.patience message.body.attempt := by
  simp only [pending, env.failedQueue_ne.symm, if_false, if_true, Nat.add_zero]

theorem pending_tier (tier : ℕ) (message : Message) :
    (pending env).message (env.tierQueue tier, message) = 3 * env.patience message.body.attempt + 1 := by
  simp only [pending, (env.failedQueue_ne_tierQueue tier).symm, env.tierQueue_ne tier, if_false]

theorem pending_failed (message : Message) : (pending env).message (env.failedQueue, message) = 0 := by
  simp only [pending, if_true]

end Pending

/-- Delivering a message and waiting leave less to do, and no other step leaves more. -/
theorem pending_of_stepped (working : Working env fleet) (undisturbed : Undisturbed env fleet label)
    (stepped : Stepped env fleet label after) :
    (pending env).total after < (pending env).total fleet ∨
      (pending env).total after ≤ (pending env).total fleet ∧
        ((∃ index fate, label = .act index fate) ∨ ∃ index, label = .finish index) := by
  cases stepped with
  | submit url useLlm => exact absurd rfl (undisturbed.submits url useLlm)
  | duplicate => exact absurd rfl (undisturbed.copies _)
  | crash => exact absurd rfl (undisturbed.dies _)
  | produced found => exact (working.no_producer found).elim
  | @deliver index owner origin task before rest found =>
    have positive := env.patience_pos task.attempt
    refine .inl ?_
    simp only [Ledger.total, found, World.setMessages, Ledger.queued_append, Ledger.queued_cons, pending_work,
      pending_handler, pending_event, Handler.Phase.isRetried, Bool.false_eq_true, if_false, List.map_append,
      List.map_cons, List.map_nil, List.sum_append, List.sum_cons, List.sum_nil, Body.attempt]
    omega
  | @expire index queue exchange message decl before rest found declared named timed target =>
    obtain ⟨tier, tiered⟩ := Config.tierQueue_of_timed declared timed
    refine .inl ?_
    rw [Config.route_expired declared timed target]
    simp only [Ledger.total, found, World.setMessages, Ledger.queued_append, Ledger.queued_cons, Ledger.queued_nil,
      pending_work, ← named, tiered, pending_tier, List.map_cons, List.map_nil]
    omega
  | @finish index agent before rest found position ended =>
    refine .inr ⟨?_, .inr ⟨index, rfl⟩⟩
    simp only [Ledger.total, found, pending_event, List.map_append, List.map_cons, List.map_nil, List.sum_append,
      List.sum_cons, List.sum_nil]
    omega
  | @handled index fate owner origin task phase calls op onward reply world before rest found position moves carried =>
    refine .inr ⟨?_, .inl ⟨index, fate, rfl⟩⟩
    have moved := (pending env).total_moved found world (.handler owner origin task (onward reply)
      (calls ++ [⟨op, reply⟩])) (.called (some ⟨origin, .task task⟩) ⟨op, reply⟩)
    have advance := undisturbed.advance working (position ▸ rfl) found moves carried
    have waiting := Handler.isRetried_of_step moves
    have weight (next : Handler.Phase) : (if next.isRetried then 0 else 3 * env.patience task.attempt - 1) ≤
        3 * env.patience task.attempt - 1 := by
      split
      · exact Nat.zero_le _
      · exact Nat.le_refl _
    suffices paid : (pending env).queued world.broker.messages +
        (if (onward reply).isRetried then 0 else 3 * env.patience task.attempt - 1) ≤
        (pending env).queued fleet.world.broker.messages + (3 * env.patience task.attempt - 1) by
      rw [pending_handler, pending_handler, pending_event, waiting] at moved
      simp only [Bool.false_eq_true, if_false] at moved
      omega
    generalize onward reply = next at advance
    cases advance with
    | stay stmt same mild db broker | exhaust carrying exhausted db broker | abort assembling db broker =>
      rw [broker]
      exact Nat.add_le_add_left (weight _) _
    | drop | failChunk | failJob | complete | finish | aborted => exact Nat.add_le_add_left (weight _) _
    | retry left =>
      have sent := (pending env).queued_publish_retry env.toConfig fleet.world.broker ⟨origin, .task task⟩
        task.attempt (.task task.nextAttempt)
      have fewer := Config.patience_next left
      have positive := env.patience_pos (task.attempt + 1)
      rw [Config.retryQueueName, pending_tier] at sent
      simp only [Body.attempt, ChunkTask.nextAttempt] at sent
      simp only [Handler.Phase.isRetried, if_true]
      refine sent.trans (Nat.add_le_add_left ?_ _)
      omega
    | park text =>
      rw [Ledger.queued_publish_failed, pending_failed]
      exact Nat.add_le_add_left (weight _) _

end Fleet

namespace Deployment

variable {env : Env}

/-- The programs that are at work. -/
def programs (state : Deployment) : Multiset (Prog Unit) := ↑(state.procs.map Proc.prog)

private theorem programs_split (before rest : List Proc) (proc : Proc) :
    (↑((before ++ proc :: rest).map Proc.prog) : Multiset (Prog Unit)) =
      ↑((before ++ rest).map Proc.prog) + {proc.prog} := by
  rw [← Multiset.coe_singleton, Multiset.coe_add, Multiset.coe_eq_coe, List.map_append, List.map_append, List.map_cons]
  exact List.perm_middle.trans (List.perm_append_singleton _ _).symm

/-- A program goes on after a call, or has ended. -/
theorem programs_of_step {state next : Deployment} {label : Label} (stepped : step env state label = some next)
    (moves : (∃ index fate, label = .act index fate) ∨ ∃ index, label = .finish index) :
    Relation.CutExpand Program.Follows next.programs state.programs := by
  cases stepped_of_step stepped with
  | submit | deliver | duplicate | expire | crash =>
    rcases moves with ⟨_, _, same⟩ | ⟨_, same⟩ <;> cases same
  | @act index fate proc op rest reply world before after found at_ position carried =>
    unfold programs
    rw [found, programs_split, programs_split]
    exact Relation.cutExpand_add_single _ ⟨op, rest, reply, at_, rfl⟩
  | @finish index proc before after found position done =>
    unfold programs
    rw [found, programs_split]
    exact ⟨0, proc.prog, fun _ member => absurd member (Multiset.notMem_zero _), by rw [add_zero]⟩

/-- Undisturbed workers come to an end. -/
theorem terminates_of_mirrors {state : Deployment} {fleet : Fleet} (mirrors : Fleet.Mirrors env state fleet)
    (working : Fleet.Working env fleet) :
    Terminates (step env) (fun state label => state.undisturbed label = true) state := by
  refine terminates_of_rank (WellFounded.prod_lex Nat.lt_wfRel.wf Program.wellFounded_follows.cutExpand)
    (fun state fleet => Fleet.Mirrors env state fleet ∧ Fleet.Working env fleet)
    (fun state fleet => ((Fleet.pending env).total fleet, state.programs)) ?_ ⟨mirrors, working⟩
  rintro state fleet label next ⟨mirrors, working⟩ allowed stepped
  have undisturbed := mirrors.undisturbed allowed
  obtain ⟨after, moved, mirrored⟩ := mirrors.stepped stepped
  refine ⟨after, ⟨mirrored, Fleet.working_of_stepped working undisturbed moved⟩, ?_⟩
  rcases Fleet.pending_of_stepped working undisturbed moved with less | ⟨most, moves⟩
  · exact .left _ _ less
  · have smaller := programs_of_step stepped moves
    rcases Nat.lt_or_eq_of_le most with less | same
    · exact .left _ _ less
    · rw [same]
      exact .right _ smaller

end Deployment

end MarkitdownServer
