import Mathlib.Algebra.Order.BigOperators.Group.List
import MarkitdownServer.Machine.Producer
import MarkitdownServer.Model.Deployment

/-! # The deployment over control phases

The same deployment with the phase of the control machine in the place of each program. Every step of the
deployment is a step of the fleet on the same world and with the same trace, so what the steps of the
fleet preserve holds in every reachable state of the deployment.
-/

namespace MarkitdownServer

open Effects Transition

/-- The call that an event records. -/
def Event.call? : Event → Option Step
  | .called _ call => some call
  | _ => none

/-- A process by its phase. -/
inductive Agent where
  | producer (url : Str) (useLlm : Bool) (phase : Producer.Phase) (calls : List Step)
  | handler (owner : Str) (origin : ℕ) (task : ChunkTask) (phase : Handler.Phase) (calls : List Step)

namespace Agent

/-- The message that the process has not acked. -/
def message : Agent → Option Message
  | .producer .. => none
  | .handler _ origin task _ _ => some ⟨origin, .task task⟩

def calls : Agent → List Step
  | .producer _ _ _ calls => calls
  | .handler _ _ _ _ calls => calls

variable (env : Env)

/-- The call that comes next. -/
def next : Agent → Option Op
  | .producer url useLlm phase _ => (Producer.step env url useLlm phase).map (·.1)
  | .handler owner _ task phase _ => (Handler.step env.toConfig owner task phase).map (·.1)

/-- The program of the process goes through the phases of the agent. -/
def Runs (proc : Proc) : Agent → Prop
  | .producer url useLlm phase calls => proc.message = none ∧ proc.calls = calls ∧
      proc.prog.Tracks (Producer.step env url useLlm) (fun _ phase => Producer.step env url useLlm phase = none) phase
  | .handler owner origin task phase calls => proc.message = some ⟨origin, .task task⟩ ∧ proc.calls = calls ∧
      proc.prog.Tracks (Handler.step env.toConfig owner task)
        (fun _ phase => Handler.step env.toConfig owner task phase = none) phase

variable {env}

theorem Runs.calls {agent : Agent} {proc : Proc} (runs : agent.Runs env proc) : proc.calls = agent.calls := by
  cases agent <;> exact runs.2.1

theorem Runs.map_calls {procs : List Proc} {agents : List Agent} (run : List.Forall₂ (Runs env) procs agents) :
    procs.map Proc.calls = agents.map Agent.calls := by
  induction run with
  | nil => rfl
  | cons head _ ih => rw [List.map_cons, List.map_cons, head.calls, ih]

end Agent

/-- The deployment with phases in the place of programs. -/
structure Fleet where
  world : World
  agents : List Agent
  trace : List Event := []

namespace Fleet

variable (env : Env)

/-- One step of the fleet. -/
inductive Stepped (fleet : Fleet) : Label → Fleet → Prop
  | submit (url : Str) (useLlm : Bool) :
      Stepped fleet (.submit url useLlm)
        { fleet with agents := fleet.agents ++ [.producer url useLlm .downloading []] }
  | deliver {index : ℕ} {owner : Str} {origin : ℕ} {task : ChunkTask} {before after : List (Str × Message)}
      (found : fleet.world.broker.messages = before ++ (env.rabbitmqQueue, ⟨origin, .task task⟩) :: after) :
      Stepped fleet (.deliver index owner)
        ⟨fleet.world.setMessages (before ++ after), fleet.agents ++ [.handler owner origin task .looking []],
          fleet.trace ++ [.delivered ⟨origin, .task task⟩]⟩
  | duplicate {index : ℕ} {copy : Str × Message} (found : copy ∈ fleet.world.broker.messages) :
      Stepped fleet (.duplicate index)
        { fleet with world := fleet.world.setMessages (fleet.world.broker.messages ++ [copy]) }
  | expire {index : ℕ} {queue exchange : Str} {message : Message} {decl : QueueDecl}
      {before after : List (Str × Message)}
      (found : fleet.world.broker.messages = before ++ (queue, message) :: after)
      (declared : decl ∈ (declare env.toConfig).queues) (named : decl.name = queue)
      (timed : decl.ttl.isSome) (target : decl.deadLetterExchange = some exchange) :
      Stepped fleet (.expire index)
        { fleet with world := fleet.world.setMessages ((before ++ after) ++
            ((declare env.toConfig).route exchange (decl.deadLetterRoutingKey.getD queue)).map
              fun queue => (queue, message)) }
  | produced {index : ℕ} {fate : Fate} {url : Str} {useLlm : Bool} {phase : Producer.Phase} {calls : List Step}
      {op : Op} {onward : Except Exc op.Reply → Producer.Phase} {reply : Except Exc op.Reply} {world : World}
      {before after : List Agent} (found : fleet.agents = before ++ .producer url useLlm phase calls :: after)
      (position : before.length = index) (moves : Producer.step env url useLlm phase = some ⟨op, onward⟩)
      (carried : op.carry env.toConfig none fleet.world fate = some (reply, world)) :
      Stepped fleet (.act index fate)
        ⟨world, before ++ .producer url useLlm (onward reply) (calls ++ [⟨op, reply⟩]) :: after,
          fleet.trace ++ [.called none ⟨op, reply⟩]⟩
  | handled {index : ℕ} {fate : Fate} {owner : Str} {origin : ℕ} {task : ChunkTask} {phase : Handler.Phase}
      {calls : List Step} {op : Op} {onward : Except Exc op.Reply → Handler.Phase} {reply : Except Exc op.Reply}
      {world : World} {before after : List Agent}
      (found : fleet.agents = before ++ .handler owner origin task phase calls :: after)
      (position : before.length = index) (moves : Handler.step env.toConfig owner task phase = some ⟨op, onward⟩)
      (carried : op.carry env.toConfig (some ⟨origin, .task task⟩) fleet.world fate = some (reply, world)) :
      Stepped fleet (.act index fate)
        ⟨world, before ++ .handler owner origin task (onward reply) (calls ++ [⟨op, reply⟩]) :: after,
          fleet.trace ++ [.called (some ⟨origin, .task task⟩) ⟨op, reply⟩]⟩
  | finish {index : ℕ} {agent : Agent} {before after : List Agent}
      (found : fleet.agents = before ++ agent :: after) (position : before.length = index)
      (ended : agent.next env = none) :
      Stepped fleet (.finish index) ⟨fleet.world, before ++ after, fleet.trace ++ [.returned agent.message]⟩
  | crash {index : ℕ} {agent : Agent} {before after : List Agent}
      (found : fleet.agents = before ++ agent :: after) (position : before.length = index) :
      Stepped fleet (.crash index)
        ⟨fleet.world.setMessages (fleet.world.broker.messages ++
            agent.message.toList.map fun message => (env.rabbitmqQueue, message)),
          before ++ after, fleet.trace ++ [.died agent.message]⟩

/-- The fleet is the deployment seen through the control machines. -/
structure Mirrors (state : Deployment) (fleet : Fleet) : Prop where
  world : fleet.world = state.world
  trace : fleet.trace = state.trace
  agents : List.Forall₂ (Agent.Runs env) state.procs fleet.agents

variable {env}

theorem mirrors_initial : Mirrors env .initial ⟨Deployment.initial.world, [], []⟩ := ⟨rfl, rfl, .nil⟩

private theorem forall₂_split {α β : Type} {R : α → β → Prop} {first second : List α} {item : α} {list : List β}
    (related : List.Forall₂ R (first ++ item :: second) list) :
    ∃ before other after, list = before ++ other :: after ∧ before.length = first.length ∧
      List.Forall₂ R first before ∧ R item other ∧ List.Forall₂ R second after := by
  induction first generalizing list with
  | nil =>
    cases related with
    | cons head tail => exact ⟨[], _, _, rfl, rfl, .nil, head, tail⟩
  | cons a first ih =>
    cases related with
    | cons head tail =>
      obtain ⟨before, other, after, rfl, length, left, middle, right⟩ := ih tail
      exact ⟨_ :: before, other, after, rfl, by simp [length], .cons head left, middle, right⟩

private theorem forall₂_join {α β : Type} {R : α → β → Prop} {first second : List α} {before after : List β}
    (left : List.Forall₂ R first before) (right : List.Forall₂ R second after) :
    List.Forall₂ R (first ++ second) (before ++ after) := by
  induction left with
  | nil => exact right
  | cons head _ ih => exact .cons head ih

/-- Behind every agent is a process that runs it, and the others have made the calls of the other agents. -/
theorem Mirrors.exists_split {state : Deployment} {fleet : Fleet} (mirrors : Mirrors env state fleet)
    {before after : List Agent} {agent : Agent} (found : fleet.agents = before ++ agent :: after) :
    ∃ first proc second, state.procs = first ++ proc :: second ∧ first.length = before.length ∧
      agent.Runs env proc ∧ (first ++ second).map Proc.calls = (before ++ after).map Agent.calls := by
  have flipped := mirrors.agents.flip
  rw [found] at flipped
  obtain ⟨first, proc, second, split, length, left, runs, right⟩ := forall₂_split flipped
  exact ⟨first, proc, second, split, length, runs, Agent.Runs.map_calls (forall₂_join left.flip right.flip)⟩

/-- Every process runs one of the agents. -/
theorem Mirrors.exists_agent {state : Deployment} {fleet : Fleet} (mirrors : Mirrors env state fleet) {proc : Proc}
    (member : proc ∈ state.procs) : ∃ agent ∈ fleet.agents, agent.Runs env proc := by
  obtain ⟨first, second, split⟩ := List.append_of_mem member
  have related := mirrors.agents
  rw [split] at related
  obtain ⟨before, agent, after, listed, _, _, runs, _⟩ := forall₂_split related
  exact ⟨agent, listed ▸ List.mem_append_right _ (List.mem_cons_self ..), runs⟩

theorem Mirrors.exists_proc {state : Deployment} {fleet : Fleet} (mirrors : Mirrors env state fleet)
    {before after : List Agent} {agent : Agent} (found : fleet.agents = before ++ agent :: after) :
    ∃ proc, state.procs[before.length]? = some proc ∧ agent.Runs env proc := by
  obtain ⟨first, proc, second, split, length, runs, _⟩ := mirrors.exists_split found
  refine ⟨proc, ?_, runs⟩
  rw [split, ← length, List.getElem?_append_right (Nat.le_refl _), Nat.sub_self]
  rfl

theorem Agent.Runs.pending_call {agent : Agent} {proc : Proc} (runs : agent.Runs env proc) {op : Op}
    (next : agent.next env = some op) : ∃ rest, proc.prog = .call op rest := by
  cases agent with
  | producer | handler =>
    obtain ⟨⟨_, onward⟩, moves, rfl⟩ := Option.map_eq_some_iff.mp next
    exact runs.2.2.call_of_move moves

/-- The next call of an agent is the pending call of its process. -/
theorem Mirrors.pending {state : Deployment} {fleet : Fleet} (mirrors : Mirrors env state fleet)
    {before after : List Agent} {agent : Agent} (found : fleet.agents = before ++ agent :: after) {op : Op}
    (next : agent.next env = some op) : state.pending before.length = some op := by
  obtain ⟨⟨message, prog, calls⟩, at_, runs⟩ := mirrors.exists_proc found
  obtain ⟨rest, called⟩ := Agent.Runs.pending_call runs next
  subst called
  simp only [Deployment.pending, at_]

/-- Every step of the deployment is a step of the fleet. -/
theorem Mirrors.stepped {state next : Deployment} {fleet : Fleet} {label : Label} (mirrors : Mirrors env state fleet)
    (stepped : Deployment.step env state label = some next) :
    ∃ after, Stepped env fleet label after ∧ Mirrors env next after := by
  obtain ⟨world, trace, agents⟩ := mirrors
  obtain ⟨fleetWorld, fleetAgents, fleetTrace⟩ := fleet
  subst world trace
  cases Deployment.stepped_of_step stepped with
  | submit url useLlm =>
    refine ⟨_, .submit url useLlm, rfl, rfl, forall₂_join agents (.cons ⟨rfl, rfl, ?_⟩ .nil)⟩
    exact Program.Tracks.bind Producer.submit_tracks (fun _ _ at_ => at_) fun _ _ at_ => at_
  | deliver found =>
    exact ⟨_, .deliver found, rfl, rfl, forall₂_join agents (.cons ⟨rfl, rfl, Handler.onTask_tracks⟩ .nil)⟩
  | duplicate found => exact ⟨_, .duplicate found, rfl, rfl, agents⟩
  | expire found declared named timed target =>
    exact ⟨_, .expire found declared named timed target, rfl, rfl, agents⟩
  | @act _ _ proc op rest reply _ _ _ found at_ position carried =>
    rw [found] at agents
    obtain ⟨before, agent, after, rfl, length, left, runs, right⟩ := forall₂_split agents
    cases agent with
    | producer url useLlm phase calls =>
      obtain ⟨messages, rfl, tracks⟩ := runs
      rw [at_] at tracks
      obtain ⟨onward, moves, tracks⟩ := tracks
      rw [messages] at carried ⊢
      exact ⟨_, .produced rfl (length.trans position) moves carried, rfl, rfl,
        forall₂_join left (.cons ⟨rfl, rfl, tracks reply⟩ right)⟩
    | handler owner origin task phase calls =>
      obtain ⟨messages, rfl, tracks⟩ := runs
      rw [at_] at tracks
      obtain ⟨onward, moves, tracks⟩ := tracks
      rw [messages] at carried ⊢
      exact ⟨_, .handled rfl (length.trans position) moves carried, rfl, rfl,
        forall₂_join left (.cons ⟨rfl, rfl, tracks reply⟩ right)⟩
  | @finish _ proc _ _ found position done =>
    rw [found] at agents
    obtain ⟨before, agent, after, rfl, length, left, runs, right⟩ := forall₂_split agents
    have message : proc.message = agent.message := by cases agent <;> exact runs.1
    have ended : agent.next env = none := by
      cases agent with
      | producer url useLlm phase calls =>
        obtain ⟨_, _, tracks⟩ := runs
        cases program : proc.prog <;> simp_all [Program.Tracks, Program.isDone, Agent.next]
      | handler owner origin task phase calls =>
        obtain ⟨_, _, tracks⟩ := runs
        cases program : proc.prog <;> simp_all [Program.Tracks, Program.isDone, Agent.next]
    exact ⟨_, .finish rfl (length.trans position) ended, rfl, by rw [message], forall₂_join left right⟩
  | @crash _ proc _ _ found position =>
    rw [found] at agents
    obtain ⟨before, agent, after, rfl, length, left, runs, right⟩ := forall₂_split agents
    have message : proc.message = agent.message := by cases agent <;> exact runs.1
    exact ⟨_, .crash rfl (length.trans position), by rw [Deployment.redelivered, message], by rw [message],
      forall₂_join left right⟩

/-- What holds of the fleet at the start and is kept by its steps holds in every reachable state. -/
theorem Mirrors.invariant (inv : Fleet → Prop) {allowed : Deployment → Label → Prop} {source target : Deployment}
    {fleet : Fleet} (reaches : Reaches (Deployment.step env) allowed source target)
    (mirrors : Mirrors env source fleet) (start : inv fleet)
    (kept : ∀ state fleet label after, Mirrors env state fleet → inv fleet → allowed state label →
      Stepped env fleet label after → inv after) :
    ∃ after, Mirrors env target after ∧ inv after := by
  induction reaches with
  | refl => exact ⟨fleet, mirrors, start⟩
  | tail _ last ih =>
    obtain ⟨label, fits, stepped⟩ := last
    obtain ⟨fleet, mirrors, holds⟩ := ih
    obtain ⟨after, moved, mirrored⟩ := mirrors.stepped stepped
    exact ⟨after, mirrored, kept _ fleet label after mirrors holds fits moved⟩

/-! ## What holds of every process -/

/-- A property of the world and a process is kept by a step if the processes at rest keep it, new
processes have it, and the one process that moves arrives with it. -/
theorem Stepped.forall_agents (holds : World → Agent → Prop) {fleet after : Fleet} {label : Label}
    (stepped : Stepped env fleet label after) (all : ∀ agent ∈ fleet.agents, holds fleet.world agent)
    (rests : ∀ agent ∈ fleet.agents, holds fleet.world agent → holds after.world agent)
    (submits : ∀ url useLlm, label = .submit url useLlm → holds after.world (.producer url useLlm .downloading []))
    (delivers : ∀ index owner origin task, label = .deliver index owner →
      (env.rabbitmqQueue, ⟨origin, .task task⟩) ∈ fleet.world.broker.messages →
      holds after.world (.handler owner origin task .looking []))
    (produces : ∀ index fate url useLlm phase calls op onward reply before rest, label = .act index fate →
      fleet.agents = before ++ .producer url useLlm phase calls :: rest → before.length = index →
      Producer.step env url useLlm phase = some ⟨op, onward⟩ →
      op.carry env.toConfig none fleet.world fate = some (reply, after.world) →
      holds after.world (.producer url useLlm (onward reply) (calls ++ [⟨op, reply⟩])))
    (handles : ∀ index fate owner origin task phase calls op onward reply before rest, label = .act index fate →
      fleet.agents = before ++ .handler owner origin task phase calls :: rest → before.length = index →
      Handler.step env.toConfig owner task phase = some ⟨op, onward⟩ →
      op.carry env.toConfig (some ⟨origin, .task task⟩) fleet.world fate = some (reply, after.world) →
      holds after.world (.handler owner origin task (onward reply) (calls ++ [⟨op, reply⟩]))) :
    ∀ agent ∈ after.agents, holds after.world agent := by
  have old {agent : Agent} (member : agent ∈ fleet.agents) : holds after.world agent :=
    rests agent member (all agent member)
  have others {before rest : List Agent} {moved new : Agent} (found : fleet.agents = before ++ moved :: rest)
      (arrives : holds after.world new) : ∀ agent ∈ before ++ new :: rest, holds after.world agent := by
    intro agent member
    rcases List.mem_cons.mp (List.perm_middle.mem_iff.mp member) with rfl | kept
    · exact arrives
    · exact old (found ▸ List.perm_middle.mem_iff.mpr (List.mem_cons_of_mem _ kept))
  have without {before rest : List Agent} {gone : Agent} (found : fleet.agents = before ++ gone :: rest) :
      ∀ agent ∈ before ++ rest, holds after.world agent := by
    intro agent member
    exact old (found ▸ List.perm_middle.mem_iff.mpr (List.mem_cons_of_mem _ member))
  have joined {new : Agent} (arrives : holds after.world new) :
      ∀ agent ∈ fleet.agents ++ [new], holds after.world agent := by
    intro agent member
    rcases List.mem_append.mp member with left | right
    · exact old left
    · exact List.mem_singleton.mp right ▸ arrives
  cases stepped with
  | submit url useLlm => exact joined (submits url useLlm rfl)
  | deliver found =>
    exact joined (delivers _ _ _ _ rfl (found ▸ List.mem_append_right _ (List.mem_cons_self ..)))
  | duplicate found => exact fun agent member => old member
  | expire found declared named timed target => exact fun agent member => old member
  | produced found position moves carried =>
    exact others found (produces _ _ _ _ _ _ _ _ _ _ _ rfl found position moves carried)
  | handled found position moves carried =>
    exact others found (handles _ _ _ _ _ _ _ _ _ _ _ _ rfl found position moves carried)
  | finish found position ended => exact without found
  | crash found position => exact without found

/-! ## Accounts over the calls of a run -/

/-- The calls made by all processes so far. -/
def history (fleet : Fleet) : List Step := fleet.trace.filterMap Event.call?

/-- Over the whole run no more is spent than earned, what the live processes have in hand left aside. -/
def Solvent (earns spends : Step → Bool) (fleet : Fleet) : Prop :=
  fleet.history.countP spends + (fleet.agents.map fun agent => agent.calls.countP earns).sum ≤
    fleet.history.countP earns + (fleet.agents.map fun agent => agent.calls.countP spends).sum

/-- If no process spends more than it earns, neither does the run. -/
theorem Solvent.step {earns spends : Step → Bool} {fleet after : Fleet} {label : Label}
    (solvent : fleet.Solvent earns spends) (stepped : Stepped env fleet label after)
    (covered : ∀ agent ∈ fleet.agents, agent.calls.countP spends ≤ agent.calls.countP earns) :
    after.Solvent earns spends := by
  unfold Solvent history at solvent ⊢
  cases stepped with
  | submit url useLlm =>
    simp only [List.map_append, List.sum_append, List.map_singleton, List.sum_singleton, Agent.calls,
      List.countP_nil, Nat.add_zero]
    exact solvent
  | deliver found =>
    simp only [List.map_append, List.sum_append, List.map_singleton, List.sum_singleton, Agent.calls,
      List.countP_nil, Nat.add_zero, List.filterMap_append, List.filterMap_cons, Event.call?, List.filterMap_nil,
      List.append_nil]
    exact solvent
  | duplicate found => exact solvent
  | expire found declared named timed target => exact solvent
  | produced found position moves carried | handled found position moves carried =>
    rw [found] at solvent
    simp only [List.map_append, List.map_cons, List.sum_append, List.sum_cons, Agent.calls, List.countP_append,
      List.filterMap_append, List.filterMap_cons, Event.call?, List.filterMap_nil] at solvent ⊢
    omega
  | @finish _ agent _ _ found position ended | @crash _ agent _ _ found position =>
    have spent := covered agent (found ▸ List.mem_append_right _ (List.mem_cons_self ..))
    rw [found] at solvent
    simp only [List.map_append, List.map_cons, List.sum_append, List.sum_cons, List.filterMap_append,
      List.filterMap_cons, Event.call?, List.filterMap_nil, List.append_nil] at solvent ⊢
    omega

theorem Solvent.countP_le {earns spends : Step → Bool} {fleet : Fleet} (solvent : fleet.Solvent earns spends)
    (covered : ∀ agent ∈ fleet.agents, agent.calls.countP spends ≤ agent.calls.countP earns) :
    fleet.history.countP spends ≤ fleet.history.countP earns := by
  have inHand : (fleet.agents.map fun agent => agent.calls.countP spends).sum ≤
      (fleet.agents.map fun agent => agent.calls.countP earns).sum :=
    List.sum_le_sum covered
  unfold Solvent at solvent
  omega

end Fleet

end MarkitdownServer
