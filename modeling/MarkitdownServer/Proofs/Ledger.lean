import MarkitdownServer.Machine.Fleet
import MarkitdownServer.Proofs.Topology

/-! # Ledgers

A ledger gives a weight to every message on a queue, to every process and to every past event. Delivering
a message, publishing one and dying move weight between the three, so that a total which no step increases
bounds what can still happen by what there was at the start.
-/

namespace MarkitdownServer

open Effects

/-- Weights of messages, processes and events. -/
structure Ledger where
  message : Str × Message → ℕ
  agent : Agent → ℕ
  event : Event → ℕ

namespace Ledger

variable (ledger : Ledger)

/-- The weight of the messages on the queues. -/
def queued (messages : List (Str × Message)) : ℕ := (messages.map ledger.message).sum

/-- The weight of a fleet. -/
def total (fleet : Fleet) : ℕ :=
  ledger.queued fleet.world.broker.messages + (fleet.agents.map ledger.agent).sum + (fleet.trace.map ledger.event).sum

@[simp] theorem queued_nil : ledger.queued [] = 0 := rfl

@[simp] theorem queued_cons (entry : Str × Message) (messages : List (Str × Message)) :
    ledger.queued (entry :: messages) = ledger.message entry + ledger.queued messages := by
  rw [queued, List.map_cons, List.sum_cons, queued]

@[simp] theorem queued_append (first second : List (Str × Message)) :
    ledger.queued (first ++ second) = ledger.queued first + ledger.queued second := by
  rw [queued, List.map_append, List.sum_append, queued, queued]

/-- A process weighs no more than the fleet it belongs to. -/
theorem agent_le_total {fleet : Fleet} {agent : Agent} (member : agent ∈ fleet.agents) :
    ledger.agent agent ≤ ledger.total fleet := by
  have part : ledger.agent agent ≤ (fleet.agents.map ledger.agent).sum :=
    List.single_le_sum (fun _ _ => Nat.zero_le _) _ (List.mem_map_of_mem member)
  unfold total
  omega

/-- The weight of a published task. -/
theorem queued_publish_first (config : Config) (broker : Broker) (body : Body) :
    ledger.queued (broker.publish (declare config) none config.rabbitmqExchange config.rabbitmqQueue body).messages =
      ledger.queued broker.messages + ledger.message (config.rabbitmqQueue, ⟨broker.fresh, body⟩) := by
  simp only [Broker.publish, Broker.enqueue, config.route_work, queued_append, List.map_cons, List.map_nil, queued_cons,
    queued_nil, Nat.add_zero]

/-- The weight of a parked task. -/
theorem queued_publish_failed (config : Config) (broker : Broker) (message : Message) (body : Body) :
    ledger.queued (broker.publish (declare config) (some message) config.dlxExchange config.rabbitmqQueue
      body).messages =
      ledger.queued broker.messages + ledger.message (config.failedQueue, ⟨message.origin, body⟩) := by
  simp only [Broker.publish, Broker.enqueue, config.route_failed, queued_append, List.map_cons, List.map_nil, queued_cons,
    queued_nil, Nat.add_zero]

/-- The weight of a retry, which is lost if there is no tier for it. -/
theorem queued_publish_retry (config : Config) (broker : Broker) (message : Message) (attempt : ℕ) (body : Body) :
    ledger.queued (broker.publish (declare config) (some message) config.retryExchange (config.retryQueueName attempt)
      body).messages ≤
      ledger.queued broker.messages + ledger.message (config.retryQueueName attempt, ⟨message.origin, body⟩) := by
  simp only [Broker.publish, Broker.enqueue, config.route_retryQueueName, queued_append]
  split
  · simp only [List.map_cons, List.map_nil, queued_cons, queued_nil, Nat.add_zero, Nat.le_refl]
  · simp only [List.map_nil, queued_nil]
    omega

/-- What the move of one process changes. -/
theorem total_moved {fleet : Fleet} {before rest : List Agent} {moved : Agent} (found : fleet.agents = before ++ moved :: rest)
    (world : World) (new : Agent) (event : Event) :
    ledger.total ⟨world, before ++ new :: rest, fleet.trace ++ [event]⟩ +
        (ledger.queued fleet.world.broker.messages + ledger.agent moved) =
      ledger.total fleet + (ledger.queued world.broker.messages + ledger.agent new + ledger.event event) := by
  simp only [total, found, List.map_append, List.map_cons, List.map_nil, List.sum_append, List.sum_cons, List.sum_nil]
  omega

variable {env : Env} {fleet after : Fleet} {label : Label}

/-- A step adds no more to the total than is granted if delivering, waiting and dying pass on what they take,
and every call pays for the messages it publishes and the event it leaves. -/
theorem total_le_of_stepped (stepped : Fleet.Stepped env fleet label after) (grant : ℕ)
    (submits : ∀ url useLlm, ledger.agent (.producer url useLlm .downloading []) = 0)
    (delivers : ∀ owner origin task, ledger.agent (.handler owner origin task .looking []) +
      ledger.event (.delivered ⟨origin, .task task⟩) ≤ ledger.message (env.rabbitmqQueue, ⟨origin, .task task⟩))
    (duplicates : ∀ index, label ≠ .duplicate index)
    (expires : ∀ queue message, ledger.message (env.rabbitmqQueue, message) ≤ ledger.message (queue, message))
    (produces : ∀ index fate url useLlm phase calls op onward reply before rest, label = .act index fate →
      fleet.agents = before ++ .producer url useLlm phase calls :: rest → before.length = index →
      Producer.step env url useLlm phase = some ⟨op, onward⟩ →
      op.carry env.toConfig none fleet.world fate = some (reply, after.world) →
      ledger.queued after.world.broker.messages +
        ledger.agent (.producer url useLlm (onward reply) (calls ++ [⟨op, reply⟩])) +
        ledger.event (.called none ⟨op, reply⟩) ≤
      ledger.queued fleet.world.broker.messages + ledger.agent (.producer url useLlm phase calls) + grant)
    (handles : ∀ index fate owner origin task phase calls op onward reply before rest, label = .act index fate →
      fleet.agents = before ++ .handler owner origin task phase calls :: rest → before.length = index →
      Handler.step env.toConfig owner task phase = some ⟨op, onward⟩ →
      op.carry env.toConfig (some ⟨origin, .task task⟩) fleet.world fate = some (reply, after.world) →
      ledger.queued after.world.broker.messages +
        ledger.agent (.handler owner origin task (onward reply) (calls ++ [⟨op, reply⟩])) +
        ledger.event (.called (some ⟨origin, .task task⟩) ⟨op, reply⟩) ≤
      ledger.queued fleet.world.broker.messages + ledger.agent (.handler owner origin task phase calls))
    (finishes : ∀ message, ledger.event (.returned message) = 0)
    (crashes : ∀ index agent before rest, label = .crash index → fleet.agents = before ++ agent :: rest →
      before.length = index → ledger.queued (agent.message.toList.map fun message => (env.rabbitmqQueue, message)) +
        ledger.event (.died agent.message) ≤ ledger.agent agent) :
    ledger.total after ≤ ledger.total fleet + grant := by
  cases stepped with
  | submit url useLlm =>
    have none := submits url useLlm
    simp only [total, List.map_append, List.map_cons, List.map_nil, List.sum_append, List.sum_cons, List.sum_nil]
    omega
  | @deliver index owner origin task before rest found =>
    have paid := delivers owner origin task
    simp only [total, found, World.setMessages, queued_append, queued_cons, List.map_append, List.map_cons, List.map_nil,
      List.sum_append, List.sum_cons, List.sum_nil]
    omega
  | duplicate found => exact absurd rfl (duplicates _)
  | @expire index queue exchange message decl before rest found declared named timed target =>
    have paid := expires queue message
    rw [Config.route_expired declared timed target]
    simp only [total, found, World.setMessages, queued_append, queued_cons, queued_nil, List.map_cons, List.map_nil]
    omega
  | @produced index fate url useLlm phase calls op onward reply world before rest found position moves carried =>
    have paid := produces _ _ _ _ _ _ _ _ _ _ _ rfl found position moves carried
    have moved := ledger.total_moved found world (.producer url useLlm (onward reply) (calls ++ [⟨op, reply⟩]))
      (.called none ⟨op, reply⟩)
    dsimp only at paid
    omega
  | @handled index fate owner origin task phase calls op onward reply world before rest found position moves
      carried =>
    have paid := handles _ _ _ _ _ _ _ _ _ _ _ _ rfl found position moves carried
    have moved := ledger.total_moved found world (.handler owner origin task (onward reply) (calls ++ [⟨op, reply⟩]))
      (.called (some ⟨origin, .task task⟩) ⟨op, reply⟩)
    dsimp only at paid
    omega
  | @finish index agent before rest found position ended =>
    have none := finishes agent.message
    simp only [total, found, List.map_append, List.map_cons, List.map_nil, List.sum_append, List.sum_cons, List.sum_nil]
    omega
  | @crash index agent before rest found position =>
    have paid := crashes _ _ _ _ rfl found position
    simp only [total, found, World.setMessages, queued_append, List.map_append, List.map_cons, List.map_nil,
      List.sum_append, List.sum_cons, List.sum_nil]
    omega

end Ledger

end MarkitdownServer
