import MarkitdownServer.Model.Worker
import MarkitdownServer.Proofs.Topology

/-! # Publishing with one resend

`_publish` sends its bodies on one channel and, when that raises an `AMQPError`, all of them again on a new
one. Whatever the two channels do, a return means that one of them took the whole list, and nothing but a
beginning of the list was sent before that.
-/

namespace MarkitdownServer

open Effects Effects.Program

/-- The body that a call has put on the broker. -/
def Step.delivered : Step → Option Body
  | ⟨.amqp (.basicPublish _ _ body), .ok _⟩ => some body
  | _ => none

/-- The bodies that reached the broker, in order. -/
def delivered (calls : List Step) : List Body := calls.filterMap Step.delivered

/-- The bodies on the queues, in order. -/
def Broker.contents (broker : Broker) : List (Str × Body) := broker.messages.map fun entry => (entry.1, entry.2.body)

/-- A publish that returned. -/
def Step.sent (exchange routingKey : Str) (body : Body) : Step := ⟨.amqp (.basicPublish exchange routingKey body), .ok ()⟩

/-- A channel that was opened. -/
def Step.opened : Step := ⟨.amqp .channel, .ok ()⟩

@[simp] theorem delivered_nil : delivered [] = [] := rfl

@[simp] theorem delivered_append (first second : List Step) :
    delivered (first ++ second) = delivered first ++ delivered second := List.filterMap_append

@[simp] theorem delivered_sent (exchange routingKey : Str) (bodies : List Body) :
    delivered (bodies.map (Step.sent exchange routingKey)) = bodies := by
  rw [delivered, List.filterMap_map]
  exact List.filterMap_some

theorem contents_publish (broker : Broker) (topology : Topology) (parent : Option Message) (exchange routingKey : Str)
    (body : Body) : (broker.publish topology parent exchange routingKey body).contents =
      broker.contents ++ (topology.route exchange routingKey).map fun queue => (queue, body) := by
  cases parent <;>
    simp only [Broker.publish, Broker.enqueue, Broker.contents, List.map_append, List.map_map, Function.comp_def]

namespace Taskqueue

/-- Every call on the broker is carried out or raises without effect. -/
def Honest (config : Config) (parent : Option Message) (answer : Service) : Prop :=
  ∀ calls request world,
    answer calls (.amqp request) world = (.ok (), { world with broker := request.exec config parent world.broker }) ∨
      ∃ error, answer calls (.amqp request) world = (.error error, world)

theorem honest_serve (config : Config) (parent : Option Message) (markdown : Str) (raises : ℕ → Option Exc) :
    Honest config parent (serve config parent markdown raises) := by
  intro calls request world
  cases raised : raises calls.length with
  | none => exact .inl (serve_amqp raised request)
  | some error => exact .inr ⟨error, serve_raised raised _⟩

variable {config : Config} {parent : Option Message} {answer : Service} {exchange routingKey : Str}

/-- What a list of calls has added to the queues, and nothing else. -/
structure Added (config : Config) (exchange routingKey : Str) (new : List Step) (world after : World) : Prop where
  contents : after.broker.contents = world.broker.contents ++
    (delivered new).flatMap fun body => ((declare config).route exchange routingKey).map fun queue => (queue, body)
  db : after.db = world.db
  store : after.store = world.store

theorem Added.nothing {new : List Step} (silent : delivered new = []) (world : World) :
    Added config exchange routingKey new world world := by
  refine ⟨?_, rfl, rfl⟩
  rw [silent, List.flatMap_nil, List.append_nil]

theorem Added.trans {first second : List Step} {world middle after : World}
    (left : Added config exchange routingKey first world middle)
    (right : Added config exchange routingKey second middle after) :
    Added config exchange routingKey (first ++ second) world after := by
  refine ⟨?_, right.db.trans left.db, right.store.trans left.store⟩
  rw [right.contents, left.contents, delivered_append, List.flatMap_append, List.append_assoc]

/-- One pass over the bodies: all of them are sent, or a call raises before that. A list without bodies can
only fail to open its channel. -/
inductive Round (answer : Service) (exchange routingKey : Str) (bodies : List Body) (opening : List Step) :
    Except Exc Unit → List Step → Prop
  | complete : Round answer exchange routingKey bodies opening (.ok ())
      (opening ++ bodies.map (Step.sent exchange routingKey))
  | broken {error : Exc} {new : List Step} (raised : ∃ calls request world, (answer calls (.amqp request) world).1 = .error error)
      (beginning : delivered new <+: bodies)
      (proper : delivered new = bodies → bodies = [] ∧ opening ≠ []) :
      Round answer exchange routingKey bodies opening (.error error) new

/-- A body sent before the others. -/
private theorem Round.cons {body : Body} {rest : List Body} {result : Except Exc Unit} {new : List Step}
    (round : Round answer exchange routingKey rest [] result new) :
    Round answer exchange routingKey (body :: rest) [] result (Step.sent exchange routingKey body :: new) := by
  cases round with
  | complete => exact .complete
  | broken raised beginning proper =>
    have first : delivered (Step.sent exchange routingKey body :: new) = body :: delivered new := rfl
    refine .broken raised (first ▸ List.cons_prefix_cons.mpr ⟨rfl, beginning⟩) fun same => ?_
    rw [first] at same
    exact absurd rfl (proper (List.tail_eq_of_cons_eq same)).2

section Rounds

variable (honest : Honest config parent answer) (exchange routingKey)

include honest

private theorem publishEach_round (bodies : List Body) (calls : List Step) (world : World) :
    ∃ result new after, (publishEach exchange routingKey bodies).eval answer calls world = (result, calls ++ new, after) ∧
      Added config exchange routingKey new world after ∧ Round answer exchange routingKey bodies [] result new := by
  induction bodies generalizing calls world with
  | nil => exact ⟨.ok (), [], world, by rw [List.append_nil]; rfl, .nothing rfl world, .complete⟩
  | cons body rest ih =>
    rcases honest calls (.basicPublish exchange routingKey body) world with sent | ⟨error, raised⟩
    · obtain ⟨result, new, after, same, added, round⟩ := ih (calls ++ [Step.sent exchange routingKey body])
        { world with broker := world.broker.publish (declare config) parent exchange routingKey body }
      have first : Added config exchange routingKey [Step.sent exchange routingKey body] world
          { world with broker := world.broker.publish (declare config) parent exchange routingKey body } := by
        refine ⟨?_, rfl, rfl⟩
        rw [contents_publish]
        simp [delivered, Step.delivered, Step.sent]
      refine ⟨result, Step.sent exchange routingKey body :: new, after, ?_, first.trans added, round.cons⟩
      refine (eval_perform_ok sent).trans ?_
      rw [← List.append_cons] at same
      exact same
    · refine ⟨_, _, _, eval_perform_error raised, .nothing rfl world, .broken ⟨_, _, _, congrArg Prod.fst raised⟩ List.nil_prefix ?_⟩
      rintro ⟨⟩

private theorem publishOn_round (bodies : List Body) (calls : List Step) (world : World) :
    ∃ result new after, (publishOn exchange routingKey bodies).eval answer calls world = (result, calls ++ new, after) ∧
      Added config exchange routingKey new world after ∧
      Round answer exchange routingKey bodies [Step.opened] result new := by
  rcases honest calls .channel world with opened | ⟨error, raised⟩
  · obtain ⟨result, new, after, same, added, round⟩ :=
      publishEach_round exchange routingKey honest bodies (calls ++ [Step.opened]) world
    refine ⟨result, Step.opened :: new, after, ?_, ⟨added.contents, added.db, added.store⟩, ?_⟩
    · refine (eval_perform_ok opened).trans ?_
      rw [← List.append_cons] at same
      exact same
    · cases round with
      | complete => exact .complete
      | broken raised beginning proper => exact .broken raised beginning fun same => absurd rfl (proper same).2
  · refine ⟨_, _, _, eval_perform_error raised, .nothing rfl world,
      .broken ⟨_, _, _, congrArg Prod.fst raised⟩ List.nil_prefix fun same => ?_⟩
    exact ⟨same.symm, List.cons_ne_nil _ _⟩

/-- When nothing raises, the bodies are published once each, in order. -/
theorem publishBodies_undisturbed (quiet : ∀ calls request world error, (answer calls (.amqp request) world).1 ≠ .error error)
    (bodies : List Body) (calls : List Step) (world : World) :
    ∃ after, (publishBodies exchange routingKey bodies).eval answer calls world =
        (.ok (), calls ++ Step.opened :: bodies.map (Step.sent exchange routingKey), after) ∧
      Added config exchange routingKey (bodies.map (Step.sent exchange routingKey)) world after := by
  obtain ⟨result, new, after, same, added, round⟩ := publishOn_round exchange routingKey honest bodies calls world
  simp only [publishBodies, monad_bind, eval_bind, eval_attempt, same]
  cases round with
  | complete => exact ⟨after, rfl, added.contents, added.db, added.store⟩
  | broken raised =>
    obtain ⟨earlier, request, old, raised⟩ := raised
    exact absurd raised (quiet _ _ _ _)

end Rounds

/-- A run of `_publish` that returned: one channel took the whole list, and before that nothing or a beginning of
the list was sent. -/
structure Delivers (exchange routingKey : Str) (bodies : List Body) (new : List Step) : Prop where
  channel : ∃ earlier, new = earlier ++ Step.opened :: bodies.map (Step.sent exchange routingKey)
  sequence : delivered new = bodies ∨ ∃ first, first <+: bodies ∧ first ≠ bodies ∧ delivered new = first ++ bodies
  counts : ∀ body, bodies.count body ≤ (delivered new).count body ∧ (delivered new).count body ≤ 2 * bodies.count body

/-- For every list of bodies and whatever the two channels raise: `_publish` adds to the queues what was
delivered. If it returns, one channel took the whole list and every body was delivered once or twice; if it raises,
a beginning of the list was delivered, and perhaps another one after it. -/
theorem publishBodies_at_least_once (config : Config) (parent : Option Message) (markdown : Str)
    (raises : ℕ → Option Exc) (exchange routingKey : Str) (bodies : List Body) (calls : List Step) (world : World) :
    ∃ result new after,
      (publishBodies exchange routingKey bodies).eval (serve config parent markdown raises) calls world =
        (result, calls ++ new, after) ∧
      Added config exchange routingKey new world after ∧
      (result = .ok () → Delivers exchange routingKey bodies new) ∧
      (∀ error, result = .error error → delivered new <+: bodies ∨
        ∃ first second, first <+: bodies ∧ second <+: bodies ∧ second ≠ bodies ∧ delivered new = first ++ second) := by
  have honest := honest_serve config parent markdown raises
  obtain ⟨result, new, middle, same, added, round⟩ := publishOn_round exchange routingKey honest bodies calls world
  simp only [publishBodies, monad_bind, eval_bind, eval_attempt, same]
  cases round with
  | complete =>
    have sequence : delivered ([Step.opened] ++ bodies.map (Step.sent exchange routingKey)) = bodies :=
      delivered_sent exchange routingKey bodies
    refine ⟨_, _, _, rfl, added, fun _ => ⟨⟨[], rfl⟩, .inl sequence, fun body => ?_⟩, by rintro _ ⟨⟩⟩
    rw [sequence]
    omega
  | @broken error new raised beginning proper =>
    dsimp only
    split
    · obtain ⟨result, more, after, again, addedMore, second⟩ :=
        publishOn_round exchange routingKey honest bodies (calls ++ new) middle
      refine ⟨result, new ++ more, after, by rw [again, List.append_assoc], added.trans addedMore, ?_, ?_⟩
      · rintro rfl
        cases second
        have sequence : delivered (new ++ ([Step.opened] ++ bodies.map (Step.sent exchange routingKey))) =
            delivered new ++ bodies :=
          (delivered_append _ _).trans (congrArg _ (delivered_sent exchange routingKey bodies))
        refine ⟨⟨new, rfl⟩, ?_, fun body => ?_⟩
        · by_cases whole : delivered new = bodies
          · refine .inl (sequence.trans ?_)
            rw [(proper whole).1] at whole
            rw [whole, List.nil_append]
          · exact .inr ⟨_, beginning, whole, sequence⟩
        · rw [sequence, List.count_append]
          have fewer := beginning.sublist.count_le body
          omega
      · rintro error rfl
        cases second with
        | broken _ beginningMore properMore =>
          rw [delivered_append]
          by_cases whole : delivered more = bodies
          · have none := (properMore whole).1
            rw [none] at whole
            rw [whole, List.append_nil]
            exact .inl beginning
          · exact .inr ⟨_, _, beginning, beginningMore, whole, rfl⟩
    · refine ⟨_, _, _, rfl, added, by rintro ⟨⟩, fun _ _ => .inl beginning⟩

/-! ## Destinations -/

/-- The program, run undisturbed, puts each of the bodies on this one queue and nothing else anywhere. -/
def PutsOn (config : Config) (program : Prog Unit) (queue : Str) (bodies : List Body) : Prop :=
  ∀ parent markdown calls world, ∃ new after,
    program.eval (serve config parent markdown fun _ => none) calls world = (.ok (), new, after) ∧
      after.broker.contents = world.broker.contents ++ bodies.map fun body => (queue, body)

theorem putsOn_publishBodies {config : Config} {exchange routingKey queue : Str}
    (routed : (declare config).route exchange routingKey = [queue]) (bodies : List Body) :
    PutsOn config (publishBodies exchange routingKey bodies) queue bodies := by
  intro parent markdown calls world
  have quiet : ∀ calls request world error,
      (serve config parent markdown (fun _ => none) calls (.amqp request) world).1 ≠ .error error := by
    intro calls request world error
    rw [serve_amqp rfl]
    rintro ⟨⟩
  obtain ⟨after, same, added⟩ := publishBodies_undisturbed exchange routingKey
    (honest_serve config parent markdown fun _ => none) quiet bodies calls world
  refine ⟨_, after, same, added.contents.trans ?_⟩
  simp only [delivered_sent, routed, List.map_singleton]
  rw [← List.map_eq_flatMap]

/-- Every published message has a destination. -/
structure Destinations (config : Config) (task : ChunkTask) : Prop where
  work : ∀ tasks, PutsOn config (publish config tasks) config.rabbitmqQueue (tasks.map .task)
  retry : ∃ decl delay, (declare config).queues.filter (fun other => other.name = decl.name) = [decl] ∧
    config.retryDelays[min task.attempt config.retryDelays.length - 1]? = some delay ∧ decl.ttl = some (delay * 1000) ∧
    PutsOn config (publishRetry config task) decl.name [.task task.nextAttempt] ∧
    ∀ routingKey, (declare config).deadLetter decl routingKey = [config.rabbitmqQueue]
  failed : ∀ error, PutsOn config (publishFailed config task error) config.failedQueue [.failed task (error.take 2000)]
  rejected : ∃ decl, (declare config).queues.filter (fun other => other.name = config.rabbitmqQueue) = [decl] ∧
    ∀ exchange routingKey, config.rabbitmqQueue ∈ (declare config).route exchange routingKey →
      (declare config).deadLetter decl routingKey = [config.failedQueue]

/-- Tasks, retries, parked tasks and rejected messages all reach the queue meant for them exactly if there is a
delay to retry after. -/
theorem destinations_iff (config : Config) (task : ChunkTask) (numbered : 1 ≤ task.attempt) :
    Destinations config task ↔ config.retryDelays ≠ [] := by
  constructor
  · rintro ⟨_, ⟨_, delay, _, found, _⟩, _, _⟩ none
    rw [none] at found
    cases found
  · intro delayed
    have tiers : 0 < config.retryDelays.length := List.length_pos_iff.mpr delayed
    refine ⟨fun tasks => putsOn_publishBodies config.route_work _, ?_, fun error => putsOn_publishBodies config.route_failed _,
      ?_⟩
    · obtain ⟨index, tier⟩ : ∃ index, min task.attempt config.retryDelays.length = index + 1 :=
        ⟨min task.attempt config.retryDelays.length - 1, by omega⟩
      have bound : index < config.retryDelays.length := by omega
      have found := List.getElem?_eq_getElem bound
      have routed := config.route_retryQueueName task.attempt
      rw [if_pos ⟨numbered, delayed⟩, Config.retryQueueName, tier] at routed
      rw [tier, Nat.add_sub_cancel]
      refine ⟨config.tierDecl (index + 1) _, _, config.filter_tierQueue found, found, rfl, ?_, fun _ => config.route_work⟩
      rw [publishRetry, Config.retryQueueName, tier]
      exact putsOn_publishBodies routed _
    · refine ⟨_, config.filter_workQueue, fun exchange routingKey member => ?_⟩
      rw [config.routingKey_of_work member]
      exact config.route_failed

/-- A task of a job with one chunk. -/
def someTask (attempt : ℕ) : ChunkTask := ⟨lit "job", 0, lit "key", lit "hash", 0, -1, 1, false, attempt⟩

/-- The second attempt of a task with the default delays. -/
theorem destinations_of_second_attempt : 1 ≤ (someTask 2).attempt ∧ Destinations {} (someTask 2) :=
  ⟨by decide, (destinations_iff {} (someTask 2) (by decide)).mpr (by decide)⟩

/-- Without delays the first retry is published to a queue that does not exist, and is gone. -/
theorem retry_without_tiers : ¬ Destinations { retryDelays := [] } (someTask 1) ∧
    ((publishRetry { retryDelays := [] } (someTask 1)).eval
      (serve { retryDelays := [] } none [] fun _ => none) [] ⟨.empty, fun _ => none, ⟨[], 0⟩⟩).2.2.broker.contents = [] := by
  constructor
  · rintro ⟨_, ⟨_, delay, _, found, _⟩, _, _⟩
    cases found
  · decide

end Taskqueue

end MarkitdownServer
