import MarkitdownServer.Model.Config

/-! # The broker: tasks, topology and queues

The model of `taskqueue.py` up to the calls on a channel. `declare` yields the topology; a direct
exchange puts a message on the queues bound with exactly its routing key, and a message whose time to
live is over is dead-lettered as its queue declares. A task travels as JSON, which is read back as the
same task, so a body is the task itself.
-/

namespace MarkitdownServer

/-- `ChunkTask`. -/
structure ChunkTask where
  jobId : Str
  chunkIndex : ℕ
  docKey : Str
  fileHash : Str
  startPage : ℤ
  endPage : ℤ
  totalChunks : ℕ
  useLlm : Bool
  attempt : ℕ := 1
deriving DecidableEq

/-- `ChunkTask.next_attempt`. -/
def ChunkTask.nextAttempt (task : ChunkTask) : ChunkTask := { task with attempt := task.attempt + 1 }

/-- A message body: a task, or a task parked with the error that exhausted it. -/
inductive Body where
  | task (task : ChunkTask)
  | failed (task : ChunkTask) (error : Str)
deriving DecidableEq

/-- A message. `origin` numbers the message published by the producer from which it descends by
retries; the broker does not see it. -/
structure Message where
  origin : ℕ
  body : Body
deriving DecidableEq

namespace Config

variable (config : Config)

/-- `RETRY_EXCHANGE`. -/
def retryExchange : Str := config.rabbitmqExchange ++ lit ".retry"

/-- `DLX_EXCHANGE`. -/
def dlxExchange : Str := config.rabbitmqExchange ++ lit ".dlx"

/-- `FAILED_QUEUE`. -/
def failedQueue : Str := config.rabbitmqQueue ++ lit ".failed"

/-- The name `declare` gives to the queue of one delay tier. -/
def tierQueue (tier : ℕ) : Str := config.rabbitmqQueue ++ lit ".retry." ++ Str.ofNat tier

/-- `retry_queue_name`, clamped to the last tier. -/
def retryQueueName (attempt : ℕ) : Str := config.tierQueue (min attempt config.retryDelays.length)

end Config

/-- `queue_declare` with its arguments; `ttl` in milliseconds. -/
structure QueueDecl where
  name : Str
  ttl : Option ℤ := none
  deadLetterExchange : Option Str := none
  deadLetterRoutingKey : Option Str := none

/-- `queue_bind`. -/
structure Binding where
  queue : Str
  exchange : Str
  routingKey : Str

/-- What `declare` leaves on the broker. -/
structure Topology where
  queues : List QueueDecl
  bindings : List Binding

/-- `declare`. -/
def declare (config : Config) : Topology where
  queues := ⟨config.rabbitmqQueue, none, some config.dlxExchange, none⟩ ::
    (config.retryDelays.mapIdx fun i delay => ⟨config.tierQueue (i + 1), some (delay * 1000),
      some config.rabbitmqExchange, some config.rabbitmqQueue⟩) ++
    [⟨config.failedQueue, none, none, none⟩]
  bindings := ⟨config.rabbitmqQueue, config.rabbitmqExchange, config.rabbitmqQueue⟩ ::
    (config.retryDelays.mapIdx fun i _ =>
      ⟨config.tierQueue (i + 1), config.retryExchange, config.tierQueue (i + 1)⟩) ++
    [⟨config.failedQueue, config.dlxExchange, config.rabbitmqQueue⟩]

/-- The queues a message published to a direct exchange is put on. -/
def Topology.route (topology : Topology) (exchange routingKey : Str) : List Str :=
  (topology.bindings.filter fun binding =>
    binding.exchange = exchange && binding.routingKey = routingKey).map (·.queue)

/-- Where a message of a queue goes when it is rejected or expires, by the routing key it came with. -/
def Topology.deadLetter (topology : Topology) (decl : QueueDecl) (routingKey : Str) : List Str :=
  match decl.deadLetterExchange with
  | some exchange => topology.route exchange (decl.deadLetterRoutingKey.getD routingKey)
  | none => []

/-- The messages on the queues, each with its queue, and the next unused origin. -/
structure Broker where
  messages : List (Str × Message)
  fresh : ℕ

/-- Put a message on every queue its exchange and routing key lead to. -/
def Broker.enqueue (broker : Broker) (topology : Topology) (exchange routingKey : Str) (message : Message) :
    Broker :=
  { broker with
    messages := broker.messages ++ (topology.route exchange routingKey).map fun queue => (queue, message) }

/-- `basic_publish` by the handler of a message, or by the producer, who starts a new lineage. -/
def Broker.publish (broker : Broker) (topology : Topology) (parent : Option Message)
    (exchange routingKey : Str) (body : Body) : Broker :=
  match parent with
  | some message => broker.enqueue topology exchange routingKey ⟨message.origin, body⟩
  | none => { broker.enqueue topology exchange routingKey ⟨broker.fresh, body⟩ with fresh := broker.fresh + 1 }

/-- The time to live of a message on a queue is over: it is dead-lettered as the queue declares. -/
def Broker.expire (broker : Broker) (topology : Topology) (index : ℕ) : Option Broker := do
  let (queue, message) ← broker.messages[index]?
  let decl ← topology.queues.find? fun decl => decl.name = queue && decl.ttl.isSome
  let exchange ← decl.deadLetterExchange
  let without : Broker := { broker with messages := broker.messages.eraseIdx index }
  some (without.enqueue topology exchange (decl.deadLetterRoutingKey.getD queue) message)

end MarkitdownServer
