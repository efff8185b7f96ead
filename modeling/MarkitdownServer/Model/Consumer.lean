import MarkitdownServer.Lib.Program
import MarkitdownServer.Model.Taskqueue

/-! # The consumer loop

The model of `consume` of `taskqueue.py`. What the broker delivers is given as a list and what `should_stop`
answers by the number of the round; every other call may return or raise. `ChunkTask.from_bytes` is a
parameter: any function of the bytes that gives a task or raises.
-/

namespace MarkitdownServer.Consumer

open Effects

/-- What the generator `ch.consume(…)` yields: nothing within the inactivity timeout, a message with its delivery
tag, or the exception of a lost connection. -/
inductive Delivery where
  | timeout
  | message (tag : ℕ) (body : Bytes)
  | lost (error : Exc)

/-- The calls that `consume` makes. -/
inductive Op where
  | channel
  | basicQos (prefetch : ℤ)
  | handler (task : ChunkTask)
  | basicPublish (exchange routingKey : Str) (body : Bytes)
  | basicAck (tag : ℕ)
  | cancel

/-- A call of `consume` with its reply. -/
abbrev Step := Call Op (fun _ => Unit) Exc

variable (config : Config) (parse : Bytes → Except Exc ChunkTask) (shouldStop : ℕ → Bool)

/-- A message whose body is no task: a copy to the failed queue, then the ack. -/
def drop (tag : ℕ) (body : Bytes) : Program Op (fun _ => Unit) Exc Unit := do
  Program.perform (.basicPublish config.dlxExchange config.rabbitmqQueue body)
  Program.perform (.basicAck tag)

/-- `try: handler(task) finally: ch.basic_ack(…)`. -/
def handle (tag : ℕ) (task : ChunkTask) : Program Op (fun _ => Unit) Exc Unit := do
  let result ← (Program.perform (.handler task)).attempt
  Program.perform (.basicAck tag)
  Program.ofExcept result

/-- The part of a round that deals with a message. -/
def receive (tag : ℕ) (body : Bytes) : Program Op (fun _ => Unit) Exc Unit :=
  match parse body with
  | .error _ => drop config tag body
  | .ok task => handle tag task

/-- The loop over the deliveries, from the round with this number on. -/
def rounds : ℕ → List Delivery → Program Op (fun _ => Unit) Exc Unit
  | _, [] => pure ()
  | _, .lost error :: _ => .raise error
  | round, .timeout :: rest => if shouldStop round then pure () else rounds (round + 1) rest
  | round, .message tag body :: rest =>
    if shouldStop round then pure ()
    else do
      receive config parse tag body
      rounds (round + 1) rest

/-- `consume`. -/
def consume (prefetch : ℤ) (deliveries : List Delivery) : Program Op (fun _ => Unit) Exc Unit := do
  Program.perform .channel
  Program.perform (.basicQos prefetch)
  rounds config parse shouldStop 0 deliveries
  let _ ← (Program.perform .cancel).attempt
  pure ()

end MarkitdownServer.Consumer
