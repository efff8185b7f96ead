import MarkitdownServer.Lib.Program
import MarkitdownServer.Lib.Run
import MarkitdownServer.Model.Taskqueue

/-! # The cached connection of a thread

`connect`, `channel`, `close`, `_publish` and `health` of `taskqueue.py` with the connection and the channel that a
thread keeps in `_local`. The connection is stored before its channel is opened, so a thread can be left with an open
connection and no channel.
-/

namespace MarkitdownServer

open Effects

/-- `_local.channel`: never assigned, `None`, or a channel, by its number among those the thread has opened. -/
inductive LocalChannel where
  | missing
  | empty
  | held (id : ℕ)
deriving DecidableEq

/-- The number of the channel, if there is one. -/
def LocalChannel.id? : LocalChannel → Option ℕ
  | .held id => some id
  | _ => none

/-- What a thread keeps: `_local.connection` with its `is_open`, and `_local.channel`. The other fields are its history:
how many channels it has opened, what it has sent on which channel, and what pika has raised. -/
structure BrokerLink where
  connection : Option Bool
  channel : LocalChannel
  opened : ℕ
  sent : List (ℕ × Body)
  raised : List Exc
  held_lt : ∀ id, channel = .held id → id < opened

/-- A thread that has not connected yet. -/
def BrokerLink.initial : BrokerLink := ⟨none, .missing, 0, [], [], by rintro _ ⟨⟩⟩

/-- What the functions do with `_local` and with pika. -/
inductive LinkOp where
  | isOpen
  | hasConnection
  | localChannel
  | forget
  | blockingConnection
  | openChannel
  | declare
  | basicPublish (channel : ℕ) (body : Body)
  | closeConnection

@[reducible] def LinkOp.Reply : LinkOp → Type
  | .isOpen | .hasConnection => Bool
  | .localChannel => Option ℕ
  | _ => Unit

/-- How a call of pika ends: the exception that it raises, and whether the connection is open then. -/
structure LinkFate where
  error : Option Exc
  isOpen : Bool

/-- The exception of a missing attribute, and of a method of `None`. -/
def attributeError : Exc := { name := lit "AttributeError", text := lit "'NoneType' object has no attribute" }

/-- The programs of a thread on its connection. -/
abbrev LinkProg := Program LinkOp LinkOp.Reply Exc

namespace BrokerLink

/-- `connect`. -/
def connect : LinkProg Unit := do
  if ← Program.perform LinkOp.isOpen then pure ()
  else
    Program.perform LinkOp.blockingConnection
    Program.perform LinkOp.openChannel
    Program.perform LinkOp.declare

/-- `channel`. -/
def localChannel : LinkProg (Option ℕ) := do
  connect
  Program.perform LinkOp.localChannel

/-- `close`. -/
def close : LinkProg Unit := do
  if ← Program.perform LinkOp.hasConnection then
    if ← Program.perform LinkOp.isOpen then
      let _ ← (Program.perform LinkOp.closeConnection).attempt
      pure ()
  Program.perform LinkOp.forget

/-- `for body in bodies: ch.basic_publish(…)`. -/
def sendEach (channel : Option ℕ) : List Body → LinkProg Unit
  | [] => pure ()
  | body :: rest =>
    match channel with
    | some id => do
      Program.perform (LinkOp.basicPublish id body)
      sendEach channel rest
    | none => .raise attributeError

/-- `ch = channel()` and the loop over the bodies. -/
def sendOn (bodies : List Body) : LinkProg Unit := do
  let channel ← localChannel
  sendEach channel bodies

/-- `_publish`. -/
def send (bodies : List Body) : LinkProg Unit := do
  match ← (sendOn bodies).attempt with
  | .ok () => pure ()
  | .error error =>
    if error.isAmqpError then do
      close
      sendOn bodies
    else .raise error

/-- `health`. -/
def health : LinkProg Bool := do
  match ← (do connect; Program.perform LinkOp.isOpen : LinkProg Bool).attempt with
  | .ok healthy => pure healthy
  | .error _ => pure false

/-- A call of pika that returns. -/
def effect (link : BrokerLink) : LinkOp → BrokerLink
  | .openChannel =>
    { link with
      channel := .held link.opened
      opened := link.opened + 1
      held_lt := by
        rintro _ ⟨⟩
        exact Nat.lt_succ_self _ }
  | .basicPublish channel body => { link with sent := link.sent ++ [(channel, body)] }
  | _ => link

/-- A call of pika on the connection, which may be found closed with any of them. -/
def onConnection (link : BrokerLink) (op : LinkOp) (fate : LinkFate) : Except Exc Unit × BrokerLink :=
  let after : BrokerLink := { link with connection := link.connection.map (· && fate.isOpen) }
  match fate.error with
  | some error => (.error error, { after with raised := link.raised ++ [error] })
  | none => (.ok (), after.effect op)

/-- The calls of a thread, with the fates of the calls of pika by the number of calls made before. -/
def answer (fates : ℕ → LinkFate) (calls : List (Call LinkOp LinkOp.Reply Exc)) (op : LinkOp) (link : BrokerLink) :
    Except Exc op.Reply × BrokerLink :=
  match op with
  | .isOpen => (.ok (link.connection = some true), link)
  | .hasConnection => (.ok link.connection.isSome, link)
  | .localChannel =>
    match link.channel with
    | .missing => (.error attributeError, link)
    | .empty => (.ok none, link)
    | .held id => (.ok (some id), link)
  | .forget => (.ok (), { link with connection := none, channel := .empty, held_lt := by rintro _ ⟨⟩ })
  | .blockingConnection =>
    match (fates calls.length).error with
    | some error => (.error error, { link with raised := link.raised ++ [error] })
    | none => (.ok (), { link with connection := some (fates calls.length).isOpen })
  | .openChannel => link.onConnection .openChannel (fates calls.length)
  | .declare => link.onConnection .declare (fates calls.length)
  | .basicPublish channel body => link.onConnection (.basicPublish channel body) (fates calls.length)
  | .closeConnection => link.onConnection .closeConnection (fates calls.length)

end BrokerLink

/-- What a thread does with its connection. -/
inductive LinkMove where
  | send (bodies : List Body) (fates : ℕ → LinkFate)
  | health (fates : ℕ → LinkFate)
  | close (fates : ℕ → LinkFate)

def LinkMove.isClose : LinkMove → Bool
  | .close _ => true
  | _ => false

/-- The connection after a call of one of the functions. -/
def BrokerLink.step (link : BrokerLink) : LinkMove → Option BrokerLink
  | .send bodies fates => some ((send bodies).eval (answer fates) [] link).2.2
  | .health fates => some (health.eval (answer fates) [] link).2.2
  | .close fates => some (close.eval (answer fates) [] link).2.2

end MarkitdownServer
