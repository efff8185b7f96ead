import MarkitdownServer.Model.Consumer
import MarkitdownServer.Proofs.Topology

/-! # What the consumer loop does with each delivery

The calls of `consume` fall into records, one for each delivery it has received, in order. A record says all
that was done about its message: nothing when the loop was told to stop, else a call that disposes of it and
then its ack. Every law of the loop is read off the records.
-/

namespace MarkitdownServer.Consumer

open Effects Effects.Program

/-- The tag that a call has acked. -/
def Step.acked : Step → Option ℕ
  | ⟨.basicAck tag, .ok _⟩ => some tag
  | _ => none

/-- The tags acked by some calls, in order. -/
def acked (calls : List Step) : List ℕ := calls.filterMap Step.acked

/-- Whether a call passed a message to the handler or put a copy on the broker. -/
def Step.disposes : Step → Bool
  | ⟨.handler _, _⟩ => true
  | ⟨.basicPublish .., .ok _⟩ => true
  | _ => false

/-- Whether a call is an ack that raised. -/
def Step.ackRaised : Step → Bool
  | ⟨.basicAck _, .error _⟩ => true
  | _ => false

/-- Whether a call raised. -/
def Step.raised (call : Step) : Bool := !call.reply.toBool

/-- The tag of a message. -/
def Delivery.tag : Delivery → Option ℕ
  | .message tag _ => some tag
  | _ => none

/-- A delivery and the calls made about it. -/
abbrev Record := Delivery × List Step

/-- The tag of a message that was passed to the handler or copied, unless its ack raised. -/
def Record.settled (record : Record) : Option ℕ :=
  if record.2.any Step.disposes && !record.2.any Step.ackRaised then record.1.tag else none

variable {config : Config} {parse : Bytes → Except Exc ChunkTask} {shouldStop : ℕ → Bool}

/-- A call that disposes of a message: a task goes to the handler, any other body is copied unchanged. -/
inductive Disposal (config : Config) (parse : Bytes → Except Exc ChunkTask) (body : Bytes) : Step → Prop
  | handled {task : ChunkTask} {reply : Except Exc Unit} (parsed : parse body = .ok task) :
      Disposal config parse body ⟨.handler task, reply⟩
  | copied {error : Exc} (malformed : parse body = .error error) :
      Disposal config parse body ⟨.basicPublish config.dlxExchange config.rabbitmqQueue body, .ok ()⟩

/-- What is done about one delivery, and whether the loop may go on after it. -/
inductive Treated (config : Config) (parse : Bytes → Except Exc ChunkTask) (stop : Bool) :
    Delivery → List Step → Bool → Prop
  | stopped {delivery : Delivery} (told : stop = true) : Treated config parse stop delivery [] false
  | idle : Treated config parse stop .timeout [] true
  | lost {error : Exc} : Treated config parse stop (.lost error) [] false
  | settled {tag : ℕ} {body : Bytes} {first : Step} (disposal : Disposal config parse body first) :
      Treated config parse stop (.message tag body) [first, ⟨.basicAck tag, .ok ()⟩] !first.raised
  | ackFailed {tag : ℕ} {body : Bytes} {first : Step} {error : Exc} (disposal : Disposal config parse body first) :
      Treated config parse stop (.message tag body) [first, ⟨.basicAck tag, .error error⟩] false
  | copyFailed {tag : ℕ} {body : Bytes} {malformed error : Exc} (parsed : parse body = .error malformed) :
      Treated config parse stop (.message tag body)
        [⟨.basicPublish config.dlxExchange config.rabbitmqQueue body, .error error⟩] false

/-- The records of the rounds from a given one on. -/
inductive History (config : Config) (parse : Bytes → Except Exc ChunkTask) (shouldStop : ℕ → Bool) :
    ℕ → List Delivery → List Record → Prop
  | nil {round : ℕ} : History config parse shouldStop round [] []
  | last {round : ℕ} {delivery : Delivery} {rest : List Delivery} {calls : List Step}
      (treated : Treated config parse (shouldStop round) delivery calls false) :
      History config parse shouldStop round (delivery :: rest) [(delivery, calls)]
  | more {round : ℕ} {delivery : Delivery} {rest : List Delivery} {calls : List Step} {records : List Record}
      (treated : Treated config parse (shouldStop round) delivery calls true)
      (others : History config parse shouldStop (round + 1) rest records) :
      History config parse shouldStop round (delivery :: rest) ((delivery, calls) :: records)

section Run

variable {World : Type} (answer : List Step → Op → World → Except Exc Unit × World)

/-- One call: it returns or raises. -/
private theorem eval_call (op : Op) (calls : List Step) (world : World) :
    ∃ reply after, (perform op : Program Op (fun _ => Unit) Exc Unit).eval answer calls world =
      (reply, calls ++ [⟨op, reply⟩], after) := ⟨_, _, eval_perform answer op calls world⟩

/-- A message that is no task. -/
theorem drop_treated (stop : Bool) {tag : ℕ} {body : Bytes} {malformed : Exc} (parsed : parse body = .error malformed)
    (calls : List Step) (world : World) :
    ∃ result new after, (drop config tag body).eval answer calls world = (result, calls ++ new, after) ∧
      Treated config parse stop (.message tag body) new result.toBool := by
  obtain ⟨published, middle, first⟩ :=
    eval_call answer (.basicPublish config.dlxExchange config.rabbitmqQueue body) calls world
  rw [drop, monad_bind, eval_bind, first]
  cases published with
  | error error => exact ⟨_, _, _, rfl, .copyFailed parsed⟩
  | ok value =>
    obtain ⟨reply, after, second⟩ := eval_call answer (.basicAck tag) (calls ++ [⟨_, .ok ()⟩]) middle
    dsimp only
    rw [second, List.append_assoc]
    cases reply with
    | error error => exact ⟨_, _, _, rfl, .ackFailed (.copied parsed)⟩
    | ok value => exact ⟨_, _, _, rfl, .settled (.copied parsed)⟩

/-- A message with a task. -/
theorem handle_treated (stop : Bool) {tag : ℕ} {body : Bytes} {task : ChunkTask} (parsed : parse body = .ok task)
    (calls : List Step) (world : World) :
    ∃ result new after, (handle tag task).eval answer calls world = (result, calls ++ new, after) ∧
      Treated config parse stop (.message tag body) new result.toBool := by
  obtain ⟨handled, middle, first⟩ := eval_call answer (.handler task) calls world
  obtain ⟨reply, after, second⟩ := eval_call answer (.basicAck tag) (calls ++ [⟨_, handled⟩]) middle
  rw [handle, monad_bind, eval_bind, eval_attempt, first]
  dsimp only
  rw [monad_bind, eval_bind, second, List.append_assoc]
  cases reply with
  | error error => exact ⟨_, _, _, rfl, .ackFailed (.handled parsed)⟩
  | ok value =>
    cases handled with
    | error error => exact ⟨_, _, _, rfl, .settled (.handled parsed)⟩
    | ok value => exact ⟨_, _, _, rfl, .settled (.handled parsed)⟩

/-- A message. -/
theorem receive_treated (stop : Bool) (tag : ℕ) (body : Bytes) (calls : List Step) (world : World) :
    ∃ result new after, (receive config parse tag body).eval answer calls world = (result, calls ++ new, after) ∧
      Treated config parse stop (.message tag body) new result.toBool := by
  rw [receive]
  cases parsed : parse body with
  | error malformed => exact drop_treated answer stop parsed calls world
  | ok task => exact handle_treated answer stop parsed calls world

/-- The calls of the loop are those of its records. -/
theorem rounds_history (config : Config) (parse : Bytes → Except Exc ChunkTask) (shouldStop : ℕ → Bool)
    (answer : List Step → Op → World → Except Exc Unit × World) (round : ℕ) (deliveries : List Delivery)
    (calls : List Step) (world : World) :
    ∃ result records after, (rounds config parse shouldStop round deliveries).eval answer calls world =
        (result, calls ++ records.flatMap Prod.snd, after) ∧
      History config parse shouldStop round deliveries records := by
  induction deliveries generalizing round calls world with
  | nil => exact ⟨_, [], _, by rw [List.flatMap_nil, List.append_nil]; rfl, .nil⟩
  | cons delivery rest ih =>
    cases delivery with
    | lost error => exact ⟨_, [(.lost error, [])], _, by rw [List.flatMap_singleton, List.append_nil]; rfl, .last .lost⟩
    | timeout =>
      by_cases told : shouldStop round = true
      · refine ⟨.ok (), [(.timeout, [])], world, ?_, .last (.stopped told)⟩
        rw [rounds, if_pos told, List.flatMap_singleton, List.append_nil]
        rfl
      · obtain ⟨result, records, after, same, history⟩ := ih (round + 1) calls world
        refine ⟨result, (.timeout, []) :: records, after, ?_, .more .idle history⟩
        rw [rounds, if_neg told, same]
        rfl
    | message tag body =>
      by_cases told : shouldStop round = true
      · refine ⟨.ok (), [(.message tag body, [])], world, ?_, .last (.stopped told)⟩
        rw [rounds, if_pos told, List.flatMap_singleton, List.append_nil]
        rfl
      · rw [rounds, if_neg told, monad_bind, eval_bind]
        obtain ⟨result, new, middle, same, treated⟩ :=
          receive_treated answer (shouldStop round) tag body calls world
        rw [same]
        cases result with
        | error error =>
          refine ⟨.error error, [(.message tag body, new)], middle, ?_, .last treated⟩
          rw [List.flatMap_singleton]
        | ok value =>
          obtain ⟨result, records, after, rest, history⟩ := ih (round + 1) (calls ++ new) middle
          refine ⟨result, (.message tag body, new) :: records, after, ?_, .more treated history⟩
          rw [List.flatMap_cons, ← List.append_assoc]
          exact rest

end Run

/-! ## Laws of the records -/

section Treated

variable {stop goesOn : Bool} {delivery : Delivery} {calls : List Step}

/-- The acks of a record are that of its message, if it was disposed of and its ack did not raise. -/
private theorem Treated.acks (treated : Treated config parse stop delivery calls goesOn) :
    acked calls = (Record.settled (delivery, calls)).toList := by
  cases treated with
  | settled disposal => cases disposal <;> rfl
  | ackFailed disposal => cases disposal <;> rfl
  | _ => rfl

/-- A message is acked last, after it was disposed of. -/
private theorem Treated.order (treated : Treated config parse stop delivery calls goesOn) {before rest : List Step} {tag : ℕ}
    (split : calls = before ++ ⟨.basicAck tag, .ok ()⟩ :: rest) :
    rest = [] ∧ ∃ body first, delivery = .message tag body ∧ before = [first] ∧ Disposal config parse body first := by
  have member : ⟨.basicAck tag, .ok ()⟩ ∈ calls := split ▸ List.mem_append_right _ List.mem_cons_self
  cases treated with
  | @settled tag' body first disposal =>
    rcases before with _ | ⟨one, _ | ⟨two, more⟩⟩
    · cases split
      cases disposal
    · cases split
      exact ⟨rfl, body, first, rfl, rfl, disposal⟩
    · simp at split
  | @ackFailed tag' body first error disposal =>
    rcases List.mem_cons.mp member with rfl | member
    · cases disposal
    · cases List.mem_singleton.mp member
  | copyFailed => cases List.mem_singleton.mp member
  | _ => cases member

/-- A body that is no task does not reach the handler, and is acked only after it was copied. -/
private theorem Treated.malformed (treated : Treated config parse stop delivery calls goesOn) {tag : ℕ} {body : Bytes}
    {error : Exc} (message : delivery = .message tag body) (parsed : parse body = .error error) :
    (∀ task reply, ⟨.handler task, reply⟩ ∉ calls) ∧
      (acked calls ≠ [] → ⟨.basicPublish config.dlxExchange config.rabbitmqQueue body, .ok ()⟩ ∈ calls) := by
  cases treated with
  | settled disposal =>
    cases message
    cases disposal with
    | handled accepted => cases accepted.symm.trans parsed
    | copied => exact ⟨fun task reply => by simp, fun _ => List.mem_cons_self⟩
  | ackFailed disposal =>
    cases message
    cases disposal with
    | handled accepted => cases accepted.symm.trans parsed
    | copied => exact ⟨fun task reply => by simp, fun _ => List.mem_cons_self⟩
  | copyFailed => exact ⟨fun task reply => by simp, fun some => absurd rfl some⟩
  | _ => exact ⟨fun _ _ => List.not_mem_nil, fun some => absurd rfl some⟩

/-- What ends the loop. -/
private theorem Treated.cause (treated : Treated config parse stop delivery calls false) :
    stop = true ∨ (∃ error, delivery = .lost error) ∨ ∃ call ∈ calls, call.raised = true := by
  generalize ended : false = goesOn at treated
  cases treated with
  | stopped told => exact .inl told
  | idle => cases ended
  | lost => exact .inr (.inl ⟨_, rfl⟩)
  | @settled _ _ first _ => exact .inr (.inr ⟨first, List.mem_cons_self, by simpa using ended.symm⟩)
  | ackFailed => exact .inr (.inr ⟨_, List.mem_cons_of_mem _ List.mem_cons_self, rfl⟩)
  | copyFailed => exact .inr (.inr ⟨_, List.mem_cons_self, rfl⟩)

/-- A message that was not acked ends the loop: it was told to stop, or a call for this message raised. -/
private theorem Treated.unacked (treated : Treated config parse stop delivery calls goesOn) {tag : ℕ} {body : Bytes}
    (message : delivery = .message tag body) (none : acked calls = []) :
    goesOn = false ∧ (stop = true ∨ ∃ error,
      ⟨.basicPublish config.dlxExchange config.rabbitmqQueue body, .error error⟩ ∈ calls ∨
        ⟨.basicAck tag, .error error⟩ ∈ calls) := by
  cases treated with
  | stopped told => exact ⟨rfl, .inl told⟩
  | idle => cases message
  | lost => cases message
  | settled disposal =>
    cases message
    cases disposal <;> cases none
  | ackFailed =>
    cases message
    exact ⟨rfl, .inr ⟨_, .inr (List.mem_cons_of_mem _ List.mem_cons_self)⟩⟩
  | copyFailed =>
    cases message
    exact ⟨rfl, .inr ⟨_, .inl List.mem_cons_self⟩⟩

end Treated

section History

variable {round : ℕ} {deliveries : List Delivery} {records : List Record}

/-- The records are about the deliveries received so far, in order. -/
theorem History.received (history : History config parse shouldStop round deliveries records) :
    records.map Prod.fst <+: deliveries := by
  induction history with
  | nil => exact List.prefix_rfl
  | last => exact List.cons_prefix_cons.mpr ⟨rfl, List.nil_prefix⟩
  | more _ _ ih => exact List.cons_prefix_cons.mpr ⟨rfl, ih⟩

/-- Every record is treated as it may be; the loop goes on after all but the last. -/
theorem History.treated (history : History config parse shouldStop round deliveries records) {index : ℕ}
    {record : Record} (found : records[index]? = some record) :
    ∃ goesOn, Treated config parse (shouldStop (round + index)) record.1 record.2 goesOn ∧
      (goesOn = false → index + 1 = records.length) := by
  induction history generalizing index with
  | nil => cases found
  | last treated =>
    cases index with
    | zero =>
      cases found
      exact ⟨_, treated, fun _ => rfl⟩
    | succ index => cases found
  | more treated _ ih =>
    cases index with
    | zero =>
      cases found
      exact ⟨true, treated, by rintro ⟨⟩⟩
    | succ index =>
      obtain ⟨goesOn, treated, final⟩ := ih found
      rw [Nat.succ_add_eq_add_succ] at treated
      exact ⟨goesOn, treated, fun stopped => congrArg Nat.succ (final stopped)⟩

/-- The loop goes through all deliveries unless the last record ends it. -/
theorem History.ends (history : History config parse shouldStop round deliveries records) :
    records.map Prod.fst = deliveries ∨ ∃ record, records.getLast? = some record ∧
      Treated config parse (shouldStop (round + (records.length - 1))) record.1 record.2 false := by
  induction history with
  | nil => exact .inl rfl
  | last treated => exact .inr ⟨_, rfl, treated⟩
  | @more round delivery rest calls records _ _ ih =>
    rcases ih with all | ⟨record, last, treated⟩
    · exact .inl (congrArg _ all)
    · refine .inr ⟨record, ?_, ?_⟩
      · rw [List.getLast?_cons, last]
        rfl
      · have some : records.length ≠ 0 := by
          rintro none
          rw [List.length_eq_zero_iff.mp none] at last
          cases last
        rw [List.length_cons, show round + (records.length + 1 - 1) = round + 1 + (records.length - 1) by omega]
        exact treated

theorem History.mem (history : History config parse shouldStop round deliveries records) {record : Record}
    (member : record ∈ records) : ∃ stop goesOn, Treated config parse stop record.1 record.2 goesOn := by
  obtain ⟨index, found⟩ := List.mem_iff_getElem?.mp member
  obtain ⟨goesOn, treated, _⟩ := history.treated found
  exact ⟨_, goesOn, treated⟩

/-- The acks of the loop are those of the records, in order. -/
theorem History.acks (history : History config parse shouldStop round deliveries records) :
    acked (records.flatMap Prod.snd) = records.filterMap Record.settled := by
  induction history with
  | nil => rfl
  | last treated =>
    rw [List.flatMap_singleton, treated.acks, List.filterMap_cons]
    cases Record.settled _ <;> rfl
  | more treated _ ih =>
    rw [List.flatMap_cons, acked, List.filterMap_append, ← acked, ← acked, treated.acks, ih, List.filterMap_cons]
    cases Record.settled _ <;> rfl

/-- Settled tags are tags of received messages. -/
theorem settled_sublist (records : List Record) :
    (records.filterMap Record.settled).Sublist ((records.map Prod.fst).filterMap Delivery.tag) := by
  induction records with
  | nil => exact List.Sublist.slnil
  | cons record rest ih =>
    rw [List.filterMap_cons, List.map_cons, List.filterMap_cons]
    cases settled : record.settled with
    | none =>
      cases record.1.tag with
      | none => exact ih
      | some tag => exact ih.cons tag
    | some tag =>
      rw [Record.settled] at settled
      split at settled
      · rw [settled]
        exact ih.cons_cons tag
      · cases settled

end History

/-- The account of a run of `consume`: which deliveries it has received, what it has done about each, and what it has
acked. -/
structure Accounts (config : Config) (parse : Bytes → Except Exc ChunkTask) (shouldStop : ℕ → Bool)
    (deliveries : List Delivery) (records : List Record) (calls : List Step) : Prop where
  received : records.map Prod.fst <+: deliveries
  trace : ∃ opening closing, calls = opening ++ records.flatMap Prod.snd ++ closing ∧
    (∀ call ∈ opening ++ closing, call.op = .channel ∨ (∃ prefetch, call.op = .basicQos prefetch) ∨ call.op = .cancel)
  ends : records.map Prod.fst = deliveries ∨ (records = [] ∧ ∃ call ∈ calls, call.raised = true) ∨
    ∃ record, records.getLast? = some record ∧ (shouldStop (records.length - 1) = true ∨
      (∃ error, record.1 = .lost error) ∨ ∃ call ∈ record.2, call.raised = true)
  acks : acked calls = records.filterMap Record.settled
  once : (deliveries.filterMap Delivery.tag).Nodup → (acked calls).Nodup
  order : ∀ record ∈ records, ∀ before tag rest, record.2 = before ++ ⟨.basicAck tag, .ok ()⟩ :: rest →
    rest = [] ∧ ∃ body first, record.1 = .message tag body ∧ before = [first] ∧ Disposal config parse body first
  malformed : ∀ tag body calls error, (.message tag body, calls) ∈ records → parse body = .error error →
    (∀ task reply, ⟨.handler task, reply⟩ ∉ calls) ∧
      (acked calls ≠ [] → ⟨.basicPublish config.dlxExchange config.rabbitmqQueue body, .ok ()⟩ ∈ calls)
  unacked : ∀ round tag body calls, records[round]? = some (.message tag body, calls) → acked calls = [] →
    round + 1 = records.length ∧ (shouldStop round = true ∨ ∃ error,
      ⟨.basicPublish config.dlxExchange config.rabbitmqQueue body, .error error⟩ ∈ calls ∨
        ⟨.basicAck tag, .error error⟩ ∈ calls)

/-- The laws hold of the calls of a history with what comes before and after the loop. -/
private theorem History.accounts {deliveries : List Delivery} {records : List Record} (opening closing : List Step)
    (history : History config parse shouldStop 0 deliveries records)
    (frame : ∀ call ∈ opening ++ closing,
      call.op = .channel ∨ (∃ prefetch, call.op = .basicQos prefetch) ∨ call.op = .cancel) :
    Accounts config parse shouldStop deliveries records (opening ++ records.flatMap Prod.snd ++ closing) := by
  have silent (calls : List Step) (inside : ∀ call ∈ calls, call ∈ opening ++ closing) : acked calls = [] := by
    rw [acked, List.filterMap_eq_nil_iff]
    intro call member
    obtain ⟨op, reply⟩ := call
    rcases frame _ (inside _ member) with rfl | ⟨prefetch, rfl⟩ | rfl <;> rfl
  have acks : acked (opening ++ records.flatMap Prod.snd ++ closing) = records.filterMap Record.settled := by
    rw [acked, List.filterMap_append, List.filterMap_append, ← acked, ← acked, ← acked, history.acks,
      silent opening fun _ => List.mem_append_left _, silent closing fun _ => List.mem_append_right _, List.nil_append,
      List.append_nil]
  refine ⟨history.received, ⟨opening, closing, rfl, frame⟩, ?_, acks, fun distinct => ?_, ?_, ?_, ?_⟩
  · rcases history.ends with all | ⟨record, last, treated⟩
    · exact .inl all
    · rw [Nat.zero_add] at treated
      exact .inr (.inr ⟨record, last, treated.cause⟩)
  · rw [acks]
    exact (distinct.sublist (history.received.sublist.filterMap _)).sublist (settled_sublist records)
  · intro record member before tag rest split
    obtain ⟨stop, goesOn, treated⟩ := history.mem member
    exact treated.order split
  · intro tag body calls error member parsed
    obtain ⟨stop, goesOn, treated⟩ := history.mem member
    exact treated.malformed rfl parsed
  · intro index tag body calls found none
    obtain ⟨goesOn, treated, final⟩ := history.treated found
    obtain ⟨stopped, cause⟩ := treated.unacked rfl none
    rw [Nat.zero_add] at cause
    exact ⟨final stopped, cause⟩

/-- A run that has received nothing. -/
private theorem unreceived {deliveries : List Delivery} {calls : List Step}
    (frame : ∀ call ∈ calls, call.op = .channel ∨ (∃ prefetch, call.op = .basicQos prefetch) ∨ call.op = .cancel)
    (raised : ∃ call ∈ calls, call.raised = true) : Accounts config parse shouldStop deliveries [] calls := by
  have started : History config parse shouldStop 0 [] [] := .nil
  have accounts := started.accounts calls [] (by rwa [List.append_nil])
  rw [List.flatMap_nil, List.append_nil, List.append_nil] at accounts
  refine { accounts with received := List.nil_prefix, ends := .inr (.inl ⟨rfl, raised⟩), once := fun _ => ?_ }
  rw [accounts.acks]
  exact List.nodup_nil

/-- For every sequence of deliveries, every behaviour of `should_stop` and every handler and broker, `consume` accounts
for what it has received; a copy goes to the failed queue. -/
theorem consume_accounts {World : Type} (config : Config) (parse : Bytes → Except Exc ChunkTask) (shouldStop : ℕ → Bool)
    (prefetch : ℤ) (deliveries : List Delivery) (answer : List Step → Op → World → Except Exc Unit × World)
    (world : World) :
    ∃ records, Accounts config parse shouldStop deliveries records
        ((consume config parse shouldStop prefetch deliveries).eval answer [] world).2.1 ∧
      (declare config).route config.dlxExchange config.rabbitmqQueue = [config.failedQueue] := by
  suffices account : ∃ records, Accounts config parse shouldStop deliveries records
      ((consume config parse shouldStop prefetch deliveries).eval answer [] world).2.1 by
    obtain ⟨records, accounts⟩ := account
    exact ⟨records, accounts, config.route_failed⟩
  obtain ⟨opened, first, open_⟩ := eval_call answer .channel [] world
  obtain ⟨limited, second, limit⟩ := eval_call answer (.basicQos prefetch) [⟨.channel, opened⟩] first
  obtain ⟨result, records, third, loop, history⟩ :=
    rounds_history config parse shouldStop answer 0 deliveries [⟨.channel, opened⟩, ⟨.basicQos prefetch, limited⟩] second
  obtain ⟨cancelled, fourth, cancel⟩ := eval_call answer .cancel
    ([⟨.channel, opened⟩, ⟨.basicQos prefetch, limited⟩] ++ records.flatMap Prod.snd) third
  rw [consume, monad_bind, eval_bind, open_]
  cases opened with
  | error error =>
    exact ⟨[], unreceived (by simp) ⟨⟨.channel, .error error⟩, by simp, rfl⟩⟩
  | ok value =>
    dsimp only
    rw [monad_bind, eval_bind, List.nil_append, limit]
    cases limited with
    | error error =>
      exact ⟨[], unreceived (by simp) ⟨⟨.basicQos prefetch, .error error⟩, by simp, rfl⟩⟩
    | ok value =>
      dsimp only
      rw [monad_bind, eval_bind, List.singleton_append, loop]
      cases result with
      | error error =>
        have accounts := history.accounts [⟨.channel, .ok ()⟩, ⟨.basicQos prefetch, .ok ()⟩] [] (by simp)
        rw [List.append_nil] at accounts
        exact ⟨records, accounts⟩
      | ok value =>
        dsimp only
        rw [monad_bind, eval_bind, eval_attempt, cancel]
        exact ⟨records, history.accounts _ [_] (by simp)⟩

end MarkitdownServer.Consumer
