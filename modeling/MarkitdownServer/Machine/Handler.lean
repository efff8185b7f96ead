import MarkitdownServer.Model.Worker

/-! # The control machine of a handler

`handle` is one program text; between two of its calls it stands at one of finitely many places, each
with what it has learnt on the way. The machine lists the places, the call made there and the place each
reply leads to. Invariants of the deployment are stated over the phases, and `onTask_tracks` says that
the program goes through them.
-/

namespace MarkitdownServer

open Effects Effects.Program

/-! ## Publishing with one resend -/

/-- Where `_publish` stands: about to open the channel, or about to publish `body` with `rest` to follow. -/
inductive Sending where
  | opening (resending : Bool)
  | sending (resending : Bool) (body : Body) (rest : List Body)

namespace Sending

variable {Phase : Type} (exchange routingKey : Str) (bodies : List Body) (inside : Sending → Phase) (done : Phase)
  (failed : Exc → Phase)

/-- The next body, or the end. -/
def proceed (resending : Bool) : List Body → Phase
  | [] => done
  | body :: rest => inside (.sending resending body rest)

/-- An `AMQPError` on the first round starts the second one. -/
def recover (resending : Bool) (error : Exc) : Phase :=
  if !resending && error.isAmqpError then inside (.opening true) else failed error

def step : Sending → Σ op : Op, Except Exc op.Reply → Phase
  | .opening resending => ⟨.amqp .channel, fun
      | .ok () => proceed inside done resending bodies
      | .error error => recover inside failed resending error⟩
  | .sending resending body rest => ⟨.amqp (.basicPublish exchange routingKey body), fun
      | .ok () => proceed inside done resending rest
      | .error error => recover inside failed resending error⟩

/-- The bodies still to publish in this round. -/
def pending : Sending → List Body
  | .opening _ => []
  | .sending _ body rest => body :: rest

/-- The publish is one of this single body. -/
def Single (body : Body) : Sending → Prop
  | .opening _ => True
  | .sending _ other rest => other = body ∧ rest = []

variable {exchange routingKey bodies inside done failed}

/-- A publish stays inside, with bodies it has yet to publish, or ends in one of its two exits. -/
theorem onward_of_step (holds : Phase → Prop) {sending : Sending} {op : Op} {onward : Except Exc op.Reply → Phase}
    (moves : some (step exchange routingKey bodies inside done failed sending) = some ⟨op, onward⟩)
    (stays : ∀ next, next.pending ⊆ bodies ∨ next.pending ⊆ sending.pending → holds (inside next))
    (ends : holds done) (fails : ∀ error, holds (failed error)) (reply : Except Exc op.Reply) :
    holds (onward reply) := by
  have proceeds (resending : Bool) (rest : List Body) (some : rest ⊆ bodies ∨ rest ⊆ sending.pending) :
      holds (proceed inside done resending rest) := by
    cases rest with
    | nil => exact ends
    | cons body rest => exact stays (.sending resending body rest) some
  have recovers (resending : Bool) (error : Exc) : holds (recover inside failed resending error) := by
    unfold recover
    split
    · exact stays (.opening true) (.inl (List.nil_subset _))
    · exact fails error
  cases sending with
  | opening resending =>
    cases moves
    rcases reply with error | ⟨⟨⟩⟩
    · exact recovers resending error
    · exact proceeds resending bodies (.inl (List.Subset.refl _))
  | sending resending body rest =>
    cases moves
    rcases reply with error | ⟨⟨⟩⟩
    · exact recovers resending error
    · exact proceeds resending rest (.inr (List.subset_cons_self body rest))

/-- What is published is one of the bodies still to publish. -/
theorem mem_pending_of_step {sending : Sending} {target key : Str} {body : Body}
    {onward : Except Exc (Op.amqp (.basicPublish target key body)).Reply → Phase}
    (moves : some (step exchange routingKey bodies inside done failed sending) = some ⟨_, onward⟩) :
    body ∈ sending.pending := by
  cases sending with
  | opening => cases moves
  | sending resending first rest =>
    cases moves
    exact List.mem_cons_self ..

/-- A publish whose call is carried out goes on to the next body or has ended. -/
theorem onward_of_ok (holds : Phase → Prop) {sending : Sending} {request : Amqp}
    {onward : Except Exc (Op.amqp request).Reply → Phase}
    (moves : some (step exchange routingKey bodies inside done failed sending) = some ⟨.amqp request, onward⟩)
    (stays : ∀ next, holds (inside next)) (ends : holds done) : holds (onward (.ok ())) := by
  have proceeds (resending : Bool) (rest : List Body) : holds (proceed inside done resending rest) := by
    cases rest with
    | nil => exact ends
    | cons body rest => exact stays _
  cases sending with
  | opening resending =>
    cases moves
    exact proceeds resending bodies
  | sending resending body rest =>
    cases moves
    exact proceeds resending rest

/-- A publish of one body stays one, or ends in one of its two exits. -/
theorem Single.onward (holds : Phase → Prop) {body : Body} {sending : Sending} {op : Op}
    {onward : Except Exc op.Reply → Phase} (single : sending.Single body)
    (moves : some (step exchange routingKey [body] inside done failed sending) = some ⟨op, onward⟩)
    (stays : ∀ next, Single body next → holds (inside next)) (ends : holds done) (fails : ∀ error, holds (failed error))
    (reply : Except Exc op.Reply) : holds (onward reply) := by
  have recovers (resending : Bool) (error : Exc) : holds (recover inside failed resending error) := by
    unfold recover
    split
    · exact stays (.opening true) trivial
    · exact fails error
  cases sending with
  | opening resending =>
    cases moves
    rcases reply with error | ⟨⟨⟩⟩
    · exact recovers resending error
    · exact stays (.sending resending body []) ⟨rfl, rfl⟩
  | sending resending other rest =>
    obtain ⟨rfl, rfl⟩ := single
    cases moves
    rcases reply with error | ⟨⟨⟩⟩
    · exact recovers resending error
    · exact ends

/-- A publish of one body whose call is carried out has opened its channel, or has published and ended. -/
theorem Single.carried {body : Body} {sending : Sending} {op : Op} {onward : Except Exc op.Reply → Phase}
    {config : Config} {parent : Option Message} {world after : World} {reply : Except Exc op.Reply}
    (single : sending.Single body)
    (moves : some (step exchange routingKey [body] inside done failed sending) = some ⟨op, onward⟩)
    (carried : op.carry config parent world .done = some (reply, after)) :
    (∃ next, onward reply = inside next ∧ after = world) ∨
      (onward reply = done ∧
        after = { world with broker := world.broker.publish (declare config) parent exchange routingKey body }) := by
  cases sending with
  | opening resending =>
    cases moves
    cases carried
    exact .inl ⟨_, rfl, rfl⟩
  | sending resending other rest =>
    obtain ⟨rfl, rfl⟩ := single
    cases moves
    cases carried
    exact .inr ⟨rfl, rfl⟩

theorem op_of_step {sending : Sending} {op : Op} {onward : Except Exc op.Reply → Phase}
    (moves : some (step exchange routingKey bodies inside done failed sending) = some ⟨op, onward⟩) :
    ∃ request, op = .amqp request := by
  cases sending <;> cases moves <;> exact ⟨_, rfl⟩

variable {machine : Machine Op Op.Reply Exc Phase}
  (moves : ∀ sending, machine (inside sending) = some (step exchange routingKey bodies inside done failed sending))

include moves

private theorem publishEach_tracks (resending : Bool) (rest : List Body) :
    (Taskqueue.publishEach exchange routingKey rest).Tracks machine
      (Ends (fun _ => done) (recover inside failed resending))
      (proceed inside done resending rest) := by
  induction rest with
  | nil => rfl
  | cons body rest ih => exact Tracks.perform_bind (moves _) (fun _ => rfl) fun _ => ih

private theorem publishOn_tracks (resending : Bool) :
    (Taskqueue.publishOn exchange routingKey bodies).Tracks machine
      (Ends (fun _ => done) (recover inside failed resending))
      (inside (.opening resending)) :=
  Tracks.perform_bind (moves _) (fun _ => rfl) fun _ => publishEach_tracks moves resending bodies

theorem publishBodies_tracks :
    (Taskqueue.publishBodies exchange routingKey bodies).Tracks machine
      (Ends (fun _ => done) failed)
      (inside (.opening false)) := by
  refine Tracks.attempt_bind (publishOn_tracks moves false) ?_
  rintro (error | _) phase at_
  · simp only [Ends, recover, Bool.not_false, Bool.true_and] at at_
    simp only [at_]
    split
    · refine (publishOn_tracks moves true).weaken ?_
      rintro (raised | _) phase holds
      · simpa only [Ends, recover, Bool.not_true, Bool.false_and, Bool.false_eq_true, if_false] using holds
      · exact holds
    · rfl
  · exact at_

end Sending

/-! ## The handler -/

namespace Handler

/-- Where `handle` stands. The last seven phases but one are its ways to end; `escaped` is an exception
that reached `on_task`. -/
inductive Phase where
  | looking
  | startingRow
  | startingJob
  | fetching
  | preparing (source : Bytes)
  | converting (source : Bytes)
  | storing (markdown : Str)
  | completing
  | loading
  | listing (job : JobRow)
  | reading (job : JobRow) (parts : List Str) (index : ℕ) (rest : List ℕ)
  | writing (job : JobRow) (parts : List Str) (written : ℕ)
  | recording (job : JobRow) (parts : List Str)
  | finishing (job : JobRow)
  | aborting (error : Exc)
  | parking (error : Exc) (sending : Sending)
  | failingChunk (error : Exc)
  | failingJob (error : Exc)
  | rescheduling (error : Exc)
  | retrying (sending : Sending)
  | dropped
  | counted
  | finished
  | aborted
  | failed
  | retried
  | escaped

/-- The pages of the document made of the parts. -/
def pages (config : Config) (parts : List Str) : List Str := paginate (Worker.joinParts parts) config.pageSize

/-- The manifest of the document made of the parts. -/
def manifest (config : Config) (docKey : Str) (parts : List Str) : Manifest :=
  ⟨docKey, (pages config parts).length, (Worker.joinParts parts).length, config.pageSize⟩

/-- Fetch the next part, or go on to write the pages. -/
def gather (job : JobRow) (parts : List Str) : List ℕ → Phase
  | [] => .writing job parts 0
  | index :: rest => .reading job parts index rest

/-- What `_handle_failure` begins with. -/
def failure (config : Config) (task : ChunkTask) (error : Exc) : Phase :=
  if config.maxAttempts ≤ task.attempt then .parking error (.opening false) else .rescheduling error

variable (config : Config) (owner : Str) (task : ChunkTask)

/-- The call made in each phase and the phase after each reply. -/
def step : Machine Op Op.Reply Exc Phase
  | .looking => some ⟨.db (.getJob task.jobId), fun
      | .ok (some job) => if job.status.isTerminal then .dropped else .startingRow
      | .ok none => .dropped
      | .error _ => .escaped⟩
  | .startingRow => some ⟨.db (.startChunkRow task.jobId task.chunkIndex owner task.attempt), fun
      | .ok _ => .startingJob
      | .error _ => .escaped⟩
  | .startingJob => some ⟨.db (.startChunkJob task.jobId), fun
      | .ok _ => .fetching
      | .error _ => .escaped⟩
  | .fetching => some ⟨.s3 (.getObject (sourceKey task.fileHash)), fun
      | .ok (some (.source source)) => .preparing source
      | .ok _ => failure config task Storage.clientError
      | .error error => failure config task error⟩
  | .preparing source => some ⟨.tool (.markItDown task.useLlm), fun
      | .ok _ => .converting source
      | .error error => failure config task error⟩
  | .converting source => some ⟨.tool (.convert source task.startPage task.endPage task.useLlm), fun
      | .ok markdown => .storing markdown
      | .error error => failure config task error⟩
  | .storing markdown => some ⟨.s3 (.putObject (partKey task.docKey task.chunkIndex) (.text markdown)), fun
      | .ok _ => .completing
      | .error error => failure config task error⟩
  | .completing =>
    some ⟨.db (.completeChunk task.jobId task.chunkIndex (partKey task.docKey task.chunkIndex)), fun
      | .ok remaining => if remaining = 0 then .loading else .counted
      | .error _ => .escaped⟩
  | .loading => some ⟨.db (.getJob task.jobId), fun
      | .ok (some job) => .listing job
      | .ok none => .aborting Worker.typeError
      | .error error => .aborting error⟩
  | .listing job => some ⟨.db (.chunkIndices job.jobId), fun
      | .ok indices => gather job [] indices
      | .error error => .aborting error⟩
  | .reading job parts index rest => some ⟨.s3 (.getObject (partKey job.docKey index)), fun
      | .ok none => .aborting (Worker.missingPart index)
      | .ok (some (.text part)) => gather job (parts ++ [part]) rest
      | .ok (some _) => .aborting Storage.decodeError
      | .error error => .aborting error⟩
  | .writing job parts written =>
    match (pages config parts)[written]? with
    | some content => some ⟨.s3 (.putObject (pageKey job.docKey (written + 1)) (.text content)), fun
        | .ok _ => .writing job parts (written + 1)
        | .error error => .aborting error⟩
    | none =>
      some ⟨.s3 (.putObject (manifestKey job.docKey) (.manifest (manifest config job.docKey parts))), fun
        | .ok _ => .recording job parts
        | .error error => .aborting error⟩
  | .recording job parts =>
    some ⟨.db (.recordDocument (Worker.documentRow config job (pages config parts) (Worker.joinParts parts))), fun
      | .ok _ => .finishing job
      | .error error => .aborting error⟩
  | .finishing job => some ⟨.db (.finishJob job.jobId), fun
      | .ok _ => .finished
      | .error error => .aborting error⟩
  | .aborting error => some ⟨.db (.failJob task.jobId (lit "assembly failed: " ++ error.text) none), fun
      | .ok _ => .aborted
      | .error _ => .escaped⟩
  | .parking error sending => some (sending.step config.dlxExchange config.rabbitmqQueue
      [.failed task (error.describe.take 2000)] (.parking error) (.failingChunk error) fun _ => .escaped)
  | .failingChunk error => some ⟨.db (.failChunk task.jobId task.chunkIndex error.describe), fun
      | .ok _ => .failingJob error
      | .error _ => .escaped⟩
  | .failingJob error =>
    some ⟨.db (.failJob task.jobId (Worker.exhaustedText task error) (some task.chunkIndex)), fun
      | .ok _ => .failed
      | .error _ => .escaped⟩
  | .rescheduling error => some ⟨.db (.rescheduleChunk task.jobId task.chunkIndex error.describe), fun
      | .ok _ => .retrying (.opening false)
      | .error _ => .escaped⟩
  | .retrying sending => some (sending.step config.retryExchange (config.retryQueueName task.attempt)
      [.task task.nextAttempt] .retrying .retried fun _ => .escaped)
  | .dropped | .counted | .finished | .aborted | .failed | .retried | .escaped => none

/-! ## The program goes through the phases -/

variable {config owner task}

private theorem convertChunk_tracks :
    (Worker.convertChunk task).Tracks (step config owner task)
      (fun result phase => Ends (fun _ => .completing) (failure config task) result phase ∧
        ∀ key, result = .ok key → key = partKey task.docKey task.chunkIndex)
      .fetching := by
  have source : (Storage.getSource task.fileHash).Tracks (step config owner task)
      (Ends .preparing (failure config task)) .fetching := by
    refine Tracks.perform_bind rfl (fun _ => rfl) ?_
    rintro (_ | ⟨_ | _ | _⟩) <;> rfl
  refine Tracks.bind (R := Ends Phase.storing (failure config task)) (Tracks.bind source ?_ fun _ _ at_ => at_) ?_
    fun _ _ at_ => ⟨at_, by rintro _ ⟨⟩⟩
  · rintro source phase rfl
    refine Tracks.perform_bind rfl (fun _ => rfl) fun _ => Tracks.perform rfl ?_
    rintro (error | markdown) <;> rfl
  · rintro markdown phase rfl
    refine Tracks.perform_bind rfl (fun _ => ⟨rfl, by rintro _ ⟨⟩⟩) fun _ => ⟨rfl, ?_⟩
    rintro key ⟨⟩
    rfl

private theorem readParts_tracks (job : JobRow) (indices : List ℕ) (parts : List Str) :
    (Worker.readParts job.docKey indices).Tracks (step config owner task)
      (Ends (fun more => .writing job (parts ++ more) 0) .aborting)
      (gather job parts indices) := by
  induction indices generalizing parts with
  | nil => simp only [Worker.readParts, monad_pure, Tracks, Ends, List.append_nil, gather]
  | cons index rest ih =>
    refine Tracks.bind (R := Ends (fun found => found.elim (Phase.aborting (Worker.missingPart index))
      fun part => gather job (parts ++ [part]) rest) Phase.aborting) (Tracks.perform_bind rfl (fun _ => rfl) ?_) ?_
      fun _ _ at_ => at_
    · rintro (_ | ⟨_ | part | _⟩) <;> rfl
    · rintro (_ | part) phase rfl
      · rfl
      · refine Tracks.bind (ih (parts ++ [part])) ?_ fun _ _ at_ => at_
        rintro more phase rfl
        simp only [monad_pure, Tracks, Ends, List.append_assoc, List.singleton_append]

private theorem putPages_tracks (job : JobRow) (parts : List Str) (contents : List Str) (written : ℕ)
    (left : (pages config parts).drop written = contents) (within : written ≤ (pages config parts).length) :
    (Storage.putPages job.docKey (written + 1) contents).Tracks (step config owner task)
      (Ends (fun _ => .writing job parts (pages config parts).length) .aborting)
      (.writing job parts written) := by
  induction contents generalizing written with
  | nil =>
    rw [Nat.le_antisymm within (List.drop_eq_nil_iff.mp left)]
    rfl
  | cons content rest ih =>
    have bound : written < (pages config parts).length := by
      by_contra beyond
      rw [List.drop_eq_nil_of_le (by omega)] at left
      cases left
    obtain ⟨first, others⟩ := List.cons.inj ((List.drop_eq_getElem_cons bound).symm.trans left)
    have found : (pages config parts)[written]? = some content := by
      rw [List.getElem?_eq_getElem bound, first]
    exact Tracks.perform_bind (by simp only [step, found]; rfl) (fun _ => by rfl)
      fun _ => ih (written + 1) others bound

private theorem publishDocument_tracks (job : JobRow) (parts : List Str) :
    (Worker.publishDocument config job parts).Tracks (step config owner task)
      (Ends (fun _ => .finished) .aborting)
      (.writing job parts 0) := by
  have past : (pages config parts)[(pages config parts).length]? = none := List.getElem?_eq_none (Nat.le_refl _)
  refine Tracks.bind (R := Ends (fun _ => Phase.recording job parts) Phase.aborting)
    (Tracks.bind (putPages_tracks job parts (pages config parts) 0 rfl (Nat.zero_le _)) ?_ fun _ _ at_ => at_) ?_
    fun _ _ at_ => at_
  · rintro _ phase rfl
    refine Tracks.perform_bind (by simp only [step, past]; rfl) (fun _ => by rfl) fun _ => ?_
    rfl
  · rintro _ phase rfl
    refine Tracks.perform_bind rfl (fun _ => rfl) fun _ => Tracks.perform rfl ?_
    rintro (error | _) <;> rfl

private theorem assemble_tracks (job : JobRow) :
    (Worker.assemble config (some job)).Tracks (step config owner task)
      (Ends (fun _ => .finished) .aborting)
      (.listing job) := by
  refine Tracks.perform_bind rfl (fun _ => rfl) fun indices => ?_
  refine Tracks.bind (readParts_tracks job indices []) ?_ fun _ _ at_ => at_
  rintro parts phase rfl
  exact publishDocument_tracks job parts

private theorem finishChunk_tracks :
    (Worker.finishChunk config task (partKey task.docKey task.chunkIndex)).Tracks (step config owner task)
      (fun _ phase => step config owner task phase = none) .completing := by
  refine Tracks.perform_bind rfl (fun _ => rfl) fun remaining => ?_
  dsimp only
  split
  · have assembly : Tracks (step config owner task) (Ends (fun _ => .finished) .aborting)
        (sql (.getJob task.jobId) >>= Worker.assemble config) .loading := by
      refine Tracks.perform_bind rfl (fun _ => rfl) ?_
      rintro (_ | job)
      · rfl
      · exact assemble_tracks job
    refine Tracks.attempt_bind assembly ?_
    rintro (error | _) phase rfl
    · refine Tracks.perform rfl ?_
      rintro (error | _) <;> rfl
    · rfl
  · rfl

private theorem handleFailure_tracks (error : Exc) :
    (Worker.handleFailure config task error).Tracks (step config owner task)
      (fun _ phase => step config owner task phase = none) (failure config task error) := by
  unfold Worker.handleFailure failure
  split
  · refine Tracks.bind (Sending.publishBodies_tracks fun sending => rfl) ?_ ?_
    · rintro _ phase rfl
      refine Tracks.perform_bind rfl (fun _ => rfl) fun _ => Tracks.perform rfl ?_
      rintro (raised | _) <;> rfl
    · rintro _ phase rfl
      rfl
  · refine Tracks.perform_bind rfl (fun _ => rfl) fun _ => ?_
    refine (Sending.publishBodies_tracks fun sending => rfl).weaken ?_
    rintro (raised | _) phase rfl <;> rfl

private theorem handle_tracks :
    (Worker.handle config owner task).Tracks (step config owner task)
      (fun _ phase => step config owner task phase = none) .looking := by
  refine Tracks.perform_bind rfl (fun _ => rfl) ?_
  rintro (_ | job)
  · rfl
  dsimp only
  split
  · rfl
  refine Tracks.bind (R := Ends (fun _ => Phase.fetching) fun _ => Phase.escaped)
    (Tracks.perform_bind rfl (fun _ => rfl) fun _ => Tracks.perform rfl ?_) ?_ ?_
  · rintro (error | _) <;> rfl
  · rintro _ phase rfl
    refine Tracks.attempt_bind convertChunk_tracks ?_
    rintro (error | key) phase ⟨rfl, stored⟩
    · exact handleFailure_tracks error
    · rw [stored key rfl]
      exact finishChunk_tracks
  · rintro _ phase rfl
    rfl

/-- The handler of a message makes the calls of the machine and ends where the machine ends. -/
theorem onTask_tracks :
    (Worker.onTask config owner task).Tracks (step config owner task)
      (fun _ phase => step config owner task phase = none) .looking :=
  Tracks.attempt_bind handle_tracks fun _ _ holds => holds

end Handler

end MarkitdownServer
