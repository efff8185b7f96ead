import MarkitdownServer.Machine.Producer
import MarkitdownServer.Lib.Concurrent
import MarkitdownServer.Model.Endpoints

/-! # The calls of an API pod

All that an API pod ever asks of its services, whatever the route and whatever the replies: it reads, it uploads
sources under their hash, it creates jobs and it publishes tasks on the work queue. All but the reading is done by
`submit`, so what `submit` withstands every endpoint withstands.
-/

namespace MarkitdownServer

open Effects Effects.Program

/-- A call that an API pod may make. -/
def ServedOp (env : Env) : Op → Prop
  | .db (.findCachedDocument _) | .db (.createJob ..) | .db (.getJob _) => True
  | .s3 (.getObject _) | .s3 (.headObject _) => True
  | .s3 (.putObject key obj) => ∃ file, key = sourceKey (env.sha256 file) ∧ obj = .source file
  | .amqp .channel => True
  | .amqp (.basicPublish exchange routingKey body) =>
    exchange = env.rabbitmqExchange ∧ routingKey = env.rabbitmqQueue ∧ ∃ task, body = .task task
  | .tool (.download _) | .tool .newJobId => True
  | _ => False

namespace Producer

/-- The tasks that are still to be published are tasks. -/
def OnlyTasks : Phase → Prop
  | .publishing _ _ _ sending => ∀ body ∈ sending.pending, ∃ task, body = .task task
  | _ => True

variable {env : Env} {url : Str} {useLlm : Bool}

theorem onlyTasks_miss (file : Bytes) : OnlyTasks (miss env file) := by
  unfold miss
  split <;> trivial

theorem servedOp_of_step {phase : Phase} {op : Op} {onward : Except Exc op.Reply → Phase} (tasksOnly : OnlyTasks phase)
    (moves : step env url useLlm phase = some ⟨op, onward⟩) :
    ServedOp env op ∧ ∀ reply, OnlyTasks (onward reply) := by
  cases phase with
  | returned | escaped => cases moves
  | downloading | probing | drawing =>
    cases moves
    refine ⟨trivial, fun reply => ?_⟩
    dsimp only
    split <;> (try split) <;> trivial
  | uploading file ranges =>
    cases moves
    refine ⟨⟨file, rfl, rfl⟩, fun reply => ?_⟩
    cases reply <;> trivial
  | consulting | fetchingManifest | fetchingPage =>
    cases moves
    refine ⟨trivial, fun reply => ?_⟩
    dsimp only
    split <;> first | trivial | exact onlyTasks_miss _
  | creating =>
    cases moves
    refine ⟨trivial, fun reply => ?_⟩
    cases reply with
    | ok => exact fun _ member => by cases member
    | error => trivial
  | publishing file ranges jobId sending =>
    have all : ∀ body ∈ (tasks env useLlm file ranges jobId).map Body.task, ∃ task, body = .task task := by
      intro body member
      obtain ⟨task, _, rfl⟩ := List.mem_map.mp member
      exact ⟨task, rfl⟩
    have onwards := Sending.onward_of_step OnlyTasks moves
      (fun next from_ => from_.elim (fun inside body member => all body (inside member))
        fun inside body member => tasksOnly body (inside member)) trivial fun _ => trivial
    refine ⟨?_, onwards⟩
    cases sending with
    | opening resending =>
      cases moves
      trivial
    | sending resending body rest =>
      cases moves
      exact ⟨rfl, rfl, tasksOnly body (List.mem_cons_self ..)⟩

end Producer

namespace Api

variable {pod : Pod}

theorem submit_makes {env : Env} {url : Str} {useLlm : Bool} : (submit env url useLlm).Makes (ServedOp env) :=
  Producer.submit_tracks.makes Producer.OnlyTasks trivial fun _ _ _ => Producer.servedOp_of_step

/-! ## The shape of an endpoint -/

/-- What follows a submission, and what a poll or a reader asks for, is only read. -/
def ReadOp : Op → Prop
  | .db (.getJob _) | .s3 (.getObject _) => True
  | _ => False

theorem servedOp_of_reads {env : Env} (op : Op) (reads : ReadOp op) : ServedOp env op := by
  cases op with
  | db stmt => cases stmt <;> trivial
  | s3 request => cases request <;> trivial
  | amqp | tool => exact reads.elim

theorem waitForJob_reads (jobId : Str) (polls : ℕ) : (waitForJob jobId polls).Makes ReadOp := by
  induction polls with
  | zero => trivial
  | succ polls ih =>
    refine Makes.bind (.perform trivial) fun found => ?_
    cases found with
    | none => exact ih
    | some job =>
      dsimp only
      split
      · trivial
      · exact ih

theorem getManifest_reads (docKey : Str) : (Storage.getManifest docKey).Makes ReadOp := by
  refine Makes.bind (Makes.perform trivial) ?_
  rintro (_ | ⟨_ | _ | _⟩) <;> trivial

theorem getPage_reads (docKey : Str) (page : ℕ) : (Storage.getPage docKey page).Makes ReadOp := by
  refine Makes.bind (Makes.perform trivial) ?_
  rintro (_ | ⟨_ | _ | _⟩) <;> trivial

theorem completedJobPayload_reads (job : JobRow) : (completedJobPayload job).Makes ReadOp := by
  unfold completedJobPayload
  split
  · trivial
  · refine Makes.bind (getManifest_reads _) fun found => ?_
    cases found with
    | none => trivial
    | some manifest =>
      refine Makes.bind (Makes.bind (getPage_reads _ _) fun page => ?_) fun payload => ?_
      · cases page <;> trivial
      · cases payload <;> trivial

theorem getPageEndpoint_reads (docId : Str) (page : ℤ) : (getPageEndpoint docId page).Makes ReadOp := by
  refine Makes.bind (getManifest_reads _) fun found => ?_
  cases found with
  | none => trivial
  | some manifest =>
    dsimp only
    split
    · trivial
    · refine Makes.bind (getPage_reads _ _) fun content => ?_
      cases content <;> trivial

theorem getJobEndpoint_reads (jobId : Str) : (getJobEndpoint jobId).Makes ReadOp := by
  refine Makes.bind (.perform trivial) fun found => ?_
  cases found with
  | none => trivial
  | some job =>
    refine Makes.bind (Makes.bind (.perform trivial) fun row => ?_) fun _ => trivial
    cases row <;> trivial

/-- An endpoint only reads, or it submits a file and reads afterwards. -/
def ReadsAfterSubmit (env : Env) (program : Prog (Option Answer)) : Prop :=
  program.Makes ReadOp ∨ ∃ url useLlm, ∃ next : Except Exc Submission → Prog (Option Answer),
    program = (submit env url useLlm).attempt.bind next ∧ ∀ result, (next result).Makes ReadOp

/-- A request for a conversion is refused, or its file is submitted. -/
theorem readsAfterSubmit_submitRequest (body : Option ConvertRequest) {next : Submission → Prog (Option Answer)}
    (reads : ∀ submission, (next submission).Makes ReadOp) :
    ReadsAfterSubmit pod.toEnv ((submitRequest pod body).bind next) := by
  rcases body with _ | ⟨_ | _ | ⟨first, rest⟩, useLlm⟩
  · exact .inl trivial
  · exact .inl trivial
  · exact .inl trivial
  · refine .inr ⟨_, _, _, Program.bind_assoc _ _ next, fun result => ?_⟩
    cases result with
    | ok submission => exact reads submission
    | error => trivial

theorem readsAfterSubmit_endpoint (route : Route) : ReadsAfterSubmit pod.toEnv (endpoint pod route) := by
  cases route with
  | convert body polls =>
    have shape : endpoint pod (.convert body polls) = (submitRequest pod body).bind _ := Program.bind_assoc _ _ _
    rw [shape]
    refine readsAfterSubmit_submitRequest body fun submission => Makes.bind ?_ fun _ => trivial
    cases submission with
    | cached => trivial
    | queued jobId docKey total =>
      refine Makes.bind (waitForJob_reads jobId polls) fun found => ?_
      cases found with
      | none => trivial
      | some job => exact Makes.bind (completedJobPayload_reads job) fun _ => trivial
  | asyncConvert body =>
    have shape : endpoint pod (.asyncConvert body) = (submitRequest pod body).bind _ := Program.bind_assoc _ _ _
    rw [shape]
    refine readsAfterSubmit_submitRequest body fun submission => Makes.bind ?_ fun _ => trivial
    cases submission <;> trivial
  | job jobId => exact .inl (Makes.bind (getJobEndpoint_reads jobId) fun _ => trivial)
  | page docId page => exact .inl (Makes.bind (getPageEndpoint_reads docId page) fun _ => trivial)

/-- Behind the API key stands the endpoint. -/
theorem readsAfterSubmit_serveRoute (xApiKey : Option Str) (route : Route) :
    ReadsAfterSubmit pod.toEnv (serveRoute pod xApiKey route) := by
  unfold serveRoute
  cases verifyApiKey pod xApiKey with
  | error error => exact .inl trivial
  | ok key => exact readsAfterSubmit_endpoint route

theorem ReadsAfterSubmit.makes {env : Env} {program : Prog (Option Answer)} (shape : ReadsAfterSubmit env program) :
    program.Makes (ServedOp env) := by
  rcases shape with reads | ⟨url, useLlm, next, rfl, reads⟩
  · exact reads.weaken servedOp_of_reads
  · exact Makes.bind submit_makes.attempt fun result => (reads result).weaken servedOp_of_reads

/-- Whatever `submit` withstands, the endpoints withstand. -/
theorem ReadsAfterSubmit.withstands {World : Type} {serves : World → (op : Op) → Except Exc op.Reply → World → Prop}
    {inv : World → Prop} {grows : World → World → Prop} {env : Env} {program : Prog (Option Answer)}
    {calls : List Step} {world : World} (shape : ReadsAfterSubmit env program) (refl : ∀ world, grows world world)
    (keeps : ∀ world op reply after, ReadOp op → inv world → serves world op reply after →
      inv after ∧ grows world after)
    (submits : ∀ url useLlm, (submit env url useLlm).Withstands serves inv grows (fun _ _ _ => True) calls world) :
    program.Withstands serves inv grows (fun _ _ _ => True) calls world := by
  rcases shape with reads | ⟨url, useLlm, next, rfl, reads⟩
  · exact reads.withstands keeps
  · exact Withstands.attempt_bind refl (submits url useLlm) fun result _ _ _ _ => (reads result).withstands keeps

theorem endpoint_makes (route : Route) : (endpoint pod route).Makes (ServedOp pod.toEnv) :=
  (readsAfterSubmit_endpoint route).makes

/-- Whatever is asked of it, an API pod makes these calls only. -/
theorem serveRoute_makes (xApiKey : Option Str) (route : Route) :
    (serveRoute pod xApiKey route).Makes (ServedOp pod.toEnv) := (readsAfterSubmit_serveRoute xApiKey route).makes

end Api

end MarkitdownServer
