import Mathlib.Data.Set.Basic
import MarkitdownServer.Proofs.Publication

/-! # The document that a run produces

When conversion is a function of the file, the range and the flag, and digests do not collide, every
object in the bucket is determined by its key: parts, pages and manifests are those of the one file and
flag behind the key, whichever job, attempt or duplicate has written them. Together with the publication
chain this fixes the whole document under a manifest.
-/

namespace MarkitdownServer

open Effects Transition

/-- SHA-256 hex digests have 64 characters, and neither the digests of the files nor the two truncated
fingerprints collide. -/
structure Env.Collisionless (env : Env) (files : Set Bytes) : Prop where
  digest : ∀ data, (env.sha256 data).length = 64
  injective : ∀ first ∈ files, ∀ second ∈ files, env.sha256 first = env.sha256 second → first = second
  fingerprint : env.configFingerprint true ≠ env.configFingerprint false

/-- The converted parts of a file. -/
def partsOf (conv : Bytes → ℤ → ℤ → Bool → Str) (file : Bytes) (useLlm : Bool) (ranges : List (ℤ × ℤ)) : List Str :=
  ranges.map fun range => conv file range.1 range.2 useLlm

variable (env : Env) (conv : Bytes → ℤ → ℤ → Bool → Str) (files : Set Bytes)

/-- The file, flag and ranges behind a document key. -/
structure Belongs (docKey : Str) (file : Bytes) (useLlm : Bool) (ranges : List (ℤ × ℤ)) : Prop where
  known : file ∈ files
  key : docKey = Producer.docKey env useLlm file
  planned : Producer.plan env file = .ok ranges

/-- The objects that may stand under a key. -/
inductive GenuineObj : Str → Obj → Prop
  | source {file : Bytes} (known : file ∈ files) : GenuineObj (sourceKey (env.sha256 file)) (.source file)
  | part {docKey : Str} {index : ℕ} {file : Bytes} {useLlm : Bool} {ranges : List (ℤ × ℤ)} {content : Str}
      (belongs : Belongs env files docKey file useLlm ranges)
      (found : (partsOf conv file useLlm ranges)[index]? = some content) :
      GenuineObj (partKey docKey index) (.text content)
  | page {docKey : Str} {index : ℕ} {file : Bytes} {useLlm : Bool} {ranges : List (ℤ × ℤ)} {content : Str}
      (belongs : Belongs env files docKey file useLlm ranges)
      (found : (Handler.pages env.toConfig (partsOf conv file useLlm ranges))[index]? = some content) :
      GenuineObj (pageKey docKey (index + 1)) (.text content)
  | manifest {docKey : Str} {file : Bytes} {useLlm : Bool} {ranges : List (ℤ × ℤ)}
      (belongs : Belongs env files docKey file useLlm ranges) :
      GenuineObj (manifestKey docKey)
        (.manifest (Handler.manifest env.toConfig docKey (partsOf conv file useLlm ranges)))

/-- A task for a range of the file behind its key. -/
def Genuine (task : ChunkTask) : Prop :=
  ∃ file ranges, Belongs env files task.docKey file task.useLlm ranges ∧ task.fileHash = env.sha256 file ∧
    ranges[task.chunkIndex]? = some (task.startPage, task.endPage)

def GenuineBody : Body → Prop
  | .task task => Genuine env files task
  | .failed _ _ => True

/-- Everything in the world is what its key says. -/
structure Authentic (world : World) : Prop where
  objects : ∀ key obj, world.store key = some obj → GenuineObj env conv files key obj
  jobs : ∀ jobId row, world.db.getJob jobId = some row → ∃ file useLlm ranges,
    Belongs env files row.docKey file useLlm ranges ∧ world.db.chunkIndices jobId = List.range ranges.length
  owned : ∀ row ∈ world.db.jobChunks.rows, ∃ job, world.db.getJob row.jobId = some job
  messages : ∀ entry ∈ world.broker.messages, GenuineBody env files entry.2.body

variable {env conv files}

/-- The key determines the file and the flag. -/
theorem docKey_inj (collisionless : env.Collisionless files) {file other : Bytes} {useLlm flag : Bool}
    (known : file ∈ files) (alsoKnown : other ∈ files)
    (keys : Producer.docKey env useLlm file = Producer.docKey env flag other) : file = other ∧ useLlm = flag := by
  simp only [Producer.docKey, Env.makeDocKey] at keys
  obtain ⟨hashes, fingerprints⟩ := List.append_inj keys (by simp [collisionless.digest])
  refine ⟨collisionless.injective file known other alsoKnown (List.append_cancel_right hashes), ?_⟩
  have different := collisionless.fingerprint
  cases useLlm with
  | true =>
    cases flag with
    | true => rfl
    | false => exact absurd fingerprints different
  | false =>
    cases flag with
    | true => exact absurd fingerprints.symm different
    | false => rfl

/-- The key determines the file, the flag and the ranges. -/
theorem Belongs.unique (collisionless : env.Collisionless files) {docKey : Str} {file other : Bytes}
    {useLlm flag : Bool} {ranges others : List (ℤ × ℤ)} (first : Belongs env files docKey file useLlm ranges)
    (second : Belongs env files docKey other flag others) : file = other ∧ useLlm = flag ∧ ranges = others := by
  obtain ⟨rfl, flags⟩ := docKey_inj collisionless first.known second.known (first.key.symm.trans second.key)
  exact ⟨rfl, flags, Except.ok.inj (first.planned.symm.trans second.planned)⟩

/-! ## What stands under a key -/

section Keys

variable {key docKey : Str} {obj : Obj}

theorem GenuineObj.of_source (genuine : GenuineObj env conv files key obj) {hash : Str} (at_ : key = sourceKey hash) :
    ∃ file ∈ files, hash = env.sha256 file ∧ obj = .source file := by
  cases genuine with
  | @source file known => exact ⟨file, known, ((sourceKey_inj _ _).mp at_).symm, rfl⟩
  | part | page | manifest => simp at at_

theorem GenuineObj.of_part (genuine : GenuineObj env conv files key obj) {index : ℕ} (at_ : key = partKey docKey index) :
    ∃ file useLlm ranges content, Belongs env files docKey file useLlm ranges ∧
      (partsOf conv file useLlm ranges)[index]? = some content ∧ obj = .text content := by
  cases genuine with
  | part belongs found =>
    obtain ⟨rfl, rfl⟩ := (partKey_inj _ _ _ _).mp at_
    exact ⟨_, _, _, _, belongs, found, rfl⟩
  | source | page | manifest => simp at at_

theorem GenuineObj.of_page (genuine : GenuineObj env conv files key obj) {index : ℕ}
    (at_ : key = pageKey docKey (index + 1)) :
    ∃ file useLlm ranges content, Belongs env files docKey file useLlm ranges ∧
      (Handler.pages env.toConfig (partsOf conv file useLlm ranges))[index]? = some content ∧
      obj = .text content := by
  cases genuine with
  | page belongs found =>
    obtain ⟨rfl, same⟩ := (pageKey_inj _ _ _ _).mp at_
    cases Nat.succ.inj same
    exact ⟨_, _, _, _, belongs, found, rfl⟩
  | source | part | manifest => simp at at_

theorem GenuineObj.of_manifest (genuine : GenuineObj env conv files key obj) (at_ : key = manifestKey docKey) :
    ∃ file useLlm ranges, Belongs env files docKey file useLlm ranges ∧
      obj = .manifest (Handler.manifest env.toConfig docKey (partsOf conv file useLlm ranges)) := by
  cases genuine with
  | manifest belongs =>
    obtain rfl := (manifestKey_inj _ _).mp at_
    exact ⟨_, _, _, belongs, rfl⟩
  | source | part | page => simp at at_

end Keys

/-! ## Calls -/

section Calls

variable {config : Config} {parent : Option Message} {world after : World} {fate : Fate}

private theorem authentic_db {stmt : Stmt} {reply : Except Exc stmt.Reply} (authentic : Authentic env conv files world)
    (carried : (Op.db stmt).carry config parent world fate = some (reply, after))
    (careful : ∀ jobId docKey fileHash url ranges useLlm, stmt = .createJob jobId docKey fileHash url ranges useLlm →
      ∃ file, Belongs env files docKey file useLlm ranges) : Authentic env conv files after := by
  have executed : Authentic env conv files { world with db := (stmt.exec world.db).2 } := by
    refine ⟨authentic.objects, fun jobId row found => ?_, owned_exec stmt authentic.owned, authentic.messages⟩
    rcases getJob_exec stmt found with ⟨old, before, change⟩ | ⟨_, _, _, _, ranges, useLlm, same, created, rfl⟩
    · obtain ⟨file, useLlm, ranges, belongs, indices⟩ := authentic.jobs jobId old before
      exact ⟨file, useLlm, ranges, change.columns.2.1 ▸ belongs, (chunkIndices_exec stmt before).trans indices⟩
    · obtain ⟨file, belongs⟩ := careful _ _ _ _ _ _ same
      exact ⟨file, useLlm, ranges, belongs, chunkIndices_createJob authentic.owned created⟩
  rcases carry_db carried with ⟨_, _, rfl⟩ | ⟨_, _, _, rfl⟩ | ⟨_, _, _, rfl⟩
  · exact executed
  · exact authentic
  · exact executed

private theorem authentic_put {key : Str} {obj : Obj} {reply : Except Exc Unit}
    (authentic : Authentic env conv files world)
    (carried : (Op.s3 (.putObject key obj)).carry config parent world fate = some (reply, after))
    (genuine : GenuineObj env conv files key obj) : Authentic env conv files after := by
  have stored : Authentic env conv files { world with store := world.store.put key obj } := by
    refine ⟨fun other found there => ?_, authentic.jobs, authentic.owned, authentic.messages⟩
    simp only [Store.put_apply] at there
    split_ifs at there with same
    · cases there
      exact same ▸ genuine
    · exact authentic.objects other found there
  rcases carry_s3 carried with ⟨_, _, rfl⟩ | ⟨_, _, _, rfl⟩ | ⟨_, _, _, rfl⟩
  · exact stored
  · exact authentic
  · exact stored

private theorem authentic_get {request : S3} {reply : Except Exc request.Reply}
    (authentic : Authentic env conv files world)
    (carried : (Op.s3 request).carry config parent world fate = some (reply, after))
    (reads : (request.exec world.store).2 = world.store) : Authentic env conv files after := by
  rcases carry_s3 carried with ⟨_, _, rfl⟩ | ⟨_, _, _, rfl⟩ | ⟨_, _, _, rfl⟩
  · rw [reads]
    exact authentic
  · exact authentic
  · rw [reads]
    exact authentic

/-- A published body is all that a publish adds to the queues. -/
theorem mem_publish {broker : Broker} {topology : Topology} {exchange routingKey : Str} {body : Body}
    {entry : Str × Message} (member : entry ∈ (broker.publish topology parent exchange routingKey body).messages) :
    entry ∈ broker.messages ∨ entry.2.body = body := by
  cases parent with
  | none =>
    rcases List.mem_append.mp member with old | new
    · exact .inl old
    · obtain ⟨_, _, rfl⟩ := List.mem_map.mp new
      exact .inr rfl
  | some message =>
    rcases List.mem_append.mp member with old | new
    · exact .inl old
    · obtain ⟨_, _, rfl⟩ := List.mem_map.mp new
      exact .inr rfl

private theorem authentic_amqp {request : Amqp} {reply : Except Exc Unit} (authentic : Authentic env conv files world)
    (carried : (Op.amqp request).carry config parent world fate = some (reply, after))
    (careful : ∀ exchange routingKey body, request = .basicPublish exchange routingKey body →
      GenuineBody env files body) : Authentic env conv files after := by
  have sent : Authentic env conv files { world with broker := request.exec config parent world.broker } := by
    refine ⟨authentic.objects, authentic.jobs, authentic.owned, fun entry member => ?_⟩
    cases request with
    | channel => exact authentic.messages entry member
    | basicPublish exchange routingKey body =>
      rcases mem_publish member with old | same
      · exact authentic.messages entry old
      · exact same ▸ careful _ _ _ rfl
  rcases carry_amqp carried with ⟨_, _, rfl⟩ | ⟨_, _, _, rfl⟩ | ⟨_, _, _, rfl⟩
  · exact sent
  · exact authentic
  · exact sent

private theorem authentic_tool {request : Tool} {reply : Except Exc request.Reply}
    (authentic : Authentic env conv files world)
    (carried : (Op.tool request).carry config parent world fate = some (reply, after)) :
    Authentic env conv files after := carry_tool carried ▸ authentic

variable (env conv files) in
/-- A call that brings nothing but genuine things into the world. -/
def GenuineOp : Op → Prop
  | .db (.createJob _ docKey _ _ ranges useLlm) => ∃ file, Belongs env files docKey file useLlm ranges
  | .s3 (.putObject key obj) => GenuineObj env conv files key obj
  | .amqp (.basicPublish _ _ body) => GenuineBody env files body
  | _ => True

/-- Whatever becomes of such a call, the world stays genuine. -/
theorem Authentic.carry {op : Op} {reply : Except Exc op.Reply} (authentic : Authentic env conv files world)
    (genuine : GenuineOp env conv files op) (carried : op.carry config parent world fate = some (reply, after)) :
    Authentic env conv files after := by
  cases op with
  | db stmt =>
    refine authentic_db authentic carried ?_
    rintro jobId docKey fileHash url ranges useLlm rfl
    exact genuine
  | s3 request =>
    cases request with
    | putObject key obj => exact authentic_put authentic carried genuine
    | getObject | headObject => exact authentic_get authentic carried rfl
  | amqp request =>
    refine authentic_amqp authentic carried ?_
    rintro exchange routingKey body rfl
    exact genuine
  | tool request => exact authentic_tool authentic carried

end Calls

/-! ## Jobs stay -/

/-- Jobs stay, and keep their document. -/
def World.KeepsJobs (before after : World) : Prop :=
  ∀ jobId row, before.db.getJob jobId = some row →
    ∃ later, after.db.getJob jobId = some later ∧ later.docKey = row.docKey

theorem World.KeepsJobs.refl (world : World) : world.KeepsJobs world := fun _ row found => ⟨row, found, rfl⟩

theorem World.KeepsJobs.trans {first second third : World} (left : first.KeepsJobs second)
    (right : second.KeepsJobs third) : first.KeepsJobs third := by
  intro jobId row found
  obtain ⟨middle, arrived, same⟩ := left jobId row found
  obtain ⟨later, there, kept⟩ := right jobId middle arrived
  exact ⟨later, there, kept.trans same⟩

theorem World.KeepsJobs.of_db {before after : World} (same : after.db = before.db) : before.KeepsJobs after := by
  intro jobId row found
  exact ⟨row, same ▸ found, rfl⟩

/-- Whatever becomes of a call, the jobs stay. -/
theorem keepsJobs_carry {config : Config} {parent : Option Message} {world after : World} {fate : Fate} {op : Op}
    {reply : Except Exc op.Reply} (carried : op.carry config parent world fate = some (reply, after)) :
    world.KeepsJobs after := by
  cases op with
  | db stmt =>
    have executed : world.KeepsJobs { world with db := (stmt.exec world.db).2 } := by
      intro jobId row found
      obtain ⟨later, arrived, change⟩ := jobChange stmt found
      exact ⟨later, arrived, change.columns.2.1⟩
    rcases carry_db carried with ⟨_, _, rfl⟩ | ⟨_, _, _, rfl⟩ | ⟨_, _, _, rfl⟩
    · exact executed
    · exact .refl _
    · exact executed
  | s3 request =>
    rcases carry_s3 carried with ⟨_, _, rfl⟩ | ⟨_, _, _, rfl⟩ | ⟨_, _, _, rfl⟩ <;> exact .of_db rfl
  | amqp request =>
    rcases carry_amqp carried with ⟨_, _, rfl⟩ | ⟨_, _, _, rfl⟩ | ⟨_, _, _, rfl⟩ <;> exact .of_db rfl
  | tool request => exact .of_db (carry_tool carried ▸ rfl)

theorem Fleet.keepsJobs_of_stepped {env : Env} {fleet after : Fleet} {label : Label}
    (stepped : Fleet.Stepped env fleet label after) : fleet.world.KeepsJobs after.world := by
  cases stepped with
  | submit | deliver | duplicate | expire | finish | crash => exact .of_db rfl
  | produced found position moves carried | handled found position moves carried => exact keepsJobs_carry carried

/-! ## Handlers -/

namespace Handler

/-- What an assembler that is about to list its chunks has to know of its job. -/
def Listed (world : World) : Phase → Prop
  | .listing job => IsOf world job
  | _ => True

theorem Listed.later {world after : World} {phase : Phase} (listed : Listed world phase) (kept : world.KeepsJobs after) :
    Listed after phase := by
  cases phase with
  | listing job =>
    obtain ⟨row, found, same⟩ := listed
    obtain ⟨later, arrived, alike⟩ := kept _ row found
    exact ⟨later, arrived, alike.trans same⟩
  | _ => trivial

/-- An assembler lists the chunks of a job that it has just read. -/
theorem listed_step {config : Config} {owner : Str} {task : ChunkTask} {world after : World} {phase : Phase} {op : Op}
    {onward : Except Exc op.Reply → Phase} {reply : Except Exc op.Reply} {parent : Option Message} {fate : Fate}
    (moves : step config owner task phase = some ⟨op, onward⟩)
    (carried : op.carry config parent world fate = some (reply, after)) : Listed after (onward reply) := by
  have fails (error : Exc) : Listed after (failure config task error) := by
    unfold failure
    split <;> trivial
  have gathers (job : JobRow) (parts : List Str) (indices : List ℕ) : Listed after (gather job parts indices) := by
    cases indices <;> trivial
  cases phase with
  | dropped | counted | finished | aborted | failed | retried | escaped => cases moves
  | loading =>
    cases moves
    rcases carry_db carried with ⟨_, rfl, rfl⟩ | ⟨_, _, rfl, _⟩ | ⟨_, _, rfl, _⟩
    · simp only [Stmt.exec]
      cases found : world.db.getJob task.jobId with
      | none => trivial
      | some job =>
        have named := ((Database.getJob_eq_some_iff _ _ _).mp found).2
        exact ⟨job, named ▸ found, rfl⟩
    · trivial
    · trivial
  | fetching | preparing | converting | storing =>
    cases moves
    dsimp only
    split <;> first | trivial | exact fails _
  | listing | reading =>
    cases moves
    dsimp only
    split <;> first | trivial | exact gathers _ _ _
  | writing job parts written =>
    simp only [Handler.step] at moves
    split at moves <;> cases moves <;> dsimp only <;> split <;> trivial
  | parking | retrying =>
    exact Sending.onward_of_step (Listed after) moves (fun _ _ => trivial) trivial (fun _ => trivial) reply
  | looking | startingRow | startingJob | completing | recording | finishing | aborting | failingChunk | failingJob
  | rescheduling =>
    cases moves
    dsimp only
    split <;> (try split) <;> trivial

variable (env conv files)

/-- What a handler holds in its hands is genuine. -/
def Faithful (task : ChunkTask) : Phase → Prop
  | .preparing source | .converting source => source ∈ files ∧ task.fileHash = env.sha256 source
  | .storing markdown => ∃ file ranges, Belongs env files task.docKey file task.useLlm ranges ∧
      (partsOf conv file task.useLlm ranges)[task.chunkIndex]? = some markdown
  | .reading job parts index rest => ∃ file useLlm ranges, Belongs env files job.docKey file useLlm ranges ∧
      parts = (partsOf conv file useLlm ranges).take parts.length ∧
      index :: rest = (List.range ranges.length).drop parts.length
  | .writing job parts _ => ∃ file useLlm ranges, Belongs env files job.docKey file useLlm ranges ∧
      parts = partsOf conv file useLlm ranges
  | .parking error sending => sending.pending ⊆ [.failed task (error.describe.take 2000)]
  | .retrying sending => sending.pending ⊆ [.task task.nextAttempt]
  | _ => True

variable {env conv files} {owner : Str} {task : ChunkTask} {world after : World}

theorem faithful_failure (error : Exc) : Faithful env conv files task (failure env.toConfig task error) := by
  unfold failure
  split
  · exact List.nil_subset _
  · trivial

/-- The parts read so far are a beginning of the parts of the file, and the indices left are the others. -/
theorem faithful_gather {job : JobRow} {file : Bytes} {useLlm : Bool} {ranges : List (ℤ × ℤ)} {parts : List Str}
    {indices : List ℕ} (belongs : Belongs env files job.docKey file useLlm ranges)
    (read : parts = (partsOf conv file useLlm ranges).take parts.length)
    (left : indices = (List.range ranges.length).drop parts.length) :
    Faithful env conv files task (gather job parts indices) := by
  cases indices with
  | nil =>
    have all : ranges.length ≤ parts.length := by
      simpa using List.drop_eq_nil_iff.mp left.symm
    rw [List.take_of_length_le (by simpa [partsOf] using all)] at read
    exact ⟨file, useLlm, ranges, belongs, read⟩
  | cons index rest => exact ⟨file, useLlm, ranges, belongs, read, left⟩

/-- One more part read. -/
private theorem faithful_read {job : JobRow} {file : Bytes} {useLlm : Bool} {ranges : List (ℤ × ℤ)} {parts : List Str}
    {index : ℕ} {rest : List ℕ} {content : Str} (belongs : Belongs env files job.docKey file useLlm ranges)
    (read : parts = (partsOf conv file useLlm ranges).take parts.length)
    (left : index :: rest = (List.range ranges.length).drop parts.length)
    (found : (partsOf conv file useLlm ranges)[index]? = some content) :
    Faithful env conv files task (gather job (parts ++ [content]) rest) := by
  have bound : parts.length < (List.range ranges.length).length := by
    by_contra beyond
    rw [List.drop_eq_nil_of_le (by omega)] at left
    cases left
  obtain ⟨first, others⟩ := List.cons.inj (left.trans (List.drop_eq_getElem_cons bound))
  rw [List.getElem_range] at first
  subst first
  refine faithful_gather belongs ?_ ?_
  · rw [List.length_append, List.length_singleton, List.take_add_one, found, ← read, Option.toList_some]
  · rw [List.length_append, List.length_singleton]
    exact others

/-- A handler of a genuine task writes genuine objects and publishes genuine tasks. -/
theorem Faithful.step {phase : Phase} {op : Op} {onward : Except Exc op.Reply → Phase} {reply : Except Exc op.Reply}
    {parent : Option Message} {fate : Fate} (collisionless : env.Collisionless files)
    (genuine : Genuine env files task) (authentic : Authentic env conv files world) (listed : Listed world phase)
    (faithful : Faithful env conv files task phase)
    (moves : step env.toConfig owner task phase = some ⟨op, onward⟩)
    (carried : op.carry env.toConfig parent world fate = some (reply, after))
    (converts : ∀ source startPage endPage useLlm markdown, op = .tool (.convert source startPage endPage useLlm) →
      fate = .converted markdown → markdown = conv source startPage endPage useLlm) :
    Authentic env conv files after ∧ Faithful env conv files task (onward reply) := by
  cases phase with
  | dropped | counted | finished | aborted | failed | retried | escaped => cases moves
  | looking | startingRow | startingJob | recording | finishing | aborting | failingChunk | failingJob | completing
  | loading =>
    cases moves
    refine ⟨authentic_db authentic carried (by rintro _ _ _ _ _ _ ⟨⟩), ?_⟩
    dsimp only
    split <;> (try split) <;> trivial
  | rescheduling error =>
    cases moves
    refine ⟨authentic_db authentic carried (by rintro _ _ _ _ _ _ ⟨⟩), ?_⟩
    dsimp only
    split
    · exact List.nil_subset _
    · trivial
  | fetching =>
    cases moves
    refine ⟨authentic_get authentic carried rfl, ?_⟩
    rcases carry_s3 carried with ⟨_, rfl, _⟩ | ⟨_, _, rfl, _⟩ | ⟨_, _, rfl, _⟩
    · simp only [S3.exec]
      cases found : world.store (sourceKey task.fileHash) with
      | none => exact faithful_failure _
      | some obj =>
        obtain ⟨file, known, hash, rfl⟩ := (authentic.objects _ _ found).of_source rfl
        exact ⟨known, hash⟩
    · exact faithful_failure _
    · exact faithful_failure _
  | preparing source =>
    cases moves
    refine ⟨authentic_tool authentic carried, ?_⟩
    dsimp only
    split
    · exact faithful
    · exact faithful_failure _
  | converting source =>
    cases moves
    refine ⟨authentic_tool authentic carried, ?_⟩
    cases reply with
    | error error => exact faithful_failure _
    | ok markdown =>
      have converted : fate = .converted markdown := by
        cases fate <;> simp_all [Op.carry, Op.exec]
      obtain ⟨file, ranges, belongs, hash, range⟩ := genuine
      obtain ⟨known, digest⟩ := faithful
      have same := collisionless.injective source known file belongs.known (digest.symm.trans hash)
      subst same
      refine ⟨source, ranges, belongs, ?_⟩
      rw [partsOf, List.getElem?_map, range, Option.map_some, converts _ _ _ _ _ rfl converted]
  | storing markdown =>
    obtain ⟨file, ranges, belongs, found⟩ := faithful
    cases moves
    refine ⟨authentic_put authentic carried (.part belongs found), ?_⟩
    dsimp only
    split
    · trivial
    · exact faithful_failure _
  | listing job =>
    cases moves
    refine ⟨authentic_db authentic carried (by rintro _ _ _ _ _ _ ⟨⟩), ?_⟩
    rcases carry_db carried with ⟨_, rfl, _⟩ | ⟨_, _, rfl, _⟩ | ⟨_, _, rfl, _⟩
    · obtain ⟨row, found, same⟩ := listed
      obtain ⟨file, useLlm, ranges, belongs, indices⟩ := authentic.jobs _ row found
      exact faithful_gather (same ▸ belongs) rfl indices
    · trivial
    · trivial
  | reading job parts index rest =>
    obtain ⟨file, useLlm, ranges, belongs, read, left⟩ := faithful
    cases moves
    refine ⟨authentic_get authentic carried rfl, ?_⟩
    rcases carry_s3 carried with ⟨_, rfl, _⟩ | ⟨_, _, rfl, _⟩ | ⟨_, _, rfl, _⟩
    · simp only [S3.exec]
      cases stored : world.store (partKey job.docKey index) with
      | none => trivial
      | some obj =>
        obtain ⟨other, flag, others, content, same, found, rfl⟩ := (authentic.objects _ _ stored).of_part rfl
        obtain ⟨rfl, rfl, rfl⟩ := same.unique collisionless belongs
        exact faithful_read belongs read left found
    · trivial
    · trivial
  | writing job parts written =>
    obtain ⟨file, useLlm, ranges, belongs, rfl⟩ := faithful
    simp only [Handler.step] at moves
    split at moves
    · next content found =>
      cases moves
      refine ⟨authentic_put authentic carried (.page belongs found), ?_⟩
      dsimp only
      split
      · exact ⟨file, useLlm, ranges, belongs, rfl⟩
      · trivial
    · cases moves
      refine ⟨authentic_put authentic carried (.manifest belongs), ?_⟩
      dsimp only
      split <;> trivial
  | parking error sending =>
    obtain ⟨request, rfl⟩ := Sending.op_of_step moves
    refine ⟨authentic_amqp authentic carried ?_, ?_⟩
    · rintro exchange routingKey body rfl
      cases List.mem_singleton.mp (faithful (Sending.mem_pending_of_step moves))
      trivial
    · refine Sending.onward_of_step (Faithful env conv files task) moves ?_ trivial (fun _ => trivial) reply
      rintro next (all | fewer)
      · exact all
      · exact List.Subset.trans fewer faithful
  | retrying sending =>
    obtain ⟨request, rfl⟩ := Sending.op_of_step moves
    refine ⟨authentic_amqp authentic carried ?_, ?_⟩
    · rintro exchange routingKey body rfl
      cases List.mem_singleton.mp (faithful (Sending.mem_pending_of_step moves))
      exact genuine
    · refine Sending.onward_of_step (Faithful env conv files task) moves ?_ trivial (fun _ => trivial) reply
      rintro next (all | fewer)
      · exact all
      · exact List.Subset.trans fewer faithful

end Handler

/-! ## Producers -/

namespace Producer

variable (env files)

/-- What a producer holds in its hands is genuine. -/
def Faithful (useLlm : Bool) : Phase → Prop
  | .consulting file | .fetchingManifest file | .fetchingPage file => file ∈ files
  | .probing file ranges | .uploading file ranges | .drawing file ranges | .creating file ranges _ =>
    Belongs env files (docKey env useLlm file) file useLlm ranges
  | .publishing file ranges jobId sending => Belongs env files (docKey env useLlm file) file useLlm ranges ∧
      sending.pending ⊆ (tasks env useLlm file ranges jobId).map .task
  | .downloading | .returned | .escaped => True

variable {env files} {url : Str} {useLlm : Bool} {world after : World}

theorem faithful_miss {file : Bytes} (known : file ∈ files) : Faithful env files useLlm (miss env file) := by
  unfold miss
  split
  · next ranges planned => exact ⟨known, rfl, planned⟩
  · trivial

private theorem mem_tasksFrom {jobId key fileHash : Str} {total index : ℕ} {ranges : List (ℤ × ℤ)} {task : ChunkTask}
    (member : task ∈ Api.tasksFrom jobId key fileHash total useLlm index ranges) :
    task.docKey = key ∧ task.fileHash = fileHash ∧ task.useLlm = useLlm ∧
      ∃ i, task.chunkIndex = index + i ∧ ranges[i]? = some (task.startPage, task.endPage) := by
  induction ranges generalizing index with
  | nil => cases member
  | cons range ranges ih =>
    rcases List.mem_cons.mp member with rfl | later
    · exact ⟨rfl, rfl, rfl, 0, rfl, rfl⟩
    · obtain ⟨keys, hashes, flags, i, place, found⟩ := ih later
      exact ⟨keys, hashes, flags, i + 1, by omega, found⟩

/-- The tasks of a new job are genuine. -/
theorem genuine_tasks {file : Bytes} {ranges : List (ℤ × ℤ)} {jobId : Str} {task : ChunkTask}
    (belongs : Belongs env files (docKey env useLlm file) file useLlm ranges)
    (member : task ∈ tasks env useLlm file ranges jobId) : Genuine env files task := by
  obtain ⟨keys, hashes, rfl, i, place, found⟩ := mem_tasksFrom member
  rw [Nat.zero_add] at place
  exact ⟨file, ranges, keys ▸ belongs, hashes, place ▸ found⟩

/-- A producer of a known file stores it and publishes its tasks. -/
theorem Faithful.step {phase : Phase} {op : Op} {onward : Except Exc op.Reply → Phase} {reply : Except Exc op.Reply}
    {fate : Fate} (authentic : Authentic env conv files world) (faithful : Faithful env files useLlm phase)
    (moves : step env url useLlm phase = some ⟨op, onward⟩)
    (carried : op.carry env.toConfig none world fate = some (reply, after))
    (downloads : ∀ url file, op = .tool (.download url) → fate = .downloaded file → file ∈ files) :
    Authentic env conv files after ∧ Faithful env files useLlm (onward reply) := by
  cases phase with
  | returned | escaped => cases moves
  | downloading =>
    cases moves
    refine ⟨authentic_tool authentic carried, ?_⟩
    cases reply with
    | error error => trivial
    | ok file =>
      have downloaded : fate = .downloaded file := by
        cases fate <;> simp_all [Op.carry, Op.exec]
      exact downloads _ file rfl downloaded
  | consulting file =>
    cases moves
    refine ⟨authentic_db authentic carried (by rintro _ _ _ _ _ _ ⟨⟩), ?_⟩
    dsimp only
    split
    · exact faithful
    · exact faithful_miss faithful
    · trivial
  | fetchingManifest file =>
    cases moves
    refine ⟨authentic_get authentic carried rfl, ?_⟩
    dsimp only
    split
    · exact faithful_miss faithful
    · exact faithful
    · trivial
    · trivial
  | fetchingPage file =>
    cases moves
    refine ⟨authentic_get authentic carried rfl, ?_⟩
    dsimp only
    split
    · exact faithful_miss faithful
    · trivial
    · trivial
    · trivial
  | probing file ranges =>
    cases moves
    refine ⟨authentic_get authentic carried rfl, ?_⟩
    dsimp only
    split <;> split <;> first | exact faithful | trivial
  | uploading file ranges =>
    cases moves
    refine ⟨authentic_put authentic carried (.source faithful.known), ?_⟩
    dsimp only
    split
    · exact faithful
    · trivial
  | drawing file ranges =>
    cases moves
    refine ⟨authentic_tool authentic carried, ?_⟩
    dsimp only
    split
    · exact faithful
    · trivial
  | creating file ranges jobId =>
    cases moves
    refine ⟨authentic_db authentic carried ?_, ?_⟩
    · rintro _ _ _ _ _ _ ⟨⟩
      exact ⟨file, faithful⟩
    · dsimp only
      split
      · exact ⟨faithful, List.nil_subset _⟩
      · trivial
  | publishing file ranges jobId sending =>
    obtain ⟨belongs, within⟩ := faithful
    obtain ⟨request, rfl⟩ := Sending.op_of_step moves
    refine ⟨authentic_amqp authentic carried ?_, ?_⟩
    · rintro exchange routingKey body rfl
      obtain ⟨task, member, rfl⟩ := List.mem_map.mp (within (Sending.mem_pending_of_step moves))
      exact genuine_tasks belongs member
    · refine Sending.onward_of_step (Faithful env files useLlm) moves ?_ trivial (fun _ => trivial) reply
      rintro next (all | fewer)
      · exact ⟨belongs, all⟩
      · exact ⟨belongs, List.Subset.trans fewer within⟩

end Producer

/-! ## Runs -/

namespace Deployment

variable (conv files)

/-- Downloads give known files, and a conversion that succeeds gives what `conv` gives. -/
def faithful (state : Deployment) : Label → Prop
  | .act index (.converted markdown) => ∀ source startPage endPage useLlm,
      state.pending index = some (.tool (.convert source startPage endPage useLlm)) →
        markdown = conv source startPage endPage useLlm
  | .act _ (.downloaded file) => file ∈ files
  | _ => True

end Deployment

namespace Fleet

variable (env conv files)

def AgentFaithful : Agent → Prop
  | .producer _ useLlm phase _ => Producer.Faithful env files useLlm phase
  | .handler _ _ task phase _ => Genuine env files task ∧ Handler.Faithful env conv files task phase

def AgentListed (world : World) : Agent → Prop
  | .producer .. => True
  | .handler _ _ _ phase _ => Handler.Listed world phase

/-- Everything in the world is genuine, and so is what the processes hold. -/
structure Vouched (fleet : Fleet) : Prop where
  authentic : Authentic env conv files fleet.world
  listed : ∀ agent ∈ fleet.agents, AgentListed fleet.world agent
  faithful : ∀ agent ∈ fleet.agents, AgentFaithful env conv files agent

/-- The chain is whole, everything in the world is genuine, and so is what the processes hold. -/
structure Sound (fleet : Fleet) : Prop where
  published : fleet.world.Published
  wrote : ∀ agent ∈ fleet.agents, AgentWrote fleet.world agent
  authentic : Authentic env conv files fleet.world
  faithful : ∀ agent ∈ fleet.agents, AgentFaithful env conv files agent

variable {env conv files} {state : Deployment} {fleet after : Fleet} {label : Label}

private theorem producer_step (vouched : fleet.Vouched env conv files) (allowed : state.faithful conv files label)
    {index : ℕ} {fate : Fate} {url : Str} {useLlm : Bool} {phase : Producer.Phase} {calls : List Step} {op : Op}
    {onward : Except Exc op.Reply → Producer.Phase} {reply : Except Exc op.Reply} {before rest : List Agent}
    {world : World} (labeled : label = .act index fate)
    (found : fleet.agents = before ++ .producer url useLlm phase calls :: rest)
    (moves : Producer.step env url useLlm phase = some ⟨op, onward⟩)
    (carried : op.carry env.toConfig none fleet.world fate = some (reply, world)) :
    Authentic env conv files world ∧ Producer.Faithful env files useLlm (onward reply) := by
  have holds : Producer.Faithful env files useLlm phase := vouched.faithful (.producer url useLlm phase calls)
    (found ▸ List.mem_append_right _ (List.mem_cons_self ..))
  refine Producer.Faithful.step vouched.authentic holds moves carried ?_
  rintro _ file _ rfl
  subst labeled
  exact allowed

private theorem handler_step (collisionless : env.Collisionless files) (mirrors : Mirrors env state fleet)
    (vouched : fleet.Vouched env conv files) (allowed : state.faithful conv files label) {index : ℕ} {fate : Fate}
    {owner : Str} {origin : ℕ} {task : ChunkTask} {phase : Handler.Phase} {calls : List Step} {op : Op}
    {onward : Except Exc op.Reply → Handler.Phase} {reply : Except Exc op.Reply} {before rest : List Agent}
    {world : World} (labeled : label = .act index fate)
    (found : fleet.agents = before ++ .handler owner origin task phase calls :: rest)
    (position : before.length = index) (moves : Handler.step env.toConfig owner task phase = some ⟨op, onward⟩)
    (carried : op.carry env.toConfig (some ⟨origin, .task task⟩) fleet.world fate = some (reply, world)) :
    Authentic env conv files world ∧ Genuine env files task ∧ Handler.Faithful env conv files task (onward reply) := by
  have inside : Agent.handler owner origin task phase calls ∈ fleet.agents :=
    found ▸ List.mem_append_right _ (List.mem_cons_self ..)
  obtain ⟨genuine, holds⟩ := vouched.faithful _ inside
  have listed : Handler.Listed fleet.world phase := vouched.listed _ inside
  have pending : state.pending before.length = some op :=
    mirrors.pending found (by simp only [Agent.next, moves, Option.map_some])
  have both := Handler.Faithful.step collisionless genuine vouched.authentic listed holds moves carried ?_
  · exact ⟨both.1, genuine, both.2⟩
  · rintro source startPage endPage useLlm markdown rfl rfl
    subst labeled
    exact allowed source startPage endPage useLlm (position ▸ pending)

/-- A step keeps everything genuine, whatever the chain of publication looks like. -/
theorem vouched_of_stepped (collisionless : env.Collisionless files) (mirrors : Mirrors env state fleet)
    (vouched : fleet.Vouched env conv files) (allowed : state.faithful conv files label)
    (stepped : Stepped env fleet label after) : after.Vouched env conv files := by
  refine ⟨?_, ?_, ?_⟩
  · have requeued {messages : List (Str × Message)}
        (genuine : ∀ entry ∈ messages, GenuineBody env files entry.2.body) :
        Authentic env conv files (fleet.world.setMessages messages) :=
      ⟨vouched.authentic.objects, vouched.authentic.jobs, vouched.authentic.owned, genuine⟩
    have old := vouched.authentic.messages
    cases stepped with
    | submit url useLlm => exact vouched.authentic
    | deliver found =>
      refine requeued fun entry member => old entry (found ▸ ?_)
      exact List.perm_middle.mem_iff.mpr (List.mem_cons_of_mem _ member)
    | duplicate found =>
      refine requeued fun entry member => ?_
      rcases List.mem_append.mp member with left | right
      · exact old entry left
      · exact List.mem_singleton.mp right ▸ old _ found
    | @expire _ _ _ message _ before rest found declared named timed target =>
      have moved := old _ (found ▸ List.mem_append_right _ (List.mem_cons_self ..))
      refine requeued fun entry member => ?_
      rcases List.mem_append.mp member with kept | new
      · refine old entry (found ▸ ?_)
        exact List.perm_middle.mem_iff.mpr (List.mem_cons_of_mem _ kept)
      · obtain ⟨_, _, rfl⟩ := List.mem_map.mp new
        exact moved
    | produced found position moves carried => exact (producer_step vouched allowed rfl found moves carried).1
    | handled found position moves carried =>
      exact (handler_step collisionless mirrors vouched allowed rfl found position moves carried).1
    | finish found position ended => exact vouched.authentic
    | @crash _ agent before rest found position =>
      refine requeued fun entry member => ?_
      rcases List.mem_append.mp member with left | right
      · exact old entry left
      · have holds := vouched.faithful agent (found ▸ List.mem_append_right _ (List.mem_cons_self ..))
        cases agent with
        | producer => cases right
        | handler =>
          cases List.mem_singleton.mp right
          exact holds.1
  · refine stepped.forall_agents AgentListed vouched.listed ?_ (fun _ _ _ => trivial) (fun _ _ _ _ _ _ => trivial)
      (fun _ _ _ _ _ _ _ _ _ _ _ _ _ _ _ _ => trivial) ?_
    · intro agent _ holds
      cases agent with
      | producer => trivial
      | handler => exact Handler.Listed.later holds (keepsJobs_of_stepped stepped)
    · intro _ _ owner origin task phase calls op onward reply before rest _ found _ moves carried
      exact Handler.listed_step moves carried
  · refine stepped.forall_agents (fun _ => AgentFaithful env conv files) vouched.faithful (fun _ _ holds => holds)
      (fun _ _ _ => trivial) ?_ ?_ ?_
    · intro _ owner origin task _ member
      exact ⟨vouched.authentic.messages _ member, trivial⟩
    · intro _ _ _ _ _ _ _ _ _ _ _ labeled found _ moves carried
      exact (producer_step vouched allowed labeled found moves carried).2
    · intro _ _ _ _ _ _ _ _ _ _ _ _ labeled found position moves carried
      exact (handler_step collisionless mirrors vouched allowed labeled found position moves carried).2

theorem Sound.vouched (sound : fleet.Sound env conv files) : fleet.Vouched env conv files := by
  refine ⟨sound.authentic, fun agent member => ?_, sound.faithful⟩
  have wrote := sound.wrote agent member
  cases agent with
  | producer => trivial
  | handler owner origin task phase calls =>
    cases phase with
    | listing job => exact wrote
    | _ => trivial

theorem sound_of_stepped (collisionless : env.Collisionless files) (mirrors : Mirrors env state fleet)
    (sound : fleet.Sound env conv files) (allowed : state.faithful conv files label)
    (stepped : Stepped env fleet label after) : after.Sound env conv files := by
  have vouched := vouched_of_stepped collisionless mirrors sound.vouched allowed stepped
  exact ⟨(published_of_stepped stepped sound.published sound.wrote).1,
    agentWrote_of_stepped stepped sound.published sound.wrote, vouched.authentic, vouched.faithful⟩

end Fleet

namespace Deployment

/-- In every run in which successful conversions are given by `conv`, whatever else fails, is delivered
twice or dies, a stored manifest and its pages are those of the document of the file behind its key. -/
theorem document_of_manifest (collisionless : env.Collisionless files) {state : Deployment}
    (reached : Reaches (step env) (fun state label => state.faithful conv files label) .initial state)
    {file : Bytes} (known : file ∈ files) (useLlm : Bool) {obj : Obj}
    (found : state.world.store (manifestKey (env.makeDocKey (env.sha256 file) useLlm)) = some obj) :
    ∃ ranges, planChunks (env.pageCount file) env.pagesPerChunk env.minPagesForParallel = .ok ranges ∧
      let markdown := Worker.joinParts (ranges.map fun range => conv file range.1 range.2 useLlm)
      let pages := paginate markdown env.pageSize
      obj = .manifest ⟨env.makeDocKey (env.sha256 file) useLlm, pages.length, markdown.length, env.pageSize⟩ ∧
        ∀ index : Fin pages.length,
          state.world.store (pageKey (env.makeDocKey (env.sha256 file) useLlm) (index + 1)) =
            some (.text (pages.get index)) := by
  have start : (⟨Deployment.initial.world, [], []⟩ : Fleet).Sound env conv files :=
    ⟨⟨fun _ _ found => (by cases found), fun _ there => (by cases there), fun _ _ found => (by cases found)⟩,
      fun _ member => (by cases member), ⟨fun _ _ found => (by cases found), fun _ _ found => (by cases found),
      fun _ member => (by cases member), fun _ member => (by cases member)⟩, fun _ member => (by cases member)⟩
  obtain ⟨fleet, mirrors, sound⟩ := Fleet.Mirrors.invariant (Fleet.Sound env conv files) reached
    Fleet.mirrors_initial start fun _ _ _ _ mirrors sound allowed stepped =>
      Fleet.sound_of_stepped collisionless mirrors sound allowed stepped
  rw [← mirrors.world] at found ⊢
  obtain ⟨other, flag, ranges, belongs, rfl⟩ := (sound.authentic.objects _ _ found).of_manifest rfl
  obtain ⟨rfl, rfl⟩ := docKey_inj collisionless known belongs.known belongs.key
  refine ⟨ranges, belongs.planned, rfl, fun index => ?_⟩
  obtain ⟨_, same, _, complete⟩ := sound.published.stored _ _ found
  cases same
  obtain ⟨content, there⟩ := complete (index + 1) (by omega) index.isLt
  obtain ⟨_, _, _, _, alike, page, same⟩ := (sound.authentic.objects _ _ there).of_page rfl
  obtain ⟨rfl, rfl, rfl⟩ := alike.unique collisionless belongs
  obtain ⟨_, read⟩ := List.getElem?_eq_some_iff.mp page
  rw [there, same]
  exact congrArg (fun text => some (Obj.text text)) read.symm

/-! A run on a file of two pages, each a chunk of its own, with the second chunk converted twice. -/

def sampleConv (_ : Bytes) (startPage _ : ℤ) (_ : Bool) : Str := lit "page " ++ Str.ofInt startPage

def sampleFile : Bytes := [0, 1]

def sampleConfig : Config := { pagesPerChunk := 1, minPagesForParallel := 2 }

/-- The condition `faithful` for the file and the conversion of the sample. -/
def sampleFaithful (state : Deployment) : Label → Bool
  | .act index (.converted markdown) =>
    match state.pending index with
    | some (.tool (.convert source startPage endPage useLlm)) => markdown = sampleConv source startPage endPage useLlm
    | _ => true
  | .act _ (.downloaded file) => file = sampleFile
  | _ => true

def sampleRun : List Label :=
  .submit (lit "http://host/file") false :: .act 0 (.downloaded sampleFile) :: Script.acts 0 3 ++
    .act 0 (.drawn (lit "job")) :: Script.acts 0 4 ++ .finish 0 :: .duplicate 1 :: .deliver 1 (lit "worker") ::
    Script.converts 0 (lit "page 1") ++ Script.acts 0 1 ++ .deliver 0 (lit "worker") :: .deliver 0 (lit "worker") ::
    Script.converts 1 (lit "page 0") ++ Script.converts 2 (lit "page 1") ++ Script.acts 1 7

theorem document_of_two_chunks :
    ∃ state obj, Reaches (step (sampleEnv sampleConfig))
        (fun state label => state.faithful sampleConv {sampleFile} label) .initial state ∧
      state.world.store (manifestKey ((sampleEnv sampleConfig).makeDocKey
        ((sampleEnv sampleConfig).sha256 sampleFile) false)) = some obj ∧
      ∃ ranges, planChunks (some 2) 1 2 = .ok ranges ∧ obj = .manifest ⟨(sampleEnv sampleConfig).makeDocKey
          ((sampleEnv sampleConfig).sha256 sampleFile) false,
        (paginate (Worker.joinParts (ranges.map fun range => sampleConv sampleFile range.1 range.2 false))
          sampleConfig.pageSize).length,
        (Worker.joinParts (ranges.map fun range => sampleConv sampleFile range.1 range.2 false)).length,
        sampleConfig.pageSize⟩ := by
  have collisionless : (sampleEnv sampleConfig).Collisionless {sampleFile} := by
    refine ⟨fun data => ?_, fun first one second two _ => one.trans two.symm, by decide +kernel⟩
    simp [sampleEnv]
  have leads : Leads (step (sampleEnv sampleConfig)) (fun state label => sampleFaithful state label)
      (fun state => (state.world.store (manifestKey ((sampleEnv sampleConfig).makeDocKey
        ((sampleEnv sampleConfig).sha256 sampleFile) false))).isSome) .initial sampleRun := by decide +kernel
  obtain ⟨state, reached, there⟩ := leads.exists_reaches
  obtain ⟨obj, found⟩ := Option.isSome_iff_exists.mp there
  have faithful : Reaches (step (sampleEnv sampleConfig))
      (fun state label => state.faithful sampleConv {sampleFile} label) .initial state := reached.mono ?_
  · obtain ⟨ranges, planned, same, _⟩ := document_of_manifest collisionless faithful rfl false found
    exact ⟨state, obj, faithful, found, ranges, planned, same⟩
  · intro state label holds
    cases label with
    | act index fate =>
      cases fate with
      | converted markdown =>
        intro source startPage endPage useLlm pending
        simpa [sampleFaithful, pending] using holds
      | downloaded file =>
        have same : file = sampleFile := of_decide_eq_true holds
        exact same
      | done | raised | lost | drawn => trivial
    | submit | deliver | duplicate | expire | finish | crash => trivial

end Deployment

end MarkitdownServer
