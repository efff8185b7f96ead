import MarkitdownServer.Machine.Clients
import MarkitdownServer.Machine.Endpoints
import MarkitdownServer.Machine.Fleet
import MarkitdownServer.Model.Wire

/-! # Messages are read back as they were written

The bodies on the queues are modelled as the tasks they carry and the objects of the bucket as what was written.
Here the bytes are put in between: whatever a task, an error, a page or a manifest contains, its bytes are read
back as the same thing, and a parked task is told from a task by its bytes.
-/

namespace MarkitdownServer

open Effects Effects.Program Transition

theorem Body.plain (body : Body) : (Json.Value.obj body.members).Plain := by
  cases body <;> simp [Body.members, ChunkTask.asdict, Json.Value.Plain, Json.PlainMembers]

theorem Manifest.plain (manifest : Manifest) : (Json.Value.obj manifest.members).Plain := by
  simp [Manifest.members, Json.Value.Plain, Json.PlainMembers]

/-! ## Messages -/

namespace RawTask

/-- The members of a body are read back. -/
theorem fromBytes_toBytes (body : Body) : fromBytes body.toBytes = build body.members := by
  rw [fromBytes, Body.toBytes, decodeUtf8_encode]
  dsimp only
  rw [Json.loads_dumps body.plain]

/-- What `from_bytes` does with a task and with a parked task. -/
theorem build_members (task : ChunkTask) (error : Str) : build (Body.task task).members = .ok task.raw ∧
    build (Body.failed task error).members = .error (typeError (lit "got an unexpected keyword argument")) := by
  constructor
  · rfl
  · rfl

end RawTask

theorem ChunkTask.raw_injective : Function.Injective ChunkTask.raw := by
  intro first second same
  obtain ⟨jobId, chunkIndex, docKey, fileHash, startPage, endPage, totalChunks, useLlm, attempt⟩ := first
  obtain ⟨_, _, _, _, _, _, _, _, _⟩ := second
  simp only [ChunkTask.raw, RawTask.mk.injEq, Json.Value.str.injEq, Json.Value.int.injEq, Json.Value.bool.injEq,
    Int.natCast_inj] at same
  obtain ⟨rfl, rfl, rfl, rfl, rfl, rfl, rfl, rfl, rfl⟩ := same
  rfl

theorem ChunkTask.asdict_injective : Function.Injective ChunkTask.asdict := by
  intro first second same
  apply ChunkTask.raw_injective
  have built (task : ChunkTask) : RawTask.build task.asdict = .ok task.raw := (RawTask.build_members task []).1
  apply Except.ok.inj
  rw [← built first, ← built second, same]

theorem Body.members_injective : Function.Injective Body.members := by
  intro first second same
  have lengths := congrArg List.length same
  cases first with
  | task chunk =>
    cases second with
    | task other => rw [ChunkTask.asdict_injective same]
    | failed other error => cases lengths
  | failed chunk error =>
    cases second with
    | task other => cases lengths
    | failed other text =>
      obtain ⟨fields, last⟩ := List.append_inj same rfl
      simp only [List.cons.injEq, Prod.mk.injEq, Json.Value.str.injEq, true_and, and_true] at last
      rw [ChunkTask.asdict_injective fields, last]

theorem Body.toBytes_injective : Function.Injective Body.toBytes := by
  intro first second same
  have texts := encode_injective same
  have objects := Json.dumps_injective first.plain second.plain texts
  simp only [Json.Value.obj.injEq] at objects
  exact Body.members_injective objects

/-- What is written are the bytes of the body. -/
theorem Body.toBytes_of_dumped {body : Body} {bytes : Bytes} (written : body.dumped = .ok bytes) :
    body.toBytes = bytes := by
  unfold dumped at written
  split at written
  · exact Except.ok.inj written
  · cases written

/-- The bytes of a message determine what it carries. Those of a task are read back as the task, with its very
fields; those of a parked task are refused. -/
theorem Taskqueue.bodies_read_back :
    (∀ task bytes, (Body.task task).dumped = .ok bytes → RawTask.fromBytes bytes = .ok task.raw) ∧
      (∀ task error bytes, (Body.failed task error).dumped = .ok bytes →
        ∃ refusal, RawTask.fromBytes bytes = .error refusal) ∧
      (∀ first second bytes, Body.dumped first = .ok bytes → second.dumped = .ok bytes → first = second) ∧
      Function.Injective ChunkTask.raw := by
  refine ⟨fun task bytes written => ?_, fun task error bytes written => ?_, fun first second bytes one two => ?_,
    ChunkTask.raw_injective⟩
  · rw [← Body.toBytes_of_dumped written, RawTask.fromBytes_toBytes, (RawTask.build_members task []).1]
  · rw [← Body.toBytes_of_dumped written]
    exact ⟨_, (RawTask.fromBytes_toBytes _).trans (RawTask.build_members task error).2⟩
  · exact Body.toBytes_injective ((Body.toBytes_of_dumped one).trans (Body.toBytes_of_dumped two).symm)

/-- A task with a quote, a control character and a character outside ASCII in its fields. -/
def sampleQueued : ChunkTask where
  jobId := lit "job"
  chunkIndex := 1
  docKey := lit "k\"\n"
  fileHash := lit "日"
  startPage := 20
  endPage := -1
  totalChunks := 2
  useLlm := true

theorem Taskqueue.bodies_read_back_sampleQueued :
    ∃ bytes, (Body.task sampleQueued).dumped = .ok bytes ∧ RawTask.fromBytes bytes = .ok sampleQueued.raw := by
  have written : (Body.task sampleQueued).dumped = .ok (Body.task sampleQueued).toBytes := if_pos (by decide)
  exact ⟨_, written, bodies_read_back.1 _ _ written⟩

/-! ## Objects -/

/-- What is stored under which kind of key. -/
inductive Filed : Str → Obj → Prop
  | source (hash : Str) (file : Bytes) : Filed (sourceKey hash) (.source file)
  | part (docKey : Str) (index : ℕ) (content : Str) : Filed (partKey docKey index) (.text content)
  | page (docKey : Str) (page : ℕ) (content : Str) : Filed (pageKey docKey page) (.text content)
  | manifest (manifest : Manifest) : Filed (manifestKey manifest.docKey) (.manifest manifest)

/-- Everything in the bucket is under a key of its kind. -/
def Store.InOrder (store : Store) : Prop := ∀ key obj, store key = some obj → Filed key obj

theorem Store.InOrder.carry {config : Config} {parent : Option Message} {world after : World} {fate : Fate} {op : Op}
    {reply : Except Exc op.Reply} (inOrder : world.store.InOrder)
    (files : ∀ key obj, op = .s3 (.putObject key obj) → Filed key obj)
    (carried : op.carry config parent world fate = some (reply, after)) : after.store.InOrder := by
  cases op with
  | db stmt => rcases carry_db carried with ⟨_, _, rfl⟩ | ⟨_, _, _, rfl⟩ | ⟨_, _, _, rfl⟩ <;> exact inOrder
  | amqp request => rcases carry_amqp carried with ⟨_, _, rfl⟩ | ⟨_, _, _, rfl⟩ | ⟨_, _, _, rfl⟩ <;> exact inOrder
  | tool request => exact carry_tool carried ▸ inOrder
  | s3 request =>
    have executed : ((request.exec world.store).2).InOrder := by
      cases request with
      | getObject | headObject => exact inOrder
      | putObject key obj =>
        intro other found there
        simp only [S3.exec, Store.put_apply] at there
        split_ifs at there with same
        · cases there
          exact same ▸ files key obj rfl
        · exact inOrder other found there
    rcases carry_s3 carried with ⟨_, _, rfl⟩ | ⟨_, _, _, rfl⟩ | ⟨_, _, _, rfl⟩
    · exact executed
    · exact inOrder
    · exact executed

/-- A handler writes parts, pages and manifests under their keys. -/
theorem Handler.files_of_step {config : Config} {owner : Str} {task : ChunkTask} {phase : Phase} {key : Str} {obj : Obj}
    {onward : Except Exc (Op.s3 (.putObject key obj)).Reply → Phase}
    (moves : Handler.step config owner task phase = some ⟨.s3 (.putObject key obj), onward⟩) : Filed key obj := by
  cases phase with
  | storing markdown =>
    cases moves
    exact .part _ _ _
  | writing job parts written =>
    simp only [Handler.step] at moves
    split at moves
    · cases moves
      exact .page _ _ _
    · cases moves
      exact .manifest (Handler.manifest config job.docKey parts)
  | parking | retrying =>
    obtain ⟨request, same⟩ := Sending.op_of_step moves
    cases same
  | _ => cases moves

theorem ServedOp.files {env : Env} {op : Op} (served : ServedOp env op) {key : Str} {obj : Obj}
    (puts : op = .s3 (.putObject key obj)) : Filed key obj := by
  subst puts
  obtain ⟨file, rfl, rfl⟩ := served
  exact .source _ _

/-- A producer writes its file under its hash. -/
theorem Producer.files_of_step {env : Env} {url : Str} {useLlm : Bool} {phase : Phase} {key : Str} {obj : Obj}
    {onward : Except Exc (Op.s3 (.putObject key obj)).Reply → Phase}
    (moves : Producer.step env url useLlm phase = some ⟨.s3 (.putObject key obj), onward⟩) : Filed key obj := by
  cases phase with
  | uploading file ranges =>
    cases moves
    exact .source _ _
  | publishing =>
    obtain ⟨request, same⟩ := Sending.op_of_step moves
    cases same
  | _ => cases moves

theorem Fleet.inOrder_of_stepped {env : Env} {fleet after : Fleet} {label : Label}
    (stepped : Fleet.Stepped env fleet label after) (inOrder : fleet.world.store.InOrder) :
    after.world.store.InOrder := by
  cases stepped with
  | submit | deliver | duplicate | expire | finish | crash => exact inOrder
  | produced found position moves carried =>
    refine inOrder.carry ?_ carried
    rintro key obj rfl
    exact Producer.files_of_step moves
  | handled found position moves carried =>
    refine inOrder.carry ?_ carried
    rintro key obj rfl
    exact Handler.files_of_step moves

namespace Cluster

variable {pod : Pod}

/-- Whatever fails or expires, the bucket stays in order. -/
theorem inOrder_of_reaches {state : Cluster} (reached : Reaches (step pod) (fun _ _ => True) .initial state) :
    state.world.store.InOrder := by
  have behind : state.Behind pod fun fleet => fleet.world.store.InOrder := by
    refine reached.invariant (behind_initial fun _ _ found => (by cases found)) ?_
    intro state move next behind _ stepped
    refine behind.moved (moved_of_step stepped) ?_ ?_ ?_
    · exact fun fleet label next _ inOrder _ _ steps => Fleet.inOrder_of_stepped steps inOrder
    · exact fun fleet fate op reply same inOrder served carried =>
        Store.InOrder.carry (same ▸ inOrder) (fun _ _ => served.files) carried
    · intro fleet key same inOrder other obj there
      simp only [forget, Store.erase_apply] at there
      split_ifs at there
      exact inOrder other obj (same ▸ there)
  obtain ⟨fleet, mirrors, inOrder⟩ := behind.workers
  have same : fleet.world = state.world := mirrors.world
  exact same ▸ inOrder

/-- The bytes under a key in the bucket. -/
def bytes (state : Cluster) (key : Str) : Option Bytes := (state.world.store key).map Obj.toBytes

/-- In every run, whatever fails or expires, the bytes that are found under the key of a manifest, a page or a part are
read back as what was written there: `json.loads` and `decode` never raise, and a manifest is that of its key. -/
theorem bucket_reads_back {state : Cluster} (reached : Reaches (step pod) (fun _ _ => True) .initial state) :
    (∀ docKey, ∃ found : Option Manifest, state.world.store (manifestKey docKey) = found.map .manifest ∧
      (∀ manifest, found = some manifest → manifest.docKey = docKey) ∧
      Storage.readManifest (state.bytes (manifestKey docKey)) = .ok (found.map fun manifest => .obj manifest.members)) ∧
    (∀ docKey page, ∃ found : Option Str, state.world.store (pageKey docKey page) = found.map .text ∧
      Storage.readText (state.bytes (pageKey docKey page)) = .ok found) ∧
    ∀ docKey index, ∃ found : Option Str, state.world.store (partKey docKey index) = found.map .text ∧
      Storage.readText (state.bytes (partKey docKey index)) = .ok found := by
  have inOrder := inOrder_of_reaches reached
  have text {key : Str} (holdsText : ∀ obj, Filed key obj → ∃ content, obj = .text content) :
      ∃ found : Option Str, state.world.store key = found.map .text ∧ Storage.readText (state.bytes key) = .ok found := by
    cases stored : state.world.store key with
    | none => exact ⟨none, rfl, by rw [bytes, stored]; rfl⟩
    | some obj =>
      obtain ⟨content, rfl⟩ := holdsText obj (inOrder key obj stored)
      refine ⟨some content, rfl, ?_⟩
      rw [bytes, stored, Option.map_some, Storage.readText, Obj.toBytes]
      simp only [decodeUtf8_encode]
  refine ⟨fun docKey => ?_, fun docKey page => text fun obj filed => ?_, fun docKey index => text fun obj filed => ?_⟩
  · cases stored : state.world.store (manifestKey docKey) with
    | none => exact ⟨none, rfl, by rintro _ ⟨⟩, by rw [bytes, stored]; rfl⟩
    | some obj =>
      have filed := inOrder _ obj stored
      generalize named : manifestKey docKey = key at filed
      cases filed with
      | source | part | page => simp at named
      | manifest manifest =>
        have same := (manifestKey_inj _ _).mp named
        refine ⟨some manifest, rfl, ?_, ?_⟩
        · rintro _ ⟨⟩
          exact same.symm
        · rw [bytes, ← same, stored, Option.map_some, Storage.readManifest, Obj.toBytes]
          simp only [decodeUtf8_encode, Json.loads_dumps manifest.plain]
          rfl
  · generalize named : pageKey docKey page = key at filed
    cases filed with
    | source | part | manifest => simp at named
    | page => exact ⟨_, rfl⟩
  · generalize named : partKey docKey index = key at filed
    cases filed with
    | source | page | manifest => simp at named
    | part => exact ⟨_, rfl⟩

/-- The manifest of a document that a client has waited for. -/
theorem bucket_reads_back_of_converted_file :
    ∃ state manifest, Reaches (step (samplePod {})) (fun _ _ => True) .initial state ∧
      state.world.store (manifestKey (sampleDocKey {})) = some (.manifest manifest) ∧
      Storage.readManifest (state.bytes (manifestKey (sampleDocKey {}))) = .ok (some (.obj manifest.members)) := by
  have leads : Leads (step (samplePod {})) (fun _ _ => True)
      (fun state => (state.world.store (manifestKey (sampleDocKey {}))).isSome) .initial
      (waits [0] (lit "job") (lit "text")) := by decide +kernel
  obtain ⟨state, reached, there⟩ := leads.exists_reaches
  obtain ⟨found, stored, _, read⟩ := (bucket_reads_back reached).1 (sampleDocKey {})
  cases found with
  | none =>
    rw [stored] at there
    cases there
  | some manifest => exact ⟨state, manifest, reached, stored, read⟩

end Cluster

end MarkitdownServer
