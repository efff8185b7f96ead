import MarkitdownServer.Proofs.Publication

/-! # Torn documents

A document is several objects and a row, each written by its own call, and nothing keeps the writers of two
jobs for the same key apart. If they write the same text it does not matter who comes last. If the
converter answers them differently, one writer's manifest can meet the other writer's pages or row. A
document is whole as long as no assembly stops halfway and no two assemblies of different texts overlap.
-/

namespace MarkitdownServer

open Effects Transition

/-- The call writes the row or an object of a document. -/
def Op.writes (docKey : Str) : Op → Bool
  | .s3 (.putObject key _) => (lit "docs/" ++ docKey ++ lit "/").isPrefixOf key
  | .db (.recordDocument row) => row.docKey = docKey
  | _ => false

/-- The call has put an object of a document. -/
def Step.puts (docKey : Str) : Step → Bool
  | ⟨.s3 (.putObject key _), .ok _⟩ => (lit "docs/" ++ docKey ++ lit "/").isPrefixOf key
  | _ => false

/-- The call has recorded a document. -/
def Step.records : Step → Bool
  | ⟨.db (.recordDocument _), .ok _⟩ => true
  | _ => false

/-- The text that the call has read. -/
def Step.text? : Step → Option Str
  | ⟨.s3 (.getObject _), .ok (some (.text content))⟩ => some content
  | _ => none

/-- The caller has begun to write a document and has not recorded it yet. -/
def isWriting (docKey : Str) (calls : List Step) : Bool := calls.any (Step.puts docKey) && !calls.any Step.records

/-- The markdown of the document that the caller has read the parts of. -/
def assembled (calls : List Step) : Str := Worker.joinParts (calls.filterMap Step.text?)

namespace Deployment

/-- A write of the document fails only as the first one of its assembly, and no other assembly that is
under way writes another text; no worker dies in the middle of its writes. -/
def exclusive (docKey : Str) (state : Deployment) : Label → Bool
  | .act index fate =>
    match state.procs[index]? with
    | some ⟨_, .call op _, calls⟩ => !op.writes docKey ||
        match fate with
        | .done => (state.procs.eraseIdx index).all fun other =>
            !isWriting docKey other.calls || assembled other.calls = assembled calls
        | .raised _ => !isWriting docKey calls
        | _ => false
    | _ => true
  | .crash index => (state.procs[index]?).all fun proc => !isWriting docKey proc.calls
  | _ => true

end Deployment

/-! ## What a call does to a document -/

/-- The call puts a page or the manifest of the document, or its row. -/
inductive Op.Touches (docKey : Str) : Op → Prop
  | page (page : ℕ) (obj : Obj) : Touches docKey (.s3 (.putObject (pageKey docKey page) obj))
  | manifest (obj : Obj) : Touches docKey (.s3 (.putObject (manifestKey docKey) obj))
  | row (row : DocumentRow) (named : row.docKey = docKey) : Touches docKey (.db (.recordDocument row))

private theorem isPrefixOf_pageKey (docKey : Str) (page : ℕ) :
    (lit "docs/" ++ docKey ++ lit "/").isPrefixOf (pageKey docKey page) = true := by
  rw [List.isPrefixOf_iff_prefix]
  refine ⟨lit "pages/" ++ Str.ofNat page ++ lit ".md", ?_⟩
  have slash : lit "/pages/" = lit "/" ++ lit "pages/" := by decide
  simp only [pageKey, slash, List.append_assoc]

private theorem isPrefixOf_manifestKey (docKey : Str) :
    (lit "docs/" ++ docKey ++ lit "/").isPrefixOf (manifestKey docKey) = true := by
  rw [List.isPrefixOf_iff_prefix]
  refine ⟨lit "manifest.json", ?_⟩
  have slash : lit "/manifest.json" = lit "/" ++ lit "manifest.json" := by decide
  simp only [manifestKey, slash, List.append_assoc]

theorem Op.Touches.writes {docKey : Str} {op : Op} (touches : op.Touches docKey) : op.writes docKey = true := by
  cases touches with
  | page page obj => exact isPrefixOf_pageKey docKey page
  | manifest obj => exact isPrefixOf_manifestKey docKey
  | row row named => exact decide_eq_true named

/-- The objects of the document are the same in two worlds. -/
structure World.SameObjects (docKey : Str) (before after : World) : Prop where
  pages : ∀ page, after.store (pageKey docKey page) = before.store (pageKey docKey page)
  manifest : after.store (manifestKey docKey) = before.store (manifestKey docKey)

/-- The document is the same in two worlds. -/
structure World.SameDocument (docKey : Str) (before after : World) : Prop extends
    World.SameObjects docKey before after where
  row : after.db.findCachedDocument docKey = before.db.findCachedDocument docKey

theorem World.SameDocument.of_frame {docKey : Str} {world after : World} (db : after.db = world.db)
    (store : after.store = world.store) : world.SameDocument docKey after :=
  ⟨⟨fun _ => by rw [store], by rw [store]⟩, by rw [db]⟩

/-- A call that does not touch the document leaves it as it is. -/
theorem sameDocument_of_carry {config : Config} {docKey : Str} {op : Op} {parent : Option Message} {fate : Fate}
    {world after : World} {reply : Except Exc op.Reply} (untouched : ¬ op.Touches docKey)
    (carried : op.carry config parent world fate = some (reply, after)) : world.SameDocument docKey after := by
  have same : world.SameDocument docKey world := .of_frame rfl rfl
  cases op with
  | db stmt =>
    have exec : world.SameDocument docKey { world with db := (stmt.exec world.db).2 } := by
      refine ⟨⟨fun _ => rfl, rfl⟩, ?_⟩
      rcases documents_exec world.db stmt with ⟨row, rfl⟩ | same
      · have other : row.docKey ≠ docKey := fun named => untouched (.row row named)
        simp only [Stmt.exec, Database.recordDocument, Database.findCachedDocument,
          Relational.Table.find?_insertOrReplace, other, if_false]
      · simp only [Database.findCachedDocument, same]
    rcases carry_db carried with ⟨_, _, rfl⟩ | ⟨_, _, _, rfl⟩ | ⟨_, _, _, rfl⟩
    · exact exec
    · exact same
    · exact exec
  | s3 request =>
    have exec : world.SameDocument docKey { world with store := (request.exec world.store).2 } := by
      cases request with
      | getObject key | headObject key => exact same
      | putObject key obj =>
        refine ⟨⟨fun page => ?_, ?_⟩, rfl⟩
        · have other : pageKey docKey page ≠ key := fun named => untouched (named ▸ .page page obj)
          simp only [S3.exec, Store.put_apply, other, if_false]
        · have other : manifestKey docKey ≠ key := fun named => untouched (named ▸ .manifest obj)
          simp only [S3.exec, Store.put_apply, other, if_false]
    rcases carry_s3 carried with ⟨_, _, rfl⟩ | ⟨_, _, _, rfl⟩ | ⟨_, _, _, rfl⟩
    · exact exec
    · exact same
    · exact exec
  | amqp request =>
    rcases carry_amqp carried with ⟨_, _, rfl⟩ | ⟨_, _, _, rfl⟩ | ⟨_, _, _, rfl⟩ <;> exact .of_frame rfl rfl
  | tool request => rw [carry_tool carried]; exact same

/-! ## The handler as a writer -/

namespace Handler

/-- The text that a handler in this phase has begun to write as the document. -/
def draft (docKey : Str) : Phase → Option Str
  | .writing job parts (_ + 1) | .recording job parts =>
    if job.docKey = docKey then some (Worker.joinParts parts) else none
  | _ => none

variable {config : Config} {owner : Str} {task : ChunkTask} {docKey : Str}

/-- Only an assembler of the document touches it. -/
theorem touches_of_step {phase : Phase} {op : Op} {onward : Except Exc op.Reply → Phase}
    (moves : step config owner task phase = some ⟨op, onward⟩) (touches : op.Touches docKey) :
    (∃ job parts written, phase = .writing job parts written ∧ job.docKey = docKey) ∨
      ∃ job parts, phase = .recording job parts ∧ job.docKey = docKey := by
  cases phase with
  | writing job parts written =>
    refine .inl ⟨job, parts, written, rfl, ?_⟩
    simp only [step] at moves
    split at moves <;> cases moves
    · generalize same : pageKey job.docKey (written + 1) = key at touches
      cases touches with
      | page page obj => exact ((pageKey_inj _ _ _ _).mp same).1
      | manifest obj => exact absurd same (pageKey_ne_manifestKey _ _ _)
    · generalize same : manifestKey job.docKey = key at touches
      cases touches with
      | page page obj => exact absurd same (manifestKey_ne_pageKey _ _ _)
      | manifest obj => exact (manifestKey_inj _ _).mp same
  | recording job parts =>
    cases moves
    cases touches with
    | row row named => exact .inr ⟨job, parts, rfl, named⟩
  | storing markdown =>
    cases moves
    generalize same : partKey task.docKey task.chunkIndex = key at touches
    cases touches with
    | page page obj => exact absurd same (partKey_ne_pageKey _ _ _ _)
    | manifest obj => exact absurd same (partKey_ne_manifestKey _ _ _)
  | parking error sending | retrying sending =>
    obtain ⟨request, rfl⟩ := Sending.op_of_step moves
    cases touches
  | dropped | counted | finished | aborted | failed | retried | escaped => cases moves
  | _ =>
    cases moves
    cases touches

/-- A handler that does not touch the document is not writing it, before or after the call. -/
theorem draft_of_untouched {phase : Phase} {op : Op} {onward : Except Exc op.Reply → Phase}
    (moves : step config owner task phase = some ⟨op, onward⟩) (untouched : ¬ op.Touches docKey) :
    draft docKey phase = none ∧ ∀ reply, draft docKey (onward reply) = none := by
  have failure_none (error : Exc) : draft docKey (failure config task error) = none := by
    unfold failure
    split <;> rfl
  have gather_none (job : JobRow) (parts : List Str) (indices : List ℕ) :
      draft docKey (gather job parts indices) = none := by
    cases indices <;> rfl
  cases phase with
  | writing job parts written =>
    simp only [step] at moves
    have other : job.docKey ≠ docKey := by
      rintro rfl
      split at moves <;> cases moves
      · exact untouched (.page _ _)
      · exact untouched (.manifest _)
    refine ⟨by cases written <;> simp [draft, other], fun reply => ?_⟩
    split at moves <;> cases moves <;> cases reply <;> simp [draft, other]
  | recording job parts =>
    cases moves
    have other : job.docKey ≠ docKey := fun named => untouched (.row _ named)
    refine ⟨by simp [draft, other], fun reply => ?_⟩
    cases reply <;> rfl
  | parking error sending | retrying sending =>
    refine ⟨rfl, ?_⟩
    exact Sending.onward_of_step (draft docKey · = none) moves (fun _ _ => rfl) rfl fun _ => rfl
  | dropped | counted | finished | aborted | failed | retried | escaped => cases moves
  | _ =>
    cases moves
    refine ⟨rfl, fun reply => ?_⟩
    dsimp only
    split <;> (try split) <;> first | rfl | exact failure_none _ | exact gather_none _ _ _

/-- What the calls of a handler tell of its phase: the parts it has read, whether it has begun to write, and
that it has not recorded yet. -/
def Logged (calls : List Step) : Phase → Prop
  | .looking | .startingRow | .startingJob | .fetching | .preparing _ | .converting _ | .storing _ | .completing
  | .loading | .listing _ => calls.filterMap Step.text? = [] ∧ calls.any Step.records = false
  | .reading _ parts _ _ => calls.filterMap Step.text? = parts ∧ calls.any Step.records = false
  | .writing job parts written => calls.filterMap Step.text? = parts ∧ calls.any Step.records = false ∧
      (0 < written → calls.any (Step.puts job.docKey) = true)
  | .recording job parts => calls.filterMap Step.text? = parts ∧ calls.any Step.records = false ∧
      calls.any (Step.puts job.docKey) = true
  | _ => True

theorem Logged.draft {calls : List Step} {phase : Phase} {text : Str} (logged : Logged calls phase)
    (drafting : Handler.draft docKey phase = some text) : isWriting docKey calls = true ∧ assembled calls = text := by
  unfold isWriting assembled
  cases phase with
  | writing job parts written =>
    cases written with
    | zero => cases drafting
    | succ written =>
      obtain ⟨rfl, unrecorded, begun⟩ := logged
      simp only [Handler.draft, Option.ite_none_right_eq_some, Option.some.injEq] at drafting
      obtain ⟨rfl, rfl⟩ := drafting
      exact ⟨by rw [begun (Nat.succ_pos _), unrecorded]; rfl, rfl⟩
  | recording job parts =>
    obtain ⟨rfl, unrecorded, begun⟩ := logged
    simp only [Handler.draft, Option.ite_none_right_eq_some, Option.some.injEq] at drafting
    obtain ⟨rfl, rfl⟩ := drafting
    exact ⟨by rw [begun, unrecorded]; rfl, rfl⟩
  | _ => cases drafting

theorem logged_failure {calls : List Step} (error : Exc) : Logged calls (failure config task error) := by
  unfold failure
  split <;> trivial

theorem logged_gather {calls : List Step} {job : JobRow} {parts : List Str}
    (read : calls.filterMap Step.text? = parts) (unrecorded : calls.any Step.records = false) (indices : List ℕ) :
    Logged calls (gather job parts indices) := by
  cases indices with
  | nil => exact ⟨read, unrecorded, fun positive => absurd positive (Nat.lt_irrefl 0)⟩
  | cons index rest => exact ⟨read, unrecorded⟩

theorem Logged.step {calls : List Step} {phase : Phase} {op : Op} {onward : Except Exc op.Reply → Phase}
    (logged : Logged calls phase) (moves : step config owner task phase = some ⟨op, onward⟩)
    (reply : Except Exc op.Reply) : Logged (calls ++ [⟨op, reply⟩]) (onward reply) := by
  have silent {call : Step} (quiet : call.text? = none) :
      (calls ++ [call]).filterMap Step.text? = calls.filterMap Step.text? := by
    simp only [List.filterMap_append, List.filterMap_cons, quiet, List.filterMap_nil, List.append_nil]
  have unrecorded {call : Step} (before : calls.any Step.records = false) (quiet : call.records = false) :
      (calls ++ [call]).any Step.records = false := by
    simp only [List.any_append, before, List.any_cons, quiet, List.any_nil, Bool.or_self]
  cases phase with
  | dropped | counted | finished | aborted | failed | retried | escaped => cases moves
  | parking error sending | retrying sending =>
    exact Sending.onward_of_step (Logged _) moves (fun _ _ => trivial) trivial (fun _ => trivial) reply
  | aborting error | failingChunk error | failingJob error | rescheduling error | finishing job =>
    cases moves
    cases reply <;> trivial
  | looking | startingRow | startingJob | completing | loading =>
    cases moves
    dsimp only
    split <;> (try split) <;>
      first | trivial | exact ⟨(silent rfl).trans logged.1, unrecorded logged.2 rfl⟩
  | preparing source | converting source | storing markdown =>
    cases moves
    cases reply with
    | error error => exact logged_failure _
    | ok value => exact ⟨(silent rfl).trans logged.1, unrecorded logged.2 rfl⟩
  | fetching =>
    cases moves
    rcases reply with error | _ | _ | _ | _
    · exact logged_failure _
    · exact logged_failure _
    · exact ⟨(silent rfl).trans logged.1, unrecorded logged.2 rfl⟩
    · exact logged_failure _
    · exact logged_failure _
  | listing job =>
    cases moves
    cases reply with
    | error error => trivial
    | ok indices => exact logged_gather ((silent rfl).trans logged.1) (unrecorded logged.2 rfl) indices
  | reading job parts index rest =>
    cases moves
    rcases reply with error | _ | _ | part | _
    · trivial
    · trivial
    · trivial
    · refine logged_gather ?_ (unrecorded logged.2 rfl) rest
      rw [List.filterMap_append, logged.1]
      rfl
    · trivial
  | writing job parts written =>
    obtain ⟨read, unlogged, _⟩ := logged
    simp only [Handler.step] at moves
    split at moves
    · cases moves
      cases reply with
      | error error => trivial
      | ok value =>
        refine ⟨(silent rfl).trans read, unrecorded unlogged rfl, fun _ => ?_⟩
        rw [List.any_append, Bool.or_eq_true]
        exact .inr (by simpa [Step.puts] using isPrefixOf_pageKey job.docKey (written + 1))
    · cases moves
      cases reply with
      | error error => trivial
      | ok value =>
        refine ⟨(silent rfl).trans read, unrecorded unlogged rfl, ?_⟩
        rw [List.any_append, Bool.or_eq_true]
        exact .inr (by simpa [Step.puts] using isPrefixOf_manifestKey job.docKey)
  | recording job parts =>
    cases moves
    cases reply <;> trivial

end Handler

/-! ## Whole documents -/

/-- The handler of a message has made the call and the call was carried out. -/
def Made (trace : List Event) (message : Message) (op : Op) : Prop :=
  ∃ reply, .called (some message) ⟨op, .ok reply⟩ ∈ trace

/-- The pages of a text are stored, each put there by the handler of the message. -/
def PagesBy (config : Config) (docKey : Str) (world : World) (trace : List Event) (message : Message) (text : Str)
    (count : ℕ) : Prop :=
  ∀ page content, page < count → (paginate text config.pageSize)[page]? = some content →
    world.store (pageKey docKey (page + 1)) = some (.text content) ∧
      Made trace message (.s3 (.putObject (pageKey docKey (page + 1)) (.text content)))

/-- The manifest of a text is stored, put there by the handler of the message. -/
def ManifestBy (config : Config) (docKey : Str) (world : World) (trace : List Event) (message : Message) (text : Str) :
    Prop :=
  world.store (manifestKey docKey) = some (.manifest
      ⟨docKey, (paginate text config.pageSize).length, text.length, config.pageSize⟩) ∧
    Made trace message (.s3 (.putObject (manifestKey docKey) (.manifest
      ⟨docKey, (paginate text config.pageSize).length, text.length, config.pageSize⟩)))

/-- The row has the length and the number of pages of a text and was recorded by the handler of the message. -/
def RowBy (config : Config) (docKey : Str) (world : World) (trace : List Event) (message : Message) (text : Str) :
    Prop :=
  ∃ row, world.db.findCachedDocument docKey = some row ∧
    row.totalPages = (paginate text config.pageSize).length ∧ row.totalLength = text.length ∧
    Made trace message (.db (.recordDocument row))

/-- There is no document, or its manifest, its pages and its row come from one assembly. A job is assembled
at most once, so an assembly is named by the message whose handler runs it. -/
def WholeDocument (config : Config) (docKey : Str) (world : World) (trace : List Event) : Prop :=
  (world.store (manifestKey docKey) = none ∧ world.db.findCachedDocument docKey = none) ∨
    ∃ message text, PagesBy config docKey world trace message text (paginate text config.pageSize).length ∧
      ManifestBy config docKey world trace message text ∧ RowBy config docKey world trace message text

section Whole

variable {config : Config} {docKey : Str} {world after : World} {trace : List Event} {message : Message} {text : Str}

theorem Made.later {op : Op} (made : Made trace message op) (events : List Event) :
    Made (trace ++ events) message op := by
  obtain ⟨reply, member⟩ := made
  exact ⟨reply, List.mem_append_left _ member⟩

theorem Made.last (op : Op) (reply : op.Reply) :
    Made (trace ++ [.called (some message) ⟨op, .ok reply⟩]) message op :=
  ⟨reply, List.mem_append_right _ (List.mem_singleton_self _)⟩

theorem PagesBy.later {count : ℕ} (pages : PagesBy config docKey world trace message text count)
    (same : ∀ page content, page < count → (paginate text config.pageSize)[page]? = some content →
      world.store (pageKey docKey (page + 1)) = some (.text content) →
      after.store (pageKey docKey (page + 1)) = some (.text content)) (events : List Event) :
    PagesBy config docKey after (trace ++ events) message text count := by
  intro page content bound found
  obtain ⟨stored, made⟩ := pages page content bound found
  exact ⟨same page content bound found stored, made.later events⟩

theorem ManifestBy.later (manifest : ManifestBy config docKey world trace message text)
    (same : after.store (manifestKey docKey) = world.store (manifestKey docKey)) (events : List Event) :
    ManifestBy config docKey after (trace ++ events) message text :=
  ⟨same.trans manifest.1, manifest.2.later events⟩

theorem WholeDocument.later (whole : WholeDocument config docKey world trace)
    (same : world.SameDocument docKey after) (events : List Event) :
    WholeDocument config docKey after (trace ++ events) := by
  rcases whole with ⟨noManifest, noRow⟩ | ⟨message, text, pages, manifest, row, found, counts⟩
  · exact .inl ⟨same.manifest.trans noManifest, same.row.trans noRow⟩
  · refine .inr ⟨message, text, pages.later ?_ events, manifest.later same.manifest events, row,
      same.row.trans found, counts.1, counts.2.1, counts.2.2.later events⟩
    exact fun page _ _ _ stored => (same.pages _).trans stored

end Whole

namespace Handler

/-- What a writer of the document has put so far is stored as it put it. -/
def Progress (config : Config) (docKey : Str) (world : World) (trace : List Event) (message : Message) :
    Phase → Prop
  | .writing job parts written => job.docKey = docKey →
      PagesBy config docKey world trace message (Worker.joinParts parts) written
  | .recording job parts => job.docKey = docKey →
      PagesBy config docKey world trace message (Worker.joinParts parts) (pages config parts).length ∧
        ManifestBy config docKey world trace message (Worker.joinParts parts)
  | _ => True

variable {config : Config} {docKey : Str} {world after : World} {trace : List Event} {message : Message}

/-- A handler that is not writing the document has nothing to account for. -/
theorem progress_of_draft {phase : Phase} (idle : draft docKey phase = none) :
    Progress config docKey world trace message phase := by
  cases phase with
  | writing job parts written =>
    rintro rfl
    cases written with
    | zero => exact fun page _ bound => absurd bound (Nat.not_lt_zero page)
    | succ written => simp [draft] at idle
  | recording job parts =>
    rintro rfl
    simp [draft] at idle
  | _ => trivial

theorem Progress.later {phase : Phase} (progress : Progress config docKey world trace message phase)
    (same : world.SameObjects docKey after) (events : List Event) :
    Progress config docKey after (trace ++ events) message phase := by
  have pagesLater {text : Str} {count : ℕ} (stored : PagesBy config docKey world trace message text count) :
      PagesBy config docKey after (trace ++ events) message text count :=
    stored.later (fun page _ _ _ found => (same.pages _).trans found) events
  cases phase with
  | writing job parts written => exact fun named => pagesLater (progress named)
  | recording job parts =>
    exact fun named => ⟨pagesLater (progress named).1, (progress named).2.later same.manifest events⟩
  | _ => trivial

/-- A write of the same text does not disturb another writer. -/
theorem Progress.overwritten {phase : Phase} {text : Str} (progress : Progress config docKey world trace message phase)
    (agrees : ∀ other, draft docKey phase = some other → other = text) (events : List Event) {key : Str} {obj : Obj}
    (puts : (∃ page content, key = pageKey docKey (page + 1) ∧ obj = .text content ∧
        (paginate text config.pageSize)[page]? = some content) ∨
      key = manifestKey docKey ∧ obj = .manifest
        ⟨docKey, (paginate text config.pageSize).length, text.length, config.pageSize⟩) :
    Progress config docKey { world with store := world.store.put key obj } (trace ++ events) message phase := by
  have pagesKept {count : ℕ} (stored : PagesBy config docKey world trace message text count) :
      PagesBy config docKey { world with store := world.store.put key obj } (trace ++ events) message text count := by
    refine stored.later (fun page content _ found there => ?_) events
    rcases puts with ⟨number, new, rfl, rfl, at_⟩ | ⟨rfl, rfl⟩
    · simp only [Store.put_apply, pageKey_inj, true_and, Nat.add_right_cancel_iff]
      split
      · next same =>
        subst same
        rw [Option.some.inj (at_.symm.trans found)]
      · exact there
    · simpa only [Store.put_apply, pageKey_ne_manifestKey, if_false] using there
  have manifestKept (stored : ManifestBy config docKey world trace message text) :
      ManifestBy config docKey { world with store := world.store.put key obj } (trace ++ events) message text := by
    refine ⟨?_, stored.2.later events⟩
    rcases puts with ⟨number, new, rfl, rfl, at_⟩ | ⟨rfl, rfl⟩
    · simpa only [Store.put_apply, manifestKey_ne_pageKey, if_false] using stored.1
    · simp only [Store.put_apply, if_true]
  cases phase with
  | writing job parts written =>
    intro named
    cases written with
    | zero => exact fun page _ bound => absurd bound (Nat.not_lt_zero page)
    | succ written =>
      have same := agrees (Worker.joinParts parts) (by simp only [draft, named, if_true])
      subst same
      exact pagesKept (progress named)
  | recording job parts =>
    intro named
    have same := agrees (Worker.joinParts parts) (by simp only [draft, named, if_true])
    subst same
    exact ⟨pagesKept (progress named).1, manifestKept (progress named).2⟩
  | _ => trivial

end Handler

namespace Fleet

variable {env : Env} {docKey : Str} {state : Deployment} {fleet after : Fleet} {label : Label}

/-- The text that a process has begun to write as the document. -/
def draftOf (docKey : Str) : Agent → Option Str
  | .producer .. => none
  | .handler _ _ _ phase _ => Handler.draft docKey phase

/-- The calls and the writes of a process are as its phase says. -/
def Accounts (config : Config) (docKey : Str) (world : World) (trace : List Event) : Agent → Prop
  | .producer .. => True
  | .handler _ origin task phase calls => Handler.Logged calls phase ∧
      Handler.Progress config docKey world trace ⟨origin, .task task⟩ phase

/-- The writers of the document agree on its text, and when nobody writes it it is whole. -/
structure Intact (config : Config) (docKey : Str) (fleet : Fleet) : Prop where
  accounts : ∀ agent ∈ fleet.agents, Accounts config docKey fleet.world fleet.trace agent
  agree : ∀ first ∈ fleet.agents, ∀ second ∈ fleet.agents, ∀ text other,
    draftOf docKey first = some text → draftOf docKey second = some other → text = other
  whole : (∀ agent ∈ fleet.agents, draftOf docKey agent = none) →
    WholeDocument config docKey fleet.world fleet.trace

theorem Accounts.later {config : Config} {world after : World} {trace : List Event} {agent : Agent}
    (accounts : Accounts config docKey world trace agent) (same : world.SameObjects docKey after)
    (events : List Event) : Accounts config docKey after (trace ++ events) agent := by
  cases agent with
  | producer url useLlm phase calls => trivial
  | handler owner origin task phase calls => exact ⟨accounts.1, accounts.2.later same events⟩

theorem Accounts.isWriting {config : Config} {world : World} {trace : List Event} {agent : Agent} {text : Str}
    (accounts : Accounts config docKey world trace agent) (drafting : draftOf docKey agent = some text) :
    isWriting docKey agent.calls = true ∧ assembled agent.calls = text := by
  cases agent with
  | producer url useLlm phase calls => cases drafting
  | handler owner origin task phase calls => exact accounts.1.draft drafting

/-- A step that leaves the objects alone and brings in only processes that do not write the document. -/
theorem Intact.frame {config : Config} {agents : List Agent} {world : World} {events : List Event}
    (intact : Intact config docKey fleet) (same : fleet.world.SameObjects docKey world)
    (old : ∀ agent ∈ agents, agent ∈ fleet.agents ∨
      draftOf docKey agent = none ∧ Accounts config docKey world (fleet.trace ++ events) agent)
    (whole : (∀ agent ∈ agents, draftOf docKey agent = none) →
      WholeDocument config docKey world (fleet.trace ++ events)) :
    Intact config docKey ⟨world, agents, fleet.trace ++ events⟩ := by
  refine ⟨fun agent member => ?_, fun first memberFirst second memberSecond text other => ?_, whole⟩
  · rcases old agent member with kept | ⟨_, accounts⟩
    · exact (intact.accounts agent kept).later same events
    · exact accounts
  · intro draftFirst draftSecond
    rcases old first memberFirst with keptFirst | ⟨none, _⟩
    · rcases old second memberSecond with keptSecond | ⟨none, _⟩
      · exact intact.agree first keptFirst second keptSecond text other draftFirst draftSecond
      · cases none.symm.trans draftSecond
    · cases none.symm.trans draftFirst

/-- A step that leaves the document alone and takes away only processes that do not write it. -/
theorem Intact.whole_later {config : Config} {agents : List Agent} {world : World}
    (intact : Intact config docKey fleet) (same : fleet.world.SameDocument docKey world)
    (gone : ∀ agent ∈ fleet.agents, agent ∈ agents ∨ draftOf docKey agent = none) (events : List Event)
    (idle : ∀ agent ∈ agents, draftOf docKey agent = none) :
    WholeDocument config docKey world (fleet.trace ++ events) := by
  refine (intact.whole fun agent member => ?_).later same events
  rcases gone agent member with kept | none
  · exact idle agent kept
  · exact none

/-- What the condition says of the process that is about to write the document. -/
theorem exclusive_act {before rest : List Agent} {agent : Agent} {op : Op} {fate : Fate}
    (mirrors : Mirrors env state fleet) (found : fleet.agents = before ++ agent :: rest)
    (next : agent.next env = some op) (writes : op.writes docKey = true)
    (allowed : state.exclusive docKey (.act before.length fate) = true) :
    (fate = .done ∧ ∀ other ∈ before ++ rest, isWriting docKey other.calls = true →
        assembled other.calls = assembled agent.calls) ∨
      ∃ error, fate = .raised error ∧ isWriting docKey agent.calls = false := by
  obtain ⟨first, proc, second, split, length, runs, others⟩ := mirrors.exists_split found
  obtain ⟨resume, called⟩ := Agent.Runs.pending_call runs next
  have calls := runs.calls
  have at_ : state.procs[before.length]? = some proc := by
    rw [split, ← length, List.getElem?_append_right (Nat.le_refl _), Nat.sub_self]
    rfl
  have erased : state.procs.eraseIdx before.length = first ++ second := by
    rw [split, ← length, List.eraseIdx_append_of_length_le (Nat.le_refl _), Nat.sub_self]
    rfl
  obtain ⟨message, prog, procCalls⟩ := proc
  dsimp only at called calls
  subst called calls
  simp only [Deployment.exclusive, at_, writes, Bool.not_true, Bool.false_or] at allowed
  cases fate with
  | done =>
    refine .inl ⟨rfl, fun other member writing => ?_⟩
    simp only [erased, List.all_eq_true] at allowed
    obtain ⟨process, inside, same⟩ : ∃ process ∈ first ++ second, process.calls = other.calls :=
      List.mem_map.mp (others ▸ List.mem_map_of_mem member)
    have agrees := allowed process inside
    rw [same, writing] at agrees
    simpa using agrees
  | raised error => exact .inr ⟨error, rfl, by simpa using allowed⟩
  | _ => cases allowed

/-- A writer puts an object of the text that all writers agree on. -/
private theorem Intact.put {config : Config} {before rest : List Agent} {moved new : Agent} {key text : Str}
    {obj : Obj} {event : Event} (intact : Intact config docKey fleet) (found : fleet.agents = before ++ moved :: rest)
    (agrees : ∀ other ∈ before ++ rest, ∀ draft, draftOf docKey other = some draft → draft = text)
    (puts : (∃ page content, key = pageKey docKey (page + 1) ∧ obj = .text content ∧
        (paginate text config.pageSize)[page]? = some content) ∨
      key = manifestKey docKey ∧ obj = .manifest
        ⟨docKey, (paginate text config.pageSize).length, text.length, config.pageSize⟩)
    (drafts : draftOf docKey new = some text)
    (accounts : Accounts config docKey { fleet.world with store := fleet.world.store.put key obj }
      (fleet.trace ++ [event]) new) :
    Intact config docKey ⟨{ fleet.world with store := fleet.world.store.put key obj }, before ++ new :: rest,
      fleet.trace ++ [event]⟩ := by
  have others {agent : Agent} (member : agent ∈ before ++ new :: rest) : agent = new ∨ agent ∈ before ++ rest := by
    simp only [List.mem_append, List.mem_cons] at member ⊢
    tauto
  have texts : ∀ agent ∈ before ++ new :: rest, ∀ draft, draftOf docKey agent = some draft → draft = text := by
    intro agent member draft drafting
    rcases others member with rfl | other
    · exact Option.some.inj (drafting.symm.trans drafts)
    · exact agrees agent other draft drafting
  refine ⟨fun agent member => ?_, fun first memberFirst second memberSecond one two draftOne draftTwo => ?_,
    fun idle => ?_⟩
  · rcases others member with rfl | other
    · exact accounts
    · have inside : agent ∈ fleet.agents := by
        rw [found]
        simp only [List.mem_append, List.mem_cons] at other ⊢
        tauto
      have old := intact.accounts agent inside
      cases agent with
      | producer url useLlm phase calls => trivial
      | handler owner origin task phase calls => exact ⟨old.1, old.2.overwritten (agrees _ other) [event] puts⟩
  · rw [texts first memberFirst one draftOne, texts second memberSecond two draftTwo]
  · have none := idle new (List.mem_append_right _ (List.mem_cons_self ..))
    cases none.symm.trans drafts

/-- A process arrives where it does not write the document. -/
private theorem Intact.arrives {config : Config} {before rest : List Agent} {moved new : Agent} {world : World}
    {event : Event} (intact : Intact config docKey fleet) (found : fleet.agents = before ++ moved :: rest)
    (same : fleet.world.SameObjects docKey world) (still : draftOf docKey new = none)
    (accounts : Accounts config docKey world (fleet.trace ++ [event]) new)
    (whole : (∀ agent ∈ before ++ new :: rest, draftOf docKey agent = none) →
      WholeDocument config docKey world (fleet.trace ++ [event])) :
    Intact config docKey ⟨world, before ++ new :: rest, fleet.trace ++ [event]⟩ := by
  refine intact.frame same (fun agent member => ?_) whole
  rw [found]
  simp only [List.mem_append, List.mem_cons] at member ⊢
  rcases member with left | rfl | right
  · exact .inl (.inl left)
  · exact .inr ⟨still, accounts⟩
  · exact .inl (.inr (.inr right))

/-- A process moves without touching the document. -/
private theorem Intact.moved {config : Config} {before rest : List Agent} {moved new : Agent} {world : World}
    {event : Event} (intact : Intact config docKey fleet) (found : fleet.agents = before ++ moved :: rest)
    (same : fleet.world.SameDocument docKey world) (idle : draftOf docKey moved = none)
    (still : draftOf docKey new = none) (accounts : Accounts config docKey world (fleet.trace ++ [event]) new) :
    Intact config docKey ⟨world, before ++ new :: rest, fleet.trace ++ [event]⟩ := by
  refine intact.arrives found same.toSameObjects still accounts (intact.whole_later same (fun agent member => ?_) _)
  rw [found] at member
  simp only [List.mem_append, List.mem_cons] at member ⊢
  rcases member with left | rfl | right
  · exact .inl (.inl left)
  · exact .inr idle
  · exact .inl (.inr (.inr right))

/-- A handler writes the document. -/
private theorem intact_of_write {before rest : List Agent} {fate : Fate} {owner : Str} {origin : ℕ}
    {task : ChunkTask} {phase : Handler.Phase} {calls : List Step} {op : Op}
    {onward : Except Exc op.Reply → Handler.Phase} {reply : Except Exc op.Reply} {world : World}
    (intact : Intact env.toConfig docKey fleet)
    (found : fleet.agents = before ++ .handler owner origin task phase calls :: rest)
    (moves : Handler.step env.toConfig owner task phase = some ⟨op, onward⟩) (touches : op.Touches docKey)
    (carried : op.carry env.toConfig (some ⟨origin, .task task⟩) fleet.world fate = some (reply, world))
    (exclusive : (fate = .done ∧ ∀ other ∈ before ++ rest, isWriting docKey other.calls = true →
        assembled other.calls = assembled calls) ∨
      ∃ error, fate = .raised error ∧ isWriting docKey calls = false) :
    Intact env.toConfig docKey
      ⟨world, before ++ .handler owner origin task (onward reply) (calls ++ [⟨op, reply⟩]) :: rest,
        fleet.trace ++ [.called (some ⟨origin, .task task⟩) ⟨op, reply⟩]⟩ := by
  obtain ⟨logged, progress⟩ := intact.accounts (.handler owner origin task phase calls)
    (found ▸ List.mem_append_right _ (List.mem_cons_self ..))
  have loggedNext := logged.step moves reply
  rcases exclusive with ⟨rfl, others⟩ | ⟨error, rfl, idle⟩
  · have agrees {text : Str} (mine : assembled calls = text) (other : Agent) (member : other ∈ before ++ rest)
        (draft : Str) (drafting : draftOf docKey other = some draft) : draft = text := by
      have inside : other ∈ fleet.agents := by
        rw [found]
        simp only [List.mem_append, List.mem_cons] at member ⊢
        tauto
      obtain ⟨writing, theirs⟩ := (intact.accounts other inside).isWriting drafting
      rw [← theirs, others other member writing, mine]
    rcases Handler.touches_of_step moves touches with ⟨job, parts, written, rfl, rfl⟩ | ⟨job, parts, rfl, rfl⟩
    · have mine : assembled calls = Worker.joinParts parts := by rw [assembled, logged.1]
      have stored := progress rfl
      simp only [Handler.step] at moves
      split at moves
      · next content at_ =>
        cases moves
        cases carried
        have puts : ∃ page new, pageKey job.docKey (written + 1) = pageKey job.docKey (page + 1) ∧
            Obj.text content = .text new ∧
            (paginate (Worker.joinParts parts) env.pageSize)[page]? = some new := ⟨written, content, rfl, rfl, at_⟩
        refine intact.put found (agrees mine) (.inl puts) (by simp [draftOf, Handler.draft]) ⟨loggedNext, fun _ => ?_⟩
        intro page new bound present
        by_cases last : page = written
        · subst last
          cases at_.symm.trans present
          exact ⟨by simp, Made.last (.s3 (.putObject _ _)) ()⟩
        · obtain ⟨there, made⟩ := stored page new (by omega) present
          exact ⟨by simpa [last] using there, made.later _⟩
      · next past =>
        cases moves
        cases carried
        have complete : (Handler.pages env.toConfig parts).length ≤ written := List.getElem?_eq_none_iff.mp past
        refine intact.put found (agrees mine) (.inr ⟨rfl, rfl⟩) (by simp [draftOf, Handler.draft])
          ⟨loggedNext, fun _ => ⟨?_, ?_, Made.last (.s3 (.putObject _ _)) ()⟩⟩
        · intro page new bound present
          obtain ⟨there, made⟩ := stored page new (by omega) present
          exact ⟨by simpa using there, made.later _⟩
        · simp [Handler.manifest, Handler.pages]
    · cases moves
      cases carried
      obtain ⟨pages, manifest⟩ := progress rfl
      refine intact.arrives found ⟨fun _ => rfl, rfl⟩ rfl ⟨loggedNext, trivial⟩ fun _ => .inr ?_
      refine ⟨⟨origin, .task task⟩, Worker.joinParts parts, pages.later (fun _ _ _ _ there => there) _,
        manifest.later rfl _, _, ?_, rfl, rfl, Made.last (.db (.recordDocument _)) ()⟩
      simp only [Stmt.exec, Database.recordDocument, Database.findCachedDocument]
      exact (Relational.Table.find?_insertOrReplace ..).trans (if_pos rfl)
  · have free : Handler.draft docKey phase = none := by
      cases drafting : Handler.draft docKey phase with
      | none => rfl
      | some text => cases idle.symm.trans (logged.draft drafting).1
    cases carried
    have aborts : Handler.draft docKey (onward (.error error)) = none := by
      rcases Handler.touches_of_step moves touches with ⟨job, parts, written, rfl, rfl⟩ | ⟨job, parts, rfl, rfl⟩
      · simp only [Handler.step] at moves
        split at moves <;> cases moves <;> rfl
      · cases moves
        rfl
    exact intact.moved found (.of_frame rfl rfl) free aborts ⟨loggedNext, Handler.progress_of_draft aborts⟩

/-- A producer does not touch a document. -/
private theorem untouched_of_producer {url : Str} {useLlm : Bool} {phase : Producer.Phase} {op : Op}
    {onward : Except Exc op.Reply → Producer.Phase} (moves : Producer.step env url useLlm phase = some ⟨op, onward⟩) :
    ¬ op.Touches docKey := by
  intro touches
  cases phase with
  | uploading file ranges =>
    cases moves
    generalize same : sourceKey (env.sha256 file) = key at touches
    cases touches with
    | page page obj => exact sourceKey_ne_pageKey _ _ _ same
    | manifest obj => exact sourceKey_ne_manifestKey _ _ same
  | publishing file ranges jobId sending =>
    obtain ⟨request, rfl⟩ := Sending.op_of_step moves
    cases touches
  | returned | escaped => cases moves
  | _ =>
    cases moves
    cases touches

/-- A process that has come to its end does not write the document. -/
private theorem draftOf_ended {agent : Agent} (ended : agent.next env = none) : draftOf docKey agent = none := by
  cases agent with
  | producer url useLlm phase calls => rfl
  | handler owner origin task phase calls =>
    rw [Agent.next, Option.map_eq_none_iff] at ended
    cases phase with
    | writing job parts written =>
      simp only [Handler.step] at ended
      split at ended <;> cases ended
    | recording job parts => cases ended
    | _ => rfl

/-- A process leaves that does not write the document. -/
private theorem Intact.leaves {config : Config} {before rest : List Agent} {gone : Agent} {world : World}
    {event : Event} (intact : Intact config docKey fleet) (found : fleet.agents = before ++ gone :: rest)
    (same : fleet.world.SameDocument docKey world) (idle : draftOf docKey gone = none) :
    Intact config docKey ⟨world, before ++ rest, fleet.trace ++ [event]⟩ := by
  refine intact.frame same.toSameObjects (fun agent member => .inl ?_)
    (intact.whole_later same (fun agent member => ?_) _)
  · rw [found]
    simp only [List.mem_append, List.mem_cons] at member ⊢
    tauto
  · rw [found] at member
    simp only [List.mem_append, List.mem_cons] at member ⊢
    rcases member with left | rfl | right
    · exact .inl (.inl left)
    · exact .inr idle
    · exact .inl (.inr right)

/-- A process joins, or only messages move. -/
private theorem Intact.joins {config : Config} {agents : List Agent} {world : World} {events : List Event}
    (intact : Intact config docKey fleet) (same : fleet.world.SameDocument docKey world)
    (new : ∀ agent ∈ agents, draftOf docKey agent = none ∧
      Accounts config docKey world (fleet.trace ++ events) agent) :
    Intact config docKey ⟨world, fleet.agents ++ agents, fleet.trace ++ events⟩ := by
  refine intact.frame same.toSameObjects (fun agent member => ?_)
    (intact.whole_later same (fun agent member => .inl (List.mem_append_left _ member)) _)
  rcases List.mem_append.mp member with left | right
  · exact .inl left
  · exact .inr (new agent right)

theorem intact_of_stepped (mirrors : Mirrors env state fleet) (intact : Intact env.toConfig docKey fleet)
    (allowed : state.exclusive docKey label = true) (stepped : Stepped env fleet label after) :
    Intact env.toConfig docKey after := by
  have same {messages : List (Str × Message)} :
      fleet.world.SameDocument docKey (fleet.world.setMessages messages) := .of_frame rfl rfl
  cases stepped with
  | submit url useLlm =>
    have joined : Intact env.toConfig docKey
        ⟨fleet.world, fleet.agents ++ [.producer url useLlm .downloading []], fleet.trace ++ []⟩ :=
      intact.joins (.of_frame rfl rfl) (by simp [draftOf, Accounts])
    simpa using joined
  | deliver found =>
    exact intact.joins same (by simp [draftOf, Handler.draft, Accounts, Handler.Logged, Handler.Progress])
  | @duplicate _ copy found =>
    have joined : Intact env.toConfig docKey ⟨fleet.world.setMessages (fleet.world.broker.messages ++ [copy]),
        fleet.agents ++ [], fleet.trace ++ []⟩ := intact.joins same (by simp)
    simpa using joined
  | @expire _ queue exchange message decl before after found declared named timed target =>
    have joined : Intact env.toConfig docKey ⟨fleet.world.setMessages ((before ++ after) ++
        ((declare env.toConfig).route exchange (decl.deadLetterRoutingKey.getD queue)).map
          fun queue => (queue, message)), fleet.agents ++ [], fleet.trace ++ []⟩ := intact.joins same (by simp)
    simpa using joined
  | produced found position moves carried =>
    exact intact.moved found (sameDocument_of_carry (untouched_of_producer moves) carried) rfl rfl trivial
  | @handled _ fate owner origin task phase calls op onward reply _ before rest found position moves carried =>
    by_cases touches : op.Touches docKey
    · have next : (Agent.handler owner origin task phase calls).next env = some op := by
        simp only [Agent.next, moves, Option.map_some]
      subst position
      exact intact_of_write intact found moves touches carried
        (exclusive_act mirrors found next touches.writes allowed)
    · obtain ⟨idle, still⟩ := Handler.draft_of_untouched moves touches
      obtain ⟨logged, _⟩ := intact.accounts (.handler owner origin task phase calls)
        (found ▸ List.mem_append_right _ (List.mem_cons_self ..))
      exact intact.moved found (sameDocument_of_carry touches carried) idle (still reply)
        ⟨logged.step moves reply, Handler.progress_of_draft (still reply)⟩
  | finish found position ended => exact intact.leaves found (.of_frame rfl rfl) (draftOf_ended ended)
  | @crash _ agent before rest found position =>
    refine intact.leaves found same ?_
    obtain ⟨proc, at_, runs⟩ := mirrors.exists_proc found
    subst position
    simp only [Deployment.exclusive, at_, Option.all_some, runs.calls, Bool.not_eq_true'] at allowed
    cases drafting : draftOf docKey agent with
    | none => rfl
    | some text =>
      have accounts := intact.accounts agent (found ▸ List.mem_append_right _ (List.mem_cons_self ..))
      cases allowed.symm.trans (accounts.isWriting drafting).1

end Fleet

namespace Deployment

variable {env : Env}

/-- In a run in which no two assemblies that write different texts overlap and no assembly stops halfway, the
document is whole whenever nobody is writing it. -/
theorem whole_of_reaches {docKey : Str} {state : Deployment}
    (reached : Reaches (step env) (fun state label => state.exclusive docKey label = true) .initial state)
    (idle : ∀ proc ∈ state.procs, isWriting docKey proc.calls = false) :
    WholeDocument env.toConfig docKey state.world state.trace := by
  have start : Fleet.Intact env.toConfig docKey ⟨Deployment.initial.world, [], []⟩ :=
    ⟨fun _ member => (by cases member), fun _ member => (by cases member), fun _ => .inl ⟨rfl, rfl⟩⟩
  obtain ⟨fleet, mirrors, intact⟩ := Fleet.Mirrors.invariant (Fleet.Intact env.toConfig docKey) reached
    Fleet.mirrors_initial start fun _ _ _ _ mirrors intact allowed stepped =>
      Fleet.intact_of_stepped mirrors intact allowed stepped
  rw [← mirrors.world, ← mirrors.trace]
  refine intact.whole fun agent member => ?_
  cases drafting : Fleet.draftOf docKey agent with
  | none => rfl
  | some text =>
    obtain ⟨proc, inside, same⟩ : ∃ proc ∈ state.procs, proc.calls = agent.calls :=
      List.mem_map.mp (Agent.Runs.map_calls mirrors.agents ▸ List.mem_map_of_mem member)
    have writing := ((intact.accounts agent member).isWriting drafting).1
    cases (same ▸ idle proc inside).symm.trans writing

/-- Two jobs for one file, converted to texts of different lengths and assembled one after the other. -/
theorem whole_of_writers_in_turn :
    ∃ state, Reaches (step (sampleEnv {}))
      (fun state label => state.exclusive ((sampleEnv {}).makeDocKey ((sampleEnv {}).sha256 [0]) true) label = true)
      .initial state ∧ state.procs = [] ∧
      WholeDocument (sampleEnv {}).toConfig ((sampleEnv {}).makeDocKey ((sampleEnv {}).sha256 [0]) true) state.world
        state.trace := by
  have leads : Leads (step (sampleEnv {}))
      (fun state label => state.exclusive ((sampleEnv {}).makeDocKey ((sampleEnv {}).sha256 [0]) true) label = true)
      (fun state => state.procs.isEmpty) .initial
      (Script.submits 0 [0] (lit "a") true ++ Script.resubmits 0 [0] (lit "b") true ++
        .deliver 0 (lit "worker") :: Script.converts 0 (lit "x") ++ Script.acts 0 8 ++ .finish 0 ::
        .deliver 0 (lit "worker") :: Script.converts 0 (lit "yy") ++ Script.acts 0 8 ++ [.finish 0]) := by
    decide +kernel
  obtain ⟨state, reached, empty⟩ := leads.exists_reaches
  have idle := List.isEmpty_iff.mp empty
  exact ⟨state, reached, idle, whole_of_reaches reached (by simp [idle])⟩

/-- The same two jobs with the writes of one between those of the other: the manifest of the first job, the
page and the row of the second. -/
theorem torn_document :
    ∃ state, Reaches (step (sampleEnv {})) (fun _ _ => True) .initial state ∧ state.procs = [] ∧
      ¬ WholeDocument (sampleEnv {}).toConfig ((sampleEnv {}).makeDocKey ((sampleEnv {}).sha256 [0]) true)
        state.world state.trace := by
  have leads : Leads (step (sampleEnv {})) (fun _ _ => True)
      (fun state => state.procs.isEmpty = true ∧
        state.world.store (manifestKey ((sampleEnv {}).makeDocKey ((sampleEnv {}).sha256 [0]) true)) =
          some (.manifest ⟨(sampleEnv {}).makeDocKey ((sampleEnv {}).sha256 [0]) true, 1, 1, 5000⟩) ∧
        (state.world.db.findCachedDocument ((sampleEnv {}).makeDocKey ((sampleEnv {}).sha256 [0]) true)).map
          (·.totalLength) = some 2) .initial
      (Script.submits 0 [0] (lit "a") true ++ Script.resubmits 0 [0] (lit "b") true ++
        .deliver 0 (lit "worker") :: .deliver 0 (lit "worker") ::
        Script.converts 0 (lit "x") ++ Script.acts 0 4 ++ Script.converts 1 (lit "yy") ++ Script.acts 1 4 ++
        Script.acts 0 1 ++ Script.acts 1 2 ++ Script.acts 0 3 ++ Script.acts 1 2 ++ [.finish 0, .finish 0]) := by
    decide +kernel
  obtain ⟨state, reached, empty, stored, recorded⟩ := leads.exists_reaches
  refine ⟨state, reached, List.isEmpty_iff.mp empty, ?_⟩
  rintro (⟨none, _⟩ | ⟨message, text, _, ⟨manifest, _⟩, row, found, _, length, _⟩)
  · cases none.symm.trans stored
  · have short := (Manifest.mk.inj (Obj.manifest.inj (Option.some.inj (manifest.symm.trans stored)))).2.2.1
    have long := Option.some.inj ((congrArg (Option.map DocumentRow.totalLength) found).symm.trans recorded)
    omega

end Deployment

end MarkitdownServer
