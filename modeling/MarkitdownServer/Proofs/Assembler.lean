import MarkitdownServer.Machine.Fleet
import MarkitdownServer.Proofs.JobTable

/-! # At most one assembler

Nothing but `complete_chunk` changes the counter of a job, and it takes one from it whenever it returns a
value that is not a sentinel. So along any list of statements the values it returns for a job decrease, and
zero comes once at most. A handler enters `assemble` only with a zero of its own, so the run as a whole
enters it once at most for each job.
-/

namespace MarkitdownServer

open Effects Transition

/-! ## The values returned along a list of statements -/

/-- What a statement returns as the count of remaining chunks of a job. -/
def Stmt.completion (jobId : Str) (db : Database) : Stmt → Option ℤ
  | .completeChunk other chunkIndex s3Key =>
    if other = jobId then some (db.completeChunk other chunkIndex s3Key).1 else none
  | _ => none

/-- The values that `complete_chunk` returns for a job along a list of statements. -/
def returned (jobId : Str) : Database → List Stmt → List ℤ
  | _, [] => []
  | db, stmt :: rest => (stmt.completion jobId db).toList ++ returned jobId (stmt.exec db).2 rest

/-- The database after a list of statements. -/
def execAll (db : Database) (stmts : List Stmt) : Database := stmts.foldl (fun db stmt => (stmt.exec db).2) db

theorem returned_append (jobId : Str) (db : Database) (stmts more : List Stmt) :
    returned jobId db (stmts ++ more) = returned jobId db stmts ++ returned jobId (execAll db stmts) more := by
  induction stmts generalizing db with
  | nil => rfl
  | cons first rest ih => simp only [List.cons_append, returned, ih, List.append_assoc, execAll, List.foldl_cons]

theorem JobChange.remaining_le {stmt : Stmt} {row after : JobRow} (change : JobChange stmt row after) :
    after.remainingChunks ≤ row.remainingChunks := by
  cases change with
  | counted => exact Int.sub_le_self _ (by decide)
  | same | started | failed | finished => exact Int.le_refl _

/-- A value that is not a sentinel is the new counter of the job. -/
theorem remaining_of_completion {stmt : Stmt} {jobId : Str} {db : Database} {value : ℤ}
    (completed : stmt.completion jobId db = some value) (natural : 0 ≤ value) :
    ∃ row after, db.getJob jobId = some row ∧ value = row.remainingChunks - 1 ∧
      (stmt.exec db).2.getJob jobId = some after ∧ after.remainingChunks = value := by
  cases stmt with
  | completeChunk other chunkIndex s3Key =>
    simp only [Stmt.completion, Option.ite_none_right_eq_some] at completed
    obtain ⟨rfl, same⟩ := completed
    have exits := db.completed other chunkIndex s3Key
    simp only [Stmt.exec]
    generalize db.completeChunk other chunkIndex s3Key = result at exits same ⊢
    cases exits with
    | already =>
      cases same
      exact absurd natural (by decide : ¬ 0 ≤ Database.chunkAlreadyDone)
    | terminal =>
      cases same
      exact absurd natural (by decide : ¬ 0 ≤ Database.jobAlreadyTerminal)
    | @counted chunk job present opened member active =>
      cases same
      have named := active
      simp only [Database.isActiveJob, Bool.and_eq_true, decide_eq_true_eq] at named
      have found := (db.getJob_eq_some_iff other job).mpr ⟨member, named.1⟩
      have lookup := db.jobs.find?_update (Database.isActiveJob other)
        (fun row => { row with remainingChunks := row.remainingChunks - 1, status := .running }) (fun _ => rfl) other
      rw [show db.jobs.find? other = some job from found, Option.map_some, if_pos active] at lookup
      exact ⟨job, _, found, rfl, lookup, rfl⟩
  | _ => cases completed

/-- The values returned from now on are below the counter. -/
theorem returned_lt (jobId : Str) (stmts : List Stmt) {db : Database} {row : JobRow}
    (found : db.getJob jobId = some row) {value : ℤ} (member : value ∈ returned jobId db stmts) (natural : 0 ≤ value) :
    value < row.remainingChunks := by
  induction stmts generalizing db row with
  | nil => cases member
  | cons stmt rest ih =>
    rcases List.mem_append.mp member with first | later
    · have completed := Option.mem_toList.mp first
      obtain ⟨job, _, same, value, _⟩ := remaining_of_completion completed natural
      cases found.symm.trans same
      omega
    · obtain ⟨after, arrived, change⟩ := jobChange stmt found
      have below := ih arrived later
      have fewer := change.remaining_le
      omega

/-- The values that are not sentinels decrease strictly. -/
theorem returned_pairwise (jobId : Str) (stmts : List Stmt) (db : Database) :
    ((returned jobId db stmts).filter (0 ≤ ·)).Pairwise (· > ·) := by
  induction stmts generalizing db with
  | nil => exact .nil
  | cons stmt rest ih =>
    rw [returned, List.filter_append, List.pairwise_append]
    refine ⟨?_, ih _, fun value first other later => ?_⟩
    · cases stmt.completion jobId db with
      | none => exact .nil
      | some value => exact List.Pairwise.filter _ (List.pairwise_singleton ..)
    · obtain ⟨first, natural⟩ := List.mem_filter.mp first
      obtain ⟨later, otherNatural⟩ := List.mem_filter.mp later
      have completed := Option.mem_toList.mp first
      obtain ⟨_, after, _, _, arrived, same⟩ := remaining_of_completion completed (of_decide_eq_true natural)
      have below := returned_lt jobId rest arrived later (of_decide_eq_true otherNatural)
      omega

/-- Zero stands once at most in a list whose natural numbers decrease strictly. -/
theorem count_zero_le_one {values : List ℤ} (decreasing : (values.filter (0 ≤ ·)).Pairwise (· > ·)) :
    values.count 0 ≤ 1 := by
  have nodup : (values.filter (0 ≤ ·)).Nodup := decreasing.imp fun below => (ne_of_gt below)
  rw [← List.count_filter (p := (0 ≤ ·)) (by decide)]
  exact List.nodup_iff_count_le_one.mp nodup 0

/-! ## The values returned and the assemblies entered in a run -/

/-- The count of remaining chunks of a job that a caller was given. -/
def Step.completion (jobId : Str) : Step → Option ℤ
  | ⟨.db (.completeChunk other _ _), .ok remaining⟩ => if other = jobId then some remaining else none
  | _ => none

/-- A caller was told to assemble the document of a job. -/
def Step.isLast (jobId : Str) (call : Step) : Bool := Step.completion jobId call = some 0

/-- The first call of `assemble` for a job. -/
def Step.assembles (jobId : Str) : Step → Bool
  | ⟨.db (.chunkIndices other), _⟩ => other = jobId
  | _ => false

namespace Deployment

/-- The calls of all processes so far. -/
def history (state : Deployment) : List Step := state.trace.filterMap Event.call?

variable {env : Env}

private theorem completion_exec (jobId : Str) (db : Database) (stmt : Stmt) :
    Step.completion jobId ⟨.db stmt, (stmt.exec db).1⟩ = stmt.completion jobId db := by
  cases stmt with
  | createJob other docKey fileHash url ranges useLlm =>
    simp only [Stmt.exec]
    split <;> rfl
  | _ => rfl

private theorem completion_error (jobId : Str) (op : Op) (error : Exc) :
    Step.completion jobId ⟨op, .error error⟩ = none := by
  cases op with
  | db stmt => cases stmt <;> rfl
  | _ => rfl

/-- One step carries out one statement at most, and its caller sees what it returns or an exception. -/
private theorem step_stmts (jobId : Str) {state next : Deployment} {label : Label}
    (stepped : step env state label = some next) :
    ∃ stmts, next.world.db = execAll state.world.db stmts ∧
      (next.history.filterMap (Step.completion jobId)).Sublist
        (state.history.filterMap (Step.completion jobId) ++ returned jobId state.world.db stmts) := by
  have silent {event : Event} {world : World} {procs : List Proc} (same : world.db = state.world.db)
      (unseen : (event.call?.bind (Step.completion jobId)) = none) :
      ∃ stmts, world.db = execAll state.world.db stmts ∧
        ((⟨world, procs, state.trace ++ [event]⟩ : Deployment).history.filterMap (Step.completion jobId)).Sublist
          (state.history.filterMap (Step.completion jobId) ++ returned jobId state.world.db stmts) := by
    refine ⟨[], same, ?_⟩
    cases called : event.call? with
    | none => simp [history, List.filterMap_append, called, returned]
    | some call =>
      rw [called, Option.bind_some] at unseen
      simp [history, List.filterMap_append, called, unseen, returned]
  cases stepped_of_step stepped with
  | submit | duplicate | expire => exact ⟨[], rfl, by simp [returned, history]⟩
  | deliver | finish | crash => exact silent rfl rfl
  | @act index fate proc op rest reply world before after found at_ position carried =>
    cases op with
    | db stmt =>
      rcases carry_db carried with ⟨_, rfl, rfl⟩ | ⟨error, _, rfl, rfl⟩ | ⟨error, _, rfl, rfl⟩
      · refine ⟨[stmt], rfl, ?_⟩
        simp only [history, List.filterMap_append, List.filterMap_cons, Event.call?, List.filterMap_nil,
          completion_exec, returned, List.append_nil]
        cases stmt.completion jobId state.world.db <;> exact List.Sublist.refl _
      · exact silent rfl (completion_error jobId _ error)
      · have unseen : List.filterMap (Step.completion jobId) [⟨.db stmt, .error error⟩] = [] :=
          List.filterMap_cons_none (completion_error jobId (.db stmt) error)
        refine ⟨[stmt], rfl, ?_⟩
        simp only [history, List.filterMap_append, List.filterMap_cons, Event.call?, List.filterMap_nil, unseen,
          List.append_nil]
        exact List.sublist_append_left _ _
    | s3 request =>
      rcases carry_s3 carried with ⟨_, rfl, rfl⟩ | ⟨error, _, rfl, rfl⟩ | ⟨error, _, rfl, rfl⟩ <;>
        exact silent rfl rfl
    | amqp request =>
      rcases carry_amqp carried with ⟨_, rfl, rfl⟩ | ⟨error, _, rfl, rfl⟩ | ⟨error, _, rfl, rfl⟩ <;>
        exact silent rfl rfl
    | tool request =>
      rw [carry_tool carried]
      exact silent rfl rfl

/-- Every run is a list of statements, and its callers have seen some of the values returned along it. -/
theorem exists_stmts {allowed : Deployment → Label → Prop} {source state : Deployment} (jobId : Str)
    (quiet : source.trace = []) (reached : Reaches (step env) allowed source state) :
    ∃ stmts, state.world.db = execAll source.world.db stmts ∧
      (state.history.filterMap (Step.completion jobId)).Sublist (returned jobId source.world.db stmts) := by
  induction reached with
  | refl => exact ⟨[], rfl, by simp [history, quiet, returned]⟩
  | @tail state next _ last ih =>
    obtain ⟨label, _, stepped⟩ := last
    obtain ⟨stmts, same, seen⟩ := ih
    obtain ⟨more, moved, added⟩ := step_stmts jobId stepped
    refine ⟨stmts ++ more, ?_, added.trans ?_⟩
    · rw [moved, same, execAll, execAll, execAll, List.foldl_append]
    · rw [same, returned_append]
      exact seen.append_right _

end Deployment

/-! ## A handler assembles on a zero of its own -/

namespace Handler

/-- A handler has entered `assemble` at most as often as it was told to, and less often while it is
about to. -/
def Settled (jobId : Str) (task : ChunkTask) (calls : List Step) : Phase → Prop
  | .loading => calls.countP (Step.assembles jobId) + (if task.jobId = jobId then 1 else 0) ≤
      calls.countP (Step.isLast jobId)
  | .listing job => job.jobId = task.jobId ∧
      calls.countP (Step.assembles jobId) + (if task.jobId = jobId then 1 else 0) ≤ calls.countP (Step.isLast jobId)
  | _ => calls.countP (Step.assembles jobId) ≤ calls.countP (Step.isLast jobId)

variable {config : Config} {owner : Str} {task : ChunkTask} {jobId : Str} {calls : List Step}

theorem Settled.le {phase : Phase} (settled : Settled jobId task calls phase) :
    calls.countP (Step.assembles jobId) ≤ calls.countP (Step.isLast jobId) := by
  cases phase with
  | loading => exact (Nat.le_add_right _ _).trans settled
  | listing job => exact (Nat.le_add_right _ _).trans settled.2
  | _ => exact settled

/-- Told to assemble, and not yet inside. -/
def Phase.awaitsAssembly : Phase → Bool
  | .loading | .listing _ => true
  | _ => false

theorem awaitsAssembly_failure (error : Exc) : (failure config task error).awaitsAssembly = false := by
  unfold failure
  split <;> rfl

theorem awaitsAssembly_gather (job : JobRow) (parts : List Str) (indices : List ℕ) :
    (gather job parts indices).awaitsAssembly = false := by
  cases indices <;> rfl

private theorem settled_of_plain {call : Step} {phase : Phase}
    (le : calls.countP (Step.assembles jobId) ≤ calls.countP (Step.isLast jobId))
    (plain : Step.assembles jobId call = false) (elsewhere : phase.awaitsAssembly = false) :
    Settled jobId task (calls ++ [call]) phase := by
  have both : (calls ++ [call]).countP (Step.assembles jobId) ≤ (calls ++ [call]).countP (Step.isLast jobId) := by
    simp only [List.countP_append, List.countP_singleton, plain, Bool.false_eq_true, if_false]
    omega
  cases phase with
  | loading | listing job => cases elsewhere
  | _ => exact both

theorem Settled.step {phase : Phase} {op : Op} {onward : Except Exc op.Reply → Phase} {reply : Except Exc op.Reply}
    {parent : Option Message} {fate : Fate} {world after : World} (settled : Settled jobId task calls phase)
    (moves : step config owner task phase = some ⟨op, onward⟩)
    (carried : op.carry config parent world fate = some (reply, after)) :
    Settled jobId task (calls ++ [⟨op, reply⟩]) (onward reply) := by
  have le := settled.le
  cases phase with
  | dropped | counted | finished | aborted | failed | retried | escaped => cases moves
  | looking | startingRow | startingJob | recording | finishing | aborting | failingChunk | failingJob
  | rescheduling =>
    cases moves
    refine settled_of_plain le rfl ?_
    dsimp only
    split <;> (try split) <;> rfl
  | fetching | preparing | converting | storing =>
    cases moves
    refine settled_of_plain le rfl ?_
    dsimp only
    split <;> first | rfl | exact awaitsAssembly_failure _
  | parking | retrying =>
    obtain ⟨request, rfl⟩ := Sending.op_of_step moves
    exact settled_of_plain le rfl (Sending.onward_of_step (fun phase => phase.awaitsAssembly = false) moves
      (fun _ _ => rfl) rfl (fun _ => rfl) reply)
  | reading job parts index rest =>
    cases moves
    refine settled_of_plain le rfl ?_
    dsimp only
    split <;> first | rfl | exact awaitsAssembly_gather _ _ _
  | writing job parts written =>
    simp only [Handler.step] at moves
    split at moves <;> cases moves <;> refine settled_of_plain le rfl ?_ <;> dsimp only <;> split <;> rfl
  | completing =>
    cases moves
    rcases carry_db carried with ⟨_, rfl, _⟩ | ⟨error, _, rfl, _⟩ | ⟨error, _, rfl, _⟩
    · simp only [Stmt.exec]
      split
      · next zero =>
        simp only [Settled, List.countP_append, List.countP_singleton, Step.assembles, Step.isLast, Step.completion,
          zero, Bool.false_eq_true, if_false, Nat.add_zero]
        split <;> simp <;> omega
      · exact settled_of_plain le rfl rfl
    · exact settled_of_plain le rfl rfl
    · exact settled_of_plain le rfl rfl
  | loading =>
    cases moves
    rcases carry_db carried with ⟨_, rfl, _⟩ | ⟨error, _, rfl, _⟩ | ⟨error, _, rfl, _⟩
    · simp only [Stmt.exec]
      split
      · next job found =>
        have named : job.jobId = task.jobId :=
          ((Database.getJob_eq_some_iff _ _ _).mp (Except.ok.inj found)).2
        refine ⟨named, ?_⟩
        simp only [List.countP_append, List.countP_singleton, Step.assembles, Bool.false_eq_true, if_false]
        exact Nat.le_trans settled (Nat.le_add_right _ _)
      · exact settled_of_plain le rfl rfl
      · exact settled_of_plain le rfl rfl
    · exact settled_of_plain le rfl rfl
    · exact settled_of_plain le rfl rfl
  | listing job =>
    cases moves
    obtain ⟨named, before⟩ := settled
    have both : (calls ++ [(⟨.db (.chunkIndices job.jobId), reply⟩ : Step)]).countP (Step.assembles jobId) ≤
        (calls ++ [(⟨.db (.chunkIndices job.jobId), reply⟩ : Step)]).countP (Step.isLast jobId) := by
      simp only [List.countP_append, List.countP_singleton, Step.assembles, decide_eq_true_eq, named]
      omega
    dsimp only
    split
    · next indices => cases indices <;> exact both
    · exact both

end Handler

namespace Fleet

/-- Every process has entered `assemble` at most as often as it was told to. -/
def AgentSettled (jobId : Str) : Agent → Prop
  | .producer _ _ _ calls => calls.countP (Step.assembles jobId) = 0
  | .handler _ _ task phase calls => Handler.Settled jobId task calls phase

variable {env : Env} {jobId : Str}

theorem AgentSettled.le {agent : Agent} (settled : AgentSettled jobId agent) :
    agent.calls.countP (Step.assembles jobId) ≤ agent.calls.countP (Step.isLast jobId) := by
  cases agent with
  | producer => exact settled ▸ Nat.zero_le _
  | handler => exact Handler.Settled.le settled

private theorem assembles_producer {url : Str} {useLlm : Bool} {phase : Producer.Phase} {op : Op}
    {onward : Except Exc op.Reply → Producer.Phase} (moves : Producer.step env url useLlm phase = some ⟨op, onward⟩)
    (reply : Except Exc op.Reply) : Step.assembles jobId ⟨op, reply⟩ = false := by
  cases phase with
  | publishing file ranges job sending =>
    obtain ⟨request, rfl⟩ := Sending.op_of_step moves
    rfl
  | _ =>
    cases moves
    try rfl

theorem agentSettled_of_stepped {fleet after : Fleet} {label : Label} (stepped : Stepped env fleet label after)
    (settled : ∀ agent ∈ fleet.agents, AgentSettled jobId agent) :
    ∀ agent ∈ after.agents, AgentSettled jobId agent := by
  refine stepped.forall_agents (fun _ => AgentSettled jobId) settled (fun _ _ holds => holds)
    (fun _ _ _ => rfl) (fun _ _ _ _ _ _ => Nat.le_refl 0) ?_ ?_
  · intro _ _ url useLlm phase calls op onward reply before rest _ found _ moves _
    have holds := settled (.producer url useLlm phase calls) (found ▸ List.mem_append_right _ (List.mem_cons_self ..))
    simp only [AgentSettled, List.countP_append, List.countP_singleton, assembles_producer moves reply] at holds ⊢
    exact holds
  · intro _ _ owner origin task phase calls op onward reply before rest _ found _ moves carried
    exact Handler.Settled.step (settled (.handler owner origin task phase calls)
      (found ▸ List.mem_append_right _ (List.mem_cons_self ..))) moves carried

end Fleet

namespace Deployment

variable {env : Env} {state : Deployment}

/-- In every run `assemble` is entered for a job at most as often as a caller was told to. -/
theorem assembled_le_told (jobId : Str) (reached : Reaches (step env) (fun _ _ => True) .initial state) :
    state.history.countP (Step.assembles jobId) ≤ state.history.countP (Step.isLast jobId) := by
  obtain ⟨fleet, mirrors, settled, solvent⟩ := Fleet.Mirrors.invariant
    (fun fleet => (∀ agent ∈ fleet.agents, Fleet.AgentSettled jobId agent) ∧
      fleet.Solvent (Step.isLast jobId) (Step.assembles jobId)) reached Fleet.mirrors_initial
    ⟨fun _ member => (by cases member), Nat.le_refl 0⟩
    fun _ _ _ _ _ holds _ stepped => ⟨Fleet.agentSettled_of_stepped stepped holds.1,
      holds.2.step stepped fun agent member => (holds.1 agent member).le⟩
  have bound := solvent.countP_le fun agent member => (settled agent member).le
  rw [Fleet.history, mirrors.trace] at bound
  exact bound

/-- Along any list of statements, and in every run, the values that `complete_chunk` returns for a job
decrease strictly as long as they are not sentinels, zero is returned once at most, and so `assemble` is
entered once at most for the job. -/
theorem at_most_one_assembler (env : Env) (jobId : Str) :
    (∀ db stmts, ((returned jobId db stmts).filter (0 ≤ ·)).Pairwise (· > ·) ∧
      (returned jobId db stmts).count 0 ≤ 1) ∧
    ∀ state, Reaches (step env) (fun _ _ => True) .initial state →
      ((state.history.filterMap (Step.completion jobId)).filter (0 ≤ ·)).Pairwise (· > ·) ∧
        state.history.countP (Step.isLast jobId) ≤ 1 ∧ state.history.countP (Step.assembles jobId) ≤ 1 := by
  refine ⟨fun db stmts => ?_, fun state reached => ?_⟩
  · have decreasing := returned_pairwise jobId stmts db
    exact ⟨decreasing, count_zero_le_one decreasing⟩
  · obtain ⟨stmts, _, seen⟩ := exists_stmts jobId rfl reached
    have decreasing := (returned_pairwise jobId stmts _).sublist (seen.filter _)
    have told : state.history.countP (Step.isLast jobId) ≤ 1 := by
      have once := count_zero_le_one decreasing
      rw [List.count, List.countP_filterMap] at once
      refine Nat.le_trans (Nat.le_of_eq (List.countP_congr fun call _ => ?_)) once
      cases value : Step.completion jobId call <;> simp [Step.isLast, value]
    exact ⟨decreasing, told, (assembled_le_told jobId reached).trans told⟩

/-- A run in which the assembly is entered. -/
theorem one_assembler :
    ∃ state, Reaches (step (sampleEnv {})) (fun _ _ => True) .initial state ∧
      state.history.countP (Step.assembles (lit "job")) = 1 ∧
      ((state.history.filterMap (Step.completion (lit "job"))).filter (0 ≤ ·)).Pairwise (· > ·) ∧
        state.history.countP (Step.isLast (lit "job")) ≤ 1 ∧
        state.history.countP (Step.assembles (lit "job")) ≤ 1 := by
  have leads : Leads (step (sampleEnv {})) (fun _ _ => True)
      (fun state => state.history.countP (Step.assembles (lit "job")) = 1) .initial
      (Script.submits 0 [0] (lit "job") false ++ .duplicate 0 :: .deliver 0 (lit "worker") ::
        .deliver 0 (lit "worker") :: Script.converts 0 (lit "text") ++ Script.converts 1 (lit "text") ++
        Script.acts 0 3 ++ Script.acts 1 1) := by decide +kernel
  obtain ⟨state, reached, once⟩ := leads.exists_reaches
  exact ⟨state, reached, once, (at_most_one_assembler (sampleEnv {}) (lit "job")).2 state reached⟩

end Deployment

end MarkitdownServer
