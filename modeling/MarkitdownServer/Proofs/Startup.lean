import MarkitdownServer.Model.Startup

/-! # No call before the tables

`ensure_ready` looks at `_migrated` without the lock, and `migrate` looks again with it. A process sets the flag only
after a commit, so a thread that has found the flag set, or has come back from `migrate`, finds every object of the
migrations, whichever processes start, fail and die meanwhile.
-/

namespace MarkitdownServer

open Effects Effects.Program Transition

/-- The statements of the migrations: each creates an object of its own if it does not exist. -/
structure Creates (statements : List Str) : Prop where
  named : ∀ statement ∈ statements, ∃ name, objectName statement = some name
  distinct : ∀ first ∈ statements, ∀ second ∈ statements, objectName first = objectName second → first = second

theorem creates_of_nodup {statements : List Str}
    (named : ∀ statement ∈ statements, (objectName statement).isSome = true)
    (nodup : (statements.map objectName).Nodup) : Creates statements where
  named statement member := Option.isSome_iff_exists.mp (named statement member)
  distinct _ first _ second same := List.inj_on_of_nodup_map nodup first second same

/-! ## The objects of a database -/

namespace Schema

variable {schema : Schema} {statements : List Str} {statement : Str}

/-- An object that a migration creates, if it exists, is as the migration creates it; nothing else would change it. -/
def Agrees (schema : Schema) (statements : List Str) : Prop :=
  ∀ name definition, schema name = some definition →
    ∀ statement ∈ statements, objectName statement = some name → definition = statement

/-- Every object of the migrations exists. -/
def Complete (schema : Schema) (statements : List Str) : Prop := ∀ statement ∈ statements, schema.Has statement

/-- A statement creates its object where there is none, and changes nothing else. -/
theorem create_cases (schema : Schema) (statement : Str) :
    (schema.create statement = schema ∧
      ∀ name, objectName statement = some name → ∃ definition, schema name = some definition) ∨
      ∃ name, objectName statement = some name ∧ schema name = none ∧
        schema.create statement = Function.update schema name (some statement) := by
  unfold create
  cases named : objectName statement with
  | none => exact .inl ⟨rfl, by rintro _ ⟨⟩⟩
  | some name =>
    dsimp only
    cases found : schema name with
    | none => exact .inr ⟨name, rfl, found, rfl⟩
    | some definition =>
      refine .inl ⟨rfl, ?_⟩
      rintro _ ⟨⟩
      exact ⟨definition, found⟩

theorem Has.create (has : schema.Has statement) (other : Str) : (schema.create other).Has statement := by
  obtain ⟨name, named, found⟩ := has
  refine ⟨name, named, ?_⟩
  rcases create_cases schema other with ⟨same, _⟩ | ⟨fresh, _, absent, same⟩
  · rw [same]
    exact found
  · have differs : name ≠ fresh := by
      rintro rfl
      cases absent.symm.trans found
    rw [same, Function.update_of_ne differs]
    exact found

theorem Has.createAll (has : schema.Has statement) (others : List Str) : (schema.createAll others).Has statement := by
  induction others generalizing schema with
  | nil => exact has
  | cons other others ih => exact ih (has.create other)

theorem Agrees.create (creates : Creates statements) (agrees : schema.Agrees statements)
    (member : statement ∈ statements) : (schema.create statement).Agrees statements := by
  rcases create_cases schema statement with ⟨same, _⟩ | ⟨fresh, named, _, same⟩
  · rw [same]
    exact agrees
  · intro name definition found other inside otherwise
    rw [same] at found
    by_cases equal : name = fresh
    · subst equal
      rw [Function.update_self] at found
      cases found
      exact creates.distinct _ member _ inside (named.trans otherwise.symm)
    · rw [Function.update_of_ne equal] at found
      exact agrees name definition found other inside otherwise

/-- After its statement an object exists. -/
theorem Agrees.has_create (creates : Creates statements) (agrees : schema.Agrees statements)
    (member : statement ∈ statements) : (schema.create statement).Has statement := by
  obtain ⟨name, named⟩ := creates.named statement member
  refine ⟨name, named, ?_⟩
  rcases create_cases schema statement with ⟨same, exist⟩ | ⟨fresh, freshly, _, same⟩
  · obtain ⟨definition, found⟩ := exist name named
    rw [same, found, agrees name definition found statement member named]
  · cases named.symm.trans freshly
    rw [same, Function.update_self]

theorem Agrees.createAll (creates : Creates statements) {pending : List Str} (agrees : schema.Agrees statements)
    (members : ∀ statement ∈ pending, statement ∈ statements) : (schema.createAll pending).Agrees statements := by
  induction pending generalizing schema with
  | nil => exact agrees
  | cons first rest ih =>
    have next := agrees.create creates (members first (List.mem_cons_self ..))
    exact ih next fun statement inside => members statement (List.mem_cons_of_mem _ inside)

theorem Agrees.has_createAll (creates : Creates statements) {pending : List Str} (agrees : schema.Agrees statements)
    (members : ∀ statement ∈ pending, statement ∈ statements) (inside : statement ∈ pending) :
    (schema.createAll pending).Has statement := by
  induction pending generalizing schema with
  | nil => cases inside
  | cons first rest ih =>
    have member := members first (List.mem_cons_self ..)
    cases inside with
    | head => exact (agrees.has_create creates member).createAll rest
    | tail _ later =>
      have next := agrees.create creates member
      exact ih next (fun statement more => members statement (List.mem_cons_of_mem _ more)) later

end Schema

/-! ## The open transaction -/

section Transaction

variable {statements : List Str} {state after : Schema × List Str} {op : BootOp} {fate : BootFate}
  {reply : Except Exc Unit}

/-- The database agrees with the migrations, and the transaction consists of statements of theirs. -/
structure Fitting (statements : List Str) (state : Schema × List Str) : Prop where
  agrees : state.1.Agrees statements
  members : ∀ statement ∈ state.2, statement ∈ statements

/-- The object of a statement exists or will exist with the commit. -/
def Brought (state : Schema × List Str) (statement : Str) : Prop := statement ∈ state.2 ∨ state.1.Has statement

/-- Only statements of the migrations are executed. -/
def BootOp.Fits (statements : List Str) : BootOp → Prop
  | .execute statement => statement ∈ statements
  | _ => True

/-- A step of the database and a transaction: nothing is lost from the database, and the rest fits. -/
structure Grows (statements : List Str) (state after : Schema × List Str) : Prop where
  fitting : Fitting statements after
  has : ∀ statement, state.1.Has statement → after.1.Has statement

theorem Grows.refl (fitting : Fitting statements state) : Grows statements state state := ⟨fitting, fun _ has => has⟩

theorem Grows.trans {middle : Schema × List Str} (first : Grows statements state middle)
    (second : Grows statements middle after) : Grows statements state after :=
  ⟨second.fitting, fun statement has => second.has statement (first.has statement has)⟩

/-- A commit keeps the promises of the transaction. -/
theorem Brought.flushed (creates : Creates statements) (fitting : Fitting statements state) {statement : Str}
    (brought : Brought state statement) : (state.1.createAll state.2).Has statement := by
  rcases brought with inside | has
  · exact fitting.agrees.has_createAll creates fitting.members inside
  · exact has.createAll _

theorem Fitting.flushed (creates : Creates statements) (fitting : Fitting statements state) :
    Grows statements state (state.1.createAll state.2, []) :=
  ⟨⟨fitting.agrees.createAll creates fitting.members, by rintro _ ⟨⟩⟩, fun _ has => has.createAll _⟩

theorem Fitting.settle (creates : Creates statements) (fitting : Fitting statements state) (leftover : Leftover) :
    Grows statements state (leftover.settle state) := by
  cases leftover with
  | kept => exact .refl fitting
  | flushed => exact fitting.flushed creates
  | dropped => exact ⟨⟨fitting.agrees, by rintro _ ⟨⟩⟩, fun _ has => has⟩

theorem Fitting.effect (creates : Creates statements) (fitting : Fitting statements state) (fits : op.Fits statements) :
    Grows statements state (op.effect state) := by
  cases op with
  | execute statement =>
    refine ⟨⟨fitting.agrees, fun other inside => ?_⟩, fun _ has => has⟩
    rcases List.mem_append.mp inside with before | last
    · exact fitting.members other before
    · cases List.mem_singleton.mp last
      exact fits
  | commit => exact fitting.flushed creates
  | migrated | acquire | setMigrated | release | connect | request => exact .refl fitting

theorem Fitting.drive (creates : Creates statements) (fitting : Fitting statements state) (fits : op.Fits statements)
    (driven : Site.drive op state fate = some (reply, after)) : Grows statements state after := by
  have done := fitting.effect creates fits
  cases fate with
  | returned leftover =>
    cases leftover with
    | dropped =>
      simp only [Site.drive] at driven
      split_ifs at driven
      cases driven
      exact fitting.settle creates .dropped
    | kept | flushed =>
      cases driven
      exact done.trans (done.fitting.settle creates _)
  | raised error leftover =>
    cases driven
    exact fitting.settle creates leftover
  | raisedLate error leftover =>
    cases driven
    exact done.trans (done.fitting.settle creates leftover)

/-- A call of a migration that returns has had its effect, and what it was to bring is not lost. -/
theorem Fitting.returned (creates : Creates statements) (fitting : Fitting statements state)
    (fits : op.Fits statements) (migrates : op ≠ .request)
    (driven : Site.drive op state fate = some (.ok (), after)) :
    Grows statements (op.effect state) after ∧
      ∀ statement, Brought (op.effect state) statement → Brought after statement := by
  have done := fitting.effect creates fits
  cases fate with
  | returned leftover =>
    cases leftover with
    | dropped =>
      simp only [Site.drive, if_neg migrates] at driven
      cases driven
    | kept =>
      cases driven
      exact ⟨.refl done.fitting, fun _ brought => brought⟩
    | flushed =>
      cases driven
      exact ⟨done.fitting.flushed creates, fun _ brought => .inr (brought.flushed creates done.fitting)⟩
  | raised error leftover => cases driven
  | raisedLate error leftover => cases driven

end Transaction

/-! ## The phases of a thread -/

/-- Where a thread stands; the number is how many calls of the driver follow. With `none` the exception of a
migration propagates. -/
inductive BootPhase where
  | checking (count : ℕ)
  | acquiring (count : ℕ)
  | rechecking (count : ℕ)
  | connecting (count : ℕ)
  | executing (count : ℕ) (statement : Str) (rest : List Str)
  | committing (count : ℕ)
  | marking (count : ℕ)
  | releasing (count : Option ℕ)
  | serving (count : ℕ)
  | ended

namespace BootPhase

/-- The phase after the statements before these. -/
def proceed (count : ℕ) : List Str → BootPhase
  | [] => .committing count
  | statement :: rest => .executing count statement rest

/-- The calls of a thread. -/
def step (statements : List Str) : Machine BootOp BootOp.Reply Exc BootPhase
  | .checking count => some ⟨.migrated, fun reply => match reply with
    | .ok true => .serving count
    | .ok false => .acquiring count
    | .error _ => .ended⟩
  | .acquiring count => some ⟨.acquire, fun reply => match reply with
    | .ok _ => .rechecking count
    | .error _ => .ended⟩
  | .rechecking count => some ⟨.migrated, fun reply => match reply with
    | .ok true => .releasing (some count)
    | .ok false => .connecting count
    | .error _ => .releasing none⟩
  | .connecting count => some ⟨.connect, fun reply => match reply with
    | .ok _ => proceed count statements
    | .error _ => .releasing none⟩
  | .executing count statement rest => some ⟨.execute statement, fun reply => match reply with
    | .ok _ => proceed count rest
    | .error _ => .releasing none⟩
  | .committing count => some ⟨.commit, fun reply => match reply with
    | .ok _ => .marking count
    | .error _ => .releasing none⟩
  | .marking count => some ⟨.setMigrated, fun reply => match reply with
    | .ok _ => .releasing (some count)
    | .error _ => .releasing none⟩
  | .releasing result => some ⟨.release, fun reply => match reply, result with
    | .ok _, some count => .serving count
    | _, _ => .ended⟩
  | .serving (count + 1) => some ⟨.request, fun _ => .serving count⟩
  | .serving 0 | .ended => none

/-- Whether the thread holds the lock. -/
def isInside : BootPhase → Bool
  | .rechecking _ | .connecting _ | .executing .. | .committing _ | .marking _ | .releasing _ => true
  | _ => false

/-- What a thread relies on: a migration runs while the flag is not set, its statements so far have been brought,
and whoever has seen the flag or set it has a complete database. -/
def Owes (statements : List Str) (flag : Bool) (state : Schema × List Str) : BootPhase → Prop
  | .connecting _ => flag = false
  | .executing _ statement rest => flag = false ∧ (∀ later ∈ statement :: rest, later ∈ statements) ∧
      ∀ earlier ∈ statements, earlier ∈ statement :: rest ∨ Brought state earlier
  | .committing _ => flag = false ∧ ∀ statement ∈ statements, Brought state statement
  | .marking _ => flag = false ∧ state.1.Complete statements
  | .releasing (some _) | .serving _ => state.1.Complete statements
  | _ => True

end BootPhase

section Tracks

variable {statements : List Str}

open BootPhase in
theorem requests_tracks (count : ℕ) :
    (Db.requests count).Tracks (step statements) (fun _ phase => step statements phase = none) (.serving count) := by
  induction count with
  | zero => rfl
  | succ count ih => exact ⟨_, rfl, fun reply => by cases reply <;> exact ih⟩

open BootPhase in
theorem executeAll_tracks (count : ℕ) (rest : List Str) :
    (Db.executeAll rest).Tracks (step statements) (Ends (fun _ => .committing count) fun _ => .releasing none)
      (proceed count rest) := by
  induction rest with
  | nil => rfl
  | cons statement rest ih => exact .perform_bind rfl (fun _ => rfl) fun _ => ih

open BootPhase in
theorem migrateLocked_tracks (count : ℕ) :
    (Db.migrateLocked statements).Tracks (step statements)
      (Ends (fun _ => .releasing (some count)) fun _ => .releasing none) (.rechecking count) := by
  apply Tracks.perform_bind rfl (fun _ => rfl)
  intro migrated
  cases migrated with
  | true => rfl
  | false =>
    apply Tracks.perform_bind rfl (fun _ => rfl)
    intro _
    apply (executeAll_tracks count statements).bind
    · rintro _ _ rfl
      apply Tracks.perform_bind rfl (fun _ => rfl)
      intro _
      exact .perform rfl fun reply => by cases reply <;> rfl
    · rintro _ _ rfl
      rfl

open BootPhase in
theorem migrate_tracks (count : ℕ) :
    (Db.migrate statements).Tracks (step statements) (Ends (fun _ => .serving count) fun _ => .ended)
      (.acquiring count) := by
  apply Tracks.perform_bind rfl (fun _ => rfl)
  intro _
  apply (migrateLocked_tracks count).attempt_bind
  intro result phase ends
  cases result with
  | ok =>
    cases ends
    exact .perform_bind rfl (fun _ => rfl) fun _ => rfl
  | error error =>
    cases ends
    exact .perform_bind rfl (fun _ => rfl) fun _ => rfl

open BootPhase in
/-- A thread goes through the phases. -/
theorem BootJob.tracks (job : BootJob) (statements : List Str) : ∃ phase, phase.isInside = false ∧
    (∀ flag state, phase.Owes statements flag state) ∧
    (job.program statements).Tracks (step statements) (fun _ phase => step statements phase = none) phase := by
  cases job with
  | boot =>
    refine ⟨.acquiring 0, rfl, fun _ _ => trivial, (migrate_tracks 0).weaken ?_⟩
    rintro (_ | _) _ rfl <;> rfl
  | serve count =>
    refine ⟨.checking count, rfl, fun _ _ => trivial, ?_⟩
    have ready : (Db.ensureReady statements).Tracks (step statements)
        (Ends (fun _ => .serving count) fun _ => .ended) (.checking count) := by
      apply Tracks.perform_bind rfl (fun _ => rfl)
      intro migrated
      cases migrated with
      | true => rfl
      | false => exact migrate_tracks count
    apply ready.bind
    · rintro _ _ rfl
      exact requests_tracks count
    · rintro _ _ rfl
      rfl

end Tracks

/-! ## Every state of the processes -/

theorem update_update_apply {α : Type} (table : ℕ → ℕ → α) (process thread : ℕ) (value : α) (other second : ℕ) :
    Function.update table process (Function.update (table process) thread value) other second =
      if other = process ∧ second = thread then value else table other second := by
  by_cases same : other = process
  · subst same
    by_cases equal : second = thread
    · simp [equal]
    · simp [equal]
  · simp [same]

theorem BootPhase.Owes.later {statements : List Str} {flag after : Bool} {schema grown : Schema} {pending : List Str}
    {phase : BootPhase} (owes : phase.Owes statements flag (schema, pending))
    (has : ∀ statement, schema.Has statement → grown.Has statement) (same : phase.isInside = true → after = flag) :
    phase.Owes statements after (grown, pending) := by
  cases phase with
  | checking | acquiring | rechecking | ended => trivial
  | connecting => exact (same rfl).trans owes
  | executing =>
    obtain ⟨unset, members, brought⟩ := owes
    refine ⟨(same rfl).trans unset, members, fun earlier inside => ?_⟩
    exact (brought earlier inside).imp_right (.imp_right (has _))
  | committing =>
    obtain ⟨unset, brought⟩ := owes
    exact ⟨(same rfl).trans unset, fun statement inside => (brought statement inside).imp_right (has _)⟩
  | marking =>
    obtain ⟨unset, complete⟩ := owes
    exact ⟨(same rfl).trans unset, fun statement inside => has _ (complete statement inside)⟩
  | releasing result =>
    cases result with
    | none => trivial
    | some count => exact fun statement inside => has _ (owes statement inside)
  | serving => exact fun statement inside => has _ (owes statement inside)

theorem BootPhase.owes_proceed {statements rest : List Str} {state : Schema × List Str} {flag : Bool} (count : ℕ)
    (unset : flag = false) (members : ∀ statement ∈ rest, statement ∈ statements)
    (brought : ∀ statement ∈ statements, statement ∈ rest ∨ Brought state statement) :
    (proceed count rest).Owes statements flag state := by
  cases rest with
  | nil => exact ⟨unset, fun statement inside => (brought statement inside).resolve_left (List.not_mem_nil)⟩
  | cons => exact ⟨unset, members, brought⟩

theorem BootPhase.isInside_proceed (count : ℕ) (rest : List Str) : (proceed count rest).isInside = true := by
  cases rest <;> rfl

namespace Site

variable {statements : List Str} {site after : Site} {phases : ℕ → ℕ → BootPhase} {process thread : ℕ}

/-- The threads go through their phases, the lock is with the thread that is inside, and every thread finds what it
relies on. -/
structure Orderly (statements : List Str) (site : Site) (phases : ℕ → ℕ → BootPhase) : Prop where
  tracks : ∀ process thread, (site.thread process thread).program.Tracks (BootPhase.step statements)
    (fun _ phase => BootPhase.step statements phase = none) (phases process thread)
  fitting : ∀ process thread, Fitting statements (site.schema, (site.thread process thread).pending)
  ready : ∀ process, site.migrated process = true → site.schema.Complete statements
  inside : ∀ process thread, (phases process thread).isInside = true ↔ site.holder process = some thread
  owes : ∀ process thread, (phases process thread).Owes statements (site.migrated process)
    (site.schema, (site.thread process thread).pending)

/-- The threads are in phases that fit. -/
def IsOrderly (statements : List Str) (site : Site) : Prop := ∃ phases, site.Orderly statements phases

/-- One thread moves on. -/
theorem Orderly.moved (orderly : site.Orderly statements phases) {value : BootThread} {phase : BootPhase}
    (threads : after.thread =
      Function.update site.thread process (Function.update (site.thread process) thread value))
    (tracks : value.program.Tracks (BootPhase.step statements)
      (fun _ phase => BootPhase.step statements phase = none) phase)
    (grows : Grows statements (site.schema, (site.thread process thread).pending) (after.schema, value.pending))
    (elsewhere : ∀ other, other ≠ process →
      after.migrated other = site.migrated other ∧ after.holder other = site.holder other)
    (ready : after.migrated process = true → after.schema.Complete statements)
    (spares : ∀ other, other ≠ thread → site.holder process = some other →
      after.migrated process = site.migrated process)
    (own : phase.isInside = true ↔ after.holder process = some thread)
    (others : ∀ other, other ≠ thread → (after.holder process = some other ↔ site.holder process = some other))
    (owes : phase.Owes statements (after.migrated process) (after.schema, value.pending)) :
    after.Orderly statements (Function.update phases process (Function.update (phases process) thread phase)) := by
  constructor
  · intro other second
    rw [threads, update_update_apply, update_update_apply]
    split_ifs with same
    · exact tracks
    · exact orderly.tracks other second
  · intro other second
    rw [threads, update_update_apply]
    split_ifs with same
    · exact grows.fitting
    · exact ⟨grows.fitting.agrees, (orderly.fitting other second).members⟩
  · intro other marked
    by_cases same : other = process
    · subst same
      exact ready marked
    · rw [(elsewhere other same).1] at marked
      exact fun statement member => grows.has statement (orderly.ready other marked statement member)
  · intro other second
    rw [update_update_apply]
    by_cases same : other = process
    · subst same
      by_cases equal : second = thread
      · subst equal
        rw [if_pos ⟨rfl, rfl⟩]
        exact own
      · rw [if_neg fun both => equal both.2, others second equal]
        exact orderly.inside other second
    · rw [if_neg fun both => same both.1, (elsewhere other same).2]
      exact orderly.inside other second
  · intro other second
    rw [threads, update_update_apply, update_update_apply]
    split_ifs with same
    · obtain ⟨rfl, rfl⟩ := same
      exact owes
    · apply (orderly.owes other second).later grows.has
      intro inside
      by_cases equal : other = process
      · subst equal
        exact spares second (fun both => same ⟨rfl, both⟩) ((orderly.inside other second).mp inside)
      · exact (elsewhere other equal).1

/-- A call in the process that leaves the lock where it is. -/
theorem Orderly.stays (orderly : site.Orderly statements phases) {program : BootProg Unit} {phase : BootPhase}
    (tracks : program.Tracks (BootPhase.step statements) (fun _ phase => BootPhase.step statements phase = none) phase)
    (same : phase.isInside = (phases process thread).isInside)
    (owes : phase.Owes statements (site.migrated process)
      (site.schema, (site.thread process thread).pending)) :
    (site.setThread process thread { site.thread process thread with program }).Orderly statements
      (Function.update phases process (Function.update (phases process) thread phase)) := by
  refine orderly.moved rfl tracks (.refl (orderly.fitting process thread)) (fun _ _ => ⟨rfl, rfl⟩)
    (orderly.ready process) (fun _ _ _ => rfl) ?_ (fun _ _ => Iff.rfl) owes
  rw [same]
  exact orderly.inside process thread

/-- A call of the driver. -/
theorem Orderly.driven (creates : Creates statements) (orderly : site.Orderly statements phases) {op : BootOp}
    {rest : Except Exc Unit → BootProg Unit} {onward : Except Exc Unit → BootPhase} {fate : BootFate}
    (called : site.driven process thread op rest fate = some after) (fits : op.Fits statements)
    (follows : ∀ reply, (rest reply).Tracks (BootPhase.step statements)
      (fun _ phase => BootPhase.step statements phase = none) (onward reply))
    (same : ∀ reply, (onward reply).isInside = (phases process thread).isInside)
    (owes : ∀ reply later, drive op (site.schema, (site.thread process thread).pending) fate = some (reply, later) →
      Grows statements (site.schema, (site.thread process thread).pending) later →
      (onward reply).Owes statements (site.migrated process) later) :
    after.IsOrderly statements := by
  obtain ⟨⟨reply, schema, pending⟩, drove, moved⟩ := Option.map_eq_some_iff.mp called
  have grows := (orderly.fitting process thread).drive creates fits drove
  subst moved
  refine ⟨_, orderly.moved rfl (follows reply) grows (fun _ _ => ⟨rfl, rfl⟩) ?_
    (fun _ _ _ => rfl) ?_ (fun _ _ => Iff.rfl) (owes reply _ drove grows)⟩
  · exact fun marked statement member => grows.has statement (orderly.ready process marked statement member)
  · rw [same]
    exact orderly.inside process thread

/-- A thread takes the lock, which nobody holds. -/
theorem Orderly.acquired (orderly : site.Orderly statements phases) {program : BootProg Unit} {count : ℕ}
    (free : site.holder process = none)
    (tracks : program.Tracks (BootPhase.step statements)
      (fun _ phase => BootPhase.step statements phase = none) (.rechecking count)) :
    ({ site with holder := Function.update site.holder process (some thread) }.setThread process thread
      { site.thread process thread with program }).IsOrderly statements := by
  refine ⟨_, orderly.moved rfl tracks (.refl (orderly.fitting process thread)) ?_ (orderly.ready process)
    (fun _ _ _ => rfl) ?_ ?_ trivial⟩
  · exact fun other differs => ⟨rfl, Function.update_of_ne differs ..⟩
  · simp [setThread, BootPhase.isInside]
  · intro other differs
    simp [setThread, free, Ne.symm differs]

/-- The thread that is inside gives the lock back, and goes on if its migration has not failed. -/
theorem Orderly.released (orderly : site.Orderly statements phases) {program : BootProg Unit} {phase : BootPhase}
    (holds : site.holder process = some thread)
    (tracks : program.Tracks (BootPhase.step statements) (fun _ phase => BootPhase.step statements phase = none) phase)
    (outside : phase.isInside = false)
    (owes : phase.Owes statements (site.migrated process)
      (site.schema, (site.thread process thread).pending)) :
    ({ site with holder := Function.update site.holder process none }.setThread process thread
      { site.thread process thread with program }).IsOrderly statements := by
  refine ⟨_, orderly.moved rfl tracks (.refl (orderly.fitting process thread)) ?_ (orderly.ready process)
    (fun _ _ _ => rfl) ?_ ?_ owes⟩
  · exact fun other differs => ⟨rfl, Function.update_of_ne differs ..⟩
  · simp [setThread, outside]
  · intro other differs
    simp [setThread, holds, Ne.symm differs]

/-- The thread that is inside sets the flag once the database is complete. -/
theorem Orderly.marked (orderly : site.Orderly statements phases) {program : BootProg Unit} {count : ℕ}
    (holds : site.holder process = some thread) (complete : site.schema.Complete statements)
    (tracks : program.Tracks (BootPhase.step statements)
      (fun _ phase => BootPhase.step statements phase = none) (.releasing (some count))) :
    ({ site with migrated := Function.update site.migrated process true }.setThread process thread
      { site.thread process thread with program }).IsOrderly statements := by
  refine ⟨_, orderly.moved rfl tracks (.refl (orderly.fitting process thread)) ?_ (fun _ => complete) ?_
    (iff_of_true rfl holds) (fun _ _ => Iff.rfl) complete⟩
  · exact fun other differs => ⟨Function.update_of_ne differs .., rfl⟩
  · intro other differs held
    cases holds.symm.trans held
    exact absurd rfl differs

theorem Orderly.call (creates : Creates statements) (orderly : site.Orderly statements phases) {fate : BootFate}
    (called : site.call process thread fate = some after) : after.IsOrderly statements := by
  have tracks := orderly.tracks process thread
  have owes := orderly.owes process thread
  have inside := orderly.inside process thread
  have fitting := orderly.fitting process thread
  have stays := @Orderly.stays statements site phases process thread orderly
  have driven := @Orderly.driven statements site after phases process thread creates orderly
  cases program : (site.thread process thread).program with
  | pure | raise => simp [Site.call, program] at called
  | call op rest =>
    rw [program] at tracks
    obtain ⟨onward, moves, follows⟩ := tracks
    cases phase : phases process thread with
    | ended =>
      rw [phase] at moves
      cases moves
    | checking count =>
      rw [phase] at moves stays
      cases moves
      simp only [Site.call, program, Option.some.injEq] at called
      subst called
      refine ⟨_, stays (follows _) ?_ ?_⟩
      · cases site.migrated process <;> rfl
      · cases marked : site.migrated process with
        | true => exact orderly.ready process marked
        | false => trivial
    | rechecking count =>
      rw [phase] at moves stays
      cases moves
      simp only [Site.call, program, Option.some.injEq] at called
      subst called
      refine ⟨_, stays (follows _) ?_ ?_⟩
      · cases site.migrated process <;> rfl
      · cases marked : site.migrated process with
        | true => exact orderly.ready process marked
        | false => rfl
    | acquiring count =>
      rw [phase] at moves
      cases moves
      simp only [Site.call, program] at called
      split_ifs at called with free
      cases called
      exact orderly.acquired free (follows _)
    | releasing result =>
      rw [phase] at moves owes inside
      cases moves
      simp only [Site.call, program, Option.some.injEq] at called
      subst called
      apply orderly.released (inside.mp rfl) (follows _)
      · cases result <;> rfl
      · cases result with
        | none => trivial
        | some count => exact owes
    | marking count =>
      rw [phase] at moves owes inside
      cases moves
      simp only [Site.call, program, Option.some.injEq] at called
      subst called
      exact orderly.marked (inside.mp rfl) owes.2 (follows _)
    | connecting count =>
      rw [phase] at moves owes driven
      cases moves
      simp only [Site.call, program] at called
      refine driven called trivial follows ?_ ?_
      · rintro (_ | _)
        · rfl
        · exact BootPhase.isInside_proceed ..
      · rintro (_ | _) later _ _
        · trivial
        · exact BootPhase.owes_proceed count owes (fun _ member => member) fun _ member => .inl member
    | executing count statement remaining =>
      rw [phase] at moves owes driven
      cases moves
      simp only [Site.call, program] at called
      obtain ⟨unset, members, brought⟩ := owes
      have fits : (BootOp.execute statement).Fits statements := members statement (List.mem_cons_self ..)
      refine driven called fits follows ?_ ?_
      · rintro (_ | _)
        · rfl
        · exact BootPhase.isInside_proceed ..
      · rintro (_ | _) later drove _
        · trivial
        · obtain ⟨_, kept⟩ := fitting.returned creates fits (by rintro ⟨⟩) drove
          refine BootPhase.owes_proceed count unset (fun _ member => members _ (List.mem_cons_of_mem _ member)) ?_
          intro earlier member
          rcases brought earlier member with waits | before
          · cases waits with
            | head => exact .inr (kept _ (.inl (List.mem_append_right _ (List.mem_singleton_self _))))
            | tail _ waits => exact .inl waits
          · exact .inr (kept _ (before.imp_left (List.mem_append_left _)))
    | committing count =>
      rw [phase] at moves owes driven
      cases moves
      simp only [Site.call, program] at called
      obtain ⟨unset, brought⟩ := owes
      have fits : BootOp.commit.Fits statements := trivial
      refine driven called fits follows ?_ ?_
      · rintro (_ | _) <;> rfl
      · rintro (_ | _) later drove _
        · trivial
        · obtain ⟨done, _⟩ := fitting.returned creates fits (by rintro ⟨⟩) drove
          exact ⟨unset, fun statement member => done.has _ ((brought statement member).flushed creates fitting)⟩
    | serving count =>
      rw [phase] at moves owes driven
      cases count with
      | zero => cases moves
      | succ count =>
        cases moves
        simp only [Site.call, program] at called
        refine driven called trivial follows (fun _ => rfl) ?_
        exact fun _ _ _ grows statement member => grows.has statement (owes statement member)

/-- With a process its flag, its lock and its threads are gone. -/
theorem Orderly.died (orderly : site.Orderly statements phases) (process : ℕ) :
    IsOrderly statements { site with
      migrated := Function.update site.migrated process false
      holder := Function.update site.holder process none
      thread := Function.update site.thread process fun _ => {} } := by
  refine ⟨Function.update phases process fun _ => .ended, ?_⟩
  constructor
  · intro other second
    by_cases same : other = process
    · subst same
      simp only [Function.update_self]
      rfl
    · simp only [Function.update_of_ne same]
      exact orderly.tracks other second
  · intro other second
    by_cases same : other = process
    · subst same
      simp only [Function.update_self]
      exact ⟨(orderly.fitting other second).agrees, by rintro _ ⟨⟩⟩
    · simp only [Function.update_of_ne same]
      exact orderly.fitting other second
  · intro other marked
    by_cases same : other = process
    · subst same
      simp only [Function.update_self, Bool.false_eq_true] at marked
    · simp only [Function.update_of_ne same] at marked
      exact orderly.ready other marked
  · intro other second
    by_cases same : other = process
    · subst same
      simp [BootPhase.isInside]
    · simp only [Function.update_of_ne same]
      exact orderly.inside other second
  · intro other second
    by_cases same : other = process
    · subst same
      simp only [Function.update_self]
      trivial
    · simp only [Function.update_of_ne same]
      exact orderly.owes other second

theorem Orderly.step (creates : Creates statements) (orderly : site.Orderly statements phases) {move : BootMove}
    (stepped : site.step statements move = some after) : after.IsOrderly statements := by
  cases move with
  | start process thread job =>
    simp only [Site.step] at stepped
    split_ifs at stepped with idle
    cases stepped
    obtain ⟨phase, outside, free, tracks⟩ := job.tracks statements
    have ended := orderly.tracks process thread
    refine ⟨_, orderly.stays tracks ?_ (free _ _)⟩
    rw [outside]
    have still := (Tracks.isDone_eq ended).symm.trans idle
    cases phase : phases process thread with
    | ended | checking | acquiring | serving => rfl
    | rechecking | connecting | executing | committing | marking | releasing =>
      rw [phase] at still
      cases still
  | call process thread fate => exact orderly.call creates stepped
  | die process =>
    cases stepped
    exact orderly.died process

theorem orderly_initial {schema : Schema} (agrees : schema.Agrees statements) :
    (initial schema).Orderly statements fun _ _ => .ended where
  tracks _ _ := rfl
  fitting _ _ := ⟨agrees, by rintro _ ⟨⟩⟩
  ready := by rintro _ ⟨⟩
  inside _ _ := by simp [initial, BootPhase.isInside]
  owes _ _ := trivial

theorem isOrderly_of_reaches (creates : Creates statements) {schema : Schema} (agrees : schema.Agrees statements)
    (reached : Reaches (step statements) (fun _ _ => True) (initial schema) site) : site.IsOrderly statements := by
  have start : (initial schema).IsOrderly statements := ⟨_, orderly_initial agrees⟩
  apply reached.invariant start
  rintro state move next ⟨phases, orderly⟩ _ stepped
  exact orderly.step creates stepped

/-- The phase says what the next call is. -/
theorem Orderly.next_eq (orderly : site.Orderly statements phases) (process thread : ℕ) :
    site.next process thread = (BootPhase.step statements (phases process thread)).map Sigma.fst := by
  have tracks := orderly.tracks process thread
  unfold Site.next
  cases program : (site.thread process thread).program with
  | pure | raise =>
    rw [program] at tracks
    exact (congrArg (Option.map Sigma.fst) tracks).symm
  | call op rest =>
    rw [program] at tracks
    obtain ⟨onward, moves, _⟩ := tracks
    rw [moves]
    rfl

theorem Orderly.complete_of_request (orderly : site.Orderly statements phases)
    (asks : site.next process thread = some .request) : site.schema.Complete statements := by
  have owes := orderly.owes process thread
  rw [orderly.next_eq] at asks
  cases phase : phases process thread with
  | serving count =>
    rw [phase] at owes
    exact owes
  | checking | acquiring | rechecking | connecting | executing | committing | marking | releasing | ended =>
    rw [phase] at asks
    cases asks

theorem Orderly.holder_of_isGuarded (orderly : site.Orderly statements phases) {op : BootOp}
    (found : site.next process thread = some op) (guarded : op.isGuarded = true) :
    site.holder process = some thread := by
  apply (orderly.inside process thread).mp
  rw [orderly.next_eq] at found
  cases phase : phases process thread with
  | rechecking | connecting | executing | committing | marking | releasing => rfl
  | checking | acquiring =>
    rw [phase] at found
    cases found
    cases guarded
  | serving count =>
    rw [phase] at found
    cases count with
    | zero => cases found
    | succ count =>
      cases found
      cases guarded
  | ended =>
    rw [phase] at found
    cases found

theorem Orderly.not_isMigration (orderly : site.Orderly statements phases) {op : BootOp}
    (marked : site.migrated process = true) (found : site.next process thread = some op) :
    op.isMigration = false := by
  have owes := orderly.owes process thread
  rw [orderly.next_eq] at found
  cases phase : phases process thread with
  | connecting =>
    rw [phase] at owes
    cases marked.symm.trans owes
  | executing | committing | marking =>
    rw [phase] at owes
    cases marked.symm.trans owes.1
  | checking | acquiring | rechecking | releasing =>
    rw [phase] at found
    cases found
    rfl
  | serving count =>
    rw [phase] at found
    cases count with
    | zero => cases found
    | succ count =>
      cases found
      rfl
  | ended =>
    rw [phase] at found
    cases found

theorem drive_kept (op : BootOp) (state : Schema × List Str) :
    drive op state (.returned .kept) = some (.ok (), op.effect state) := rfl

/-- Whoever holds the lock does not wait for it. -/
theorem Orderly.call_of_holder (orderly : site.Orderly statements phases) (holds : site.holder process = some thread) :
    (site.call process thread (.returned .kept)).isSome = true := by
  have inside := (orderly.inside process thread).mpr holds
  have tracks := orderly.tracks process thread
  cases phase : phases process thread with
  | checking | acquiring | serving | ended =>
    rw [phase] at inside
    cases inside
  | rechecking | connecting | executing | committing | marking | releasing =>
    rw [phase] at tracks
    obtain ⟨rest, program⟩ := tracks.call_of_move rfl
    simp [Site.call, program, Site.driven, drive_kept]

/-- In every state that processes, failures and deaths lead to from a database in which the objects of the migrations
are absent or as the migrations create them: a thread that is about to use the database finds every one of them; at
most one thread of a process is in the guarded part of `migrate`, and none is when the flag is set; and whoever holds
the lock can go on. -/
theorem startup_safe (creates : Creates statements) {schema : Schema} (agrees : schema.Agrees statements)
    (reached : Reaches (step statements) (fun _ _ => True) (initial schema) site) (process thread : ℕ) :
    (site.next process thread = some .request → site.schema.Complete statements) ∧
      (∀ other first second, site.next process thread = some first → site.next process other = some second →
        first.isGuarded = true → second.isGuarded = true → thread = other) ∧
      (∀ op, site.migrated process = true → site.next process thread = some op → op.isMigration = false) ∧
      (site.holder process = some thread → (site.call process thread (.returned .kept)).isSome = true) := by
  obtain ⟨phases, orderly⟩ := isOrderly_of_reaches creates agrees reached
  refine ⟨orderly.complete_of_request, ?_, fun _ => orderly.not_isMigration, orderly.call_of_holder⟩
  intro other first second one two guarded also
  have here := orderly.holder_of_isGuarded one guarded
  have there := orderly.holder_of_isGuarded two also
  exact Option.some.inj (here.symm.trans there)

/-- Two migrations and a file that is none. -/
def sampleMigrations : List (Str × Str) := [
  (lit "002_jobs.sql", lit "CREATE TABLE IF NOT EXISTS jobs (a); -- a; b"),
  (lit "README", lit "none"),
  (lit "001_init.sql", lit "CREATE TABLE IF NOT EXISTS documents (a);\nCREATE INDEX IF NOT EXISTS i\nON documents(a);")]

/-- Two processes start. In the first the migration fails at its first commit, the next thread takes it up, and when
that has come through the other process dies. -/
def sampleStart : List BootMove :=
  let calls (process thread count : ℕ) : List BootMove :=
    List.replicate count (.call process thread (.returned .kept))
  [.start 0 0 .boot, .start 0 1 (.serve 1), .start 1 0 .boot] ++ calls 0 1 1 ++ calls 0 0 6 ++ calls 1 0 5 ++
    [.call 0 0 (.raised { name := lit "ValueError", text := lit "stream not found" } .dropped)] ++ calls 0 0 1 ++
    calls 0 1 9 ++ [.die 1]

theorem startup_safe_of_failed_commit : ∃ site,
    Reaches (step (Db.migrationStatements sampleMigrations)) (fun _ _ => True) (initial fun _ => none) site ∧
    site.next 0 1 = some .request ∧ site.schema.Complete (Db.migrationStatements sampleMigrations) := by
  have creates : Creates (Db.migrationStatements sampleMigrations) := by
    apply creates_of_nodup
    · exact List.all_eq_true.mp (by decide +kernel)
    · decide +kernel
  have leads : Leads (step (Db.migrationStatements sampleMigrations)) (fun _ _ => True)
      (fun site => site.next 0 1 = some .request) (initial fun _ => none) sampleStart := by
    decide +kernel
  obtain ⟨site, reached, asks⟩ := leads.exists_reaches
  exact ⟨site, reached, asks, (startup_safe creates (by rintro _ _ ⟨⟩) reached 0 1).1 asks⟩

end Site

end MarkitdownServer
