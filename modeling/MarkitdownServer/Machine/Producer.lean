import MarkitdownServer.Machine.Handler
import MarkitdownServer.Model.Api

/-! # The control machine of a producer

The places in `submit` between two of its calls, with the downloaded file, the planned ranges and the job
id as far as they are known there.
-/

namespace MarkitdownServer.Producer

open Effects Effects.Program

/-- Where `submit` stands. -/
inductive Phase where
  | downloading
  | consulting (file : Bytes)
  | fetchingManifest (file : Bytes)
  | fetchingPage (file : Bytes)
  | probing (file : Bytes) (ranges : List (ℤ × ℤ))
  | uploading (file : Bytes) (ranges : List (ℤ × ℤ))
  | drawing (file : Bytes) (ranges : List (ℤ × ℤ))
  | creating (file : Bytes) (ranges : List (ℤ × ℤ)) (jobId : Str)
  | publishing (file : Bytes) (ranges : List (ℤ × ℤ)) (jobId : Str) (sending : Sending)
  | returned
  | escaped

variable (env : Env) (url : Str) (useLlm : Bool)

/-- The key of the document of a file. -/
abbrev docKey (file : Bytes) : Str := env.makeDocKey (env.sha256 file) useLlm

/-- The page ranges of a file. -/
abbrev plan (file : Bytes) : Except Exc (List (ℤ × ℤ)) :=
  planChunks (env.pageCount file) env.pagesPerChunk env.minPagesForParallel

/-- The tasks of a new job. -/
def tasks (file : Bytes) (ranges : List (ℤ × ℤ)) (jobId : Str) : List ChunkTask :=
  Api.tasksFrom jobId (docKey env useLlm file) (env.sha256 file) ranges.length useLlm 0 ranges

/-- A cache miss: plan, and look for the source. -/
def miss (file : Bytes) : Phase :=
  match plan env file with
  | .ok ranges => .probing file ranges
  | .error _ => .escaped

/-- The call made in each phase and the phase after each reply. -/
def step : Machine Op Op.Reply Exc Phase
  | .downloading => some ⟨.tool (.download url), fun
      | .ok file => .consulting file
      | .error _ => .escaped⟩
  | .consulting file => some ⟨.db (.findCachedDocument (docKey env useLlm file)), fun
      | .ok (some _) => .fetchingManifest file
      | .ok none => miss env file
      | .error _ => .escaped⟩
  | .fetchingManifest file => some ⟨.s3 (.getObject (manifestKey (docKey env useLlm file))), fun
      | .ok none => miss env file
      | .ok (some (.manifest _)) => .fetchingPage file
      | .ok (some _) => .escaped
      | .error _ => .escaped⟩
  | .fetchingPage file => some ⟨.s3 (.getObject (pageKey (docKey env useLlm file) 1)), fun
      | .ok none => miss env file
      | .ok (some (.text _)) => .returned
      | .ok (some _) => .escaped
      | .error _ => .escaped⟩
  | .probing file ranges => some ⟨.s3 (.headObject (sourceKey (env.sha256 file))), fun
      | .ok found => if found then .drawing file ranges else .uploading file ranges
      | .error error => if error.isClientError then .uploading file ranges else .escaped⟩
  | .uploading file ranges => some ⟨.s3 (.putObject (sourceKey (env.sha256 file)) (.source file)), fun
      | .ok _ => .drawing file ranges
      | .error _ => .escaped⟩
  | .drawing file ranges => some ⟨.tool .newJobId, fun
      | .ok jobId => .creating file ranges jobId
      | .error _ => .escaped⟩
  | .creating file ranges jobId =>
    some ⟨.db (.createJob jobId (docKey env useLlm file) (env.sha256 file) url ranges useLlm), fun
      | .ok _ => .publishing file ranges jobId (.opening false)
      | .error _ => .escaped⟩
  | .publishing file ranges jobId sending => some (sending.step env.rabbitmqExchange env.rabbitmqQueue
      ((tasks env useLlm file ranges jobId).map .task) (.publishing file ranges jobId) .returned fun _ => .escaped)
  | .returned | .escaped => none

variable {env url useLlm}

private theorem putSource_tracks (file : Bytes) (ranges : List (ℤ × ℤ)) :
    (Storage.putSource (env.sha256 file) file).Tracks (step env url useLlm)
      (Ends (fun _ => .drawing file ranges) fun _ => .escaped) (.probing file ranges) := by
  have exists_tracks : (Storage.objectExists (sourceKey (env.sha256 file))).Tracks (step env url useLlm)
      (Ends (fun found => if found then .drawing file ranges else .uploading file ranges) fun _ => .escaped)
      (.probing file ranges) := by
    refine Tracks.attempt_bind (R := Ends
      (fun found => if found then Phase.drawing file ranges else Phase.uploading file ranges)
      fun error => if error.isClientError then Phase.uploading file ranges else Phase.escaped) (Tracks.perform rfl ?_) ?_
    · rintro (error | found) <;> rfl
    · rintro (error | found) phase rfl
      · dsimp only
        split
        · rfl
        · rfl
      · rfl
  refine Tracks.bind exists_tracks ?_ fun _ _ at_ => at_
  rintro (_ | _) phase rfl
  · exact Tracks.perform_bind rfl (fun _ => rfl) fun _ => rfl
  · rfl

private theorem enqueue_tracks (file : Bytes) :
    (Api.enqueue env url useLlm file).Tracks (step env url useLlm)
      (fun _ phase => step env url useLlm phase = none) (miss env file) := by
  unfold Api.enqueue miss plan
  cases planChunks (env.pageCount file) env.pagesPerChunk env.minPagesForParallel with
  | error error => rfl
  | ok ranges =>
    simp only [Program.ofExcept, monad_bind, pure_bind]
    refine Tracks.bind (putSource_tracks file ranges) ?_ ?_
    · rintro _ phase rfl
      refine Tracks.perform_bind rfl (fun _ => rfl) fun jobId => ?_
      refine Tracks.perform_bind rfl (fun _ => rfl) fun _ => ?_
      refine Tracks.bind (Sending.publishBodies_tracks fun sending => rfl) ?_ ?_
      · rintro _ phase rfl
        rfl
      · rintro _ phase rfl
        rfl
    · rintro _ phase rfl
      rfl

private theorem cachedPayload_tracks (file : Bytes) :
    (Api.cachedPayload (docKey env useLlm file)).Tracks (step env url useLlm)
      (Ends (fun found => found.elim (miss env file) fun _ => .returned) fun _ => .escaped)
      (.consulting file) := by
  refine Tracks.perform_bind rfl (fun _ => rfl) ?_
  rintro (_ | row)
  · rfl
  refine Tracks.bind (R := Ends (fun found => found.elim (miss env file) fun _ => .fetchingPage file) fun _ => Phase.escaped)
    (Tracks.perform_bind rfl (fun _ => rfl) ?_) ?_ fun _ _ at_ => at_
  · rintro (_ | ⟨_ | _ | _⟩) <;> rfl
  · rintro (_ | manifest) phase rfl
    · rfl
    refine Tracks.bind (R := Ends (fun found => found.elim (miss env file) fun _ => .returned) fun _ => Phase.escaped)
      (Tracks.perform_bind rfl (fun _ => rfl) ?_) ?_ fun _ _ at_ => at_
    · rintro (_ | ⟨_ | _ | _⟩) <;> rfl
    · rintro (_ | content) phase rfl <;> rfl

/-- A producer makes the calls of the machine and ends where the machine ends. -/
theorem submit_tracks :
    (Api.submit env url useLlm).Tracks (step env url useLlm)
      (fun _ phase => step env url useLlm phase = none) .downloading := by
  refine Tracks.perform_bind rfl (fun _ => rfl) fun file => ?_
  refine Tracks.bind (cachedPayload_tracks file) ?_ ?_
  · rintro (_ | payload) phase rfl
    · exact enqueue_tracks file
    · rfl
  · rintro _ phase rfl
    rfl

end MarkitdownServer.Producer
