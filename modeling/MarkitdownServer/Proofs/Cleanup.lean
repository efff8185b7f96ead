import MarkitdownServer.Model.Deployment
import MarkitdownServer.Proofs.Download

/-! # The producer leaves no file behind

The steps of `submit` that use the downloaded file only read it, so the `finally` finds it as it was and removing it
restores the folder. The steps after it do not touch the folder.
-/

namespace MarkitdownServer

open Effects Effects.Program Files Relational

variable {Time State : Type}

/-- The calls that leave the temporary folder alone. -/
def LocalOp.isQuiet : LocalOp → Bool
  | .file op => op.isRead
  | .mkstemp _ => false
  | _ => true

/-- The temporary folder is as it was. -/
def SameFolder (before after : LocalWorld Time State) : Prop := after.folder = before.folder

theorem SameFolder.refl (world : LocalWorld Time State) : SameFolder world world := rfl

theorem SameFolder.trans {first second third : LocalWorld Time State} (left : SameFolder first second)
    (right : SameFolder second third) : SameFolder first third :=
  Eq.trans right left

theorem LocalHost.serve_quiet (host : LocalHost Time State) (calls : List (Call LocalOp (LocalOp.Reply Time) Exc))
    (op : LocalOp) (world : LocalWorld Time State) (quiet : op.isQuiet = true) :
    SameFolder world (host.serve calls op world).2 := by
  cases op with
  | get url => rfl
  | service op => rfl
  | mkstemp suffix => cases quiet
  | urlparse url =>
    rw [serve]
    split <;> exact .refl world
  | file op =>
    cases op with
    | read path =>
      rw [serve]
      split
      · exact .refl world
      · exact host.snd_exec_read path
    | _ => cases quiet

/-- A program that makes quiet calls only leaves the temporary folder alone. -/
theorem folder_of_quiet {α : Type} (host : LocalHost Time State) {program : LocalProg Time α}
    (quiet : program.Makes fun op => op.isQuiet = true) (calls : List (Call LocalOp (LocalOp.Reply Time) Exc))
    (world : LocalWorld Time State) : SameFolder world (program.eval host.serve calls world).2.2 :=
  quiet.eval .refl .trans host.serve_quiet calls world

theorem onServices_quiet {α : Type} (program : Prog α) :
    (onServices program : LocalProg Time α).Makes fun op => op.isQuiet = true := by
  induction program with
  | pure value => trivial
  | raise error => trivial
  | call op next ih => exact ⟨rfl, ih⟩

theorem read_quiet (path : FileName) : (onTemp (.read path) : LocalProg Time Bytes).Makes fun op => op.isQuiet = true :=
  Makes.perform rfl

namespace Api

variable (env : Env) (path : FileName) (useLlm : Bool)

theorem putSourceFile_quiet (fileHash : Str) :
    (putSourceFile fileHash path : LocalProg Time Str).Makes fun op => op.isQuiet = true := by
  refine (onServices_quiet _).bind fun found => ?_
  split
  · trivial
  · refine (read_quiet path).bind fun data => Makes.bind (onServices_quiet _) ?_
    exact fun _ => trivial

/-- The `try` of `submit` only reads the file. -/
theorem prepare_quiet : (prepare env path useLlm : LocalProg Time Prepared).Makes fun op => op.isQuiet = true := by
  have hash : (hashFile env path : LocalProg Time Str).Makes fun op => op.isQuiet = true := by
    refine (read_quiet path).bind ?_
    exact fun _ => trivial
  have pages : (pageCount env path : LocalProg Time (Option ℕ)).Makes fun op => op.isQuiet = true := by
    refine (read_quiet path).attempt.bind fun result => ?_
    cases result <;> trivial
  refine hash.bind fun fileHash => (onServices_quiet _).bind fun cached => ?_
  cases cached with
  | some payload => trivial
  | none =>
    refine pages.bind fun count => Makes.bind ?_ fun ranges => (putSourceFile_quiet path fileHash).bind fun _ => trivial
    cases planChunks count env.pagesPerChunk env.minPagesForParallel <;> trivial

end Api

/-- A `finally` that removes a new file restores the folder if the body left the file alone. -/
theorem removeFinally_eval {α : Type} (host : LocalHost Time State) {body : LocalProg Time α} {path : FileName}
    {content : Bytes} {before : Folder FileName Time} (quiet : body.Makes fun op => op.isQuiet = true)
    (fresh : before.find? path = none) (world : LocalWorld Time State)
    (created : world.folder = before.put path content host.now)
    (calls : List (Call LocalOp (LocalOp.Reply Time) Exc)) :
    ∃ seen, (removeFinally path body).eval host.serve calls world =
      ((body.eval host.serve calls world).1, seen, ⟨before, (body.eval host.serve calls world).2.2.state⟩) := by
  have kept : _ = _ := folder_of_quiet host quiet calls world
  rw [removeFinally, monad_bind, eval_bind, eval_attempt]
  generalize body.eval host.serve calls world = run at kept ⊢
  obtain ⟨result, seen, ⟨folder, state⟩⟩ := run
  dsimp only at kept ⊢
  rw [created] at kept
  subst kept
  rw [monad_bind, eval_perform_ok (host.serve_file _ rfl (host.exec_pathExists_put path content host.now))]
  simp only [if_true]
  rw [monad_bind, eval_perform_ok (host.serve_file _ rfl (host.exec_remove_put fresh content host.now))]
  cases result <;> exact ⟨_, rfl⟩

/-- `submit` leaves the temporary folder as it was, however it ends. -/
theorem Api.submitFile_folder (env : Env) {maxBytes : ℤ} (limit : 0 ≤ maxBytes) (url : Str) (useLlm : Bool)
    (host : LocalHost Time State) (world : LocalWorld Time State)
    (calls : List (Call LocalOp (LocalOp.Reply Time) Exc)) :
    SameFolder world ((submitFile env maxBytes url useLlm).eval host.serve calls world).2.2 := by
  rw [submitFile, monad_bind, eval_bind]
  rcases Converter.download_eval host url limit world calls with ⟨error, seen, _, run⟩ | ⟨content, seen, _, run⟩
  · rw [run]
    exact .refl world
  · obtain ⟨later, removal⟩ := removeFinally_eval host (prepare_quiet env (host.temp world.folder) useLlm)
      (host.fresh world.folder) ⟨world.folder.put _ content host.now, world.state⟩ rfl seen
    rw [run]
    dsimp only
    rw [monad_bind, eval_bind, removal]
    cases (eval host.serve (prepare env (host.temp world.folder) useLlm) seen
      ⟨world.folder.put _ content host.now, world.state⟩).1 with
    | error error => exact .refl _
    | ok prepared =>
      cases prepared with
      | cached payload => exact .refl _
      | planned fileHash docKey ranges => exact folder_of_quiet host (onServices_quiet _) later _

/-- What a download comes to: it returns exactly if the response is a success whose body is complete and not too
large, and then the file holds the body; when it raises, there is no file. -/
structure Downloads (maxBytes : ℤ) (response : Response) (before : Folder FileName Time) (result : Except Exc FileName)
    (after : Folder FileName Time) : Prop where
  returns : (∃ path, result = .ok path) ↔
    response.statusCode = 200 ∧ response.ended = none ∧ response.chunks.flatten.length ≤ maxBytes
  holds : ∀ path, result = .ok path → after.content? path = some response.chunks.flatten
  cleans : ∀ error, result = .error error → after = before

/-- The `try` of a download saves the body or nothing. -/
theorem Response.saved_eq_ok_iff {response : Response} {maxBytes : ℤ} {url : Str} {content : Bytes} :
    response.saved maxBytes url = .ok content ↔
      (response.ended = none ∧ response.chunks.flatten.length ≤ maxBytes) ∧ response.chunks.flatten = content := by
  unfold Response.saved limited
  split_ifs with large
  · refine iff_of_false (by rintro ⟨⟩) ?_
    rintro ⟨⟨_, fits⟩, _⟩
    exact not_le.mpr large fits
  · cases ended : response.ended with
    | none =>
      constructor
      · rintro ⟨⟩
        exact ⟨⟨rfl, not_lt.mp large⟩, rfl⟩
      · rintro ⟨_, rfl⟩
        rfl
    | some error =>
      refine iff_of_false (by rintro ⟨⟩) ?_
      rintro ⟨⟨⟨⟩, _⟩, _⟩

/-- A response delivers its body or nothing. -/
theorem LocalHost.body_eq_ok_iff {host : LocalHost Time State} {response : Response} {maxBytes : ℤ} {url : Str}
    {content : Bytes} : host.body response maxBytes url = .ok content ↔
      (response.statusCode = 200 ∧ (∃ suffix, host.suffix url = .ok suffix) ∧ response.ended = none ∧
        response.chunks.flatten.length ≤ maxBytes) ∧ response.chunks.flatten = content := by
  unfold LocalHost.body
  split_ifs with failed
  · refine iff_of_false (by rintro ⟨⟩) ?_
    rintro ⟨⟨success, _⟩, _⟩
    exact failed success
  · cases host.suffix url with
    | ok suffix =>
      have saved : response.saved maxBytes url = .ok content ↔ _ := Response.saved_eq_ok_iff
      simpa [not_not.mp failed, Except.bind] using saved
    | error error =>
      refine iff_of_false (by rintro ⟨⟩) ?_
      rintro ⟨⟨_, ⟨_, ⟨⟩⟩, _⟩, _⟩

/-- A download comes to what it should, exactly if there can be a file for a body that would fit. -/
theorem Downloads.iff_of_delivered (host : LocalHost Time State) {maxBytes : ℤ} {url : Str} {response : Response}
    {world after : LocalWorld Time State} {result : Except Exc FileName}
    (delivered : Converter.Delivered host world (host.body response maxBytes url) result after) :
    Downloads maxBytes response world.folder result after.folder ↔
      (response.statusCode = 200 ∧ response.ended = none ∧ response.chunks.flatten.length ≤ maxBytes →
        ∃ suffix, host.suffix url = .ok suffix) := by
  cases body : host.body response maxBytes url with
  | ok content =>
    rw [body] at delivered
    obtain ⟨rfl, rfl⟩ := delivered
    obtain ⟨⟨success, named, complete⟩, rfl⟩ := LocalHost.body_eq_ok_iff.mp body
    refine iff_of_true ⟨iff_of_true ⟨_, rfl⟩ ⟨success, complete⟩, ?_, ?_⟩ fun _ => named
    · rintro _ ⟨⟩
      rw [Folder.content?_put_self]
    · rintro _ ⟨⟩
  | error error =>
    rw [body] at delivered
    obtain ⟨rfl, rfl⟩ := delivered
    constructor
    · intro downloads complete
      obtain ⟨_, ⟨⟩⟩ := downloads.returns.mpr complete
    · intro named
      refine ⟨iff_of_false ?_ ?_, ?_, fun _ _ => rfl⟩
      · rintro ⟨_, ⟨⟩⟩
      · rintro ⟨success, complete⟩
        cases body.symm.trans (LocalHost.body_eq_ok_iff.mpr ⟨⟨success, named ⟨success, complete⟩, complete⟩, rfl⟩)
      · rintro _ ⟨⟩

/-- The file of a download is within the limit at all times, and a submission that ends in any way leaves the temporary
folder as it was. A download comes to what it should, unless the body is complete and not too large and the URL gives
no name that the system accepts. -/
theorem Api.download_submit_clean (env : Env) (maxBytes : ℤ) (limit : 0 ≤ maxBytes) (url : Str) (useLlm : Bool)
    (host : LocalHost Time State) (world : LocalWorld Time State) :
    (∀ response, host.response url = .ok response →
      (Downloads maxBytes response world.folder ((Converter.download maxBytes url).eval host.serve [] world).1
          ((Converter.download maxBytes url).eval host.serve [] world).2.2.folder ↔
        (response.statusCode = 200 ∧ response.ended = none ∧ response.chunks.flatten.length ≤ maxBytes →
          ∃ suffix, host.suffix url = .ok suffix))) ∧
      (∀ count, Capped maxBytes (host.temp world.folder)
        ((Converter.download maxBytes url).steps host.serve count [] world).2.2) ∧
      ((submitFile env maxBytes url useLlm).eval host.serve [] world).2.2.folder = world.folder := by
  have ensures := Converter.download_ensures host url limit world []
  refine ⟨?_, ensures.steps, submitFile_folder env limit url useLlm host world []⟩
  intro response answered
  have outcome : host.downloaded maxBytes url = host.body response maxBytes url := by
    rw [LocalHost.downloaded, answered]
    rfl
  exact Downloads.iff_of_delivered host (outcome ▸ ensures.eval)

/-- Every URL has a body of two chunks with an empty one between them, and every service answers. -/
def sampleProducer (config : Config) : LocalHost ℕ World where
  toDisk := sampleDisk 7
  response _ := .ok ⟨200, [[1], [], [2]], none⟩
  netlocError _ := none
  unreadable _ := none
  service op world := respond config none (fun _ op => op.favourable []) [] op world

/-- A body of two bytes under a limit of two. -/
theorem Api.download_submit_clean_sampleProducer :
    Downloads 2 ⟨200, [[1], [], [2]], none⟩ Table.empty
        ((Converter.download 2 (lit "http://host/file")).eval (sampleProducer {}).serve []
          ⟨Table.empty, Deployment.initial.world⟩).1
        ((Converter.download 2 (lit "http://host/file")).eval (sampleProducer {}).serve []
          ⟨Table.empty, Deployment.initial.world⟩).2.2.folder ∧
      ((submitFile (sampleEnv {}) 2 (lit "http://host/file") false).eval (sampleProducer {}).serve []
        ⟨Table.empty, Deployment.initial.world⟩).2.2.folder = Table.empty := by
  have clean := download_submit_clean (sampleEnv {}) 2 (by decide) (lit "http://host/file") false (sampleProducer {})
    ⟨Table.empty, Deployment.initial.world⟩
  exact ⟨(clean.1 _ rfl).mpr fun _ => ⟨lit "_file", rfl⟩, clean.2.2⟩

example : ((Converter.download 2 (lit "http://host/file")).eval (sampleProducer {}).serve []
    ⟨Table.empty, Deployment.initial.world⟩).2.2.folder.rows.map (·.node.content?) = [some [1, 2]] := by decide +kernel

/-- A URL whose last component has 250 letters. -/
def longUrl : Str := lit "http://host/" ++ List.replicate 250 'a'

/-- A body of two bytes under a limit of two is not saved if the name in the URL is too long. -/
theorem Api.download_refuses_longUrl :
    ¬ Downloads 2 ⟨200, [[1], [], [2]], none⟩ Table.empty
      ((Converter.download 2 longUrl).eval (sampleProducer {}).serve [] ⟨Table.empty, Deployment.initial.world⟩).1
      ((Converter.download 2 longUrl).eval (sampleProducer {}).serve []
        ⟨Table.empty, Deployment.initial.world⟩).2.2.folder := by
  have raises : ((Converter.download 2 longUrl).eval (sampleProducer {}).serve []
      ⟨Table.empty, Deployment.initial.world⟩).1.toOption.isNone = true := by decide +kernel
  intro downloads
  obtain ⟨path, returned⟩ := downloads.returns.mpr ⟨rfl, rfl, by decide⟩
  rw [returned] at raises
  cases raises

end MarkitdownServer
