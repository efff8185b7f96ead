import Mathlib.Algebra.Order.Ring.Int
import MarkitdownServer.Lib.Outcome
import MarkitdownServer.Model.Converter

/-! # The download and its temporary file

The loop checks the limit before it writes a chunk, so the file never holds more. A download that raises, for whatever
reason, has removed the file, or has not come to create one: the name of the file is taken from the URL, which may have
none that the system accepts. What `submit` does with the file, it does in a `try` whose `finally` removes the file.
-/

namespace MarkitdownServer

open Effects Effects.Program Files Relational

variable {Time State : Type}

/-- A body that is not too large. -/
def limited (maxBytes : ℤ) (url : Str) (body : Bytes) : Except Exc Bytes :=
  if maxBytes < body.length then .error (Converter.sizeError url maxBytes) else .ok body

/-- What the `try` of `download` makes of a response: the body, if it is not too large, and complete. -/
def Response.saved (response : Response) (maxBytes : ℤ) (url : Str) : Except Exc Bytes :=
  (limited maxBytes url response.chunks.flatten).bind fun body =>
    match response.ended with
    | none => .ok body
    | some error => .error error

/-- The end of the name of the temporary file, if the URL has one that the system accepts. -/
def LocalHost.suffix (host : LocalHost Time State) (url : Str) : Except Exc Str :=
  match host.netlocError (urlparse url).netloc with
  | some error => .error error
  | none =>
    match suffixError ('_' :: Converter.filename (urlparse url)) with
    | some error => .error error
    | none => .ok ('_' :: Converter.filename (urlparse url))

/-- What a response delivers: the body, if it is a success, there can be a file, and the body fits. -/
def LocalHost.body (host : LocalHost Time State) (response : Response) (maxBytes : ℤ) (url : Str) : Except Exc Bytes :=
  if response.statusCode ≠ 200 then .error (Converter.statusError url response.statusCode)
  else (host.suffix url).bind fun _ => response.saved maxBytes url

/-- What a URL delivers. -/
def LocalHost.downloaded (host : LocalHost Time State) (maxBytes : ℤ) (url : Str) : Except Exc Bytes :=
  (host.response url).bind fun response => host.body response maxBytes url

/-- A file, if there is one, is within the limit. -/
def Capped (maxBytes : ℤ) (path : FileName) (world : LocalWorld Time State) : Prop :=
  ∀ content, world.folder.content? path = some content → content.length ≤ maxBytes

theorem capped_of_missing {maxBytes : ℤ} {path : FileName} {world : LocalWorld Time State}
    (missing : world.folder.find? path = none) : Capped maxBytes path world := by
  intro content found
  rw [Folder.content?, missing] at found
  cases found

theorem capped_put {maxBytes : ℤ} {content : Bytes} (fits : content.length ≤ maxBytes) (folder : Folder FileName Time)
    (path : FileName) (atime : Time) (state : State) : Capped maxBytes path ⟨folder.put path content atime, state⟩ := by
  intro other found
  rw [Folder.content?_put_self] at found
  cases found
  exact fits

namespace Converter

variable (host : LocalHost Time State) {maxBytes : ℤ} (url : Str) (path : FileName) (folder : Folder FileName Time)
  (state : State)

/-- The file is within the limit, and it has what was to be written. -/
def Written (maxBytes : ℤ) (outcome : Except Exc Bytes) (result : Except Exc Unit) (after : LocalWorld Time State) :
    Prop :=
  ∃ saved : Bytes, saved.length ≤ maxBytes ∧ after = ⟨folder.put path saved host.now, state⟩ ∧
    match outcome with
    | .ok content => result = .ok () ∧ saved = content
    | .error error => result = .error error

/-- The loop appends the chunks until the file would be too large. -/
theorem writeChunks_ensures (chunks : List Bytes) (content : Bytes) (fits : content.length ≤ maxBytes)
    (calls : List (Call LocalOp (LocalOp.Reply Time) Exc)) :
    (writeChunks maxBytes url path chunks content.length).Ensures host.serve (Capped maxBytes path)
      (Written host path folder state maxBytes (limited maxBytes url (content ++ chunks.flatten))) calls
      ⟨folder.put path content host.now, state⟩ := by
  have capped := capped_put fits folder path host.now state
  induction chunks generalizing content calls with
  | nil =>
    refine ⟨capped, content, fits, rfl, ?_⟩
    rw [List.flatten_nil, List.append_nil, limited, if_neg (not_lt.mpr fits)]
    exact ⟨rfl, rfl⟩
  | cons chunk chunks ih =>
    rw [writeChunks, List.flatten_cons, ← List.append_assoc]
    have grown : ((content ++ chunk).length : ℤ) = content.length + chunk.length := by
      rw [List.length_append, Nat.cast_add]
    dsimp only
    split_ifs with empty large
    · subst empty
      rw [List.append_nil]
      exact ih content fits calls capped
    · have total : maxBytes < (content ++ chunk ++ chunks.flatten).length := by
        rw [List.length_append, Nat.cast_add, grown]
        omega
      refine ⟨capped, content, fits, rfl, ?_⟩
      rw [limited, if_pos total]
    · rw [← grown] at large ⊢
      have append := host.exec_append (folder.find?_put_self path content host.now) chunk
      rw [Folder.put_put] at append
      refine Ensures.perform_bind (host.serve_file calls rfl append) capped ?_
      exact ih (content ++ chunk) (not_lt.mp large) _ (capped_put (not_lt.mp large) folder path host.now state)

/-- The `try` of `download`. -/
theorem saveResponse_ensures (limit : 0 ≤ maxBytes) (response : Response)
    (calls : List (Call LocalOp (LocalOp.Reply Time) Exc)) :
    (saveResponse maxBytes url path response).Ensures host.serve (Capped maxBytes path)
      (Written host path folder state maxBytes (response.saved maxBytes url)) calls
      ⟨folder.put path [] host.now, state⟩ := by
  have capped : Capped maxBytes path (⟨folder.put path [] host.now, state⟩ : LocalWorld Time State) :=
    capped_put limit folder path host.now state
  have truncate := host.exec_truncate (folder.find?_put_self path [] host.now)
  have loop := writeChunks_ensures host url path folder state response.chunks [] limit
  rw [Folder.put_put] at truncate
  rw [List.nil_append] at loop
  rw [Response.saved]
  refine Ensures.perform_bind (host.serve_file calls rfl truncate) capped ((loop _).bind ?_ ?_)
  · rintro ⟨⟩ seen after capped ⟨saved, fits, rfl, outcome⟩
    cases body : limited maxBytes url response.chunks.flatten with
    | ok content =>
      rw [body] at outcome
      cases response.ended with
      | none => exact ⟨capped, saved, fits, rfl, rfl, outcome.2⟩
      | some error => exact ⟨capped, saved, fits, rfl, rfl⟩
    | error error =>
      rw [body] at outcome
      cases outcome
  · rintro error after ⟨saved, fits, rfl, outcome⟩
    cases body : limited maxBytes url response.chunks.flatten with
    | ok content =>
      rw [body] at outcome
      cases outcome.1
    | error other =>
      rw [body] at outcome
      exact ⟨saved, fits, rfl, outcome⟩

variable {folder state}

/-- What is delivered is in a new file; nothing else has changed. -/
def Delivered (world : LocalWorld Time State) (outcome : Except Exc Bytes) (result : Except Exc FileName)
    (after : LocalWorld Time State) : Prop :=
  match outcome with
  | .ok content => result = .ok (host.temp world.folder) ∧
      after = ⟨world.folder.put (host.temp world.folder) content host.now, world.state⟩
  | .error error => result = .error error ∧ after = world

theorem download_ensures (limit : 0 ≤ maxBytes) (world : LocalWorld Time State)
    (calls : List (Call LocalOp (LocalOp.Reply Time) Exc)) :
    (download maxBytes url).Ensures host.serve (Capped maxBytes (host.temp world.folder))
      (Delivered host world (host.downloaded maxBytes url)) calls world := by
  have fresh := host.fresh world.folder
  have absent : Capped maxBytes (host.temp world.folder) world := capped_of_missing fresh
  have created : Capped maxBytes (host.temp world.folder)
      (⟨world.folder.put (host.temp world.folder) [] host.now, world.state⟩ : LocalWorld Time State) :=
    capped_put limit world.folder _ host.now world.state
  cases answered : host.response url with
  | error error =>
    have outcome : host.downloaded maxBytes url = .error error := by
      rw [LocalHost.downloaded, answered]
      rfl
    have raised : host.serve calls (.get url) world = (.error error, world) := by rw [LocalHost.serve, answered]
    rw [outcome]
    exact Ensures.perform_bind_error raised absent absent ⟨rfl, rfl⟩
  | ok response =>
    have outcome : host.downloaded maxBytes url = host.body response maxBytes url := by
      rw [LocalHost.downloaded, answered]
      rfl
    have got : host.serve calls (.get url) world = (.ok response, world) := by rw [LocalHost.serve, answered]
    rw [outcome]
    refine Ensures.perform_bind got absent ?_
    split_ifs with failed
    · rw [LocalHost.body, if_pos failed]
      exact ⟨absent, rfl, rfl⟩
    rw [LocalHost.body, if_neg failed, LocalHost.suffix]
    cases located : host.netlocError (urlparse url).netloc with
    | some error =>
      exact Ensures.perform_bind_error (host.serve_urlparse_error _ located) absent absent ⟨rfl, rfl⟩
    | none =>
      refine Ensures.perform_bind (host.serve_urlparse _ located) absent ?_
      cases refused : suffixError ('_' :: filename (urlparse url)) with
      | some error =>
        exact Ensures.perform_bind_error (host.serve_mkstemp_error _ refused) absent absent ⟨rfl, rfl⟩
      | none =>
        refine Ensures.perform_bind (host.serve_mkstemp _ refused) absent ?_
        have saving := saveResponse_ensures host url (host.temp world.folder) world.folder world.state limit response
        refine (saving _).attempt_bind ?_
        rintro result seen after capped ⟨saved, fits, rfl, saves⟩
        cases body : response.saved maxBytes url with
        | ok content =>
          rw [body] at saves
          obtain ⟨rfl, rfl⟩ := saves
          exact ⟨capped, rfl, rfl⟩
        | error error =>
          rw [body] at saves
          subst saves
          refine Ensures.perform_bind (host.serve_file _ rfl (host.exec_pathExists_put _ saved host.now)) capped ?_
          simp only [if_true]
          refine Ensures.perform_bind (host.serve_file _ rfl (host.exec_remove_put fresh saved host.now)) capped ?_
          exact ⟨absent, rfl, rfl⟩

/-- A download raises and leaves everything as it was, or it puts what it delivers in a new file. -/
theorem download_eval (limit : 0 ≤ maxBytes) (world : LocalWorld Time State)
    (calls : List (Call LocalOp (LocalOp.Reply Time) Exc)) :
    (∃ error seen, host.downloaded maxBytes url = .error error ∧
        (download maxBytes url).eval host.serve calls world = (.error error, seen, world)) ∨
      ∃ content seen, host.downloaded maxBytes url = .ok content ∧
        (download maxBytes url).eval host.serve calls world = (.ok (host.temp world.folder), seen,
          ⟨world.folder.put (host.temp world.folder) content host.now, world.state⟩) := by
  have delivered := (download_ensures host url limit world calls).eval
  generalize (download maxBytes url).eval host.serve calls world = run at delivered ⊢
  obtain ⟨result, seen, after⟩ := run
  dsimp only at delivered
  cases outcome : host.downloaded maxBytes url with
  | error error =>
    rw [outcome] at delivered
    obtain ⟨rfl, rfl⟩ := delivered
    exact .inl ⟨error, seen, rfl, rfl⟩
  | ok content =>
    rw [outcome] at delivered
    obtain ⟨rfl, rfl⟩ := delivered
    exact .inr ⟨content, seen, rfl, rfl⟩

end Converter

end MarkitdownServer
