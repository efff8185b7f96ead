import MarkitdownServer.Proofs.Cleanup

/-! # The submission seen from the services

A program of the producer is compared with one that only calls services. Reads of the temporary file are not seen by
the services, so `submit` with its file does to them what `submit` does on the bytes that the download delivers.
-/

namespace MarkitdownServer

open Effects Effects.Program Files Relational

variable {Time State : Type}

/-- On a folder that stays as it is, a program of the producer does to the services what another program does. -/
def Reflects {α : Type} (host : LocalHost Time State) (folder : Folder FileName Time) (program : LocalProg Time α)
    (other : Prog α) : Prop :=
  ∀ calls steps state, ∃ seen, program.eval host.serve calls ⟨folder, state⟩ =
    ((other.eval (fun _ => host.service) steps state).1, seen,
      ⟨folder, (other.eval (fun _ => host.service) steps state).2.2⟩)

section Rules

variable {α β : Type} {host : LocalHost Time State} {folder : Folder FileName Time}

theorem Reflects.pure (value : α) : Reflects host folder (.pure value) (.pure value) := fun calls _ _ => ⟨calls, rfl⟩

theorem Reflects.ofExcept (result : Except Exc α) :
    Reflects host folder (Program.ofExcept result) (Program.ofExcept result) := by
  intro calls steps state
  cases result <;> exact ⟨calls, rfl⟩

theorem Reflects.bind {program : LocalProg Time α} {other : Prog α} {next : α → LocalProg Time β} {more : α → Prog β}
    (first : Reflects host folder program other) (rest : ∀ value, Reflects host folder (next value) (more value)) :
    Reflects host folder (program.bind next) (other.bind more) := by
  intro calls steps state
  obtain ⟨seen, same⟩ := first calls steps state
  rw [eval_bind, eval_bind, same]
  obtain ⟨result, done, after⟩ := other.eval (fun _ => host.service) steps state
  cases result with
  | ok value => exact rest value seen done after
  | error error => exact ⟨seen, rfl⟩

/-- What the services do not see only hands on its value. -/
theorem Reflects.pure_bind {program : LocalProg Time α} {value : α} {next : α → LocalProg Time β} {other : Prog β}
    (first : Reflects host folder program (.pure value)) (rest : Reflects host folder (next value) other) :
    Reflects host folder (program.bind next) other := by
  intro calls steps state
  obtain ⟨seen, same⟩ := first calls steps state
  rw [eval_bind, same]
  exact rest seen steps state

/-- A program on the services is reflected by itself. -/
theorem Reflects.onServices (program : Prog α) : Reflects host folder (onServices program) program := by
  intro calls steps state
  induction program generalizing calls steps state with
  | pure value => exact ⟨calls, rfl⟩
  | raise error => exact ⟨calls, rfl⟩
  | call op next ih => exact ih _ _ _ _

/-- The services do not see a read. -/
theorem Reflects.read {path : FileName} {content : Bytes} {atime : Time}
    (readable : ∀ calls, host.unreadable calls = none)
    (found : folder.find? path = some ⟨path, .file content atime⟩) :
    Reflects host folder (onTemp (.read path)) (.pure content) := by
  intro calls steps state
  rw [eval_perform, host.serve_read calls (readable calls) found]
  exact ⟨_, rfl⟩

end Rules

namespace Api

/-- `submit` in three parts. -/
theorem submit_eq (env : Env) (url : Str) (useLlm : Bool) :
    submit env url useLlm = (request (.tool (.download url))).bind fun file =>
      (preparation env file useLlm).bind (completion env url useLlm) := by
  refine congrArg _ (funext fun file => ?_)
  rw [preparation, monad_bind, monad_bind, bind_assoc]
  refine congrArg _ (funext fun cached => ?_)
  cases cached with
  | some payload => rfl
  | none =>
    simp only [enqueue, monad_bind, bind_assoc]
    rfl

section Reading

variable (env : Env) {host : LocalHost Time State} (readable : ∀ calls, host.unreadable calls = none)
  {folder : Folder FileName Time} {path : FileName} {content : Bytes} {atime : Time}
  (found : folder.find? path = some ⟨path, .file content atime⟩)

include readable found

theorem hashFile_reflects : Reflects host folder (hashFile env path) (.pure (env.sha256 content)) :=
  (Reflects.read readable found).pure_bind (.pure _)

theorem pageCount_reflects : Reflects host folder (pageCount env path) (.pure (env.pageCount content)) := by
  intro calls steps state
  rw [pageCount, monad_bind, eval_bind, eval_attempt, eval_perform, host.serve_read calls (readable calls) found]
  exact ⟨_, rfl⟩

theorem putSourceFile_reflects (fileHash : Str) :
    Reflects host folder (putSourceFile fileHash path) (Storage.putSource fileHash content) := by
  refine (Reflects.onServices _).bind fun stored => ?_
  cases stored with
  | true => exact .pure _
  | false => exact (Reflects.read readable found).pure_bind ((Reflects.onServices _).bind fun _ => .pure _)

theorem prepare_reflects (useLlm : Bool) :
    Reflects host folder (prepare env path useLlm) (preparation env content useLlm) := by
  refine (hashFile_reflects env readable found).pure_bind ((Reflects.onServices _).bind fun cached => ?_)
  cases cached with
  | some payload => exact .pure _
  | none =>
    refine (pageCount_reflects env readable found).pure_bind ((Reflects.ofExcept _).bind fun ranges => ?_)
    exact (putSourceFile_reflects readable found _).bind fun _ => .pure _

end Reading

/-- `submit` with its file does to the services what `submit` does on the bytes that the download delivers, and returns
or raises the same. -/
theorem submitFile_reflects (env : Env) {maxBytes : ℤ} (limit : 0 ≤ maxBytes) (url : Str) (useLlm : Bool)
    (host : LocalHost Time State) (readable : ∀ calls, host.unreadable calls = none)
    (downloads : ∀ state, host.service (.tool (.download url)) state = (host.downloaded maxBytes url, state))
    (folder : Folder FileName Time) :
    Reflects host folder (submitFile env maxBytes url useLlm) (submit env url useLlm) := by
  intro calls steps state
  rw [submit_eq, submitFile, monad_bind, eval_bind, eval_bind, eval_perform, downloads]
  rcases Converter.download_eval host url limit ⟨folder, state⟩ calls with
    ⟨error, seen, outcome, run⟩ | ⟨content, seen, outcome, run⟩
  · rw [run, outcome]
    exact ⟨seen, rfl⟩
  · have created := folder.find?_put_self (host.temp folder) content host.now
    obtain ⟨later, removal⟩ := removeFinally_eval host (prepare_quiet env (host.temp folder) useLlm)
      (host.fresh folder) ⟨folder.put (host.temp folder) content host.now, state⟩ rfl seen
    obtain ⟨_, prepared⟩ := prepare_reflects env readable created useLlm seen
      (steps ++ [⟨.tool (.download url), .ok content⟩]) state
    rw [prepared] at removal
    rw [run, outcome]
    dsimp only
    rw [monad_bind, eval_bind, eval_bind, removal]
    generalize (preparation env content useLlm).eval (fun _ => host.service)
      (steps ++ [⟨.tool (.download url), .ok content⟩]) state = rest
    obtain ⟨result, done, after⟩ := rest
    cases result with
    | error error => exact ⟨later, rfl⟩
    | ok prepared =>
      cases prepared with
      | cached payload => exact ⟨later, rfl⟩
      | planned fileHash docKey ranges => exact Reflects.onServices _ later done after

end Api

end MarkitdownServer
