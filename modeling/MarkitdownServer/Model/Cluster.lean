import MarkitdownServer.Lib.Concurrent
import MarkitdownServer.Model.Deployment
import MarkitdownServer.Model.Endpoints

/-! # The cluster: clients, API pods, workers and a bucket that forgets

The deployment with the requests that its API pods serve. A request is served by one call after the other, with
calls of workers and of other requests in between, until it is answered or its pod dies. The lifecycle rule of
the bucket may take away any object at any time. `since` of a request counts the exchanges that were over when
it arrived; no step looks at it or at the exchanges.
-/

namespace MarkitdownServer

open Effects

/-- A request as it arrives. -/
structure Visit where
  xApiKey : Option Str
  route : Route
  since : ℕ

/-- A request that is being served. -/
structure Client extends Visit where
  prog : Prog (Option Answer)
  calls : List Step := []

/-- A request that is over: the calls made for it and what it came to, `none` for a client still polling. -/
structure Exchange extends Visit where
  calls : List Step
  result : Except Exc (Option Answer)

structure Cluster where
  backend : Deployment
  clients : List Client
  exchanges : List Exchange

/-- The choices of the environment. -/
inductive Move where
  | backend (label : Label)
  | arrive (xApiKey : Option Str) (route : Route)
  | call (index : ℕ) (fate : Fate)
  | answer (index : ℕ)
  | abandon (index : ℕ)
  | vanish (key : Str)

/-- The bucket without one of its objects. -/
def Store.erase (store : Store) (key : Str) : Store := fun other => if other = key then none else store other

@[simp] theorem Store.erase_apply (store : Store) (key other : Str) :
    store.erase key other = if other = key then none else store other := rfl

namespace Cluster

/-- Nobody at work and nothing asked. -/
def initial : Cluster := ⟨.initial, [], []⟩

def world (state : Cluster) : World := state.backend.world

/-- The cluster after a step of something else than its processes. -/
def setWorld (state : Cluster) (world : World) : Cluster := { state with backend := { state.backend with world } }

@[simp] theorem world_setWorld (state : Cluster) (world : World) : (state.setWorld world).world = world := rfl

/-- The world without an object. -/
def forget (world : World) (key : Str) : World := { world with store := world.store.erase key }

variable (pod : Pod)

/-- A request that has just arrived. -/
def newClient (visit : Visit) : Client := ⟨visit, Api.serveRoute pod visit.xApiKey visit.route, []⟩

/-- The next call for a request. -/
def call (state : Cluster) (index : ℕ) (client : Client) (fate : Fate) : Option Cluster :=
  match client.prog with
  | .call op next =>
    (op.carry pod.toConfig none state.world fate).map fun (reply, world) =>
      { state.setWorld world with
        clients := state.clients.set index ⟨client.toVisit, next reply, client.calls ++ [⟨op, reply⟩]⟩ }
  | _ => none

/-- One step of the cluster. Files are submitted by its clients only. -/
def step (state : Cluster) : Move → Option Cluster
  | .backend (.submit ..) => none
  | .backend label => (Deployment.step pod.toEnv state.backend label).map fun backend => { state with backend }
  | .arrive xApiKey route =>
    some { state with clients := state.clients ++ [newClient pod ⟨xApiKey, route, state.exchanges.length⟩] }
  | .call index fate => (state.clients[index]?).bind fun client => call pod state index client fate
  | .answer index =>
    (state.clients[index]?).bind fun client => client.prog.outcome.map fun result =>
      { state with
        clients := state.clients.eraseIdx index
        exchanges := state.exchanges ++ [⟨client.toVisit, client.calls, result⟩] }
  | .abandon index =>
    (state.clients[index]?).map fun _ => { state with clients := state.clients.eraseIdx index }
  | .vanish key => some (state.setWorld (forget state.world key))

/-- What one step does, move by move, with the request that moves singled out. -/
inductive Moved (state : Cluster) : Move → Cluster → Prop
  | backend {label : Label} {backend : Deployment} (inside : ∀ url useLlm, label ≠ .submit url useLlm)
      (stepped : Deployment.step pod.toEnv state.backend label = some backend) :
      Moved state (.backend label) { state with backend }
  | arrive (xApiKey : Option Str) (route : Route) :
      Moved state (.arrive xApiKey route)
        { state with clients := state.clients ++ [newClient pod ⟨xApiKey, route, state.exchanges.length⟩] }
  | call {index : ℕ} {fate : Fate} {client : Client} {op : Op} {next : Except Exc op.Reply → Prog (Option Answer)}
      {reply : Except Exc op.Reply} {world : World} {before after : List Client}
      (found : state.clients = before ++ client :: after) (position : before.length = index)
      (at_ : client.prog = .call op next)
      (carried : op.carry pod.toConfig none state.world fate = some (reply, world)) :
      Moved state (.call index fate)
        { state.setWorld world with
          clients := before ++ ⟨client.toVisit, next reply, client.calls ++ [⟨op, reply⟩]⟩ :: after }
  | answer {index : ℕ} {client : Client} {result : Except Exc (Option Answer)} {before after : List Client}
      (found : state.clients = before ++ client :: after) (position : before.length = index)
      (ended : client.prog.outcome = some result) :
      Moved state (.answer index)
        ⟨state.backend, before ++ after, state.exchanges ++ [⟨client.toVisit, client.calls, result⟩]⟩
  | abandon {index : ℕ} {client : Client} {before after : List Client}
      (found : state.clients = before ++ client :: after) (position : before.length = index) :
      Moved state (.abandon index) { state with clients := before ++ after }
  | vanish (key : Str) : Moved state (.vanish key) (state.setWorld (forget state.world key))

variable {pod}

/-- Every step is one of those listed by `Moved`. -/
theorem moved_of_step {state next : Cluster} {move : Move} (stepped : step pod state move = some next) :
    Moved pod state move next := by
  cases move with
  | backend label =>
    cases label with
    | submit url useLlm => cases stepped
    | deliver | duplicate | expire | act | finish | crash =>
      obtain ⟨backend, inner, rfl⟩ := Option.map_eq_some_iff.mp stepped
      exact .backend (by rintro _ _ ⟨⟩) inner
  | arrive xApiKey route =>
    cases stepped
    exact .arrive xApiKey route
  | call index fate =>
    obtain ⟨client, found, moved⟩ := Option.bind_eq_some_iff.mp stepped
    obtain ⟨before, after, split, position, replaced, _⟩ := Deployment.exists_split found
    simp only [call] at moved
    split at moved
    · next op rest at_ =>
      obtain ⟨⟨reply, world⟩, carried, rfl⟩ := Option.map_eq_some_iff.mp moved
      rw [replaced]
      exact .call split position at_ carried
    · cases moved
  | answer index =>
    obtain ⟨client, found, moved⟩ := Option.bind_eq_some_iff.mp stepped
    obtain ⟨before, after, split, position, _, erased⟩ := Deployment.exists_split found
    obtain ⟨result, ended, rfl⟩ := Option.map_eq_some_iff.mp moved
    rw [erased]
    exact .answer split position ended
  | abandon index =>
    obtain ⟨client, found, rfl⟩ := Option.map_eq_some_iff.mp stepped
    obtain ⟨before, after, split, position, _, erased⟩ := Deployment.exists_split found
    rw [erased]
    exact .abandon split position
  | vanish key =>
    cases stepped
    exact .vanish key

/-! ## Scripts -/

def samplePod (config : Config) : Pod := ⟨sampleEnv config, some (lit "key"), false⟩

/-- Calls for one request that are carried out. -/
def callsDone (index count : ℕ) : List Move := List.replicate count (.call index .done)

/-- The first request downloads a file that is not cached, and publishes its one task. -/
def sampleSubmission (file : Bytes) (jobId : Str) : List Move :=
  .call 0 (.downloaded file) :: callsDone 0 3 ++ .call 0 (.drawn jobId) :: callsDone 0 3

/-- A worker converts the one chunk and assembles the document. -/
def sampleConversion (text : Str) : List Move :=
  List.map .backend (.deliver 0 (lit "worker") :: Script.converts 0 text ++ Script.acts 0 8 ++ [.finish 0])

/-- A client waits for its conversion and reads the first page. -/
def waits (file : Bytes) (jobId text : Str) : List Move :=
  .arrive (some (lit "key")) (.convert (some ⟨some (lit "http://host/file"), none⟩) 2) ::
    sampleSubmission file jobId ++ callsDone 0 1 ++ sampleConversion text ++ callsDone 0 3

/-- The lifecycle rule takes the manifest and the first page of a document away. -/
def expires (docKey : Str) : List Move := [.vanish (pageKey docKey 1), .vanish (manifestKey docKey)]

/-- The key of the document of a file of one byte. -/
def sampleDocKey (config : Config) : Str := (samplePod config).makeDocKey ((samplePod config).sha256 [0]) false

end Cluster

end MarkitdownServer
