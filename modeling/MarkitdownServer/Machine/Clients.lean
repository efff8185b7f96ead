import MarkitdownServer.Machine.Endpoints
import MarkitdownServer.Machine.Fleet
import MarkitdownServer.Model.Cluster

/-! # What clients can rely on

A property of answers is proved of one request at a time: its program withstands the rest of the cluster, which
keeps an invariant of the world and lets the world grow. Here the programs are put together: in every step of the
cluster the requests being served stay on their way, and those that are over keep what they were promised. A
promise may look at the exchanges that were over when the request arrived.
-/

namespace MarkitdownServer.Cluster

open Effects Effects.Program

variable {pod : Pod} {state after : Cluster} {move : Move}

/-! ## What holds of the workers -/

/-- This holds of the workers, seen through their control machines, and the requests make calls of API pods only. -/
structure Behind (pod : Pod) (holds : Fleet → Prop) (state : Cluster) : Prop where
  workers : ∃ fleet, Fleet.Mirrors pod.toEnv state.backend fleet ∧ holds fleet
  clients : ∀ client ∈ state.clients, client.prog.Makes (ServedOp pod.toEnv)

theorem behind_initial {holds : Fleet → Prop} (start : holds ⟨initial.world, [], []⟩) : initial.Behind pod holds :=
  ⟨⟨_, Fleet.mirrors_initial, start⟩, fun _ member => (by cases member)⟩

/-- Every step of the cluster keeps it, if the steps of the workers, the calls of the pods and the lifecycle rule do. -/
theorem Behind.moved {holds : Fleet → Prop} (behind : state.Behind pod holds) (moved : Moved pod state move after)
    (steps : ∀ fleet label next, Fleet.Mirrors pod.toEnv state.backend fleet → holds fleet → move = .backend label →
      (∀ url useLlm, label ≠ .submit url useLlm) → Fleet.Stepped pod.toEnv fleet label next → holds next)
    (serves : ∀ fleet fate (op : Op) reply, fleet.world = state.world → holds fleet → ServedOp pod.toEnv op →
      op.carry pod.toConfig none state.world fate = some (reply, after.world) → holds { fleet with world := after.world })
    (forgets : ∀ fleet key, fleet.world = state.world → holds fleet →
      holds { fleet with world := forget state.world key }) : after.Behind pod holds := by
  obtain ⟨⟨fleet, mirrors, given⟩, clients⟩ := behind
  cases moved with
  | backend inside runs =>
    obtain ⟨next, stepped, mirrored⟩ := mirrors.stepped runs
    exact ⟨⟨next, mirrored, steps fleet _ next mirrors given rfl inside stepped⟩, clients⟩
  | arrive xApiKey route =>
    refine ⟨⟨fleet, mirrors, given⟩, fun client member => ?_⟩
    rcases List.mem_append.mp member with old | new
    · exact clients client old
    · cases List.mem_singleton.mp new
      exact Api.serveRoute_makes _ _
  | @call index fate client op next reply world before rest found position at_ carried =>
    have made := clients client (found ▸ List.mem_append_right _ (List.mem_cons_self ..))
    rw [at_] at made
    refine ⟨⟨{ fleet with world }, ⟨rfl, mirrors.trace, mirrors.agents⟩,
      serves fleet _ _ _ mirrors.world given made.1 carried⟩, fun other member => ?_⟩
    rcases List.mem_cons.mp (List.perm_middle.mem_iff.mp member) with rfl | old
    · exact made.2 reply
    · exact clients other (found ▸ List.perm_middle.mem_iff.mpr (List.mem_cons_of_mem _ old))
  | answer found | abandon found =>
    refine ⟨⟨fleet, mirrors, given⟩, fun other member => ?_⟩
    exact clients other (found ▸ List.perm_middle.mem_iff.mpr (List.mem_cons_of_mem _ member))
  | vanish key =>
    exact ⟨⟨{ fleet with world := forget state.world key }, ⟨rfl, mirrors.trace, mirrors.agents⟩,
      forgets fleet key mirrors.world given⟩, clients⟩

/-! ## What holds of the requests -/

/-- What a request is promised: the exchanges before it, the request, its result, its calls and the world. -/
abbrev Promise := List Exchange → Visit → Except Exc (Option Answer) → List Step → World → Prop

variable (serves : World → (op : Op) → Except Exc op.Reply → World → Prop) (inv : World → Prop)
  (grows : World → World → Prop) (promise : Promise)

/-- The invariant holds, the requests are on their way to what they were promised, and the promises of those
that are over are kept. -/
structure Upholds (state : Cluster) : Prop where
  world : inv state.world
  arrived : ∀ client ∈ state.clients, client.since ≤ state.exchanges.length
  clients : ∀ client ∈ state.clients, client.prog.Withstands serves inv grows
    (promise (state.exchanges.take client.since) client.toVisit) client.calls state.world
  ended : ∀ exchange ∈ state.exchanges, exchange.since ≤ state.exchanges.length
  exchanges : ∀ exchange ∈ state.exchanges,
    promise (state.exchanges.take exchange.since) exchange.toVisit exchange.result exchange.calls state.world

/-- The world grows along a preorder, and what grows with it is not taken back. -/
structure Lasting : Prop where
  refl : ∀ world, grows world world
  trans : ∀ {first second third}, grows first second → grows second third → grows first third
  promise : ∀ past visit result calls world later, promise past visit result calls world → grows world later →
    promise past visit result calls later

variable {serves inv grows promise}

theorem upholds_initial (start : inv initial.world) : initial.Upholds serves inv grows promise :=
  ⟨start, fun _ member => (by cases member), fun _ member => (by cases member), fun _ member => (by cases member),
    fun _ member => (by cases member)⟩

/-- A step that only moves the world on. -/
theorem Upholds.grow (upholds : state.Upholds serves inv grows promise) (lasting : Lasting grows promise)
    (backend : Deployment) (kept : inv backend.world) (growth : grows state.world backend.world) :
    ({ state with backend } : Cluster).Upholds serves inv grows promise :=
  ⟨kept, upholds.arrived, fun client member => (upholds.clients client member).later lasting.trans growth,
    upholds.ended, fun exchange member => lasting.promise _ _ _ _ _ _ (upholds.exchanges exchange member) growth⟩

/-- A request that is served no longer. -/
theorem Upholds.without (upholds : state.Upholds serves inv grows promise) {client : Client} {before rest : List Client}
    (found : state.clients = before ++ client :: rest) :
    ({ state with clients := before ++ rest } : Cluster).Upholds serves inv grows promise := by
  have old {other : Client} (member : other ∈ before ++ rest) : other ∈ state.clients :=
    found ▸ List.perm_middle.mem_iff.mpr (List.mem_cons_of_mem _ member)
  exact ⟨upholds.world, fun other member => upholds.arrived other (old member),
    fun other member => upholds.clients other (old member), upholds.ended, upholds.exchanges⟩

/-- A request in the place of another. -/
theorem Upholds.replace (upholds : state.Upholds serves inv grows promise) {client next : Client}
    {before rest : List Client} (found : state.clients = before ++ client :: rest) (since : next.since ≤ state.exchanges.length)
    (withstands : next.prog.Withstands serves inv grows (promise (state.exchanges.take next.since) next.toVisit)
      next.calls state.world) :
    ({ state with clients := before ++ next :: rest } : Cluster).Upholds serves inv grows promise := by
  have others := upholds.without found
  refine ⟨others.world, fun other member => ?_, fun other member => ?_, others.ended, others.exchanges⟩
  · rcases List.mem_cons.mp (List.perm_middle.mem_iff.mp member) with rfl | old
    · exact since
    · exact others.arrived other old
  · rcases List.mem_cons.mp (List.perm_middle.mem_iff.mp member) with rfl | old
    · exact withstands
    · exact others.clients other old

/-- A request that has just arrived. -/
theorem Upholds.arrive (upholds : state.Upholds serves inv grows promise) {client : Client}
    (since : client.since ≤ state.exchanges.length)
    (withstands : client.prog.Withstands serves inv grows (promise (state.exchanges.take client.since) client.toVisit)
      client.calls state.world) :
    ({ state with clients := state.clients ++ [client] } : Cluster).Upholds serves inv grows promise := by
  refine ⟨upholds.world, fun other member => ?_, fun other member => ?_, upholds.ended, upholds.exchanges⟩
  · rcases List.mem_append.mp member with old | new
    · exact upholds.arrived other old
    · exact List.mem_singleton.mp new ▸ since
  · rcases List.mem_append.mp member with old | new
    · exact upholds.clients other old
    · exact List.mem_singleton.mp new ▸ withstands

/-- A request that is over. -/
theorem Upholds.conclude (upholds : state.Upholds serves inv grows promise) (exchange : Exchange)
    (since : exchange.since ≤ state.exchanges.length)
    (kept : promise (state.exchanges.take exchange.since) exchange.toVisit exchange.result exchange.calls state.world) :
    ({ state with exchanges := state.exchanges ++ [exchange] } : Cluster).Upholds serves inv grows promise := by
  have longer : state.exchanges.length ≤ (state.exchanges ++ [exchange]).length := by simp
  refine ⟨upholds.world, fun client member => (upholds.arrived client member).trans longer, fun client member => ?_,
    fun other member => ?_, fun other member => ?_⟩
  · rw [List.take_append_of_le_length (upholds.arrived client member)]
    exact upholds.clients client member
  · rcases List.mem_append.mp member with old | new
    · exact (upholds.ended other old).trans longer
    · exact (List.mem_singleton.mp new ▸ since).trans longer
  · rcases List.mem_append.mp member with old | new
    · rw [List.take_append_of_le_length (upholds.ended other old)]
      exact upholds.exchanges other old
    · cases List.mem_singleton.mp new
      rw [List.take_append_of_le_length since]
      exact kept

/-- Every step of the cluster keeps the promises, if its backend, the bucket and the calls keep the invariant
and new requests can be served. -/
theorem Upholds.moved (upholds : state.Upholds serves inv grows promise) (lasting : Lasting grows promise)
    (moved : Moved pod state move after)
    (backend : ∀ label backend, move = .backend label → (∀ url useLlm, label ≠ .submit url useLlm) →
      Deployment.step pod.toEnv state.backend label = some backend → inv backend.world ∧ grows state.world backend.world)
    (vanish : ∀ key, move = .vanish key → inv (forget state.world key) ∧ grows state.world (forget state.world key))
    (serving : ∀ index fate op reply world, move = .call index fate →
      op.carry pod.toConfig none state.world fate = some (reply, world) → serves state.world op reply world)
    (arriving : ∀ xApiKey route, move = .arrive xApiKey route →
      (Api.serveRoute pod xApiKey route).Withstands serves inv grows
        (promise state.exchanges ⟨xApiKey, route, state.exchanges.length⟩) [] state.world) :
    after.Upholds serves inv grows promise := by
  cases moved with
  | backend inside stepped =>
    obtain ⟨kept, growth⟩ := backend _ _ rfl inside stepped
    exact upholds.grow lasting _ kept growth
  | arrive xApiKey route =>
    refine upholds.arrive (Nat.le_refl _) ?_
    simp only [newClient, List.take_length]
    exact arriving xApiKey route rfl
  | @call index fate client op next reply world before rest found position at_ carried =>
    have inside : client ∈ state.clients := found ▸ List.mem_append_right _ (List.mem_cons_self ..)
    have withstands := upholds.clients client inside
    rw [at_] at withstands
    obtain ⟨kept, growth, onward⟩ := withstands state.world upholds.world (lasting.refl _) reply world
      (serving _ _ _ _ _ rfl carried)
    exact (upholds.grow lasting { state.backend with world } kept growth).replace found
      (upholds.arrived client inside) onward
  | @answer index client result before rest found position ended =>
    have inside : client ∈ state.clients := found ▸ List.mem_append_right _ (List.mem_cons_self ..)
    exact (upholds.without found).conclude ⟨client.toVisit, client.calls, result⟩
      (upholds.arrived client inside)
      ((upholds.clients client inside).of_outcome ended upholds.world (lasting.refl _))
  | abandon found position => exact upholds.without found
  | vanish key =>
    obtain ⟨kept, growth⟩ := vanish key rfl
    exact upholds.grow lasting { state.backend with world := forget state.world key } kept growth

end MarkitdownServer.Cluster
