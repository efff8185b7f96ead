import MarkitdownServer.Model.Taskqueue

/-! # Where messages go

The exchanges and queues that `declare` sets up, seen from a publisher: a task goes to the work queue, a
retry to exactly one delay tier if there is one, a parked task to the failed queue. The work queue, the
tiers and the failed queue are different queues, and a message that has waited in a tier goes back to the
work queue.
-/

namespace MarkitdownServer.Config

variable (config : Config)

private theorem append_ne_self {first second : Str} (nonempty : second ≠ []) : first ++ second ≠ first :=
  fun same => nonempty (List.append_right_eq_self.mp same)

@[simp] theorem retryExchange_ne : config.retryExchange ≠ config.rabbitmqExchange := append_ne_self (by decide)

@[simp] theorem dlxExchange_ne : config.dlxExchange ≠ config.rabbitmqExchange := append_ne_self (by decide)

@[simp] theorem dlxExchange_ne_retryExchange : config.dlxExchange ≠ config.retryExchange :=
  fun same => absurd (List.append_cancel_left same) (by decide)

@[simp] theorem tierQueue_inj (first second : ℕ) : config.tierQueue first = config.tierQueue second ↔ first = second := by
  constructor
  · intro same
    exact Str.ofNat_injective (List.append_cancel_left same)
  · rintro rfl
    rfl

@[simp] theorem tierQueue_ne (tier : ℕ) : config.tierQueue tier ≠ config.rabbitmqQueue := by
  rw [tierQueue, List.append_assoc]
  exact append_ne_self (by simp [lit])

@[simp] theorem failedQueue_ne : config.failedQueue ≠ config.rabbitmqQueue := append_ne_self (by decide)

@[simp] theorem failedQueue_ne_tierQueue (tier : ℕ) : config.failedQueue ≠ config.tierQueue tier := by
  intro same
  rw [failedQueue, tierQueue, List.append_assoc] at same
  have third := congrArg (·[1]?) (List.append_cancel_left same)
  simp [lit] at third

private theorem bindings_eq : (declare config).bindings =
    ⟨config.rabbitmqQueue, config.rabbitmqExchange, config.rabbitmqQueue⟩ ::
      ((List.range config.retryDelays.length).map fun i =>
        ⟨config.tierQueue (i + 1), config.retryExchange, config.tierQueue (i + 1)⟩) ++
      [⟨config.failedQueue, config.dlxExchange, config.rabbitmqQueue⟩] := by
  have tiers : (config.retryDelays.mapIdx fun i _ =>
      (⟨config.tierQueue (i + 1), config.retryExchange, config.tierQueue (i + 1)⟩ : Binding)) =
      (List.range config.retryDelays.length).map fun i =>
        ⟨config.tierQueue (i + 1), config.retryExchange, config.tierQueue (i + 1)⟩ :=
    List.ext_getElem (by simp) fun i _ _ => by simp
  rw [declare, tiers]

private theorem route_eq (exchange routingKey : Str) : (declare config).route exchange routingKey =
    (if config.rabbitmqExchange = exchange ∧ config.rabbitmqQueue = routingKey then [config.rabbitmqQueue] else []) ++
      ((List.range config.retryDelays.length).filter fun i =>
        decide (config.retryExchange = exchange) && decide (config.tierQueue (i + 1) = routingKey)).map
          (fun i => config.tierQueue (i + 1)) ++
      (if config.dlxExchange = exchange ∧ config.rabbitmqQueue = routingKey then [config.failedQueue] else []) := by
  rw [Topology.route, bindings_eq, List.filter_append, List.filter_cons, List.filter_map, List.filter_cons,
    List.filter_nil]
  simp only [Bool.and_eq_true, decide_eq_true_eq]
  split_ifs <;> simp [Function.comp_def]

/-- A task is put on the work queue. -/
theorem route_work : (declare config).route config.rabbitmqExchange config.rabbitmqQueue = [config.rabbitmqQueue] := by
  simp [route_eq]

/-- A parked task is put on the failed queue. -/
theorem route_failed : (declare config).route config.dlxExchange config.rabbitmqQueue = [config.failedQueue] := by
  simp [route_eq, config.dlxExchange_ne.symm, config.dlxExchange_ne_retryExchange.symm]

/-- A retry is put on its tier, if that tier exists. -/
theorem route_retry (tier : ℕ) : (declare config).route config.retryExchange (config.tierQueue tier) =
    if 1 ≤ tier ∧ tier ≤ config.retryDelays.length then [config.tierQueue tier] else [] := by
  simp only [route_eq, config.retryExchange_ne.symm, config.dlxExchange_ne_retryExchange, false_and, if_false,
    List.nil_append, List.append_nil, decide_true, Bool.true_and, tierQueue_inj]
  cases tier with
  | zero => simp
  | succ n =>
    simp only [Nat.add_right_cancel_iff, List.filter_eq, List.count_range, Nat.succ_le_iff, Nat.zero_lt_succ, true_and]
    split <;> rfl

/-- The tier of an attempt exists if there are delays and the attempt is a positive number. -/
theorem route_retryQueueName (attempt : ℕ) :
    (declare config).route config.retryExchange (config.retryQueueName attempt) =
      if 1 ≤ attempt ∧ config.retryDelays ≠ [] then [config.retryQueueName attempt] else [] := by
  rw [retryQueueName, route_retry]
  have same : (1 ≤ min attempt config.retryDelays.length ∧
      min attempt config.retryDelays.length ≤ config.retryDelays.length) ↔
      1 ≤ attempt ∧ config.retryDelays ≠ [] := by
    rw [← List.length_pos_iff]
    omega
  simp only [same]

/-- The queue of one tier. -/
def tierDecl (tier : ℕ) (delay : ℤ) : QueueDecl :=
  ⟨config.tierQueue tier, some (delay * 1000), some config.rabbitmqExchange, some config.rabbitmqQueue⟩

private theorem queues_eq : (declare config).queues =
    ⟨config.rabbitmqQueue, none, some config.dlxExchange, none⟩ ::
      ((List.range config.retryDelays.length).map fun i => config.tierDecl (i + 1) (config.retryDelays.getD i 0)) ++
      [⟨config.failedQueue, none, none, none⟩] := by
  have tiers : (config.retryDelays.mapIdx fun i delay => config.tierDecl (i + 1) delay) =
      (List.range config.retryDelays.length).map fun i => config.tierDecl (i + 1) (config.retryDelays.getD i 0) :=
    List.ext_getElem (by simp) fun i bound _ => by
      rw [List.length_mapIdx] at bound
      simp [bound]
  rw [← tiers]
  rfl

/-- There is one work queue, and what it rejects goes to the exchange for dead letters. -/
theorem filter_workQueue : (declare config).queues.filter (fun decl => decl.name = config.rabbitmqQueue) =
    [⟨config.rabbitmqQueue, none, some config.dlxExchange, none⟩] := by
  rw [queues_eq]
  simp [List.filter_append, List.filter_map, Function.comp_def, tierDecl]

/-- There is one queue for each tier, with the delay of that tier. -/
theorem filter_tierQueue {index : ℕ} {delay : ℤ} (found : config.retryDelays[index]? = some delay) :
    (declare config).queues.filter (fun decl => decl.name = config.tierQueue (index + 1)) =
      [config.tierDecl (index + 1) delay] := by
  obtain ⟨bound, same⟩ := List.getElem?_eq_some_iff.mp found
  rw [queues_eq]
  have own : (List.range config.retryDelays.length).filter (fun i => decide (i = index)) = [index] := by
    rw [List.filter_eq, List.count_range, if_pos bound]
    rfl
  simp only [List.cons_append, List.filter_cons, List.filter_append, List.filter_map, Function.comp_def, tierDecl,
    tierQueue_inj, (config.tierQueue_ne _).symm, config.failedQueue_ne_tierQueue, Nat.add_right_cancel_iff, own,
    List.filter_nil, decide_false, Bool.false_eq_true, if_false, List.append_nil, List.map_singleton]
  rw [List.getD_eq_getElem?_getD, found]
  rfl

/-- Whatever is put on the work queue has its name for a routing key. -/
theorem routingKey_of_work {exchange routingKey : Str}
    (member : config.rabbitmqQueue ∈ (declare config).route exchange routingKey) : routingKey = config.rabbitmqQueue := by
  rw [route_eq] at member
  simp only [List.mem_append, List.mem_ite_nil_right, List.mem_singleton, List.mem_map, (config.tierQueue_ne _),
    config.failedQueue_ne.symm, and_true, and_false, exists_false, or_false] at member
  exact member.2.symm

/-- A message that has waited in a tier goes back to the work queue. -/
theorem route_expired {config : Config} {queue exchange : Str} {decl : QueueDecl}
    (declared : decl ∈ (declare config).queues) (timed : decl.ttl.isSome = true)
    (target : decl.deadLetterExchange = some exchange) :
    (declare config).route exchange (decl.deadLetterRoutingKey.getD queue) = [config.rabbitmqQueue] := by
  simp only [declare, List.cons_append, List.mem_cons, List.mem_append, List.mem_mapIdx, List.not_mem_nil,
    or_false] at declared
  rcases declared with rfl | ⟨i, bound, rfl⟩ | rfl
  · cases timed
  · cases target
    exact config.route_work
  · cases timed

/-- A queue whose messages expire is one of the tiers. -/
theorem tierQueue_of_timed {config : Config} {decl : QueueDecl} (declared : decl ∈ (declare config).queues)
    (timed : decl.ttl.isSome = true) : ∃ tier, decl.name = config.tierQueue tier := by
  simp only [declare, List.cons_append, List.mem_cons, List.mem_append, List.mem_mapIdx, List.not_mem_nil,
    or_false] at declared
  rcases declared with rfl | ⟨i, bound, rfl⟩ | rfl
  · cases timed
  · exact ⟨i + 1, rfl⟩
  · cases timed

end MarkitdownServer.Config
