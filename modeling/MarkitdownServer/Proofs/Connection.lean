import MarkitdownServer.Lib.Hoare
import MarkitdownServer.Model.Connection

/-! # A connection without a channel

From a thread whose connection is closed or has its channel, `_publish` sends all bodies on one channel or raises what
pika has raised; each round has a channel of its own. A thread with an open connection and no channel cannot publish:
`connect` finds the connection open, and an `AttributeError` is no `AMQPError`, so `_publish` never comes to its
`close`. Nothing but `close` ends that, and `health` is content with it.
-/

namespace MarkitdownServer

open Effects Effects.Program Transition

namespace BrokerLink

variable {fates : ℕ → LinkFate} {link : BrokerLink} {sent : List (ℕ × Body)} {before : List Exc} {floor : ℕ}

/-- The connection is open and there is no channel. -/
def HalfOpen (link : BrokerLink) : Prop := link.connection = some true ∧ link.channel.id? = none

/-- What a thread has sent; at least what pika had raised before; and at least so many channels opened. -/
structure Since (sent : List (ℕ × Body)) (before : List Exc) (floor : ℕ) (link : BrokerLink) : Prop where
  sent : link.sent = sent
  raised : before <+: link.raised
  opened : floor ≤ link.opened

/-- Pika has raised the exception since. -/
def Raised (before : List Exc) (error : Exc) (link : BrokerLink) : Prop :=
  ∃ more, link.raised = before ++ more ∧ error ∈ more

/-- The thread has a channel, which is not one of the first. -/
def Holds (floor : ℕ) (link : BrokerLink) : Prop := ∃ id, link.channel = .held id ∧ floor ≤ id

/-- An open connection has such a channel. -/
structure Sound (sent : List (ℕ × Body)) (before : List Exc) (floor : ℕ) (link : BrokerLink) : Prop extends
    Since sent before floor link where
  holds : link.connection = some true → Holds floor link

theorem Sound.of_not_halfOpen (whole : ¬ link.HalfOpen) : Sound link.sent link.raised 0 link := by
  refine ⟨⟨rfl, List.prefix_rfl, Nat.zero_le _⟩, fun isOpen => ?_⟩
  cases channel : link.channel with
  | held id => exact ⟨id, channel, Nat.zero_le _⟩
  | missing | empty => exact absurd ⟨isOpen, by rw [channel]; rfl⟩ whole

theorem Sound.not_halfOpen (sound : Sound sent before floor link) : ¬ link.HalfOpen := by
  rintro ⟨isOpen, none⟩
  obtain ⟨id, channel, _⟩ := sound.holds isOpen
  rw [channel] at none
  cases none

/-- What pika raises now, it has raised since. -/
theorem Since.raise {after : BrokerLink} {error : Exc} (since : Since sent before floor link)
    (raised : after.raised = link.raised ++ [error]) (same : after.sent = link.sent)
    (opened : after.opened = link.opened) : Since sent before floor after ∧ Raised before error after := by
  obtain ⟨more, earlier⟩ := since.raised
  rw [← earlier, List.append_assoc] at raised
  refine ⟨⟨same.trans since.sent, ⟨_, raised.symm⟩, opened ▸ since.opened⟩, more ++ [error], raised, ?_⟩
  exact List.mem_append_right _ (List.mem_singleton_self error)

/-- One call of pika on the connection raises and does nothing else, or returns. -/
theorem onConnection_cases (since : Since sent before floor link) (op : LinkOp) (fate : LinkFate) :
    (∃ error after, link.onConnection op fate = (.error error, after) ∧ Since sent before floor after ∧
      Raised before error after) ∨
    link.onConnection op fate =
      (.ok (), ({ link with connection := link.connection.map (· && fate.isOpen) } : BrokerLink).effect op) := by
  unfold onConnection
  cases fate.error with
  | some error => exact .inl ⟨error, _, rfl, since.raise rfl rfl rfl⟩
  | none => exact .inr rfl

/-- A call that sends nothing has come to something, or pika has raised. -/
def Settles {α : Type} (sent : List (ℕ × Body)) (before : List Exc) (floor : ℕ) (holds : α → BrokerLink → Prop)
    (result : Except Exc α) (link : BrokerLink) : Prop :=
  Since sent before floor link ∧ match result with
    | .ok value => holds value link
    | .error error => Raised before error link

theorem blockingConnection_triple :
    Triple (answer fates) (fun _ => True) (Since sent before floor) (Program.perform LinkOp.blockingConnection)
      (Settles sent before floor fun _ _ => True) := by
  apply Triple.perform fun _ _ => trivial
  intro calls link since
  simp only [answer]
  cases (fates calls.length).error with
  | none => exact ⟨trivial, ⟨since.sent, since.raised, since.opened⟩, trivial⟩
  | some error => exact ⟨trivial, since.raise rfl rfl rfl⟩

theorem openChannel_triple :
    Triple (answer fates) (fun _ => True) (Since sent before floor) (Program.perform LinkOp.openChannel)
      (Settles sent before floor fun _ => Holds floor) := by
  apply Triple.perform fun _ _ => trivial
  intro calls link since
  rcases onConnection_cases since .openChannel (fates calls.length) with ⟨error, after, ran, raised⟩ | ran
  · simp only [answer, ran]
    exact ⟨trivial, raised⟩
  · simp only [answer, ran]
    exact ⟨trivial, ⟨since.sent, since.raised, Nat.le_succ_of_le since.opened⟩, _, rfl, since.opened⟩

theorem declare_triple :
    Triple (answer fates) (fun _ => True) (fun link => Since sent before floor link ∧ Holds floor link)
      (Program.perform LinkOp.declare) (Settles sent before floor fun _ => Holds floor) := by
  apply Triple.perform fun _ _ => trivial
  rintro calls link ⟨since, id, channel, late⟩
  rcases onConnection_cases since .declare (fates calls.length) with ⟨error, after, ran, raised⟩ | ran
  · simp only [answer, ran]
    exact ⟨trivial, raised⟩
  · simp only [answer, ran]
    exact ⟨trivial, ⟨since.sent, since.raised, since.opened⟩, id, channel, late⟩

/-- `connect` finds the channel of an open connection, or opens both. -/
theorem connect_triple :
    Triple (answer fates) (fun _ => True) (Sound sent before floor) connect
      (Settles sent before floor fun _ => Holds floor) := by
  have looks : Triple (answer fates) (fun _ => True) (Sound sent before floor) (Program.perform LinkOp.isOpen)
      fun result link => Since sent before floor link ∧
        ∃ isOpen, result = .ok isOpen ∧ (isOpen = true → Holds floor link) := by
    apply Triple.perform fun _ _ => trivial
    intro calls link sound
    exact ⟨trivial, sound.toSince, _, rfl, fun isOpen => sound.holds (of_decide_eq_true isOpen)⟩
  have opens : Triple (answer fates) (fun _ => True) (Since sent before floor) (do
      Program.perform LinkOp.blockingConnection
      Program.perform LinkOp.openChannel
      Program.perform LinkOp.declare) (Settles sent before floor fun _ => Holds floor) := by
    apply blockingConnection_triple.bind
    · intro _
      apply (openChannel_triple.strengthen fun _ start => start.1).bind
      · exact fun _ => declare_triple
      · exact fun _ _ ended => ended
    · exact fun _ _ ended => ended
  apply looks.bind
  · intro isOpen
    cases isOpen with
    | true =>
      apply Triple.pure fun _ _ => trivial
      rintro link ⟨since, _, ⟨⟩, holds⟩
      exact ⟨since, holds rfl⟩
    | false => exact opens.strengthen fun _ start => start.1
  · rintro error link ⟨_, _, ⟨⟩, _⟩

/-- `channel` gives a channel, or pika has raised. -/
theorem localChannel_triple :
    Triple (answer fates) (fun _ => True) (Sound sent before floor) localChannel
      (Settles sent before floor fun channel link => ∃ id, channel = some id ∧ floor ≤ id ∧ id < link.opened) := by
  apply connect_triple.bind
  · intro _
    apply Triple.perform fun _ _ => trivial
    rintro calls link ⟨since, id, channel, late⟩
    simp only [answer]
    split
    · next missing => cases channel.symm.trans missing
    · next empty => cases channel.symm.trans empty
    · next other held =>
      cases channel.symm.trans held
      exact ⟨trivial, since, id, rfl, late, link.held_lt id channel⟩
  · exact fun _ _ ended => ended

/-- The loop sends a beginning of the bodies on its channel, and all of them if it returns. -/
theorem sendEach_triple (id : ℕ) (bodies : List Body) :
    Triple (answer fates) (fun _ => True) (Since sent before floor) (sendEach (some id) bodies) fun result link =>
      match result with
        | .ok _ => Since (sent ++ bodies.map (id, ·)) before floor link
        | .error error => Raised before error link ∧
            ∃ beginning, beginning <+: bodies ∧ Since (sent ++ beginning.map (id, ·)) before floor link := by
  induction bodies generalizing sent with
  | nil =>
    apply Triple.pure fun _ _ => trivial
    intro link since
    rw [List.map_nil, List.append_nil]
    exact since
  | cons body rest ih =>
    have sends : Triple (answer fates) (fun _ => True) (Since sent before floor)
        (Program.perform (LinkOp.basicPublish id body)) fun result link => match result with
          | .ok _ => Since (sent ++ [(id, body)]) before floor link
          | .error error => Since sent before floor link ∧ Raised before error link := by
      apply Triple.perform fun _ _ => trivial
      intro calls link since
      rcases onConnection_cases since (.basicPublish id body) (fates calls.length) with
        ⟨error, after, ran, raised⟩ | ran
      · simp only [answer, ran]
        exact ⟨trivial, raised⟩
      · simp only [answer, ran]
        exact ⟨trivial, congrArg (· ++ [(id, body)]) since.sent, since.raised, since.opened⟩
    apply sends.bind
    · intro _
      apply ih.weaken
      rintro (error | _) link ended
      · obtain ⟨raised, beginning, first, since⟩ := ended
        refine ⟨raised, body :: beginning, List.cons_prefix_cons.mpr ⟨rfl, first⟩, ?_⟩
        rwa [List.append_assoc, List.singleton_append] at since
      · rwa [List.append_assoc, List.singleton_append] at ended
    · rintro error link ⟨since, raised⟩
      exact ⟨raised, [], List.nil_prefix, by rwa [List.map_nil, List.append_nil]⟩

/-- One round of `_publish`: all bodies on one channel, or a beginning of them. -/
theorem sendOn_triple (bodies : List Body) :
    Triple (answer fates) (fun _ => True) (Sound sent before floor) (sendOn bodies) fun result link => match result with
      | .ok _ => ∃ id, floor ≤ id ∧ Since (sent ++ bodies.map (id, ·)) before floor link
      | .error error => Raised before error link ∧ ∃ id beginning, beginning <+: bodies ∧ floor ≤ id ∧
          Since (sent ++ beginning.map (id, ·)) before (if beginning = [] then floor else id + 1) link := by
  apply localChannel_triple.bind
  · rintro (_ | id)
    · intro calls link start
      obtain ⟨_, _, ⟨⟩, _⟩ := start
    · intro calls link start
      obtain ⟨since, _, ⟨⟩, late, opened⟩ := start
      have each : Triple (answer fates) (fun _ => True) (Since sent before (id + 1)) (sendEach (some id) bodies) _ :=
        sendEach_triple id bodies
      apply (each calls link ⟨since.sent, since.raised, opened⟩).weaken
      rintro (error | _) after ended
      · obtain ⟨raised, beginning, first, since⟩ := ended
        refine ⟨raised, id, beginning, first, late, since.sent, since.raised, ?_⟩
        have opened := since.opened
        split <;> omega
      · exact ⟨id, late, ended.sent, ended.raised, Nat.le_trans (Nat.le_succ_of_le late) ended.opened⟩
  · rintro error link ⟨since, raised⟩
    exact ⟨raised, floor, [], List.nil_prefix, Nat.le_refl _, by rwa [List.map_nil, List.append_nil, if_pos rfl]⟩

/-- `close` forgets the connection and does not raise. -/
theorem close_triple (sent : List (ℕ × Body)) (before : List Exc) (floor : ℕ) :
    Triple (answer fates) (fun _ => True) (Since sent before floor) close fun result link =>
      Sound sent before floor link ∧ result = .ok () := by
  have closes : Triple (answer fates) (fun _ => True) (Since sent before floor)
      (Program.perform LinkOp.closeConnection) fun _ => Since sent before floor := by
    apply Triple.perform fun _ _ => trivial
    intro calls link since
    rcases onConnection_cases since .closeConnection (fates calls.length) with ⟨error, after, ran, kept, _⟩ | ran
    · simp only [answer, ran]
      exact ⟨trivial, kept⟩
    · simp only [answer, ran]
      exact ⟨trivial, since.sent, since.raised, since.opened⟩
  have forgets : Triple (answer fates) (fun _ => True) (Since sent before floor)
      (Program.perform LinkOp.forget) fun result link => Sound sent before floor link ∧ result = .ok () := by
    apply Triple.perform fun _ _ => trivial
    intro calls link since
    refine ⟨trivial, ⟨⟨since.sent, since.raised, since.opened⟩, ?_⟩, rfl⟩
    rintro ⟨⟩
  have looks (op : LinkOp) (reads : op = .hasConnection ∨ op = .isOpen) :
      Triple (answer fates) (fun _ => True) (Since sent before floor) (Program.perform op)
        fun result link => Since sent before floor link ∧ ∃ value, result = .ok value := by
    apply Triple.perform fun _ _ => trivial
    intro calls link since
    rcases reads with rfl | rfl <;> exact ⟨trivial, since, _, rfl⟩
  apply (looks .hasConnection (.inl rfl)).bind
  · intro found
    cases found with
    | false => exact forgets.strengthen fun _ start => start.1
    | true =>
      apply ((looks .isOpen (.inr rfl)).strengthen fun _ start => start.1).bind
      · intro isOpen
        cases isOpen with
        | false => exact forgets.strengthen fun _ start => start.1
        | true =>
          apply (closes.strengthen fun _ start => start.1).attempt_bind
          exact fun _ => forgets
      · rintro error link ⟨_, _, ⟨⟩⟩
  · rintro error link ⟨_, _, ⟨⟩⟩

/-- How `_publish` may end: all bodies are sent on one channel, after a beginning of them on an earlier one perhaps; or
pika has raised, and a beginning of the bodies is sent on each of at most two channels. -/
def Publishes (start : BrokerLink) (bodies : List Body) (result : Except Exc Unit) (link : BrokerLink) : Prop :=
  match result with
  | .ok _ => ∃ first second beginning, beginning <+: bodies ∧ (beginning ≠ [] → first < second) ∧
      link.sent = start.sent ++ beginning.map (first, ·) ++ bodies.map (second, ·)
  | .error error => Raised start.raised error link ∧ ∃ first second one two, one <+: bodies ∧ two <+: bodies ∧
      (one ≠ [] → first < second) ∧ link.sent = start.sent ++ one.map (first, ·) ++ two.map (second, ·)

theorem send_triple (start : BrokerLink) (bodies : List Body) :
    Triple (answer fates) (fun _ => True) (Sound start.sent start.raised 0) (send bodies) (Publishes start bodies) := by
  apply (sendOn_triple bodies).attempt_bind
  rintro (error | _)
  · dsimp only
    split
    · rintro calls link ⟨_, first, beginning, begins, _, since⟩
      generalize bound : (if beginning = [] then 0 else first + 1) = floor at since
      have below (some : beginning ≠ []) {second : ℕ} (late : floor ≤ second) : first < second := by
        rw [if_neg some] at bound
        omega
      have again : Triple (answer fates) (fun _ => True)
          (Since (start.sent ++ beginning.map (first, ·)) start.raised floor)
          (close.bind fun _ => sendOn bodies) (Publishes start bodies) := by
        apply (close_triple _ _ floor).bind
        · intro _
          apply ((sendOn_triple bodies).strengthen fun _ start => start.1).weaken
          rintro (error | _) link ended
          · obtain ⟨raised, second, two, more, late, since⟩ := ended
            exact ⟨raised, first, second, beginning, two, begins, more, fun some => below some late, since.sent⟩
          · obtain ⟨second, late, since⟩ := ended
            exact ⟨first, second, beginning, begins, fun some => below some late, since.sent⟩
        · rintro error link ⟨_, ⟨⟩⟩
      exact again calls link since
    · apply Triple.raise fun _ _ => trivial
      rintro link ⟨raised, first, one, begins, _, since⟩
      refine ⟨raised, first, first + 1, one, [], begins, List.nil_prefix, fun _ => Nat.lt_succ_self _, ?_⟩
      rw [since.sent, List.map_nil, List.append_nil]
  · apply Triple.pure fun _ _ => trivial
    rintro link ⟨second, _, since⟩
    refine ⟨0, second, [], List.nil_prefix, fun some => absurd rfl some, ?_⟩
    rw [since.sent, List.map_nil, List.append_nil]

/-! ## Half-open connections -/

variable {calls : List (Call LinkOp LinkOp.Reply Exc)}

theorem answer_missing (channel : link.channel = .missing) :
    answer fates calls .localChannel link = (.error attributeError, link) := by
  simp only [answer, channel]

theorem answer_empty (channel : link.channel = .empty) :
    answer fates calls .localChannel link = (.ok none, link) := by
  simp only [answer, channel]

theorem isAmqpError_attributeError : attributeError.isAmqpError = false := rfl

/-- `connect` leaves a half-open connection as it is. -/
theorem HalfOpen.connect (half : link.HalfOpen) :
    connect.eval (answer fates) calls link = (.ok (), calls ++ [⟨.isOpen, .ok true⟩], link) := by
  have answered : answer fates calls .isOpen link = (.ok true, link) := by
    simp [answer, half.1]
  rw [BrokerLink.connect, monad_bind, eval_perform_ok answered]
  rfl

/-- Without a channel no body is sent. -/
theorem HalfOpen.sendOn (half : link.HalfOpen) (fates : ℕ → LinkFate) (bodies : List Body) : ∃ result seen,
    (sendOn bodies).eval (answer fates) calls link = (result, seen, link) ∧
      (result = .ok () ∧ bodies = [] ∨ result = .error attributeError) := by
  rw [BrokerLink.sendOn, localChannel, monad_bind, monad_bind, bind_assoc, eval_bind, half.connect]
  dsimp only
  cases channel : link.channel with
  | held id =>
    have none := half.2
    rw [channel] at none
    cases none
  | missing => exact ⟨_, _, eval_perform_error (answer_missing channel), .inr rfl⟩
  | empty =>
    cases bodies with
    | nil => exact ⟨_, _, eval_perform_ok (answer_empty channel), .inl ⟨rfl, rfl⟩⟩
    | cons body rest => exact ⟨_, _, eval_perform_ok (answer_empty channel), .inr rfl⟩

/-- The exception is not one for which `_publish` connects again. -/
theorem HalfOpen.send (half : link.HalfOpen) (fates : ℕ → LinkFate) (bodies : List Body) : ∃ result seen,
    (send bodies).eval (answer fates) calls link = (result, seen, link) ∧
      (bodies ≠ [] → result = .error attributeError) := by
  obtain ⟨result, seen, ended, settled⟩ := half.sendOn fates bodies
  refine ⟨result, seen, ?_, fun some => settled.resolve_left fun none => some none.2⟩
  rw [BrokerLink.send, monad_bind, eval_bind, eval_attempt, ended]
  rcases settled with ⟨rfl, _⟩ | rfl
  · rfl
  · simp [isAmqpError_attributeError, eval]

/-- `health` finds an open connection. -/
theorem HalfOpen.health (half : link.HalfOpen) (fates : ℕ → LinkFate) :
    ∃ seen, BrokerLink.health.eval (answer fates) calls link = (.ok true, seen, link) := by
  have looks : ∃ seen, (BrokerLink.connect.bind fun _ => Program.perform LinkOp.isOpen).eval (answer fates) calls link =
      (.ok true, seen, link) := by
    rw [eval_bind, half.connect]
    dsimp only
    rw [eval_perform]
    simp [answer, half.1]
  obtain ⟨seen, ended⟩ := looks
  refine ⟨seen, ?_⟩
  rw [BrokerLink.health, monad_bind, monad_bind, eval_bind, eval_attempt, ended]
  rfl

/-- Nothing but `close` changes a half-open connection. -/
theorem HalfOpen.stays (half : link.HalfOpen) {later : BrokerLink}
    (reached : Reaches step (fun _ move => move.isClose = false) link later) : later = link := by
  symm
  apply reached.invariant rfl
  rintro _ move next rfl other stepped
  cases move with
  | close fates => cases other
  | health fates =>
    obtain ⟨seen, ended⟩ := half.health fates
    cases stepped
    rw [ended]
  | send bodies fates =>
    obtain ⟨result, seen, ended, _⟩ := half.send fates bodies
    cases stepped
    rw [ended]

/-- A thread that is not half-open sends all bodies on one channel, after a beginning of them on an earlier one perhaps,
or raises what pika has raised in one of the calls. From a half-open connection on, and until `close`, every `_publish`
raises an `AttributeError` and sends nothing, while `health` is true. After `close` the connection is not half-open. -/
theorem sends_unless_halfOpen (link : BrokerLink) :
    (¬ link.HalfOpen → ∀ bodies fates, Publishes link bodies
      ((send bodies).eval (answer fates) [] link).1 ((send bodies).eval (answer fates) [] link).2.2) ∧
    (link.HalfOpen → ∀ later, Reaches step (fun _ move => move.isClose = false) link later →
      later.sent = link.sent ∧
      (∀ bodies fates, bodies ≠ [] → ((send bodies).eval (answer fates) [] later).1 = .error attributeError) ∧
      ∀ fates, (health.eval (answer fates) [] later).1 = .ok true) ∧
    ∀ fates, ¬ (close.eval (answer fates) [] link).2.2.HalfOpen := by
  refine ⟨fun whole bodies fates => ?_, fun half later reached => ?_, fun fates => ?_⟩
  · exact (send_triple link bodies [] link (.of_not_halfOpen whole)).eval
  · cases half.stays reached
    refine ⟨rfl, fun bodies fates some => ?_, fun fates => ?_⟩
    · obtain ⟨result, seen, ended, fails⟩ := half.send fates bodies
      rw [ended]
      exact fails some
    · obtain ⟨seen, ended⟩ := half.health fates
      rw [ended]
  · exact (close_triple link.sent link.raised 0 [] link ⟨rfl, List.prefix_rfl, Nat.zero_le _⟩).eval.1.not_halfOpen

def sampleLinkTask : ChunkTask where
  jobId := lit "job"
  chunkIndex := 0
  docKey := lit "key"
  fileHash := lit "hash"
  startPage := 0
  endPage := -1
  totalChunks := 1
  useLlm := false

/-- The broker is reached, but no channel is opened, twice. -/
def sampleFates (count : ℕ) : LinkFate where
  error := if count = 2 ∨ count = 9 then
      some { name := lit "AMQPChannelError", text := lit "no channel", isAmqpError := true }
    else none
  isOpen := true

theorem sends_unless_halfOpen_of_first_publish :
    (((send [.task sampleLinkTask]).eval (answer sampleFates) [] .initial).2.2).HalfOpen ∧
      ∀ fates, (health.eval (answer fates) []
        ((send [.task sampleLinkTask]).eval (answer sampleFates) [] .initial).2.2).1 = .ok true := by
  have half : (((send [.task sampleLinkTask]).eval (answer sampleFates) [] .initial).2.2).HalfOpen := by
    exact ⟨by decide, by decide⟩
  exact ⟨half, ((sends_unless_halfOpen _).2.1 half _ (.refl _)).2.2⟩

end BrokerLink

end MarkitdownServer
