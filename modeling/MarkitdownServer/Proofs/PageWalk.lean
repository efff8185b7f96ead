import MarkitdownServer.Model.Api
import MarkitdownServer.Model.Deployment

/-! # Reading a stored document page by page

`put_document` numbers the pages of a document from one and writes their number into the manifest. The three
ways to the first page and the page endpoint read both back. Following the links of the responses visits
every page once, in either direction, as long as nobody writes the document.
-/

namespace MarkitdownServer.Api

open Effects Effects.Program

/-- The keys that `put_document` writes for a document. -/
def OfDocument (docKey key : Str) : Prop := key = manifestKey docKey ∨ ∃ n, key = pageKey docKey n

/-- The services as readers of one document meet them: its objects are read as they are stored, and no process
writes them. -/
structure Readable (docKey : Str) (answer : Service) : Prop where
  reads : ∀ calls key world, OfDocument docKey key →
    (answer calls (.s3 (.getObject key)) world).1 = .ok (world.store key)
  unwritten : ∀ calls op world key, (∀ target obj, op ≠ .s3 (.putObject target obj)) → OfDocument docKey key →
    (answer calls op world).2.store key = world.store key

/-- The objects of a document in the bucket. -/
structure Stored (config : Config) (docKey : Str) (pages : List Str) (totalLength : ℕ) (store : Store) : Prop where
  manifest : store (manifestKey docKey) = some (.manifest ⟨docKey, pages.length, totalLength, config.pageSize⟩)
  pages : ∀ index (bound : index < pages.length), store (pageKey docKey (index + 1)) = some (.text pages[index])

theorem Stored.keep {config : Config} {docKey : Str} {pages : List Str} {totalLength : ℕ} {store later : Store}
    (stored : Stored config docKey pages totalLength store)
    (same : ∀ key, OfDocument docKey key → later key = store key) :
    Stored config docKey pages totalLength later :=
  ⟨(same _ (.inl rfl)).trans stored.manifest, fun index bound => (same _ (.inr ⟨_, rfl⟩)).trans (stored.pages index bound)⟩

/-! ## Writing -/

section Writing

variable {config : Config} {parent : Option Message} {fates : List Step → Op → Fate} {calls seen : List Step}
  {world after : World} {docKey : Str}

/-- A put that returned has stored its object. -/
private theorem putBytes_eq_ok {key : Str} {obj : Obj}
    (put : (Storage.putBytes key obj).eval (respond config parent fates) calls world = (.ok (), seen, after)) :
    after.store = world.store.put key obj := by
  have answered := eval_perform_eq_ok put
  unfold respond at answered
  cases carried : (Op.s3 (.putObject key obj)).carry config parent world (fates calls (.s3 (.putObject key obj))) with
  | none =>
    rw [carried] at answered
    cases answered
  | some result =>
    rw [carried] at answered
    cases answered
    rcases carry_s3 carried with ⟨_, _, rfl⟩ | ⟨_, _, ⟨⟩, _⟩ | ⟨_, _, ⟨⟩, _⟩
    rfl

/-- The pages of a document after they were written from a given number on; earlier ones stay. -/
private theorem putPages_eq_ok {pages : List Str} {first : ℕ}
    (put : (Storage.putPages docKey first pages).eval (respond config parent fates) calls world = (.ok (), seen, after)) :
    (∀ index (bound : index < pages.length), after.store (pageKey docKey (first + index)) = some (.text pages[index])) ∧
      ∀ number < first, after.store (pageKey docKey number) = world.store (pageKey docKey number) := by
  induction pages generalizing first calls world with
  | nil =>
    cases put
    exact ⟨fun index bound => absurd bound (Nat.not_lt_zero index), fun _ _ => rfl⟩
  | cons content rest ih =>
    obtain ⟨_, _, middle, one, others⟩ := eval_bind_eq_ok put
    have stored := putBytes_eq_ok one
    obtain ⟨later, earlier⟩ := ih others
    refine ⟨fun index bound => ?_, fun number less => ?_⟩
    · cases index with
      | zero =>
        rw [Nat.add_zero, earlier first (Nat.lt_succ_self first), stored, Store.put_apply, if_pos rfl]
        rfl
      | succ index =>
        have next := later index (Nat.lt_of_succ_lt_succ bound)
        rw [Nat.succ_add_eq_add_succ] at next
        exact next
    · rw [earlier number (Nat.lt_succ_of_lt less), stored, Store.put_apply, if_neg]
      rw [pageKey_inj]
      omega

/-- After `put_document` has returned the document is stored. -/
theorem stored_of_putDocument {pages : List Str} {totalLength : ℕ} {manifest : Manifest}
    (put : (Storage.putDocument config docKey pages totalLength).eval (respond config parent fates) calls world =
      (.ok manifest, seen, after)) : Stored config docKey pages totalLength after.store := by
  obtain ⟨_, _, middle, written, rest⟩ := eval_bind_eq_ok put
  obtain ⟨_, _, final, last, rest⟩ := eval_bind_eq_ok rest
  cases rest
  have stored := putBytes_eq_ok last
  obtain ⟨contents, _⟩ := putPages_eq_ok written
  refine ⟨?_, fun index bound => ?_⟩
  · rw [stored, Store.put_apply, if_pos rfl]
  · rw [stored, Store.put_apply, if_neg (pageKey_ne_manifestKey _ _ _), Nat.add_comm]
    exact contents index bound

end Writing

/-! ## Reading -/

/-- The response for the page at an index of the document. -/
def pageResponse (config : Config) (docKey : Str) (pages : List Str) (totalLength index : ℕ) (content : Str) :
    PagePayload :=
  ⟨docKey, content, buildPagination docKey (index + 1) pages.length totalLength config.pageSize⟩

/-- The responses of a whole document. -/
def pageResponses (config : Config) (docKey : Str) (pages : List Str) (totalLength : ℕ) : List PagePayload :=
  pages.mapIdx (pageResponse config docKey pages totalLength)

/-- Read on from a response by one of its links until there is none, for at most `fuel` more pages. -/
def walk (docKey : Str) (link : Pagination → Option ℤ) : ℕ → PagePayload → Prog (Option (List PagePayload))
  | fuel, payload =>
    match link payload.pagination with
    | none => .pure (some [payload])
    | some page =>
      match fuel with
      | 0 => .pure none
      | fuel + 1 => do
        let next ← getPageEndpoint docKey page
        let others ← walk docKey link fuel next
        Pure.pure (others.map (payload :: ·))

/-- The 404 of the page endpoint. -/
def notFound : Exc := httpException 404 (lit "Document or page not found (it may have expired).")

section Reading

variable {α β : Type} (answer : Service) (config : Config) (docKey : Str) (pages : List Str) (totalLength : ℕ)

/-- From every world that holds the document the program comes to this result, and the document is kept. -/
def Yields (program : Prog α) (result : Except Exc α) : Prop :=
  ∀ calls world, Stored config docKey pages totalLength world.store → ∃ seen after,
    program.eval answer calls world = (result, seen, after) ∧ Stored config docKey pages totalLength after.store

variable {answer config docKey pages totalLength}

theorem Yields.bind {program : Prog α} {next : α → Prog β} {value : α} {result : Except Exc β}
    (first : Yields answer config docKey pages totalLength program (.ok value))
    (rest : Yields answer config docKey pages totalLength (next value) result) :
    Yields answer config docKey pages totalLength (program.bind next) result := by
  intro calls world stored
  obtain ⟨seen, after, same, kept⟩ := first calls world stored
  rw [eval_bind, same]
  exact rest seen after kept

theorem Yields.ofExcept (result : Except Exc α) :
    Yields answer config docKey pages totalLength (Program.ofExcept result) result := by
  intro calls world stored
  cases result <;> exact ⟨_, _, rfl, stored⟩

variable (readable : Readable docKey answer)

include readable

/-- A call that is answered with one value in every world. -/
theorem Yields.perform {op : Op} {value : op.Reply} (reading : ∀ target obj, op ≠ .s3 (.putObject target obj))
    (answered : ∀ calls world, Stored config docKey pages totalLength world.store →
      (answer calls op world).1 = .ok value) :
    Yields answer config docKey pages totalLength (request op) (.ok value) := by
  intro calls world stored
  refine ⟨calls ++ [⟨op, .ok value⟩], (answer calls op world).2, ?_,
    stored.keep fun key => readable.unwritten calls op world key reading⟩
  have same : answer calls op world = (.ok value, (answer calls op world).2) := Prod.ext (answered calls world stored) rfl
  rw [request, Program.perform, eval, same]
  rfl

theorem getManifest_yields : Yields answer config docKey pages totalLength (Storage.getManifest docKey)
    (.ok (some ⟨docKey, pages.length, totalLength, config.pageSize⟩)) := by
  have found : Yields answer config docKey pages totalLength (Storage.getBytes (manifestKey docKey))
      (.ok (some (.manifest ⟨docKey, pages.length, totalLength, config.pageSize⟩))) := by
    refine Yields.perform readable (by rintro _ _ ⟨⟩) fun calls world stored => ?_
    rw [readable.reads calls _ world (.inl rfl), stored.manifest]
  exact found.bind (Yields.ofExcept (.ok _))

theorem getPage_yields {index : ℕ} (bound : index < pages.length) :
    Yields answer config docKey pages totalLength (Storage.getPage docKey (index + 1)) (.ok (some pages[index])) := by
  have found : Yields answer config docKey pages totalLength (Storage.getBytes (pageKey docKey (index + 1)))
      (.ok (some (.text pages[index]))) := by
    refine Yields.perform readable (by rintro _ _ ⟨⟩) fun calls world stored => ?_
    rw [readable.reads calls _ world (.inr ⟨_, rfl⟩), stored.pages index bound]
  exact found.bind (Yields.ofExcept (.ok _))

theorem getPageEndpoint_yields {index : ℕ} (bound : index < pages.length) :
    Yields answer config docKey pages totalLength (getPageEndpoint docKey (index + 1))
      (.ok (pageResponse config docKey pages totalLength index pages[index])) := by
  refine Yields.bind (getManifest_yields readable) ?_
  dsimp only
  rw [if_neg (by omega), show ((index : ℤ) + 1).toNat = index + 1 from rfl]
  exact Yields.bind (getPage_yields readable bound) (Yields.ofExcept (.ok _))

theorem getPageEndpoint_rejects {page : ℤ} (outside : page < 1 ∨ pages.length < page) :
    Yields answer config docKey pages totalLength (getPageEndpoint docKey page) (.error notFound) := by
  refine Yields.bind (getManifest_yields readable) ?_
  dsimp only
  rw [if_pos outside]
  exact Yields.ofExcept (.error _)

theorem firstPagePayload_yields (nonempty : 0 < pages.length) :
    Yields answer config docKey pages totalLength
      (firstPagePayload docKey ⟨docKey, pages.length, totalLength, config.pageSize⟩)
      (.ok (some (pageResponse config docKey pages totalLength 0 pages[0]))) :=
  Yields.bind (getPage_yields readable nonempty) (Yields.ofExcept (.ok _))

end Reading

/-! ## Walking -/

section Walking

variable {answer : Service} {config : Config} {docKey : Str} {pages : List Str} {totalLength : ℕ}

/-- A list of responses each of which links to the next, the last to none. -/
inductive Route (answer : Service) (config : Config) (docKey : Str) (pages : List Str) (totalLength : ℕ)
    (link : Pagination → Option ℤ) : List PagePayload → Prop
  | last {payload : PagePayload} (done : link payload.pagination = none) :
      Route answer config docKey pages totalLength link [payload]
  | step {payload next : PagePayload} {rest : List PagePayload} {page : ℤ} (linked : link payload.pagination = some page)
      (fetched : Yields answer config docKey pages totalLength (getPageEndpoint docKey page) (.ok next))
      (others : Route answer config docKey pages totalLength link (next :: rest)) :
      Route answer config docKey pages totalLength link (payload :: next :: rest)

/-- Following the links visits the whole route if there is fuel for it. -/
theorem Route.walk {link : Pagination → Option ℤ} {first : PagePayload} {rest : List PagePayload}
    (route : Route answer config docKey pages totalLength link (first :: rest)) (fuel : ℕ) :
    Yields answer config docKey pages totalLength (walk docKey link fuel first)
      (.ok (if rest.length ≤ fuel then some (first :: rest) else none)) := by
  induction rest generalizing first fuel with
  | nil =>
    cases route with
    | last done =>
      rw [if_pos (by exact Nat.zero_le fuel), Api.walk.eq_def]
      simp only [done]
      exact Yields.ofExcept (.ok _)
  | cons next rest ih =>
    cases route with
    | step linked fetched others =>
      rw [Api.walk.eq_def]
      simp only [linked]
      cases fuel with
      | zero =>
        rw [if_neg (by exact Nat.not_succ_le_zero _)]
        exact Yields.ofExcept (.ok _)
      | succ fuel =>
        refine fetched.bind ((ih others fuel).bind ?_)
        simp only [List.length_cons, Nat.succ_le_succ_iff]
        split
        · exact Yields.ofExcept (.ok _)
        · exact Yields.ofExcept (.ok _)

variable {index : ℕ} (bound : index < pages.length)

include bound

private theorem drop_pageResponses : (pageResponses config docKey pages totalLength).drop index =
    pageResponse config docKey pages totalLength index pages[index] ::
      (pageResponses config docKey pages totalLength).drop (index + 1) := by
  rw [List.drop_eq_getElem_cons (by rw [pageResponses, List.length_mapIdx]; exact bound)]
  simp only [pageResponses, List.getElem_mapIdx]

private theorem take_pageResponses : ((pageResponses config docKey pages totalLength).take (index + 1)).reverse =
    pageResponse config docKey pages totalLength index pages[index] ::
      ((pageResponses config docKey pages totalLength).take index).reverse := by
  rw [List.take_succ_eq_append_getElem (by rw [pageResponses, List.length_mapIdx]; exact bound), List.reverse_append]
  simp only [pageResponses, List.getElem_mapIdx, List.reverse_singleton, List.singleton_append]

/-- The links to the next page lead from any page to the end. -/
theorem route_nextPage (readable : Readable docKey answer) :
    Route answer config docKey pages totalLength (·.nextPage)
      ((pageResponses config docKey pages totalLength).drop index) := by
  obtain ⟨gap, span⟩ : ∃ gap, pages.length = index + gap + 1 := ⟨pages.length - index - 1, by omega⟩
  induction gap generalizing index with
  | zero =>
    rw [drop_pageResponses bound, List.drop_of_length_le (by rw [pageResponses, List.length_mapIdx]; omega)]
    refine .last ?_
    simp only [pageResponse, buildPagination]
    rw [if_neg (by rw [decide_eq_true_iff]; omega)]
  | succ gap ih =>
    have more : index + 1 < pages.length := by omega
    have others := ih more (by omega)
    rw [drop_pageResponses more] at others
    rw [drop_pageResponses bound, drop_pageResponses more]
    refine .step ?_ (getPageEndpoint_yields readable more) others
    simp only [pageResponse, buildPagination]
    rw [if_pos (decide_eq_true (by omega))]
    rfl

/-- The links to the page before lead from any page back to the first. -/
theorem route_prevPage (readable : Readable docKey answer) :
    Route answer config docKey pages totalLength (·.prevPage)
      ((pageResponses config docKey pages totalLength).take (index + 1)).reverse := by
  induction index with
  | zero =>
    rw [take_pageResponses bound]
    exact .last rfl
  | succ index ih =>
    have earlier : index < pages.length := by omega
    have others := ih earlier
    rw [take_pageResponses earlier] at others
    rw [take_pageResponses bound, take_pageResponses earlier]
    refine .step ?_ (getPageEndpoint_yields readable earlier) others
    simp only [pageResponse, buildPagination]
    rw [if_pos (decide_eq_true (by omega)), Int.add_sub_cancel]
    rfl

end Walking

/-- What readers get from a stored document: the responses `visited` for its pages, first one by three ways, then by
the links in either direction, and nothing else. -/
structure Walkable (env : Env) (answer : Service) (docKey : Str) (pages : List Str) (visited : List PagePayload)
    (first last : PagePayload) (world : World) : Prop where
  contents : visited.map (·.content) = pages
  ends : visited.head? = some first ∧ visited.getLast? = some last
  cached : ∀ calls url useLlm file row, env.makeDocKey (env.sha256 file) useLlm = docKey →
    (∀ calls world, (answer calls (.tool (.download url)) world).1 = .ok file) →
    (∀ calls world, (answer calls (.db (.findCachedDocument docKey)) world).1 = .ok (some row)) →
    ((submit env url useLlm).eval answer calls world).1 = .ok (.cached first)
  completed : ∀ calls job, job.docKey = docKey → job.status ≠ .failed →
    ((completedJobPayload job).eval answer calls world).1 = .ok first
  fetched : ∀ calls, ((getPageEndpoint docKey 1).eval answer calls world).1 = .ok first
  forward : ∀ calls fuel, ((walk docKey (·.nextPage) fuel first).eval answer calls world).1 =
    .ok (if pages.length ≤ fuel + 1 then some visited else none)
  backward : ∀ calls fuel, ((walk docKey (·.prevPage) fuel last).eval answer calls world).1 =
    .ok (if pages.length ≤ fuel + 1 then some visited.reverse else none)
  rejected : ∀ calls (page : ℤ), page < 1 ∨ pages.length < page →
    ((getPageEndpoint docKey page).eval answer calls world).1 = .error notFound

section Walkable

variable {answer : Service} {config : Config} {docKey : Str} {pages : List Str} {totalLength : ℕ}

private theorem Yields.result {α : Type} {program : Prog α} {result : Except Exc α}
    (yields : Yields answer config docKey pages totalLength program result) {world : World}
    (stored : Stored config docKey pages totalLength world.store) (calls : List Step) :
    (program.eval answer calls world).1 = result := by
  obtain ⟨seen, after, same, _⟩ := yields calls world stored
  rw [same]

/-- A walk over a known route, by the number of its responses. -/
private theorem walk_route {link : Pagination → Option ℤ} {route : List PagePayload} {first : PagePayload}
    {rest : List PagePayload} (connected : Route answer config docKey pages totalLength link route)
    (shape : route = first :: rest) (long : route.length = pages.length) {world : World}
    (stored : Stored config docKey pages totalLength world.store) (calls : List Step) (fuel : ℕ) :
    ((walk docKey link fuel first).eval answer calls world).1 =
      .ok (if pages.length ≤ fuel + 1 then some route else none) := by
  subst shape
  rw [(connected.walk fuel).result stored calls]
  simp only [← long, List.length_cons, Nat.add_le_add_iff_right]

/-- The first page, by the three ways there are to it. -/
private theorem first_yields (readable : Readable docKey answer) (positive : 0 < pages.length) (job : JobRow)
    (keyed : job.docKey = docKey) (finished : job.status ≠ .failed) :
    Yields answer config docKey pages totalLength (completedJobPayload job)
      (.ok (pageResponse config docKey pages totalLength 0 pages[0])) := by
  subst keyed
  rw [completedJobPayload, if_neg finished]
  refine (getManifest_yields readable).bind ?_
  exact (firstPagePayload_yields readable positive).bind (Yields.ofExcept (.ok _))

private theorem submit_yields {env : Env} (readable : Readable docKey answer) (positive : 0 < pages.length) {url : Str}
    {useLlm : Bool} {file : Bytes} {row : DocumentRow} (keyed : env.makeDocKey (env.sha256 file) useLlm = docKey)
    (downloads : ∀ calls world, (answer calls (.tool (.download url)) world).1 = .ok file)
    (recorded : ∀ calls world, (answer calls (.db (.findCachedDocument docKey)) world).1 = .ok (some row)) :
    Yields answer config docKey pages totalLength (submit env url useLlm)
      (.ok (.cached (pageResponse config docKey pages totalLength 0 pages[0]))) := by
  refine (Yields.perform readable (by rintro _ _ ⟨⟩) fun calls world _ => downloads calls world).bind ?_
  rw [keyed]
  have hit : Yields answer config docKey pages totalLength (cachedPayload docKey)
      (.ok (some (pageResponse config docKey pages totalLength 0 pages[0]))) := by
    refine (Yields.perform readable (by rintro _ _ ⟨⟩) fun calls world _ => recorded calls world).bind ?_
    exact (getManifest_yields readable).bind (firstPagePayload_yields readable positive)
  exact hit.bind (Yields.ofExcept (.ok _))

/-- A page list that `put_document` has stored can be read page by page, from the first to the last and back, as long
as nobody writes the document; every other page number is not found. -/
theorem walkable_of_putDocument (env : Env) (docKey : Str) (pages : List Str) (totalLength : ℕ) (nonempty : pages ≠ [])
    (parent : Option Message) (fates : List Step → Op → Fate) (calls : List Step) (world : World) {seen : List Step}
    {written later : World} {manifest : Manifest} (put : (Storage.putDocument env.toConfig docKey pages totalLength).eval
      (respond env.toConfig parent fates) calls world = (.ok manifest, seen, written))
    (unwritten : ∀ key, OfDocument docKey key → later.store key = written.store key) (answer : Service)
    (readable : Readable docKey answer) :
    ∃ visited first last, Walkable env answer docKey pages visited first last later := by
  have stored := (stored_of_putDocument put).keep unwritten
  have positive : 0 < pages.length := List.length_pos_iff.mpr nonempty
  have final : pages.length - 1 < pages.length := by omega
  have long : (pageResponses env.toConfig docKey pages totalLength).length = pages.length := List.length_mapIdx
  have whole : (pageResponses env.toConfig docKey pages totalLength).take (pages.length - 1 + 1) =
      pageResponses env.toConfig docKey pages totalLength := List.take_of_length_le (by omega)
  have onward : Route answer env.toConfig docKey pages totalLength (·.nextPage)
      (pageResponses env.toConfig docKey pages totalLength) := route_nextPage positive readable
  have back : Route answer env.toConfig docKey pages totalLength (·.prevPage)
      (pageResponses env.toConfig docKey pages totalLength).reverse := whole ▸ route_prevPage final readable
  have start : pageResponses env.toConfig docKey pages totalLength = _ := drop_pageResponses positive
  have finish : (pageResponses env.toConfig docKey pages totalLength).reverse = _ :=
    (congrArg List.reverse whole.symm).trans (take_pageResponses final)
  have last : (pageResponses env.toConfig docKey pages totalLength).getLast? = some _ :=
    List.head?_reverse.symm.trans (congrArg List.head? finish)
  refine ⟨pageResponses env.toConfig docKey pages totalLength, _, _, ?_, ⟨congrArg List.head? start, last⟩, ?_, ?_, ?_, ?_,
    ?_, ?_⟩
  · rw [pageResponses, List.mapIdx_eq_zipIdx_map, List.map_map]
    exact List.zipIdx_map_fst 0 pages
  · intro calls url useLlm file row keyed downloads recorded
    exact (submit_yields readable positive keyed downloads recorded).result stored calls
  · intro calls job keyed finished
    exact (first_yields readable positive job keyed finished).result stored calls
  · intro calls
    exact (getPageEndpoint_yields readable positive).result stored calls
  · intro calls fuel
    exact walk_route onward start long stored calls fuel
  · intro calls fuel
    exact walk_route back finish (List.length_reverse.trans long) stored calls fuel
  · intro calls page outside
    exact (getPageEndpoint_rejects readable outside).result stored calls

/-- The services of a process that runs alone and meets no fault. -/
theorem readable_respond (config : Config) (docKey : Str) : Readable docKey (respond config none fun _ _ => .done) := by
  refine ⟨fun _ _ _ _ => rfl, fun calls op world key reading _ => ?_⟩
  cases op with
  | s3 request =>
    cases request with
    | putObject target obj => exact absurd rfl (reading target obj)
    | _ => rfl
  | tool request => cases request <;> rfl
  | _ => rfl

/-- A document of two pages. -/
theorem walkable_of_two_pages :
    ∃ visited first last, Walkable (sampleEnv {}) (respond {} none fun _ _ => .done) (lit "doc") [lit "a", lit "b"] visited
      first last ((Storage.putDocument {} (lit "doc") [lit "a", lit "b"] 2).eval (respond {} none fun _ _ => .done) []
        ⟨.empty, fun _ => none, ⟨[], 0⟩⟩).2.2 :=
  walkable_of_putDocument (sampleEnv {}) (lit "doc") [lit "a", lit "b"] 2 (by decide) none (fun _ _ => .done) [] _ rfl
    (fun _ _ => rfl) _ (readable_respond {} (lit "doc"))

end Walkable

end MarkitdownServer.Api
