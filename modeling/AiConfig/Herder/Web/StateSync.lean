import AiConfig.Herder.State.History

/-! # One browser's sync with a namespace

Transcription of `web/src/shared/stateSync.ts` over a last-write-wins row store.  Every
`await` is a place where other events come in: an answer is first given by the server and
later lands, a continuation that waits for a pull is resumed by an event of its own, and
so is the step from one POST of a send loop to the next. -/

namespace AiConfig.Herder

inductive Problem where
  /-- 409, attribution required. -/
  | attributionRequired
  /-- 413. -/
  | tooLarge
  | other
  deriving DecidableEq

def StoreError.problem : StoreError → Problem
  | .valueTooLarge _ _ _ | .rowLimit _ _ => .tooLarge
  | .namespaceNotFound | .unavailable | .keyAndWriteIDRequired | .invalidValue _ => .other

/-- What a transport's `since` makes of an answer: a namespace that is not found, a 404, has no
rows. -/
def transported {V : Type} : Except StoreError (Snapshot V) → Except Problem (Snapshot V)
  | .ok snapshot => .ok snapshot
  | .error .namespaceNotFound => .ok ⟨[], 0, 0⟩
  | .error problem => .error problem.problem

/-- Who waits for a pull: `start`, the callers that send next, the end of a send loop. -/
inductive Waiter where
  | start | sendQueue | sendOnce
  deriving DecidableEq

structure Pull (V : Type) where
  full : Bool
  since : Nat
  answer : Option (Except Problem (Snapshot V))

inductive Send (V : Type) where
  /-- A POST of `rows`; `split` are the rows of a refused chunk still to post alone. -/
  | posting (rows split : List (Row V)) (chunks : List (List (Row V)))
      (answer : Option (Except Problem UpsertResult))
  | between (split : List (Row V)) (chunks : List (List (Row V)))
  | pulling
  | ending

structure Page (V : Type) where
  rows : List (Row V)
  queue : List String
  held : List String
  cursor : Nat
  catchUp : Bool
  retryScheduled : Bool
  backoff : Nat
  pull : Option (Pull V)
  pullAgain : Bool
  send : Option (Send V)
  sendAgain : Bool
  attributionBlocked : Bool
  /-- Waiting for the pull in flight. -/
  awaiting : List Waiter
  /-- Their pull has settled. -/
  ready : List Waiter
  storedQueue : List String
  storedCursor : Nat
  /-- The browser's storage takes writes. -/
  persists : Bool

structure SyncOptions (V : Type) where
  size : Row V → Nat
  maxPostBytes : Nat
  /-- The store has `forget`. -/
  forgets : Bool

section

variable {V : Type}

def Page.row (page : Page V) (key : String) : Option (Row V) := firstOf page.rows key

def addKey (queue : List String) (key : String) : List String :=
  if key ∈ queue then queue else queue ++ [key]

/-- `createStateSync` over what the browser kept. -/
def Page.load (rows : List (Row V)) (queue : List String) (cursor : Nat) (persists : Bool) :
    Page V where
  rows := rows
  queue := queue.foldl addKey []
  held := []
  cursor := cursor
  catchUp := true
  retryScheduled := false
  backoff := 500
  pull := none
  pullAgain := false
  send := none
  sendAgain := false
  attributionBlocked := false
  awaiting := []
  ready := []
  storedQueue := queue
  storedCursor := cursor
  persists := persists

/-! ## The queue -/

def envelopeBytes : Nat := 11

/-- `chunk` is open and holds `bytes`. -/
def chunkLoop (size : Row V → Nat) (maxBytes : Nat) : List (Row V) → List (Row V) → Nat → List
    (List (Row V))
  | [], chunk, _ => if chunk.isEmpty then [] else [chunk]
  | row :: rest, chunk, bytes =>
    if !chunk.isEmpty && maxBytes < bytes + 1 + size row then
      chunk :: chunkLoop size maxBytes rest [row] (envelopeBytes + size row)
    else chunkLoop size maxBytes rest (chunk ++ [row])
      (bytes + (if chunk.isEmpty then 0 else 1) + size row)

def chunkRows (size : Row V → Nat) (maxBytes : Nat) (rows : List (Row V)) : List (List (Row V)) :=
  chunkLoop size maxBytes rows [] envelopeBytes

def Page.writeQueue (page : Page V) : Page V :=
  if page.persists then { page with storedQueue := page.queue } else page

def Page.enqueueKeys (page : Page V) (keys : List String) : Page V :=
  let queue := keys.foldl addKey page.queue
  if queue.length = page.queue.length then { page with queue := queue }
  else { page with queue := queue }.writeQueue

def Page.dequeueKeys (page : Page V) (keys : List String) : Page V :=
  let queue := page.queue.filter fun key => key ∉ keys
  if queue.length = page.queue.length then page else { page with queue := queue }.writeQueue

def Page.forget (options : SyncOptions V) (page : Page V) (keys : List String) : Page V :=
  if keys.isEmpty then page
  else
    let rows := if options.forgets then page.rows.filter fun row => row.key ∉ keys else page.rows
    { page with rows := rows }.dequeueKeys keys

def Page.waiting (page : Page V) : List String := page.queue.filter fun key => key ∉ page.held

/-! ## Failures -/

def Page.scheduleRetry (page : Page V) : Page V :=
  if page.retryScheduled then page
  else { page with retryScheduled := true, backoff := min (page.backoff * 2) 10000 }

def Page.handleFailure (page : Page V) (problem : Problem) : Page V :=
  match problem with
  | .attributionRequired => { page with attributionBlocked := true, retryScheduled := false }
  | .tooLarge | .other => page.scheduleRetry

/-! ## Pulls -/

def Page.requestPull (page : Page V) (waiter : Option Waiter) : Page V :=
  match page.pull with
  | some _ => { page with pullAgain := true, awaiting := page.awaiting ++ waiter.toList }
  | none =>
    { page with
      pull := some ⟨page.catchUp, if page.catchUp then 0 else page.cursor, none⟩
      awaiting := page.awaiting ++ waiter.toList }

/-- The keys a pulled row retires. -/
def Page.retired (page : Page V) (pulled : List (Row V)) : List String :=
  page.queue.filter fun key =>
    match page.row key, firstOf pulled.reverse key with
    | none, _ => true
    | some _, none => false
    | some own, some remote => 0 ≤ remote.compare own

/-- The rows that a full pull shows as purged. -/
def purgedRow (pulled : List (Row V)) (horizon : Int) (row : Row V) : Bool :=
  (firstOf pulled.reverse row.key).isNone && 0 < horizon && row.updated ≤ horizon

/-- What a full pull shows to be missing or older on the server. -/
def missingRow (pulled : List (Row V)) (row : Row V) : Bool :=
  match firstOf pulled.reverse row.key with
  | none => true
  | some remote => 0 < row.compare remote

def Page.merge (page : Page V) (answer : Snapshot V) : Page V :=
  { page with
    attributionBlocked := false
    rows := answer.rows.foldl addCandidate page.rows
    cursor := answer.rev
    storedCursor := if page.persists then answer.rev else page.storedCursor }

/-- A full pull has landed: only the difference is sent, and what was purged is dropped. -/
def Page.caughtUp (options : SyncOptions V) (page : Page V) (answer : Snapshot V) : Page V :=
  let purged := page.rows.filter (purgedRow answer.rows answer.horizon)
  let missing := page.rows.filter fun row =>
    !purgedRow answer.rows answer.horizon row && missingRow answer.rows row
  ({ page with catchUp := false }.enqueueKeys (missing.map Row.key)).forget options
    (purged.map Row.key)

def Page.pullLands (options : SyncOptions V) (page : Page V) (full : Bool) (answer : Snapshot V) :
    Page V :=
  let merged := page.merge answer
  let trimmed :=
    if answer.rows.isEmpty then merged else merged.dequeueKeys (merged.retired answer.rows)
  if full then trimmed.caughtUp options answer else trimmed

/-- The pull settles: its waiters go on, and a pull asked for meanwhile starts. -/
def Page.pullSettles (page : Page V) : Page V :=
  let page := { page with pull := none, ready := page.ready ++ page.awaiting, awaiting := [] }
  if page.pullAgain then { page with pullAgain := false }.requestPull none else page

/-! ## Sends -/

def Page.sendOnce (options : SyncOptions V) (page : Page V) : Page V :=
  if page.attributionBlocked then { page with send := some .ending }
  else
    let keys := page.waiting
    let rows := keys.filterMap page.row
    -- A queued key whose row is gone has nothing to send.
    let page := page.dequeueKeys (keys.filter fun key => (page.row key).isNone)
    match chunkRows options.size options.maxPostBytes rows with
    | [] => { page with send := some .ending }
    | chunk :: chunks => { page with send := some (.posting chunk [] chunks none) }

def Page.sendQueue (options : SyncOptions V) (page : Page V) : Page V :=
  match page.send with
  | some _ => { page with sendAgain := true }
  | none => page.sendOnce options

/-- The store has nothing newer than what was sent. -/
def Page.unchanged (page : Page V) (row : Row V) : Bool :=
  (page.row row.key).all fun own => own.compare row ≤ 0

/-- The stale keys that did not change since they were sent. -/
def Page.dropped (page : Page V) (rows : List (Row V)) (stale : List String) : List String :=
  stale.filter fun key =>
    match page.row key, firstOf rows.reverse key with
    | some own, some row => own.compare row ≤ 0
    | _, _ => false

/-- A POST that was answered 200. -/
def Page.posted (options : SyncOptions V) (page : Page V) (rows : List (Row V))
    (answer : UpsertResult) : Page V :=
  (page.forget options (page.dropped rows answer.stale)).dequeueKeys
    ((rows.filter page.unchanged).map (·.key))

def Page.postLands (options : SyncOptions V) (page : Page V) (rows split : List (Row V))
    (chunks : List (List (Row V)))
    (answer : Except Problem UpsertResult) : Page V :=
  match answer with
  | .ok result => { page.posted options rows result with send := some (.between split chunks) }
  -- What is too large is halved; a row that is alone is held back until it changes.
  | .error .tooLarge =>
    match rows with
    | row :: next :: rest => { page with send := some (.between (row :: next :: rest) chunks) }
    | _ =>
      { page with
        held := rows.foldl (fun held row => addKey held row.key) page.held
        send := some (.between split chunks) }
  | .error problem => { page.handleFailure problem with send := some .ending }

/-- The send loop goes on. -/
def Page.proceed (page : Page V) (split : List (Row V)) (chunks : List (List (Row V))) : Page V :=
  match split, chunks with
  | row :: rest, chunks => { page with send := some (.posting [row] rest chunks none) }
  | [], chunk :: chunks => { page with send := some (.posting chunk [] chunks none) }
  | [],
      [] => { { page with backoff := 500 }.requestPull (some .sendOnce) with send := some .pulling }

def Page.sendEnds (options : SyncOptions V) (page : Page V) : Page V :=
  let page := { page with send := none }
  if page.sendAgain then { page with sendAgain := false }.sendQueue options else page

def Page.resume (options : SyncOptions V) (page : Page V) : Waiter → Page V
  | .start =>
    let page := if page.catchUp then page.enqueueKeys (page.rows.map (·.key)) else page
    page.sendQueue options
  | .sendQueue => page.sendQueue options
  | .sendOnce => { page with send := some .ending }

/-! ## Local edits -/

def putRow : List (Row V) → Row V → List (Row V)
  | [], row => [row]
  | current :: rest, row =>
    if current.key = row.key then row :: rest else current :: putRow rest row

def Page.mutate (options : SyncOptions V) (page : Page V) (rows : List (Row V)) : Page V :=
  let keys := rows.map (·.key)
  let page :=
    { page with rows := rows.foldl putRow page.rows, held := page.held.filter fun key => key ∉ keys }
  (page.enqueueKeys keys).sendQueue options

/-! ## The browser and the server -/

inductive Event (V : Type) where
  | mutate (rows : List (Row V))
  | start
  | stateChanged (rev : Nat)
  /-- The timer of a scheduled retry. -/
  | retryFires
  | retryNow
  | pullServed (faults : Faults)
  | pullFails (problem : Problem)
  | pullLands
  | postServed (faults : Faults)
  | postFails (problem : Problem)
  | postLands
  | proceed
  | resume (waiter : Waiter)
  | sendEnds
  | storage (persists : Bool)
  | reload
  /-- Another caller of the server, a sweep or a restart. -/
  | server (made : Call V)

structure World (V : Type) where
  server : NamespaceState V
  page : Page V

structure WorldOptions (V : Type) where
  values : Values V
  limits : Limits
  ns : String
  sync : SyncOptions V

/-- An event that does not apply changes nothing. -/
def Event.run (options : WorldOptions V) (world : World V) : Event V → World V
  | .mutate rows => { world with page := world.page.mutate options.sync rows }
  | .start => { world with page := world.page.requestPull (some .start) }
  -- An announcement of a revision that the page has is ignored.
  | .stateChanged rev =>
    if rev ≤ world.page.cursor then world
    else { world with page := world.page.requestPull (some .sendQueue) }
  | .retryFires =>
    if world.page.retryScheduled then
      { world with page := { world.page with retryScheduled := false }.requestPull (some
        .sendQueue) }
    else world
  | .retryNow =>
      { world with page := { world.page with retryScheduled := false }.requestPull (some
      .sendQueue) }
  -- The server answers the pull that is under way; the answer lands later.
  | .pullServed faults =>
    match world.page.pull with
    | some ⟨full, revision, none⟩ =>
      let (answer, state) := since world.server revision faults
      ⟨state, { world.page with pull := some ⟨full, revision, some (transported answer)⟩ }⟩
    | _ => world
  | .pullFails problem =>
    match world.page.pull with
    | some ⟨full, revision, none⟩ =>
      { world with page := { world.page with pull := some ⟨full, revision,
        some (.error problem)⟩ } }
    | _ => world
  | .pullLands =>
    match world.page.pull with
    | some ⟨full, _, some (.ok snapshot)⟩ =>
      { world with page := (world.page.pullLands options.sync full snapshot).pullSettles }
    | some ⟨_, _, some (.error problem)⟩ =>
        { world with page := (world.page.handleFailure problem).pullSettles }
    | _ => world
  -- Likewise for a post; a network failure is `postFails`, whether or not it was served.
  | .postServed faults =>
    match world.page.send with
    | some (.posting rows split chunks none) =>
      match upsert options.values options.limits world.server rows faults with
      | (.ok result, state) => ⟨state,
          { world.page with send := some (.posting rows split chunks (some (.ok result))) }⟩
      | (.error problem, state) =>
        ⟨state,
          { world.page with send := some (.posting rows split chunks
          (some (.error problem.problem))) }⟩
    | _ => world
  | .postFails problem =>
    match world.page.send with
    | some (.posting rows split chunks none) =>
      { world with page := { world.page with send := some (.posting rows split chunks
        (some (.error problem))) } }
    | _ => world
  | .postLands =>
    match world.page.send with
    | some (.posting rows split chunks (some answer)) =>
      { world with page := world.page.postLands options.sync rows split chunks answer }
    | _ => world
  | .proceed =>
    match world.page.send with
    | some (.between split chunks) => { world with page := world.page.proceed split chunks }
    | _ => world
  | .resume waiter =>
    if waiter ∈ world.page.ready then
      { world with page := { world.page with ready := world.page.ready.erase waiter }.resume options.sync waiter }
    else world
  | .sendEnds =>
    match world.page.send with
    | some .ending => { world with page := world.page.sendEnds options.sync }
    | _ => world
  | .storage persists => { world with page := { world.page with persists := persists } }
  | .reload =>
    { world with page := .load world.page.rows world.page.storedQueue world.page.storedCursor world.page.persists }
  | .server made =>
      { world with server := made.run options.values options.limits options.ns world.server }

def World.run (options : WorldOptions V) (world : World V) (events : List (Event V)) : World V :=
  events.foldl (Event.run options) world

end

end AiConfig.Herder
