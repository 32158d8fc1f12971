import Mathlib.Data.List.Basic
import AiConfig.Lib.Transition

/-! # The live stream's subscription

Transcription of `subscribeToFleet` of the web client's `useFleetStream.ts`, as far as it decides
what the stream follows.  An event source is the number of its connection; what is taken of the
outside is an event: a timer that fires, an answer, a stream that says hello.

* `State.step` — one event.
* `Followed` — the live stream follows what the page shows, where nothing is pending.
* `stream_follows` — in which runs it does, and one update at a time in all of them. -/

namespace AiConfig.Herder.FleetStream

/-- A subscription update that is not answered, and the connection it was made on. -/
structure Post (K : Type) where
  connection : Nat
  wanted : K

/-- Targets are of type `T`, and `fleetTargetsKey` is `key`. -/
structure State (T K : Type) where
  active : Bool
  events : Option Nat
  /-- The next connection. -/
  next : Nat
  reconnectTimer : Bool
  settleTimer : Bool
  targets : T
  following : K
  streamID : Option String
  posting : Bool
  /-- What the network has of `posting`. -/
  posts : List (Post K)

inductive Event (T : Type) where
  | update (next : T)
  | settled
  /-- The stream's hello, which may name it. -/
  | hello (stream : Option String)
  /-- A subscription POST is answered; a failed one is not taken. -/
  | answered (index : Nat) (taken created : Bool)
  | error
  | watchdog
  /-- `created` is whether the event source could be made. -/
  | reconnect (created : Bool)
  | close

section

variable {T K : Type}

namespace State

def scheduleReconnect (s : State T K) : State T K :=
  if !s.active || s.reconnectTimer then s else { s with events := none, reconnectTimer := true }

/-- `streamID` of a connection that has one: an empty one is none. -/
def announced (s : State T K) : Bool := s.streamID.any (· ≠ "")

variable [DecidableEq K] (key : T → K) (targetsFromKey : K → T)

def retarget (s : State T K) : State T K :=
  match s.events with
  | none => s
  | some connection =>
    if !s.active || !s.announced || s.posting || key s.targets = s.following then s
    else { s with posting := true, posts := s.posts ++ [⟨connection, key s.targets⟩] }

omit [DecidableEq K] in
def connect (created : Bool) (s : State T K) : State T K :=
  if !s.active then s
  else if created then
    { s with streamID := none, following := key s.targets, events := some s.next, next := s.next + 1 }
  else { s with streamID := none, following := key s.targets }.scheduleReconnect

def update (next : T) (s : State T K) : State T K :=
  if !s.active then s else { s with targets := targetsFromKey (key next), settleTimer := true }

omit [DecidableEq K] in
def freed (index : Nat) (s : State T K) : State T K :=
  { s with posting := false, posts := s.posts.eraseIdx index }

/-- The end of a POST. -/
def answer (index : Nat) (taken created : Bool) (s : State T K) : State T K :=
  match s.posts[index]? with
  | none => s
  | some post =>
    if !s.active || s.events ≠ some post.connection then s.freed index
    else if !taken then { s.freed index with events := none }.connect key created
    else { s.freed index with following := post.wanted }.retarget key

/-- The settle timer fires. -/
def settled (s : State T K) : State T K :=
  if s.settleTimer then { s with settleTimer := false }.retarget key else s

def hello (stream : Option String) (s : State T K) : State T K :=
  if s.active && s.events.isSome then
    if s.settleTimer then { s with streamID := stream }
    else { s with streamID := stream }.retarget key
  else s

omit [DecidableEq K] in
def error (s : State T K) : State T K := if s.events.isSome then s.scheduleReconnect else s

omit [DecidableEq K] in
/-- The reconnect timer fires. -/
def reconnect (created : Bool) (s : State T K) : State T K :=
  if s.reconnectTimer then { s with reconnectTimer := false }.connect key created else s

omit [DecidableEq K] in
def close (s : State T K) : State T K :=
  { s with active := false, reconnectTimer := false, settleTimer := false }

/-- An event that cannot happen changes nothing. -/
def step (s : State T K) : Event T → State T K
  | .update next => s.update key targetsFromKey next
  | .settled => s.settled key
  | .hello stream => s.hello key stream
  | .answered index taken created => s.answer key index taken created
  | .error => s.error
  | .watchdog => s.scheduleReconnect
  | .reconnect created => s.reconnect key created
  | .close => s.close

omit [DecidableEq K] in
/-- What `subscribeToFleet` starts with. -/
def start (targets : T) : State T K :=
  { active := true, events := none, next := 0, reconnectTimer := false, settleTimer := false, targets, following := key targets,
    streamID := none, posting := false, posts := [] }

omit [DecidableEq K] in
/-- `subscribeToFleet(queryClient, initial)` -/
def subscribe (initial : T) (created : Bool) : State T K :=
  (State.start key (targetsFromKey (key initial))).connect key created

def run (s : State T K) (events : List (Event T)) : State T K :=
  events.foldl (step key targetsFromKey) s

end State

variable {key : T → K} {targetsFromKey : K → T}

/-! ## What is to hold -/

/-- Nothing is left to change what the live stream follows. -/
def Quiet (s : State T K) : Prop :=
  s.active = true ∧ s.events.isSome = true ∧ s.announced = true ∧ s.settleTimer = false

/-- The live stream follows the latest targets, where it is known, they have settled and no POST is
in flight. -/
def Followed (key : T → K) (s : State T K) : Prop :=
  Quiet s → s.posts = [] → s.following = key s.targets

/-- An answer to a POST of an earlier connection finds the later one following the latest targets,
or not yet quiet. -/
def Met (key : T → K) (s : State T K) : Event T → Prop
  | .answered index _ _ => ∀ post, s.posts[index]? = some post → s.events ≠ some post.connection →
      Quiet s → s.following = key s.targets
  | _ => True

/-! ## Steps -/

/-- One POST at most, and `posting` while there is one. -/
structure Posting (s : State T K) : Prop where
  one : s.posts.length ≤ 1
  flag : s.posting = !s.posts.isEmpty

section

variable {s : State T K}

theorem Posting.of_same {s' : State T K} (own : Posting s) (posts : s'.posts = s.posts)
    (posting : s'.posting = s.posting) : Posting s' :=
  ⟨by rw [posts]; exact own.one, by rw [posts, posting]; exact own.flag⟩

theorem scheduleReconnect_posts (s : State T K) :
    s.scheduleReconnect.posts = s.posts ∧ s.scheduleReconnect.posting = s.posting := by
  unfold State.scheduleReconnect
  split <;> exact ⟨rfl, rfl⟩

/-- A stream that is given up is not live. -/
theorem followed_scheduleReconnect (followed : Followed key s) :
    Followed key s.scheduleReconnect := by
  unfold State.scheduleReconnect
  split
  · exact followed
  · intro quiet
    cases quiet.2.1

theorem connect_posts (key : T → K) (s : State T K) (created : Bool) :
    (s.connect key created).posts = s.posts ∧ (s.connect key created).posting = s.posting := by
  unfold State.connect
  split
  · exact ⟨rfl, rfl⟩
  · split
    · exact ⟨rfl, rfl⟩
    · exact scheduleReconnect_posts _

/-- A new connection has not announced itself. -/
theorem followed_connect (created : Bool) (followed : Followed key s) :
    Followed key (s.connect key created) := by
  unfold State.connect
  split
  · exact followed
  · split
    · intro quiet
      cases quiet.2.2.1
    · refine followed_scheduleReconnect ?_
      intro quiet
      cases quiet.2.2.1

variable [DecidableEq K]

theorem Posting.retarget (own : Posting s) : Posting (s.retarget key) := by
  unfold State.retarget
  split
  · exact own
  · split
    · exact own
    · next free =>
      simp only [Bool.or_eq_true, not_or, Bool.not_eq_true] at free
      have none_ : s.posts = [] := by simpa [free.1.2] using own.flag
      exact ⟨by simp [none_], by simp⟩

/-- Retargeting leaves a POST in flight, or the stream following the targets. -/
theorem followed_retarget (own : Posting s) : Followed key (s.retarget key) := by
  unfold State.retarget
  split
  · next none_ =>
    intro quiet
    rw [Quiet, none_] at quiet
    cases quiet.2.1
  · split
    · next busy =>
      intro quiet free
      have idle : s.posting = false := by rw [own.flag, free]; rfl
      rw [quiet.1, quiet.2.2.1, idle] at busy
      exact (by simpa using busy : key s.targets = s.following).symm
    · intro _ free
      simp at free

omit [DecidableEq K] in
/-- What is in flight once the one POST is answered. -/
theorem Posting.freed (own : Posting s) {index : Nat} {post : Post K}
    (found : s.posts[index]? = some post) :
    (s.freed index).posts = [] ∧ Posting (s.freed index) := by
  have none_ : s.posts.eraseIdx index = [] := by
    have below : index < s.posts.length := (List.getElem?_eq_some_iff.mp found).1
    have one := own.one
    rw [← List.length_eq_zero_iff, List.length_eraseIdx_of_lt below]
    omega
  exact ⟨none_, by simp [State.freed, none_], by simp [State.freed, none_]⟩

theorem Posting.answer (own : Posting s) (index : Nat) (taken created : Bool) :
    Posting (s.answer key index taken created) := by
  unfold State.answer
  split
  · exact own
  · next post found =>
    obtain ⟨-, free⟩ := own.freed found
    split
    · exact free
    · split
      · obtain ⟨posts, posting⟩ := connect_posts key { s.freed index with events := none } created
        exact free.of_same posts posting
      · exact Posting.retarget (free.of_same rfl rfl)

theorem followed_answer (own : Posting s) (followed : Followed key s) {index : Nat}
    {taken created : Bool}
    (met : Met key s (.answered index taken created)) :
    Followed key (s.answer key index taken created) := by
  unfold State.answer
  split
  · exact followed
  · next post found =>
    obtain ⟨-, free⟩ := own.freed found
    split
    · next late =>
      intro quiet _
      have active : s.active = true := quiet.1
      exact met post found (by simpa [active] using late) quiet
    · split
      · refine followed_connect created ?_
        intro quiet
        cases quiet.2.1
      · exact followed_retarget (free.of_same rfl rfl)

/-- A POST answered late, while the later connection does not follow the targets. -/
theorem not_followed_answer (own : Posting s) {index : Nat} {taken created : Bool}
    (unmet : ¬ Met key s (.answered index taken created)) :
    ¬ Followed key (s.answer key index taken created) := by
  simp only [Met, not_forall] at unmet
  obtain ⟨post, found, late, quiet, apart⟩ := unmet
  have unchanged : s.answer key index taken created = s.freed index := by
    simp [State.answer, found, late]
  rw [unchanged]
  exact fun followed => apart (followed quiet (own.freed found).1)

theorem Posting.step (targetsFromKey : K → T) (own : Posting s) (event : Event T) :
    Posting (s.step key targetsFromKey event) := by
  cases event with
  | update next =>
    show Posting (s.update key targetsFromKey next)
    unfold State.update
    split
    · exact own
    · exact own.of_same rfl rfl
  | settled =>
    show Posting (s.settled key)
    unfold State.settled
    split
    · exact Posting.retarget (own.of_same rfl rfl)
    · exact own
  | hello stream =>
    show Posting (s.hello key stream)
    unfold State.hello
    split
    · split
      · exact own.of_same rfl rfl
      · exact Posting.retarget (own.of_same rfl rfl)
    · exact own
  | answered index taken created => exact own.answer index taken created
  | error =>
    show Posting s.error
    unfold State.error
    split
    · exact own.of_same (scheduleReconnect_posts s).1 (scheduleReconnect_posts s).2
    · exact own
  | watchdog => exact own.of_same (scheduleReconnect_posts s).1 (scheduleReconnect_posts s).2
  | reconnect created =>
    show Posting (s.reconnect key created)
    unfold State.reconnect
    split
    · obtain ⟨posts, posting⟩ := connect_posts key { s with reconnectTimer := false } created
      exact own.of_same posts posting
    · exact own
  | close => exact own.of_same rfl rfl

/-- One event keeps it, but for an answer that comes late. -/
theorem followed_step (targetsFromKey : K → T) (own : Posting s) (followed : Followed key s)
    {event : Event T} (met : Met key s event) :
    Followed key (s.step key targetsFromKey event) := by
  cases event with
  | update next =>
    show Followed key (s.update key targetsFromKey next)
    unfold State.update
    split
    · exact followed
    · intro quiet
      cases quiet.2.2.2
  | settled =>
    show Followed key (s.settled key)
    unfold State.settled
    split
    · exact followed_retarget (own.of_same rfl rfl)
    · exact followed
  | hello stream =>
    show Followed key (s.hello key stream)
    unfold State.hello
    split
    · split
      · next pending =>
        intro quiet
        have settled : s.settleTimer = false := quiet.2.2.2
        rw [settled] at pending
        cases pending
      · exact followed_retarget (own.of_same rfl rfl)
    · exact followed
  | answered index taken created => exact followed_answer own followed met
  | error =>
    show Followed key s.error
    unfold State.error
    split
    · exact followed_scheduleReconnect followed
    · exact followed
  | watchdog => exact followed_scheduleReconnect followed
  | reconnect created =>
    show Followed key (s.reconnect key created)
    unfold State.reconnect
    split
    · exact followed_connect created followed
    · exact followed
  | close =>
    intro quiet
    cases quiet.1

theorem not_followed_step (targetsFromKey : K → T) (own : Posting s) {event : Event T}
    (unmet : ¬ Met key s event) :
    ¬ Followed key (s.step key targetsFromKey event) := by
  cases event with
  | answered index taken created => exact not_followed_answer own unmet
  | _ => exact absurd trivial unmet

end

/-! ## Runs -/

section

variable [DecidableEq K] (targetsFromKey : K → T)

omit [DecidableEq K] in
theorem subscribe_start (initial : T) (created : Bool) :
    Posting (State.subscribe key targetsFromKey initial created) ∧
      Followed key (State.subscribe key targetsFromKey initial created) := by
  unfold State.subscribe
  obtain ⟨posts, posting⟩ :=
    connect_posts key (State.start key (targetsFromKey (key initial))) created
  have start : Posting (State.start key (targetsFromKey (key initial))) := ⟨Nat.zero_le 1, rfl⟩
  refine ⟨start.of_same posts posting, followed_connect created ?_⟩
  intro quiet
  cases quiet.2.1

theorem Posting.run {s : State T K} (own : Posting s) (events : List (Event T)) :
    Posting (s.run key targetsFromKey events) := by
  induction events generalizing s with
  | nil => exact own
  | cons event events inductionHypothesis =>
      exact inductionHypothesis (own.step targetsFromKey event)

theorem followed_run {s : State T K} (own : Posting s) (followed : Followed key s)
    (events : List (Event T)) :
    (∀ n, Followed key (s.run key targetsFromKey (events.take n))) ↔
      ∀ n event, events[n]? = some event →
        Met key (s.run key targetsFromKey (events.take n)) event := by
  refine Lib.kept_run_iff Posting (Followed key) (Met key)
    (fun _ event own => own.step targetsFromKey event) ?_ own followed events
  intro s event own followed
  refine ⟨fun kept => ?_, followed_step targetsFromKey own followed⟩
  by_contra unmet
  exact not_followed_step targetsFromKey own unmet kept

/-- One subscription POST at most is in flight, and the live stream always follows the latest
targets
exactly when no POST of an earlier connection is answered while the later one is quiet and follows
others. -/
theorem stream_follows (key : T → K) (initial : T) (created : Bool) (events : List (Event T)) :
    (∀ n, ((State.subscribe key targetsFromKey initial created).run key targetsFromKey
    (events.take n)).posts.length ≤ 1) ∧
    ((∀ n, Followed key ((State.subscribe key targetsFromKey initial created).run key targetsFromKey
    (events.take n))) ↔
      ∀ n event, events[n]? = some event →
        Met key ((State.subscribe key targetsFromKey initial created).run key targetsFromKey
          (events.take n)) event) := by
  have start : Posting (State.subscribe key targetsFromKey initial created) ∧
      Followed key (State.subscribe key targetsFromKey initial created) :=
        subscribe_start targetsFromKey initial created
  obtain ⟨own, followed⟩ := start
  exact ⟨fun n => (own.run targetsFromKey _).one, followed_run targetsFromKey own followed events⟩

end

end

/-- A POST of the first connection is answered after the second one has skipped an update for it. -/
theorem update_lost :
    ¬ ∀ events n, Followed id ((State.subscribe id id 0 true).run id id (List.take n events)) := by
  intro always
  have followed :=
    always [.hello (some "a"), .update 1, .settled, .error, .reconnect true, .hello (some "b"),
    .update 2, .settled,
    .answered 0 true true] 9 ⟨rfl, rfl, rfl, rfl⟩ rfl
  revert followed
  decide

end AiConfig.Herder.FleetStream
