import AiConfig.Herder.Agents.Projection

/-! # The session that an agent is in

A fact that names a session makes it the current one of its record, unless the record's newest
session has the same id and has ended: `openSession` takes that for open. -/

namespace AiConfig.Herder.Agents

/-! ## Sessions of a record -/

/-- The newest session has this id and has ended. -/
def AgentView.spent (v : AgentView) (id : String) : Bool :=
  v.sessions.head?.any fun newest => newest.sessionID = id && newest.ended.isSome

theorem currentSession_openSession (v : AgentView) (id tool path : String) (time : Time) :
    currentSession (v.openSession id tool path time) = id ∨ v.spent id = true := by
  cases held : v.sessions with
  | nil =>
    left
    simp [AgentView.openSession, held, AgentView.pushSession, currentSession]
  | cons newest rest =>
    by_cases same : newest.sessionID = id
    · cases ended : newest.ended with
      | none =>
        left
        simp only [AgentView.openSession, held, if_pos same]
        split
        · simp [currentSession, ended, same]
        · simp [currentSession, held, ended, same]
      | some time =>
        right
        simp [AgentView.spent, held, same, ended]
    · left
      simp [AgentView.openSession, held, if_neg same, AgentView.pushSession, currentSession]

theorem currentSession_spent {v : AgentView} {id : String} (named : id ≠ "")
    (spent : v.spent id = true)
    (tool path : String) (time : Time) : currentSession (v.openSession id tool path time) ≠ id := by
  cases held : v.sessions with
  | nil => simp [AgentView.spent, held] at spent
  | cons newest rest =>
    simp only [AgentView.spent, held, List.head?_cons, Option.any_some, Bool.and_eq_true,
      decide_eq_true_eq] at spent
    obtain ⟨same, ended⟩ := spent
    have finished : newest.ended ≠ none := fun running => by simp [running] at ended
    simp only [AgentView.openSession, held, if_pos same]
    split
    · simpa [currentSession, finished] using named.symm
    · simpa [currentSession, held, finished] using named.symm

theorem currentSession_openSession_iff (v : AgentView) {id : String} (named : id ≠ "")
    (tool path : String) (time : Time) :
    currentSession (v.openSession id tool path time) = id ↔ v.spent id = false := by
  constructor
  · intro current
    cases spent : v.spent id with
    | false => rfl
    | true => exact absurd current (currentSession_spent named spent tool path time)
  · intro fresh
    cases currentSession_openSession v id tool path time with
    | inl current => exact current
    | inr spent => rw [fresh] at spent; cases spent

/-- A record that ends its newest session has not spent an id that was not its current one. -/
theorem spent_endSession {v : AgentView} {id : String} (other : id ≠ currentSession v) (time : Time)
    (reason : String) :
    (v.endSession time reason).spent id = v.spent id := by
  cases held : v.sessions with
  | nil => simp [AgentView.endSession, held]
  | cons newest rest =>
    simp only [currentSession, held] at other
    cases ended : newest.ended with
    | some before => simp [AgentView.endSession, held, AgentView.spent, SessionView.endAt, ended]
    | none =>
      rw [if_pos ended] at other
      simp [AgentView.endSession, held, AgentView.spent, SessionView.endAt, ended, Ne.symm other]

theorem not_spent_current {v : AgentView} {id : String} (named : id ≠ "")
    (current : id = currentSession v) :
    v.spent id = false := by
  cases held : v.sessions with
  | nil => simp [AgentView.spent, held]
  | cons newest rest =>
    simp only [currentSession, held] at current
    cases ended : newest.ended with
    | none => simp [AgentView.spent, held, ended]
    | some before =>
      rw [if_neg (by simp [ended])] at current
      exact absurd current named

/-! ## Parts of `Apply` -/

theorem AgentView.seen_sessions (v : AgentView) (e : Event) : (v.seen e).sessions = v.sessions := by
  simp only [AgentView.seen]
  split <;> split <;> rfl

theorem AgentView.setLauncher_sessions (v : AgentView) (launcher : String) (kind : Attribution) :
    (v.setLauncher launcher kind).sessions = v.sessions := by
  rw [AgentView.setLauncher]
  split
  · rfl
  · split <;> rfl

theorem AgentView.setPane_sessions (v : AgentView) (pane : String) :
    (v.setPane pane).sessions = v.sessions := by
  rw [AgentView.setPane]
  split <;> rfl

theorem AgentView.inherit_sessions (v : AgentView) (requested : Event) :
    (v.inherit requested).sessions = v.sessions := by
  rw [AgentView.inherit, AgentView.setLauncher_sessions]
  rfl

theorem currentSession_congr {v w : AgentView} (same : w.sessions = v.sessions) :
    currentSession w = currentSession v := by
  rw [currentSession, currentSession, same]

theorem spent_congr {v w : AgentView} (same : w.sessions = v.sessions) (id : String) :
    w.spent id = v.spent id := by
  rw [AgentView.spent, AgentView.spent, same]

/-- The facts that name the session an agent is in. -/
def namesSession (kind : EventKind) : Bool :=
  kind = .launchReady || kind = .resume || kind = .sessionObserved

theorem currentSession_launchReady (v : AgentView) (request : Option RequestRecord) {e : Event}
    (named : e.session ≠ "") :
    currentSession (v.launchReady request e) = e.session ↔ v.spent e.session = false := by
  simp only [AgentView.launchReady]
  rw [if_pos named, currentSession_openSession_iff _ named]
  refine Eq.congr (spent_congr ?_ e.session) rfl
  dsimp only
  rw [AgentView.setLauncher_sessions]
  cases request with
  | none => rfl
  | some request => exact AgentView.inherit_sessions _ _

theorem currentSession_resume (v : AgentView) {e : Event} (named : e.session ≠ "") :
    currentSession (v.resume e) = e.session ↔ v.spent e.session = false := by
  have pane : ∀ w : AgentView, currentSession (w.setPane e.pane) = currentSession w := fun w =>
    currentSession_congr (w.setPane_sessions e.pane)
  have registered : currentSession v.registered = currentSession v := currentSession_congr rfl
  simp only [AgentView.resume, pane, registered]
  by_cases current : e.session = currentSession v
  · rw [if_pos ⟨named, current⟩, registered]
    exact iff_of_true current.symm (not_spent_current named current)
  · rw [if_neg fun both => current both.2, if_pos named, currentSession_openSession_iff _ named]
    have other : e.session ≠ currentSession v.registered :=
      fun same => current (same.trans registered)
    have spent : v.registered.spent e.session = v.spent e.session := spent_congr rfl _
    split
    · rw [spent_endSession other, spent]
    · rw [spent]

theorem currentSession_fold (v : AgentView) (request : Option RequestRecord) {e : Event}
    (names : namesSession e.kind = true)
    (named : e.session ≠ "") : currentSession (v.fold request e) = e.session ↔
    v.spent e.session = false := by
  simp only [namesSession, Bool.or_eq_true, decide_eq_true_eq] at names
  rw [AgentView.fold.eq_def]
  obtain (ready | resumed) | observed := names
  · rw [ready]
    exact currentSession_launchReady v request named
  · rw [resumed]
    exact currentSession_resume v named
  · rw [observed]
    exact currentSession_openSession_iff v named _ _ _

/-! ## The record of an event -/

/-- A session that the agent's open record has spent. -/
def Projection.spentSession (p : Projection) (name id : String) : Bool :=
  (p.latest name).any fun v => v.closed.isNone && v.spent id

theorem record_spent (p : Projection) {e : Event} (names : namesSession e.kind = true) :
    (record (p.views e.name) e).2.spent e.session = p.spentSession e.name e.session := by
  have opens : attaches e.kind = false := by
    simp only [namesSession, Bool.or_eq_true, decide_eq_true_eq] at names
    obtain (ready | resumed) | observed := names
    · rw [ready]; rfl
    · rw [resumed]; rfl
    · rw [observed]; rfl
  rw [record, Projection.spentSession, Projection.latest]
  cases (p.views e.name).getLast? with
  | none => rfl
  | some latest =>
    cases closed : latest.closed with
    | none => simp [closed]
    | some time =>
      simp only [closed, opens, Bool.false_eq_true, reduceCtorEq, or_self, if_false]
      simp [AgentView.spent, closed]

theorem record_open (views : List AgentView) {e : Event} (opens : attaches e.kind = false) :
    (record views e).2.closed = none := by
  rw [record]
  split
  · next latest _ =>
    split
    · next kept => simpa [opens] using kept
    · rfl
  · rfl

/-- The views of the agent of an event that is no batch and of no lane. -/
theorem views_apply (p : Projection) {e : Event} (single : e.kind ≠ .mirrorBatch)
    (lane : e.kind.isLane = false)
    (agent : e.name ≠ "") :
    (p.apply e).views e.name =
      (record (p.views e.name) e).1 ++
        [((record (p.views e.name) e).2.seen e).fold
        ((p.request e).requests.lookup e.request) e] := by
  have views : (p.request e).views e.name = p.views e.name := by
    rw [Projection.request]
    split <;> rfl
  rw [Projection.apply, Event.children, if_neg single]
  simp only [List.nil_append, List.foldl_cons, List.foldl_nil, Projection.applyOne, lane,
    Bool.false_eq_true, if_false,
    agent, Projection.applyNamed, views]
  simp [Projection.views]

theorem fold_closed (v : AgentView) (request : Option RequestRecord) {e : Event}
    (names : namesSession e.kind = true) :
    (v.fold request e).closed = v.closed := by
  have launcher : ∀ (w : AgentView) (by_ : String) (kind : Attribution),
      (w.setLauncher by_ kind).closed = w.closed := by
    intro w by_ kind
    rw [AgentView.setLauncher]
    split
    · rfl
    · split <;> rfl
  have ended : ∀ (w : AgentView) (time : Time) (reason : String),
      (w.endSession time reason).closed = w.closed := by
    intro w time reason
    rw [AgentView.endSession]
    split <;> rfl
  have opened : ∀ (w : AgentView) (id tool path : String) (time : Time),
      (w.openSession id tool path time).closed = w.closed := by
    intro w id tool path time
    rw [AgentView.openSession]
    split
    · exact ended w time _
    · split
      · split <;> rfl
      · exact ended w time _
  simp only [namesSession, Bool.or_eq_true, decide_eq_true_eq] at names
  rw [AgentView.fold.eq_def]
  -- The three kinds of event that name a session; none of them closes its record.
  obtain (ready | resumed) | observed := names
  · rw [ready]
    show (v.launchReady request e).closed = v.closed
    cases request with
    | none =>
      simp only [AgentView.launchReady]
      split
      · rw [opened]
        exact launcher _ _ _
      · exact launcher _ _ _
    | some request =>
      simp only [AgentView.launchReady]
      split
      · rw [opened]
        exact (launcher _ _ _).trans (launcher _ _ _)
      · exact (launcher _ _ _).trans (launcher _ _ _)
  · rw [resumed]
    show (v.resume e).closed = v.closed
    have pane : ∀ w : AgentView, (w.setPane e.pane).closed = w.closed := by
      intro w
      rw [AgentView.setPane]
      split <;> rfl
    rw [AgentView.resume, pane]
    dsimp only
    split
    · rfl
    · split
      · rw [opened]
        split
        · exact ended _ _ _
        · rfl
      · split
        · exact ended _ _ _
        · rfl
  · rw [observed]
    exact opened v _ _ _ _

/-! ## The guard of the roster -/

/-- The agent's latest record is in the session, and a roster row of it finds the record unless an
earlier one was still open then. -/
def Projection.InSession (p : Projection) (name session : String) : Prop :=
  ∃ earlier v, p.views name = earlier ++ [v] ∧ currentSession v = session ∧
    ∀ createdAt, (∀ other ∈ earlier, ∃ closed, other.closed = some closed ∧ closed < createdAt) →
      p.incarnation name createdAt session = some v

theorem incarnation_current {p : Projection} {name : String} {earlier : List AgentView}
    {v : AgentView}
    (views : p.views name = earlier ++ [v]) (running : v.closed = none) {createdAt : Time}
    (before : ∀ other ∈ earlier, ∃ closed, other.closed = some closed ∧ closed < createdAt)
    (named : currentSession v ≠ "") : p.incarnation name createdAt (currentSession v) = some v := by
  have passed : earlier.find? (fun v => !v.closed.any (· < createdAt)) = none := by
    rw [List.find?_eq_none]
    intro other inside
    obtain ⟨closed, same, below⟩ := before other inside
    simp [same, below]
  rw [Projection.incarnation]
  split
  · simp [Projection.latest, views]
  · simp [views, List.find?_append, passed, running, named]

/-- A fact that names a session makes it the agent's current one if and only if the open record has
not
spent it. -/
theorem session_follows_facts (journal : List Event) {e : Event}
    (names : namesSession e.kind = true)
    (agent : e.name ≠ "") (named : e.session ≠ "") :
    ((journal ++ [e]).foldl Projection.apply .new).InSession e.name e.session ↔
      (journal.foldl Projection.apply .new).spentSession e.name e.session = false := by
  rw [List.foldl_append, List.foldl_cons, List.foldl_nil]
  generalize journal.foldl Projection.apply .new = p
  have single : e.kind ≠ .mirrorBatch := fun batch => by rw [batch] at names; cases names
  have lane : e.kind.isLane = false := by
    cases own : e.kind <;> rw [own] at names <;> first | rfl | cases names
  have opens : attaches e.kind = false := by
    cases own : e.kind <;> rw [own] at names <;> first | rfl | cases names
  have views := views_apply p single lane agent
  generalize (p.request e).requests.lookup e.request = request at views
  have current := currentSession_fold ((record (p.views e.name) e).2.seen e) request names named
  rw [spent_congr (AgentView.seen_sessions _ e), record_spent p names] at current
  have running : (((record (p.views e.name) e).2.seen e).fold request e).closed = none := by
    rw [fold_closed _ _ names]
    have same : ∀ w : AgentView, (w.seen e).closed = w.closed := by
      intro w
      simp only [AgentView.seen]
      split <;> split <;> rfl
    rw [same, record_open _ opens]
  constructor
  · rintro ⟨earlier, v, split, own, -⟩
    rw [views] at split
    obtain ⟨-, same⟩ := List.append_inj' split rfl
    rw [← List.singleton_inj.mp same] at own
    exact current.mp own
  · intro fresh
    refine ⟨_, _, views, current.mpr fresh, fun createdAt before => ?_⟩
    rw [← current.mpr fresh]
    refine incarnation_current views running before ?_
    rw [current.mpr fresh]
    exact named

/-! ### A session that is resumed -/

def agentEvent (kind : EventKind) (second : Fin 10) (session : String) : Event where
  id := "01a084cb-0000-7000-8000-00000000000" ++ toString second.val
  at_ := ⟨second.val, by omega⟩
  kind := kind
  name := "impl-gime"
  session := session

def observedAndEnded : List Event :=
  [agentEvent .sessionObserved 1 "S", agentEvent .sessionEnded 2 "S"]

/-- A session that ended and is resumed stays ended. -/
theorem resumed_session_stays_ended :
    ¬ ∀ (journal : List Event) (e : Event), namesSession e.kind = true → e.name ≠ "" →
      e.session ≠ "" →
      ((journal ++ [e]).foldl Projection.apply .new).InSession e.name e.session := by
  intro always
  have follows := always observedAndEnded (agentEvent .resume 3 "S") rfl (by decide) (by decide)
  obtain ⟨earlier, v, views, current, -⟩ := follows
  have last :
    (((observedAndEnded ++ [agentEvent .resume 3 "S"]).foldl Projection.apply .new).latest
    "impl-gime").map currentSession =
      some "S" := by
    have last := congrArg List.getLast? views
    rw [List.getLast?_concat] at last
    exact (congrArg (Option.map currentSession) last).trans (congrArg some current)
  revert last
  decide

theorem session_follows_facts_sample :
    (([agentEvent .sessionObserved 1 "S"] ++ [agentEvent .resume 3 "T"]).foldl Projection.apply
    .new).InSession "impl-gime" "T" :=
  (session_follows_facts [agentEvent .sessionObserved 1 "S"] (e :=
    agentEvent .resume 3 "T") rfl (by decide) (by decide)).mpr
    (by decide)

end AiConfig.Herder.Agents
