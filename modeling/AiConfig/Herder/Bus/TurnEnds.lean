import AiConfig.Herder.Bus.Events
import AiConfig.Herder.Transcript.ReplyEnds

/-! # Turn ends of the fleet

Transcription of `startTurnEnds` of `serve.go` and of `Lookup` of `internal/hcomevents/turnends.go`:
the
listening entries of the bus are folded into each agent's latest turns.

* `turnsOf` — the turns that the current incarnation of an agent has completed.
* `turn_ends` — after any run of the subscription, `Lookup` and `Since` answer from these. -/

namespace AiConfig.Herder.Bus

open AiConfig.Lib
open ReplyEnds (Turn TurnEnds TurnEnd recentTurns)

/-- `Lookup`. -/
def lookup (ends : TurnEnds) (instance_ session : String) : Option Int :=
  if session = "" then none
  else
    match ends instance_ with
    | none => none
    | some current => if current.session ≠ session ∨ current.id ≤ 0 then none else some current.id

/-- With what `eventTime` reads. -/
def Status.read (eventTime : String → Int) (status : Status) : ReplyEnds.Status :=
  ⟨status.id, eventTime status.ts, status.instance_, status.oldStatus, status.newStatus,
    status.session⟩

def startTurnEnds (eventTime : String → Int) : Subscription Payload Status Unit TurnEnds :=
  subscribeListening fun _ ends status => (ends.apply (status.read eventTime), true)

/-! ## The current incarnation -/

/-- An agent enters listening from another status. -/
def enters (status : ReplyEnds.Status) : Bool :=
  status.instance_ ≠ "" && (status.newStatus = "listening" && status.oldStatus ≠ "listening")

/-- And has completed a turn. -/
def completes (status : ReplyEnds.Status) : Bool :=
  status.oldStatus = "active" || status.oldStatus = "blocked"

def entriesOf (statuses : List ReplyEnds.Status) (instance_ : String) : List ReplyEnds.Status :=
  statuses.filter fun status => status.instance_ = instance_ && enters status

/-- The session that an agent was last seen with. -/
def currentSession (entries : List ReplyEnds.Status) : String :=
  ((entries.filter fun status => status.session ≠ "").getLast?.map ReplyEnds.Status.session).getD ""

/-- The entries since a session was taken up that no other has replaced. -/
def incarnation (entries : List ReplyEnds.Status) (session : String) : List ReplyEnds.Status :=
  (entries.rtakeWhile fun status => status.session = "" || status.session = session).dropWhile
    fun status => status.session ≠ session

def turnsOf (entries : List ReplyEnds.Status) (session : String) : List Turn :=
  ((incarnation entries session).filter completes).map fun status => ⟨status.id, status.ts⟩

section

variable {entries : List ReplyEnds.Status} {e : ReplyEnds.Status} {session : String}

theorem currentSession_append (e : ReplyEnds.Status) :
    currentSession (entries ++ [e]) =
      if e.session = "" then currentSession entries else e.session := by
  unfold currentSession
  rw [List.filter_append]
  split
  · next none_ => rw [List.filter_cons_of_neg (by simp [none_]), List.filter_nil, List.append_nil]
  · next some_ =>
    rw [List.filter_cons_of_pos (by simp [some_])]
    simp

theorem incarnation_append_other (some_ : e.session ≠ "") (other : e.session ≠ session) :
    incarnation (entries ++ [e]) session = [] := by
  unfold incarnation
  rw [List.rtakeWhile_concat_neg _ _ _ (by simp [some_, other])]
  rfl

theorem incarnation_append (own : e.session = "" ∨ e.session = session) :
    incarnation (entries ++ [e]) session =
      if incarnation entries session = [] then if e.session = session then [e] else []
      else incarnation entries session ++ [e] := by
  unfold incarnation
  rw [List.rtakeWhile_concat_pos _ _ _ (by simpa using own), List.dropWhile_append]
  simp only [List.isEmpty_iff]
  split
  · split
    · next same => rw [List.dropWhile_cons_of_neg (by simp [same])]
    · next other => rw [List.dropWhile_cons_of_pos (by simp [other]), List.dropWhile_nil]
  · rfl

/-- Only the current session has an incarnation, and it has one if any entry was seen. -/
theorem incarnation_current (entries : List ReplyEnds.Status) :
    (∀ session, session ≠ "" → session ≠ currentSession entries →
    incarnation entries session = []) ∧
      (entries ≠ [] → incarnation entries (currentSession entries) ≠ []) := by
  induction entries using List.reverseRecOn with
  | nil => exact ⟨fun _ _ _ => rfl, fun none_ => absurd rfl none_⟩
  | append_singleton entries e inductionHypothesis =>
    obtain ⟨others, current⟩ := inductionHypothesis
    rw [currentSession_append]
    by_cases none_ : e.session = ""
    · rw [if_pos none_]
      constructor
      · intro session some_ other
        rw [incarnation_append (Or.inl none_), if_pos (others session some_ other), if_neg]
        rw [none_]
        exact some_.symm
      · intro _
        rw [incarnation_append (Or.inl none_)]
        by_cases first : entries = []
        · subst first
          simp [incarnation, currentSession, none_]
        · rw [if_neg (current first)]
          simp
    · rw [if_neg none_]
      constructor
      · intro session _ other
        exact incarnation_append_other none_ other.symm
      · intro _
        rw [incarnation_append (Or.inr rfl)]
        split <;> simp

/-! ## The table -/

/-- What the table holds of an agent whose entries these are. -/
def recorded (entries : List ReplyEnds.Status) : Option TurnEnd :=
  if entries = [] then none
  else
    let turns := turnsOf entries (currentSession entries)
    some ⟨currentSession entries, (turns.getLast?.map Turn.id).getD 0, turns.rtake recentTurns⟩

/-- An entry of an agent. -/
def folded (current : TurnEnd) (status : ReplyEnds.Status) : TurnEnd :=
  let current :=
    if status.session ≠ "" ∧ status.session ≠ current.session then ⟨status.session, 0, []⟩
    else current
  if completes status ∧ current.id < status.id then
    { current with
      id := status.id
      recent := (current.recent ++ [Turn.mk status.id status.ts]).rtake recentTurns }
  else current

theorem apply_eq (ends : TurnEnds) (status : ReplyEnds.Status) :
    ends.apply status =
      if enters status then Function.update ends status.instance_
        (some (folded ((ends status.instance_).getD ⟨"", 0, []⟩) status))
      else ends := by
  unfold TurnEnds.apply enters folded completes
  by_cases skipped : status.instance_ = "" ∨ status.newStatus ≠ "listening" ∨
    status.oldStatus = "listening"
  · rw [if_pos skipped, if_neg]
    simp only [Bool.and_eq_true, decide_eq_true_eq]
    tauto
  · rw [if_neg skipped, if_pos]
    · simp only [Bool.or_eq_true, decide_eq_true_eq]
    · simp only [Bool.and_eq_true, decide_eq_true_eq]
      tauto

/-- Ids that rise from above zero. -/
structure Rising (statuses : List ReplyEnds.Status) : Prop where
  ascending : Ascending ReplyEnds.Status.id statuses
  positive : ∀ status ∈ statuses, 0 < status.id

theorem turnsOf_getLast (rising : Rising (entries ++ [e])) (session : String) :
    ((turnsOf entries session).getLast?.map Turn.id).getD 0 < e.id := by
  cases last : (turnsOf entries session).getLast? with
  | none => exact rising.positive e (by simp)
  | some turn =>
    have inside := List.mem_of_getLast? last
    unfold turnsOf incarnation at inside
    obtain ⟨status, own, rfl⟩ := List.mem_map.mp inside
    have member : status ∈ entries :=
      List.rtakeWhile_suffix _ _ |>.subset
        ((List.dropWhile_sublist _).subset (List.mem_filter.mp own).1)
    exact (List.pairwise_append.mp rising.ascending).2.2 status member e (by simp)

theorem folded_recorded (rising : Rising (entries ++ [e])) :
    folded ((recorded entries).getD ⟨"", 0, []⟩) e = ⟨currentSession (entries ++ [e]),
      ((turnsOf (entries ++ [e]) (currentSession (entries ++ [e]))).getLast?.map Turn.id).getD 0,
      (turnsOf (entries ++ [e]) (currentSession (entries ++ [e]))).rtake recentTurns⟩ := by
  have later := turnsOf_getLast rising (currentSession entries)
  -- The entry that is folded on is the record so far, or a first one.
  have held : (recorded entries).getD ⟨"", 0, []⟩ = ⟨currentSession entries,
      ((turnsOf entries (currentSession entries)).getLast?.map Turn.id).getD 0,
      (turnsOf entries (currentSession entries)).rtake recentTurns⟩ := by
    unfold recorded
    split
    · next first =>
      subst first
      rfl
    · rfl
  rw [held, currentSession_append]
  unfold folded
  dsimp only
  by_cases new : e.session ≠ "" ∧ e.session ≠ currentSession entries
  · -- A session that was not the current one: its incarnation is this entry.
    have empty : incarnation entries e.session = [] :=
      (incarnation_current entries).1 e.session new.1 new.2
    rw [if_pos new, if_neg new.1]
    unfold turnsOf
    rw [incarnation_append (Or.inr rfl), if_pos empty, if_pos rfl]
    by_cases done : completes e = true
    · rw [if_pos ⟨done, rising.positive e (by simp)⟩, List.filter_cons_of_pos done]
      rfl
    · rw [if_neg fun both => done both.1, List.filter_cons_of_neg done]
      rfl
  · -- The current one goes on.
    have own : e.session = "" ∨ e.session = currentSession entries := by tauto
    have same : (if e.session = "" then currentSession entries else e.session) =
        currentSession entries := by
      split <;> tauto
    have longer : incarnation (entries ++ [e]) (currentSession entries) =
        incarnation entries (currentSession entries) ++ [e] := by
      rw [incarnation_append own]
      by_cases first : entries = []
      · subst first
        have blank : e.session = currentSession [] := by
          rcases own with none_ | same
          · exact none_
          · exact same
        rw [if_pos blank]
        simp [incarnation]
      · rw [if_neg ((incarnation_current entries).2 first)]
    rw [if_neg new, same]
    unfold turnsOf at later ⊢
    rw [longer, List.filter_append]
    by_cases done : completes e = true
    · rw [if_pos ⟨done, later⟩, List.filter_cons_of_pos done, List.filter_nil, List.map_append,
        rtake_rtake_append]
      simp
    · rw [if_neg fun both => done both.1, List.filter_cons_of_neg done, List.filter_nil,
        List.append_nil]

theorem entriesOf_append (statuses : List ReplyEnds.Status) (e : ReplyEnds.Status)
    (instance_ : String) :
    entriesOf (statuses ++ [e]) instance_ =
      if e.instance_ = instance_ ∧ enters e = true then entriesOf statuses instance_ ++
        [e] else entriesOf statuses instance_ := by
  unfold entriesOf
  rw [List.filter_append]
  split
  · next own => rw [List.filter_cons_of_pos (by simp [own]), List.filter_nil]
  · next other => rw [List.filter_cons_of_neg (by simpa using other), List.filter_nil,
      List.append_nil]

/-- The table after these statuses. -/
theorem foldl_apply {statuses : List ReplyEnds.Status} (rising : Rising statuses)
    (instance_ : String) :
    statuses.foldl TurnEnds.apply (fun _ => none) instance_ =
      recorded (entriesOf statuses instance_) := by
  induction statuses using List.reverseRecOn with
  | nil => rfl
  | append_singleton statuses e inductionHypothesis =>
    have before : Rising statuses :=
      ⟨(List.pairwise_append.mp rising.ascending).1, fun status own =>
        rising.positive status (List.mem_append_left _ own)⟩
    have held := inductionHypothesis before
    rw [List.foldl_append, List.foldl_cons, List.foldl_nil, apply_eq, entriesOf_append]
    by_cases enters_ : enters e = true
    · rw [if_pos enters_]
      by_cases own : e.instance_ = instance_
      · subst own
        have fewer : Rising (entriesOf statuses e.instance_ ++ [e]) := by
          have all :
              entriesOf (statuses ++ [e]) e.instance_ = entriesOf statuses e.instance_ ++ [e] := by
            rw [entriesOf_append, if_pos ⟨rfl, enters_⟩]
          rw [← all]
          exact ⟨rising.ascending.filter _, fun status inside =>
            rising.positive status (List.mem_filter.mp inside).1⟩
        rw [Function.update_self, if_pos ⟨rfl, enters_⟩, held, folded_recorded fewer, recorded,
          if_neg (by simp)]
      · rw [Function.update_of_ne (fun same => own same.symm), if_neg fun both => own both.1, held]
    · rw [if_neg enters_, if_neg fun both => enters_ both.2, held]

/-! ## Runs -/

/-- The statuses that some events carry. -/
def statusesOf (eventTime : String → Int) (emitted : List HcomEvent) : List ReplyEnds.Status :=
  emitted.filterMap fun e => (projectStatus e).map (Status.read eventTime)

theorem keeps_turnEnds (eventTime : String → Int) :
    (startTurnEnds eventTime).Keeps fun ends emitted =>
    ends = (statusesOf eventTime emitted).foldl TurnEnds.apply fun _ => none where
  took conditions ends emitted e status folded own _ := by
    have same : projectStatus e = some status := own
    unfold statusesOf at folded ⊢
    rw [List.filterMap_append, List.foldl_append, ← folded, List.filterMap_cons, same]
    rfl
  failed conditions ends emitted status _ fails := by cases fails

theorem rising_statusesOf (eventTime : String → Int) {emitted : List HcomEvent}
    (ascending : Ascending Event.key emitted)
    (positive : ∀ e ∈ emitted, 0 < e.key) : Rising (statusesOf eventTime emitted) := by
  have keys : ∀ e status, (projectStatus e).map (Status.read eventTime) = some status →
      e.key = status.id := by
    intro e status own
    obtain ⟨parsed, parsed_, rfl⟩ := Option.map_eq_some_iff.mp own
    exact projectStatus_id parsed_
  constructor
  · refine List.Pairwise.filterMap _ ?_ ascending
    intro e e' less status own status' own'
    rw [← keys e status own, ← keys e' status' own']
    exact less
  · intro status inside
    obtain ⟨e, member, own⟩ := List.mem_filterMap.mp inside
    rw [← keys e status own]
    exact positive e member

theorem lookup_recorded {statuses : List ReplyEnds.Status} (rising : Rising statuses)
    {instance_ session : String} (some_ : session ≠ "") :
    lookup (fun _ => recorded (entriesOf statuses instance_)) instance_ session =
      (turnsOf (entriesOf statuses instance_) session).getLast?.map Turn.id := by
  unfold lookup recorded
  rw [if_neg some_]
  by_cases none_ : entriesOf statuses instance_ = []
  · rw [if_pos none_, none_]
    rfl
  · rw [if_neg none_]
    dsimp only
    by_cases current : currentSession (entriesOf statuses instance_) = session
    · subst current
      cases last :
          (turnsOf (entriesOf statuses instance_)
          (currentSession (entriesOf statuses instance_))).getLast? with
      | none => simp
      | some turn =>
        have inside := List.mem_of_getLast? last
        unfold turnsOf incarnation entriesOf at inside
        obtain ⟨status, own, rfl⟩ := List.mem_map.mp inside
        have member : status ∈ statuses := (List.mem_filter.mp
          ((List.rtakeWhile_suffix _ _).subset
            ((List.dropWhile_sublist _).subset (List.mem_filter.mp own).1))).1
        have := rising.positive status member
        rw [if_neg]
        · rfl
        · simp only [ne_eq, not_true_eq_false, Option.map_some, Option.getD_some, false_or]
          omega
    · rw [if_pos (Or.inl current)]
      unfold turnsOf
      rw [(incarnation_current _).1 session some_ (Ne.symm current)]
      rfl

theorem since_recorded (entries : List ReplyEnds.Status) (instance_ : String) {session : String}
    (some_ : session ≠ "") (cursor : Int) :
    TurnEnds.since (fun _ => recorded entries) instance_ session cursor =
      ((turnsOf entries session).rtake recentTurns).filter fun turn => cursor < turn.id := by
  unfold TurnEnds.since recorded
  rw [if_neg some_]
  by_cases none_ : entries = []
  · rw [if_pos none_, none_]
    rfl
  · rw [if_neg none_]
    dsimp only
    by_cases current : currentSession entries = session
    · subst current
      rw [if_neg (by simp)]
    · rw [if_pos current]
      unfold turnsOf
      rw [(incarnation_current entries).1 session some_ (Ne.symm current)]
      rfl

/-- However the subscription ran: the turn end of an agent's session is that of the newest turn that
its current
incarnation completed, if the session is that incarnation's, and of its turns the newest sixteen are
kept. -/
theorem turn_ends {hcom : Hcom Payload} (lawful : hcom.Lawful) (eventTime : String → Int)
    {events : List HcomEvent}
    {calls : List (Call Payload Unit)} (numbered : Numbered (events ++ publishedBy calls))
    (positive : ∀ e ∈ events ++ publishedBy calls, 0 < e.key) (session : String)
    (some_ : session ≠ "") (instance_ : String) :
    let last :=
  World.calls hcom (startTurnEnds eventTime) ⟨events, ⟨⟨0, false⟩, fun _ => none, []⟩⟩ calls
    let turns :=
      turnsOf (entriesOf (statusesOf eventTime last.subscriber.emitted) instance_) session
    lookup last.subscriber.state instance_ session = turns.getLast?.map Turn.id ∧
      ∀ cursor, last.subscriber.state.since instance_ session cursor =
          (turns.rtake recentTurns).filter fun turn => cursor < turn.id := by
  intro last turns
  have start : Kept (⟨events, ⟨⟨0, false⟩, fun _ => none, []⟩⟩ : World Payload TurnEnds) :=
    ⟨numbered.front, Or.inl rfl, List.Pairwise.nil, fun _ own => absurd own List.not_mem_nil,
      fun _ own => absurd own List.not_mem_nil⟩
  obtain ⟨kept, more, grown, less⟩ :=
    calls_kept (startTurnEnds eventTime) lawful calls start numbered
  have folded : last.subscriber.state =
      (statusesOf eventTime last.subscriber.emitted).foldl TurnEnds.apply fun _ => none :=
    (keeps_turnEnds eventTime).calls calls rfl
  have above : ∀ e ∈ last.subscriber.emitted, 0 < e.key := by
    intro e own
    have inside := kept.there e own
    rw [grown] at inside
    rcases List.mem_append.mp inside with early | late
    · exact positive e (List.mem_append_left _ early)
    · exact positive e (List.mem_append_right _ (less.subset late))
  have rising := rising_statusesOf eventTime kept.ascending above
  have held : last.subscriber.state instance_ =
      recorded (entriesOf (statusesOf eventTime last.subscriber.emitted) instance_) := by
    rw [folded, foldl_apply rising]
  constructor
  · have same : lookup last.subscriber.state instance_ session =
        lookup (fun _ => recorded (entriesOf
            (statusesOf eventTime last.subscriber.emitted) instance_)) instance_ session := by
      unfold lookup
      rw [held]
    rw [same, lookup_recorded rising some_]
  · intro cursor
    rw [← since_recorded _ instance_ some_ cursor]
    unfold TurnEnds.since
    rw [held]

end

/-- A status of the agent "mole" as the bus has it. -/
def moleStatus (id : Int) (session oldStatus newStatus : String) : HcomEvent :=
  ⟨some id,
    { ts := "2026-10-17T11:10:39", type := "status", instance_ := "mole", session, oldStatus, newStatus }⟩

/-- A new session, a turn whose event has no session, and an old session that answers no more. -/
theorem turn_ends_sample :
    let last := World.calls newest (startTurnEnds fun _ => 0)
      ⟨[moleStatus 20 "old" "active" "listening"], ⟨⟨0, false⟩, fun _ => none, []⟩⟩
      [⟨fine () [],
        [(.woken, fine () [moleStatus 30 "new" "pending" "listening",
        moleStatus 31 "" "blocked" "listening"])]⟩]
    lookup last.subscriber.state "mole" "new" = some 31 ∧
        lookup last.subscriber.state "mole" "old" = none :=
  ⟨(turn_ends lawful_newest (fun _ => 0) ⟨by decide, by decide⟩ (by decide) "new"
    (by decide) "mole").1.trans (by decide),
    (turn_ends lawful_newest (fun _ => 0) ⟨by decide, by decide⟩ (by decide) "old"
      (by decide) "mole").1.trans (by decide)⟩

end AiConfig.Herder.Bus
