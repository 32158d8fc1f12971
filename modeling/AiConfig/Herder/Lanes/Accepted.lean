import AiConfig.Herder.Lanes.Assign

/-! # What an accepted lane verb does

`Accepted` says of each verb which events it writes and what it checked first, read on the
ledger of the store it loaded. -/

namespace AiConfig.Herder.Agents.Lanes

open AiConfig.Herder.Fleet

theorem ok_of_bind {ε α β : Type} {x : Except ε α} {f : α → Except ε β} {b : β}
    (ok : x >>= f = .ok b) :
    ∃ a, x = .ok a ∧ f a = .ok b := by
  cases x with
  | error refusal => cases ok
  | ok a => exact ⟨a, rfl, ok⟩

theorem require_ok {ε : Type} {holds : Bool} {refusal : ε} (ok : require holds refusal = .ok ()) :
    holds = true := by
  cases holds with
  | true => rfl
  | false => cases ok

/-! ## What the checks say -/

/-- No other lane with a live member has the name. -/
def Ledger.Free (l : Ledger) (orbit : Char → Char) (roster : List BusRow) (name except : String) :
    Prop :=
  ∀ id lane, l.lanes.lookup id = some lane → id ≠ except → l.Live roster id →
    equalFold orbit lane.name name = false

/-- The lane in the seat's view, when it is another one, is not led by the seat. -/
def Session.Stays (s : Session) (seat target : String) : Prop :=
  ∀ id lane, (ledger s.proj).seatLane s.roster seat = some id → id ≠ "" → id ≠ target →
    s.proj.lanes.lookup id = some lane → s.seat lane.lead ≠ seat

/-- Every lane stands under its own id. -/
def Ledger.Keyed (l : Ledger) : Prop := ∀ id lane, l.lanes.lookup id = some lane → lane.id = id

section

variable {orbit : Char → Char} {s : Session}

theorem mem_lanes {lane : LaneView} :
    lane ∈ s.lanes ↔ ∃ id, s.proj.lanes.lookup id = some lane := by
  simp only [Session.lanes, List.mem_map, Prod.exists, exists_eq_right, s.ranging.mem]

theorem resolve_ok {ref : String} {lane : LaneView} (ok : s.resolve orbit ref = .ok lane) :
    ∃ id, s.proj.lanes.lookup id = some lane := by
  rw [Session.resolve] at ok
  cases known : s.proj.lanes.lookup ref with
  | some found =>
    rw [known] at ok
    cases ok
    exact ⟨ref, known⟩
  | none =>
    rw [known] at ok
    dsimp only at ok
    refine mem_lanes.mp ?_
    split at ok
    · next one =>
      cases ok
      exact List.mem_of_mem_filter (by rw [one]; exact List.mem_singleton_self _)
    · next one _ =>
      cases ok
      have inside :=
        List.mem_of_mem_filter (show lane ∈ _ by rw [one]; exact List.mem_singleton_self _)
      exact List.mem_of_mem_filter inside
    · cases ok
    · cases ok

theorem nameTaken_ok (keyed : (ledger s.proj).Keyed) {name except : String}
    (ok : s.nameTaken orbit name except = .ok ()) :
    (ledger s.proj).Free orbit s.roster name except := by
  intro id lane known other live
  rw [Session.nameTaken] at ok
  split at ok
  · cases ok
  · next none =>
    rw [List.find?_eq_none] at none
    have not := none lane (mem_lanes.mpr ⟨id, known⟩)
    have own : lane.id = id := keyed id lane known
    have member : s.members id ≠ [] := (members_live s.proj s.roster id).mpr live
    simpa [own, other, member] using not

theorem leaving_ok {seat target : String} (ok : s.leaving seat target = .ok ()) :
    s.Stays seat target := by
  intro id lane seen some_ other known leads
  rw [Session.leaving] at ok
  rw [← seatView_lane] at seen
  obtain ⟨view, viewed, rfl⟩ := Option.map_eq_some_iff.mp seen
  rw [viewed] at ok
  dsimp only at ok
  rw [if_neg (not_or.mpr ⟨some_, other⟩), known] at ok
  dsimp only at ok
  rw [if_pos leads] at ok
  cases ok

theorem inLane_seen {seat lane : String} (inside : s.inLane seat lane = true) :
    (ledger s.proj).seatLane s.roster seat = some lane := by
  rw [Session.inLane, Option.any_eq_true] at inside
  obtain ⟨view, viewed, same⟩ := inside
  rw [← seatView_lane, viewed, Option.map_some, of_decide_eq_true same]

/-- A full name stays, and a name that is no row's stays. -/
theorem seat_seat (name : String) : s.seat (s.seat name) = s.seat name := by
  by_cases exact_ : s.roster.any (·.name = name) = true
  · have kept : s.seat name = name := if_pos exact_
    rw [kept, kept]
  · have other : s.seat name = ((byUniqueBaseName s.roster name).map (·.name)).getD name :=
      if_neg exact_
    cases found : byUniqueBaseName s.roster name with
    | none =>
      have kept : s.seat name = name := by rw [other, found]; rfl
      rw [kept, kept]
    | some row =>
      have full : s.seat name = row.name := by rw [other, found]; rfl
      have inside : row ∈ s.roster := by
        rw [byUniqueBaseName] at found
        split at found
        · next one =>
          cases found
          exact List.mem_of_mem_filter (by rw [one]; exact List.mem_singleton_self _)
        · cases found
      rw [full, Session.seat, if_pos (List.any_eq_true.mpr ⟨row, inside, decide_eq_true rfl⟩)]

/-- A valid assignment names a seat and a lane. -/
theorem validate_assign {byKind : String} {e : Event} (kind : e.kind = .assign)
    (ok : validate byKind e = .ok ()) :
    e.name ≠ "" ∧ e.lane ≠ "" := by
  rw [validate] at ok
  obtain ⟨-, -, ok⟩ := ok_of_bind ok
  obtain ⟨-, -, ok⟩ := ok_of_bind ok
  obtain ⟨-, -, ok⟩ := ok_of_bind ok
  obtain ⟨⟨⟩, named, ok⟩ := ok_of_bind ok
  obtain ⟨-, -, ok⟩ := ok_of_bind ok
  obtain ⟨⟨⟩, given, -⟩ := ok_of_bind ok
  rw [required, kind] at named
  obtain ⟨⟨⟩, named, -⟩ := ok_of_bind named
  exact ⟨of_decide_eq_true (require_ok named), by simpa [kind] using require_ok given⟩

theorem validate_each {byKind : String} {events : List Event}
    (ok : events.forM (validate byKind) = .ok ()) :
    ∀ e ∈ events, validate byKind e = .ok () := by
  induction events with
  | nil => exact fun _ inside => by cases inside
  | cons e rest inductionHypothesis =>
    obtain ⟨⟨⟩, first, others⟩ := ok_of_bind ok
    intro other inside
    cases inside with
    | head => exact first
    | tail _ inside => exact inductionHypothesis others other inside

end

/-! ## The verbs -/

section

variable (orbit : Char → Char) (s : Session)

def Session.created (name seat : String) : Event :=
  { s.event s.ids.1 .laneCreated with laneName := name, lead := seat }

def Session.renamed (lane name : String) : Event :=
  { s.event s.ids.1 .laneUpdated with lane, laneName := name }

def Session.led (id lane seat : String) : Event :=
  { s.event id .laneUpdated with lane, lead := seat }

/-- The events of an accepted verb, with what it checked. -/
inductive Accepted : Verb → List Event → Prop
  | new (name : String) (free : (ledger s.proj).Free orbit s.roster name "")
      (stays : s.Stays (s.seat (trimSpace s.opts.lead)) s.ids.1) :
      Accepted .new [s.created name (s.seat (trimSpace s.opts.lead)),
        s.assign s.ids.2 (s.seat (trimSpace s.opts.lead)) s.ids.1]
  | rename (lane : LaneView) (name : String) (known : s.proj.lanes.lookup lane.id = some lane)
      (free : (ledger s.proj).Free orbit s.roster name lane.id) :
        Accepted .rename [s.renamed lane.id name]
  | lead (lane : LaneView) (ref given : String) (positional : s.opts.positional = [ref, given])
      (resolved : s.resolve orbit ref = .ok lane) (known : s.proj.lanes.lookup lane.id = some lane)
      (seen : (ledger s.proj).seatLane s.roster (s.seat given) = some lane.id) :
      Accepted .lead [s.led s.ids.1 lane.id (s.seat given)]
  | join (lane : LaneView) (ref given : String) (positional : s.opts.positional = [ref, given])
      (resolved : s.resolve orbit ref = .ok lane) (known : s.proj.lanes.lookup lane.id = some lane)
      (free : (ledger s.proj).Free orbit s.roster lane.name lane.id)
        (stays : s.Stays (s.seat given) lane.id) :
      Accepted .lead [s.assign s.ids.1 (s.seat given) lane.id, s.led s.ids.2 lane.id (s.seat given)]
  | move (lane : LaneView) (given ref : String) (positional : s.opts.positional = [given, ref])
      (resolved : s.resolve orbit ref = .ok lane) (known : s.proj.lanes.lookup lane.id = some lane)
      (free : (ledger s.proj).Free orbit s.roster lane.name lane.id)
        (stays : s.Stays (s.seat given) lane.id) :
      Accepted .move [s.assign s.ids.1 (s.seat given) lane.id]
  | link (verb : Verb) (e : Event) (other : verb ≠ .new ∧ verb ≠ .lead ∧ verb ≠ .move)
      (kind : e.kind = .laneLink) :
      Accepted verb [e]

end

section

variable {orbit : Char → Char} {s : Session} {events : List Event}

theorem resolved_keyed (keyed : (ledger s.proj).Keyed) {ref : String} {lane : LaneView}
    (ok : s.resolve orbit ref = .ok lane) : s.proj.lanes.lookup lane.id = some lane := by
  obtain ⟨id, known⟩ := resolve_ok ok
  rw [keyed id lane known, known]

theorem newLane_accepted (keyed : (ledger s.proj).Keyed) (ok : s.newLane orbit = .ok events) :
    Accepted orbit s .new events := by
  rw [Session.newLane] at ok
  split at ok
  · obtain ⟨⟨⟩, -, ok⟩ := ok_of_bind ok
    obtain ⟨⟨⟩, free, ok⟩ := ok_of_bind ok
    obtain ⟨⟨⟩, stays, ok⟩ := ok_of_bind ok
    cases ok
    exact .new _ (nameTaken_ok keyed free) (leaving_ok stays)
  · cases ok

theorem rename_accepted (keyed : (ledger s.proj).Keyed) (ok : s.rename orbit = .ok events) :
    Accepted orbit s .rename events := by
  rw [Session.rename] at ok
  split at ok
  · obtain ⟨lane, resolved, ok⟩ := ok_of_bind ok
    obtain ⟨⟨⟩, free, ok⟩ := ok_of_bind ok
    cases ok
    exact .rename lane _ (resolved_keyed keyed resolved) (nameTaken_ok keyed free)
  · cases ok

theorem setLead_accepted (keyed : (ledger s.proj).Keyed) (ok : s.setLead orbit = .ok events) :
    Accepted orbit s .lead events := by
  rw [Session.setLead] at ok
  split at ok
  · next positional =>
    obtain ⟨lane, resolved, ok⟩ := ok_of_bind ok
    have known := resolved_keyed keyed resolved
    dsimp only at ok
    split at ok
    · next inside =>
      cases ok
      exact .lead lane _ _ positional resolved known (inLane_seen inside)
    · obtain ⟨⟨⟩, stays, ok⟩ := ok_of_bind ok
      obtain ⟨⟨⟩, free, ok⟩ := ok_of_bind ok
      cases ok
      exact .join lane _ _ positional resolved known (nameTaken_ok keyed free) (leaving_ok stays)
  · cases ok

theorem move_accepted (keyed : (ledger s.proj).Keyed) (ok : s.move orbit = .ok events) :
    Accepted orbit s .move events := by
  rw [Session.move] at ok
  split at ok
  · next positional =>
    obtain ⟨lane, resolved, ok⟩ := ok_of_bind ok
    obtain ⟨⟨⟩, stays, ok⟩ := ok_of_bind ok
    obtain ⟨⟨⟩, free, ok⟩ := ok_of_bind ok
    cases ok
    exact .move lane _ _ positional resolved (resolved_keyed keyed resolved)
      (nameTaken_ok keyed free)
      (leaving_ok stays)
  · cases ok

theorem link_accepted {remove : Bool} {verb : Verb}
    (other : verb ≠ .new ∧ verb ≠ .lead ∧ verb ≠ .move) (ok : s.link orbit remove = .ok events) :
    Accepted orbit s verb events := by
  rw [Session.link] at ok
  split at ok
  · obtain ⟨lane, -, ok⟩ := ok_of_bind ok
    cases ok
    exact .link verb _ other rfl
  · cases ok

theorem repo_accepted (ok : s.repo orbit = .ok events) : Accepted orbit s .repo events := by
  rw [Session.repo] at ok
  split at ok
  · obtain ⟨lane, -, ok⟩ := ok_of_bind ok
    cases ok
    exact .link .repo _ (by decide) rfl
  · cases ok

theorem drafts_accepted (keyed : (ledger s.proj).Keyed) {verb : Verb}
    (ok : s.drafts orbit verb = .ok events) :
    Accepted orbit s verb events := by
  cases verb with
  | new => exact newLane_accepted keyed ok
  | rename => exact rename_accepted keyed ok
  | lead => exact setLead_accepted keyed ok
  | move => exact move_accepted keyed ok
  | link => exact link_accepted (by decide) ok
  | unlink => exact link_accepted (by decide) ok
  | repo => exact repo_accepted ok

theorem Accepted.drafted {verb : Verb} (accepted : Accepted orbit s verb events) :
    ∀ e ∈ events, Drafted e := by
  cases accepted with
  | new => simp [Drafted, Session.created, Session.assign, Session.event, EventKind.isLane]
  | rename => simp [Drafted, Session.renamed, Session.event, EventKind.isLane]
  | lead => simp [Drafted, Session.led, Session.event, EventKind.isLane]
  | join => simp [Drafted, Session.led, Session.assign, Session.event, EventKind.isLane]
  | move => simp [Drafted, Session.assign, Session.event]
  | link _ e _ kind => simp [Drafted, kind, EventKind.isLane]

end

/-- A verb is refused and the store stays, or it is accepted and its valid events are written. -/
theorem exec_cases (orbit : Char → Char) (roster : List BusRow) (store : Store) (call : Call)
    (keyed : store.ledger.Keyed) :
    ((∃ refusal, (exec orbit roster store call).1 = .error refusal) ∧
    (exec orbit roster store call).2 = store) ∨
      ∃ events, Accepted orbit (call.session roster store) call.verb events ∧
        (∀ e ∈ events, validate (call.session roster store).writer.2 e = .ok ()) ∧
        exec orbit roster store call = (.ok (), store.append events) := by
  have keyed' : (ledger (call.session roster store).proj).Keyed := by
    rw [show ledger (call.session roster store).proj =
      store.ledger from load_ledger store call.aliases]
    exact keyed
  rw [exec]
  cases drafts : (call.session roster store).drafts orbit call.verb with
  | error refusal => exact Or.inl ⟨⟨refusal, rfl⟩, rfl⟩
  | ok events =>
    dsimp only
    rw [Session.append]
    cases valid : events.forM (validate (call.session roster store).writer.2) with
    | error fault => exact Or.inl ⟨⟨_, rfl⟩, rfl⟩
    | ok _ => exact Or.inr ⟨events, drafts_accepted keyed' drafts, validate_each valid, rfl⟩

end AiConfig.Herder.Agents.Lanes
