import AiConfig.Herder.Lanes.Accepted

/-! # The rules of lanes over runs of lane verbs

Of two live lanes the names differ, whatever the verbs; that every lane is led from inside
needs verbs that see where a leading seat is. -/

namespace AiConfig.Herder.Agents.Lanes

open AiConfig.Herder.Fleet AiConfig.Lib

/-! ## Lanes after an event -/

theorem update_id (lane : LaneView) (e : Event) : (lane.update e).id = lane.id := by
  simp only [LaneView.update]
  split <;> split <;> rfl

theorem update_name (lane : LaneView) (e : Event) :
    (lane.update e).name = if e.laneName = "" then lane.name else e.laneName := by
  have after : ∀ lane : LaneView, (if e.lead ≠ "" ∧ lane.leadAt ≤ e.at_ then
      { lane with lead := e.lead, leadAt := e.at_ } else lane).name = lane.name := by
    intro lane
    split <;> rfl
  simp only [LaneView.update, after]
  by_cases unnamed : e.laneName = ""
  · simp [unnamed]
  · by_cases same : e.laneName = lane.name
    · simp [same]
    · simp [unnamed, same]

theorem update_lead (lane : LaneView) (e : Event) :
    (lane.update e).lead = if e.lead ≠ "" ∧ lane.leadAt ≤ e.at_ then e.lead else lane.lead := by
  simp only [LaneView.update]
  by_cases renamed : e.laneName ≠ "" ∧ e.laneName ≠ lane.name
  · rw [if_pos renamed]
    split <;> rfl
  · rw [if_neg renamed]
    split <;> rfl

theorem link_id (lane : LaneView) (e : Event) : (lane.link e).id = lane.id := by
  simp only [LaneView.link]
  split <;> split <;> rfl

theorem link_name (lane : LaneView) (e : Event) : (lane.link e).name = lane.name := by
  simp only [LaneView.link]
  split <;> split <;> rfl

theorem link_lead (lane : LaneView) (e : Event) : (lane.link e).lead = lane.lead := by
  simp only [LaneView.link]
  split <;> split <;> rfl

/-- What an update or a link makes of the lanes. -/
def changed (e : Event) (id : String) (lane : LaneView) : LaneView :=
  if id = e.lane then if e.kind = .laneUpdated then lane.update e else lane.link e else lane

theorem lookup_changed {lanes : Keyed LaneView} {e : Event} (old : e.kind ≠ .laneCreated)
    (id : String) :
    (applyLane lanes e).lookup id = (lanes.lookup id).map (changed e id) := by
  rw [applyLane, if_neg old]
  by_cases own : id = e.lane
  · subst own
    cases known : lanes.lookup e.lane with
    | none => simp [known]
    | some lane =>
      dsimp only
      split
      · next updated => simp [Finmap.lookup_insert, changed, updated]
      · next linked => simp [Finmap.lookup_insert, changed, linked]
  · have kept : (lanes.lookup id).map (changed e id) = lanes.lookup id := by
      cases lanes.lookup id with
      | none => rfl
      | some lane => rw [Option.map_some, changed, if_neg own]
    rw [kept]
    cases lanes.lookup e.lane with
    | none => rfl
    | some lane =>
      dsimp only
      split <;> rw [Finmap.lookup_insert_of_ne _ own]

theorem lookup_created {lanes : Keyed LaneView} {e : Event} (kind : e.kind = .laneCreated)
    (fresh : lanes.lookup e.id = none) (id : String) :
    (applyLane lanes e).lookup id =
      if id = e.id then
        some
          { id := e.id, name := e.laneName, lead := e.lead, leadAt := e.at_, created := e.at_, by_ := e.by_ }
      else lanes.lookup id := by
  rw [applyLane, if_pos kind, if_pos fresh]
  split
  · next own => rw [own, Finmap.lookup_insert]
  · next other => rw [Finmap.lookup_insert_of_ne _ other]

theorem changed_id (e : Event) (id : String) (lane : LaneView) :
    (changed e id lane).id = lane.id := by
  rw [changed]
  split
  · split
    · exact update_id lane e
    · exact link_id lane e
  · rfl

/-- Only an update with a name renames, and only its lane. -/
theorem changed_name {e : Event} (id : String) (lane : LaneView)
    (other : id ≠ e.lane ∨ e.kind ≠ .laneUpdated ∨ e.laneName = "") :
    (changed e id lane).name = lane.name := by
  rw [changed]
  split
  · next own =>
    split
    · next updated =>
      have unnamed : e.laneName = "" :=
        (other.resolve_left fun different => different own).resolve_left fun different =>
          different updated
      rw [update_name, if_pos unnamed]
    · exact link_name lane e
  · rfl

/-- Only an update with a lead changes a lead, and only of its lane. -/
theorem changed_lead {e : Event} (id : String) (lane : LaneView)
    (other : id ≠ e.lane ∨ e.kind ≠ .laneUpdated ∨ e.lead = "") :
    (changed e id lane).lead = lane.lead := by
  rw [changed]
  split
  · next own =>
    split
    · next updated =>
      have unled : e.lead = "" :=
        (other.resolve_left fun different => different own).resolve_left fun different =>
          different updated
      rw [update_lead, if_neg (by simp [unled])]
    · exact link_lead lane e
  · rfl

theorem changed_led (e : Event) (id : String) (lane : LaneView) :
    (changed e id lane).lead = lane.lead ∨ id = e.lane ∧ (changed e id lane).lead = e.lead := by
  rw [changed]
  split
  · next own =>
    split
    · rw [update_lead]
      split
      · exact Or.inr ⟨own, rfl⟩
      · exact Or.inl rfl
    · exact Or.inl (link_lead lane e)
  · exact Or.inl rfl

/-! ## Names -/

section

variable (orbit : Char → Char) (roster : List BusRow)

/-- No two lanes with a live member have one name. -/
def Ledger.Differ (l : Ledger) : Prop :=
  ∀ a b lane lane', l.lanes.lookup a = some lane → l.lanes.lookup b = some lane' →
    l.Live roster a → l.Live roster b → equalFold orbit lane.name lane'.name = true → a = b

variable {orbit roster} {l l' : Ledger}

theorem equalFold_symm {a b : String} (same : equalFold orbit a b = true) :
    equalFold orbit b a = true :=
  decide_eq_true (of_decide_eq_true same).symm

theorem Ledger.Differ.kept (differ : l.Differ orbit roster)
    (live : ∀ id, l'.Live roster id → l.Live roster id)
    (names : ∀ id lane', l'.lanes.lookup id = some lane' →
      ∃ lane, l.lanes.lookup id = some lane ∧ lane'.name = lane.name) : l'.Differ orbit roster := by
  intro a b lane lane' known known' alive alive' same
  obtain ⟨before, old, kept⟩ := names a lane known
  obtain ⟨before', old', kept'⟩ := names b lane' known'
  rw [kept, kept'] at same
  exact differ a b before before' old old' (live a alive) (live b alive') same

/-- A lane may come alive, or take a name, that no other live lane has. -/
theorem Ledger.Differ.join (differ : l.Differ orbit roster) (target name : String)
    (free : ∀ id lane, l.lanes.lookup id = some lane → id ≠ target → l.Live roster id →
      equalFold orbit lane.name name = false)
    (live : ∀ id, l'.Live roster id → id = target ∨ l.Live roster id)
    (names : ∀ id lane', l'.lanes.lookup id = some lane' →
      id = target ∧ lane'.name = name ∨
        id ≠ target ∧ ∃ lane, l.lanes.lookup id = some lane ∧ lane'.name = lane.name) :
          l'.Differ orbit roster := by
  intro a b lane lane' known known' alive alive' same
  obtain ⟨rfl, own⟩ | ⟨other, before, old, kept⟩ := names a lane known
  · obtain ⟨rfl, -⟩ | ⟨other', before', old', kept'⟩ := names b lane' known'
    · rfl
    · rw [own, kept'] at same
      have not := free b before' old' other' ((live b alive').resolve_left other')
      rw [equalFold_symm same] at not
      cases not
  · have alive := (live a alive).resolve_left other
    obtain ⟨rfl, own'⟩ | ⟨other', before', old', kept'⟩ := names b lane' known'
    · rw [kept, own'] at same
      have not := free a before old other alive
      rw [same] at not
      cases not
    · rw [kept, kept'] at same
      exact differ a b before before' old old' alive ((live b alive').resolve_left other') same

/-! ## The events of a verb -/

/-- The lanes after an event of theirs. -/
def Ledger.edit (l : Ledger) (e : Event) : Ledger := { l with lanes := applyLane l.lanes e }

/-- The seats after an assignment; one that is read under no name is dropped. -/
def Ledger.seated (l : Ledger) (seat lane : String) (time : Time) : Ledger :=
  if seat = "" then l else l.assign seat lane time

theorem apply_edit (store : Store) {e : Event} (lane : e.kind.isLane) :
    l.apply (store.read e) = l.edit e :=
  if_pos lane

theorem apply_assign (store : Store) (s : Session) (id seat lane : String) :
    l.apply (store.read (s.assign id seat lane)) = l.seated (store.named s.now seat) lane s.now :=
  rfl

theorem edit_known {e : Event} (old : e.kind ≠ .laneCreated) {id : String} {lane' : LaneView}
    (known : (l.edit e).lanes.lookup id = some lane') :
    ∃ lane, l.lanes.lookup id = some lane ∧ lane' = changed e id lane := by
  rw [Ledger.edit, lookup_changed old] at known
  obtain ⟨lane, before, rfl⟩ := Option.map_eq_some_iff.mp known
  exact ⟨lane, before, rfl⟩

theorem edit_live {e : Event} (old : e.kind ≠ .laneCreated) {id : String}
    (live : (l.edit e).Live roster id) :
    l.Live roster id := by
  obtain ⟨there, kept⟩ := live_lanes roster live
  refine kept fun none => there ?_
  rw [lookup_changed old, none, Option.map_none]

theorem seated_lanes (seat lane : String) (time : Time) :
    (l.seated seat lane time).lanes = l.lanes := by
  rw [Ledger.seated]
  split <;> rfl

/-- The ledger after any run. -/
structure Ledger.Ordered (orbit : Char → Char) (roster : List BusRow) (l : Ledger) (clock : Time) :
    Prop where
  keyed : l.Keyed
  named : ∀ id, l.lanes.lookup id ≠ none → id ≠ ""
  older : l.Older clock
  differ : l.Differ orbit roster

variable {clock : Time}

theorem Ledger.Ordered.later (ordered : l.Ordered orbit roster clock) {now : Time}
    (later : clock ≤ now) :
    l.Ordered orbit roster now := { ordered with older := ordered.older.mono later }

theorem Ledger.Ordered.create (ordered : l.Ordered orbit roster clock) {e : Event}
    (kind : e.kind = .laneCreated)
    (fresh : l.lanes.lookup e.id = none) (some_ : e.id ≠ "")
    (free : l.Free orbit roster e.laneName "") :
    (l.edit e).Ordered orbit roster clock := by
  have lookup := lookup_created kind fresh
  constructor
  · intro id lane known
    rw [Ledger.edit, lookup] at known
    split at known
    · next own =>
      cases known
      exact own.symm
    · exact ordered.keyed id lane known
  · intro id known
    rw [Ledger.edit, lookup] at known
    split at known
    · next own =>
      rw [own]
      exact some_
    · exact ordered.named id known
  · exact ordered.older
  · refine ordered.differ.join e.id e.laneName ?_ ?_ ?_
    · intro id lane known _ alive
      exact free id lane known (ordered.named id (by simp [known])) alive
    · intro id alive
      obtain ⟨there, kept⟩ := live_lanes roster alive
      rw [lookup] at there
      split at there
      · next own => exact Or.inl own
      · exact Or.inr (kept there)
    · intro id lane' known
      rw [Ledger.edit, lookup] at known
      split at known
      · next own =>
        cases known
        exact Or.inl ⟨own, rfl⟩
      · next other => exact Or.inr ⟨other, lane', known, rfl⟩

theorem Ledger.Ordered.edit (ordered : l.Ordered orbit roster clock) {e : Event}
    (old : e.kind ≠ .laneCreated)
    (free : e.kind = .laneUpdated → e.laneName ≠ "" → l.Free orbit roster e.laneName e.lane) :
    (l.edit e).Ordered orbit roster clock := by
  constructor
  · intro id lane' known
    obtain ⟨lane, before, rfl⟩ := edit_known old known
    rw [changed_id, ordered.keyed id lane before]
  · intro id known
    refine ordered.named id fun none => known ?_
    rw [Ledger.edit, lookup_changed old, none, Option.map_none]
  · exact ordered.older
  · by_cases renames : e.kind = .laneUpdated ∧ e.laneName ≠ ""
    · obtain ⟨updated, some_⟩ := renames
      refine ordered.differ.join e.lane e.laneName ?_ ?_ ?_
      · exact free updated some_
      · exact fun id alive => Or.inr (edit_live old alive)
      · intro id lane' known
        obtain ⟨lane, before, rfl⟩ := edit_known old known
        by_cases own : id = e.lane
        · refine Or.inl ⟨own, ?_⟩
          rw [changed, if_pos own, if_pos updated, update_name, if_neg some_]
        · exact Or.inr ⟨own, lane, before, changed_name id lane (Or.inl own)⟩
    · refine ordered.differ.kept (fun id => edit_live old) ?_
      intro id lane' known
      obtain ⟨lane, before, rfl⟩ := edit_known old known
      refine ⟨lane, before, changed_name id lane (Or.inr ?_)⟩
      by_cases updated : e.kind = .laneUpdated
      · exact Or.inr (not_not.mp fun some_ => renames ⟨updated, some_⟩)
      · exact Or.inl updated

/-- A dormant lane may come alive under its name. -/
theorem Ledger.Ordered.seated (ordered : l.Ordered orbit roster clock) (seat : String)
    {lane : String}
    (some_ : lane ≠ "") {view : LaneView} (known : l.lanes.lookup lane = some view)
    (free : l.Free orbit roster view.name lane) :
    (l.seated seat lane clock).Ordered orbit roster clock := by
  rw [Ledger.seated]
  split
  · exact ordered
  · refine ⟨ordered.keyed, ordered.named, ordered.older.assign seat some_, ?_⟩
    refine ordered.differ.join lane view.name free ?_ ?_
    · exact fun id alive => live_assign roster ordered.older seat some_ alive
    · intro id lane' there
      by_cases own : id = lane
      · subst own
        have same : some lane' = some view := there.symm.trans known
        cases same
        exact Or.inl ⟨rfl, rfl⟩
      · exact Or.inr ⟨own, lane', there, rfl⟩

/-- A lane has the id of an event that was written. -/
theorem fold_keys {events : List Event} {id : String}
    (known : (events.foldl Ledger.apply l).lanes.lookup id ≠ none) :
    l.lanes.lookup id ≠ none ∨ ∃ e ∈ events, e.id = id := by
  induction events generalizing l with
  | nil => exact Or.inl known
  | cons e rest inductionHypothesis =>
    obtain before | ⟨later, inside, same⟩ := inductionHypothesis known
    · by_cases own : e.id = id
      · exact Or.inr ⟨e, List.mem_cons_self, own⟩
      · refine Or.inl fun none => before ?_
        rw [Ledger.apply]
        split
        · show (applyLane l.lanes e).lookup id = _
          by_cases kind : e.kind = .laneCreated
          · rw [applyLane, if_pos kind]
            split
            · rw [Finmap.lookup_insert_of_ne _ (Ne.symm own), none]
            · exact none
          · rw [lookup_changed kind, none, Option.map_none]
        · split
          · exact none
          · exact none
    · exact Or.inr ⟨later, List.mem_cons_of_mem _ inside, same⟩

end

/-! ## One verb -/

section

variable (orbit : Char → Char) (roster : List BusRow)

/-- The world after any run. -/
structure World.Ordered (world : World) : Prop where
  ledger : world.store.ledger.Ordered orbit roster world.clock
  ids : ∀ id, world.store.ledger.lanes.lookup id ≠ none → ∃ e ∈ world.store.events, e.id = id

variable {orbit roster} {world : World} {call : Call}

theorem session_ledger (store : Store) : ledger (call.session roster store).proj = store.ledger :=
  load_ledger store call.aliases

/-- No lane has the id of a new one. -/
theorem World.Ordered.fresh (ordered : world.Ordered orbit roster) (allowed : call.Allowed world) :
    world.store.ledger.lanes.lookup call.ids.1 = none := by
  by_contra there
  obtain ⟨e, inside, same⟩ := ordered.ids _ there
  exact (allowed.fresh e inside).1 same

/-- What an accepted verb makes of the ledger. -/
theorem Accepted.ordered {l : Ledger} {s : Session} (loaded : ledger s.proj = l)
    (ordered : l.Ordered orbit s.roster s.now) (fresh : l.lanes.lookup s.ids.1 = none)
    (store : Store) {verb : Verb}
    {events : List Event} (accepted : Accepted orbit s verb events)
    (valid : ∀ e ∈ events, validate s.writer.2 e = .ok ()) :
    ((events.map store.read).foldl Ledger.apply l).Ordered orbit s.roster s.now := by
  have lanes : s.proj.lanes = l.lanes := congrArg Ledger.lanes loaded
  have named := fun e inside kind => validate_assign kind (valid e inside)
  cases accepted with
  | new name free stays =>
    have some_ : s.ids.1 ≠ "" := (named _ (List.mem_cons_of_mem _ List.mem_cons_self) rfl).2
    rw [loaded] at free
    have opened :=
      ordered.create (e := s.created name (s.seat (trimSpace s.opts.lead))) rfl fresh some_ free
    have lookup := lookup_created (e := s.created name (s.seat (trimSpace s.opts.lead))) rfl fresh
    refine opened.seated _ some_ ((lookup s.ids.1).trans (if_pos rfl)) ?_
    intro id lane known other alive
    have other : id ≠ s.ids.1 := other
    obtain ⟨there, kept⟩ := live_lanes s.roster alive
    rw [Ledger.edit, lookup] at known
    rw [lookup] at there
    replace known : _ = some lane := (if_neg other).symm.trans known
    replace there : ¬l.lanes.lookup id = none := fun none => there ((if_neg other).trans none)
    exact free id lane known (ordered.named id there) (kept there)
  | rename lane name known free =>
    rw [loaded] at free
    exact ordered.edit (fun kind => by cases kind) fun _ _ => free
  | lead lane ref given positional resolved known seen =>
      exact ordered.edit (fun kind => by cases kind) fun _ unnamed => absurd rfl unnamed
  | join lane ref given positional resolved known free stays =>
    rw [loaded] at free
    rw [lanes] at known
    have some_ : lane.id ≠ "" := ordered.named _ (by simp [known])
    exact (ordered.seated _ some_ known free).edit (fun kind => by cases kind) fun _ unnamed =>
      absurd rfl unnamed
  | move lane given ref positional resolved known free stays =>
    rw [loaded] at free
    rw [lanes] at known
    have some_ : lane.id ≠ "" := ordered.named _ (by simp [known])
    exact ordered.seated _ some_ known free
  | link _ e other kind =>
    have lane : e.kind.isLane := by rw [kind]; rfl
    rw [List.map_singleton, List.foldl_cons, List.foldl_nil, apply_edit store lane]
    exact ordered.edit (by rw [kind]; decide) fun updated => by rw [kind] at updated; cases updated

/-! ## Leads -/

section

variable (orbit : Char → Char) (s : Session)

/-- The seat that a verb is given, and the lane that it puts it in. -/
def Session.aim (verb : Verb) : Option (String × String) :=
  match verb, s.opts.positional with
  | .new, _ => some (s.seat (trimSpace s.opts.lead), s.ids.1)
  | .lead, [ref, given] => (s.resolve orbit ref).toOption.map fun lane => (s.seat given, lane.id)
  | .move, [given, ref] => (s.resolve orbit ref).toOption.map fun lane => (s.seat given, lane.id)
  | _, _ => none

variable {orbit s} in
theorem aim_lead {ref given : String} {lane : LaneView}
    (positional : s.opts.positional = [ref, given])
    (resolved : s.resolve orbit ref = .ok lane) :
    s.aim orbit .lead = some (s.seat given, lane.id) := by
  simp [Session.aim, positional, resolved, Except.toOption]

variable {orbit s} in
theorem aim_move {ref given : String} {lane : LaneView}
    (positional : s.opts.positional = [given, ref])
    (resolved : s.resolve orbit ref = .ok lane) :
    s.aim orbit .move = some (s.seat given, lane.id) := by
  simp [Session.aim, positional, resolved, Except.toOption]

/-- What a verb reads of a seat is what the seat's newest record says: a load reads the seat
under its name, a lane that the seat leads is the lane in its view, and so is the lane that it
is about to lead. -/
structure Session.Sees (store : Store) (verb : Verb) (seat target : String) : Prop where
  named : store.named s.now seat = seat
  shown : ∀ id lane, s.proj.lanes.lookup id = some lane → lane.lead = seat → id ≠ target →
    (s.seatView seat).map (·.laneID) = some id
  inside : verb = .lead → (s.seatView seat).map (·.laneID) = some target →
    (s.proj.latest seat).map (·.laneID) = some target

end

/-- Each lead is in its lane by its newest record, and is named in full. -/
structure Ledger.Led (roster : List BusRow) (l : Ledger) : Prop where
  inside : ∀ id lane, l.lanes.lookup id = some lane → l.own lane.lead = some id
  full : ∀ id lane, l.lanes.lookup id = some lane → ∀ s : Session, s.roster = roster →
    s.seat lane.lead = lane.lead

theorem seat_full {s s' : Session} (same : s'.roster = s.roster) (given : String) :
    s'.seat (s.seat given) = s.seat given := by
  have alike : ∀ name, s'.seat name = s.seat name :=
    fun name => by rw [Session.seat, Session.seat, same]
  rw [alike, seat_seat]

/-- After an assignment every lead is inside, when the seat leads no other lane. -/
theorem own_lead {l : Ledger} {clock : Time} (older : l.Older clock) {seat target : String}
    (some_ : target ≠ "")
    {id lead : String} (other : lead ≠ seat → l.own lead = some id)
    (own : lead = seat → id = target) :
    (l.assign seat target clock).own lead = some id := by
  by_cases same : lead = seat
  · rw [same, own_assign older seat some_, own same]
  · rw [own_assign_other same, other same]

theorem Ledger.Led.assign {l : Ledger} (led : l.Led roster) {clock : Time} (older : l.Older clock)
    {seat target : String} (some_ : target ≠ "")
    (only : ∀ id lane, l.lanes.lookup id = some lane → lane.lead = seat → id = target) :
    (l.assign seat target clock).Led roster where
  inside id lane known :=
    own_lead older some_ (fun _ => led.inside id lane known) (only id lane known)
  full := led.full

theorem Ledger.Led.edit {l : Ledger} (led : l.Led roster) {e : Event} (old : e.kind ≠ .laneCreated)
    (given : e.kind = .laneUpdated → e.lead ≠ "" →
      l.own e.lead = some e.lane ∧ ∀ s : Session, s.roster = roster → s.seat e.lead = e.lead) :
    (l.edit e).Led roster := by
  have kept : ∀ id lane', (l.edit e).lanes.lookup id = some lane' →
      (∃ lane, l.lanes.lookup id = some lane ∧ lane'.lead = lane.lead) ∨
        (id = e.lane ∧ lane'.lead = e.lead ∧ e.kind = .laneUpdated ∧ e.lead ≠ "") := by
    intro id lane' known
    obtain ⟨lane, before, rfl⟩ := edit_known old known
    by_cases leads : e.kind = .laneUpdated ∧ e.lead ≠ ""
    · obtain same | ⟨own, same⟩ := changed_led e id lane
      · exact Or.inl ⟨lane, before, same⟩
      · exact Or.inr ⟨own, same, leads⟩
    · refine Or.inl ⟨lane, before, changed_lead id lane (Or.inr ?_)⟩
      by_cases updated : e.kind = .laneUpdated
      · exact Or.inr (not_not.mp fun some_ => leads ⟨updated, some_⟩)
      · exact Or.inl updated
  constructor
  · intro id lane' known
    obtain ⟨lane, before, same⟩ | ⟨rfl, same, updated, some_⟩ := kept id lane' known
    · rw [same]
      exact led.inside id lane before
    · rw [same]
      exact (given updated some_).1
  · intro id lane' known
    obtain ⟨lane, before, same⟩ | ⟨-, same, updated, some_⟩ := kept id lane' known
    · rw [same]
      exact led.full id lane before
    · rw [same]
      exact (given updated some_).2

/-- A seat that may leave for a lane leads no other. -/
theorem leads_only {l : Ledger} {s : Session} (loaded : ledger s.proj = l) (led : l.Led s.roster)
    {store : Store}
    {verb : Verb} {seat target : String} (sees : s.Sees store verb seat target) (stays : s.Stays seat target)
    (named : ∀ id, l.lanes.lookup id ≠ none → id ≠ "") {id : String} {lane : LaneView}
    (known : l.lanes.lookup id = some lane) (leads : lane.lead = seat) : id = target := by
  by_contra other
  have known' : s.proj.lanes.lookup id = some lane := by
    rw [show s.proj.lanes = l.lanes from congrArg Ledger.lanes loaded, known]
  have seen := sees.shown id lane known' leads other
  rw [seatView_lane] at seen
  refine stays id lane seen (named id (by simp [known])) other known' ?_
  rw [led.full id lane known s rfl, leads]

theorem apply_seated {l : Ledger} {store : Store} {s : Session} {seat : String} (named : store.named s.now seat = seat)
    (some_ : seat ≠ "") (id lane : String) :
    l.apply (store.read (s.assign id seat lane)) = l.assign seat lane s.now := by
  rw [apply_assign, named, Ledger.seated, if_neg some_]

theorem Accepted.led {l : Ledger} {s : Session} (loaded : ledger s.proj = l) (ordered : l.Ordered orbit s.roster s.now)
    (led : l.Led s.roster) (fresh : l.lanes.lookup s.ids.1 = none) (store : Store) {verb : Verb} {events : List Event}
    (accepted : Accepted orbit s verb events) (valid : ∀ e ∈ events, validate s.writer.2 e = .ok ())
    (sees : ∀ seat target, s.aim orbit verb = some (seat, target) → s.Sees store verb seat target) :
    ((events.map store.read).foldl Ledger.apply l).Led s.roster := by
  have lanes : s.proj.lanes = l.lanes := congrArg Ledger.lanes loaded
  have named := fun e inside kind => validate_assign kind (valid e inside)
  cases accepted with
  | new name free stays =>
    obtain ⟨given, some_⟩ := named _ (List.mem_cons_of_mem _ List.mem_cons_self) rfl
    have sees := sees _ _ rfl
    have lookup := lookup_created (e := s.created name (s.seat (trimSpace s.opts.lead))) rfl fresh
    rw [List.map_cons, List.map_singleton, List.foldl_cons, List.foldl_cons, List.foldl_nil,
      apply_seated sees.named given]
    constructor
    · intro id lane known
      replace known := (lookup id).symm.trans known
      refine own_lead (l := l.edit _) ordered.older some_ ?_ ?_
      · intro other
        split at known
        · cases known
          exact absurd rfl other
        · exact led.inside id lane known
      · intro leads
        split at known
        · next own => exact own
        · exact leads_only loaded led sees stays ordered.named known leads
    · intro id lane known s' same
      replace known := (lookup id).symm.trans known
      split at known
      · cases known
        exact seat_full same _
      · exact led.full id lane known s' same
  | rename lane name known free => exact led.edit (fun kind => by cases kind) fun _ unled => absurd rfl unled
  | lead lane ref given positional resolved known seen =>
    have sees := sees (s.seat given) lane.id (aim_lead positional resolved)
    have own := sees.inside rfl (by rw [seatView_lane, seen])
    rw [← own_latest, loaded] at own
    exact led.edit (fun kind => by cases kind) fun _ _ => ⟨own, fun _ same => seat_full same _⟩
  | join lane ref given positional resolved known free stays =>
    have sees := sees (s.seat given) lane.id (aim_lead positional resolved)
    obtain ⟨some_, target⟩ := named _ List.mem_cons_self rfl
    rw [List.map_cons, List.foldl_cons, apply_seated sees.named some_]
    have moved := led.assign ordered.older target fun id lane known leads =>
      leads_only loaded led sees stays ordered.named known leads
    exact moved.edit (fun kind => by cases kind) fun _ _ =>
      ⟨own_assign ordered.older _ target, fun _ same => seat_full same _⟩
  | move lane given ref positional resolved known free stays =>
    have sees := sees (s.seat given) lane.id (aim_move positional resolved)
    obtain ⟨some_, target⟩ := named _ List.mem_cons_self rfl
    rw [List.map_singleton, List.foldl_cons, List.foldl_nil, apply_seated sees.named some_]
    exact led.assign ordered.older target fun id lane known leads =>
      leads_only loaded led sees stays ordered.named known leads
  | link _ e other kind =>
    have lane : e.kind.isLane := by rw [kind]; rfl
    rw [List.map_singleton, List.foldl_cons, List.foldl_nil, apply_edit store lane]
    refine led.edit (e := store.read e) (fun created => ?_) fun updated => ?_
    · exact absurd (kind.symm.trans created) (by decide)
    · exact absurd (kind.symm.trans updated) (by decide)

/-- A lane's lead stays, but for the lane that `lead` is called for. -/
theorem Accepted.leads {l : Ledger} {s : Session} (fresh : l.lanes.lookup s.ids.1 = none)
    (store : Store) {verb : Verb} {events : List Event} (accepted : Accepted orbit s verb events)
    {id : String}
    {lane : LaneView} (known : l.lanes.lookup id = some lane)
    (other : verb = .lead → (s.aim orbit verb).map (·.2) ≠ some id) :
    ∃ lane', ((events.map store.read).foldl Ledger.apply l).lanes.lookup id = some lane' ∧
      lane'.lead = lane.lead := by
  have edited : ∀ {l' : Ledger} {e : Event}, l'.lanes = l.lanes → e.kind ≠ .laneCreated →
      (id ≠ e.lane ∨ e.kind ≠ .laneUpdated ∨ e.lead = "") →
        ∃ lane', (l'.edit e).lanes.lookup id = some lane' ∧ lane'.lead = lane.lead := by
    intro l' e lanes old kept
    refine ⟨changed e id lane, ?_, changed_lead id lane kept⟩
    rw [Ledger.edit, lookup_changed old, lanes, known, Option.map_some]
  cases accepted with
  | new name free stays =>
    have lookup := lookup_created (e := s.created name (s.seat (trimSpace s.opts.lead))) rfl fresh
    refine ⟨lane, ?_, rfl⟩
    have apart : id ≠ s.ids.1 := by
      rintro rfl
      rw [known] at fresh
      cases fresh
    rw [List.map_cons, List.map_singleton, List.foldl_cons, List.foldl_cons, List.foldl_nil,
      apply_assign, seated_lanes]
    exact (lookup id).trans ((if_neg apart).trans known)
  | rename => exact edited rfl (fun kind => by cases kind) (Or.inr (Or.inr rfl))
  | lead target ref given positional resolved _ seen =>
    have apart := other rfl
    rw [aim_lead positional resolved] at apart
    refine edited rfl (fun kind => by cases kind) (Or.inl fun same => apart ?_)
    rw [same]
    rfl
  | join target ref given positional resolved _ free stays =>
    have apart := other rfl
    rw [aim_lead positional resolved] at apart
    refine edited (seated_lanes _ _ _) (fun kind => by cases kind) (Or.inl fun same => apart ?_)
    rw [same]
    rfl
  | move =>
    refine ⟨lane, ?_, rfl⟩
    rw [List.map_singleton, List.foldl_cons, List.foldl_nil, apply_assign, seated_lanes, known]
  | link _ e _ kind =>
    have isLane : e.kind.isLane := by rw [kind]; rfl
    rw [List.map_singleton, List.foldl_cons, List.foldl_nil, apply_edit store isLane]
    refine edited rfl (fun created => ?_) (Or.inr (Or.inl fun updated => ?_))
    · exact absurd (kind.symm.trans created) (by decide)
    · exact absurd (kind.symm.trans updated) (by decide)

end

end AiConfig.Herder.Agents.Lanes
