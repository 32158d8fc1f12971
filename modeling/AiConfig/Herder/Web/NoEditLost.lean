import AiConfig.Herder.State.Horizon
import AiConfig.Herder.Web.Page

/-! # No local edit is lost

A key leaves the queue, and a full pull ends the catch-up, only where the server covers the
local row.  What the server covers it covers from then on, so the answers in flight stay
good however late they land. -/

namespace AiConfig.Herder

open AiConfig.Lib

section

variable {V : Type}

/-! ## The server's side -/

structure Advances (before after : NamespaceData V) : Prop where
  covers : ∀ row, before.Covers row → after.Covers row
  horizon : before.horizon ≤ after.horizon

theorem Advances.refl (data : NamespaceData V) : Advances data data :=
  ⟨fun _ covers => covers, le_rfl⟩

/-- Of the other callers, a sweep is one of a namespace of owner content. -/
def Call.Owner (ns : String) (state : NamespaceState V) : Call V → Prop
  | .sweep policy _ => OwnerSweep ns policy ∧ PositivePurges state.data policy
  | .upsert _ _ | .since _ _ | .restart => True

theorem advances_run (values : Values V) (limits : Limits) (ns : String) {state : NamespaceState V}
    {call : Call V}
    (owner : call.Owner ns state) (ahead : Advances state.data state.onDisk) :
    Advances state.data (call.run values limits ns state).data ∧
      Advances (call.run values limits ns state).data (call.run values limits ns state).onDisk := by
  apply Call.run_ahead Advances.refl values limits ns call ahead
  · intro rows
    exact ⟨fun row covers => covers.landing rows, le_of_eq (by simp [NamespaceData.landing])⟩
  · intro policy faults same
    subst same
    exact ⟨fun row covers => covers.swept owner.1 owner.2, raised_ge policy ns _ _⟩

/-! ## The page's side -/

/-- What the page holds and has been answered is covered, or still to be sent. -/
structure Page.Guarded (data : NamespaceData V) (page : Page V) : Prop where
  keys : (page.rows.map Row.key).Nodup
  rows : ∀ key row, page.row key = some row → key ∈ page.queue ∨ page.catchUp = true ∨
    data.Covers row
  pull : ∀ full since snapshot, page.pull = some ⟨full, since, some (.ok snapshot)⟩ →
    (∀ row ∈ snapshot.rows, data.Covers row) ∧ snapshot.horizon ≤ data.horizon
  send : ∀ rows split chunks result,
    page.send = some (.posting rows split chunks (some (.ok result))) →
    ∀ row ∈ rows, data.Covers row

theorem Page.Guarded.advances {data later : NamespaceData V} {page : Page V}
    (guarded : page.Guarded data)
    (advances : Advances data later) : page.Guarded later where
  keys := guarded.keys
  rows :=
    fun key row found => (guarded.rows key row found).imp_right (Or.imp_right (advances.covers row))
  pull := fun full since snapshot answered =>
    ⟨fun row member => advances.covers row
      ((guarded.pull full since snapshot answered).1 row member),
      le_trans (guarded.pull full since snapshot answered).2 advances.horizon⟩
  send := fun rows split chunks result answered row member =>
    advances.covers row (guarded.send rows split chunks result answered row member)

theorem Page.Guarded.keeps {data : NamespaceData V} {page page' : Page V}
    (guarded : page.Guarded data)
    (keeps : page.Keeps page') : page'.Guarded data := by
  constructor
  case keys => exact keeps.rows ▸ guarded.keys
  case rows =>
    intro key row found
    rw [Page.row, keeps.rows] at found
    rw [keeps.catchUp]
    cases guarded.rows key row found with
    | inr other => exact Or.inr other
    | inl queued =>
      cases keeps.queue key queued with
      | inl still => exact Or.inl still
      | inr gone =>
        rw [Page.row, found] at gone
        cases gone
  case pull => exact fun full since snapshot answered =>
    guarded.pull full since snapshot (keeps.pull full since snapshot answered)
  case send => exact fun rows split chunks result answered =>
    guarded.send rows split chunks result (keeps.send rows split chunks result answered)

theorem guarded_load (data : NamespaceData V) {rows : List (Row V)}
    (nodup : (rows.map Row.key).Nodup)
    (queue : List String) (cursor : Nat) (persists : Bool) :
    (Page.load rows queue cursor persists).Guarded data where
  keys := nodup
  rows := fun _ _ _ => Or.inr (Or.inl rfl)
  pull := fun _ _ _ answered => nomatch answered
  send := fun _ _ _ _ answered => nomatch answered

theorem Page.Guarded.mutate {data : NamespaceData V} {page : Page V} (guarded : page.Guarded data)
    (options : SyncOptions V) (rows : List (Row V)) : (page.mutate options rows).Guarded data := by
  rw [Page.mutate]
  refine Page.Guarded.keeps ?_ (keeps_sendQueue options _)
  have same := enqueueKeys_same
    { page with
      rows := rows.foldl putRow page.rows
      held := page.held.filter fun key => key ∉ rows.map (·.key) } (rows.map (·.key))
  constructor
  case keys =>
    rw [same.rows]
    exact nodup_putRows guarded.keys
  case rows =>
    intro key row found
    rw [Page.row, same.rows] at found
    rw [Page.mem_enqueueKeys, same.catchUp]
    by_cases mutated : key ∈ rows.map (·.key)
    · exact Or.inl (Or.inr mutated)
    · rw [firstOf_putRows mutated] at found
      exact (guarded.rows key row found).imp_left Or.inl
  case pull =>
    intro full since snapshot answered
    rw [same.pull] at answered
    exact guarded.pull full since snapshot answered
  case send =>
    intro sent split chunks result answered
    rw [same.send] at answered
    exact guarded.send sent split chunks result answered

/-- The keys of rows that the server covers may leave the queue. -/
theorem Page.Guarded.dequeue {data : NamespaceData V} {page : Page V} (guarded : page.Guarded data)
    {keys : List String} (covered : ∀ key ∈ keys, ∀ row, page.row key = some row →
    data.Covers row) :
    (page.dequeueKeys keys).Guarded data := by
  have same := dequeueKeys_same page keys
  constructor
  case keys => exact same.rows ▸ guarded.keys
  case rows =>
    intro key row found
    rw [Page.row, same.rows] at found
    rw [Page.mem_dequeueKeys, same.catchUp]
    by_cases retired : key ∈ keys
    · exact Or.inr (Or.inr (covered key retired row found))
    · exact (guarded.rows key row found).imp_left fun queued => ⟨queued, retired⟩
  case pull =>
    intro full since snapshot answered
    rw [same.pull] at answered
    exact guarded.pull full since snapshot answered
  case send =>
    intro sent split chunks result answered
    rw [same.send] at answered
    exact guarded.send sent split chunks result answered

theorem Page.Guarded.forget {data : NamespaceData V} {page : Page V} (guarded : page.Guarded data)
    (options : SyncOptions V) {keys : List String}
    (covered : ∀ key ∈ keys, ∀ row, page.row key = some row → data.Covers row) :
    (page.forget options keys).Guarded data := by
  constructor
  case keys =>
    cases forget_rows options page keys with
    | inl same => exact same ▸ guarded.keys
    | inr dropped =>
      rw [dropped.2]
      exact guarded.keys.sublist (List.filter_sublist.map _)
  case rows =>
    intro key row found
    have before := (row_forget found).1
    rw [mem_forget, forget_catchUp]
    by_cases forgotten : key ∈ keys
    · exact Or.inr (Or.inr (covered key forgotten row before))
    · exact (guarded.rows key row before).imp_left fun queued => ⟨queued, forgotten⟩
  case pull =>
    intro full since snapshot answered
    rw [forget_pull] at answered
    exact guarded.pull full since snapshot answered
  case send =>
    intro sent split chunks result answered
    rw [forget_send] at answered
    exact guarded.send sent split chunks result answered

/-! ## Landings -/

theorem firstOf_reverse {rows : List (Row V)} {key : String} {row : Row V}
    (found : firstOf rows.reverse key = some row) : row ∈ rows ∧ row.key = key := by
  have picked := firstOf_eq_some found
  exact ⟨List.mem_reverse.mp picked.1, picked.2⟩

theorem compare_nonneg {left right : Row V} :
    0 ≤ left.compare right ↔ right.version ≤ left.version := by
  simp only [Row.compare, compareVersions, Row.version, Prod.Lex.toLex_le_toLex]
  split
  · simp_all
  · split
    · simp_all
      omega
    · have same : right.updated = left.updated := by omega
      split
      · rename_i above
        simpa [same] using le_of_lt above
      · split
        · rename_i below
          simpa [same] using below
        · rename_i high low
          simpa [same] using not_lt.mp low

/-- What a pull merges are rows the server covers. -/
theorem Page.Guarded.merge {data : NamespaceData V} {page : Page V} (guarded : page.Guarded data)
    {answer : Snapshot V} (covered : ∀ row ∈ answer.rows, data.Covers row) :
    (page.merge answer).Guarded data := by
  constructor
  case keys => exact nodup_addCandidates guarded.keys
  case rows =>
    intro key row found
    rw [Page.row, Page.merge, firstOf_foldl] at found
    cases absorbAll_source found with
    | inl own => exact guarded.rows key row own
    | inr remote => exact Or.inr (Or.inr (covered row remote.1))
  case pull => exact guarded.pull
  case send => exact guarded.send

theorem retired_covered {data : NamespaceData V} {page : Page V} {pulled : List (Row V)}
    (covered : ∀ row ∈ pulled, data.Covers row) :
    ∀ key ∈ page.retired pulled, ∀ row, page.row key = some row → data.Covers row := by
  intro key member row found
  have retires := (List.mem_filter.mp member).2
  rw [found] at retires
  cases remote : firstOf pulled.reverse key with
  | none => simp [remote] at retires
  | some other =>
    simp only [remote, decide_eq_true_eq] at retires
    obtain ⟨inside, own⟩ := firstOf_reverse remote
    exact (covered other inside).below ((firstOf_eq_some found).2.trans own.symm)
      (compare_nonneg.mp retires)

/-- The end of the catch-up: what is neither queued nor purged is covered. -/
theorem Page.Guarded.caughtUp {data : NamespaceData V} {page : Page V} (guarded : page.Guarded data)
    (options : SyncOptions V) {answer : Snapshot V} (covered : ∀ row ∈ answer.rows, data.Covers row)
    (horizon : answer.horizon ≤ data.horizon) : (page.caughtUp options answer).Guarded data := by
  let missing := page.rows.filter fun row =>
    !purgedRow answer.rows answer.horizon row && missingRow answer.rows row
  have same := enqueueKeys_same { page with catchUp := false } (missing.map Row.key)
  have purged_covered : ∀ row, purgedRow answer.rows answer.horizon row = true →
      data.Covers row := by
    intro row gone
    simp only [purgedRow, Bool.and_eq_true, decide_eq_true_eq] at gone
    exact Or.inr ⟨lt_of_lt_of_le gone.1.2 horizon, le_trans gone.2 horizon⟩
  have queued :
      ({ page with catchUp := false }.enqueueKeys (missing.map Row.key)).Guarded data := by
    constructor
    case keys =>
      rw [same.rows]
      exact guarded.keys
    case rows =>
      intro key row found
      rw [Page.row, same.rows] at found
      have inside : row ∈ page.rows := (firstOf_eq_some found).1
      have own : row.key = key := (firstOf_eq_some found).2
      rw [Page.mem_enqueueKeys, same.catchUp]
      cases gone : purgedRow answer.rows answer.horizon row with
      | true => exact Or.inr (Or.inr (purged_covered row gone))
      | false =>
        cases absent : missingRow answer.rows row with
        | true =>
          left
          right
          exact List.mem_map.mpr ⟨row, List.mem_filter.mpr ⟨inside, by simp [gone, absent]⟩, own⟩
        | false =>
          -- the answer has a row of this key that the local one is not above
          rw [missingRow] at absent
          cases remote : firstOf answer.rows.reverse row.key with
          | none => simp [remote] at absent
          | some other =>
            simp only [remote, decide_eq_false_iff_not, not_lt] at absent
            obtain ⟨member, keyed⟩ := firstOf_reverse remote
            exact Or.inr (Or.inr ((covered other member).below keyed.symm
              ((compare_nonpos row other).mp absent)))
    case pull =>
      intro full since snapshot answered
      rw [same.pull] at answered
      exact guarded.pull full since snapshot answered
    case send =>
      intro sent split chunks result answered
      rw [same.send] at answered
      exact guarded.send sent split chunks result answered
  apply queued.forget options
  intro key member row found
  rw [Page.row, same.rows] at found
  obtain ⟨other, chosen, own⟩ := List.mem_map.mp member
  obtain ⟨inside, gone⟩ := List.mem_filter.mp chosen
  have one : row = other := by
    have again := firstOf_of_mem guarded.keys inside
    rw [own] at again
    exact Option.some.inj (found.symm.trans again)
  exact purged_covered row (one ▸ gone)

theorem Page.Guarded.pullLands {data : NamespaceData V} {page : Page V}
    (guarded : page.Guarded data)
    (options : SyncOptions V) {full : Bool} {answer : Snapshot V}
    (covered : ∀ row ∈ answer.rows, data.Covers row)
    (horizon : answer.horizon ≤ data.horizon) :
    (page.pullLands options full answer).Guarded data := by
  have merged := guarded.merge covered
  have trimmed : Page.Guarded data (if answer.rows.isEmpty then page.merge answer
      else (page.merge answer).dequeueKeys ((page.merge answer).retired answer.rows)) := by
    split
    · exact merged
    · exact merged.dequeue (retired_covered covered)
  rw [Page.pullLands]
  cases full with
  | true => exact trimmed.caughtUp options covered horizon
  | false => exact trimmed

theorem Page.Guarded.posted {data : NamespaceData V} {page : Page V} (guarded : page.Guarded data)
    (options : SyncOptions V) {rows : List (Row V)} (covered : ∀ row ∈ rows, data.Covers row)
    (answer : UpsertResult) :
    (page.posted options rows answer).Guarded data := by
  have dropped_covered : ∀ key ∈ page.dropped rows answer.stale, ∀ row, page.row key = some row →
      data.Covers row := by
    intro key member row found
    have drops := (List.mem_filter.mp member).2
    simp only [found] at drops
    cases sent : firstOf rows.reverse key with
    | none => simp [sent] at drops
    | some other =>
      simp only [sent, decide_eq_true_eq] at drops
      obtain ⟨inside, own⟩ := firstOf_reverse sent
      exact (covered other inside).below ((firstOf_eq_some found).2.trans own.symm)
        ((compare_nonpos row other).mp drops)
  apply (guarded.forget options dropped_covered).dequeue
  intro key member row found
  obtain ⟨other, chosen, own⟩ := List.mem_map.mp member
  obtain ⟨inside, still⟩ := List.mem_filter.mp chosen
  have before := (row_forget found).1
  have below : row.version ≤ other.version := by
    simpa [Page.unchanged, own, before, compare_nonpos] using still
  exact (covered other inside).below ((firstOf_eq_some before).2.trans own.symm) below

theorem Page.Guarded.postLands {data : NamespaceData V} {page : Page V} (guarded : page.Guarded data)
    (options : SyncOptions V) {rows split : List (Row V)} {chunks : List (List (Row V))}
    {answer : Except Problem UpsertResult}
    (sent : page.send = some (.posting rows split chunks (some answer))) :
    (page.postLands options rows split chunks answer).Guarded data := by
  cases answer with
  | ok result =>
    have covered := guarded.send rows split chunks result sent
    exact (guarded.posted options covered result).keeps (keeps_send _ (by simp))
  | error problem =>
    cases problem with
    | tooLarge =>
      rw [Page.postLands.eq_def]
      dsimp only
      split
      · exact guarded.keeps (keeps_send _ (by simp))
      · exact guarded.keeps ⟨rfl, rfl, fun _ queued => Or.inl queued, fun _ _ _ answered => answered,
          fun _ _ _ _ answered => by simp at answered⟩
    | attributionRequired => exact guarded.keeps ((keeps_handleFailure page _).trans (keeps_send _ (by simp)))
    | other => exact guarded.keeps ((keeps_handleFailure page _).trans (keeps_send _ (by simp)))

/-! ## Runs -/

def Event.Owner (options : WorldOptions V) (world : World V) : Event V → Prop
  | .server made => made.Owner options.ns world.server
  | _ => True

/-- Every sweep of the run is one of owner content. -/
def World.Owner (options : WorldOptions V) : World V → List (Event V) → Prop
  | _, [] => True
  | world, event :: rest => event.Owner options world ∧ (event.run options world).Owner options rest

/-- A server process that has read nothing yet, and a page just loaded. -/
structure World.Fresh (world : World V) : Prop where
  memory : world.server.memory = none
  file : world.server.onDisk.WellFormed
  keys : (world.page.rows.map Row.key).Nodup
  page : ∃ queue cursor persists, world.page = .load world.page.rows queue cursor persists

structure World.Kept (world : World V) : Prop where
  sound : ∃ removed, world.server.Sound removed
  ahead : Advances world.server.data world.server.onDisk
  page : world.page.Guarded world.server.data

theorem World.Fresh.kept {world : World V} (fresh : world.Fresh) : world.Kept := by
  have data : world.server.data = world.server.onDisk := by
    rw [NamespaceState.data, NamespaceState.visible, fresh.memory, Option.none_or,
      NamespaceState.onDisk]
  constructor
  case sound => exact ⟨[], data ▸ fresh.file, fresh.file, data ▸ .refl [] _⟩
  case ahead => exact data ▸ .refl _
  case page =>
    obtain ⟨queue, cursor, persists, loaded⟩ := fresh.page
    rw [loaded]
    exact guarded_load _ fresh.keys queue cursor persists

/-- A call of the server, whoever makes it, and a page that it leaves guarded. -/
theorem World.Kept.call {world : World V} (kept : world.Kept) (values : Values V) (limits : Limits)
    (ns : String)
    {call : Call V} (owner : call.Owner ns world.server) (page : Page V)
    (guarded : Advances world.server.data (call.run values limits ns world.server).data →
      page.Guarded (call.run values limits ns world.server).data) :
    World.Kept ⟨call.run values limits ns world.server, page⟩ := by
  obtain ⟨removed, sound⟩ := kept.sound
  obtain ⟨moves, ahead⟩ := advances_run values limits ns owner kept.ahead
  exact ⟨⟨_, (sound.run values limits ns call).1⟩, ahead, guarded moves⟩

theorem since_covered {data : NamespaceData V} (sound : data.WellFormed) (revision : Nat) :
    ∀ row ∈ (data.since revision).rows, data.Covers row := by
  intro row member
  obtain ⟨stored, inside, _, same⟩ := mem_since.mp member
  have found := lookup_of_stored sound inside
  subst same
  exact Or.inl ⟨stored.toRow, by rw [NamespaceData.row, found, Option.map_some], le_rfl⟩

/-- The answer to the pull in flight. -/
theorem Page.Guarded.pullServed {data : NamespaceData V} {page : Page V}
    (guarded : page.Guarded data)
    (full : Bool) (revision : Nat) {answer : Except Problem (Snapshot V)}
    (sound : ∀ snapshot, answer = .ok snapshot → (∀ row ∈ snapshot.rows, data.Covers row) ∧
    snapshot.horizon ≤ data.horizon) :
    Page.Guarded data { page with pull := some ⟨full, revision, some answer⟩ } where
  keys := guarded.keys
  rows := guarded.rows
  pull := fun _ _ snapshot answered => sound snapshot (by simp_all)
  send := guarded.send

theorem Page.Guarded.postServed {data : NamespaceData V} {page : Page V}
    (guarded : page.Guarded data)
    {rows split : List (Row V)} {chunks : List (List (Row V))}
    {answer : Except Problem UpsertResult}
    (sound : ∀ result, answer = .ok result → ∀ row ∈ rows, data.Covers row) :
    Page.Guarded data { page with send := some (.posting rows split chunks (some answer)) } where
  keys := guarded.keys
  rows := guarded.rows
  pull := guarded.pull
  send := fun sent _ _ result answered => by
    simp only [Option.some.injEq, Send.posting.injEq] at answered
    exact answered.1 ▸ sound result answered.2.2.2

theorem World.Kept.pullServed {world : World V} (kept : world.Kept) (values : Values V)
    (limits : Limits) (ns : String)
    (full : Bool) (revision : Nat) (faults : Faults) :
    World.Kept ⟨(since world.server revision faults).2,
      { world.page with pull := some ⟨full, revision,
      some (transported (since world.server revision faults).1)⟩ }⟩ := by
  obtain ⟨removed, sound⟩ := kept.sound
  have called :=
    kept.call values limits ns
    (show (Call.since revision faults).Owner ns world.server from trivial)
  simp only [Call.run] at called
  have step := answers world.server revision faults
  generalize since world.server revision faults = answer at step called ⊢
  cases step with
  | failed problem absent =>
    refine called _ fun _ => kept.page.pullServed full revision ?_
    intro snapshot same
    cases problem with
    | namespaceNotFound =>
      cases same
      have empty : world.server.data = .empty := by
        rw [NamespaceState.data, absent rfl, Option.getD_none]
      rw [empty]
      exact ⟨fun _ inside => absurd inside List.not_mem_nil, le_rfl⟩
    | _ => cases same
  | answered =>
    refine called _ fun _ => kept.page.pullServed full revision ?_
    intro snapshot same
    cases same
    exact ⟨since_covered sound.data revision, le_rfl⟩

theorem World.Kept.postServed {world : World V} (kept : world.Kept) (values : Values V)
    (limits : Limits) (ns : String)
    (rows split : List (Row V)) (chunks : List (List (Row V))) (faults : Faults) :
    World.Kept (match upsert values limits world.server rows faults with
      | (.ok result, state) => ⟨state,
          { world.page with send := some (.posting rows split chunks (some (.ok result))) }⟩
      | (.error problem, state) =>
        ⟨state,
            { world.page with send := some (.posting rows split chunks
            (some (.error problem.problem))) }⟩) := by
  have called :=
    kept.call values limits ns (show (Call.upsert rows faults).Owner ns world.server from trivial)
  simp only [Call.run] at called
  have step := upserted values limits world.server rows faults
  generalize upsert values limits world.server rows faults = answer at step called ⊢
  cases step with
  | unread => exact called _ fun moves => (kept.page.advances moves).postServed (by simp)
  | badRow => exact called _ fun moves => (kept.page.advances moves).postServed (by simp)
  | tooMany => exact called _ fun moves => (kept.page.advances moves).postServed (by simp)
  | unsaved => exact called _ fun moves => (kept.page.advances moves).postServed (by simp)
  | idle _ _ _ nothing =>
    refine called _ fun moves => (kept.page.advances moves).postServed fun _ _ row member => ?_
    have landed : (world.server.data.landing rows).Covers row := landing_covers member
    rw [nothing] at landed
    exact landed
  | saved =>
    exact called _ fun moves => (kept.page.advances moves).postServed fun _ _ row member =>
      landing_covers member

theorem World.Kept.event {world : World V} (kept : world.Kept) (options : WorldOptions V)
    {event : Event V}
    (owner : event.Owner options world) : (event.run options world).Kept := by
  -- A step of the page alone has only the page to answer for.
  have moved : ∀ {page : Page V}, page.Guarded world.server.data →
      World.Kept { world with page := page } :=
    fun guarded => ⟨kept.sound, kept.ahead, guarded⟩
  have unscheduled : world.page.Keeps { world.page with retryScheduled := false } :=
    ⟨rfl, rfl, fun _ queued => Or.inl queued, fun _ _ _ answered => answered,
      fun _ _ _ _ answered => answered⟩
  have retries : World.Kept
      { world with page := { world.page with retryScheduled := false }.requestPull (some
          .sendQueue) } :=
    moved (kept.page.keeps (unscheduled.trans (Page.keeps_requestPull _ _)))
  cases event with
  | mutate rows => exact moved (kept.page.mutate options.sync rows)
  | start => exact moved (kept.page.keeps (Page.keeps_requestPull _ _))
  | stateChanged rev =>
    rw [Event.run]
    split
    · exact kept
    · exact moved (kept.page.keeps (Page.keeps_requestPull _ _))
  | retryFires =>
    rw [Event.run]
    split
    · exact retries
    · exact kept
  | retryNow => exact retries
  | pullServed faults =>
    rw [Event.run]
    split
    · exact kept.pullServed options.values options.limits options.ns _ _ faults
    · exact kept
  | pullFails problem =>
    rw [Event.run]
    split
    · exact moved (kept.page.pullServed _ _ (by simp))
    · exact kept
  | pullLands =>
    rw [Event.run]
    split
    · rename_i answered
      obtain ⟨covered, horizon⟩ := kept.page.pull _ _ _ answered
      exact moved ((kept.page.pullLands options.sync covered horizon).keeps
        (Page.keeps_pullSettles _))
    · exact moved
        (kept.page.keeps ((Page.keeps_handleFailure _ _).trans (Page.keeps_pullSettles _)))
    · exact kept
  | postServed faults =>
    rw [Event.run]
    split
    · exact kept.postServed options.values options.limits options.ns _ _ _ faults
    · exact kept
  | postFails problem =>
    rw [Event.run]
    split
    · exact moved (kept.page.postServed (by simp))
    · exact kept
  | postLands =>
    rw [Event.run]
    split
    · rename_i sent
      exact moved (kept.page.postLands options.sync sent)
    · exact kept
  | proceed =>
    rw [Event.run]
    split
    · exact moved (kept.page.keeps (Page.keeps_proceed _ _ _))
    · exact kept
  | resume waiter =>
    rw [Event.run]
    split
    · have taken : world.page.Keeps { world.page with ready := world.page.ready.erase waiter } :=
        ⟨rfl, rfl, fun _ queued => Or.inl queued, fun _ _ _ answered => answered,
          fun _ _ _ _ answered => answered⟩
      exact moved (kept.page.keeps (taken.trans (Page.keeps_resume options.sync _ waiter)))
    · exact kept
  | sendEnds =>
    rw [Event.run]
    split
    · exact moved (kept.page.keeps (Page.keeps_sendEnds options.sync _))
    · exact kept
  | storage persists =>
    exact moved (kept.page.keeps
      ⟨rfl, rfl, fun _ queued => Or.inl queued, fun _ _ _ answered => answered,
        fun _ _ _ _ answered => answered⟩)
  -- What is queued was stored with the rows, and is read with them.
  | reload => exact moved (guarded_load _ kept.page.keys _ _ _)
  | server made =>
    exact kept.call options.values options.limits options.ns owner world.page fun moves =>
      kept.page.advances moves

theorem World.Kept.run {world : World V} (kept : world.Kept) (options : WorldOptions V)
    {events : List (Event V)}
    (owner : world.Owner options events) : (world.run options events).Kept := by
  induction events generalizing world with
  | nil => exact kept
  | cons event rest inductionHypothesis =>
      exact inductionHypothesis (kept.event options owner.1) owner.2

end

/-! ## A page that has caught up -/

def note (key : String) (updated : Int) : Row Unit := ⟨key, (), updated, "w", false⟩

end AiConfig.Herder
