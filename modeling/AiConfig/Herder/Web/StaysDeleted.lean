import AiConfig.Herder.Web.Clean

/-! # Deleted owner content does not come back

Once a tombstone is accepted, the stored row of its key or the horizon bars every live row
at or below it.  A page that a full pull has caught up has no such row queued; what can
still send one is a send loop that read it before the pull landed. -/

namespace AiConfig.Herder

open AiConfig.Lib

section

variable {V : Type}

/-! ## The server -/

/-- A sweep is one of owner content. -/
def Call.Owned (ns : String) : Call V → Prop
  | .sweep policy _ => OwnerSweep ns policy
  | .upsert _ _ | .since _ _ | .restart => True

/-- The states after an `Upsert` that accepted the tombstone. -/
inductive Accepted (values : Values V) (limits : Limits) (ns : String) (tombstone : Row V) :
    NamespaceState V → Prop
  | upsert {state : NamespaceState V} {rows : List (Row V)} {faults : Faults}
      {result : UpsertResult}
      (answered : (upsert values limits state rows faults).1 = .ok result)
      (accepted : tombstone.key ∈ result.accepted)
      (stored : (Herder.upsert values limits state rows faults).2.data.row tombstone.key =
        some tombstone) :
      Accepted values limits ns tombstone (Herder.upsert values limits state rows faults).2
  | call {state : NamespaceState V} (before : Accepted values limits ns tombstone state)
      (made : Call V)
      (owned : made.Owned ns) :
        Accepted values limits ns tombstone (made.run values limits ns state)

theorem Accepted.bars {values : Values V} {limits : Limits} {ns : String} {tombstone : Row V}
    {state : NamespaceState V} (deleted : tombstone.deleted = true)
    (positive : 0 < tombstone.updated)
    (accepted : Accepted values limits ns tombstone state) :
    state.data.Bars tombstone ∧ (state.data.Bars tombstone → state.onDisk.Bars tombstone) := by
  induction accepted with
  | @upsert state rows faults result answered listed stored =>
    have step := upserted values limits state rows faults
    have bars : (Herder.upsert values limits state rows faults).2.data.Bars tombstone := by
      rw [NamespaceData.Bars, stored]
      exact Or.inr ⟨rfl, deleted⟩
    refine ⟨bars, fun _ => ?_⟩
    generalize Herder.upsert values limits state rows faults = answer at step answered bars ⊢
    cases step with
    | unread => cases answered
    | badRow => cases answered
    | tooMany => cases answered
    | idle =>
      cases answered
      cases listed
    | unsaved => cases answered
    | saved => exact bars
  | @call state _ made owned inductionHypothesis =>
    obtain ⟨bars, ahead⟩ := inductionHypothesis
    let relates (before after : NamespaceData V) : Prop :=
      before.Bars tombstone → after.Bars tombstone
    have refl : ∀ data, relates data data := fun _ bars => bars
    have lands : ∀ rows, relates state.data (state.data.landing rows) :=
      fun rows bars => bars.landing positive rows
    have moved := Call.run_ahead refl values limits ns made ahead lands (by
      intro policy faults same bars
      subst same
      exact bars.swept owned)
    exact ⟨moved.1 bars, moved.2⟩

theorem horizon_run (values : Values V) (limits : Limits) (ns : String) {state : NamespaceState V}
    (call : Call V)
    (ahead : state.data.horizon ≤ state.onDisk.horizon) :
    state.data.horizon ≤ (call.run values limits ns state).data.horizon ∧
      (call.run values limits ns state).data.horizon ≤
      (call.run values limits ns state).onDisk.horizon := by
  let relates (before after : NamespaceData V) : Prop := before.horizon ≤ after.horizon
  have refl : ∀ data, relates data data := fun _ => le_rfl
  apply Call.run_ahead refl values limits ns call ahead
  · intro rows
    exact le_of_eq (by simp [NamespaceData.landing])
  · exact fun policy _ _ => raised_ge policy ns _ _

def runCalls (values : Values V) (limits : Limits) (ns : String) (calls : List (Call V)) :
    NamespaceState V :=
  calls.foldl (Call.run values limits ns) ⟨none, none⟩

theorem horizon_runCalls (values : Values V) (limits : Limits) (ns : String)
    (calls : List (Call V)) :
    (runCalls values limits ns calls).data.horizon ≤
    (runCalls values limits ns calls).onDisk.horizon := by
  suffices general : ∀ state : NamespaceState V, state.data.horizon ≤ state.onDisk.horizon →
      (calls.foldl (Call.run values limits ns) state).data.horizon ≤
        (calls.foldl (Call.run values limits ns) state).onDisk.horizon from general _ le_rfl
  induction calls with
  | nil => exact fun _ ahead => ahead
  | cons call rest inductionHypothesis =>
    exact fun state ahead => inductionHypothesis _ (horizon_run values limits ns call ahead).2

/-! ## Keys stay distinct -/

def Page.Distinct (page : Page V) : Prop := (page.rows.map Row.key).Nodup

theorem Page.Distinct.keeps {page page' : Page V} (distinct : page.Distinct)
    (keeps : page.Keeps page') :
    page'.Distinct := by
  rw [Page.Distinct, keeps.rows]
  exact distinct

theorem Page.Distinct.forget {page : Page V} (distinct : page.Distinct) (options : SyncOptions V)
    (keys : List String) : (page.forget options keys).Distinct := by
  rw [Page.Distinct]
  cases forget_rows options page keys with
  | inl same => exact same ▸ distinct
  | inr dropped =>
    rw [dropped.2]
    exact distinct.sublist (List.filter_sublist.map _)

theorem Page.Distinct.pullLands {page : Page V} (distinct : page.Distinct) (options : SyncOptions V) (full : Bool)
    (answer : Snapshot V) : (page.pullLands options full answer).Distinct := by
  have merged : (page.merge answer).Distinct := nodup_addCandidates distinct
  have trimmed : Page.Distinct (if answer.rows.isEmpty then page.merge answer
      else (page.merge answer).dequeueKeys ((page.merge answer).retired answer.rows)) := by
    split
    · exact merged
    · rw [Page.Distinct, (dequeueKeys_same _ _).rows]
      exact merged
  rw [Page.pullLands]
  cases full with
  | false => exact trimmed
  | true =>
    rw [if_pos rfl, Page.caughtUp]
    apply Page.Distinct.forget
    rw [Page.Distinct, (enqueueKeys_same _ _).rows]
    exact trimmed

theorem Page.Distinct.postLands {page : Page V} (distinct : page.Distinct) (options : SyncOptions V)
    (rows split : List (Row V)) (chunks : List (List (Row V))) (answer : Except Problem UpsertResult) :
    (page.postLands options rows split chunks answer).Distinct := by
  cases answer with
  | ok result =>
    show Page.Distinct { page.posted options rows result with send := some (.between split chunks) }
    rw [Page.Distinct, Page.posted, (dequeueKeys_same _ _).rows]
    exact distinct.forget options _
  | error problem =>
    cases problem with
    | tooLarge =>
      rw [Page.postLands.eq_def]
      dsimp only
      split
      · exact distinct
      · exact distinct
    | attributionRequired => exact distinct.keeps ((keeps_handleFailure page _).trans (keeps_send _ (by simp)))
    | other => exact distinct.keeps ((keeps_handleFailure page _).trans (keeps_send _ (by simp)))

theorem Page.Distinct.mutate {page : Page V} (distinct : page.Distinct) (options : SyncOptions V)
    (rows : List (Row V)) : (page.mutate options rows).Distinct := by
  rw [Page.mutate]
  refine Page.Distinct.keeps ?_ (keeps_sendQueue options _)
  rw [Page.Distinct, (enqueueKeys_same _ _).rows]
  exact nodup_putRows distinct

/-! ## Runs -/

/-- The server process and the store, whatever the sweeps were. -/
structure World.Sound (world : World V) : Prop where
  server : ∃ removed, world.server.Sound removed
  page : world.page.Distinct

/-- What an event does to the server is a call of it. -/
theorem Event.server_run (options : WorldOptions V) (world : World V) (event : Event V) :
    (event.run options world).server = world.server ∨
      ∃ made : Call V, (event.run options world).server =
          made.run options.values options.limits options.ns world.server ∧
        (event = .server made ∨ ∀ ns, made.Owned ns) := by
  cases event with
  | pullServed faults =>
    rw [Event.run]
    split
    · right
      rename_i revision _
      exact ⟨.since revision faults, rfl, Or.inr fun _ => trivial⟩
    · exact Or.inl rfl
  | postServed faults =>
    rw [Event.run]
    split
    · right
      rename_i rows _ _ _
      refine ⟨.upsert rows faults, ?_, Or.inr fun _ => trivial⟩
      rw [Call.run]
      split
      · rename_i answered
        rw [answered]
      · rename_i answered
        rw [answered]
    · exact Or.inl rfl
  | server made => exact Or.inr ⟨made, rfl, Or.inl rfl⟩
  | mutate | start | retryNow | storage | reload => exact Or.inl rfl
  | stateChanged | retryFires | pullFails | pullLands | postFails | postLands | proceed | resume |
      sendEnds =>
    rw [Event.run]
    split <;> exact Or.inl rfl

theorem Event.distinct_run (options : WorldOptions V) {world : World V}
    (distinct : world.page.Distinct)
    (event : Event V) : (event.run options world).page.Distinct := by
  have unscheduled : Page.Distinct { world.page with retryScheduled := false } := distinct
  cases event with
  | mutate rows => exact distinct.mutate options.sync rows
  | pullLands =>
    rw [Event.run]
    split
    · exact (distinct.pullLands options.sync _ _).keeps (Page.keeps_pullSettles _)
    · exact distinct.keeps ((Page.keeps_handleFailure _ _).trans (Page.keeps_pullSettles _))
    · exact distinct
  | postLands =>
    rw [Event.run]
    split
    · exact distinct.postLands options.sync _ _ _ _
    · exact distinct
  | pullServed faults =>
    rw [Event.run]
    split
    · exact distinct
    · exact distinct
  | postServed faults =>
    rw [Event.run]
    split
    · split <;> exact distinct
    · exact distinct
  | start => exact distinct.keeps (Page.keeps_requestPull _ _)
  | stateChanged rev =>
    rw [Event.run]
    split
    · exact distinct
    · exact distinct.keeps (Page.keeps_requestPull _ _)
  | retryFires =>
    rw [Event.run]
    split
    · exact unscheduled.keeps (Page.keeps_requestPull _ _)
    · exact distinct
  | retryNow => exact unscheduled.keeps (Page.keeps_requestPull _ _)
  | proceed =>
    rw [Event.run]
    split
    · exact distinct.keeps (Page.keeps_proceed _ _ _)
    · exact distinct
  | resume waiter =>
    rw [Event.run]
    split
    · have taken : Page.Distinct { world.page with ready := world.page.ready.erase waiter } :=
        distinct
      exact taken.keeps (Page.keeps_resume _ _ _)
    · exact distinct
  | sendEnds =>
    rw [Event.run]
    split
    · exact distinct.keeps (Page.keeps_sendEnds _ _)
    · exact distinct
  | pullFails | postFails =>
    rw [Event.run]
    split <;> exact distinct
  | storage | reload | server => exact distinct

theorem World.Sound.event {world : World V} (sound : world.Sound) (options : WorldOptions V)
    (event : Event V) :
    (event.run options world).Sound := by
  refine ⟨?_, event.distinct_run options sound.page⟩
  obtain ⟨removed, server⟩ := sound.server
  cases event.server_run options world with
  | inl same => exact ⟨removed, same ▸ server⟩
  | inr called =>
    obtain ⟨made, ran, _⟩ := called
    rw [ran]
    exact ⟨_, (server.run options.values options.limits options.ns made).1⟩

theorem World.Sound.run {world : World V} (sound : world.Sound) (options : WorldOptions V)
    (events : List (Event V)) :
    (world.run options events).Sound := by
  induction events generalizing world with
  | nil => exact sound
  | cons event rest inductionHypothesis => exact inductionHypothesis (sound.event options event)

theorem World.Fresh.sound {world : World V} (fresh : world.Fresh) : world.Sound :=
  ⟨fresh.kept.sound, fresh.keys⟩

/-! ## After the landing -/

/-- No banned row is written by hand, the page stays, sweeps are of owner content. -/
def Event.Harmless (ns : String) (tombstone : Row V) : Event V → Prop
  | .mutate rows => ∀ row ∈ rows, ¬ Banned tombstone row
  | .reload => False
  | .server made => made.Owned ns
  | _ => True

structure World.Cleared (options : WorldOptions V) (tombstone : Row V) (world : World V) :
    Prop where
  sound : world.Sound
  accepted : Accepted options.values options.limits options.ns tombstone world.server
  page : world.page.Clean tombstone

variable {tombstone : Row V}

theorem Accepted.event {options : WorldOptions V} {world : World V}
    (accepted : Accepted options.values options.limits options.ns tombstone world.server)
    {event : Event V}
    (owned : ∀ made, event = .server made → made.Owned options.ns) :
    Accepted options.values options.limits options.ns tombstone
      (event.run options world).server := by
  cases event.server_run options world with
  | inl same => exact same ▸ accepted
  | inr called =>
    obtain ⟨made, ran, which⟩ := called
    rw [ran]
    cases which with
    | inl same => exact accepted.call made (owned made same)
    | inr always => exact accepted.call made (always options.ns)

/-- What the server answers once it has accepted the tombstone has no banned row. -/
theorem Page.Clean.pullServed {page : Page V} (clean : page.Clean tombstone) {full : Bool}
    {revision : Nat}
    (asked : page.pull = some ⟨full, revision, none⟩) {answer : Except Problem (Snapshot V)}
    (free : ∀ snapshot, answer = .ok snapshot → ∀ row ∈ snapshot.rows, ¬ Banned tombstone row) :
    page.CleanStep tombstone { page with pull := some ⟨full, revision, some answer⟩ } := by
  refine ⟨⟨clean.caughtUp, clean.rows, ?_, clean.send⟩, posts_of_send rfl⟩
  intro pull same
  rw [Option.some.injEq] at same
  subst same
  refine ⟨(clean.pull _ asked).1, fun snapshot answered => free snapshot ?_⟩
  simpa using answered

theorem Page.Clean.postServed {page : Page V} (clean : page.Clean tombstone)
    {rows split : List (Row V)}
    {chunks : List (List (Row V))} (sent : page.send = some (.posting rows split chunks none))
    (answer : Except Problem UpsertResult) :
    page.CleanStep tombstone
      { page with send := some (.posting rows split chunks (some answer)) } := by
  apply clean.withSend
  · intro next same
    rw [Option.some.injEq] at same
    subst same
    exact fun row member => clean.send _ sent row member
  · intro _ _ _ same
    simp at same

/-- A pull that reaches the server brings no banned row, whether it is answered or refused. -/
theorem World.Cleared.pullServed {options : WorldOptions V} {world : World V}
    (deleted : tombstone.deleted = true) (positive : 0 < tombstone.updated)
    (cleared : world.Cleared options tombstone) {full : Bool} {revision : Nat}
    (asked : world.page.pull = some ⟨full, revision, none⟩) (faults : Faults) :
    world.page.CleanStep tombstone { world.page with
      pull := some ⟨full, revision, some (transported (since world.server revision faults).1)⟩ } := by
  have clean := cleared.page
  obtain ⟨removed, server⟩ := cleared.sound.server
  have bars := (cleared.accepted.bars deleted positive).1
  have step := answers world.server revision faults
  generalize since world.server revision faults = answer at step ⊢
  cases step with
  | failed problem =>
    refine clean.pullServed asked ?_
    intro snapshot same row member
    cases problem with
    | namespaceNotFound =>
      -- A 404 is an answer without rows.
      cases same
      exact absurd member List.not_mem_nil
    | _ => cases same
  | answered =>
    refine clean.pullServed asked ?_
    intro snapshot same row member banned
    cases same
    have found := row_of_since server.data member
    rw [banned.1] at found
    exact (not_banned_of_bars bars found).2 banned

theorem World.Cleared.event {options : WorldOptions V} {world : World V}
    (deleted : tombstone.deleted = true)
    (positive : 0 < tombstone.updated) (cleared : world.Cleared options tombstone) {event : Event V}
    (harmless : event.Harmless options.ns tombstone) :
    (event.run options world).Cleared options tombstone ∧
      world.page.CleanStep tombstone (event.run options world).page := by
  have owned : ∀ made, event = .server made → made.Owned options.ns := by
    intro made same
    subst same
    exact harmless
  -- What the server holds is kept by any event; what is at stake is the page.
  suffices step : world.page.CleanStep tombstone (event.run options world).page from
    ⟨⟨cleared.sound.event options event, cleared.accepted.event owned, step.clean⟩, step⟩
  have clean := cleared.page
  have unscheduled : world.page.CleanStep tombstone { world.page with retryScheduled := false } :=
    clean.trim (fun _ found => found) id rfl rfl rfl
  cases event with
  | mutate rows => exact clean.mutate options.sync harmless
  | start => exact clean.requestPull _
  | stateChanged rev =>
    rw [Event.run]
    split
    · exact clean.refl
    · exact clean.requestPull _
  | retryFires =>
    rw [Event.run]
    split
    · exact unscheduled.trans (unscheduled.clean.requestPull _)
    · exact clean.refl
  | retryNow => exact unscheduled.trans (unscheduled.clean.requestPull _)
  | pullServed faults =>
    rw [Event.run]
    split
    · rename_i asked
      exact cleared.pullServed deleted positive asked faults
    · exact clean.refl
  | pullFails problem =>
    rw [Event.run]
    split
    · rename_i asked
      exact clean.pullServed asked (by simp)
    · exact clean.refl
  | pullLands =>
    rw [Event.run]
    split
    · rename_i full _ snapshot answered
      -- A page that has caught up asks for no full pull.
      obtain ⟨partly, free⟩ := clean.pull _ answered
      have same : full = false := partly
      subst same
      have landed := clean.pullLands options.sync (free snapshot rfl)
      exact landed.trans (Page.pullSettles_clean landed.clean.caughtUp landed.clean.rows
        landed.clean.send)
    · rename_i problem _
      have failed := clean.handleFailure problem
      exact failed.trans (Page.pullSettles_clean failed.clean.caughtUp failed.clean.rows
        failed.clean.send)
    · exact clean.refl
  | postServed faults =>
    rw [Event.run]
    split
    · rename_i sent
      split
      · exact clean.postServed sent _
      · exact clean.postServed sent _
    · exact clean.refl
  | postFails problem =>
    rw [Event.run]
    split
    · rename_i sent
      exact clean.postServed sent _
    · exact clean.refl
  | postLands =>
    rw [Event.run]
    split
    · rename_i sent
      exact clean.postLands options.sync sent
    · exact clean.refl
  | proceed =>
    rw [Event.run]
    split
    · rename_i sent
      exact clean.proceed sent
    · exact clean.refl
  | resume waiter =>
    rw [Event.run]
    split
    · have taken :
          world.page.CleanStep tombstone
          { world.page with ready := world.page.ready.erase waiter } :=
        clean.trim (fun _ found => found) id rfl rfl rfl
      exact taken.trans (taken.clean.resume options.sync waiter)
    · exact clean.refl
  | sendEnds =>
    rw [Event.run]
    split
    · exact clean.sendEnds options.sync
    · exact clean.refl
  | storage persists => exact clean.trim (fun _ found => found) id rfl rfl rfl
  -- After a reload the page catches up again; it is no harmless event.
  | reload => exact harmless.elim
  | server made => exact clean.refl

theorem World.Cleared.run {options : WorldOptions V} {world : World V}
    (deleted : tombstone.deleted = true)
    (positive : 0 < tombstone.updated) (cleared : world.Cleared options tombstone)
    {events : List (Event V)}
    (harmless : ∀ event ∈ events, event.Harmless options.ns tombstone) :
    (world.run options events).Cleared options tombstone := by
  induction events generalizing world with
  | nil => exact cleared
  | cons event rest inductionHypothesis =>
    exact inductionHypothesis (cleared.event deleted positive (harmless event List.mem_cons_self)).1
      fun other member => harmless other (List.mem_cons_of_mem _ member)

theorem Accepted.events {options : WorldOptions V} {world : World V}
    (accepted : Accepted options.values options.limits options.ns tombstone world.server)
    {events : List (Event V)}
    (owned : ∀ made, .server made ∈ events → made.Owned options.ns) :
    Accepted options.values options.limits options.ns tombstone
      (world.run options events).server := by
  induction events generalizing world with
  | nil => exact accepted
  | cons event rest inductionHypothesis =>
    exact inductionHypothesis
      (accepted.event fun made same => owned made (same ▸ List.mem_cons_self))
      fun made member => owned made (List.mem_cons_of_mem _ member)

theorem World.run_append (options : WorldOptions V) (world : World V)
    (first second : List (Event V)) :
    world.run options (first ++ second) = (world.run options first).run options second := by
  simp [World.run]

/-- A POST that an event makes. -/
def Issues (options : WorldOptions V) (world : World V) (event : Event V) (rows : List (Row V)) :
    Prop :=
  (event.run options world).page.Posts rows ∧ ¬ world.page.Posts rows

/-- The landing: the answer was read after the tombstone was accepted, and no send loop
under way has a banned row to post. -/
structure Lands (options : WorldOptions V) (tombstone : Row V) (world : World V)
    (before between : List (Event V)) :
    Prop where
  accepted :
    Accepted options.values options.limits options.ns tombstone (world.run options before).server
  owned : ∀ made, .server made ∈ between → made.Owned options.ns
  answer : ∃ revision, (world.run options (before ++ between)).page.pull =
    some ⟨true, revision, some (.ok ((world.run options before).server.data.since 0))⟩
  unsent : ∀ send, (world.run options (before ++ between)).page.send = some send →
    ∀ row ∈ send.pending, ¬ Banned tombstone row

theorem Lands.cleared {options : WorldOptions V} (deleted : tombstone.deleted = true)
    (positive : 0 < tombstone.updated) {world : World V} (fresh : world.Fresh)
    {before between : List (Event V)}
    (lands : Lands options tombstone world before between) :
    (world.run options (before ++ between ++ [.pullLands])).Cleared options tombstone := by
  obtain ⟨accepted, owned, ⟨revision, answered⟩, unsent⟩ := lands
  obtain ⟨removed, server⟩ := (fresh.sound.run options before).server
  have shown : Shows tombstone ((world.run options before).server.data.since 0) :=
    shows_since server.data (accepted.bars deleted positive).1
  have later := accepted.events owned
  rw [← World.run_append] at later
  have sound := fresh.sound.run options (before ++ between)
  rw [World.run_append]
  generalize world.run options (before ++ between) = middle at later sound answered unsent ⊢
  have landed := (Page.landed_clean sound.page options.sync positive shown unsent).1
  have ran : (middle.run options [.pullLands]) = { middle with
      page :=
          (middle.page.pullLands options.sync true
          ((world.run options before).server.data.since 0)).pullSettles } := by
    show Event.run options middle .pullLands = _
    simp only [Event.run, answered]
  have keeps := sound.event options .pullLands
  rw [show Event.run options middle .pullLands = middle.run options [.pullLands] from rfl] at keeps
  rw [ran] at keeps ⊢
  exact ⟨keeps, later, landed⟩

/-! ## Accepted tombstones -/

/-- After an `Upsert` accepted the tombstone the store holds no live row of the key at or
below it, whatever calls follow; the horizon does not go back; and a page on which a full
pull landed with no such row left to post makes no POST that has one. -/
theorem deleted_stays_deleted (options : WorldOptions V) (tombstone : Row V)
    (deleted : tombstone.deleted = true)
    (positive : 0 < tombstone.updated) :
    (∀ state, Accepted options.values options.limits options.ns tombstone state →
      ∀ row, state.data.row tombstone.key = some row → row.deleted = false →
        ¬ row.version ≤ tombstone.version) ∧
    (∀ (calls : List (Call V)) (call : Call V),
      (runCalls options.values options.limits options.ns calls).data.horizon ≤
        (runCalls options.values options.limits options.ns (calls ++ [call])).data.horizon) ∧
    ∀ (world : World V) (before between front : List (Event V)) (event : Event V), world.Fresh →
      Lands options tombstone world before between →
      (∀ other ∈ front ++ [event], other.Harmless options.ns tombstone) →
      ∀ rows, Issues options (world.run options (before ++ between ++ [.pullLands] ++ front)) event
        rows →
        ∀ row ∈ rows, ¬ Banned tombstone row := by
  refine ⟨?_, ?_, ?_⟩
  · intro state accepted row found live
    exact not_le.mpr ((accepted.bars deleted positive).1.no_live_row found live)
  · intro calls call
    have extended : runCalls options.values options.limits options.ns (calls ++ [call]) =
        call.run options.values options.limits options.ns
            (runCalls options.values options.limits options.ns calls) := by
      simp [runCalls]
    rw [extended]
    exact (horizon_run _ _ _ call (horizon_runCalls _ _ _ calls)).1
  · intro world before between front event fresh lands harmless rows issues
    rw [World.run_append] at issues
    have cleared := (lands.cleared deleted positive fresh).run deleted positive
      fun other member => harmless other (List.mem_append_left _ member)
    have step := (cleared.event deleted positive
      (harmless event (List.mem_append_right _ (List.mem_singleton.mpr rfl)))).2
    cases step.posts rows issues.1 with
    | inl already => exact absurd already issues.2
    | inr free => exact free

end

/-! ## A row read before the pull landed -/

/-- One row a POST. -/
def spaceOptions : WorldOptions Unit where
  values := ⟨fun _ => 4, fun _ => true⟩
  limits := ⟨65536, 10000⟩
  ns := "spaces"
  sync := ⟨fun _ => 64, 100, true⟩

def deletedSpace : Row Unit := ⟨"k", (), 5, "w", true⟩

/-- The page was away while `k` was deleted. -/
def awayPage : World Unit := ⟨⟨none, none⟩, .load [note "a" 1, note "k" 1] [] 0 true⟩

def deletes : Event Unit := .server (.upsert [deletedSpace] .none)

/-- The first pull fails, everything waits and the first row is posted; then a pull is asked again.
-/
def sendsFirst : List (Event Unit) :=
  [deletes, .start, .pullFails .other, .pullLands, .resume .start, .retryNow]

theorem accepted_deletes :
    Accepted spaceOptions.values spaceOptions.limits spaceOptions.ns deletedSpace
      (upsert spaceOptions.values spaceOptions.limits ⟨none, none⟩ [deletedSpace] .none).2 :=
  .upsert rfl (List.mem_singleton.mpr rfl) rfl

theorem fresh_awayPage : awayPage.Fresh :=
  ⟨rfl, NamespaceData.wellFormed_empty, by decide, ⟨[], 0, true, rfl⟩⟩

theorem stale_row_sent_after_full_pull :
    ¬ ∀ (world : World Unit) (before between front : List (Event Unit)) (event : Event Unit),
      world.Fresh →
      Accepted spaceOptions.values spaceOptions.limits spaceOptions.ns deletedSpace
        (world.run spaceOptions before).server →
      (∀ made, .server made ∈ between → made.Owned spaceOptions.ns) →
      (∃ revision, (world.run spaceOptions (before ++ between)).page.pull =
        some ⟨true, revision, some (.ok ((world.run spaceOptions before).server.data.since 0))⟩) →
      (∀ other ∈ front ++ [event], other.Harmless spaceOptions.ns deletedSpace) →
      ∀ rows, Issues spaceOptions (world.run spaceOptions
        (before ++ between ++ [.pullLands] ++ front)) event rows →
        ∀ row ∈ rows, ¬ Banned deletedSpace row := by
  intro never
  have posts :=
    never awayPage sendsFirst [.pullServed .none]
    [.postServed .none, .postLands] .proceed fresh_awayPage
    accepted_deletes (by simp) ⟨0, rfl⟩ (by simp [Event.Harmless]) [note "k" 1]
    ⟨⟨[], [], rfl⟩, by
      rintro ⟨split, chunks, sent⟩
      cases sent⟩
    (note "k" 1) (List.mem_singleton.mpr rfl)
  exact posts ⟨rfl, rfl, by
    rw [Row.version, Row.version, Prod.Lex.toLex_le_toLex]
    decide⟩

theorem deleted_stays_deleted_sample :
    (∀ row, (upsert spaceOptions.values spaceOptions.limits ⟨none, none⟩
    [deletedSpace] .none).2.data.row "k" = some row →
      row.deleted = false → ¬ row.version ≤ deletedSpace.version) ∧
    ∀ row ∈ [note "a" 1], ¬ Banned deletedSpace row := by
  obtain ⟨server, _, page⟩ := deleted_stays_deleted spaceOptions deletedSpace rfl (by decide)
  refine ⟨server _ accepted_deletes, ?_⟩
  refine page awayPage [deletes, .start] [.pullServed .none] [] (.resume .start) fresh_awayPage
    ⟨accepted_deletes, by simp, ⟨0, rfl⟩, ?_⟩ (by simp [Event.Harmless]) [note "a" 1]
      ⟨⟨[], [], rfl⟩, ?_⟩
  · intro send sent
    cases sent
  · rintro ⟨split, chunks, sent⟩
    cases sent

end AiConfig.Herder
