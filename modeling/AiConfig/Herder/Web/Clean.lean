import AiConfig.Herder.Web.NoEditLost

/-! # Pages that have caught up

A page on which a full pull showed a tombstone has no live row at or below it queued, and a
send loop that it starts from then on has none either. -/

namespace AiConfig.Herder

open AiConfig.Lib

section

variable {V : Type}

/-! ## What a page may send -/

/-- A live row of the key at or below the tombstone. -/
def Banned (tombstone row : Row V) : Prop :=
  row.key = tombstone.key ∧ row.deleted = false ∧ row.version ≤ tombstone.version

/-- An answer read after the tombstone was accepted. -/
structure Shows (tombstone : Row V) (snapshot : Snapshot V) : Prop where
  rows : ∀ row ∈ snapshot.rows, row.key = tombstone.key →
    tombstone.version ≤ row.version ∧ ¬ Banned tombstone row
  absent : (∀ row ∈ snapshot.rows, row.key ≠ tombstone.key) → tombstone.updated ≤ snapshot.horizon

theorem not_banned_of_bars {data : NamespaceData V} {tombstone row : Row V}
    (bars : data.Bars tombstone)
    (found : data.row tombstone.key = some row) :
    tombstone.version ≤ row.version ∧ ¬ Banned tombstone row := by
  rw [NamespaceData.Bars, found] at bars
  cases bars with
  | inl above => exact ⟨le_of_lt above, fun banned => absurd banned.2.2 (not_le.mpr above)⟩
  | inr same =>
    refine ⟨le_of_eq same.1, fun banned => ?_⟩
    have live := banned.2.1
    rw [same.2] at live
    cases live

theorem row_of_since {data : NamespaceData V} (sound : data.WellFormed) {revision : Nat}
    {row : Row V}
    (member : row ∈ (data.since revision).rows) : data.row row.key = some row := by
  obtain ⟨stored, inside, _, same⟩ := mem_since.mp member
  have found := lookup_of_stored sound inside
  subst same
  rw [NamespaceData.row, found, Option.map_some]

theorem shows_since {data : NamespaceData V} (sound : data.WellFormed) {tombstone : Row V}
    (bars : data.Bars tombstone) : Shows tombstone (data.since 0) := by
  constructor
  case rows =>
    intro row member own
    exact not_banned_of_bars bars (own ▸ row_of_since sound member)
  case absent =>
    intro silent
    rw [NamespaceData.Bars] at bars
    cases found : data.row tombstone.key with
    | none =>
      rw [found] at bars
      exact bars
    | some row =>
      -- a full pull lists every stored row
      obtain ⟨stored, held, same⟩ := Option.map_eq_some_iff.mp found
      have listed : row ∈ (data.since 0).rows :=
        mem_since.mpr ⟨stored, mem_stored held, Or.inr (sound.positive _ stored held), same⟩
      have own : row.key = tombstone.key := by
        rw [← same]
        exact sound.keyed _ stored held
      exact absurd own (silent row listed)

/-- The rows a send loop would post after the POST in flight. -/
def Send.pending : Send V → List (Row V)
  | .posting rows split chunks _ => (if 2 ≤ rows.length then rows else []) ++ split ++
      chunks.flatten
  | .between split chunks => split ++ chunks.flatten
  | .pulling | .ending => []

structure Page.Clean (tombstone : Row V) (page : Page V) : Prop where
  caughtUp : page.catchUp = false
  rows : ∀ row, page.row tombstone.key = some row → tombstone.key ∈ page.queue →
    ¬ Banned tombstone row
  pull : ∀ pull, page.pull = some pull → pull.full = false ∧
    ∀ snapshot, pull.answer = some (.ok snapshot) → ∀ row ∈ snapshot.rows, ¬ Banned tombstone row
  send : ∀ send, page.send = some send → ∀ row ∈ send.pending, ¬ Banned tombstone row

/-- A POST that is not answered yet. -/
def Page.Posts (page : Page V) (rows : List (Row V)) : Prop :=
  ∃ split chunks, page.send = some (.posting rows split chunks none)

/-- The page stays clean, and a POST it makes has no banned row. -/
structure Page.CleanStep (tombstone : Row V) (page page' : Page V) : Prop where
  clean : page'.Clean tombstone
  posts : ∀ rows, page'.Posts rows → page.Posts rows ∨ ∀ row ∈ rows, ¬ Banned tombstone row

variable {tombstone : Row V}

theorem Page.Clean.refl {page : Page V} (clean : page.Clean tombstone) :
    page.CleanStep tombstone page :=
  ⟨clean, fun _ posts => Or.inl posts⟩

theorem Page.CleanStep.trans {a b c : Page V} (first : a.CleanStep tombstone b)
    (second : b.CleanStep tombstone c) : a.CleanStep tombstone c := by
  refine ⟨second.clean, fun rows posts => ?_⟩
  cases second.posts rows posts with
  | inl before => exact first.posts rows before
  | inr free => exact Or.inr free

theorem Page.posts_of_send {page page' : Page V} (send : page'.send = page.send) :
    ∀ rows, page'.Posts rows → page.Posts rows ∨ ∀ row ∈ rows, ¬ Banned tombstone row := by
  intro rows posts
  obtain ⟨split, chunks, sent⟩ := posts
  exact Or.inl ⟨split, chunks, send ▸ sent⟩

/-- Fewer keys queued, no row written, the same requests. -/
theorem Page.Clean.trim {page page' : Page V} (clean : page.Clean tombstone)
    (rows : ∀ row, page'.row tombstone.key = some row → page.row tombstone.key = some row)
    (queue : tombstone.key ∈ page'.queue → tombstone.key ∈ page.queue)
    (catchUp : page'.catchUp = page.catchUp)
    (pull : page'.pull = page.pull) (send : page'.send = page.send) :
    page.CleanStep tombstone page' where
  clean := {
    caughtUp := catchUp ▸ clean.caughtUp
    rows := fun row found queued => clean.rows row (rows row found) (queue queued)
    pull := pull ▸ clean.pull
    send := send ▸ clean.send }
  posts := posts_of_send send

theorem Page.Clean.dequeue {page : Page V} (clean : page.Clean tombstone) (keys : List String) :
    page.CleanStep tombstone (page.dequeueKeys keys) := by
  have same := dequeueKeys_same page keys
  apply clean.trim
  · intro row found
    rw [Page.row, same.rows] at found
    exact found
  · exact fun queued => (mem_dequeueKeys.mp queued).1
  · exact same.catchUp
  · exact same.pull
  · exact same.send

theorem Page.Clean.forget {page : Page V} (clean : page.Clean tombstone) (options : SyncOptions V)
    (keys : List String) : page.CleanStep tombstone (page.forget options keys) := by
  apply clean.trim
  · exact fun row found => (row_forget found).1
  · exact fun queued => (mem_forget.mp queued).1
  · exact forget_catchUp options page keys
  · exact forget_pull options page keys
  · exact forget_send options page keys

/-- The send loop takes another step, its rows free of banned ones. -/
theorem Page.Clean.withSend {page : Page V} (clean : page.Clean tombstone) {send : Option (Send V)}
    (free : ∀ next, send = some next → ∀ row ∈ next.pending, ¬ Banned tombstone row)
    (posts : ∀ rows split chunks, send = some (.posting rows split chunks none) →
      ∀ row ∈ rows, ¬ Banned tombstone row) :
        page.CleanStep tombstone { page with send := send } where
  clean := { caughtUp := clean.caughtUp, rows := clean.rows, pull := clean.pull, send := free }
  posts := fun rows made => by
    obtain ⟨split, chunks, sent⟩ := made
    exact Or.inr (posts rows split chunks sent)

theorem Page.Clean.requestPull {page : Page V} (clean : page.Clean tombstone)
    (waiter : Option Waiter) :
    page.CleanStep tombstone (page.requestPull waiter) := by
  rw [Page.requestPull]
  split
  · exact clean.trim (fun _ found => found) id rfl rfl rfl
  · refine ⟨{ caughtUp := clean.caughtUp, rows := clean.rows, pull := ?_, send := clean.send },
      posts_of_send rfl⟩
    intro pull asked
    rw [Option.some.injEq] at asked
    subst asked
    exact ⟨clean.caughtUp, fun _ answered => by cases answered⟩

theorem Page.Clean.handleFailure {page : Page V} (clean : page.Clean tombstone)
    (problem : Problem) :
    page.CleanStep tombstone (page.handleFailure problem) := by
  have retries : page.CleanStep tombstone page.scheduleRetry := by
    rw [Page.scheduleRetry]
    split
    · exact clean.refl
    · exact clean.trim (fun _ found => found) id rfl rfl rfl
  cases problem with
  | attributionRequired => exact clean.trim (fun _ found => found) id rfl rfl rfl
  | tooLarge => exact retries
  | other => exact retries

/-- A pull that has landed settles; what it was does not matter any more. -/
theorem Page.pullSettles_clean {page : Page V} (caughtUp : page.catchUp = false)
    (rows : ∀ row, page.row tombstone.key = some row → tombstone.key ∈ page.queue →
    ¬ Banned tombstone row)
    (send : ∀ send, page.send = some send → ∀ row ∈ send.pending, ¬ Banned tombstone row) :
    page.CleanStep tombstone page.pullSettles := by
  have settled : ∀ again : Bool, page.CleanStep tombstone
      { page with pull := none, ready := page.ready ++ page.awaiting, awaiting := [], pullAgain := again } := fun _ =>
    ⟨⟨caughtUp, rows, fun _ asked => (nomatch asked), send⟩, posts_of_send rfl⟩
  rw [Page.pullSettles]
  dsimp only
  split
  · exact (settled false).trans ((settled false).clean.requestPull none)
  · exact settled page.pullAgain

theorem chunkLoop_flatten (size : Row V → Nat) (maxBytes : Nat) (rows chunk : List (Row V))
    (bytes : Nat) :
    (chunkLoop size maxBytes rows chunk bytes).flatten = chunk ++ rows := by
  induction rows generalizing chunk bytes with
  | nil =>
    rw [chunkLoop]
    split
    · rename_i empty
      rw [List.isEmpty_iff.mp empty]
      rfl
    · simp
  | cons row rest inductionHypothesis =>
    rw [chunkLoop]
    split
    · rw [List.flatten_cons, inductionHypothesis]
      rfl
    · rw [inductionHypothesis]
      simp

theorem chunkRows_flatten (size : Row V → Nat) (maxBytes : Nat) (rows : List (Row V)) :
    (chunkRows size maxBytes rows).flatten = rows := by
  rw [chunkRows, chunkLoop_flatten, List.nil_append]

theorem Page.Clean.sendOnce {page : Page V} (clean : page.Clean tombstone)
    (options : SyncOptions V) :
    page.CleanStep tombstone (page.sendOnce options) := by
  -- the rows are those of queued keys
  have read : ∀ row ∈ page.waiting.filterMap page.row, ¬ Banned tombstone row := by
    intro row member banned
    obtain ⟨key, waits, found⟩ := List.mem_filterMap.mp member
    have own : key = tombstone.key := (firstOf_eq_some found).2.symm.trans banned.1
    subst own
    exact clean.rows row found (List.mem_filter.mp waits).1 banned
  have trims := clean.dequeue (page.waiting.filter fun key => (page.row key).isNone)
  rw [Page.sendOnce]
  split
  · exact clean.withSend (by simp [Send.pending]) (by simp)
  · dsimp only
    split
    · exact trims.trans (trims.clean.withSend (by simp [Send.pending]) (by simp))
    · rename_i chunk chunks made
      have all : chunk ++ chunks.flatten = page.waiting.filterMap page.row := by
        rw [← chunkRows_flatten options.size options.maxPostBytes (page.waiting.filterMap page.row),
          made]
        rfl
      have first : ∀ row ∈ chunk, ¬ Banned tombstone row := fun row member =>
        read row (all ▸ List.mem_append_left _ member)
      have later : ∀ row ∈ chunks.flatten, ¬ Banned tombstone row := fun row member =>
        read row (all ▸ List.mem_append_right _ member)
      refine trims.trans (trims.clean.withSend ?_ ?_)
      · intro next same row member
        cases same
        simp only [Send.pending, List.append_nil, List.mem_append] at member
        cases member with
        | inr rest => exact later row rest
        | inl now =>
          split at now
          · exact first row now
          · cases now
      · intro rows split rest same
        cases same
        exact first

theorem Page.Clean.sendQueue {page : Page V} (clean : page.Clean tombstone)
    (options : SyncOptions V) :
    page.CleanStep tombstone (page.sendQueue options) := by
  rw [Page.sendQueue]
  split
  · exact clean.trim (fun _ found => found) id rfl rfl rfl
  · exact clean.sendOnce options

theorem Page.Clean.sendEnds {page : Page V} (clean : page.Clean tombstone)
    (options : SyncOptions V) :
    page.CleanStep tombstone (page.sendEnds options) := by
  have ends : page.CleanStep tombstone { page with send := none } :=
    clean.withSend (by simp) (by simp)
  rw [Page.sendEnds]
  dsimp only
  split
  · have again : Page.CleanStep tombstone { page with send := none }
        { page with send := none, sendAgain := false } :=
      ends.clean.trim (fun _ found => found) id rfl rfl rfl
    exact (ends.trans again).trans (again.clean.sendQueue options)
  · exact ends

theorem Page.Clean.proceed {page : Page V} (clean : page.Clean tombstone) {split : List (Row V)}
    {chunks : List (List (Row V))} (sent : page.send = some (.between split chunks)) :
    page.CleanStep tombstone (page.proceed split chunks) := by
  have free := clean.send _ sent
  cases split with
  | cons row rest =>
    refine clean.withSend ?_ ?_
    · intro next same other member
      cases same
      exact free other (List.mem_cons_of_mem _ (by simpa [Send.pending] using member))
    · intro rows left later same other member
      cases same
      exact free other (by simp_all [Send.pending])
  | nil =>
    cases chunks with
    | cons chunk chunks =>
      refine clean.withSend ?_ ?_
      · intro next same other member
        cases same
        refine free other ?_
        simp only [Send.pending, List.append_nil, List.nil_append, List.flatten_cons,
          List.mem_append] at member ⊢
        cases member with
        | inr rest => exact Or.inr rest
        | inl now =>
          split at now
          · exact Or.inl now
          · cases now
      · intro rows left later same other member
        cases same
        exact free other (by simp [Send.pending, member])
    | nil =>
      have resets : page.CleanStep tombstone { page with backoff := 500 } :=
        clean.trim (fun _ found => found) id rfl rfl rfl
      have pulls := resets.trans (resets.clean.requestPull (some .sendOnce))
      exact pulls.trans (pulls.clean.withSend (by simp [Send.pending]) (by simp))

theorem Page.Clean.resume {page : Page V} (clean : page.Clean tombstone) (options : SyncOptions V)
    (waiter : Waiter) :
    page.CleanStep tombstone (page.resume options waiter) := by
  cases waiter with
  | start =>
    rw [Page.resume, if_neg (by simp [clean.caughtUp])]
    exact clean.sendQueue options
  | sendQueue => exact clean.sendQueue options
  | sendOnce => exact clean.withSend (by simp [Send.pending]) (by simp)

theorem firstOf_putRows_source {rows offered : List (Row V)} {key : String} {row : Row V}
    (found : firstOf (offered.foldl putRow rows) key = some row) :
    firstOf rows key = some row ∨ row ∈ offered := by
  induction offered generalizing rows with
  | nil => exact Or.inl found
  | cons head rest inductionHypothesis =>
    cases inductionHypothesis found with
    | inr later => exact Or.inr (List.mem_cons_of_mem _ later)
    | inl put =>
      rw [firstOf_putRow] at put
      split at put
      · exact Or.inr (by simp [Option.some.inj put])
      · exact Or.inl put

theorem firstOf_putRows_written {rows offered : List (Row V)} {key : String} {row : Row V}
    (found : firstOf (offered.foldl putRow rows) key = some row)
    (written : key ∈ offered.map Row.key) :
    row ∈ offered := by
  induction offered generalizing rows with
  | nil => cases written
  | cons head rest inductionHypothesis =>
    by_cases later : key ∈ rest.map Row.key
    · exact List.mem_cons_of_mem _ (inductionHypothesis found later)
    · rw [List.foldl_cons, firstOf_putRows later, firstOf_putRow] at found
      cases List.mem_cons.mp written with
      | inr member => exact absurd member later
      | inl own =>
        rw [if_pos own.symm, Option.some.injEq] at found
        simp [found]

theorem Page.Clean.mutate {page : Page V} (clean : page.Clean tombstone) (options : SyncOptions V)
    {rows : List (Row V)} (free : ∀ row ∈ rows, ¬ Banned tombstone row) :
    page.CleanStep tombstone (page.mutate options rows) := by
  have same := enqueueKeys_same
    { page with
      rows := rows.foldl putRow page.rows
      held := page.held.filter fun key => key ∉ rows.map (·.key) } (rows.map (·.key))
  have written : page.CleanStep tombstone (Page.enqueueKeys
      { page with
        rows := rows.foldl putRow page.rows
        held := page.held.filter fun key => key ∉ rows.map (·.key) } (rows.map (·.key))) := by
    refine ⟨⟨?_, ?_, ?_, ?_⟩, posts_of_send same.send⟩
    · rw [same.catchUp]
      exact clean.caughtUp
    · intro row found queued
      rw [Page.row, same.rows] at found
      cases firstOf_putRows_source found with
      | inr new => exact free row new
      | inl old =>
        rw [mem_enqueueKeys] at queued
        cases queued with
        | inl before => exact clean.rows row old before
        | inr put =>
          -- a key that was written holds a row that was written
          exact free row (firstOf_putRows_written found put)
    · rw [same.pull]
      exact clean.pull
    · rw [same.send]
      exact clean.send
  exact written.trans (written.clean.sendQueue options)

/-! ## Landings -/

theorem Page.Clean.merge {page : Page V} (clean : page.Clean tombstone) {answer : Snapshot V}
    (free : ∀ row ∈ answer.rows, ¬ Banned tombstone row) :
    page.CleanStep tombstone (page.merge answer) := by
  refine ⟨⟨clean.caughtUp, ?_, clean.pull, clean.send⟩, posts_of_send rfl⟩
  intro row found queued
  rw [Page.row, Page.merge, firstOf_foldl] at found
  cases absorbAll_source found with
  | inl own => exact clean.rows row own queued
  | inr remote => exact free row remote.1

/-- A pull that is not full. -/
theorem Page.Clean.pullLands {page : Page V} (clean : page.Clean tombstone)
    (options : SyncOptions V)
    {answer : Snapshot V} (free : ∀ row ∈ answer.rows, ¬ Banned tombstone row) :
    page.CleanStep tombstone (page.pullLands options false answer) := by
  have merged := clean.merge free
  rw [Page.pullLands, if_neg Bool.false_ne_true]
  split
  · exact merged
  · exact merged.trans (merged.clean.dequeue _)

theorem Page.Clean.postLands {page : Page V} (clean : page.Clean tombstone)
    (options : SyncOptions V)
    {rows split : List (Row V)} {chunks : List (List (Row V))}
    {answer : Except Problem UpsertResult}
    (sent : page.send = some (.posting rows split chunks (some answer))) :
    page.CleanStep tombstone (page.postLands options rows split chunks answer) := by
  have free := clean.send _ sent
  simp only [Send.pending] at free
  have rest : ∀ next : Send V, some (Send.between split chunks) = some next →
      ∀ row ∈ next.pending, ¬ Banned tombstone row := by
    intro next same row member
    cases same
    refine free row ?_
    rw [List.append_assoc]
    exact List.mem_append_right _ member
  cases answer with
  | ok result =>
    have forgot := clean.forget options (page.dropped rows result.stale)
    have retired := forgot.trans (forgot.clean.dequeue ((rows.filter page.unchanged).map (·.key)))
    exact retired.trans (retired.clean.withSend rest (by simp))
  | error problem =>
    cases problem with
    | tooLarge =>
      rw [Page.postLands.eq_def]
      dsimp only
      split
      · rename_i row next others
        refine clean.withSend ?_ (by simp)
        intro send same other member
        cases same
        refine free other ?_
        simp only [Send.pending, List.mem_append, List.length_cons] at member ⊢
        cases member with
        | inl whole => exact Or.inl (Or.inl (by rw [if_pos (by omega)]; exact whole))
        | inr later => exact Or.inr later
      · have holds : page.CleanStep tombstone
            { page with held := rows.foldl (fun held row => addKey held row.key) page.held } :=
          clean.trim (fun _ found => found) id rfl rfl rfl
        exact holds.trans (holds.clean.withSend rest (by simp))
    | attributionRequired =>
      have failed := clean.handleFailure .attributionRequired
      exact failed.trans (failed.clean.withSend (by simp [Send.pending]) (by simp))
    | other =>
      have failed := clean.handleFailure .other
      exact failed.trans (failed.clean.withSend (by simp [Send.pending]) (by simp))

/-- The full pull that shows the tombstone: a banned row it leaves in the store is not queued. -/
theorem Page.caughtUp_clean {page : Page V} (keys : (page.rows.map Row.key).Nodup)
    (options : SyncOptions V)
    (positive : 0 < tombstone.updated) {answer : Snapshot V} (shows_it : Shows tombstone answer)
    (retired : ∀ row, page.row tombstone.key = some row → tombstone.key ∈ page.queue →
    Banned tombstone row →
      ∀ other ∈ answer.rows, other.key ≠ tombstone.key) :
    ∀ row, (page.caughtUp options answer).row tombstone.key = some row →
      tombstone.key ∈ (page.caughtUp options answer).queue → ¬ Banned tombstone row := by
  intro row found queued banned
  rw [Page.caughtUp] at found queued
  have same := enqueueKeys_same { page with catchUp := false }
    ((page.rows.filter fun row =>
      !purgedRow answer.rows answer.horizon row && missingRow answer.rows row).map Row.key)
  have there := (row_forget found).1
  rw [Page.row, same.rows] at there
  obtain ⟨inside, own⟩ := firstOf_eq_some there
  rw [mem_forget, mem_enqueueKeys] at queued
  obtain ⟨queued, kept⟩ := queued
  by_cases listed : ∀ other ∈ answer.rows, other.key ≠ tombstone.key
  · -- the answer lacks the key: the row is at or below the horizon and was purged
    have high := shows_it.absent listed
    have gone : purgedRow answer.rows answer.horizon row = true := by
      have unseen : firstOf answer.rows.reverse row.key = none := by
        apply firstOf_of_not_mem
        intro member
        obtain ⟨other, chosen, same⟩ := List.mem_map.mp member
        exact listed other (List.mem_reverse.mp chosen) (same.trans own)
      have below := le_trans (updated_le_of_version_le banned.2.2) high
      simp [purgedRow, unseen, lt_of_lt_of_le positive high, below]
    exact kept (List.mem_map.mpr ⟨row, List.mem_filter.mpr ⟨inside, gone⟩, own⟩)
  · -- the answer has a row of the key, which the banned row is not above
    cases queued with
    | inl before => exact listed (retired row there before banned)
    | inr missing =>
      obtain ⟨other, chosen, same⟩ := List.mem_map.mp missing
      obtain ⟨member, absent⟩ := List.mem_filter.mp chosen
      have one : row = other := by
        have again := firstOf_of_mem keys member
        rw [same] at again
        exact Option.some.inj (there.symm.trans again)
      subst one
      rw [Bool.and_eq_true] at absent
      have above := absent.2
      rw [missingRow] at above
      cases remote : firstOf answer.rows.reverse row.key with
      | none =>
        rw [own] at remote
        refine listed fun other member meets => ?_
        rw [firstOf, List.find?_eq_none] at remote
        exact remote other (List.mem_reverse.mpr member) (by simpa using meets)
      | some remote_row =>
        simp only [remote, decide_eq_true_eq, compare_pos] at above
        obtain ⟨known, keyed⟩ := firstOf_reverse remote
        have shown := (shows_it.rows remote_row known (keyed.trans own)).1
        exact absurd (lt_of_lt_of_le above banned.2.2) (not_lt.mpr shown)

/-- A full pull lands. -/
theorem Page.landed_clean {page : Page V} (keys : (page.rows.map Row.key).Nodup)
    (options : SyncOptions V)
    (positive : 0 < tombstone.updated) {answer : Snapshot V} (shows_it : Shows tombstone answer)
    (unsent : ∀ send, page.send = some send → ∀ row ∈ send.pending, ¬ Banned tombstone row) :
    (page.pullLands options true answer).pullSettles.Clean tombstone ∧
      ∀ rows, (page.pullLands options true answer).pullSettles.Posts rows →
        page.Posts rows ∨ ∀ row ∈ rows, ¬ Banned tombstone row := by
  have merged_keys : ((page.merge answer).rows.map Row.key).Nodup := nodup_addCandidates keys
  -- what the answer has of the key retires it
  have trimmed : ∃ trimmed :
    Page V, page.pullLands options true answer = trimmed.caughtUp options answer ∧
      trimmed.rows = (page.merge answer).rows ∧ trimmed.send = page.send ∧
      ∀ row, trimmed.row tombstone.key = some row → tombstone.key ∈ trimmed.queue →
        Banned tombstone row →
        ∀ other ∈ answer.rows, other.key ≠ tombstone.key := by
    rw [Page.pullLands, if_pos rfl]
    by_cases empty : answer.rows.isEmpty = true
    · rw [if_pos empty]
      refine ⟨_, rfl, rfl, rfl, fun _ _ _ _ other member => ?_⟩
      rw [List.isEmpty_iff.mp empty] at member
      cases member
    · rw [if_neg empty]
      have same := dequeueKeys_same (page.merge answer) ((page.merge answer).retired answer.rows)
      refine ⟨_, rfl, same.rows, same.send, fun row found queued banned other member meets => ?_⟩
      rw [Page.row, same.rows] at found
      obtain ⟨before, stays⟩ := mem_dequeueKeys.mp queued
      refine stays (List.mem_filter.mpr ⟨before, ?_⟩)
      rw [Page.row, found]
      cases remote : firstOf answer.rows.reverse tombstone.key with
      | none =>
        rw [firstOf, List.find?_eq_none] at remote
        exact absurd meets (by simpa using remote other (List.mem_reverse.mpr member))
      | some shown =>
        obtain ⟨known, keyed⟩ := firstOf_reverse remote
        have above := (shows_it.rows shown known keyed).1
        simpa [compare_nonneg] using le_trans banned.2.2 above
  obtain ⟨trimmed, lands, rows, send, retired⟩ := trimmed
  rw [lands]
  have sent : (trimmed.caughtUp options answer).send = page.send := by
    rw [Page.caughtUp, forget_send, (enqueueKeys_same _ _).send]
    exact send
  have caught : (trimmed.caughtUp options answer).catchUp = false := by
    rw [Page.caughtUp, forget_catchUp, (enqueueKeys_same _ _).catchUp]
  have step := Page.pullSettles_clean caught
    (Page.caughtUp_clean (rows ▸ merged_keys) options positive shows_it retired) (sent ▸ unsent)
  refine ⟨step.clean, fun posted made => ?_⟩
  cases step.posts posted made with
  | inr free => exact Or.inr free
  | inl before => exact posts_of_send sent posted before

end

end AiConfig.Herder
