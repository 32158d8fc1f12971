import AiConfig.Herder.Native.Sync

/-! # The outbox is neither lost nor stuck

An edit stays covered by the outbox until the server covers it, and an outbox that is not
empty always has something under way that will send it. -/

namespace AiConfig.Herder

open AiConfig.Lib

section

variable {V : Type}

/-! ## Maps by key -/

theorem firstOf_putKey (rows : List (Row V)) (row : Row V) (key : String) :
    firstOf (putKey rows row) key = if row.key = key then some row else firstOf rows key := by
  induction rows with
  | nil => rw [putKey, firstOf_cons]
  | cons head rest inductionHypothesis =>
    rw [putKey]
    split
    · rw [firstOf_cons]
    · split
      · rename_i same
        rw [firstOf_cons, firstOf_cons, same]
        split
        · rfl
        · rfl
      · rename_i apart
        rw [firstOf_cons, firstOf_cons, inductionHypothesis]
        by_cases own : head.key = key
        · rw [if_pos own, if_pos own, if_neg fun same => apart (own.trans same.symm)]
        · rw [if_neg own, if_neg own]

theorem firstOf_removeKey (rows : List (Row V)) (key other : String) :
    firstOf (removeKey rows key) other = if other = key then none else firstOf rows other := by
  rw [removeKey, firstOf_filter _ fun held => decide (held ≠ key)]
  by_cases same : other = key
  · simp [same]
  · simp [same]

theorem newer_iff {row : Row V} {current : Option (Row V)} :
    newer row current = true ↔ ∀ held, current = some held → held.version < row.version := by
  cases current with
  | none => simp [newer]
  | some held => simp [newer]

/-! ## Operations on the sync -/

/-- The outbox has a row of the key at or above the row. -/
def Sync.Holds (sync : Sync V) (row : Row V) : Prop :=
  Covered (firstOf sync.outbox) Row.version row.key row.version

/-- Only the rows, the outbox and what they report differ. -/
structure Sync.Alike (sync sync' : Sync V) : Prop where
  hold : sync'.hold = sync.hold
  cursor : sync'.cursor = sync.cursor
  pulling : sync'.pulling = sync.pulling
  pullAgain : sync'.pullAgain = sync.pullAgain
  sending : sync'.sending = sync.sending
  retryPending : sync'.retryPending = sync.retryPending

theorem Sync.Alike.refl (sync : Sync V) : sync.Alike sync := ⟨rfl, rfl, rfl, rfl, rfl, rfl⟩

theorem Sync.Alike.trans {a b c : Sync V} (first : a.Alike b) (second : b.Alike c) : a.Alike c where
  hold := second.hold.trans first.hold
  cursor := second.cursor.trans first.cursor
  pulling := second.pulling.trans first.pulling
  pullAgain := second.pullAgain.trans first.pullAgain
  sending := second.sending.trans first.sending
  retryPending := second.retryPending.trans first.retryPending

/-- A row that is put over one it is above. -/
theorem Sync.Holds.put {sync sync' : Sync V} {row other : Row V} (holds : sync.Holds other)
    (outbox : sync'.outbox = putKey sync.outbox row)
    (above : newer row (firstOf sync.outbox row.key) = true) :
    sync'.Holds other := by
  obtain ⟨held, found, below⟩ := holds
  by_cases own : row.key = other.key
  · rw [newer_iff, own] at above
    refine ⟨row, ?_, le_trans below (le_of_lt (above held found))⟩
    rw [outbox, firstOf_putKey, if_pos own]
  · refine ⟨held, ?_, below⟩
    rw [outbox, firstOf_putKey, if_neg own, found]

/-- A queued row that goes is at or below the row that retires it. -/
theorem Sync.retire_holds {sync : Sync V} (by_row : Row V) {row : Row V} (holds : sync.Holds row) :
    (sync.retire by_row.key fun queued => queued.version ≤ by_row.version).Holds row ∨
      row.key = by_row.key ∧ row.version ≤ by_row.version := by
  rw [Sync.retire]
  split
  · rename_i retires
    by_cases own : row.key = by_row.key
    · right
      obtain ⟨held, found, below⟩ := holds
      rw [own] at found
      rw [found, Option.any_some, decide_eq_true_eq] at retires
      exact ⟨own, le_trans below retires⟩
    · left
      obtain ⟨held, found, below⟩ := holds
      refine ⟨held, ?_, below⟩
      show firstOf (removeKey sync.outbox by_row.key) row.key = some held
      rw [firstOf_removeKey, if_neg own, found]
  · exact Or.inl holds

theorem Sync.retire_alike (sync : Sync V) (key : String) (retires : Row V → Bool) :
    sync.Alike (sync.retire key retires) := by
  rw [Sync.retire]
  split <;> exact ⟨rfl, rfl, rfl, rfl, rfl, rfl⟩

def Sync.retireAll (sync : Sync V) (rows : List (Row V)) : Sync V :=
  rows.foldl (fun sync row => sync.retire row.key fun queued => queued.version ≤ row.version) sync

theorem Sync.retireAll_holds {sync : Sync V} (rows : List (Row V)) {row : Row V}
    (holds : sync.Holds row) :
    (sync.retireAll rows).Holds row ∨ ∃ other ∈ rows, other.key = row.key ∧
    row.version ≤ other.version := by
  induction rows generalizing sync with
  | nil => exact Or.inl holds
  | cons head rest inductionHypothesis =>
    cases retire_holds head holds with
    | inr gone => exact Or.inr ⟨head, List.mem_cons_self, gone.1.symm, gone.2⟩
    | inl still =>
      cases inductionHypothesis still with
      | inl end_holds => exact Or.inl end_holds
      | inr later =>
        obtain ⟨other, member, above⟩ := later
        exact Or.inr ⟨other, List.mem_cons_of_mem _ member, above⟩

theorem Sync.retireAll_alike (sync : Sync V) (rows : List (Row V)) :
    sync.Alike (sync.retireAll rows) := by
  induction rows generalizing sync with
  | nil => exact .refl sync
  | cons head rest inductionHypothesis =>
      exact (retire_alike sync _ _).trans (inductionHypothesis _)

theorem Sync.queueRow_alike (sync : Sync V) (row : Row V) : sync.Alike (sync.queueRow row) := by
  rw [Sync.queueRow]
  dsimp only
  split <;> exact ⟨rfl, rfl, rfl, rfl, rfl, rfl⟩

/-- What is queued for a row has its key and version. -/
theorem Sync.queued_version (sync : Sync V) (row : Row V) :
    let queued :=
  ((firstOf sync.rows row.key).filter fun held => held.version = row.version).getD row
    queued.key = row.key ∧ queued.version = row.version := by
  intro queued
  cases found : firstOf sync.rows row.key with
  | none => exact ⟨by simp [queued, found], by simp [queued, found]⟩
  | some held =>
    by_cases same : held.version = row.version
    · have own := (firstOf_eq_some found).2
      exact ⟨by simp [queued, found, Option.filter, same, own], by simp [queued, found,
        Option.filter, same]⟩
    · exact ⟨by simp [queued, found, Option.filter, same], by simp [queued, found, Option.filter,
        same]⟩

theorem Sync.queueRow_holds (sync : Sync V) (row : Row V) :
    (sync.queueRow row).Holds row ∧ ∀ other, sync.Holds other →
    (sync.queueRow row).Holds other := by
  obtain ⟨key, version⟩ := sync.queued_version row
  rw [Sync.queueRow]
  dsimp only at key version ⊢
  generalize ((firstOf sync.rows row.key).filter fun held => held.version = row.version).getD row =
    queued
    at key version ⊢
  split
  · rename_i above
    refine ⟨⟨queued, ?_, le_of_eq version.symm⟩, fun other holds => holds.put rfl above⟩
    show firstOf (putKey sync.outbox queued) row.key = some queued
    rw [firstOf_putKey, if_pos key]
  · rename_i below
    refine ⟨?_, fun other holds => holds⟩
    rw [newer_iff, not_forall] at below
    obtain ⟨held, below⟩ := below
    rw [Classical.not_imp, not_lt, version, key] at below
    exact ⟨held, below.1, below.2⟩

section

variable [DecidableEq V] (rule : MergeRule V)

theorem Sync.merge_alike (sync : Sync V) (rows : List (Row V)) :
    sync.Alike (sync.merge rule rows) ∧ (sync.merge rule rows).outbox = sync.outbox := by
  induction rows generalizing sync with
  | nil => exact ⟨.refl sync, rfl⟩
  | cons head rest inductionHypothesis =>
    have one : sync.Alike (sync.mergeRow rule head) ∧
        (sync.mergeRow rule head).outbox = sync.outbox := by
      rw [Sync.mergeRow]
      split
      · exact ⟨.refl sync, rfl⟩
      · dsimp only
        split
        · split <;> exact ⟨⟨rfl, rfl, rfl, rfl, rfl, rfl⟩, rfl⟩
        · split <;> exact ⟨⟨rfl, rfl, rfl, rfl, rfl, rfl⟩, rfl⟩
    obtain ⟨alike, outbox⟩ := inductionHypothesis (sync.mergeRow rule head)
    exact ⟨one.1.trans alike, outbox.trans one.2⟩

theorem Sync.queue_holds (sync : Sync V) (rows : List (Row V)) :
    (∀ row ∈ rows, (sync.queue rule rows).Holds row) ∧
      (∀ row, sync.Holds row → (sync.queue rule rows).Holds row) ∧
      sync.Alike (sync.queue rule rows) := by
  have general : ∀ sync : Sync V, (∀ row ∈ rows, (rows.foldl Sync.queueRow sync).Holds row) ∧
      (∀ row, sync.Holds row → (rows.foldl Sync.queueRow sync).Holds row) ∧
      sync.Alike (rows.foldl Sync.queueRow sync) := by
    induction rows with
    | nil => exact fun sync => ⟨by simp, fun _ holds => holds, .refl sync⟩
    | cons head rest inductionHypothesis =>
      intro sync
      obtain ⟨all, keeps, alike⟩ := inductionHypothesis (sync.queueRow head)
      obtain ⟨own, others⟩ := sync.queueRow_holds head
      refine ⟨fun row member => ?_, fun row holds => keeps row (others row holds),
        (queueRow_alike sync head).trans alike⟩
      cases List.mem_cons.mp member with
      | inl same => exact keeps row (same ▸ own)
      | inr later => exact all row later
  obtain ⟨merged, outbox⟩ := merge_alike rule sync rows
  obtain ⟨all, keeps, alike⟩ := general { sync.merge rule rows with repairs := [] }
  refine ⟨all, fun row holds => keeps row ?_, ?_⟩
  · rw [Sync.Holds]
    show Covered (firstOf (sync.merge rule rows).outbox) Row.version row.key row.version
    rw [outbox]
    exact holds
  · have cleared : sync.Alike { sync.merge rule rows with repairs := [] } :=
      ⟨merged.hold, merged.cursor, merged.pulling, merged.pullAgain, merged.sending,
        merged.retryPending⟩
    exact cleared.trans alike

end

/-! ## Requests in flight -/

/-- The sync's flags are the requests in flight. -/
structure Flight.Fits (flight : Flight V) (sync : Sync V) : Prop where
  pull : flight.pull.isSome = sync.pulling
  post : flight.post.map (·.1) = sync.sending
  timer : flight.timer = sync.retryPending

/-- The server covers what was answered. -/
structure Flight.Safe (server : String → Option (Row V)) (flight : Flight V) : Prop where
  pull : ∀ rows rev, flight.pull = some (some (rows, rev)) →
    ∀ row ∈ rows, Covered server Row.version row.key row.version
  post : ∀ rows, flight.post = some (rows, true) → ∀ row ∈ rows,
    Covered server Row.version row.key row.version

theorem Flight.issue_snoc (flight : Flight V) (out : List (Effect V)) (effect : Effect V) :
    flight.issue (out ++ [effect]) = (flight.issue out).emit effect := by
  simp [Flight.issue]

theorem Flight.Safe.emit {server : String → Option (Row V)} {flight : Flight V}
    (safe : flight.Safe server)
    (effect : Effect V) : (flight.emit effect).Safe server := by
  cases effect with
  | fetch since => exact ⟨fun _ _ answered => by simp [Flight.emit] at answered, safe.post⟩
  | post rows => exact ⟨safe.pull, fun _ taken => by simp [Flight.emit] at taken⟩
  | after ms => exact ⟨safe.pull, safe.post⟩

theorem Flight.Safe.issue {server : String → Option (Row V)} {flight : Flight V}
    (safe : flight.Safe server)
    (out : List (Effect V)) : (flight.issue out).Safe server := by
  induction out generalizing flight with
  | nil => exact safe
  | cons effect rest inductionHypothesis => exact inductionHypothesis (safe.emit effect)

theorem Flight.Safe.grows {server server' : String → Option (Row V)} {flight : Flight V}
    (safe : flight.Safe server)
    (grows : ∀ row : Row V, Covered server Row.version row.key row.version →
      Covered server' Row.version row.key row.version) : flight.Safe server' where
  pull := fun rows rev answered row member => grows row (safe.pull rows rev answered row member)
  post := fun rows taken row member => grows row (safe.post rows taken row member)

/-- Something under way will send the outbox. -/
def Sync.Busy (sync : Sync V) : Prop :=
  sync.outbox ≠ [] → sync.sending.isSome ∨ sync.pulling = true ∨ sync.retryPending = true ∨
    sync.hold.isSome

/-- The requests an operation makes are those its flags show. -/
structure Sync.Leads (flight : Flight V) (before after : Sync V × List (Effect V)) : Prop where
  fits : (flight.issue before.2).Fits before.1 → (flight.issue after.2).Fits after.1
  outbox : after.1.outbox = before.1.outbox
  cursor : after.1.cursor = before.1.cursor

theorem Sync.Leads.trans {flight : Flight V} {a b c : Sync V × List (Effect V)}
    (first : Leads flight a b)
    (second : Leads flight b c) : Leads flight a c :=
  ⟨fun fits => second.fits (first.fits fits), second.outbox.trans first.outbox,
    second.cursor.trans first.cursor⟩

theorem Sync.leads_pull (flight : Flight V) (sync : Sync V) (out : List (Effect V)) :
    Leads flight (sync, out) (sync.pull out) ∧ (sync.pull out).1.pulling = true := by
  rw [Sync.pull]
  split
  · rename_i pulling
    exact ⟨⟨fun fits => ⟨fits.pull, fits.post, fits.timer⟩, rfl, rfl⟩, pulling⟩
  · refine ⟨⟨fun fits => ?_, rfl, rfl⟩, rfl⟩
    dsimp only
    rw [Flight.issue_snoc]
    exact ⟨rfl, fits.post, fits.timer⟩

theorem Sync.leads_send (flight : Flight V) (sync : Sync V) (out : List (Effect V)) :
    Leads flight (sync, out) (sync.send out) ∧ (sync.send out).1.Busy := by
  rw [Sync.send]
  split
  · rename_i stays
    refine ⟨⟨fun fits => fits, rfl, rfl⟩, fun filled => ?_⟩
    simp only [Bool.or_eq_true, List.isEmpty_iff] at stays
    dsimp only at filled ⊢
    tauto
  · refine ⟨⟨fun fits => ?_, rfl, rfl⟩, fun _ => Or.inl rfl⟩
    dsimp only
    rw [Flight.issue_snoc]
    exact ⟨fits.pull, rfl, fits.timer⟩

theorem Sync.leads_refused (flight : Flight V) (sync : Sync V) (status : Option Nat)
    (out : List (Effect V)) :
    Leads flight (sync, out) (sync.refused status out) ∧ (sync.refused status out).1.Busy := by
  rw [Sync.refused]
  split
  · exact ⟨⟨fun fits => ⟨fits.pull, fits.post, fits.timer⟩, rfl, rfl⟩, fun _ => by simp⟩
  · split
    · exact ⟨⟨fun fits => ⟨fits.pull, fits.post, fits.timer⟩, rfl, rfl⟩, fun _ => by simp⟩
    · split
      · rename_i pending
        exact ⟨⟨fun fits => fits, rfl, rfl⟩, fun _ => Or.inr (Or.inr (Or.inl pending))⟩
      · refine ⟨⟨fun fits => ?_, rfl, rfl⟩, fun _ => by simp⟩
        dsimp only
        rw [Flight.issue_snoc]
        exact ⟨fits.pull, fits.post, rfl⟩

theorem Flight.Fits.alike {flight : Flight V} {sync sync' : Sync V} (fits : flight.Fits sync)
    (alike : sync.Alike sync') : flight.Fits sync' :=
  ⟨fits.pull.trans alike.pulling.symm, fits.post.trans alike.sending.symm,
    fits.timer.trans alike.retryPending.symm⟩

/-! ## Steps -/

/-- What a step keeps, for the answer it takes off the flight. -/
structure Sync.Kept (server : String → Option (Row V)) (flight : Flight V) (before : Sync V)
    (after : Sync V × List (Effect V)) : Prop where
  holds : ∀ row, before.Holds row → after.1.Holds row ∨
    Covered server Row.version row.key row.version
  fits : (flight.issue after.2).Fits after.1
  cursor : before.cursor ≤ after.1.cursor
  busy : after.1.Busy

theorem Sync.Holds.same {sync sync' : Sync V} {row : Row V} (holds : sync.Holds row)
    (outbox : sync'.outbox = sync.outbox) : sync'.Holds row := by
  rw [Sync.Holds, outbox]
  exact holds

theorem covered_above {server : String → Option (Row V)} {row other : Row V}
    (covered : Covered server Row.version other.key other.version) (key : other.key = row.key)
    (below : row.version ≤ other.version) : Covered server Row.version row.key row.version := by
  obtain ⟨held, found, above⟩ := covered
  exact ⟨held, key ▸ found, le_trans below above⟩

theorem Sync.kept_refused {server : String → Option (Row V)} {flight : Flight V}
    {sync opened : Sync V}
    (fits : flight.Fits opened) (outbox : opened.outbox = sync.outbox)
    (cursor : opened.cursor = sync.cursor)
    (status : Option Nat) : Kept server flight sync (opened.refused status []) := by
  obtain ⟨leads, busy⟩ := leads_refused flight opened status []
  constructor
  case holds => exact fun row holds => Or.inl ((holds.same outbox).same leads.outbox)
  case fits => exact leads.fits fits
  case cursor => exact le_of_eq (leads.cursor.trans cursor).symm
  case busy => exact busy

theorem Sync.kept_pulled (server : String → Option (Row V)) {flight : Flight V}
    {sync opened : Sync V}
    (fits : flight.Fits opened) (cursor : opened.cursor = sync.cursor)
    (holds : ∀ row, sync.Holds row → opened.Holds row ∨
    Covered server Row.version row.key row.version) :
    Kept server flight sync (opened.pull []) := by
  obtain ⟨leads, pulling⟩ := leads_pull flight opened []
  constructor
  case holds => exact fun row held => (holds row held).imp_left fun still => still.same leads.outbox
  case fits => exact leads.fits fits
  case cursor => exact le_of_eq (leads.cursor.trans cursor).symm
  case busy => exact fun _ => Or.inr (Or.inl pulling)

theorem Sync.kept_posted {server : String → Option (Row V)} {flight : Flight V} {sync : Sync V}
    (fits : flight.Fits sync) {rows : List (Row V)} (sent : flight.post = some (rows, true))
    (covered : ∀ row ∈ rows, Covered server Row.version row.key row.version) :
    Kept server { flight with post := none } sync (sync.posted []) := by
  have sending : sync.sending = some rows := by
    rw [← fits.post, sent]
    rfl
  let opened : Sync V := { sync with sending := none }
  have alike := retireAll_alike opened rows
  have same : sync.posted [] = { opened.retireAll rows with backoffMs := 500 }.pull [] := by
    rw [Sync.posted, sending]
    rfl
  have start : Flight.Fits { flight with post := none } opened := ⟨fits.pull, rfl, fits.timer⟩
  have ended := start.alike alike
  have reset :
      Flight.Fits { flight with post := none } { opened.retireAll rows with backoffMs := 500 } :=
    ⟨ended.pull, ended.post, ended.timer⟩
  have cursor : ({ opened.retireAll rows with backoffMs := 500 } : Sync V).cursor = sync.cursor :=
    alike.cursor
  rw [same]
  apply kept_pulled server reset cursor
  intro row holds
  have opens : opened.Holds row := holds
  cases retireAll_holds rows opens with
  | inl still => exact Or.inl (still.same rfl)
  | inr gone =>
    obtain ⟨other, member, own, above⟩ := gone
    exact Or.inr (covered_above (covered other member) own above)

section

variable [DecidableEq V]

theorem Sync.kept_answered {server : String → Option (Row V)} {flight : Flight V} {sync : Sync V}
    (fits : flight.Fits sync) {got : List (Row V)}
    (covered : ∀ row ∈ got, Covered server Row.version row.key row.version) (rev : Nat) :
    Kept server { flight with pull := none } sync (sync.answered lastWriteWins got rev []) := by
  let opened : Sync V := { sync with
    pulling := false
    pulled := true
    hold := if sync.hold = some Hold.localOnly then none else sync.hold
    cursor := max sync.cursor rev }
  let merged := (opened.retireAll got).merge lastWriteWins got
  have alike : opened.Alike merged :=
    (retireAll_alike opened got).trans (merge_alike lastWriteWins _ got).1
  have outbox : merged.outbox = (opened.retireAll got).outbox := (merge_alike lastWriteWins _ got).2
  have taken : Flight.Fits { flight with pull := none } opened := ⟨rfl, fits.post, fits.timer⟩
  have start := taken.alike alike
  have pulled : ∃ next : Sync V × List (Effect V),
      sync.answered lastWriteWins got rev [] = next.1.send next.2 ∧
        Leads { flight with pull := none } (merged, []) next := by
    show ∃ next : Sync V × List (Effect V),
      Sync.send (if merged.pullAgain then { merged with pullAgain := false }.pull [] else
        (merged, [])).1
          (if merged.pullAgain then { merged with pullAgain := false }.pull [] else
            (merged, [])).2 =
        next.1.send next.2 ∧ Leads { flight with pull := none } (merged, []) next
    refine ⟨_, rfl, ?_⟩
    split
    · have cleared : Leads { flight with pull := none } (merged, [])
          ({ merged with pullAgain := false }, []) :=
        ⟨fun fits => ⟨fits.pull, fits.post, fits.timer⟩, rfl, rfl⟩
      exact cleared.trans (leads_pull _ _ _).1
    · exact ⟨fun fits => fits, rfl, rfl⟩
  obtain ⟨next, same, leads⟩ := pulled
  rw [same]
  obtain ⟨sent, busy⟩ := leads_send { flight with pull := none } next.1 next.2
  have whole := leads.trans sent
  constructor
  case holds =>
    intro row holds
    have opens : opened.Holds row := holds
    cases retireAll_holds got opens with
    | inl still => exact Or.inl ((still.same outbox).same whole.outbox)
    | inr gone =>
      obtain ⟨other, member, own, above⟩ := gone
      exact Or.inr (covered_above (covered other member) own above)
  case fits => exact whole.fits start
  case cursor =>
    rw [whole.cursor, alike.cursor]
    exact le_max_left _ _
  case busy => exact busy

theorem Sync.kept_edit (server : String → Option (Row V)) {flight : Flight V} {sync : Sync V}
    (fits : flight.Fits sync) (rows : List (Row V)) :
    Kept server flight sync (sync.reduce lastWriteWins (.edit rows) []) ∧
      ∀ row ∈ rows, (sync.reduce lastWriteWins (.edit rows) []).1.Holds row := by
  obtain ⟨all, keeps, alike⟩ := queue_holds lastWriteWins sync rows
  have queued := fits.alike alike
  obtain ⟨leads, busy⟩ := leads_send flight
    { sync.queue lastWriteWins rows with
      hold := if (sync.queue lastWriteWins rows).hold = some Hold.tooLarge then none
        else (sync.queue lastWriteWins rows).hold } []
  refine ⟨?_, fun row member => (all row member).same leads.outbox⟩
  constructor
  case holds => exact fun row holds => Or.inl ((keeps row holds).same leads.outbox)
  case fits => exact leads.fits ⟨queued.pull, queued.post, queued.timer⟩
  case cursor => exact le_of_eq (leads.cursor.trans alike.cursor).symm
  case busy => exact busy

/-! ## Runs -/

structure NativeWorld.Inv (world : NativeWorld V) : Prop where
  kept : ∀ row ∈ world.edited, world.sync.Holds row ∨
    Covered world.server Row.version row.key row.version
  fits : world.flight.Fits world.sync
  safe : world.flight.Safe world.server
  busy : world.sync.Busy

/-- A step that keeps what it should, with the flight it starts from. -/
theorem NativeWorld.Inv.apply {world : NativeWorld V} (inv : world.Inv) {flight : Flight V}
    {step : Step V}
    (kept : Sync.Kept world.server flight world.sync (world.sync.reduce lastWriteWins step []))
    (safe : flight.Safe world.server) :
    (world.apply flight step).Inv ∧ world.sync.cursor ≤ (world.apply flight step).sync.cursor := by
  have flags := kept.fits
  refine ⟨⟨?_, ⟨flags.pull, flags.post, flags.timer⟩, safe.issue _, kept.busy⟩, kept.cursor⟩
  intro row member
  cases inv.kept row member with
  | inl holds => exact (kept.holds row holds).imp_left fun still => still.same rfl
  | inr covered => exact Or.inr covered

theorem NativeWorld.Inv.boot (cursor : Nat) (snapshot outbox : List (Row V))
    (server : String → Option (Row V)) :
    (NativeWorld.boot cursor snapshot outbox server).Inv := by
  let blank : Sync V := { Sync.new with cursor := cursor }
  let merged : Sync V := { blank.merge lastWriteWins snapshot with repairs := [] }
  obtain ⟨all, _, queued⟩ := Sync.queue_holds lastWriteWins merged outbox
  have alike : blank.Alike (merged.queue lastWriteWins outbox) := by
    have first := (Sync.merge_alike lastWriteWins blank snapshot).1
    have cleared : blank.Alike merged :=
      ⟨first.hold, first.cursor, first.pulling, first.pullAgain, first.sending, first.retryPending⟩
    exact cleared.trans queued
  have idle :
      Flight.Fits (Flight.mk none none false)
      (Sync.restored lastWriteWins cursor snapshot outbox) :=
    ⟨alike.pulling.symm, alike.sending.symm, alike.retryPending.symm⟩
  obtain ⟨leads, pulling⟩ := Sync.leads_pull (Flight.mk none none false)
    (Sync.restored lastWriteWins cursor snapshot outbox) []
  constructor
  case kept => exact fun row member => Or.inl (((all row member).same rfl).same leads.outbox)
  case fits => exact leads.fits idle
  case safe =>
    have nothing : Flight.Safe server (Flight.mk none none false : Flight V) :=
      ⟨fun _ _ answered => (nomatch answered), fun _ taken => (nomatch taken)⟩
    exact nothing.issue _
  case busy => exact fun _ => Or.inr (Or.inl pulling)

theorem NativeWorld.Inv.moves {world next : NativeWorld V} {event : NativeEvent V} (inv : world.Inv)
    (moves : world.Moves event next) : next.Inv ∧ world.sync.cursor ≤ next.sync.cursor := by
  have unpulled : Flight.Safe world.server { world.flight with pull := none } :=
    ⟨fun _ _ answered => (nomatch answered), inv.safe.post⟩
  have unposted : Flight.Safe world.server { world.flight with post := none } :=
    ⟨inv.safe.pull, fun _ taken => (nomatch taken)⟩
  cases moves with
  | edit rows =>
    obtain ⟨kept, all⟩ := Sync.kept_edit world.server inv.fits rows
    obtain ⟨applied, cursor⟩ := inv.apply kept inv.safe
    refine ⟨⟨?_, applied.fits, applied.safe, applied.busy⟩, cursor⟩
    intro row member
    cases List.mem_append.mp member with
    | inl before => exact applied.kept row before
    | inr new => exact Or.inl ((all row new).same rfl)
  | changed rev =>
    rw [Sync.changed]
    split
    · have kept := Sync.kept_pulled world.server inv.fits rfl fun _ holds => Or.inl holds
      refine ⟨⟨?_, kept.fits, inv.safe.issue _, kept.busy⟩, kept.cursor⟩
      intro row member
      cases inv.kept row member with
      | inl holds => exact kept.holds row holds
      | inr covered => exact Or.inr covered
    · exact ⟨⟨inv.kept, inv.fits, inv.safe.issue [], inv.busy⟩, le_rfl⟩
  | pullAnswered rows rev asked current =>
    have flags := inv.fits
    refine ⟨⟨inv.kept, ⟨?_, flags.post, flags.timer⟩, ⟨?_, inv.safe.post⟩, inv.busy⟩, le_rfl⟩
    · rw [← flags.pull, asked]
      rfl
    · intro got number answered row member
      simp only [Option.some.injEq, Prod.mk.injEq] at answered
      exact ⟨row, current row (answered.1 ▸ member), le_rfl⟩
  | pullArrives answered =>
    exact inv.apply (Sync.kept_answered inv.fits (inv.safe.pull _ _ answered) _) unpulled
  -- A 404 is answered as an empty snapshot.
  | pullFails status =>
    have kept : Sync.Kept world.server { world.flight with pull := none } world.sync
        (world.sync.reduce lastWriteWins (.pullFailed status) []) := by
      rw [Sync.reduce]
      split
      · exact Sync.kept_answered inv.fits (by simp) 0
      · have flags := inv.fits
        have opened :
            Flight.Fits { world.flight with pull := none } { world.sync with pulling := false } :=
          ⟨rfl, flags.post, flags.timer⟩
        have outbox : ({ world.sync with pulling := false } : Sync V).outbox = world.sync.outbox :=
          rfl
        have cursor : ({ world.sync with pulling := false } : Sync V).cursor = world.sync.cursor :=
          rfl
        exact Sync.kept_refused opened outbox cursor status
    exact inv.apply kept unpulled
  -- The server has the rows before the client hears of it: both may cover an edit.
  | @postTaken rows taken sent =>
    have flags := inv.fits
    have grows : ∀ row : Row V, Covered world.server Row.version row.key row.version →
        Covered (absorbAll Row.key Row.version world.server rows) Row.version row.key row.version :=
      fun _ covered => covered.absorbAll rows
    refine ⟨⟨?_, ⟨flags.pull, ?_, flags.timer⟩, ⟨(inv.safe.grows grows).pull, ?_⟩, inv.busy⟩,
      le_rfl⟩
    · exact fun row member => (inv.kept row member).imp_right (grows row)
    · rw [← flags.post, sent]
      rfl
    · intro sent_rows all
      simp only [Option.some.injEq, Prod.mk.injEq, and_true] at all
      subst all
      exact absorbAll_covers
  | postArrives taken =>
    exact inv.apply (Sync.kept_posted inv.fits taken (inv.safe.post _ taken)) unposted
  | postFails status =>
    have flags := inv.fits
    have opened :
        Flight.Fits { world.flight with post := none } { world.sync with sending := none } :=
      ⟨flags.pull, rfl, flags.timer⟩
    have outbox : ({ world.sync with sending := none } : Sync V).outbox = world.sync.outbox := rfl
    have cursor : ({ world.sync with sending := none } : Sync V).cursor = world.sync.cursor := rfl
    exact inv.apply (Sync.kept_refused opened outbox cursor status) unposted
  | timerFires =>
    have flags := inv.fits
    have opened : Flight.Fits { world.flight with timer := false }
        { world.sync with retryPending := false } :=
      ⟨flags.pull, flags.post, rfl⟩
    have kept : Sync.Kept world.server { world.flight with timer := false } world.sync
        (world.sync.reduce lastWriteWins .retry []) := by
      rw [Sync.reduce]
      dsimp only
      split
      · rename_i held
        exact ⟨fun _ holds => Or.inl (holds.same rfl), opened, le_rfl, fun _ => by simp [held]⟩
      · exact Sync.kept_pulled _ opened rfl fun _ holds => Or.inl (holds.same rfl)
    exact inv.apply kept ⟨inv.safe.pull, inv.safe.post⟩
  | others rows =>
    have grows : ∀ row : Row V, Covered world.server Row.version row.key row.version →
        Covered (absorbAll Row.key Row.version world.server rows) Row.version row.key row.version :=
      fun _ covered => covered.absorbAll rows
    exact ⟨⟨fun row member => (inv.kept row member).imp_right (grows row), inv.fits,
      inv.safe.grows grows, inv.busy⟩,
      le_rfl⟩

theorem native_invariant : (nativeSystem V).Invariant NativeWorld.Inv where
  initial := by
    intro world start
    obtain ⟨cursor, snapshot, outbox, server, same⟩ := start
    exact same ▸ .boot cursor snapshot outbox server
  step := fun _ _ _ inv moves => (inv.moves moves).1

/-- An edited row is covered by the outbox or by the server, the cursor does not go back,
and an outbox that is not empty has something under way. -/
theorem native_sync_kept {world : NativeWorld V} (reachable : (nativeSystem V).Reachable world) :
    (∀ row ∈ world.edited, world.sync.Holds row ∨
    Covered world.server Row.version row.key row.version) ∧
      (∀ event next, world.Moves event next → world.sync.cursor ≤ next.sync.cursor) ∧
      (world.sync.outbox ≠ [] → world.flight.post.isSome = true ∨ world.flight.pull.isSome = true ∨
        world.flight.timer = true ∨ world.sync.hold.isSome = true) := by
  have inv := native_invariant.reachable reachable
  refine ⟨inv.kept, fun event next moves => (inv.moves moves).2, fun filled => ?_⟩
  have flags := inv.fits
  have sending : world.flight.post.isSome = world.sync.sending.isSome := by
    rw [← flags.post, Option.isSome_map]
  rw [sending, flags.pull, flags.timer]
  exact inv.busy filled

end

/-! ## An edit made again before it was sent -/

def draft (updated : Int) : Row Unit := ⟨"a", (), updated, "w", false⟩

def draftedTwice : NativeWorld Unit :=
  let booted : NativeWorld Unit := .boot 0 [] [] fun _ => none
  let once : NativeWorld Unit :=
    { booted.apply booted.flight (.edit [draft 1]) with edited := booted.edited ++ [draft 1] }
  { once.apply once.flight (.edit [draft 2]) with edited := once.edited ++ [draft 2] }

theorem reachable_draftedTwice : (nativeSystem Unit).Reachable draftedTwice :=
  .step (.step (.initial ⟨0, [], [], fun _ => none, rfl⟩) (NativeWorld.Moves.edit _ [draft 1]))
    (NativeWorld.Moves.edit _ [draft 2])

theorem edited_row_superseded :
    ¬ ∀ world : NativeWorld Unit, (nativeSystem Unit).Reachable world →
      ∀ row ∈ world.edited, row ∈ world.sync.outbox ∨
        Covered world.server Row.version row.key row.version := by
  intro all
  cases all draftedTwice reachable_draftedTwice (draft 1) (by decide) with
  | inl queued =>
    revert queued
    decide
  | inr covered =>
    obtain ⟨held, found, _⟩ := covered
    cases found

theorem native_sync_kept_sample : draftedTwice.sync.Holds (draft 1) := by
  cases (native_sync_kept reachable_draftedTwice).1 (draft 1) (by decide) with
  | inl holds => exact holds
  | inr covered =>
    obtain ⟨held, found, _⟩ := covered
    cases found

end

end AiConfig.Herder
