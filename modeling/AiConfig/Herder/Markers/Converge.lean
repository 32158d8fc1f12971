import AiConfig.Herder.Markers.World

/-! # Devices at rest hold the server's row

What a device knows of the server, kept by every step of the devices and the server. -/

namespace AiConfig.Herder

open AiConfig.Lib

/-! ## Rows that are written -/

theorem rank_lt_of_updated {row other : ReadMarkerRow} (least : weakUpdated ≤ row.updated)
    (below : row.updated < other.updated) : rank row < rank other := by
  have real : other.updated ≠ weakUpdated := (lt_of_le_of_lt least below).ne'
  by_cases weak : row.updated = weakUpdated
  · exact rank_le_of_weak weak real
  · have alike : other.updated = weakUpdated ↔ row.updated = weakUpdated := iff_of_false real weak
    rw [← not_le, rank_le_of_version alike, not_le]
    exact Prod.Lex.toLex_lt_toLex.mpr (Or.inl below)

theorem writeVersion_above (held : ReadMarkerRow) (weak : Bool) (now : Int) :
    held.updated < writeVersion (some held) weak now := by
  have above : held.updated < held.updated + 1 := by omega
  exact lt_max_of_lt_right above

theorem applyMarker_spec {key : String} {current : Option ReadMarkerRow} {marker : ReadMarker}
    {weak : Bool} {now : Int}
    {writeID : String} {row : ReadMarkerRow}
    (written : applyMarker key current marker weak now writeID = some row) :
    row.writeID = writeID ∧ (∀ held, current = some held → held.updated < row.updated) ∧
      (current = none → weakUpdated ≤ row.updated) := by
  simp only [applyMarker] at written
  split at written
  · cases written
  · split at written
    · cases written
    · cases written
      refine ⟨rfl, ?_, ?_⟩
      · rintro held rfl
        exact writeVersion_above held weak now
      · rintro rfl
        cases weak <;> simp [writeVersion, weakUpdated]

theorem repairRow_above (merged : ReadMarkerRow) (now : Int) (writeID : String) :
    merged.updated < (repairRow merged now writeID).updated :=
  writeVersion_above merged false now

/-- `incoming` against `current`: what is then held and what is republished. -/
inductive Incoming (current incoming : Option ReadMarkerRow) (now : Int) (writeID : String) :
    Option ReadMarkerRow × Option ReadMarkerRow → Prop where
  | nothing (none : incoming = none) : Incoming current incoming now writeID (current, .none)
  | kept {held row : ReadMarkerRow} (before : current = some held) (pulled : incoming = some row)
      (above : rank row ≤ rank held) : Incoming current incoming now writeID (some held, .none)
  | taken {row : ReadMarkerRow} (pulled : incoming = some row)
      (above : ∀ held, current = some held → rank held ≤ rank row) :
      Incoming current incoming now writeID (some row, .none)
  | repaired {winner loser : ReadMarkerRow}
      (sides : current = some loser ∧ incoming = some winner ∨ current = some winner ∧
        incoming = some loser)
      (above : rank loser ≤ rank winner)
        (differs : mergedMarker winner.value loser.value ≠ winner.value) :
      Incoming current incoming now writeID
        (some (repairRow { winner with value := mergedMarker winner.value loser.value } now
          writeID),
          some (repairRow { winner with value := mergedMarker winner.value loser.value } now
            writeID))

theorem mergeIncoming_spec (current incoming : Option ReadMarkerRow) (now : Int)
    (writeID : String) :
    Incoming current incoming now writeID (mergeIncoming current incoming now writeID) := by
  cases incoming with
  | none => exact .nothing rfl
  | some row =>
    have step := merged current row
    simp only [mergeIncoming]
    generalize mergeMarkerRow current row = answer at step ⊢
    cases step with
    | first empty => exact .taken rfl (by simp [empty])
    | kept before above => exact .kept before rfl above
    | taken before above => exact .taken rfl (by simp [before, above.le])
    | ahead before sides above differs =>
      obtain ⟨rfl, rfl⟩ | ⟨rfl, rfl⟩ := sides
      · exact .repaired (Or.inl ⟨before, rfl⟩) above differs
      · exact .repaired (Or.inr ⟨before, rfl⟩) above differs

theorem mergeIncoming_repair {current incoming : Option ReadMarkerRow} {now : Int}
    {writeID : String} {row : ReadMarkerRow}
    (repaired : (mergeIncoming current incoming now writeID).2 = some row) :
    ∃ winner loser, (current = some loser ∧ incoming = some winner ∨ current = some winner ∧
      incoming = some loser) ∧
      rank loser ≤ rank winner ∧ mergedMarker winner.value loser.value ≠ winner.value ∧
      row = repairRow { winner with value := mergedMarker winner.value loser.value } now writeID ∧
      (mergeIncoming current incoming now writeID).1 = some row := by
  have step := mergeIncoming_spec current incoming now writeID
  generalize mergeIncoming current incoming now writeID = answer at step repaired ⊢
  cases step with
  | nothing => cases repaired
  | kept => cases repaired
  | taken => cases repaired
  | @repaired winner loser sides above differs =>
    cases repaired
    exact ⟨winner, loser, sides, above, differs, rfl, rfl⟩

/-! ## What a device knows of the server -/

def Beneath (row : ReadMarkerRow) (server : Option ReadMarkerRow) : Prop :=
  ∃ stored, server = some stored ∧ row.version ≤ stored.version

/-- The held row is no weaker than the server's. -/
def Dominates (held server : Option ReadMarkerRow) : Prop :=
  ∀ stored, server = some stored → ∃ own, held = some own ∧ rank stored ≤ rank own

theorem Dominates.raise {held held' server : Option ReadMarkerRow}
    (dominates : Dominates held server)
    (raised : Dominates held' held) : Dominates held' server := by
  intro stored served
  obtain ⟨own, kept, above⟩ := dominates stored served
  obtain ⟨own', kept', above'⟩ := raised own kept
  exact ⟨own', kept', above.trans above'⟩

theorem Dominates.refl (held : Option ReadMarkerRow) : Dominates held held :=
  fun row stored => ⟨row, stored, le_rfl⟩

/-- A merge loses nothing: the row then held is above both. -/
theorem mergeIncoming_dominates {current incoming : Option ReadMarkerRow} (now : Int)
    (writeID : String)
    (least : ∀ row, current = some row ∨ incoming = some row → weakUpdated ≤ row.updated) :
    Dominates (mergeIncoming current incoming now writeID).1 current ∧
      Dominates (mergeIncoming current incoming now writeID).1 incoming := by
  have step := mergeIncoming_spec current incoming now writeID
  generalize mergeIncoming current incoming now writeID = answer at step ⊢
  cases step with
  | nothing none =>
    subst none
    exact ⟨Dominates.refl _, fun _ absent => nomatch absent⟩
  | kept before pulled above =>
    subst before pulled
    refine ⟨Dominates.refl _, ?_⟩
    rintro _ ⟨⟩
    exact ⟨_, rfl, above⟩
  | taken pulled above =>
    subst pulled
    exact ⟨fun held kept => ⟨_, rfl, above held kept⟩, Dominates.refl _⟩
  | @repaired winner loser sides above differs =>
    have raised : rank winner <
        rank (repairRow { winner with value := mergedMarker winner.value loser.value } now
            writeID) := by
      refine rank_lt_of_updated (least winner ?_) (repairRow_above _ now writeID)
      obtain ⟨-, own⟩ | ⟨own, -⟩ := sides
      · exact Or.inr own
      · exact Or.inl own
    have winner_below : Dominates
        (some (repairRow { winner with value := mergedMarker winner.value loser.value } now
            writeID)) (some winner) := by
      rintro _ ⟨⟩
      exact ⟨_, rfl, raised.le⟩
    have loser_below : Dominates
        (some (repairRow { winner with value := mergedMarker winner.value loser.value } now
            writeID)) (some loser) := by
      rintro _ ⟨⟩
      exact ⟨_, rfl, above.trans raised.le⟩
    obtain ⟨rfl, rfl⟩ | ⟨rfl, rfl⟩ := sides
    · exact ⟨loser_below, winner_below⟩
    · exact ⟨winner_below, loser_below⟩

/-- A device, its queue and its requests fit the server's row. -/
structure Device.Fits (device : Device) (server : Option ReadMarkerRow) (serverRev rev : Nat)
    (issued : List ReadMarkerRow) : Prop where
  known : ∀ row, device.held = some row → row ∈ issued
  covered : ∀ row, device.held = some row → device.queued = true ∨ device.catchUp = true ∨
    Beneath row server
  cursor : device.catchUp = false → device.cursor ≤ rev ∧
    (serverRev ≤ device.cursor → Dominates device.held server)
  asked : ∀ pull, device.pull = some pull →
    pull.full = true ∧ pull.since = 0 ∨ pull.full = false ∧ device.catchUp = false ∧
      pull.since = device.cursor
  answered : ∀ pull incoming revision, device.pull = some pull →
    pull.answer = some (incoming, revision) →
    revision ≤ rev ∧ (∀ row, incoming = some row → row ∈ issued ∧ Beneath row server) ∧
      (serverRev ≤ revision → incoming = server ∨ Dominates device.held server)
  posted : ∀ row taken, device.post = some (row, taken) → row ∈ issued ∧
    (taken = true → Beneath row server)

/-- What the server and the history of rows may do beside a device. -/
structure Ahead (server server' : Option ReadMarkerRow) (serverRev serverRev' rev rev' : Nat)
    (issued issued' : List ReadMarkerRow) : Prop where
  known : ∀ row ∈ issued, row ∈ issued'
  beneath : ∀ row, Beneath row server → Beneath row server'
  later : rev ≤ rev'
  replaced : server' = server ∧ serverRev' = serverRev ∨ rev < serverRev'

theorem Device.Fits.ahead {device : Device} {server server' : Option ReadMarkerRow}
    {serverRev serverRev' rev rev' : Nat}
    {issued issued' : List ReadMarkerRow} (fits : device.Fits server serverRev rev issued)
    (ahead : Ahead server server' serverRev serverRev' rev rev' issued issued') :
    device.Fits server' serverRev' rev' issued' where
  known row held := ahead.known row (fits.known row held)
  covered row held := by
    obtain queued | catchUp | beneath := fits.covered row held
    · exact Or.inl queued
    · exact Or.inr (Or.inl catchUp)
    · exact Or.inr (Or.inr (ahead.beneath row beneath))
  cursor started := by
    obtain ⟨below, seen⟩ := fits.cursor started
    refine ⟨below.trans ahead.later, fun current => ?_⟩
    obtain ⟨rfl, rfl⟩ | later := ahead.replaced
    · exact seen current
    · omega
  asked := fits.asked
  answered pull incoming revision asked answered := by
    obtain ⟨below, rows, seen⟩ := fits.answered pull incoming revision asked answered
    refine ⟨below.trans ahead.later, fun row own => ?_, fun current => ?_⟩
    · exact ⟨ahead.known row (rows row own).1, ahead.beneath row (rows row own).2⟩
    · obtain ⟨rfl, rfl⟩ | later := ahead.replaced
      · exact seen current
      · omega
  posted row taken sent :=
    ⟨ahead.known row (fits.posted row taken sent).1, fun given =>
      ahead.beneath row ((fits.posted row taken sent).2 given)⟩

section

variable {device : Device} {server : Option ReadMarkerRow} {serverRev rev : Nat}
  {issued : List ReadMarkerRow}

/-- The held row gives way to a higher one that is queued. -/
theorem Device.Fits.write (fits : device.Fits server serverRev rev issued) {row : ReadMarkerRow}
    (inside : row ∈ issued)
    (raised : Dominates (some row) device.held) :
    (device.write row).Fits server serverRev rev issued where
  known := by
    rintro _ ⟨⟩
    exact inside
  covered := fun _ _ => Or.inl rfl
  cursor started :=
    ⟨(fits.cursor started).1, fun current => ((fits.cursor started).2 current).raise raised⟩
  asked := fits.asked
  answered pull incoming revision asked answered := by
    obtain ⟨below, rows, seen⟩ := fits.answered pull incoming revision asked answered
    exact ⟨below, rows, fun current => (seen current).imp_right fun dominates =>
      dominates.raise raised⟩
  posted := fits.posted

theorem Device.Fits.requeue (fits : device.Fits server serverRev rev issued) :
    ({ device with queued := true } : Device).Fits server serverRev rev issued :=
  ⟨fits.known, fun _ _ => Or.inl rfl, fits.cursor, fits.asked, fits.answered, fits.posted⟩

theorem Device.Fits.askPull (fits : device.Fits server serverRev rev issued) :
    device.askPull.Fits server serverRev rev issued where
  known := fits.known
  covered := fits.covered
  cursor := fits.cursor
  asked := by
    rintro _ ⟨⟩
    cases started : device.catchUp with
    | true => exact Or.inl ⟨rfl, rfl⟩
    | false => exact Or.inr ⟨rfl, started, rfl⟩
  answered := by
    rintro _ incoming revision ⟨⟩ ⟨⟩
  posted := fits.posted

theorem Device.Fits.pullFails (fits : device.Fits server serverRev rev issued) :
    ({ device with pull := none } : Device).Fits server serverRev rev issued :=
  ⟨fits.known, fits.covered, fits.cursor, fun _ absent => (nomatch absent), fun _ _ _ absent =>
    (nomatch absent), fits.posted⟩

/-- A pull is answered with the row unless the device has all of it. -/
theorem Device.Fits.pullServed (fits : device.Fits server serverRev rev issued) {pull : MarkerPull}
    (asked : device.pull = some pull) (stored : ∀ row, server = some row → row ∈ issued ∧
    0 < serverRev) :
    ({ device with
        pull := some { pull with answer := some (if pull.since < serverRev then server else none, rev) } } :
      Device).Fits server serverRev rev issued where
  known := fits.known
  covered := fits.covered
  cursor := fits.cursor
  asked := by
    rintro _ ⟨⟩
    exact fits.asked pull asked
  answered := by
    rintro _ incoming revision ⟨⟩ ⟨⟩
    refine ⟨le_rfl, fun row own => ?_, fun _ => ?_⟩
    · split at own
      · exact ⟨(stored row own).1, row, own, le_rfl⟩
      · cases own
    · split
      · exact Or.inl rfl
      · rename_i all
        obtain ⟨-, zero⟩ | ⟨-, started, since⟩ := fits.asked pull asked
        · -- A full pull leaves out only what there is not.
          cases served : server with
          | none => exact Or.inl rfl
          | some row => exact absurd (stored row served).2 (by omega)
        · exact Or.inr ((fits.cursor started).2 (by omega))
  posted := fits.posted

theorem pullLands_eq (device : Device) (full : Bool) (incoming : Option ReadMarkerRow)
    (revision : Nat) (now : Int)
    (writeID : String) :
    device.pullLands full incoming revision now writeID =
      ({ device with
          held := (mergeIncoming device.held incoming now writeID).1
          queued :=
            device.queued && !retires (mergeIncoming device.held incoming now writeID).1 incoming ||
            full && lacks (mergeIncoming device.held incoming now writeID).1 incoming ||
            (mergeIncoming device.held incoming now writeID).2.isSome
          catchUp := device.catchUp && !full
          cursor := revision
          pull := none },
        (mergeIncoming device.held incoming now writeID).2) :=
  rfl

theorem pullLands_held {full : Bool} {incoming repaired : Option ReadMarkerRow} {revision : Nat}
    {now : Int}
    {writeID : String} {landed : Device}
    (lands : device.pullLands full incoming revision now writeID = (landed, repaired)) :
    mergeIncoming device.held incoming now writeID = (landed.held, repaired) := by
  rw [pullLands_eq] at lands
  cases lands
  rfl

/-- A row that stays held through a pull is queued, or the server has it. -/
theorem Device.Fits.stays (fits : device.Fits server serverRev rev issued) {own : ReadMarkerRow}
    (held : device.held = some own) (full : Bool) {incoming : Option ReadMarkerRow}
    (beneath : ∀ row, incoming = some row → Beneath row server) :
    (device.queued && !retires (some own) incoming || full && lacks (some own) incoming) = true ∨
      (device.catchUp && !full) = true ∨ Beneath own server := by
  by_cases given : ∃ row, incoming = some row ∧ own.version ≤ row.version
  · obtain ⟨row, pulled, below⟩ := given
    obtain ⟨stored, served, above⟩ := beneath row pulled
    exact Or.inr (Or.inr ⟨stored, served, below.trans above⟩)
  · have flags : retires (some own) incoming = false ∧ lacks (some own) incoming = true := by
      cases incoming with
      | none => exact ⟨rfl, rfl⟩
      | some row =>
        have above : row.version < own.version := not_le.mp fun below => given ⟨row, rfl, below⟩
        simp [retires, lacks, compare_nonneg, compare_pos, above]
    rw [flags.1, flags.2]
    cases full with
    | true => exact Or.inl (by simp)
    | false =>
      obtain queued | catchUp | beneath := fits.covered own held
      · exact Or.inl (by simp [queued])
      · exact Or.inr (Or.inl (by simp [catchUp]))
      · exact Or.inr (Or.inr beneath)

theorem Device.Fits.pulled (fits : device.Fits server serverRev rev issued) {pull : MarkerPull}
    {incoming : Option ReadMarkerRow} {revision : Nat} (asked : device.pull = some pull)
    (answered : pull.answer = some (incoming, revision)) {row : ReadMarkerRow}
    (merges : device.held = some row ∨ incoming = some row) : row ∈ issued := by
  cases merges with
  | inl held => exact fits.known row held
  | inr pulled => exact ((fits.answered pull incoming revision asked answered).2.1 row pulled).1

theorem Device.Fits.pullLands (fits : device.Fits server serverRev rev issued) {pull : MarkerPull}
    {incoming : Option ReadMarkerRow} {revision : Nat} (asked : device.pull = some pull)
    (answered : pull.answer = some (incoming, revision))
    (least : ∀ row ∈ issued, weakUpdated ≤ row.updated)
    (now : Int) (writeID : String) {issued' : List ReadMarkerRow}
    (grown : ∀ row ∈ issued, row ∈ issued')
    (repaired : ∀ row, (device.pullLands pull.full incoming revision now writeID).2 = some row →
    row ∈ issued') :
    (device.pullLands pull.full incoming revision now writeID).1.Fits server serverRev rev
    issued' := by
  obtain ⟨below, rows, seen⟩ := fits.answered pull incoming revision asked answered
  have dominates := mergeIncoming_dominates now writeID fun row merges =>
    least row (fits.pulled asked answered merges)
  have step := mergeIncoming_spec device.held incoming now writeID
  rw [pullLands_eq] at repaired ⊢
  generalize mergeIncoming device.held incoming now writeID = answer at dominates step repaired ⊢
  refine ⟨?_, ?_, ?_, fun _ absent => (nomatch absent), fun _ _ _ absent => (nomatch absent), ?_⟩
  · intro row own
    cases step with
    | nothing => exact grown row (fits.known row own)
    | kept before =>
      cases own
      exact grown _ (fits.known _ before)
    | taken pulled =>
      cases own
      exact grown _ (rows _ pulled).1
    | repaired => exact repaired row own
  · intro row own
    cases step with
    | nothing none =>
      obtain queued | rest := fits.stays own pull.full fun row pulled => (rows row pulled).2
      · have own : device.held = some row := own
        exact Or.inl (by simpa [own] using queued)
      · exact Or.inr rest
    | kept before pulled =>
      cases own
      obtain queued | rest := fits.stays before pull.full fun row pulled => (rows row pulled).2
      · exact Or.inl (by simpa using queued)
      · exact Or.inr rest
    | taken pulled =>
      cases own
      exact Or.inr (Or.inr (rows _ pulled).2)
    | repaired => exact Or.inl (by simp)
  · intro _
    refine ⟨below, fun current => ?_⟩
    obtain whole | above := seen current
    · rw [← whole]
      exact dominates.2
    · exact above.raise dominates.1
  · intro row taken sent
    exact ⟨grown row (fits.posted row taken sent).1, (fits.posted row taken sent).2⟩

theorem Device.send_cases (device : Device) :
    device.send = device ∨ device.held = none ∧ device.send = { device with queued := false } ∨
      ∃ row, device.held = some row ∧ device.send = { device with post := some (row, false) } := by
  cases queued : device.queued with
  | false => exact Or.inl (by simp [Device.send, queued])
  | true =>
    cases held : device.held with
    | none => exact Or.inr (Or.inl ⟨rfl, by simp [Device.send, queued, held]⟩)
    | some row => exact Or.inr (Or.inr ⟨row, rfl, by simp [Device.send, queued, held]⟩)

theorem Device.Fits.send (fits : device.Fits server serverRev rev issued) :
    device.send.Fits server serverRev rev issued := by
  obtain same | ⟨held, same⟩ | ⟨row, held, same⟩ := device.send_cases
  · rw [same]
    exact fits
  · rw [same]
    refine ⟨fits.known, fun row own => ?_, fits.cursor, fits.asked, fits.answered, fits.posted⟩
    cases held.symm.trans own
  · rw [same]
    refine ⟨fits.known, fits.covered, fits.cursor, fits.asked, fits.answered, ?_⟩
    rintro _ taken ⟨⟩
    exact ⟨fits.known row held, fun given => nomatch given⟩

theorem Device.Fits.postFails (fits : device.Fits server serverRev rev issued) :
    ({ device with post := none } : Device).Fits server serverRev rev issued :=
  ⟨fits.known, fits.covered, fits.cursor, fits.asked, fits.answered, fun _ _ absent =>
    nomatch absent⟩

theorem Device.Fits.postTaken (fits : device.Fits server serverRev rev issued) {row : ReadMarkerRow}
    (inside : row ∈ issued) (given : Beneath row server) :
    ({ device with post := some (row, true) } : Device).Fits server serverRev rev issued := by
  refine ⟨fits.known, fits.covered, fits.cursor, fits.asked, fits.answered, ?_⟩
  rintro _ taken ⟨⟩
  exact ⟨inside, fun _ => given⟩

theorem Device.Fits.postLands (fits : device.Fits server serverRev rev issued) {row : ReadMarkerRow}
    (sent : device.post = some (row, true)) :
    (device.postLands row).Fits server serverRev rev issued where
  known := fits.known
  covered own held := by
    obtain queued | catchUp | beneath := fits.covered own held
    · cases newer : decide (0 < own.compare row) with
      | true =>
        refine Or.inl ?_
        have held : device.held = some own := held
        simpa [Device.postLands, queued, held] using newer
      | false =>
        -- What was posted has what is held, and the server has what was posted.
        obtain ⟨stored, served, below⟩ := (fits.posted row true sent).2 rfl
        have under : own.version ≤ row.version :=
          (compare_nonpos _ _).mp (not_lt.mp (of_decide_eq_false newer))
        exact Or.inr (Or.inr ⟨stored, served, under.trans below⟩)
    · exact Or.inr (Or.inl catchUp)
    · exact Or.inr (Or.inr beneath)
  cursor := fits.cursor
  asked := fits.asked
  answered := fits.answered
  posted := fun _ _ absent => nomatch absent

end

/-! ## Every step keeps it -/

structure MarkerWorld.Coherent {ι : Type} (world : MarkerWorld ι) : Prop where
  fits : ∀ i, (world.devices i).Fits world.server world.serverRev world.rev world.issued
  stored : ∀ row, world.server = some row → row ∈ world.issued ∧ 0 < world.serverRev
  rev : world.serverRev ≤ world.rev
  lost : ∀ row ∈ world.lost, row ∈ world.issued
  least : ∀ row ∈ world.issued, weakUpdated ≤ row.updated
  versions : ∀ row ∈ world.issued, ∀ other ∈ world.issued, row.version = other.version → row = other

section

variable {ι : Type} {world : MarkerWorld ι}

/-- A row with a write id of its own joins the rows so far. -/
theorem MarkerWorld.Coherent.distinct (coherent : world.Coherent) {row : ReadMarkerRow}
    (fresh : world.fresh row.writeID) :
    ∀ one ∈ world.issued ++ [row], ∀ other ∈ world.issued ++ [row], one.version = other.version →
      one = other := by
  have apart : ∀ old ∈ world.issued, old.version ≠ row.version := by
    intro old inside same
    have parts : (old.updated, old.writeID) = (row.updated, row.writeID) := toLex_inj.mp same
    exact fresh old inside (congrArg Prod.snd parts)
  intro one inside other inside' same
  simp only [List.mem_append, List.mem_singleton] at inside inside'
  cases inside with
  | inl old =>
    cases inside' with
    | inl old' => exact coherent.versions one old other old' same
    | inr new =>
      subst new
      exact absurd same (apart one old)
  | inr new =>
    subst new
    cases inside' with
    | inl old' => exact absurd same.symm (apart other old')
    | inr new' => exact new'.symm

theorem MarkerWorld.Coherent.ahead_issue (row : ReadMarkerRow) :
    Ahead world.server world.server world.serverRev world.serverRev world.rev world.rev world.issued
      (world.issued ++ [row]) :=
  ⟨fun _ inside => List.mem_append_left _ inside, fun _ beneath => beneath, le_rfl,
    Or.inl ⟨rfl, rfl⟩⟩

theorem MarkerWorld.Coherent.take (coherent : world.Coherent) {row : ReadMarkerRow}
    (inside : row ∈ world.issued) :
    (world.take row).Coherent ∧ Beneath row (world.take row).server := by
  by_cases newer : world.server.all fun held => 0 < row.compare held
  · rw [MarkerWorld.take, if_pos newer]
    have raised : ∀ old, Beneath old world.server → Beneath old (some row) := by
      rintro old ⟨stored, served, below⟩
      refine ⟨row, rfl, below.trans ?_⟩
      simpa [served, compare_pos] using le_of_lt
        ((compare_pos row stored).mp (by simpa [served] using newer))
    have ahead : Ahead world.server (some row) world.serverRev (world.rev + 1) world.rev
      (world.rev + 1) world.issued
        world.issued :=
      ⟨fun _ old => old, raised, Nat.le_succ _, Or.inr (Nat.lt_succ_self _)⟩
    refine ⟨⟨fun j => (coherent.fits j).ahead ahead, ?_, le_rfl, coherent.lost, coherent.least,
      coherent.versions⟩,
      row, rfl, le_rfl⟩
    rintro _ ⟨⟩
    exact ⟨inside, Nat.succ_pos _⟩
  · rw [MarkerWorld.take, if_neg newer]
    refine ⟨coherent, ?_⟩
    cases served : world.server with
    | none => simp [served] at newer
    | some stored =>
      refine ⟨stored, rfl, ?_⟩
      simpa [served, compare_pos] using newer

/-- At rest every device holds the server's row. -/
theorem MarkerWorld.Coherent.quiet {world : MarkerWorld ι} (coherent : world.Coherent)
    (quiet : world.Quiet) (i : ι) :
    (world.devices i).held = world.server := by
  obtain ⟨-, started, cursor⟩ := quiet.pulled i
  have dominates := ((coherent.fits i).cursor started).2 (cursor ▸ coherent.rev)
  have covered : ∀ row, (world.devices i).held = some row → Beneath row world.server := by
    intro row held
    have given := (coherent.fits i).covered row held
    simpa [(quiet.sent i).2, started] using given
  cases served : world.server with
  | none =>
    cases held : (world.devices i).held with
    | none => rfl
    | some row =>
      obtain ⟨stored, absent, -⟩ := covered row held
      cases served.symm.trans absent
  | some stored =>
    obtain ⟨own, held, above⟩ := dominates stored served
    obtain ⟨other, same, below⟩ := covered own held
    cases served.symm.trans same
    rw [held]
    congr 1
    have least := coherent.least stored (coherent.stored stored served).1
    have known := (coherent.fits i).known own held
    -- A weak row and a real one cannot be above each other in both orders.
    have alike : stored.updated = weakUpdated ↔ own.updated = weakUpdated := by
      constructor
      · intro weak
        have parts := (Prod.Lex.toLex_le_toLex.mp below).imp_right And.left
        have known := coherent.least own known
        omega
      · intro weak
        by_contra real
        exact absurd above (not_le.mpr (rank_le_of_weak weak real))
    exact coherent.versions own known stored (coherent.stored stored served).1
      (le_antisymm below ((rank_le_of_version alike).mp above))

@[simp] theorem take_devices (world : MarkerWorld ι) (row : ReadMarkerRow) :
    (world.take row).devices = world.devices := by
  rw [MarkerWorld.take]
  split <;> rfl

@[simp] theorem take_issued (world : MarkerWorld ι) (row : ReadMarkerRow) :
    (world.take row).issued = world.issued := by
  rw [MarkerWorld.take]
  split <;> rfl

variable [DecidableEq ι]

theorem take_put (world : MarkerWorld ι) (i : ι) (device : Device) (row : ReadMarkerRow) :
    (world.put i device).take row = (world.take row).put i device := by
  by_cases newer : world.server.all fun held => 0 < row.compare held
  · simp [MarkerWorld.take, MarkerWorld.put, newer]
  · simp [MarkerWorld.take, MarkerWorld.put, newer]

/-- One device moves on, the rest see nothing of it. -/
theorem MarkerWorld.Coherent.put (coherent : world.Coherent) {i : ι} {device : Device}
    (fits : device.Fits world.server world.serverRev world.rev world.issued) :
    (world.put i device).Coherent where
  fits j := by
    by_cases same : j = i
    · subst same
      simpa [MarkerWorld.put] using fits
    · simpa [MarkerWorld.put, same] using coherent.fits j
  stored := coherent.stored
  rev := coherent.rev
  lost := coherent.lost
  least := coherent.least
  versions := coherent.versions

theorem MarkerWorld.Coherent.issue (coherent : world.Coherent) {i : ι} {device : Device}
    {row : ReadMarkerRow}
    (fresh : world.fresh row.writeID) (least : weakUpdated ≤ row.updated)
    (fits : device.Fits world.server world.serverRev world.rev (world.issued ++ [row])) :
    ({ world.put i device with issued := world.issued ++ [row] } : MarkerWorld ι).Coherent where
  fits j := by
    by_cases same : j = i
    · subst same
      simpa [MarkerWorld.put] using fits
    · simpa [MarkerWorld.put, same] using (coherent.fits j).ahead (MarkerWorld.Coherent.ahead_issue row)
  stored old served := ⟨List.mem_append_left _ (coherent.stored old served).1, (coherent.stored old served).2⟩
  rev := coherent.rev
  lost old inside := List.mem_append_left _ (coherent.lost old inside)
  least old inside := by
    obtain inside | new := List.mem_append.mp inside
    · exact coherent.least old inside
    · rw [List.mem_singleton.mp new]
      exact least
  versions := coherent.distinct fresh

theorem MarkerWorld.Coherent.initial {key : String} {world : MarkerWorld ι}
    (start : (markerSystem ι key weakUpdated).initial world) : world.Coherent := by
  obtain ⟨starts, least⟩ := start
  refine ⟨fun i => ?_, ?_, starts.rev, ?_, least, starts.versions⟩
  · obtain ⟨catchUp, pull, post⟩ := starts.devices i
    refine ⟨fun row held => (starts.issued row).mpr (Or.inr ⟨i, held⟩), fun _ _ => Or.inr (Or.inl catchUp), ?_, ?_, ?_, ?_⟩
    · simp [catchUp]
    · simp [pull]
    · simp [pull]
    · simp [post]
  · intro row served
    exact ⟨(starts.issued row).mpr (Or.inl served), starts.served (by simp [served])⟩
  · simp [starts.lost]

theorem MarkerWorld.Coherent.step {key : String} {world world' : MarkerWorld ι} {event : MarkerEvent ι}
    (coherent : world.Coherent) (moved : world.Moves key event world') : world'.Coherent := by
  cases moved with
  | write i marker weak now fresh written =>
    rename_i row
    obtain ⟨own, above, first⟩ := applyMarker_spec written
    have least : weakUpdated ≤ row.updated := by
      cases held : (world.devices i).held with
      | none => exact first held
      | some old => exact (coherent.least old ((coherent.fits i).known old held)).trans (above old held).le
    have raised : Dominates (some row) (world.devices i).held := fun old held =>
      ⟨row, rfl, (rank_lt_of_updated (coherent.least old ((coherent.fits i).known old held))
        (above old held)).le⟩
    refine coherent.issue (own ▸ fresh) least ?_
    exact ((coherent.fits i).ahead (ahead_issue row)).write (by simp) raised
  | requeue i => exact coherent.put (coherent.fits i).requeue
  | askPull i => exact coherent.put (coherent.fits i).askPull
  | pullServed i asked => exact coherent.put ((coherent.fits i).pullServed asked coherent.stored)
  | pullFails i => exact coherent.put (coherent.fits i).pullFails
  | pullLands i asked answered now writeID lands =>
    apply coherent.put
    have fits :=
      (coherent.fits i).pullLands asked answered coherent.least now writeID (fun _ old => old)
      (by simp [lands])
    rwa [lands] at fits
  | repair i asked answered now fresh lands =>
    rename_i pull incoming revision writeID landed row
    obtain ⟨winner, loser, sides, above, -, rfl, -⟩ :=
      mergeIncoming_repair (congrArg Prod.snd (pullLands_held lands))
    have inside : winner ∈ world.issued := by
      obtain ⟨-, own⟩ | ⟨own, -⟩ := sides
      · exact (coherent.fits i).pulled asked answered (Or.inr own)
      · exact (coherent.fits i).pulled asked answered (Or.inl own)
    refine coherent.issue fresh ((coherent.least winner inside).trans
      (repairRow_above _ now writeID).le) ?_
    have fits := (coherent.fits i).pullLands asked answered coherent.least now writeID
      (fun _ old => List.mem_append_left [_] old) (by
        intro row own
        rw [lands] at own
        cases own
        exact List.mem_append_right _ (List.mem_singleton_self _))
    rwa [lands] at fits
  | send i => exact coherent.put (coherent.fits i).send
  | postServed i sent =>
    rename_i row taken
    have inside := ((coherent.fits i).posted row taken sent).1
    obtain ⟨after, given⟩ := coherent.take inside
    rw [take_put]
    have fits := after.fits i
    rw [take_devices] at fits
    refine after.put (fits.postTaken ?_ given)
    rwa [take_issued]
  | postLands i taken => exact coherent.put ((coherent.fits i).postLands taken)
  | postFails i sent =>
    rename_i row taken
    have after := coherent.put (i := i) (coherent.fits i).postFails
    refine ⟨after.fits, after.stored, after.rev, fun old inside => ?_, after.least, after.versions⟩
    obtain inside | new := List.mem_append.mp inside
    · exact coherent.lost old inside
    · rw [List.mem_singleton.mp new]
      exact ((coherent.fits i).posted row taken sent).1
  | lostServed given => exact (coherent.take (coherent.lost _ given)).1
  | other =>
    have ahead : Ahead world.server world.server world.serverRev world.serverRev world.rev
      (world.rev + 1) world.issued
        world.issued :=
      ⟨fun _ old => old, fun _ beneath => beneath, Nat.le_succ _, Or.inl ⟨rfl, rfl⟩⟩
    exact ⟨fun j => (coherent.fits j).ahead ahead, coherent.stored,
      coherent.rev.trans (Nat.le_succ _), coherent.lost,
      coherent.least, coherent.versions⟩

theorem coherent (ι : Type) [DecidableEq ι] (key : String) :
    (markerSystem ι key weakUpdated).Invariant MarkerWorld.Coherent where
  initial _ start := .initial start
  step _ _ _ coherent moved := coherent.step moved

end

end AiConfig.Herder
