import AiConfig.Herder.Web.NoEditLost

/-! # Read markers

Transcription of `readMarkerModel.ts` and of `native/src/store/markers.rs`: what the owner
has read of one agent, and how a row that was pulled merges into the row held.  Versions
and times are whole numbers. -/

namespace AiConfig.Herder

/-- The last transcript entry the owner has read. -/
structure ReadPosition where
  session : String
  offset : Nat
  ts : String
  deriving DecidableEq

structure ReadMarker where
  /-- The newest turn end read. -/
  turn : Nat
  pos : Option ReadPosition
  /-- `at`, in ms, 0 for never. -/
  readAt : Nat
  /-- A deliberate mark unread. -/
  unread : Bool
  deriving DecidableEq

abbrev ReadMarkerRow := Row ReadMarker

def weakUpdated : Int := 1

def baselineMarker (turn : Nat) : ReadMarker := ⟨turn, none, 0, false⟩

/-- Positive when `right` is further than `left`. -/
def comparePositions (left : Option ReadPosition) (leftAt : Nat) (right : Option ReadPosition)
    (rightAt : Nat) : Int :=
  match left, right with
  | some left, some right =>
    if left.session = right.session then (right.offset : Int) - left.offset
    else (rightAt : Int) - leftAt
  | left, right => (if right.isSome then 1 else 0) - (if left.isSome then 1 else 0)

def samePosition (left right : Option ReadPosition) : Bool :=
  match left, right with
  | some left, some right =>
    left.session = right.session && left.offset = right.offset && left.ts = right.ts
  | none, none => true
  | _, _ => false

def sameMarker (left : Option ReadMarker) (right : ReadMarker) : Bool :=
  left.any fun left =>
    left.turn = right.turn && samePosition left.pos right.pos && left.readAt = right.readAt &&
      left.unread = right.unread

/-- The marker of a merge that `winner` won. -/
def mergedMarker (winner loser : ReadMarker) : ReadMarker :=
  { winner with
    turn := max winner.turn loser.turn
    pos :=
      if 0 < comparePositions winner.pos winner.readAt loser.pos loser.readAt then loser.pos
      else winner.pos
    readAt := max winner.readAt loser.readAt }

/-- What a merge that `winner` won leaves, and whether it is ahead of the winning row. -/
def mergeOnto (winner loser : ReadMarkerRow) : ReadMarkerRow × Bool :=
  if winner.deleted || winner.value.unread || loser.deleted then (winner, false)
  else
    let merged := { winner with value := mergedMarker winner.value loser.value }
    if sameMarker (some winner.value) merged.value then (winner, false) else (merged, true)

/-- A weak row takes no part against a real one; else the newer version wins. -/
def mergeMarkerRow (current : Option ReadMarkerRow) (incoming : ReadMarkerRow) :
    ReadMarkerRow × Bool :=
  match current with
  | none => (incoming, false)
  | some current =>
    if (current.updated = weakUpdated) ≠ (incoming.updated = weakUpdated) then
      (if current.updated = weakUpdated then incoming else current, false)
    else if 0 < incoming.compare current then mergeOnto incoming current
    else mergeOnto current incoming

/-! ## The native client's merge -/

namespace Native

/-- Whether `right` reads further than `left`. -/
def ahead (left : Option ReadPosition) (leftAt : Nat) (right : Option ReadPosition)
    (rightAt : Nat) : Bool :=
  match left, right with
  | some l, some r => if l.session = r.session then l.offset < r.offset else leftAt < rightAt
  | l, r => r.isSome && l.isNone

/-- A live row's marker. -/
def parse (row : ReadMarkerRow) : Option ReadMarker := if row.deleted then none else some row.value

def mergeOnto (winner loser : ReadMarkerRow) : ReadMarkerRow × Bool :=
  match parse winner, parse loser with
  | some w, some l =>
    if w.unread then (winner, false)
    else
      let further := ahead w.pos w.readAt l.pos l.readAt
      let merged : ReadMarker :=
        ⟨max w.turn l.turn, if further then l.pos else w.pos, max w.readAt l.readAt, false⟩
      if merged = w then (winner, false) else ({ winner with value := merged }, true)
  | _, _ => (winner, false)

/-- `none` for a row that is refused. -/
def merge (current : Option ReadMarkerRow) (incoming : ReadMarkerRow) :
    Option (ReadMarkerRow × Bool) :=
  if !incoming.deleted && (parse incoming).isNone then none
  else
    match current with
    | none => some (incoming, false)
    | some current =>
      -- A weak row yields to any other, whatever its id.
      if (current.updated = weakUpdated) ≠ (incoming.updated = weakUpdated) then
        some (if current.updated = weakUpdated then incoming else current, false)
      else if current.version < incoming.version then some (mergeOnto incoming current)
      else some (mergeOnto current incoming)

end Native

theorem samePosition_iff {left right : Option ReadPosition} : samePosition left right = true ↔
    left = right := by
  cases left with
  | none => cases right <;> simp [samePosition]
  | some left =>
    cases right with
    | none => simp [samePosition]
    | some right =>
      cases left
      cases right
      simp [samePosition, and_assoc]

theorem sameMarker_iff {left right : ReadMarker} : sameMarker (some left) right = true ↔
    left = right := by
  cases left
  cases right
  simp [sameMarker, samePosition_iff, and_assoc]

theorem ahead_iff {left right : Option ReadPosition} {leftAt rightAt : Nat} :
    Native.ahead left leftAt right rightAt = true ↔
      0 < comparePositions left leftAt right rightAt := by
  cases left with
  | none => cases right <;> simp [Native.ahead, comparePositions]
  | some left =>
    cases right with
    | none => simp [Native.ahead, comparePositions]
    | some right =>
      simp only [Native.ahead, comparePositions]
      split <;> simp

/-! ## What a merge gives -/

/-- Real rows come above weak ones, then the version decides. -/
def rank (row : ReadMarkerRow) : Bool ×ₗ (Int ×ₗ String) :=
  toLex (decide (row.updated ≠ weakUpdated), row.version)

theorem rank_le_of_version {row other : ReadMarkerRow}
    (alike : row.updated = weakUpdated ↔ other.updated = weakUpdated) :
    rank row ≤ rank other ↔ row.version ≤ other.version := by
  simp [rank, Prod.Lex.toLex_le_toLex, alike]

theorem rank_le_of_weak {row other : ReadMarkerRow} (weak : row.updated = weakUpdated)
    (real : other.updated ≠ weakUpdated) : rank row < rank other := by
  simp [rank, Prod.Lex.toLex_lt_toLex, weak, real]

inductive Merged (current : Option ReadMarkerRow) (incoming : ReadMarkerRow) :
    ReadMarkerRow × Bool → Prop where
  | first (empty : current = none) : Merged current incoming (incoming, false)
  | kept {held : ReadMarkerRow} (before : current = some held) (above : rank incoming ≤ rank held) :
      Merged current incoming (held, false)
  | taken {held : ReadMarkerRow} (before : current = some held)
      (above : rank held < rank incoming) :
      Merged current incoming (incoming, false)
  | ahead {held winner loser : ReadMarkerRow} (before : current = some held)
      (sides : winner = incoming ∧ loser = held ∨ winner = held ∧ loser = incoming)
      (above : rank loser ≤ rank winner)
        (differs : mergedMarker winner.value loser.value ≠ winner.value) :
      Merged current incoming ({ winner with value := mergedMarker winner.value loser.value }, true)

theorem mergeOnto_cases (winner loser : ReadMarkerRow) :
    mergeOnto winner loser = (winner, false) ∨
      mergedMarker winner.value loser.value ≠ winner.value ∧
        mergeOnto winner loser = ({ winner with value := mergedMarker winner.value loser.value },
          true) := by
  rw [mergeOnto]
  by_cases stands : (winner.deleted || winner.value.unread || loser.deleted) = true
  · exact Or.inl (if_pos stands)
  · rw [if_neg stands]
    by_cases same : mergedMarker winner.value loser.value = winner.value
    · exact Or.inl (if_pos (sameMarker_iff.mpr same.symm))
    · exact Or.inr ⟨same, if_neg fun alike => same (sameMarker_iff.mp alike).symm⟩

theorem merged (current : Option ReadMarkerRow) (incoming : ReadMarkerRow) :
    Merged current incoming (mergeMarkerRow current incoming) := by
  cases current with
  | none => exact .first rfl
  | some held =>
    rw [mergeMarkerRow]
    by_cases alike : held.updated = weakUpdated ↔ incoming.updated = weakUpdated
    · rw [if_neg (not_not.mpr (propext alike))]
      by_cases wins : 0 < incoming.compare held
      · have above : rank held < rank incoming := by
          rw [← not_le, rank_le_of_version alike.symm, not_le]
          exact (compare_pos _ _).mp wins
        rw [if_pos wins]
        obtain whole | ⟨differs, whole⟩ := mergeOnto_cases incoming held
        · rw [whole]
          exact .taken rfl above
        · rw [whole]
          exact .ahead rfl (Or.inl ⟨rfl, rfl⟩) above.le differs
      · have above : rank incoming ≤ rank held := by
          rw [rank_le_of_version alike.symm, ← compare_nonpos]
          exact not_lt.mp wins
        rw [if_neg wins]
        obtain whole | ⟨differs, whole⟩ := mergeOnto_cases held incoming
        · rw [whole]
          exact .kept rfl above
        · rw [whole]
          exact .ahead rfl (Or.inr ⟨rfl, rfl⟩) above differs
    · -- Exactly one of the two is weak.
      rw [if_pos (fun same => alike (iff_of_eq same))]
      by_cases weak : held.updated = weakUpdated
      · rw [if_pos weak]
        exact .taken rfl (rank_le_of_weak weak fun other => alike (iff_of_true weak other))
      · rw [if_neg weak]
        have other : incoming.updated = weakUpdated := by
          by_contra real
          exact alike (iff_of_false weak real)
        exact .kept rfl (rank_le_of_weak other weak).le

/-- Reading does not go back from `old` to `new`. -/
structure Forward (old new : ReadMarker) : Prop where
  turn : old.turn ≤ new.turn
  readAt : old.readAt ≤ new.readAt
  pos : ∀ before, old.pos = some before →
    ∃ after, new.pos = some after ∧ (before.session = after.session → before.offset ≤ after.offset)

theorem Forward.refl (marker : ReadMarker) : Forward marker marker where
  turn := le_rfl
  readAt := le_rfl
  pos := fun before stored => ⟨before, stored, fun _ => le_rfl⟩

theorem mergedMarker_winner (winner loser : ReadMarker) :
    Forward winner (mergedMarker winner loser) where
  turn := le_max_left _ _
  readAt := le_max_left _ _
  pos := by
    intro before stored
    simp only [mergedMarker]
    split
    · rename_i further
      -- The loser's position is taken only when it is further on, so there is one.
      cases taken : loser.pos with
      | none => simp [comparePositions, stored, taken] at further
      | some after =>
        refine ⟨after, rfl, fun same => ?_⟩
        simp only [comparePositions, stored, taken, same, if_true] at further
        omega
    · exact ⟨before, stored, fun _ => le_rfl⟩

theorem mergedMarker_loser (winner loser : ReadMarker) :
    Forward loser (mergedMarker winner loser) where
  turn := le_max_right _ _
  readAt := le_max_right _ _
  pos := by
    intro before stored
    simp only [mergedMarker]
    split
    · exact ⟨before, stored, fun _ => le_rfl⟩
    · rename_i further
      cases kept : winner.pos with
      | none => simp [comparePositions, stored, kept] at further
      | some after =>
        refine ⟨after, rfl, fun same => ?_⟩
        simp only [comparePositions, stored, kept, same, if_true] at further
        omega

theorem mergeOnto_forward {winner loser : ReadMarkerRow} (live : winner.deleted = false)
    (kept : loser.deleted = false)
    (read : winner.value.unread = false) :
    Forward loser.value (mergeOnto winner loser).1.value := by
  have forward := mergedMarker_loser winner.value loser.value
  rw [mergeOnto, if_neg (by simp [live, kept, read])]
  by_cases same : mergedMarker winner.value loser.value = winner.value
  · rw [same] at forward
    simpa [sameMarker_iff, same] using forward
  · have flag : sameMarker (some winner.value) (mergedMarker winner.value loser.value) = false := by
      rw [Bool.eq_false_iff, Ne, sameMarker_iff]
      exact fun alike => same alike.symm
    simpa [flag] using forward

theorem mergeOnto_keeps (winner loser : ReadMarkerRow) :
    Forward winner.value (mergeOnto winner loser).1.value := by
  obtain whole | ⟨-, whole⟩ := mergeOnto_cases winner loser
  · rw [whole]
    exact Forward.refl _
  · rw [whole]
    exact mergedMarker_winner _ _

/-- Reading goes back in a merge of live rows only for a newer mark unread or where one
of the rows is weak. -/
theorem mergeMarkerRow_forward {current incoming : ReadMarkerRow} (live : current.deleted = false)
    (other : incoming.deleted = false)
    (read : ¬ (current.version < incoming.version ∧ incoming.value.unread = true))
    (alike : current.updated = weakUpdated ↔ incoming.updated = weakUpdated) :
    Forward current.value (mergeMarkerRow (some current) incoming).1.value := by
  rw [mergeMarkerRow, if_neg (not_not.mpr (propext alike))]
  by_cases wins : 0 < incoming.compare current
  · rw [if_pos wins]
    apply mergeOnto_forward other live
    rw [Bool.eq_false_iff]
    exact fun unread => read ⟨(compare_pos _ _).mp wins, unread⟩
  · rw [if_neg wins]
    exact mergeOnto_keeps current incoming

theorem mergeOnto_eq (winner loser : ReadMarkerRow) :
    Native.mergeOnto winner loser = mergeOnto winner loser := by
  cases gone : winner.deleted with
  | true => simp [Native.mergeOnto, mergeOnto, Native.parse, gone]
  | false =>
    cases lost : loser.deleted with
    | true => simp [Native.mergeOnto, mergeOnto, Native.parse, gone, lost]
    | false =>
      cases unread : winner.value.unread with
      | true => simp [Native.mergeOnto, mergeOnto, Native.parse, gone, lost, unread]
      | false =>
        have same : mergedMarker winner.value loser.value =
            ⟨max winner.value.turn loser.value.turn,
              if Native.ahead winner.value.pos winner.value.readAt loser.value.pos
                loser.value.readAt
                then loser.value.pos else winner.value.pos,
              max winner.value.readAt loser.value.readAt, false⟩ := by
          simp [mergedMarker, ahead_iff, unread]
        have flag : sameMarker (some winner.value) (mergedMarker winner.value loser.value) = true ↔
            mergedMarker winner.value loser.value = winner.value := by
          rw [sameMarker_iff, eq_comm]
        rw [mergeOnto, if_neg (by simp [gone, lost, unread])]
        simp only [flag]
        simp [Native.mergeOnto, Native.parse, gone, lost, unread, ← same]

end AiConfig.Herder
