import AiConfig.Herder.Markers.Rows

/-! # Reading markers and reading on from them

`readThrough` of `readPositionModel.ts` and `read_through` of `markers.rs`, and on which
values and clocks the two clients differ. -/

namespace AiConfig.Herder.MarkerRows

open AiConfig.Lib

/-- A marker whose time is any clock's. -/
structure Reading where
  turn : Nat
  pos : Option ReadPosition
  readAt : Int
  unread : Bool
  deriving DecidableEq

/-- `comparePositions`, at any times. -/
def comparePositionsAt (left : Option ReadPosition) (leftAt : Int) (right : Option ReadPosition)
    (rightAt : Int) : Int :=
  match left, right with
  | some left, some right =>
    if left.session = right.session then (right.offset : Int) - left.offset else rightAt - leftAt
  | left, right => (if right.isSome then 1 else 0) - (if left.isSome then 1 else 0)

/-- `CREEP_MS` in the native client. -/
def positionWriteMs : Int := 5000

def readThrough (marker : Option Reading) (turn : Option Nat) (latest : Option ReadPosition)
    (now : Int) :
    Option Reading :=
  let nextTurn := max ((marker.map (·.turn)).getD 0) (turn.getD 0)
  let current := marker.bind (·.pos)
  let pos :=
    if latest.isSome &&
        decide (0 < comparePositionsAt current ((marker.map (·.readAt)).getD 0) latest now) then
      latest
    else current
  let written : Reading := ⟨nextTurn, pos, now, false⟩
  match marker with
  | none => some written
  | some marker =>
    if !marker.unread && decide (nextTurn = marker.turn) then
      if samePosition pos current then none
      else
        -- A position in the same session is not written more often than `positionWriteMs`.
        match current, pos with
        | some current, some pos =>
          if current.session = pos.session ∧ now - marker.readAt < positionWriteMs then none
          else some written
        | _, _ => some written
    else some written

/-- `ahead` of the native client, at any times. -/
def aheadAt (left : Option ReadPosition) (leftAt : Int) (right : Option ReadPosition)
    (rightAt : Int) : Bool :=
  match left, right with
  | some l, some r => if l.session = r.session then l.offset < r.offset else leftAt < rightAt
  | l, r => r.isSome && l.isNone

/-- `read_through` of the native client. -/
def nativeReadThrough (marker : Option Reading) (turn : Option Nat) (latest : Option ReadPosition)
    (now : Int) :
    Option Reading :=
  let next := max ((marker.map (·.turn)).getD 0) (turn.getD 0)
  let current := marker.bind (·.pos)
  let readAt := (marker.map (·.readAt)).getD 0
  let pos :=
    match latest with
    | some l => if aheadAt current readAt (some l) now then some l else current
    | none => current
  let written : Reading := ⟨next, pos, max now readAt, false⟩
  -- Only a marker that is read and of that turn may stand; in a session it rests for a while.
  match marker.filter fun m => !m.unread && decide (next = m.turn) with
  | none => some written
  | some m =>
    let sameSession : Bool :=
      match current, pos with
      | some c, some p => decide (c.session = p.session)
      | _, _ => false
    if pos = current ∨ (sameSession ∧ now - m.readAt < positionWriteMs) then none else some written

/-! ## Clocks that are behind -/

/-- Nothing of what was read lies behind the marker. -/
structure NotBehind (marker : Option Reading) (read : Reading) : Prop where
  turn : ∀ before, marker = some before → before.turn ≤ read.turn
  pos : ∀ before, marker = some before →
    comparePositionsAt read.pos read.readAt before.pos before.readAt ≤ 0
  readAt : ∀ before, marker = some before → before.readAt ≤ read.readAt

/-- The clock is not behind, or nothing is to be written. -/
def ClockKept (marker : Option Reading) (turn : Option Nat) (latest : Option ReadPosition)
    (now : Int) : Prop :=
  (marker.map (·.readAt)).getD 0 ≤ now ∨
    ∃ before, marker = some before ∧ before.unread = false ∧ turn.getD 0 ≤ before.turn ∧
      (before.pos = none → latest = none)

theorem aheadAt_iff {left right : Option ReadPosition} {leftAt rightAt : Int} :
    aheadAt left leftAt right rightAt = true ↔
      0 < comparePositionsAt left leftAt right rightAt := by
  cases left with
  | none => cases right <;> simp [aheadAt, comparePositionsAt]
  | some left =>
    cases right with
    | none => simp [aheadAt, comparePositionsAt]
    | some right =>
      simp only [aheadAt, comparePositionsAt]
      split <;> simp

/-- The position read to, which both clients choose alike. -/
def reached (marker : Option Reading) (latest : Option ReadPosition) (now : Int) :
    Option ReadPosition :=
  if latest.isSome &&
      decide (0 <
        comparePositionsAt (marker.bind (·.pos)) ((marker.map (·.readAt)).getD 0) latest now)
  then latest else marker.bind (·.pos)

/-- Nothing new, or only a creep inside a turn already read. -/
def Still (before : Reading) (turn : Option Nat) (latest : Option ReadPosition) (now : Int) :
    Prop :=
  before.unread = false ∧ turn.getD 0 ≤ before.turn ∧
    (reached (some before) latest now = before.pos ∨
      (∃ c p, before.pos = some c ∧ reached (some before) latest now = some p ∧
        c.session = p.session) ∧
        now - before.readAt < positionWriteMs)

theorem readThrough_none (turn : Option Nat) (latest : Option ReadPosition) (now : Int) :
    readThrough none turn latest now = some ⟨turn.getD 0, reached none latest now, now, false⟩ := by
  simp [readThrough, reached]

theorem nativeReadThrough_none (turn : Option Nat) (latest : Option ReadPosition) (now : Int) :
    nativeReadThrough none turn latest now =
      some ⟨turn.getD 0, reached none latest now, max now 0, false⟩ := by
  cases latest <;> simp [nativeReadThrough, reached, aheadAt_iff]

theorem readThrough_some (before : Reading) (turn : Option Nat) (latest : Option ReadPosition)
    (now : Int) :
    (Still before turn latest now ∧ readThrough (some before) turn latest now = none) ∨
      ¬ Still before turn latest now ∧ readThrough (some before) turn latest now =
        some ⟨max before.turn (turn.getD 0), reached (some before) latest now, now, false⟩ := by
  have place : reached (some before) latest now = if latest.isSome &&
    decide (0 < comparePositionsAt before.pos before.readAt latest now)
      then latest else before.pos := rfl
  simp only [readThrough, Still, Option.map_some, Option.getD_some, Option.bind_some, ← place]
  generalize reached (some before) latest now = pos
  cases unread : before.unread with
  | true => simp
  | false =>
    by_cases later : turn.getD 0 ≤ before.turn
    · cases current : before.pos with
      | none => cases pos <;> simp [later, samePosition]
      | some c =>
        cases pos with
        | none => simp [later, samePosition]
        | some p =>
          have same := @samePosition_iff (some p) (some c)
          by_cases equal : some p = some c
          · have alike := same.mpr equal
            obtain rfl := Option.some.inj equal
            simp [later, alike]
          · have differs : samePosition (some p) (some c) = false := by
              rw [Bool.eq_false_iff]
              exact fun alike => equal (same.mp alike)
            by_cases creeps : c.session = p.session ∧ now - before.readAt < positionWriteMs
            · simp [later, differs, creeps]
            · refine Or.inr ⟨?_, ?_⟩
              · simpa [later, equal] using fun session early => creeps ⟨session, early⟩
              · simp [later, differs, creeps]
    · have newer : max before.turn (turn.getD 0) ≠ before.turn := by omega
      simp [later, newer]

theorem nativeReadThrough_some (before : Reading) (turn : Option Nat) (latest : Option ReadPosition)
    (now : Int) :
    (Still before turn latest now ∧ nativeReadThrough (some before) turn latest now = none) ∨
      ¬ Still before turn latest now ∧ nativeReadThrough (some before) turn latest now =
        some ⟨max before.turn (turn.getD 0), reached (some before) latest now,
          max now before.readAt, false⟩ := by
  have place : (match latest with
      | some l => if aheadAt before.pos before.readAt (some l) now then some l else before.pos
      | none => before.pos) = reached (some before) latest now := by
    cases latest <;> simp [reached, aheadAt_iff]
  simp only [nativeReadThrough, Still, Option.map_some, Option.getD_some, Option.bind_some, place]
  generalize reached (some before) latest now = pos
  cases unread : before.unread with
  | true => simp [Option.filter, unread]
  | false =>
    by_cases later : turn.getD 0 ≤ before.turn
    · have taken :
        (some before).filter (fun m =>
        !m.unread && decide (max before.turn (turn.getD 0) = m.turn)) =
          some before := by simp [Option.filter, unread, later]
      rw [taken]
      by_cases equal : pos = before.pos
      · simp [later, equal]
      · cases current : before.pos with
        | none => cases pos <;> simp_all
        | some c =>
          cases pos with
          | none => simp [later]
          | some p =>
            rw [current] at equal
            by_cases creeps : c.session = p.session ∧ now - before.readAt < positionWriteMs
            · simp [later, equal, creeps]
            · refine Or.inr ⟨?_, ?_⟩
              · simpa [later, equal] using fun session early => creeps ⟨session, early⟩
              · simp [equal, creeps]
    · have newer : max before.turn (turn.getD 0) ≠ before.turn := by omega
      simp [Option.filter, later, newer]

/-- A clock that is not behind reads no position backward. -/
theorem reached_forward {before : Reading} {latest : Option ReadPosition} {now : Int}
    (kept : before.readAt ≤ now) :
    comparePositionsAt (reached (some before) latest now) now before.pos before.readAt ≤ 0 := by
  rw [reached]
  split
  · next further =>
    simp only [Bool.and_eq_true, decide_eq_true_eq, Option.bind_some, Option.map_some,
      Option.getD_some] at further
    obtain ⟨given, further⟩ := further
    obtain ⟨l, rfl⟩ := Option.isSome_iff_exists.mp given
    cases current : before.pos with
    | none => simp [comparePositionsAt]
    | some c =>
      rw [current] at further
      simp only [comparePositionsAt] at further ⊢
      by_cases same : c.session = l.session
      · rw [if_pos same] at further
        rw [if_pos same.symm]
        omega
      · rw [if_neg (Ne.symm same)]
        omega
  · cases current : before.pos with
    | none => simp [comparePositionsAt, current]
    | some c => simp [comparePositionsAt, current]

/-- With its clock behind, a marker that stands still was read, and has a position if there is one.
-/
theorem still_behind {before : Reading} {turn : Option Nat} {latest : Option ReadPosition}
    {now : Int}
    (behind : now < before.readAt) :
    Still before turn latest now ↔
      before.unread = false ∧ turn.getD 0 ≤ before.turn ∧ (before.pos = none → latest = none) := by
  have early : now - before.readAt < positionWriteMs := by
    rw [positionWriteMs]
    omega
  rw [Still]
  refine and_congr_right fun _ => and_congr_right fun _ => ?_
  simp only [early, and_true]
  cases current : before.pos with
  | none =>
    cases latest <;> simp [reached, comparePositionsAt, current]
  | some c =>
    simp only [reduceCtorEq, false_implies, iff_true]
    rw [reached]
    split
    · next further =>
      simp only [Bool.and_eq_true, decide_eq_true_eq, Option.bind_some, Option.map_some,
        Option.getD_some, current] at further
      obtain ⟨given, further⟩ := further
      obtain ⟨l, rfl⟩ := Option.isSome_iff_exists.mp given
      simp only [comparePositionsAt] at further
      by_cases same : c.session = l.session
      · exact Or.inr ⟨c, l, rfl, rfl, same⟩
      · -- Another session is further only at a later time.
        rw [if_neg same] at further
        omega
    · exact Or.inl current

theorem readThrough_alike (marker : Option Reading) (turn : Option Nat)
    (latest : Option ReadPosition) (now : Int) :
    (nativeReadThrough marker turn latest now = readThrough marker turn latest now ∧
      ∀ read, readThrough marker turn latest now = some read → NotBehind marker read) ↔
        ClockKept marker turn latest now := by
  cases marker with
  | none =>
    rw [readThrough_none, nativeReadThrough_none, ClockKept]
    constructor
    · rintro ⟨same, -⟩
      simp only [Option.some.injEq, Reading.mk.injEq] at same
      have later : max now 0 = now := same.2.2.1
      refine Or.inl ?_
      simp only [Option.map_none, Option.getD_none]
      omega
    · rintro (kept | ⟨_, absent, -⟩)
      · simp only [Option.map_none, Option.getD_none] at kept
        refine ⟨by rw [max_eq_left kept], fun read _ => ?_⟩
        exact ⟨fun _ absent => (nomatch absent), fun _ absent => (nomatch absent), fun _ absent =>
          (nomatch absent)⟩
      · cases absent
  | some before =>
    have kept_iff : ClockKept (some before) turn latest now ↔ before.readAt ≤ now ∨
        Still before turn latest now := by
      by_cases kept : before.readAt ≤ now
      · simp [ClockKept, kept]
      · rw [still_behind (not_le.mp kept)]
        simp [ClockKept, kept]
    rw [kept_iff]
    obtain ⟨still, web⟩ | ⟨moves, web⟩ := readThrough_some before turn latest now
    · obtain ⟨-, native⟩ | ⟨moves, -⟩ := nativeReadThrough_some before turn latest now
      · rw [web, native]
        exact iff_of_true ⟨rfl, fun _ absent => nomatch absent⟩ (Or.inr still)
      · exact absurd still moves
    · obtain ⟨still, -⟩ | ⟨-, native⟩ := nativeReadThrough_some before turn latest now
      · exact absurd still moves
      · rw [web, native]
        constructor
        · rintro ⟨same, -⟩
          simp only [Option.some.injEq, Reading.mk.injEq] at same
          have later : max now before.readAt = now := same.2.2.1
          exact Or.inl (by omega)
        · rintro (kept | still)
          · refine ⟨by rw [max_eq_left kept], ?_⟩
            rintro read ⟨⟩
            refine ⟨?_, ?_, ?_⟩
            · rintro _ ⟨⟩
              exact le_max_left _ _
            · rintro _ ⟨⟩
              exact reached_forward kept
            · rintro _ ⟨⟩
              exact kept
          · exact absurd still moves

/-! ## Values that are written otherwise -/

/-- What has the fields of a marker in a form that either client takes. -/
structure MarkerShape where
  turn : JsonNumber
  readAt : JsonNumber
  offset : Option JsonNumber
  /-- An object that names its position, which is an object too or `null`. -/
  objects : Bool

def positionArray : List Json → Option (Option JsonNumber × Bool)
  | [.string session, .number offset, .string _] =>
      if session = "" then none else some (some offset, false)
  | _ => none

/-- The offset of a position and whether the position is named and no array. -/
def positionShape : Option Json → Option (Option JsonNumber × Bool)
  | none => some (none, false)
  | some .null => some (none, true)
  | some (.object fields) =>
    match (Json.object fields).field "session", (Json.object fields).field "offset",
        (Json.object fields).field "ts" with
    | some (.string session), some (.number offset), some (.string _) =>
      if session = "" then none else some (some offset, true)
    | _, _, _ => none
  | some (.array items) => positionArray items
  | some _ => none

def markerArray : List Json → Option MarkerShape
  | [.number turn, pos, .number readAt, .bool _] =>
    (positionShape (some pos)).map fun (offset, _) => ⟨turn, readAt, offset, false⟩
  | _ => none

def markerShape : Json → Option MarkerShape
  | .object fields =>
    match (Json.object fields).field "turn", positionShape ((Json.object fields).field "pos"),
      (Json.object fields).field "at", (Json.object fields).field "unread" with
    | some (.number turn), some (offset, objects), some (.number readAt), some (.bool _) =>
      some ⟨turn, readAt, offset, objects⟩
    | _, _, _, _ => none
  | .array items => markerArray items
  | _ => none

def MarkerShape.numbers (shape : MarkerShape) : List JsonNumber :=
  shape.turn :: shape.readAt :: shape.offset.toList

/-- A safe integer that is not negative. -/
def Safe (number : JsonNumber) : Prop := (safeNatural (some (.number number))).isSome

/-- Written as digits alone, and below `bound`. -/
def Digits (bound : Nat) (number : JsonNumber) : Prop :=
  ∃ digits, number = .whole false digits ∧ digits < bound

/-- Numbers of the native client's types. -/
structure MarkerShape.Fits (shape : MarkerShape) : Prop where
  turn : Digits (2 ^ 64) shape.turn
  readAt : Digits (2 ^ 63) shape.readAt
  offset : ∀ offset, shape.offset = some offset → Digits (2 ^ 64) offset

/-- Neither a value for the web client alone (a safe integer with a fraction, an exponent or a
minus) nor one for the native client alone (an array, no `pos`, or digits past 53 bits). -/
def ReadAlike (value : Json) : Prop :=
  ∀ shape, markerShape value = some shape →
    ¬ (shape.objects = true ∧ (∀ number ∈ shape.numbers, Safe number) ∧
        ∃ number ∈ shape.numbers, ∀ digits, number ≠ .whole false digits) ∧
      ¬ (shape.Fits ∧ (shape.objects = false ∨ ∃ number ∈ shape.numbers, ¬ Digits (2 ^ 53) number))

theorem safe_of_digits {number : JsonNumber} (short : Digits (2 ^ 53) number) : Safe number := by
  obtain ⟨digits, rfl, short⟩ := short
  rw [Safe, safeNatural_whole short]
  rfl

/-- Digits alone are safe just up to 53 bits. -/
theorem Safe.digits {digits : Nat} (safe : Safe (.whole false digits)) : digits < 2 ^ 53 := by
  obtain ⟨n, read⟩ := Option.isSome_iff_exists.mp safe
  exact safeNatural_digits read

theorem safeNatural_isSome {value : Option Json} :
    (safeNatural value).isSome ↔ ∃ number, value = some (.number number) ∧ Safe number := by
  cases value with
  | none => simp [safeNatural]
  | some value => cases value <;> simp [safeNatural, Safe]

theorem u64_eq_some {value : Json} {n : Nat} : u64 value = some n ↔ value = .number
    (.whole false n) ∧ n < 2 ^ 64 := by
  cases value with
  | number number =>
    cases number with
    | decimal => simp [u64]
    | whole negative digits =>
      cases negative with
      | true => simp [u64]
      | false =>
        simp only [u64, Option.ite_none_right_eq_some, Option.some.injEq, Json.number.injEq,
          JsonNumber.whole.injEq, true_and]
        constructor
        · rintro ⟨short, rfl⟩
          exact ⟨rfl, short⟩
        · rintro ⟨rfl, short⟩
          exact ⟨short, rfl⟩
  | _ => simp [u64]

theorem string_eq_some {value : Json} {text : String} :
    string value = some text ↔ value = .string text := by
  cases value <;> simp [string]

theorem bool_eq_some {value : Json} {flag : Bool} :
    bool value = some flag ↔ value = .bool flag := by
  cases value <;> simp [bool]

theorem positionShape_object (fields : List (String × Json)) (offset : Option JsonNumber)
    (objects : Bool) :
    positionShape (some (.object fields)) = some (offset, objects) ↔
      ∃ session number ts, (Json.object fields).field "session" = some (.string session) ∧
        (Json.object fields).field "offset" = some (.number number) ∧
        (Json.object fields).field "ts" = some (.string ts) ∧
        session ≠ "" ∧ offset = some number ∧ objects = true := by
  simp only [positionShape]
  constructor
  · intro shape
    split at shape
    · next session number ts own place text =>
      split at shape
      · cases shape
      · next named =>
        cases shape
        exact ⟨session, number, ts, own, place, text, named, rfl, rfl⟩
    · cases shape
  · rintro ⟨session, number, ts, own, place, text, named, rfl, rfl⟩
    simp [own, place, text, named]

theorem positionArray_eq_some {items : List Json} {offset : Option JsonNumber} {objects : Bool} :
    positionArray items = some (offset, objects) ↔
      ∃ session number ts, items = [.string session, .number number, .string ts] ∧ session ≠ "" ∧
        offset = some number ∧ objects = false := by
  constructor
  · intro shape
    rw [positionArray.eq_def] at shape
    split at shape
    · next session number ts =>
      split at shape
      · cases shape
      · next named =>
        cases shape
        exact ⟨session, number, ts, rfl, named, rfl, rfl⟩
    · cases shape
  · rintro ⟨session, number, ts, rfl, named, rfl, rfl⟩
    simp [positionArray, named]

theorem parsePosition_shape (value : Option Json) :
    (parsePosition value).isSome ↔
      ∃ offset, positionShape value = some (offset, true) ∧ ∀ number, offset = some number →
        Safe number := by
  cases value with
  | none => simp [parsePosition, positionShape]
  | some value =>
    cases value with
    | null => simp [parsePosition, positionShape]
    | object fields =>
      simp only [positionShape_object, parsePosition]
      constructor
      · intro read
        split at read
        · next session n ts own place text =>
          split at read
          · cases read
          · next named =>
            obtain ⟨number, given, safe⟩ := safeNatural_isSome.mp (Option.isSome_of_eq_some place)
            refine ⟨some number, ⟨session, number, ts, own, given, text, named, rfl, trivial⟩, ?_⟩
            rintro _ ⟨⟩
            exact safe
        · cases read
      · rintro ⟨_, ⟨session, number, ts, own, place, text, named, rfl, -⟩, safe⟩
        obtain ⟨n, read⟩ := Option.isSome_iff_exists.mp (safe number rfl)
        simp [own, place, text, named, read]
    | array items => simp [parsePosition, positionShape, Json.field, positionArray_eq_some]
    | _ => simp [parsePosition, positionShape, Json.field]

theorem Pos.deserialize_object {fields : List (String × Json)} {pos : ReadPosition} :
    Pos.deserialize (.object fields) = some pos ↔
      (Json.object fields).field "session" = some (.string pos.session) ∧
      (Json.object fields).field "offset" = some (.number (.whole false pos.offset)) ∧
      pos.offset < 2 ^ 64 ∧
      (Json.object fields).field "ts" = some (.string pos.ts) := by
  simp only [Pos.deserialize, Option.bind_eq_bind, Option.bind_eq_some_iff, string_eq_some,
    u64_eq_some]
  constructor
  · rintro ⟨_, own, _, rfl, _, place, _, ⟨rfl, short⟩, _, text, _, rfl, ⟨⟩⟩
    exact ⟨own, place, short, text⟩
  · rintro ⟨own, place, short, text⟩
    exact ⟨_, own, _, rfl, _, place, _, ⟨rfl, short⟩, _, text, _, rfl, rfl⟩

theorem Pos.deserialize_array {items : List Json} {pos : ReadPosition} :
    Pos.deserialize (.array items) = some pos ↔
      items = [.string pos.session, .number (.whole false pos.offset), .string pos.ts] ∧
        pos.offset < 2 ^ 64 := by
  constructor
  · intro read
    rw [Pos.deserialize.eq_def] at read
    split at read
    · cases ‹Json.array items = Json.object _›
    · next session offset ts whole =>
      cases whole
      simp only [Option.bind_eq_bind, Option.bind_eq_some_iff, string_eq_some, u64_eq_some] at read
      obtain ⟨_, rfl, _, ⟨rfl, short⟩, _, rfl, ⟨⟩⟩ := read
      exact ⟨rfl, short⟩
    · cases read
  · rintro ⟨rfl, short⟩
    simp only [Pos.deserialize, string, u64, if_pos short]
    rfl

theorem optionPos_shape (value : Option Json) :
    (∃ pos, optionPos value = some pos ∧ (pos.any fun pos => pos.session = "") = false) ↔
      ∃ offset objects, positionShape value = some (offset, objects) ∧
        ∀ number, offset = some number → Digits (2 ^ 64) number := by
  cases value with
  | none => simp [optionPos, positionShape]
  | some value =>
    cases value with
    | null => simp [optionPos, positionShape]
    | object fields =>
      simp only [positionShape_object, optionPos, Option.map_eq_some_iff, Pos.deserialize_object]
      constructor
      · rintro ⟨_, ⟨pos, ⟨own, place, short, text⟩, rfl⟩, named⟩
        refine ⟨_, true, ⟨_, _, _, own, place, text, by simpa using named, rfl, rfl⟩, ?_⟩
        rintro _ ⟨⟩
        exact ⟨_, rfl, short⟩
      · rintro ⟨_, _, ⟨session, _, ts, own, place, text, named, rfl, rfl⟩, digits⟩
        obtain ⟨offset, rfl, short⟩ := digits _ rfl
        exact ⟨_, ⟨⟨session, offset, ts⟩, ⟨own, place, short, text⟩, rfl⟩, by simpa using named⟩
    | array items =>
      simp only [positionShape, positionArray_eq_some, optionPos, Option.map_eq_some_iff,
        Pos.deserialize_array]
      constructor
      · rintro ⟨_, ⟨pos, ⟨rfl, short⟩, rfl⟩, named⟩
        refine ⟨_, false, ⟨_, _, _, rfl, by simpa using named, rfl, rfl⟩, ?_⟩
        rintro _ ⟨⟩
        exact ⟨_, rfl, short⟩
      · rintro ⟨_, _, ⟨session, _, ts, rfl, named, rfl, rfl⟩, digits⟩
        obtain ⟨offset, rfl, short⟩ := digits _ rfl
        exact ⟨_, ⟨⟨session, offset, ts⟩, ⟨rfl, short⟩, rfl⟩, by simpa using named⟩
    | _ => simp [optionPos, positionShape, Pos.deserialize]

theorem markerShape_object (fields : List (String × Json)) (shape : MarkerShape) :
    markerShape (.object fields) = some shape ↔ ∃ unread,
      (Json.object fields).field "turn" = some (.number shape.turn) ∧
      positionShape ((Json.object fields).field "pos") = some (shape.offset, shape.objects) ∧
      (Json.object fields).field "at" = some (.number shape.readAt) ∧
      (Json.object fields).field "unread" = some (.bool unread) := by
  simp only [markerShape]
  constructor
  · intro read
    split at read
    · next turn offset objects readAt unread turned place timed flag =>
      cases read
      exact ⟨unread, turned, place, timed, flag⟩
    · cases read
  · rintro ⟨unread, turned, place, timed, flag⟩
    simp [turned, place, timed, flag]

theorem markerArray_eq_some {items : List Json} {shape : MarkerShape} :
    markerArray items = some shape ↔ ∃ pos objects unread,
      items = [.number shape.turn, pos, .number shape.readAt, .bool unread] ∧
        positionShape (some pos) = some (shape.offset, objects) ∧ shape.objects = false := by
  constructor
  · intro read
    rw [markerArray.eq_def] at read
    split at read
    · next turn pos readAt unread =>
      obtain ⟨⟨offset, objects⟩, place, rfl⟩ := Option.map_eq_some_iff.mp read
      exact ⟨pos, objects, unread, rfl, place, rfl⟩
    · cases read
  · rintro ⟨pos, objects, unread, rfl, place, apart⟩
    obtain ⟨turn, readAt, offset, forms⟩ := shape
    have apart : forms = false := apart
    subst apart
    simp [markerArray, place]

/-- What the web client takes. -/
theorem parseMarker_shape (value : Json) :
    (parseMarker value).isSome ↔
      ∃ shape, markerShape value = some shape ∧ shape.objects = true ∧ ∀ number ∈ shape.numbers,
        Safe number := by
  cases value with
  | object fields =>
    simp only [markerShape_object, parseMarker]
    constructor
    · intro read
      split at read
      · next place turned timed flag =>
        obtain ⟨offset, shape, safe⟩ := (parsePosition_shape _).mp (Option.isSome_of_eq_some place)
        obtain ⟨turn, given, short⟩ := safeNatural_isSome.mp (Option.isSome_of_eq_some turned)
        obtain ⟨readAt, given', short'⟩ := safeNatural_isSome.mp (Option.isSome_of_eq_some timed)
        refine ⟨⟨turn, readAt, offset, true⟩, ⟨_, given, shape, given', flag⟩, rfl,
          fun number inside => ?_⟩
        simp only [MarkerShape.numbers, List.mem_cons, Option.mem_toList] at inside
        obtain rfl | rfl | inside := inside
        · exact short
        · exact short'
        · exact safe number inside
      · cases read
    · rintro ⟨shape, ⟨unread, turned, place, timed, flag⟩, objects, safe⟩
      rw [objects] at place
      have positioned : (parsePosition ((Json.object fields).field "pos")).isSome :=
        (parsePosition_shape _).mpr ⟨shape.offset, place, fun number given =>
          safe number (by simp [MarkerShape.numbers, given])⟩
      obtain ⟨pos, placed⟩ := Option.isSome_iff_exists.mp positioned
      obtain ⟨turn, read⟩ :=
        Option.isSome_iff_exists.mp (safe shape.turn (by simp [MarkerShape.numbers]))
      obtain ⟨readAt, read'⟩ :=
        Option.isSome_iff_exists.mp (safe shape.readAt (by simp [MarkerShape.numbers]))
      simp [placed, turned, timed, flag, read, read']
  | array items =>
    simp only [markerShape, markerArray_eq_some]
    constructor
    · intro read
      simp [parseMarker, Json.field, parsePosition] at read
    · rintro ⟨shape, ⟨_, _, _, _, _, apart⟩, objects, -⟩
      rw [apart] at objects
      cases objects
  | _ => simp [parseMarker, markerShape, Json.field, parsePosition]

/-- What the native client takes of a live row. -/
theorem parse_shape (row : Row Json) (live : row.deleted = false) :
    (parse row).isSome ↔ ∃ shape, markerShape row.value = some shape ∧ shape.Fits := by
  have accepted : (parse row).isSome ↔ ∃ wire, Wire.deserialize row.value = some wire ∧
      (wire.pos.any fun pos => pos.session = "") = false ∧ wire.readAt < 2 ^ 63 := by
    rw [parse]
    split
    · simp [*]
    · next wire read => simp [read, live]
  rw [accepted]
  cases value : row.value with
  | object fields =>
    simp only [markerShape_object, Wire.deserialize, Option.bind_eq_bind, Option.bind_eq_some_iff,
      u64_eq_some, bool_eq_some]
    constructor
    · rintro ⟨wire, ⟨_, turned, turn, ⟨rfl, short⟩, pos, place, _, timed, readAt, ⟨rfl, -⟩, _, flag,
        unread, rfl, ⟨⟩⟩, named, soon⟩
      obtain ⟨offset, objects, shape, digits⟩ := (optionPos_shape _).mp ⟨pos, place, named⟩
      exact ⟨⟨_, _, offset, objects⟩, ⟨unread, turned, shape, timed, flag⟩, ⟨turn, rfl, short⟩,
        ⟨readAt, rfl, soon⟩, digits⟩
    · rintro ⟨shape, ⟨unread, turned, place, timed, flag⟩, ⟨turn, whole, short⟩,
        ⟨readAt, whole', soon⟩, digits⟩
      obtain ⟨pos, read, named⟩ :=
        (optionPos_shape _).mpr ⟨shape.offset, shape.objects, place, digits⟩
      rw [whole] at turned
      rw [whole'] at timed
      exact ⟨⟨turn, pos, readAt, unread⟩,
        ⟨_, turned, _, ⟨rfl, short⟩, pos, read, _, timed, _, ⟨rfl, by omega⟩, _, flag, _, rfl, rfl⟩,
        named, soon⟩
  | array items =>
    simp only [markerShape, markerArray_eq_some]
    constructor
    · rintro ⟨wire, read, named, soon⟩
      rw [Wire.deserialize.eq_def] at read
      split at read
      · cases ‹Json.array items = Json.object _›
      · next turn pos readAt unread whole =>
        cases whole
        simp only [Option.bind_eq_bind, Option.bind_eq_some_iff, u64_eq_some, bool_eq_some] at read
        obtain ⟨_, ⟨rfl, short⟩, pos, place, _, ⟨rfl, -⟩, _, rfl, ⟨⟩⟩ := read
        obtain ⟨offset, objects, shape, digits⟩ := (optionPos_shape _).mp ⟨pos, place, named⟩
        exact ⟨⟨_, _, offset, false⟩, ⟨_, objects, _, rfl, shape, rfl⟩, ⟨_, rfl, short⟩,
          ⟨_, rfl, soon⟩, digits⟩
      · cases read
    · rintro ⟨shape, ⟨pos, objects, unread, rfl, place, -⟩, ⟨turn, whole, short⟩,
        ⟨readAt, whole', soon⟩, digits⟩
      obtain ⟨pos, read, named⟩ := (optionPos_shape _).mpr ⟨shape.offset, objects, place, digits⟩
      have turned : u64 (.number shape.turn) = some turn := u64_eq_some.mpr ⟨by rw [whole], short⟩
      have timed : u64 (.number shape.readAt) = some readAt :=
        u64_eq_some.mpr ⟨by rw [whole'], by omega⟩
      exact ⟨⟨turn, pos, readAt, unread⟩, by simp [Wire.deserialize, turned, timed, read, bool],
        named, soon⟩
  | _ => simp [Wire.deserialize, markerShape]

theorem MarkerShape.Fits.whole {shape : MarkerShape} (fits : shape.Fits) {number : JsonNumber}
    (inside : number ∈ shape.numbers) :
    ∃ digits, number = .whole false digits := by
  simp only [MarkerShape.numbers, List.mem_cons, Option.mem_toList] at inside
  obtain rfl | rfl | inside := inside
  · exact fits.turn.imp fun _ => And.left
  · exact fits.readAt.imp fun _ => And.left
  · exact (fits.offset number inside).imp fun _ => And.left

theorem MarkerShape.fits {shape : MarkerShape}
    (short : ∀ number ∈ shape.numbers, Digits (2 ^ 53) number) : shape.Fits := by
  have wider : ∀ number ∈ shape.numbers, ∀ bound, 2 ^ 53 ≤ bound → Digits bound number := by
    intro number inside bound more
    obtain ⟨digits, whole, below⟩ := short number inside
    exact ⟨digits, whole, by omega⟩
  refine ⟨wider _ (by simp [MarkerShape.numbers]) _ (by norm_num),
    wider _ (by simp [MarkerShape.numbers]) _ (by norm_num),
    fun offset given => wider _ (by simp [MarkerShape.numbers, given]) _ (by norm_num)⟩

/-- Both clients take a value, or neither, just where it is not for one of them alone. -/
theorem readAlike_iff (value : Json) :
    ReadAlike value ↔
      ((∃ shape, markerShape value = some shape ∧ shape.Fits) ↔
        ∃ shape, markerShape value = some shape ∧ shape.objects = true ∧ ∀ number ∈ shape.numbers,
          Safe number) := by
  cases shaped : markerShape value with
  | none => simp [ReadAlike, shaped]
  | some shape =>
    simp only [ReadAlike, shaped, Option.some.injEq, forall_eq', exists_eq_left']
    constructor
    · rintro ⟨web, native⟩
      constructor
      · intro fits
        have objects : shape.objects = true := by
          by_contra other
          exact native ⟨fits, Or.inl (by simpa using other)⟩
        refine ⟨objects, fun number inside => safe_of_digits ?_⟩
        by_contra long
        exact native ⟨fits, Or.inr ⟨number, inside, long⟩⟩
      · rintro ⟨objects, safe⟩
        refine MarkerShape.fits fun number inside => ?_
        by_contra long
        refine web ⟨objects, safe, number, inside, fun digits whole => long ⟨digits, whole, ?_⟩⟩
        exact Safe.digits (whole ▸ safe number inside)
    · intro same
      constructor
      · rintro ⟨objects, safe, number, inside, other⟩
        obtain ⟨digits, whole⟩ := (same.mpr ⟨objects, safe⟩).whole inside
        exact other digits whole
      · rintro ⟨fits, other⟩
        obtain ⟨objects, safe⟩ := same.mp fits
        obtain apart | ⟨number, inside, long⟩ := other
        · rw [objects] at apart
          cases apart
        · obtain ⟨digits, whole⟩ := fits.whole inside
          exact long ⟨digits, whole, Safe.digits (whole ▸ safe number inside)⟩

theorem parse_alike (row : Row Json) (live : row.deleted = false) :
    parse row = parseMarker row.value ↔ ReadAlike row.value := by
  rw [readAlike_iff, ← parse_shape row live, ← parseMarker_shape]
  constructor
  · intro same
    rw [same]
  · intro same
    cases native : parse row with
    | none =>
      have refused : ¬ (parseMarker row.value).isSome := fun taken => by
        rw [native] at same
        cases same.mpr taken
      exact (Option.not_isSome_iff_eq_none.mp refused).symm
    | some marker =>
      obtain ⟨marker', web⟩ :=
        Option.isSome_iff_exists.mp (same.mp (Option.isSome_of_eq_some native))
      rw [web, parseMarker_deserialize web (parse_deserialize native)]

/-- The two clients read a live row's value alike just where neither alone takes it, and read
on from a marker alike, and never backward, just where the clock is not behind or nothing is
written. -/
theorem markers_read_alike_iff (row : Row Json) (live : row.deleted = false)
    (marker : Option Reading) (turn : Option Nat)
    (latest : Option ReadPosition) (now : Int) :
    (parse row = parseMarker row.value ↔ ReadAlike row.value) ∧
      ((nativeReadThrough marker turn latest now = readThrough marker turn latest now ∧
        ∀ read, readThrough marker turn latest now = some read → NotBehind marker read) ↔
          ClockKept marker turn latest now) :=
  ⟨parse_alike row live, readThrough_alike marker turn latest now⟩

/-- A row of which only the native client takes the value: it has no `pos`. -/
def unplaced : Row Json :=
  ⟨"scout", .object [("turn", .number (.whole false 3)), ("at", .number (.whole false 9)),
    ("unread", .bool false)], 4, "a", false⟩

theorem markers_read_alike_iff_sample :
    (parse unplaced = parseMarker unplaced.value ↔ ReadAlike unplaced.value) ∧
      ((nativeReadThrough none (some 3) none 5 = readThrough none (some 3) none 5 ∧
        ∀ read, readThrough none (some 3) none 5 = some read → NotBehind none read) ↔
          ClockKept none (some 3) none 5) :=
  markers_read_alike_iff unplaced rfl none (some 3) none 5

/-- One client takes the row without `pos`; and by a clock that is behind, the web client
writes a time before the marker's. -/
theorem markers_read_apart :
    (parse unplaced = some ⟨3, none, 9, false⟩ ∧ parseMarker unplaced.value = none) ∧
      readThrough (some ⟨3, none, 10, true⟩) (some 3) none 5 = some ⟨3, none, 5, false⟩ ∧
      nativeReadThrough (some ⟨3, none, 10, true⟩) (some 3) none 5 = some ⟨3, none, 10, false⟩ ∧
      ¬ NotBehind (some ⟨3, none, 10, true⟩) ⟨3, none, 5, false⟩ := by
  refine ⟨⟨by decide, ?_⟩, by decide, by decide, fun kept => ?_⟩
  · simp [parseMarker, unplaced, Json.field, List.lookup_cons, parsePosition]
  · have later := kept.readAt _ rfl
    simp at later

end AiConfig.Herder.MarkerRows
