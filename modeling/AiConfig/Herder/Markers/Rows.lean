import AiConfig.Herder.Markers.Model
import AiConfig.Lib.Json
import Mathlib.Data.List.Induction

/-! # Marker rows as they are pulled

`parseMarkerRow` of `readMarkerModel.ts` and `parse`, `value` and `merge` of `markers.rs`, over
rows whose value is JSON.  Write ids are compared by code points, as both clients compare
ASCII ones. -/

namespace AiConfig.Herder.MarkerRows

open AiConfig.Lib

/-! ## The web client -/

/-- `Number.isSafeInteger` and not negative. -/
def safeNatural : Option Json → Option Nat
  | some (.number number) =>
    let double := nearestDouble number.value
    if double.den = 1 ∧ 0 ≤ double ∧ double < 2 ^ 53 then some double.num.toNat else none
  | _ => none

/-- `undefined` is `none`, `null` is no position. -/
def parsePosition : Option Json → Option (Option ReadPosition)
  | none => none
  | some .null => some none
  | some value =>
    match value.field "session", safeNatural (value.field "offset"), value.field "ts" with
    | some (.string session), some offset, some (.string ts) =>
      if session = "" then none else some (some ⟨session, offset, ts⟩)
    | _, _, _ => none

/-- Only objects have the fields: an array has none of them. -/
def parseMarker (value : Json) : Option ReadMarker :=
  match parsePosition (value.field "pos"), safeNatural (value.field
    "turn"), safeNatural (value.field "at"),
    value.field "unread" with
  | some pos, some turn, some readAt, some (.bool unread) => some ⟨turn, pos, readAt, unread⟩
  | _, _, _, _ => none

/-- The row's `updated`, a whole number on the wire, is read as a double. -/
def parseMarkerRow (row : Row Json) : Option ReadMarkerRow :=
  let updated := wholeDouble row.updated
  if row.key = "" ∨ row.writeID = "" then none
  else if row.deleted then some ⟨row.key, baselineMarker 0, updated, row.writeID, true⟩
  else (parseMarker row.value).map fun marker => ⟨row.key, marker, updated, row.writeID, false⟩

/-! ## The native client -/

/-- A `u64` of `serde_json`: a number with a fraction or an exponent, and minus zero, is a float. -/
def u64 : Json → Option Nat
  | .number (.whole false digits) => if digits < 2 ^ 64 then some digits else none
  | _ => none

def string : Json → Option String
  | .string text => some text
  | _ => none

def bool : Json → Option Bool
  | .bool value => some value
  | _ => none

/-- A derived `Deserialize` takes a struct's fields from an array as well. -/
def Pos.deserialize (value : Json) : Option ReadPosition :=
  match value with
  | .object _ => do
    let session ← string (← value.field "session")
    let offset ← u64 (← value.field "offset")
    let ts ← string (← value.field "ts")
    some ⟨session, offset, ts⟩
  | .array [session, offset, ts] => do
    some ⟨← string session, ← u64 offset, ← string ts⟩
  | _ => none

/-- An `Option`: a field that is missing is `None` too. -/
def optionPos : Option Json → Option (Option ReadPosition)
  | none => some none
  | some .null => some none
  | some value => (Pos.deserialize value).map some

/-- `Wire::deserialize`. -/
def Wire.deserialize (value : Json) : Option ReadMarker :=
  match value with
  | .object _ => do
    let turn ← u64 (← value.field "turn")
    let pos ← optionPos (value.field "pos")
    let readAt ← u64 (← value.field "at")
    let unread ← bool (← value.field "unread")
    some ⟨turn, pos, readAt, unread⟩
  | .array [turn, pos, readAt, unread] => do
    some ⟨← u64 turn, ← optionPos (some pos), ← u64 readAt, ← bool unread⟩
  | _ => none

def parse (row : Row Json) : Option ReadMarker :=
  match Wire.deserialize row.value with
  | none => none
  | some wire =>
    if row.deleted ∨ (wire.pos.any fun pos => pos.session = "") ∨ 2 ^ 63 ≤ wire.readAt then none
    else some wire

/-- A marker's row value. -/
def value (marker : ReadMarker) (updated : Int) : Json :=
  .object [
    ("turn", .number (.whole false marker.turn)),
    ("pos", match marker.pos with
      | none => .null
      | some pos =>
        .object [("session", .string pos.session), ("offset", .number (.whole false pos.offset)),
          ("ts", .string pos.ts)]),
    ("at", .number (.whole false marker.readAt)),
    ("unread", .bool marker.unread),
    ("updated", .number (.whole (updated < 0) updated.natAbs))]

def mergeOnto (winner loser : Row Json) : Row Json × Bool :=
  match parse winner, parse loser with
  | some w, some l =>
    -- Marked unread, a row takes nothing from what it beats.
    if w.unread then (winner, false)
    else
      let further := Native.ahead w.pos w.readAt l.pos l.readAt
      let merged : ReadMarker :=
        ⟨max w.turn l.turn, if further then l.pos else w.pos, max w.readAt l.readAt, false⟩
      if merged = w then (winner, false) else ({ winner with value := value merged winner.updated },
        true)
  | _, _ => (winner, false)

/-- `None` for a row that web would refuse. -/
def merge (current : Option (Row Json)) (incoming : Row Json) : Option (Row Json × Bool) :=
  if !incoming.deleted && (parse incoming).isNone then none
  else
    match current with
    | none => some (incoming, false)
    | some current =>
      if (current.updated = weakUpdated) ≠ (incoming.updated = weakUpdated) then
        some (if current.updated = weakUpdated then incoming else current, false)
      else if current.version < incoming.version then some (mergeOnto incoming current)
      else some (mergeOnto current incoming)

/-! ## The rows of a store -/

/-- Rows as they are merged into the web client's map. -/
def webFold (rows : List (Row Json)) : String → Option ReadMarkerRow :=
  rows.foldl
    (fun held raw =>
      match parseMarkerRow raw with
      | none => held
      | some row => Function.update held row.key (some (mergeMarkerRow (held row.key) row).1))
    fun _ => none

/-- Rows as `Sync` merges them. -/
def nativeFold (rows : List (Row Json)) : String → Option (Row Json) :=
  rows.foldl
    (fun held row =>
      match merge (held row.key) row with
      | none => held
      | some (row, _) => Function.update held row.key (some row))
    fun _ => none

/-! ## Values that both clients accept -/

theorem safeNatural_bound {value : Option Json} {n : Nat} (read : safeNatural value = some n) :
    n < 2 ^ 53 := by
  cases value with
  | none => cases read
  | some value =>
    cases value with
    | number number =>
      simp only [safeNatural] at read
      split at read
      · next safe =>
        obtain ⟨whole, positive, short⟩ := safe
        cases read
        have num : ((nearestDouble number.value).num : ℚ) = nearestDouble number.value :=
          Rat.den_eq_one_iff _ |>.mp whole
        rw [← num] at short positive
        have short : (nearestDouble number.value).num < 2 ^ 53 := by exact_mod_cast short
        have positive : 0 ≤ (nearestDouble number.value).num := by exact_mod_cast positive
        omega
      · cases read
    | _ => cases read

theorem safeNatural_whole {n : Nat} (short : n < 2 ^ 53) :
    safeNatural (some (.number (.whole false n))) = some n := by
  have value : (JsonNumber.whole false n).value = n := by simp [JsonNumber.value]
  simp only [safeNatural, value, nearestDouble_nat short]
  rw [if_pos ⟨by simp, by positivity, by exact_mod_cast short⟩]
  simp

/-- A longer number is no safe integer. -/
theorem safeNatural_digits {m n : Nat}
    (read : safeNatural (some (.number (.whole false m))) = some n) : m < 2 ^ 53 := by
  by_contra long
  have value : (JsonNumber.whole false m).value = m := by simp [JsonNumber.value]
  have past : (2 : ℚ) ^ 53 ≤ (JsonNumber.whole false m).value := by
    rw [value]
    exact_mod_cast Nat.le_of_not_lt long
  simp only [safeNatural] at read
  rw [if_neg fun safe => absurd (le_nearestDouble past) (not_le.mpr safe.2.2)] at read
  cases read

/-- A number that both clients take is the same one to both. -/
theorem safeNatural_u64 {value : Json} {n m : Nat} (web : safeNatural (some value) = some n)
    (native : u64 value = some m) : n = m := by
  cases value with
  | number number =>
    cases number with
    | whole negative digits =>
      cases negative with
      | true => cases native
      | false =>
        simp only [u64] at native
        split at native
        · cases native
          rw [safeNatural_whole (safeNatural_digits web)] at web
          exact (Option.some.inj web).symm
        · cases native
    | decimal => cases native
  | _ => cases native

theorem parsePosition_optionPos {value : Option Json} {pos pos' : Option ReadPosition}
    (web : parsePosition value = some pos) (native : optionPos value = some pos') : pos = pos' := by
  cases value with
  | none => cases web
  | some value =>
    cases value with
    | null =>
      cases web
      cases native
      rfl
    | object fields =>
      simp only [optionPos, Pos.deserialize] at native
      simp only [parsePosition] at web
      split at web
      · next session offset ts given read text =>
        split at web
        · cases web
        · cases web
          cases found : (Json.object fields).field "offset" with
          | none =>
            rw [found] at read
            cases read
          | some number =>
            cases taken : u64 number with
            | none => simp [given, text, found, string, taken] at native
            | some n =>
              rw [found] at read
              simp [given, text, found, string, taken] at native
              rw [← native, safeNatural_u64 read taken]
      · cases web
    | _ => simp [parsePosition, Json.field] at web

/-- What both clients read is the same marker. -/
theorem parseMarker_deserialize {value : Json} {marker marker' : ReadMarker}
    (web : parseMarker value = some marker)
    (native : Wire.deserialize value = some marker') : marker = marker' := by
  rw [parseMarker] at web
  split at web
  · next pos turn readAt unread place turned timed flag =>
    cases web
    cases value with
    | object fields =>
      cases found : (Json.object fields).field "turn" with
      | none =>
        rw [found] at turned
        cases turned
      | some number =>
        cases found' : (Json.object fields).field "at" with
        | none =>
          rw [found'] at timed
          cases timed
        | some number' =>
          rw [found] at turned
          rw [found'] at timed
          simp only [Wire.deserialize, found, found', flag, Option.bind_eq_bind, Option.bind_some,
            bool] at native
          cases taken : u64 number with
          | none => simp [taken] at native
          | some n =>
            cases taken' : u64 number' with
            | none => simp [taken, taken'] at native
            | some n' =>
              cases placed : optionPos ((Json.object fields).field "pos") with
              | none => simp [taken, placed] at native
              | some pos' =>
                simp [taken, taken', placed] at native
                rw [← native, safeNatural_u64 turned taken, safeNatural_u64 timed taken',
                  parsePosition_optionPos place placed]
    | _ => simp [parsePosition, Json.field] at place
  · cases web

/-- What the web client reads of a value. -/
structure Readable (marker : ReadMarker) : Prop where
  turn : marker.turn < 2 ^ 53
  readAt : marker.readAt < 2 ^ 53
  pos : ∀ pos, marker.pos = some pos → pos.session ≠ "" ∧ pos.offset < 2 ^ 53

theorem parsePosition_readable {value : Option Json} {pos : ReadPosition}
    (web : parsePosition value = some (some pos)) :
    pos.session ≠ "" ∧ pos.offset < 2 ^ 53 := by
  cases value with
  | none => cases web
  | some value =>
    cases value with
    | null => cases web
    | _ =>
      simp only [parsePosition] at web
      split at web
      · next offset _ _ read _ =>
        split at web
        · cases web
        · next named =>
          cases web
          exact ⟨named, safeNatural_bound read⟩
      · cases web

theorem parseMarker_readable {value : Json} {marker : ReadMarker}
    (web : parseMarker value = some marker) :
    Readable marker := by
  rw [parseMarker] at web
  split at web
  · next place turned timed _ =>
    cases web
    refine ⟨safeNatural_bound turned, safeNatural_bound timed, fun pos given => ?_⟩
    have given : _ = some pos := given
    subst given
    exact parsePosition_readable place
  · cases web

theorem parseMarker_value {marker : ReadMarker} (readable : Readable marker) (updated : Int) :
    parseMarker (value marker updated) = some marker := by
  obtain ⟨turn, pos, readAt, unread⟩ := marker
  have turned := safeNatural_whole readable.turn
  have timed := safeNatural_whole readable.readAt
  cases pos with
  | none => simp_all [parseMarker, value, Json.field, List.lookup_cons, parsePosition]
  | some pos =>
    obtain ⟨named, short⟩ := readable.pos pos rfl
    have offset := safeNatural_whole short
    simp_all [parseMarker, value, Json.field, List.lookup_cons, parsePosition]

theorem deserialize_value {marker : ReadMarker} (readable : Readable marker) (updated : Int) :
    Wire.deserialize (value marker updated) = some marker := by
  obtain ⟨turn, pos, readAt, unread⟩ := marker
  have wide : ∀ {n : Nat}, n < 2 ^ 53 → u64 (.number (.whole false n)) = some n :=
    fun short => if_pos (by omega)
  have turned := wide readable.turn
  have timed := wide readable.readAt
  cases pos with
  | none => simp_all [Wire.deserialize, value, Json.field, List.lookup_cons, optionPos, bool]
  | some pos =>
    obtain ⟨-, short⟩ := readable.pos pos rfl
    have offset := wide short
    simp_all [Wire.deserialize, value, Json.field, List.lookup_cons, optionPos, Pos.deserialize,
      bool, string]

/-! ## Both clients merge alike -/

/-- The native client reads `updated` as an `i64`. -/
structure Accepted (row : Row Json) : Prop where
  web : (parseMarkerRow row).isSome
  updated : -2 ^ 63 ≤ row.updated ∧ row.updated < 2 ^ 63
  native : row.deleted = true ∨ (parse row).isSome

/-- A double holds the row's `updated`. -/
def Exact (row : Row Json) : Prop := wholeDouble row.updated = row.updated

/-- A row of the native client and one of the web client. -/
structure Alike (row : Row Json) (held : ReadMarkerRow) : Prop where
  key : row.key = held.key
  updated : row.updated = held.updated
  writeID : row.writeID = held.writeID
  deleted : row.deleted = held.deleted
  marker : held.deleted = false → parse row = some held.value

/-- Alike, and the web client reads the one as the other. -/
structure Same (row : Row Json) (held : ReadMarkerRow) : Prop extends Alike row held where
  read : parseMarkerRow row = some held

theorem parse_deserialize {row : Row Json} {marker : ReadMarker} (taken : parse row = some marker) :
    Wire.deserialize row.value = some marker := by
  rw [parse] at taken
  split at taken
  · cases taken
  · next wire decoded =>
    split at taken
    · cases taken
    · cases taken
      exact decoded

theorem Accepted.same {row : Row Json} (accepted : Accepted row) (exact : Exact row) :
    ∃ held, parseMarkerRow row = some held ∧ Same row held := by
  obtain ⟨held, read⟩ := Option.isSome_iff_exists.mp accepted.web
  refine ⟨held, read, ?_, read⟩
  rw [parseMarkerRow, exact] at read
  split at read
  · cases read
  · split at read
    · next deleted =>
      cases read
      exact ⟨rfl, rfl, rfl, deleted, fun live => nomatch live⟩
    · next live =>
      obtain ⟨marker, own, rfl⟩ := Option.map_eq_some_iff.mp read
      refine ⟨rfl, rfl, rfl, by simpa using live, fun _ => ?_⟩
      obtain ⟨marker', taken⟩ := Option.isSome_iff_exists.mp (accepted.native.resolve_left live)
      rw [taken, parseMarker_deserialize own (parse_deserialize taken)]

theorem Same.readable {row : Row Json} {held : ReadMarkerRow} (same : Same row held)
    (live : held.deleted = false) :
    Readable held.value := by
  have read := same.read
  rw [parseMarkerRow] at read
  split at read
  · cases read
  · split at read
    · cases read
      cases live
    · obtain ⟨marker, own, rfl⟩ := Option.map_eq_some_iff.mp read
      exact parseMarker_readable own

theorem Same.version {row : Row Json} {held : ReadMarkerRow} (same : Same row held) :
    row.version = held.version := by
  rw [Row.version, Row.version, same.updated, same.writeID]

theorem parse_value {row : Row Json} (live : row.deleted = false) {marker : ReadMarker}
    (readable : Readable marker)
    (updated : Int) : parse { row with value := value marker updated } = some marker := by
  have short : marker.readAt < 2 ^ 63 := lt_trans readable.readAt (by norm_num)
  have named : (marker.pos.any fun pos => pos.session = "") = false := by
    cases given : marker.pos with
    | none => rfl
    | some pos => simpa using (readable.pos pos given).1
  rw [parse, deserialize_value readable]
  simpa [live, named] using short

/-- What the native client writes is accepted by both. -/
theorem accepted_value {row : ReadMarkerRow} (readable : Readable row.value) (named : row.key ≠ "")
    (written : row.writeID ≠ "")
    (counted : -2 ^ 63 ≤ row.updated ∧ row.updated < 2 ^ 63) (live : row.deleted = false) :
    Accepted ⟨row.key, value row.value row.updated, row.updated, row.writeID, row.deleted⟩ := by
  refine ⟨?_, counted, Or.inr ?_⟩
  · simp [parseMarkerRow, named, written, live, parseMarker_value readable]
  · have read :
        parse ⟨row.key, value row.value row.updated, row.updated, row.writeID, row.deleted⟩ =
        some row.value :=
      @parse_value ⟨row.key, .null, row.updated, row.writeID, row.deleted⟩ live row.value readable
        row.updated
    rw [read]
    rfl

theorem parseMarkerRow_updated {row : Row Json} {held : ReadMarkerRow}
    (read : parseMarkerRow row = some held) :
    held.updated = wholeDouble row.updated := by
  rw [parseMarkerRow] at read
  split at read
  · cases read
  · split at read
    · cases read
      rfl
    · obtain ⟨marker, -, rfl⟩ := Option.map_eq_some_iff.mp read
      rfl

/-- The value that a repair writes is read back by both. -/
theorem Same.write {row : Row Json} {held : ReadMarkerRow} (same : Same row held)
    (live : held.deleted = false)
    {marker : ReadMarker} (readable : Readable marker) :
    Same { row with value := value marker row.updated } { held with value := marker } := by
  have own : row.deleted = false := same.deleted.trans live
  refine ⟨⟨same.key, same.updated, same.writeID, same.deleted, fun _ =>
    parse_value own readable row.updated⟩, ?_⟩
  have read := same.read
  rw [parseMarkerRow] at read ⊢
  split at read
  · cases read
  · next named =>
    have exact : wholeDouble row.updated = held.updated := (parseMarkerRow_updated same.read).symm
    rw [if_neg named, if_neg (by simp [own]), parseMarker_value readable]
    simp [same.key, exact, same.writeID, live]

theorem mergedMarker_readable {winner loser : ReadMarker} (won : Readable winner)
    (lost : Readable loser) :
    Readable (mergedMarker winner loser) where
  turn := max_lt won.turn lost.turn
  readAt := max_lt won.readAt lost.readAt
  pos := by
    intro pos given
    simp only [mergedMarker] at given
    split at given
    · exact lost.pos pos given
    · exact won.pos pos given

theorem mergeOnto_same {winner loser : Row Json} {won lost : ReadMarkerRow} (same : Same winner won)
    (same' : Same loser lost) :
    Same (mergeOnto winner loser).1 (Herder.mergeOnto won lost).1 ∧
      (mergeOnto winner loser).2 = (Herder.mergeOnto won lost).2 := by
  rw [← mergeOnto_eq]
  cases gone : won.deleted with
  | true =>
    have left : parse winner = none := by
      rw [parse]
      split <;> simp [same.deleted, gone]
    simpa [mergeOnto, Native.mergeOnto, Native.parse, left, gone] using same
  | false =>
    cases gone' : lost.deleted with
    | true =>
      have right : parse loser = none := by
        rw [parse]
        split <;> simp [same'.deleted, gone']
      simpa [mergeOnto, Native.mergeOnto, Native.parse, same.marker gone, right, gone,
        gone'] using same
    | false =>
      cases unread : won.value.unread with
      | true =>
        simpa [mergeOnto, Native.mergeOnto, Native.parse, same.marker gone, same'.marker gone',
          gone, gone', unread] using same
      | false =>
        have merged : (⟨max won.value.turn lost.value.turn,
            if Native.ahead won.value.pos won.value.readAt lost.value.pos lost.value.readAt then
              lost.value.pos
              else won.value.pos, max won.value.readAt lost.value.readAt, false⟩ : ReadMarker) =
            mergedMarker won.value lost.value := by
          simp [mergedMarker, ahead_iff, unread]
        have readable := mergedMarker_readable (same.readable gone) (same'.readable gone')
        simp only [mergeOnto, Native.mergeOnto, Native.parse, same.marker gone, same'.marker gone',
          gone, gone', unread,
          Bool.false_eq_true, if_false, merged]
        split
        · exact ⟨same, rfl⟩
        · simpa only [gone, and_true] using same.write gone readable

theorem merge_same {current : Option (Row Json)} {held : Option ReadMarkerRow}
    (before : Option.Rel Same current held)
    {incoming : Row Json} {row : ReadMarkerRow} (same : Same incoming row) :
    ∃ merged, merge current incoming = some merged ∧ Same merged.1 (mergeMarkerRow held row).1 ∧
      merged.2 = (mergeMarkerRow held row).2 := by
  have valid : (!incoming.deleted && (parse incoming).isNone) = false := by
    cases gone : row.deleted with
    | true => simp [same.deleted, gone]
    | false => simp [same.marker gone]
  simp only [merge, valid, Bool.false_eq_true, if_false]
  cases before with
  | none => exact ⟨_, rfl, same, rfl⟩
  | @some current held before =>
    simp only [mergeMarkerRow, before.updated, same.updated, compare_pos, before.version,
      same.version]
    split
    · split
      · exact ⟨_, rfl, same, rfl⟩
      · exact ⟨_, rfl, before, rfl⟩
    · split
      · exact ⟨_, rfl, mergeOnto_same same before⟩
      · exact ⟨_, rfl, mergeOnto_same before same⟩

theorem rel_imp {α β : Type} {r s : α → β → Prop} (imp : ∀ a b, r a b → s a b) {a : Option α}
    {b : Option β}
    (rel : Option.Rel r a b) : Option.Rel s a b := by
  cases rel with
  | none => exact .none
  | some both => exact .some (imp _ _ both)

theorem mergeMarkerRow_key {current : Option ReadMarkerRow} {row : ReadMarkerRow}
    (own : ∀ held, current = some held → held.key = row.key) :
    (mergeMarkerRow current row).1.key = row.key := by
  have step := merged current row
  generalize mergeMarkerRow current row = answer at step ⊢
  cases step with
  | first => rfl
  | kept before => exact own _ before
  | taken => rfl
  | @ahead _ winner _ before sides =>
    obtain ⟨rfl, -⟩ | ⟨rfl, -⟩ := sides
    · rfl
    · exact own winner before

/-- One more row keeps the two stores the same. -/
theorem fold_same (rows : List (Row Json)) (accepted : ∀ row ∈ rows, Accepted row ∧ Exact row)
    (key : String) :
    Option.Rel (fun row held => Same row held ∧ held.key = key) (nativeFold rows key)
      (webFold rows key) := by
  induction rows using List.reverseRec generalizing key with
  | nil => exact .none
  | append_singleton rows row inductionHypothesis =>
    have earlier :=
      inductionHypothesis fun other inside => accepted other (List.mem_append_left _ inside)
    obtain ⟨taken, exact⟩ := accepted row (by simp)
    obtain ⟨held, read, same⟩ := taken.same exact
    have before : Option.Rel Same (nativeFold rows row.key) (webFold rows held.key) := by
      rw [same.key]
      exact rel_imp (fun _ _ both => both.1) (earlier held.key)
    have own : ∀ other, webFold rows held.key = some other → other.key = held.key := by
      intro other found
      have stands := earlier held.key
      rw [found] at stands
      generalize nativeFold rows held.key = native at stands
      cases stands with
      | some both => exact both.2
    obtain ⟨merged, taken, after, -⟩ := merge_same before same
    have kept : merged.1.key = held.key := after.key.trans (mergeMarkerRow_key own)
    have native : nativeFold (rows ++ [row]) =
        Function.update (nativeFold rows) held.key (some merged.1) := by
      rw [nativeFold, List.foldl_append, List.foldl_cons, List.foldl_nil, ← nativeFold, taken]
      simp only [kept]
    have web : webFold (rows ++ [row]) =
        Function.update (webFold rows) held.key
            (some (mergeMarkerRow (webFold rows held.key) held).1) := by
      rw [webFold, List.foldl_append, List.foldl_cons, List.foldl_nil, ← webFold, read]
    rw [native, web]
    by_cases here : key = held.key
    · subst here
      simpa using Option.Rel.some ⟨after, mergeMarkerRow_key own⟩
    · rw [Function.update_of_ne here, Function.update_of_ne here]
      exact earlier key

/-- Of rows that both clients accept and whose versions doubles hold, both keep the same rows and
want the same repairs. -/
theorem markers_merge_alike :
    (∀ (current : Option (Row Json)) (incoming : Row Json),
      (∀ row, current = some row → Accepted row ∧ Exact row) → Accepted incoming → Exact incoming →
      ∃ row native, parseMarkerRow incoming = some row ∧ merge current incoming = some native ∧
        Alike native.1 (mergeMarkerRow (current.bind parseMarkerRow) row).1 ∧
        native.2 = (mergeMarkerRow (current.bind parseMarkerRow) row).2) ∧
      ∀ rows : List (Row Json), (∀ row ∈ rows, Accepted row ∧ Exact row) → ∀ key,
        Option.Rel Alike (nativeFold rows key) (webFold rows key) := by
  refine ⟨fun current incoming held accepted exact => ?_, fun rows accepted key => ?_⟩
  · have before : Option.Rel Same current (current.bind parseMarkerRow) := by
      cases current with
      | none => exact .none
      | some row =>
        obtain ⟨taken, exact'⟩ := held row rfl
        obtain ⟨own, read, same⟩ := taken.same exact'
        rw [Option.bind_some, read]
        exact .some same
    obtain ⟨row, read, same⟩ := accepted.same exact
    obtain ⟨native, merged, after, flag⟩ := merge_same before same
    exact ⟨row, native, read, merged, after.toAlike, flag⟩
  · exact rel_imp (fun _ _ both => both.1.toAlike) (fold_same rows accepted key)

/-- Another device has read further in a later session, with an older version. -/
def farther : ReadMarkerRow := ⟨"scout", ⟨7, some ⟨"s2", 10, ""⟩, 90, false⟩, 4, "a", false⟩

def nearer : ReadMarkerRow := ⟨"scout", ⟨5, some ⟨"s1", 80, ""⟩, 60, false⟩, 9, "b", false⟩

def written (row : ReadMarkerRow) : Row Json :=
  ⟨row.key, value row.value row.updated, row.updated, row.writeID, row.deleted⟩

theorem farther_accepted : Accepted (written farther) :=
  accepted_value ⟨by decide, by decide, by rintro _ ⟨⟩; decide⟩ (by decide) (by decide)
    (by decide) rfl

theorem nearer_accepted : Accepted (written nearer) :=
  accepted_value ⟨by decide, by decide, by rintro _ ⟨⟩; decide⟩ (by decide) (by decide)
    (by decide) rfl

theorem written_exact {row : ReadMarkerRow} (short : |row.updated| < 2 ^ 53) :
    Exact (written row) := wholeDouble_eq short

/-- Merged, and folded in either order. -/
theorem markers_merge_alike_sample :
    (∃ row native, parseMarkerRow (written farther) = some row ∧
      merge (some (written nearer)) (written farther) = some native ∧
      Alike native.1 (mergeMarkerRow ((some (written nearer)).bind parseMarkerRow) row).1 ∧
      native.2 = (mergeMarkerRow ((some (written nearer)).bind parseMarkerRow) row).2) ∧
    ∀ key, Option.Rel Alike (nativeFold [written farther, written nearer] key)
      (webFold [written farther, written nearer] key) := by
  have far : Exact (written farther) := written_exact (by decide)
  have near : Exact (written nearer) := written_exact (by decide)
  refine ⟨markers_merge_alike.1 (some (written nearer)) (written farther) ?_ farther_accepted far,
    markers_merge_alike.2 [written farther, written nearer] ?_⟩
  · rintro _ ⟨⟩
    exact ⟨nearer_accepted, near⟩
  · simp [farther_accepted, nearer_accepted, far, near]

/-! ## Versions past 53 bits -/

/-- The greatest version of 53 bits and one. -/
def heldLate : ReadMarkerRow := { nearer with updated := 9007199254740992 }

/-- The next version, which as a double is the one before. -/
def arrivedLate : ReadMarkerRow := { farther with updated := 9007199254740993 }

/-- The native client takes the row that arrives, the web client keeps its own. -/
theorem rounded_versions_apart :
    ¬∀ (current : Option (Row Json)) (incoming : Row Json),
      (∀ row, current = some row → Accepted row) → Accepted incoming →
      ∃ row native, parseMarkerRow incoming = some row ∧ merge current incoming = some native ∧
        Alike native.1 (mergeMarkerRow (current.bind parseMarkerRow) row).1 ∧
        native.2 = (mergeMarkerRow (current.bind parseMarkerRow) row).2 := by
  intro claimed
  have held : Accepted (written heldLate) :=
    accepted_value ⟨by decide, by decide, by rintro _ ⟨⟩; decide⟩ (by decide) (by decide)
      (by decide) rfl
  have arrived : Accepted (written arrivedLate) :=
    accepted_value ⟨by decide, by decide, by rintro _ ⟨⟩; decide⟩ (by decide) (by decide)
      (by decide) rfl
  obtain ⟨row, native, read, merged, alike, -⟩ :=
    claimed (some (written heldLate)) (written arrivedLate) (by rintro _ ⟨⟩; exact held) arrived
  have web : (parseMarkerRow (written arrivedLate)).map (fun row =>
      (mergeMarkerRow ((some (written heldLate)).bind parseMarkerRow) row).1.writeID) =
        some "b" := by decide +kernel
  have other : (merge (some (written heldLate)) (written arrivedLate)).map
      (fun native => native.1.writeID) = some "a" := by
    decide +kernel
  rw [read, Option.map_some, Option.some.injEq] at web
  rw [merged, Option.map_some, Option.some.injEq] at other
  have same := alike.writeID
  rw [web, other] at same
  exact absurd same (by decide)

end AiConfig.Herder.MarkerRows
