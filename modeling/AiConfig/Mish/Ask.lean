import Mathlib

/-! # Ask entities

Transcription of the types, the ids and the validation of `internal/missionfs/asks.go`. 
`time.Parse` and
`Format` are `Times`. -/

namespace AiConfig.Mish

/-! ## Times -/

/-- `time.Parse(time.RFC3339Nano, ·)` and `Format(time.RFC3339Nano)`: an instant in nanoseconds, in
a zone. -/
structure Times where
  Zone : Type
  utc : Zone
  parse : String → Option (Int × Zone)
  format : Int → Zone → String

/-- The instant that a stamp shows. -/
def Times.instant (times : Times) (stamp : String) : Option Int := (times.parse stamp).map Prod.fst

/-- Between the years that are printed with four digits, the instant that is printed is read. -/
structure Times.Lawful (times : Times) (first last : Int) : Prop where
  empty : times.parse "" = none
  again : ∀ t zone, first ≤ t → t ≤ last → times.instant (times.format t zone) = some t

/-! ## Ids -/

def hexDigit (char : Char) : Bool := char.isDigit || ('a' ≤ char && char ≤ 'f')

/-- A text of one character of each class. -/
def fits : List (Char → Bool) → List Char → Bool
  | [], [] => true
  | accepts :: classes, char :: text => accepts char && fits classes text
  | _, _ => false

def literal (text : String) : List (Char → Bool) := text.toList.map fun char other => char == other

def hexDigits (count : Nat) : List (Char → Bool) := List.replicate count hexDigit

/-- A UUID of version 7. -/
def uuidClasses : List (Char → Bool) :=
  hexDigits 8 ++ literal "-" ++ hexDigits 4 ++ literal "-7" ++ hexDigits 3 ++ literal "-" ++
    [fun char => decide (char ∈ ['8', '9', 'a', 'b'])] ++ hexDigits 3 ++ literal "-" ++ hexDigits 12

def askIDPattern : List (Char → Bool) := literal "ask-" ++ uuidClasses

def replyIDPattern : List (Char → Bool) := literal "reply-" ++ uuidClasses

def ValidAskID (id : String) : Bool := fits askIDPattern id.toList

theorem fits_append {front back : List (Char → Bool)} {head tail : List Char}
    (first : fits front head = true)
    (second : fits back tail = true) : fits (front ++ back) (head ++ tail) = true := by
  induction front generalizing head with
  | nil =>
    cases head with
    | nil => exact second
    | cons _ _ => cases first
  | cons accepts classes inductionHypothesis =>
    cases head with
    | nil => cases first
    | cons char text =>
      simp only [fits, Bool.and_eq_true] at first
      simp only [List.cons_append, fits, Bool.and_eq_true]
      exact ⟨first.1, inductionHypothesis first.2⟩

theorem fits_front {front back : List (Char → Bool)} {text : List Char}
    (whole : fits (front ++ back) text = true) :
    ∃ head tail, text = head ++ tail ∧ fits front head = true ∧ fits back tail = true := by
  induction front generalizing text with
  | nil => exact ⟨[], text, rfl, rfl, whole⟩
  | cons accepts classes inductionHypothesis =>
    cases text with
    | nil => cases whole
    | cons char text =>
      simp only [List.cons_append, fits, Bool.and_eq_true] at whole
      obtain ⟨head, tail, rfl, first, second⟩ := inductionHypothesis whole.2
      exact ⟨char :: head, tail, rfl, by simp [fits, whole.1, first], second⟩

/-- A literal is fitted by its own text alone. -/
theorem fits_chars {text chars : List Char} :
    fits (text.map fun char other => char == other) chars = true ↔ chars = text := by
  induction text generalizing chars with
  | nil => cases chars <;> simp [fits]
  | cons char text inductionHypothesis =>
    cases chars with
    | nil => simp [fits]
    | cons other chars =>
      simp only [List.map_cons, fits, Bool.and_eq_true, beq_iff_eq, inductionHypothesis,
        List.cons.injEq]
      exact and_congr_left' eq_comm

theorem fits_literal {text : String} {chars : List Char} : fits (literal text) chars = true ↔
    chars = text.toList := fits_chars

/-- The first `old` in a text becomes `new`: `strings.Replace(·, old, new, 1)`. -/
def replaceFirst (old new : List Char) : List Char → List Char
  | [] => if old = [] then new else []
  | char :: rest =>
    if old <+: char :: rest then new ++
      (char :: rest).drop old.length else char :: replaceFirst old new rest

/-- The id of a reply, from an id that was generated. -/
def replyID (id : String) : String :=
  String.ofList (replaceFirst "ask-".toList "reply-".toList id.toList)

theorem replyID_valid {id : String} (valid : ValidAskID id = true) :
    fits replyIDPattern (replyID id).toList = true := by
  obtain ⟨head, tail, split, first, second⟩ := fits_front valid
  obtain rfl := fits_literal.mp first
  have replaced : replaceFirst "ask-".toList "reply-".toList ("ask-".toList ++ tail) =
      "reply-".toList ++ tail := by
    show (if "ask-".toList <+: 'a' :: ('s' :: 'k' :: '-' :: tail) then _ else _) = _
    rw [if_pos ⟨tail, rfl⟩]
    rfl
  rw [replyID, split, replaced, String.toList_ofList]
  exact fits_append (fits_literal.mpr rfl) second

/-! ## Entities -/

/-- A slice, which may be nil. -/
abbrev Slice (α : Type) := Option (List α)

def Slice.items {α : Type} (slice : Slice α) : List α := slice.getD []

/-- `append(slice, item)` -/
def Slice.append {α : Type} (slice : Slice α) (item : α) : Slice α := some (slice.items ++ [item])

structure TypedRef where
  type : String
  ref : String
  deriving DecidableEq

structure Blocking where
  fact : String
  actor : String
  at_ : String
  deriving DecidableEq

structure DecisionOption where
  id : String
  label : String
  cost : String
  risk : String
  blastRadius : String
  deriving DecidableEq

structure Recommendation where
  choice : String
  reason : String
  deriving DecidableEq

structure Framing where
  context : String
  question : String
  subDecisions : Slice String
  options : Slice DecisionOption
  recommendation : Option Recommendation
  doNothing : String
  deriving DecidableEq

structure Reply where
  id : String
  actor : String
  at_ : String
  prose : String
  deriving DecidableEq

structure RulingEntry where
  question : String
  optionsAsPresented : Slice DecisionOption
  choice : String
  prose : String
  actor : String
  at_ : String
  deriving DecidableEq

structure Trace where
  action : String
  actor : String
  at_ : String
  outcome : String
  reason : String
  citation : Option TypedRef
  member : String
  deriving DecidableEq

structure AskEntity where
  schema : String
  id : String
  kind : String
  state : String
  outcome : Option String
  asker : String
  addressedTo : String
  createdAt : String
  updatedAt : String
  expects : String
  blocking : Option Blocking
  anchor : TypedRef
  links : Slice TypedRef
  members : Slice String
  framing : Framing
  replies : Slice Reply
  rulingTrail : Slice RulingEntry
  traces : Slice Trace
  deriving DecidableEq

def askSchema : String := "mish.ask/v1"

structure AskFailure where
  kind : String
  message : String
  remedy : String
  deriving DecidableEq

/-! ## Validation -/

def invalid (message : String) : AskFailure :=
  ⟨"invalid_entity", message, "repair the entity to match mish.ask/v1"⟩

def validRef (ref : TypedRef) (entity : Bool) : Bool :=
  ref.ref ≠ "" && (ref.type ∈ ["task", "phase", "milestone", "artifact", "thread", "mission"] ||
    (entity && ref.type = "entity" && ValidAskID ref.ref))

/-- Checks in order, each true where it fails, with its message. -/
abbrev Checks := List (Bool × String)

section

variable (times : Times) (e : AskEntity)

/-- A time that is not RFC 3339. -/
def unparsed (text : String) : Bool := (times.parse text).isNone

def stateChecks : Checks :=
  [(!ValidAskID e.id, "id must be an ask- UUIDv7"),
    (e.kind ∉ ["ask", "ruling"], "kind must be ask or ruling"),
    (e.state ∉ ["open", "closed"], "state must be open or closed"),
    (e.state = "open" && e.outcome.any (· ≠ ""), "open entity cannot have an outcome"),
    (e.state = "closed" && !e.outcome.any (· ∈ ["settled", "no-action", "superseded"]),
      "closed entity requires a valid outcome")]

def requiredChecks : Checks :=
  [(e.links.isNone || e.replies.isNone || e.rulingTrail.isNone || e.traces.isNone ||
    e.framing.subDecisions.isNone ||
      e.framing.options.isNone, "required collection fields must be arrays, not null"),
    (e.asker = "" || e.addressedTo = "" || e.createdAt = "" || e.updatedAt = "",
      "required identity and timestamp fields must be non-empty")]

def timeChecks : Checks :=
  [(unparsed times e.createdAt, "created_at must be RFC3339"),
    (unparsed times e.updatedAt, "updated_at must be RFC3339")]

def memberChecks (owner : String) : Checks :=
  [(e.expects ∉ ["", "decide", "reply", "act", "read"],
    "expects must be decide, reply, act, read, or empty"),
    (owner ≠ "" && decide (e.asker = owner) == decide (e.addressedTo = owner),
      "exactly one of asker and addressed_to must equal mission owner"),
    (!([e.asker, e.addressedTo] <+: e.members.items && e.members.items.Nodup),
      "members must begin with asker and addressed_to without duplicates")]

def blockingChecks : Checks :=
  [(e.blocking.any fun blocking => blocking.fact = "" || blocking.actor = "" || blocking.at_ = "",
      "blocking must contain fact, actor, and at"),
    (e.blocking.any fun blocking => unparsed times blocking.at_, "blocking at must be RFC3339")]

def refChecks : Checks :=
  (!validRef e.anchor false, "anchor type or ref is invalid") ::
    e.links.items.map fun link => (!validRef link true, "link type or ref is invalid")

def replyChecks (reply : Reply) : Checks :=
  [(!fits replyIDPattern reply.id.toList || reply.actor = "" || reply.at_ = "" || reply.prose = "",
      "reply entries require id, actor, at, and prose"),
    (unparsed times reply.at_, "reply at must be RFC3339"),
    (reply.actor ∉ e.members.items, "reply actor must be a member")]

def rulingChecks (ruling : RulingEntry) : Checks :=
  [(ruling.actor = "" || ruling.at_ = "" || ruling.prose = "",
    "ruling trail entries require actor, at, and prose"),
    (unparsed times ruling.at_, "ruling at must be RFC3339")]

def closing (trace : Trace) : Bool := trace.action ∈ ["close", "withdraw"]

def traceChecks (trace : Trace) : Checks :=
  [(trace.action = "" || trace.actor = "" || trace.at_ = "",
    "trace entries require action, actor, and at"),
    (trace.action ∉ ["close", "withdraw", "widen-membership"], "trace action is invalid"),
    (unparsed times trace.at_, "trace at must be RFC3339"),
    (trace.action = "close" && (trace.outcome ∉ ["no-action", "superseded"] || trace.reason = ""),
      "close trace requires outcome and reason"),
    (trace.action = "withdraw" && (trace.outcome ∉ ["no-action", "superseded"] ||
        trace.reason = "" || !trace.citation.any (validRef · true)),
      "withdraw trace requires outcome, reason, and citation"),
    (trace.action = "widen-membership" && trace.member = "",
      "widen-membership trace requires member"),
    (trace.action = "widen-membership" && trace.member ∉ e.members.items,
      "widen-membership trace member must be in members"),
    (closing trace && (e.state ≠ "closed" || e.outcome ≠ some trace.outcome),
      "closure trace must match entity state and outcome")]

def incomplete (option : DecisionOption) : Bool :=
  option.id = "" || option.label = "" || option.cost = "" || option.risk = "" ||
    option.blastRadius = ""

def decideChecks : Checks :=
  let f := e.framing
  let ids := f.options.items.map DecisionOption.id
  if e.expects = "decide" then
    [(f.context = "" || f.question = "" || f.subDecisions.isNone || f.options.items.length < 2 ||
      4 < f.options.items.length ||
        f.recommendation.isNone || f.doNothing = "", "decide framing is incomplete"),
      (f.options.items.any incomplete || !ids.Nodup,
        "decision options are incomplete or duplicate"),
      (!f.recommendation.any fun recommendation => recommendation.choice ∈ ids &&
        recommendation.reason ≠ "",
        "recommendation must choose an option and explain why")]
  else []

def closureTraces : Nat := e.traces.items.countP closing

def closeChecks : Checks :=
  [(e.kind = "ruling" && e.rulingTrail.items.isEmpty, "ruling requires a ruling trail"),
    (e.outcome = some "settled" &&
      (e.kind ≠ "ruling" || e.rulingTrail.items.isEmpty || closureTraces e ≠ 0),
      "settled entity requires ruling kind and trail"),
    (e.state = "closed" && e.outcome.any (· ∈ ["no-action", "superseded"]) && closureTraces e ≠ 1,
      "non-settled closed entity requires exactly one matching closure trace"),
    (e.state = "open" && closureTraces e ≠ 0, "open entity cannot contain a closure trace")]

def checks (owner : String) : Checks :=
  stateChecks e ++ requiredChecks e ++ timeChecks times e ++ memberChecks e owner ++
    blockingChecks times e ++ refChecks e ++
    e.replies.items.flatMap (replyChecks times e) ++
      e.rulingTrail.items.flatMap (rulingChecks times) ++
    e.traces.items.flatMap (traceChecks times e) ++ decideChecks e ++ closeChecks e

def ValidateAsk (owner : String) : Option AskFailure :=
  if e.schema ≠ askSchema then
    some ⟨"unsupported_schema_version", "ask schema is not writable",
      "migrate the entity to mish.ask/v1 before mutating it"⟩
  else ((checks times e owner).find? Prod.fst).map fun check => invalid check.2

end

end AiConfig.Mish
