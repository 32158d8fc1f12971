import AiConfig.Herder.Bus.Subscribe

/-! # The events of the bus

Transcription of the events of `internal/hcomevents/events.go`, their projections and the
subscriptions to
them.  A text that an event lacks is empty, as the code reads it. -/

namespace AiConfig.Herder.Bus

/-- `event` less its id. -/
structure Payload where
  ts : String
  type : String
  instance_ : String
  from_ : String := ""
  deliveredTo : List String := []
  mentions : List String := []
  intent : String := ""
  thread : String := ""
  text : String := ""
  action : String := ""
  by_ : String := ""
  reason : String := ""
  batch : String := ""
  instances : List String := []
  parentName : String := ""
  isHcomLaunched : Option Bool := none
  oldStatus : String := ""
  newStatus : String := ""
  statusValue : String := ""
  session : String := ""
  deriving DecidableEq

abbrev HcomEvent := Event Payload

structure Message where
  id : Int
  from_ : String
  to_ : List String
  intent : String
  thread : String
  text : String
  sentAt : String

structure Life where
  id : Int
  ts : String
  instance_ : String
  action : String
  by_ : String
  reason : String
  batch : String
  instances : List String
  parentName : String
  isHcomLaunched : Option Bool

structure Status where
  id : Int
  ts : String
  instance_ : String
  oldStatus : String
  newStatus : String
  session : String

def projectMessage (parsed : HcomEvent) : Option Message :=
  match parsed.id with
  | none => none
  | some id =>
    let data := parsed.payload
    some ⟨id, data.from_, if data.deliveredTo = [] then data.mentions else data.deliveredTo,
      data.intent, data.thread, data.text, data.ts⟩

def projectLife (parsed : HcomEvent) : Option Life :=
  match parsed.id with
  | none => none
  | some id =>
    let data := parsed.payload
    if data.type ≠ "life" then none
    else
      some ⟨id, data.ts, data.instance_, data.action, data.by_, data.reason, data.batch,
        data.instances, data.parentName,
        data.isHcomLaunched⟩

def projectStatus (parsed : HcomEvent) : Option Status :=
  match parsed.id with
  | none => none
  | some id =>
    let data := parsed.payload
    if data.type ≠ "status" then none
    else
      some ⟨id, data.ts, data.instance_, data.oldStatus,
        if data.newStatus = "" then data.statusValue else data.newStatus, data.session⟩

section

variable {κ σ : Type}

def subscribe (emit : κ → σ → Message → σ × Bool) : Subscription Payload Message κ σ :=
  ⟨1, false, projectMessage, emit⟩

def subscribeLife (emit : κ → σ → Life → σ × Bool) : Subscription Payload Life κ σ :=
  ⟨500, true, projectLife, emit⟩

def subscribeListening (emit : κ → σ → Status → σ × Bool) : Subscription Payload Status κ σ :=
  ⟨5000, true, projectStatus, emit⟩

end

theorem projectStatus_id {e : HcomEvent} {status : Status} (own : projectStatus e = some status) :
    e.key = status.id := by
  unfold projectStatus at own
  split at own
  · cases own
  · next id same =>
    dsimp only at own
    split at own
    · cases own
    · cases own
      simp [Event.key, same]

end AiConfig.Herder.Bus
