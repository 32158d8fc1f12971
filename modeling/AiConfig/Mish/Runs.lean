import AiConfig.Mish.Kept

/-! # Asks over runs of requests

* `asks_survive` — whatever is asked and whatever fails, the files stay valid asks.
* `updates_apart` — no two requests that change an ask were made of the same version of it.
* `asks_grow` — what an ask has said stays said.
* `asks_authorized` — what an ask shows was done by those who may do it. -/

namespace AiConfig.Mish

open AiConfig.Lib

/-! ## What is written is read -/

section

variable {α : Type} {read : Option Yaml → Option α} {toYaml : α → Yaml}

theorem sliceOf_map {items : List α}
    (again : ∀ item ∈ items, read (some (toYaml item)) = some item) :
    sliceOf read (some (.sequence (items.map toYaml))) = some (some items) := by
  have mapped : (items.map toYaml).mapM (fun item => read (some item)) = some items := by
    induction items with
    | nil => rfl
    | cons item items inductionHypothesis =>
      rw [List.map_cons, List.mapM_cons, again item List.mem_cons_self,
        inductionHypothesis fun other inside => again other (List.mem_cons_of_mem _ inside)]
      rfl
  show ((items.map toYaml).mapM fun item => read (some item)).map some = _
  rw [mapped]
  rfl

end

theorem readOption_toYaml (option : DecisionOption) :
    readOption (some option.toYaml) = some option := rfl

theorem readFraming_toYaml {framing : Framing} (subDecisions : framing.subDecisions.isSome)
    (options : framing.options.isSome) :
    readFraming (some framing.toYaml) = some framing := by
  obtain ⟨context, question, subDecisions_, options_, recommendation, doNothing⟩ := framing
  obtain ⟨subDecisions_, rfl⟩ := Option.isSome_iff_exists.mp subDecisions
  obtain ⟨options_, rfl⟩ := Option.isSome_iff_exists.mp options
  have texts := @sliceOf_map _ textOf Yaml.text subDecisions_ fun text _ => textOf_text text
  have choices := @sliceOf_map _ readOption DecisionOption.toYaml options_ fun option _ =>
    readOption_toYaml option
  cases recommendation <;>
    simp [readFraming, Framing.toYaml, structOf, text, textOf_text, entries_cons, Slice.items,
      texts, choices, orNull] <;> rfl

/-- An empty list of options is not written, and then none is read. -/
theorem readRuling_toYaml {ruling : RulingEntry} (presented : ruling.optionsAsPresented ≠ some []) :
    readRuling (some ruling.toYaml) = some ruling := by
  obtain ⟨question, options, choice, prose, actor, stamp⟩ := ruling
  cases options with
  | none =>
    have read : sliceOf readOption none = some none := rfl
    by_cases noQuestion : question = "" <;> by_cases noChoice : choice = "" <;>
      simp [readRuling, RulingEntry.toYaml, unlessEmpty, structOf, text, textOf_text, textOf_none,
        entries_cons, entries_nil,
        Slice.items, *]
  | some options =>
    cases options with
    | nil => exact absurd rfl presented
    | cons option options =>
      have read :
          sliceOf readOption
          (some (.sequence (option.toYaml :: options.map DecisionOption.toYaml))) =
          some (some (option :: options)) :=
        @sliceOf_map _ readOption DecisionOption.toYaml (option :: options) fun option _ =>
          readOption_toYaml option
      by_cases noQuestion : question = "" <;> by_cases noChoice : choice = "" <;>
        simp [readRuling, RulingEntry.toYaml, unlessEmpty, structOf, text, textOf_text, textOf_none,
          entries_cons, entries_nil,
          Slice.items, *]

/-- An entity that YAML keeps: no nil slices, which are written as empty ones. -/
structure Whole (e : AskEntity) : Prop where
  links : e.links.isSome
  members : e.members.isSome
  subDecisions : e.framing.subDecisions.isSome
  options : e.framing.options.isSome
  replies : e.replies.isSome
  rulings : e.rulingTrail.isSome
  presented : ∀ ruling ∈ e.rulingTrail.items, ruling.optionsAsPresented ≠ some []
  traces : e.traces.isSome

/-- What is written of an entity is read as that entity. -/
theorem reads_toYaml {e : AskEntity} (whole : Whole e) : Reads e.toYaml e := by
  have framing := readFraming_toYaml whole.subDecisions whole.options
  obtain ⟨schema, id, kind, state, outcome, asker, addressedTo, createdAt, updatedAt, expects,
    blocking, anchor, links, members,
    framing_, replies, rulings, traces⟩ := e
  obtain ⟨links, rfl⟩ := Option.isSome_iff_exists.mp whole.links
  obtain ⟨members, rfl⟩ := Option.isSome_iff_exists.mp whole.members
  obtain ⟨replies, rfl⟩ := Option.isSome_iff_exists.mp whole.replies
  obtain ⟨rulings, rfl⟩ := Option.isSome_iff_exists.mp whole.rulings
  obtain ⟨traces, rfl⟩ := Option.isSome_iff_exists.mp whole.traces
  have linked := @sliceOf_map _ readRef TypedRef.toYaml links fun ref _ => readRef_toYaml ref
  have named := @sliceOf_map _ textOf Yaml.text members fun member _ => textOf_text member
  have replied :=
    @sliceOf_map _ readReply Reply.toYaml replies fun reply _ => readReply_toYaml reply
  have traced := @sliceOf_map _ readTrace Trace.toYaml traces fun trace _ => readTrace_toYaml trace
  have ruled := sliceOf_map fun ruling inside => readRuling_toYaml (whole.presented ruling inside)
  simp only [Slice.items, Option.getD_some] at ruled
  have blocked : pointerOf readBlocking (blocking.map Blocking.toYaml) = some blocking := by
    cases blocking <;> rfl
  have ended : pointerOf textOf (some (orNull (outcome.map Yaml.text))) = some outcome := by
    cases outcome <;> rfl
  cases blocking with
  | none =>
    constructor <;>
      simp [AskEntity.toYaml, AskEntity.fields, text, entries_cons, entries_nil, textOf_text,
        Slice.items, readRef_toYaml, framing, linked, named, replied,
        traced, ruled, ended, pointerOf_none]
  | some blocking =>
    constructor <;>
      simp [AskEntity.toYaml, AskEntity.fields, text, entries_cons, textOf_text, Slice.items,
        readRef_toYaml, framing, linked, named, replied,
        traced, ruled, ended]
    exact blocked

/-- What is written of an entity is plain. -/
theorem toYaml_plain (e : AskEntity) : e.toYaml.Plain := by
  have texts : ∀ items : List String, (Yaml.sequence (items.map .text)).Plain :=
    plain_map .text (by simp)
  have option : ∀ option : DecisionOption, option.toYaml.Plain := fun _ => plain_entries (by simp)
  have options : ∀ items :
      List DecisionOption, (Yaml.sequence (items.map DecisionOption.toYaml)).Plain :=
    plain_map option (by simp [DecisionOption.toYaml])
  have recommended : (orNull (e.framing.recommendation.map Recommendation.toYaml)).Plain := by
    cases e.framing.recommendation with
    | none => exact .null
    | some _ => exact plain_entries (by simp)
  have framing : e.framing.toYaml.Plain := plain_entries (by simp [texts, options, recommended])
  have ruling : ∀ ruling : RulingEntry, ruling.toYaml.Plain := by
    intro ruling
    refine plain_entries ?_
    simp only [List.forall_mem_append]
    refine ⟨⟨⟨plain_unlessEmpty _ _, ?_⟩, plain_unlessEmpty _ _⟩, by simp⟩
    split <;> simp [options]
  have ended : (orNull (e.outcome.map .text)).Plain := by cases e.outcome <;> simp [orNull]
  have blocked : ∀ blocking : Blocking, blocking.toYaml.Plain := fun _ => plain_entries (by simp)
  have links := plain_map TypedRef.toYaml_plain (by simp [TypedRef.toYaml]) e.links.items
  have replies := plain_map Reply.toYaml_plain (by simp [Reply.toYaml]) e.replies.items
  have rulings := plain_map ruling (by simp [RulingEntry.toYaml]) e.rulingTrail.items
  have traces := plain_map Trace.toYaml_plain (by simp [Trace.toYaml]) e.traces.items
  refine plain_entries ?_
  simp only [AskEntity.fields, List.forall_mem_append]
  refine ⟨⟨by simp [ended], ?_⟩, by simp [TypedRef.toYaml_plain, texts, framing, links, replies,
    rulings, traces]⟩
  cases e.blocking <;> simp [blocked]

/-! ## Sound files -/

/-- An ask under its own id, updated at an instant up to a limit. -/
structure Sound (times : Times) (owner : String) (first limit : Int) (id : String)
    (doc : AskDocument) : Prop extends Good times owner doc where
  named : doc.entity.id = id
  updated : ∃ t, times.instant doc.entity.updatedAt = some t ∧ first ≤ t ∧ t ≤ limit

section

variable {Text : Type} (yaml : YamlPackage Text)

/-- The document that the file of an id shows. -/
def Holds (files : Files Text) (id : String) (doc : AskDocument) : Prop :=
  ∃ file, files id = some file ∧ readAskFile yaml file = .ok doc

def SoundFiles (times : Times) (owner : String) (first limit : Int) (files : Files Text) : Prop :=
  ∀ id file, files id = some file → ∃ doc, Sound times owner first limit id doc ∧
    readAskFile yaml file = .ok doc

end

section

variable {Text : Type} {yaml : YamlPackage Text} {times : Times} {m : Manifest}
  {owner actor : String}
  {first limit last : Int} {id : String} {doc doc' : AskDocument} {files : Files Text}

theorem Sound.mono {later : Int} (sound : Sound times owner first limit id doc)
    (more : limit ≤ later) :
    Sound times owner first later id doc where
  toGood := sound.toGood
  named := sound.named
  updated := by
    obtain ⟨t, parsed, early, late⟩ := sound.updated
    exact ⟨t, parsed, early, Int.le_trans late more⟩

theorem SoundFiles.mono {later : Int} (sound : SoundFiles yaml times owner first limit files)
    (more : limit ≤ later) :
    SoundFiles yaml times owner first later files := by
  intro id file found
  obtain ⟨doc, own, same⟩ := sound id file found
  exact ⟨doc, own.mono more, same⟩

/-- A file shows one document. -/
theorem Holds.unique {other : AskDocument} (holds : Holds yaml files id doc)
    (holds' : Holds yaml files id other) : doc = other := by
  obtain ⟨file, found, read⟩ := holds
  obtain ⟨file', found', read'⟩ := holds'
  obtain rfl := Option.some.inj (found.symm.trans found')
  exact Except.ok.inj (read.symm.trans read')

/-- Under sound files the document of an id is a sound one. -/
theorem SoundFiles.holds (sound : SoundFiles yaml times owner first limit files)
    (holds : Holds yaml files id doc) :
    Sound times owner first limit id doc := by
  obtain ⟨file, found, read⟩ := holds
  obtain ⟨other, own, read'⟩ := sound id file found
  obtain rfl := Except.ok.inj (read.symm.trans read')
  exact own

/-- What is written of a document is read as that document. -/
theorem readAskFile_stored (lawful : yaml.Lawful) (good : Good times owner doc) :
    readAskFile yaml (stored yaml doc) = .ok doc := by
  have map := lawful.map doc.raw good.plain
  have entity := lawful.typed _ _ map good.plain
  unfold readAskFile stored
  dsimp only
  rw [map, entity, readEntity_iff.mpr good.inStep]

theorem Holds.put (lawful : yaml.Lawful) (good : Good times owner doc) :
    Holds yaml (Function.update files id (some (stored yaml doc))) id doc :=
  ⟨_, Function.update_self .., readAskFile_stored lawful good⟩

theorem Holds.put_other {other : String} {file : Option (AskFile Text)} (apart : id ≠ other) :
    Holds yaml (Function.update files other file) id doc ↔ Holds yaml files id doc := by
  unfold Holds
  rw [Function.update_of_ne apart]

theorem SoundFiles.put (lawful : yaml.Lawful)
    (sound : SoundFiles yaml times owner first limit files)
    (own : Sound times owner first limit id doc) :
    SoundFiles yaml times owner first limit
      (Function.update files id (some (stored yaml doc))) := by
  intro other file found
  by_cases same : other = id
  · rw [same, Function.update_self] at found
    obtain rfl := Option.some.inj found
    exact ⟨doc, same ▸ own, readAskFile_stored lawful own.toGood⟩
  · rw [Function.update_of_ne same] at found
    exact sound other file found

theorem bind_ok {ε α β : Type} {x : Except ε α} {f : α → Except ε β} {b : β}
    (ok : (x >>= f) = .ok b) : ∃ a, x = .ok a ∧ f a = .ok b := by
  cases x with
  | error error => cases ok
  | ok a => exact ⟨a, rfl, ok⟩

theorem ReadAsk_ok {faults : Faults} (read : ReadAsk yaml files id faults = .ok doc) :
    Holds yaml files id doc ∧ doc.entity.id = id := by
  unfold ReadAsk at read
  split at read
  · cases read
  · split at read
    · cases read
    · split at read
      · cases read
      · next file found =>
        obtain ⟨held, opened, named⟩ := bind_ok read
        split at named
        · cases named
        · next same =>
          obtain rfl := Except.ok.inj named
          exact ⟨⟨file, found, opened⟩, not_not.mp same⟩

theorem precondition_ok {ifUpdated : String} (passed : precondition times doc ifUpdated = .ok ()) :
    ifUpdated ≠ "" ∧ doc.entity.updatedAt = ifUpdated := by
  unfold precondition at passed
  split at passed
  · cases passed
  · split at passed
    · cases passed
    · split at passed
      · cases passed
      · next given =>
        split at passed
        · cases passed
        · next same => exact ⟨given, not_not.mp same⟩

theorem changed_ok {ifUpdated : String} {now : Int} {faults : Faults}
    {change : AskDocument → String → Except AskFailure AskDocument}
    {after : AskDocument} (ok : changed yaml times files id ifUpdated now faults change =
    .ok after) :
    ∃ doc doc', Holds yaml files id doc ∧ doc.entity.updatedAt = ifUpdated ∧
      change doc (strictlyLater times now doc.entity.updatedAt) = .ok doc' ∧
      after = doc'.setUpdatedAt (strictlyLater times now doc.entity.updatedAt) := by
  unfold changed at ok
  obtain ⟨doc, read, ok⟩ := bind_ok ok
  obtain ⟨_, checked, made⟩ := bind_ok ok
  dsimp only at made
  split at made
  · cases made
  · next doc' made' =>
    exact ⟨doc, doc', (ReadAsk_ok read).1, (precondition_ok checked).2, made',
      (Except.ok.inj made).symm⟩

/-- The new stamp shows an instant after the old one. -/
theorem strictlyLater_instant (lawful : times.Lawful first last) {prior : String} {p now : Int}
    (shown : times.instant prior = some p)
    (early : first ≤ p) (late : p ≤ limit) (started : first ≤ now) (clock : now ≤ limit)
    (room : limit + 1 ≤ last) :
    ∃ t, times.instant (strictlyLater times now prior) = some t ∧ p < t ∧ first ≤ t ∧
      t ≤ limit + 1 := by
  obtain ⟨⟨p, zone⟩, parsed, rfl⟩ := Option.map_eq_some_iff.mp shown
  unfold strictlyLater
  rw [parsed]
  dsimp only at *
  split
  · exact ⟨p + 1, lawful.again _ _ (by omega) (by omega), by omega, by omega, by omega⟩
  · exact ⟨now, lawful.again _ _ (by omega) (by omega), by omega, by omega, by omega⟩

theorem Times.Lawful.stamped (lawful : times.Lawful first last) {stamp : String} {t : Int}
    (shown : times.instant stamp = some t) :
    stamp ≠ "" := by
  rintro rfl
  rw [Times.instant, lawful.empty] at shown
  cases shown

theorem parsed_of_instant {stamp : String} {t : Int} (shown : times.instant stamp = some t) :
    (times.parse stamp).isNone = false := by
  obtain ⟨parsed, found, -⟩ := Option.map_eq_some_iff.mp shown
  rw [found]
  rfl

/-! ## Healthy files -/

def noFaults : Faults := ⟨false, false, false⟩

/-- Every file is read under its id in plain values, is valid and was updated by an instant. -/
def Healthy (yaml : YamlPackage Text) (times : Times) (owner : String) (first limit : Int)
    (files : Files Text) : Prop :=
  ∀ id file, files id = some file → ∃ doc, ReadAsk yaml files id noFaults = .ok doc ∧
    doc.raw.Plain ∧
    ValidateAskDocument times doc owner = none ∧ ∃ t, times.instant doc.entity.updatedAt = some t ∧
      first ≤ t ∧ t ≤ limit

theorem validateAskDocument_iff : ValidateAskDocument times doc owner = none ↔
    (∀ key ∈ requiredKeys, (doc.raw key).isSome) ∧ Valid times owner doc.entity := by
  unfold ValidateAskDocument
  split
  · next key missing =>
    have absent := List.find?_some missing
    have own := List.mem_of_find?_eq_some missing
    constructor
    · intro failed
      cases failed
    · intro both
      have there := both.1 key own
      rw [Option.isNone_iff_eq_none.mp absent] at there
      cases there
  · next none_ =>
    rw [valid_iff]
    refine ⟨fun valid => ⟨fun key own => ?_, valid⟩, And.right⟩
    have there := List.find?_eq_none.mp none_ key own
    simpa [Option.isSome_iff_ne_none] using there

theorem Sound.read (sound : Sound times owner first limit id doc)
    (found : Holds yaml files id doc) :
    ReadAsk yaml files id noFaults = .ok doc := by
  have state := sound.valid.state
  simp only [stateChecks, passes_cons, sound.named] at state
  obtain ⟨file, there, shows⟩ := found
  unfold ReadAsk
  rw [state.1, there]
  simp only [Bool.false_eq_true, if_false, noFaults]
  rw [shows]
  show (if doc.entity.id ≠ id then _ else _) = _
  rw [if_neg (not_not.mpr sound.named)]

/-- What is read of a plain frontmatter is the entity beside it. -/
theorem Holds.inStep (lawful : yaml.Lawful) (found : Holds yaml files id doc)
    (plain : doc.raw.Plain) : doc.InStep := by
  obtain ⟨file, -, read⟩ := found
  unfold readAskFile at read
  split at read
  · next raw entity map typed =>
    obtain rfl := Except.ok.inj read
    exact readEntity_iff.mp ((lawful.typed _ _ map plain).symm.trans typed)
  · cases read

theorem healthy_iff (lawful : yaml.Lawful) :
    Healthy yaml times owner first limit files ↔ SoundFiles yaml times owner first limit files := by
  constructor
  · intro healthy id file found
    obtain ⟨doc, read, plain, valid, updated⟩ := healthy id file found
    obtain ⟨keyed, valid⟩ := validateAskDocument_iff.mp valid
    obtain ⟨holds, named⟩ := ReadAsk_ok read
    have sound : Sound times owner first limit id doc :=
      ⟨⟨plain, holds.inStep lawful plain, keyed, valid⟩, named, updated⟩
    obtain ⟨other, there, shows⟩ := holds
    obtain rfl := Option.some.inj (found.symm.trans there)
    exact ⟨doc, sound, shows⟩
  · intro sound id file found
    obtain ⟨doc, own, shows⟩ := sound id file found
    exact ⟨doc, own.read ⟨file, found, shows⟩, own.plain,
      validateAskDocument_iff.mpr ⟨own.keyed, own.valid⟩, own.updated⟩

/-! ## What one request does -/

/-- The second document was written at a later instant. -/
def Later (times : Times) (before after : AskDocument) : Prop :=
  ∃ p t, times.instant before.entity.updatedAt = some p ∧
    times.instant after.entity.updatedAt = some t ∧ p < t

theorem changed_sound (yamlLawful : yaml.Lawful) (lawful : times.Lawful first last)
    (room : limit + 1 ≤ last)
    (sound : SoundFiles yaml times m.owner first limit files)
    {ifUpdated : String} {now : Int} {faults : Faults} {mutation : Mutation} {after : AskDocument}
    (started : first ≤ now)
    (clock : now ≤ limit) (named : actor ≠ "")
    (ok : changed yaml times files id ifUpdated now faults
    (fun doc stamp => applyAskMutation yaml times m actor stamp doc mutation) =
      .ok after) :
    ∃ doc, Holds yaml files id doc ∧ Sound times m.owner first limit id doc ∧
      doc.entity.updatedAt = ifUpdated ∧
      Sound times m.owner first (limit + 1) id after ∧ Grows doc after ∧ Later times doc after ∧
      (Authorized m doc.entity → Authorized m after.entity) := by
  obtain ⟨doc, doc', found, given, made, rfl⟩ := changed_ok ok
  have own := sound.holds found
  obtain ⟨p, parsed, early, late⟩ := own.updated
  obtain ⟨t, shows, later, after_, before⟩ :=
    strictlyLater_instant lawful parsed early late started clock room
  have stamped := lawful.stamped shows
  have some_ := parsed_of_instant shows
  have edits := (applied made).2
  have grows := edits.grows
  have good := (own.toGood.edits yamlLawful edits named stamped some_).setUpdatedAt stamped some_
  have id_ : doc'.entity.id = doc.entity.id := congrArg (fun fixed => fixed.2.1) grows.fixed
  exact ⟨doc, found, own, given, ⟨good, id_.trans own.named, t, shows, after_, before⟩,
    grows.trans (.setUpdatedAt _ _),
    ⟨p, t, parsed, shows, later⟩, fun authorized => { edits.authorized authorized with }⟩

theorem newEntity_whole (input : CreateInput) (stamp : String) : Whole (newEntity input stamp) where
  links := rfl
  members := rfl
  subDecisions := rfl
  options := rfl
  replies := rfl
  rulings := rfl
  presented := fun _ inside => absurd inside List.not_mem_nil
  traces := rfl

theorem createdEntity_whole {input : CreateInput} {stamp : String} {e : AskEntity}
    (created : createdEntity m input stamp = .ok e) :
    Whole e ∧ e.updatedAt = stamp := by
  have whole := newEntity_whole input stamp
  unfold createdEntity at created
  dsimp only at created
  split at created
  · obtain rfl := Except.ok.inj created
    exact ⟨whole, rfl⟩
  · split at created
    · cases created
    · split at created
      · cases created
      · next prose _ =>
        obtain rfl := Except.ok.inj created
        refine ⟨{ whole with rulings := rfl, presented := fun ruling inside => ?_ }, rfl⟩
        obtain rfl := List.mem_singleton.mp inside
        exact fun same => by cases same

theorem Valid.created (valid : Valid times owner e) (owned : owner ≠ "") :
    e.asker = owner ↔ e.addressedTo ≠ owner := by
  have checked := valid.members
  simp only [memberChecks, passes_cons] at checked
  have one := checked.2.1
  by_cases asker : e.asker = owner <;> by_cases addressee : e.addressedTo = owner <;> simp_all

/-- An ask that is made is between the owner and another; a ruling that it is made with is the
asker's, and
addressed to the owner. -/
theorem createdEntity_authorized {input : CreateInput} {stamp : String} {e : AskEntity}
    (created : createdEntity m input stamp = .ok e)
    (valid : Valid times m.owner e) : Authorized m e := by
  have members : ∀ e : AskEntity, e.members = (newEntity input stamp).members →
    e.asker = input.actor → e.addressedTo = input.addressedTo →
      e.traces = some [] → Valid times m.owner e → e.members.items = [e.asker, e.addressedTo] ++
          (e.traces.items.filter widens).map Trace.member := by
    intro e own asker addressedTo traces valid
    have checked := valid.members
    simp only [memberChecks, passes_cons, Bool.not_eq_false', Bool.and_eq_true,
      decide_eq_true_eq] at checked
    obtain ⟨rest, split⟩ := checked.2.2.1.1
    rw [traces, asker, addressedTo]
    rw [asker, addressedTo] at split
    rw [own] at split ⊢
    by_cases two : input.addressedTo ≠ input.actor
    · simp [newEntity, two, Slice.items]
    · simp [newEntity, two, Slice.items] at split
  have none_ : ∀ trace : Trace, trace ∉ (newEntity input stamp).traces.items :=
    fun _ => List.not_mem_nil
  unfold createdEntity at created
  dsimp only at created
  split at created
  · obtain rfl := Except.ok.inj created
    exact ⟨valid.created, fun _ inside => absurd inside List.not_mem_nil, fun _ inside =>
      absurd inside List.not_mem_nil,
      fun _ inside => absurd inside (none_ _), fun _ inside => absurd inside (none_ _),
        fun _ inside => absurd inside (none_ _),
      members _ rfl rfl rfl rfl valid, fun settled => by cases settled⟩
  · split at created
    · cases created
    · next owner =>
      split at created
      · cases created
      · obtain rfl := Except.ok.inj created
        refine ⟨valid.created, fun _ inside => absurd inside List.not_mem_nil, fun ruling inside =>
          Or.inr ?_,
          fun _ inside => absurd inside (none_ _), fun _ inside => absurd inside (none_ _),
            fun _ inside => absurd inside (none_ _),
          members _ rfl rfl rfl rfl valid, fun settled => by cases settled⟩
        obtain rfl := List.mem_singleton.mp inside
        exact ⟨rfl, not_not.mp owner⟩

theorem checkedEntity_whole {now : Int} {random : Except String (Nat → BitVec 8)}
    {input : Option CreateInput} {e : AskEntity}
    (checked : checkedEntity times m now random input = .ok e) : Whole e ∧
    e.updatedAt = times.format now times.utc ∧ Valid times m.owner e ∧ Authorized m e := by
  cases input with
  | none => cases checked
  | some input =>
    unfold checkedEntity at checked
    dsimp only at checked
    split at checked
    · cases checked
    obtain ⟨input', -, rest⟩ := bind_ok checked
    obtain ⟨entity, created, rest⟩ := bind_ok rest
    split at rest
    · cases rest
    · next valid =>
      obtain rfl := Except.ok.inj rest
      exact ⟨(createdEntity_whole created).1, (createdEntity_whole created).2, valid_iff.mp valid,
        createdEntity_authorized created (valid_iff.mp valid)⟩

/-- A new document. -/
def newDocument (e : AskEntity) : AskDocument := ⟨e, e.toYaml, []⟩

theorem newDocument_sound (lawful : times.Lawful first last) {e : AskEntity} {now : Int}
    (whole : Whole e)
    (stamp : e.updatedAt = times.format now times.utc) (valid : Valid times owner e)
    (started : first ≤ now) (clock : now ≤ limit)
    (room : limit ≤ last) : Sound times owner first limit e.id (newDocument e) where
  plain := toYaml_plain e
  inStep := reads_toYaml whole
  keyed := by
    intro key own
    have reads := reads_toYaml whole
    simp only [requiredKeys, List.mem_cons, List.not_mem_nil, or_false] at own
    obtain rfl | rfl | rfl | rfl | rfl | rfl | rfl | rfl | rfl | rfl | rfl | rfl | rfl | rfl | rfl |
      rfl | rfl := own <;>
      simp [newDocument, AskEntity.toYaml, AskEntity.fields, entries_cons, entries_append]
  valid := valid
  named := rfl
  updated :=
    ⟨now, by rw [newDocument, stamp]; exact lawful.again now _ started (Int.le_trans clock room),
    started, clock⟩

/-- What a request does to sound files, with its answer. -/
inductive Effect (yaml : YamlPackage Text) (times : Times) (m : Manifest) (first limit : Int)
    (files : Files Text)
    (request : Request) : Except AskError AskEntity → Files Text → Prop where
  | refused (error : AskError) : Effect yaml times m first limit files request (.error error) files
  | present {doc : AskDocument} (found : Holds yaml files doc.entity.id doc) :
      Effect yaml times m first limit files request (.ok doc.entity) files
  | created {doc : AskDocument} {input : Option CreateInput} {now : Int}
      {random : Except String (Nat → BitVec 8)} {faults : Faults}
      (asked : request = .create input now random faults) (absent : files doc.entity.id = none)
      (sound : Sound times m.owner first limit doc.entity.id doc)
        (authorized : Authorized m doc.entity) :
      Effect yaml times m first limit files request (.ok doc.entity)
        (Function.update files doc.entity.id (some (stored yaml doc)))
  | changed {id : String} {common : CommonMutation} {mutation : Mutation} {now : Int}
      {faults : Faults} {doc doc' : AskDocument}
      {answer : Except AskError AskEntity}
        (asked : request = .mutate id (some common) mutation now faults)
      (found : Holds yaml files id doc) (sound : Sound times m.owner first limit id doc)
      (given : doc.entity.updatedAt = common.ifUpdatedAt)
        (sound' : Sound times m.owner first (limit + 1) id doc')
      (grows : Grows doc doc') (later : Later times doc doc')
        (authorized : Authorized m doc.entity → Authorized m doc'.entity)
      (answers : answer = .ok doc'.entity ∨ answer = .error .io) :
      Effect yaml times m first limit files request answer
        (Function.update files id (some (stored yaml doc')))

theorem Effect.sound {request : Request} {answer : Except AskError AskEntity} {files' : Files Text}
    (yamlLawful : yaml.Lawful)
    (effect : Effect yaml times m first limit files request answer files')
    (sound : SoundFiles yaml times m.owner first limit files) :
    SoundFiles yaml times m.owner first (limit + 1) files' := by
  have more : limit ≤ limit + 1 := by omega
  cases effect with
  | refused _ | present _ => exact sound.mono more
  | created _ _ own _ => exact (sound.mono more).put yamlLawful (own.mono more)
  | changed _ _ _ _ own _ _ _ _ => exact (sound.mono more).put yamlLawful own

/-- An ask that is there has grown after a request; it is as it was or was written later. -/
theorem Effect.grows {request : Request} {answer : Except AskError AskEntity} {files' : Files Text}
    (yamlLawful : yaml.Lawful)
    (effect : Effect yaml times m first limit files request answer files')
    (found : Holds yaml files id doc) :
    ∃ doc', Holds yaml files' id doc' ∧ Grows doc doc' ∧ (doc' = doc ∨ Later times doc doc') := by
  cases effect with
  | refused _ | present _ => exact ⟨doc, found, .refl _, Or.inl rfl⟩
  | @created made _ _ _ _ _ absent _ _ =>
    have apart : id ≠ made.entity.id := by
      rintro rfl
      obtain ⟨file, there, -⟩ := found
      rw [absent] at there
      cases there
    exact ⟨doc, (Holds.put_other apart).mpr found, .refl _, Or.inl rfl⟩
  | @changed other _ _ _ _ before after _ _ held own given own' grows later _ _ =>
    by_cases same : id = other
    · subst same
      obtain rfl := found.unique held
      exact ⟨after, .put yamlLawful own'.toGood, grows, Or.inr later⟩
    · exact ⟨doc, (Holds.put_other same).mpr found, .refl _, Or.inl rfl⟩

theorem Effect.answered {request : Request} {answer : Except AskError AskEntity}
    {files' : Files Text} {e : AskEntity}
    (yamlLawful : yaml.Lawful) (effect : Effect yaml times m first limit files request answer
    files') (accepted : answer = .ok e) :
    ∃ doc, doc.entity = e ∧ Holds yaml files' e.id doc := by
  cases effect with
  | refused _ => cases accepted
  | present found =>
    obtain rfl := Except.ok.inj accepted
    exact ⟨_, rfl, found⟩
  | created _ _ own _ =>
    obtain rfl := Except.ok.inj accepted
    exact ⟨_, rfl, .put yamlLawful own.toGood⟩
  | changed _ _ _ _ own _ _ _ answers =>
    cases answers with
    | inl ok =>
      obtain rfl := Except.ok.inj (ok.symm.trans accepted)
      refine ⟨_, rfl, ?_⟩
      rw [own.named]
      exact .put yamlLawful own.toGood
    | inr io => cases io.symm.trans accepted

/-- What is refused for a reason leaves every file as it was. -/
theorem Effect.refusal {request : Request} {answer : Except AskError AskEntity}
    {files' : Files Text} {failure : AskFailure}
    (effect : Effect yaml times m first limit files request answer files')
    (refused : answer = .error (.failure failure)) : files' = files := by
  cases effect with
  | refused _ | present _ => rfl
  | created _ _ _ _ => cases refused
  | changed _ _ _ _ _ _ _ _ answers =>
    cases answers with
    | inl ok => cases ok.symm.trans refused
    | inr io => cases io.symm.trans refused

theorem Effect.took {request : Request} {answer : Except AskError AskEntity} {files' : Files Text}
    {common : CommonMutation}
    {mutation : Mutation} {now : Int} {faults : Faults} (yamlLawful : yaml.Lawful)
    (effect : Effect yaml times m first limit files request answer files')
    (asked : request = .mutate id (some common) mutation now faults) (took : files' ≠ files) :
    ∃ doc doc', Sound times m.owner first limit id doc ∧ Holds yaml files id doc ∧
      doc.entity.updatedAt = common.ifUpdatedAt ∧
      Sound times m.owner first (limit + 1) id doc' ∧ Holds yaml files' id doc' ∧
        Later times doc doc' := by
  cases effect with
  | refused _ | present _ => exact absurd rfl took
  | created asked' _ _ _ => cases asked'.symm.trans asked
  | changed asked' found own given own' grows later _ _ =>
    obtain ⟨rfl, same, -⟩ := Request.mutate.inj (asked'.symm.trans asked)
    obtain rfl := Option.some.inj same
    exact ⟨_, _, own, found, given, own', .put yamlLawful own'.toGood, later⟩

theorem ReadAsk_update_of_ne {other : String} (apart : id ≠ other) (file : Option (AskFile Text))
    (faults : Faults) :
    ReadAsk yaml (Function.update files other file) id faults = ReadAsk yaml files id faults := by
  unfold ReadAsk
  rw [Function.update_of_ne apart]

/-- All that asks show was done by those who may do it. -/
def AuthorizedFiles (yaml : YamlPackage Text) (m : Manifest) (files : Files Text) : Prop :=
  ∀ id doc, ReadAsk yaml files id noFaults = .ok doc → Authorized m doc.entity

theorem AuthorizedFiles.put {owner : String} (yamlLawful : yaml.Lawful)
    (own : AuthorizedFiles yaml m files)
    (good : Good times owner doc) (authorized : Authorized m doc.entity) :
    AuthorizedFiles yaml m (Function.update files id (some (stored yaml doc))) := by
  intro other held read
  by_cases same : other = id
  · have found := (ReadAsk_ok read).1
    rw [same] at found
    obtain rfl := found.unique (Holds.put yamlLawful good)
    exact authorized
  · rw [ReadAsk_update_of_ne same] at read
    exact own other held read

theorem Effect.authorized {request : Request} {answer : Except AskError AskEntity}
    {files' : Files Text} (yamlLawful : yaml.Lawful)
    (effect : Effect yaml times m first limit files request answer files')
    (own : AuthorizedFiles yaml m files) :
    AuthorizedFiles yaml m files' := by
  cases effect with
  | refused _ | present _ => exact own
  | created _ _ sound authorized => exact own.put yamlLawful sound.toGood authorized
  | changed _ found sound _ sound' _ _ authorized _ =>
    exact own.put yamlLawful sound'.toGood (authorized (own _ _ (sound.read found)))

variable [DecidableEq Text]

theorem WriteNewAsk_effect (yamlLawful : yaml.Lawful)
    (sound : SoundFiles yaml times m.owner first limit files) {entity : AskEntity}
    (own : Sound times m.owner first limit entity.id (newDocument entity))
    (authorized : Authorized m entity)
    {request : Request} {input : Option CreateInput} {now : Int}
    {random : Except String (Nat → BitVec 8)} {faults : Faults}
    (asked : request = .create input now random faults) :
    Effect yaml times m first limit files request (WriteNewAsk yaml files entity faults).1
      (WriteNewAsk yaml files entity faults).2 := by
  unfold WriteNewAsk
  split
  · exact .refused _
  · split
    · next file found =>
      split
      · exact .refused _
      · next existing read =>
        split
        · have holds : Holds yaml files entity.id existing := ⟨file, found, read⟩
          refine .present ?_
          rwa [(sound.holds holds).named]
        · exact .refused _
    · next absent =>
      rw [yamlLawful.ask]
      dsimp only
      split
      · exact .refused _
      · exact @Effect.created _ yaml times m first limit files _
          (newDocument entity) input now random faults asked absent own
          authorized

theorem runAsks_effect (yamlLawful : yaml.Lawful) (lawful : times.Lawful first last)
    (room : limit + 1 ≤ last)
    (sound : SoundFiles yaml times m.owner first limit files) {request : Request}
    (started : first ≤ request.now)
    (clock : request.now ≤ limit) :
    Effect yaml times m first limit files request (runAsks yaml times m files request).1
      (runAsks yaml times m files request).2 := by
  cases request with
  | create input now random faults =>
    show Effect _ _ _ _ _ _ _ (runAsksCreate yaml times m files now random faults input).1
      (runAsksCreate yaml times m files now random faults input).2
    unfold runAsksCreate
    split
    · exact .refused _
    · next entity checked =>
      obtain ⟨whole, stamp, valid, authorized⟩ := checkedEntity_whole checked
      exact WriteNewAsk_effect yamlLawful sound
        (newDocument_sound lawful whole stamp valid started clock (by omega)) authorized rfl
  | mutate id common mutation now faults =>
    cases common with
    | none => exact .refused _
    | some common =>
      unfold runAsks
      dsimp only
      split
      · exact .refused _
      · next named =>
        unfold MutateAsk
        split
        · exact .refused _
        · next after ok =>
          obtain ⟨doc, found, own, given, own', grows, later, authorized⟩ :=
            changed_sound yamlLawful lawful room sound started clock named ok
          split
          · exact .refused _
          · refine .changed rfl found own given own' grows later authorized ?_
            cases faults.reread with
            | true => exact Or.inr rfl
            | false =>
              left
              show Except.map AskDocument.entity (readAskFile yaml (stored yaml after)) = _
              rw [readAskFile_stored yamlLawful own'.toGood]
              rfl

/-! ## What runs do -/

theorem afterRequests_append (files : Files Text) (front back : List Request) :
    afterRequests yaml times m files (front ++ back) =
      afterRequests yaml times m (afterRequests yaml times m files front) back :=
  List.foldl_append

/-- The clocks of requests, between two instants. -/
def Clocked (first limit : Int) (requests : List Request) : Prop :=
  ∀ request ∈ requests, first ≤ request.now ∧ request.now ≤ limit

theorem SoundFiles.run (yamlLawful : yaml.Lawful) (lawful : times.Lawful first last)
    (sound : SoundFiles yaml times m.owner first limit files) {requests : List Request}
    (clocked : Clocked first limit requests) (room : limit + requests.length ≤ last) :
    SoundFiles yaml times m.owner first (limit + requests.length)
      (afterRequests yaml times m files requests) := by
  induction requests generalizing files limit with
  | nil => simpa [afterRequests] using sound
  | cons request rest inductionHypothesis =>
    have length : ((request :: rest).length : Int) = rest.length + 1 := by simp
    rw [length] at room ⊢
    have own := clocked request List.mem_cons_self
    have next :=
      (runAsks_effect yamlLawful lawful (by omega) sound own.1 own.2).sound yamlLawful sound
    have more : Clocked first (limit + 1) rest := fun other inside => by
      have own := clocked other (List.mem_cons_of_mem _ inside)
      exact ⟨own.1, by omega⟩
    have last := inductionHypothesis next more (by omega)
    have same : limit + 1 + (rest.length : Int) = limit + (rest.length + 1) := by omega
    rw [same] at last
    exact last

/-- Over a run, an ask that is there grows; it is as it was or was written later. -/
theorem grows_run (yamlLawful : yaml.Lawful) (lawful : times.Lawful first last)
    (sound : SoundFiles yaml times m.owner first limit files)
    {requests : List Request} (clocked : Clocked first limit requests)
    (room : limit + requests.length ≤ last)
    (found : Holds yaml files id doc) :
    ∃ doc', Holds yaml (afterRequests yaml times m files requests) id doc' ∧ Grows doc doc' ∧
      (doc' = doc ∨ Later times doc doc') := by
  induction requests generalizing files limit doc with
  | nil => exact ⟨doc, found, .refl _, Or.inl rfl⟩
  | cons request rest inductionHypothesis =>
    simp only [List.length_cons] at room
    have own := clocked request List.mem_cons_self
    have effect := runAsks_effect yamlLawful lawful (by omega) sound own.1 own.2
    obtain ⟨next, nextFound, grown, step⟩ := effect.grows yamlLawful found
    have more : Clocked first (limit + 1) rest := fun other inside => by
      have own := clocked other (List.mem_cons_of_mem _ inside)
      exact ⟨own.1, by omega⟩
    obtain ⟨last, lastFound, lastGrown, lastStep⟩ :=
      inductionHypothesis (effect.sound yamlLawful sound) more (by omega) nextFound
    refine ⟨last, lastFound, grown.trans lastGrown, ?_⟩
    obtain rfl | later := step
    · exact lastStep
    · right
      obtain rfl | later' := lastStep
      · exact later
      · obtain ⟨p, t, before, middle, less⟩ := later
        obtain ⟨q, u, middle', after, less'⟩ := later'
        obtain rfl := Option.some.inj (middle.symm.trans middle')
        exact ⟨p, u, before, after, Int.lt_trans less less'⟩

/-! ## At each request -/

/-- The files before the request of an index. -/
def filesAt (yaml : YamlPackage Text) (times : Times) (m : Manifest) (files : Files Text)
    (requests : List Request) (k : Nat) : Files Text :=
  afterRequests yaml times m files (requests.take k)

section

variable {requests : List Request}

theorem filesAt_succ {k : Nat} {request : Request} (asked : requests[k]? = some request) :
    filesAt yaml times m files requests (k + 1) =
      (runAsks yaml times m (filesAt yaml times m files requests k) request).2 := by
  unfold filesAt
  rw [List.take_add_one, asked, afterRequests_append]
  rfl

theorem sound_at (yamlLawful : yaml.Lawful) (lawful : times.Lawful first last)
    (sound : SoundFiles yaml times m.owner first limit files)
    (clocked : Clocked first limit requests) (room : limit + requests.length ≤ last) (k : Nat) :
    SoundFiles yaml times m.owner first (limit + min k requests.length)
      (filesAt yaml times m files requests k) := by
  have short : ((requests.take k).length : Int) = min k requests.length := by simp
  rw [← short]
  exact sound.run yamlLawful lawful
    (fun other inside => clocked other (List.mem_of_mem_take inside)) (by rw [short]; omega)

theorem effect_at (yamlLawful : yaml.Lawful) (lawful : times.Lawful first last)
    (sound : SoundFiles yaml times m.owner first limit files)
    (clocked : Clocked first limit requests) (room : limit + requests.length ≤ last) {k : Nat}
    {request : Request}
    (asked : requests[k]? = some request) :
    Effect yaml times m first (limit + k) (filesAt yaml times m files requests k) request
      (runAsks yaml times m (filesAt yaml times m files requests k) request).1
      (filesAt yaml times m files requests (k + 1)) := by
  obtain ⟨inside, own⟩ := List.getElem?_eq_some_iff.mp asked
  have before := sound_at yamlLawful lawful sound clocked room k
  rw [Nat.min_eq_left inside.le] at before
  have clock := clocked request (own ▸ List.getElem_mem inside)
  rw [filesAt_succ asked]
  exact runAsks_effect yamlLawful lawful (by omega) before clock.1 (by omega)

/-- Between two requests, an ask that is there grows; it is as it was or was written later. -/
theorem grows_at (yamlLawful : yaml.Lawful) (lawful : times.Lawful first last)
    (sound : SoundFiles yaml times m.owner first limit files)
    (clocked : Clocked first limit requests) (room : limit + requests.length ≤ last) {i j : Nat}
    (order : i ≤ j)
    (found : Holds yaml (filesAt yaml times m files requests i) id doc) :
    ∃ doc', Holds yaml (filesAt yaml times m files requests j) id doc' ∧ Grows doc doc' ∧
      (doc' = doc ∨ Later times doc doc') := by
  have split : filesAt yaml times m files requests j =
      afterRequests yaml times m (filesAt yaml times m files requests i)
          ((requests.take j).drop i) := by
    unfold filesAt
    rw [← afterRequests_append]
    congr 1
    have front : requests.take i = (requests.take j).take i := by
      rw [List.take_take, Nat.min_eq_left order]
    rw [front, List.take_append_drop]
  have before := sound_at yamlLawful lawful sound clocked room i
  rw [split]
  refine grows_run yamlLawful lawful before (fun other inside => ?_) ?_ found
  · have clock := clocked other (List.mem_of_mem_take (List.mem_of_mem_drop inside))
    exact ⟨clock.1, by omega⟩
  · simp only [List.length_drop, List.length_take]
    omega

end

end

/-! ## A sample run -/

/-- The first instants of July 2026, as they are printed. -/
def sampleStamps : List String :=
  ["2026-07-01T00:00:00Z", "2026-07-01T00:00:00.000000001Z", "2026-07-01T00:00:00.000000002Z",
    "2026-07-01T00:00:00.000000003Z"]

def sampleStart : Int := 1782864000000000000

def sampleTimes : Times where
  Zone := Unit
  utc := ()
  parse text := (sampleStamps.idxOf? text).map fun k => (sampleStart + k, ())
  format t _ := sampleStamps.getD (t - sampleStart).toNat ""

theorem sampleTimes_lawful : sampleTimes.Lawful sampleStart (sampleStart + 3) where
  empty := rfl
  again := by
    intro t zone early late
    obtain ⟨k, rfl⟩ : ∃ k : Fin 4, t = sampleStart + (k.val : Int) :=
      ⟨⟨(t - sampleStart).toNat, by omega⟩, by simp only; omega⟩
    clear early late
    revert k
    show ∀ k : Fin 4, sampleTimes.instant (sampleTimes.format (sampleStart + (k.val : Int)) ()) =
      some (sampleStart + (k.val : Int))
    decide +kernel

/-- The package over texts that are the values they hold. -/
def sampleYaml : YamlPackage Yaml where
  unmarshalMap := structOf ∘ some
  unmarshalAny := some
  unmarshalAsk value := (structOf (some value)).bind readEntity
  marshalMap := .mapping
  marshalAsk e := .mapping e.toYaml
  marshalReply := Reply.toYaml
  marshalTrace := Trace.toYaml
  marshalRef := TypedRef.toYaml

theorem sampleYaml_lawful : sampleYaml.Lawful where
  typed _ _ shows _ := congrArg (Option.bind · readEntity) shows
  map _ _ := rfl
  ask _ := rfl
  reply _ := rfl
  trace _ := rfl
  ref _ := rfl

noncomputable instance : DecidableEq Yaml := Classical.decEq _

def sampleManifest : Manifest := ⟨"ann", "cap"⟩

def sampleID : String := "ask-00000000-0000-7000-8000-000000000000"

/-- An ask of the owner, the owner's reply to it, and its settlement, all at one reading of the
clock. -/
def sampleRequests : List Request :=
  [.create (some ⟨sampleID, "", "bob", "ann", "reply", none, ⟨"mission", "m"⟩, none,
    ⟨"", "", none, none, none, ""⟩, none⟩) sampleStart
      (.error "") noFaults,
    .mutate sampleID (some ⟨"ann", "2026-07-01T00:00:00Z"⟩)
      (.reply (some "yes") (.ok fun _ => 0#8)) sampleStart noFaults,
    .mutate sampleID (some ⟨"ann", "2026-07-01T00:00:00.000000001Z"⟩)
      (.settle (some ⟨"", "so be it"⟩)) sampleStart noFaults]

noncomputable def sampleAt (k : Nat) : Files Yaml :=
  filesAt sampleYaml sampleTimes sampleManifest (fun _ => none) sampleRequests k

theorem sample_healthy :
    Healthy sampleYaml sampleTimes sampleManifest.owner sampleStart sampleStart fun _ => none := by
  intro id file found
  cases found

theorem sample_clocked : Clocked sampleStart sampleStart sampleRequests := by
  intro request inside
  simp only [sampleRequests, List.mem_cons, List.not_mem_nil, or_false] at inside
  obtain rfl | rfl | rfl := inside <;> exact ⟨Int.le_refl _, Int.le_refl _⟩

/-- The state and the time of the sample ask as it is read. -/
noncomputable def sampleRead (k : Nat) : Option (String × String) :=
  match ReadAsk sampleYaml (sampleAt k) sampleID noFaults with
  | .ok doc => some (doc.entity.state, doc.entity.updatedAt)
  | .error _ => none

theorem sample_room : sampleStart + sampleRequests.length ≤ sampleStart + 3 := Int.le_refl _

theorem sample_took : sampleAt 2 ≠ sampleAt 1 ∧ sampleAt 3 ≠ sampleAt 2 := by
  constructor
  · intro same
    have other : sampleRead 2 = sampleRead 1 := by
      unfold sampleRead
      rw [same]
    revert other
    decide +kernel
  · intro same
    have other : sampleRead 3 = sampleRead 2 := by
      unfold sampleRead
      rw [same]
    revert other
    decide +kernel

/-! ## Whole runs -/

section

variable {Text : Type} [DecidableEq Text] {yaml : YamlPackage Text} {times : Times} {m : Manifest}
  {owner : String}
  {first limit last : Int} {id : String} {doc : AskDocument} {files : Files Text}

/-- Whatever is asked of healthy files, in whatever order and whatever fails of reading and writing,
they
stay healthy; an answer is what is read next, and a refusal leaves the files as they were. -/
theorem asks_survive (yamlLawful : yaml.Lawful) (lawful : times.Lawful first last)
    (healthy : Healthy yaml times m.owner first limit files) {requests : List Request}
    (clocked : Clocked first limit requests) (room : limit + requests.length ≤ last) :
    Healthy yaml times m.owner first (limit + requests.length)
      (afterRequests yaml times m files requests) ∧
      ∀ k request, requests[k]? = some request →
        (∀ e, (runAsks yaml times m (filesAt yaml times m files requests k) request).1 = .ok e →
          ∃ doc, doc.entity = e ∧ ReadAsk yaml
            (filesAt yaml times m files requests (k + 1)) e.id noFaults = .ok doc) ∧
        ∀ failure, (runAsks yaml times m (filesAt yaml times m files requests k) request).1 =
          .error (.failure failure) →
          filesAt yaml times m files requests (k + 1) = filesAt yaml times m files requests k := by
  have sound := (healthy_iff yamlLawful).mp healthy
  refine ⟨(healthy_iff yamlLawful).mpr (sound.run yamlLawful lawful clocked room),
    fun k request asked => ?_⟩
  have effect := effect_at yamlLawful lawful sound clocked room asked
  refine ⟨fun e accepted => ?_, fun failure refused => effect.refusal refused⟩
  obtain ⟨doc, same, found⟩ := effect.answered yamlLawful accepted
  have own := (sound_at yamlLawful lawful sound clocked room (k + 1)).holds found
  exact ⟨doc, same, own.read found⟩

theorem asks_survive_sample : Healthy sampleYaml sampleTimes sampleManifest.owner sampleStart
    (sampleStart + sampleRequests.length)
    (afterRequests sampleYaml sampleTimes sampleManifest (fun _ => none) sampleRequests) :=
  (asks_survive sampleYaml_lawful sampleTimes_lawful sample_healthy sample_clocked sample_room).1

/-- Of two requests that change an ask, the later one was made of a later version, which has all of
what the
earlier one wrote. -/
theorem updates_apart (yamlLawful : yaml.Lawful) (lawful : times.Lawful first last)
    (healthy : Healthy yaml times m.owner first limit files) {requests : List Request}
    (clocked : Clocked first limit requests) (room : limit + requests.length ≤ last) {i j : Nat}
    (order : i < j)
    {common common' : CommonMutation} {mutation mutation' : Mutation} {now now' : Int}
    {faults faults' : Faults}
    (one : requests[i]? = some (.mutate id (some common) mutation now faults))
    (two : requests[j]? = some (.mutate id (some common') mutation' now' faults'))
    (took : filesAt yaml times m files requests (i + 1) ≠ filesAt yaml times m files requests i)
    (took' : filesAt yaml times m files requests (j + 1) ≠ filesAt yaml times m files requests j) :
    ∃ made read, ReadAsk yaml (filesAt yaml times m files requests (i + 1)) id noFaults = .ok made ∧
      ReadAsk yaml (filesAt yaml times m files requests j) id noFaults = .ok read ∧
        Grows made read ∧
      read.entity.updatedAt = common'.ifUpdatedAt ∧
      ∃ p t, times.instant common.ifUpdatedAt = some p ∧
        times.instant common'.ifUpdatedAt = some t ∧ p < t := by
  have sound := (healthy_iff yamlLawful).mp healthy
  obtain ⟨doc, made, own, found, given, own', found', later⟩ :=
    (effect_at yamlLawful lawful sound clocked room one).took yamlLawful rfl took
  obtain ⟨read, _, readSound, readFound, given', -, -, -⟩ :=
    (effect_at yamlLawful lawful sound clocked room two).took yamlLawful rfl took'
  obtain ⟨kept, keptFound, grown, same⟩ :=
    grows_at yamlLawful lawful sound clocked room order found'
  obtain rfl := keptFound.unique readFound
  refine ⟨made, kept, own'.read found', readSound.read readFound, grown, given', ?_⟩
  obtain ⟨p, t, before, after, less⟩ := later
  rw [given] at before
  obtain rfl | later' := same
  · exact ⟨p, t, before, by rw [← given', after], less⟩
  · obtain ⟨q, u, middle, shows, less'⟩ := later'
    obtain rfl := Option.some.inj (after.symm.trans middle)
    exact ⟨p, u, before, by rw [← given', shows], Int.lt_trans less less'⟩

theorem updates_apart_sample : ∃ made read, ReadAsk sampleYaml
    (sampleAt 2) sampleID noFaults = .ok made ∧
    ReadAsk sampleYaml (sampleAt 2) sampleID noFaults = .ok read ∧ Grows made read ∧
      read.entity.updatedAt = "2026-07-01T00:00:00.000000001Z" ∧
    ∃ p t, sampleTimes.instant "2026-07-01T00:00:00Z" = some p ∧
      sampleTimes.instant "2026-07-01T00:00:00.000000001Z" = some t ∧ p < t :=
  updates_apart sampleYaml_lawful sampleTimes_lawful sample_healthy sample_clocked sample_room
    (show 1 < 2 by decide) rfl rfl sample_took.1 sample_took.2

/-- Between any two moments of a run, an ask that is there stays and only grows. -/
theorem asks_grow (yamlLawful : yaml.Lawful) (lawful : times.Lawful first last)
    (healthy : Healthy yaml times m.owner first limit files) {requests : List Request}
    (clocked : Clocked first limit requests) (room : limit + requests.length ≤ last) {i j : Nat}
    (order : i ≤ j)
    (read : ReadAsk yaml (filesAt yaml times m files requests i) id noFaults = .ok doc) :
    ∃ doc', ReadAsk yaml (filesAt yaml times m files requests j) id noFaults = .ok doc' ∧
      Grows doc doc' := by
  have sound := (healthy_iff yamlLawful).mp healthy
  obtain ⟨doc', found', grown, -⟩ :=
    grows_at yamlLawful lawful sound clocked room order (ReadAsk_ok read).1
  have own := (sound_at yamlLawful lawful sound clocked room j).holds found'
  exact ⟨doc', own.read found', grown⟩

theorem asks_grow_sample : ∃ doc doc', ReadAsk sampleYaml (sampleAt 1) sampleID noFaults = .ok doc ∧
    ReadAsk sampleYaml (sampleAt 3) sampleID noFaults = .ok doc' ∧
    Grows doc doc' := by
  cases read : ReadAsk sampleYaml (sampleAt 1) sampleID noFaults with
  | error error =>
    have found : sampleRead 1 = some ("open", "2026-07-01T00:00:00Z") := by decide +kernel
    rw [sampleRead, read] at found
    cases found
  | ok doc =>
    obtain ⟨doc', read', grows⟩ :=
      asks_grow sampleYaml_lawful sampleTimes_lawful sample_healthy sample_clocked sample_room
      (show 1 ≤ 3 by decide) read
    exact ⟨doc, doc', rfl, read', grows⟩

/-- Whatever is asked, no ask comes to show what its actor may not do. -/
theorem asks_authorized (yamlLawful : yaml.Lawful) (lawful : times.Lawful first last)
    (healthy : Healthy yaml times m.owner first limit files)
    (own : AuthorizedFiles yaml m files) {requests : List Request}
    (clocked : Clocked first limit requests)
    (room : limit + requests.length ≤ last) :
    AuthorizedFiles yaml m (afterRequests yaml times m files requests) := by
  have sound := (healthy_iff yamlLawful).mp healthy
  have each :
      ∀ k ≤ requests.length, AuthorizedFiles yaml m (filesAt yaml times m files requests k) := by
    intro k
    induction k with
    | zero => exact fun _ => own
    | succ k inductionHypothesis =>
      intro inside
      have asked := List.getElem?_eq_getElem inside
      exact (effect_at yamlLawful lawful sound clocked room asked).authorized yamlLawful
        (inductionHypothesis (by omega))
  have last := each requests.length le_rfl
  rwa [filesAt, List.take_length] at last

theorem asks_authorized_sample :
    AuthorizedFiles sampleYaml sampleManifest
      (afterRequests sampleYaml sampleTimes sampleManifest (fun _ => none) sampleRequests) := by
  refine asks_authorized sampleYaml_lawful sampleTimes_lawful sample_healthy
    (fun id doc read => ?_) sample_clocked sample_room
  obtain ⟨⟨file, found, -⟩, -⟩ := ReadAsk_ok read
  cases found

end

end AiConfig.Mish
