import AiConfig.Mish.Edits

/-! # What edits keep of ask documents

* `Good.edits` — a valid document that its file shows stays one.
* `Edits.grows` — what an ask has said stays said. -/

namespace AiConfig.Mish

open AiConfig.Lib

/-! ## Edits keep the frontmatter in step -/

section

variable {α : Type} {read : Option Yaml → Option α} {raw : YamlMap} {key : String} {e : AskEntity}

/-- An item that is appended to a sequence is appended to what is read of it. -/
theorem sliceOf_appended {slice : Slice α} (held : sliceOf read (raw key) = some slice)
    {item : Yaml} {value : α}
    (own : read (some item) = some value) :
    sliceOf read (some (.sequence (sequence raw key ++ [item]))) = some (slice.append value) := by
  have last : [item].mapM (fun item => read (some item)) = some [value] := by
    rw [List.mapM_cons, own]
    rfl
  have front : (sequence raw key).mapM (fun item => read (some item)) = some slice.items := by
    unfold sequence
    unfold sliceOf at held
    split at held
    · next absent =>
      rw [absent]
      obtain rfl := Option.some.inj held
      rfl
    · next null =>
      rw [null]
      obtain rfl := Option.some.inj held
      rfl
    · next items listed =>
      rw [listed]
      obtain ⟨values, mapped, rfl⟩ := Option.map_eq_some_iff.mp held
      exact mapped
    · cases held
  show ((sequence raw key ++ [item]).mapM fun item => read (some item)).map some = _
  rw [List.mapM_append, front, Option.bind_eq_bind, Option.bind_some, last]
  rfl

theorem readRef_toYaml (ref : TypedRef) : readRef (some ref.toYaml) = some ref := rfl

theorem readReply_toYaml (reply : Reply) : readReply (some reply.toYaml) = some reply := rfl

theorem pointerOf_none : pointerOf read none = some none := rfl

theorem pointerOf_toYaml (ref : TypedRef) : pointerOf readRef (some ref.toYaml) = some (some ref) :=
  rfl

/-- What is omitted when it is empty is read as empty. -/
theorem readTrace_toYaml (trace : Trace) : readTrace (some trace.toYaml) = some trace := by
  obtain ⟨action, actor, stamp, outcome, reason, citation, member⟩ := trace
  by_cases noOutcome : outcome = "" <;> by_cases noReason : reason = "" <;> by_cases noMember :
    member = "" <;>
    cases citation <;>
    simp [readTrace, Trace.toYaml, unlessEmpty, structOf, text, textOf, entries_nil, entries_cons,
      pointerOf_none,
      pointerOf_toYaml, *]

theorem text_put_self (name value : String) :
    text (raw.put name (.text value)) name = some value := by
  rw [text, YamlMap.put_self]
  rfl

theorem text_put_other {name other : String} (value : Yaml) (apart : other ≠ name) :
    text (raw.put name value) other = text raw other := by
  rw [text, text, YamlMap.put_other _ _ apart]

theorem appendItem_self (raw : YamlMap) (key : String) (item : Yaml) :
    appendItem raw key item key = some (.sequence (sequence raw key ++ [item])) :=
  YamlMap.put_self _ _ _

theorem appendItem_other {other : String} (item : Yaml) (apart : other ≠ key) :
    appendItem raw key item other = raw other :=
  YamlMap.put_other _ _ apart

theorem text_appendItem_other {other : String} (item : Yaml) (apart : other ≠ key) :
    text (appendItem raw key item) other = text raw other :=
  text_put_other _ apart

theorem textOf_text (value : String) : textOf (some (.text value)) = some value := rfl

theorem textOf_none : textOf none = some "" := rfl

theorem pointerOf_text (value : String) : pointerOf textOf (some (.text value)) = some
    (some value) := rfl

/-- A file and what is read of it. -/
abbrev AskDocument.InStep (doc : AskDocument) : Prop := Reads doc.raw doc.entity

variable {Text : Type} {yaml : YamlPackage Text} {doc : AskDocument}

theorem AskDocument.InStep.setKind (reads : doc.InStep) (value : String) :
    (doc.setKind value).InStep := by
  obtain ⟨schema, id, kind, state, outcome, asker, addressedTo, createdAt, updatedAt, expects,
    blocking, anchor, links, members,
    framing, replies, rulingTrail, traces⟩ := reads
  constructor <;> simp [AskDocument.setKind, text_put_self, text_put_other, YamlMap.put_other, *]

theorem AskDocument.InStep.setUpdatedAt (reads : doc.InStep) (stamp : String) :
    (doc.setUpdatedAt stamp).InStep := by
  obtain ⟨schema, id, kind, state, outcome, asker, addressedTo, createdAt, updatedAt, expects,
    blocking, anchor, links, members,
    framing, replies, rulingTrail, traces⟩ := reads
  constructor <;> simp [AskDocument.setUpdatedAt, text_put_self, text_put_other, YamlMap.put_other,
    *]

theorem AskDocument.InStep.setClosed (reads : doc.InStep) (value : String) :
    (doc.setClosed value).InStep := by
  obtain ⟨schema, id, kind, state, outcome, asker, addressedTo, createdAt, updatedAt, expects,
    blocking, anchor, links, members,
    framing, replies, rulingTrail, traces⟩ := reads
  constructor <;>
    simp [AskDocument.setClosed, text_put_self, text_put_other, YamlMap.put_self, YamlMap.put_other,
      pointerOf_text, *]

/-- What is appended of an item is the item itself. -/
theorem appendRaw_reply (lawful : yaml.Lawful) (raw : YamlMap) (key : String) (reply : Reply) :
    AskDocument.appendRaw yaml raw key (yaml.marshalReply reply) =
      appendItem raw key reply.toYaml := by
  rw [AskDocument.appendRaw, lawful.reply, Option.getD_some]

theorem appendRaw_trace (lawful : yaml.Lawful) (raw : YamlMap) (key : String) (trace : Trace) :
    AskDocument.appendRaw yaml raw key (yaml.marshalTrace trace) =
      appendItem raw key trace.toYaml := by
  rw [AskDocument.appendRaw, lawful.trace, Option.getD_some]

theorem appendRaw_ref (lawful : yaml.Lawful) (raw : YamlMap) (key : String) (ref : TypedRef) :
    AskDocument.appendRaw yaml raw key (yaml.marshalRef ref) = appendItem raw key ref.toYaml := by
  rw [AskDocument.appendRaw, lawful.ref, Option.getD_some]

theorem AskDocument.InStep.appendReply (lawful : yaml.Lawful) (reads : doc.InStep) (reply : Reply) :
    (doc.appendReply yaml reply).InStep := by
  have own := sliceOf_appended reads.replies (readReply_toYaml reply)
  obtain ⟨schema, id, kind, state, outcome, asker, addressedTo, createdAt, updatedAt, expects,
    blocking, anchor, links, members,
    framing, replies, rulingTrail, traces⟩ := reads
  constructor <;>
    simp [AskDocument.appendReply, appendRaw_reply lawful, text_appendItem_other, appendItem_self,
      appendItem_other, *]

theorem AskDocument.InStep.appendTrace (lawful : yaml.Lawful) (reads : doc.InStep) (trace : Trace) :
    (doc.appendTrace yaml trace).InStep := by
  have own := sliceOf_appended reads.traces (readTrace_toYaml trace)
  obtain ⟨schema, id, kind, state, outcome, asker, addressedTo, createdAt, updatedAt, expects,
    blocking, anchor, links, members,
    framing, replies, rulingTrail, traces⟩ := reads
  constructor <;>
    simp [AskDocument.appendTrace, appendRaw_trace lawful, text_appendItem_other, appendItem_self,
      appendItem_other, *]

theorem AskDocument.InStep.appendLink (lawful : yaml.Lawful) (reads : doc.InStep)
    (link : TypedRef) :
    (doc.appendLink yaml link).InStep := by
  have own := sliceOf_appended reads.links (readRef_toYaml link)
  obtain ⟨schema, id, kind, state, outcome, asker, addressedTo, createdAt, updatedAt, expects,
    blocking, anchor, links, members,
    framing, replies, rulingTrail, traces⟩ := reads
  constructor <;>
    simp [AskDocument.appendLink, appendRaw_ref lawful, text_appendItem_other, appendItem_self,
      appendItem_other, *]

theorem AskDocument.InStep.appendMember (reads : doc.InStep) (member : String) :
    (doc.appendMember member).InStep := by
  have own := @sliceOf_appended _ _ _ _ _ reads.members (.text member) member rfl
  obtain ⟨schema, id, kind, state, outcome, asker, addressedTo, createdAt, updatedAt, expects,
    blocking, anchor, links, members,
    framing, replies, rulingTrail, traces⟩ := reads
  constructor <;> simp [AskDocument.appendMember, text_appendItem_other, appendItem_self,
    appendItem_other, *]

theorem structOf_mapping {fields : YamlMap} (read : structOf (raw key) = some fields) :
    mapping raw key = fields := by
  unfold mapping
  unfold structOf at read
  split at read
  · next absent =>
    rw [absent]
    exact Option.some.inj read
  · next null =>
    rw [null]
    exact Option.some.inj read
  · next found =>
    rw [found]
    exact Option.some.inj read
  · cases read

theorem AskDocument.InStep.setAnchor (reads : doc.InStep) (anchor : TypedRef) :
    (doc.setAnchor anchor).InStep := by
  have own :
    readRef (some (.mapping (((mapping doc.raw "anchor").put "type" (.text anchor.type)).put "ref"
      (.text anchor.ref)))) = some anchor := by
    simp [readRef, structOf, text_put_self, text_put_other]
  obtain ⟨schema, id, kind, state, outcome, asker, addressedTo, createdAt, updatedAt, expects,
    blocking, anchored, links, members,
    framing, replies, rulingTrail, traces⟩ := reads
  constructor <;> simp [AskDocument.setAnchor, text_put_other, YamlMap.put_self, YamlMap.put_other,
    *]

/-- The entry of a settlement, over the framing that the file has. -/
theorem readRuling_presented {framing : YamlMap} {e : AskEntity}
    (question : text framing "question" = some e.framing.question)
    (options : sliceOf readOption (framing "options") = some e.framing.options)
    (some_ : e.framing.options.isSome)
    (choice prose actor stamp : String) :
    readRuling
      (some (.mapping (entries ([("question", (framing "question").getD (.text e.framing.question)),
      ("options_as_presented", (framing "options").getD (.sequence [])), ("prose", .text prose),
      ("actor", .text actor),
      ("at", .text stamp)] ++ unlessEmpty "choice" choice)))) =
      some ⟨e.framing.question, e.framing.options, choice, prose, actor, stamp⟩ := by
  have asked : textOf (some ((framing "question").getD (.text e.framing.question))) =
      some e.framing.question := by
    unfold text at question
    cases given : framing "question" with
    | none => rfl
    | some value => rw [given] at question; exact question
  have presented : sliceOf readOption (some ((framing "options").getD (.sequence []))) =
      some e.framing.options := by
    cases given : framing "options" with
    | none =>
      rw [given] at options
      rw [← Option.some.inj options] at some_
      cases some_
    | some value => rw [given] at options; exact options
  by_cases chosen : choice = "" <;>
    simp [readRuling, structOf, text, entries_cons, entries_nil, unlessEmpty, asked, presented,
      chosen, textOf_text, textOf_none]

theorem AskDocument.InStep.settle (reads : doc.InStep) (some_ : doc.entity.framing.options.isSome)
    (choice prose actor stamp : String) :
    (doc.appendSettlementRuling ⟨doc.entity.framing.question, doc.entity.framing.options, choice,
    prose, actor, stamp⟩).InStep := by
  have inside := reads.framing
  simp only [readFraming, Option.bind_eq_bind, Option.bind_eq_some_iff] at inside
  obtain ⟨fields, shown, _, -, _, question, _, -, _, options, _, -, _, -, same⟩ := inside
  have framing := Option.some.inj same
  have asked : text (mapping doc.raw "framing") "question" = some doc.entity.framing.question := by
    rw [structOf_mapping shown, question, ← framing]
  have presented : sliceOf readOption (mapping doc.raw "framing" "options") =
      some doc.entity.framing.options := by
    rw [structOf_mapping shown, options, ← framing]
  have own :=
    sliceOf_appended reads.rulingTrail
    (readRuling_presented asked presented some_ choice prose actor stamp)
  obtain ⟨schema, id, kind, state, outcome, asker, addressedTo, createdAt, updatedAt, expects,
    blocking, anchored, links, members,
    framing, replies, rulingTrail, traces⟩ := reads
  constructor <;> simp only [AskDocument.appendSettlementRuling] <;>
    simp [text_appendItem_other, appendItem_other, -List.cons_append, *]
  rw [appendItem_self]
  exact own

end

/-! ## Edits keep the frontmatter plain -/

section

variable {raw : YamlMap} {key : String}

theorem plain_sequence (plain : raw.Plain) (key : String) :
    (Yaml.sequence (sequence raw key)).Plain := by
  unfold sequence
  split
  · next found => exact plain.value found
  · exact .sequence List.not_mem_nil fun _ inside => absurd inside List.not_mem_nil

theorem plain_held (plain : raw.Plain) (key : String) : (mapping raw key).Plain := by
  unfold mapping
  split
  · next found => exact plain.value found
  · exact plain_entries  fun _ inside => absurd inside List.not_mem_nil

theorem plain_appendItem (plain : raw.Plain) (key : String) {item : Yaml} (own : item.Plain)
    (given : item ≠ .null) :
    (appendItem raw key item).Plain :=
  plain.put key ((plain_sequence plain key).append own given)

theorem plain_unlessEmpty (name value : String) : ∀ entry ∈ unlessEmpty name value,
    entry.2.Plain := by
  unfold unlessEmpty
  split <;> simp

theorem TypedRef.toYaml_plain (ref : TypedRef) : ref.toYaml.Plain := plain_entries (by simp)

theorem Reply.toYaml_plain (reply : Reply) : reply.toYaml.Plain := plain_entries (by simp)

theorem Trace.toYaml_plain (trace : Trace) : trace.toYaml.Plain := by
  refine plain_entries ?_
  simp only [List.forall_mem_append]
  refine ⟨⟨⟨⟨by simp, plain_unlessEmpty _ _⟩, plain_unlessEmpty _ _⟩, ?_⟩, plain_unlessEmpty _ _⟩
  cases trace.citation <;> simp [TypedRef.toYaml_plain]

theorem plain_settlement {framing : YamlMap} (plain : framing.Plain) (question choice prose actor stamp : String) :
    (entries ([("question", (framing "question").getD (.text question)),
      ("options_as_presented", (framing "options").getD (.sequence [])), ("prose", .text prose), ("actor", .text actor),
      ("at", .text stamp)] ++ unlessEmpty "choice" choice)).Plain := by
  have nothing : (Yaml.sequence []).Plain := .sequence List.not_mem_nil fun _ inside => absurd inside List.not_mem_nil
  have own : ∀ key other, other.Plain → ((framing key).getD other).Plain := by
    intro key other plainOther
    cases found : framing key with
    | none => exact plainOther
    | some value => exact plain.value found
  refine plain_entries ?_
  simp only [List.forall_mem_append]
  exact ⟨by simp [own _ _ (.text question), own _ _ nothing], plain_unlessEmpty _ _⟩

variable {Text : Type} {yaml : YamlPackage Text} {m : Manifest} {actor stamp : String} {doc doc' : AskDocument}

theorem AskDocument.appendTrace_plain (lawful : yaml.Lawful) (plain : doc.raw.Plain) (trace : Trace) :
    (doc.appendTrace yaml trace).raw.Plain := by
  show (AskDocument.appendRaw yaml _ _ _).Plain
  rw [appendRaw_trace lawful]
  exact plain_appendItem plain _ trace.toYaml_plain (by simp [Trace.toYaml])

theorem AskDocument.setClosed_plain (plain : doc.raw.Plain) (outcome : String) : (doc.setClosed outcome).raw.Plain :=
  (plain.put _ (.text _)).put _ (.text _)

theorem Edit.plain (lawful : yaml.Lawful) (edit : Edit yaml m actor stamp doc doc') (plain : doc.raw.Plain) : doc'.raw.Plain := by
  cases edit with
  | reply _ _ _ =>
    show (AskDocument.appendRaw yaml _ _ _).Plain
    rw [appendRaw_reply lawful]
    exact plain_appendItem plain _ (Reply.toYaml_plain _) (by simp [Reply.toYaml])
  | settle _ _ _ =>
    refine AskDocument.setClosed_plain (YamlMap.Plain.put ?_ _ (.text _)) _
    exact plain_appendItem plain _ (plain_settlement (plain_held plain _) _ _ _ _ _) (by simp)
  | close _ _ _ _ => exact AskDocument.appendTrace_plain lawful (AskDocument.setClosed_plain plain _) _
  | withdraw _ _ _ _ _ _ => exact AskDocument.appendTrace_plain lawful (AskDocument.setClosed_plain plain _) _
  | link _ =>
    show (AskDocument.appendRaw yaml _ _ _).Plain
    rw [appendRaw_ref lawful]
    exact plain_appendItem plain _ (TypedRef.toYaml_plain _) (by simp [TypedRef.toYaml])
  | anchor _ => exact plain.put _ (((plain_held plain _).put _ (.text _)).put _ (.text _))
  | widen _ _ _ _ => exact AskDocument.appendTrace_plain lawful (plain_appendItem plain _ (.text _) (by simp)) _

end

/-! ## Documents that are written -/

/-- A valid ask, with every key, as its file shows it in plain values. -/
structure Good (times : Times) (owner : String) (doc : AskDocument) : Prop where
  plain : doc.raw.Plain
  inStep : doc.InStep
  keyed : ∀ key ∈ requiredKeys, (doc.raw key).isSome
  valid : Valid times owner doc.entity

theorem isSome_put {raw : YamlMap} {key : String} (there : (raw key).isSome) (name : String)
    (value : Yaml) :
    (raw.put name value key).isSome := by
  by_cases same : key = name
  · rw [same, YamlMap.put_self]
    rfl
  · rwa [YamlMap.put_other _ _ same]

section

variable {Text : Type} {yaml : YamlPackage Text} {times : Times} {m : Manifest}
  {actor stamp owner : String}
  {doc doc' : AskDocument}

theorem Edit.keyed (edit : Edit yaml m actor stamp doc doc') {key : String}
    (there : (doc.raw key).isSome) :
    (doc'.raw key).isSome := by
  cases edit with
  | reply _ _ _ => exact isSome_put there _ _
  | settle _ _ _ => exact isSome_put (isSome_put (isSome_put (isSome_put there _ _) _ _) _ _) _ _
  | close _ _ _ _ => exact isSome_put (isSome_put (isSome_put there _ _) _ _) _ _
  | withdraw _ _ _ _ _ _ => exact isSome_put (isSome_put (isSome_put there _ _) _ _) _ _
  | link _ => exact isSome_put there _ _
  | anchor _ => exact isSome_put there _ _
  | widen _ _ _ _ => exact isSome_put (isSome_put there _ _) _ _

theorem Edit.inStep (lawful : yaml.Lawful) (edit : Edit yaml m actor stamp doc doc')
    (reads : doc.InStep)
    (options : doc.entity.framing.options.isSome) : doc'.InStep := by
  cases edit with
  | reply _ _ _ => exact reads.appendReply lawful _
  | settle _ _ _ => exact ((reads.settle options _ _ _ _).setKind _).setClosed _
  | close _ _ _ _ => exact (reads.setClosed _).appendTrace lawful _
  | withdraw _ _ _ _ _ _ => exact (reads.setClosed _).appendTrace lawful _
  | link _ => exact reads.appendLink lawful _
  | anchor _ => exact reads.setAnchor _
  | widen _ _ _ _ => exact (reads.appendMember _).appendTrace lawful _

theorem Good.edit (lawful : yaml.Lawful) (good : Good times owner doc)
    (edit : Edit yaml m actor stamp doc doc')
    (named : actor ≠ "") (stamped : stamp ≠ "") (parsed : (times.parse stamp).isNone = false) :
    Good times owner doc' where
  plain := edit.plain lawful good.plain
  inStep := edit.inStep lawful good.inStep (Valid.required_iff.mp good.valid.required).1.2.2.2.2.2
  keyed := fun key own => edit.keyed (good.keyed key own)
  valid := good.valid.edit named stamped parsed edit

theorem Good.edits (lawful : yaml.Lawful) (good : Good times owner doc)
    (edits : Edits yaml m actor stamp doc doc')
    (named : actor ≠ "") (stamped : stamp ≠ "") (parsed : (times.parse stamp).isNone = false) :
    Good times owner doc' := by
  induction edits with
  | refl => exact good
  | tail _ edit inductionHypothesis =>
      exact inductionHypothesis.edit lawful edit named stamped parsed

theorem Good.setUpdatedAt (good : Good times owner doc) (stamped : stamp ≠ "")
    (parsed : (times.parse stamp).isNone = false) :
    Good times owner (doc.setUpdatedAt stamp) where
  plain := good.plain.put _ (.text _)
  inStep := good.inStep.setUpdatedAt stamp
  keyed := fun key own => isSome_put (good.keyed key own) _ _
  valid := by
    have valid := good.valid
    have required := Valid.required_iff.mp valid.required
    refine { valid with required := Valid.required_iff.mpr ⟨required.1, required.2.1,
      required.2.2.1, required.2.2.2.1, stamped⟩
                        stamps := ?_ }
    have stamps := valid.stamps
    simp only [timeChecks, passes_cons] at stamps ⊢
    exact ⟨stamps.1, parsed, passes_nil⟩

end

/-! ## What an edit leaves -/

/-- What no operation changes. -/
def AskEntity.fixed (e : AskEntity) :
    String × String × String × String × String × String × Option Blocking × Framing :=
  (e.schema, e.id, e.asker, e.addressedTo, e.createdAt, e.expects, e.blocking, e.framing)

/-- What stays as it is once an ask is closed. -/
def AskEntity.settled (e : AskEntity) :
    String × String × Option String × Slice String × Slice RulingEntry × Slice Trace :=
  (e.kind, e.state, e.outcome, e.members, e.rulingTrail, e.traces)

/-- The keys of sequences that the operations append to. -/
def growing : List String := ["replies", "ruling_trail", "traces", "links", "members"]

/-- The other keys that the operations write. -/
def written : List String := ["kind", "state", "outcome", "anchor", "updated_at"]

theorem sequence_put_other {raw : YamlMap} {key name : String} (value : Yaml) (apart : key ≠ name) :
    sequence (raw.put name value) key = sequence raw key := by
  unfold sequence
  rw [YamlMap.put_other _ _ apart]

theorem sequence_appendItem (raw : YamlMap) (name : String) (item : Yaml) (key : String) :
    sequence raw key <+: sequence (appendItem raw name item) key := by
  by_cases same : key = name
  · rw [same]
    have grown : sequence (appendItem raw name item) name = sequence raw name ++ [item] := by
      rw [sequence, appendItem_self]
    rw [grown]
    exact List.prefix_append _ _
  · rw [appendItem, sequence_put_other _ same]

/-- Frontmatter that an operation wrote, over the one it read. -/
structure Extends (raw raw' : YamlMap) : Prop where
  sequences : ∀ key ∈ growing, sequence raw key <+: sequence raw' key
  others : ∀ key, key ∉ growing → key ∉ written → raw' key = raw key

theorem Extends.refl (raw : YamlMap) : Extends raw raw where
  sequences := fun _ _ => List.prefix_rfl
  others := fun _ _ _ => rfl

theorem Extends.trans {raw raw' raw'' : YamlMap} (first : Extends raw raw')
    (second : Extends raw' raw'') : Extends raw raw'' where
  sequences := fun key own => (first.sequences key own).trans (second.sequences key own)
  others :=
    fun key apart other => (second.others key apart other).trans (first.others key apart other)

theorem Extends.write (raw : YamlMap) {name : String} (own : name ∈ written) (value : Yaml) :
    Extends raw (raw.put name value) where
  sequences := fun key grows => by
    have apart : key ≠ name := by
      rintro rfl
      revert own
      simp only [growing, List.mem_cons, List.not_mem_nil, or_false] at grows
      obtain rfl | rfl | rfl | rfl | rfl := grows <;> decide
    rw [sequence_put_other _ apart]
  others := fun _ _ other => YamlMap.put_other _ _ fun same => other (same ▸ own)

theorem Extends.append (raw : YamlMap) {name : String} (own : name ∈ growing) (item : Yaml) :
    Extends raw (appendItem raw name item) where
  sequences := fun key _ => sequence_appendItem raw name item key
  others := fun _ apart _ => appendItem_other _ fun same => apart (same ▸ own)

/-- A later version of an ask: what there was is there still. -/
structure Grows (before after : AskDocument) : Prop where
  fixed : after.entity.fixed = before.entity.fixed
  replies : before.entity.replies.items <+: after.entity.replies.items
  rulings : before.entity.rulingTrail.items <+: after.entity.rulingTrail.items
  traces : before.entity.traces.items <+: after.entity.traces.items
  links : before.entity.links.items <+: after.entity.links.items
  members : before.entity.members.items <+: after.entity.members.items
  closed : before.entity.state = "closed" → after.entity.settled = before.entity.settled
  raw : Extends before.raw after.raw
  body : after.body = before.body

theorem Grows.refl (doc : AskDocument) : Grows doc doc where
  fixed := rfl
  replies := List.prefix_rfl
  rulings := List.prefix_rfl
  traces := List.prefix_rfl
  links := List.prefix_rfl
  members := List.prefix_rfl
  closed := fun _ => rfl
  raw := .refl _
  body := rfl

theorem Grows.trans {before middle after : AskDocument} (first : Grows before middle)
    (second : Grows middle after) :
    Grows before after where
  fixed := second.fixed.trans first.fixed
  replies := first.replies.trans second.replies
  rulings := first.rulings.trans second.rulings
  traces := first.traces.trans second.traces
  links := first.links.trans second.links
  members := first.members.trans second.members
  closed := fun closed => by
    have settled := first.closed closed
    have state : middle.entity.state = before.entity.state :=
      congrArg (fun settled => settled.2.1) settled
    exact (second.closed (state.trans closed)).trans settled
  raw := first.raw.trans second.raw
  body := second.body.trans first.body

section

variable {Text : Type} {yaml : YamlPackage Text} {m : Manifest} {actor stamp : String}
  {doc doc' : AskDocument}

theorem Grows.setUpdatedAt (doc : AskDocument) (stamp : String) :
    Grows doc (doc.setUpdatedAt stamp) :=
  { Grows.refl doc with raw := .write _ (by decide) _ }

theorem not_closed (opened : doc.entity.state = "open") {settled : Prop}
    (closed : doc.entity.state = "closed") : settled :=
  absurd (opened.symm.trans closed) (by decide)

/-- What is written of an ask that is closed. -/
theorem Extends.closed (raw : YamlMap) (outcome : String) :
    Extends raw ((raw.put "state" (.text "closed")).put "outcome" (.text outcome)) :=
  (Extends.write raw (show "state" ∈ written by decide) _).trans (.write _ (by decide) _)

theorem Edit.grows (edit : Edit yaml m actor stamp doc doc') : Grows doc doc' := by
  cases edit with
  | reply _ _ _ =>
    exact { Grows.refl doc with replies := List.prefix_append _ _, raw := .append _ (by decide) _, fixed := rfl, closed := fun _ => rfl }
  | settle opened _ _ =>
    exact { Grows.refl doc with
      fixed := rfl, rulings := List.prefix_append _ _, closed := not_closed opened
      raw := ((Extends.append doc.raw (show "ruling_trail" ∈ growing by decide) _).trans
        (.write _ (show "kind" ∈ written by decide) _)).trans (.closed _ _) }
  | close opened _ _ _ =>
    exact { Grows.refl doc with
      fixed := rfl, traces := List.prefix_append _ _, closed := not_closed opened
      raw := (Extends.closed doc.raw _).trans (.append _ (by decide) _) }
  | withdraw opened _ _ _ _ _ =>
    exact { Grows.refl doc with
      fixed := rfl, traces := List.prefix_append _ _, closed := not_closed opened
      raw := (Extends.closed doc.raw _).trans (.append _ (by decide) _) }
  | link _ =>
    exact { Grows.refl doc with links := List.prefix_append _ _, raw := .append _ (by decide) _, fixed := rfl, closed := fun _ => rfl }
  | anchor _ =>
      exact { Grows.refl doc with raw := .write _ (by decide) _, fixed := rfl, closed := fun _ => rfl }
  | widen opened _ _ _ =>
    exact { Grows.refl doc with
      fixed := rfl, members := List.prefix_append _ _, traces := List.prefix_append _ _, closed :=
        not_closed opened
      raw := (Extends.append doc.raw (by decide) _).trans (.append _ (by decide) _) }

theorem Edits.grows (edits : Edits yaml m actor stamp doc doc') : Grows doc doc' := by
  induction edits with
  | refl => exact .refl _
  | tail _ edit inductionHypothesis => exact inductionHypothesis.trans edit.grows

end

/-! ## Who did it -/

def widens (trace : Trace) : Bool := trace.action = "widen-membership"

/-- What an ask shows was done by those who may do it: it is between the owner and another, it has
replies of
its members, and its members are the two it is between and those that the owner brought in. -/
structure Authorized (m : Manifest) (e : AskEntity) : Prop where
  created : m.owner ≠ "" → (e.asker = m.owner ↔ e.addressedTo ≠ m.owner)
  replies : ∀ reply ∈ e.replies.items, reply.actor ∈ e.members.items
  rulings : ∀ ruling ∈ e.rulingTrail.items, ruling.actor = e.addressedTo ∨ ruling.actor = e.asker ∧
    e.addressedTo = m.owner
  closings : ∀ trace ∈ e.traces.items, trace.action = "close" → mayClose m e trace.actor = true
  withdrawals : ∀ trace ∈ e.traces.items, trace.action = "withdraw" → trace.actor = m.authority
  widenings : ∀ trace ∈ e.traces.items, widens trace = true → trace.actor = m.owner
  members :
    e.members.items = [e.asker, e.addressedTo] ++ (e.traces.items.filter widens).map Trace.member
  settled : e.outcome = some "settled" → ∃ ruling, e.rulingTrail.items.getLast? = some ruling ∧
    ruling.actor = e.addressedTo

section

variable {Text : Type} {yaml : YamlPackage Text} {m : Manifest} {actor stamp : String}
  {doc doc' : AskDocument}

theorem forall_append {α : Type} {items : List α} {item : α} {holds : α → Prop}
    (before : ∀ other ∈ items, holds other) (own : holds item) :
    ∀ other ∈ items ++ [item], holds other := by
  intro other inside
  rcases List.mem_append.mp inside with early | last
  · exact before other early
  · obtain rfl := List.mem_singleton.mp last
    exact own

theorem not_settled {outcome : String} (unsettled : nonSettled outcome = true) {result : Prop}
    (settled : some outcome = some "settled") :
    result := by
  rw [Option.some.inj settled] at unsettled
  exact absurd unsettled (by decide)

/-- A closing trace of one who may close. -/
theorem Authorized.closeWith (own : Authorized m doc.entity) (trace : Trace)
    (unsettled : nonSettled trace.outcome = true)
    (plain : widens trace = false) (closes : trace.action = "close" →
    mayClose m doc.entity trace.actor = true)
    (withdraws : trace.action = "withdraw" → trace.actor = m.authority) :
    Authorized m ((doc.setClosed trace.outcome).appendTrace yaml trace).entity where
  created := own.created
  replies := own.replies
  rulings := own.rulings
  closings := forall_append own.closings closes
  withdrawals := forall_append own.withdrawals withdraws
  widenings := forall_append own.widenings fun wide => by
    rw [plain] at wide
    cases wide
  members := by
    show doc.entity.members.items = _ ++
      ((doc.entity.traces.items ++ [trace]).filter widens).map Trace.member
    rw [List.filter_append, List.filter_cons_of_neg (by rw [plain]; exact Bool.false_ne_true),
      List.filter_nil, List.append_nil]
    exact own.members
  settled := not_settled unsettled

theorem Edit.authorized (edit : Edit yaml m actor stamp doc doc') (own : Authorized m doc.entity) :
    Authorized m doc'.entity := by
  cases edit with
  | reply member _ _ => exact { own with replies := forall_append own.replies member }
  | settle _ _ addressee =>
    exact { own with
      rulings := forall_append own.rulings (Or.inl addressee)
      settled := fun _ => ⟨_, List.getLast?_concat .., addressee⟩ }
  | @close outcome reason _ unsettled _ may =>
    exact own.closeWith ⟨"close", actor, stamp, outcome, reason, none, ""⟩ unsettled rfl
        (fun _ => may) fun same => by
      simp at same
  | @withdraw outcome reason citation _ unsettled _ _ authority _ =>
    exact own.closeWith ⟨"withdraw", actor, stamp, outcome, reason, some citation, ""⟩ unsettled rfl
      (fun same => by simp at same) fun _ => authority
  | link _ => exact { own with }
  | anchor _ => exact { own with }
  | @widen member _ _ owner _ =>
    exact { own with
      replies := fun reply inside => List.mem_append_left _ (own.replies reply inside)
      closings := forall_append own.closings fun same => by simp at same
      withdrawals := forall_append own.withdrawals fun same => by simp at same
      widenings := forall_append own.widenings fun _ => owner
      members := by
        show doc.entity.members.items ++ [member] = _ ++
          ((doc.entity.traces.items ++ [_]).filter widens).map Trace.member
        rw [List.filter_append, List.map_append, ← List.append_assoc, own.members]
        rfl }

theorem Edits.authorized (edits : Edits yaml m actor stamp doc doc')
    (own : Authorized m doc.entity) : Authorized m doc'.entity := by
  induction edits with
  | refl => exact own
  | tail _ edit inductionHypothesis => exact edit.authorized inductionHypothesis

end

end AiConfig.Mish
