import AiConfig.Mish.Mutate

/-! # The edits of asks

* `Edit` — one change of an ask; `applied` says that an accepted operation makes such changes.
* `Valid` — what `ValidateAsk` checks, part by part; an edit keeps it. -/

namespace AiConfig.Mish

open AiConfig.Lib

/-! ## Generated ids are valid -/

theorem hexDigit_hexChar (nibble : BitVec 4) : hexDigit (hexChar nibble) = true := by
  revert nibble
  decide

theorem fits_hexByte (byte : BitVec 8) : fits (hexDigits 2) (hexByte byte) = true := by
  show (hexDigit _ && (hexDigit _ && true)) = true
  simp [hexDigit_hexChar]

theorem fits_hexBytes (bytes : Nat → BitVec 8) (indices : List Nat) :
    fits (hexDigits (2 * indices.length)) (indices.flatMap fun index => hexByte (bytes index)) =
      true := by
  induction indices with
  | nil => rfl
  | cons index indices inductionHypothesis =>
    have split :
        hexDigits (2 * (indices.length + 1)) = hexDigits 2 ++ hexDigits (2 * indices.length) := by
      rw [hexDigits, hexDigits, hexDigits, List.replicate_append_replicate]
      congr 1
      omega
    rw [List.length_cons, split, List.flatMap_cons]
    exact fits_append (fits_hexByte _) inductionHypothesis

/-- The byte that holds the version. -/
theorem fits_version (byte : BitVec 8) : fits (literal "7" ++ hexDigits 1)
    (hexByte (0x70#8 ||| (byte &&& 0x0f#8))) = true := by
  revert byte
  decide +kernel

/-- The byte that holds the variant. -/
theorem fits_variant (byte : BitVec 8) :
    fits ([fun char => decide (char ∈ ['8', '9', 'a', 'b'])] ++ hexDigits 1)
      (hexByte (0x80#8 ||| (byte &&& 0x3f#8))) = true := by
  revert byte
  decide +kernel

theorem GenerateAskID_valid {now : Int} {random : Except String (Nat → BitVec 8)} {id : String}
    (generated : GenerateAskID now random = .ok id) : ValidAskID id = true := by
  cases random with
  | error error => cases generated
  | ok random =>
    obtain rfl := Except.ok.inj generated
    let bytes := uuidBytes now random
    have dash : fits (literal "-") ['-'] = true := rfl
    have version : hexByte (bytes 6) = hexByte (0x70#8 ||| (random 6 &&& 0x0f#8)) := rfl
    have variant : hexByte (bytes 8) = hexByte (0x80#8 ||| (random 8 &&& 0x3f#8)) := rfl
    have first := fits_append (fits_hexBytes bytes [0, 1, 2, 3]) dash
    have second := fits_append first (fits_append (fits_hexBytes bytes [4, 5]) dash)
    have third :=
      fits_append second (fits_append (fits_version (random 6)) (fits_hexBytes bytes [7]))
    have fourth := fits_append third (fits_append dash (fits_variant (random 8)))
    have fifth := fits_append fourth (fits_append (fits_hexBytes bytes [9]) dash)
    have whole := fits_append (fits_literal.mpr (Eq.refl "ask-".toList))
      (fits_append fifth (fits_hexBytes bytes [10, 11, 12, 13, 14, 15]))
    unfold ValidAskID
    rw [String.toList_ofList]
    have classes :
      askIDPattern = literal "ask-" ++ (hexDigits (2 * [0, 1, 2, 3].length) ++ literal "-" ++
        (hexDigits (2 * [4, 5].length) ++ literal "-") ++
          (literal "7" ++ hexDigits 1 ++ hexDigits (2 * [7].length)) ++
        (literal "-" ++ ([fun char => decide (char ∈ ['8', '9', 'a', 'b'])] ++ hexDigits 1)) ++
        (hexDigits (2 * [9].length) ++ literal "-") ++
          hexDigits (2 * [10, 11, 12, 13, 14, 15].length)) := rfl
    rw [classes]
    convert whole using 1
    simp only [List.flatMap_cons, List.flatMap_nil, List.append_nil, List.append_assoc, ← version,
      ← variant]
    rfl

/-! ## Valid entities -/

def Passes (checks : Checks) : Prop := ∀ check ∈ checks, check.1 = false

@[simp]
theorem passes_nil : Passes [] := List.forall_mem_nil _

@[simp]
theorem passes_cons {check : Bool × String} {rest : Checks} :
    Passes (check :: rest) ↔ check.1 = false ∧ Passes rest :=
  List.forall_mem_cons

@[simp]
theorem passes_append {front back : Checks} : Passes (front ++ back) ↔ Passes front ∧
    Passes back := by
  simp only [Passes, List.forall_mem_append]

@[simp]
theorem passes_flatMap {α : Type} {items : List α} {checks : α → Checks} :
    Passes (items.flatMap checks) ↔ ∀ item ∈ items, Passes (checks item) := by
  simp only [Passes, List.mem_flatMap]
  constructor
  · exact fun all item inside check own => all check ⟨item, inside, own⟩
  · rintro all check ⟨item, inside, own⟩
    exact all item inside check own

@[simp]
theorem passes_map {α : Type} {items : List α} {check : α → Bool × String} :
    Passes (items.map check) ↔ ∀ item ∈ items, (check item).1 = false := by
  simp [Passes]

/-- What `ValidateAsk` checks, part by part. -/
structure Valid (times : Times) (owner : String) (e : AskEntity) : Prop where
  schema : e.schema = askSchema
  state : Passes (stateChecks e)
  required : Passes (requiredChecks e)
  stamps : Passes (timeChecks times e)
  members : Passes (memberChecks e owner)
  blocking : Passes (blockingChecks times e)
  refs : Passes (refChecks e)
  replies : ∀ reply ∈ e.replies.items, Passes (replyChecks times e reply)
  rulings : ∀ ruling ∈ e.rulingTrail.items, Passes (rulingChecks times ruling)
  traces : ∀ trace ∈ e.traces.items, Passes (traceChecks times e trace)
  framing : Passes (decideChecks e)
  closed : Passes (closeChecks e)

theorem valid_iff {times : Times} {owner : String} {e : AskEntity} :
    ValidateAsk times e owner = none ↔ Valid times owner e := by
  have whole : ValidateAsk times e owner = none ↔ e.schema = askSchema ∧
      Passes (checks times e owner) := by
    unfold ValidateAsk
    by_cases own : e.schema = askSchema
    · simp [own, Passes]
    · simp [own]
  rw [whole]
  unfold checks
  simp only [passes_append, passes_flatMap]
  constructor
  · rintro ⟨schema,
      ⟨⟨⟨⟨⟨⟨⟨⟨⟨⟨state, required⟩, stamps⟩, members⟩, blocking⟩, refs⟩, replies⟩, rulings⟩, traces⟩,
      framing⟩, closed⟩⟩
    exact ⟨schema, state, required, stamps, members, blocking, refs, replies, rulings, traces,
      framing, closed⟩
  · intro valid
    exact ⟨valid.schema,
      ⟨⟨⟨⟨⟨⟨⟨⟨⟨⟨valid.state, valid.required⟩, valid.stamps⟩, valid.members⟩, valid.blocking⟩,
      valid.refs⟩, valid.replies⟩,
      valid.rulings⟩, valid.traces⟩, valid.framing⟩, valid.closed⟩⟩

/-! ## Edits -/

/-- One change of an ask by an actor, with what is checked before it. -/
inductive Edit {Text : Type} (yaml : YamlPackage Text) (m : Manifest) (actor stamp : String)
    (doc : AskDocument) : AskDocument → Prop where
  | reply {id prose : String} (member : actor ∈ doc.entity.members.items) (written : prose ≠ "")
      (valid : ValidAskID id = true) :
      Edit yaml m actor stamp doc (doc.appendReply yaml ⟨replyID id, actor, stamp, prose⟩)
  | settle {choice prose : String} (opened : doc.entity.state = "open") (written : prose ≠ "")
      (addressee : actor = doc.entity.addressedTo) :
      Edit yaml m actor stamp doc (((doc.appendSettlementRuling
        ⟨doc.entity.framing.question, doc.entity.framing.options, choice, prose, actor,
          stamp⟩).setKind "ruling").setClosed "settled")
  | close {outcome reason : String} (opened : doc.entity.state = "open")
      (unsettled : nonSettled outcome = true) (reasoned : reason ≠ "")
      (may : mayClose m doc.entity actor = true) :
      Edit yaml m actor stamp doc ((doc.setClosed outcome).appendTrace yaml
        ⟨"close", actor, stamp, outcome, reason, none, ""⟩)
  | withdraw {outcome reason : String} {citation : TypedRef} (opened : doc.entity.state = "open")
      (unsettled : nonSettled outcome = true)
      (reasoned : reason ≠ "") (cited : validRef citation true = true)
        (authority : actor = m.authority)
      (unanswered : ∀ reply ∈ doc.entity.replies.items, reply.actor ≠ doc.entity.addressedTo) :
      Edit yaml m actor stamp doc ((doc.setClosed outcome).appendTrace yaml
        ⟨"withdraw", actor, stamp, outcome, reason, some citation, ""⟩)
  | link {link : TypedRef} (valid : validRef link true = true) :
      Edit yaml m actor stamp doc (doc.appendLink yaml link)
  | anchor {link : TypedRef} (valid : validRef link false = true) :
      Edit yaml m actor stamp doc (doc.setAnchor link)
  | widen {member : String} (opened : doc.entity.state = "open") (named : member ≠ "")
      (owner : actor = m.owner)
      (fresh : member ∉ doc.entity.members.items) :
      Edit yaml m actor stamp doc ((doc.appendMember member).appendTrace yaml
        ⟨"widen-membership", actor, stamp, "", "", none, member⟩)

abbrev Edits {Text : Type} (yaml : YamlPackage Text) (m : Manifest) (actor stamp : String) :
    AskDocument → AskDocument → Prop :=
  Relation.ReflTransGen (Edit yaml m actor stamp)

section

variable {Text : Type} {yaml : YamlPackage Text} {times : Times} {m : Manifest}
  {actor stamp : String} {doc doc' : AskDocument}

theorem applyReply_edits {prose : Option String} {random : Except String (Nat → BitVec 8)}
    (applied : applyReply yaml times actor stamp doc prose random = .ok doc') :
    Edits yaml m actor stamp doc doc' := by
  unfold applyReply at applied
  split at applied
  · cases applied
  · next prose filtered =>
    obtain ⟨-, written⟩ := Option.filter_eq_some_iff.mp filtered
    split at applied
    · cases applied
    · next member =>
      split at applied
      · cases applied
      · next id generated =>
        obtain rfl := Except.ok.inj applied
        exact .single (.reply (not_not.mp member) (of_decide_eq_true written)
          (GenerateAskID_valid generated))

theorem applySettle_edits {input : Option SettleInput}
    (applied : applySettle actor stamp doc input = .ok doc') :
    Edits yaml m actor stamp doc doc' := by
  unfold applySettle at applied
  split at applied
  · cases applied
  · next opened =>
    split at applied
    · cases applied
    · next input filtered =>
      obtain ⟨-, written⟩ := Option.filter_eq_some_iff.mp filtered
      split at applied
      · cases applied
      · next addressee =>
        split at applied
        · cases applied
        · obtain rfl := Except.ok.inj applied
          exact .single (.settle (not_not.mp opened) (of_decide_eq_true written)
            (not_not.mp addressee))

theorem applyClose_edits {input : Option CloseInput}
    (applied : applyClose yaml m actor stamp doc input = .ok doc') :
    Edits yaml m actor stamp doc doc' := by
  unfold applyClose at applied
  split at applied
  · cases applied
  · next opened =>
    split at applied
    · cases applied
    · next input filtered =>
      obtain ⟨-, right⟩ := Option.filter_eq_some_iff.mp filtered
      obtain ⟨unsettled, reasoned⟩ := (Bool.and_eq_true _ _).mp right
      split at applied
      · cases applied
      · next may =>
        obtain rfl := Except.ok.inj applied
        exact .single (.close (not_not.mp opened) unsettled (of_decide_eq_true reasoned)
          (by simpa using may))

theorem applyWithdraw_edits {input : Option WithdrawInput}
    (applied : applyWithdraw yaml m actor stamp doc input = .ok doc') :
    Edits yaml m actor stamp doc doc' := by
  unfold applyWithdraw at applied
  split at applied
  · cases applied
  · next opened =>
    split at applied
    · cases applied
    · next input filtered =>
      obtain ⟨-, right⟩ := Option.filter_eq_some_iff.mp filtered
      simp only [Bool.and_eq_true, decide_eq_true_eq] at right
      obtain ⟨⟨⟨unsettled, reasoned⟩, -⟩, -⟩ := right
      split at applied
      · cases applied
      · next cited =>
        split at applied
        · cases applied
        · split at applied
          · cases applied
          · next authority =>
            split at applied
            · cases applied
            · next unanswered =>
              obtain rfl := Except.ok.inj applied
              exact .single (.withdraw (not_not.mp opened) unsettled reasoned (by simpa using cited)
                (not_not.mp authority)
                (by simpa using unanswered))

theorem applyLink_edits {input : Option LinkInput}
    (applied : applyLink yaml m actor doc input = .ok doc') :
    Edits yaml m actor stamp doc doc' := by
  unfold applyLink at applied
  split at applied
  · cases applied
  · next input filtered =>
    split at applied
    · cases applied
    · split at applied
      · cases applied
      · next valid =>
        have linked : Edits yaml m actor stamp doc (doc.linkOnce yaml input.link) := by
          unfold AskDocument.linkOnce
          split
          · exact .refl
          · exact .single (.link (by simpa using valid))
        split at applied
        · obtain rfl := Except.ok.inj applied
          exact linked
        · split at applied
          · cases applied
          · next anchored =>
            obtain rfl := Except.ok.inj applied
            exact linked.tail (.anchor (by simpa using anchored))

theorem applyWiden_edits {member : Option String}
    (applied : applyWiden yaml m actor stamp doc member = .ok doc') :
    Edits yaml m actor stamp doc doc' := by
  unfold applyWiden at applied
  split at applied
  · cases applied
  · next opened =>
    split at applied
    · cases applied
    · next member filtered =>
      obtain ⟨-, named⟩ := Option.filter_eq_some_iff.mp filtered
      split at applied
      · cases applied
      · next owner =>
        split at applied
        · obtain rfl := Except.ok.inj applied
          exact .refl
        · next fresh =>
          obtain rfl := Except.ok.inj applied
          exact .single (.widen (not_not.mp opened) (of_decide_eq_true named)
            (not_not.mp owner) fresh)

/-- An accepted operation makes edits of a valid ask. -/
theorem applied {mutation : Mutation}
    (accepted : applyAskMutation yaml times m actor stamp doc mutation = .ok doc') :
    Valid times m.owner doc.entity ∧ Edits yaml m actor stamp doc doc' := by
  unfold applyAskMutation at accepted
  split at accepted
  · cases accepted
  · next valid =>
    refine ⟨valid_iff.mp valid, ?_⟩
    cases mutation with
    | reply prose random => exact applyReply_edits accepted
    | settle input => exact applySettle_edits accepted
    | close input => exact applyClose_edits accepted
    | withdrawWithCitation input => exact applyWithdraw_edits accepted
    | link input => exact applyLink_edits accepted
    | widenMembership member => exact applyWiden_edits accepted

end

/-! ## Edits keep asks valid -/

@[simp]
theorem Slice.items_append {α : Type} (slice : Slice α) (item : α) :
    (slice.append item).items = slice.items ++ [item] := rfl

@[simp]
theorem Slice.isNone_append {α : Type} (slice : Slice α) (item : α) :
    Option.isNone (slice.append item) = false := rfl

section

variable {times : Times} {owner : String} {e e' : AskEntity}

theorem replyChecks_mono {reply : Reply}
    (members : ∀ member ∈ e.members.items, member ∈ e'.members.items)
    (passes : Passes (replyChecks times e reply)) : Passes (replyChecks times e' reply) := by
  simp only [replyChecks, passes_cons, decide_eq_false_iff_not, not_not] at passes ⊢
  exact ⟨passes.1, passes.2.1, members _ passes.2.2.1, passes.2.2.2⟩

theorem traceChecks_mono {trace : Trace}
    (members : ∀ member ∈ e.members.items, member ∈ e'.members.items)
    (closure : closing trace = true → e'.state = "closed" ∧ e'.outcome = some trace.outcome)
    (passes : Passes (traceChecks times e trace)) :
    Passes (traceChecks times e' trace) := by
  simp only [traceChecks, passes_cons] at passes ⊢
  obtain ⟨some_, action, stamped, close, withdraw, named, member, -, last⟩ := passes
  refine ⟨some_, action, stamped, close, withdraw, named, ?_, ?_, last⟩
  · simp only [Bool.and_eq_false_imp, decide_eq_true_eq, decide_eq_false_iff_not,
      not_not] at member ⊢
    exact fun widens => members _ (member widens)
  · simp only [Bool.and_eq_false_imp, Bool.or_eq_false_iff, decide_eq_false_iff_not, not_not]
    exact closure

/-- An open ask has no closing trace. -/
theorem Valid.unclosed (valid : Valid times owner e) (opened : e.state = "open") :
    closureTraces e = 0 := by
  have closed := valid.closed
  simp only [closeChecks, passes_cons, Bool.and_eq_false_imp, decide_eq_true_eq,
    decide_eq_false_iff_not, not_not] at closed
  exact closed.2.2.2.1 opened

theorem Valid.not_closing (valid : Valid times owner e) (opened : e.state = "open") {trace : Trace}
    (inside : trace ∈ e.traces.items) :
    closing trace = false :=
  Bool.eq_false_iff.mpr (List.countP_eq_zero.mp (valid.unclosed opened) trace inside)

/-- The traces of an open ask pass whatever it is closed with. -/
theorem Valid.traces_open (valid : Valid times owner e) (opened : e.state = "open")
    (members : ∀ member ∈ e.members.items, member ∈ e'.members.items) :
    ∀ trace ∈ e.traces.items, Passes (traceChecks times e' trace) := by
  intro trace inside
  refine traceChecks_mono members (fun closes => ?_) (valid.traces trace inside)
  rw [valid.not_closing opened inside] at closes
  cases closes

theorem Valid.required_iff : Passes (requiredChecks e) ↔
    (e.links.isSome ∧ e.replies.isSome ∧ e.rulingTrail.isSome ∧ e.traces.isSome ∧
    e.framing.subDecisions.isSome ∧ e.framing.options.isSome) ∧
      e.asker ≠ "" ∧ e.addressedTo ≠ "" ∧ e.createdAt ≠ "" ∧ e.updatedAt ≠ "" := by
  simp [requiredChecks, and_assoc]

end

section

variable {Text : Type} {yaml : YamlPackage Text} {times : Times} {m : Manifest}
  {actor stamp owner : String}
  {doc doc' : AskDocument}

/-- A closing trace closes an open ask. -/
theorem Valid.closeWith (valid : Valid times owner doc.entity) (opened : doc.entity.state = "open")
    (trace : Trace)
    (unsettled : nonSettled trace.outcome = true) (closes : closing trace = true)
    (passes : Passes (traceChecks times { doc.entity with state := "closed", outcome := some trace.outcome } trace)) :
    Valid times owner ((doc.setClosed trace.outcome).appendTrace yaml trace).entity := by
  have state := valid.state
  have required := Valid.required_iff.mp valid.required
  have closed := valid.closed
  have none_ := valid.unclosed opened
  simp only [nonSettled, decide_eq_true_eq] at unsettled
  refine { valid with state := ?_, required := ?_, traces := ?_, closed := ?_ }
  · simp only [stateChecks, passes_cons] at state ⊢
    refine ⟨state.1, state.2.1, rfl, rfl, ?_, state.2.2.2.2.2⟩
    show (true && !decide (trace.outcome ∈ ["settled", "no-action", "superseded"])) = false
    rw [decide_eq_true (List.mem_cons_of_mem _ unsettled)]
    rfl
  · exact Valid.required_iff.mpr ⟨⟨required.1.1, required.1.2.1, required.1.2.2.1, rfl, required.1.2.2.2.2⟩, required.2⟩
  · intro other inside
    rcases List.mem_append.mp inside with before | last
    · exact @Valid.traces_open _ _ _ { doc.entity with state := "closed", outcome := some trace.outcome } valid opened (fun _ own => own)
        other before
    · obtain rfl := List.mem_singleton.mp last
      exact passes
  · simp only [closeChecks, passes_cons] at closed ⊢
    have one : closureTraces ((doc.setClosed trace.outcome).appendTrace yaml trace).entity = 1 := by
      show List.countP closing (doc.entity.traces.items ++ [trace]) = 1
      rw [List.countP_append, List.countP_singleton, closes, if_pos rfl]
      exact congrArg (· + 1) none_
    refine ⟨closed.1, ?_, ?_, rfl, closed.2.2.2.2⟩
    · show (decide (some trace.outcome = some "settled") && _) = false
      rw [decide_eq_false, Bool.false_and]
      intro same
      rw [Option.some.inj same] at unsettled
      exact absurd unsettled (by decide)
    · rw [one]
      simp

section

variable (valid : Valid times owner doc.entity) (named : actor ≠ "") (stamped : stamp ≠ "")
  (parsed : (times.parse stamp).isNone = false)

include valid named stamped parsed

theorem Valid.replied {id prose : String} (member : actor ∈ doc.entity.members.items)
    (written : prose ≠ "") (own : ValidAskID id = true) :
    Valid times owner (doc.appendReply yaml ⟨replyID id, actor, stamp, prose⟩).entity := by
  have required := Valid.required_iff.mp valid.required
  refine { valid with required := ?_, replies := ?_ }
  · exact Valid.required_iff.mpr ⟨⟨required.1.1, rfl, required.1.2.2⟩, required.2⟩
  intro reply inside
  rcases List.mem_append.mp inside with before | last
  · exact valid.replies reply before
  · obtain rfl := List.mem_singleton.mp last
    simp only [replyChecks, passes_cons]
    refine ⟨?_, parsed, ?_, passes_nil⟩
    · simp [replyID_valid own, named, stamped, written]
    · show decide (actor ∉ doc.entity.members.items) = false
      simpa using member

/-- A settlement closes an open ask with a ruling; no trace is written. -/
theorem Valid.settled {choice prose : String} (opened : doc.entity.state = "open")
    (written : prose ≠ "") :
    Valid times owner (((doc.appendSettlementRuling
      ⟨doc.entity.framing.question, doc.entity.framing.options, choice, prose, actor,
        stamp⟩).setKind "ruling").setClosed "settled").entity := by
  have required := Valid.required_iff.mp valid.required
  have state := valid.state
  refine { valid with state := ?_, required := ?_, rulings := ?_, traces := ?_, closed := ?_ }
  · simp only [stateChecks, passes_cons] at state ⊢
    exact ⟨state.1, rfl, rfl, rfl, rfl, state.2.2.2.2.2⟩
  · exact Valid.required_iff.mpr ⟨⟨required.1.1, required.1.2.1, rfl, required.1.2.2.2⟩,
      required.2⟩
  · intro ruling inside
    rcases List.mem_append.mp inside with before | last
    · exact valid.rulings ruling before
    · obtain rfl := List.mem_singleton.mp last
      simp only [rulingChecks, passes_cons]
      refine ⟨?_, parsed, passes_nil⟩
      simp [named, stamped, written]
  · exact valid.traces_open opened fun _ own => own
  · have same : closureTraces (((doc.appendSettlementRuling
        ⟨doc.entity.framing.question, doc.entity.framing.options, choice, prose, actor,
            stamp⟩).setKind "ruling").setClosed "settled").entity = 0 :=
      valid.unclosed opened
    simp only [closeChecks, passes_cons, same]
    refine ⟨?_, ?_, rfl, rfl, passes_nil⟩
    · show (true && List.isEmpty (_ ++ [_])) = false
      simp
    · show (true && (false || List.isEmpty (_ ++ [_]) || false)) = false
      simp

/-- A new member leaves every reply's author a member, and the trace of it is no closing one. -/
theorem Valid.widened {member : String} (opened : doc.entity.state = "open")
    (some_ : member ≠ "") (fresh : member ∉ doc.entity.members.items) :
    Valid times owner ((doc.appendMember member).appendTrace yaml
      ⟨"widen-membership", actor, stamp, "", "", none, member⟩).entity := by
  have required := Valid.required_iff.mp valid.required
  have kept : ∀ other ∈ doc.entity.members.items,
      other ∈ (doc.entity.members.append member).items := fun other inside =>
    List.mem_append_left _ inside
  have members := valid.members
  have closed := valid.closed
  refine { valid with required := ?_, members := ?_, replies := ?_, traces := ?_, closed := ?_ }
  · exact Valid.required_iff.mpr ⟨⟨required.1.1, required.1.2.1, required.1.2.2.1, rfl,
      required.1.2.2.2.2⟩, required.2⟩
  · simp only [memberChecks, passes_cons] at members ⊢
    refine ⟨members.1, members.2.1, ?_, passes_nil⟩
    have old := members.2.2.1
    simp only [Bool.not_eq_false', Bool.and_eq_true, decide_eq_true_eq] at old ⊢
    refine ⟨old.1.trans (List.prefix_append _ _), ?_⟩
    show (doc.entity.members.items ++ [member]).Nodup
    rw [List.nodup_append]
    refine ⟨old.2, List.pairwise_singleton _ _, fun other inside last own same => fresh ?_⟩
    rwa [← List.mem_singleton.mp own, ← same]
  · exact fun reply inside => replyChecks_mono kept (valid.replies reply inside)
  · intro trace inside
    rcases List.mem_append.mp inside with before | last
    · exact valid.traces_open opened kept trace before
    · obtain rfl := List.mem_singleton.mp last
      simp only [traceChecks, passes_cons]
      refine ⟨?_, rfl, parsed, rfl, rfl, ?_, ?_, rfl, passes_nil⟩
      · simp [named, stamped]
      · simp [some_]
      · simp [AskDocument.appendMember, AskDocument.appendTrace]
  · have none_ := valid.unclosed opened
    have same :
        closureTraces ((doc.appendMember member).appendTrace yaml
        ⟨"widen-membership", actor, stamp, "", "", none, member⟩).entity = 0 := by
      show List.countP closing (doc.entity.traces.items ++ [_]) = 0
      rw [List.countP_append, List.countP_singleton]
      exact congrArg (· + 0) none_
    simp only [closeChecks, passes_cons, same] at closed ⊢
    rw [none_] at closed
    exact closed

theorem Valid.edit (edit : Edit yaml m actor stamp doc doc') :
    Valid times owner doc'.entity := by
  cases edit with
  | reply member written own => exact valid.replied named stamped parsed member written own
  | settle opened written addressee => exact valid.settled named stamped parsed opened written
  | @close outcome reason opened unsettled reasoned may =>
    refine valid.closeWith opened
      ⟨"close", actor, stamp, outcome, reason, none, ""⟩ unsettled rfl ?_
    have own : outcome ∈ ["no-action", "superseded"] := of_decide_eq_true unsettled
    simp only [traceChecks, passes_cons]
    refine ⟨?_, rfl, parsed, ?_, rfl, rfl, rfl, ?_, passes_nil⟩
    · simp [named, stamped]
    · simp only [own, reasoned]
      rfl
    · simp [closing]
  | @withdraw outcome reason citation opened unsettled reasoned cited authority unanswered =>
    refine valid.closeWith opened
      ⟨"withdraw", actor, stamp, outcome, reason, some citation, ""⟩ unsettled rfl ?_
    have own : outcome ∈ ["no-action", "superseded"] := of_decide_eq_true unsettled
    simp only [traceChecks, passes_cons]
    refine ⟨?_, rfl, parsed, rfl, ?_, rfl, rfl, ?_, passes_nil⟩
    · simp [named, stamped]
    · simp only [own, reasoned, Option.any_some, cited]
      rfl
    · simp [closing]
  | @link link own =>
    have required := Valid.required_iff.mp valid.required
    refine { valid with required := ?_, refs := ?_ }
    · exact Valid.required_iff.mpr ⟨⟨rfl, required.1.2⟩, required.2⟩
    have refs := valid.refs
    simp only [refChecks, passes_cons, passes_map] at refs ⊢
    refine ⟨refs.1, fun other inside => ?_⟩
    rcases List.mem_append.mp inside with before | last
    · exact refs.2 other before
    · obtain rfl := List.mem_singleton.mp last
      simp [own]
  | @anchor link own =>
    refine { valid with refs := ?_ }
    have refs := valid.refs
    simp only [refChecks, passes_cons] at refs ⊢
    refine ⟨?_, refs.2⟩
    simp [AskDocument.setAnchor, own]
  | widen opened some_ _ fresh => exact valid.widened named stamped parsed opened some_ fresh

end

end

end AiConfig.Mish
