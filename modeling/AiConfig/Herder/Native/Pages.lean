import AiConfig.Herder.Native.Wakes

/-! # A transcript's pages

The window that a transcript shows is a function of the set of entries read in.

* `Window` — what each map holds of a list of entries, whatever order they came in.
* `Window.takeIn` — one more entry.
* `pages_commute` — pages in any order leave the window of one page with all their entries. -/

namespace AiConfig.Herder.NativeTranscript

open Std

variable {c : Condense}

/-! ## What a list of entries shows -/

/-- The call, or the result, of a tool id. -/
def isOf (kind : Kind) (id : String) (entry : Entry c.Payload) : Bool :=
  entry.kind = kind ∧ Transcript.toolID entry = id

def resultOf (entries : List (Entry c.Payload)) (id : String) : Option c.Result :=
  (entries.find? (isOf .toolResult id)).map fun entry => c.toolResult entry.payload entry.timestamp

/-- A call's item, with its result. -/
def callItem (entry : Entry c.Payload) (result : Option c.Result) : Item c.Row c.Result :=
  .tool (c.toolCall entry.payload).1 (c.toolCall entry.payload).2.1
    (c.toolCall entry.payload).2.2 result

def itemsOf (entries : List (Entry c.Payload)) (entry : Entry c.Payload) :
    List (Item c.Row c.Result) :=
  match entry.kind with
  | .toolUse => [callItem entry (resultOf entries (Transcript.toolID entry))]
  | .toolResult => []
  | _ => c.condense entry

def isAt (offset : Nat) (entry : Entry c.Payload) : Bool := entry.byteOffset = offset

/-- Entries at different offsets, no two of them calls of one tool id nor results of one. -/
structure Distinct (entries : List (Entry c.Payload)) : Prop where
  offsets : (entries.map Entry.byteOffset).Nodup
  ids : ∀ kind ∈ [Kind.toolUse, .toolResult], ∀ a ∈ entries, ∀ b ∈ entries, a.kind = kind →
    b.kind = kind →
    Transcript.toolID a = Transcript.toolID b → a = b

/-- The maps of a transcript into which the entries were read. -/
structure Window (entries : List (Entry c.Payload)) (t : Transcript c) : Prop where
  items : ∀ key : Key, t.items[key]? = (entries.find? (isAt key.1)).bind fun entry =>
    (Transcript.insertItems entry.byteOffset (itemsOf entries entry) ∅)[key]?
  times : ∀ offset : Nat, t.times[offset]? = (entries.find? (isAt offset)).bind fun entry =>
    (c.epochMs entry.timestamp).filter fun _ => !(itemsOf entries entry).isEmpty
  calls : ∀ id : String, t.calls[id]? = (entries.find? (isOf .toolUse id)).map fun entry =>
    (entry.byteOffset, 0)
  orphans : ∀ id : String, t.orphans[id]? =
    if (entries.find? (isOf .toolUse id)).isSome then none else resultOf entries id
  readIn : ∀ offset : Nat, t.readIn[offset]? = (entries.find? (isAt offset)).map fun entry =>
    (entry.kind, entry.timestamp)

/-! ## The items of one entry -/

theorem insertItems_other {offset : Nat} {key : Key} (apart : key.1 ≠ offset)
    (items : List (Item c.Row c.Result))
    (map : ExtTreeMap Key (Item c.Row c.Result) cmpKey) :
    (Transcript.insertItems offset items map)[key]? = map[key]? := by
  have each :
    ∀ (pairs : List (Item c.Row c.Result × Nat))
    (map : ExtTreeMap Key (Item c.Row c.Result) cmpKey),
      (pairs.foldl (fun map pair => map.insert (offset, pair.2 % 2 ^ 16) pair.1) map)[key]? =
          map[key]? := by
    intro pairs
    induction pairs with
    | nil => exact fun _ => rfl
    | cons pair pairs inductionHypothesis =>
      intro map
      rw [List.foldl_cons, inductionHypothesis, ExtTreeMap.getElem?_insert, if_neg]
      rw [LawfulEqCmp.compare_eq_iff_eq]
      rintro rfl
      exact apart rfl
  exact each items.zipIdx map

/-- An entry's items do not depend on the items elsewhere. -/
theorem insertItems_own {key : Key} (items : List (Item c.Row c.Result))
    {map map' : ExtTreeMap Key (Item c.Row c.Result) cmpKey}
    (same : map[key]? = map'[key]?) (offset : Nat) :
    (Transcript.insertItems offset items map)[key]? =
    (Transcript.insertItems offset items map')[key]? := by
  have each :
    ∀ (pairs : List (Item c.Row c.Result × Nat))
    (map map' : ExtTreeMap Key (Item c.Row c.Result) cmpKey),
      map[key]? = map'[key]? →
      (pairs.foldl (fun map pair => map.insert (offset, pair.2 % 2 ^ 16) pair.1) map)[key]? =
        (pairs.foldl (fun map pair => map.insert (offset, pair.2 % 2 ^ 16) pair.1) map')[key]? := by
    intro pairs
    induction pairs with
    | nil => exact fun _ _ same => same
    | cons pair pairs inductionHypothesis =>
      intro map map' same
      refine inductionHypothesis _ _ ?_
      rw [ExtTreeMap.getElem?_insert, ExtTreeMap.getElem?_insert, same]
  exact each items.zipIdx map map' same

/-! ## One more entry -/

section

variable {entries : List (Entry c.Payload)} {entry : Entry c.Payload} {t : Transcript c}

theorem Distinct.tail (distinct : Distinct (entry :: entries)) : Distinct entries where
  offsets := (List.nodup_cons.mp distinct.offsets).2
  ids kind member a inA b inB :=
    distinct.ids kind member a (List.mem_cons_of_mem _ inA) b (List.mem_cons_of_mem _ inB)

/-- No entry was read in at a new entry's offset. -/
theorem Distinct.fresh (distinct : Distinct (entry :: entries)) :
    entries.find? (isAt entry.byteOffset) = none := by
  rw [List.find?_eq_none]
  intro other inside at_
  have absent := (List.nodup_cons.mp distinct.offsets).1
  simp only [isAt, decide_eq_true_eq] at at_
  exact absent (at_ ▸ List.mem_map_of_mem inside)

/-- No call was read in of a new call's id, and no result of a new result's. -/
theorem Distinct.first (distinct : Distinct (entry :: entries)) {kind : Kind}
    (tool : kind ∈ [Kind.toolUse, .toolResult])
    (own : entry.kind = kind) : entries.find? (isOf kind (Transcript.toolID entry)) = none := by
  rw [List.find?_eq_none]
  intro other inside isKind
  simp only [isOf, decide_eq_true_eq] at isKind
  obtain rfl :=
    distinct.ids kind tool other (List.mem_cons_of_mem _ inside) entry List.mem_cons_self isKind.1
    own isKind.2
  exact (List.nodup_cons.mp distinct.offsets).1 (List.mem_map_of_mem inside)

/-- A new entry that is no result leaves the results as they are. -/
theorem resultOf_cons_other {id : String}
    (other : entry.kind ≠ .toolResult ∨ Transcript.toolID entry ≠ id) :
    resultOf (entry :: entries) id = resultOf entries id := by
  rw [resultOf, List.find?_cons_of_neg]
  · rfl
  · simp only [isOf, decide_eq_true_eq, not_and]
    intro result
    exact other.resolve_left (not_not_intro result)

theorem itemsOf_congr {entries entries' : List (Entry c.Payload)} {entry : Entry c.Payload}
    (same : entry.kind = .toolUse →
    resultOf entries (Transcript.toolID entry) = resultOf entries' (Transcript.toolID entry)) :
    itemsOf entries entry = itemsOf entries' entry := by
  unfold itemsOf
  split
  · next call => rw [same call]
  · rfl
  · rfl

theorem find?_isAt_cons (offset : Nat) : (entry :: entries).find? (isAt offset) =
    if entry.byteOffset = offset then some entry else entries.find? (isAt offset) := by
  rw [List.find?_cons]
  by_cases at_ : entry.byteOffset = offset <;> simp [isAt, at_]

/-- Entries whose items a new entry leaves as they are. -/
theorem Window.items_cons (window : Window entries t) (distinct : Distinct (entry :: entries))
    (same : ∀ old ∈ entries, old.kind = .toolUse →
      resultOf (entry :: entries) (Transcript.toolID old) =
        resultOf entries (Transcript.toolID old)) (key : Key) :
    (Transcript.insertItems entry.byteOffset (itemsOf (entry :: entries) entry) t.items)[key]? =
      ((entry :: entries).find? (isAt key.1)).bind fun entry' =>
        (Transcript.insertItems entry'.byteOffset (itemsOf (entry :: entries) entry') ∅)[key]? := by
  rw [find?_isAt_cons]
  split
  · next at_ =>
    have none : t.items[key]? = (∅ : ExtTreeMap Key (Item c.Row c.Result) cmpKey)[key]? := by
      rw [window.items, ← at_, distinct.fresh, ExtTreeMap.getElem?_empty]
      rfl
    exact insertItems_own _ none _
  · next apart =>
    rw [insertItems_other (Ne.symm apart), window.items]
    cases found : entries.find? (isAt key.1) with
    | none => rfl
    | some old =>
      have inside := List.mem_of_find?_eq_some found
      rw [Option.bind_some, Option.bind_some, itemsOf_congr fun call => (same old inside call).symm]

theorem Window.times_cons (window : Window entries t) (distinct : Distinct (entry :: entries))
    (offset : Nat) :
    (match (c.epochMs entry.timestamp).filter fun _ => !(itemsOf
    (entry :: entries) entry).isEmpty with
      | some at_ => t.times.insert entry.byteOffset at_
      | none => t.times)[offset]? =
      ((entry :: entries).find? (isAt offset)).bind fun entry' =>
        (c.epochMs entry'.timestamp).filter fun _ =>
            !(itemsOf (entry :: entries) entry').isEmpty := by
  have empty : ∀ old, (itemsOf (entry :: entries) old).isEmpty = (itemsOf entries old).isEmpty := by
    intro old
    unfold itemsOf
    split <;> rfl
  have before := window.times offset
  rw [find?_isAt_cons]
  split
  · next at_ shown =>
    rw [ExtTreeMap.getElem?_insert]
    by_cases own : entry.byteOffset = offset
    · rw [if_pos own, if_pos (by rw [LawfulEqCmp.compare_eq_iff_eq]; exact own), Option.bind_some,
        shown]
    · rw [if_neg own, if_neg (by rw [LawfulEqCmp.compare_eq_iff_eq]; exact own), before]
      simp only [empty]
  · next hidden =>
    by_cases own : entry.byteOffset = offset
    · rw [if_pos own, Option.bind_some, hidden, before, ← own, distinct.fresh]
      rfl
    · rw [if_neg own, before]
      simp only [empty]

theorem Window.readIn_cons (window : Window entries t) (offset : Nat) :
    (t.readIn.insert entry.byteOffset (entry.kind, entry.timestamp))[offset]? =
      ((entry :: entries).find? (isAt offset)).map fun entry' =>
      (entry'.kind, entry'.timestamp) := by
  rw [ExtTreeMap.getElem?_insert, find?_isAt_cons]
  by_cases own : entry.byteOffset = offset
  · rw [if_pos (by rw [LawfulEqCmp.compare_eq_iff_eq]; exact own), if_pos own, Option.map_some]
  · rw [if_neg (by rw [LawfulEqCmp.compare_eq_iff_eq]; exact own), if_neg own, window.readIn]

theorem find?_isOf_cons (kind : Kind) (id : String) : (entry :: entries).find? (isOf kind id) =
    if entry.kind = kind ∧ Transcript.toolID entry = id then some entry
    else entries.find? (isOf kind id) := by
  rw [List.find?_cons]
  by_cases own : entry.kind = kind ∧ Transcript.toolID entry = id <;> simp [isOf, own]

/-- A call takes the result that waited for it. -/
theorem Window.takeIn_call (window : Window entries t) (distinct : Distinct (entry :: entries))
    (call : entry.kind = .toolUse) :
    Window (entry :: entries) (t.takeIn entry) := by
  have noResult : entry.kind ≠ .toolResult := by simp [call]
  have same : ∀ id, resultOf (entry :: entries) id = resultOf entries id :=
    fun id => resultOf_cons_other (.inl noResult)
  have first := distinct.first (by simp) call
  -- Its result, if the window has one, waits among the orphans.
  have waiting : t.orphans[Transcript.toolID entry]? =
      resultOf (entry :: entries) (Transcript.toolID entry) := by
    rw [window.orphans, first, same]
    rfl
  have items :
      itemsOf (entry :: entries) entry = [callItem entry t.orphans[Transcript.toolID entry]?] := by
    rw [itemsOf, call, waiting]
  -- So the call is shown with it, and the orphan is gone.
  have taken : t.takeIn entry =
      { t with
        readIn := t.readIn.insert entry.byteOffset (entry.kind, entry.timestamp)
        orphans := t.orphans.erase (Transcript.toolID entry)
        calls := t.calls.insert (Transcript.toolID entry) (entry.byteOffset, 0) }.insertEntry entry
          (itemsOf (entry :: entries) entry) := by
    rw [items]
    unfold Transcript.takeIn Transcript.ingest
    simp only [call]
    rfl
  rw [taken]
  constructor
  · exact window.items_cons distinct fun old _ _ => same _
  · exact window.times_cons distinct
  · intro id
    show (t.calls.insert (Transcript.toolID entry) (entry.byteOffset, 0))[id]? = _
    rw [ExtTreeMap.getElem?_insert, find?_isOf_cons, window.calls]
    by_cases own : Transcript.toolID entry = id
    · rw [if_pos (by rw [LawfulEqCmp.compare_eq_iff_eq]; exact own), if_pos ⟨call, own⟩,
        Option.map_some]
    · rw [if_neg (by rw [LawfulEqCmp.compare_eq_iff_eq]; exact own), if_neg fun both => own both.2]
  · intro id
    show (t.orphans.erase (Transcript.toolID entry))[id]? = _
    rw [ExtTreeMap.getElem?_erase]
    by_cases own : Transcript.toolID entry = id
    · have found : (entry :: entries).find? (isOf .toolUse id) = some entry := by
        rw [find?_isOf_cons, if_pos ⟨call, own⟩]
      rw [if_pos (by rw [LawfulEqCmp.compare_eq_iff_eq]; exact own), found]
      rfl
    · have older :
          (entry :: entries).find? (isOf .toolUse id) = entries.find? (isOf .toolUse id) := by
        rw [find?_isOf_cons, if_neg fun both => own both.2]
      rw [if_neg (by rw [LawfulEqCmp.compare_eq_iff_eq]; exact own), older, window.orphans, same]
  · exact window.readIn_cons

/-- An entry that is no tool's adds its items. -/
theorem Window.takeIn_other (window : Window entries t) (distinct : Distinct (entry :: entries))
    (noCall : entry.kind ≠ .toolUse)
    (noResult : entry.kind ≠ .toolResult) : Window (entry :: entries) (t.takeIn entry) := by
  have same : ∀ id, resultOf (entry :: entries) id = resultOf entries id :=
    fun id => resultOf_cons_other (.inl noResult)
  have items : itemsOf (entry :: entries) entry = c.condense entry := by
    unfold itemsOf
    split
    · next call => exact absurd call noCall
    · next result => exact absurd result noResult
    · rfl
  have taken : t.takeIn entry =
      { t with readIn := t.readIn.insert entry.byteOffset (entry.kind,
        entry.timestamp) }.insertEntry entry
        (itemsOf (entry :: entries) entry) := by
    rw [items]
    unfold Transcript.takeIn Transcript.ingest
    dsimp only
    split
    · next call => exact absurd call noCall
    · next result => exact absurd result noResult
    · rfl
  have calls :
      ∀ id, (entry :: entries).find? (isOf .toolUse id) = entries.find? (isOf .toolUse id) := by
    intro id
    rw [find?_isOf_cons, if_neg fun both => noCall both.1]
  rw [taken]
  constructor
  · exact window.items_cons distinct fun old _ _ => same _
  · exact window.times_cons distinct
  · intro id
    rw [calls]
    exact window.calls id
  · intro id
    rw [calls, same]
    exact window.orphans id
  · exact window.readIn_cons

theorem resultOf_cons_own (result : entry.kind = .toolResult) :
    resultOf (entry :: entries) (Transcript.toolID entry) =
      some (c.toolResult entry.payload entry.timestamp) := by
  rw [resultOf, find?_isOf_cons, if_pos ⟨result, rfl⟩, Option.map_some]

/-- Where an entry was read in, it is found. -/
theorem Distinct.found (distinct : Distinct entries) {old : Entry c.Payload}
    (inside : old ∈ entries) :
    entries.find? (isAt old.byteOffset) = some old := by
  cases found : entries.find? (isAt old.byteOffset) with
  | none => exact absurd (List.find?_eq_none.mp found old inside) (by simp [isAt])
  | some other =>
    have at_ : other.byteOffset = old.byteOffset := by simpa [isAt] using List.find?_some found
    rw [List.inj_on_of_nodup_map distinct.offsets (List.mem_of_find?_eq_some found) inside at_]

theorem insertItems_call (call : Entry c.Payload) (result : Option c.Result) (key : Key) :
    (Transcript.insertItems call.byteOffset [callItem call result] ∅)[key]? =
      if (call.byteOffset, 0) = key then some (callItem call result) else none := by
  show ((∅ : ExtTreeMap Key (Item c.Row c.Result) cmpKey).insert (call.byteOffset, 0) _)[key]? = _
  rw [ExtTreeMap.getElem?_insert, ExtTreeMap.getElem?_empty]
  simp only [LawfulEqCmp.compare_eq_iff_eq]

/-- At a call's offset, there is its item. -/
theorem Window.call_items (window : Window entries t) (distinct : Distinct entries)
    {call : Entry c.Payload} (inside : call ∈ entries)
    (isCall : call.kind = .toolUse) {key : Key} (at_ : key.1 = call.byteOffset) :
    t.items[key]? =
      if (call.byteOffset, 0) = key then
        some (callItem call (resultOf entries (Transcript.toolID call)))
      else none := by
  have items : itemsOf entries call =
    [callItem call (resultOf entries (Transcript.toolID call))] := by rw [itemsOf, isCall]
  rw [window.items, at_, distinct.found inside, Option.bind_some, items, insertItems_call]

/-- A result that goes to its call changes the call's item and no other. -/
theorem Window.items_result (window : Window entries t) (distinct : Distinct (entry :: entries))
    (result : entry.kind = .toolResult)
    {call : Entry c.Payload} (inside : call ∈ entries) (isCall : call.kind = .toolUse)
    (sameID : Transcript.toolID call = Transcript.toolID entry) (key : Key) :
    (t.items.insert (call.byteOffset, 0)
    (callItem call (some (c.toolResult entry.payload entry.timestamp))))[key]? =
      ((entry :: entries).find? (isAt key.1)).bind fun entry' =>
        (Transcript.insertItems entry'.byteOffset (itemsOf (entry :: entries) entry') ∅)[key]? := by
  have nothing : itemsOf (entry :: entries) entry = [] := by rw [itemsOf, result]
  rw [ExtTreeMap.getElem?_insert]
  simp only [LawfulEqCmp.compare_eq_iff_eq]
  by_cases at_ : key.1 = call.byteOffset
  · have items : itemsOf (entry :: entries) call =
        [callItem call (some (c.toolResult entry.payload entry.timestamp))] := by
      rw [itemsOf, isCall]
      dsimp only
      rw [sameID, resultOf_cons_own result]
    rw [at_, distinct.found (List.mem_cons_of_mem _ inside), Option.bind_some, items,
      insertItems_call,
      window.call_items distinct.tail inside isCall at_]
    split <;> rfl
  · have apart : (call.byteOffset, 0) ≠ key := by
      rintro rfl
      exact at_ rfl
    rw [if_neg apart, window.items, find?_isAt_cons]
    split
    · next own =>
      rw [← own, distinct.fresh, Option.bind_some, nothing]
      exact (ExtTreeMap.getElem?_empty).symm
    · cases found : entries.find? (isAt key.1) with
      | none => rfl
      | some old =>
        have oldInside := List.mem_of_find?_eq_some found
        have oldAt : old.byteOffset = key.1 := by simpa [isAt] using List.find?_some found
        rw [Option.bind_some, Option.bind_some, itemsOf_congr fun oldCall =>
          (resultOf_cons_other (.inr ?_)).symm]
        intro own
        have same := distinct.tail.ids .toolUse (by simp) old oldInside call inside oldCall isCall
          (own.symm.trans sameID.symm)
        exact at_ (oldAt.symm.trans (congrArg Entry.byteOffset same))

/-- A result goes to its call, or waits for it. -/
theorem Window.takeIn_result (window : Window entries t) (distinct : Distinct (entry :: entries))
    (result : entry.kind = .toolResult) :
    Window (entry :: entries) (t.takeIn entry) := by
  have noCall : entry.kind ≠ .toolUse := by simp [result]
  have nothing : itemsOf (entry :: entries) entry = [] := by rw [itemsOf, result]
  have calls :
      ∀ id, (entry :: entries).find? (isOf .toolUse id) = entries.find? (isOf .toolUse id) := by
    intro id
    rw [find?_isOf_cons, if_neg fun both => noCall both.1]
  have times : ∀ offset :
      Nat, t.times[offset]? = ((entry :: entries).find? (isAt offset)).bind fun entry' =>
      (c.epochMs entry'.timestamp).filter fun _ =>
          !(itemsOf (entry :: entries) entry').isEmpty := by
    intro offset
    have before := window.times_cons distinct offset
    have none :
        ((c.epochMs entry.timestamp).filter fun _ => !(itemsOf (entry :: entries) entry).isEmpty) =
        none := by
      rw [nothing]
      cases c.epochMs entry.timestamp <;> rfl
    rw [none] at before
    exact before
  -- A result that is read before its call waits for it; else it goes into the call.
  cases found : entries.find? (isOf .toolUse (Transcript.toolID entry)) with
  | none =>
    have absent : t.calls[Transcript.toolID entry]? = none := by
      rw [window.calls, found, Option.map_none]
    have taken : t.takeIn entry =
        { t with
          readIn := t.readIn.insert entry.byteOffset (entry.kind, entry.timestamp)
          orphans :=
              t.orphans.insert (Transcript.toolID entry)
              (c.toolResult entry.payload entry.timestamp) } := by
      unfold Transcript.takeIn Transcript.ingest
      simp only [result, absent, Option.bind_none]
    rw [taken]
    constructor
    · have items := window.items_cons distinct (by
        intro old inside isCall
        refine resultOf_cons_other (.inr ?_)
        intro own
        exact List.find?_eq_none.mp found old inside (by simp [isOf, isCall, own]))
      rw [nothing] at items
      exact items
    · exact times
    · intro id
      rw [calls]
      exact window.calls id
    · intro id
      show (t.orphans.insert _ _)[id]? = _
      rw [ExtTreeMap.getElem?_insert, calls, window.orphans]
      by_cases own : Transcript.toolID entry = id
      · subst own
        rw [if_pos (by rw [LawfulEqCmp.compare_eq_iff_eq]), found, resultOf_cons_own result]
        rfl
      · rw [if_neg (by rw [LawfulEqCmp.compare_eq_iff_eq]; exact own),
          resultOf_cons_other (.inr own)]
    · exact window.readIn_cons
  | some call =>
    have inside := List.mem_of_find?_eq_some found
    obtain ⟨isCall, sameID⟩ :
        call.kind = .toolUse ∧ Transcript.toolID call = Transcript.toolID entry := by
      simpa [isOf] using List.find?_some found
    have known : t.calls[Transcript.toolID entry]? = some (call.byteOffset, 0) := by
      rw [window.calls, found, Option.map_some]
    have at_ : ((call.byteOffset, 0) : Key).1 = call.byteOffset := rfl
    have item := window.call_items distinct.tail inside isCall at_
    rw [if_pos rfl] at item
    have taken : t.takeIn entry =
        { t with
          readIn := t.readIn.insert entry.byteOffset (entry.kind, entry.timestamp)
          items :=
              t.items.insert (call.byteOffset, 0)
              (callItem call (some (c.toolResult entry.payload entry.timestamp))) } := by
      unfold Transcript.takeIn Transcript.ingest
      simp only [result, known, Option.bind_some, item, Option.map_some, callItem]
    rw [taken]
    constructor
    · exact window.items_result distinct result inside isCall sameID
    · exact times
    · intro id
      rw [calls]
      exact window.calls id
    · intro id
      rw [calls]
      by_cases own : Transcript.toolID entry = id
      · rw [← own, found]
        exact (window.orphans _).trans (by rw [found]; rfl)
      · rw [resultOf_cons_other (.inr own)]
        exact window.orphans id
    · exact window.readIn_cons

/-- One more entry, of any kind. -/
theorem Window.takeIn (window : Window entries t) (distinct : Distinct (entry :: entries)) :
    Window (entry :: entries) (t.takeIn entry) := by
  by_cases call : entry.kind = .toolUse
  · exact window.takeIn_call distinct call
  · by_cases result : entry.kind = .toolResult
    · exact window.takeIn_result distinct result
    · exact window.takeIn_other distinct call result

theorem Distinct.sublist {some_ : List (Entry c.Payload)} (distinct : Distinct entries)
    (inside : some_.Sublist entries) :
    Distinct some_ where
  offsets := distinct.offsets.sublist (inside.map _)
  ids kind member a inA b inB :=
    distinct.ids kind member a (inside.subset inA) b (inside.subset inB)

/-- A page's entries, one after the other. -/
theorem Window.takeInAll (window : Window entries t) (more : List (Entry c.Payload))
    (distinct : Distinct (more.reverse ++ entries)) :
    Window (more.reverse ++ entries) (more.foldl Transcript.takeIn t) := by
  induction more generalizing t entries with
  | nil => exact window
  | cons entry more inductionHypothesis =>
    rw [List.reverse_cons, List.append_assoc, List.singleton_append] at distinct ⊢
    exact inductionHypothesis (window.takeIn (distinct.sublist (List.sublist_append_right _ _)))
      distinct

end

/-! ## The order of the entries -/

/-- Where at most one element is sought, it is found in any order. -/
theorem find?_perm {α : Type} {p : α → Bool} {xs ys : List α} (perm : xs.Perm ys)
    (only : ∀ a ∈ xs, ∀ b ∈ xs, p a = true → p b = true → a = b) : xs.find? p = ys.find? p := by
  cases found : ys.find? p with
  | none =>
    rw [List.find?_eq_none] at found ⊢
    intro a inside
    exact found a (perm.mem_iff.mp inside)
  | some b =>
    have inside := perm.mem_iff.mpr (List.mem_of_find?_eq_some found)
    cases other : xs.find? p with
    | none => exact absurd (List.find?_some found) (List.find?_eq_none.mp other b inside)
    | some a =>
      rw [only a (List.mem_of_find?_eq_some other) b inside (List.find?_some other)
        (List.find?_some found)]

section

variable {entries entries' : List (Entry c.Payload)} {t t' : Transcript c}

theorem Distinct.perm (distinct : Distinct entries) (perm : entries.Perm entries') :
    Distinct entries' where
  offsets := (perm.map _).nodup distinct.offsets
  ids kind member a inA b inB :=
    distinct.ids kind member a (perm.mem_iff.mpr inA) b (perm.mem_iff.mpr inB)

theorem Distinct.find_at (distinct : Distinct entries) (perm : entries.Perm entries')
    (offset : Nat) :
    entries.find? (isAt offset) = entries'.find? (isAt offset) := by
  refine find?_perm perm fun a inA b inB atA atB => ?_
  simp only [isAt, decide_eq_true_eq] at atA atB
  exact List.inj_on_of_nodup_map distinct.offsets inA inB (atA.trans atB.symm)

theorem Distinct.find_of (distinct : Distinct entries) (perm : entries.Perm entries') {kind : Kind}
    (tool : kind ∈ [Kind.toolUse, .toolResult]) (id : String) :
    entries.find? (isOf kind id) = entries'.find? (isOf kind id) := by
  refine find?_perm perm fun a inA b inB ofA ofB => ?_
  simp only [isOf, decide_eq_true_eq] at ofA ofB
  exact distinct.ids kind tool a inA b inB ofA.1 ofB.1 (ofA.2.trans ofB.2.symm)

/-- The same entries show the same, in any order. -/
theorem Window.perm (window : Window entries t) (distinct : Distinct entries)
    (perm : entries.Perm entries') : Window entries' t := by
  have results : ∀ id, resultOf entries' id = resultOf entries id := by
    intro id
    rw [resultOf, resultOf, distinct.find_of perm (by simp)]
  have items : ∀ entry, itemsOf entries' entry = itemsOf entries entry :=
    fun entry => itemsOf_congr fun _ => results _
  constructor
  · intro key
    rw [← distinct.find_at perm, window.items]
    simp only [items]
  · intro offset
    rw [← distinct.find_at perm, window.times]
    simp only [items]
  · intro id
    rw [← distinct.find_of perm (by simp), window.calls]
  · intro id
    rw [← distinct.find_of perm (by simp), window.orphans, results]
  · intro offset
    rw [← distinct.find_at perm, window.readIn]

end

/-! ## Pages -/

namespace Transcript

/-- What the entries read in filled. -/
structure Maps (c : Condense) where
  items : ExtTreeMap Key (Item c.Row c.Result) cmpKey
  times : ExtTreeMap Nat Nat
  calls : ExtTreeMap String Key
  orphans : ExtTreeMap String c.Result
  readIn : ExtTreeMap Nat (Kind × String)

def maps (t : Transcript c) : Maps c := ⟨t.items, t.times, t.calls, t.orphans, t.readIn⟩

theorem maps_forward (t : Transcript c) : t.forward.1.maps = t.maps ∧
    t.forward.1.session = t.session := by
  unfold forward
  split <;> exact ⟨rfl, rfl⟩

theorem maps_older (t : Transcript c) :
    t.older.1.maps = t.maps ∧ t.older.1.session = t.session := by
  unfold older
  split
  · split <;> exact ⟨rfl, rfl⟩
  · exact ⟨rfl, rfl⟩

theorem maps_refresh (t : Transcript c) : t.refresh.1.maps = t.maps ∧
    t.refresh.1.session = t.session := by
  unfold refresh
  split <;> exact ⟨rfl, rfl⟩

theorem maps_succeeded (t : Transcript c) (op : Op) : (t.succeeded op).maps = t.maps ∧
    (t.succeeded op).session = t.session := by
  unfold succeeded
  cases op <;> dsimp only <;> split <;> exact ⟨rfl, rfl⟩

theorem maps_failed (t : Transcript c) (op : Op) (error : Option String) :
    (t.failed op error).1.maps = t.maps ∧ (t.failed op error).1.session = t.session := by
  unfold failed
  cases op <;> dsimp only <;> split <;> exact ⟨rfl, rfl⟩

theorem maps_retry (t : Transcript c) (timer : Timer) : (t.retry timer).1.maps = t.maps ∧
    (t.retry timer).1.session = t.session := by
  unfold retry
  split
  · exact ⟨rfl, rfl⟩
  · cases timer.op <;> dsimp only
    · split
      · exact maps_forward _
      · exact ⟨rfl, rfl⟩
    · exact ⟨rfl, rfl⟩
    · split
      · exact maps_refresh _
      · exact ⟨rfl, rfl⟩

theorem session_takeIn (t : Transcript c) (entry : Entry c.Payload) :
    (t.takeIn entry).session = t.session := by
  unfold takeIn ingest
  dsimp only
  split
  · rfl
  · split <;> rfl
  · rfl

theorem session_entries (t : Transcript c) (entries : List (Entry c.Payload)) :
    (entries.foldl takeIn t).session = t.session := by
  induction entries generalizing t with
  | nil => rfl
  | cons entry entries inductionHypothesis =>
      exact (inductionHypothesis (t.takeIn entry)).trans (session_takeIn t entry)

theorem maps_readBack (t : Transcript c) (page : Page) :
    (t.readBack page).1.maps = t.maps ∧ (t.readBack page).1.session = t.session := by
  unfold readBack
  split
  · exact maps_older t
  · exact ⟨rfl, rfl⟩

theorem maps_readOn (t : Transcript c) (page : Page) (full : Bool) :
    (t.readOn page full).1.maps = t.maps ∧ (t.readOn page full).1.session = t.session := by
  unfold readOn
  split
  · exact ⟨rfl, rfl⟩
  · split
    · exact maps_forward _
    · exact ⟨rfl, rfl⟩

/-- A page's entries are all that it adds to the maps. -/
theorem maps_page (t : Transcript c) (page : Page) (e : Entries c) :
    (t.page page e).1.maps = (t.landed page e).maps :=
  (maps_readOn _ page _).1.trans (maps_readBack _ page).1

/-- Only a tail names the session. -/
theorem session_page (t : Transcript c) (page : Page) (e : Entries c) :
    (t.page page e).1.session = if page.isTail then some e.sessionID else t.session := by
  have read : (t.page page e).1.session = (t.landed page e).session :=
    (maps_readOn _ page _).2.trans (maps_readBack _ page).2
  rw [read]
  unfold landed
  dsimp only
  rw [session_entries, (maps_succeeded _ _).2]
  cases page <;> rfl

end Transcript

section

variable {entries : List (Entry c.Payload)} {t t' : Transcript c}

theorem Window.congr (window : Window entries t) (same : t'.maps = t.maps) : Window entries t' := by
  simp only [Transcript.maps, Transcript.Maps.mk.injEq] at same
  obtain ⟨items, times, calls, orphans, readIn⟩ := same
  constructor
  · exact items ▸ window.items
  · exact times ▸ window.times
  · exact calls ▸ window.calls
  · exact orphans ▸ window.orphans
  · exact readIn ▸ window.readIn

/-- The entries say what each map holds. -/
theorem Window.same (window : Window entries t) (window' : Window entries t') :
    t.maps = t'.maps := by
  have items : t.items = t'.items :=
    ExtTreeMap.ext_getElem? fun key => (window.items key).trans (window'.items key).symm
  have times : t.times = t'.times :=
    ExtTreeMap.ext_getElem? fun at_ => (window.times at_).trans (window'.times at_).symm
  have calls : t.calls = t'.calls :=
    ExtTreeMap.ext_getElem? fun id => (window.calls id).trans (window'.calls id).symm
  have orphans : t.orphans = t'.orphans :=
    ExtTreeMap.ext_getElem? fun id => (window.orphans id).trans (window'.orphans id).symm
  have readIn : t.readIn = t'.readIn :=
    ExtTreeMap.ext_getElem? fun at_ => (window.readIn at_).trans (window'.readIn at_).symm
  simp only [Transcript.maps, items, times, calls, orphans, readIn]

theorem Window.page (window : Window entries t) (page : Page) (e : Entries c)
    (distinct : Distinct (e.entries.reverse ++ entries)) :
    Window (e.entries.reverse ++ entries) (t.page page e).1 := by
  refine Window.congr ?_ (Transcript.maps_page t page e)
  refine Window.takeInAll (window.congr ?_) e.entries distinct
  rw [(Transcript.maps_succeeded _ _).1]
  cases page <;> rfl

end

/-! ## Runs -/

/-- What a transcript is given: a read's answer, a wake, a page back asked for, a timer. -/
inductive Input (c : Condense) where
  | answer (what : What) (result : Except String (Got c))
  | wake
  | older
  | retry (timer : Timer)

def Transcript.input (t : Transcript c) : Input c → Transcript c
  | .answer what result => (t.answer what result).1
  | .wake => (Transcript.andThen t.forward Transcript.refresh).1
  | .older => t.older.1
  | .retry timer => (t.retry timer).1

def Transcript.run (t : Transcript c) (inputs : List (Input c)) : Transcript c :=
  inputs.foldl Transcript.input t

/-- The page that an input brings. -/
def Input.page : Input c → Option (Page × Entries c)
  | .answer (.page page) (.ok (.page e)) => some (page, e)
  | _ => none

def pages (inputs : List (Input c)) : List (Page × Entries c) := inputs.filterMap Input.page

def entriesIn (inputs : List (Input c)) : List (Entry c.Payload) :=
  (pages inputs).flatMap fun page => page.2.entries

namespace Transcript

/-- An input without a page leaves what was read in. -/
theorem maps_input (t : Transcript c) {input : Input c} (noPage : input.page = none) :
    (t.input input).maps = t.maps ∧ (t.input input).session = t.session := by
  cases input with
  | wake =>
    have forward := maps_forward t
    have refresh := maps_refresh t.forward.1
    exact ⟨refresh.1.trans forward.1, refresh.2.trans forward.2⟩
  | older => exact maps_older t
  | retry timer => exact maps_retry t timer
  | answer what result =>
    cases what with
    | page page =>
      cases result with
      | error error => exact maps_failed t _ _
      | ok got =>
        cases got with
        | page e => cases noPage
        | detail detail => exact maps_failed t _ _
    | detail =>
      cases result with
      | error error => exact maps_failed t _ _
      | ok got =>
        cases got with
        | page e => exact maps_failed t _ _
        | detail detail =>
          show (answer t .detail (.ok (.detail detail))).1.maps = _ ∧
            (answer t .detail (.ok (.detail detail))).1.session = _
          have succeeded :=
            maps_succeeded { t with detail := some detail, detailReading := false } .detail
          unfold answer
          dsimp only
          split
          · have refresh := maps_refresh
              { { t with detail := some detail, detailReading := false }.succeeded .detail with detailAgain := false }
            exact ⟨refresh.1.trans succeeded.1, refresh.2.trans succeeded.2⟩
          · exact succeeded

theorem input_page (t : Transcript c) {input : Input c} {page : Page} {e : Entries c}
    (brings : input.page = some (page, e)) :
    t.input input = (t.page page e).1 := by
  cases input with
  | wake => cases brings
  | older => cases brings
  | retry timer => cases brings
  | answer what result =>
    match what, result, brings with
    | .page page, .ok (.page e), rfl => rfl

end Transcript

/-- A run's window is that of the entries its pages brought. -/
theorem Window.run {entries : List (Entry c.Payload)} {t : Transcript c} (window : Window entries t)
    (inputs : List (Input c))
    (distinct : Distinct ((entriesIn inputs).reverse ++ entries)) :
    Window ((entriesIn inputs).reverse ++ entries) (t.run inputs) := by
  induction inputs generalizing t entries with
  | nil => exact window
  | cons input inputs inductionHypothesis =>
    cases brings : input.page with
    | none =>
      have same : entriesIn (input :: inputs) = entriesIn inputs := by
        rw [entriesIn, pages, List.filterMap_cons_none brings]
        rfl
      rw [same] at distinct ⊢
      exact inductionHypothesis (window.congr (Transcript.maps_input t brings).1) distinct
    | some page =>
      have grown : entriesIn (input :: inputs) = page.2.entries ++ entriesIn inputs := by
        rw [entriesIn, pages, List.filterMap_cons_some brings, List.flatMap_cons]
        rfl
      rw [grown, List.reverse_append, List.append_assoc] at distinct ⊢
      have landed := window.page page.1 page.2 (distinct.sublist (List.sublist_append_right _ _))
      rw [← Transcript.input_page t brings] at landed
      exact inductionHypothesis landed distinct

/-! ## The session -/

/-- Every tail that came is of the session. -/
def Tails (session : String) (inputs : List (Input c)) : Prop :=
  ∀ page ∈ pages inputs, page.1.isTail = true → page.2.sessionID = session

section

variable {session : String} {input : Input c} {inputs : List (Input c)}

theorem mem_pages_cons {page : Page × Entries c} :
    page ∈ pages (input :: inputs) ↔ input.page = some page ∨ page ∈ pages inputs := by
  simp only [pages, List.mem_filterMap, List.mem_cons, exists_eq_or_imp]

theorem Tails.tail (tails : Tails session (input :: inputs)) : Tails session inputs :=
  fun page inside => tails page (mem_pages_cons.mpr (.inr inside))

theorem session_input {t : Transcript c} (tails : Tails session (input :: inputs)) :
    (t.input input).session = t.session ∨ (t.input input).session = some session := by
  cases brings : input.page with
  | none => exact .inl (Transcript.maps_input t brings).2
  | some page =>
    rw [Transcript.input_page t brings, Transcript.session_page]
    split
    · next tail => exact .inr (congrArg some (tails page (mem_pages_cons.mpr (.inl brings)) tail))
    · exact .inl rfl

theorem session_run {t : Transcript c} (tails : Tails session inputs)
    (opened : t.session = some session ∨ ∃ page ∈ pages inputs, page.1.isTail = true) :
    (t.run inputs).session = some session := by
  induction inputs generalizing t with
  | nil => exact opened.resolve_right fun ⟨page, inside, _⟩ => absurd inside List.not_mem_nil
  | cons input inputs inductionHypothesis =>
    refine inductionHypothesis tails.tail ?_
    have either := session_input (t := t) tails
    rcases opened with own | ⟨page, inside, tail⟩
    · exact .inl (either.elim (·.trans own) id)
    · cases mem_pages_cons.mp inside with
      | inl brings =>
        rw [Transcript.input_page t brings, Transcript.session_page, if_pos tail]
        exact .inl (congrArg some (tails page inside tail))
      | inr later => exact .inr ⟨page, later, tail⟩

end

/-! ## The result -/

/-- The item of a call that was read in, and where a result waits when its call was not. -/
theorem Window.paired {entries : List (Entry c.Payload)} {t : Transcript c}
    (window : Window entries t) (distinct : Distinct entries)
    {result : Entry c.Payload} (inside : result ∈ entries) (isResult : result.kind = .toolResult) :
    (∃ call ∈ entries, call.kind = .toolUse ∧ Transcript.toolID call = Transcript.toolID result ∧
      t.items[((call.byteOffset, 0) : Key)]? =
        some (callItem call (some (c.toolResult result.payload result.timestamp)))) ∨
    ((∀ call ∈ entries, call.kind = .toolUse → Transcript.toolID call ≠ Transcript.toolID result) ∧
      t.orphans[Transcript.toolID result]? =
        some (c.toolResult result.payload result.timestamp)) := by
  have own : resultOf entries (Transcript.toolID result) =
      some (c.toolResult result.payload result.timestamp) := by
    cases found : entries.find? (isOf .toolResult (Transcript.toolID result)) with
    | none => exact absurd (List.find?_eq_none.mp found result inside) (by simp [isOf, isResult])
    | some other =>
      obtain ⟨otherResult, sameID⟩ :
          other.kind = .toolResult ∧ Transcript.toolID other = Transcript.toolID result := by
        simpa [isOf] using List.find?_some found
      have same :=
        distinct.ids .toolResult (by simp) other
        (List.mem_of_find?_eq_some found) result inside otherResult isResult sameID
      rw [resultOf, found, same, Option.map_some]
  cases found : entries.find? (isOf .toolUse (Transcript.toolID result)) with
  | some call =>
    have callInside := List.mem_of_find?_eq_some found
    obtain ⟨isCall, sameID⟩ :
        call.kind = .toolUse ∧ Transcript.toolID call = Transcript.toolID result := by
      simpa [isOf] using List.find?_some found
    have at_ : ((call.byteOffset, 0) : Key).1 = call.byteOffset := rfl
    have item := window.call_items distinct callInside isCall at_
    rw [if_pos rfl, sameID, own] at item
    exact .inl ⟨call, callInside, isCall, sameID, item⟩
  | none =>
    refine .inr ⟨?_, ?_⟩
    · intro call callInside isCall sameID
      exact List.find?_eq_none.mp found call callInside (by simp [isOf, isCall, sameID])
    · rw [window.orphans, found]
      exact own

/-- Where reading reaches depends on what was read in and on the session. -/
theorem positions_congr {t t' : Transcript c} (readIn : t.readIn = t'.readIn)
    (session : t.session = t'.session) :
    t.end_ = t'.end_ ∧ t.turnStart = t'.turnStart := by
  have pos : t.pos = t'.pos := by
    funext offset ts
    rw [Transcript.pos, Transcript.pos, session]
  constructor
  · rw [Transcript.end_, Transcript.end_, readIn, pos]
  · rw [Transcript.turnStart, Transcript.turnStart, readIn, pos]

/-- Pages that arrive in any order, with any wakes, failures and timers between them, leave what one
page with all their entries in order would. -/
theorem pages_commute (t : Transcript c) (inputs : List (Input c)) (session : String) (limit : Nat)
    (once : Entries c)
    (blank : t.maps = ⟨∅, ∅, ∅, ∅, ∅⟩) (tails : Tails session inputs)
    (opened : t.session = some session ∨ ∃ page ∈ pages inputs, page.1.isTail = true)
    (own : once.sessionID = session)
    (split : (entriesIn inputs).Perm once.entries)
    (sorted : once.entries.Pairwise fun a b => a.byteOffset < b.byteOffset)
    (ids : ∀ kind ∈ [Kind.toolUse, .toolResult], ∀ a ∈ once.entries, ∀ b ∈ once.entries,
    a.kind = kind → b.kind = kind →
      Transcript.toolID a = Transcript.toolID b → a = b) :
    let final := t.run inputs
    let whole := (t.page (.tail limit) once).1
    final.items = whole.items ∧ final.orphans = whole.orphans ∧ final.times = whole.times ∧
    (∀ result ∈ once.entries, result.kind = .toolResult →
      (∃ call ∈ once.entries, call.kind = .toolUse ∧
        Transcript.toolID call = Transcript.toolID result ∧
        final.items[((call.byteOffset, 0) : Key)]? =
          some (callItem call (some (c.toolResult result.payload result.timestamp)))) ∨
      ((∀ call ∈ once.entries, call.kind = .toolUse →
        Transcript.toolID call ≠ Transcript.toolID result) ∧
        final.orphans[Transcript.toolID result]? =
          some (c.toolResult result.payload result.timestamp))) ∧
    final.readIn = whole.readIn ∧ final.end_ = whole.end_ ∧ final.turnStart = whole.turnStart := by
  intro final whole
  have distinct : Distinct once.entries := ⟨(List.pairwise_map.mpr (sorted.imp Nat.ne_of_lt)), ids⟩
  have nothing : Window [] t := by
    refine Window.congr (t :=
      { t with items := ∅, times := ∅, calls := ∅, orphans := ∅, readIn := ∅ }) ?_ blank
    constructor
    · exact fun _ => ExtTreeMap.getElem?_empty
    · exact fun _ => ExtTreeMap.getElem?_empty
    · exact fun _ => ExtTreeMap.getElem?_empty
    · exact fun _ => ExtTreeMap.getElem?_empty
    · exact fun _ => ExtTreeMap.getElem?_empty
  have brought : ((entriesIn inputs).reverse ++ []).Perm once.entries := by
    rw [List.append_nil]
    exact (List.reverse_perm _).trans split
  have shown : Window once.entries final :=
    (nothing.run inputs (distinct.perm brought.symm)).perm (distinct.perm brought.symm) brought
  have reversed : (once.entries.reverse ++ []).Perm once.entries := by
    rw [List.append_nil]
    exact List.reverse_perm _
  have shownOnce : Window once.entries whole :=
    (nothing.page (.tail limit) once (distinct.perm reversed.symm)).perm
      (distinct.perm reversed.symm) reversed
  have same := shown.same shownOnce
  simp only [Transcript.maps, Transcript.Maps.mk.injEq] at same
  obtain ⟨items, times, -, orphans, readIn⟩ := same
  have sessions : final.session = whole.session := by
    rw [session_run tails opened, Transcript.session_page]
    exact congrArg some own.symm
  have positions := positions_congr readIn sessions
  exact ⟨items, orphans, times, fun result inside isResult => shown.paired distinct inside isResult,
    readIn, positions.1, positions.2⟩

/-! ## A result read in before its call -/

/-- Payloads of calls without an input and of results that are one text: a tool id, a name and a
text. -/
def texts : Condense where
  Payload := String × String × String
  Row := Unit
  Result := String
  Detail := Unit
  toolUseID := fun payload => some payload.1
  toolCall := fun payload => (payload.2.1, "no input summary", "\x7b\x7d")
  toolResult := fun payload _ => payload.2.2
  condense := fun _ => []
  epochMs := fun _ => none

def readCall : Entry texts.Payload := ⟨40, "", .toolUse, ("t1", "Read", "")⟩

def readResult : Entry texts.Payload := ⟨90, "", .toolResult, ("t1", "", "fine")⟩

/-- The tail brings the result; after a failed read and a wake, the page before brings its call. -/
def backwards : List (Input texts) := [
  .answer (.page (.tail PAGE)) (.ok (.page ⟨"s", 60, [readResult], some 120, some 60, false⟩)),
  .older, .answer (.page (.before 60 "s" PAGE)) (.error "timeout"), .wake, .older,
  .answer (.page (.before 60 "s" PAGE)) (.ok (.page ⟨"s", 0, [readCall], some 60, none, false⟩))]

def oncePage : Entries texts := ⟨"s", 0, [readCall, readResult], some 120, none, false⟩

theorem pages_commute_backwards :
    let final := (Transcript.fresh (c := texts) "lua" 1 none).run backwards
    let whole := ((Transcript.fresh (c := texts) "lua" 1 none).page (.tail PAGE) oncePage).1
    final.items = whole.items ∧ final.readIn = whole.readIn ∧ final.end_ = whole.end_ ∧
        final.turnStart = whole.turnStart := by
  have brought : pages backwards = [(.tail PAGE, ⟨"s", 60, [readResult], some 120, some 60, false⟩),
      (.before 60 "s" PAGE, ⟨"s", 0, [readCall], some 60, none, false⟩)] := rfl
  have entries : entriesIn backwards = [readResult, readCall] := rfl
  have tails : Tails "s" backwards := by
    intro page inside _
    rw [brought, List.mem_cons, List.mem_singleton] at inside
    rcases inside with rfl | rfl <;> rfl
  have opened : ∃ page ∈ pages backwards, page.1.isTail = true :=
    ⟨_, brought ▸ List.mem_cons_self, rfl⟩
  have split : (entriesIn backwards).Perm oncePage.entries := entries ▸ List.Perm.swap _ _ _
  have sorted : oncePage.entries.Pairwise fun a b => a.byteOffset < b.byteOffset :=
    List.pairwise_pair.mpr (by decide)
  have ids : ∀ kind ∈ [Kind.toolUse, .toolResult], ∀ a ∈ oncePage.entries, ∀ b ∈ oncePage.entries,
      a.kind = kind → b.kind = kind → Transcript.toolID a = Transcript.toolID b → a = b := by
    intro kind _ a inA b inB kindA kindB _
    simp only [oncePage, List.mem_cons, List.not_mem_nil, or_false] at inA inB
    rcases inA with rfl | rfl <;> rcases inB with rfl | rfl
    · rfl
    · exact absurd (kindA.trans kindB.symm) (by decide)
    · exact absurd (kindA.trans kindB.symm) (by decide)
    · rfl
  obtain ⟨items, -, -, -, readIn, last, start⟩ :=
    pages_commute (Transcript.fresh "lua" 1 none) backwards "s" PAGE oncePage rfl tails
      (.inr opened) rfl split sorted ids
  exact ⟨items, readIn, last, start⟩

end AiConfig.Herder.NativeTranscript
