import AiConfig.Sesh.Store.Step

/-! # `putBytes` takes the steps of `PutStep`

Symbolic execution of the write path.  `At` pins the view of the request's
identity and the in-memory target while the program runs; there is one lemma for
each function of the source, and each cites the ones for the functions it calls. -/

namespace AiConfig.Sesh

open AiConfig.Lib AiConfig.Lib.Fallible AiConfig.Sesh.Wire

/-- Mid-call: the identity's view, the target, and every other identity as it was. -/
structure At (base : Store) (quiet : Prop) (id : Identity) (gens : List Generation)
    (target : FileState)
    (putting : Putting) : Prop where
  view : putting.store.view id = gens
  others : ∀ other, other ≠ id → putting.store.view other = base.view other
  target : putting.target = target
  uninjected : quiet → putting.store.failAppendOnce = false

section

variable {base : Store} {quiet : Prop} {id : Identity} {gens : List Generation} {target : FileState}
  {putting : Putting} {α : Type}

theorem query_wp {read : Store → α} {post : α → Putting → Prop}
    {failed : StoreError → Putting → Prop}
    (next : post (read putting.store) putting)
    (stop : ¬ quiet → ∀ reason, failed (.other reason) putting) :
    wp quiet (query read) post failed putting :=
  wp_attempt next stop

theorem exec_wp {change : Store → Store} {post : Unit → Putting → Prop}
    {failed : StoreError → Putting → Prop}
    (next : post () { putting with store := change putting.store })
    (stop : ¬ quiet → ∀ reason, failed (.other reason) putting) :
    wp quiet (exec change) post failed putting :=
  wp_attempt next stop

theorem At.retarget (at_ : At base quiet id gens target putting) (target' : FileState) :
    At base quiet id gens target' { putting with target := target' } :=
  ⟨at_.view, at_.others, rfl, at_.uninjected⟩

theorem updateTarget_wp {change : FileState → FileState}
    (keeps : ∀ row, (change row).identity = row.identity ∧ (change row).generation = row.generation)
    {post : Unit → Putting → Prop} {failed : StoreError → Putting → Prop}
    (at_ : At base quiet id gens target putting) (owned : target.identity = id)
    (next : ∀ putting', At base quiet id
      (adjust target.generation (fun g => g.withRow change) gens) (change target) putting' →
      post () putting')
    (stop : ¬ quiet → ∀ reason, failed (.other reason) putting) :
    wp quiet (updateTarget change) post failed putting := by
  refine wp_bind (wp_peek ?_)
  rw [at_.target]
  refine wp_bind (exec_wp ?_ stop)
  refine wp_poke (next _ ⟨?_, ?_, rfl, at_.uninjected⟩)
  · rw [view_updateTarget _ _ keeps, if_pos owned, at_.view]
    rfl
  · intro other foreign
    have apart : ¬ target.identity = other := fun same => foreign (same.symm.trans owned)
    rw [view_updateTarget _ _ keeps, if_neg apart, at_.others other foreign]

theorem At.untaken (at_ : At base quiet id gens target putting) {n : Nat}
    (free : ∀ g ∈ gens, g.row.generation ≠ n) :
    (putting.store.files.any (·.isGeneration id n)) = false := by
  have scan := any_file_iff putting.store id fun row => row.generation = n
  rw [at_.view] at scan
  change (putting.store.files.any fun row => row.identity = id && row.generation = n) = false
  rw [scan]
  simpa using free

theorem createGeneration_wp {n : Nat} {fp : Option String} {driven : Bool} {now : String}
    {post : Unit → Putting → Prop} {failed : StoreError → Putting → Prop}
    (at_ : At base quiet id gens target putting) (free : ∀ g ∈ gens, g.row.generation ≠ n)
    (next : ∀ left putting', At base quiet id (gens ++ [⟨freshRow id n fp driven now, left⟩])
      (freshRow id n fp driven now) putting' → post () putting')
    (stop : ¬ quiet → ∀ reason, failed (.other reason) putting) :
    wp quiet (createGeneration id n fp driven now) post failed putting := by
  refine wp_bind (wp_peek ?_)
  rw [if_neg (by simp [at_.untaken free])]
  refine wp_bind (exec_wp ?_ stop)
  refine wp_poke (next (putting.store.mirrored id n) _ ⟨?_, ?_, rfl, at_.uninjected⟩)
  · simp only [view_insertFile, if_true, at_.view]
    rfl
  · intro other foreign
    have apart : ¬ id = other := fun same => foreign same.symm
    simp only [view_insertFile, if_neg apart, at_.others other foreign]

theorem recordSuccess_wp {req : PutRequest} {post : Unit → Putting → Prop}
    {failed : StoreError → Putting → Prop}
    (at_ : At base quiet id gens target putting) (owned : target.identity = id)
    (next : ∀ putting', At base quiet id
      (adjust target.generation (fun g => recorded g target.highWater req.now) gens)
      { target with lastPutAt := some req.now, conflictPending := false } putting' →
      post () putting')
    (stop : ¬ quiet → ∀ failure gens' putting', At base quiet id gens' putting'.target putting' →
      (gens' = gens ∨
        gens' = adjust target.generation (fun g => recorded g target.highWater req.now) gens) →
      failed failure putting') :
    wp quiet (recordSuccess req) post failed putting := by
  refine wp_bind (wp_peek ?_)
  rw [at_.target]
  refine wp_bind (updateTarget_wp ?_ at_ owned (fun _ atWritten => ?_)
    fun loud reason => stop loud _ gens _ ⟨at_.view, at_.others, rfl, at_.uninjected⟩ (Or.inl rfl))
  · exact fun _ => ⟨rfl, rfl⟩
  refine wp_bind (exec_wp ?_ fun loud reason =>
    stop loud _ _ _ ⟨atWritten.view, atWritten.others, rfl, atWritten.uninjected⟩ (Or.inr rfl))
  refine exec_wp ?_ fun loud reason => stop loud _ _ _ ?_ (Or.inr rfl)
  · exact next _ ⟨atWritten.view, atWritten.others, atWritten.target, atWritten.uninjected⟩
  · exact ⟨atWritten.view, atWritten.others, rfl, atWritten.uninjected⟩

theorem selectGeneration_wp {req : PutRequest} (sound : Sound id gens) (owner : req.identity = id)
    {post : Option Refusal → Putting → Prop} {failed : StoreError → Putting → Prop}
    (at_ : At base quiet id gens target putting)
    (routed : ∀ gens₁ g putting', Routed req gens gens₁ g → At base quiet id gens₁ g.row putting' →
      post none putting')
    (conflict : ∀ fp active left putting', req.fingerprint = some fp → newest gens fp = none →
      gens.getLast? = some active → active.row.fingerprint ≠ none →
      At base quiet id
        (gens ++ [⟨freshRow id (active.row.generation + 1) (some fp) false req.now, left⟩])
        (freshRow id (active.row.generation + 1) (some fp) false req.now) putting' →
      post (some ⟨.fingerprintConflict, "request fingerprint selected a different generation", ""⟩)
        putting')
    (stop : ¬ quiet → ∀ failure putting', At base quiet id gens putting'.target putting' →
      failed failure putting') :
    wp quiet (selectGeneration req) post failed putting := by
  subst owner
  have stopped : ∀ {putting' : Putting} {t : FileState},
    At base quiet req.identity gens t putting' →
      ¬ quiet → ∀ reason, failed (.other reason) putting' :=
    fun held loud reason => stop loud _ _ ⟨held.view, held.others, rfl, held.uninjected⟩
  refine wp_bind (query_wp ?_ (stopped at_))
  rw [generations_eq_view (by rw [at_.view]; exact sound), at_.view, List.getLast?_map]
  cases last : gens.getLast? with
  | none =>
    have unknown : gens = [] := List.getLast?_eq_none_iff.mp last
    subst unknown
    refine wp_bind (createGeneration_wp at_ (by simp) (fun left putting' held => ?_) (stopped at_))
    exact wp_pure (routed _ _ _ (.first left rfl) (by simpa using held))
  | some active =>
    have member : active ∈ gens := List.mem_of_getLast? last
    cases claim : req.fingerprint with
    | none =>
      refine wp_bind (wp_poke ?_)
      exact wp_pure (routed _ _ _ (.active claim last) (at_.retarget _))
    | some fp =>
      simp only [Option.map_some, newestMatch_rows]
      cases found : newest gens fp with
      | some g =>
        refine wp_bind (wp_poke ?_)
        exact wp_pure (routed _ _ _ (.matched claim found) (at_.retarget _))
      | none =>
        simp only [Option.map_none]
        cases recordedAs : active.row.fingerprint with
        | none =>
          simp only [Option.isNone_none, if_true]
          refine wp_bind (wp_poke (wp_bind ?_))
          refine updateTarget_wp ?_ (at_.retarget active.row) (sound.owned _ member)
            (fun putting' held => ?_) (stopped (at_.retarget active.row))
          · exact fun _ => ⟨rfl, rfl⟩
          exact wp_pure (routed _ _ _ (.adopted claim found last recordedAs) held)
        | some other =>
          simp only [Option.isNone_some, Bool.false_eq_true, if_false]
          -- The number after the last is free.
          have free : ∀ g ∈ gens, g.row.generation ≠ active.row.generation + 1 := by
            intro g gMember
            have := sound.le_last last gMember
            omega
          refine wp_bind (createGeneration_wp at_ free (fun left putting' held => ?_) (stopped at_))
          exact wp_pure (conflict fp active left _ claim found last (by simp [recordedAs]) held)

/-! ## Reading and writing the target's mirror

From here on the view is `replaceWith g g' gens`: the routed generation `g` stands
as `g'` at this point of the call. -/

variable {g g' : Generation}

theorem adjust_numbered (target : FileState) {change : Generation → Generation}
    (numbered : target.generation = g'.row.generation)
    (kept : g'.row.generation = g.row.generation) :
    adjust target.generation change (replaceWith g g' gens) = replaceWith g (change g') gens := by
  rw [numbered, kept, adjust_replaceWith kept]

theorem At.bytes (at_ : At base quiet id (replaceWith g g' gens) target putting) (member : g ∈ gens)
    (owned : target.identity = id) (numbered : target.generation = g'.row.generation) :
    putting.store.mirrored target.identity target.generation = g'.bytes := by
  rw [owned, numbered]
  exact view_bytes (by rw [at_.view]; exact mem_replaceWith member)

theorem At.window (at_ : At base quiet id (replaceWith g g' gens) target putting)
    (member : g ∈ gens)
    (owned : target.identity = id) (numbered : target.generation = g'.row.generation)
    {offset length : Nat} (long : offset + length ≤ g'.bytes.length) (positive : 0 < length) :
    (putting.store.mirror (mirrorPath target.identity target.generation)).bind
    (readAt · offset length) =
      some ((g'.bytes.drop offset).take length) := by
  have bytes := at_.bytes member owned numbered
  cases file : putting.store.mirror (mirrorPath target.identity target.generation) with
  | none =>
    simp only [Store.mirrored, file, Option.getD_none] at bytes
    rw [← bytes] at long
    simp at long
    omega
  | some content =>
    simp only [Store.mirrored, file, Option.getD_some] at bytes
    subst bytes
    simp only [Option.bind_some, readAt, if_pos long]

theorem readMirror_wp {offset length : Nat} {post : Bytes → Putting → Prop}
    {failed : StoreError → Putting → Prop}
    (at_ : At base quiet id (replaceWith g g' gens) target putting) (member : g ∈ gens)
    (owned : target.identity = id) (numbered : target.generation = g'.row.generation)
    (long : offset + length ≤ g'.bytes.length) (positive : 0 < length)
    (next : post ((g'.bytes.drop offset).take length) putting)
    (stop : ¬ quiet → ∀ reason, failed (.other reason) putting) :
    wp quiet (readMirror target offset length) post failed putting := by
  refine wp_bind (query_wp ?_ stop)
  rw [at_.window member owned numbered long positive]
  exact wp_pure next

theorem compareMirror_wp {offset : Nat} {want : Bytes} {post : Bool → Putting → Prop}
    {failed : StoreError → Putting → Prop}
    (at_ : At base quiet id (replaceWith g g' gens) target putting) (member : g ∈ gens)
    (owned : target.identity = id) (numbered : target.generation = g'.row.generation)
    (long : want ≠ [] → offset + want.length ≤ g'.bytes.length)
    (next : post (decide ((g'.bytes.drop offset).take want.length = want)) putting)
    (stop : ¬ quiet → ∀ reason, failed (.other reason) putting) :
    wp quiet (compareMirror target offset want) post failed putting := by
  unfold compareMirror
  split
  · rename_i nothing
    subst nothing
    exact wp_pure (by simpa using next)
  · rename_i something
    refine wp_bind (readMirror_wp at_ member owned numbered (long something)
      (List.length_pos_iff.mpr something) (wp_pure next) stop)

theorem writeMirror_wp {offset : Nat} {body : Bytes} {post : Unit → Putting → Prop}
    {failed : StoreError → Putting → Prop}
    (at_ : At base quiet id (replaceWith g g' gens) target putting) (member : g ∈ gens)
    (owned : target.identity = id) (numbered : target.generation = g'.row.generation)
    (kept : g'.row.generation = g.row.generation)
    (next : ∀ putting', At base quiet id
      (replaceWith g { g' with bytes := writeAt g'.bytes offset body } gens) target putting' →
      post () putting')
    (stop : ¬ quiet → ∀ failure putting' gens', At base quiet id gens' putting'.target putting' →
      (gens' = replaceWith g g' gens ∨ ∃ count,
        gens' = replaceWith g { g' with bytes := writeAt g'.bytes offset (body.take count) } gens) →
      failed failure putting') :
    wp quiet (writeMirror target offset body) post failed putting := by
  have wrote : ∀ body, At base quiet id
      (replaceWith g { g' with bytes := writeAt g'.bytes offset body } gens) target
      (writeBytes target offset body putting) := by
    intro body
    rw [writeBytes, at_.bytes member owned numbered]
    refine ⟨?_, ?_, at_.target, at_.uninjected⟩
    · rw [view_setMirror, if_pos owned, at_.view, adjust_numbered _ numbered kept]
    · intro other foreign
      have apart : ¬ target.identity = other := fun same => foreign (same.symm.trans owned)
      rw [view_setMirror, if_neg apart, at_.others other foreign]
  refine wp_attemptWrite ?_ fun loud count reason => ?_
  · exact next _ (wrote body)
  split
  · exact stop loud _ _ _ ⟨at_.view, at_.others, rfl, at_.uninjected⟩ (Or.inl rfl)
  · have torn := wrote (body.take count)
    exact stop loud _ _ _ ⟨torn.view, torn.others, rfl, torn.uninjected⟩ (Or.inr ⟨count, rfl⟩)

theorem updateFingerprintFromMirror_wp {post : Unit → Putting → Prop}
    {failed : StoreError → Putting → Prop}
    (at_ : At base quiet id (replaceWith g g' gens) target putting) (member : g ∈ gens)
    (owned : target.identity = id) (numbered : target.generation = g'.row.generation)
    (kept : g'.row.generation = g.row.generation)
    (claimed : target.fingerprint = g'.row.fingerprint)
    (long : target.highWater ≤ g'.bytes.length)
    (next : ∀ putting', At base quiet id
      (replaceWith g (g'.withRow fun row =>
        { row with fingerprint := refreshed target.highWater g'.bytes row.fingerprint }) gens)
      { target with fingerprint := refreshed target.highWater g'.bytes target.fingerprint }
        putting' →
      post () putting')
    (stop : ¬ quiet → ∀ failure putting',
      At base quiet id (replaceWith g g' gens) putting'.target putting' →
      failed failure putting') :
    wp quiet updateFingerprintFromMirror post failed putting := by
  have stopped : ∀ {putting' : Putting} {t : FileState},
      At base quiet id (replaceWith g g' gens) t putting' →
      ¬ quiet → ∀ reason, failed (.other reason) putting' :=
    fun held loud reason => stop loud _ _ ⟨held.view, held.others, rfl, held.uninjected⟩
  refine wp_bind (wp_peek ?_)
  rw [at_.target]
  split
  · rename_i short
    refine wp_pure (next _ ?_)
    simp only [refreshed, if_pos short]
    exact at_
  · rename_i full
    have enough : 0 + fingerprintWindowBytes ≤ g'.bytes.length := by omega
    refine wp_bind (readMirror_wp at_ member owned numbered enough (by decide) ?_ (stopped at_))
    simp only [List.drop_zero]
    split
    · rename_i same
      refine wp_pure (next _ ?_)
      simp only [refreshed, if_neg full]
      have unchanged : (g'.withRow fun row =>
          { row with fingerprint := some (Sha256.sum256Hex
              (g'.bytes.take fingerprintWindowBytes)) }) = g' := by
        rw [← same, claimed]
        rfl
      rw [unchanged, ← same]
      exact at_
    · refine updateTarget_wp ?_ at_ owned (fun putting' held => next _ ?_) (stopped at_)
      · exact fun _ => ⟨rfl, rfl⟩
      · rw [adjust_numbered _ numbered kept] at held
        simp only [refreshed, if_neg full]
        exact held

/-- The in-memory target between the mirror write and the bookkeeping. -/
def grown (g : Generation) (body : Bytes) : FileState :=
  { (refingerprinted g body).row with highWater := g.row.highWater + body.length }

theorem appendAtHighWater_wp {req : PutRequest} (sound : Sound id gens) (member : g ∈ gens)
    (agrees : Agrees req g) {post : Option AppendEvent → Putting → Prop}
    {failed : StoreError → Putting → Prop} (at_ : At base quiet id gens g.row putting)
    (next : ∀ event putting', At base quiet id
    (replaceWith g (settled g (excess req g) req.now) gens)
      (settled g (excess req g) req.now).row putting' → post event putting')
    (stop : ¬ quiet → ∀ failure gens' putting', At base quiet id gens' putting'.target putting' →
      Interrupted req gens g gens' → failed failure putting') :
    wp quiet (appendAtHighWater req (excess req g)) post failed putting := by
  have owned : g.row.identity = id := sound.owned g member
  have start : At base quiet id (replaceWith g g gens) g.row putting := by
    rw [replaceWith_self sound member]
    exact at_
  have unmoved : Interrupted req gens g (replaceWith g g gens) := by
    rw [replaceWith_self sound member]
    exact .untouched
  unfold appendAtHighWater
  split
  -- Nothing to append: only the success is recorded.
  · rename_i nothing
    have same : settled g (excess req g) req.now = recorded g g.row.highWater req.now :=
      if_pos nothing
    refine wp_bind
      (wp_wrapped (recordSuccess_wp start owned (fun putting' held => wp_pure (next _ _ ?_))
      fun loud failure gens' putting' held what => stop loud _ _ _ held ?_))
    · rw [adjust_numbered _ rfl rfl] at held
      rw [same]
      exact held
    · rcases what with rfl | rfl
      · exact unmoved
      · rw [adjust_numbered _ rfl rfl, ← same]
        exact .unacknowledged agrees
  · rename_i something
    have same : settled g (excess req g) req.now =
        recorded (refingerprinted g (excess req g))
            (g.row.highWater + (excess req g).length) req.now :=
      if_neg something
    refine wp_bind (wp_peek ?_)
    split
    -- An append that a test makes fail does not touch the mirror.
    · rename_i injected
      have loud : ¬ quiet := fun holds => by simp [at_.uninjected holds] at injected
      exact wp_bind (wp_poke (wp_throw (stop loud _ gens _
        ⟨at_.view, at_.others, rfl, fun holds => absurd holds loud⟩ .untouched)))
    · refine wp_bind (wp_peek ?_)
      rw [at_.target]
      refine wp_bind (writeMirror_wp start member owned rfl rfl (fun wrote atWrote => ?_)
        fun loud failure putting' gens' held what => stop loud _ _ _ held ?_)
      · have covered := sound.covered g member
        have length := writeAt_length g.bytes g.row.highWater (excess req g)
        refine wp_bind (wp_poke (wp_bind (wp_wrapped (updateFingerprintFromMirror_wp
          (atWrote.retarget _) member owned rfl rfl rfl (by simp only [length]; omega)
          (fun printed atPrinted => ?_) fun loud failure putting' held => ?_))))
        · have advanced : At base quiet id (replaceWith g (refingerprinted g (excess req g)) gens)
              (grown g (excess req g)) printed := atPrinted
          have numbered : (grown g (excess req g)).generation =
              (refingerprinted g (excess req g)).row.generation := rfl
          have kept : (refingerprinted g (excess req g)).row.generation = g.row.generation := rfl
          refine wp_bind (wp_wrapped (recordSuccess_wp advanced owned
            (fun putting' held => wp_pure (next _ _ ?_))
            fun loud failure gens' putting' held what => stop loud _ _ _ held ?_))
          · rw [adjust_numbered _ numbered kept] at held
            rw [same]
            exact held
          · rcases what with rfl | rfl
            · exact .unrecorded agrees something
            · rw [adjust_numbered _ numbered kept]
              have done : Interrupted req gens g _ := .unacknowledged agrees
              rw [same] at done
              exact done
        · refine stop loud _ _ _ held ?_
          -- The bytes are there, but neither the fingerprint nor the high-water is.
          have whole : Interrupted req gens g _ := .torn agrees (excess req g).length
          rw [List.take_length] at whole
          exact whole
      · rcases what with rfl | ⟨count, rfl⟩
        · exact unmoved
        · exact .torn agrees count

theorem handleDivergence_wp {req : PutRequest} (sound : Sound id gens) (member : g ∈ gens)
    (owner : req.identity = id) (clean : g.row.poisoned = false)
    (inside : req.offset < g.row.highWater)
    (differs : ¬ Agrees req g)
    {post : Refusal → Putting → Prop} {failed : StoreError → Putting → Prop}
    (at_ : At base quiet id gens g.row putting)
    (next : ∀ refusal target' gens' putting', At base quiet id gens' target' putting' →
      Handled quiet req gens g (refused target' refusal.code refusal.message refusal.action) gens' →
      post refusal putting')
    (stop : ¬ quiet → ∀ failure gens' putting', At base quiet id gens' putting'.target putting' →
      Interrupted req gens g gens' → failed failure putting') :
    wp quiet (handleDivergence req.now) post failed putting := by
  have owned : g.row.identity = id := sound.owned g member
  have start : At base quiet id (replaceWith g g gens) g.row putting := by
    rw [replaceWith_self sound member]
    exact at_
  have stopped : ∀ {putting' : Putting} {t : FileState}, At base quiet id gens t putting' →
      ¬ quiet → ∀ reason, failed (.other reason) putting' :=
    fun held loud reason => stop loud _ _ _
      ⟨held.view, held.others, rfl, held.uninjected⟩ .untouched
  refine wp_bind (wp_peek ?_)
  rw [at_.target]
  -- The first divergence only sets the mark.
  by_cases pending : g.row.conflictPending = false
  · rw [if_pos (by simp [pending])]
    refine wp_bind (updateTarget_wp ?_ start owned
      (fun putting' held => wp_pure (next _ _ _ _ held ?_))
      (stopped at_))
    · exact fun _ => ⟨rfl, rfl⟩
    · rw [adjust_numbered _ rfl rfl]
      exact .byteConflict clean inside differs pending
  · have again : g.row.conflictPending = true := by simpa using pending
    rw [if_neg (by simp [again])]
    refine wp_bind (query_wp ?_ (stopped at_))
    have scan : (putting.store.files.any fun row =>
        row.identity = g.row.identity && row.conflictDriven && row.fingerprint =
          g.row.fingerprint) =
        gens.any fun other => other.row.conflictDriven && other.row.fingerprint =
            g.row.fingerprint := by
      have := any_file_iff putting.store id
        fun row => row.conflictDriven && row.fingerprint = g.row.fingerprint
      rw [at_.view] at this
      simpa only [owned, Bool.and_assoc] using this
    rw [scan]
    -- A generation of this fingerprint was opened by a conflict before: it is poisoned.
    cases driven : gens.any fun other => other.row.conflictDriven && other.row.fingerprint =
        g.row.fingerprint with
    | true =>
      simp only [if_true]
      refine wp_bind (exec_wp (wp_bind (wp_poke (wp_pure (next _ { g.row with poisoned := true }
        (gens.map (marked g.row.fingerprint)) _ ⟨?_, ?_, rfl, at_.uninjected⟩ ?_))))
        (stopped at_))
      · simp only [view_updateFiles _ _ (fun row => { row with poisoned := true })
          (fun _ => ⟨rfl, rfl⟩),
          at_.view]
        apply List.map_congr_left
        intro other otherMember
        simp [sound.owned other otherMember, owned, marked, Generation.withRow]
      · intro other foreign
        have apart : ∀ h ∈ putting.store.view other, ¬ h.row.identity = id :=
          fun h hMember same => foreign ((view_owned hMember).symm.trans same)
        simp only [view_updateFiles _ _ (fun row => { row with poisoned := true })
          (fun _ => ⟨rfl, rfl⟩),
          ← at_.others other foreign]
        calc (putting.store.view other).map _ = (putting.store.view other).map fun h => h := by
              apply List.map_congr_left
              intro h hMember
              simp [owned, apart h hMember]
          _ = putting.store.view other := List.map_id' _
      · refine .poisons clean inside differs again ?_
        simpa [List.any_eq_true] using driven
    | false =>
      simp only [Bool.false_eq_true, if_false]
      refine wp_bind (query_wp ?_ (stopped at_))
      have newestRow :
          putting.store.activeGeneration g.row.identity = (gens.getLast?).map Generation.row := by
        rw [Store.activeGeneration, owned, generations_eq_view (by rw [at_.view]; exact sound),
          at_.view,
          List.getLast?_map]
      rw [newestRow]
      cases last : gens.getLast? with
      | none =>
        rw [List.getLast?_eq_none_iff.mp last] at member
        cases member
      | some active =>
        -- Numbers have no gaps, so the new one is after the last.
        have bound := sound.le_last last member
        have number :
          (if g.row.generation + 1 ≤ active.row.generation then active.row.generation + 1
            else g.row.generation + 1) = active.row.generation + 1 := by
          split <;> omega
        simp only [Option.map_some, number]
        refine wp_bind (updateTarget_wp ?_ start owned (fun cleared atCleared => ?_) (stopped at_))
        · exact fun _ => ⟨rfl, rfl⟩
        rw [adjust_numbered _ rfl rfl] at atCleared
        have free : ∀ h ∈ replaceWith g (pend false g) gens,
            h.row.generation ≠ active.row.generation + 1 := by
          intro h hMember
          obtain ⟨old, oldMember, ⟨numbered, rfl⟩ | ⟨_, rfl⟩⟩ := mem_adjust.mp hMember
          · simp only [pend, Generation.withRow_row]
            omega
          · have := sound.le_last last oldMember
            omega
        rw [owned]
        refine wp_bind (createGeneration_wp atCleared free (fun left putting' held =>
          wp_pure (next _ _ _ _ held ?_)) fun loud reason => stop loud _ _ _
            ⟨atCleared.view, atCleared.others, rfl, atCleared.uninjected⟩ (.unpended differs))
        rw [← owner]
        refine .opened left clean inside differs again ?_ last
        intro other otherMember otherDriven same
        have none := List.any_eq_false.mp driven other otherMember
        simp [otherDriven, same] at none

/-- The answer built from the target as the call leaves it. -/
def outcomeOf (target : FileState) : Except Refusal (Option AppendEvent) → PutResult
  | .error refusal => refused target refusal.code refusal.message refusal.action
  | .ok event => acknowledged target event

theorem handleOverlap_wp {req : PutRequest} (sound : Sound id gens) (member : g ∈ gens)
    (owner : req.identity = id) (clean : g.row.poisoned = false)
    (inside : req.offset < g.row.highWater)
    {post : Except Refusal (Option AppendEvent) → Putting → Prop}
    {failed : StoreError → Putting → Prop}
    (at_ : At base quiet id gens g.row putting)
    (next : ∀ result target' gens' putting', At base quiet id gens' target' putting' →
      Handled quiet req gens g (outcomeOf target' result) gens' → post result putting')
    (stop : ¬ quiet → ∀ failure gens' putting', At base quiet id gens' putting'.target putting' →
      Interrupted req gens g gens' → failed failure putting') :
    wp quiet (handleOverlap req) post failed putting := by
  have owned : g.row.identity = id := sound.owned g member
  have covered := sound.covered g member
  have start : At base quiet id (replaceWith g g gens) g.row putting := by
    rw [replaceWith_self sound member]
    exact at_
  have stopped : ¬ quiet → ∀ reason, failed (.other reason) putting :=
    fun loud reason => stop loud _ _ _ ⟨at_.view, at_.others, rfl, at_.uninjected⟩ .untouched
  refine wp_bind (wp_peek ?_)
  rw [at_.target]
  change wp quiet ((compareMirror g.row req.offset (req.body.take (overlapLength req g))) >>= _)
    post failed putting
  have length : (req.body.take (overlapLength req g)).length = overlapLength req g := by
    simp [overlapLength]
  have long : req.offset + overlapLength req g ≤ g.bytes.length := by
    simp only [overlapLength]
    omega
  refine wp_bind (compareMirror_wp start member owned rfl
    (fun _ => by rw [length]; exact long) ?_ stopped)
  rw [length]
  -- The bytes claimed again are the mirrored ones, or the PUT diverges.
  by_cases agrees : Agrees req g
  · rw [if_neg (by simpa [Agrees] using agrees)]
    have reached : req.offset ≤ g.row.highWater := Nat.le_of_lt inside
    split
    · rename_i whole
      -- Nothing is beyond the high water: only the success is recorded.
      have nothing : excess req g = [] := List.drop_eq_nil_of_le (Nat.le_of_eq whole)
      have same : settled g (excess req g) req.now = recorded g g.row.highWater req.now :=
        if_pos nothing
      refine wp_bind (wp_wrapped (recordSuccess_wp start owned
        (fun putting' held => wp_pure (next _ _ _ _ held ?_))
        fun loud failure gens' putting' held what => stop loud _ _ _ held ?_))
      · rw [adjust_numbered _ rfl rfl, ← same]
        have done : Handled quiet req gens g _ _ := .success none clean reached agrees
        rw [same] at done ⊢
        exact done
      · rcases what with rfl | rfl
        · rw [replaceWith_self sound member]
          exact .untouched
        · rw [adjust_numbered _ rfl rfl, ← same]
          exact .unacknowledged agrees
    · refine wp_bind (appendAtHighWater_wp sound member agrees at_ (fun event putting' held =>
        wp_pure (next (.ok event) _ _ _ held (.success event clean reached agrees))) stop)
  · rw [if_pos (by simpa [Agrees] using agrees)]
    exact wp_bind (handleDivergence_wp sound member owner clean inside agrees at_
      (fun refusal target' gens' putting' held handled =>
        wp_pure (next (.error refusal) _ _ _ held handled)) stop)

/-- What `putBytes` has done once it returned `res`. -/
def Answered (base : Store) (quiet : Prop) (req : PutRequest) (gens : List Generation)
    (res : PutResult)
    (putting : Putting) : Prop :=
  ∃ gens', At base quiet req.identity gens' putting.target putting ∧
    PutStep quiet req gens res gens'

theorem answer_ok {result : Except Refusal (Option AppendEvent)} {post : PutResult → Putting → Prop}
    {failed : Empty → Putting → Prop} (holds : post (outcomeOf putting.target result) putting) :
    wp quiet (answer (.ok result)) post failed putting := by
  refine wp_bind (wp_peek ?_)
  cases result with
  | error refusal => exact wp_pure holds
  | ok event => exact wp_pure holds

theorem answer_error {failure : StoreError} {post : PutResult → Putting → Prop}
    {failed : Empty → Putting → Prop}
    (holds : post (refused putting.target (classifyStoreError failure) failure.text "") putting) :
    wp quiet (answer (.error failure)) post failed putting :=
  wp_bind (wp_peek (wp_pure holds))

theorem putBytes_wp {req : PutRequest} (sound : Sound req.identity gens)
    (at_ : At base quiet req.identity gens target putting) :
    wp quiet (putBytes req) (Answered base quiet req gens) (fun _ _ => False) putting := by
  refine wp_bind (wp_caught ?_)
  refine selectGeneration_wp sound rfl at_ (fun gens₁ g putting₁ routed atRouted => ?_)
    (fun fp active left putting₁ claim unmatched last other atOpened => ?_)
    fun loud failure putting₁ held => ?_
  · have soundRouted : Sound req.identity gens₁ := routed.sound sound
    have member := routed.mem
    have ended : ∀ result target' gens' putting',
      At base quiet req.identity gens' target' putting' →
        Handled quiet req gens₁ g (outcomeOf target' result) gens' →
        Answered base quiet req gens (outcomeOf putting'.target result) putting' := by
      intro result target' gens' putting' held handled
      rw [← held.target] at handled
      exact ⟨gens', ⟨held.view, held.others, rfl, held.uninjected⟩, .routed routed handled⟩
    refine wp_bind (wp_peek ?_)
    rw [atRouted.target]
    -- The order of the source: poisoned, beyond the high-water, inside it, at it.
    split
    · rename_i marked
      exact wp_pure ⟨gens₁, ⟨atRouted.view, atRouted.others, rfl, atRouted.uninjected⟩,
        .routed routed (.poisoned marked)⟩
    have clean : g.row.poisoned = false := by
      rename_i unmarked
      simpa using unmarked
    split
    · rename_i beyond
      exact wp_pure ⟨gens₁, ⟨atRouted.view, atRouted.others, rfl, atRouted.uninjected⟩,
        .routed routed (.gap clean beyond)⟩
    have reached : req.offset ≤ g.row.highWater := by omega
    have broken : ¬ quiet → ∀ (failure : StoreError) gens' putting',
        At base quiet req.identity gens' putting'.target putting' → Interrupted req gens₁ g gens' →
        Answered base quiet req gens
          (refused putting'.target (classifyStoreError failure) failure.text "") putting' :=
      fun loud failure gens' putting' held interrupted =>
        ⟨gens', held, .routed routed (.failed _ failure loud clean reached interrupted)⟩
    split
    · rename_i inside
      refine wp_bind (wp_caught (handleOverlap_wp soundRouted member rfl clean inside atRouted
        (fun result target' gens' putting' held handled =>
          answer_ok (ended result target' gens' putting' held handled))
        fun loud failure gens' putting' held interrupted =>
          answer_error (broken loud failure gens' putting' held interrupted)))
    · rename_i outside
      have none : overlapLength req g = 0 := by
        simp only [overlapLength]
        omega
      have agrees : Agrees req g := by simp [Agrees, none]
      have whole : req.body = excess req g := by simp [excess, none]
      have append : wp quiet (appendAtHighWater req (excess req g))
          (fun event putting' =>
            wp quiet (answer (.ok (.ok event))) (Answered base quiet req gens)
              (fun _ _ => False) putting')
          (fun failure putting' =>
            wp quiet (answer (.error failure)) (Answered base quiet req gens)
              (fun _ _ => False) putting')
          putting₁ := appendAtHighWater_wp soundRouted member agrees atRouted
        (fun event putting' held => answer_ok
          (ended (.ok event) _ _ putting' held (.success event clean reached agrees)))
        fun loud failure gens' putting' held interrupted =>
          answer_error (broken loud failure gens' putting' held interrupted)
      rw [← whole] at append
      exact wp_bind (wp_caught (wp_bind (wp_mono append (fun _ _ holds => wp_pure holds)
        fun _ _ holds => holds)))
  · refine answer_ok ⟨_, ⟨atOpened.view, atOpened.others, rfl, atOpened.uninjected⟩, ?_⟩
    have opened := atOpened.target
    generalize putting₁.target = target' at opened ⊢
    subst opened
    exact .conflict left claim unmatched last other
  · exact wp_pure ⟨gens, held, .unselected failure.text loud⟩

end

/-! ## The step of a whole call -/

/-- The end of a call: its step, the other identities kept, and under calm storage no
    mirror error armed. -/
theorem put_ends {store : Store} (wellFormed : store.WellFormed) (req : PutRequest)
    (outcomes : List Outcome) :
    ∃ gens' target', At store (Calm outcomes ∧
      store.failAppendOnce = false) req.identity gens' target'
        ⟨(store.put req outcomes).2, target'⟩ ∧
      PutStep (Calm outcomes ∧ store.failAppendOnce = false) req (store.view req.identity)
        (store.put req outcomes).1 gens' := by
  have start : At store (Calm outcomes ∧ store.failAppendOnce = false) req.identity
      (store.view req.identity) (noTarget req.identity) ⟨store, noTarget req.identity⟩ :=
    ⟨rfl, fun _ _ => rfl, rfl, fun quiet => quiet.2⟩
  obtain ⟨ended, _⟩ := putBytes_wp (wellFormed req.identity) start outcomes fun quiet => quiet.1
  unfold Store.put
  rcases ran : putBytes req ⟨⟨store, noTarget req.identity⟩, outcomes⟩ with ⟨failure | res, session⟩
  · exact failure.elim
  · simp only [ran] at ended
    obtain ⟨gens', held, step⟩ := ended
    exact ⟨gens', session.state.target, ⟨held.view, held.others, rfl, held.uninjected⟩, step⟩

theorem put_step {store : Store} (wellFormed : store.WellFormed) (req : PutRequest)
    (outcomes : List Outcome) :
    PutStep (Calm outcomes ∧ store.failAppendOnce = false) req (store.view req.identity)
        (store.put req outcomes).1 ((store.put req outcomes).2.view req.identity) ∧
      ∀ other, other ≠ req.identity → (store.put req outcomes).2.view other = store.view other := by
  obtain ⟨gens', target', held, step⟩ := put_ends wellFormed req outcomes
  exact ⟨held.view ▸ step, held.others⟩

theorem put_uninjected {store : Store} (wellFormed : store.WellFormed) (req : PutRequest)
    {outcomes : List Outcome} (calm : Calm outcomes) (uninjected : store.failAppendOnce = false) :
    (store.put req outcomes).2.failAppendOnce = false := by
  obtain ⟨gens', target', held, step⟩ := put_ends wellFormed req outcomes
  exact held.uninjected ⟨calm, uninjected⟩

theorem put_wellFormed {store : Store} (wellFormed : store.WellFormed) (req : PutRequest)
    (outcomes : List Outcome) : (store.put req outcomes).2.WellFormed := by
  obtain ⟨step, others⟩ := put_step wellFormed req outcomes
  intro id
  by_cases same : id = req.identity
  · subst same
    exact step.sound (wellFormed _)
  · rw [others id same]
    exact wellFormed id

end AiConfig.Sesh
