import AiConfig.Sesh.Store.Runs

/-! # The ACK state after a failed PUT

The ACK state of the store is the durable `high_water` of every generation and
the log of facts.  Here it is followed through `putBytes` operation by operation:
only `recordSuccess` changes it, and the answer of a failing call reports the
target as the call left it in memory. -/

namespace AiConfig.Sesh

open AiConfig.Lib AiConfig.Lib.Fallible AiConfig.Sesh.Wire

/-- The durable `high_water` of a generation; without a row nothing is acknowledged. -/
def Store.durable (store : Store) (id : Identity) (n : Nat) : Nat :=
  match store.files.find? (·.isGeneration id n) with
  | some row => row.highWater
  | none => 0

structure AckKept (store store' : Store) : Prop where
  highWater : ∀ id n, store'.durable id n = store.durable id n
  facts : store'.facts = store.facts

theorem AckKept.refl (store : Store) : AckKept store store := ⟨fun _ _ => rfl, rfl⟩

theorem AckKept.trans {a b c : Store} (first : AckKept a b) (second : AckKept b c) : AckKept a c :=
  ⟨fun id n => (second.highWater id n).trans (first.highWater id n), second.facts.trans first.facts⟩

/-- The generation and the `high_water` of the error answer; without an ACK both are 0. -/
def PutResult.reported (res : PutResult) : Nat × Nat :=
  match res.ack with
  | some ack => (ack.generation, ack.highWater)
  | none => (0, 0)

def Wire.ErrorCode.ofStorage (code : ErrorCode) : Bool :=
  code = .mirrorWriteFailed || code = .storeUnavailable

/-- The call returns `mirror_write_failed` or `store_unavailable`. -/
def PutResult.StorageFailed (res : PutResult) : Prop :=
  ∃ code, res.code = some code ∧ code.ofStorage = true

/-! ## Statements that keep the ACK state -/

theorem ackKept_updateFiles (store : Store) {matching : FileState → Bool}
    {change : FileState → FileState}
    (keeps : ∀ row, (change row).identity = row.identity ∧ (change row).generation = row.generation)
    (level : ∀ row, matching row = true →
      store.files.find? (·.isGeneration row.identity row.generation) = some row →
      (change row).highWater = row.highWater) :
    AckKept store (store.updateFiles matching change) := by
  refine ⟨fun id n => ?_, rfl⟩
  have named : ((·.isGeneration id n) ∘ fun row => if matching row then change row else row) =
      (·.isGeneration id n) := by
    funext row
    simp only [Function.comp_apply]
    split
    · simp only [FileState.isGeneration, (keeps row).1, (keeps row).2]
    · rfl
  simp only [Store.durable, Store.updateFiles, List.find?_map, named]
  cases found : store.files.find? (·.isGeneration id n) with
  | none => rfl
  | some row =>
    have here := List.find?_some found
    simp only [FileState.isGeneration, Bool.and_eq_true, decide_eq_true_eq] at here
    obtain ⟨rfl, rfl⟩ := here
    simp only [Option.map_some]
    split
    · rename_i matched
      exact level row matched found
    · rfl

theorem ackKept_insertFile (store : Store) {row : FileState} (fresh : row.highWater = 0) :
    AckKept store (store.insertFile row) := by
  refine ⟨fun id n => ?_, rfl⟩
  simp only [Store.durable, Store.insertFile, List.find?_append]
  cases store.files.find? (·.isGeneration id n) with
  | some old => rfl
  | none =>
    by_cases same : row.isGeneration id n = true
    · simp [same, fresh]
    · simp [same]

theorem ackKept_setMirror (store : Store) (path : MirrorPath) (content : Bytes) :
    AckKept store (store.setMirror path content) := ⟨fun _ _ => rfl, rfl⟩

/-- The same generation at the same level. -/
structure SameLevel (target target' : FileState) : Prop where
  identity : target'.identity = target.identity
  generation : target'.generation = target.generation
  highWater : target'.highWater = target.highWater

structure Unmoved (base putting : Putting) : Prop where
  ack : AckKept base.store putting.store
  target : SameLevel base.target putting.target

theorem Unmoved.refl (base : Putting) : Unmoved base base := ⟨.refl _, rfl, rfl, rfl⟩

section

variable {base : Putting}

theorem query_unmoved {α : Type} (read : Store → α) : Keeps (Unmoved base) (query read) :=
  keeps_attempt fun _ unmoved => unmoved

theorem updateTarget_unmoved {change : FileState → FileState}
    (keeps : ∀ row, (change row).identity = row.identity ∧ (change row).generation = row.generation)
    (level : ∀ row, (change row).highWater = row.highWater) :
    Keeps (Unmoved base) (updateTarget change) := by
  intro putting unmoved
  refine wp_bind (wp_peek (wp_bind (wp_attempt (wp_poke ?_) fun _ _ => unmoved)))
  refine ⟨unmoved.ack.trans (ackKept_updateFiles _ keeps fun row _ _ => level row), ?_, ?_, ?_⟩
  · exact (keeps _).1.trans unmoved.target.identity
  · exact (keeps _).2.trans unmoved.target.generation
  · exact (level _).trans unmoved.target.highWater

theorem setConflictPending_unmoved (pending : Bool) :
    Keeps (Unmoved base) (setConflictPending pending) :=
  updateTarget_unmoved (fun _ => ⟨rfl, rfl⟩) fun _ => rfl

theorem readMirror_unmoved (target : FileState) (offset length : Nat) :
    Keeps (Unmoved base) (readMirror target offset length) := by
  refine keeps_bind (query_unmoved _) fun content => ?_
  cases content with
  | some bytes => exact keeps_pure _
  | none => exact keeps_throw _

theorem updateFingerprintFromMirror_unmoved : Keeps (Unmoved base) updateFingerprintFromMirror := by
  refine keeps_bind (keeps_peek _) fun target => ?_
  split
  · exact keeps_pure _
  · refine keeps_bind (readMirror_unmoved _ _ _) fun window => ?_
    dsimp only
    split
    · exact keeps_pure _
    · exact updateTarget_unmoved (fun _ => ⟨rfl, rfl⟩) fun _ => rfl

theorem writeBytes_unmoved (target : FileState) (offset : Nat) (body : Bytes) {putting : Putting}
    (unmoved : Unmoved base putting) : Unmoved base (writeBytes target offset body putting) :=
  ⟨unmoved.ack.trans (ackKept_setMirror _ _ _), unmoved.target⟩

theorem createGeneration_fails {id : Identity} {n : Nat} {fp : Option String} {driven : Bool}
    {now : String} {putting : Putting} (unmoved : Unmoved base putting) :
    wp False (createGeneration id n fp driven now) (fun _ _ => True)
      (fun _ => Unmoved base) putting := by
  refine wp_bind (wp_peek ?_)
  split
  · exact wp_throw unmoved
  · exact wp_bind (wp_attempt (wp_poke trivial) fun _ _ => unmoved)

/-- A divergence that cannot be recorded is reported on the generation it was found in. -/
theorem handleDivergence_fails {now : String} {putting : Putting} (unmoved : Unmoved base putting) :
    wp False (handleDivergence now) (fun refusal _ => refusal.code.ofStorage = false)
      (fun _ => Unmoved base) putting := by
  refine wp_bind (wp_peek ?_)
  split
  · exact wp_bind (wp_mono (setConflictPending_unmoved true putting unmoved)
      (fun _ _ _ => wp_pure rfl) fun _ _ kept => kept)
  · refine wp_bind (wp_mono (query_unmoved _ putting unmoved) (fun found putting unmoved => ?_)
      fun _ _ kept => kept)
    split
    · exact wp_bind (exec_wp (wp_bind (wp_poke (wp_pure rfl))) fun _ _ => unmoved)
    · refine wp_bind (wp_mono (query_unmoved _ putting unmoved) (fun active putting unmoved => ?_)
        fun _ _ kept => kept)
      cases active with
      | none => exact wp_throw unmoved
      | some active =>
        refine wp_bind (wp_mono (setConflictPending_unmoved false putting unmoved)
          (fun _ putting unmoved => ?_) fun _ _ kept => kept)
        exact wp_bind (wp_mono (createGeneration_fails unmoved) (fun _ _ _ => wp_pure rfl)
          fun _ _ kept => kept)

/-- The facts are written last, and the level that the first statement makes durable
    is the one the target had. -/
theorem recordSuccess_fails {req : PutRequest} {putting : Putting} :
    wp False (recordSuccess req) (fun _ _ => True)
      (fun _ ended => SameLevel putting.target ended.target ∧
        (putting.target.highWater =
            putting.store.durable putting.target.identity putting.target.generation →
          AckKept putting.store ended.store)) putting := by
  have raised : putting.target.highWater =
      putting.store.durable putting.target.identity putting.target.generation →
      AckKept putting.store (putting.store.updateFiles
        (·.isGeneration putting.target.identity putting.target.generation)
        fun row => { row with highWater := putting.target.highWater, lastPutAt := some req.now,
                              conflictPending := false }) := by
    intro accurate
    refine ackKept_updateFiles _ (fun _ => ⟨rfl, rfl⟩) fun row matched found => ?_
    simp only [FileState.isGeneration, Bool.and_eq_true, decide_eq_true_eq] at matched
    rw [← matched.1, ← matched.2] at accurate
    rw [accurate, Store.durable, found]
  refine wp_bind
    (wp_peek (wp_bind (wp_bind (wp_peek (wp_bind (wp_attempt (wp_poke ?_) fun _ _ => ?_))))))
  · refine wp_bind (wp_attempt (wp_attempt trivial fun _ _ => ?_) fun _ _ => ?_)
    · exact ⟨⟨rfl, rfl, rfl⟩, fun accurate =>
        ⟨(raised accurate).highWater, (raised accurate).facts⟩⟩
    · exact ⟨⟨rfl, rfl, rfl⟩, raised⟩
  · exact ⟨⟨rfl, rfl, rfl⟩, fun _ => .refl _⟩

end

/-! ## Counting to the mirror write -/

/-- How many operations routing takes. -/
def routeOps (req : PutRequest) (gens : List Generation) : Nat :=
  if gens = [] then 2
  else
    match req.fingerprint with
    | none => 1
    | some fp => if (newest gens fp).isSome then 1 else 2

/-- How many operations precede the mirror write of a call that is routed to `g`. -/
def opsBeforeWrite (req : PutRequest) (gens : List Generation) (g : Generation) : Nat :=
  routeOps req gens + if overlapLength req g = 0 then 0 else 1

section

variable {base : Store} {gens : List Generation} {target : FileState} {putting : Putting}
  {outcomes : List Outcome} {n : Nat}

theorem query_ends {α : Type} {read : Store → α} {post : α → Session Putting → Prop}
    {failed : StoreError → Putting → Prop} (passed : Passed outcomes n)
    (next : Passed outcomes (n + 1) → post (read putting.store) ⟨putting, outcomes.drop (n + 1)⟩)
    (stop : ¬ Passed outcomes (n + 1) → ∀ reason, failed (.other reason) putting) :
    Ends (query read) ⟨putting, outcomes.drop n⟩ post failed :=
  ends_attempt passed next stop

theorem createGeneration_counts {id : Identity} {m : Nat} {fp : Option String} {driven : Bool}
    {now : String} (passed : Passed outcomes n) (at_ : At base False id gens target putting)
    (free : ∀ g ∈ gens, g.row.generation ≠ m) :
    Ends (createGeneration id m fp driven now) ⟨putting, outcomes.drop n⟩
      (fun _ session => Passed outcomes (n + 1) ∧ session.outcomes = outcomes.drop (n + 1))
      (fun _ _ => ¬ Passed outcomes (n + 1)) := by
  refine ends_bind (ends_peek ?_)
  rw [if_neg (by simp [at_.untaken free])]
  exact ends_bind (ends_attempt passed (fun more => ends_poke ⟨more, rfl⟩) fun broken _ => broken)

theorem selectGeneration_counts {req : PutRequest} (sound : Sound req.identity gens)
    (at_ : At base False req.identity gens target putting) :
    Ends (selectGeneration req) ⟨putting, outcomes⟩
      (fun _ session => Passed outcomes (routeOps req gens) ∧
        session.outcomes = outcomes.drop (routeOps req gens))
      (fun _ _ => ¬ Passed outcomes (routeOps req gens)) := by
  -- Whatever fails first, the calls of the routing are not all passed.
  have least : ∀ {m}, 1 ≤ m → ¬ Passed outcomes 1 → ¬ Passed outcomes m :=
    fun more broken all => broken (all.mono more)
  have atLeast : 1 ≤ routeOps req gens := by
    unfold routeOps
    split
    · decide
    · split
      · exact Nat.le_refl 1
      · split <;> decide
  refine ends_bind (query_ends (n := 0) (passed_zero _) (fun first => ?_)
    fun broken _ => least atLeast broken)
  rw [generations_eq_view (by rw [at_.view]; exact sound), at_.view, List.getLast?_map]
  cases last : gens.getLast? with
  | none =>
    have unknown : gens = [] := List.getLast?_eq_none_iff.mp last
    subst unknown
    refine ends_bind ((createGeneration_counts first at_ (by simp)).imp (fun _ _ counted => ?_)
      fun _ _ broken => broken)
    exact ends_pure counted
  | some active =>
    have known : gens ≠ [] := fun unknown => by simp [unknown] at last
    cases claim : req.fingerprint with
    | none =>
      -- Nothing but the query.
      have one : routeOps req gens = 1 := by simp [routeOps, known, claim]
      rw [one]
      exact ends_bind (ends_poke (ends_pure ⟨first, rfl⟩))
    | some fp =>
      simp only [Option.map_some, newestMatch_rows]
      cases found : newest gens fp with
      | some g =>
        have one : routeOps req gens = 1 := by simp [routeOps, known, claim, found]
        rw [one]
        exact ends_bind (ends_poke (ends_pure ⟨first, rfl⟩))
      | none =>
        -- The query, and the statement that records the fingerprint or opens a generation.
        have two : routeOps req gens = 2 := by simp [routeOps, known, claim, found]
        simp only [Option.map_none, two]
        cases recordedAs : active.row.fingerprint with
        | none =>
          simp only [Option.isNone_none, if_true]
          refine ends_bind (ends_poke (ends_bind (ends_bind (ends_peek (ends_bind ?_)))))
          exact ends_attempt first (fun second => ends_poke (ends_pure ⟨second, rfl⟩))
            fun broken _ => broken
        | some other =>
          simp only [Option.isNone_some, Bool.false_eq_true, if_false]
          have free : ∀ g ∈ gens, g.row.generation ≠ active.row.generation + 1 := by
            intro g gMember
            have := sound.le_last last gMember
            omega
          refine ends_bind ((createGeneration_counts first at_ free).imp (fun _ _ counted => ?_)
            fun _ _ broken => broken)
          exact ends_pure counted

/-- Routing adds rows without bytes and fills in a missing fingerprint. -/
theorem selectGeneration_keeps (store : Store) (req : PutRequest) :
    Keeps (fun putting => AckKept store putting.store ∧
      putting.store.failAppendOnce = store.failAppendOnce)
      (selectGeneration req) := by
  have retargeted : ∀ row, Keeps (fun putting : Putting => AckKept store putting.store ∧
      putting.store.failAppendOnce = store.failAppendOnce) (setTarget row) :=
    fun _ => keeps_poke fun _ kept => kept
  have created : ∀ id n fp driven now, Keeps (fun putting : Putting => AckKept store putting.store ∧
      putting.store.failAppendOnce =
          store.failAppendOnce) (createGeneration id n fp driven now) := by
    intro id n fp driven now
    refine keeps_bind (keeps_peek _) fun taken => ?_
    split
    · exact keeps_throw _
    · refine keeps_bind (keeps_attempt fun putting kept => ?_) fun _ => retargeted _
      exact ⟨kept.1.trans (ackKept_insertFile _ rfl), kept.2⟩
  have adopted : ∀ fp, Keeps (fun putting : Putting => AckKept store putting.store ∧
      putting.store.failAppendOnce = store.failAppendOnce) (setFingerprint fp) := by
    intro fp
    refine keeps_bind (keeps_peek _) fun target => keeps_bind (keeps_attempt fun putting kept => ?_)
      fun _ => retargeted _
    exact ⟨kept.1.trans (ackKept_updateFiles _ (fun _ => ⟨rfl, rfl⟩) fun _ _ _ => rfl), kept.2⟩
  refine keeps_bind (keeps_attempt fun _ kept => kept) fun gens => ?_
  split
  · exact keeps_bind (created _ _ _ _ _) fun _ => keeps_pure _
  · split
    · exact keeps_bind (retargeted _) fun _ => keeps_pure _
    · split
      · exact keeps_bind (retargeted _) fun _ => keeps_pure _
      · split
        · exact keeps_bind (retargeted _) fun _ => keeps_bind (adopted _) fun _ => keeps_pure _
        · exact keeps_bind (created _ _ _ _ _) fun _ => keeps_pure _

theorem compareMirror_counts {id : Identity} {g : Generation} {offset : Nat} {want : Bytes}
    (passed : Passed outcomes n) (at_ : At base False id gens g.row putting) (sound : Sound id gens)
    (member : g ∈ gens) (long : want ≠ [] → offset + want.length ≤ g.bytes.length) :
    Ends (compareMirror g.row offset want) ⟨putting, outcomes.drop n⟩
      (fun agrees session =>
        agrees = decide ((g.bytes.drop offset).take want.length = want) ∧
        Passed outcomes (n + if want = [] then 0 else 1) ∧
        session = ⟨putting, outcomes.drop (n + if want = [] then 0 else 1)⟩)
      (fun _ ended => ended = putting ∧ ¬ Passed outcomes (n + if want = [] then 0 else 1)) := by
  have start : At base False id (replaceWith g g gens) g.row putting := by
    rw [replaceWith_self sound member]
    exact at_
  unfold compareMirror
  split
  · rename_i nothing
    subst nothing
    exact ends_pure ⟨by simp, passed, rfl⟩
  · rename_i something
    refine ends_bind (ends_bind (query_ends passed (fun more => ?_) fun broken _ => ⟨rfl, broken⟩))
    simp only [start.window member (sound.owned g member) rfl (long something)
      (List.length_pos_iff.mpr something)]
    exact ends_pure (ends_pure ⟨rfl, more, rfl⟩)

/-! ## The failing call -/

/-- How a call failed: once it `wrote` its bytes the target reports them; before
    that nothing has moved. -/
structure FailedAt (wrote : Prop) (grown : Nat) (base ended : Putting) : Prop where
  late : wrote → ended.target.generation = base.target.generation ∧
    ended.target.highWater = base.target.highWater + grown
  early : ¬ wrote → Unmoved base ended

/-- The target reports what the table records. -/
def Putting.Accurate (putting : Putting) : Prop :=
  putting.target.highWater = putting.store.durable putting.target.identity putting.target.generation

theorem appendAtHighWater_fails {req : PutRequest} {body : Bytes} (accurate : putting.Accurate)
    (passed : Passed outcomes n) :
    Ends (appendAtHighWater req body) ⟨putting, outcomes.drop n⟩ (fun _ _ => True)
      (fun _ ended => FailedAt (body ≠ [] ∧ putting.store.failAppendOnce = false ∧
      Passed outcomes (n + 1))
        body.length putting ended) := by
  unfold appendAtHighWater
  split
  · rename_i nothing
    refine ends_bind (ends_wrapped
      ((ends_of_wp recordSuccess_fails).imp (fun _ _ _ => ends_pure trivial)
      fun _ ended failed => ?_))
    exact ⟨fun wrote => absurd nothing wrote.1, fun _ => ⟨failed.2 accurate, failed.1⟩⟩
  · rename_i something
    refine ends_bind (ends_peek ?_)
    split
    · rename_i injected
      refine ends_bind (ends_poke (ends_throw ⟨fun wrote => ?_, fun _ => ?_⟩))
      · simp [wrote.2.1] at injected
      · exact ⟨⟨fun _ _ => rfl, rfl⟩, rfl, rfl, rfl⟩
    · rename_i uninjected
      refine ends_bind (ends_peek (ends_bind ?_))
      refine ends_attemptWrite passed (fun more => ?_) fun broken count _ => ?_
      · -- the bytes are in the file, and every later failure reports the raised level
        refine ends_bind (ends_poke ?_)
        refine (ends_of_wp (?_ : wp False _ (fun _ _ => True) (fun _ ended =>
          ended.target.generation = putting.target.generation ∧
            ended.target.highWater = putting.target.highWater + body.length) _)).imp
          (fun _ _ _ => trivial) fun _ ended failed =>
          ⟨fun _ => failed, fun unwritten =>
            absurd ⟨something, by simpa using uninjected, more⟩ unwritten⟩
        refine wp_bind (wp_wrapped (wp_mono (updateFingerprintFromMirror_unmoved _ (.refl _))
          (fun _ printed unmoved => ?_) fun _ ended unmoved =>
            ⟨unmoved.target.generation, unmoved.target.highWater⟩))
        refine wp_bind (wp_wrapped (wp_mono recordSuccess_fails (fun _ _ _ => wp_pure trivial)
          fun _ ended failed => ?_))
        exact ⟨failed.1.generation.trans unmoved.target.generation,
          failed.1.highWater.trans unmoved.target.highWater⟩
      · refine ⟨fun wrote => absurd wrote.2.2 broken, fun _ => ?_⟩
        dsimp only
        split
        · exact .refl _
        · exact writeBytes_unmoved _ _ _ (.refl _)

/-- The call has bytes for the generation it is routed to, and appends them. -/
def Appends (req : PutRequest) (g : Generation) : Prop :=
  g.row.poisoned = false ∧ req.offset ≤ g.row.highWater ∧ Agrees req g ∧ excess req g ≠ []

instance (req : PutRequest) (g : Generation) : Decidable (Appends req g) :=
  inferInstanceAs (Decidable (_ ∧ _))

theorem handleOverlap_fails {req : PutRequest} {g : Generation} (sound : Sound req.identity gens)
    (member : g ∈ gens) (clean : g.row.poisoned = false) (inside : req.offset < g.row.highWater)
    (at_ : At base False req.identity gens g.row putting) (accurate : putting.Accurate)
    (passed : Passed outcomes n) :
    Ends (handleOverlap req) ⟨putting, outcomes.drop n⟩
      (fun result _ => ∀ refusal, result = .error refusal → refusal.code.ofStorage = false)
      (fun _ ended => FailedAt (Appends req g ∧ putting.store.failAppendOnce = false ∧
        Passed outcomes (n + (if overlapLength req g = 0 then 0 else 1) + 1))
        (excess req g).length putting ended) := by
  have length : (req.body.take (overlapLength req g)).length = overlapLength req g := by
    simp [overlapLength]
  have covered := sound.covered g member
  have long : req.offset + overlapLength req g ≤ g.bytes.length := by
    simp only [overlapLength]
    omega
  have counted : (req.body.take (overlapLength req g) = []) = (overlapLength req g = 0) := by
    rw [← List.length_eq_zero_iff, length]
  have unwritten : ∀ {wrote : Prop} {grown : Nat} {ended : Putting}, ¬ wrote →
    Unmoved putting ended →
      FailedAt wrote grown putting ended := fun not unmoved =>
    ⟨fun wrote => absurd wrote not, fun _ => unmoved⟩
  refine ends_bind (ends_peek ?_)
  rw [at_.target]
  change Ends ((compareMirror g.row req.offset (req.body.take (overlapLength req g))) >>= _) _ _ _
  refine ends_bind
    ((compareMirror_counts passed at_ sound member fun _ => by rw [length]; exact long).imp
    (fun agrees session compared => ?_) fun _ ended failed => ?_)
  · obtain ⟨rfl, more, rfl⟩ := compared
    rw [length]
    by_cases agrees : Agrees req g
    · rw [if_neg (by simpa [Agrees] using agrees)]
      split
      · rename_i whole
        have nothing : excess req g = [] := List.drop_eq_nil_of_le (Nat.le_of_eq whole)
        refine ends_bind (ends_wrapped ((ends_of_wp recordSuccess_fails).imp
          (fun _ _ _ => ends_pure fun _ none => by cases none) fun _ ended failed => ?_))
        exact unwritten (fun wrote => wrote.1.2.2.2 nothing) ⟨failed.2 accurate, failed.1⟩
      · refine ends_bind ((appendAtHighWater_fails accurate more).imp
          (fun _ _ _ => ends_pure fun _ none => by cases none) fun _ ended failed => ?_)
        simp only [counted] at failed
        refine ⟨fun wrote => failed.late ⟨wrote.1.2.2.2, wrote.2⟩, fun not =>
          failed.early fun wrote => not ?_⟩
        exact ⟨⟨clean, Nat.le_of_lt inside, agrees, wrote.1⟩, wrote.2⟩
    · rw [if_pos (by simpa [Agrees] using agrees)]
      refine ends_bind ((ends_of_wp (handleDivergence_fails (.refl putting))).imp
        (fun refusal _ laddered => ends_pure fun other same => by cases same; exact laddered)
        fun _ ended unmoved => ?_)
      exact unwritten (fun wrote => agrees wrote.1.2.2.1) unmoved
  · obtain ⟨rfl, broken⟩ := failed
    simp only [counted] at broken
    exact unwritten (fun wrote => broken (wrote.2.2.mono (Nat.le_succ _))) (.refl _)

end

/-- What a call leaves that storage made fail. -/
inductive Refused (store : Store) (req : PutRequest) (outcomes : List Outcome) (res : PutResult)
    (ended : Store) : Prop where
  | unselected (broken : ¬ Passed outcomes (routeOps req (store.view req.identity)))
      (unreported : res.ack = none) (coded : res.code = some .storeUnavailable)
      (kept : AckKept store ended)
  | routed {gens : List Generation} {g : Generation} {ack : Ack}
      (passed : Passed outcomes (routeOps req (store.view req.identity)))
      (routed : Routed req (store.view req.identity) gens g)
      (level : store.durable req.identity g.row.generation = g.row.highWater)
      (reported : res.ack = some ack)
      (late : Appends req g ∧ store.failAppendOnce = false ∧
          Passed outcomes (opsBeforeWrite req (store.view req.identity) g + 1) →
        ack.generation = g.row.generation ∧ ack.highWater = g.row.highWater + (excess req g).length)
      (early : ¬ (Appends req g ∧ store.failAppendOnce = false ∧
          Passed outcomes (opsBeforeWrite req (store.view req.identity) g + 1)) →
        AckKept store ended ∧ ack.generation = g.row.generation ∧ ack.highWater = g.row.highWater)

/-- In a sound view every row is the durable one of its generation. -/
theorem durable_of_mem {store : Store} {id : Identity} (sound : Sound id (store.view id))
    {g : Generation}
    (member : g ∈ store.view id) : store.durable id g.row.generation = g.row.highWater := by
  obtain ⟨row, rowMember, rfl⟩ := List.mem_map.mp member
  simp only [List.mem_filter, decide_eq_true_eq] at rowMember
  obtain ⟨listed, owned⟩ := rowMember
  unfold Store.durable
  cases found : store.files.find? (·.isGeneration id row.generation) with
  | none => simpa [FileState.isGeneration, owned] using List.find?_eq_none.mp found row listed
  | some other =>
    have here := List.find?_some found
    simp only [FileState.isGeneration, Bool.and_eq_true, decide_eq_true_eq] at here
    have otherMember : (⟨other, store.mirrored id other.generation⟩ : Generation) ∈ store.view id :=
      List.mem_map.mpr ⟨other, by simp [List.mem_of_find?_eq_some found, here.1], rfl⟩
    have same := sound.unique otherMember member here.2
    simp only [Generation.mk.injEq] at same
    rw [same.1]

theorem classifyStoreError_ofStorage (failure : StoreError) :
    (classifyStoreError failure).ofStorage = true := by
  cases failure <;> rfl

theorem putBytes_fails {store : Store} (wellFormed : store.WellFormed) (req : PutRequest)
    (outcomes : List Outcome) :
    Ends (putBytes req) ⟨⟨store, noTarget req.identity⟩, outcomes⟩
      (fun res session => res.StorageFailed → Refused store req outcomes res session.state.store)
      (fun _ _ => False) := by
  have sound := wellFormed req.identity
  have start : At store False req.identity (store.view req.identity) (noTarget req.identity)
      ⟨store, noTarget req.identity⟩ :=
        ⟨rfl, fun _ _ => rfl, rfl, fun impossible => impossible.elim⟩
  have counts : Ends (selectGeneration req) ⟨⟨store, noTarget req.identity⟩, outcomes⟩ _ _ :=
    selectGeneration_counts sound start
  have kept : Ends (selectGeneration req) ⟨⟨store, noTarget req.identity⟩, outcomes⟩ _ _ :=
    ends_of_wp (selectGeneration_keeps store req _ ⟨.refl store, rfl⟩)
  have routes : wp False (selectGeneration req)
      (fun refusal putting => match refusal with
        | none => ∃ gens g, Routed req (store.view req.identity) gens g ∧
            At store False req.identity gens g.row putting
        | some refusal => refusal.code = .fingerprintConflict)
      (fun _ _ => True) ⟨store, noTarget req.identity⟩ :=
    selectGeneration_wp sound rfl start (fun gens g _ routed at_ => ⟨gens, g, routed, at_⟩)
      (fun _ _ _ _ _ _ _ _ _ => rfl) fun _ _ _ _ => trivial
  have routed : Ends (selectGeneration req) ⟨⟨store, noTarget req.identity⟩, outcomes⟩ _ _ :=
    ends_of_wp routes
  refine ends_bind
    (ends_caught (((counts.and kept).and routed).imp (fun selected session facts => ?_)
    fun failure ended facts outcomes => ?_))
  · obtain ⟨⟨⟨passed, rest⟩, kept, injected⟩, routed⟩ := facts
    cases selected with
    | some refusal =>
      refine ends_bind (ends_peek (ends_pure ?_))
      rintro ⟨code, coded, failed⟩
      cases coded.symm.trans (congrArg some routed)
      cases failed
    | none =>
      obtain ⟨gens, g, routed, at_⟩ := routed
      rcases session with ⟨putting, remaining⟩
      cases rest
      simp only at at_ kept injected
      have soundRouted := routed.sound sound
      have member := routed.mem
      have here : putting.store.durable req.identity g.row.generation = g.row.highWater :=
        durable_of_mem (by rw [at_.view]; exact soundRouted) (by rw [at_.view]; exact member)
      have accurate : putting.Accurate := by
        rw [Putting.Accurate, at_.target, soundRouted.owned g member, here]
      have level := (kept.highWater _ _).symm.trans here
      -- Once a generation is chosen, a failure is told by how far the append came.
      have failing : ∀ {ended : Putting} {res : PutResult},
          FailedAt (Appends req g ∧ putting.store.failAppendOnce = false ∧
            Passed outcomes (opsBeforeWrite req (store.view req.identity) g + 1))
            (excess req g).length putting ended → res.ack = some ended.target.ack →
          Refused store req outcomes res ended.store := by
        intro ended res failed reported
        rw [injected] at failed
        refine .routed passed routed level reported (fun wrote => ?_) fun unwritten => ?_
        · have moved := failed.late wrote
          rw [at_.target] at moved
          exact moved
        · have unmoved := failed.early unwritten
          have target := unmoved.target
          rw [at_.target] at target
          exact ⟨kept.trans unmoved.ack, target.generation, target.highWater⟩
      -- The order of the source: poisoned, beyond the high-water, overlapping, appending.
      refine ends_bind (ends_peek ?_)
      simp only [at_.target]
      split
      · refine ends_pure ?_
        rintro ⟨code, coded, failed⟩
        cases coded
        cases failed
      rename_i clean
      split
      · refine ends_pure ?_
        rintro ⟨code, coded, failed⟩
        cases coded
        cases failed
      rename_i reached
      split
      · rename_i inside
        refine ends_bind
          (ends_caught ((handleOverlap_fails soundRouted member (by simpa using clean)
          inside at_ accurate passed).imp
            (fun result ended laddered => ?_) fun failure ended failed _ => ?_))
        · cases result with
          | ok event =>
            refine ends_bind (ends_peek (ends_pure ?_))
            rintro ⟨code, coded, _⟩
            cases coded
          | error refusal =>
            refine ends_bind (ends_peek (ends_pure ?_))
            rintro ⟨code, coded, failed⟩
            cases coded
            rw [laddered refusal rfl] at failed
            cases failed
        · exact ends_bind (ends_peek (ends_pure fun _ => failing failed rfl))
      · rename_i outside
        -- At the high-water nothing overlaps: the whole body is appended.
        have none : overlapLength req g = 0 := by
          simp only [overlapLength]
          omega
        have whole : req.body = excess req g := by simp [excess, none]
        have appends : Appends req g ↔ req.body ≠ [] := by
          rw [whole]
          exact ⟨fun appends => appends.2.2.2, fun more =>
            ⟨by simpa using clean, by omega, by simp [Agrees, none], more⟩⟩
        refine ends_bind (ends_caught (ends_bind ((appendAtHighWater_fails accurate passed).imp
          (fun _ _ _ => ends_pure ?_) fun failure ended failed _ => ?_)))
        · refine ends_bind (ends_peek (ends_pure ?_))
          rintro ⟨code, coded, _⟩
          cases coded
        · rw [← appends, whole] at failed
          exact ends_bind (ends_peek (ends_pure fun _ => failing (by
            simpa only [opsBeforeWrite, none, if_true] using failed) rfl))
  · exact ends_pure fun _ => .unselected facts.1.1 rfl rfl facts.1.2.1

/-! ## When a failed call keeps the ACK state -/

/-- The generation a call is evaluated against; an unknown identity gets an empty one. -/
def evaluatedOn (req : PutRequest) (gens : List Generation) : Option Generation :=
  if gens = [] then some ⟨freshRow req.identity 0 req.fingerprint false req.now,
    []⟩ else route req gens

theorem Routed.evaluatedOn_eq {req : PutRequest} {gens gens₁ : List Generation} {g : Generation}
    (routed : Routed req gens gens₁ g) :
    ∃ found, evaluatedOn req gens = some found ∧ (Appends req g ↔ Appends req found) ∧
      opsBeforeWrite req gens g = opsBeforeWrite req gens found := by
  unfold evaluatedOn
  rcases routed.route_eq with ⟨unknown, left, rfl⟩ | ⟨found, member, routedTo, rfl⟩
  · -- whatever the mirror file holds, none of it is acknowledged
    refine ⟨_, if_pos unknown, ?_, rfl⟩
    have none :
        ∀ bytes, overlapLength req ⟨freshRow req.identity 0 req.fingerprint false req.now, bytes⟩ =
        0 :=
      fun _ => by simp [overlapLength, freshRow]
    simp only [Appends, Agrees, excess, none, List.take_zero]
  · exact ⟨found, (if_neg fun unknown => by simp [unknown] at member).trans routedTo, Iff.rfl, rfl⟩

/-- The call gets as far as its bytes into the mirror file: it has bytes to append,
    and no operation fails before or at the write. -/
def WritesMirror (store : Store) (req : PutRequest) (outcomes : List Outcome) : Prop :=
  ∃ g, evaluatedOn req (store.view req.identity) = some g ∧ Appends req g ∧
    store.failAppendOnce = false ∧
      Passed outcomes (opsBeforeWrite req (store.view req.identity) g + 1)

theorem Routed.writesMirror_iff {store : Store} {req : PutRequest} {outcomes : List Outcome}
    {gens : List Generation} {g : Generation}
    (routed : Routed req (store.view req.identity) gens g) :
    WritesMirror store req outcomes ↔ Appends req g ∧ store.failAppendOnce = false ∧
      Passed outcomes (opsBeforeWrite req (store.view req.identity) g + 1) := by
  obtain ⟨found, evaluated, appends, ops⟩ := routed.evaluatedOn_eq
  rw [appends, ops]
  constructor
  · rintro ⟨other, same, wrote⟩
    cases evaluated.symm.trans same
    exact wrote
  · exact fun wrote => ⟨found, evaluated, wrote⟩

/-- The answer reports a level that its generation durably has. -/
def ReportsDurable (req : PutRequest) (answered : PutResult × Store) : Prop :=
  answered.2.durable req.identity answered.1.reported.1 = answered.1.reported.2

theorem Refused.kept_iff {store ended : Store} {req : PutRequest} {outcomes : List Outcome}
    {res : PutResult} (refused : Refused store req outcomes res ended) :
    AckKept store ended ∧ ReportsDurable req (res, ended) ↔
      ¬ WritesMirror store req outcomes ∧
        (Passed outcomes (routeOps req (store.view req.identity)) ∨
        store.durable req.identity 0 = 0) := by
  cases refused with
  | unselected broken unreported _ kept =>
    have early : ¬ WritesMirror store req outcomes := by
      rintro ⟨g, _, _, _, passed⟩
      refine broken (passed.mono ?_)
      simp only [opsBeforeWrite]
      omega
    have zero : ReportsDurable req (res, ended) ↔ store.durable req.identity 0 = 0 := by
      simp only [ReportsDurable, PutResult.reported, unreported, kept.highWater]
    rw [zero]
    exact ⟨fun both => ⟨early, Or.inr both.2⟩, fun both => ⟨kept, both.2.resolve_left broken⟩⟩
  | @routed gens g ack passed routed level reported late early =>
    rw [routed.writesMirror_iff]
    have answered : ReportsDurable req (res, ended) ↔
        ended.durable req.identity ack.generation = ack.highWater := by
      simp only [ReportsDurable, PutResult.reported, reported]
    rw [answered]
    constructor
    · rintro ⟨kept, durable⟩
      refine ⟨fun wrote => ?_, Or.inl passed⟩
      obtain ⟨numbered, raised⟩ := late wrote
      rw [numbered, raised, kept.highWater, level] at durable
      have := List.length_pos_iff.mpr wrote.1.2.2.2
      omega
    · rintro ⟨unwritten, _⟩
      obtain ⟨kept, numbered, unraised⟩ := early unwritten
      refine ⟨kept, ?_⟩
      rw [numbered, unraised, kept.highWater, level]

theorem put_refused {store : Store} (wellFormed : store.WellFormed) (req : PutRequest)
    (outcomes : List Outcome) (failed : (store.put req outcomes).1.StorageFailed) :
    Refused store req outcomes (store.put req outcomes).1 (store.put req outcomes).2 := by
  have ended := putBytes_fails wellFormed req outcomes
  revert failed
  unfold Store.put
  simp only [Ends] at ended
  rcases ran : putBytes req ⟨⟨store, noTarget req.identity⟩, outcomes⟩ with ⟨failure | res, session⟩
  · exact failure.elim
  · intro failed
    rw [ran] at ended
    exact ended failed

/-- A PUT that storage fails keeps the ACK state and reports it rightly if and only
    if its bytes did not reach the mirror and, where it could not even select a
    generation, generation 0 has nothing acknowledged. -/
theorem failed_put_keeps_ack_state_iff (before : List Op) (req : PutRequest)
    (outcomes : List Outcome)
    (failed : ((Store.empty.run before).put req outcomes).1.StorageFailed) :
    AckKept (Store.empty.run before) ((Store.empty.run before).put req outcomes).2 ∧
        ReportsDurable req ((Store.empty.run before).put req outcomes) ↔
      ¬ WritesMirror (Store.empty.run before) req outcomes ∧
        (Passed outcomes (routeOps req ((Store.empty.run before).view req.identity)) ∨
          (Store.empty.run before).durable req.identity 0 = 0) :=
  (put_refused (run_wellFormed Store.empty_wellFormed before) req outcomes failed).kept_iff

/-- The mirror write passes, and then the first or the second statement of
    `recordSuccess` fails; last, the query for the generations of a known identity. -/
theorem failed_put_moves_ack_state :
    (((Store.empty.put (samplePut none 0 [1])
    [.ok, .ok, .ok, .fail 0 "disk I/O error"]).1.StorageFailed ∧
      ¬ ReportsDurable (samplePut none 0 [1])
        (Store.empty.put (samplePut none 0 [1]) [.ok, .ok, .ok, .fail 0 "disk I/O error"])) ∧
    ((Store.empty.put (samplePut none 0 [1])
    [.ok, .ok, .ok, .ok, .fail 0 "disk I/O error"]).1.StorageFailed ∧
      ¬ AckKept Store.empty
        (Store.empty.put (samplePut none 0 [1])
        [.ok, .ok, .ok, .ok, .fail 0 "disk I/O error"]).2)) ∧
    (((Store.empty.run (calls [samplePut none 0 [1]])).put (samplePut none 1 [2])
        [.fail 0 "disk I/O error"]).1.StorageFailed ∧
      ¬ ReportsDurable (samplePut none 1 [2])
        ((Store.empty.run (calls [samplePut none 0 [1]])).put (samplePut none 1 [2])
          [.fail 0 "disk I/O error"])) := by
  refine ⟨⟨⟨⟨.storeUnavailable, ?_, rfl⟩, ?_⟩, ⟨.storeUnavailable, ?_, rfl⟩, fun kept => ?_⟩,
    ⟨.storeUnavailable, ?_, rfl⟩, ?_⟩
  · decide +kernel
  · unfold ReportsDurable
    decide +kernel
  · decide +kernel
  · exact absurd (kept.highWater sampleIdentity 0) (by decide +kernel)
  · decide +kernel
  · unfold ReportsDurable
    decide +kernel

theorem failed_put_keeps_ack_state_iff_sample :
    AckKept (Store.empty.run []) ((Store.empty.run []).put (samplePut none 0 [1])
          [.ok, .ok, .fail 0 "disk I/O error"]).2 ∧
        ReportsDurable (samplePut none 0 [1]) ((Store.empty.run []).put (samplePut none 0 [1])
          [.ok, .ok, .fail 0 "disk I/O error"]) ↔
      ¬ WritesMirror (Store.empty.run []) (samplePut none 0 [1])
        [.ok, .ok, .fail 0 "disk I/O error"] ∧
        (Passed [.ok, .ok, .fail 0 "disk I/O error"]
            (routeOps (samplePut none 0 [1]) ((Store.empty.run []).view sampleIdentity)) ∨
          (Store.empty.run []).durable sampleIdentity 0 = 0) :=
  failed_put_keeps_ack_state_iff [] (samplePut none 0 [1]) [.ok, .ok, .fail 0 "disk I/O error"]
    ⟨.mirrorWriteFailed, by decide +kernel, rfl⟩

end AiConfig.Sesh
