import AiConfig.Sesh.Store.Execute

/-! # Runs of the store

A run is any sequence of PUTs, each under its own storage outcomes, restarts of
the process and armed mirror errors.  `Store.Extends` is what a run keeps of the
mirror: no generation loses its row, no high-water goes back, and bytes below a
high-water stay as they are. -/

namespace AiConfig.Sesh

open AiConfig.Lib AiConfig.Lib.Fallible AiConfig.Sesh.Wire

inductive Op where
  | put (req : PutRequest) (outcomes : List Outcome)
  /-- `InjectMirrorErrorOnce`. -/
  | injectMirrorErrorOnce
  | restart
  deriving DecidableEq, Repr

def Store.apply (store : Store) : Op → Store
  | .put req outcomes => (store.put req outcomes).2
  | .injectMirrorErrorOnce => { store with failAppendOnce := true }
  | .restart => { store with failAppendOnce := false }

def Store.run (store : Store) (ops : List Op) : Store := ops.foldl Store.apply store

@[simp] theorem Store.run_nil (store : Store) : store.run [] = store := rfl

@[simp] theorem Store.run_cons (store : Store) (op : Op) (ops : List Op) :
    store.run (op :: ops) = (store.apply op).run ops := rfl

theorem Store.run_append (store : Store) (first second : List Op) :
    store.run (first ++ second) = (store.run first).run second := List.foldl_append

theorem apply_wellFormed {store : Store} (wellFormed : store.WellFormed) (op : Op) :
    (store.apply op).WellFormed := by
  cases op with
  | put req outcomes => exact put_wellFormed wellFormed req outcomes
  | injectMirrorErrorOnce | restart => exact wellFormed

theorem run_wellFormed {store : Store} (wellFormed : store.WellFormed) (ops : List Op) :
    (store.run ops).WellFormed := by
  induction ops generalizing store with
  | nil => exact wellFormed
  | cons op ops inductionHypothesis => exact inductionHypothesis (apply_wellFormed wellFormed op)

/-- Whatever a step keeps, a run keeps. -/
theorem run_keeps (keeps : Store → Store → Prop) (refl : ∀ store, keeps store store)
    (trans : ∀ {a b c}, keeps a b → keeps b c → keeps a c)
    (step : ∀ store op, store.WellFormed → keeps store (store.apply op))
    {store : Store} (wellFormed : store.WellFormed) (ops : List Op) :
    keeps store (store.run ops) := by
  induction ops generalizing store with
  | nil => exact refl store
  | cons op ops inductionHypothesis =>
    exact trans (step store op wellFormed) (inductionHypothesis (apply_wellFormed wellFormed op))

/-- Every PUT of the run on `id` meets a condition on its request and on the
    generations it finds. -/
def Store.Along (id : Identity) (meets : PutRequest → List Generation → Prop) :
    Store → List Op → Prop
  | _, [] => True
  | store, op :: ops =>
    (∀ req outcomes, op = .put req outcomes → req.identity = id → meets req (store.view id)) ∧
      Store.Along id meets (store.apply op) ops

/-- What every PUT that meets the condition keeps of an identity's view, the run keeps. -/
theorem along_keeps {id : Identity} {meets : PutRequest → List Generation → Prop}
    (invariant : List Generation → Prop)
    (step : ∀ quiet req gens res gens', req.identity = id → Sound req.identity gens →
    meets req gens →
      PutStep quiet req gens res gens' → invariant gens → invariant gens')
    {store : Store} (wellFormed : store.WellFormed) {ops : List Op}
    (along : store.Along id meets ops)
    (holds : invariant (store.view id)) : invariant ((store.run ops).view id) := by
  induction ops generalizing store with
  | nil => exact holds
  | cons op ops inductionHypothesis =>
    obtain ⟨here, rest⟩ := along
    refine inductionHypothesis (apply_wellFormed wellFormed op) rest ?_
    cases op with
    | injectMirrorErrorOnce | restart => exact holds
    | put req outcomes =>
      obtain ⟨stepped, others⟩ := put_step wellFormed req outcomes
      by_cases own : req.identity = id
      · have met := here req outcomes rfl own
        subst own
        exact step _ req _ _ _ rfl (wellFormed _) met stepped holds
      · simp only [Store.apply, others id fun same => own same.symm]
        exact holds

/-! ## What one call does to mirrored bytes -/

theorem excess_length (req : PutRequest) (g : Generation) :
    (excess req g).length = req.body.length - overlapLength req g := List.length_drop

theorem written_take {g : Generation} {body : Bytes} (covered : g.row.highWater ≤ g.bytes.length) :
    (written g body).bytes.take g.row.highWater = g.bytes.take g.row.highWater :=
  writeAt_take _ _ _ covered

theorem settled_take {g : Generation} {body : Bytes} {now : String}
    (covered : g.row.highWater ≤ g.bytes.length) :
    (settled g body now).bytes.take (g.row.highWater + body.length) =
      g.bytes.take g.row.highWater ++ body := by
  rw [settled_bytes]
  split
  · rename_i nothing
    simp [nothing]
  · exact writeAt_take_end _ _ _ covered

theorem settled_take_highWater {g : Generation} {body : Bytes} {now : String}
    (covered : g.row.highWater ≤ g.bytes.length) :
    (settled g body now).bytes.take g.row.highWater = g.bytes.take g.row.highWater := by
  calc (settled g body now).bytes.take g.row.highWater
      = ((settled g body now).bytes.take (g.row.highWater + body.length)).take g.row.highWater := by
        rw [List.take_take, Nat.min_eq_left (Nat.le_add_right _ _)]
    _ = g.bytes.take g.row.highWater := by
        rw [settled_take covered, List.take_append_of_le_length (by simp [covered]), List.take_take,
          Nat.min_self]

/-- A body that agrees with the mirror is in the mirror once the call has settled. -/
theorem settled_holds_body {req : PutRequest} {g : Generation}
    (covered : g.row.highWater ≤ g.bytes.length) (reached : req.offset ≤ g.row.highWater)
    (agrees : Agrees req g) :
    ((settled g (excess req g) req.now).bytes.drop req.offset).take req.body.length = req.body := by
  have length := excess_length req g
  by_cases inside : req.body.length ≤ g.row.highWater - req.offset
  · have whole : overlapLength req g = req.body.length := Nat.min_eq_left inside
    have nothing : excess req g = [] := List.drop_eq_nil_of_le (Nat.le_of_eq whole.symm)
    rw [settled_bytes, if_pos nothing]
    simpa [Agrees, whole] using agrees
  · have overlap : overlapLength req g = g.row.highWater - req.offset := by
      simp only [overlapLength]
      omega
    have size : g.row.highWater + (excess req g).length = req.offset + req.body.length := by omega
    calc ((settled g (excess req g) req.now).bytes.drop req.offset).take req.body.length
        = ((settled g (excess req g) req.now).bytes.take
            (g.row.highWater + (excess req g).length)).drop req.offset := by
          rw [List.drop_take, size, Nat.add_sub_cancel_left]
      _ = (g.bytes.drop req.offset).take (overlapLength req g) ++ excess req g := by
          rw [settled_take covered, List.drop_append_of_le_length (by simp; omega), List.drop_take,
            overlap]
      _ = req.body := by
          rw [agrees]
          exact List.take_append_drop _ _

/-- What a generation has mirrored and recorded, its fingerprint and flags aside. -/
def Generation.mirrors (g : Generation) : Nat × Nat × Bytes :=
  (g.row.generation, g.row.highWater, g.bytes)

theorem adjust_mirrors {n : Nat} {change : Generation → Generation} (gens : List Generation)
    (keeps : ∀ g, (change g).mirrors = g.mirrors) :
    (adjust n change gens).map Generation.mirrors = gens.map Generation.mirrors := by
  simp only [adjust, List.map_map]
  apply List.map_congr_left
  intro g _
  simp only [Function.comp_apply]
  split
  · exact keeps g
  · rfl

/-! ## The mirror is durable -/

/-- `g'` still holds what `g` had recorded. -/
structure Generation.ExtendedBy (g g' : Generation) : Prop where
  generation : g'.row.generation = g.row.generation
  highWater : g.row.highWater ≤ g'.row.highWater
  bytes : g'.bytes.take g.row.highWater = g.bytes.take g.row.highWater

theorem Generation.ExtendedBy.refl (g : Generation) : g.ExtendedBy g := ⟨rfl, Nat.le_refl _, rfl⟩

theorem Generation.ExtendedBy.trans {a b c : Generation} (first : a.ExtendedBy b)
    (second : b.ExtendedBy c) : a.ExtendedBy c := by
  refine ⟨second.generation.trans first.generation, Nat.le_trans first.highWater second.highWater,
    ?_⟩
  have kept := congrArg (List.take a.row.highWater) second.bytes
  rw [List.take_take, List.take_take, Nat.min_eq_left first.highWater] at kept
  rw [kept, first.bytes]

def Extends (gens gens' : List Generation) : Prop := ∀ g ∈ gens, ∃ g' ∈ gens', g.ExtendedBy g'

theorem Extends.refl (gens : List Generation) : Extends gens gens :=
  fun g member => ⟨g, member, .refl g⟩

theorem Extends.trans {a b c : List Generation} (first : Extends a b) (second : Extends b c) :
    Extends a c := by
  intro g member
  obtain ⟨g', member', extended⟩ := first g member
  obtain ⟨g'', member'', extended'⟩ := second g' member'
  exact ⟨g'', member'', extended.trans extended'⟩

theorem Extends.snoc {gens gens' : List Generation} (extended : Extends gens gens')
    (fresh : Generation) :
    Extends gens (gens' ++ [fresh]) := by
  intro g member
  obtain ⟨g', member', grown⟩ := extended g member
  exact ⟨g', List.mem_append_left _ member', grown⟩

theorem extends_adjust {n : Nat} {change : Generation → Generation} {gens : List Generation}
    (grows : ∀ g ∈ gens, g.row.generation = n → g.ExtendedBy (change g)) :
    Extends gens (adjust n change gens) := by
  intro g member
  by_cases numbered : g.row.generation = n
  · exact ⟨change g, mem_adjust.mpr ⟨g, member, Or.inl ⟨numbered, rfl⟩⟩, grows g member numbered⟩
  · exact ⟨g, mem_adjust.mpr ⟨g, member, Or.inr ⟨numbered, rfl⟩⟩, .refl g⟩

section

variable {quiet : Prop} {req : PutRequest} {gens gens' : List Generation} {g g' : Generation}
  {res : PutResult} {id : Identity}

theorem extends_replaceWith (sound : Sound id gens) (member : g ∈ gens) (grows : g.ExtendedBy g') :
    Extends gens (replaceWith g g' gens) :=
  extends_adjust fun h hMember same => by
    rw [sound.unique hMember member same]
    exact grows

theorem settled_extends (covered : g.row.highWater ≤ g.bytes.length) (body : Bytes) (now : String) :
    g.ExtendedBy (settled g body now) :=
  ⟨settled_generation .., by rw [settled_highWater]; exact Nat.le_add_right _ _,
    settled_take_highWater covered⟩

theorem Routed.extends (routed : Routed req gens gens' g) : Extends gens gens' := by
  cases routed with
  | first _ unknown =>
    subst unknown
    exact fun h member => by cases member
  | matched | active => exact .refl gens
  | adopted => exact extends_adjust fun h _ _ => ⟨rfl, Nat.le_refl _, rfl⟩

theorem Interrupted.extends (interrupted : Interrupted req gens g gens') (sound : Sound id gens)
    (member : g ∈ gens) : Extends gens gens' := by
  have covered := sound.covered g member
  cases interrupted with
  | untouched => exact .refl gens
  | unpended => exact extends_replaceWith sound member ⟨rfl, Nat.le_refl _, rfl⟩
  | torn => exact extends_replaceWith sound member ⟨rfl, Nat.le_refl _, written_take covered⟩
  | unrecorded => exact extends_replaceWith sound member ⟨rfl, Nat.le_refl _, written_take covered⟩
  | unacknowledged => exact extends_replaceWith sound member (settled_extends covered _ _)

theorem Handled.extends (handled : Handled quiet req gens g res gens') (sound : Sound id gens)
    (member : g ∈ gens) : Extends gens gens' := by
  have covered := sound.covered g member
  cases handled with
  | poisoned | gap => exact .refl gens
  | byteConflict => exact extends_replaceWith sound member ⟨rfl, Nat.le_refl _, rfl⟩
  | poisons =>
    intro h hMember
    exact ⟨_, List.mem_map_of_mem hMember, by simp, by simp, by simp⟩
  | opened =>
    have cleared : Extends gens (replaceWith g (pend false g) gens) :=
      extends_replaceWith sound member ⟨rfl, Nat.le_refl _, rfl⟩
    exact cleared.snoc _
  | success => exact extends_replaceWith sound member (settled_extends covered _ _)
  | failed _ _ _ _ _ interrupted => exact interrupted.extends sound member

theorem PutStep.extends (step : PutStep quiet req gens res gens')
    (sound : Sound req.identity gens) :
    Extends gens gens' := by
  cases step with
  | unselected => exact .refl gens
  | conflict => exact (Extends.refl gens).snoc _
  | routed routed handled =>
    exact routed.extends.trans (handled.extends (routed.sound sound) routed.mem)

end

/-- No row is lost, no high-water decreases, and no mirrored byte below one changes. -/
def Store.Extends (store store' : Store) : Prop :=
  ∀ row ∈ store.files, ∃ row' ∈ store'.files,
    row'.identity = row.identity ∧ row'.generation = row.generation ∧
    row.highWater ≤ row'.highWater ∧
    (store'.mirrored row.identity row.generation).take row.highWater =
      (store.mirrored row.identity row.generation).take row.highWater

theorem mem_view {store : Store} {id : Identity} {g : Generation} :
    g ∈ store.view id ↔
      g.row ∈ store.files ∧ g.row.identity = id ∧ g.bytes = store.mirrored id g.row.generation := by
  simp only [Store.view, List.mem_map, List.mem_filter, decide_eq_true_eq]
  constructor
  · rintro ⟨row, ⟨member, owned⟩, rfl⟩
    exact ⟨member, owned, rfl⟩
  · rintro ⟨member, owned, bytes⟩
    exact ⟨g.row, ⟨member, owned⟩, by rw [← bytes]⟩

theorem store_extends {store store' : Store}
    (views : ∀ id, AiConfig.Sesh.Extends (store.view id) (store'.view id)) :
    store.Extends store' := by
  intro row member
  have viewed : (⟨row, store.mirrored row.identity row.generation⟩ : Generation) ∈
      store.view row.identity := mem_view.mpr ⟨member, rfl, rfl⟩
  obtain ⟨g', member', extended⟩ := views row.identity _ viewed
  obtain ⟨listed, owned, bytes⟩ := mem_view.mp member'
  have kept := extended.bytes
  rw [bytes, extended.generation] at kept
  exact ⟨g'.row, listed, owned, extended.generation, extended.highWater, kept⟩

theorem apply_extends {store : Store} (wellFormed : store.WellFormed) (op : Op) (id : Identity) :
    AiConfig.Sesh.Extends (store.view id) ((store.apply op).view id) := by
  cases op with
  | put req outcomes =>
    obtain ⟨step, others⟩ := put_step wellFormed req outcomes
    by_cases same : id = req.identity
    · subst same
      exact step.extends (wellFormed _)
    · simp only [Store.apply, others id same]
      exact .refl _
  | injectMirrorErrorOnce | restart => exact .refl _

theorem run_extends {store : Store} (wellFormed : store.WellFormed) (ops : List Op)
    (id : Identity) :
    AiConfig.Sesh.Extends (store.view id) ((store.run ops).view id) :=
  run_keeps (fun store store' => AiConfig.Sesh.Extends (store.view id) (store'.view id))
    (fun store => .refl (store.view id)) Extends.trans
      (fun _ op wellFormed => apply_extends wellFormed op id) wellFormed ops

/-- The mirror holds exactly the acknowledged body, and the ACK's high-water covers it. -/
def PutResult.Meant (res : PutResult) (req : PutRequest) (store : Store) : Prop :=
  ∃ ack, res.ack = some ack ∧ ack.identity = req.identity ∧
    ((store.mirrored ack.identity ack.generation).drop req.offset).take req.body.length = req.body ∧
    req.offset + req.body.length ≤ ack.highWater

theorem put_success_meant {store : Store} (wellFormed : store.WellFormed) {req : PutRequest}
    {outcomes : List Outcome} (success : (store.put req outcomes).1.code = none) :
    (store.put req outcomes).1.Meant req (store.put req outcomes).2 := by
  have step := (put_step wellFormed req outcomes).1
  generalize (store.put req outcomes).1 = res at step success ⊢
  generalize viewed : (store.put req outcomes).2.view req.identity = gens' at step
  cases step with
  | unselected | conflict => cases success
  | @routed gens₁ _ g _ routed handled =>
    have sound := routed.sound (wellFormed req.identity)
    have member := routed.mem
    cases handled with
    | success event clean reached agrees =>
      have holds := settled_holds_body (sound.covered g member) reached agrees
      have inView : settled g (excess req g) req.now ∈
          (store.put req outcomes).2.view req.identity := by
        rw [viewed]
        exact mem_replaceWith member
      have bytes := view_bytes inView
      have owner : (settled g (excess req g) req.now).row.identity = req.identity :=
        view_owned inView
      refine ⟨_, rfl, owner, ?_, ?_⟩
      · simp only [FileState.ack, owner, bytes]
        exact holds
      · simp only [FileState.ack, settled_highWater, excess_length]
        simp only [overlapLength]
        omega
    | poisoned | gap | byteConflict | poisons | opened | failed => cases success

/-- In every run from an empty store: rows, high-waters and covered bytes are kept by
    whatever follows, and a successful call has its body in the mirror. -/
theorem durable_mirror (before : List Op) :
    (∀ after, (Store.empty.run before).Extends (Store.empty.run (before ++ after))) ∧
      (∀ row ∈ (Store.empty.run before).files,
        row.highWater ≤ ((Store.empty.run before).mirrored row.identity row.generation).length) ∧
      ∀ req outcomes, ((Store.empty.run before).put req outcomes).1.code = none →
        ((Store.empty.run before).put req outcomes).1.Meant req
          ((Store.empty.run before).put req outcomes).2 := by
  have wellFormed := run_wellFormed Store.empty_wellFormed before
  refine ⟨fun after => ?_, fun row member => ?_, fun req outcomes => put_success_meant wellFormed⟩
  · rw [Store.run_append]
    exact store_extends fun id => run_extends wellFormed after id
  · have viewed :
      (⟨row, (Store.empty.run before).mirrored row.identity row.generation⟩ : Generation) ∈
        (Store.empty.run before).view row.identity := mem_view.mpr ⟨member, rfl, rfl⟩
    exact (wellFormed row.identity).covered _ viewed

/-! ## A sample client -/

def sampleIdentity : Identity :=
  ⟨.claude, ⟨"00000000-0000-4000-8000-000000000001", by decide +kernel⟩,
    ⟨"00000000-0000-4000-8000-000000000002", by decide +kernel⟩⟩

def samplePut (fp : Option String) (offset : Nat) (body : Bytes) : PutRequest :=
  ⟨sampleIdentity, fp, offset, body, "host", "user", "", "", "", "2026-01-01T00:00:00Z"⟩

/-- The answer codes of a run of PUTs under calm storage. -/
def Store.codes : Store → List PutRequest → List (Option ErrorCode)
  | _, [] => []
  | store, req :: reqs => (store.put req []).1.code :: Store.codes (store.put req []).2 reqs

def calls (reqs : List PutRequest) : List Op := reqs.map fun req => .put req []

end AiConfig.Sesh
