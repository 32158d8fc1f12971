import AiConfig.Sesh.Store.Runs

/-! # Conflict escalation is bounded

Escalation is counted per recorded fingerprint, null included: a fingerprint is
spent once a conflict-driven generation is recorded under it (`Spent`), and a
repeated divergence under a spent fingerprint poisons.  A fingerprint stays spent
unless an append re-records a conflict-driven generation (`Rerecords`). -/

namespace AiConfig.Sesh

open AiConfig.Lib AiConfig.Lib.Fallible AiConfig.Sesh.Wire

/-- No further generation can be opened under `fp`: one was already, or, for null, no
    request reaches a blank generation any more. -/
def Spent (fp : Option String) (gens : List Generation) : Prop :=
  (∃ h ∈ gens, h.row.conflictDriven = true ∧ h.row.fingerprint = fp) ∨
    (fp = none ∧ ∃ last, gens.getLast? = some last ∧ last.row.fingerprint ≠ none)

/-- The append replaces the fingerprint of a conflict-driven generation by another digest. -/
def Rerecords (req : PutRequest) (gens : List Generation) : Prop :=
  ∃ g ∈ route req gens, g.row.conflictDriven = true ∧ Rehashes req g ∧
    ∃ fp ∈ g.row.fingerprint, digestAfter req g ≠ fp

instance (req : PutRequest) (gens : List Generation) : Decidable (Rerecords req gens) :=
  inferInstanceAs (Decidable (∃ g ∈ route req gens, _))

section

variable {quiet : Prop} {req : PutRequest} {gens gens' gens₁ : List Generation} {g g' : Generation}
  {res : PutResult} {id : Identity} {fp : Option String}

theorem Spent.known (spent : Spent fp gens) : gens ≠ [] := by
  rintro rfl
  rcases spent with ⟨_, member, _⟩ | ⟨_, _, last, _⟩
  · cases member
  · cases last

theorem Spent.map (spent : Spent fp gens) {change : Generation → Generation}
    (driven : ∀ h ∈ gens, (change h).row.conflictDriven = h.row.conflictDriven)
    (named : ∀ h ∈ gens, h.row.fingerprint ≠ none → (change h).row.fingerprint ≠ none)
    (kept : ∀ h ∈ gens, h.row.conflictDriven = true → h.row.fingerprint = fp →
      (change h).row.fingerprint = fp ∨ (fp = none ∧ gens.getLast? = some h)) :
    Spent fp (gens.map change) := by
  rcases spent with ⟨h, member, hDriven, claimed⟩ | ⟨null, last, isLast, claimed⟩
  · rcases kept h member hDriven claimed with same | ⟨null, isLast⟩
    · exact Or.inl ⟨change h, List.mem_map_of_mem member, (driven h member).trans hDriven, same⟩
    · by_cases blank : (change h).row.fingerprint = none
      · exact Or.inl ⟨change h, List.mem_map_of_mem member, (driven h member).trans hDriven,
          blank.trans null.symm⟩
      · exact Or.inr ⟨null, change h, by simp [isLast], blank⟩
  · exact Or.inr ⟨null, change last, by simp [isLast],
      named last (List.mem_of_getLast? isLast) claimed⟩

theorem Spent.snoc (spent : Spent fp gens) {fresh : Generation}
    (driven : fresh.row.fingerprint = none → fresh.row.conflictDriven = true) :
    Spent fp (gens ++ [fresh]) := by
  rcases spent with ⟨h, member, rest⟩ | ⟨null, _⟩
  · exact Or.inl ⟨h, List.mem_append_left _ member, rest⟩
  · by_cases blank : fresh.row.fingerprint = none
    · exact Or.inl ⟨fresh, by simp, driven blank, blank.trans null.symm⟩
    · exact Or.inr ⟨null, fresh, by simp, blank⟩

theorem Spent.replaced (spent : Spent fp gens) (sound : Sound id gens) (member : g ∈ gens)
    (driven : g'.row.conflictDriven = g.row.conflictDriven)
    (named : g.row.fingerprint ≠ none → g'.row.fingerprint ≠ none)
    (kept : g.row.conflictDriven = true → g.row.fingerprint = fp →
      g'.row.fingerprint = fp ∨ (fp = none ∧ gens.getLast? = some g)) :
    Spent fp (replaceWith g g' gens) := by
  have same : ∀ h ∈ gens, h.row.generation = g.row.generation → h = g :=
    fun h hMember numbered => sound.unique hMember member numbered
  refine spent.map (fun h hMember => ?_) (fun h hMember => ?_) fun h hMember => ?_
  · split
    · rw [same h hMember ‹_›, driven]
    · rfl
  · split
    · rw [same h hMember ‹_›]
      exact named
    · exact fun claimed => claimed
  · split
    · rw [same h hMember ‹_›]
      exact kept
    · exact fun _ claimed => Or.inl claimed

theorem Spent.routed (spent : Spent fp gens) (sound : Sound id gens)
    (routed : Routed req gens gens₁ g) :
    Spent fp gens₁ := by
  cases routed with
  | first _ unknown => exact absurd unknown spent.known
  | matched | active => exact spent
  | @adopted other active _ _ last blank =>
    have member := List.mem_of_getLast? last
    have adopted : Spent fp (replaceWith active (recordFingerprint other active) gens) :=
      spent.replaced sound member rfl (fun _ => by simp [recordFingerprint])
        fun _ claimed => Or.inr ⟨claimed.symm.trans blank, last⟩
    rwa [replaceWith, adjust_congr fun h hMember numbered => by
      rw [← sound.unique hMember member numbered]] at adopted

/-- Only the active generation is evaluated without a fingerprint. -/
theorem Routed.blank_last (routed : Routed req gens gens₁ g) (blank : g.row.fingerprint = none) :
    gens₁.getLast? = some g := by
  cases routed with
  | first => rfl
  | matched _ found => exact absurd ((newest_mem found).2.symm.trans blank) (by simp)
  | adopted => cases blank
  | active _ last => exact last

theorem refreshed_ne_none {highWater : Nat} {bytes : Bytes} {fp : Option String}
    (claimed : fp ≠ none) :
    refreshed highWater bytes fp ≠ none := by
  unfold refreshed
  split
  · exact claimed
  · simp

/-- Re-recording the fingerprint of the routed generation leaves `fp` spent. -/
theorem Spent.refreshed_kept (spent : Spent fp gens) (routed : Routed req gens gens₁ g)
    (kept : ¬ Rerecords req gens) (clean : g.row.poisoned = false)
    (reached : req.offset ≤ g.row.highWater)
    (agrees : Agrees req g) (more : excess req g ≠ []) (driven : g.row.conflictDriven = true)
    (claimed : g.row.fingerprint = fp) :
    refreshed (g.row.highWater + (excess req g).length)
        (writeAt g.bytes g.row.highWater (excess req g)) g.row.fingerprint = fp ∨
      (fp = none ∧ gens₁.getLast? = some g) := by
  rcases refreshed_eq clean reached agrees more with same | ⟨rehashes, digest⟩
  · exact Or.inl (same.trans claimed)
  cases fp with
  | none => exact Or.inr ⟨rfl, routed.blank_last claimed⟩
  | some named =>
    rw [digest]
    refine Or.inl (congrArg some (Decidable.byContradiction fun other => ?_))
    rcases routed.route_eq with ⟨unknown, _⟩ | ⟨g₀, member, found, rfl⟩
    · exact spent.known unknown
    have recordedAs : g₀.row.fingerprint = some named := by
      cases old : g₀.row.fingerprint with
      | some _ => simpa [claimedBy, old] using claimed
      | none =>
        have carried : req.fingerprint = some named := by simpa [claimedBy, old] using claimed
        rcases spent with ⟨h, hMember, _, hClaimed⟩ | ⟨null, _⟩
        · unfold route at found
          rw [carried] at found
          cases matched : newest gens named with
          | none => exact absurd hClaimed (newest_none matched hMember)
          | some p =>
            simp only [matched, Option.some.injEq] at found
            rw [← found, (newest_mem matched).2] at old
            cases old
        · cases null
    exact kept ⟨g₀, found, driven, rehashes, named, recordedAs, other⟩

theorem Spent.step (spent : Spent fp gens) (sound : Sound req.identity gens)
    (kept : ¬ Rerecords req gens)
    (step : PutStep quiet req gens res gens') : Spent fp gens' := by
  cases step with
  | unselected => exact spent
  | conflict => exact spent.snoc fun blank => by cases blank
  | @routed gens₁ _ g _ routed handled =>
    have member := routed.mem
    have soundRouted := routed.sound sound
    have spentRouted := spent.routed sound routed
    have same : ∀ g' : Generation, g'.row.conflictDriven = g.row.conflictDriven →
        g'.row.fingerprint = g.row.fingerprint → Spent fp (replaceWith g g' gens₁) := by
      intro g' driven claimed
      exact spentRouted.replaced soundRouted member driven (fun some_ => by rwa [claimed])
        fun _ holds => Or.inl (claimed.trans holds)
    have settledSpent : g.row.poisoned = false → req.offset ≤ g.row.highWater → Agrees req g →
        Spent fp (replaceWith g (settled g (excess req g) req.now) gens₁) := by
      intro clean reached agrees
      by_cases nothing : excess req g = []
      · exact same _ (settled_conflictDriven ..) (by rw [settled_fingerprint, if_pos nothing])
      · refine spentRouted.replaced soundRouted member (settled_conflictDriven ..) ?_ ?_ <;>
          rw [settled_fingerprint, if_neg nothing]
        · exact refreshed_ne_none
        · exact spent.refreshed_kept routed kept clean reached agrees nothing
    cases handled with
    | poisoned | gap => exact spentRouted
    | byteConflict => exact same (pend true g) rfl rfl
    | poisons =>
      exact spentRouted.map (fun h _ => marked_conflictDriven ..)
        (fun h _ claimed => by simpa using claimed)
        fun h _ _ claimed => Or.inl (by simpa using claimed)
    | opened => exact (same (pend false g) rfl rfl).snoc fun _ => rfl
    | success _ clean reached agrees => exact settledSpent clean reached agrees
    | failed _ _ _ clean reached interrupted =>
      cases interrupted with
      | untouched => exact spentRouted
      | unpended => exact same (pend false g) rfl rfl
      | torn _ count => exact same (written g ((excess req g).take count)) rfl rfl
      | unrecorded agrees more =>
        exact spentRouted.replaced soundRouted member rfl refreshed_ne_none
          (spent.refreshed_kept routed kept clean reached agrees more)
      | unacknowledged agrees => exact settledSpent clean reached agrees

theorem spent_of_opened (step : PutStep quiet req gens res gens')
    (answer : res.code = some .generationOpened) :
    ∃ ack, res.ack = some ack ∧ Spent ack.fingerprint gens' := by
  cases step with
  | unselected | conflict => cases answer
  | routed routed handled =>
    cases handled with
    | opened left =>
      exact ⟨_, rfl, Or.inl ⟨_, List.mem_append_right _ (List.mem_singleton_self _), rfl, rfl⟩⟩
    | failed target failure =>
      have code : some (classifyStoreError failure) = some ErrorCode.generationOpened := answer
      cases failure <;> cases code
    | poisoned | gap | byteConflict | poisons | success => cases answer

/-- Under a spent fingerprint no generation is opened. -/
theorem Spent.unopened (spent : Spent g.row.fingerprint gens) (sound : Sound req.identity gens)
    (routed : Routed req gens gens₁ g)
    (undriven : ∀ other ∈ gens₁, other.row.conflictDriven = true →
      other.row.fingerprint ≠ g.row.fingerprint) : False := by
  rcases spent.routed sound routed with ⟨h, member, driven, same⟩ | ⟨blank, last, isLast, claimed⟩
  · exact undriven h member driven same
  · rw [routed.blank_last blank] at isLast
    cases isLast
    exact claimed blank

theorem Spent.never_reopened (spent : Spent fp gens) (sound : Sound req.identity gens)
    (step : PutStep quiet req gens res gens') :
    ¬ (res.code = some .generationOpened ∧ ∃ ack, res.ack = some ack ∧ ack.fingerprint = fp) := by
  rintro ⟨answer, ack, acknowledged, recordedAs⟩
  cases step with
  | unselected | conflict => cases answer
  | routed routed handled =>
    cases handled with
    | opened _ _ _ _ _ undriven =>
      cases acknowledged
      subst recordedAs
      exact spent.unopened sound routed undriven
    | failed target failure =>
      have code : some (classifyStoreError failure) = some ErrorCode.generationOpened := answer
      cases failure <;> cases code
    | poisoned | gap | byteConflict | poisons | success => cases answer

/-- The call reaches `g` and its body differs from what `g` has mirrored. -/
structure Diverges (req : PutRequest) (gens : List Generation) (g : Generation) : Prop where
  routes : route req gens = some g
  inside : req.offset < g.row.highWater
  differs : ¬ Agrees req g

theorem Diverges.routed_to (diverges : Diverges req gens g) (sound : Sound id gens)
    (routed : Routed req gens gens₁ g') :
    g' = claimedBy req g ∧ gens₁ = adjust g.row.generation (claimedBy req) gens := by
  have known : gens ≠ [] := by
    rintro rfl
    have routes := diverges.routes
    unfold route at routes
    split at routes <;> simp [newest] at routes
  obtain ⟨g₀, _, found, evaluated, view⟩ := routed.view_eq sound known
  rw [diverges.routes] at found
  cases found
  exact ⟨evaluated, view⟩

theorem Diverges.unrouted (diverges : Diverges req gens g) {claim : String}
    (carried : req.fingerprint = some claim) (unmatched : newest gens claim = none)
    {active : Generation}
    (last : gens.getLast? = some active) : active.row.fingerprint = none := by
  have routes := diverges.routes
  simp only [route, carried, unmatched, last, Option.filter_some] at routes
  split at routes
  · simpa using ‹active.row.fingerprint.isNone = true›
  · cases routes

/-- A repeated divergence under a spent fingerprint is answered `poisoned_file`. -/
theorem Spent.repeated_poisons (spent : Spent fp gens) (sound : Sound req.identity gens)
    (step : PutStep quiet req gens res gens') (calm : quiet) (diverges : Diverges req gens g)
    (recordedAs : (claimedBy req g).row.fingerprint = fp) (pending : g.row.conflictPending = true) :
    res.code = some .poisonedFile := by
  cases step with
  | unselected _ loud => exact absurd calm loud
  | conflict _ carried unmatched last claimed =>
    exact absurd (diverges.unrouted carried unmatched last) claimed
  | routed routed handled =>
    obtain ⟨rfl, _⟩ := diverges.routed_to sound routed
    cases handled with
    | poisoned | poisons => rfl
    | gap _ beyond => exact absurd beyond (Nat.not_lt_of_lt diverges.inside)
    | byteConflict _ _ _ first => exact absurd (pending.symm.trans first) (by simp)
    | opened _ _ _ _ _ undriven =>
      subst recordedAs
      exact (spent.unopened sound routed undriven).elim
    | success _ _ _ agrees => exact absurd agrees diverges.differs
    | failed _ _ loud => exact absurd calm loud

/-- A first divergence only sets `conflict_pending`, and routing may have adopted the claim. -/
theorem Diverges.first_answer (diverges : Diverges req gens g) (sound : Sound req.identity gens)
    (step : PutStep quiet req gens res gens') (calm : quiet) (clean : g.row.poisoned = false)
    (first : g.row.conflictPending = false) :
    res.code = some .byteConflict ∧
      gens' = adjust g.row.generation (fun h => pend true (claimedBy req h)) gens := by
  cases step with
  | unselected _ loud => exact absurd calm loud
  | conflict _ carried unmatched last claimed =>
    exact absurd (diverges.unrouted carried unmatched last) claimed
  | @routed _ _ _ _ routed handled =>
    obtain ⟨rfl, rfl⟩ := diverges.routed_to sound routed
    cases handled with
    | poisoned marked => exact absurd (clean.symm.trans marked) (by simp)
    | gap _ beyond => exact absurd beyond (Nat.not_lt_of_lt diverges.inside)
    | byteConflict =>
      refine ⟨rfl, ?_⟩
      have member : g ∈ gens := by
        rcases routed.route_eq with ⟨rfl, _⟩ | ⟨g₀, member, found, _⟩
        · exact absurd routed.mem (by simp [adjust])
        · rw [diverges.routes] at found
          cases found
          exact member
      calc replaceWith (claimedBy req g) (pend true (claimedBy req g))
            (adjust g.row.generation (claimedBy req) gens)
          = adjust g.row.generation (fun _ => pend true (claimedBy req g)) gens :=
            adjust_adjust fun _ _ numbered => numbered
        _ = _ := adjust_congr fun h hMember numbered => by rw [sound.unique hMember member numbered]
    | poisons _ _ _ again | opened _ _ _ _ again =>
      exact absurd (first.symm.trans again) (by simp)
    | success _ _ _ agrees => exact absurd agrees diverges.differs
    | failed _ _ loud => exact absurd calm loud

end

/-- In every run: a first divergence is answered `byte_conflict` and changes no bytes and no
    high-water, only the flag and, at a blank generation, the adopted claim; and after
    a generation was opened under a recorded fingerprint, no second one is, and a repeated
    divergence under it is answered `poisoned_file`. -/
theorem conflict_escalation_bounded (before : List Op) (req : PutRequest)
    (outcomes : List Outcome) :
    let store := Store.empty.run before
    let gens := store.view req.identity
    let res := (store.put req outcomes).1
    let after := (store.put req outcomes).2
    (∀ g, Diverges req gens g → g.row.poisoned = false → g.row.conflictPending = false →
      Calm outcomes → store.failAppendOnce = false →
      res.code = some .byteConflict ∧
        (after.view req.identity).map Generation.mirrors = gens.map Generation.mirrors ∧
        after.view req.identity = adjust g.row.generation
          (fun h => pend true (claimedBy req h)) gens) ∧
    (res.code = some .generationOpened → ∃ ack, res.ack = some ack ∧
      ∀ between (req' : PutRequest) outcomes', req'.identity = req.identity →
        after.Along req.identity (fun req gens => ¬ Rerecords req gens) between →
        let later := after.run between
        let res' := (later.put req' outcomes').1
        ¬ (res'.code = some .generationOpened ∧
            ∃ ack', res'.ack = some ack' ∧ ack'.fingerprint = ack.fingerprint) ∧
          ∀ g, Diverges req' (later.view req.identity) g → g.row.conflictPending = true →
            (claimedBy req' g).row.fingerprint = ack.fingerprint →
            Calm outcomes' → later.failAppendOnce = false → res'.code = some .poisonedFile) := by
  intro store gens res after
  have wellFormed : store.WellFormed := run_wellFormed Store.empty_wellFormed before
  have step := (put_step wellFormed req outcomes).1
  constructor
  · intro g diverges clean first calm uninjected
    obtain ⟨answer, view⟩ :=
      diverges.first_answer (wellFormed _) step ⟨calm, uninjected⟩ clean first
    exact ⟨answer, (congrArg _ view).trans (adjust_mirrors gens fun _ => rfl), view⟩
  · intro opened
    obtain ⟨ack, acknowledged, spent⟩ := spent_of_opened step opened
    refine ⟨ack, acknowledged, fun between req' outcomes' own kept => ?_⟩
    have afterFormed : after.WellFormed := put_wellFormed wellFormed req outcomes
    have laterFormed := run_wellFormed afterFormed between
    have still : Spent ack.fingerprint ((after.run between).view req.identity) :=
      along_keeps (Spent ack.fingerprint)
        (fun quiet req gens res gens' _ sound kept step spent => spent.step sound kept step)
        afterFormed kept spent
    have step' := (put_step laterFormed req' outcomes').1
    rw [own] at step'
    have sound : Sound req'.identity ((after.run between).view req.identity) := by
      rw [own]
      exact laterFormed req.identity
    constructor
    · exact still.never_reopened sound step'
    · intro g diverges pending recordedAs calm uninjected
      exact still.repeated_poisons sound step' ⟨calm, uninjected⟩ diverges recordedAs pending

def fingerprintA : String := "aaaaaaaaaaaaaaaaaaaaaaaaaaaaaaaaaaaaaaaaaaaaaaaaaaaaaaaaaaaaaaaa"

def fingerprintB : String := "bbbbbbbbbbbbbbbbbbbbbbbbbbbbbbbbbbbbbbbbbbbbbbbbbbbbbbbbbbbbbbbb"

/-- Requests without fingerprint follow the active generation, so two recorded
    fingerprints open two generations for them; and a first divergence against a blank
    generation records the claim. -/
theorem null_requests_open_twice :
    Store.empty.codes [samplePut fingerprintA 0 [1], samplePut none 0 [2], samplePut none 0 [2],
        samplePut fingerprintB 0 [1], samplePut fingerprintB 0 [1], samplePut none 0 [2],
        samplePut none 0 [2]] =
      [none, some .byteConflict, some .generationOpened, some .fingerprintConflict, none,
        some .byteConflict, some .generationOpened] ∧
    Store.empty.codes [samplePut none 0 [1], samplePut fingerprintA 0 [2]] =
      [none, some .byteConflict] ∧
    ((Store.empty.run (calls [samplePut none 0 [1]])).view sampleIdentity).map (·.row.fingerprint) =
    [none] ∧
    ((Store.empty.run (calls [samplePut none 0 [1], samplePut fingerprintA 0 [2]])).view
      sampleIdentity).map (·.row.fingerprint) = [some fingerprintA] := by
  decide +kernel

/-- One claim, two bodies: the second of them opens a generation, and then diverges from it. -/
def openingCalls : List PutRequest := [samplePut fingerprintA 0 [1], samplePut fingerprintA 0 [2]]

theorem conflict_escalation_bounded_sample :
    ∃ ack, ((Store.empty.run (calls openingCalls)).put (samplePut fingerprintA 0 [2]) []).1.ack =
      some ack ∧
      ¬ (((((Store.empty.run (calls openingCalls)).put (samplePut fingerprintA 0 [2]) []).2.run
          (calls openingCalls)).put (samplePut fingerprintA 0 [2]) []).1.code =
          some .generationOpened ∧
        ∃ ack',
          ((((Store.empty.run (calls openingCalls)).put (samplePut fingerprintA 0 [2]) []).2.run
          (calls openingCalls)).put (samplePut fingerprintA 0 [2]) []).1.ack = some ack' ∧
          ack'.fingerprint = ack.fingerprint) := by
  obtain ⟨ack, acknowledged, bounded⟩ :=
    (conflict_escalation_bounded (calls openingCalls) (samplePut fingerprintA 0 [2]) []).2
      (by decide +kernel)
  refine ⟨ack, acknowledged,
    (bounded (calls openingCalls) (samplePut fingerprintA 0 [2]) [] rfl ?_).1⟩
  simp only [calls, openingCalls, List.map, Store.Along, and_true]
  refine ⟨?_, ?_⟩ <;> rintro req outcomes same _ <;> cases same <;> decide +kernel

end AiConfig.Sesh
