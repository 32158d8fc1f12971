import AiConfig.Sesh.Store.Runs

/-! # Poison is terminal

A fingerprint is poisoned while the newest generation recorded under it is
poisoned (`Masked`).  No call undoes that, except an append whose mirrored bytes
hash to the poisoned fingerprint and whose generation is newer (`Unmasks`):
`updateFingerprintFromMirror` then records the fingerprint for an unpoisoned
generation, and routing finds that one first. -/

namespace AiConfig.Sesh

open AiConfig.Lib AiConfig.Lib.Fallible AiConfig.Sesh.Wire

/-- `p` is the newest generation recorded under `fp`, and it is poisoned. -/
structure Masked (fp : String) (gens : List Generation) (p : Generation) : Prop where
  member : p ∈ gens
  claimed : p.row.fingerprint = some fp
  poisoned : p.row.poisoned = true
  newest : ∀ q ∈ gens, q.row.fingerprint = some fp → q.row.generation ≤ p.row.generation

/-- The call appends to a generation newer than the poisoned one that holds the digest
    of its bytes. -/
def Unmasks (req : PutRequest) (gens : List Generation) : Prop :=
  ∃ g ∈ route req gens, Rehashes req g ∧
    ∃ p ∈ newest gens (digestAfter req g), p.row.poisoned = true ∧
      p.row.generation < g.row.generation

instance (req : PutRequest) (gens : List Generation) : Decidable (Unmasks req gens) :=
  inferInstanceAs (Decidable (∃ g ∈ route req gens, _))

section

variable {quiet : Prop} {req : PutRequest} {gens gens' gens₁ : List Generation}
  {g g' p : Generation}
  {res : PutResult} {id : Identity} {fp : String}

theorem Masked.newest_eq (masked : Masked fp gens p) (sound : Sound id gens) :
    AiConfig.Sesh.newest gens fp = some p :=
  (newest_eq_some sound).mpr ⟨masked.member, masked.claimed, masked.newest⟩

theorem Masked.routed (masked : Masked fp gens p) (sound : Sound id gens)
    (routed : Routed req gens gens₁ g) : Masked fp gens₁ p := by
  cases routed with
  | first _ unknown =>
    subst unknown
    cases masked.member
  | matched | active => exact masked
  | @adopted other active claim unmatched last blank =>
    have apart : p.row.generation ≠ active.row.generation := by
      intro same
      have equal := sound.unique masked.member (List.mem_of_getLast? last) same
      rw [← equal, masked.claimed] at blank
      cases blank
    refine ⟨mem_adjust.mpr ⟨p, masked.member, Or.inr ⟨apart, rfl⟩⟩, masked.claimed, masked.poisoned,
      ?_⟩
    intro q qMember qClaimed
    obtain ⟨old, oldMember, ⟨_, rfl⟩ | ⟨_, rfl⟩⟩ := mem_adjust.mp qMember
    · have same : other = fp := by simpa [recordFingerprint] using qClaimed
      exact absurd masked.claimed (same ▸ newest_none unmatched masked.member)
    · exact masked.newest q oldMember qClaimed

/-- An unpoisoned generation is not the one a poisoned fingerprint routes to. -/
theorem Masked.apart (masked : Masked fp gens p) (sound : Sound id gens)
    (routed : Routed req gens gens₁ g) (clean : g.row.poisoned = false) :
    g.row.fingerprint ≠ some fp := by
  intro claimed
  have top : g ∈ gens → p.row.generation ≤ g.row.generation → False := by
    intro member above
    have same := Nat.le_antisymm (masked.newest g member claimed) above
    rw [sound.unique member masked.member same, masked.poisoned] at clean
    cases clean
  cases routed with
  | first _ unknown =>
    subst unknown
    cases masked.member
  | @matched other _ _ found =>
    obtain ⟨member, recordedAs, highest⟩ := (newest_eq_some sound).mp found
    rw [claimed] at recordedAs
    cases recordedAs
    exact top member (highest p masked.member masked.claimed)
  | @adopted other active _ unmatched _ _ =>
    have same : other = fp := by simpa [recordFingerprint] using claimed
    exact newest_none unmatched masked.member (same ▸ masked.claimed)
  | active _ last =>
    exact top (List.mem_of_getLast? last) (sound.le_last last masked.member)

theorem Masked.replaced (masked : Masked fp gens p) (sound : Sound id gens) (member : g ∈ gens)
    (clean : g.row.poisoned = false) (numbered : g'.row.generation = g.row.generation)
    (below : g'.row.fingerprint = some fp → g.row.generation ≤ p.row.generation) :
    Masked fp (replaceWith g g' gens) p := by
  have apart : p.row.generation ≠ g.row.generation := by
    intro same
    rw [← sound.unique masked.member member same, masked.poisoned] at clean
    cases clean
  refine ⟨mem_adjust.mpr ⟨p, masked.member, Or.inr ⟨apart, rfl⟩⟩, masked.claimed, masked.poisoned,
    ?_⟩
  intro q qMember qClaimed
  obtain ⟨old, oldMember, ⟨_, rfl⟩ | ⟨_, rfl⟩⟩ := mem_adjust.mp qMember
  · rw [numbered]
    exact below qClaimed
  · exact masked.newest q oldMember qClaimed

theorem Masked.snoc (masked : Masked fp gens p) {fresh : Generation}
    (other : fresh.row.fingerprint ≠ some fp) : Masked fp (gens ++ [fresh]) p := by
  refine ⟨List.mem_append_left _ masked.member, masked.claimed, masked.poisoned, ?_⟩
  intro q member claimed
  rcases List.mem_append.mp member with old | new
  · exact masked.newest q old claimed
  · rw [List.mem_singleton.mp new] at claimed
    exact absurd claimed other

/-- Re-recording the fingerprint of the routed generation leaves a poisoned one masked. -/
theorem Masked.refreshed_below (masked : Masked fp gens p) (sound : Sound id gens)
    (routed : Routed req gens gens₁ g) (kept : ¬ Unmasks req gens) (clean : g.row.poisoned = false)
    (reached : req.offset ≤ g.row.highWater) (agrees : Agrees req g) (more : excess req g ≠ [])
    (claimed : refreshed (g.row.highWater + (excess req g).length)
      (writeAt g.bytes g.row.highWater (excess req g)) g.row.fingerprint = some fp) :
    g.row.generation ≤ p.row.generation := by
  rcases refreshed_eq clean reached agrees more with same | ⟨rehashes, digest⟩
  · exact absurd (same ▸ claimed) (masked.apart sound routed clean)
  have named : digestAfter req g = fp := Option.some.inj (digest.symm.trans claimed)
  rcases routed.route_eq with ⟨unknown, _⟩ | ⟨g₀, _, found, rfl⟩
  · subst unknown
    cases masked.member
  by_contra above
  exact kept ⟨g₀, found, rehashes, p, named ▸ masked.newest_eq sound, masked.poisoned,
    Nat.lt_of_not_le above⟩

theorem Masked.step (masked : Masked fp gens p) (sound : Sound req.identity gens)
    (kept : ¬ Unmasks req gens) (step : PutStep quiet req gens res gens') : Masked fp gens' p := by
  cases step with
  | unselected => exact masked
  | @conflict _ other _ _ unmatched =>
    refine masked.snoc fun claimed => ?_
    -- A conflict opens a generation only for a fingerprint that none records.
    have same : other = fp := Option.some.inj claimed
    exact newest_none unmatched masked.member (same ▸ masked.claimed)
  | @routed gens₁ _ g _ routed handled =>
    have member := routed.mem
    have soundRouted := routed.sound sound
    have maskedRouted := masked.routed sound routed
    -- The answering generation does not record the poisoned fingerprint, or is below it.
    have below : ∀ g' : Generation, g.row.poisoned = false →
        g'.row.fingerprint = g.row.fingerprint → g'.row.fingerprint = some fp →
        g.row.generation ≤ p.row.generation := by
      intro g' clean same claimed
      rw [same] at claimed
      exact absurd claimed (masked.apart sound routed clean)
    have settledBelow : g.row.poisoned = false → req.offset ≤ g.row.highWater → Agrees req g →
        (settled g (excess req g) req.now).row.fingerprint = some fp →
        g.row.generation ≤ p.row.generation := by
      intro clean reached agrees claimed
      rw [settled_fingerprint] at claimed
      split at claimed
      · exact absurd claimed (masked.apart sound routed clean)
      · exact masked.refreshed_below sound routed kept clean reached agrees ‹_› claimed
    cases handled with
    | poisoned | gap => exact maskedRouted
    | byteConflict clean =>
      exact maskedRouted.replaced soundRouted member clean rfl (below (pend true g) clean rfl)
    | poisons clean =>
      refine ⟨List.mem_map.mpr ⟨p, maskedRouted.member, marked_poisoned _ p masked.poisoned⟩,
        masked.claimed, masked.poisoned, ?_⟩
      intro q qMember qClaimed
      obtain ⟨old, oldMember, rfl⟩ := List.mem_map.mp qMember
      rw [marked_fingerprint] at qClaimed
      rw [marked_generation]
      exact maskedRouted.newest old oldMember qClaimed
    | opened _ clean =>
      have other : g.row.fingerprint ≠ some fp := masked.apart sound routed clean
      have cleared : Masked fp (replaceWith g (pend false g) gens₁) p :=
        maskedRouted.replaced soundRouted member clean rfl (below (pend false g) clean rfl)
      exact cleared.snoc other
    | success _ clean reached agrees =>
      exact maskedRouted.replaced soundRouted member clean (settled_generation ..)
        (settledBelow clean reached agrees)
    | failed _ _ _ clean reached interrupted =>
      cases interrupted with
      | untouched => exact maskedRouted
      | unpended =>
        exact maskedRouted.replaced soundRouted member clean rfl (below (pend false g) clean rfl)
      | torn _ count =>
        exact maskedRouted.replaced soundRouted member clean rfl
          (below (written g ((excess req g).take count)) clean rfl)
      | unrecorded agrees more =>
        exact maskedRouted.replaced soundRouted member clean rfl
          (masked.refreshed_below sound routed kept clean reached agrees more)
      | unacknowledged agrees =>
        exact maskedRouted.replaced soundRouted member clean (settled_generation ..)
          (settledBelow clean reached agrees)

/-- A call that carries a fingerprint and is answered `poisoned_file` leaves it masked. -/
theorem masked_of_poisoned_answer (sound : Sound req.identity gens)
    (claim : req.fingerprint = some fp)
    (step : PutStep quiet req gens res gens') (answer : res.code = some .poisonedFile) :
    ∃ p, Masked fp gens' p := by
  cases step with
  | unselected | conflict => cases answer
  | @routed gens₁ _ g _ routed handled =>
    have soundRouted := routed.sound sound
    have claimed : g.row.fingerprint = some fp ∧
        ∀ q ∈ gens₁, q.row.fingerprint = some fp → q.row.generation ≤ g.row.generation := by
      cases routed with
      | first =>
        refine ⟨claim, fun q member _ => ?_⟩
        rw [List.mem_singleton.mp member]
      | @matched other _ carried found =>
        cases claim.symm.trans carried
        exact ⟨((newest_eq_some sound).mp found).2.1, ((newest_eq_some sound).mp found).2.2⟩
      | @adopted other active carried unmatched last blank =>
        cases claim.symm.trans carried
        refine ⟨rfl, fun q member qClaimed => ?_⟩
        obtain ⟨old, oldMember, ⟨_, rfl⟩ | ⟨_, rfl⟩⟩ := mem_adjust.mp member
        · have top : old.row.generation ≤ active.row.generation := sound.le_last last oldMember
          exact top
        · exact absurd qClaimed (newest_none unmatched oldMember)
      | active carried => cases claim.symm.trans carried
    cases handled with
    | poisoned poisoned => exact ⟨g, routed.mem, claimed.1, poisoned, claimed.2⟩
    | poisons =>
      refine ⟨marked g.row.fingerprint g, List.mem_map_of_mem routed.mem, ?_, ?_, ?_⟩
      · rw [marked_fingerprint, claimed.1]
      · simp [marked]
      · intro q member qClaimed
        obtain ⟨old, oldMember, rfl⟩ := List.mem_map.mp member
        rw [marked_fingerprint] at qClaimed
        rw [marked_generation, marked_generation]
        exact claimed.2 old oldMember qClaimed
    | failed target failure =>
      have code : some (classifyStoreError failure) = some ErrorCode.poisonedFile := answer
      cases failure <;> cases code
    | gap | byteConflict | opened | success => cases answer

/-! ## A poisoned generation stays poisoned -/

def PoisonedAt (n : Nat) (gens : List Generation) : Prop :=
  ∃ p ∈ gens, p.row.generation = n ∧ p.row.poisoned = true

theorem poisonedAt_adjust {n m : Nat} {change : Generation → Generation}
    (poisoned : PoisonedAt n gens)
    (keeps : ∀ p ∈ gens, p.row.generation = m → p.row.poisoned = true →
      (change p).row.generation = p.row.generation ∧ (change p).row.poisoned = true) :
    PoisonedAt n (adjust m change gens) := by
  obtain ⟨p, member, numbered, poisoned⟩ := poisoned
  by_cases here : p.row.generation = m
  · obtain ⟨kept, still⟩ := keeps p member here poisoned
    exact ⟨change p, mem_adjust.mpr ⟨p, member, Or.inl ⟨here, rfl⟩⟩, kept.trans numbered, still⟩
  · exact ⟨p, mem_adjust.mpr ⟨p, member, Or.inr ⟨here, rfl⟩⟩, numbered, poisoned⟩

theorem poisonedAt_replaceWith {n : Nat} (poisoned : PoisonedAt n gens) (sound : Sound id gens)
    (member : g ∈ gens) (clean : g.row.poisoned = false) :
    PoisonedAt n (replaceWith g g' gens) := by
  refine poisonedAt_adjust poisoned fun p pMember same pPoisoned => ?_
  rw [sound.unique pMember member same, clean] at pPoisoned
  cases pPoisoned

theorem poisonedAt_step {n : Nat} (poisoned : PoisonedAt n gens) (sound : Sound req.identity gens)
    (step : PutStep quiet req gens res gens') : PoisonedAt n gens' := by
  have longer : ∀ {gens : List Generation} (fresh : Generation), PoisonedAt n gens →
      PoisonedAt n (gens ++ [fresh]) :=
    fun _ ⟨p, member, rest⟩ => ⟨p, List.mem_append_left _ member, rest⟩
  cases step with
  | unselected => exact poisoned
  | conflict => exact longer _ poisoned
  | @routed gens₁ _ g _ routed handled =>
    have member := routed.mem
    have soundRouted := routed.sound sound
    have routedPoisoned : PoisonedAt n gens₁ := by
      cases routed with
      | first _ unknown =>
        subst unknown
        obtain ⟨_, member, _⟩ := poisoned
        cases member
      | matched | active => exact poisoned
      | adopted => exact poisonedAt_adjust poisoned fun _ _ _ still => ⟨rfl, still⟩
    cases handled with
    | poisoned | gap => exact routedPoisoned
    | byteConflict clean => exact poisonedAt_replaceWith routedPoisoned soundRouted member clean
    | poisons =>
      obtain ⟨p, pMember, numbered, still⟩ := routedPoisoned
      exact ⟨p, List.mem_map.mpr ⟨p, pMember, marked_poisoned _ p still⟩, numbered, still⟩
    | opened _ clean =>
      exact longer _ (poisonedAt_replaceWith routedPoisoned soundRouted member clean)
    | success _ clean => exact poisonedAt_replaceWith routedPoisoned soundRouted member clean
    | failed _ _ _ clean _ interrupted =>
      cases interrupted with
      | untouched => exact routedPoisoned
      | unpended | torn | unrecorded | unacknowledged =>
        exact poisonedAt_replaceWith routedPoisoned soundRouted member clean

/-- A `poisoned_file` answer names a generation the call leaves poisoned. -/
theorem poisonedAt_of_answer (step : PutStep quiet req gens res gens')
    (answer : res.code = some .poisonedFile) :
    ∃ ack, res.ack = some ack ∧ PoisonedAt ack.generation gens' := by
  cases step with
  | unselected | conflict => cases answer
  | @routed gens₁ _ g _ routed handled =>
    cases handled with
    | poisoned poisoned => exact ⟨_, rfl, g, routed.mem, rfl, poisoned⟩
    | poisons =>
      exact ⟨_, rfl, marked g.row.fingerprint g, List.mem_map_of_mem routed.mem,
        marked_generation ..,
        by simp [marked]⟩
    | failed target failure =>
      have code : some (classifyStoreError failure) = some ErrorCode.poisonedFile := answer
      cases failure <;> cases code
    | gap | byteConflict | opened | success => cases answer

/-! ## Poison is terminal -/

/-- The calls a poisoned generation `p` answers: they carry the poisoned fingerprint, or
    none while `p` is active. -/
def Aims (req : PutRequest) (gens : List Generation) (p : Generation) : Prop :=
  match req.fingerprint with
  | some fp => Masked fp gens p
  | none => gens.getLast? = some p ∧ p.row.poisoned = true

theorem aimed_step (sound : Sound req.identity gens) (aims : Aims req gens p)
    (step : PutStep quiet req gens res gens') :
    gens' = gens ∧ (quiet → res.code = some .poisonedFile) := by
  have routes : route req gens = some p ∧ claimedBy req p = p ∧ p.row.poisoned = true ∧
      ∀ fp, req.fingerprint = some fp → newest gens fp = some p := by
    unfold Aims at aims
    split at aims
    · rename_i fp claim
      have found := aims.newest_eq sound
      refine ⟨by simp [route, claim, found], claimedBy_self (by simp [aims.claimed]), aims.poisoned,
        ?_⟩
      intro other same
      cases claim.symm.trans same
      exact found
    · rename_i claim
      refine ⟨by simp [route, claim, aims.1], claimedBy_self (by simp [claim]), aims.2, ?_⟩
      intro other same
      cases claim.symm.trans same
  obtain ⟨found, same, poisoned, matches_⟩ := routes
  cases step with
  | unselected _ loud => exact ⟨rfl, fun quiet => absurd quiet loud⟩
  | conflict _ claim unmatched =>
    rw [matches_ _ claim] at unmatched
    cases unmatched
  | @routed gens₁ _ g _ routed handled =>
    have target : g = p := by
      rcases routed.route_eq with ⟨unknown, _⟩ | ⟨g₀, member, routesTo, evaluated⟩
      · subst unknown
        unfold route at found
        split at found <;> simp [newest] at found
      · rw [routesTo] at found
        cases found
        exact evaluated.trans same
    have view : gens₁ = gens := by
      cases routed with
      | first _ unknown =>
        subst unknown
        unfold route at found
        split at found <;> simp [newest] at found
      | matched | active => rfl
      | adopted claim unmatched =>
        rw [matches_ _ claim] at unmatched
        cases unmatched
    subst target view
    cases handled with
    | poisoned => exact ⟨rfl, fun _ => rfl⟩
    | gap clean | byteConflict clean | poisons clean | opened _ clean | success _ clean
    | failed _ _ _ clean =>
      rw [poisoned] at clean
      cases clean

end

/-- After a `poisoned_file` answer, and until some call unmasks the fingerprint, the same
    claim is refused and changes nothing; the same holds of a call without fingerprint
    while the poisoned generation is the active one. -/
theorem poison_terminal (before between : List Op) (req req' : PutRequest)
    (outcomes outcomes' : List Outcome)
    (poisoned : ((Store.empty.run before).put req outcomes).1.code = some .poisonedFile)
    (sameIdentity : req'.identity = req.identity) (sameClaim : req'.fingerprint = req.fingerprint)
    (kept : ((Store.empty.run before).put req outcomes).2.Along req.identity
      (fun req gens => ¬ Unmasks req gens) between)
    (routed : req.fingerprint = none → ∃ ack row,
      ((Store.empty.run before).put req outcomes).1.ack = some ack ∧
      (((Store.empty.run before).put req outcomes).2.run between).activeGeneration req.identity =
      some row ∧
      row.generation = ack.generation) :
    let store := ((Store.empty.run before).put req outcomes).2.run between
    (∀ id, (store.put req' outcomes').2.view id = store.view id) ∧
      (Calm outcomes' → store.failAppendOnce = false →
        (store.put req' outcomes').1.code = some .poisonedFile) := by
  intro store
  have wellFormed := run_wellFormed Store.empty_wellFormed before
  have poisonedFormed := put_wellFormed wellFormed req outcomes
  have laterFormed : store.WellFormed := run_wellFormed poisonedFormed between
  have step := (put_step wellFormed req outcomes).1
  obtain ⟨p, aims⟩ : ∃ p, Aims req' (store.view req'.identity) p := by
    rw [sameIdentity]
    unfold Aims
    rw [sameClaim]
    cases claim : req.fingerprint with
    | some fp =>
      -- With a claim: what is kept is that the newest generation recording it is poisoned.
      have masked := masked_of_poisoned_answer (wellFormed _) claim step poisoned
      exact along_keeps (fun gens => ∃ p, Masked fp gens p)
        (fun quiet req gens res gens' _ sound kept step ⟨p, masked⟩ =>
          ⟨p, masked.step sound kept step⟩) poisonedFormed kept masked
    | none =>
      -- Without one: that the generation which answered is poisoned and still the last.
      obtain ⟨ack, row, acknowledged, active, numbered⟩ := routed claim
      obtain ⟨ack', acknowledged', poisonedAt⟩ := poisonedAt_of_answer step poisoned
      cases acknowledged.symm.trans acknowledged'
      have still : PoisonedAt ack.generation (store.view req.identity) :=
        along_keeps (PoisonedAt ack.generation)
          (fun quiet req gens res gens' _ sound _ step holds => poisonedAt_step holds sound step)
          poisonedFormed kept poisonedAt
      have rows := generations_eq_view (laterFormed req.identity)
      change store.activeGeneration req.identity = some row at active
      rw [Store.activeGeneration, rows, List.getLast?_map] at active
      obtain ⟨g, last, rfl⟩ := Option.map_eq_some_iff.mp active
      obtain ⟨q, member, qNumbered, qPoisoned⟩ := still
      have same := (laterFormed req.identity).unique member (List.mem_of_getLast? last)
        (qNumbered.trans numbered.symm)
      exact ⟨g, last, same ▸ qPoisoned⟩
  obtain ⟨stepped, others⟩ := put_step laterFormed req' outcomes'
  obtain ⟨unchanged, answered⟩ := aimed_step (laterFormed _) aims stepped
  refine ⟨fun id => ?_, fun calm uninjected => answered ⟨calm, uninjected⟩⟩
  by_cases own : id = req'.identity
  · rw [own]
    exact unchanged
  · exact others id own

/-- A file of 1,024 zero bytes. -/
def zeros : Bytes := List.replicate 1024 0

def zerosFingerprint : String := "5f70bf18a086007016e948b04aed3b82103a36bea41755b6cddfaf10ace3c6ef"

def otherFingerprint : String := "0000000000000000000000000000000000000000000000000000000000000000"

/-- Two conflicting bodies under one claim, until the claim is poisoned. -/
def poisoningCalls : List PutRequest :=
  [samplePut zerosFingerprint 0 [1], samplePut zerosFingerprint 0 [2],
    samplePut zerosFingerprint 0 [2],
    samplePut zerosFingerprint 0 [1], samplePut zerosFingerprint 0 [2]]

/-- A client that claims another fingerprint for a file whose digest is the poisoned one. -/
def unmaskingCalls : List PutRequest :=
  [samplePut otherFingerprint 0 zeros, samplePut otherFingerprint 0 zeros]

theorem poisoned_fingerprint_acknowledged :
    ((Store.empty.run (calls poisoningCalls)).put (samplePut zerosFingerprint 0 [2]) []).1.code =
        some .poisonedFile ∧
      ((((Store.empty.run (calls poisoningCalls)).put (samplePut zerosFingerprint 0 [2]) []).2.run
        (calls unmaskingCalls)).put (samplePut zerosFingerprint 0 zeros) []).1.code = none := by
  decide +kernel

theorem poison_terminal_sample :
    let store :=
  ((Store.empty.run (calls poisoningCalls)).put (samplePut zerosFingerprint 0 [2]) []).2.run
      (calls [samplePut otherFingerprint 0 [3], samplePut none 0 [3]])
    (∀ id, (store.put (samplePut zerosFingerprint 0 [1]) []).2.view id = store.view id) ∧
      (Calm [] → store.failAppendOnce = false →
        (store.put (samplePut zerosFingerprint 0 [1]) []).1.code = some .poisonedFile) :=
  poison_terminal (calls poisoningCalls)
    (calls [samplePut otherFingerprint 0 [3], samplePut none 0 [3]])
    (samplePut zerosFingerprint 0 [2]) (samplePut zerosFingerprint 0 [1]) [] []
      (by decide +kernel) rfl rfl
    (by
      simp only [calls, List.map, Store.Along, and_true]
      refine ⟨?_, ?_⟩ <;> rintro req outcomes same _ <;> cases same <;> decide +kernel)
    (by intro none; cases none)

end AiConfig.Sesh
