import AiConfig.Sesh.Store.Refused

/-! # Fingerprint authority

The recorded fingerprint of a generation starts as a claim.  From the first
mirrored `fingerprintWindowBytes` on it is the digest of those bytes, at every
point where a call can stop; and a claim is answered on the newest generation that
records it. -/

namespace AiConfig.Sesh

open AiConfig.Lib AiConfig.Lib.Fallible AiConfig.Sesh.Wire

variable {quiet : Prop} {id : Identity} {req : PutRequest} {gens gens₁ gens' : List Generation}
  {g g' : Generation} {res : PutResult}

/-- Once the window is full, the recorded fingerprint is the digest of its bytes. -/
def Generation.Digested (g : Generation) : Prop :=
  fingerprintWindowBytes ≤ g.row.highWater →
    g.row.fingerprint = some (Sha256.sum256Hex (g.bytes.take fingerprintWindowBytes))

structure Authority (gens : List Generation) : Prop where
  numbered : gens.map (·.row.generation) = List.range gens.length
  digested : ∀ g ∈ gens, g.Digested

theorem digested_fresh (id : Identity) (n : Nat) (fp : Option String) (driven : Bool) (now : String)
    (left : Bytes) : Generation.Digested ⟨freshRow id n fp driven now, left⟩ :=
  fun full => absurd full (by decide : ¬ fingerprintWindowBytes ≤ 0)

/-- Bytes written at or above a full window leave the window as it was. -/
theorem Generation.Digested.written (digested : g.Digested)
    (covered : g.row.highWater ≤ g.bytes.length)
    (body : Bytes) : (written g body).Digested := by
  intro full
  have full' : fingerprintWindowBytes ≤ g.row.highWater := full
  have window : (writeAt g.bytes g.row.highWater body).take fingerprintWindowBytes =
      g.bytes.take fingerprintWindowBytes := by
    calc (writeAt g.bytes g.row.highWater body).take fingerprintWindowBytes
        = ((writeAt g.bytes g.row.highWater body).take g.row.highWater).take
            fingerprintWindowBytes := by
          rw [List.take_take, Nat.min_eq_left full']
      _ = g.bytes.take fingerprintWindowBytes := by
          rw [writeAt_take _ _ _ covered, List.take_take, Nat.min_eq_left full']
  change g.row.fingerprint = some (Sha256.sum256Hex
    ((writeAt g.bytes g.row.highWater body).take fingerprintWindowBytes))
  rw [window]
  exact digested full'

/-- The fingerprint is recorded before the high-water it belongs to. -/
theorem digested_refingerprinted (g : Generation) (body : Bytes) :
    (refingerprinted g body).Digested := by
  intro full
  have full' : fingerprintWindowBytes ≤ g.row.highWater := full
  exact if_neg (by omega)

theorem Generation.Digested.settled (digested : g.Digested) (body : Bytes) (now : String) :
    (settled g body now).Digested := by
  intro full
  rw [settled_highWater] at full
  rw [settled_fingerprint, settled_bytes]
  split
  · rename_i nothing
    simp only [nothing, List.length_nil, Nat.add_zero] at full
    exact digested full
  · exact if_neg (by omega)

theorem Authority.replaced (authority : Authority gens)
    (numbered : g'.row.generation = g.row.generation)
    (digested : g'.Digested) : Authority (replaceWith g g' gens) := by
  constructor
  · rw [replaceWith, adjust_numbers fun _ _ _ => numbered, adjust_length]
    exact authority.numbered
  · intro h member
    obtain ⟨old, oldMember, ⟨_, rfl⟩ | ⟨_, rfl⟩⟩ := mem_adjust.mp member
    · exact digested
    · exact authority.digested h oldMember

theorem Authority.length_eq (authority : Authority gens) {active : Generation}
    (last : gens.getLast? = some active) : active.row.generation + 1 = gens.length := by
  have numbers := congrArg List.getLast? authority.numbered
  rw [List.getLast?_map, last, List.getLast?_range] at numbers
  have known : gens ≠ [] := fun unknown => by simp [unknown] at last
  have positive := List.length_pos_iff.mpr known
  simp only [Option.map_some] at numbers
  split at numbers
  · omega
  · have := Option.some.inj numbers
    omega

theorem Authority.snoc (authority : Authority gens) {n : Nat} (next : n = gens.length)
    (id : Identity)
    (fp : Option String) (driven : Bool) (now : String) (left : Bytes) :
    Authority (gens ++ [⟨freshRow id n fp driven now, left⟩]) := by
  constructor
  · rw [List.map_append, authority.numbered, List.length_append, List.length_singleton,
      List.range_succ,
      ← next]
    rfl
  · intro h member
    rcases List.mem_append.mp member with old | new
    · exact authority.digested h old
    · rw [List.mem_singleton.mp new]
      exact digested_fresh _ _ _ _ _ _

theorem Authority.routed (authority : Authority gens) (sound : Sound req.identity gens)
    (routed : Routed req gens gens₁ g) : Authority gens₁ := by
  cases routed with
  | first left unknown =>
    subst unknown
    refine ⟨rfl, fun h member => ?_⟩
    rw [List.mem_singleton.mp member]
    exact digested_fresh _ _ _ _ _ _
  | matched | active => exact authority
  | @adopted fp active _ _ last blank =>
    have same : adjust active.row.generation (recordFingerprint fp) gens =
        replaceWith active (recordFingerprint fp active) gens := by
      refine adjust_congr fun h member numbered => ?_
      rw [sound.unique member (List.mem_of_getLast? last) numbered]
    rw [same]
    refine authority.replaced rfl fun full => ?_
    have recordedAs := authority.digested active (List.mem_of_getLast? last) full
    rw [blank] at recordedAs
    cases recordedAs

theorem Authority.interrupted (authority : Authority gens) (sound : Sound id gens)
    (member : g ∈ gens)
    (interrupted : Interrupted req gens g gens') : Authority gens' := by
  have digested := authority.digested g member
  have covered := sound.covered g member
  cases interrupted with
  | untouched => exact authority
  | unpended => exact authority.replaced rfl digested
  | torn _ count => exact authority.replaced rfl (digested.written covered _)
  | unrecorded => exact authority.replaced rfl (digested_refingerprinted g _)
  | unacknowledged => exact authority.replaced (settled_generation ..) (digested.settled _ _)

theorem Authority.handled (authority : Authority gens) (sound : Sound req.identity gens)
    (member : g ∈ gens) (handled : Handled quiet req gens g res gens') : Authority gens' := by
  have digested := authority.digested g member
  cases handled with
  | poisoned | gap => exact authority
  | byteConflict => exact authority.replaced rfl digested
  | poisons =>
    constructor
    · simpa [Function.comp_def] using authority.numbered
    · intro h hMember
      obtain ⟨old, oldMember, rfl⟩ := List.mem_map.mp hMember
      simpa [Generation.Digested] using authority.digested old oldMember
  | @opened left active _ _ _ _ _ last =>
    have cleared : Authority (replaceWith g (pend false g) gens) := authority.replaced rfl digested
    refine cleared.snoc ?_ _ _ _ _ _
    rw [replaceWith, adjust_length]
    exact authority.length_eq last
  | success => exact authority.replaced (settled_generation ..) (digested.settled _ _)
  | failed _ _ _ _ _ interrupted => exact authority.interrupted sound member interrupted

theorem Authority.step (authority : Authority gens) (sound : Sound req.identity gens)
    (step : PutStep quiet req gens res gens') : Authority gens' := by
  cases step with
  | unselected => exact authority
  | conflict _ _ _ last => exact authority.snoc (authority.length_eq last) _ _ _ _ _
  | routed routed handled =>
    exact (authority.routed sound routed).handled (routed.sound sound) routed.mem handled

theorem run_authority (ops : List Op) (id : Identity) :
    Authority ((Store.empty.run ops).view id) := by
  have meets : ∀ (store : Store) (ops : List Op), store.Along id (fun _ _ => True) ops := by
    intro store ops
    induction ops generalizing store with
    | nil => trivial
    | cons op ops inductionHypothesis => exact ⟨fun _ _ _ _ => trivial, inductionHypothesis _⟩
  refine along_keeps Authority (fun quiet req gens res gens' _ sound _ step holds =>
    holds.step sound step)
    Store.empty_wellFormed (meets _ ops) ⟨rfl, fun _ member => by cases member⟩

/-! ## Which generation answers a claim -/

/-- The highest-numbered generation that records `fp`. -/
def Highest (fp : String) (gens : List Generation) (g : Generation) : Prop :=
  g ∈ gens ∧ g.row.fingerprint = some fp ∧
    ∀ other ∈ gens, other.row.fingerprint = some fp → other.row.generation ≤ g.row.generation

/-- The call opened an empty generation above all others, recorded under `fp`. -/
def OpenedEmpty (fp : String) (gens gens' : List Generation) (res : PutResult) : Prop :=
  ∃ fresh ack, (∃ kept, gens' = kept ++ [fresh] ∧ kept.length = gens.length) ∧
    fresh.row.highWater = 0 ∧
    fresh.row.fingerprint = some fp ∧ res.ack = some ack ∧ ack.generation = fresh.row.generation

theorem putStep_conflict (step : PutStep quiet req gens res gens')
    (conflict : res.code = some .fingerprintConflict) :
    ∃ fp active, req.fingerprint = some fp ∧ newest gens fp = none ∧ gens.getLast? = some active ∧
      active.row.fingerprint ≠ none ∧ OpenedEmpty fp gens gens' res := by
  cases step with
  | unselected => cases conflict
  | @conflict left fp active claim unmatched last other =>
    exact ⟨fp, active, claim, unmatched, last, other, _, _, ⟨gens, rfl, rfl⟩, rfl, rfl, rfl, rfl⟩
  | routed _ handled =>
    cases handled with
    | poisoned | gap | byteConflict | poisons | opened | success => cases conflict
    | failed _ failure => cases failure <;> cases conflict

/-- The body differs from bytes of a generation whose bytes were diverged from before. -/
def DivergesAgain (req : PutRequest) (g : Generation) : Prop :=
  g.row.conflictPending = true ∧ req.offset < g.row.highWater ∧ ¬ Agrees req g

/-- A claim is answered on a generation, or on the empty one opened above when the
    bytes diverge from it again; a call that reports none failed while routing. -/
def AnsweredOn (req : PutRequest) (outcomes : List Outcome) (fp : String)
    (gens gens' : List Generation)
    (res : PutResult) (g : Generation) : Prop :=
  (res.ack = none ∧ res.code = some .storeUnavailable ∧ ¬ Passed outcomes (routeOps req gens)) ∨
  (∃ ack, res.ack = some ack ∧ ack.generation = g.row.generation ∧
    res.code ≠ some .generationOpened) ∨
  (res.code = some .generationOpened ∧ DivergesAgain req g ∧ OpenedEmpty fp gens gens' res)

/-- The request is evaluated against `g` for `g₀`, a generation that was there. -/
structure RoutedFor (req : PutRequest) (gens gens₁ : List Generation) (g₀ g : Generation) :
    Prop where
  numbered : g.row.generation = g₀.row.generation
  length : gens₁.length = gens.length
  diverges : DivergesAgain req g → DivergesAgain req g₀

theorem Routed.origin (routed : Routed req gens gens₁ g) (known : gens ≠ []) :
    ∃ g₀ ∈ gens, RoutedFor req gens gens₁ g₀ g := by
  cases routed with
  | first _ unknown => exact absurd unknown known
  | matched _ found => exact ⟨g, (newest_mem found).1, rfl, rfl, fun again => again⟩
  | @adopted fp active _ _ last _ =>
    exact ⟨active, List.mem_of_getLast? last, rfl, adjust_length .., fun again => again⟩
  | active _ last => exact ⟨g, List.mem_of_getLast? last, rfl, rfl, fun again => again⟩

theorem Routed.highest (routed : Routed req gens gens₁ g) (sound : Sound id gens) {fp : String}
    (claim : req.fingerprint = some fp) {top : Generation} (highest : Highest fp gens top) :
    RoutedFor req gens gens₁ top g := by
  have found : newest gens fp = some top := (newest_eq_some sound).mpr highest
  cases routed with
  | first _ unknown =>
    subst unknown
    cases highest.1
  | matched carried matching =>
    cases claim.symm.trans carried
    obtain rfl := Option.some.inj (matching.symm.trans found)
    exact ⟨rfl, rfl, fun again => again⟩
  | adopted carried unmatched =>
    cases claim.symm.trans carried
    cases unmatched.symm.trans found
  | active carried => cases claim.symm.trans carried

/-- A claim that no generation records goes to a last one that records none. -/
theorem Routed.blank (routed : Routed req gens gens₁ g) {fp : String}
    (claim : req.fingerprint = some fp)
    (unmatched : newest gens fp = none) {active : Generation} (last : gens.getLast? = some active) :
    RoutedFor req gens gens₁ active g := by
  cases routed with
  | first _ unknown =>
    subst unknown
    cases last
  | matched carried found =>
    cases claim.symm.trans carried
    cases unmatched.symm.trans found
  | adopted carried _ last' =>
    obtain rfl := Option.some.inj (last.symm.trans last')
    exact ⟨rfl, adjust_length .., fun again => again⟩
  | active carried => cases claim.symm.trans carried

/-- Apart from failing calls, which report their target, an answer names the
    generation it was routed to or the one it opened. -/
theorem Handled.answered (handled : Handled quiet req gens g res gens')
    (unfailed : ¬ res.StorageFailed) :
    (∃ ack, res.ack = some ack ∧ ack.generation = g.row.generation ∧
        res.code ≠ some .generationOpened) ∨
      (res.code = some .generationOpened ∧ DivergesAgain req g ∧
        ∀ fp, g.row.fingerprint = some fp → OpenedEmpty fp gens gens' res) := by
  cases handled with
  | poisoned | gap => exact Or.inl ⟨_, rfl, rfl, by simp [refused]⟩
  | byteConflict => exact Or.inl ⟨_, rfl, rfl, by simp [refused]⟩
  | poisons => exact Or.inl ⟨_, rfl, rfl, by simp [refused]⟩
  | opened _ _ inside differs again =>
    refine Or.inr ⟨rfl, ⟨again, inside, differs⟩, fun fp claimed =>
      ⟨_, _, ⟨_, rfl, ?_⟩, rfl, claimed, rfl, rfl⟩⟩
    rw [replaceWith, adjust_length]
  | success => exact Or.inl ⟨_, rfl, settled_generation .., by simp [acknowledged]⟩
  | failed target failure =>
    exact absurd ⟨_, rfl, classifyStoreError_ofStorage failure⟩ unfailed

/-- What is handled leaves as many generations, or opens one under repeated divergence. -/
theorem Handled.length (handled : Handled quiet req gens g res gens') :
    gens'.length = gens.length ∨ (res.code = some .generationOpened ∧ DivergesAgain req g) := by
  have replaced : ∀ g', (replaceWith g g' gens).length = gens.length := fun _ => adjust_length ..
  cases handled with
  | poisoned | gap => exact Or.inl rfl
  | byteConflict | success => exact Or.inl (replaced _)
  | poisons => exact Or.inl (List.length_map _)
  | opened _ _ inside differs again => exact Or.inr ⟨rfl, again, inside, differs⟩
  | failed _ _ _ _ _ interrupted =>
    cases interrupted with
    | untouched => exact Or.inl rfl
    | unpended | torn | unrecorded | unacknowledged => exact Or.inl (replaced _)

/-- A claim that is routed for one generation, and opens none over another, is answered on it. -/
theorem put_answeredOn {store : Store} (wellFormed : store.WellFormed) {fp : String}
    (outcomes : List Outcome)
    (claim : req.fingerprint = some fp) {g₀ : Generation}
    (routes : ∀ gens₁ g, Routed req (store.view req.identity) gens₁ g →
      RoutedFor req (store.view req.identity) gens₁ g₀ g)
    (unopened : ∀ active, newest (store.view req.identity) fp = none →
      (store.view req.identity).getLast? = some active → active.row.fingerprint = none) :
    AnsweredOn req outcomes fp (store.view req.identity)
      ((store.put req outcomes).2.view req.identity)
      (store.put req outcomes).1 g₀ := by
  obtain ⟨step, _⟩ := put_step wellFormed req outcomes
  have refusal := put_refused wellFormed req outcomes
  by_cases failed : (store.put req outcomes).1.StorageFailed
  · cases refusal failed with
    | unselected broken unreported coded => exact Or.inl ⟨unreported, coded, broken⟩
    | @routed gens g ack _ routed _ reported late early =>
      refine Or.inr (Or.inl ⟨ack, reported, ?_, ?_⟩)
      · rw [← (routes _ _ routed).numbered]
        by_cases wrote : Appends req g ∧ store.failAppendOnce = false ∧
            Passed outcomes (opsBeforeWrite req (store.view req.identity) g + 1)
        · exact (late wrote).1
        · exact (early wrote).2.1
      · obtain ⟨code, coded, ofStorage⟩ := failed
        rw [coded]
        rintro ⟨⟩
        cases ofStorage
  · generalize (store.put req outcomes).1 = res at step failed ⊢
    generalize (store.put req outcomes).2.view req.identity = gens' at step ⊢
    cases step with
    | unselected => exact absurd ⟨_, rfl, rfl⟩ failed
    | conflict _ carried unmatched last other =>
      cases claim.symm.trans carried
      exact absurd (unopened _ unmatched last) other
    | routed routed handled =>
      have origin := routes _ _ routed
      obtain ⟨ack, reported, named, unopened⟩ | ⟨opened, again, fresh⟩ := handled.answered failed
      · exact Or.inr (Or.inl ⟨ack, reported, named.trans origin.numbered, unopened⟩)
      · obtain ⟨open_, ack, ⟨kept, split, length⟩, rest⟩ := fresh fp (routed.claimed claim)
        exact Or.inr (Or.inr ⟨opened, origin.diverges again, open_, ack,
          ⟨kept, split, length.trans origin.length⟩, rest⟩)

/-- In every reachable store the generations of an identity are numbered without
    gaps and recorded by the digest of their own bytes once the window is full.  A
    claim is answered on the highest generation that records it, or, where none does,
    on a last one that records none; over a last one that records another value it
    opens a generation.  No other call opens one for a known file, unless its bytes
    diverge again from a generation that is there. -/
theorem fingerprint_authority (ops : List Op) :
    (∀ id, Authority ((Store.empty.run ops).view id)) ∧
    ∀ (req : PutRequest) (fp : String) (outcomes : List Outcome), req.fingerprint = some fp →
      let gens := (Store.empty.run ops).view req.identity
      let res := ((Store.empty.run ops).put req outcomes).1
      let gens' := ((Store.empty.run ops).put req outcomes).2.view req.identity
      (∀ top, Highest fp gens top → AnsweredOn req outcomes fp gens gens' res top) ∧
      (∀ active, gens.getLast? = some active → active.row.fingerprint = none →
        (∀ g ∈ gens, g.row.fingerprint ≠ some fp) →
          AnsweredOn req outcomes fp gens gens' res active) ∧
      (res.code = some .fingerprintConflict →
        (∀ g ∈ gens, g.row.fingerprint ≠ some fp) ∧
        (∃ active other, gens.getLast? = some active ∧ active.row.fingerprint = some other) ∧
        OpenedEmpty fp gens gens' res) ∧
      (gens ≠ [] → gens'.length ≠ gens.length → res.code = some .fingerprintConflict ∨
        (res.code = some .generationOpened ∧ ∃ g ∈ gens, DivergesAgain req g)) := by
  refine ⟨run_authority ops, fun req fp outcomes claim => ?_⟩
  have wellFormed := run_wellFormed Store.empty_wellFormed ops
  have sound := wellFormed req.identity
  obtain ⟨step, _⟩ := put_step wellFormed req outcomes
  refine ⟨fun top highest => ?_, fun active last blank unrecorded => ?_, fun conflict => ?_,
    fun known grown => ?_⟩
  · refine put_answeredOn wellFormed outcomes claim
      (fun _ _ routed => routed.highest sound claim highest)
      fun _ unmatched _ => ?_
    cases unmatched.symm.trans ((newest_eq_some sound).mpr highest)
  · have unmatched : newest ((Store.empty.run ops).view req.identity) fp = none := by
      cases found : newest ((Store.empty.run ops).view req.identity) fp with
      | none => rfl
      | some g => exact absurd (newest_mem found).2 (unrecorded g (newest_mem found).1)
    refine put_answeredOn wellFormed outcomes claim
      (fun _ _ routed => routed.blank claim unmatched last)
      fun active' _ last' => ?_
    obtain rfl := Option.some.inj (last.symm.trans last')
    exact blank
  · obtain ⟨carried, active, carries, unmatched, last, recordedAs, opened⟩ :=
      putStep_conflict step conflict
    cases claim.symm.trans carries
    exact ⟨fun g member => newest_none unmatched member,
      ⟨active, _, last, (Option.some_get (Option.isSome_iff_ne_none.mpr recordedAs)).symm⟩, opened⟩
  · generalize ((Store.empty.run ops).put req outcomes).1 = res at step ⊢
    generalize ((Store.empty.run ops).put req outcomes).2.view req.identity = gens' at step grown ⊢
    cases step with
    | unselected => exact absurd rfl grown
    | conflict => exact Or.inl rfl
    | routed routed handled =>
      obtain ⟨g₀, member, origin⟩ := routed.origin known
      obtain same | ⟨opened, again⟩ := handled.length
      · exact absurd (same.trans origin.length) grown
      · exact Or.inr ⟨opened, g₀, member, origin.diverges again⟩

def lateFingerprint : String := "cccccccccccccccccccccccccccccccccccccccccccccccccccccccccccccccc"

/-- Two bodies without a claim that diverge. -/
def unclaimedCalls : List PutRequest := [samplePut none 0 [1], samplePut none 0 [2]]

/-- A claim opens a generation over one that records none: the bytes diverge again. -/
theorem blank_generation_diverged :
    ¬ ∀ (ops : List Op) (req : PutRequest) (fp : String) (active : Generation),
      req.fingerprint = some fp →
      ((Store.empty.run ops).view req.identity).getLast? = some active →
      active.row.fingerprint = none →
      (((Store.empty.run ops).put req []).2.view req.identity).length =
        ((Store.empty.run ops).view req.identity).length := by
  intro never
  have known :
    ((Store.empty.run (calls unclaimedCalls)).view
    (samplePut lateFingerprint 0 [2]).identity).getLast?.map
      (fun active => active.row.fingerprint) = some none := by decide +kernel
  obtain ⟨active, last, blank⟩ := Option.map_eq_some_iff.mp known
  have same :=
    never (calls unclaimedCalls) (samplePut lateFingerprint 0 [2]) lateFingerprint active rfl last
    blank
  revert same
  decide +kernel

end AiConfig.Sesh
