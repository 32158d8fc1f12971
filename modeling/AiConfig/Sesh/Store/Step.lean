import AiConfig.Sesh.Store.View

/-! # What one PUT can do

`PutStep` lists, once, everything a call of `putBytes` can do to the generations
of its identity, together with the answer it gives: routing (`Routed`), the
divergence ladder, replay and append (`Handled`), and the states a failing
operation can leave behind (`Interrupted`).  `put_step` derives it from the
program; the claims about the store are case analyses of it. -/

namespace AiConfig.Sesh

open AiConfig.Lib AiConfig.Lib.Fallible AiConfig.Sesh.Wire

def freshRow (id : Identity) (n : Nat) (fp : Option String) (driven : Bool) (now : String) :
    FileState :=
  ⟨id, n, fp, 0, false, false, none, false, driven, now⟩

def newest (gens : List Generation) (fp : String) : Option Generation :=
  gens.reverse.find? (·.row.fingerprint = some fp)

def Generation.withRow (g : Generation) (change : FileState → FileState) : Generation :=
  { g with row := change g.row }

def recordFingerprint (fp : String) (g : Generation) : Generation :=
  g.withRow fun row => { row with fingerprint := some fp }

def pend (pending : Bool) (g : Generation) : Generation :=
  g.withRow fun row => { row with conflictPending := pending }

/-- `poisonFingerprint`, seen at one generation. -/
def marked (fp : Option String) (g : Generation) : Generation :=
  if g.row.fingerprint = fp then g.withRow fun row => { row with poisoned := true } else g

/-- The generation a request is evaluated against, and the view after routing. -/
inductive Routed (req : PutRequest) (gens : List Generation) : List Generation → Generation →
    Prop where
  | first (left : Bytes) (unknown : gens = []) :
      Routed req gens [⟨freshRow req.identity 0 req.fingerprint false req.now, left⟩]
        ⟨freshRow req.identity 0 req.fingerprint false req.now, left⟩
  | matched {fp : String} {g : Generation} (claim : req.fingerprint = some fp)
      (found : newest gens fp = some g) : Routed req gens gens g
  | adopted {fp : String} {active : Generation} (claim : req.fingerprint = some fp)
      (unmatched : newest gens fp = none) (last : gens.getLast? = some active)
      (blank : active.row.fingerprint = none) :
      Routed req gens (adjust active.row.generation (recordFingerprint fp) gens)
        (recordFingerprint fp active)
  | active {active : Generation} (claim : req.fingerprint = none)
      (last : gens.getLast? = some active) :
      Routed req gens gens active

def overlapLength (req : PutRequest) (g : Generation) : Nat :=
  min req.body.length (g.row.highWater - req.offset)

/-- The part of the body beyond the high-water. -/
def excess (req : PutRequest) (g : Generation) : Bytes := req.body.drop (overlapLength req g)

/-- The body repeats the mirrored bytes as far as it overlaps them. -/
def Agrees (req : PutRequest) (g : Generation) : Prop :=
  (g.bytes.drop req.offset).take (overlapLength req g) = req.body.take (overlapLength req g)

instance (req : PutRequest) (g : Generation) : Decidable (Agrees req g) :=
  inferInstanceAs (Decidable (_ = _))

/-- The fingerprint recorded once `highWater` bytes of `bytes` are mirrored. -/
def refreshed (highWater : Nat) (bytes : Bytes) (fp : Option String) : Option String :=
  if highWater < fingerprintWindowBytes then fp
  else some (Sha256.sum256Hex (bytes.take fingerprintWindowBytes))

def written (g : Generation) (body : Bytes) : Generation :=
  { g with bytes := writeAt g.bytes g.row.highWater body }

def refingerprinted (g : Generation) (body : Bytes) : Generation :=
  (written g body).withRow fun row =>
    { row with fingerprint :=
        refreshed (g.row.highWater + body.length) (writeAt g.bytes g.row.highWater body) row.fingerprint }

def recorded (g : Generation) (highWater : Nat) (now : String) : Generation :=
  g.withRow fun row =>
    { row with highWater := highWater, lastPutAt := some now, conflictPending := false }

/-- The generation after a successful PUT of `body` at its high-water. -/
def settled (g : Generation) (body : Bytes) (now : String) : Generation :=
  if body = [] then recorded g g.row.highWater now
  else recorded (refingerprinted g body) (g.row.highWater + body.length) now

def replaceWith (g g' : Generation) (gens : List Generation) : List Generation :=
  adjust g.row.generation (fun _ => g') gens

/-- The views a call can leave when one of its operations failed. -/
inductive Interrupted (req : PutRequest) (gens : List Generation) (g : Generation) :
    List Generation → Prop where
  | untouched : Interrupted req gens g gens
  | unpended (differs : ¬ Agrees req g) : Interrupted req gens g (replaceWith g (pend false g) gens)
  | torn (agrees : Agrees req g) (count : Nat) :
      Interrupted req gens g (replaceWith g (written g ((excess req g).take count)) gens)
  | unrecorded (agrees : Agrees req g) (more : excess req g ≠ []) :
      Interrupted req gens g (replaceWith g (refingerprinted g (excess req g)) gens)
  | unacknowledged (agrees : Agrees req g) :
      Interrupted req gens g (replaceWith g (settled g (excess req g) req.now) gens)

/-- What a call does once it is routed to `g`. -/
inductive Handled (quiet : Prop) (req : PutRequest) (gens : List Generation) (g : Generation) :
    PutResult → List Generation → Prop where
  | poisoned (marked : g.row.poisoned = true) :
      Handled quiet req gens g (refused g.row .poisonedFile "file identity is poisoned" "") gens
  | gap (clean : g.row.poisoned = false) (beyond : g.row.highWater < req.offset) :
      Handled quiet req gens g
        (refused g.row .offsetGap "offset beyond high-water" shipperActionRewind) gens
  | byteConflict (clean : g.row.poisoned = false) (inside : req.offset < g.row.highWater)
      (differs : ¬ Agrees req g) (first : g.row.conflictPending = false) :
      Handled quiet req gens g
        (refused (pend true g).row .byteConflict "bytes diverge from ACKed mirror range" "")
        (replaceWith g (pend true g) gens)
  | poisons (clean : g.row.poisoned = false) (inside : req.offset < g.row.highWater)
      (differs : ¬ Agrees req g) (again : g.row.conflictPending = true)
      (driven : ∃ other ∈ gens, other.row.conflictDriven = true ∧
        other.row.fingerprint = g.row.fingerprint) :
      Handled quiet req gens g
        (refused { g.row with poisoned := true } .poisonedFile "conflict recurred for file identity"
          "")
        (gens.map (marked g.row.fingerprint))
  | opened (left : Bytes) {active : Generation} (clean : g.row.poisoned = false)
      (inside : req.offset < g.row.highWater) (differs : ¬ Agrees req g)
      (again : g.row.conflictPending = true)
      (undriven : ∀ other ∈ gens, other.row.conflictDriven = true →
        other.row.fingerprint ≠ g.row.fingerprint)
      (last : gens.getLast? = some active) :
      Handled quiet req gens g
        (refused (freshRow req.identity (active.row.generation + 1) g.row.fingerprint true req.now)
          .generationOpened "opened new generation after repeated divergence" "")
        (replaceWith g (pend false g) gens ++
          [⟨freshRow req.identity (active.row.generation + 1) g.row.fingerprint true req.now,
            left⟩])
  | success (event : Option AppendEvent) (clean : g.row.poisoned = false)
      (reached : req.offset ≤ g.row.highWater) (agrees : Agrees req g) :
      Handled quiet req gens g (acknowledged (settled g (excess req g) req.now).row event)
        (replaceWith g (settled g (excess req g) req.now) gens)
  | failed {gens' : List Generation} (target : FileState) (failure : StoreError)
      (disturbed : ¬ quiet)
      (clean : g.row.poisoned = false) (reached : req.offset ≤ g.row.highWater)
      (interrupted : Interrupted req gens g gens') :
      Handled quiet req gens g (refused target (classifyStoreError failure) failure.text "") gens'

/-- One call of `putBytes` on the view of its identity. -/
inductive PutStep (quiet : Prop) (req : PutRequest) (gens : List Generation) :
    PutResult → List Generation → Prop where
  | unselected (reason : String) (disturbed : ¬ quiet) :
      PutStep quiet req gens ⟨none, none, some .storeUnavailable, reason, ""⟩ gens
  | conflict (left : Bytes) {fp : String} {active : Generation} (claim : req.fingerprint = some fp)
      (unmatched : newest gens fp = none) (last : gens.getLast? = some active)
      (other : active.row.fingerprint ≠ none) :
      PutStep quiet req gens
        (refused (freshRow req.identity (active.row.generation + 1) (some fp) false req.now)
          .fingerprintConflict "request fingerprint selected a different generation" "")
        (gens ++
          [⟨freshRow req.identity (active.row.generation + 1) (some fp) false req.now, left⟩])
  | routed {gens₁ gens₂ : List Generation} {g : Generation} {res : PutResult}
      (routed : Routed req gens gens₁ g) (handled : Handled quiet req gens₁ g res gens₂) :
      PutStep quiet req gens res gens₂

/-! ## Lemmas about the views in a step -/

@[simp] theorem Generation.withRow_row (g : Generation) (change : FileState → FileState) :
    (g.withRow change).row = change g.row := rfl

@[simp] theorem Generation.withRow_bytes (g : Generation) (change : FileState → FileState) :
    (g.withRow change).bytes = g.bytes := rfl

section

variable (fp : Option String) (g : Generation)

@[simp] theorem marked_identity : (marked fp g).row.identity = g.row.identity := by
  unfold marked
  split <;> rfl

@[simp] theorem marked_generation : (marked fp g).row.generation = g.row.generation := by
  unfold marked
  split <;> rfl

@[simp] theorem marked_fingerprint : (marked fp g).row.fingerprint = g.row.fingerprint := by
  unfold marked
  split <;> rfl

@[simp] theorem marked_highWater : (marked fp g).row.highWater = g.row.highWater := by
  unfold marked
  split <;> rfl

@[simp] theorem marked_conflictDriven :
    (marked fp g).row.conflictDriven = g.row.conflictDriven := by
  unfold marked
  split <;> rfl

@[simp] theorem marked_bytes : (marked fp g).bytes = g.bytes := by
  unfold marked
  split <;> rfl

theorem marked_poisoned (poisoned : g.row.poisoned = true) : marked fp g = g := by
  rcases g with ⟨⟨⟩⟩
  cases poisoned
  exact ite_self _

end

theorem newest_mem {gens : List Generation} {fp : String} {g : Generation}
    (found : newest gens fp = some g) : g ∈ gens ∧ g.row.fingerprint = some fp := by
  refine ⟨List.mem_reverse.mp (List.mem_of_find?_eq_some found), ?_⟩
  simpa using List.find?_some found

theorem newest_none {gens : List Generation} {fp : String} (unmatched : newest gens fp = none)
    {g : Generation} (member : g ∈ gens) : g.row.fingerprint ≠ some fp := by
  have := List.find?_eq_none.mp unmatched g (List.mem_reverse.mpr member)
  simpa using this

theorem newestMatch_rows (gens : List Generation) (fp : String) :
    newestMatch (gens.map Generation.row) fp = (newest gens fp).map Generation.row := by
  rw [newestMatch, newest, ← List.map_reverse, List.find?_map]
  rfl

theorem replaceWith_self {id : Identity} {gens : List Generation} (sound : Sound id gens)
    {g : Generation} (member : g ∈ gens) : replaceWith g g gens = gens := by
  calc replaceWith g g gens = adjust g.row.generation (fun h => h) gens :=
        adjust_congr fun h hMember same => sound.unique member hMember same.symm
    _ = gens := by simp [adjust]

theorem adjust_replaceWith {g g' : Generation} {gens : List Generation}
    {change : Generation → Generation}
    (keeps : g'.row.generation = g.row.generation) :
    adjust g.row.generation change (replaceWith g g' gens) = replaceWith g (change g') gens :=
  adjust_adjust fun _ _ _ => keeps

theorem mem_replaceWith {g g' : Generation} {gens : List Generation} (member : g ∈ gens) :
    g' ∈ replaceWith g g' gens :=
  mem_adjust.mpr ⟨g, member, Or.inl ⟨rfl, rfl⟩⟩

theorem Routed.mem {req : PutRequest} {gens gens₁ : List Generation} {g : Generation}
    (routed : Routed req gens gens₁ g) : g ∈ gens₁ := by
  cases routed with
  | first => exact List.mem_singleton_self _
  | matched _ found => exact (newest_mem found).1
  | @adopted fp active _ _ last _ =>
    exact mem_adjust.mpr ⟨active, List.mem_of_getLast? last, Or.inl ⟨rfl, rfl⟩⟩
  | active _ last => exact List.mem_of_getLast? last

theorem newest_eq_some {id : Identity} {gens : List Generation} (sound : Sound id gens)
    {fp : String}
    {p : Generation} :
    newest gens fp = some p ↔ p ∈ gens ∧ p.row.fingerprint = some fp ∧
      ∀ q ∈ gens, q.row.fingerprint = some fp → q.row.generation ≤ p.row.generation := by
  have forward : ∀ {p}, newest gens fp = some p →
      ∀ q ∈ gens, q.row.fingerprint = some fp → q.row.generation ≤ p.row.generation := by
    intro p found q member claimed
    have descending := List.pairwise_reverse.mpr sound.ascending
    obtain ⟨_, above, below, reversed, others⟩ := List.find?_eq_some_iff_append.mp found
    have listed : q ∈ gens.reverse := List.mem_reverse.mpr member
    rw [reversed] at descending listed
    rcases List.mem_append.mp listed with early | late
    · have := others q early
      simp [claimed] at this
    · rcases List.mem_cons.mp late with rfl | later
      · exact Nat.le_refl _
      · have := (List.pairwise_cons.mp (List.pairwise_append.mp descending).2.1).1 q later
        exact Nat.le_of_lt this
  constructor
  · intro found
    exact ⟨(newest_mem found).1, (newest_mem found).2, forward found⟩
  · rintro ⟨member, claimed, top⟩
    cases found : newest gens fp with
    | none => exact absurd claimed (newest_none found member)
    | some q =>
      obtain ⟨qMember, qClaimed⟩ := newest_mem found
      have same := Nat.le_antisymm (top q qMember qClaimed) (forward found p member claimed)
      rw [sound.unique qMember member same]

/-! ## Routing as a function -/

/-- The generation of the view a request is evaluated against; `none` when the call
    opens one. -/
def route (req : PutRequest) (gens : List Generation) : Option Generation :=
  match req.fingerprint with
  | none => gens.getLast?
  | some fp =>
    match newest gens fp with
    | some g => some g
    | none => gens.getLast?.filter (·.row.fingerprint.isNone)

/-- `g` as the call evaluates it: a blank generation has adopted the claim. -/
def claimedBy (req : PutRequest) (g : Generation) : Generation :=
  g.withRow fun row => { row with fingerprint := row.fingerprint.or req.fingerprint }

theorem claimedBy_self {req : PutRequest} {g : Generation}
    (kept : g.row.fingerprint.or req.fingerprint = g.row.fingerprint) : claimedBy req g = g := by
  simp only [claimedBy, Generation.withRow, kept]

theorem Routed.route_eq {req : PutRequest} {gens gens₁ : List Generation} {g : Generation}
    (routed : Routed req gens gens₁ g) :
    (gens = [] ∧ ∃ left, g = ⟨freshRow req.identity 0 req.fingerprint false req.now, left⟩) ∨
      ∃ g₀ ∈ gens, route req gens = some g₀ ∧ g = claimedBy req g₀ := by
  cases routed with
  | first left unknown => exact Or.inl ⟨unknown, left, rfl⟩
  | matched claim found =>
    obtain ⟨member, recordedAs⟩ := newest_mem found
    exact Or.inr ⟨g, member, by simp [route, claim, found],
      (claimedBy_self (by simp [recordedAs])).symm⟩
  | @adopted fp active claim unmatched last blank =>
    refine Or.inr ⟨active, List.mem_of_getLast? last, ?_, ?_⟩
    · simp [route, claim, unmatched, last, blank]
    · simp [claimedBy, recordFingerprint, Generation.withRow, claim, blank]
  | active claim last =>
    exact Or.inr ⟨g, List.mem_of_getLast? last, by simp [route, claim, last],
      (claimedBy_self (by simp [claim])).symm⟩

/-- Routing adopts the claim at the generation it routes to, and leaves the rest. -/
theorem Routed.view_eq {req : PutRequest} {gens gens₁ : List Generation} {g : Generation}
    {id : Identity}
    (routed : Routed req gens gens₁ g) (sound : Sound id gens) (known : gens ≠ []) :
    ∃ g₀ ∈ gens, route req gens = some g₀ ∧ g = claimedBy req g₀ ∧
      gens₁ = adjust g₀.row.generation (claimedBy req) gens := by
  rcases routed.route_eq with ⟨unknown, _⟩ | ⟨g₀, member, found, evaluated⟩
  · exact absurd unknown known
  refine ⟨g₀, member, found, evaluated, ?_⟩
  have unmoved : g = g₀ → gens = adjust g₀.row.generation (claimedBy req) gens := by
    intro same
    calc gens = replaceWith g₀ g₀ gens := (replaceWith_self sound member).symm
      _ = adjust g₀.row.generation (claimedBy req) gens := adjust_congr fun h hMember numbered => by
        rw [sound.unique hMember member numbered, ← evaluated, same]
  cases routed with
  | first _ unknown => exact absurd unknown known
  | matched claim matched =>
    refine unmoved ?_
    simpa [route, claim, matched] using found
  | @adopted fp active claim unmatched last blank =>
    simp only [route, claim, unmatched, last, Option.filter_some, blank, Option.isNone_none,
      if_true,
      Option.some.injEq] at found
    subst found
    refine adjust_congr fun h hMember numbered => ?_
    rw [sound.unique hMember member numbered]
    exact evaluated
  | active claim last =>
    refine unmoved ?_
    simpa [route, claim, last] using found

/-- `g` is what a request with this claim is evaluated against again. -/
def Targets (req : PutRequest) (gens : List Generation) (g : Generation) : Prop :=
  match req.fingerprint with
  | some fp => newest gens fp = some g
  | none => gens.getLast? = some g

theorem Targets.route_eq {req : PutRequest} {gens : List Generation} {g : Generation}
    (targets : Targets req gens g) : route req gens = some g := by
  unfold Targets at targets
  unfold route
  split at targets
  · rename_i claim
    simp only [claim, targets]
  · rename_i claim
    simp only [claim, targets]

theorem Targets.snoc {req : PutRequest} {fresh : Generation}
    (claimed : ∀ fp, req.fingerprint = some fp → fresh.row.fingerprint = some fp)
    (gens : List Generation) : Targets req (gens ++ [fresh]) fresh := by
  unfold Targets
  split
  · rename_i fp claim
    simp [newest, claimed fp claim]
  · simp

theorem Targets.replaced {req : PutRequest} {gens : List Generation} {g g' : Generation}
    {id : Identity}
    (targets : Targets req gens g) (sound : Sound id gens)
    (sound' : Sound id (replaceWith g g' gens))
    (numbered : g'.row.generation = g.row.generation)
    (claimed : ∀ fp, req.fingerprint = some fp → g'.row.fingerprint = some fp) :
    Targets req (replaceWith g g' gens) g' := by
  unfold Targets at targets ⊢
  split at targets
  · rename_i fp claim
    obtain ⟨member, _, top⟩ := (newest_eq_some sound).mp targets
    refine (newest_eq_some sound').mpr ⟨mem_replaceWith member, claimed fp claim, ?_⟩
    intro q qMember qClaimed
    obtain ⟨old, oldMember, ⟨_, rfl⟩ | ⟨_, rfl⟩⟩ := mem_adjust.mp qMember
    · exact Nat.le_refl _
    · rw [numbered]
      exact top q oldMember qClaimed
  · simp [replaceWith, adjust, targets]

theorem Routed.targets {req : PutRequest} {gens gens₁ : List Generation} {g : Generation}
    {id : Identity}
    (routed : Routed req gens gens₁ g) (sound₁ : Sound id gens₁) :
    Targets req gens₁ g := by
  unfold Targets
  cases routed with
  | first left unknown =>
    split
    · rename_i fp claim
      simp [newest, freshRow, claim]
    · rfl
  | matched claim found => simpa only [claim] using found
  | @adopted fp active claim unmatched last blank =>
    simp only [claim]
    refine (newest_eq_some sound₁).mpr ⟨mem_adjust.mpr ⟨active, List.mem_of_getLast? last,
      Or.inl ⟨rfl, rfl⟩⟩, rfl, ?_⟩
    intro q qMember qClaimed
    obtain ⟨old, oldMember, ⟨same, rfl⟩ | ⟨_, rfl⟩⟩ := mem_adjust.mp qMember
    · exact Nat.le_of_eq same
    · exact absurd qClaimed (newest_none unmatched oldMember)
  | active claim last => simpa only [claim] using last

/-- The routed generation is recorded under the claim. -/
theorem Routed.claimed {req : PutRequest} {gens gens₁ : List Generation} {g : Generation}
    (routed : Routed req gens gens₁ g) {fp : String} (claim : req.fingerprint = some fp) :
    g.row.fingerprint = some fp := by
  cases routed with
  | first => exact claim
  | matched carried found =>
    cases claim.symm.trans carried
    exact (newest_mem found).2
  | adopted carried =>
    cases claim.symm.trans carried
    rfl
  | active carried => cases claim.symm.trans carried

/-! ## Appends that reach the fingerprint window -/

/-- The digest recorded when the body goes to `g`. -/
def digestAfter (req : PutRequest) (g : Generation) : String :=
  Sha256.sum256Hex ((writeAt g.bytes g.row.highWater (excess req g)).take fingerprintWindowBytes)

/-- The call appends to `g` and records the digest of the first mirrored bytes. -/
def Rehashes (req : PutRequest) (g : Generation) : Prop :=
  g.row.poisoned = false ∧ req.offset ≤ g.row.highWater ∧ Agrees req g ∧ excess req g ≠ [] ∧
    fingerprintWindowBytes ≤ g.row.highWater + (excess req g).length

instance (req : PutRequest) (g : Generation) : Decidable (Rehashes req g) :=
  inferInstanceAs (Decidable (_ ∧ _))

theorem refreshed_eq {req : PutRequest} {g : Generation} (clean : g.row.poisoned = false)
    (reached : req.offset ≤ g.row.highWater) (agrees : Agrees req g) (more : excess req g ≠ []) :
    (refreshed (g.row.highWater + (excess req g).length)
        (writeAt g.bytes g.row.highWater (excess req g)) g.row.fingerprint = g.row.fingerprint) ∨
      (Rehashes req g ∧ refreshed (g.row.highWater + (excess req g).length)
        (writeAt g.bytes g.row.highWater (excess req g)) g.row.fingerprint =
        some (digestAfter req g)) := by
  unfold refreshed
  split
  · exact Or.inl rfl
  · rename_i full
    exact Or.inr ⟨⟨clean, reached, agrees, more, Nat.le_of_not_lt full⟩, rfl⟩

/-! ## The settled generation -/

section

variable (g : Generation) (body : Bytes) (now : String)

@[simp] theorem settled_generation : (settled g body now).row.generation = g.row.generation := by
  unfold settled
  split <;> rfl

@[simp] theorem settled_identity : (settled g body now).row.identity = g.row.identity := by
  unfold settled
  split <;> rfl

@[simp] theorem settled_conflictDriven :
    (settled g body now).row.conflictDriven = g.row.conflictDriven := by
  unfold settled
  split <;> rfl

@[simp] theorem settled_poisoned : (settled g body now).row.poisoned = g.row.poisoned := by
  unfold settled
  split <;> rfl

@[simp] theorem settled_conflictPending : (settled g body now).row.conflictPending = false := by
  unfold settled
  split <;> rfl

@[simp] theorem settled_highWater :
    (settled g body now).row.highWater = g.row.highWater + body.length := by
  unfold settled
  split
  · rename_i nothing
    simp [recorded, nothing]
  · rfl

theorem settled_bytes : (settled g body now).bytes = if body = [] then g.bytes else
    writeAt g.bytes g.row.highWater body := by
  unfold settled
  split <;> rfl

/-- What an append can leave as the fingerprint of its generation. -/
theorem settled_fingerprint :
    (settled g body now).row.fingerprint =
      if body = [] then g.row.fingerprint else
        refreshed (g.row.highWater + body.length) (writeAt g.bytes g.row.highWater body)
          g.row.fingerprint := by
  unfold settled
  split <;> rfl

theorem settled_covered {g : Generation} {body : Bytes} {now : String}
    (covered : g.row.highWater ≤ g.bytes.length) :
    (settled g body now).row.highWater ≤ (settled g body now).bytes.length := by
  rw [settled_highWater, settled_bytes]
  split
  · rename_i nothing
    simpa [nothing] using covered
  · rw [writeAt_length]
    omega

end

/-! ## Steps keep views sound -/

theorem Sound.adjusted {id : Identity} {gens : List Generation} (sound : Sound id gens) {n : Nat}
    {change : Generation → Generation}
    (keeps : ∀ g ∈ gens, g.row.generation = n → (change g).row.generation = n ∧
      (change g).row.identity = id ∧ (change g).row.highWater ≤ (change g).bytes.length) :
    Sound id (adjust n change gens) := by
  have numbers := adjust_numbers fun g member same => (keeps g member same).1
  constructor
  · have ascending := List.pairwise_map.mpr sound.ascending
    rw [← numbers] at ascending
    exact List.pairwise_map.mp ascending
  · intro g member
    obtain ⟨old, oldMember, ⟨same, rfl⟩ | ⟨_, rfl⟩⟩ := mem_adjust.mp member
    · exact (keeps old oldMember same).2.2
    · exact sound.covered g oldMember
  · intro g member
    obtain ⟨old, oldMember, ⟨same, rfl⟩ | ⟨_, rfl⟩⟩ := mem_adjust.mp member
    · exact (keeps old oldMember same).2.1
    · exact sound.owned g oldMember

theorem Sound.snoc {id : Identity} {gens : List Generation} (sound : Sound id gens)
    {fresh : Generation}
    (above : ∀ g ∈ gens, g.row.generation < fresh.row.generation)
    (covered : fresh.row.highWater ≤ fresh.bytes.length) (owned : fresh.row.identity = id) :
    Sound id (gens ++ [fresh]) := by
  constructor
  · refine List.pairwise_append.mpr ⟨sound.ascending, List.pairwise_singleton _ _, ?_⟩
    intro g member other single
    rw [List.mem_singleton.mp single]
    exact above g member
  · intro g member
    rcases List.mem_append.mp member with old | new
    · exact sound.covered g old
    · rw [List.mem_singleton.mp new]
      exact covered
  · intro g member
    rcases List.mem_append.mp member with old | new
    · exact sound.owned g old
    · rw [List.mem_singleton.mp new]
      exact owned

theorem Sound.replaced {id : Identity} {gens : List Generation} (sound : Sound id gens)
    {g g' : Generation} (member : g ∈ gens) (numbered : g'.row.generation = g.row.generation)
    (named : g'.row.identity = g.row.identity) (covered : g'.row.highWater ≤ g'.bytes.length) :
    Sound id (replaceWith g g' gens) :=
  sound.adjusted fun _ _ _ => ⟨numbered, named.trans (sound.owned g member), covered⟩

theorem Routed.sound {req : PutRequest} {gens gens₁ : List Generation} {g : Generation}
    (routed : Routed req gens gens₁ g) (sound : Sound req.identity gens) :
    Sound req.identity gens₁ := by
  cases routed with
  | first left unknown =>
    subst unknown
    exact sound.snoc (fun _ member => by cases member) (Nat.zero_le _) rfl
  | matched | active => exact sound
  | adopted => exact sound.adjusted fun h member numbered =>
      ⟨numbered, sound.owned h member, sound.covered h member⟩

theorem Interrupted.sound {req : PutRequest} {gens gens' : List Generation} {g : Generation}
    {id : Identity} (interrupted : Interrupted req gens g gens') (sound : Sound id gens)
    (member : g ∈ gens) : Sound id gens' := by
  have covered := sound.covered g member
  cases interrupted with
  | untouched => exact sound
  | unpended => exact sound.replaced member rfl rfl covered
  | torn _ count =>
    refine sound.replaced member rfl rfl ?_
    simp only [written, writeAt_length]
    omega
  | unrecorded =>
    refine sound.replaced member rfl rfl ?_
    simp only [refingerprinted, written, Generation.withRow_bytes, Generation.withRow_row,
      writeAt_length]
    omega
  | unacknowledged =>
    exact sound.replaced member (settled_generation ..) (settled_identity ..)
      (settled_covered covered)

theorem Handled.sound {quiet : Prop} {req : PutRequest} {gens gens' : List Generation}
    {g : Generation}
    {res : PutResult} (handled : Handled quiet req gens g res gens')
    (sound : Sound req.identity gens)
    (member : g ∈ gens) : Sound req.identity gens' := by
  have covered := sound.covered g member
  cases handled with
  | poisoned | gap => exact sound
  | byteConflict => exact sound.replaced member rfl rfl covered
  | poisons =>
    refine ⟨?_, ?_, ?_⟩
    · exact List.pairwise_map.mpr (sound.ascending.imp fun {a b} less => by simpa using less)
    · intro h hMember
      obtain ⟨old, oldMember, rfl⟩ := List.mem_map.mp hMember
      simpa using sound.covered old oldMember
    · intro h hMember
      obtain ⟨old, oldMember, rfl⟩ := List.mem_map.mp hMember
      simpa using sound.owned old oldMember
  | @opened left active _ _ _ _ _ last =>
    have cleared : Sound req.identity (replaceWith g (pend false g) gens) :=
      sound.replaced member rfl rfl covered
    refine cleared.snoc ?_ (Nat.zero_le _) rfl
    intro h hMember
    obtain ⟨old, oldMember, ⟨_, rfl⟩ | ⟨_, rfl⟩⟩ := mem_adjust.mp hMember
    · have := sound.le_last last member
      exact Nat.lt_succ_of_le this
    · have := sound.le_last last oldMember
      exact Nat.lt_succ_of_le this
  | success =>
    exact sound.replaced member (settled_generation ..) (settled_identity ..)
      (settled_covered covered)
  | failed _ _ _ _ _ interrupted => exact interrupted.sound sound member

theorem PutStep.sound {quiet : Prop} {req : PutRequest} {gens gens' : List Generation}
    {res : PutResult}
    (step : PutStep quiet req gens res gens') (sound : Sound req.identity gens) :
    Sound req.identity gens' := by
  cases step with
  | unselected => exact sound
  | conflict _ _ _ last =>
    exact sound.snoc (fun h member => Nat.lt_succ_of_le (sound.le_last last member))
      (Nat.zero_le _) rfl
  | routed routed handled => exact handled.sound (routed.sound sound) routed.mem

end AiConfig.Sesh
