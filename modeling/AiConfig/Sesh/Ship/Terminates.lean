import AiConfig.Lib.Grouping
import AiConfig.Sesh.Ship.Quiesce
import AiConfig.Sesh.Store.Fingerprint

/-! # `shipFile` returns

Over a file that does not change, with any cursor and any reachable store.  `Stage`
says how the cursor stands to the generation its claim selects, under a rank that
every turn of the loop lowers: a generation opened for the file is only ever
appended to, the generation at whose high-water the cursor stands can only be lost
to a digest it did not have, and each generation is lost once. -/

namespace AiConfig.Sesh

open AiConfig.Lib AiConfig.Lib.Fallible AiConfig.Sesh.Wire

/-- The body the loop reads at its cursor. -/
def Loop.chunk (loop : Loop) (file : Bytes) : Bytes :=
  (file.drop loop.cur.offset).take (min (file.length - loop.cur.offset) loop.maxBody)

def Loop.sends (loop : Loop) (client : Client) (id : Identity) (file : Bytes) (now : String) :
    PutRequest :=
  client.request id loop.cur (loop.chunk file) now

/-- The fingerprint the loop's requests claim. -/
def Loop.claim (loop : Loop) : Option String :=
  if loop.cur.fingerprint = "" then none else some loop.cur.fingerprint

/-- The generation a claim selects. -/
def TargetOf (claim : Option String) (gens : List Generation) (g : Generation) : Prop :=
  match claim with
  | some fp => newest gens fp = some g
  | none => gens.getLast? = some g

/-- The two resets at the head of an iteration have nothing to do. -/
structure Observed (file : Bytes) (loop : Loop) : Prop where
  within : loop.cur.offset ≤ file.length
  named : ∀ fp, fingerprint file = some fp → loop.cur.fingerprint = fp
  positive : 1 ≤ loop.maxBody

/-- A generation that has, or may adopt, the claim, and whose window is not full: an
    append can replace the claim by another digest. -/
def losable (claim : Option String) (g : Generation) : Bool :=
  match claim with
  | none => false
  | some fp => g.row.highWater < fingerprintWindowBytes &&
      (g.row.fingerprint = some fp || g.row.fingerprint = none)

/-- How the cursor stands to the generation its claim selects, with a bound on the
    turns left. -/
inductive Stage (client : Client) (id : Identity) (file : Bytes) (loop : Loop)
    (gens : List Generation) :
    Nat → Prop where
  | done (ended : file.length ≤ loop.cur.offset) : Stage client id file loop gens 0
  /-- The generation holds the file up to the cursor. -/
  | fresh {g : Generation} (target : TargetOf loop.claim gens g)
      (mirrors : g.bytes.take g.row.highWater = file.take g.row.highWater)
      (stands : g.row.highWater = loop.cur.offset) (first : loop.conflictRetried = false) :
      Stage client id file loop gens (file.length - loop.cur.offset)
  /-- The cursor stands at the high-water of a generation with any bytes. -/
  | aligned {g : Generation} (target : TargetOf loop.claim gens g)
      (stands : g.row.highWater = loop.cur.offset) (first : loop.conflictRetried = false) :
      Stage client id file loop gens
        (gens.countP (losable loop.claim) * (file.length + 4) + (file.length - loop.cur.offset))
  /-- The same body diverges once more. -/
  | retried {g : Generation} (target : TargetOf loop.claim gens g)
      (pending : g.row.conflictPending = true)
      (inside : loop.cur.offset < g.row.highWater)
        (differs : ∀ now, ¬ Agrees (loop.sends client id file now) g)
      (again : loop.conflictRetried = true) (allowed : (loop.chunk file).length ≤ maxPUTBody) :
      Stage client id file loop gens
        (gens.countP (losable loop.claim) * (file.length + 4) + file.length + 2)
  | loose (first : loop.conflictRetried = false) :
      Stage client id file loop gens
        (gens.countP (losable loop.claim) * (file.length + 4) + file.length + 3)

section

variable {client : Client} {id : Identity} {file : Bytes} {loop : Loop}
  {gens gens₁ gens' : List Generation}
  {g g' : Generation} {now : String} {quiet : Prop} {res : PutResult}

/-! ## Requests and their target -/

theorem chunk_length (loop : Loop) (file : Bytes) :
    (loop.chunk file).length = min (file.length - loop.cur.offset) loop.maxBody := by
  simp only [Loop.chunk, List.length_take, List.length_drop]
  omega

theorem TargetOf.mem {claim : Option String} (target : TargetOf claim gens g) : g ∈ gens := by
  unfold TargetOf at target
  split at target
  · exact (newest_mem target).1
  · exact List.mem_of_getLast? target

theorem TargetOf.claimed {claim : Option String} (target : TargetOf claim gens g) {fp : String}
    (named : claim = some fp) : g.row.fingerprint = some fp := by
  rw [named] at target
  exact (newest_mem target).2

theorem Targets.targetOf {req : PutRequest} (targets : Targets req gens g) :
    TargetOf req.fingerprint gens g :=
  targets

/-- A request with a target is routed to it and changes nothing on the way. -/
theorem Targets.routed_eq {req : PutRequest} {g₁ : Generation} (targets : Targets req gens g)
    (routed : Routed req gens gens₁ g₁) : gens₁ = gens ∧ g₁ = g := by
  unfold Targets at targets
  cases routed with
  | first _ unknown =>
    subst unknown
    split at targets <;> simp [newest] at targets
  | matched claim found =>
    rw [claim] at targets
    exact ⟨rfl, Option.some.inj (found.symm.trans targets)⟩
  | adopted claim unmatched =>
    rw [claim] at targets
    cases unmatched.symm.trans targets
  | active claim last =>
    rw [claim] at targets
    exact ⟨rfl, Option.some.inj (last.symm.trans targets)⟩

/-! ## Generations a claim can lose -/

theorem countP_replaceWith_le {p : Generation → Bool} (sound : Sound id gens) (member : g ∈ gens)
    (fewer : p g' = true → p g = true) : (replaceWith g g' gens).countP p ≤ gens.countP p := by
  rw [replaceWith, adjust, List.countP_map]
  refine List.countP_mono_left fun h hMember held => ?_
  simp only [Function.comp_apply] at held
  split at held
  · rename_i same
    rw [sound.unique hMember member same]
    exact fewer held
  · exact held

theorem countP_replaceWith_lt {p : Generation → Bool} (member : g ∈ gens)
    (held : p g = true) (gone : p g' = false) :
    (replaceWith g g' gens).countP p < gens.countP p := by
  rw [replaceWith, adjust, List.countP_map]
  refine countP_lt_of_imp (fun h hMember kept => ?_) member held ?_
  · simp only [Function.comp_apply] at kept
    split at kept
    · rw [gone] at kept
      cases kept
    · exact kept
  · simpa using gone

theorem losable_congr {claim : Option String} (level : g'.row.highWater = g.row.highWater)
    (recordedAs : g'.row.fingerprint = g.row.fingerprint) : losable claim g' = losable claim g := by
  simp only [losable, level, recordedAs]

/-- Routing to a known identity gives the claim no generation that it could not adopt. -/
theorem Routed.losable_le {req : PutRequest} (routed : Routed req gens gens₁ g)
    (sound : Sound id gens)
    (known : gens ≠ []) :
    gens₁.countP (losable req.fingerprint) ≤ gens.countP (losable req.fingerprint) := by
  cases routed with
  | first _ unknown => exact absurd unknown known
  | matched | active => exact Nat.le_refl _
  | @adopted fp active claim _ last blank =>
    have same : adjust active.row.generation (recordFingerprint fp) gens =
        replaceWith active (recordFingerprint fp active) gens :=
      adjust_congr fun h member numbered => by
        rw [sound.unique member (List.mem_of_getLast? last) numbered]
    rw [same]
    refine countP_replaceWith_le sound (List.mem_of_getLast? last) fun held => ?_
    simp only [losable, claim, recordFingerprint, Generation.withRow, Bool.and_eq_true] at held
    have short := of_decide_eq_true held.1
    simpa [losable, claim, blank] using short

/-- An append leaves the fingerprint alone, or it fills the window and the generation is
    not losable any more. -/
theorem settled_kept_or_lost {fp : String} (digested : g.Digested)
    (covered : g.row.highWater ≤ g.bytes.length)
    (claimed : g.row.fingerprint = some fp) (body : Bytes) (now : String) :
    (settled g body now).row.fingerprint = some fp ∨
      (losable (some fp) g = true ∧ losable (some fp) (settled g body now) = false) := by
  rw [settled_fingerprint]
  split
  · exact Or.inl claimed
  · rename_i more
    by_cases short : g.row.highWater + body.length < fingerprintWindowBytes
    · rw [refreshed, if_pos short]
      exact Or.inl claimed
    · by_cases full : fingerprintWindowBytes ≤ g.row.highWater
      · -- the window was full: the digest is the recorded one again
        have window := (digested.written covered body) full
        left
        rw [refreshed, if_neg short]
        exact window.symm.trans claimed
      · right
        constructor
        · simp [losable, claimed, Nat.lt_of_not_le full]
        · simp only [losable, settled_highWater, Bool.and_eq_false_iff, decide_eq_false_iff_not]
          exact Or.inl short

/-! ## What an answer does to the loop -/

theorem Observed.moved (observed : Observed file loop) {offset : Nat}
    (within : offset ≤ file.length)
    (acked : Option String) :
    Observed file
      { loop.save { loop.cur with offset := offset, lastAckAt := acked } with conflictRetried := false } :=
  ⟨within, observed.named, observed.positive⟩

/-- At the high-water there is no overlap to compare. -/
theorem aligned_excess (stands : g.row.highWater = loop.cur.offset) :
    Agrees (loop.sends client id file now) g ∧
      excess (loop.sends client id file now) g = loop.chunk file := by
  have nothing : overlapLength (loop.sends client id file now) g = 0 := by
    simp only [overlapLength, stands, Loop.sends, Client.request]
    omega
  constructor
  · simp [Agrees, nothing]
  · rw [excess, nothing]
    rfl

/-- Bytes of the file appended behind its beginning. -/
theorem mirrors_settled (mirrors : g.bytes.take g.row.highWater = file.take g.row.highWater)
    (covered : g.row.highWater ≤ g.bytes.length) (stands : g.row.highWater = loop.cur.offset)
    (now : String) :
    (settled g (loop.chunk file) now).bytes.take (g.row.highWater + (loop.chunk file).length) =
      file.take (g.row.highWater + (loop.chunk file).length) := by
  rw [settled_take covered, mirrors, List.take_add, List.append_cancel_left_eq, stands,
    chunk_length]
  rfl

/-- The file's own bytes keep the file's own fingerprint. -/
theorem mirrors_claimed {fp : String} (observed : Observed file loop)
    (mirrors : g.bytes.take g.row.highWater = file.take g.row.highWater)
    (covered : g.row.highWater ≤ g.bytes.length) (stands : g.row.highWater = loop.cur.offset)
    (claim : loop.claim = some fp) (claimed : g.row.fingerprint = some fp) (now : String) :
    (settled g (loop.chunk file) now).row.fingerprint = some fp := by
  rw [settled_fingerprint]
  split
  · exact claimed
  · rename_i more
    unfold refreshed
    split
    · exact claimed
    · rename_i full
      have same := mirrors_settled mirrors covered stands now
      rw [settled_bytes, if_neg more] at same
      have length := chunk_length loop file
      have within := observed.within
      have window :
        (writeAt g.bytes g.row.highWater (loop.chunk file)).take fingerprintWindowBytes =
          file.take fingerprintWindowBytes := by
        have cut := congrArg (List.take fingerprintWindowBytes) same
        rwa [List.take_take, List.take_take, Nat.min_eq_left (Nat.le_of_not_lt full)] at cut
      have ready : fingerprint file = some (Sha256.sum256Hex (file.take fingerprintWindowBytes)) :=
        if_neg (by omega)
      rw [window, ← observed.named _ ready]
      unfold Loop.claim at claim
      split at claim
      · cases claim
      · exact claim

/-- What may follow an answer: the loop returns without an error, or goes on at a lower
    rank. -/
def Advances (client : Client) (id : Identity) (file : Bytes) (loop : Loop)
    (gens' : List Generation) (n : Nat) :
    Reacted → Prop
  | .returns result _ => ∀ reason, result ≠ .failure reason
  | .again loop' => Observed file loop' ∧ loop'.maxBody = loop.maxBody ∧
      ∃ n' < n, Stage client id file loop' gens' n'

/-- The cursor moved, to a generation its claim selects. -/
theorem advances_moved (observed : Observed file loop) {offset n n' : Nat}
    (within : offset ≤ file.length)
    (acked : Option String) (lower : n' < n)
    (stage : Stage client id file
      { loop.save { loop.cur with offset := offset, lastAckAt := acked } with conflictRetried := false } gens' n') :
    Advances client id file loop gens' n
      (.again
          { loop.save { loop.cur with offset := offset, lastAckAt := acked } with conflictRetried := false }) :=
  ⟨observed.moved within acked, rfl, n', lower, stage⟩

/-- Storage failures hold the file. -/
theorem advances_failed {n : Nat} (target : FileState) (failure : StoreError) :
    Advances client id file loop gens' n (loop.react id file.length now
      (refused target (classifyStoreError failure) failure.text "").reply) := by
  cases failure <;> exact fun reason same => by cases same

/-- The loop after an ACK. -/
def Loop.acked (loop : Loop) (offset : Nat) (now : String) : Loop :=
  { loop.save { loop.cur with offset := offset, lastAckAt := some now } with conflictRetried := false }

/-- The claim stays with a generation that keeps its number and its fingerprint. -/
theorem TargetOf.replaced (loop : Loop) (client : Client) (file : Bytes)
    (target : TargetOf loop.claim gens g)
    (sound : Sound id gens) (sound' : Sound id (replaceWith g g' gens))
    (numbered : g'.row.generation = g.row.generation)
    (claimed : ∀ fp, loop.claim = some fp → g'.row.fingerprint = some fp) :
    TargetOf loop.claim (replaceWith g g' gens) g' := by
  have targets : Targets (loop.sends client id file "") gens g := target
  exact targets.replaced sound sound' numbered claimed

/-- After an ACK the cursor stands at the high-water of the same generation, or the
    claim has lost that generation, or the file has been sent. -/
theorem stage_acked (sound : Sound id gens) (authority : Authority gens)
    (target : TargetOf loop.claim gens g)
    (body : Bytes) (now : String) :
    ∃ n ≤ gens.countP (losable loop.claim) * (file.length + 4) +
        (file.length - min (g.row.highWater + body.length) file.length),
      Stage client id file (loop.acked (min (g.row.highWater + body.length) file.length) now)
        (replaceWith g (settled g body now) gens) n := by
  have member := target.mem
  have covered := sound.covered g member
  have sound' : Sound id (replaceWith g (settled g body now) gens) :=
    sound.replaced member (settled_generation ..) (settled_identity ..) (settled_covered covered)
  -- The file may be done; if not, the generation keeps its fingerprint or loses it.
  rcases Nat.lt_or_ge (g.row.highWater + body.length) file.length with short | whole
  · rw [Nat.min_eq_left (Nat.le_of_lt short)]
    by_cases kept : ∀ fp, loop.claim = some fp → (settled g body now).row.fingerprint = some fp
    · have stays :=
        TargetOf.replaced loop client file target sound sound' (settled_generation ..) kept
      refine ⟨_, ?_, .aligned stays (settled_highWater ..) rfl⟩
      have fewer : (replaceWith g (settled g body now) gens).countP (losable loop.claim) ≤
          gens.countP (losable loop.claim) := by
        refine countP_replaceWith_le sound member fun held => ?_
        cases claim : loop.claim with
        | none =>
          rw [claim] at held
          cases held
        | some fp =>
          rw [claim] at held
          simp only [losable, settled_highWater, Bool.and_eq_true, decide_eq_true_eq] at held
          simp only [losable, target.claimed claim, decide_true, Bool.true_or, Bool.and_true,
            decide_eq_true_eq]
          omega
      have := Nat.mul_le_mul_right (file.length + 4) fewer
      simp only [Loop.acked, Loop.save]
      exact Nat.add_le_add_right this _
    · simp only [not_forall] at kept
      obtain ⟨fp, claim, gone⟩ := kept
      obtain ⟨held, lost⟩ := (settled_kept_or_lost (authority.digested g member) covered
        (target.claimed claim) body now).resolve_left gone
      rw [← claim] at held lost
      -- A fingerprint that is lost is never recorded again: the count of those that can be drops.
      have fewer := countP_replaceWith_lt member held lost
      refine ⟨_, ?_, .loose rfl⟩
      have := Nat.mul_le_mul_right (file.length + 4) (Nat.succ_le_of_lt fewer)
      rw [Nat.succ_mul] at this
      change (replaceWith g (settled g body now) gens).countP (losable loop.claim) *
        (file.length + 4) +
        file.length + 3 ≤ _
      omega
  · refine ⟨0, Nat.zero_le _, .done ?_⟩
    simp only [Loop.acked, Loop.save, Nat.min_eq_right whole]
    exact Nat.le_refl _

/-- After an ACK for a generation that holds the file up to the cursor it still does. -/
theorem stage_mirrored (observed : Observed file loop) (sound : Sound id gens)
    (target : TargetOf loop.claim gens g)
    (mirrors : g.bytes.take g.row.highWater = file.take g.row.highWater)
    (stands : g.row.highWater = loop.cur.offset) (now : String) :
    Stage client id file
      (loop.acked (min (g.row.highWater + (loop.chunk file).length) file.length) now)
      (replaceWith g (settled g (loop.chunk file) now) gens)
      (file.length - min (g.row.highWater + (loop.chunk file).length) file.length) := by
  have member := target.mem
  have covered := sound.covered g member
  have within : g.row.highWater + (loop.chunk file).length ≤ file.length := by
    have length := chunk_length loop file
    have := observed.within
    omega
  rw [Nat.min_eq_left within]
  have sound' : Sound id (replaceWith g (settled g (loop.chunk file) now) gens) :=
    sound.replaced member (settled_generation ..) (settled_identity ..) (settled_covered covered)
  refine .fresh (g := settled g (loop.chunk file) now) ?_ ?_ (settled_highWater ..) rfl
  · exact TargetOf.replaced loop client file target sound sound'
        (settled_generation ..) fun fp claim =>
      mirrors_claimed observed mirrors covered stands claim (target.claimed claim) now
  · rw [settled_highWater]
    exact mirrors_settled mirrors covered stands now

theorem handled_aligned {n : Nat} (stands : g.row.highWater = loop.cur.offset)
    (handled : Handled quiet (loop.sends client id file now) gens g res gens')
    (acked : Advances client id file loop (replaceWith g (settled g (loop.chunk file) now) gens) n
      (.again (loop.acked (min (g.row.highWater + (loop.chunk file).length) file.length) now))) :
    Advances client id file loop gens' n (loop.react id file.length now res.reply) := by
  cases handled with
  | poisoned => exact fun reason same => by cases same
  | gap _ beyond => exact absurd beyond (by simp [stands, Loop.sends, Client.request])
  | byteConflict _ inside | poisons _ inside | opened _ _ inside =>
    exact absurd inside (by simp [stands, Loop.sends, Client.request])
  | success event =>
    have whole : excess (loop.sends client id file now) g = loop.chunk file :=
      (aligned_excess stands).2
    rw [whole]
    have level := settled_highWater g (loop.chunk file) now
    change Advances client id file loop _ n (.again (loop.acked
      (min (settled g (loop.chunk file) now).row.highWater file.length) now))
    rw [level]
    exact acked
  | failed target failure => exact advances_failed target failure

/-! ## One turn -/

/-- A request with a target is handled on it, or refused by the storage before. -/
theorem TargetOf.step {quiet : Prop} (target : TargetOf loop.claim gens g)
    (step : PutStep quiet (loop.sends client id file now) gens res gens') :
    (∃ reason, res = ⟨none, none, some .storeUnavailable, reason, ""⟩) ∨
      Handled quiet (loop.sends client id file now) gens g res gens' := by
  have targets : Targets (loop.sends client id file now) gens g := target
  cases step with
  | unselected reason => exact Or.inl ⟨reason, rfl⟩
  | @conflict _ fp _ claim unmatched =>
    rw [show loop.claim = some fp from claim] at target
    cases unmatched.symm.trans target
  | routed routed handled =>
    obtain ⟨rfl, rfl⟩ := targets.routed_eq routed
    exact Or.inr handled

theorem aligned_turn (stands : g.row.highWater = loop.cur.offset) {n : Nat}
    (target : TargetOf loop.claim gens g)
    (step : PutStep quiet (loop.sends client id file now) gens res gens')
    (acked : Advances client id file loop (replaceWith g (settled g (loop.chunk file) now) gens) n
      (.again (loop.acked (min (g.row.highWater + (loop.chunk file).length) file.length) now))) :
    Advances client id file loop gens' n (loop.react id file.length now res.reply) := by
  rcases target.step step with ⟨reason, rfl⟩ | handled
  · exact fun reason same => by cases same
  · exact handled_aligned stands handled acked

/-- The cursor goes back to the start of a generation opened for its claim. -/
theorem advances_opened (observed : Observed file loop) {n : Nat} (lower : file.length < n)
    {recordedAs : Option String} (claimed : ∀ fp, loop.claim = some fp → recordedAs = some fp)
    (gens : List Generation) (number : Nat) (driven : Bool) (left : Bytes) :
    Advances client id file loop (gens ++ [⟨freshRow id number recordedAs driven now, left⟩]) n
      (.again { loop.save { loop.cur with offset := 0 } with conflictRetried := false }) := by
  have target : Targets (loop.sends client id file "")
      (gens ++ [⟨freshRow id number recordedAs driven now, left⟩])
      ⟨freshRow id number recordedAs driven now, left⟩ := Targets.snoc claimed gens
  refine advances_moved observed (Nat.zero_le _) loop.cur.lastAckAt ?_
    (.fresh target.targetOf ?_ rfl rfl)
  · exact Nat.lt_of_le_of_lt (Nat.sub_le _ _) lower
  · simp [freshRow]

theorem retried_turn (observed : Observed file loop) (target : TargetOf loop.claim gens g)
    (pending : g.row.conflictPending = true) (inside : loop.cur.offset < g.row.highWater)
    (differs : ¬ Agrees (loop.sends client id file now) g) {n : Nat} (lower : file.length < n)
    (step : PutStep quiet (loop.sends client id file now) gens res gens') :
    Advances client id file loop gens' n (loop.react id file.length now res.reply) := by
  rcases target.step step with ⟨reason, rfl⟩ | handled
  · exact fun reason same => by cases same
  · cases handled with
    | poisoned | poisons => exact fun reason same => by cases same
    | gap _ beyond => exact absurd beyond (Nat.lt_asymm inside)
    | byteConflict _ _ _ first => cases first.symm.trans pending
    | opened => exact advances_opened observed lower (fun _ claim => target.claimed claim) ..
    | success _ _ _ agrees => exact absurd agrees differs
    | failed target failure => exact advances_failed target failure

/-- An identity the store does not know: the first generation is empty. -/
theorem unknown_turn (observed : Observed file loop) {left : Bytes} {n : Nat}
    (lower : file.length < n)
    (sound : Sound id [⟨freshRow id 0 loop.claim false now, left⟩])
    (handled : Handled quiet (loop.sends client id file now)
      [⟨freshRow id 0 loop.claim false now, left⟩]
      ⟨freshRow id 0 loop.claim false now, left⟩ res gens') :
    Advances client id file loop gens' n (loop.react id file.length now res.reply) := by
  have targets :
    Targets (loop.sends client id file now) ([] ++ [⟨freshRow id 0 loop.claim false now, left⟩])
      ⟨freshRow id 0 loop.claim false now, left⟩ := Targets.snoc (fun _ claim => claim) []
  rcases Nat.eq_zero_or_pos loop.cur.offset with zero | beyond
  · refine handled_aligned zero.symm handled ?_
    have within : (loop.chunk file).length ≤ file.length := by
      have := chunk_length loop file
      omega
    refine advances_moved observed (Nat.min_le_right _ _) (some now) ?_
      (stage_mirrored observed sound targets.targetOf ?_ zero.symm now)
    · exact Nat.lt_of_le_of_lt (Nat.sub_le _ _) lower
    · simp [freshRow]
  · cases handled with
    | gap => exact advances_opened observed lower (fun _ claim => claim) [] ..
    | poisoned marked => cases marked
    | byteConflict _ inside | poisons _ inside | opened _ _ inside => cases inside
    | success _ _ reached => exact absurd reached (Nat.not_le_of_lt beyond)
    | failed target failure => exact advances_failed target failure

/-- The stages of a cursor that stands anywhere, on a generation with any bytes. -/
theorem loose_turn (observed : Observed file loop) (sound : Sound id gens)
    (authority : Authority gens)
    (first : loop.conflictRetried = false) (allowed : (loop.chunk file).length ≤ maxPUTBody)
    (step : PutStep quiet (loop.sends client id file now) gens res gens') :
    Advances client id file loop gens'
      (gens.countP (losable loop.claim) * (file.length + 4) + file.length + 3)
      (loop.react id file.length now res.reply) := by
  have opens :
    file.length < gens.countP (losable loop.claim) * (file.length + 4) + file.length + 3 := by omega
  cases step with
  | unselected => exact fun reason same => by cases same
  | conflict left claim =>
    exact advances_opened observed opens (fun _ named => claim.symm.trans named) ..
  | @routed gens₁ _ g _ routed handled =>
    have sound₁ : Sound id gens₁ := routed.sound sound
    by_cases known : gens = []
    · subst known
      cases routed with
      | first => exact unknown_turn observed opens sound₁ handled
      | matched _ found => cases found
      | adopted _ _ last | active _ last => cases last
    · have authority₁ := authority.routed sound routed
      have target : TargetOf loop.claim gens₁ g := (routed.targets sound₁).targetOf
      have ranked := Nat.mul_le_mul_right (file.length + 4) (routed.losable_le sound known)
      change gens₁.countP (losable loop.claim) * _ ≤ gens.countP (losable loop.claim) * _ at ranked
      cases handled with
      | poisoned | poisons => exact fun reason same => by cases same
      | gap _ beyond =>
        have within : g.row.highWater ≤ file.length :=
          Nat.le_of_lt (Nat.lt_of_lt_of_le beyond observed.within)
        refine advances_moved observed within loop.cur.lastAckAt ?_ (.aligned target rfl rfl)
        change gens'.countP (losable loop.claim) * (file.length + 4) +
          (file.length - g.row.highWater) < _
        omega
      | byteConflict _ inside differs =>
        -- The one retry: the same body is sent again to the same target.
        have again : loop.react id file.length now
            (refused (pend true g).row .byteConflict "bytes diverge from ACKed mirror range"
              "").reply =
              .again { loop with conflictRetried := true } := if_neg (by simp [first])
        rw [again]
        have same : losable loop.claim (pend true g) = losable loop.claim g := losable_congr rfl rfl
        have fewer := countP_replaceWith_le sound₁ target.mem fun held => same.symm.trans held
        have ranked' := Nat.mul_le_mul_right (file.length + 4) fewer
        have member := target.mem
        have pends : Sound id (replaceWith g (pend true g) gens₁) :=
          sound₁.replaced member rfl rfl (sound₁.covered g member)
        exact ⟨⟨observed.within, observed.named, observed.positive⟩, rfl, _, Nat.lt_of_le_of_lt
          (Nat.add_le_add_right (Nat.add_le_add_right ranked' _) _) (by omega),
          .retried (TargetOf.replaced loop client file target sound₁ pends rfl fun _ claim =>
            target.claimed claim)
            rfl inside (fun _ => differs) rfl allowed⟩
      | opened => exact advances_opened observed opens (fun _ claim => target.claimed claim) ..
      | success =>
        obtain ⟨n, below, stage⟩ := @stage_acked client _ file _ _ _ sound₁ authority₁ target
          (excess (loop.sends client id file now) g) now
        have level := settled_highWater g (excess (loop.sends client id file now) g) now
        change Advances client id file loop _ _ (.again (loop.acked
          (min (settled g (excess (loop.sends client id file now) g) now).row.highWater file.length)
            now))
        rw [level]
        exact advances_moved observed (Nat.min_le_right _ _) (some now) (by omega) stage
      | failed target failure => exact advances_failed target failure

/-- One PUT before the end of the file. -/
theorem Stage.turn {n : Nat} (stage : Stage client id file loop gens n)
    (pending : loop.cur.offset < file.length)
    (observed : Observed file loop) (sound : Sound id gens) (authority : Authority gens)
    (allowed : (loop.chunk file).length ≤ maxPUTBody)
    (step : PutStep quiet (loop.sends client id file now) gens res gens') :
    Advances client id file loop gens' n (loop.react id file.length now res.reply) := by
  have length := chunk_length loop file
  have positive := observed.positive
  cases stage with
  | done ended => exact absurd pending (Nat.not_lt_of_le ended)
  | @fresh g target mirrors stands =>
    refine aligned_turn stands target step ?_
    refine advances_moved observed (Nat.min_le_right _ _) (some now) ?_
      (stage_mirrored observed sound target mirrors stands now)
    omega
  | @aligned g target stands =>
    refine aligned_turn stands target step ?_
    obtain ⟨n, below, stage⟩ :=
      @stage_acked client _ file _ _ _ sound authority target (loop.chunk file) now
    refine advances_moved observed (Nat.min_le_right _ _) (some now) ?_ stage
    omega
  | retried target pending inside differs =>
    exact retried_turn observed target pending inside (differs now) (by omega) step
  | loose first => exact loose_turn observed sound authority first allowed step

/-- A body that the store does not take is cut in half, at the same stage. -/
theorem Stage.halved {n : Nat} (stage : Stage client id file loop gens n)
    (large : maxPUTBody < (loop.chunk file).length) :
    Stage client id file { loop with maxBody := loop.maxBody / 2 } gens n := by
  cases stage with
  | done ended => exact .done ended
  | fresh target mirrors stands first => exact .fresh target mirrors stands first
  | aligned target stands first => exact .aligned target stands first
  | retried _ _ _ _ _ allowed => exact absurd large (Nat.not_lt_of_le allowed)
  | loose first => exact .loose first

/-! ## The whole call -/

theorem Observed.observe (observed : Observed file loop) : loop.observe file file = loop := by
  have kept : loop.regress file.length = loop := if_neg (Nat.not_lt_of_le observed.within)
  rw [Loop.observe, kept]
  cases ready : fingerprint file with
  | none => rfl
  | some fp =>
    have named := observed.named fp ready
    have same : loop.cur.recreated fp = loop.cur := if_neg fun mismatch => mismatch.2 named.symm
    simp only [Loop.refingerprint, same]
    rw [if_neg (by simp [named])]

theorem observed_observe {loop : Loop} (positive : 1 ≤ loop.maxBody)
    (first : loop.conflictRetried = false) :
    Observed file (loop.observe file file) ∧ (loop.observe file file).conflictRetried = false := by
  have regressed : 1 ≤ (loop.regress file.length).maxBody ∧
      (loop.regress file.length).conflictRetried = false ∧
      (loop.regress file.length).cur.offset ≤ file.length := by
    unfold Loop.regress
    split
    · exact ⟨positive, first, Nat.zero_le _⟩
    · exact ⟨positive, first, by omega⟩
  obtain ⟨positive, first, within⟩ := regressed
  rw [Loop.observe]
  cases ready : fingerprint file with
  | none =>
    refine ⟨⟨within, fun fp other => ?_, positive⟩, first⟩
    rw [ready] at other
    cases other
  | some fp =>
    have recreated : ((loop.regress file.length).cur.recreated fp).offset ≤ file.length := by
      unfold Cursor.recreated
      split
      · exact Nat.zero_le _
      · exact within
    simp only [Loop.refingerprint]
    split
    · refine ⟨⟨recreated, fun other same => ?_, positive⟩, first⟩
      cases ready.symm.trans same
      rfl
    · rename_i named
      refine ⟨⟨recreated, fun other same => ?_, positive⟩, first⟩
      cases ready.symm.trans same
      simpa using named

theorem Observed.prepare (observed : Observed file loop) :
    loop.prepare (.content file) (.content file) (.content file) =
      if file.length ≤ loop.cur.offset then .returns .ok loop.shipper
      else .sends loop file.length (loop.chunk file) := by
  simp only [Loop.prepare, observed.observe]
  split
  · rfl
  · rename_i pending
    have nonempty : loop.chunk file ≠ [] := by
      intro nothing
      have length := chunk_length loop file
      have positive := observed.positive
      rw [nothing, List.length_nil] at length
      omega
    exact if_neg nonempty

/-- The loop returns without an error before it has used `n + maxBody` PUTs. -/
theorem shipLoop_returns (conditions : List PutConditions) {n : Nat} {loop : Loop} {store : Store}
    (wellFormed : store.WellFormed) (authority : Authority (store.view id))
    (observed : Observed file loop)
    (stage : Stage client id file loop (store.view id) n)
    (enough : n + loop.maxBody < conditions.length) :
    ∃ result shipper' store', shipLoop client id file conditions loop store =
      some (result, shipper', store') ∧
      ∀ reason, result ≠ .failure reason := by
  induction conditions generalizing n loop store with
  | nil => cases enough
  | cons here rest inductionHypothesis =>
    rw [shipLoop, observed.prepare]
    by_cases ended : file.length ≤ loop.cur.offset
    · rw [if_pos ended]
      exact ⟨.ok, loop.shipper, store, rfl, fun reason same => by cases same⟩
    · rw [if_neg ended]
      have pending := Nat.lt_of_not_le ended
      have length := chunk_length loop file
      -- A body that is too large is halved; each other turn lowers the measure of its stage.
      by_cases large : maxPUTBody < (loop.chunk file).length
      · have refusal :
          store.handlePUTBytes (client.request id loop.cur (loop.chunk file) here.now)
          here.outcomes =
            (.refusal .bodyTooLarge 0 "PUT body exceeds maximum", store) := if_pos large
        have wide : 1 < loop.maxBody := by
          simp only [maxPUTBody] at large
          omega
        have halved :
          loop.react id file.length here.now (.refusal .bodyTooLarge 0 "PUT body exceeds maximum") =
            .again { loop with maxBody := loop.maxBody / 2 } := if_neg (Nat.not_le_of_lt wide)
        simp only [refusal, halved]
        refine inductionHypothesis wellFormed authority ⟨observed.within, observed.named, ?_⟩
          (stage.halved large) ?_
        · change 1 ≤ loop.maxBody / 2
          omega
        · change n + loop.maxBody / 2 < rest.length
          rw [List.length_cons] at enough
          omega
      · have allowed :
          store.handlePUTBytes (client.request id loop.cur (loop.chunk file) here.now)
          here.outcomes =
            ((store.put (loop.sends client id file here.now) here.outcomes).1.reply,
              (store.put (loop.sends client id file here.now) here.outcomes).2) := if_neg large
        have step := (put_step wellFormed (loop.sends client id file here.now) here.outcomes).1
        have sound := wellFormed id
        have turned := stage.turn pending observed sound authority (Nat.le_of_not_lt large) step
        simp only [allowed]
        cases reacted : loop.react id file.length here.now
            (store.put (loop.sends client id file here.now) here.outcomes).1.reply with
        | returns result shipper =>
          rw [reacted] at turned
          exact ⟨result, shipper, _, rfl, turned⟩
        | again loop' =>
          rw [reacted] at turned
          obtain ⟨observed', cap, n', lower, stage'⟩ := turned
          refine inductionHypothesis (put_wellFormed wellFormed _ _)
            (authority.step sound step) observed' stage' ?_
          rw [List.length_cons] at enough
          omega

end

theorem enter_returns {shipper shipper' : Shipper} {d : Discovered} {result : Returned}
    (entered : shipper.enter d = .returns result shipper') : result = .ok := by
  unfold Shipper.enter at entered
  split at entered
  · cases entered
    rfl
  · simp only at entered
    split at entered
    · cases entered
      rfl
    · cases entered

theorem enter_again {shipper : Shipper} {d : Discovered} {loop : Loop}
    (entered : shipper.enter d = .again loop) :
    1 ≤ loop.maxBody ∧ loop.conflictRetried = false := by
  have positive : 1 ≤ shipper.bodyCap := by
    unfold Shipper.bodyCap
    split
    · assumption
    · decide
  unfold Shipper.enter at entered
  split at entered
  · cases entered
  · simp only at entered
    split at entered
    · cases entered
    · cases entered
      split <;> exact ⟨positive, rfl⟩

/-- The first iteration starts with the two resets, and repeating them changes nothing. -/
theorem shipLoop_observed {loop : Loop} {file : Bytes}
    (observed : Observed file (loop.observe file file))
    (client : Client) (id : Identity) (conditions : List PutConditions) (store : Store) :
    shipLoop client id file conditions loop store =
      shipLoop client id file conditions (loop.observe file file) store := by
  cases conditions with
  | nil => rfl
  | cons here rest =>
    have same : loop.prepare (.content file) (.content file) (.content file) =
        (loop.observe file file).prepare (.content file) (.content file) (.content file) := by
      simp only [Loop.prepare, observed.observe]
    rw [shipLoop, shipLoop, same]

/-- However the storage behaves, some number of PUTs is enough for a call over a file
    that does not change, and it does not return an error. -/
theorem shipFile_terminates (client : Client) (d : Discovered) (file : Bytes) (shipper : Shipper)
    (before : List Op) :
    ∃ bound, ∀ conditions : List PutConditions, bound ≤ conditions.length →
      ∃ result shipper' store', shipFile client file d conditions shipper (Store.empty.run before) =
          some (result, shipper', store') ∧ ∀ reason, result ≠ .failure reason := by
  cases entered : shipper.enter d with
  | returns result shipper' =>
    refine ⟨0, fun conditions _ =>
      ⟨result, shipper', Store.empty.run before, ?_, fun reason failed => ?_⟩⟩
    · simp only [shipFile, entered]
    · cases (enter_returns entered).symm.trans failed
  | again loop =>
    obtain ⟨positive, first⟩ := enter_again entered
    obtain ⟨observed, first⟩ := @observed_observe file loop positive first
    obtain ⟨n, stage⟩ : ∃ n, Stage client d.identity file (loop.observe file file)
        ((Store.empty.run before).view d.identity) n := ⟨_, .loose first⟩
    refine ⟨n + (loop.observe file file).maxBody + 1, fun conditions enough => ?_⟩
    simp only [shipFile, entered, shipLoop_observed observed]
    exact shipLoop_returns conditions (run_wellFormed Store.empty_wellFormed before)
      (run_authority before d.identity) observed stage (Nat.lt_of_succ_le enough)

end AiConfig.Sesh
