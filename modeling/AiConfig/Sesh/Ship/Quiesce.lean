import AiConfig.Sesh.Ship.ShipFile

/-! # What a quiescent shipper has shipped

A call of `shipFile` that starts at offset 0 over a file that does not change, as
the only client of the identity.  The cursor follows the high-water of each ACK:
when the first body agrees with a generation that holds more than that body, the
cursor moves over bytes nobody compared (`Skips`).  That is the only way to return
`nil` without a generation that holds the file. -/

namespace AiConfig.Sesh

open AiConfig.Lib AiConfig.Lib.Fallible AiConfig.Sesh.Wire

/-- Some generation covers the whole file with exactly its bytes. -/
def Holds (file : Bytes) (gens : List Generation) : Prop :=
  ∃ g ∈ gens, file.length ≤ g.row.highWater ∧ g.bytes.take file.length = file

/-- The request agrees with its generation, which differs from the file further on. -/
def Skips (file : Bytes) (req : PutRequest) (gens : List Generation) : Prop :=
  ∃ g ∈ route req gens, Agrees req g ∧
    g.bytes.take (min g.row.highWater file.length) ≠ file.take (min g.row.highWater file.length)

/-- The body of the PUT at an offset. -/
def part (file : Bytes) (offset : Nat) : Bytes :=
  (file.drop offset).take (min (file.length - offset) maxPUTBody)

def Loop.ask (loop : Loop) (client : Client) (id : Identity) (file : Bytes) (now : String) :
    PutRequest :=
  client.request id loop.cur (part file loop.cur.offset) now

/-- Neither poisoned nor held. -/
def Spared (id : Identity) (shipper : Shipper) : Prop :=
  (∀ cur, shipper.registry.get id = some cur → cur.poisoned = false) ∧ shipper.held id = none

/-- The loop once it has observed the file: observing it again changes nothing. -/
structure Steady (file : Bytes) (id : Identity) (loop : Loop) : Prop where
  cap : loop.maxBody = maxPUTBody
  identity : loop.cur.identity = id
  within : loop.cur.offset ≤ file.length
  named : ∀ fp, fingerprint file = some fp → loop.cur.fingerprint = fp

theorem part_length (file : Bytes) (offset : Nat) :
    (part file offset).length = min (file.length - offset) maxPUTBody := by
  simp only [part, List.length_take, List.length_drop]
  omega

theorem fingerprint_ne_empty {file : Bytes} {fp : String} (ready : fingerprint file = some fp) :
    fp ≠ "" := by
  unfold fingerprint at ready
  split at ready
  · cases ready
  · cases ready
    intro empty
    have length := Sha256.sum256Hex_length (file.take fingerprintWindowBytes)
    rw [empty] at length
    cases length

section

variable {file : Bytes} {id : Identity} {loop loop' : Loop} {client : Client}

theorem Steady.observe (steady : Steady file id loop) : loop.observe file file = loop := by
  have kept : loop.regress file.length = loop := if_neg (Nat.not_lt_of_le steady.within)
  rw [Loop.observe, kept]
  cases ready : fingerprint file with
  | none => rfl
  | some fp =>
    have named := steady.named fp ready
    have same : loop.cur.recreated fp = loop.cur := if_neg fun mismatch => mismatch.2 named.symm
    simp only [Loop.refingerprint, same]
    rw [if_neg (by simp [named])]

theorem steady_observe {loop : Loop} (cap : loop.maxBody = maxPUTBody)
    (identity : loop.cur.identity = id) :
    Steady file id (loop.observe file file) := by
  have regressed : (loop.regress file.length).maxBody = maxPUTBody ∧
      (loop.regress file.length).cur.identity = id ∧
      (loop.regress file.length).cur.offset ≤ file.length := by
    unfold Loop.regress
    split
    · exact ⟨cap, identity, Nat.zero_le _⟩
    · exact ⟨cap, identity, by omega⟩
  obtain ⟨cap, identity, within⟩ := regressed
  rw [Loop.observe]
  cases ready : fingerprint file with
  | none => exact ⟨cap, identity, within, fun fp other => by rw [ready] at other; cases other⟩
  | some fp =>
    have recreated : ((loop.regress file.length).cur.recreated fp).identity = id ∧
        ((loop.regress file.length).cur.recreated fp).offset ≤ file.length := by
      unfold Cursor.recreated
      split
      · exact ⟨identity, Nat.zero_le _⟩
      · exact ⟨identity, within⟩
    simp only [Loop.refingerprint]
    split
    · refine ⟨cap, recreated.1, recreated.2, fun other same => ?_⟩
      cases ready.symm.trans same
      rfl
    · rename_i named
      refine ⟨cap, recreated.1, recreated.2, fun other same => ?_⟩
      cases ready.symm.trans same
      simpa using named

theorem Steady.prepare (steady : Steady file id loop) :
    loop.prepare (.content file) (.content file) (.content file) =
      if file.length ≤ loop.cur.offset then .returns .ok loop.shipper
      else .sends loop file.length (part file loop.cur.offset) := by
  simp only [Loop.prepare, steady.observe]
  split
  · rfl
  · rename_i pending
    have nonempty : part file loop.cur.offset ≠ [] := by
      intro nothing
      have length := part_length file loop.cur.offset
      rw [nothing, List.length_nil] at length
      simp only [maxPUTBody] at length
      omega
    simp only [Loop.readBody, steady.cap]
    exact if_neg nonempty

theorem part_allowed (file : Bytes) (offset : Nat) : ¬ maxPUTBody < (part file offset).length := by
  rw [part_length]
  omega

theorem shipLoop_quiescent (steady : Steady file id loop)
    (quiescent : file.length ≤ loop.cur.offset)
    (here : PutConditions) (rest : List PutConditions) (store : Store) :
    shipLoop client id file (here :: rest) loop store = some (.ok, loop.shipper, store) := by
  rw [shipLoop, steady.prepare, if_pos quiescent]

/-- One turn of the loop before the end of the file: a PUT and the reaction to its answer. -/
theorem shipLoop_turn (steady : Steady file id loop) (pending : loop.cur.offset < file.length)
    (here : PutConditions) (rest : List PutConditions) (store : Store) :
    shipLoop client id file (here :: rest) loop store =
      match loop.react id file.length here.now
          (store.put (loop.ask client id file here.now) here.outcomes).1.reply with
      | .returns result shipper =>
        some (result, shipper, (store.put (loop.ask client id file here.now) here.outcomes).2)
      | .again loop' =>
        shipLoop client id file rest loop'
            (store.put (loop.ask client id file here.now) here.outcomes).2 := by
  have allowed :
    store.handlePUTBytes (client.request id loop.cur (part file loop.cur.offset) here.now)
    here.outcomes =
      ((store.put (loop.ask client id file here.now) here.outcomes).1.reply,
        (store.put (loop.ask client id file here.now) here.outcomes).2) :=
    if_neg (part_allowed file loop.cur.offset)
  rw [shipLoop, steady.prepare, if_neg (Nat.not_le_of_lt pending)]
  dsimp only
  generalize store.handlePUTBytes (client.request id loop.cur (part file loop.cur.offset) here.now)
    here.outcomes = answer at allowed ⊢
  subst allowed
  rfl

/-- Returning `nil` in reaction to an answer poisons or holds the cursor. -/
theorem react_ok_spoils {size : Nat} {now : String} {reply : Reply} {shipper : Shipper}
    (identity : loop.cur.identity = id)
    (returned : loop.react id size now reply = .returns .ok shipper) :
    ¬ Spared id shipper := by
  rintro ⟨clean, unheld⟩
  cases reply with
  | transport | ack => cases returned
  | refusal code rewind message =>
    cases code with
    | offsetGap | fingerprintConflict | generationOpened | outOfGrant | storeUnavailable
    | mirrorWriteFailed => cases returned
    | byteConflict | bodyTooLarge =>
      simp only [Loop.react] at returned
      split at returned <;> cases returned
    | poisonedFile =>
      cases returned
      have found : (loop.save { loop.cur with poisoned := true }).shipper.registry.get id =
          some { loop.cur with poisoned := true } := by
        rw [← identity]
        exact Registry.put_get_self _ { loop.cur with poisoned := true }
      cases clean _ found
    | malformedRequest | unknownTool | notFound =>
      cases returned
      simp [Shipper.holdFile] at unheld

/-- An invariant of the turns of the loop that gives `goal` where it quiesces. -/
theorem shipLoop_settles (inv : Loop → List Generation → Prop) (goal : List Generation → Prop)
    (steady : ∀ loop gens, inv loop gens → Steady file id loop)
    (stop : ∀ loop gens, inv loop gens → file.length ≤ loop.cur.offset → goal gens)
    (turn : ∀ quiet loop gens res gens' now loop', inv loop gens → loop.cur.offset < file.length →
      Sound id gens → PutStep quiet (loop.ask client id file now) gens res gens' →
      loop.react id file.length now res.reply = .again loop' → inv loop' gens')
    {conditions : List PutConditions} {store : Store} (wellFormed : store.WellFormed)
    (start : inv loop (store.view id)) {shipper' : Shipper} {store' : Store}
    (returned : shipLoop client id file conditions loop store = some (.ok, shipper', store'))
    (spared : Spared id shipper') : goal (store'.view id) := by
  induction conditions generalizing loop store with
  | nil => cases returned
  | cons here rest inductionHypothesis =>
    by_cases quiescent : file.length ≤ loop.cur.offset
    · rw [shipLoop_quiescent (steady loop _ start) quiescent] at returned
      cases returned
      exact stop _ _ start quiescent
    · rw [shipLoop_turn (steady loop _ start) (Nat.lt_of_not_le quiescent)] at returned
      have stepped := (put_step wellFormed (loop.ask client id file here.now) here.outcomes).1
      split at returned
      · rename_i result shipper reacted
        cases returned
        exact absurd spared (react_ok_spoils (steady loop _ start).identity reacted)
      · rename_i loop' reacted
        refine inductionHypothesis (put_wellFormed wellFormed _ _) ?_ returned
        exact turn _ loop _ _ _ _ loop' start (Nat.lt_of_not_le quiescent)
          (wellFormed id) stepped reacted

/-- One PUT of the loop after which the loop goes on. -/
inductive Turned (file : Bytes) (req : PutRequest) (gens : List Generation) (cur cur' : Cursor) :
    List Generation → Prop where
  | acked {gens₁ : List Generation} {g : Generation} (routed : Routed req gens gens₁ g)
      (clean : g.row.poisoned = false) (reached : req.offset ≤ g.row.highWater)
        (agrees : Agrees req g)
      (moved : cur'.offset = min (g.row.highWater + (excess req g).length) file.length) :
      Turned file req gens cur cur' (replaceWith g (settled g (excess req g) req.now) gens₁)
  | conflicted {gens₁ : List Generation} {g : Generation} (routed : Routed req gens gens₁ g)
      (differs : ¬ Agrees req g) (stays : cur'.offset = cur.offset) :
      Turned file req gens cur cur' (replaceWith g (pend true g) gens₁)
  | opened {gens₁ : List Generation} {fresh : Generation}
      (reason : route req gens = none ∨ ∃ gens₂ g, Routed req gens gens₂ g ∧ ¬ Agrees req g)
      (empty : fresh.row.highWater = 0)
      (claimed : ∀ fp, req.fingerprint = some fp → fresh.row.fingerprint = some fp)
      (moved : cur'.offset = 0) : Turned file req gens cur cur' (gens₁ ++ [fresh])
  | rewound {gens₁ : List Generation} {g : Generation} (routed : Routed req gens gens₁ g)
      (beyond : g.row.highWater < req.offset) : Turned file req gens cur cur' gens₁

theorem route_conflict {req : PutRequest} {gens : List Generation} {fp : String}
    {active : Generation}
    (claim : req.fingerprint = some fp) (unmatched : newest gens fp = none)
    (last : gens.getLast? = some active) (other : active.row.fingerprint ≠ none) :
    route req gens = none := by
  simpa [route, claim, unmatched, last] using other

theorem Steady.turned {quiet : Prop} {gens gens' : List Generation} {res : PutResult} {now : String}
    (steady : Steady file id loop)
    (step : PutStep quiet (loop.ask client id file now) gens res gens')
    (again : loop.react id file.length now res.reply = .again loop') :
    Turned file (loop.ask client id file now) gens loop.cur loop'.cur gens' ∧ Steady file id loop' ∧
      loop'.cur.fingerprint = loop.cur.fingerprint := by
  have rewound : ∀ {cur : Cursor}, cur.identity = loop.cur.identity → cur.offset ≤ file.length →
      cur.fingerprint = loop.cur.fingerprint →
      Steady file id { loop.save cur with conflictRetried := false } := by
    intro cur same within named
    exact ⟨steady.cap, same.trans steady.identity, within, fun fp ready =>
      named.trans (steady.named fp ready)⟩
  cases step with
  | unselected => cases again
  | conflict left claim unmatched last other =>
    cases again
    exact ⟨.opened (Or.inl (route_conflict claim unmatched last other)) rfl
      (fun fp carried => by cases claim.symm.trans carried; rfl) rfl,
        rewound rfl (Nat.zero_le _) rfl, rfl⟩
  | @routed gens₁ _ g _ routed handled =>
    cases handled with
    | poisoned | poisons => cases again
    | gap _ beyond =>
      cases again
      exact ⟨.rewound routed beyond,
        rewound rfl (Nat.le_of_lt (Nat.lt_of_lt_of_le beyond steady.within)) rfl,
        rfl⟩
    | byteConflict _ _ differs =>
      change (if loop.conflictRetried then _ else _) = _ at again
      split at again
      · cases again
      · cases again
        exact ⟨.conflicted routed differs rfl,
          ⟨steady.cap, steady.identity, steady.within, steady.named⟩, rfl⟩
    | opened left _ _ differs =>
      cases again
      exact ⟨.opened (Or.inr ⟨gens₁, g, routed, differs⟩) rfl
        (fun fp carried => routed.claimed carried) rfl,
        rewound rfl (Nat.zero_le _) rfl, rfl⟩
    | success event clean reached agrees =>
      cases again
      refine ⟨.acked routed clean reached agrees ?_, rewound rfl (Nat.min_le_right _ _) rfl, rfl⟩
      simp only [FileState.ack, settled_highWater, Loop.save]
    | failed target failure =>
      cases failure <;> cases again

/-! ## Following the high-water of one generation -/

/-- The cursor stands at the high-water of the generation its claim selects. -/
structure Filling (file : Bytes) (cur : Cursor) (gens : List Generation) (g : Generation) :
    Prop where
  ready : fingerprint file = some cur.fingerprint
  found : newest gens cur.fingerprint = some g
  clean : g.row.poisoned = false
  reached : g.row.highWater = cur.offset
  wide : fingerprintWindowBytes ≤ cur.offset
  window : g.bytes.take fingerprintWindowBytes = file.take fingerprintWindowBytes

theorem ask_fingerprint {now : String} (ready : fingerprint file = some loop.cur.fingerprint) :
    (loop.ask client id file now).fingerprint = some loop.cur.fingerprint :=
  if_neg (fingerprint_ne_empty ready)

theorem newest_claimed {gens gens₁ : List Generation} {req : PutRequest} {g g₀ : Generation}
    {fp : String}
    (routed : Routed req gens gens₁ g) (claim : req.fingerprint = some fp)
    (found : newest gens fp = some g₀) : gens = gens₁ ∧ g₀ = g := by
  cases routed with
  | first _ unknown =>
    subst unknown
    cases found
  | matched carried matched =>
    cases claim.symm.trans carried
    cases found.symm.trans matched
    exact ⟨rfl, rfl⟩
  | adopted carried unmatched =>
    cases claim.symm.trans carried
    cases found.symm.trans unmatched
  | active carried => cases claim.symm.trans carried

theorem digest_of_window {bytes : Bytes} {fp : String} (ready : fingerprint file = some fp)
    (window : bytes.take fingerprintWindowBytes = file.take fingerprintWindowBytes) :
    some (Sha256.sum256Hex (bytes.take fingerprintWindowBytes)) = some fp := by
  unfold fingerprint at ready
  split at ready
  · cases ready
  · rw [window, ready]

/-- Bytes below a mark survive an append at or above it. -/
theorem settled_take_below {g : Generation} {body : Bytes} {now : String} {n : Nat}
    (covered : g.row.highWater ≤ g.bytes.length) (below : n ≤ g.row.highWater) :
    (settled g body now).bytes.take n = g.bytes.take n := by
  have whole : (settled g body now).bytes.take g.row.highWater = g.bytes.take g.row.highWater :=
    settled_take_highWater covered
  have kept := congrArg (List.take n) whole
  rwa [List.take_take, List.take_take, Nat.min_eq_left below] at kept

theorem Filling.turn {quiet : Prop} {gens gens' : List Generation} {res : PutResult} {now : String}
    {g : Generation} (filling : Filling file loop.cur gens g) (steady : Steady file id loop)
    (pending : loop.cur.offset < file.length) (sound : Sound id gens)
    (step : PutStep quiet (loop.ask client id file now) gens res gens')
    (again : loop.react id file.length now res.reply = .again loop') :
    gens' = replaceWith g (settled g (part file loop.cur.offset) now) gens ∧
      Filling file loop'.cur gens' (settled g (part file loop.cur.offset) now) ∧
      loop'.cur.offset = loop.cur.offset + (part file loop.cur.offset).length := by
  have sound' : Sound id gens' := step.sound sound
  obtain ⟨turned, _, named⟩ := steady.turned step again
  have claim : (loop.ask client id file now).fingerprint = some loop.cur.fingerprint :=
    ask_fingerprint filling.ready
  -- The cursor is at the high-water, so the request overlaps nothing.
  have nothing : overlapLength (loop.ask client id file now) g = 0 := by
    simp only [overlapLength, filling.reached, Loop.ask, Client.request]
    omega
  have agrees : Agrees (loop.ask client id file now) g := by simp [Agrees, nothing]
  have whole : excess (loop.ask client id file now) g = part file loop.cur.offset := by
    rw [excess, nothing]
    rfl
  cases turned with
  | rewound routed beyond =>
    obtain ⟨_, rfl⟩ := newest_claimed routed claim filling.found
    exact absurd beyond (by simp [filling.reached, Loop.ask, Client.request])
  | conflicted routed differs =>
    obtain ⟨_, rfl⟩ := newest_claimed routed claim filling.found
    exact absurd agrees differs
  | opened reason =>
    rcases reason with unrouted | ⟨_, _, routed, differs⟩
    · simp [route, claim, filling.found] at unrouted
    · obtain ⟨_, rfl⟩ := newest_claimed routed claim filling.found
      exact absurd agrees differs
  | acked routed clean reached _ moved =>
    obtain ⟨rfl, rfl⟩ := newest_claimed routed claim filling.found
    have member := (newest_mem filling.found).1
    have covered := sound.covered _ member
    rw [whole] at moved ⊢
    have length := part_length file loop.cur.offset
    have moved' : loop'.cur.offset = loop.cur.offset + (part file loop.cur.offset).length := by
      rw [moved, filling.reached]
      omega
    have window : (settled g (part file loop.cur.offset) now).bytes.take fingerprintWindowBytes =
        file.take fingerprintWindowBytes := by
      rw [settled_take_below covered (by rw [filling.reached]; exact filling.wide)]
      exact filling.window
    refine ⟨rfl, ⟨by rw [named]; exact filling.ready, ?_, ?_, ?_, ?_, window⟩, moved'⟩
    · have targets : Targets (loop.ask client id file now) gens g := by
        simpa only [Targets, claim] using filling.found
      have kept := targets.replaced sound (whole ▸ sound') (settled_generation ..) fun fp carried =>
        ?_
      · simp only [Targets, claim] at kept
        rw [named]
        exact kept
      · cases claim.symm.trans carried
        rw [settled_fingerprint]
        split
        · exact (newest_mem filling.found).2
        -- The window is full already, so the fingerprint is not computed again.
        · have full :
              ¬ g.row.highWater + (part file loop.cur.offset).length < fingerprintWindowBytes := by
            rw [filling.reached]
            have := filling.wide
            omega
          rw [refreshed, if_neg full]
          rename_i more
          rw [settled_bytes, if_neg more] at window
          exact digest_of_window filling.ready window
    · rw [settled_poisoned]
      exact filling.clean
    · rw [settled_highWater, moved', filling.reached]
    · rw [moved']
      exact Nat.le_trans filling.wide (Nat.le_add_right _ _)

/-! ## The first PUT -/

/-- The generation the first PUT reaches, before any claim is adopted. -/
theorem Routed.reaches {gens gens₁ : List Generation} {req : PutRequest} {g : Generation}
    (routed : Routed req gens gens₁ g) :
    g.row.highWater = 0 ∨ ∃ g₀ ∈ gens, route req gens = some g₀ ∧ g = claimedBy req g₀ := by
  rcases routed.route_eq with ⟨_, left, rfl⟩ | reached
  · exact Or.inl rfl
  · exact Or.inr reached

/-- Unless the PUT skips, the mirror it agrees with agrees with the file as far as it goes. -/
theorem agrees_as_far {gens gens₁ : List Generation} {req : PutRequest} {g : Generation}
    (kept : ¬ Skips file req gens) (routed : Routed req gens gens₁ g) (agrees : Agrees req g) :
    g.bytes.take (min g.row.highWater file.length) =
      file.take (min g.row.highWater file.length) := by
  rcases routed.reaches with empty | ⟨g₀, _, found, rfl⟩
  · simp [empty]
  · exact Decidable.byContradiction fun differs => kept ⟨g₀, found, agrees, differs⟩

/-- A call at offset 0 that does not skip, or a cursor that has only passed compared bytes. -/
inductive Good (client : Client) (file : Bytes) (id : Identity) (loop : Loop)
    (gens : List Generation) :
    Prop where
  | held (holds : Holds file gens)
  | fresh (zero : loop.cur.offset = 0) (nonempty : file ≠ [])
      (kept : ∀ now, ¬ Skips file (loop.ask client id file now) gens)
  | filling {g : Generation} (filling : Filling file loop.cur gens g)
      (same : g.bytes.take loop.cur.offset = file.take loop.cur.offset)

theorem Holds.extends {gens gens' : List Generation} (holds : Holds file gens)
    (extended : Extends gens gens') : Holds file gens' := by
  obtain ⟨g, member, covers, same⟩ := holds
  obtain ⟨g', member', grown⟩ := extended g member
  refine ⟨g', member', Nat.le_trans covers grown.highWater, ?_⟩
  have kept := congrArg (List.take file.length) grown.bytes
  rwa [List.take_take, List.take_take, Nat.min_eq_left covers, same] at kept

theorem part_zero (file : Bytes) : part file 0 = file.take maxPUTBody := by
  rw [part, List.drop_zero, Nat.sub_zero, ← List.take_take]
  exact List.take_of_length_le (by simp)

/-- What a first PUT that agrees as far as the mirror goes leaves in the mirror. -/
theorem settled_first {g : Generation} {now : String} (covered : g.row.highWater ≤ g.bytes.length)
    (same : g.bytes.take (min g.row.highWater file.length) =
    file.take (min g.row.highWater file.length)) :
    (settled g ((part file 0).drop (min (part file 0).length g.row.highWater)) now).bytes.take
        (min (g.row.highWater + ((part file 0).length - g.row.highWater)) file.length) =
      file.take (min (g.row.highWater + ((part file 0).length - g.row.highWater)) file.length) := by
  rw [part_zero]
  by_cases beyond : file.length ≤ g.row.highWater
  · have all :
      min (g.row.highWater + ((file.take maxPUTBody).length - g.row.highWater)) file.length =
        min g.row.highWater file.length := by omega
    rw [all, settled_take_below covered (Nat.min_le_left _ _), same]
  · have short : min g.row.highWater file.length = g.row.highWater := by omega
    rw [short] at same
    have tail :
      ((file.take maxPUTBody).drop (min (file.take maxPUTBody).length g.row.highWater)).length =
        (file.take maxPUTBody).length - g.row.highWater := by
      rw [List.length_drop]
      omega
    have whole := @settled_take g ((file.take maxPUTBody).drop
      (min (file.take maxPUTBody).length g.row.highWater)) now covered
    rw [tail] at whole
    have inside :
      min (g.row.highWater + ((file.take maxPUTBody).length - g.row.highWater)) file.length =
        g.row.highWater + ((file.take maxPUTBody).length - g.row.highWater) := by
      rw [List.length_take]
      omega
    rw [inside, whole, same]
    by_cases longer : g.row.highWater ≤ (file.take maxPUTBody).length
    · rw [Nat.min_eq_right longer, Nat.add_sub_cancel' longer, List.length_take, ← List.take_take,
        List.take_length]
      calc file.take g.row.highWater ++ (file.take maxPUTBody).drop g.row.highWater
          = (file.take maxPUTBody).take g.row.highWater ++
              (file.take maxPUTBody).drop g.row.highWater := by
            rw [List.take_take, Nat.min_eq_left]
            rw [List.length_take] at longer
            omega
        _ = file.take maxPUTBody := List.take_append_drop _ _
    · have nothing : (file.take maxPUTBody).length - g.row.highWater = 0 := by omega
      rw [nothing, Nat.add_zero, Nat.min_eq_left (by omega), List.drop_length, List.append_nil]

theorem ask_excess {g : Generation} {now : String} (zero : loop.cur.offset = 0) :
    excess (loop.ask client id file now) g =
      (part file 0).drop (min (part file 0).length g.row.highWater) := by
  simp only [excess, overlapLength, Loop.ask, Client.request, zero, Nat.sub_zero]

/-- After the first PUT was acknowledged below the end of the file, the cursor follows the
    generation it was answered for. -/
theorem filling_of_acked {gens gens₁ : List Generation} {g : Generation} {now : String}
    (steady : Steady file id loop) (zero : loop.cur.offset = 0) (sound₁ : Sound id gens₁)
    (sound' : Sound id (replaceWith g
    (settled g (excess (loop.ask client id file now) g) now) gens₁))
    (routed : Routed (loop.ask client id file now) gens gens₁ g) (clean : g.row.poisoned = false)
    (named : loop'.cur.fingerprint = loop.cur.fingerprint)
    (moved : loop'.cur.offset = g.row.highWater + (excess (loop.ask client id file now) g).length)
    (short : loop'.cur.offset < file.length)
    (window : (settled g (excess (loop.ask client id file now) g) now).bytes.take
    fingerprintWindowBytes =
      file.take fingerprintWindowBytes) :
    Filling file loop'.cur (replaceWith g
      (settled g (excess (loop.ask client id file now) g) now) gens₁)
      (settled g (excess (loop.ask client id file now) g) now) := by
  have length :
      (excess (loop.ask client id file now) g).length = (part file 0).length - g.row.highWater := by
    rw [ask_excess zero, List.length_drop]
    omega
  have partLength := part_length file 0
  have wide : fingerprintWindowBytes ≤ loop'.cur.offset := by
    simp only [fingerprintWindowBytes, maxPUTBody] at *
    omega
  obtain ⟨fp, ready⟩ : ∃ fp, fingerprint file = some fp := by
    unfold fingerprint
    rw [if_neg (by omega)]
    exact ⟨_, rfl⟩
  have current := steady.named fp ready
  have claim : (loop.ask client id file now).fingerprint = some fp := by
    rw [← current]
    exact ask_fingerprint (current ▸ ready)
  have recordedAs :
      (settled g (excess (loop.ask client id file now) g) now).row.fingerprint = some fp := by
    rw [settled_fingerprint]
    split
    · exact routed.claimed claim
    · rename_i more
      rw [refreshed, if_neg (by omega)]
      rw [settled_bytes, if_neg more] at window
      exact digest_of_window ready window
  have targets := (routed.targets sound₁).replaced sound₁ sound' (settled_generation ..)
    fun other carried => by
      cases claim.symm.trans carried
      exact recordedAs
  simp only [Targets, claim] at targets
  refine ⟨by rw [named, current]; exact ready, ?_, ?_, ?_, wide, window⟩
  · rw [named, current]
    exact targets
  · rw [settled_poisoned, clean]
  · rw [settled_highWater, moved]

theorem Good.turn {quiet : Prop} {gens gens' : List Generation} {res : PutResult} {now : String}
    (good : Good client file id loop gens) (steady : Steady file id loop)
    (pending : loop.cur.offset < file.length) (sound : Sound id gens)
    (step : PutStep quiet (loop.ask client id file now) gens res gens')
    (again : loop.react id file.length now res.reply = .again loop') :
    Good client file id loop' gens' := by
  cases good with
  | held holds => exact .held (holds.extends (step.extends sound))
  | @filling g filling same =>
    obtain ⟨rfl, next, moved⟩ := filling.turn steady pending sound step again
    have covered := sound.covered g (newest_mem filling.found).1
    refine .filling next ?_
    have grown := @settled_take g (part file loop.cur.offset) now covered
    rw [filling.reached] at grown
    rw [moved, grown, same, List.take_add, part_length]
    rfl
  | fresh zero nonempty kept =>
    -- Nothing has been sent of the file yet: what may answer is any generation it agrees with.
    have sound' := step.sound sound
    obtain ⟨turned, _, named⟩ := steady.turned step again
    have sameClaim : ∀ now', (loop'.ask client id file now').fingerprint =
        (loop.ask client id file now).fingerprint := by
      intro now'
      simp only [Loop.ask, Client.request, named]
    cases turned with
    | rewound _ beyond =>
      simp only [Loop.ask, Client.request, zero] at beyond
      cases beyond
    | @conflicted gens₁ g routed differs stays =>
      have sound₁ := routed.sound sound
      have zero' := stays.trans zero
      refine .fresh zero' nonempty fun now' skips => ?_
      obtain ⟨g', found, agrees, _⟩ := skips
      have targets :=
        (routed.targets sound₁).replaced sound₁ sound' rfl fun fp claim => routed.claimed claim
      have targets' : Targets (loop'.ask client id file now') (replaceWith g (pend true g) gens₁)
          (pend true g) := by
        unfold Targets at targets ⊢
        rwa [sameClaim now']
      rw [targets'.route_eq] at found
      cases found
      refine differs ?_
      simpa only [Agrees, overlapLength, Loop.ask, Client.request, zero, zero', pend,
        Generation.withRow_bytes, Generation.withRow_row] using agrees
    | @opened gens₁ fresh _ empty claimed moved =>
      refine .fresh moved nonempty fun now' skips => ?_
      obtain ⟨g', found, _, differs⟩ := skips
      have targets : Targets (loop'.ask client id file now') (gens₁ ++ [fresh]) fresh :=
        .snoc (fun fp claim => claimed fp (by rwa [← sameClaim now'])) gens₁
      rw [targets.route_eq] at found
      cases found
      simp [empty] at differs
    | @acked gens₁ g routed clean _ agrees moved =>
      have sound₁ := routed.sound sound
      have covered := sound₁.covered g routed.mem
      have same := @settled_first file g now covered (agrees_as_far (kept now) routed agrees)
      have length : (excess (loop.ask client id file now) g).length =
          (part file 0).length - g.row.highWater := by
        rw [ask_excess zero, List.length_drop]
        omega
      rw [← length, ← @ask_excess file id loop client g now zero] at same
      have member :=
        @mem_replaceWith g (settled g (excess (loop.ask client id file now) g) now) gens₁ routed.mem
      by_cases whole :
        file.length ≤ g.row.highWater + (excess (loop.ask client id file now) g).length
      · refine .held ⟨_, member, by rw [settled_highWater]; exact whole, ?_⟩
        rw [Nat.min_eq_right whole] at same
        rw [same, List.take_length]
      · rw [Nat.min_eq_left (by omega)] at same moved
        have wide : fingerprintWindowBytes ≤
            g.row.highWater + (excess (loop.ask client id file now) g).length := by
          have partLength := part_length file 0
          simp only [fingerprintWindowBytes, maxPUTBody] at *
          omega
        refine .filling (filling_of_acked steady zero sound₁ sound' routed clean named moved
          (by omega) ?_) ?_
        · have cut := congrArg (List.take fingerprintWindowBytes) same
          rwa [List.take_take, List.take_take, Nat.min_eq_left wide] at cut
        · rw [moved]
          exact same

theorem Good.stop {gens : List Generation} (good : Good client file id loop gens)
    (steady : Steady file id loop) (quiescent : file.length ≤ loop.cur.offset) :
    Holds file gens := by
  cases good with
  | held holds => exact holds
  | fresh zero nonempty =>
    rw [zero] at quiescent
    exact absurd (List.length_eq_zero_iff.mp (Nat.le_zero.mp quiescent)) nonempty
  | @filling g filling same =>
    have whole := Nat.le_antisymm steady.within quiescent
    refine ⟨g, (newest_mem filling.found).1, by rw [filling.reached]; exact quiescent, ?_⟩
    rw [whole] at same
    rw [same, List.take_length]

/-! ## A first PUT that skips -/

/-- A call at offset 0 that skips, or a cursor that has passed bytes nobody compared. -/
inductive Bad (client : Client) (file : Bytes) (id : Identity) (loop : Loop)
    (gens : List Generation) :
    Prop where
  | stopped (quiescent : file.length ≤ loop.cur.offset)
  | skips (zero : loop.cur.offset = 0)
      (skips : ∀ now, Skips file (loop.ask client id file now) gens)
  | filling {g : Generation} (filling : Filling file loop.cur gens g)
      (differs : g.bytes.take loop.cur.offset ≠ file.take loop.cur.offset)

/-- A generation the first body agrees with, without agreeing with the file, is longer than the
body. -/
theorem longer_of_skips {req : PutRequest} {g : Generation} (zero : req.offset = 0)
    (body : req.body = part file 0) (agrees : Agrees req g)
    (differs : g.bytes.take (min g.row.highWater file.length) ≠
    file.take (min g.row.highWater file.length)) :
    (part file 0).length < g.row.highWater ∧ g.bytes.take (part file 0).length = part file 0 ∧
      maxPUTBody < file.length := by
  have partLength := part_length file 0
  rw [Agrees, overlapLength, zero, body, List.drop_zero, Nat.sub_zero] at agrees
  have longer : (part file 0).length < g.row.highWater := by
    by_contra short
    have inside : min (part file 0).length g.row.highWater = g.row.highWater := by omega
    have all : min g.row.highWater file.length = g.row.highWater := by omega
    rw [inside, part_zero, List.take_take, Nat.min_eq_left (by omega)] at agrees
    rw [all] at differs
    exact differs agrees
  rw [Nat.min_eq_left (by omega), List.take_length] at agrees
  refine ⟨longer, agrees, ?_⟩
  by_contra small
  have whole : part file 0 = file := by
    rw [part_zero, List.take_of_length_le (by omega)]
  rw [whole] at agrees longer
  rw [Nat.min_eq_right (by omega), agrees, List.take_length] at differs
  exact differs rfl

theorem holds_of_mirrors {gens gens' : List Generation}
    (same : gens'.map Generation.mirrors = gens.map Generation.mirrors) (holds : Holds file gens') :
    Holds file gens := by
  obtain ⟨g', member, covers, bytes⟩ := holds
  have listed : g'.mirrors ∈ gens.map Generation.mirrors := by
    rw [← same]
    exact List.mem_map_of_mem member
  obtain ⟨g, gMember, equal⟩ := List.mem_map.mp listed
  simp only [Generation.mirrors, Prod.mk.injEq] at equal
  refine ⟨g, gMember, by rw [equal.2.1]; exact covers, by rw [equal.2.2]; exact bytes⟩

theorem Bad.turn {quiet : Prop} {gens gens' : List Generation} {res : PutResult} {now : String}
    (bad : Bad client file id loop gens) (unheld : ¬ Holds file gens) (steady : Steady file id loop)
    (pending : loop.cur.offset < file.length) (sound : Sound id gens)
    (step : PutStep quiet (loop.ask client id file now) gens res gens')
    (again : loop.react id file.length now res.reply = .again loop') :
    Bad client file id loop' gens' ∧ ¬ Holds file gens' := by
  cases bad with
  | stopped quiescent => exact absurd pending (Nat.not_lt_of_le quiescent)
  | @filling g filling differs =>
    obtain ⟨rfl, next, moved⟩ := filling.turn steady pending sound step again
    have covered := sound.covered g (newest_mem filling.found).1
    have kept : (settled g (part file loop.cur.offset) now).bytes.take loop.cur.offset =
        g.bytes.take loop.cur.offset :=
      settled_take_below covered (Nat.le_of_eq filling.reached.symm)
    -- The bytes below the offset differ, and nothing below it is written again.
    have spoiled : ∀ n, loop.cur.offset ≤ n →
        (settled g (part file loop.cur.offset) now).bytes.take n ≠ file.take n := by
      intro n above equal
      have cut := congrArg (List.take loop.cur.offset) equal
      rw [List.take_take, List.take_take, Nat.min_eq_left above, kept] at cut
      exact differs cut
    refine ⟨.filling next (spoiled _ (by omega)), ?_⟩
    rintro ⟨h, member, covers, bytes⟩
    obtain ⟨old, oldMember, ⟨_, rfl⟩ | ⟨_, rfl⟩⟩ := mem_adjust.mp member
    · exact spoiled file.length (Nat.le_of_lt pending) (by rw [bytes, List.take_length])
    · exact unheld ⟨h, oldMember, covers, bytes⟩
  | skips zero skips =>
    obtain ⟨g₀, found, agrees, differs⟩ := skips now
    obtain ⟨longer, same, long⟩ := @longer_of_skips file (loop.ask client id file now) g₀ zero
      (by simp only [Loop.ask, Client.request, zero]) agrees differs
    have sound' := step.sound sound
    obtain ⟨turned, _, named⟩ := steady.turned step again
    -- Whichever way the request is routed, it reaches the generation that was compared.
    have reaches : ∀ {gens₁ : List Generation} {g : Generation},
        Routed (loop.ask client id file now) gens gens₁ g →
            g = claimedBy (loop.ask client id file now) g₀ := by
      intro gens₁ g routed
      rcases routed.route_eq with ⟨unknown, _⟩ | ⟨g₁, _, found₁, evaluated⟩
      · subst unknown
        unfold route at found
        split at found <;> simp [newest] at found
      · cases found.symm.trans found₁
        exact evaluated
    cases turned with
    | rewound _ beyond =>
      simp only [Loop.ask, Client.request, zero] at beyond
      cases beyond
    | conflicted routed differs' =>
      rw [reaches routed] at differs'
      exact absurd agrees differs'
    | opened reason =>
      rcases reason with unrouted | ⟨_, g, routed, differs'⟩
      · cases found.symm.trans unrouted
      · rw [reaches routed] at differs'
        exact absurd agrees differs'
    | @acked gens₁ g routed clean _ _ moved =>
      have evaluated := reaches routed
      have sound₁ := routed.sound sound
      have highWater : g.row.highWater = g₀.row.highWater := by rw [evaluated]; rfl
      have bytes : g.bytes = g₀.bytes := by rw [evaluated]; rfl
      -- The mirror is longer than the request, so nothing is appended.
      have nothing : excess (loop.ask client id file now) g = [] := by
        rw [ask_excess zero, Nat.min_eq_left (by omega), List.drop_length]
      rw [nothing] at moved sound' ⊢
      rw [List.length_nil, Nat.add_zero, highWater] at moved
      have known : gens ≠ [] := by
        rintro rfl
        unfold route at found
        split at found <;> simp [newest] at found
      obtain ⟨g₁, _, _, _, view⟩ := routed.view_eq sound known
      have routedMirrors : gens₁.map Generation.mirrors = gens.map Generation.mirrors := by
        rw [view]
        exact adjust_mirrors gens fun _ => rfl
      have mirrors : (replaceWith g (settled g [] now) gens₁).map Generation.mirrors =
          gens₁.map Generation.mirrors := by
        have same : replaceWith g (settled g [] now) gens₁ =
            adjust g.row.generation (fun h => settled h [] now) gens₁ :=
          adjust_congr fun h hMember numbered => by rw [sound₁.unique hMember routed.mem numbered]
        rw [same]
        exact adjust_mirrors gens₁ fun _ => rfl
      refine ⟨?_, fun holds => unheld (holds_of_mirrors (mirrors.trans routedMirrors) holds)⟩
      -- The cursor comes to the end of the file, or to bytes that no request compares.
      by_cases whole : file.length ≤ g₀.row.highWater
      · rw [Nat.min_eq_right whole] at moved
        exact .stopped (Nat.le_of_eq moved.symm)
      · rw [Nat.min_eq_left (by omega)] at moved differs
        have windowed : g.bytes.take fingerprintWindowBytes = file.take fingerprintWindowBytes := by
          have cut := congrArg (List.take fingerprintWindowBytes) same
          have wide : fingerprintWindowBytes ≤ (part file 0).length := by
            rw [part_length]
            simp only [fingerprintWindowBytes, maxPUTBody] at *
            omega
          rw [List.take_take, Nat.min_eq_left wide, part_zero, List.take_take,
            Nat.min_eq_left (by decide)] at cut
          rw [bytes, cut]
        have filled : Filling file loop'.cur
            (replaceWith g (settled g (excess (loop.ask client id file now) g) now) gens₁)
            (settled g (excess (loop.ask client id file now) g) now) :=
          filling_of_acked steady zero sound₁ (by rw [nothing]; exact sound') routed clean named
            (by rw [nothing, List.length_nil, Nat.add_zero, highWater]; exact moved) (by omega)
            (by rw [nothing]; exact windowed)
        rw [nothing] at filled
        refine .filling filled ?_
        rw [moved]
        change g.bytes.take g₀.row.highWater ≠ _
        rw [bytes]
        exact differs

end

/-! ## A quiescent shipper has shipped the file, unless it skipped -/

theorem enter_loop {shipper : Shipper} {d : Discovered} {loop : Loop} (cap : shipper.maxBody = 0)
    (entered : shipper.enter d = .again loop) :
    loop.maxBody = maxPUTBody ∧ loop.cur.identity = d.identity := by
  have keyed : ((shipper.registry.get d.identity).getD d.cursor).identity = d.identity := by
    cases found : shipper.registry.get d.identity with
    | none => rfl
    | some cur => exact shipper.registry.keyed _ cur found
  have bodyCap : shipper.bodyCap = maxPUTBody := by simp [Shipper.bodyCap, cap]
  unfold Shipper.enter at entered
  cases held : shipper.held d.identity with
  | some reason =>
    simp only [held] at entered
    cases entered
  | none =>
    simp only [held] at entered
    split at entered
    · cases entered
    · cases entered
      split <;> exact ⟨bodyCap, keyed⟩

theorem shipLoop_observe {client : Client} {id : Identity} {file : Bytes} {loop : Loop}
    (cap : loop.maxBody = maxPUTBody) (identity : loop.cur.identity = id)
    (conditions : List PutConditions) (store : Store) :
    shipLoop client id file conditions loop store =
      shipLoop client id file conditions (loop.observe file file) store := by
  have steady : Steady file id (loop.observe file file) := steady_observe cap identity
  cases conditions with
  | nil => rfl
  | cons here rest =>
    have same : loop.prepare (.content file) (.content file) (.content file) =
        (loop.observe file file).prepare (.content file) (.content file) (.content file) := by
      simp only [Loop.prepare, steady.observe]
    rw [shipLoop, shipLoop, same]

/-- Where a call that starts at offset 0 returns `nil`, neither poisoned nor held, some
    generation holds the file exactly if one did before, or the file is not empty and its
    first PUT does not skip. -/
theorem quiesced_shipped_iff {client : Client} {d : Discovered} {file : Bytes}
    {conditions : List PutConditions} {before : List Op} {shipper shipper' : Shipper}
    {store' : Store}
    {loop : Loop} (cap : shipper.maxBody = 0) (entered : shipper.enter d = .again loop)
    (zero : (loop.observe file file).cur.offset = 0)
    (returned : shipFile client file d conditions shipper (Store.empty.run before) =
      some (.ok, shipper', store'))
    (spared : Spared d.identity shipper') :
    Holds file (store'.view d.identity) ↔
      Holds file ((Store.empty.run before).view d.identity) ∨
        (file ≠ [] ∧ ¬ Skips file ((loop.observe file file).ask client d.identity file "")
          ((Store.empty.run before).view d.identity)) := by
  obtain ⟨loopCap, identity⟩ := enter_loop cap entered
  have steady : Steady file d.identity (loop.observe file file) := steady_observe loopCap identity
  have wellFormed := run_wellFormed Store.empty_wellFormed before
  simp only [shipFile, entered] at returned
  rw [shipLoop_observe loopCap identity] at returned
  have goodGives : Good client file d.identity (loop.observe file file)
      ((Store.empty.run before).view d.identity) → Holds file (store'.view d.identity) := by
    intro good
    refine shipLoop_settles (fun loop gens => Steady file d.identity loop ∧
      Good client file d.identity loop gens) (Holds file) (fun _ _ inv => inv.1)
      (fun _ _ inv quiescent => inv.2.stop inv.1 quiescent) ?_ wellFormed
        ⟨steady, good⟩ returned spared
    intro quiet loop gens res gens' now loop' inv pending sound step again
    exact ⟨(inv.1.turned step again).2.1, inv.2.turn inv.1 pending sound step again⟩
  have badGives : Bad client file d.identity (loop.observe file file)
      ((Store.empty.run before).view d.identity) →
      ¬ Holds file ((Store.empty.run before).view d.identity) →
          ¬ Holds file (store'.view d.identity) := by
    intro bad unheld
    refine shipLoop_settles (fun loop gens => Steady file d.identity loop ∧
      Bad client file d.identity loop gens ∧ ¬ Holds file gens) (fun gens => ¬ Holds file gens)
      (fun _ _ inv => inv.1) (fun _ _ inv _ => inv.2.2) ?_ wellFormed
        ⟨steady, bad, unheld⟩ returned spared
    intro quiet loop gens res gens' now loop' inv pending sound step again
    exact ⟨(inv.1.turned step again).2.1, inv.2.1.turn inv.2.2 inv.1 pending sound step again⟩
  constructor
  · intro holds
    by_contra neither
    rw [not_or, not_and, not_not] at neither
    obtain ⟨unheld, skipping⟩ := neither
    by_cases nothing : file = []
    · exact badGives (.stopped (by simp [nothing])) unheld holds
    · exact badGives (.skips zero fun _ => skipping nothing) unheld holds
  · rintro (holds | ⟨nonempty, kept⟩)
    · exact goodGives (.held holds)
    · exact goodGives (.fresh zero nonempty fun _ => kept)

def shortCall : Option (Returned × Shipper × Store) :=
  shipFile sampleClient [1, 2, 3] sampleFile [⟨"", []⟩, ⟨"", []⟩] newShipper (Store.empty.run [])

/-- A first call of a new shipper. -/
theorem quiesced_shipped_iff_sample :
    ∃ shipper' store', shortCall = some (.ok, shipper', store') ∧
      Spared sampleFile.identity shipper' ∧
      Holds [1, 2, 3] (store'.view sampleFile.identity) := by
  have evaluated : shortCall.map (fun ended => (ended.1,
      (ended.2.1.registry.get sampleFile.identity).map (·.poisoned),
        ended.2.1.held sampleFile.identity)) =
      some (.ok, some false, none) := by decide +kernel
  rcases ran : shortCall with _ | ⟨result, shipper', store'⟩
  · rw [ran] at evaluated
    cases evaluated
  · rw [ran] at evaluated
    simp only [Option.map_some, Option.some.injEq, Prod.mk.injEq] at evaluated
    obtain ⟨rfl, poisoned, unheld⟩ := evaluated
    have spared : Spared sampleFile.identity shipper' := by
      refine ⟨fun cur found => ?_, unheld⟩
      rw [found] at poisoned
      simpa using poisoned
    refine ⟨shipper', store', rfl, spared, ?_⟩
    refine (quiesced_shipped_iff rfl rfl rfl ran spared).mpr (Or.inr ⟨by decide, ?_⟩)
    rintro ⟨g, found, _⟩
    cases found

/-! ## A file longer than one body -/

section

variable {quiet : Prop} {req : PutRequest} {gens gens' : List Generation} {g : Generation}
  {res : PutResult}

/-- Under calm storage a request that agrees with its target is acknowledged. -/
theorem acked_of_calm (calm : quiet) (sound : Sound req.identity gens)
    (targets : Targets req gens g)
    (clean : g.row.poisoned = false) (reached : req.offset ≤ g.row.highWater)
    (agrees : Agrees req g)
    (step : PutStep quiet req gens res gens') :
    gens' = replaceWith g (settled g (excess req g) req.now) gens ∧
      ∃ event, res = acknowledged (settled g (excess req g) req.now).row event := by
  have found := targets.route_eq
  have known : gens ≠ [] := by
    rintro rfl
    unfold route at found
    split at found <;> simp [newest] at found
  cases step with
  | unselected _ loud => exact absurd calm loud
  | conflict _ claim unmatched last other =>
    rw [route_conflict claim unmatched last other] at found
    cases found
  | @routed gens₁ _ g₁ _ routed handled =>
    obtain ⟨g₀, _, found₀, evaluated, view⟩ := routed.view_eq sound known
    cases found.symm.trans found₀
    have named : claimedBy req g = g := by
      refine claimedBy_self ?_
      cases claim : req.fingerprint with
      | none => simp
      | some fp =>
        simp only [Targets, claim] at targets
        simp [(newest_mem targets).2]
    have unmoved : gens₁ = gens := by
      rw [view]
      calc adjust g.row.generation (claimedBy req) gens = replaceWith g g gens :=
            adjust_congr fun h hMember numbered => by
              rw [sound.unique hMember (by assumption) numbered, named]
        _ = gens := replaceWith_self sound (by assumption)
    rw [named] at evaluated
    subst evaluated unmoved
    cases handled with
    | poisoned marked => exact absurd (clean.symm.trans marked) (by simp)
    | gap _ beyond => exact absurd beyond (Nat.not_lt_of_le reached)
    | byteConflict _ _ differs | poisons _ _ differs | opened _ _ _ differs =>
        exact absurd agrees differs
    | success event => exact ⟨rfl, event, rfl⟩
    | failed _ _ loud => exact absurd calm loud

theorem first_of_calm (calm : quiet) (zero : req.offset = 0)
    (step : PutStep quiet req [] res gens') :
    ∃ left event, gens' =
        [settled ⟨freshRow req.identity 0 req.fingerprint false req.now, left⟩ req.body req.now] ∧
      res = acknowledged
        (settled ⟨freshRow req.identity 0 req.fingerprint false req.now, left⟩ req.body req.now).row
        event := by
  cases step with
  | unselected _ loud => exact absurd calm loud
  | conflict _ _ _ last => cases last
  | routed routed handled =>
    cases routed with
    | matched _ found => cases found
    | adopted _ _ last | active _ last => cases last
    | first left =>
      have nothing :
          overlapLength req ⟨freshRow req.identity 0 req.fingerprint false req.now, left⟩ = 0 := by
        simp [overlapLength, freshRow]
      have whole :
          excess req ⟨freshRow req.identity 0 req.fingerprint false req.now, left⟩ = req.body := by
        rw [excess, nothing, List.drop_zero]
      have agrees : Agrees req ⟨freshRow req.identity 0 req.fingerprint false req.now, left⟩ := by
        simp [Agrees, nothing]
      cases handled with
      | poisoned marked => cases marked
      | gap _ beyond =>
        rw [zero] at beyond
        cases beyond
      | byteConflict _ _ differs | poisons _ _ differs | opened _ _ _ differs =>
          exact absurd agrees differs
      | success event =>
        refine ⟨left, event, ?_, by rw [whole]⟩
        simp [whole, replaceWith, adjust]
      | failed _ _ loud => exact absurd calm loud

end

/-- A generation that mirrors a whole file under its fingerprint. -/
structure Mirroring (file : Bytes) (fp : String) (g : Generation) : Prop where
  claimed : g.row.fingerprint = some fp
  clean : g.row.poisoned = false
  highWater : g.row.highWater = file.length
  covered : g.row.highWater ≤ g.bytes.length
  bytes : g.bytes.take file.length = file

theorem fingerprint_append {file : Bytes} {fp : String} (ready : fingerprint file = some fp)
    (more : Bytes) :
    fingerprint (file ++ more) = some fp := by
  unfold fingerprint at ready ⊢
  split at ready
  · cases ready
  · rename_i wide
    rw [List.take_append_of_le_length (Nat.le_of_not_lt wide), if_neg, ready]
    rw [List.length_append]
    omega

/-- An append that completes a file of which the generation mirrors the rest. -/
theorem mirroring_settled {g : Generation} {file body : Bytes} {fp now : String}
    (clean : g.row.poisoned = false) (covered : g.row.highWater ≤ g.bytes.length)
    (nonempty : body ≠ [])
    (joined : g.bytes.take g.row.highWater ++ body = file) (ready : fingerprint file = some fp) :
    Mirroring file fp (settled g body now) := by
  have length : g.row.highWater + body.length = file.length := by
    rw [← joined, List.length_append, List.length_take, Nat.min_eq_left covered]
  have bytes : (settled g body now).bytes.take file.length = file := by
    rw [← length, settled_take covered, joined]
  refine ⟨?_, (settled_poisoned ..).trans clean, (settled_highWater ..).trans length,
    settled_covered covered,
    bytes⟩
  have wide : fingerprintWindowBytes ≤ file.length := by
    unfold fingerprint at ready
    split at ready
    · cases ready
    · omega
  have windowed := congrArg (List.take fingerprintWindowBytes) bytes
  rw [List.take_take, Nat.min_eq_left wide] at windowed
  have written : (settled g body now).bytes = writeAt g.bytes g.row.highWater body :=
    (settled_bytes ..).trans (if_neg nonempty)
  rw [settled_fingerprint, if_neg nonempty, refreshed, if_neg (by omega), ← written]
  exact digest_of_window ready windowed

theorem targets_only {req : PutRequest} {g : Generation} {fp : String}
    (claim : req.fingerprint = some fp)
    (claimed : g.row.fingerprint = some fp) : Targets req [g] g := by
  simp [Targets, claim, newest, claimed]

/-- Two PUTs of a client mirror a file that is longer than one body. -/
theorem mirroring_view {head tail : Bytes} {fp : String} (ready : fingerprint head = some fp)
    (more : tail ≠ []) :
    (Store.empty.run (calls [samplePut fp 0 head, samplePut fp head.length tail])).failAppendOnce =
    false ∧
      ∃ g, (Store.empty.run (calls [samplePut fp 0 head, samplePut fp head.length tail])).view
          sampleIdentity = [g] ∧ Mirroring (head ++ tail) fp g := by
  have wellFormed := put_wellFormed Store.empty_wellFormed (samplePut fp 0 head) []
  have uninjected := put_uninjected Store.empty_wellFormed (samplePut fp 0 head) calm_nil rfl
  obtain ⟨left, _, view, _⟩ := first_of_calm ⟨calm_nil, rfl⟩ rfl
    (put_step Store.empty_wellFormed (samplePut fp 0 head) []).1
  have some_head : head ≠ [] := by
    rintro rfl
    cases ready
  have opened : Mirroring head fp (settled ⟨freshRow sampleIdentity 0 (some fp) false
      (samplePut fp 0 head).now, left⟩ head (samplePut fp 0 head).now) :=
    mirroring_settled rfl (Nat.zero_le _) some_head (by simp [freshRow]) ready
  change (Store.empty.put (samplePut fp 0 head) []).2.view sampleIdentity =
    [settled ⟨freshRow sampleIdentity 0 (some fp) false (samplePut fp 0 head).now, left⟩ head _]
      at view
  generalize settled _ head _ = g at view opened
  have nothing : overlapLength (samplePut fp head.length tail) g = 0 := by
    rw [overlapLength, opened.highWater]
    simp [samplePut]
  have excess_tail : excess (samplePut fp head.length tail) g = tail := by rw [excess, nothing]; rfl
  have step := (put_step wellFormed (samplePut fp head.length tail) []).1
  change PutStep _ _ ((Store.empty.put (samplePut fp 0 head) []).2.view sampleIdentity) _ _ at step
  rw [view] at step
  have sound : Sound sampleIdentity [g] := view ▸ wellFormed sampleIdentity
  obtain ⟨view', _⟩ := acked_of_calm ⟨calm_nil, uninjected⟩ sound (targets_only rfl opened.claimed)
    opened.clean (Nat.le_of_eq opened.highWater.symm) (by simp [Agrees, nothing]) step
  rw [excess_tail] at view'
  refine ⟨put_uninjected wellFormed (samplePut fp head.length tail) calm_nil uninjected,
    settled g tail (samplePut fp head.length tail).now, view'.trans (by simp [replaceWith, adjust]),
      ?_⟩
  refine mirroring_settled opened.clean opened.covered more ?_ (fingerprint_append ready tail)
  rw [opened.highWater, opened.bytes]


/-- The loop of a new cursor once it has named the fingerprint of the file. -/
def started (fp : String) : Loop :=
  (Loop.mk newShipper sampleFile.cursor maxPUTBody false).save
    { sampleFile.cursor with fingerprint := fp }

theorem observe_new {file : Bytes} {fp : String} (ready : fingerprint file = some fp) :
    (Loop.mk newShipper sampleFile.cursor maxPUTBody false).observe file file = started fp := by
  have other : "" ≠ fp := (fingerprint_ne_empty ready).symm
  simp [Loop.observe, Loop.regress, Loop.refingerprint, Cursor.recreated, ready, Discovered.cursor,
    other,
    started]

/-- A file that agrees with a mirrored one as far as its first body goes: one PUT, and the
    mirror stays as it was. -/
theorem recreated_returns {store : Store} {g : Generation} {mirrored file : Bytes} {fp : String}
    (wellFormed : store.WellFormed) (uninjected : store.failAppendOnce = false)
    (view : store.view sampleIdentity = [g]) (mirroring : Mirroring mirrored fp g)
    (same : file.length = mirrored.length)
    (starts : file.take maxPUTBody = mirrored.take maxPUTBody)
    (ready : fingerprint file = some fp) :
    ∃ shipper' store', shipFile sampleClient file sampleFile [⟨"", []⟩, ⟨"", []⟩] newShipper store =
        some (.ok, shipper', store') ∧
      Spared sampleIdentity shipper' ∧ store'.view sampleIdentity = [settled g [] ""] := by
  have steady : Steady file sampleIdentity (started fp) :=
    observe_new ready ▸ steady_observe rfl rfl
  have wide : 0 < file.length := by
    unfold fingerprint at ready
    split at ready
    · cases ready
    · simp only [fingerprintWindowBytes] at *
      omega
  have claim : ((started fp).ask sampleClient sampleIdentity file "").fingerprint = some fp :=
    @ask_fingerprint file sampleIdentity (started fp) sampleClient "" ready
  have overlap : overlapLength ((started fp).ask sampleClient sampleIdentity file "") g =
      (part file 0).length := by
    rw [overlapLength, mirroring.highWater]
    refine Nat.min_eq_left ?_
    have length := part_length file 0
    change (part file 0).length ≤ _ - 0
    omega
  have agrees : Agrees ((started fp).ask sampleClient sampleIdentity file "") g := by
    rw [Agrees, overlap]
    change (g.bytes.drop 0).take _ = (part file 0).take _
    have cut := congrArg (List.take (part file 0).length) mirroring.bytes
    rw [List.take_take, Nat.min_eq_left (by rw [part_length]; omega)] at cut
    rw [List.drop_zero, cut, List.take_length, part_zero, starts, List.length_take]
    exact (List.take_eq_take_min ..).symm
  have nothing : excess ((started fp).ask sampleClient sampleIdentity file "") g = [] := by
    rw [excess, overlap]
    exact List.drop_length
  have step := (put_step wellFormed ((started fp).ask sampleClient sampleIdentity file "") []).1
  change PutStep _ _ (store.view sampleIdentity) _ _ at step
  rw [view] at step
  obtain ⟨view', event, acked⟩ :=
    acked_of_calm ⟨calm_nil, uninjected⟩ (view ▸ wellFormed sampleIdentity)
    (targets_only claim mirroring.claimed) mirroring.clean (Nat.zero_le _) agrees step
  rw [nothing] at view' acked
  have reply := congrArg PutResult.reply acked
  -- the cursor jumps to the high-water of the generation, which is the size of the file
  have moved : (settled g [] "").row.highWater = file.length := by
    rw [settled_highWater, mirroring.highWater, same]
    rfl
  obtain ⟨loop', again, atEnd, saved⟩ : ∃ loop', (started fp).react sampleIdentity file.length ""
        (store.put ((started fp).ask sampleClient sampleIdentity file "") []).1.reply =
          .again loop' ∧
      file.length ≤ loop'.cur.offset ∧ Spared sampleIdentity loop'.shipper := by
    rw [reply]
    refine ⟨_, rfl, ?_, ?_, rfl⟩
    · exact Nat.le_min.mpr ⟨Nat.le_of_eq moved.symm, Nat.le_refl _⟩
    · intro cur found
      cases (Registry.put_get_self _ _).symm.trans found
      rfl
  have steady' := (steady.turned step again).2.1
  refine ⟨loop'.shipper, (store.put ((started fp).ask sampleClient sampleIdentity file "") []).2,
    ?_, saved,
    view'.trans (by simp [replaceWith, adjust, Loop.ask, Client.request])⟩
  change shipLoop sampleClient sampleIdentity file _
    (Loop.mk newShipper sampleFile.cursor maxPUTBody false) store = _
  rw [@shipLoop_observe sampleClient sampleIdentity file _ rfl rfl, observe_new ready,
    shipLoop_turn steady wide, again]
  exact shipLoop_quiescent steady' atEnd ..

def longZeros : Bytes := List.replicate maxPUTBody 0

/-- The fingerprint of every file that starts with `longZeros`. -/
def longClaim : String := Sha256.sum256Hex (longZeros.take fingerprintWindowBytes)

def recreatedFile : Bytes := longZeros ++ [2]

def mirroringCalls : List PutRequest :=
  [samplePut longClaim 0 longZeros, samplePut longClaim maxPUTBody [1]]

theorem longZeros_length : longZeros.length = maxPUTBody := List.length_replicate ..

theorem longZeros_ready : fingerprint longZeros = some longClaim := by
  rw [fingerprint, longZeros_length, longClaim]
  exact if_neg (by decide)

/-- The call returns `nil`, and the last byte of the file was never compared. -/
theorem recreated_file_not_shipped :
    ∃ shipper' store', shipFile sampleClient recreatedFile sampleFile
      [⟨"", []⟩, ⟨"", []⟩] newShipper
        (Store.empty.run (calls mirroringCalls)) = some (.ok, shipper', store') ∧
      Spared sampleFile.identity shipper' ∧
        ¬ Holds recreatedFile (store'.view sampleFile.identity) := by
  have mirrored := @mirroring_view longZeros [1] longClaim longZeros_ready (by simp)
  rw [longZeros_length] at mirrored
  obtain ⟨uninjected, g, view, mirroring⟩ := mirrored
  obtain ⟨shipper', store', returned, spared, view'⟩ :=
    @recreated_returns _ g (longZeros ++ [1]) recreatedFile longClaim
      (run_wellFormed Store.empty_wellFormed _) uninjected view mirroring
      (by simp [recreatedFile])
      (by rw [recreatedFile, List.take_left' longZeros_length, List.take_left' longZeros_length])
      (fingerprint_append longZeros_ready [2])
  refine ⟨shipper', store', returned, spared, ?_⟩
  rintro ⟨h, member, _, bytes⟩
  rw [show sampleFile.identity = sampleIdentity from rfl, view', List.mem_singleton] at member
  subst member
  have length : recreatedFile.length = (longZeros ++ [1]).length := by simp [recreatedFile]
  rw [settled_bytes, if_pos rfl, length, mirroring.bytes, recreatedFile] at bytes
  have last := List.append_cancel_left bytes
  cases last

end AiConfig.Sesh
