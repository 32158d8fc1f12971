import AiConfig.Sesh.Ship.World

/-! # An append-only source is shipped exactly once

The invariant of the two parties: the store has at most generation 0 of the
identity, its mirror below the high-water is a prefix of the source (`Faithful`),
and every cursor, request and answer that is still around refers to such bytes
(`Tracks`, `Ranged`, `Reply.Within`). -/

namespace AiConfig.Sesh

open AiConfig.Lib AiConfig.Lib.Fallible AiConfig.Sesh.Wire

/-- A fingerprint the source vouches for: none, or the digest of its window. -/
def Vouched (source : Bytes) (fp : Option String) : Prop := fp = none ∨ fp = fingerprint source

/-- A generation that mirrors a prefix of the source. -/
structure Mirrors (source : Bytes) (g : Generation) : Prop where
  generation : g.row.generation = 0
  clean : g.row.poisoned = false
  settled : g.row.conflictPending = false
  held : g.bytes.take g.row.highWater <+: source
  vouched : Vouched source g.row.fingerprint

def Faithful (source : Bytes) (gens : List Generation) : Prop :=
  gens = [] ∨ ∃ g, gens = [g] ∧ Mirrors source g

/-- The high-water of the first generation; nothing is held of an unknown identity. -/
def highWaterOf (gens : List Generation) : Nat := (gens.head?).elim 0 (·.row.highWater)

/-- A request made of the source: its body is what the source has at its offset. -/
structure Ranged (source : Bytes) (id : Identity) (req : PutRequest) : Prop where
  identity : req.identity = id
  body : req.body <+: source.drop req.offset
  vouched : Vouched source req.fingerprint

structure Tracks (source : Bytes) (id : Identity) (highWater : Nat) (cur : Cursor) : Prop where
  identity : cur.identity = id
  offset : cur.offset ≤ highWater
  clean : cur.poisoned = false
  vouched : cur.fingerprint = "" ∨ fingerprint source = some cur.fingerprint

/-- The codes a conforming store gives to an honest client. -/
def Benign (code : ErrorCode) : Prop :=
  code = .offsetGap ∨ code = .mirrorWriteFailed ∨ code = .storeUnavailable ∨ code = .bodyTooLarge

instance (code : ErrorCode) : Decidable (Benign code) := inferInstanceAs (Decidable (_ ∨ _))

/-- An answer the cursor may follow. -/
def Reply.Within (highWater : Nat) : Reply → Prop
  | .ack received => received.highWater ≤ highWater
  | .refusal code rewind _ => Benign code ∧ (code = .offsetGap → rewind ≤ highWater)
  | .transport _ => True

/-! ## Growing sources and mirrors -/

section

variable {source more : Bytes} {id : Identity} {gens gens' : List Generation} {g : Generation}
  {req : PutRequest} {highWater highWater' : Nat}

theorem fingerprint_grow {fp : String} (claimed : fingerprint source = some fp) (more : Bytes) :
    fingerprint (source ++ more) = some fp := by
  unfold fingerprint at claimed ⊢
  split at claimed
  · cases claimed
  · rename_i full
    rw [if_neg (by rw [List.length_append]; omega), ← claimed,
      List.take_append_of_le_length (Nat.le_of_not_lt full)]

theorem Vouched.grow {fp : Option String} (vouched : Vouched source fp) (more : Bytes) :
    Vouched (source ++ more) fp := by
  cases fp with
  | none => exact Or.inl rfl
  | some claim =>
    rcases vouched with none | claimed
    · cases none
    · exact Or.inr (fingerprint_grow claimed.symm more).symm

theorem Faithful.grow (faithful : Faithful source gens) (more : Bytes) :
    Faithful (source ++ more) gens := by
  rcases faithful with unknown | ⟨g, single, mirrors⟩
  · exact Or.inl unknown
  · exact Or.inr ⟨g, single, mirrors.generation, mirrors.clean, mirrors.settled,
      mirrors.held.trans (List.prefix_append _ _), mirrors.vouched.grow more⟩

theorem Ranged.grow (ranged : Ranged source id req) (more : Bytes) :
    Ranged (source ++ more) id req := by
  refine ⟨ranged.identity, ranged.body.trans ?_, ranged.vouched.grow more⟩
  rw [List.drop_append]
  exact List.prefix_append _ _

theorem Tracks.later {cur : Cursor} (tracks : Tracks source id highWater cur) (more : Bytes)
    (raised : highWater ≤ highWater') : Tracks (source ++ more) id highWater' cur :=
  ⟨tracks.identity, Nat.le_trans tracks.offset raised, tracks.clean,
    tracks.vouched.imp (fun none => none) fun claimed => fingerprint_grow claimed more⟩

theorem Reply.Within.raise {reply : Reply} (within : reply.Within highWater)
    (raised : highWater ≤ highWater') : reply.Within highWater' := by
  cases reply with
  | ack => exact Nat.le_trans within raised
  | refusal => exact ⟨within.1, fun gap => Nat.le_trans (within.2 gap) raised⟩
  | transport => trivial

/-! ## One PUT of the source -/

/-- Bytes of the source never diverge from a mirror of the source. -/
theorem mirrored_agrees (held : g.bytes.take g.row.highWater <+: source)
    (covered : g.row.highWater ≤ g.bytes.length) (ranged : Ranged source id req) :
    Agrees req g := by
  obtain ⟨rest, source_eq⟩ := held
  obtain ⟨after, body_eq⟩ := ranged.body
  have overlap : overlapLength req g ≤ req.body.length := Nat.min_le_left _ _
  have inside : overlapLength req g ≤ g.row.highWater - req.offset := Nat.min_le_right _ _
  calc (g.bytes.drop req.offset).take (overlapLength req g)
      = ((g.bytes.take g.row.highWater).drop req.offset).take (overlapLength req g) := by
        rw [List.drop_take, List.take_take, Nat.min_eq_left inside]
    _ = (source.drop req.offset).take (overlapLength req g) := by
        rw [← source_eq]
        by_cases beyond : req.offset ≤ g.row.highWater
        · rw [List.drop_append_of_le_length (by simp; omega),
            List.take_append_of_le_length (by simp; omega)]
        · have nothing : overlapLength req g = 0 := by omega
          simp [nothing]
    _ = req.body.take (overlapLength req g) := by
        rw [← body_eq, List.take_append_of_le_length overlap]

/-- The excess of a body of the source continues the mirror along the source. -/
theorem excess_continues (held : g.bytes.take g.row.highWater <+: source)
    (covered : g.row.highWater ≤ g.bytes.length) (ranged : Ranged source id req)
    (reached : req.offset ≤ g.row.highWater) :
    g.bytes.take g.row.highWater ++ excess req g <+: source := by
  have bytes_eq := List.prefix_iff_eq_take.mp held
  rw [List.length_take, Nat.min_eq_left covered] at bytes_eq
  rw [bytes_eq]
  by_cases more : req.body.length ≤ g.row.highWater - req.offset
  · have nothing : excess req g = [] :=
      List.drop_eq_nil_of_le (by simp only [overlapLength]; omega)
    rw [nothing, List.append_nil]
    exact List.take_prefix _ _
  · have overlap : overlapLength req g = g.row.highWater - req.offset := by
      simp only [overlapLength]
      omega
    have tail : excess req g <+: source.drop g.row.highWater := by
      obtain ⟨after, body_eq⟩ := ranged.body
      refine ⟨after, ?_⟩
      rw [excess, ← List.drop_append_of_le_length
        (show overlapLength req g ≤ _ from Nat.min_le_left _ _), body_eq, List.drop_drop, overlap,
        Nat.add_sub_cancel' reached]
    calc source.take g.row.highWater ++ excess req g
        <+: source.take g.row.highWater ++ source.drop g.row.highWater :=
          (List.prefix_append_right_inj _).mpr tail
      _ = source := List.take_append_drop _ _

theorem window_of_start {bytes : Bytes} (held : bytes <+: source)
    (full : fingerprintWindowBytes ≤ bytes.length) :
    fingerprint source = some (Sha256.sum256Hex (bytes.take fingerprintWindowBytes)) := by
  obtain ⟨rest, rfl⟩ := held
  unfold fingerprint
  rw [if_neg (by rw [List.length_append]; omega), List.take_append_of_le_length full]

/-- What is recorded for the generation once source bytes were appended. -/
theorem refreshed_vouched (mirrors : Mirrors source g) (covered : g.row.highWater ≤ g.bytes.length)
    (ranged : Ranged source id req) (reached : req.offset ≤ g.row.highWater) :
    Vouched source (refreshed (g.row.highWater + (excess req g).length)
      (writeAt g.bytes g.row.highWater (excess req g)) g.row.fingerprint) := by
  unfold refreshed
  split
  · exact mirrors.vouched
  · rename_i full
    refine Or.inr ?_
    have continued := excess_continues mirrors.held covered ranged reached
    have length : (g.bytes.take g.row.highWater ++ excess req g).length =
        g.row.highWater + (excess req g).length := by simp [covered]
    rw [window_of_start continued (by omega), ← writeAt_take_end _ _ _ covered, List.take_take,
      Nat.min_eq_left (Nat.le_of_not_lt full)]

theorem settled_mirrors {now : String} (mirrors : Mirrors source g)
    (covered : g.row.highWater ≤ g.bytes.length) (ranged : Ranged source id req)
    (reached : req.offset ≤ g.row.highWater) : Mirrors source (settled g (excess req g) now) := by
  refine ⟨?_, ?_, settled_conflictPending .., ?_, ?_⟩
  · rw [settled_generation, mirrors.generation]
  · rw [settled_poisoned, mirrors.clean]
  · rw [settled_highWater, settled_take covered]
    exact excess_continues mirrors.held covered ranged reached
  · rw [settled_fingerprint]
    split
    · exact mirrors.vouched
    · exact refreshed_vouched mirrors covered ranged reached

theorem replaceWith_singleton (g g' : Generation) : replaceWith g g' [g] = [g'] := by
  simp [replaceWith, adjust]

theorem faithful_singleton (mirrors : Mirrors source g) : Faithful source [g] :=
  Or.inr ⟨g, rfl, mirrors⟩

/-- A request of the source is routed to generation 0. -/
theorem faithful_routed {gens₁ : List Generation} (faithful : Faithful source gens)
    (ranged : Ranged source id req) (routed : Routed req gens gens₁ g) :
    gens₁ = [g] ∧ Mirrors source g ∧ highWaterOf gens = g.row.highWater := by
  rcases faithful with rfl | ⟨g₀, rfl, mirrors⟩
  · cases routed with
    | first left =>
      exact ⟨rfl, ⟨rfl, rfl, rfl, List.nil_prefix, ranged.vouched⟩, rfl⟩
    | matched _ found => cases found
    | adopted _ _ last | active _ last => cases last
  · cases routed with
    | first _ unknown => cases unknown
    | matched _ found =>
      rw [List.mem_singleton.mp (newest_mem found).1]
      exact ⟨rfl, mirrors, rfl⟩
    | @adopted fp active claim _ last _ =>
      cases last
      have vouched := ranged.vouched
      rw [claim] at vouched
      exact ⟨replaceWith_singleton g₀ (recordFingerprint fp g₀),
        ⟨mirrors.generation, mirrors.clean, mirrors.settled, mirrors.held, vouched⟩, rfl⟩
    | active _ last =>
      cases last
      exact ⟨rfl, mirrors, rfl⟩

/-- One call with a request of the source. -/
theorem faithful_step {quiet : Prop} {res : PutResult} (faithful : Faithful source gens)
    (sound : Sound req.identity gens) (ranged : Ranged source id req)
    (step : PutStep quiet req gens res gens') :
    Faithful source gens' ∧ highWaterOf gens ≤ highWaterOf gens' ∧
      res.reply.Within (highWaterOf gens') := by
  cases step with
  | unselected => exact ⟨faithful, Nat.le_refl _, by decide, by simp⟩
  | @conflict left fp active claim unmatched last other =>
    rcases faithful with rfl | ⟨g, rfl, mirrors⟩
    · cases last
    · cases last
      refine absurd ?_ (newest_none unmatched (List.mem_singleton_self _))
      have vouched := ranged.vouched
      rw [claim] at vouched
      rcases mirrors.vouched with none | recordedAs
      · exact absurd none other
      · rw [recordedAs]
        exact (vouched.resolve_left (by simp)).symm
  | @routed gens₁ _ g _ routed handled =>
    obtain ⟨rfl, mirrors, same⟩ := faithful_routed faithful ranged routed
    have covered := (routed.sound sound).covered g (List.mem_singleton_self _)
    have agrees := mirrored_agrees mirrors.held covered ranged
    have kept : ∀ {g' : Generation}, Mirrors source g' → g.row.highWater ≤ g'.row.highWater →
        Faithful source (replaceWith g g' [g]) ∧
            highWaterOf gens ≤ highWaterOf (replaceWith g g' [g]) := by
      intro g' mirrors' raised
      rw [replaceWith_singleton]
      exact ⟨faithful_singleton mirrors', by rw [same]; exact raised⟩
    have settledKept : req.offset ≤ g.row.highWater →
        Faithful source (replaceWith g (settled g (excess req g) req.now) [g]) ∧
        highWaterOf gens ≤ highWaterOf (replaceWith g (settled g (excess req g) req.now) [g]) :=
      fun reached => kept (settled_mirrors mirrors covered ranged reached)
        (by rw [settled_highWater]; exact Nat.le_add_right _ _)
    cases handled with
    | poisoned marked => exact absurd (mirrors.clean.symm.trans marked) (by simp)
    | gap => exact ⟨faithful_singleton mirrors, Nat.le_of_eq same, by decide, fun _ =>
        Nat.le_refl _⟩
    | byteConflict _ _ differs | poisons _ _ differs | opened _ _ _ differs =>
      exact absurd agrees differs
    | success event _ reached =>
      refine ⟨(settledKept reached).1, (settledKept reached).2, ?_⟩
      rw [replaceWith_singleton]
      exact Nat.le_refl _
    | failed target failure _ _ reached interrupted =>
      have within :
        ∀ highWater, (refused target (classifyStoreError failure) failure.text "").reply.Within
          highWater := by
        intro highWater
        cases failure <;> exact ⟨by simp [Benign, classifyStoreError], fun gap => by cases gap⟩
      cases interrupted with
      | untouched => exact ⟨faithful_singleton mirrors, Nat.le_of_eq same, within _⟩
      | unpended differs => exact absurd agrees differs
      | torn _ count =>
        have torn : Mirrors source (written g ((excess req g).take count)) :=
          ⟨mirrors.generation, mirrors.clean, mirrors.settled, by
            rw [show (written g ((excess req g).take count)).row = g.row from rfl,
              written_take covered]
            exact mirrors.held, mirrors.vouched⟩
        exact ⟨(kept torn (Nat.le_refl _)).1, (kept torn (Nat.le_refl _)).2, within _⟩
      | unrecorded _ more =>
        have unrecorded : Mirrors source (refingerprinted g (excess req g)) :=
          ⟨mirrors.generation, mirrors.clean, mirrors.settled, by
            rw [show (refingerprinted g (excess req g)).row.highWater = g.row.highWater from rfl,
              show (refingerprinted g (excess req g)).bytes =
                (written g (excess req g)).bytes from rfl,
              written_take covered]
            exact mirrors.held, refreshed_vouched mirrors covered ranged reached⟩
        exact ⟨(kept unrecorded (Nat.le_refl _)).1, (kept unrecorded (Nat.le_refl _)).2, within _⟩
      | unacknowledged => exact ⟨(settledKept reached).1, (settledKept reached).2, within _⟩

end

/-! ## The invariant of the world -/

def Followed (source : Bytes) (id : Identity) (highWater : Nat) (registry : Registry) : Prop :=
  ∀ cur, registry.get id = some cur → Tracks source id highWater cur

structure Loop.Within (source : Bytes) (id : Identity) (highWater : Nat) (loop : Loop) : Prop where
  cur : Tracks source id highWater loop.cur
  registry : Followed source id highWater loop.shipper.registry

def Phase.Within (source : Bytes) (id : Identity) (highWater : Nat) : Phase → Prop
  | .idle => True
  | .recovering answer => ∀ rec, answer = some (some rec) →
      ∀ state ∈ rec.generations, state.highWater ≤ highWater ∧ state.poisoned = false
  | .shipping loop => loop.Within source id highWater
  | .waiting loop _ req reply => loop.Within source id highWater ∧ Ranged source id req ∧
      ∀ received, reply = some received → received.Within highWater

structure World.Inv (id : Identity) (w : World) : Prop where
  wellFormed : w.store.WellFormed
  faithful : Faithful w.source (w.store.view id)
  strays : ∀ req ∈ w.strays, Ranged w.source id req
  registry : Followed w.source id (highWaterOf (w.store.view id)) w.shipper.registry
  saved : ∀ copy ∈ w.saved, Followed w.source id (highWaterOf (w.store.view id)) copy
  phase : w.phase.Within w.source id (highWaterOf (w.store.view id))

section

variable {source : Bytes} {id : Identity} {highWater highWater' : Nat} {registry : Registry}
  {loop : Loop} {phase : Phase} {w : World} {d : Discovered}

theorem Followed.later (followed : Followed source id highWater registry) (more : Bytes)
    (raised : highWater ≤ highWater') : Followed (source ++ more) id highWater' registry :=
  fun cur found => (followed cur found).later more raised

theorem Loop.Within.later (within : loop.Within source id highWater) (more : Bytes)
    (raised : highWater ≤ highWater') : loop.Within (source ++ more) id highWater' :=
  ⟨within.cur.later more raised, within.registry.later more raised⟩

theorem Phase.Within.later (within : phase.Within source id highWater) (more : Bytes)
    (raised : highWater ≤ highWater') : phase.Within (source ++ more) id highWater' := by
  cases phase with
  | idle => trivial
  | recovering answer =>
    intro rec answered state member
    obtain ⟨held, clean⟩ := within rec answered state member
    exact ⟨Nat.le_trans held raised, clean⟩
  | shipping loop => exact Loop.Within.later within more raised
  | waiting loop size req reply =>
    exact ⟨within.1.later more raised, within.2.1.grow more,
      fun received answered => (within.2.2 received answered).raise raised⟩

/-- The source may have grown, and the store may hold more. -/
theorem World.Inv.later (inv : w.Inv id) (store : Store) (more : Bytes)
    (wellFormed : store.WellFormed)
    (faithful : Faithful (w.source ++ more) (store.view id))
    (raised : highWaterOf (w.store.view id) ≤ highWaterOf (store.view id)) :
    World.Inv id { w with source := w.source ++ more, store := store } :=
  ⟨wellFormed, faithful, fun req sent => (inv.strays req sent).grow more,
    inv.registry.later more raised,
    fun copy flushed => (inv.saved copy flushed).later more raised, inv.phase.later more raised⟩

theorem World.Inv.grows (inv : w.Inv id) (more : Bytes) :
    World.Inv id { w with source := w.source ++ more } :=
  inv.later w.store more inv.wellFormed (inv.faithful.grow more) (Nat.le_refl _)

theorem World.Inv.stores (inv : w.Inv id) {store : Store} (wellFormed : store.WellFormed)
    (faithful : Faithful w.source (store.view id))
    (raised : highWaterOf (w.store.view id) ≤ highWaterOf (store.view id)) :
    World.Inv id { w with store := store } := by
  have := inv.later store [] wellFormed (by rwa [List.append_nil]) raised
  simpa only [List.append_nil] using this

/-! ## The shipper's side -/

theorem followed_put {shipper : Shipper} {cur : Cursor} (tracks : Tracks source id highWater cur) :
    Followed source id highWater (shipper.put cur).registry := by
  intro found registered
  rw [Shipper.put, ← tracks.identity, Registry.put_get_self] at registered
  cases registered
  exact tracks

theorem within_save {cur : Cursor} (tracks : Tracks source id highWater cur) (loop : Loop) :
    (loop.save cur).Within source id highWater :=
  ⟨tracks, followed_put tracks⟩

theorem tracks_restart {cur : Cursor} (tracks : Tracks source id highWater cur) :
    Tracks source id highWater { cur with offset := 0, fingerprint := "" } :=
  ⟨tracks.identity, Nat.zero_le _, tracks.clean, Or.inl rfl⟩

theorem Tracks.recreated {cur : Cursor} (tracks : Tracks source id highWater cur) (fp : String) :
    Tracks source id highWater (cur.recreated fp) := by
  unfold Cursor.recreated
  split
  · exact ⟨tracks.identity, Nat.zero_le _, tracks.clean, tracks.vouched⟩
  · exact tracks

theorem Loop.Within.observe (within : loop.Within source id highWater) (stat window more : Bytes)
    (later : source = window ++ more) : (loop.observe stat window).Within source id highWater := by
  have regressed : (loop.regress stat.length).Within source id highWater := by
    unfold Loop.regress
    split
    · exact within_save (tracks_restart within.cur) loop
    · exact within
  unfold Loop.observe
  cases seen : fingerprint window with
  | none => exact regressed
  | some fp =>
    have vouched : fingerprint source = some fp := later ▸ fingerprint_grow seen more
    have kept := regressed.cur.recreated fp
    simp only [Loop.refingerprint]
    split
    · have renamed : Tracks source id highWater
          { (loop.regress stat.length).cur.recreated fp with fingerprint := fp } :=
        ⟨kept.identity, kept.offset, kept.clean, Or.inr vouched⟩
      exact within_save renamed _
    · exact ⟨kept, regressed.registry⟩

theorem ranged_request {client : Client} {cur : Cursor} (tracks : Tracks source id highWater cur)
    (n : Nat) (now : String) :
    Ranged source id (client.request id cur ((source.drop cur.offset).take n) now) := by
  refine ⟨rfl, List.take_prefix _ _, ?_⟩
  simp only [Client.request]
  split
  · exact Or.inl rfl
  · rename_i claimed
    exact Or.inr (tracks.vouched.resolve_left claimed).symm

/-- What a turn up to the PUT may leave; `observed` is the size it saw. -/
def Prepared.Within (client : Client) (source : Bytes) (id : Identity) (highWater observed : Nat) :
    Prepared → Prop
  | .returns result shipper => Followed source id highWater shipper.registry ∧
      (result = .ok → observed ≤ highWater)
  | .again loop => loop.Within source id highWater
  | .sends loop _ body => loop.Within source id highWater ∧
      ∀ now, Ranged source id (client.request id loop.cur body now)

/-- The source may grow between the reads of a turn. -/
theorem Loop.Within.prepared (within : loop.Within source id highWater) (client : Client)
    (more more' : Bytes) :
    (loop.prepare (.content source) (.content (source ++ more))
      (.content (source ++ more ++ more'))).Within client (source ++ more ++ more') id highWater
        source.length := by
  have grown : loop.Within (source ++ more ++ more') id highWater := by
    rw [List.append_assoc]
    exact within.later _ (Nat.le_refl _)
  have observed := grown.observe source (source ++ more) more' rfl
  simp only [Loop.prepare]
  split
  · rename_i quiescent
    exact ⟨observed.registry, fun _ => Nat.le_trans quiescent observed.cur.offset⟩
  · unfold Loop.readBody
    simp only
    split
    · exact observed
    · exact ⟨observed, fun _ => ranged_request observed.cur _ _⟩

/-- What a turn may leave once an answer came. -/
def Reacted.Within (source : Bytes) (id : Identity) (highWater : Nat) : Reacted → Prop
  | .returns result shipper => Followed source id highWater shipper.registry ∧ result ≠ .ok
  | .again loop => loop.Within source id highWater

theorem Loop.Within.reacted (within : loop.Within source id highWater) {reply : Reply}
    (received : reply.Within highWater) (size : Nat) (now : String) :
    (loop.react id size now reply).Within source id highWater := by
  have returned : ∀ result, result ≠ .ok →
      (Reacted.returns result loop.shipper).Within source id highWater :=
    fun _ failed => ⟨within.registry, failed⟩
  cases reply with
  | transport => exact returned _ (by simp)
  | ack ack =>
    have tracks : Tracks source id highWater
        { loop.cur with offset := min ack.highWater size, lastAckAt := some now } :=
      ⟨within.cur.identity, Nat.le_trans (Nat.min_le_left _ _) received, within.cur.clean,
        within.cur.vouched⟩
    exact ⟨tracks, followed_put tracks⟩
  | refusal code rewind message =>
    obtain ⟨benign, rewinds⟩ := received
    rcases benign with rfl | rfl | rfl | rfl
    · have tracks : Tracks source id highWater { loop.cur with offset := rewind } :=
        ⟨within.cur.identity, rewinds rfl, within.cur.clean, within.cur.vouched⟩
      exact ⟨tracks, followed_put tracks⟩
    · exact returned _ (by simp)
    · exact returned _ (by simp)
    · simp only [Loop.react]
      split
      · exact returned _ (by simp)
      · exact ⟨within.cur, within.registry⟩

theorem tracks_cursor (d : Discovered) (source : Bytes) (highWater : Nat) :
    Tracks source d.identity highWater d.cursor :=
  ⟨rfl, Nat.zero_le _, rfl, Or.inl rfl⟩

theorem tracks_registered {registry : Registry}
    (followed : Followed source d.identity highWater registry) :
    Tracks source d.identity highWater ((registry.get d.identity).getD d.cursor) := by
  cases found : registry.get d.identity with
  | none => exact tracks_cursor d source highWater
  | some cur => exact followed cur found

theorem Followed.entered {shipper shipper' : Shipper} {result : Returned}
    (followed : Followed source d.identity highWater shipper.registry)
    (refused : shipper.enter d = .returns result shipper') :
    shipper' = shipper ∧ shipper.held d.identity ≠ none := by
  have tracks := tracks_registered followed
  unfold Shipper.enter at refused
  cases held : shipper.held d.identity with
  | some reason =>
    simp only [held, Reacted.returns.injEq] at refused
    exact ⟨refused.2.symm, by simp⟩
  | none => simp [held, tracks.clean] at refused

theorem Followed.enters {shipper : Shipper}
    (followed : Followed source d.identity highWater shipper.registry)
    (entered : shipper.enter d = .again loop) : loop.Within source d.identity highWater := by
  have tracks := tracks_registered followed
  have moved : Tracks source d.identity highWater
      { (shipper.registry.get d.identity).getD d.cursor with path := d.path } :=
    ⟨tracks.identity, tracks.offset, tracks.clean, tracks.vouched⟩
  unfold Shipper.enter at entered
  cases held : shipper.held d.identity with
  | some reason => simp [held] at entered
  | none =>
    simp only [held] at entered
    rw [if_neg (by simp [tracks.clean])] at entered
    cases entered
    split
    · exact ⟨tracks, followed⟩
    · exact ⟨moved, followed_put moved⟩

theorem followed_recovered (shipper : Shipper)
    {answer : Option RecoveryResponse}
    (within : (Phase.recovering (some answer)).Within source d.identity highWater) :
    Followed source d.identity highWater
      (shipper.recovered d (.content source) answer).2.registry := by
  cases answer with
  | none => exact followed_put (tracks_cursor d source highWater)
  | some rec =>
    have states := within rec rfl
    have matched : ∀ state, ((fingerprint source).bind fun fp =>
        rec.generations.reverse.find? (·.fingerprint = some fp)) = some state →
            state ∈ rec.generations := by
      intro state found
      obtain ⟨fp, _, hit⟩ := Option.bind_eq_some_iff.mp found
      exact List.mem_reverse.mp (List.mem_of_find?_eq_some hit)
    refine followed_put ⟨rfl, ?_, ?_, ?_⟩
    · simp only
      cases found : (fingerprint source).bind fun fp =>
          rec.generations.reverse.find? (·.fingerprint = some fp) with
      | none => exact Nat.zero_le _
      | some state => exact (states state (matched state found)).1
    · simp only
      cases found : (fingerprint source).bind fun fp =>
          rec.generations.reverse.find? (·.fingerprint = some fp) with
      | some state => exact (states state (matched state found)).2
      | none =>
        cases last : rec.generations.getLast? with
        | none => rfl
        | some state => exact (states state (List.mem_of_getLast? last)).2
    · simp only
      cases fingerprint source with
      | none => exact Or.inl rfl
      | some fp => exact Or.inr rfl

/-! ## The store's side -/

theorem Faithful.put {store : Store} (wellFormed : store.WellFormed)
    (faithful : Faithful source (store.view id)) {req : PutRequest} (ranged : Ranged source id req)
    (outcomes : List Outcome) :
    (store.handlePUTBytes req outcomes).2.WellFormed ∧
      Faithful source ((store.handlePUTBytes req outcomes).2.view id) ∧
      highWaterOf (store.view id) ≤ highWaterOf ((store.handlePUTBytes req outcomes).2.view id) ∧
      (store.handlePUTBytes req outcomes).1.Within
        (highWaterOf ((store.handlePUTBytes req outcomes).2.view id)) := by
  unfold Store.handlePUTBytes
  split
  · exact ⟨wellFormed, faithful, Nat.le_refl _, by decide, fun gap => by cases gap⟩
  · have step := (put_step wellFormed req outcomes).1
    have sound := wellFormed req.identity
    rw [ranged.identity] at step
    have soundHere : Sound req.identity (store.view id) := by
      rw [← ranged.identity]
      exact sound
    exact ⟨put_wellFormed wellFormed req outcomes, faithful_step faithful soundHere ranged step⟩

theorem apply_foreign {store : Store} (wellFormed : store.WellFormed) {op : Op}
    (foreign : ∀ req outcomes, op = .put req outcomes → req.identity ≠ id) :
    (store.apply op).view id = store.view id := by
  cases op with
  | put req outcomes =>
    exact (put_step wellFormed req outcomes).2 id fun same => foreign req outcomes rfl same.symm
  | injectMirrorErrorOnce | restart => rfl

theorem recovery_within {store : Store} (wellFormed : store.WellFormed)
    (faithful : Faithful source (store.view id)) :
    (Phase.recovering (some (store.recovery id none))).Within source id
    (highWaterOf (store.view id)) := by
  intro rec answered state member
  have rows := generations_eq_view (wellFormed id)
  simp only [Store.recovery, rows, Option.some.injEq] at answered
  rcases faithful with unknown | ⟨g, single, mirrors⟩
  · simp [unknown] at answered
  · simp only [single, List.map_cons, List.map_nil, Option.some.injEq] at answered
    subst answered
    rw [List.mem_singleton.mp member, single]
    exact ⟨Nat.le_refl _, mirrors.clean⟩

/-! ## Every step keeps the invariant -/

theorem World.Inv.moves (inv : w.Inv id) {shipper : Shipper} (phase : Phase)
    (followed : Followed w.source id (highWaterOf (w.store.view id)) shipper.registry)
    (within : phase.Within w.source id (highWaterOf (w.store.view id))) :
    World.Inv id { w with shipper := shipper, phase := phase } :=
  ⟨inv.wellFormed, inv.faithful, inv.strays, followed, inv.saved, within⟩

theorem World.Inv.sent (inv : w.Inv id) : ∀ req ∈ w.phase.sent ++ w.strays,
    Ranged w.source id req := by
  intro req member
  rcases List.mem_append.mp member with current | stray
  · have within := inv.phase
    generalize w.phase = phase at current within
    cases phase with
    | waiting loop size sent reply =>
      rw [List.mem_singleton.mp current]
      exact within.2.1
    | idle | recovering | shipping => cases current
  · exact inv.strays req stray

theorem World.Inv.initial (start : w.Initial) : w.Inv id := by
  obtain ⟨store, registry, _, saved, phase, strays⟩ := start
  refine ⟨by rw [store]; exact Store.empty_wellFormed, by rw [store]; exact Or.inl rfl, ?_, ?_, ?_,
    ?_⟩
  · simp [strays]
  · intro cur found
    rw [registry] at found
    cases found
  · simp [saved]
  · rw [phase]
    trivial

theorem World.Inv.step {client : Client} {w' : World} {e : Event} (inv : w.Inv d.identity)
    (taken : World.Step client d w e w') : w'.Inv d.identity := by
  have within := inv.phase
  cases taken with
  | grow more => exact inv.grows more
  | elsewhere op foreign =>
    have same := apply_foreign inv.wellFormed foreign
    exact inv.stores (apply_wellFormed inv.wellFormed op) (by rw [same]; exact inv.faithful)
      (by rw [same])
  | stray outcomes sent =>
    obtain ⟨wellFormed, faithful, raised, _⟩ :=
      inv.faithful.put inv.wellFormed (inv.strays _ sent) outcomes
    exact inv.stores wellFormed faithful raised
  | flush =>
    refine ⟨inv.wellFormed, inv.faithful, inv.strays, inv.registry, ?_, inv.phase⟩
    intro copy member
    rcases List.mem_cons.mp member with rfl | earlier
    · exact inv.registry
    · exact inv.saved copy earlier
  | shipperRestart registry maxBody copy =>
    refine ⟨inv.wellFormed, inv.faithful, inv.sent, ?_, inv.saved, trivial⟩
    rcases copy with flushed | rfl
    · exact inv.saved registry flushed
    · intro cur found
      cases found
  | observesOwner owner idle =>
    have tracks := tracks_registered inv.registry
    refine inv.moves w.phase ?_ inv.phase
    unfold Shipper.recordOwner
    simp only
    split
    · exact inv.registry
    · have observed : Tracks w.source d.identity (highWaterOf (w.store.view d.identity))
          { (w.shipper.registry.get d.identity).getD d.cursor with sessionOwner := owner } :=
        ⟨tracks.identity, tracks.offset, tracks.clean, tracks.vouched⟩
      exact followed_put observed
  | askRecovery =>
    exact inv.moves _ inv.registry fun rec asked => by cases asked
  | answerRecovery => exact inv.moves _ inv.registry (recovery_within inv.wellFormed inv.faithful)
  | @recover answer answered =>
    rw [answered] at within
    exact inv.moves _ (followed_recovered w.shipper within) trivial
  | recoveryFails => exact inv.moves _ inv.registry trivial
  | refuses idle entered =>
    obtain ⟨rfl, _⟩ := inv.registry.entered entered
    exact inv
  | enters idle entered =>
    have entering := inv.registry.enters entered
    exact inv.moves _ entering.registry entering
  -- The file may grow before and after a turn reads its length.
  | quits more more' shipping prepared =>
    rw [shipping] at within
    have turn := Loop.Within.prepared within client more more'
    rw [prepared] at turn
    exact ((inv.grows more).grows more').moves _ turn.1 trivial
  | spins more more' shipping prepared =>
    rw [shipping] at within
    have turn := Loop.Within.prepared within client more more'
    rw [prepared] at turn
    exact ((inv.grows more).grows more').moves _ turn.registry turn
  | sends more more' now shipping prepared =>
    rw [shipping] at within
    have turn := Loop.Within.prepared within client more more'
    rw [prepared] at turn
    exact ((inv.grows more).grows more').moves _ turn.1.registry
      ⟨turn.1, turn.2 now, fun received none => by cases none⟩
  | repeats => exact ⟨inv.wellFormed, inv.faithful, inv.sent, inv.registry, inv.saved, inv.phase⟩
  | receives outcomes waiting =>
    rw [waiting] at within
    obtain ⟨wellFormed, faithful, raised, received⟩ :=
      inv.faithful.put inv.wellFormed within.2.1 outcomes
    have stored := inv.stores wellFormed faithful raised
    have later := Phase.Within.later within [] raised
    rw [List.append_nil] at later
    refine stored.moves _ stored.registry ⟨later.1, later.2.1, fun reply same => ?_⟩
    cases same
    exact received
  | @stops now loop size _ _ _ _ waiting reacted =>
    rw [waiting] at within
    have turn := within.1.reacted (within.2.2 _ rfl) size now
    rw [reacted] at turn
    exact inv.moves _ turn.1 trivial
  | @continues now loop loop' size _ _ waiting reacted =>
    rw [waiting] at within
    have turn := within.1.reacted (within.2.2 _ rfl) size now
    rw [reacted] at turn
    exact inv.moves _ turn.registry turn
  | @loses now reason loop size req reply result shipper waiting reacted =>
    rw [waiting] at within
    -- The request whose reply is lost may still arrive: it is a stray from now on.
    have broken : (Reply.transport reason).Within (highWaterOf (w.store.view d.identity)) := trivial
    have turn := within.1.reacted broken size now
    rw [reacted] at turn
    have moved := inv.moves .idle turn.1 trivial
    refine ⟨moved.wellFormed, moved.faithful, ?_, moved.registry, moved.saved, trivial⟩
    intro other member
    rcases List.mem_cons.mp member with rfl | earlier
    · exact within.2.1
    · exact inv.strays other earlier

theorem world_invariant (client : Client) (d : Discovered) :
    (world client d).Invariant (World.Inv d.identity) :=
  ⟨fun _ => World.Inv.initial, fun _ _ _ inv taken => inv.step taken⟩

end

/-- The mirror of the identity: at most generation 0, and a prefix of the source. -/
def World.Prefixed (id : Identity) (w : World) : Prop :=
  ∀ row ∈ w.store.files, row.identity = id →
    row.generation = 0 ∧ (w.store.mirrored id 0).take row.highWater <+: w.source

theorem World.Inv.prefixed {id : Identity} {w : World} (inv : w.Inv id) : w.Prefixed id := by
  intro row member owned
  have viewed : (⟨row, w.store.mirrored id row.generation⟩ : Generation) ∈ w.store.view id :=
    mem_view.mpr ⟨member, owned, rfl⟩
  rcases inv.faithful with unknown | ⟨g, single, mirrors⟩
  · rw [unknown] at viewed
    cases viewed
  · rw [single] at viewed
    have same := List.mem_singleton.mp viewed
    subst same
    have number : row.generation = 0 := mirrors.generation
    have held := mirrors.held
    simp only [number] at held
    exact ⟨number, held⟩

/-- The high-water recorded for generation 0, or 0 while there is none. -/
def World.highWater (id : Identity) (w : World) : Nat := highWaterOf (w.store.view id)

/-- In every reachable world of a growing source: the mirror is a prefix of it; no PUT is
    answered by conflict handling; and a `shipFile` that returns `nil` without a hold
    leaves the high-water at the observed size or above. -/
theorem append_only_ships_once {client : Client} {d : Discovered} {w : World}
    (reachable : (world client d).Reachable w) :
    w.Prefixed d.identity ∧ ∀ e w', World.Step client d w e w' →
      (∀ code rewind message, e = .answered (.refusal code rewind message) →
        code ≠ .byteConflict ∧ code ≠ .fingerprintConflict ∧ code ≠ .generationOpened ∧
          code ≠ .poisonedFile) ∧
      (∀ observed, e = .returned .ok observed → w.shipper.held d.identity = none →
        ∃ size, observed = some size ∧ size ≤ w'.highWater d.identity) := by
  have inv := (world_invariant client d).reachable reachable
  -- The invariant says what any reply may be; of a return, how far the store has come.
  refine ⟨inv.prefixed, fun e w' taken => ?_⟩
  have within := inv.phase
  have benign : ∀ {highWater reply}, Reply.Within highWater reply → ∀ code rewind message,
      Event.answered reply = .answered (.refusal code rewind message) →
      code ≠ .byteConflict ∧ code ≠ .fingerprintConflict ∧ code ≠ .generationOpened ∧
        code ≠ .poisonedFile := by
    intro highWater reply received code rewind message same
    cases same
    rcases received.1 with rfl | rfl | rfl | rfl <;> decide
  cases taken with
  | grow | elsewhere | flush | shipperRestart | observesOwner | askRecovery | answerRecovery |
      recover
  | recoveryFails | enters | spins | sends | repeats | continues =>
    exact ⟨nofun, nofun⟩
  | stray outcomes sent =>
    have received := (inv.faithful.put inv.wellFormed (inv.strays _ sent) outcomes).2.2.2
    exact ⟨benign received, nofun⟩
  | receives outcomes waiting =>
    rw [waiting] at within
    have received := (inv.faithful.put inv.wellFormed within.2.1 outcomes).2.2.2
    exact ⟨benign received, nofun⟩
  | refuses idle entered =>
    exact ⟨nofun,
      fun _ _ unheld => absurd unheld (inv.registry.entered entered).2⟩
  | quits more more' shipping prepared =>
    rw [shipping] at within
    have turn := Loop.Within.prepared within client more more'
    rw [prepared] at turn
    refine ⟨nofun, fun observed same _ => ?_⟩
    cases same
    exact ⟨_, rfl, turn.2 rfl⟩
  | @stops now loop size _ _ _ _ waiting reacted =>
    rw [waiting] at within
    have turn := within.1.reacted (within.2.2 _ rfl) size now
    rw [reacted] at turn
    refine ⟨nofun, fun observed same _ => ?_⟩
    cases same
    exact absurd rfl turn.2
  | @loses now reason loop size _ _ _ _ waiting reacted =>
    rw [waiting] at within
    have broken : (Reply.transport reason).Within (highWaterOf (w.store.view d.identity)) := trivial
    have turn := within.1.reacted broken size now
    rw [reacted] at turn
    refine ⟨nofun, fun observed same _ => ?_⟩
    cases same
    exact absurd rfl turn.2

/-! ## A sample pass -/

def sampleLoop : Loop := ⟨newShipper, sampleFile.cursor, maxPUTBody, false⟩

def sampleRequest : PutRequest := sampleClient.request sampleIdentity sampleFile.cursor [1, 2, 3] ""

/-- The first PUT of a three-byte file is on its way back, and the file has grown. -/
def sampleWorld : World :=
  ⟨[1, 2, 3, 4], (Store.empty.handlePUTBytes sampleRequest []).2, newShipper, [],
    .waiting sampleLoop 3 sampleRequest (some (Store.empty.handlePUTBytes sampleRequest []).1), []⟩

theorem append_only_ships_once_sample : sampleWorld.Prefixed sampleIdentity := by
  have start : (world sampleClient sampleFile).Reachable
      ⟨[1, 2, 3], .empty, newShipper, [], .idle, []⟩ := .initial ⟨rfl, rfl, rfl, rfl, rfl, rfl⟩
  have entered : (world sampleClient sampleFile).Reachable
      ⟨[1, 2, 3], .empty, newShipper, [], .shipping sampleLoop, []⟩ :=
    start.step (@World.Step.enters sampleClient sampleFile
      ⟨[1, 2, 3], .empty, newShipper, [], .idle, []⟩ sampleLoop rfl rfl)
  have sent : (world sampleClient sampleFile).Reachable
      ⟨[1, 2, 3, 4], .empty, newShipper, [], .waiting sampleLoop 3 sampleRequest none, []⟩ :=
    entered.step (@World.Step.sends sampleClient sampleFile
      ⟨[1, 2, 3], .empty, newShipper, [], .shipping sampleLoop, []⟩ []
        [4] "" sampleLoop sampleLoop 3
      [1, 2, 3] rfl rfl)
  have received := sent.step (.receives _ [] rfl)
  exact (append_only_ships_once received).1

end AiConfig.Sesh
