import AiConfig.Herder.Markers.Converge
import Mathlib.Algebra.BigOperators.Group.Finset.Piecewise
import Mathlib.Algebra.Group.Action.Defs
import Mathlib.Algebra.Order.BigOperators.Group.Finset
import Mathlib.Algebra.GroupWithZero.Nat

/-! # Repairs stop

A repair at a device uses up the winning row there for good, and adds one row that reads
further.  Each row weighs more, at each device it can still win at, than a row above it on
all devices together, so every repair takes off the whole weight. -/

namespace AiConfig.Herder

open AiConfig.Lib

/-! ## How far a marker reads -/

def reach (marker : ReadMarker) : Nat := (marker.pos.map fun pos => pos.offset + 1).getD 0

structure Within (bound : Nat) (marker : ReadMarker) : Prop where
  turn : marker.turn ≤ bound
  readAt : marker.readAt ≤ bound
  reach : reach marker ≤ bound

/-- The time counts above the position, which may fall when the session changes. -/
def level (bound : Nat) (marker : ReadMarker) : Nat :=
  marker.turn + marker.readAt * (bound + 1) + reach marker

def top (bound : Nat) : Nat := bound + bound * (bound + 1) + bound

theorem Within.level_le {bound : Nat} {marker : ReadMarker} (within : Within bound marker) :
    level bound marker ≤ top bound := by
  have time : marker.readAt * (bound + 1) ≤ bound * (bound + 1) :=
    Nat.mul_le_mul_right _ within.readAt
  have turn := within.turn
  have reached := within.reach
  simp only [level, top]
  omega

theorem mergedMarker_within {bound : Nat} {winner loser : ReadMarker} (won : Within bound winner)
    (lost : Within bound loser) : Within bound (mergedMarker winner loser) where
  turn := max_le won.turn lost.turn
  readAt := max_le won.readAt lost.readAt
  reach := by
    have pos : (mergedMarker winner loser).pos = loser.pos ∨
        (mergedMarker winner loser).pos = winner.pos := by
      simp only [mergedMarker]
      split
      · exact Or.inl rfl
      · exact Or.inr rfl
    cases pos with
    | inl own => simpa [Herder.reach, own] using lost.reach
    | inr own => simpa [Herder.reach, own] using won.reach

theorem mergedMarker_level {bound : Nat} {winner loser : ReadMarker} (won : Within bound winner)
    (differs : mergedMarker winner loser ≠ winner) :
    level bound winner < level bound (mergedMarker winner loser) := by
  have forward := mergedMarker_winner winner loser
  have turn := forward.turn
  have reached := won.reach
  by_cases later : winner.readAt < (mergedMarker winner loser).readAt
  · -- One step of time outweighs any position.
    have time :
        (winner.readAt + 1) * (bound + 1) ≤ (mergedMarker winner loser).readAt * (bound + 1) :=
      Nat.mul_le_mul_right _ later
    rw [Nat.add_mul] at time
    simp only [level]
    omega
  · have time : (mergedMarker winner loser).readAt = winner.readAt :=
      le_antisymm (not_lt.mp later) forward.readAt
    have behind : loser.readAt ≤ winner.readAt := by
      simpa [mergedMarker] using time
    -- A position is taken only where it is further, and moves the reach with it.
    have ahead : reach winner ≤ reach (mergedMarker winner loser) ∧
        (reach winner = reach (mergedMarker winner loser) →
            (mergedMarker winner loser).pos = winner.pos) := by
      simp only [mergedMarker, reach]
      split
      · rename_i further
        cases taken : loser.pos with
        | none => cases kept : winner.pos <;> simp [comparePositions, kept, taken] at further
        | some after =>
          cases kept : winner.pos with
          | none => simp
          | some before =>
            simp only [comparePositions, kept, taken] at further
            split at further
            · have offsets : before.offset < after.offset := by omega
              simp only [Option.map_some, Option.getD_some]
              exact ⟨by omega, fun same => absurd same (by omega)⟩
            · omega
      · exact ⟨le_rfl, fun _ => rfl⟩
    -- What differs has a later turn or a longer reach.
    have rises : winner.turn < (mergedMarker winner loser).turn ∨
        reach winner < reach (mergedMarker winner loser) := by
      by_contra still
      have sameTurn : (mergedMarker winner loser).turn = winner.turn := by omega
      have samePos := ahead.2 (by omega)
      apply differs
      cases winner
      simp_all [mergedMarker]
    have under := ahead.1
    simp only [level, time]
    omega

/-! ## The weight of the rows -/

def weight (devices : Nat) : Nat → Nat
  | 0 => 1
  | above + 1 => 1 + devices * weight devices above

theorem weight_le (devices : Nat) (above : Nat) : weight devices above ≤ weight devices
    (above + 1) := by
  induction above with
  | zero => exact Nat.le_add_right _ _
  | succ above inductionHypothesis =>
      exact Nat.add_le_add_left (Nat.mul_le_mul_left _ inductionHypothesis) 1

theorem weight_mono (devices : Nat) : Monotone (weight devices) :=
  monotone_nat_of_le_succ (weight_le devices)

def rowWeight (bound devices : Nat) (row : ReadMarkerRow) : Nat :=
  weight devices (top bound - level bound row.value)

/-- A repair that `winner` wins adds less, at all devices, than the winner weighs at one. -/
theorem rowWeight_repair {bound : Nat} (devices : Nat) {winner row : ReadMarkerRow}
    (within : Within bound row.value)
    (further : level bound winner.value < level bound row.value) :
    1 + devices * rowWeight bound devices row ≤ rowWeight bound devices winner := by
  have below := within.level_le
  have fuel : top bound - level bound row.value + 1 ≤ top bound - level bound winner.value := by
    omega
  exact weight_mono devices fuel

/-- `row` can still win at a device that holds `held`. -/
def alive (held : Option ReadMarkerRow) (row : ReadMarkerRow) : Bool :=
  held.all fun own => rank own ≤ rank row

/-- What the rows weigh at one device. -/
def share (bound devices : Nat) (issued : List ReadMarkerRow) (held : Option ReadMarkerRow) : Nat :=
  (issued.map fun row => if alive held row then rowWeight bound devices row else 0).sum

theorem alive_of_dominates {held held' : Option ReadMarkerRow} (raised : Dominates held' held)
    {row : ReadMarkerRow}
    (still : alive held' row = true) : alive held row = true := by
  cases kept : held with
  | none => rfl
  | some own =>
    obtain ⟨own', rfl, above⟩ := raised own kept
    simp only [alive, Option.all_some, decide_eq_true_eq] at still ⊢
    exact above.trans still

theorem share_append (bound devices : Nat) (issued : List ReadMarkerRow) (row : ReadMarkerRow)
    (held : Option ReadMarkerRow) :
    share bound devices (issued ++ [row]) held ≤
      share bound devices issued held + rowWeight bound devices row := by
  simp only [share, List.map_append, List.sum_append, List.map_singleton, List.sum_singleton]
  split <;> omega

theorem share_raise {held held' : Option ReadMarkerRow} (bound devices : Nat)
    (issued : List ReadMarkerRow)
    (raised : Dominates held' held) :
    share bound devices issued held' ≤ share bound devices issued held := by
  induction issued with
  | nil => exact le_rfl
  | cons row rest inductionHypothesis =>
    have first : (if alive held' row then rowWeight bound devices row else 0) ≤
        if alive held row then rowWeight bound devices row else 0 := by
      by_cases still : alive held' row = true
      · rw [if_pos still, if_pos (alive_of_dominates raised still)]
      · rw [if_neg still]
        exact Nat.zero_le _
    simp only [share, List.map_cons, List.sum_cons] at inductionHypothesis ⊢
    omega

/-- A row that was alive and no longer is takes off its weight. -/
theorem share_used {held held' : Option ReadMarkerRow} (bound devices : Nat)
    {issued : List ReadMarkerRow}
    (raised : Dominates held' held) {winner : ReadMarkerRow} (inside : winner ∈ issued)
    (before : alive held winner = true)
    (after : alive held' winner = false) :
    share bound devices issued held' + rowWeight bound devices winner ≤
      share bound devices issued held := by
  obtain ⟨front, back, rfl⟩ := List.append_of_mem inside
  have first := share_raise bound devices front raised
  have second := share_raise bound devices back raised
  simp only [share, List.map_append, List.sum_append, List.map_cons, List.sum_cons, before, after,
    if_true,
    Bool.false_eq_true, if_false] at first second ⊢
  omega

section

variable {ι : Type} [Fintype ι]

def MarkerWorld.potential (bound : Nat) (world : MarkerWorld ι) : Nat :=
  ∑ i, share bound (Fintype.card ι) world.issued (world.devices i).held

variable [DecidableEq ι] {world : MarkerWorld ι}

theorem potential_put (bound : Nat) {i : ι} {device : Device}
    (raised : Dominates device.held (world.devices i).held) :
    (world.put i device).potential bound ≤ world.potential bound := by
  refine Finset.sum_le_sum fun j _ => ?_
  by_cases same : j = i
  · subst same
    simpa [MarkerWorld.put] using share_raise bound (Fintype.card ι) world.issued raised
  · simp [MarkerWorld.put, same]

/-- A repair at `i` that `winner` won. -/
theorem potential_repair {bound : Nat} {i : ι} {device : Device} {winner row : ReadMarkerRow}
    (within : Within bound row.value) (further : level bound winner.value < level bound row.value)
    (inside : winner ∈ world.issued) (raised : Dominates device.held (world.devices i).held)
    (before : alive (world.devices i).held winner = true)
    (after : alive device.held winner = false) :
    ({ world.put i device with issued := world.issued ++ [row] } : MarkerWorld ι).potential bound +
    1 ≤
      world.potential bound := by
  have spread : ∀ j, share bound (Fintype.card ι) (world.issued ++ [row])
    ((world.put i device).devices j).held +
      (if j = i then rowWeight bound (Fintype.card ι) winner else 0) ≤
        share bound (Fintype.card ι) world.issued (world.devices j).held + rowWeight bound
            (Fintype.card ι) row := by
    intro j
    have added :=
      share_append bound (Fintype.card ι) world.issued row ((world.put i device).devices j).held
    by_cases same : j = i
    · subst same
      have used := share_used bound (Fintype.card ι) raised inside before after
      simp only [MarkerWorld.put, Function.update_self, if_true] at added ⊢
      omega
    · simp only [MarkerWorld.put, Function.update_of_ne same, if_neg same] at added ⊢
      omega
  have total := Finset.sum_le_sum fun j (_ : j ∈ Finset.univ) => spread j
  simp only [Finset.sum_add_distrib, Finset.sum_ite_eq', Finset.mem_univ, if_true, Finset.sum_const,
    Finset.card_univ,
    smul_eq_mul] at total
  have heavy := rowWeight_repair (Fintype.card ι) within further
  simp only [MarkerWorld.potential]
  omega

/-! ## Every step but a write -/

def MarkerWorld.Bounded (bound : Nat) (world : MarkerWorld ι) : Prop :=
  ∀ row ∈ world.issued, Within bound row.value

omit [Fintype ι] [DecidableEq ι] in
theorem exists_bounded (world : MarkerWorld ι) : ∃ bound, world.Bounded bound := by
  have least : ∀ rows : List ReadMarkerRow, ∃ bound, ∀ row ∈ rows, Within bound row.value := by
    intro rows
    induction rows with
    | nil => exact ⟨0, fun _ absent => nomatch absent⟩
    | cons first rest inductionHypothesis =>
      obtain ⟨bound, within⟩ := inductionHypothesis
      refine ⟨max bound (first.value.turn + first.value.readAt + reach first.value),
        fun row inside => ?_⟩
      cases inside with
      | head => constructor <;> omega
      | tail _ later =>
        have old := within row later
        exact ⟨le_max_of_le_left old.turn, le_max_of_le_left old.readAt,
          le_max_of_le_left old.reach⟩
  exact least world.issued

omit [DecidableEq ι] in
theorem potential_eq (bound : Nat) {world world' : MarkerWorld ι}
    (devices : world'.devices = world.devices)
    (issued : world'.issued = world.issued) : world'.potential bound = world.potential bound := by
  simp only [MarkerWorld.potential, devices, issued]

theorem MarkerWorld.Bounded.put {bound : Nat} (bounded : world.Bounded bound) {i : ι}
    {device : Device}
    (raised : Dominates device.held (world.devices i).held) :
    (world.put i device).Bounded bound ∧
    (world.put i device).potential bound + 0 ≤ world.potential bound :=
  ⟨bounded, potential_put bound raised⟩

omit [DecidableEq ι] in
theorem MarkerWorld.Bounded.take {bound : Nat} (bounded : world.Bounded bound)
    (row : ReadMarkerRow) :
    (world.take row).Bounded bound ∧
    (world.take row).potential bound + 0 ≤ world.potential bound := by
  refine ⟨?_, (potential_eq bound (take_devices world row) (take_issued world row)).le⟩
  rw [MarkerWorld.Bounded, take_issued]
  exact bounded

theorem MarkerWorld.Coherent.charged {key : String} {world' : MarkerWorld ι} {event : MarkerEvent ι}
    {bound : Nat}
    (coherent : world.Coherent) (bounded : world.Bounded bound) (passive : event.isWrite = false)
    (moved : world.Moves key event world') :
    world'.Bounded bound ∧
      world'.potential bound + (if event.isRepair then 1 else 0) ≤ world.potential bound := by
  cases moved with
  | write => cases passive
  | requeue i => exact bounded.put (Dominates.refl _)
  | askPull i => exact bounded.put (Dominates.refl _)
  | pullServed i => exact bounded.put (Dominates.refl _)
  | pullFails i => exact bounded.put (Dominates.refl _)
  | pullLands i asked answered now writeID lands =>
    apply bounded.put
    have raises := mergeIncoming_dominates now writeID fun row merges =>
      coherent.least row ((coherent.fits i).pulled asked answered merges)
    rw [pullLands_held lands] at raises
    exact raises.1
  | repair i asked answered now fresh lands =>
    rename_i pull incoming revision writeID landed row
    have raises := mergeIncoming_dominates now writeID fun row merges =>
      coherent.least row ((coherent.fits i).pulled asked answered merges)
    have merge := pullLands_held lands
    obtain ⟨winner, loser, sides, above, differs, repaired, held⟩ :=
      mergeIncoming_repair (congrArg Prod.snd merge)
    rw [merge] at raises held
    have held : landed.held = some row := held
    have inside : winner ∈ world.issued ∧ loser ∈ world.issued := by
      obtain ⟨lost, won⟩ | ⟨won, lost⟩ := sides
      · exact ⟨(coherent.fits i).pulled asked answered (Or.inr won),
          (coherent.fits i).pulled asked answered (Or.inl lost)⟩
      · exact ⟨(coherent.fits i).pulled asked answered (Or.inl won),
          (coherent.fits i).pulled asked answered (Or.inr lost)⟩
    have within := bounded winner inside.1
    have merges := mergedMarker_within within (bounded loser inside.2)
    -- The merged marker is further than both of its sides, which differ.
    have further := mergedMarker_level within differs
    have value : row.value = mergedMarker winner.value loser.value := by rw [repaired]; rfl
    have below : rank winner < rank row := by
      rw [repaired]
      exact rank_lt_of_updated (coherent.least winner inside.1) (repairRow_above _ now writeID)
    -- The winner counts before the repair and no more after it: that pays for the repair.
    have before : alive (world.devices i).held winner = true := by
      obtain ⟨lost, -⟩ | ⟨won, -⟩ := sides
      · simpa [alive, lost] using above
      · simp [alive, won]
    have after : alive landed.held winner = false := by
      rw [alive, held]
      simpa using below
    refine ⟨?_, potential_repair (value ▸ merges) (value ▸ further) inside.1 ?_ before after⟩
    · intro old member
      obtain old | new := List.mem_append.mp member
      · exact bounded _ old
      · rw [List.mem_singleton.mp new, value]
        exact merges
    · exact raises.1
  | send i =>
    apply bounded.put
    obtain same | ⟨-, same⟩ | ⟨row, -, same⟩ :=
      (world.devices i).send_cases <;> rw [same] <;> exact Dominates.refl _
  | postServed i sent =>
    rename_i row taken
    obtain ⟨after, under⟩ := bounded.take row
    rw [take_put]
    have same : Dominates (world.devices i).held ((world.take row).devices i).held := by
      rw [take_devices]
      exact Dominates.refl _
    have below :
      ((world.take row).put i { world.devices i with post := some (row, true) }).potential bound ≤
        (world.take row).potential bound := potential_put bound same
    exact ⟨after, below.trans under⟩
  | postLands i => exact bounded.put (Dominates.refl _)
  | postFails i => exact bounded.put (Dominates.refl _)
  | lostServed =>
    rename_i row given
    exact bounded.take row
  | other => exact ⟨bounded, (potential_eq bound rfl rfl).le⟩

/-- Once the owner writes no more, finitely many repairs are left. -/
theorem repairs_stop {key : String} (reachable : (markerSystem ι key weakUpdated).Reachable world) :
    ∃ most, ∀ events world', (markerSystem ι key weakUpdated).Run world events world' →
      (∀ event ∈ events, event.isWrite = false) → events.countP MarkerEvent.isRepair ≤ most := by
  obtain ⟨bound, bounded⟩ := exists_bounded world
  refine ⟨world.potential bound, fun events world' run passive => ?_⟩
  have coherent_world := (coherent ι key).reachable reachable
  have charged : ∀ (s : MarkerWorld ι) e s', s.Coherent ∧ s.Bounded bound →
    MarkerEvent.isWrite e = false →
      (markerSystem ι key weakUpdated).step s e s' →
      (s'.Coherent ∧ s'.Bounded bound) ∧
          s'.potential bound + (if e.isRepair then 1 else 0) ≤ s.potential bound := by
    intro s e s' holds passive moved
    obtain ⟨within, below⟩ := holds.1.charged holds.2 passive moved
    exact ⟨⟨holds.1.step moved, within⟩, below⟩
  have counted :
      _ ∧ world'.potential bound + events.countP MarkerEvent.isRepair ≤ world.potential bound :=
    run.counted (MarkerWorld.potential bound) charged ⟨coherent_world, bounded⟩ passive
  omega

end

/-- Devices that share a marker: from any rows written at some version, whatever is read,
pulled and posted, at rest all hold the server's row and finitely many repairs are left;
and no merge takes reading back but for a newer mark unread or a weak row. -/
theorem markers_converge (ι : Type) [Fintype ι] [DecidableEq ι] (key : String) :
    (∀ world : MarkerWorld ι, (markerSystem ι key weakUpdated).Reachable world →
      (world.Quiet → ∀ i, (world.devices i).held = world.server) ∧
        ∃ most, ∀ events world', (markerSystem ι key weakUpdated).Run world events world' →
          (∀ event ∈ events, event.isWrite = false) → events.countP MarkerEvent.isRepair ≤ most) ∧
      ∀ current incoming : ReadMarkerRow, current.deleted = false → incoming.deleted = false →
        ¬ (current.version < incoming.version ∧ incoming.value.unread = true) →
        (current.updated = weakUpdated ↔ incoming.updated = weakUpdated) →
        Forward current.value (mergeMarkerRow (some current) incoming).1.value := by
  refine ⟨fun world reachable => ⟨?_, repairs_stop reachable⟩,
    fun current incoming live other read alike => ?_⟩
  · exact fun quiet => ((coherent ι key).reachable reachable).quiet quiet
  · exact mergeMarkerRow_forward live other read alike

/-! ## A row that one device kept -/

def keptRow : ReadMarkerRow := ⟨"agent", ⟨5, none, 7, false⟩, 10, "a", false⟩

/-- One of two devices kept a row that the server has not. -/
def keptStart : MarkerWorld Bool where
  devices := fun device => ⟨if device then some keptRow else none, false, true, 0, none, none⟩
  server := none
  serverRev := 0
  rev := 0
  lost := []
  issued := [keptRow]

/-- It pulls, posts, and both pull: at rest the other has the row too. -/
theorem markers_converge_sample :
    ∃ world : MarkerWorld Bool, (markerSystem Bool "agent" weakUpdated).Reachable world ∧
      world.Quiet ∧
      world.server = some keptRow ∧ (world.devices true).held = some keptRow ∧
        (world.devices false).held = some keptRow := by
  have start : (markerSystem Bool "agent" weakUpdated).initial keptStart := by
    refine ⟨⟨fun _ => ⟨rfl, rfl, rfl⟩, fun absent => ?_, le_rfl, rfl, ?_, ?_⟩, ?_⟩
    · cases absent
    · simp [keptStart, eq_comm]
    · decide
    · decide
  let system := markerSystem Bool "agent" weakUpdated
  have asked : system.Reachable _ :=
    .step (.initial start) (MarkerWorld.Moves.askPull keptStart true rfl)
  have served : system.Reachable _ := .step asked (MarkerWorld.Moves.pullServed _ true rfl rfl)
  have queued : system.Reachable _ :=
    .step served (MarkerWorld.Moves.pullLands _ true rfl rfl 9 "c" rfl)
  have sent : system.Reachable _ := .step queued (MarkerWorld.Moves.send _ true rfl)
  have taken : system.Reachable _ := .step sent (MarkerWorld.Moves.postServed _ true rfl)
  have posted : system.Reachable _ := .step taken (MarkerWorld.Moves.postLands _ true rfl)
  have asked' : system.Reachable _ := .step posted (MarkerWorld.Moves.askPull _ false rfl)
  have served' : system.Reachable _ := .step asked' (MarkerWorld.Moves.pullServed _ false rfl rfl)
  have landed : system.Reachable _ :=
    .step served' (MarkerWorld.Moves.pullLands _ false rfl rfl 9 "c" rfl)
  have again : system.Reachable _ := .step landed (MarkerWorld.Moves.askPull _ true rfl)
  have answered : system.Reachable _ := .step again (MarkerWorld.Moves.pullServed _ true rfl rfl)
  have rest : system.Reachable _ :=
    .step answered (MarkerWorld.Moves.pullLands _ true rfl rfl 9 "c" rfl)
  have quiet := ((markers_converge Bool "agent").1 _ rest).1
    ⟨fun device => by cases device <;> exact ⟨rfl, rfl, rfl⟩,
      fun device => by cases device <;> exact ⟨rfl, rfl⟩⟩
  exact ⟨_, rest, ⟨fun device => by cases device <;> exact ⟨rfl, rfl, rfl⟩,
    fun device => by cases device <;> exact ⟨rfl, rfl⟩⟩,
    rfl, (quiet true).trans rfl, (quiet false).trans rfl⟩

/-! ## A row below every version that is written -/

def unwrittenRow : ReadMarkerRow := ⟨"agent", ⟨5, none, 7, false⟩, 0, "a", false⟩

def seedRow : ReadMarkerRow := ⟨"agent", baselineMarker 3, weakUpdated, "b", false⟩

/-- A device holds a real row at version 0, the server a seed. -/
def unwrittenStart : MarkerWorld Unit where
  devices := fun _ => ⟨some unwrittenRow, false, true, 0, none, none⟩
  server := some seedRow
  serverRev := 1
  rev := 1
  lost := []
  issued := [unwrittenRow, seedRow]

/-- The pull merges to the real row and queues nothing, the seed's version being later. -/
theorem unwritten_row_stays_apart :
    ∃ world : MarkerWorld Unit, (markerSystem Unit "agent" 0).Reachable world ∧ world.Quiet ∧
      (world.devices ()).held ≠ world.server := by
  have start : (markerSystem Unit "agent" 0).initial unwrittenStart := by
    refine ⟨⟨fun _ => ⟨rfl, rfl, rfl⟩, fun _ => Nat.one_pos, le_rfl, rfl, ?_, ?_⟩, ?_⟩
    · simp [unwrittenStart, eq_comm, or_comm]
    · decide
    · decide
  let system := markerSystem Unit "agent" 0
  have asked : system.Reachable _ :=
    .step (.initial start) (MarkerWorld.Moves.askPull unwrittenStart () rfl)
  have served : system.Reachable _ := .step asked (MarkerWorld.Moves.pullServed _ () rfl rfl)
  have landed : system.Reachable _ :=
    .step served (MarkerWorld.Moves.pullLands _ () rfl rfl 9 "c" rfl)
  refine ⟨_, landed, ⟨fun _ => ⟨rfl, rfl, rfl⟩, fun _ => ⟨rfl, rfl⟩⟩, ?_⟩
  decide

end AiConfig.Herder
