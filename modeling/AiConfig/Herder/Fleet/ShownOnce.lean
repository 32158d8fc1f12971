import AiConfig.Lib.Grouping
import AiConfig.Herder.Fleet.Board

/-! # Every agent on the board

`Nested` says what the fold over the roster records, `Fits` what a row on the board shows.
The nesting is a walk from the rows with no parent: a row whose ancestors end is shown
once, a row below a cycle of parents never. -/

namespace AiConfig.Herder.Fleet

open AiConfig.Lib

/-- Rows of the bus with a status take part in the nesting. -/
def BusRow.onBus (bus : BusRow) : Bool := display bus.status ≠ "-"

def hangsUnder (roster : List BusRow) (child : BusRow) : Option BusRow :=
  (parent roster child).filter fun up => child.onBus && up.onBus

/-- Distinct, non-empty names. -/
structure Named (roster : List BusRow) : Prop where
  distinct : (roster.map (·.name)).Nodup
  nonempty : ∀ bus ∈ roster, bus.name ≠ ""

/-- A row made from a roster row, with nothing nested in it. -/
structure Plain (bus : BusRow) (row : Row) : Prop where
  made : row.bus = some bus
  agent : row.agent = bus.name
  busStatus : row.busStatus = display bus.status
  subagents : row.subagents = []

/-- What the fold over the roster has recorded after the rows `done`. -/
structure Nested (roster done : List BusRow) (nesting : Nesting) : Prop where
  present : ∀ bus ∈ roster, bus.onBus = true → ∃ row, nesting.rows bus.name = some row ∧
    Plain bus row
  absent : ∀ bus ∈ roster, bus.onBus = false → nesting.rows bus.name = none
  children : ∀ bus ∈ roster, nesting.children bus.name =
    (done.filter fun child => hangsUnder roster child = some bus).map (·.name)
  proven : ∀ bus ∈ roster, bus.name ∈ nesting.proven ↔ bus ∈ done ∧
    (hangsUnder roster bus).isSome = true

/-- A row shows the roster row behind it, and what is nested in it hangs under that. -/
structure Fits (roster : List BusRow) (row : Row) : Prop where
  named : ∀ bus, row.bus = some bus → row.agent = bus.name
  under : ∀ sub ∈ row.subagents, ∃ child up, sub.bus = some child ∧ row.bus = some up ∧
    parent roster child = some up

section

variable {snapshot : Snapshot} {roster done : List BusRow} {bus child up : BusRow} {row : Row}
  {nesting : Nesting}

/-! ## Rows of the join -/

theorem Named.unique (named : Named roster) (member : bus ∈ roster) (member' : child ∈ roster)
    (same : bus.name = child.name) : bus = child :=
  List.inj_on_of_nodup_map named.distinct member member' same

theorem Named.nodup (named : Named roster) : roster.Nodup := named.distinct.of_map

theorem byUniqueBaseName_mem {baseName : String}
    (found : byUniqueBaseName roster baseName = some up) :
    up ∈ roster := by
  unfold byUniqueBaseName at found
  split at found
  · rename_i only
    cases found
    have inside : up ∈ roster.filter (·.baseName = baseName) := by simp [only]
    exact (List.mem_filter.mp inside).1
  · cases found

theorem parent_mem (found : parent roster child = some up) : up ∈ roster := by
  unfold parent at found
  split at found
  · cases found
  · exact byUniqueBaseName_mem found

theorem hangsUnder_eq_some :
    hangsUnder roster child = some up ↔
      parent roster child = some up ∧ child.onBus = true ∧ up.onBus = true := by
  simp [hangsUnder, Option.filter_eq_some_iff]

/-- The parents of a roster are in it. -/
theorem roster_closed (named : Named roster) : Closed (hangsUnder roster) roster :=
  ⟨named.nodup, fun _ hangs => parent_mem (hangsUnder_eq_some.mp hangs).1⟩

theorem mem_joinRows : row ∈ joinRows snapshot roster ↔ row ∈ joined snapshot roster :=
  (joinRows_perm snapshot roster).mem_iff

/-- A row of the join is made from a roster row, or shows no status of the bus. -/
theorem joinRows_row (named : Named roster) (member : row ∈ joinRows snapshot roster) :
    (row.bus = none ∧ row.busStatus = "-" ∧ row.subagents = []) ∨ ∃ bus ∈ roster,
    Plain bus row := by
  have sure : ∀ {bus : BusRow}, bus ∈ roster → display bus.name = bus.name := fun inside =>
    if_neg (named.nonempty _ inside)
  rcases List.mem_append.mp (mem_joinRows.mp member) with placed | unplaced
  · obtain ⟨paneID, here, inside⟩ := List.mem_flatMap.mp placed
    unfold rowsAt at inside
    split at inside
    · cases inside
    · split at inside
      · rw [List.mem_singleton.mp inside]
        exact Or.inl ⟨rfl, rfl, rfl⟩
      · rename_i matches_ _
        obtain ⟨entry, matched, rfl⟩ := List.mem_map.mp inside
        have known : entry.1 ∈ roster :=
          List.fst_mem_of_mem_zipIdx (matchesAt_mem_zipIdx here matched)
        refine Or.inr ⟨entry.1, known, rfl, ?_, rfl, rfl⟩
        simp [Placement.joined, first, named.nonempty _ known, sure known]
  · obtain ⟨entry, unmatched, rfl⟩ := List.mem_map.mp unplaced
    have known : entry.1 ∈ roster := List.fst_mem_of_mem_zipIdx (List.mem_filter.mp unmatched).1
    exact Or.inr ⟨entry.1, known, rfl, sure known, rfl, rfl⟩

/-- A row that is not at "-" stands at a live pane of its own. -/
theorem joinRows_placed (accepted : Accepted snapshot) (unclaimed : Unclaimed roster) :
    (((joinRows snapshot roster).filter (·.pane ≠ "-")).map (·.pane)).Nodup ∧
      ∀ row ∈ joinRows snapshot roster, row.pane ≠ "-" → snapshot.live row.pane = true := by
  have seen : ∀ row ∈ joinRows snapshot roster, row.pane ≠ "-" →
      row.gap ≠ "no visible pane" ∧ snapshot.live row.pane = true := by
    intro row member standing
    rcases List.mem_append.mp (mem_joinRows.mp member) with placed | unplaced
    · obtain ⟨paneID, placed, inside⟩ := List.mem_flatMap.mp placed
      obtain ⟨only, same, pane, gap, _⟩ := rowsAt_eq unclaimed placed
      rw [same, List.mem_singleton] at inside
      obtain ⟨_, place, shown⟩ := mem_placedPanes.mp placed
      rw [inside]
      exact ⟨gap, pane ▸ placement_live accepted shown⟩
    · obtain ⟨entry, _, rfl⟩ := List.mem_map.mp unplaced
      exact absurd rfl standing
  refine ⟨?_, fun row member standing => (seen row member standing).2⟩
  have narrowed : (joinRows snapshot roster).filter (·.pane ≠ "-") =
      ((joinRows snapshot roster).filter (·.gap ≠ "no visible pane")).filter (·.pane ≠ "-") := by
    rw [List.filter_filter]
    refine List.filter_congr fun row member => ?_
    by_cases standing : row.pane = "-"
    · simp [standing]
    · simp [standing, (seen row member standing).1]
  rw [narrowed]
  have distinct := (joinRows_once accepted unclaimed).panes.nodup_iff.mpr placedPanes_nodup
  exact distinct.sublist (List.filter_sublist.map _)

/-! ## The fold over the roster -/

theorem joinRows_bus (accepted : Accepted snapshot) (unclaimed : Unclaimed roster)
    (named : Named roster)
    (member : bus ∈ roster) : ∃ row ∈ joinRows snapshot roster, Plain bus row := by
  have inside := (joinRows_once accepted unclaimed).buses.mem_iff.mpr member
  obtain ⟨row, joined, made⟩ := List.mem_filterMap.mp inside
  rcases joinRows_row named joined with ⟨none, _⟩ | ⟨other, _, plain⟩
  · cases none.symm.trans made
  · cases plain.made.symm.trans made
    exact ⟨row, joined, plain⟩

theorem nested_start (accepted : Accepted snapshot) (unclaimed : Unclaimed roster)
    (named : Named roster) :
    Nested roster [] ⟨rowsByAgent (joinRows snapshot roster), fun _ => [], []⟩ := by
  have found : ∀ bus ∈ roster, ∀ row, rowsByAgent (joinRows snapshot roster) bus.name = some row →
      Plain bus row ∧ row.busStatus ≠ "-" := by
    intro bus member row same
    have inside := List.mem_reverse.mp (List.mem_of_find?_eq_some same)
    have shows := List.find?_some same
    have shows := of_decide_eq_true shows
    rcases joinRows_row named inside with ⟨_, silent, _⟩ | ⟨other, known, plain⟩
    · exact absurd silent shows.1
    · rw [named.unique member known (shows.2.symm.trans plain.agent)]
      exact ⟨plain, shows.1⟩
  refine ⟨fun bus member status => ?_, fun bus member silent => ?_, fun _ _ => rfl,
    fun _ _ => by simp⟩
  · obtain ⟨row, joined, plain⟩ := joinRows_bus accepted unclaimed named member
    have some : (rowsByAgent (joinRows snapshot roster) bus.name).isSome = true := by
      refine List.find?_isSome.mpr ⟨row, List.mem_reverse.mpr joined,
        decide_eq_true ⟨?_, plain.agent⟩⟩
      rw [plain.busStatus]
      exact of_decide_eq_true status
    obtain ⟨row, same⟩ := Option.isSome_iff_exists.mp some
    exact ⟨row, same, (found bus member row same).1⟩
  · cases same : rowsByAgent (joinRows snapshot roster) bus.name with
    | none => exact same
    | some row =>
      obtain ⟨plain, status⟩ := found bus member row same
      rw [plain.busStatus] at status
      exact absurd status (of_decide_eq_false silent)

theorem Nested.skip (nested : Nested roster done nesting) (idle : hangsUnder roster child = none) :
    Nested roster (done ++ [child]) nesting := by
  refine ⟨nested.present, nested.absent, fun bus member => ?_, fun bus member => ?_⟩
  · simp [nested.children bus member, idle]
  · rw [nested.proven bus member, List.mem_append, List.mem_singleton]
    constructor
    · rintro ⟨earlier, hangs⟩
      exact ⟨Or.inl earlier, hangs⟩
    · rintro ⟨earlier | rfl, hangs⟩
      · exact ⟨earlier, hangs⟩
      · simp [idle] at hangs

theorem Nested.link (named : Named roster) (nested : Nested roster done nesting)
    (member : child ∈ roster) :
    Nested roster (done ++ [child]) (nesting.link roster child) := by
  unfold Nesting.link
  cases found : parent roster child with
  | none => exact nested.skip (by simp [hangsUnder, found])
  | some up =>
    have upMember := parent_mem found
    cases status : child.onBus with
    | false =>
      simp only [nested.absent child member status]
      exact nested.skip (by simp [hangsUnder, found, status])
    | true =>
      obtain ⟨row, childRow, plain⟩ := nested.present child member status
      cases upStatus : up.onBus with
      | false =>
        simp only [childRow, nested.absent up upMember upStatus]
        exact nested.skip (by simp [hangsUnder, found, upStatus])
      | true =>
        obtain ⟨upRow, upFound, _⟩ := nested.present up upMember upStatus
        simp only [childRow, upFound]
        have hangs : hangsUnder roster child = some up :=
          hangsUnder_eq_some.mpr ⟨found, status, upStatus⟩
        -- Names are distinct, so rows are told apart by them.
        have same : ∀ {bus other}, bus ∈ roster → other ∈ roster →
            (bus.name = other.name ↔ bus = other) :=
          fun inside inside' => ⟨named.unique inside inside', fun same => same ▸ rfl⟩
        refine ⟨fun bus inside shown => ?_, fun bus inside silent => ?_, fun bus inside => ?_,
          fun bus inside => ?_⟩
        · by_cases own : bus = child
          · subst own
            exact ⟨_, Function.update_self .., plain.made, plain.agent, plain.busStatus,
              plain.subagents⟩
          · dsimp only
            rw [Function.update_of_ne (fun name => own (named.unique inside member name))]
            exact nested.present bus inside shown
        · have other : bus ≠ child := by
            rintro rfl
            cases status.symm.trans silent
          dsimp only
          rw [Function.update_of_ne (fun name => other (named.unique inside member name))]
          exact nested.absent bus inside silent
        · by_cases own : bus = up
          · subst own
            simp [nested.children bus inside, hangs]
          · dsimp only
            rw [Function.update_of_ne (fun name => own (named.unique inside upMember name)),
              nested.children bus inside]
            simp [hangs, Ne.symm own]
        · rw [List.mem_cons, same inside member, nested.proven bus inside, List.mem_append,
            List.mem_singleton]
          constructor
          · rintro (rfl | ⟨earlier, hangs⟩)
            · exact ⟨Or.inr rfl, by simp [hangs]⟩
            · exact ⟨Or.inl earlier, hangs⟩
          · rintro ⟨earlier | rfl, hangs⟩
            · exact Or.inr ⟨earlier, hangs⟩
            · exact Or.inl rfl

theorem nested_fold (named : Named roster) {rest : List BusRow}
    (nested : Nested roster done nesting)
    (members : rest ⊆ roster) :
    Nested roster (done ++ rest) (rest.foldl (Nesting.link roster) nesting) := by
  induction rest generalizing done nesting with
  | nil => simpa using nested
  | cons child rest inductionHypothesis =>
    obtain ⟨member, members⟩ := List.cons_subset.mp members
    have next := inductionHypothesis (nested.link named member) members
    simpa using next

theorem nestingOf_nested (accepted : Accepted snapshot) (unclaimed : Unclaimed roster)
    (named : Named roster) :
    Nested roster roster (nestingOf snapshot roster) :=
  nested_fold named (nested_start accepted unclaimed named) (List.Subset.refl roster)

/-! ## The recursion ends -/

theorem Nested.shown (nested : Nested roster done nesting) (member : bus ∈ roster)
    (status : bus.onBus = true) :
    Plain bus (nesting.row bus.name) := by
  obtain ⟨row, found, plain⟩ := nested.present bus member status
  rw [Nesting.row, found]
  exact plain

/-- The children of a row are the names of the rows that hang under it. -/
theorem Nested.childrenOf (nested : Nested roster roster nesting) (member : bus ∈ roster) :
    nesting.children bus.name = (childrenOf (hangsUnder roster) roster bus).map (·.name) :=
  nested.children bus member

theorem mem_childrenOf (below : child ∈ childrenOf (hangsUnder roster) roster bus) :
    child ∈ roster ∧ hangsUnder roster child = some bus :=
  ⟨(List.mem_filter.mp below).1, of_decide_eq_true (List.mem_filter.mp below).2⟩

/-- Every level of the recursion adds a name of the roster to the ancestors. -/
theorem attachChildren_ends (nested : Nested roster roster nesting) {fuel : Nat}
    {ancestors : List String}
    (member : bus ∈ roster) (agent : row.agent = bus.name)
    (enough : roster.countP (fun bus => bus.name ∉ ancestors) < fuel) :
    ∃ hung, attachChildren nesting fuel ancestors row = some hung := by
  induction fuel generalizing bus row ancestors with
  | zero => cases enough
  | succ fuel inductionHypothesis =>
    rw [attachChildren]
    split
    · exact ⟨row, rfl⟩
    · rename_i fresh
      rw [agent] at fresh ⊢
      rw [nested.childrenOf member]
      have fewer : roster.countP (fun other => other.name ∉ bus.name :: ancestors) <
          roster.countP (fun other => other.name ∉ ancestors) := by
        refine countP_lt_of_imp (fun other _ outside => ?_) member (by simp [fresh]) (by simp)
        simp only [List.mem_cons, not_or, decide_eq_true_eq] at outside ⊢
        exact outside.2
      have all : ∀ name ∈ (childrenOf (hangsUnder roster) roster bus).map (·.name),
          ∃ hung, attachChildren nesting fuel (bus.name :: ancestors) (nesting.row name) =
              some hung := by
        intro name inside
        obtain ⟨child, below, rfl⟩ := List.mem_map.mp inside
        obtain ⟨known, hangs⟩ := mem_childrenOf below
        have plain := nested.shown known (hangsUnder_eq_some.mp hangs).2.1
        exact inductionHypothesis known plain.agent (by omega)
      obtain ⟨nestedRows, found⟩ := mapM_total all
      rw [found]
      exact ⟨_, rfl⟩

/-- More fuel changes nothing. -/
theorem attachChildren_mono {fuel : Nat} {ancestors : List String} {hung : Row}
    (found : attachChildren nesting fuel ancestors row = some hung) :
    attachChildren nesting (fuel + 1) ancestors row = some hung := by
  induction fuel generalizing ancestors row hung with
  | zero => cases found
  | succ fuel inductionHypothesis =>
    rw [attachChildren] at found ⊢
    split
    · rename_i met
      rwa [if_pos met] at found
    · rename_i fresh
      rw [if_neg fresh] at found
      obtain ⟨nestedRows, all, same⟩ := Option.bind_eq_some_iff.mp found
      have again :=
        mapM_eq_some.mpr ((mapM_eq_some.mp all).imp fun _ _ found => inductionHypothesis found)
      rw [again]
      exact same

/-! ## What a row carries -/

theorem allOf_eq (rows : List Row) : allOf rows = rows.flatMap Row.all := by
  induction rows with
  | nil => rfl
  | cons row rows inductionHypothesis => rw [allOf, inductionHypothesis, List.flatMap_cons]

theorem all_eq (row : Row) : row.all = row :: row.subagents.flatMap Row.all := by
  rw [← allOf_eq]
  cases row
  rw [Row.all]

/-- The roster rows that a row shows, its own and those of the rows nested in it. -/
def Row.buses (row : Row) : List BusRow := row.all.filterMap (·.bus)

theorem buses_eq (row : Row) : row.buses = row.bus.toList ++ row.subagents.flatMap Row.buses := by
  rw [Row.buses, all_eq, List.filterMap_cons, List.filterMap_flatMap]
  cases row.bus <;> rfl

/-- What the recursion makes of a row with its ancestors above it. -/
structure Hung (roster : List BusRow) (bus : BusRow) (fuel : Nat) (row hung : Row) : Prop where
  kept : { hung with subagents := [] } = row
  walks : hung.buses.Perm (walk (hangsUnder roster) roster fuel bus)
  fits : ∀ part ∈ hung.all, Fits roster part

theorem Hung.made {fuel : Nat} {hung : Row} (made : Hung roster bus fuel row hung)
    (plain : Plain bus row) :
    hung.bus = some bus ∧ hung.agent = bus.name := by
  rw [← plain.made, ← plain.agent, ← made.kept]
  exact ⟨rfl, rfl⟩

theorem attachChildren_hung (named : Named roster) (nested : Nested roster roster nesting)
    {fuel : Nat}
    {above : List BusRow} {hung : Row} (member : bus ∈ roster)
    (under : Under (hangsUnder roster) above bus)
    (plain : Plain bus row) (found : attachChildren nesting fuel (above.map (·.name)) row =
    some hung) :
    Hung roster bus fuel row hung := by
  induction fuel generalizing bus above row hung with
  | zero => cases found
  | succ fuel inductionHypothesis =>
    have inside := List.cons_subset.mp (under.subset (roster_closed named) member)
    have fresh : row.agent ∉ above.map (·.name) := by
      rw [plain.agent]
      intro met
      obtain ⟨other, known, same⟩ := List.mem_map.mp met
      rw [named.unique (inside.2 known) member same] at known
      exact under.not_mem known
    have children := nested.childrenOf member
    rw [← plain.agent] at children
    rw [attachChildren, if_neg fresh, children] at found
    obtain ⟨parts, all, same⟩ := Option.bind_eq_some_iff.mp found
    rw [mapM_eq_some, List.forall₂_map_left_iff, plain.agent] at all
    -- each child, with its row, under one more ancestor
    have each :
      List.Forall₂ (fun child part => (parent roster child = some bus ∧ part.bus = some child) ∧
        Hung roster child fuel (nesting.row child.name) part)
        (childrenOf (hangsUnder roster) roster bus) parts := by
      refine forall₂_of_mem all fun child below part found => ?_
      obtain ⟨known, hangs⟩ := mem_childrenOf below
      obtain ⟨parented, status, _⟩ := hangsUnder_eq_some.mp hangs
      have plain := nested.shown known status
      have made := inductionHypothesis known (.child hangs under) plain found
      exact ⟨⟨parented, (made.made plain).1⟩, made⟩
    have subagents :
        hung = { row with subagents := parts.insertionSort fun a b => ¬ b.agent < a.agent } := by
      cases same
      split
      · rename_i none
        rw [none]
        cases row
        cases plain.subagents
        rfl
      · rfl
    have sorted := List.perm_insertionSort (fun a b : Row => ¬ b.agent < a.agent) parts
    subst subagents
    refine ⟨?_, ?_, ?_⟩
    · cases row
      cases plain.subagents
      rfl
    · rw [buses_eq, walk]
      change (row.bus.toList ++ _).Perm _
      rw [plain.made]
      refine List.Perm.cons bus ((sorted.flatMap_right _).trans ?_)
      clear all sorted found same children
      generalize childrenOf (hangsUnder roster) roster bus = below at each ⊢
      induction each with
      | nil => exact .refl _
      | cons head _ tail => exact head.2.walks.append tail
    · rw [all_eq]
      refine List.forall_mem_cons.mpr
        ⟨⟨fun other made => ?_, fun sub below => ?_⟩, fun part below => ?_⟩
      · cases plain.made.symm.trans made
        exact plain.agent
      · obtain ⟨child, _, ⟨parented, made⟩, _⟩ := forall₂_right each (sorted.mem_iff.mp below)
        exact ⟨child, bus, made, plain.made, parented⟩
      · obtain ⟨sub, member, below⟩ := List.mem_flatMap.mp below
        obtain ⟨child, _, _, made⟩ := forall₂_right each (sorted.mem_iff.mp member)
        exact made.fits part below

/-! ## The top level -/

/-- What the board makes of a row that is nobody's child. -/
structure Topped (roster : List BusRow) (fuel : Nat) (row hung : Row) : Prop where
  kept : { hung with subagents := [] } = row
  walks : hung.buses.Perm (row.bus.toList.flatMap (walk (hangsUnder roster) roster fuel))
  fits : ∀ part ∈ hung.all, Fits roster part

/-- A row with nothing nested in it. -/
theorem fits_bare (bare : row.subagents = [])
    (shows : ∀ bus, row.bus = some bus → row.agent = bus.name) :
    ∀ part ∈ row.all, Fits roster part := by
  intro part member
  rw [all_eq, bare, List.flatMap_nil, List.mem_singleton] at member
  subst member
  refine ⟨shows, fun sub below => ?_⟩
  rw [bare] at below
  cases below

theorem walk_alone (silent : bus.onBus = false) (fuel : Nat) :
    walk (hangsUnder roster) roster (fuel + 1) bus = [bus] := by
  have none : childrenOf (hangsUnder roster) roster bus = [] := by
    refine List.filter_eq_nil_iff.mpr fun child _ hangs => ?_
    cases silent.symm.trans (hangsUnder_eq_some.mp (of_decide_eq_true hangs)).2.2
  rw [walk, none]
  rfl

theorem top_topped (named : Named roster) (nested : Nested roster roster nesting) {fuel : Nat}
    {hung : Row}
    (member : row ∈ joinRows snapshot roster)
    (kept : ¬ (row.agent ∈ nesting.proven ∧ row.busStatus ≠ "-"))
    (found : nesting.top (fuel + 1) row = some hung) : Topped roster (fuel + 1) row hung := by
  unfold Nesting.top at found
  rcases joinRows_row named member with ⟨none, silent, bare⟩ | ⟨bus, known, plain⟩
  · rw [if_neg (not_not_intro silent)] at found
    cases found
    refine ⟨?_, ?_, fits_bare bare fun bus made => ?_⟩
    · cases row
      cases bare
      rfl
    · simp [buses_eq, none, bare]
    · cases none.symm.trans made
  · cases status : bus.onBus with
    | true =>
      have shown : row.busStatus ≠ "-" := by
        rw [plain.busStatus]
        exact of_decide_eq_true status
      rw [if_pos shown] at found
      have root : hangsUnder roster bus = none := by
        cases hangs : hangsUnder roster bus with
        | none => rfl
        | some up =>
          refine absurd ⟨?_, shown⟩ kept
          rw [plain.agent]
          exact (nested.proven bus known).mpr ⟨known, by simp [hangs]⟩
      have made := attachChildren_hung named nested known (.root root) plain found
      refine ⟨made.kept, ?_, made.fits⟩
      simpa [plain.made] using made.walks
    | false =>
      have silent : row.busStatus = "-" := by
        rw [plain.busStatus]
        simpa [BusRow.onBus] using status
      rw [if_neg (not_not_intro silent)] at found
      cases found
      refine ⟨?_, ?_, fits_bare plain.subagents fun other made => ?_⟩
      · cases row
        cases plain.subagents
        rfl
      · simp [buses_eq, plain.made, plain.subagents, walk_alone status]
      · cases plain.made.symm.trans made
        exact plain.agent

theorem top_ends (named : Named roster) (nested : Nested roster roster nesting) {fuel : Nat}
    (enough : roster.length < fuel) (member : row ∈ joinRows snapshot roster) :
    ∃ hung, nesting.top fuel row = some hung := by
  unfold Nesting.top
  split
  · rename_i shown
    rcases joinRows_row named member with ⟨_, silent, _⟩ | ⟨bus, known, plain⟩
    · exact absurd silent shown
    · exact attachChildren_ends nested known plain.agent
        (Nat.lt_of_le_of_lt List.countP_le_length enough)
  · exact ⟨row, rfl⟩

theorem topRows_ends (named : Named roster) (nested : Nested roster roster nesting) :
    ∃ top, ∀ fuel, roster.length < fuel →
      topRows nesting fuel (joinRows snapshot roster) = some top := by
  have more : ∀ {fuel : Nat} {row hung : Row}, nesting.top fuel row = some hung →
      nesting.top (fuel + 1) row = some hung := by
    intro fuel row hung found
    unfold Nesting.top at found ⊢
    split
    · rename_i shown
      rw [if_pos shown] at found
      exact attachChildren_mono found
    · rename_i silent
      rwa [if_neg silent] at found
  obtain ⟨top, found⟩ := mapM_total fun row inside =>
    top_ends named nested (Nat.lt_succ_self roster.length) (List.mem_filter.mp inside).1
  refine ⟨top, fun fuel enough => ?_⟩
  induction fuel, enough using Nat.le_induction with
  | base => exact found
  | succ fuel _ inductionHypothesis =>
    exact mapM_eq_some.mpr ((mapM_eq_some.mp inductionHypothesis).imp fun _ _ found => more found)

/-- The rows at the top, each with what it shows. -/
theorem topRows_topped (named : Named roster) (nested : Nested roster roster nesting) {fuel : Nat}
    (enough : roster.length < fuel) {top : List Row}
    (found : topRows nesting fuel (joinRows snapshot roster) = some top) :
    List.Forall₂ (Topped roster fuel)
      ((joinRows snapshot roster).filter fun row =>
      ¬ (row.agent ∈ nesting.proven ∧ row.busStatus ≠ "-")) top := by
  cases fuel with
  | zero => cases enough
  | succ fuel =>
    refine forall₂_of_mem (mapM_eq_some.mp found) fun row inside hung made => ?_
    obtain ⟨member, kept⟩ := List.mem_filter.mp inside
    exact top_topped named nested member (of_decide_eq_true kept) made

/-- The top rows that show the bus are the roots of the nesting. -/
theorem top_roots (accepted : Accepted snapshot) (unclaimed : Unclaimed roster)
    (named : Named roster)
    (nested : Nested roster roster nesting) :
    (((joinRows snapshot roster).filter fun row =>
      ¬ (row.agent ∈ nesting.proven ∧ row.busStatus ≠ "-")).filterMap (·.bus)).Perm
        (rootsOf (hangsUnder roster) roster) := by
  have commutes : ((joinRows snapshot roster).filter fun row =>
      ¬ (row.agent ∈ nesting.proven ∧ row.busStatus ≠ "-")).filterMap (·.bus) =
        ((joinRows snapshot roster).filterMap (·.bus)).filter fun bus =>
            hangsUnder roster bus = none := by
    rw [List.filterMap_filter, List.filter_filterMap]
    refine List.filterMap_congr fun row member => ?_
    rcases joinRows_row named member with ⟨none, _⟩ | ⟨bus, known, plain⟩
    · simp [none]
    · cases hangs : hangsUnder roster bus with
      | none =>
        have unproven : row.agent ∉ nesting.proven := by
          rw [plain.agent, nested.proven bus known, hangs]
          simp
        simp [plain.made, hangs, unproven, Option.filter]
      | some up =>
        have proven : row.agent ∈ nesting.proven := by
          rw [plain.agent, nested.proven bus known, hangs]
          exact ⟨known, rfl⟩
        have shown : row.busStatus ≠ "-" := by
          rw [plain.busStatus]
          exact of_decide_eq_true (hangsUnder_eq_some.mp hangs).2.1
        simp [plain.made, hangs, proven, shown, Option.filter]
  rw [commutes]
  exact (joinRows_once accepted unclaimed).buses.filter _

/-! ## The whole board -/

/-- The ids of a snapshot are distinct. -/
structure Distinct (snapshot : Snapshot) : Prop where
  workspaces : (snapshot.workspaces.map (·.workspaceID)).Nodup
  tabs : (snapshot.tabs.map (·.tabID)).Nodup
  panes : (snapshot.panes.map (·.paneID)).Nodup

/-- The panes, tab by tab in each workspace, are the panes of the snapshot. -/
theorem sources_perm (accepted : Accepted snapshot) (distinct : Distinct snapshot) :
    (snapshot.workspaces.flatMap fun workspace =>
      (snapshot.tabs.filter (·.workspaceID = workspace.workspaceID)).flatMap fun tab =>
        snapshot.panes.filter (·.tabID = tab.tabID)).Perm snapshot.panes := by
  have tabs : (snapshot.workspaces.flatMap fun workspace =>
      snapshot.tabs.filter (·.workspaceID = workspace.workspaceID)).Perm snapshot.tabs := by
    have groups :=
        @flatMap_filter_perm _ _ _ (·.workspaceID) _ snapshot.tabs distinct.workspaces
        fun tab member => by
      obtain ⟨workspace, known, same⟩ := accepted.tab tab member
      exact List.mem_map.mpr ⟨workspace, known, same⟩
    rwa [List.flatMap_map] at groups
  have panes :=
      @flatMap_filter_perm _ _ _ (·.tabID) _ snapshot.panes distinct.tabs fun pane member => by
    obtain ⟨tab, known, same, _⟩ := accepted.pane pane member
    exact List.mem_map.mpr ⟨tab, known, same⟩
  rw [List.flatMap_map] at panes
  rw [← List.flatMap_assoc]
  exact (tabs.flatMap_right _).trans panes

theorem places_perm (accepted : Accepted snapshot) (distinct : Distinct snapshot)
    (worktreeParents : String → String) (top unplaced : List Row) :
    (Board.mk (snapshot.workspaces.map (boardWorkspace snapshot worktreeParents top))
    unplaced).places.Perm
      (snapshot.panes.map fun pane => (pane.workspaceID, pane.tabID, pane.paneID)) := by
  refine List.Perm.trans (.of_eq ?_) ((sources_perm accepted distinct).map _)
  simp only [Board.places, List.flatMap_map, boardWorkspace, boardTab, List.map_flatMap,
    List.map_map]
  refine List.flatMap_congr fun workspace _ => List.flatMap_congr fun tab member => ?_
  obtain ⟨known, within⟩ := List.mem_filter.mp member
  refine List.map_congr_left fun pane inside => ?_
  obtain ⟨shown, here⟩ := List.mem_filter.mp inside
  obtain ⟨other, known', same, agrees⟩ := accepted.pane pane shown
  have one : other = tab :=
    List.inj_on_of_nodup_map distinct.tabs known' known (same.trans (of_decide_eq_true here))
  subst one
  simp [boardPane, agrees, of_decide_eq_true within, same]

theorem panes_perm (accepted : Accepted snapshot) (distinct : Distinct snapshot)
    (worktreeParents : String → String) (top unplaced : List Row) :
    (Board.mk (snapshot.workspaces.map (boardWorkspace snapshot worktreeParents top))
    unplaced).panes.Perm
      (snapshot.panes.map (boardPane top)) := by
  refine List.Perm.trans (.of_eq ?_) ((sources_perm accepted distinct).map _)
  simp only [Board.panes, List.flatMap_map, boardWorkspace, boardTab, List.map_flatMap]

theorem boardPane_row (top : List Row) (source : SourcePane) :
    (∃ row, rowAt top source.paneID = some row ∧ (boardPane top source).row.bus = row.bus ∧
        (boardPane top source).row.agent = row.agent ∧
        (boardPane top source).row.subagents = row.subagents) ∨
      rowAt top source.paneID = none ∧ (boardPane top source).row.bus = none ∧
        (boardPane top source).row.subagents = [] := by
  cases found : rowAt top source.paneID with
  | some row => exact Or.inl ⟨row, rfl, by simp [boardPane, Pane.row, found]⟩
  | none =>
    refine Or.inr ⟨rfl, ?_⟩
    simp only [boardPane, Pane.row, found, Option.getD_none, SourcePane.plain]
    split <;> exact ⟨rfl, rfl⟩

theorem boardPane_buses (top : List Row) (source : SourcePane) :
    (boardPane top source).row.buses = (rowAt top source.paneID).toList.flatMap Row.buses := by
  rw [buses_eq]
  rcases boardPane_row top source with ⟨row, found, bus, _, subagents⟩ | ⟨found, bus, subagents⟩
  · simp [found, bus, subagents, buses_eq row]
  · simp [found, bus, subagents]

/-- The rows at the top: what they show, and where they stand. -/
structure Top (snapshot : Snapshot) (roster : List BusRow) (fuel : Nat) (top : List Row) :
    Prop where
  walks : (top.flatMap Row.buses).Perm
    ((rootsOf (hangsUnder roster) roster).flatMap (walk (hangsUnder roster) roster fuel))
  fits : ∀ row ∈ top, ∀ part ∈ row.all, Fits roster part
  distinct : ((top.filter (·.pane ≠ "-")).map (·.pane)).Nodup
  live : ∀ row ∈ top, row.pane ≠ "-" → snapshot.live row.pane = true

theorem topRows_top (accepted : Accepted snapshot) (unclaimed : Unclaimed roster)
    (named : Named roster)
    {fuel : Nat} (enough : roster.length < fuel) {top : List Row}
    (found : topRows (nestingOf snapshot roster) fuel (joinRows snapshot roster) = some top) :
    Top snapshot roster fuel top := by
  have nested := nestingOf_nested accepted unclaimed named
  have topped := topRows_topped named nested enough found
  have roots := top_roots accepted unclaimed named nested
  obtain ⟨distinct, live⟩ := joinRows_placed accepted unclaimed
  have inside : List.Sublist ((joinRows snapshot roster).filter fun row =>
      ¬ (row.agent ∈ (nestingOf snapshot roster).proven ∧ row.busStatus ≠ "-"))
          (joinRows snapshot roster) :=
    List.filter_sublist
  generalize (joinRows snapshot roster).filter (fun row =>
    ¬ (row.agent ∈ (nestingOf snapshot roster).proven ∧ row.busStatus ≠ "-")) =
      chosen at topped roots inside
  have pane : ∀ {row hung : Row}, Topped roster fuel row hung → hung.pane = row.pane := by
    intro row hung topped
    rw [← topped.kept]
  refine ⟨?_, ?_, ?_, ?_⟩
  · refine List.Perm.trans ?_ (roots.flatMap_right _)
    clear roots inside found
    induction topped with
    | nil => exact .refl _
    | @cons row hung _ _ head _ tail =>
      rw [List.flatMap_cons, List.filterMap_cons]
      have walks := head.walks
      cases made : row.bus with
      | none =>
        rw [made] at walks
        simpa using walks.append tail
      | some bus =>
        rw [made] at walks
        simpa using walks.append tail
  · intro hung member
    obtain ⟨row, _, head⟩ := forall₂_right topped member
    exact head.fits
  -- Nesting keeps each row in its pane.
  · have panes : top.map (·.pane) = chosen.map (·.pane) := by
      clear roots inside found
      induction topped with
      | nil => rfl
      | cons head _ tail => rw [List.map_cons, List.map_cons, pane head, tail]
    have standing : ∀ rows : List Row, (rows.filter (·.pane ≠ "-")).map (·.pane) =
        (rows.map (·.pane)).filter (· ≠ "-") := fun rows => by
      rw [List.filter_map]
      rfl
    rw [standing, panes, ← standing]
    exact distinct.sublist ((inside.filter _).map _)
  · intro hung member
    obtain ⟨row, known, head⟩ := forall₂_right topped member
    rw [pane head]
    exact live row (inside.subset known)

/-- The rows that stand at panes are found there, one by one. -/
theorem rowAt_perm {fuel : Nat} {top : List Row} (distinct : Distinct snapshot)
    (tops : Top snapshot roster fuel top) :
    (snapshot.panes.filterMap fun source => rowAt top source.paneID).Perm
    (top.filter (·.pane ≠ "-")) := by
  have finds :=
    @filterMap_find_perm _ _ _ (·.pane) _ (top.filter (·.pane ≠ "-")).reverse distinct.panes
    (by
      rw [List.map_reverse]
      exact List.nodup_reverse.mpr tops.distinct)
    (fun row member => by
      obtain ⟨known, standing⟩ := List.mem_filter.mp (List.mem_reverse.mp member)
      obtain ⟨source, inside, same⟩ :=
        List.any_eq_true.mp (tops.live row known (of_decide_eq_true standing))
      exact List.mem_map.mpr ⟨source, inside, of_decide_eq_true same⟩)
  refine List.Perm.trans (.of_eq ?_) (finds.trans (List.reverse_perm _))
  rw [List.filterMap_map]
  refine List.filterMap_congr fun source _ => ?_
  rw [Function.comp_apply, ← List.filter_reverse, List.find?_filter, rowAt]
  simp

/-- Every row on the board shows the roster row behind it, as `Fits` says. -/
structure ShownOnce (snapshot : Snapshot) (roster : List BusRow) (board : Board) : Prop where
  joined : JoinedOnce snapshot roster (joinRows snapshot roster)
  panes :
    board.places.Perm (snapshot.panes.map fun pane => (pane.workspaceID, pane.tabID, pane.paneID))
  fits : ∀ row ∈ board.rows, Fits roster row
  agents : (board.rows.filterMap (·.bus)).Perm roster

/-- What the board shows is what the walks from the roots reach. -/
theorem shown_perm (accepted : Accepted snapshot) (distinct : Distinct snapshot) {fuel : Nat}
    {top : List Row}
    (tops : Top snapshot roster fuel top) (worktreeParents : String → String) :
    ((Board.mk (snapshot.workspaces.map (boardWorkspace snapshot worktreeParents top))
      (top.filter (·.pane = "-"))).rows.filterMap (·.bus)).Perm
        ((rootsOf (hangsUnder roster) roster).flatMap (walk (hangsUnder roster) roster fuel)) := by
  refine List.Perm.trans ?_ tops.walks
  have panes := panes_perm accepted distinct worktreeParents top (top.filter (·.pane = "-"))
  have atPanes : ((snapshot.panes.map (boardPane top)).map Pane.row).flatMap Row.buses =
      (snapshot.panes.filterMap fun source => rowAt top source.paneID).flatMap Row.buses := by
    rw [List.filterMap_eq_flatMap_toList, List.flatMap_assoc, List.map_map, List.flatMap_map]
    exact List.flatMap_congr fun source _ => boardPane_buses top source
  rw [Board.rows, allOf_eq, List.filterMap_flatMap]
  change (List.flatMap Row.buses _).Perm _
  rw [List.flatMap_append]
  have placed := ((panes.map Pane.row).flatMap_right Row.buses).trans
    ((List.Perm.of_eq atPanes).trans ((rowAt_perm distinct tops).flatMap_right Row.buses))
  refine (placed.append_right _).trans ?_
  rw [← List.flatMap_append]
  refine List.Perm.flatMap_right _ ?_
  simpa using List.filter_append_perm (fun row : Row => decide (row.pane ≠ "-")) top

theorem rows_fit {fuel : Nat} {top : List Row} (accepted : Accepted snapshot)
    (distinct : Distinct snapshot)
    (tops : Top snapshot roster fuel top) (worktreeParents : String → String) :
    ∀ row ∈ (Board.mk (snapshot.workspaces.map (boardWorkspace snapshot worktreeParents top))
      (top.filter (·.pane = "-"))).rows, Fits roster row := by
  intro part member
  rw [Board.rows, allOf_eq] at member
  obtain ⟨row, shown, within⟩ := List.mem_flatMap.mp member
  rcases List.mem_append.mp shown with placed | unplaced
  · obtain ⟨pane, onBoard, rfl⟩ := List.mem_map.mp placed
    have known := (panes_perm accepted distinct worktreeParents top _).mem_iff.mp onBoard
    obtain ⟨source, _, rfl⟩ := List.mem_map.mp known
    rcases boardPane_row top source with ⟨row, found, bus, agent, subagents⟩ | ⟨_, bus, subagents⟩
    · have inside : row ∈ top := List.mem_reverse.mp (List.mem_of_find?_eq_some found)
      have fits := tops.fits row inside
      rw [all_eq] at within fits
      obtain ⟨own, below⟩ := List.forall_mem_cons.mp fits
      rw [subagents] at within
      rcases List.mem_cons.mp within with rfl | nested
      · refine ⟨fun other made => ?_, fun sub lower => ?_⟩
        · rw [bus] at made
          rw [agent]
          exact own.named other made
        · rw [subagents] at lower
          rw [bus]
          exact own.under sub lower
      · exact below part nested
    · exact fits_bare subagents (fun other made => by cases bus.symm.trans made) part within
  · exact tops.fits row (List.mem_filter.mp unplaced).1 part within

end

/-- The board shows every agent and every pane once just if no row of the roster comes back
    to itself along the parents that take part in the nesting. -/
theorem shown_once_iff {snapshot : Snapshot} {roster : List BusRow}
    (validSnapshot : validateSnapshot snapshot = .ok ()) (distinct : Distinct snapshot)
    (validRoster : validateRoster roster = .ok ()) (named : Named roster)
    (worktreeParents : String → String) :
    ∃ board, (∀ fuel, roster.length < fuel →
      build fuel snapshot roster worktreeParents = some board) ∧
      (ShownOnce snapshot roster board ↔
        ¬ ∃ row ∈ roster, Relation.TransGen
          (fun child up => hangsUnder roster child = some up) row row) := by
  have accepted := accepted validSnapshot
  have unclaimed := (checkClaims_ok validRoster).1
  obtain ⟨top, found⟩ := topRows_ends named (nestingOf_nested accepted unclaimed named)
  have tops :=
    topRows_top accepted unclaimed named (Nat.lt_succ_self _) (found _ (Nat.lt_succ_self _))
  refine ⟨⟨snapshot.workspaces.map (boardWorkspace snapshot worktreeParents top),
    top.filter (·.pane = "-")⟩,
    fun fuel enough => ?_, ?_⟩
  · rw [build, found fuel enough]
    rfl
  · have shown := shown_perm accepted distinct tops worktreeParents
    rw [← walk_perm_iff (roster_closed named) (Nat.le_succ _)]
    constructor
    · intro once
      exact shown.symm.trans once.agents
    · intro walks
      exact ⟨joinRows_once accepted unclaimed, places_perm accepted distinct worktreeParents top _,
        rows_fit accepted distinct tops worktreeParents, shown.trans walks⟩

/-! ## Samples -/

def sampleRow (name parentName paneID : String) : BusRow where
  name := name
  baseName := name
  tool := "claude"
  tag := ""
  sessionID := ""
  parentName := parentName
  transcriptPath := ""
  createdAt := Agents.Time.zero
  status := "active"
  paneID := paneID

def sampleSnapshot : Snapshot where
  workspaces := [⟨"w1", 1, "main", true, 1, 1, "t1", "active"⟩]
  tabs := [⟨"t1", "w1", 1, "main", true, 1, "active"⟩]
  agents := []
  panes := [⟨"p1", "w1", "t1", "shell", "", "", "", "zsh"⟩]

/-- An agent in the pane, and its subagent. -/
def sampleRoster : List BusRow := [sampleRow "scout" "" "p1", sampleRow "helper" "scout" ""]

theorem shown_once_iff_sample :
    ∃ board, (∀ fuel, sampleRoster.length < fuel →
        build fuel sampleSnapshot sampleRoster (fun _ => "") = some board) ∧
      (ShownOnce sampleSnapshot sampleRoster board ↔ ¬ ∃ row ∈ sampleRoster,
        Relation.TransGen (fun child up => hangsUnder sampleRoster child = some up) row row) :=
  shown_once_iff (by decide) ⟨by decide, by decide, by decide⟩ (by decide)
    ⟨by decide, by decide⟩ fun _ => ""

/-- A row whose parent is its own base name. -/
def ownParent : List BusRow := [sampleRow "scout" "scout" ""]

/-- It is accepted, and the board shows nothing of it. -/
theorem own_parent_not_shown :
    validateSnapshot ⟨[], [], [], []⟩ = .ok () ∧ Distinct ⟨[], [], [], []⟩ ∧
      validateRoster ownParent = .ok () ∧ Named ownParent ∧
      ∃ board, build 2 ⟨[], [], [], []⟩ ownParent (fun _ => "") = some board ∧
        ¬ (board.rows.filterMap (·.bus)).Perm ownParent := by
  refine ⟨rfl, ⟨.nil, .nil, .nil⟩, by decide, ⟨by decide, by decide⟩, ⟨[], []⟩, ?_, ?_⟩
  · rfl
  · intro shown
    exact absurd shown.length_eq (by decide)

end AiConfig.Herder.Fleet
