import Mathlib.Data.List.Sort
import Mathlib.Data.List.Dedup
import AiConfig.Herder.Agents.Projection

/-! # Joining panes and roster rows

Transcription of `JoinRows` and the two validations of `internal/fleetview/fleet.go`, and of
`Parent` of `internal/hcomidentity`.  A map is read at a key as the last entry written for
it.  The fields that only the agent store fills in later are left out. -/

namespace AiConfig.Herder.Agents

deriving instance DecidableEq for RosterRow

end AiConfig.Herder.Agents

namespace AiConfig.Herder.Fleet

open AiConfig.Herder.Agents (RosterRow)

/-! ## What herdr and hcom report -/

structure Agent where
  paneID : String
  agent : String
  status : String
  name : String
  deriving DecidableEq, Inhabited

structure SourcePane where
  paneID : String
  workspaceID : String
  tabID : String
  label : String
  agent : String
  agentStatus : String
  agentSession : String
  currentCommand : String
  deriving DecidableEq

structure SourceTab where
  tabID : String
  workspaceID : String
  number : Int
  label : String
  focused : Bool
  paneCount : Int
  agentStatus : String
  deriving DecidableEq

structure SourceWorkspace where
  workspaceID : String
  number : Int
  label : String
  focused : Bool
  paneCount : Int
  tabCount : Int
  activeTabID : String
  agentStatus : String
  deriving DecidableEq

structure Snapshot where
  workspaces : List SourceWorkspace
  tabs : List SourceTab
  agents : List Agent
  panes : List SourcePane

/-- A row of the hcom roster; `paneID` is its launch context's claim. -/
structure BusRow extends RosterRow where
  status : String
  paneID : String
  deriving DecidableEq

/-- A base name is evidence only when exactly one row exposes it. -/
def byUniqueBaseName (rows : List BusRow) (baseName : String) : Option BusRow :=
  match rows.filter (·.baseName = baseName) with
  | [row] => some row
  | _ => none

def parent (rows : List BusRow) (child : BusRow) : Option BusRow :=
  if child.parentName = "" then none else byUniqueBaseName rows child.parentName

/-! ## Validation -/

def Snapshot.tab (snapshot : Snapshot) (tabID : String) : Option SourceTab :=
  snapshot.tabs.reverse.find? (·.tabID = tabID)

def Snapshot.live (snapshot : Snapshot) (paneID : String) : Bool :=
  snapshot.panes.any (·.paneID = paneID)

def Snapshot.checkTab (snapshot : Snapshot) (tab : SourceTab) : Except String Unit :=
  if snapshot.workspaces.any (·.workspaceID = tab.workspaceID) then .ok ()
  else .error ("tab " ++ tab.tabID ++ " references missing workspace " ++ tab.workspaceID)

def Snapshot.checkPane (snapshot : Snapshot) (pane : SourcePane) : Except String Unit :=
  match snapshot.tab pane.tabID with
  | none => .error ("pane " ++ pane.paneID ++ " references missing tab " ++ pane.tabID)
  | some tab =>
    if pane.workspaceID = tab.workspaceID then .ok ()
    else .error ("pane " ++ pane.paneID ++ " workspace " ++ pane.workspaceID ++
      " disagrees with tab workspace " ++ tab.workspaceID)

def Snapshot.checkAgent (snapshot : Snapshot) (agent : Agent) : Except String Unit :=
  if agent.paneID = "" ∨ snapshot.live agent.paneID then .ok ()
  else .error ("agent " ++ agent.name ++ " references missing pane " ++ agent.paneID)

def validateSnapshot (snapshot : Snapshot) : Except String Unit := do
  snapshot.tabs.forM snapshot.checkTab
  snapshot.panes.forM snapshot.checkPane
  snapshot.agents.forM snapshot.checkAgent

def checkClaims (claimed : List BusRow) : List BusRow → Except String Unit
  | [] => .ok ()
  | row :: rest =>
    if row.paneID = "" then checkClaims claimed rest
    else match claimed.find? (·.paneID = row.paneID) with
      | some previous => .error ("pane " ++ row.paneID ++ " is claimed by multiple bus rows (" ++
          previous.name ++ ", " ++ row.name ++ ")")
      | none => checkClaims (row :: claimed) rest

def validateRoster (roster : List BusRow) : Except String Unit := checkClaims [] roster

/-! ## The join -/

def first : List String → String
  | [] => ""
  | value :: rest => if value ≠ "" then value else first rest

def display (value : String) : String := if value = "" then "-" else value

structure Placement where
  pane : String
  name : String
  tool : String
  session : String
  status : String
  deriving DecidableEq

/-- `bus` is the roster row that a row was made from.  The source does not keep it, and
    nothing here reads it. -/
structure Row where
  pane : String
  agent : String
  tool : String
  herdrStatus : String
  busStatus : String
  gap : String
  parentAgent : String := ""
  subagents : List Row := []
  bus : Option BusRow := none

/-- What `JoinRows` knows of a roster row: the row and its index. -/
abbrev Entry := BusRow × Nat

section

variable (snapshot : Snapshot) (roster : List BusRow)

def Snapshot.agentAt (paneID : String) : Option Agent :=
  snapshot.agents.reverse.find? fun agent => agent.paneID ≠ "" ∧ agent.paneID = paneID

def Snapshot.shows (pane : SourcePane) : Bool :=
  (snapshot.agentAt pane.paneID).isSome || pane.agent ≠ "" || pane.agentSession ≠ ""

def Snapshot.place (pane : SourcePane) : Placement :=
  let agent := (snapshot.agentAt pane.paneID).getD default
  ⟨pane.paneID, first [agent.name, pane.label], first [agent.agent, pane.agent], pane.agentSession,
    first [agent.status, pane.agentStatus, "visible"]⟩

def claims (paneID : String) : List Entry :=
  roster.zipIdx.filter fun entry => entry.1.paneID ≠ "" ∧ entry.1.paneID = paneID

def placement (paneID : String) : Option Placement :=
  match snapshot.panes.reverse.find? fun pane => pane.paneID = paneID ∧ snapshot.shows pane with
  | some pane => some (snapshot.place pane)
  | none =>
    match snapshot.agentAt paneID with
    | some agent => some ⟨paneID, agent.name, agent.agent, "", agent.status⟩
    | none =>
      -- a launch claim on a pane that herdr has not bound yet
      if snapshot.live paneID ∧ (claims roster paneID).length = 1 then
        some ⟨paneID, "", "", "", ""⟩
      else none

def placedPanes : List String :=
  ((snapshot.panes.map (·.paneID) ++ snapshot.agents.map (·.paneID)).dedup.filter
    fun paneID => (placement snapshot roster paneID).isSome).insertionSort fun a b => ¬ b < a

/-- The placed panes with a tool and session. -/
def panesBySession (tool session : String) : List String :=
  (placedPanes snapshot roster).filter fun paneID =>
    (placement snapshot roster paneID).any fun place => place.tool = tool ∧ place.session = session

def rowsBySession (tool session : String) : List Entry :=
  roster.zipIdx.filter fun entry =>
    ¬ snapshot.live entry.1.paneID ∧ entry.1.tool = tool ∧ entry.1.sessionID = session

def bySessionPane (paneID : String) : Option Entry :=
  match placement snapshot roster paneID with
  | none => none
  | some place =>
    if place.tool = "" ∨ place.session = "" then none
    else
      match panesBySession snapshot roster place.tool place.session,
        rowsBySession snapshot roster place.tool place.session, claims roster paneID with
      -- One pane and one row of that session, and no row that claims the pane.
      | [_], [entry], [] => some entry
      | _, _, _ => none

def matchesAt (paneID : String) : List Entry :=
  match claims roster paneID with
  | [] => (bySessionPane snapshot roster paneID).toList
  | claimed => claimed

def Placement.blank (place : Placement) : Bool :=
  place.name = "" && place.tool = "" && place.session = "" && place.status = ""

def Placement.joined (place : Placement) (bus : BusRow) : Row where
  pane := place.pane
  agent := display (first [bus.name, place.name])
  tool := display (first [bus.tool, place.tool])
  herdrStatus := display place.status
  busStatus := display bus.status
  gap := if place.blank then "pane not bound" else "-"
  bus := some bus

def Placement.alone (place : Placement) : Row where
  pane := place.pane
  agent := display place.name
  tool := display place.tool
  herdrStatus := display place.status
  busStatus := "-"
  gap := "no bus row"

def BusRow.unplaced (bus : BusRow) : Row where
  pane := "-"
  agent := display bus.name
  tool := display bus.tool
  herdrStatus := "-"
  busStatus := display bus.status
  gap := "no visible pane"
  bus := some bus

def rowsAt (paneID : String) : List Row :=
  match placement snapshot roster paneID with
  | none => []
  | some place =>
    match matchesAt snapshot roster paneID with
    | [] => [place.alone]
    | entries => entries.map fun entry => place.joined entry.1

def matched (index : Nat) : Bool :=
  (placedPanes snapshot roster).any fun paneID =>
    (matchesAt snapshot roster paneID).any (·.2 = index)

def rowLess (a b : Row) : Bool := if a.pane ≠ b.pane then a.pane < b.pane else a.agent < b.agent

def joinRows : List Row :=
  ((placedPanes snapshot roster).flatMap (rowsAt snapshot roster) ++
    (roster.zipIdx.filter fun entry => !matched snapshot roster entry.2).map fun entry =>
      entry.1.unplaced).insertionSort fun a b => ¬ rowLess b a

end

/-! ## What the validations promise -/

theorem forM_ok {α : Type} {check : α → Except String Unit} {list : List α} :
    list.forM check = .ok () ↔ ∀ item ∈ list, check item = .ok () := by
  induction list with
  | nil => simp [pure, Except.pure]
  | cons head list inductionHypothesis =>
    rw [List.forall_mem_cons, ← inductionHypothesis]
    change (check head >>= fun _ => list.forM check) = _ ↔ _
    cases check head with
    | error => simp [bind, Except.bind]
    | ok => simp [bind, Except.bind]

structure Accepted (snapshot : Snapshot) : Prop where
  tab : ∀ tab ∈ snapshot.tabs, ∃ workspace ∈ snapshot.workspaces,
    workspace.workspaceID = tab.workspaceID
  pane : ∀ pane ∈ snapshot.panes, ∃ tab ∈ snapshot.tabs, tab.tabID = pane.tabID ∧
    pane.workspaceID = tab.workspaceID
  agent : ∀ agent ∈ snapshot.agents, agent.paneID = "" ∨ snapshot.live agent.paneID = true

theorem accepted {snapshot : Snapshot} (valid : validateSnapshot snapshot = .ok ()) :
    Accepted snapshot := by
  unfold validateSnapshot at valid
  cases tabs : snapshot.tabs.forM snapshot.checkTab with
  | error => simp [tabs, bind, Except.bind] at valid
  | ok =>
    cases panes : snapshot.panes.forM snapshot.checkPane with
    | error => simp [tabs, panes, bind, Except.bind] at valid
    | ok =>
      have agents : snapshot.agents.forM snapshot.checkAgent = .ok () := by
        simpa [tabs, panes, bind, Except.bind] using valid
      refine ⟨fun tab member => ?_, fun pane member => ?_, fun agent member => ?_⟩
      · have checked := forM_ok.mp tabs tab member
        unfold Snapshot.checkTab at checked
        split at checked
        · rename_i known
          simpa using known
        · cases checked
      · have checked := forM_ok.mp panes pane member
        unfold Snapshot.checkPane at checked
        split at checked
        · cases checked
        · rename_i tab found
          split at checked
          · rename_i agrees
            have inside := List.mem_reverse.mp (List.mem_of_find?_eq_some found)
            exact ⟨tab, inside, by simpa using List.find?_some found, agrees⟩
          · cases checked
      · have checked := forM_ok.mp agents agent member
        unfold Snapshot.checkAgent at checked
        split at checked
        · assumption
        · cases checked

/-- No two rows claim one pane. -/
def Unclaimed (rows : List BusRow) : Prop :=
  rows.Pairwise fun a b => a.paneID ≠ "" → a.paneID ≠ b.paneID

theorem checkClaims_ok {claimed rows : List BusRow} (valid : checkClaims claimed rows = .ok ()) :
    Unclaimed rows ∧ ∀ row ∈ rows, row.paneID ≠ "" → ∀ other ∈ claimed,
      other.paneID ≠ row.paneID := by
  induction rows generalizing claimed with
  | nil => exact ⟨.nil, fun row member => by cases member⟩
  | cons row rows inductionHypothesis =>
    rw [checkClaims] at valid
    split at valid
    · rename_i none
      obtain ⟨pairwise, fresh⟩ := inductionHypothesis valid
      refine ⟨List.pairwise_cons.mpr ⟨fun _ _ claimed => absurd none claimed, pairwise⟩, ?_⟩
      exact List.forall_mem_cons.mpr ⟨fun claimed => absurd none claimed, fresh⟩
    · split at valid
      · cases valid
      · rename_i unclaimed
        obtain ⟨pairwise, fresh⟩ := inductionHypothesis valid
        refine ⟨List.pairwise_cons.mpr ⟨fun other member claims same => ?_, pairwise⟩, ?_⟩
        · exact fresh other member (same ▸ claims) row List.mem_cons_self same
        · refine List.forall_mem_cons.mpr
            ⟨fun _ other member => ?_, fun later member claims other known => ?_⟩
          · simpa using List.find?_eq_none.mp unclaimed other member
          · exact fresh later member claims other (List.mem_cons_of_mem _ known)

/-! ## Every roster row is joined once -/

section

variable {snapshot : Snapshot} {roster : List BusRow} {paneID : String} {place : Placement}
  {entry other : Entry}

theorem placement_pane (placed : placement snapshot roster paneID = some place) :
    place.pane = paneID := by
  unfold placement at placed
  split at placed
  · rename_i pane found
    cases placed
    have same := List.find?_some found
    exact (of_decide_eq_true same).1
  · split at placed
    · cases placed
      rfl
    · split at placed
      · cases placed
        rfl
      · cases placed

theorem agentAt_claims {agent : Agent} (found : snapshot.agentAt paneID = some agent) :
    agent ∈ snapshot.agents ∧ agent.paneID ≠ "" ∧ agent.paneID = paneID := by
  have claim := List.find?_some found
  exact ⟨List.mem_reverse.mp (List.mem_of_find?_eq_some found), of_decide_eq_true claim⟩

theorem placement_live (accepted : Accepted snapshot)
    (placed : placement snapshot roster paneID = some place) :
    snapshot.live paneID = true := by
  unfold placement at placed
  split at placed
  · rename_i pane found
    have same := List.find?_some found
    exact List.any_eq_true.mpr ⟨pane, List.mem_reverse.mp (List.mem_of_find?_eq_some found),
      decide_eq_true (of_decide_eq_true same).1⟩
  · split at placed
    · rename_i agent found
      obtain ⟨member, named, rfl⟩ := agentAt_claims found
      exact (accepted.agent agent member).resolve_left named
    · split at placed
      · rename_i claim
        exact claim.1
      · cases placed

theorem mem_placedPanes :
    paneID ∈ placedPanes snapshot roster ↔
      (paneID ∈ snapshot.panes.map (·.paneID) ∨ paneID ∈ snapshot.agents.map (·.paneID)) ∧
        ∃ place, placement snapshot roster paneID = some place := by
  simp only [placedPanes, List.mem_insertionSort, List.mem_filter, List.mem_dedup, List.mem_append,
    Option.isSome_iff_exists]

theorem placedPanes_nodup : (placedPanes snapshot roster).Nodup :=
  (List.perm_insertionSort _ _).nodup_iff.mpr ((List.nodup_dedup _).filter _)

/-- An index of the roster has one row. -/
theorem entry_unique (member : entry ∈ roster.zipIdx) (member' : other ∈ roster.zipIdx)
    (same : entry.2 = other.2) : entry = other := by
  have found := List.mem_zipIdx_iff_getElem?.mp member
  have found' := List.mem_zipIdx_iff_getElem?.mp member'
  rw [same] at found
  exact Prod.ext (Option.some.inj (found.symm.trans found')) same

theorem zipIdx_nodup : roster.zipIdx.Nodup := by
  have indices : (roster.zipIdx.map Prod.snd).Nodup := by
    rw [List.zipIdx_map_snd]
    exact List.nodup_range'
  exact indices.of_map

theorem mem_claims : entry ∈ claims roster paneID ↔
    entry ∈ roster.zipIdx ∧ entry.1.paneID ≠ "" ∧ entry.1.paneID = paneID := by
  simp only [claims, List.mem_filter, decide_eq_true_eq]

theorem claims_short (unclaimed : Unclaimed roster) : (claims roster paneID).length ≤ 1 := by
  have pairwise : roster.zipIdx.Pairwise fun a b => a.1.paneID ≠ "" → a.1.paneID ≠ b.1.paneID := by
    have mapped : (roster.zipIdx.map Prod.fst).Pairwise fun a b => a.paneID ≠ "" →
        a.paneID ≠ b.paneID := by
      rw [List.zipIdx_map_fst]
      exact unclaimed
    exact List.pairwise_map.mp mapped
  have distinct : (claims roster paneID).Pairwise fun a b => a.1.paneID ≠ "" →
      a.1.paneID ≠ b.1.paneID :=
    pairwise.filter _
  match found : claims roster paneID with
  | [] => exact Nat.zero_le 1
  | [_] => exact Nat.le_refl 1
  | one :: two :: rest =>
    have claim := (mem_claims.mp (found ▸ List.mem_cons_self : one ∈ claims roster paneID)).2
    have claim' := (mem_claims.mp (found ▸ List.mem_cons_of_mem _ List.mem_cons_self :
      two ∈ claims roster paneID)).2
    rw [found] at distinct
    exact absurd (claim.2.trans claim'.2.symm)
      (List.rel_of_pairwise_cons distinct List.mem_cons_self claim.1)

theorem short_cases {α : Type} {list : List α} (short : list.length ≤ 1) :
    list = [] ∨ ∃ item, list = [item] := by
  rcases Nat.le_one_iff_eq_zero_or_eq_one.mp short with zero | one
  · exact Or.inl (List.length_eq_zero_iff.mp zero)
  · exact Or.inr (List.length_eq_one_iff.mp one)

/-- A pane and a row that only their tool and session bring together. -/
structure Sessioned (snapshot : Snapshot) (roster : List BusRow) (paneID : String) (entry : Entry) :
    Prop where
  alone : panesBySession snapshot roster entry.1.tool entry.1.sessionID = [paneID]
  only : rowsBySession snapshot roster entry.1.tool entry.1.sessionID = [entry]
  unclaimed : claims roster paneID = []

theorem sessioned (placed : paneID ∈ placedPanes snapshot roster)
    (found : bySessionPane snapshot roster paneID = some entry) :
    Sessioned snapshot roster paneID entry := by
  unfold bySessionPane at found
  split at found
  · cases found
  · rename_i place seen
    split at found
    · cases found
    · split at found
      · rename_i pane entry panes rows unclaimed
        cases found
        have inside : entry ∈ rowsBySession snapshot roster place.tool place.session := by
          simp [rows]
        obtain ⟨_, _, tool, session⟩ := by simpa [rowsBySession] using inside
        rw [← tool, ← session] at panes rows
        refine ⟨?_, rows, unclaimed⟩
        have own : paneID ∈ panesBySession snapshot roster entry.1.tool entry.1.sessionID :=
          List.mem_filter.mpr ⟨placed, by simp [seen, tool, session]⟩
        rw [panes, List.mem_singleton] at own
        rw [panes, own]
      · cases found

theorem matchesAt_short (unclaimed : Unclaimed roster) :
    (matchesAt snapshot roster paneID).length ≤ 1 := by
  unfold matchesAt
  split
  · cases bySessionPane snapshot roster paneID <;> simp
  · exact claims_short unclaimed

theorem mem_matchesAt (placed : paneID ∈ placedPanes snapshot roster)
    (member : entry ∈ matchesAt snapshot roster paneID) :
    entry ∈ claims roster paneID ∨ Sessioned snapshot roster paneID entry := by
  unfold matchesAt at member
  split at member
  · exact Or.inr (sessioned placed (Option.mem_toList.mp member))
  · exact Or.inl member

theorem matchesAt_mem_zipIdx (placed : paneID ∈ placedPanes snapshot roster)
    (member : entry ∈ matchesAt snapshot roster paneID) : entry ∈ roster.zipIdx := by
  rcases mem_matchesAt placed member with claimed | sessioned
  · exact (mem_claims.mp claimed).1
  · have inside : entry ∈ rowsBySession snapshot roster entry.1.tool entry.1.sessionID := by
      rw [sessioned.only]
      exact List.mem_singleton_self entry
    exact (List.mem_filter.mp inside).1

/-- A row meets one pane. -/
theorem matchesAt_disjoint (accepted : Accepted snapshot) {paneID' : String}
    (placed : paneID ∈ placedPanes snapshot roster)
    (placed' : paneID' ∈ placedPanes snapshot roster)
    (member : entry ∈ matchesAt snapshot roster paneID)
    (member' : entry ∈ matchesAt snapshot roster paneID') :
    paneID = paneID' := by
  have asleep : ∀ {paneID}, Sessioned snapshot roster paneID entry →
      snapshot.live entry.1.paneID = false := by
    intro paneID sessioned
    have inside : entry ∈ rowsBySession snapshot roster entry.1.tool entry.1.sessionID := by
      rw [sessioned.only]
      exact List.mem_singleton_self entry
    simpa using (of_decide_eq_true (List.mem_filter.mp inside).2).1
  have awake : ∀ {paneID}, paneID ∈ placedPanes snapshot roster → entry ∈ claims roster paneID →
      snapshot.live entry.1.paneID = true := by
    intro paneID placed claimed
    obtain ⟨_, place, seen⟩ := mem_placedPanes.mp placed
    rw [(mem_claims.mp claimed).2.2]
    exact placement_live accepted seen
  rcases mem_matchesAt placed member with claimed | sessioned <;>
    rcases mem_matchesAt placed' member' with claimed' | sessioned'
  · exact (mem_claims.mp claimed).2.2.symm.trans (mem_claims.mp claimed').2.2
  · cases (awake placed claimed).symm.trans (asleep sessioned')
  · cases (awake placed' claimed').symm.trans (asleep sessioned)
  · have same := sessioned.alone.symm.trans sessioned'.alone
    exact List.singleton_inj.mp same

/-- The matches of all panes are the rows that count as matched. -/
theorem matches_perm (accepted : Accepted snapshot) (unclaimed : Unclaimed roster) :
    ((placedPanes snapshot roster).flatMap (matchesAt snapshot roster)).Perm
      (roster.zipIdx.filter fun entry => matched snapshot roster entry.2) := by
  have nodup : ((placedPanes snapshot roster).flatMap (matchesAt snapshot roster)).Nodup := by
    refine List.nodup_flatMap.mpr ⟨fun paneID _ => ?_, ?_⟩
    · rcases short_cases (@matchesAt_short snapshot roster paneID unclaimed) with none |
        ⟨entry, one⟩
      · rw [none]
        exact List.nodup_nil
      · rw [one]
        exact List.nodup_singleton entry
    · refine placedPanes_nodup.pairwise_of_forall_ne fun paneID placed paneID' placed' distinct =>
        ?_
      intro entry member member'
      exact distinct (matchesAt_disjoint accepted placed placed' member member')
  refine (List.perm_ext_iff_of_nodup nodup (zipIdx_nodup.filter _)).mpr fun entry => ?_
  simp only [List.mem_flatMap, List.mem_filter, matched, List.any_eq_true, decide_eq_true_eq]
  constructor
  · rintro ⟨paneID, placed, member⟩
    exact ⟨matchesAt_mem_zipIdx placed member, paneID, placed, entry, member, rfl⟩
  · rintro ⟨inside, paneID, placed, other, member, same⟩
    rw [← entry_unique (matchesAt_mem_zipIdx placed member) inside same]
    exact ⟨paneID, placed, member⟩

/-- A placed pane has one row, with its match if there is one. -/
theorem rowsAt_eq (unclaimed : Unclaimed roster) (placed : paneID ∈ placedPanes snapshot roster) :
    ∃ row, rowsAt snapshot roster paneID = [row] ∧ row.pane = paneID ∧ row.gap ≠ "no visible pane" ∧
      row.bus.toList = (matchesAt snapshot roster paneID).map Prod.fst := by
  obtain ⟨_, place, seen⟩ := mem_placedPanes.mp placed
  rcases short_cases (@matchesAt_short snapshot roster paneID unclaimed) with none | ⟨entry, one⟩
  · refine ⟨place.alone, ?_, placement_pane seen, ?_, ?_⟩
    · simp only [rowsAt, seen, none]
    · simp [Placement.alone]
    · simp [none, Placement.alone]
  · refine ⟨place.joined entry.1, ?_, placement_pane seen, ?_, ?_⟩
    · simp [rowsAt, seen, one]
    · unfold Placement.joined
      simp only
      split <;> decide
    · simp [one, Placement.joined]

/-- Every roster row has one row, and every placed pane. -/
structure JoinedOnce (snapshot : Snapshot) (roster : List BusRow) (rows : List Row) : Prop where
  buses : (rows.filterMap (·.bus)).Perm roster
  panes :
    ((rows.filter (·.gap ≠ "no visible pane")).map (·.pane)).Perm (placedPanes snapshot roster)

/-- The rows before they are sorted. -/
def joined (snapshot : Snapshot) (roster : List BusRow) : List Row :=
  (placedPanes snapshot roster).flatMap (rowsAt snapshot roster) ++
    (roster.zipIdx.filter fun entry => !matched snapshot roster entry.2).map fun entry =>
      entry.1.unplaced

theorem joinRows_perm (snapshot : Snapshot) (roster : List BusRow) :
    (joinRows snapshot roster).Perm (joined snapshot roster) :=
  List.perm_insertionSort _ _

theorem placed_buses (unclaimed : Unclaimed roster) :
    ((placedPanes snapshot roster).flatMap (rowsAt snapshot roster)).filterMap (·.bus) =
      ((placedPanes snapshot roster).flatMap (matchesAt snapshot roster)).map Prod.fst := by
  rw [List.filterMap_flatMap, List.map_flatMap]
  refine List.flatMap_congr fun paneID placed => ?_
  obtain ⟨row, same, _, _, bus⟩ := rowsAt_eq unclaimed placed
  rw [same, ← bus]
  cases found : row.bus <;> simp [found]

theorem placed_panes (unclaimed : Unclaimed roster) :
    (((placedPanes snapshot roster).flatMap (rowsAt snapshot roster)).filter
      (·.gap ≠ "no visible pane")).map (·.pane) = placedPanes snapshot roster := by
  rw [List.filter_flatMap, List.map_flatMap]
  have single : ∀ paneID ∈ placedPanes snapshot roster,
      ((rowsAt snapshot roster paneID).filter (·.gap ≠ "no visible pane")).map (·.pane) =
          [paneID] := by
    intro paneID placed
    obtain ⟨row, same, pane, gap, _⟩ := rowsAt_eq unclaimed placed
    simp [same, gap, pane]
  rw [List.flatMap_congr single, List.flatMap_singleton']

theorem joinRows_once (accepted : Accepted snapshot) (unclaimed : Unclaimed roster) :
    JoinedOnce snapshot roster (joinRows snapshot roster) := by
  have perm := joinRows_perm snapshot roster
  constructor
  · have unmatched :
        ((roster.zipIdx.filter fun entry => !matched snapshot roster entry.2).map fun entry =>
        entry.1.unplaced).filterMap (·.bus) =
          (roster.zipIdx.filter fun entry => !matched snapshot roster entry.2).map Prod.fst := by
      simp [List.filterMap_map, BusRow.unplaced]
    refine (perm.filterMap _).trans ?_
    rw [joined, List.filterMap_append, placed_buses unclaimed, unmatched, ← List.map_append]
    have all := ((matches_perm accepted unclaimed).append_right
      (roster.zipIdx.filter fun entry => !matched snapshot roster entry.2)).trans
        (List.filter_append_perm (fun entry => matched snapshot roster entry.2) roster.zipIdx)
    have := all.map Prod.fst
    rwa [List.zipIdx_map_fst] at this
  · refine ((perm.filter _).map _).trans ?_
    rw [joined, List.filter_append, List.map_append, placed_panes unclaimed]
    simp [List.filter_map, Function.comp_def, BusRow.unplaced]

end

end AiConfig.Herder.Fleet
