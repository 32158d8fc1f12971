import AiConfig.Herder.State.Rows
import Mathlib.Data.Finset.Card
import Mathlib.Data.Multiset.Basic

/-! # Upserts as a join

Without sweeps and failed saves the stored row of a key is the latest of the rows upserted
so far, whatever the batches were.  A refused `Upsert` leaves the namespace as it was,
save where the file was already replaced or the namespace did not exist. -/

namespace AiConfig.Herder

open AiConfig.Lib

section

variable {V : Type}

def NamespaceState.row (state : NamespaceState V) (key : String) : Option (Row V) :=
  state.visible.bind fun data => data.row key

/-- A namespace without a file that nothing has loaded. -/
def NamespaceState.absent : NamespaceState V := ⟨none, none⟩

theorem NamespaceState.row_eq (state : NamespaceState V) (key : String) :
    state.row key = state.data.row key := by
  rw [NamespaceState.row, NamespaceState.data]
  cases state.visible with
  | none => rfl
  | some data => rfl

/-- Batches one after another, every save succeeding. -/
def upserts (values : Values V) (limits : Limits) (state : NamespaceState V)
    (batches : List (List (Row V))) :
    NamespaceState V :=
  batches.foldl (fun state batch => (upsert values limits state batch .none).2) state

/-- The greatest row of a key. -/
def Latest (rows : Multiset (Row V)) (key : String) (row : Row V) : Prop :=
  row ∈ rows ∧ row.key = key ∧ ∀ other ∈ rows, other.key = key → other.version ≤ row.version

/-- One version of a key is one row. -/
def OneRowPerVersion (rows : Multiset (Row V)) : Prop :=
  ∀ row ∈ rows, ∀ other ∈ rows, row.key = other.key → row.version = other.version → row = other

/-! ## The invariant -/

/-- The data holds the latest of the rows offered. -/
structure Joins (data : NamespaceData V) (offered : Row V → Prop) : Prop where
  horizon : data.horizon = 0
  source : ∀ key row, data.row key = some row → offered row ∧ row.key = key
  covers : ∀ row, offered row → Covered data.row Row.version row.key row.version

theorem live_of_no_horizon {data : NamespaceData V} (horizon : data.horizon = 0)
    (rows : List (Row V)) :
    data.live rows = candidates rows := by
  apply List.filter_eq_self.mpr
  intro row _
  simp [NamespaceData.stale, horizon]

theorem Joins.landing {data : NamespaceData V} {offered : Row V → Prop} (joins : Joins data offered)
    (rows : List (Row V)) : Joins (data.landing rows) fun row => offered row ∨ row ∈ rows := by
  have held :
      (data.landing rows).row = absorbAll Row.key Row.version data.row (candidates rows) := by
    rw [NamespaceData.landing, NamespaceData.row_accept, live_of_no_horizon joins.horizon]
  constructor
  case horizon => simp [NamespaceData.landing, joins.horizon]
  case source =>
    intro key row found
    rw [held] at found
    cases absorbAll_source found with
    | inl before => exact ⟨Or.inl (joins.source key row before).1, (joins.source key row before).2⟩
    | inr new => exact ⟨Or.inr (mem_of_mem_candidates new.1), new.2⟩
  case covers =>
    intro row given
    rw [held]
    cases given with
    | inl before => exact (joins.covers row before).absorbAll _
    | inr new =>
      obtain ⟨candidate, chosen, own, above⟩ := candidates_cover new
      have covered :
        Covered (absorbAll Row.key Row.version data.row (candidates rows)) Row.version candidate.key
          candidate.version := absorbAll_covers candidate chosen
      obtain ⟨stored, found, below⟩ := covered
      rw [own] at found
      exact ⟨stored, found, le_trans above below⟩

/-- The keys a namespace would hold are keys of the offered rows. -/
theorem Joins.rowCount_le {data : NamespaceData V} {offered : Row V → Prop}
    (joins : Joins data offered)
    {rows : List (Row V)} {all : Multiset (Row V)} (before : ∀ row, offered row → row ∈ all)
    (batch : ∀ row ∈ rows, row ∈ all) : data.rowCount rows ≤ (all.map Row.key).toFinset.card := by
  let fresh := (data.live rows).filter fun row => (data.rows.lookup row.key).isNone
  have stored_keys : ∀ key ∈ data.rows.keys, key ∈ (all.map Row.key).toFinset := by
    intro key member
    rw [← AList.mem_keys, ← AList.lookup_isSome, Option.isSome_iff_exists] at member
    obtain ⟨stored, found⟩ := member
    obtain ⟨known, own⟩ := joins.source key stored.toRow (by simp [NamespaceData.row, found])
    rw [Multiset.mem_toFinset, ← own]
    exact Multiset.mem_map_of_mem _ (before _ known)
  have fresh_keys : ∀ key ∈ fresh.map Row.key, key ∈ (all.map Row.key).toFinset := by
    intro key member
    obtain ⟨row, chosen, own⟩ := List.mem_map.mp member
    have candidate : row ∈ candidates rows := (List.mem_filter.mp (List.mem_filter.mp chosen).1).1
    rw [Multiset.mem_toFinset, ← own]
    exact Multiset.mem_map_of_mem _ (batch row (mem_of_mem_candidates candidate))
  have fresh_nodup : (fresh.map Row.key).Nodup :=
    (candidates_keys_nodup rows).sublist ((List.filter_sublist.trans List.filter_sublist).map _)
  have apart : ∀ key ∈ data.rows.keys, ∀ other ∈ fresh.map Row.key, key ≠ other := by
    intro key member other chosen same
    obtain ⟨row, picked, own⟩ := List.mem_map.mp chosen
    have absent := (List.mem_filter.mp picked).2
    rw [← AList.mem_keys, ← AList.lookup_isSome, same, ← own] at member
    rw [Option.isNone_iff_eq_none] at absent
    rw [absent] at member
    cases member
  have nodup : (data.rows.keys ++ fresh.map Row.key).Nodup :=
    List.nodup_append.mpr ⟨data.rows.keys_nodup, fresh_nodup, apart⟩
  calc data.rowCount rows = (data.rows.keys ++ fresh.map Row.key).length := by
        simp [NamespaceData.rowCount, fresh, AList.keys, List.keys]
    _ = (data.rows.keys ++ fresh.map Row.key).toFinset.card :=
      (List.toFinset_card_of_nodup nodup).symm
    _ ≤ (all.map Row.key).toFinset.card := Finset.card_le_card (by
        intro key member
        rw [List.mem_toFinset, List.mem_append] at member
        cases member with
        | inl stored => exact stored_keys key stored
        | inr new => exact fresh_keys key new)

theorem no_row_error {values : Values V} {limits : Limits} {rows : List (Row V)}
    (valid : ∀ row ∈ rows, rowError values limits row = none) :
    rows.findSome? (rowError values limits) = none := by
  rw [List.findSome?_eq_none_iff]
  exact valid

/-- Memory joins the offered rows and a restart finds the same data. -/
structure Joined (state : NamespaceState V) (offered : Row V → Prop) : Prop where
  joins : Joins state.data offered
  durable : (restart state).data = state.data

theorem Joined.upsert {values : Values V} {limits : Limits} {state : NamespaceState V}
    {offered : Row V → Prop}
    (joined : Joined state offered) {rows : List (Row V)} {all : Multiset (Row V)}
    (before : ∀ row, offered row → row ∈ all) (batch : ∀ row ∈ rows, row ∈ all)
    (valid : ∀ row ∈ all, rowError values limits row = none)
    (fits : (all.map Row.key).toFinset.card ≤ limits.maxRows) :
    Joined (upsert values limits state rows .none).2 fun row => offered row ∨ row ∈ rows := by
  have sound : rows.findSome? (rowError values limits) = none :=
    no_row_error fun row member => valid row (batch row member)
  have room := le_trans (joined.joins.rowCount_le before batch) fits
  have landed := joined.joins.landing rows
  have step := upserted values limits state rows .none
  generalize Herder.upsert values limits state rows .none = answer at step ⊢
  cases step with
  | unread unreadable => cases unreadable.2
  | badRow _ problem found =>
    rw [sound] at found
    cases found
  | tooMany _ _ beyond => exact absurd room (not_le.mpr beyond)
  | idle _ _ _ nothing _ =>
    rw [nothing] at landed
    exact ⟨landed, joined.durable⟩
  | unsaved _ _ _ _ step fault => cases fault
  | saved => exact ⟨landed, rfl⟩

theorem Joined.upserts {values : Values V} {limits : Limits} {state : NamespaceState V}
    {offered : Row V → Prop}
    (joined : Joined state offered) {all : Multiset (Row V)} (before : ∀ row, offered row →
    row ∈ all)
    (valid : ∀ row ∈ all, rowError values limits row = none)
    (fits : (all.map Row.key).toFinset.card ≤ limits.maxRows) (batches : List (List (Row V)))
    (given : ∀ batch ∈ batches, ∀ row ∈ batch, row ∈ all) :
    Joined (upserts values limits state batches) fun row => offered row ∨ ∃ batch ∈ batches,
      row ∈ batch := by
  induction batches generalizing state offered with
  | nil => simpa [Herder.upserts] using joined
  | cons batch rest inductionHypothesis =>
    have first : ∀ row ∈ batch, row ∈ all := given batch List.mem_cons_self
    have stepped := joined.upsert before first valid fits
    have bounded : ∀ row, (offered row ∨ row ∈ batch) → row ∈ all := fun row member =>
      member.elim (before row) (first row)
    have landed := inductionHypothesis stepped bounded fun other member =>
      given other (List.mem_cons_of_mem _ member)
    simpa [Herder.upserts, or_assoc] using landed

theorem joined_absent : Joined (NamespaceState.absent : NamespaceState V) fun _ => False where
  joins := by
    constructor
    case horizon => rfl
    case source => intro _ _ found; cases found
    case covers => exact fun _ never => never.elim
  durable := rfl

/-- With one row a version, what joins all the rows holds exactly the latest of each key. -/
theorem Joins.row_iff {data : NamespaceData V} {rows : Multiset (Row V)}
    (joins : Joins data (· ∈ rows))
    (unique : OneRowPerVersion rows) (key : String) (row : Row V) :
    data.row key = some row ↔ Latest rows key row := by
  constructor
  · intro found
    obtain ⟨known, own⟩ := joins.source key row found
    refine ⟨known, own, fun other member same => ?_⟩
    obtain ⟨held, stored, above⟩ := joins.covers other member
    rw [same, found, Option.some.injEq] at stored
    rw [stored]
    exact above
  · intro latest
    obtain ⟨held, stored, above⟩ := joins.covers row latest.1
    rw [latest.2.1] at stored
    obtain ⟨known, own⟩ := joins.source key held stored
    have below := latest.2.2 held known own
    have same : row = held :=
      unique row latest.1 held known (latest.2.1.trans own.symm) (le_antisymm above below)
    rw [same]
    exact stored

/-! ## Refused calls -/

/-- What later calls see, and what a process started afterwards sees. -/
def Unchanged (before after : NamespaceState V) : Prop :=
  after.visible = before.visible ∧ (restart after).visible = (restart before).visible

/-- The call comes to save. -/
def NamespaceState.saves (values : Values V) (limits : Limits) (state : NamespaceState V)
    (rows : List (Row V))
    (faults : Faults) : Prop :=
  ¬ state.unreadable faults ∧ (∀ row ∈ rows, rowError values limits row = none) ∧
    state.data.rowCount rows ≤ limits.maxRows ∧ (state.data.accept (state.data.live rows)).2 ≠ []

/-- A refusal that changes nothing: the namespace exists or is not read at all, and no save
fails once the file is replaced by other data. -/
def CleanRefusal (values : Values V) (limits : Limits) (state : NamespaceState V)
    (rows : List (Row V))
    (faults : Faults) : Prop :=
  (state.visible.isSome ∨ state.unreadable faults) ∧
    ∀ step, faults.save = some step → step.replaced = true → state.saves values limits rows faults →
      state.file = some (state.data.landing rows)

theorem visible_data {state : NamespaceState V} : state.visible = some state.data ↔
    state.visible.isSome := by
  cases found : state.visible with
  | none => simp
  | some data => simp [NamespaceState.data, found]

theorem unchanged_loaded (state : NamespaceState V) (file : Option (NamespaceData V)) :
    Unchanged state ⟨some state.data, file⟩ ↔ state.visible.isSome ∧ file = state.file := by
  simp only [Unchanged, NamespaceState.visible, restart, Option.some_or, Option.none_or]
  rw [eq_comm, ← NamespaceState.visible, visible_data]

theorem refused_unchanged_iff (values : Values V) (limits : Limits) (state : NamespaceState V)
    (rows : List (Row V)) (faults : Faults) (problem : StoreError)
    (refused : (upsert values limits state rows faults).1 = .error problem) :
    Unchanged state (upsert values limits state rows faults).2 ↔
      CleanRefusal values limits state rows faults := by
  have step := upserted values limits state rows faults
  generalize upsert values limits state rows faults = answer at step refused ⊢
  cases step with
  | unread unreadable =>
    exact iff_of_true ⟨rfl, rfl⟩ ⟨Or.inr unreadable, fun _ _ _ saves => absurd unreadable saves.1⟩
  | badRow read problem found =>
    rw [unchanged_loaded, CleanRefusal, or_iff_left read]
    refine and_congr_right fun _ => iff_of_true rfl fun _ _ _ saves => ?_
    rw [no_row_error saves.2.1] at found
    cases found
  | tooMany read _ beyond =>
    rw [unchanged_loaded, CleanRefusal, or_iff_left read]
    exact and_congr_right fun _ => iff_of_true rfl fun _ _ _ saves =>
      absurd saves.2.2.1 (not_le.mpr beyond)
  | idle => cases refused
  | unsaved read valid fits accepted step fault =>
    rw [unchanged_loaded, CleanRefusal, or_iff_left read]
    refine and_congr_right fun _ => ?_
    have saves : state.saves values limits rows faults :=
      ⟨read, by rw [List.findSome?_eq_none_iff] at valid; exact valid, fits, accepted⟩
    cases replaced : step.replaced with
    | false =>
      refine iff_of_true rfl fun other same after _ => ?_
      rw [fault, Option.some.injEq] at same
      rw [← same, replaced] at after
      cases after
    | true =>
      rw [if_pos rfl]
      constructor
      · exact fun same _ _ _ _ => same.symm
      · exact fun clean => (clean step fault replaced saves).symm
  | saved => cases refused

/-! ## Batches and refusals -/

/-- The stored row of a key is the latest of the rows upserted, before and after a restart;
and a refusal is clean exactly where it leaves the namespace as it was. -/
theorem upsert_joins_and_refuses (values : Values V) (limits : Limits) :
    (∀ (rows : Multiset (Row V)) (batches : List (List (Row V))), OneRowPerVersion rows →
      (∀ row ∈ rows, rowError values limits row = none) →
      (rows.map Row.key).toFinset.card ≤ limits.maxRows →
      (∀ row, (∃ batch ∈ batches, row ∈ batch) ↔ row ∈ rows) →
      ∀ key row,
        ((upserts values limits .absent batches).row key = some row ↔ Latest rows key row) ∧
        ((restart (upserts values limits .absent batches)).row key = some row ↔
        Latest rows key row)) ∧
    ∀ (state : NamespaceState V) (rows : List (Row V)) (faults : Faults) (problem : StoreError),
      (upsert values limits state rows faults).1 = .error problem →
      (Unchanged state (upsert values limits state rows faults).2 ↔
        CleanRefusal values limits state rows faults) := by
  constructor
  · intro rows batches unique valid fits split key row
    have joined := joined_absent.upserts (fun _ none => none.elim) valid fits batches
      fun batch member row inside => (split row).mp ⟨batch, member, inside⟩
    have all : (fun row => False ∨ ∃ batch ∈ batches, row ∈ batch) = (· ∈ rows) := by
      funext row
      rw [false_or]
      exact propext (split row)
    rw [all] at joined
    rw [NamespaceState.row_eq, NamespaceState.row_eq, joined.durable]
    exact ⟨joined.joins.row_iff unique key row, joined.joins.row_iff unique key row⟩
  · exact fun state rows faults problem =>
      refused_unchanged_iff values limits state rows faults problem

end

/-! ## An upsert whose directory sync fails -/

def sampleValues : Values Unit := ⟨fun _ => 4, fun _ => true⟩

def sampleLimits : Limits := ⟨65536, 10000⟩

def sampleRow (key : String) (updated : Int) : Row Unit := ⟨key, (), updated, "w", false⟩

def sampleStore : NamespaceState Unit :=
  upserts sampleValues sampleLimits .absent [[sampleRow "a" 1]]

/-- The row of the refused call is in the file. -/
theorem refused_row_in_file :
    ¬ ∀ (state : NamespaceState Unit) (rows : List (Row Unit)) (faults : Faults)
      (problem : StoreError),
      (upsert sampleValues sampleLimits state rows faults).1 = .error problem →
      Unchanged state (upsert sampleValues sampleLimits state rows faults).2 := by
  intro clean
  have refused :
    (upsert sampleValues sampleLimits sampleStore [sampleRow "b" 2] ⟨false, some .syncDir⟩).1 =
      .error .unavailable := by decide
  have same := (clean sampleStore [sampleRow "b" 2] ⟨false, some .syncDir⟩ .unavailable refused).2
  have held := congrArg (Option.map NamespaceData.revision) same
  revert held
  decide

theorem upsert_joins_and_refuses_sample :
    (upserts sampleValues sampleLimits .absent
    [[sampleRow "a" 1], [sampleRow "a" 2], [sampleRow "a" 1]]).row "a" =
        some (sampleRow "a" 2) ∧
      Unchanged sampleStore
        (upsert sampleValues sampleLimits sampleStore [sampleRow "b" 2]
        ⟨false, some .rename⟩).2 := by
  obtain ⟨joins, refuses⟩ := upsert_joins_and_refuses sampleValues sampleLimits
  constructor
  · refine (joins {sampleRow "a" 1, sampleRow "a" 2} _ ?_ ?_ ?_ ?_ "a" (sampleRow "a" 2)).1.mpr ?_
    · unfold OneRowPerVersion
      decide
    · decide
    · decide
    · intro row
      simp
      tauto
    · unfold Latest
      decide
  · refine (refuses _ _ _ .unavailable (by decide)).mpr ⟨Or.inl (by decide), ?_⟩
    intro step same replaced
    cases same
    cases replaced

end AiConfig.Herder
