import AiConfig.Herder.Members.Model

/-! # Members that were added stay listed

What a browser that added a member knows of it, kept by every step that meets
`MembersWorld.Careful`: the member is in its dock, and where the baseline has it too, the
row lists it or is still to be applied. -/

namespace AiConfig.Herder

open AiConfig.Lib

section

variable {encode : String → String}

/-! ## Lists of members -/

theorem memberIDs_append (left right : List SpaceMember) :
    memberIDs encode (left ++ right) = memberIDs encode left ++ memberIDs encode right :=
  List.map_append

theorem sameMembers_iff {left right : List SpaceMember} :
    sameMembers encode left right = true ↔ memberIDs encode left = memberIDs encode right := by
  simp [sameMembers]

/-- With what was missing the dock has every member of the row. -/
theorem mem_missing {row : SpaceMembersRow} (dock : List SpaceMember) {id : String}
    (listed : id ∈ memberIDs encode row.value) :
    id ∈ memberIDs encode (dock ++ missingMembers encode row dock) := by
  obtain ⟨member, inside, rfl⟩ := List.mem_map.mp listed
  rw [memberIDs_append, List.mem_append]
  by_cases present : memberID encode member ∈ memberIDs encode dock
  · exact Or.inl present
  · exact Or.inr (List.mem_map_of_mem (List.mem_filter.mpr ⟨inside, by simpa using present⟩))

theorem mem_unique (members : List SpaceMember) (id : String) :
    id ∈ memberIDs encode (uniqueMembers encode members) ↔ id ∈ memberIDs encode members := by
  have general : ∀ unique : List SpaceMember,
      id ∈ memberIDs encode (members.foldl (fun unique member =>
        if memberID encode member ∈ memberIDs encode unique then unique else unique ++
          [member]) unique) ↔
      id ∈ memberIDs encode unique ∨ id ∈ memberIDs encode members := by
    induction members with
    | nil => simp [memberIDs]
    | cons member rest inductionHypothesis =>
      intro unique
      rw [List.foldl_cons, inductionHypothesis]
      split
      · rename_i present
        simp only [memberIDs, List.map_cons, List.mem_cons] at present ⊢
        constructor
        · tauto
        · rintro (old | rfl | later)
          · exact Or.inl old
          · exact Or.inl present
          · exact Or.inr later
      · simp [memberIDs, or_assoc]
  simpa [uniqueMembers, memberIDs] using general []

/-! ## What a reconcile does -/

inductive Reconciled (encode : String → String) (browser : Browser) (key : String) (now : Int)
    (writeID : String) :
    Browser × Option SpaceMembersRow → Prop where
  | settled {baseline : List SpaceMember} (old : browser.unapplied = false)
      (kept : browser.kept.baseline = some baseline) :
      Reconciled encode browser key now writeID (browser, none)
  | first {row : SpaceMembersRow} {current : List SpaceMember} (held : browser.row = some row)
      (grown : ∀ id ∈ memberIDs encode browser.dock, id ∈ memberIDs encode current)
      (same : memberIDs encode row.value = memberIDs encode current) :
      Reconciled encode browser key now writeID
        (⟨current, ⟨some current, some row.writeID⟩, some row⟩, none)
  | joined {row : SpaceMembersRow} {baseline : List SpaceMember} (held : browser.row = some row)
      (new : browser.unapplied = true) (kept : browser.kept.baseline = some baseline)
      (same : sameMembers encode baseline browser.dock = true) :
      Reconciled encode browser key now writeID
        (⟨browser.dock ++ missingMembers encode row browser.dock,
          ⟨some (browser.dock ++ missingMembers encode row browser.dock), some row.writeID⟩,
            some row⟩, none)
  | restored {row : SpaceMembersRow} {baseline : List SpaceMember} (held : browser.row = some row)
      (new : browser.unapplied = true) (kept : browser.kept.baseline = some baseline)
      (same : sameMembers encode baseline (browser.dock ++ missingMembers encode row browser.dock) =
        true) :
      Reconciled encode browser key now writeID
        (⟨browser.dock ++ missingMembers encode row browser.dock, ⟨some baseline, some row.writeID⟩,
          some row⟩, none)
  | deleted {row : SpaceMembersRow} {baseline : List SpaceMember} (held : browser.row = some row)
      (new : browser.unapplied = true) (gone : row.deleted = true)
        (kept : browser.kept.baseline = some baseline)
      (same : sameMembers encode baseline browser.dock = true) :
      Reconciled encode browser key now writeID
        (⟨browser.dock, ⟨some baseline, some row.writeID⟩, some row⟩, none)
  | published {current : List SpaceMember}
      (grown : ∀ id ∈ memberIDs encode browser.dock, id ∈ memberIDs encode current) :
      Reconciled encode browser key now writeID
        (⟨current, ⟨some current, some writeID⟩,
          some (browser.publish encode key current now writeID)⟩,
          some (browser.publish encode key current now writeID))

/-- A dock that grew is published, or it is what the baseline or the row has. -/
theorem reconciled_of_apply {browser : Browser} {key : String} {now : Int} {writeID : String}
    {current : List SpaceMember} {kept : SpaceMembersLocal}
    (applied : browser.apply encode = (current, kept))
    (grown : ∀ id ∈ memberIDs encode browser.dock, id ∈ memberIDs encode current)
    (unchanged : changed encode browser.row kept.baseline current = false →
      Reconciled encode browser key now writeID
        (⟨current, { kept with baseline := some (kept.baseline.getD current) }, browser.row⟩,
        none)) :
    Reconciled encode browser key now writeID (browser.reconcile encode key now writeID) := by
  simp only [Browser.reconcile, applied]
  cases published : changed encode browser.row kept.baseline current with
  | true => exact .published grown
  | false => exact unchanged published

theorem same_browser {browser : Browser} {baseline : List SpaceMember}
    (kept : browser.kept.baseline = some baseline) :
    (⟨browser.dock,
    { browser.kept with baseline := some (browser.kept.baseline.getD browser.dock) }, browser.row⟩ :
      Browser) = browser := by
  obtain ⟨dock, ⟨_, applied⟩, row⟩ := browser
  cases kept
  rfl

theorem reconciled (encode : String → String) (browser : Browser) (key : String) (now : Int)
    (writeID : String) :
    Reconciled encode browser key now writeID (browser.reconcile encode key now writeID) := by
  have stays : ∀ id ∈ memberIDs encode browser.dock, id ∈ memberIDs encode browser.dock :=
    fun _ inside => inside
  cases held : browser.row with
  | none =>
    have applied : browser.apply encode = (browser.dock, browser.kept) := by
      simp [Browser.apply, held]
    refine reconciled_of_apply applied stays fun unchanged => ?_
    cases kept : browser.kept.baseline with
    | none => simp [changed, held, kept] at unchanged
    | some baseline =>
      rw [← kept, same_browser kept]
      exact .settled (by simp [Browser.unapplied, held]) kept
  | some row =>
    -- A row is applied once: its write id is kept.
    by_cases old : browser.kept.applied = some row.writeID
    · have applied : browser.apply encode = (browser.dock, browser.kept) := by
        simp [Browser.apply, held, old]
      refine reconciled_of_apply applied stays fun unchanged => ?_
      cases kept : browser.kept.baseline with
      | some baseline =>
        rw [← kept, same_browser kept]
        exact .settled (by simp [Browser.unapplied, held, old]) kept
      | none =>
        simp only [changed, held, kept, Option.all_some, Bool.or_eq_false_iff,
          Bool.not_eq_false'] at unchanged
        simp only [Option.getD_none, held, old]
        exact .first held stays (sameMembers_iff.mp unchanged.2)
    · have new : browser.unapplied = true := by simp [Browser.unapplied, held, old]
      cases gone : row.deleted with
      | true =>
        have applied : browser.apply encode =
            (browser.dock, { browser.kept with applied := some row.writeID }) := by
          simp [Browser.apply, held, old, gone]
        refine reconciled_of_apply applied stays fun unchanged => ?_
        cases kept : browser.kept.baseline with
        | none => simp [changed, held, kept, gone] at unchanged
        | some baseline =>
          simp only [changed, kept, Bool.not_eq_false'] at unchanged
          simp only [held, Option.getD_some]
          exact .deleted held new gone kept unchanged
      | false =>
        have grows : ∀ id ∈ memberIDs encode browser.dock,
            id ∈ memberIDs encode (browser.dock ++ missingMembers encode row browser.dock) := by
          intro id inside
          rw [memberIDs_append]
          exact List.mem_append_left _ inside
        cases kept : browser.kept.baseline with
        | none =>
          have applied : browser.apply encode =
              (browser.dock ++ missingMembers encode row browser.dock,
                  ⟨none, some row.writeID⟩) := by
            simp [Browser.apply, held, old, gone, kept]
          refine reconciled_of_apply applied grows fun unchanged => ?_
          simp only [changed, held, Option.all_some, Bool.or_eq_false_iff,
            Bool.not_eq_false'] at unchanged
          simp only [held, Option.getD_none]
          exact .first held grows (sameMembers_iff.mp unchanged.2)
        | some baseline =>
          by_cases same : sameMembers encode baseline browser.dock = true
          · -- The baseline moves to the grown dock, so nothing is published.
            have applied : browser.apply encode =
                (browser.dock ++ missingMembers encode row browser.dock,
                  ⟨some (browser.dock ++ missingMembers encode row browser.dock),
                      some row.writeID⟩) := by
              simp [Browser.apply, held, old, gone, kept, same]
            refine reconciled_of_apply applied grows fun _ => ?_
            simp only [held, Option.getD_some]
            exact .joined held new kept same
          · have applied : browser.apply encode =
                (browser.dock ++ missingMembers encode row browser.dock,
                    ⟨some baseline, some row.writeID⟩) := by
              simp [Browser.apply, held, old, gone, kept, same]
            refine reconciled_of_apply applied grows fun unchanged => ?_
            simp only [changed, Bool.not_eq_false'] at unchanged
            simp only [held, Option.getD_some]
            exact .restored held new kept unchanged

/-! ## What a browser knows of what it added -/

/-- A step that loses nothing: no member is opened again that the baseline still has and
the row lacks; and a row applied while the dock, as it is or with the row's members, is the
baseline lists what was added in the browser. -/
def MembersWorld.Careful {ι : Type} (encode : String → String) (world : MembersWorld ι) :
    MembersEvent ι → Prop
  | .edit i dock =>
    ∀ id ∈ memberIDs encode dock, id ∉ memberIDs encode (world.browsers i).dock →
      ∀ baseline, (world.browsers i).kept.baseline = some baseline →
        id ∈ memberIDs encode baseline →
        (world.browsers i).unapplied = true ∨
          ∃ row, (world.browsers i).row = some row ∧ id ∈ memberIDs encode row.value
  | .reconcile i =>
    ∀ row baseline, (world.browsers i).row = some row → (world.browsers i).unapplied = true →
      (world.browsers i).kept.baseline = some baseline →
      (sameMembers encode baseline (world.browsers i).dock = true ∨
        sameMembers encode baseline ((world.browsers i).dock ++
          missingMembers encode row (world.browsers i).dock) = true) →
      ∀ id ∈ world.added i, id ∈ memberIDs encode row.value
  | .post _ | .arrive _ _ => True

/-- An added member is in the dock, and what is published has it. -/
structure Browser.Carries (encode : String → String) (browser : Browser) (id : String) : Prop where
  dock : id ∈ memberIDs encode browser.dock
  row : ∀ baseline, browser.kept.baseline = some baseline → id ∈ memberIDs encode baseline →
    browser.unapplied = true ∨ ∃ row, browser.row = some row ∧ id ∈ memberIDs encode row.value

/-- An applied row's members are in the baseline. -/
def Browser.Holds (encode : String → String) (browser : Browser) : Prop :=
  ∀ row baseline, browser.row = some row → browser.unapplied = false →
    browser.kept.baseline = some baseline →
    ∀ id ∈ memberIDs encode row.value, id ∈ memberIDs encode baseline

/-- The row is known, and so is the one applied, which is no later. -/
structure Browser.Known (browser : Browser) (issued : List SpaceMembersRow) : Prop where
  row : ∀ row, browser.row = some row → row ∈ issued
  applied : ∀ writeID, browser.kept.applied = some writeID →
    ∃ old ∈ issued, old.writeID = writeID ∧ ∃ row, browser.row = some row ∧
      old.version ≤ row.version

theorem Browser.Known.mono {browser : Browser} {issued issued' : List SpaceMembersRow}
    (known : browser.Known issued)
    (grown : ∀ row ∈ issued, row ∈ issued') : browser.Known issued' where
  row row held := grown row (known.row row held)
  applied writeID applied := by
    obtain ⟨old, inside, own, later⟩ := known.applied writeID applied
    exact ⟨old, grown old inside, own, later⟩

/-! ## One browser -/

section

variable {browser : Browser} {id : String}

theorem Browser.Carries.reconcile (carries : browser.Carries encode id) (key : String) (now : Int)
    (writeID : String)
    (careful : ∀ row baseline, browser.row = some row → browser.unapplied = true →
      browser.kept.baseline = some baseline →
      (sameMembers encode baseline browser.dock = true ∨
        sameMembers encode baseline (browser.dock ++ missingMembers encode row browser.dock) =
          true) →
      id ∈ memberIDs encode row.value) :
        (browser.reconcile encode key now writeID).1.Carries encode id := by
  have step := reconciled encode browser key now writeID
  generalize browser.reconcile encode key now writeID = answer at step ⊢
  have grown :
      ∀ row, id ∈ memberIDs encode (browser.dock ++ missingMembers encode row browser.dock) := by
    intro row
    rw [memberIDs_append]
    exact List.mem_append_left _ carries.dock
  cases step with
  | settled => exact carries
  | first held grown same => exact ⟨grown id carries.dock, fun _ _ _ =>
      Or.inr ⟨_, rfl, same ▸ grown id carries.dock⟩⟩
  | joined held new kept same =>
    exact ⟨grown _, fun _ _ _ => Or.inr ⟨_, rfl, careful _ _ held new kept (Or.inl same)⟩⟩
  | restored held new kept same =>
    exact ⟨grown _, fun _ _ _ => Or.inr ⟨_, rfl, careful _ _ held new kept (Or.inr same)⟩⟩
  | deleted held new gone kept same =>
    exact ⟨carries.dock, fun _ _ _ => Or.inr ⟨_, rfl, careful _ _ held new kept (Or.inl same)⟩⟩
  | published grown =>
    exact ⟨grown id carries.dock, fun _ _ _ =>
      Or.inr ⟨_, rfl, (mem_unique _ id).mpr (grown id carries.dock)⟩⟩

theorem Browser.Holds.reconcile (holds : browser.Holds encode) (key : String) (now : Int)
    (writeID : String)
    (emptied : ∀ row, browser.row = some row → row.deleted = true → row.value = []) :
    (browser.reconcile encode key now writeID).1.Holds encode := by
  have step := reconciled encode browser key now writeID
  generalize browser.reconcile encode key now writeID = answer at step ⊢
  cases step with
  | settled => exact holds
  | first held grown same =>
    rintro _ _ ⟨⟩ - ⟨⟩ id listed
    exact same ▸ listed
  | joined =>
    rintro _ _ ⟨⟩ - ⟨⟩ id listed
    exact mem_missing _ listed
  | restored held new kept same =>
    rintro _ _ ⟨⟩ - ⟨⟩ id listed
    rw [sameMembers_iff.mp same]
    exact mem_missing _ listed
  | deleted held new gone =>
    rintro _ _ ⟨⟩ - ⟨⟩ id listed
    rw [emptied _ held gone] at listed
    cases listed
  | published =>
    rintro _ _ ⟨⟩ - ⟨⟩ id listed
    exact (mem_unique _ id).mp listed

theorem Browser.Known.reconcile {issued : List SpaceMembersRow} (known : browser.Known issued)
    (key : String) (now : Int)
    (writeID : String) :
    (browser.reconcile encode key now writeID).1.Known
      (issued ++ (browser.reconcile encode key now writeID).2.toList) := by
  have step := reconciled encode browser key now writeID
  generalize browser.reconcile encode key now writeID = answer at step ⊢
  -- A row that is held already is applied at most.
  have applies : ∀ row current baseline, browser.row = some row →
      (⟨current, ⟨baseline, some row.writeID⟩, some row⟩ : Browser).Known (issued ++ []) := by
    intro row current baseline held
    rw [List.append_nil]
    refine ⟨?_, ?_⟩
    · rintro _ ⟨⟩
      exact known.row row held
    · rintro _ ⟨⟩
      exact ⟨row, known.row row held, rfl, row, rfl, le_rfl⟩
  cases step with
  | settled => simpa using known
  | first held => exact applies _ _ _ held
  | joined held => exact applies _ _ _ held
  | restored held => exact applies _ _ _ held
  | deleted held => exact applies _ _ _ held
  | published =>
    refine ⟨?_, ?_⟩
    · rintro _ ⟨⟩
      exact List.mem_append_right _ (List.mem_singleton_self _)
    · rintro _ ⟨⟩
      exact ⟨_, List.mem_append_right _ (List.mem_singleton_self _), rfl, _, rfl, le_rfl⟩

theorem reconcile_published (encode : String → String) (browser : Browser) (key : String)
    (now : Int) (writeID : String) :
    ∀ row, (browser.reconcile encode key now writeID).2 = some row → row.writeID = writeID ∧
      row.deleted = false := by
  have step := reconciled encode browser key now writeID
  generalize browser.reconcile encode key now writeID = answer at step ⊢
  cases step with
  | published =>
    rintro _ ⟨⟩
    exact ⟨rfl, rfl⟩
  | _ => exact fun _ absent => nomatch absent

/-- A merge leaves the browser or brings a row that is still to be applied. -/
theorem Browser.Known.merge {issued : List SpaceMembersRow} (known : browser.Known issued)
    {row : SpaceMembersRow}
    (inside : row ∈ issued) (distinct : ∀ one ∈ issued, ∀ other ∈ issued,
    one.writeID = other.writeID → one = other) :
    (browser.merge row).Known issued ∧
      (browser.merge row = browser ∨
        browser.merge row = { browser with row := some row } ∧
          (browser.merge row).unapplied = true) := by
  by_cases newer : browser.row.all fun current => 0 < row.compare current
  · have whole : browser.merge row = { browser with row := some row } := if_pos newer
    rw [whole]
    refine ⟨⟨?_, ?_⟩, Or.inr ⟨rfl, ?_⟩⟩
    · rintro _ ⟨⟩
      exact inside
    · intro writeID applied
      obtain ⟨old, known_old, own, held, stored, below⟩ := known.applied writeID applied
      have above : held.version < row.version := by
        rw [stored] at newer
        simpa [compare_pos] using newer
      exact ⟨old, known_old, own, row, rfl, below.trans above.le⟩
    · simp only [Browser.unapplied, Option.any_some, decide_eq_true_eq]
      intro applied
      obtain ⟨old, known_old, own, held, stored, below⟩ := known.applied row.writeID applied
      rw [distinct old known_old row inside own] at below
      rw [stored] at newer
      have above : held.version < row.version := by
        simpa [compare_pos] using newer
      exact absurd below (not_le.mpr above)
  · have whole : browser.merge row = browser := if_neg newer
    rw [whole]
    exact ⟨known, Or.inl rfl⟩

end

/-! ## Every step keeps it -/

structure MembersWorld.Coherent {ι : Type} (encode : String → String) (world : MembersWorld ι) :
    Prop where
  known : ∀ i, (world.browsers i).Known world.issued
  carries : ∀ i, ∀ id ∈ world.added i, (world.browsers i).Carries encode id
  holds : ∀ i, (world.browsers i).Holds encode
  shared : ∀ row, world.shared = some row → row ∈ world.issued
  distinct : ∀ one ∈ world.issued, ∀ other ∈ world.issued, one.writeID = other.writeID → one = other
  emptied : ∀ row ∈ world.issued, row.deleted = true → row.value = []

variable {ι : Type} [DecidableEq ι] {world : MembersWorld ι}

theorem MembersWorld.Coherent.put (coherent : world.Coherent encode) {i : ι} {browser : Browser}
    (known : browser.Known world.issued) (carries : ∀ id ∈ world.added i, browser.Carries encode id)
    (holds : browser.Holds encode) : (world.put i browser).Coherent encode where
  known j := by
    by_cases same : j = i
    · subst same
      simpa [MembersWorld.put] using known
    · simpa [MembersWorld.put, same] using coherent.known j
  carries j := by
    by_cases same : j = i
    · subst same
      simpa [MembersWorld.put] using carries
    · simpa [MembersWorld.put, same] using coherent.carries j
  holds j := by
    by_cases same : j = i
    · subst same
      simpa [MembersWorld.put] using holds
    · simpa [MembersWorld.put, same] using coherent.holds j
  shared := coherent.shared
  distinct := coherent.distinct
  emptied := coherent.emptied

/-- A browser moves on and may publish a row with a write id of its own. -/
theorem MembersWorld.Coherent.issue (coherent : world.Coherent encode) {i : ι} {browser : Browser}
    {published : Option SpaceMembersRow} (known : browser.Known (world.issued ++ published.toList))
    (carries : ∀ id ∈ world.added i, browser.Carries encode id) (holds : browser.Holds encode)
    (fresh : ∀ row, published = some row →
      (∀ old ∈ world.issued, old.writeID ≠ row.writeID) ∧ row.deleted = false) :
    ({ world.put i browser with issued := world.issued ++ published.toList } : MembersWorld
    ι).Coherent encode := by
  have grown :
      ({ world with issued := world.issued ++ published.toList } : MembersWorld ι).Coherent
      encode := by
    refine ⟨fun j => (coherent.known j).mono fun _ inside => List.mem_append_left _ inside,
      coherent.carries, coherent.holds,
      fun row served => List.mem_append_left _ (coherent.shared row served), ?_, ?_⟩
    · cases published with
      | none => simpa using coherent.distinct
      | some row =>
        have apart := (fresh row rfl).1
        intro one inside other inside' same
        simp only [Option.toList_some, List.mem_append, List.mem_singleton] at inside inside'
        obtain old | rfl := inside
        · obtain old' | rfl := inside'
          · exact coherent.distinct one old other old' same
          · exact absurd same (apart one old)
        · obtain old' | rfl := inside'
          · exact absurd same.symm (apart other old')
          · rfl
    · intro row inside gone
      obtain old | new := List.mem_append.mp inside
      · exact coherent.emptied row old gone
      · rw [Option.mem_toList] at new
        exact absurd gone (by simp [(fresh row new).2])
  exact grown.put known carries holds

theorem MembersWorld.Coherent.initial {key : String}
    {guard : MembersWorld ι → MembersEvent ι → Prop}
    (start : (membersSystem encode ι key guard).initial world) : world.Coherent encode := by
  have blank : ∀ i, (world.browsers i).kept = ⟨none, none⟩ ∧ (world.browsers i).row = none :=
    start.browsers
  refine ⟨fun i => ⟨?_, ?_⟩, fun i id inside => ⟨?_, ?_⟩, ?_, ?_, ?_, ?_⟩
  · simp [(blank i).2]
  · simp [(blank i).1]
  · exact start.added i ▸ inside
  · simp [(blank i).1]
  · intro i row baseline held
    simp [(blank i).2] at held
  · intro row served
    rw [start.issued, served]
    exact List.mem_singleton_self _
  · intro one inside other inside' _
    rw [start.issued, Option.mem_toList] at inside inside'
    exact Option.some_injective _ (inside.symm.trans inside')
  · intro row inside
    rw [start.issued, Option.mem_toList] at inside
    exact start.deleted row inside

theorem MembersWorld.Coherent.step {key : String} {world' : MembersWorld ι} {event : MembersEvent ι}
    (coherent : world.Coherent encode) (careful : world.Careful encode event)
    (moved : MembersWorld.Moves encode key world event world') : world'.Coherent encode := by
  cases moved with
  | edit i dock =>
    have others : ∀ j, j ≠ i → (world.edit encode i dock).browsers j = world.browsers j := by
      intro j other
      simp [MembersWorld.edit, MembersWorld.put, other]
    have own : (world.edit encode i dock).browsers i = { world.browsers i with dock := dock } := by
      simp [MembersWorld.edit, MembersWorld.put]
    refine ⟨fun j => ?_, fun j id inside => ?_, fun j => ?_, coherent.shared, coherent.distinct,
      coherent.emptied⟩
    · by_cases same : j = i
      · rw [same, own]
        exact ⟨(coherent.known i).row, (coherent.known i).applied⟩
      · rw [others j same]
        exact coherent.known j
    · simp only [MembersWorld.edit, List.mem_append, List.mem_filter, decide_eq_true_eq] at inside
      by_cases same : j = i
      · subst same
        rw [own]
        cases inside with
        | inl old =>
          have carries := coherent.carries j id old.1
          exact ⟨by_contra fun removed => old.2 ⟨carries.dock, removed⟩, carries.row⟩
        | inr new =>
          rw [if_pos rfl, List.mem_filter, decide_eq_true_eq] at new
          exact ⟨new.1, fun baseline kept listed => careful id new.1 new.2 baseline kept listed⟩
      · rw [others j same]
        simp only [if_neg same, List.not_mem_nil, or_false] at inside
        exact coherent.carries j id inside.1
    · by_cases same : j = i
      · rw [same, own]
        exact coherent.holds i
      · rw [others j same]
        exact coherent.holds j
  | reconcile i now writeID fresh =>
    have known : ((world.browsers i).reconcile encode key now writeID).1.Known
        (world.issued ++ ((world.browsers i).reconcile encode key now writeID).2.toList) :=
      (coherent.known i).reconcile key now writeID
    have carries : ∀ id ∈ world.added i,
        ((world.browsers i).reconcile encode key now writeID).1.Carries encode id :=
      fun id inside => (coherent.carries i id inside).reconcile key now writeID
        fun row baseline held new kept same => careful row baseline held new kept same id inside
    have holds := (coherent.holds i).reconcile key now writeID
      fun row held => coherent.emptied row ((coherent.known i).row row held)
    have published := reconcile_published encode (world.browsers i) key now writeID
    exact coherent.issue known carries holds fun row own =>
      ⟨(published row own).1 ▸ fresh, (published row own).2⟩
  | post row given =>
    refine ⟨coherent.known, coherent.carries, coherent.holds, ?_, coherent.distinct,
      coherent.emptied⟩
    rintro _ ⟨⟩
    obtain own | own : later Row.version world.shared row = row ∨
        world.shared = some (later Row.version world.shared row) := later_source world.shared row
    · rw [own]
      exact given
    · exact coherent.shared _ own
  | arrive i row given =>
    obtain ⟨known, same | ⟨same, unapplied⟩⟩ := (coherent.known i).merge given coherent.distinct
    · rw [same] at known ⊢
      exact coherent.put known (coherent.carries i) (coherent.holds i)
    · refine coherent.put known (fun id inside => ?_) ?_
      · refine ⟨?_, fun _ _ _ => Or.inl unapplied⟩
        rw [same]
        exact (coherent.carries i id inside).dock
      · intro row baseline _ applied
        exact absurd applied (by simp [unapplied])

theorem coherent_careful (encode : String → String) (ι : Type) [DecidableEq ι] (key : String) :
    (membersSystem encode ι key (MembersWorld.Careful encode)).Invariant
    (MembersWorld.Coherent encode) where
  initial _ start := .initial start
  step _ _ _ coherent moved := coherent.step moved.2 moved.1

/-- In every run of careful steps, at rest the row lists what was added and not removed
since, and every dock has every member of the row. -/
theorem added_members_listed {key : String} {world : MembersWorld ι} {row : SpaceMembersRow}
    (reachable : (membersSystem encode ι key (MembersWorld.Careful encode)).Reachable world)
    (rests : world.Rests encode row) :
    (∀ i, ∀ id ∈ world.added i, id ∈ memberIDs encode row.value) ∧
      ∀ i, ∀ id ∈ memberIDs encode row.value, id ∈ memberIDs encode (world.browsers i).dock := by
  have coherent := (coherent_careful encode ι key).reachable reachable
  have old : ∀ i, (world.browsers i).unapplied = false := by
    intro i
    simp [Browser.unapplied, rests.applied i]
  refine ⟨fun i id inside => ?_, fun i id listed => ?_⟩
  · obtain ⟨baseline, kept, same⟩ := rests.unedited i
    have carries := coherent.carries i id inside
    have listed : id ∈ memberIDs encode baseline := by
      rw [sameMembers_iff.mp same]
      exact carries.dock
    obtain unapplied | ⟨held, stored, listed⟩ := carries.row baseline kept listed
    · exact absurd unapplied (by simp [old i])
    · have same : row = held := Option.some_injective _ ((rests.applied i).1.symm.trans stored)
      exact same ▸ listed
  · obtain ⟨baseline, kept, same⟩ := rests.unedited i
    rw [← sameMembers_iff.mp same]
    exact coherent.holds i row baseline (rests.applied i).1 (old i) kept id listed

end

/-! ## Two browsers that add at the same time -/

def sharedStart : SpaceMembersRow := ⟨"space", [.agent "x"], 1, "w1", false⟩

def firstAdd : SpaceMembersRow := ⟨"space", [.agent "x", .agent "a"], 4, "w4", false⟩

def secondAdd : SpaceMembersRow := ⟨"space", [.agent "x", .agent "b"], 5, "w5", false⟩

def twoBrowsers : MembersWorld Bool where
  browsers := fun _ => ⟨[.agent "x"], ⟨none, none⟩, none⟩
  shared := some sharedStart
  issued := [sharedStart]
  added := fun _ => memberIDs id [.agent "x"]

theorem twoBrowsers_start (guard : MembersWorld Bool → MembersEvent Bool → Prop) :
    (membersSystem id Bool "space" guard).initial twoBrowsers := by
  refine ⟨fun _ => ⟨rfl, rfl⟩, rfl, ?_, fun _ => rfl⟩
  rintro _ ⟨⟩ ⟨⟩

/-- One browser adds a member and the other takes it. -/
theorem added_members_listed_sample :
    ∃ world : MembersWorld Bool, world.Rests id firstAdd ∧
      (∀ i, ∀ name ∈ world.added i, name ∈ memberIDs id firstAdd.value) ∧
      ∀ i, ∀ name ∈ memberIDs id firstAdd.value, name ∈ memberIDs id (world.browsers i).dock := by
  have pulled := System.Reachable.step (.initial (twoBrowsers_start (MembersWorld.Careful id)))
    ⟨.arrive _ true sharedStart (by decide), trivial⟩
  have pulled' := System.Reachable.step pulled ⟨.arrive _ false sharedStart (by decide), trivial⟩
  have ready := System.Reachable.step pulled'
    ⟨.reconcile _ true 2 "w2" (by decide), fun _ _ _ _ kept => nomatch kept⟩
  have ready' := System.Reachable.step ready
    ⟨.reconcile _ false 3 "w3" (by decide), fun _ _ _ _ kept => nomatch kept⟩
  have added := System.Reachable.step ready'
    ⟨.edit _ true firstAdd.value, by rintro name _ new _ ⟨⟩ listed; exact absurd listed new⟩
  have published := System.Reachable.step added
    ⟨.reconcile _ true 4 "w4" (by decide), fun _ _ _ unapplied => by cases unapplied⟩
  have posted := System.Reachable.step published ⟨.post _ firstAdd (by decide), trivial⟩
  have given := System.Reachable.step posted ⟨.arrive _ false firstAdd (by decide), trivial⟩
  have joined := System.Reachable.step given
    ⟨.reconcile _ false 6 "w6" (by decide), by rintro _ _ ⟨⟩ _ ⟨⟩ _; decide⟩
  refine ⟨_, ?rests, added_members_listed joined ?rests⟩
  refine ⟨by decide, by decide, fun i => ?_⟩
  cases i with
  | false => exact ⟨_, rfl, by decide⟩
  | true => exact ⟨_, rfl, by decide⟩

/-- The browser whose row was overwritten takes the other's row for its new baseline and
publishes nothing, so the row never lists what it added. -/
theorem overwritten_addition_lost :
    ∃ world : MembersWorld Bool, (membersSystem id Bool "space" fun _ _ => True).Reachable world ∧
      world.Rests id secondAdd ∧ memberID id (.agent "a") ∈ world.added true ∧
      memberID id (.agent "a") ∉ memberIDs id secondAdd.value := by
  have pulled :=
    System.Reachable.step (.initial (twoBrowsers_start fun _ _ => True))
    ⟨.arrive _ true sharedStart (by decide), trivial⟩
  have pulled' := System.Reachable.step pulled ⟨.arrive _ false sharedStart (by decide), trivial⟩
  have ready := System.Reachable.step pulled' ⟨.reconcile _ true 2 "w2" (by decide), trivial⟩
  have ready' := System.Reachable.step ready ⟨.reconcile _ false 3 "w3" (by decide), trivial⟩
  have added := System.Reachable.step ready' ⟨.edit _ true firstAdd.value, trivial⟩
  have added' := System.Reachable.step added ⟨.edit _ false secondAdd.value, trivial⟩
  have published := System.Reachable.step added' ⟨.reconcile _ true 4 "w4" (by decide), trivial⟩
  have published' :=
    System.Reachable.step published ⟨.reconcile _ false 5 "w5" (by decide), trivial⟩
  have posted := System.Reachable.step published' ⟨.post _ firstAdd (by decide), trivial⟩
  have posted' := System.Reachable.step posted ⟨.post _ secondAdd (by decide), trivial⟩
  have lost := System.Reachable.step posted' ⟨.arrive _ true secondAdd (by decide), trivial⟩
  have rests := System.Reachable.step lost ⟨.reconcile _ true 6 "w6" (by decide), trivial⟩
  refine ⟨_, rests, ⟨by decide, by decide, ?_⟩, by decide, by decide⟩
  intro i
  cases i with
  | false => exact ⟨_, rfl, by decide⟩
  | true => exact ⟨_, rfl, by decide⟩

end AiConfig.Herder
