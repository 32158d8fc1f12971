import Mathlib.Algebra.BigOperators.Group.Finset.Basic
import Mathlib.Algebra.Order.BigOperators.Group.Finset
import AiConfig.Lib.Grouping
import AiConfig.Herder.Members.Reconcile
import AiConfig.Herder.Members.Spaces

/-! # Reconciling settles

A browser publishes a dock only where it differs from the baseline, and is even with it
afterwards.  Only an edit, or an `add` that opened a part of the missing members, makes a
difference again, and the members that a dock may still get are finitely many.  A browser
that closed a space takes a row away at most once for each row that lists members. -/

namespace AiConfig.Herder.Spaces

open AiConfig.Lib

/-- A space is visited as what it is. -/
def Visit.Suits (closed : List String) : Visit → Prop
  | .live space => space ∉ closed
  | .closed space => space ∈ closed

def Visit.space : Visit → String
  | .live space => space
  | .closed space => space

section

variable {encode : String → String}

/-! ## Applying a row -/

/-- The members that a row lists. -/
def listed (row : SpaceMembersRow) : List SpaceMember := if row.deleted then [] else row.value

/-- What an applied row makes of a dock: nothing is closed, what is opened is the row's, an even
dock stays even, and all of the row's members are open when it is done. -/
structure Applied (encode : String → String) (row : Option SpaceMembersRow)
    (kept : SpaceMembersLocal)
    (before current : List SpaceMember) (kept' : Option SpaceMembersLocal) : Prop where
  grown : (current.filter fun member => memberID encode member ∈ memberIDs encode before) = before
  new : ∀ member ∈ current, memberID encode member ∈ memberIDs encode before ∨
    ∃ held, row = some held ∧ member ∈ listed held
  even : ∀ local_, kept' = some local_ →
    kept.baseline.any (fun baseline => sameMembers encode baseline before) →
    local_.baseline.any fun baseline => sameMembers encode baseline current
  all : ∀ local_ held, kept' = some local_ → row = some held → kept.applied ≠ some held.writeID →
    ∀ member ∈ listed held, memberID encode member ∈ memberIDs encode current

theorem sameMembers_self (members : List SpaceMember) : sameMembers encode members members = true :=
  sameMembers_iff.mpr rfl

theorem filter_own (members : List SpaceMember) :
    (members.filter fun member => memberID encode member ∈ memberIDs encode members) = members := by
  rw [List.filter_eq_self]
  exact fun member inside => decide_eq_true (List.mem_map_of_mem inside)

theorem applied_spec (row : Option SpaceMembersRow) (kept : SpaceMembersLocal)
    (before : List SpaceMember)
    (add : ∀ before missing, Opening encode before missing) :
    Applied encode row kept before (applied encode row kept before add).1
      (applied encode row kept before add).2 := by
  have same : ∀ local_ : SpaceMembersLocal, local_.baseline = kept.baseline →
      (∀ held, row = some held → kept.applied ≠ some held.writeID → listed held = []) →
      Applied encode row kept before before (some local_) := by
    intro local_ baseline empty
    refine ⟨filter_own before, fun member inside => Or.inl (List.mem_map_of_mem inside), ?_, ?_⟩
    · rintro _ ⟨⟩ even
      rw [baseline]
      exact even
    · rintro _ held ⟨⟩ given unapplied member inside
      rw [empty held given unapplied] at inside
      cases inside
  cases row with
  | none => exact same kept rfl fun held given => by cases given
  | some row =>
    simp only [applied]
    by_cases old : kept.applied = some row.writeID
    · rw [if_pos old]
      refine same kept rfl fun held given unapplied => ?_
      cases given
      exact absurd old unapplied
    · rw [if_neg old]
      by_cases deleted : row.deleted = true
      · rw [if_pos deleted]
        refine same _ rfl fun held given _ => ?_
        cases given
        rw [listed, if_pos deleted]
      · rw [if_neg deleted]
        have members : listed row = row.value := if_neg deleted
        have even :
          ∀ current, kept.baseline.any (fun baseline => sameMembers encode baseline before) →
            (if kept.baseline.any fun baseline => sameMembers encode baseline before then
                some current
              else kept.baseline).any fun baseline => sameMembers encode baseline current := by
          intro current even
          rw [if_pos even]
          exact sameMembers_self current
        by_cases none : missingMembers encode row before = []
        · rw [if_pos none]
          refine ⟨filter_own before, fun member inside => Or.inl (List.mem_map_of_mem inside), ?_,
            ?_⟩
          · rintro _ ⟨⟩
            exact even before
          · rintro _ held ⟨⟩ ⟨⟩ - member inside
            rw [members] at inside
            rw [missingMembers, List.filter_eq_nil_iff] at none
            simpa using none member inside
        · rw [if_neg none]
          generalize add before (missingMembers encode row before) = opening
          have new : ∀ member ∈ opening.dock, memberID encode member ∈ memberIDs encode before ∨
              ∃ held, some row = some held ∧ member ∈ listed held := by
            intro member inside
            obtain old | missing := opening.new member inside
            · exact Or.inl old
            · exact Or.inr ⟨row, rfl, by rw [members]; exact List.mem_of_mem_filter missing⟩
          by_cases opened : opening.opened = true
          · rw [if_pos opened]
            refine ⟨opening.kept, new, ?_, ?_⟩
            · rintro _ ⟨⟩
              exact even opening.dock
            · rintro _ held ⟨⟩ ⟨⟩ - member inside
              rw [members] at inside
              by_cases present : memberID encode member ∈ memberIDs encode before
              · rw [← opening.kept] at present
                obtain ⟨other, shown, same⟩ := List.mem_map.mp present
                exact List.mem_map.mpr ⟨other, List.mem_of_mem_filter shown, same⟩
              · exact opening.all opened member
                  (List.mem_filter.mpr ⟨inside, by simpa using present⟩)
          · rw [if_neg opened]
            exact ⟨opening.kept, new, fun _ given => (by cases given), fun _ _ given =>
              (by cases given)⟩

/-! ## What a visit may still do -/

variable (encode) (universe_ : Finset String)

/-- The members that a dock may still get. -/
def room (dock : Option (List SpaceMember)) : Nat :=
  (universe_ \ (memberIDs encode (dock.getD [])).toFinset).card

/-- The dock differs from the baseline, or there is nothing to compare. -/
def Profile.dirty (p : Profile) (space : String) : Bool :=
  !((p.dock space).any fun dock => (p.kept space).baseline.any fun baseline =>
    sameMembers encode baseline dock)

/-- How often a live space may still be published without an edit. -/
def Profile.potential (p : Profile) (space : String) : Nat :=
  (if space ∉ p.closed ∧ p.dirty encode space = true then 1 else 0) + room encode universe_
    (p.dock space)

/-- The rows that list members, and that the browser has or may still take. -/
def Profile.takeable (p : Profile) (issued : List SpaceMembersRow) (space : String) : Nat :=
  issued.countP fun row => row.key = space && !row.deleted && (p.row space).all fun held =>
    held.version ≤ row.version

/-- What one visit of a space does. -/
structure Visited (space : String) (p p' : Profile) (row : Option SpaceMembersRow) : Prop where
  closed : p'.closed = p.closed
  docks : ∀ other, other ≠ space → p'.dock other = p.dock other
  kept : ∀ other, other ≠ space → p'.kept other = p.kept other
  rows : ∀ other, other ≠ space → p'.row other = p.row other
  within : ∀ id ∈ memberIDs encode ((p'.dock space).getD []), id ∈ universe_
  quiet : row = none → p'.row space = p.row space ∧
    p'.potential encode universe_ space ≤ p.potential encode universe_ space
  new : ∀ written, row = some written → written.key = space ∧ p'.row space = some written ∧
    (∀ held, p.row space = some held → held.version < written.version) ∧
    (∀ id ∈ memberIDs encode written.value, id ∈ universe_)
  published : ∀ written, row = some written → written.deleted = false →
    p'.potential encode universe_ space + 1 ≤ p.potential encode universe_ space
  removed : ∀ written, row = some written → written.deleted = true →
    p'.potential encode universe_ space ≤ p.potential encode universe_ space ∧
      ∃ held, p.row space = some held ∧ held.deleted = false

variable {encode universe_}

theorem written_newer {held : SpaceMembersRow} {space : String} {members : List SpaceMember}
    {deleted : Bool}
    {stamp : Int × String} {current : Option SpaceMembersRow} (given : current = some held) :
    held.version < (written encode current space members deleted stamp).version := by
  subst given
  refine Prod.Lex.toLex_lt_toLex.mpr (Or.inl ?_)
  have after : held.updated + 1 ≤ max stamp.1 (held.updated + 1) := le_max_right _ _
  show held.updated < max stamp.1 (held.updated + 1)
  omega

theorem within_written {current : Option SpaceMembersRow} {space : String}
    {members : List SpaceMember}
    {deleted : Bool} {stamp : Int × String}
    (within : ∀ id ∈ memberIDs encode members, id ∈ universe_) :
    ∀ id ∈ memberIDs encode (written encode current space members deleted stamp).value,
      id ∈ universe_ :=
  fun id inside => within id ((mem_unique members id).mp inside)

/-- A dock that grew within the universe has no more room; if it is another dock, it has less. -/
theorem room_grown {before current : List SpaceMember}
    (grown : (current.filter fun member => memberID encode member ∈ memberIDs encode before) =
    before) :
    room encode universe_ (some current) ≤ room encode universe_ (some before) := by
  refine Finset.card_le_card fun id inside => ?_
  simp only [Option.getD_some, Finset.mem_sdiff, List.mem_toFinset] at inside ⊢
  refine ⟨inside.1, fun old => inside.2 ?_⟩
  rw [← grown] at old
  obtain ⟨member, shown, rfl⟩ := List.mem_map.mp old
  exact List.mem_map_of_mem (List.mem_of_mem_filter shown)

theorem room_less {before current : List SpaceMember}
    (grown : (current.filter fun member => memberID encode member ∈ memberIDs encode before) =
    before)
    (within : ∀ id ∈ memberIDs encode current, id ∈ universe_) (different : current ≠ before) :
    room encode universe_ (some current) < room encode universe_ (some before) := by
  refine Finset.card_lt_card ⟨?_, fun all => different ?_⟩
  · intro id inside
    simp only [Option.getD_some, Finset.mem_sdiff, List.mem_toFinset] at inside ⊢
    refine ⟨inside.1, fun old => inside.2 ?_⟩
    rw [← grown] at old
    obtain ⟨member, shown, rfl⟩ := List.mem_map.mp old
    exact List.mem_map_of_mem (List.mem_of_mem_filter shown)
  · rw [← grown, eq_comm, List.filter_eq_self]
    intro member inside
    have open_ : memberID encode member ∈ memberIDs encode current := List.mem_map_of_mem inside
    by_contra missing
    have room :
        memberID encode member ∈ universe_ \
        (memberIDs encode ((some before).getD [])).toFinset := by
      simp only [Option.getD_some, Finset.mem_sdiff, List.mem_toFinset]
      exact ⟨within _ open_, by simpa using missing⟩
    have gone := all room
    simp only [Option.getD_some, Finset.mem_sdiff, List.mem_toFinset] at gone
    exact gone.2 open_

/-! ## A visit -/

variable {p : Profile} {space : String}

theorem Visited.same (within : ∀ id ∈ memberIDs encode ((p.dock space).getD []), id ∈ universe_) :
    Visited encode universe_ space p p none where
  closed := rfl
  docks _ _ := rfl
  kept _ _ := rfl
  rows _ _ := rfl
  within := within
  quiet _ := ⟨rfl, Nat.le_refl _⟩
  new _ given := by cases given
  published _ given := by cases given
  removed _ given := by cases given

theorem put_dock (dock : List SpaceMember) (kept : SpaceMembersLocal)
    (row : Option SpaceMembersRow) :
    (p.put space dock kept row).dock space = some dock := Function.update_self ..

theorem put_kept (dock : List SpaceMember) (kept : SpaceMembersLocal)
    (row : Option SpaceMembersRow) :
    (p.put space dock kept row).kept space = kept := Function.update_self ..

theorem put_row (dock : List SpaceMember) (kept : SpaceMembersLocal)
    (row : Option SpaceMembersRow) :
    (p.put space dock kept row).row space = row := Function.update_self ..

/-- A space that is even after the visit has its room left. -/
theorem potential_even {dock : List SpaceMember} {kept : SpaceMembersLocal}
    {row : Option SpaceMembersRow}
    (even : kept.baseline.any fun baseline => sameMembers encode baseline dock) :
    (p.put space dock kept row).potential encode universe_ space =
    room encode universe_ (some dock) := by
  have clean : (p.put space dock kept row).dirty encode space = false := by
    rw [Profile.dirty, put_dock, put_kept, Option.any_some, even]
    rfl
  rw [Profile.potential, clean, put_dock, if_neg (by simp), Nat.zero_add]

theorem room_le_potential :
    room encode universe_ (p.dock space) ≤ p.potential encode universe_ space :=
  Nat.le_add_left _ _

theorem potential_le : p.potential encode universe_ space ≤ 1 + room encode universe_
    (p.dock space) := by
  rw [Profile.potential]
  split <;> omega

theorem visited_put {dock : List SpaceMember} {kept : SpaceMembersLocal}
    {row : Option SpaceMembersRow}
    {published : Option SpaceMembersRow} (within : ∀ id ∈ memberIDs encode dock, id ∈ universe_)
    (quiet : published = none → row = p.row space ∧
      (p.put space dock kept row).potential encode universe_ space ≤
      p.potential encode universe_ space)
    (new : ∀ written, published = some written → written.key = space ∧ row = some written ∧
      (∀ held, p.row space = some held → held.version < written.version) ∧ written.deleted = false ∧
      (∀ id ∈ memberIDs encode written.value, id ∈ universe_) ∧
      (p.put space dock kept row).potential encode universe_ space + 1 ≤
      p.potential encode universe_ space) :
    Visited encode universe_ space p (p.put space dock kept row) published where
  closed := rfl
  docks _ other := Function.update_of_ne other ..
  kept _ other := Function.update_of_ne other ..
  rows _ other := Function.update_of_ne other ..
  within := by
    rw [put_dock]
    exact within
  quiet none := by
    rw [put_row]
    exact quiet none
  new written given := by
    obtain ⟨key, row, newer, -, inside, -⟩ := new written given
    rw [put_row]
    exact ⟨key, row, newer, inside⟩
  published written given _ := (new written given).2.2.2.2.2
  removed written given deleted := by
    obtain ⟨-, -, -, listed, -⟩ := new written given
    rw [listed] at deleted
    cases deleted

theorem visited_live (add : String → ∀ before missing, Opening encode before missing)
    (stamp : Int × String)
    (open_ : space ∉ p.closed) (docks : ∀ id ∈ memberIDs encode ((p.dock space).getD []),
    id ∈ universe_)
    (rows : ∀ row, p.row space = some row → ∀ id ∈ memberIDs encode row.value, id ∈ universe_) :
    Visited encode universe_ space p (p.visitLive encode add stamp space).1
      (p.visitLive encode add stamp space).2 := by
  rw [Profile.visitLive]
  cases read : p.dock space with
  | none => exact .same docks
  | some before =>
    have spec := applied_spec (p.row space) (p.kept space) before (add space)
    rcases result :
      applied encode (p.row space) (p.kept space) before (add space) with ⟨current, kept'⟩
    rw [result] at spec
    replace spec : Applied encode (p.row space) (p.kept space) before current kept' := spec
    dsimp only
    rw [result]
    -- What is opened is of the row, so the dock stays in the universe.
    have within : ∀ id ∈ memberIDs encode current, id ∈ universe_ := by
      intro id inside
      obtain ⟨member, shown, rfl⟩ := List.mem_map.mp inside
      obtain old | ⟨held, given, listed_⟩ := spec.new member shown
      · exact docks _ (by rw [read]; exact old)
      · rw [listed] at listed_
        split at listed_
        · cases listed_
        · exact rows held given _ (List.mem_map_of_mem listed_)
    have less : room encode universe_ (some current) ≤ room encode universe_ (some before) :=
      room_grown spec.grown
    have before_room :
        room encode universe_ (some before) ≤ p.potential encode universe_ space := by
      rw [← read]
      exact room_le_potential
    cases kept' with
    | none =>
      refine visited_put within (fun _ => ⟨rfl, ?_⟩) fun _ given => (by cases given)
      by_cases same : current = before
      · subst same
        refine le_of_eq ?_
        simp only [Profile.potential, Profile.dirty, put_dock, put_kept, read]
        rfl
      · have strict := room_less spec.grown within same
        have bound :
          (p.put space current (p.kept space) (p.row space)).potential encode universe_ space ≤ _ :=
          potential_le
        rw [put_dock] at bound
        omega
    | some kept =>
      dsimp only
      split
      · next differs =>
        -- A row is published only from a dock that differs from its baseline.
        have dirty : p.dirty encode space = true := by
          rw [Profile.dirty, read, Option.any_some, Bool.not_eq_true']
          by_contra even
          have still := spec.even kept rfl (by simpa using even)
          rw [Option.any_eq_true] at still
          obtain ⟨baseline, given, same⟩ := still
          simp only [changed, given, same] at differs
          cases differs
        have counted :
            p.potential encode universe_ space = 1 + room encode universe_ (some before) := by
          rw [Profile.potential, if_pos ⟨open_, dirty⟩, read]
        refine visited_put within (fun none => by cases none) ?_
        rintro _ ⟨⟩
        refine ⟨rfl, rfl, fun held given => written_newer given, rfl, within_written within, ?_⟩
        rw [potential_even]
        · omega
        · exact sameMembers_self current
      · next even =>
        refine visited_put within (fun _ => ⟨rfl, ?_⟩) fun _ given => (by cases given)
        rw [potential_even]
        · omega
        · cases given : kept.baseline with
          | none => exact sameMembers_self current
          | some baseline =>
            simp only [changed, given] at even
            simpa using even

theorem visited_closed (stamp : Int × String) (closed : space ∈ p.closed)
    (docks : ∀ id ∈ memberIDs encode ((p.dock space).getD []), id ∈ universe_) :
    Visited encode universe_ space p (p.visitClosed encode stamp space).1
      (p.visitClosed encode stamp space).2 := by
  rw [Profile.visitClosed]
  cases held : p.row space with
  | none => exact .same docks
  | some row =>
    dsimp only
    split
    · exact .same docks
    · next listed =>
      have row_eq : ∀ row' :
          Option SpaceMembersRow, Function.update p.row space row' space = row' := fun _ =>
        Function.update_self ..
      constructor
      · rfl
      · exact fun _ _ => rfl
      · exact fun _ other => Function.update_of_ne other ..
      · exact fun _ other => Function.update_of_ne other ..
      · exact docks
      · intro none
        cases none
      · rintro _ ⟨⟩
        refine ⟨rfl, row_eq _, ?_, ?_⟩
        · intro other given
          rw [held] at given
          cases given
          exact written_newer rfl
        · exact within_written fun _ inside => by cases inside
      · rintro _ ⟨⟩ listed
        cases listed
      · rintro _ ⟨⟩ -
        refine ⟨le_of_eq ?_, row, held, by simpa using listed⟩
        rw [Profile.potential, Profile.potential, if_neg fun both => both.1 closed,
          if_neg fun both => both.1 closed]

end

/-! ## Sums -/

section

variable (encode : String → String) (universe_ spaces : Finset String)

/-! ## All browsers -/

/-- A publish takes one from what is weighed, and gives every browser a row to take. -/
def Profile.weight (browsers : Nat) (p : Profile) (issued : List SpaceMembersRow) : Nat :=
  ∑ space ∈ spaces, ((browsers + 1) * p.potential encode universe_ space + p.takeable issued space)

variable {ι : Type} [Fintype ι]

def World.total (world : World ι) : Nat :=
  ∑ i, (world.browsers i).weight encode universe_ spaces (Fintype.card ι) world.issued

def World.published (world : World ι) : Nat :=
  (world.issued.filter fun row => row.key ∈ spaces).length

/-- What may still be published, and what was. -/
def World.measure (world : World ι) : Nat :=
  world.total encode universe_ spaces + world.published spaces

/-- Of the spaces, all members that there are lie in the universe. -/
structure World.Within (world : World ι) : Prop where
  held : ∀ i space row, (world.browsers i).row space = some row → row ∈ world.issued ∧
    row.key = space
  docks : ∀ i, ∀ space ∈ spaces, ∀ id ∈ memberIDs encode (((world.browsers i).dock space).getD []),
    id ∈ universe_
  rows : ∀ row ∈ world.issued, row.key ∈ spaces → ∀ id ∈ memberIDs encode row.value, id ∈ universe_

variable {encode universe_ spaces} {p p' : Profile} {issued : List SpaceMembersRow} {space : String}

variable {n : Nat} {row : SpaceMembersRow} {result : Option SpaceMembersRow}

theorem visited {visit : Visit} (suits : visit.Suits p.closed)
    (add : String → ∀ before missing, Opening encode before missing) (stamp : Int × String)
    (docks : ∀ id ∈ memberIDs encode ((p.dock visit.space).getD []), id ∈ universe_)
    (rows : ∀ row, p.row visit.space = some row → ∀ id ∈ memberIDs encode row.value,
    id ∈ universe_) :
    Visited encode universe_ visit.space p (p.visit encode add stamp visit).1
      (p.visit encode add stamp visit).2 := by
  cases visit with
  | live space => exact visited_live add stamp suits docks rows
  | closed space => exact visited_closed stamp suits docks

variable [DecidableEq ι]

/-- The world after one visit. -/
def World.visited (world : World ι) (i : ι) (p : Profile) (row : Option SpaceMembersRow) :
    World ι :=
  ⟨Function.update world.browsers i p, world.issued ++ row.toList⟩

variable {world : World ι} {i : ι}

omit [Fintype ι] in
theorem visited_self (row : Option SpaceMembersRow) : (world.visited i p row).browsers i = p :=
  Function.update_self ..

omit [Fintype ι] in
theorem visited_apart (row : Option SpaceMembersRow) {j : ι} (other : j ≠ i) :
    (world.visited i p row).browsers j = world.browsers j := Function.update_of_ne other ..

omit [Fintype ι] in
theorem World.Within.visited (within : world.Within encode universe_ spaces)
    (visit : Visited encode universe_ space (world.browsers i) p' result ∨
      space ∉ spaces ∧ ∃ other, Visited encode other space (world.browsers i) p' result) :
    (world.visited i p' result).Within encode universe_ spaces := by
  obtain ⟨other, general⟩ : ∃ other, Visited encode other space (world.browsers i) p' result :=
    visit.elim (fun inside => ⟨_, inside⟩) And.right
  constructor
  · intro j other row given
    by_cases own : j = i
    · subst own
      rw [visited_self] at given
      by_cases same : other = space
      · subst same
        cases result with
        | none =>
          rw [(general.quiet rfl).1] at given
          obtain ⟨issued, key⟩ := within.held j other row given
          exact ⟨List.mem_append_left _ issued, key⟩
        | some written =>
          obtain ⟨key, shown, -⟩ := general.new written rfl
          rw [shown] at given
          cases given
          exact ⟨List.mem_append_right _ List.mem_cons_self, key⟩
      · rw [general.rows other same] at given
        obtain ⟨issued, key⟩ := within.held j other row given
        exact ⟨List.mem_append_left _ issued, key⟩
    · rw [visited_apart result own] at given
      obtain ⟨issued, key⟩ := within.held j other row given
      exact ⟨List.mem_append_left _ issued, key⟩
  · intro j other inside
    by_cases own : j = i
    · subst own
      rw [visited_self]
      by_cases same : other = space
      · subst same
        obtain visit | ⟨outside, -⟩ := visit
        · exact visit.within
        · exact absurd inside outside
      · rw [general.docks other same]
        exact within.docks j other inside
    · rw [visited_apart result own]
      exact within.docks j other inside
  · intro row issued inside
    obtain old | new := List.mem_append.mp issued
    · exact within.rows row old inside
    · rw [Option.mem_toList] at new
      obtain visit | ⟨outside, -⟩ := visit
      · exact (visit.new row new).2.2.2
      · rw [(general.new row new).1] at inside
        exact absurd inside outside

omit [Fintype ι] in
theorem World.Within.put (within : world.Within encode universe_ spaces) {p : Profile}
    (held : ∀ space row, p.row space = some row → row ∈ world.issued ∧ row.key = space)
    (docks : ∀ space ∈ spaces, ∀ id ∈ memberIDs encode ((p.dock space).getD []), id ∈ universe_) :
    (world.put i p).Within encode universe_ spaces := by
  have self : (world.put i p).browsers i = p := Function.update_self ..
  have apart : ∀ j ≠ i, (world.put i p).browsers j = world.browsers j :=
    fun _ other => Function.update_of_ne other ..
  refine ⟨fun j => ?_, fun j => ?_, within.rows⟩
  · by_cases own : j = i
    · subst own
      rw [self]
      exact held
    · rw [apart j own]
      exact within.held j
  · by_cases own : j = i
    · subst own
      rw [self]
      exact docks
    · rw [apart j own]
      exact within.docks j

end

end AiConfig.Herder.Spaces
