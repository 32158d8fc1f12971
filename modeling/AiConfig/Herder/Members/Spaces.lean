import AiConfig.Herder.Members.Model

/-! # Reconciling every space

Transcription of `reconcileSpaceMembers` over all of a browser's spaces, with docks that may
be unreadable and an `add` that may fail, and of `publish`, `remove` and `merge` of
`spaceMembersStore.ts`. -/

namespace AiConfig.Herder.Spaces

open AiConfig.Lib

section

variable (encode : String → String)

/-- What `add` leaves of a dock that lacks some members, and whether it answers that it opened
them all. -/
structure Opening (before missing : List SpaceMember) where
  dock : List SpaceMember
  opened : Bool
  /-- Nothing is closed, or moved among what was open. -/
  kept : (dock.filter fun member => memberID encode member ∈ memberIDs encode before) = before
  new : ∀ member ∈ dock, memberID encode member ∈ memberIDs encode before ∨ member ∈ missing
  all : opened = true → ∀ member ∈ missing, memberID encode member ∈ memberIDs encode dock

/-- What one browser has of each space. -/
structure Profile where
  /-- What `read` answers. -/
  dock : String → Option (List SpaceMember)
  kept : String → SpaceMembersLocal
  row : String → Option SpaceMembersRow
  /-- The spaces that it has closed. -/
  closed : List String

/-- What `publish` and `remove` write after the row they find. -/
def written (current : Option SpaceMembersRow) (space : String) (members : List SpaceMember)
    (deleted : Bool)
    (stamp : Int × String) : SpaceMembersRow :=
  ⟨space, uniqueMembers encode members, max stamp.1 ((current.map (·.updated)).getD 0 + 1), stamp.2,
    deleted⟩

/-- The dock and what is kept once a row not yet applied is applied; nothing is kept when a
member could not be opened. -/
def applied (row : Option SpaceMembersRow) (kept : SpaceMembersLocal) (before : List SpaceMember)
    (add : ∀ before missing, Opening encode before missing) :
    List SpaceMember × Option SpaceMembersLocal :=
  match row with
  | none => (before, some kept)
  | some row =>
    if kept.applied = some row.writeID then (before, some kept)
    else if row.deleted then (before, some { kept with applied := some row.writeID })
    else
      let missing := missingMembers encode row before
      let baseline := fun current =>
        -- With no local change pending, the applied dock is the new baseline.
        if kept.baseline.any fun baseline => sameMembers encode baseline before then some current
        else kept.baseline
      if missing = [] then (before, some ⟨baseline before, some row.writeID⟩)
      else
        let opening := add before missing
        if opening.opened then (opening.dock, some ⟨baseline opening.dock, some row.writeID⟩)
        else (opening.dock, none)

variable (add : String → ∀ before missing, Opening encode before missing) (stamp : Int × String)

def Profile.put (p : Profile) (space : String) (dock : List SpaceMember) (kept : SpaceMembersLocal)
    (row : Option SpaceMembersRow) : Profile :=
  { p with
    dock := Function.update p.dock space (some dock)
    kept := Function.update p.kept space kept
    row := Function.update p.row space row }

/-- One live space: the browser after it and the row that was published. -/
def Profile.visitLive (p : Profile) (space : String) : Profile × Option SpaceMembersRow :=
  match p.dock space with
  | none => (p, none)
  | some before =>
    match applied encode (p.row space) (p.kept space) before (add space) with
    | (dock, none) => (p.put space dock (p.kept space) (p.row space), none)
    -- What is in the dock after the row was applied is what is published.
    | (current, some kept) =>
      if changed encode (p.row space) kept.baseline current then
        let row := written encode (p.row space) space current false stamp
        (p.put space current ⟨some current, some row.writeID⟩ (some row), some row)
      else (p.put space current { kept with baseline := some (kept.baseline.getD current) }
        (p.row space), none)

/-- One closed space. -/
def Profile.visitClosed (p : Profile) (space : String) : Profile × Option SpaceMembersRow :=
  match p.row space with
  | none => (p, none)
  | some row =>
    -- A space is told to be closed once.
    if row.deleted then (p, none)
    else
      let row := written encode (some row) space [] true stamp
      ({ p with
          kept := Function.update p.kept space ⟨none, some row.writeID⟩
          row := Function.update p.row space (some row) }, some row)

inductive Visit where
  | live (space : String)
  | closed (space : String)

def Profile.visit (p : Profile) : Visit → Profile × Option SpaceMembersRow
  | .live space => p.visitLive encode add stamp space
  | .closed space => p.visitClosed encode stamp space

/-- The spaces in turn, and every row that was published. -/
def Profile.visitAll (stamps : Nat → Int × String) : Nat → List Visit → Profile →
    Profile × List SpaceMembersRow
  | _, [], p => (p, [])
  | n, visit :: rest, p =>
    let (p, row) := p.visit encode add (stamps n) visit
    let (p, rows) := Profile.visitAll stamps (n + 1) rest p
    (p, row.toList ++ rows)

/-- What a call finds: the live spaces, what `add` does, and the clock and the write id of each
row. -/
structure Call where
  live : List String
  add : String → ∀ before missing, Opening encode before missing
  stamps : Nat → Int × String

def Profile.reconcileSpaceMembers (p : Profile) (call : Call encode) :
    Profile × List SpaceMembersRow :=
  Profile.visitAll encode call.add call.stamps 0 (call.live.map .live ++ p.closed.map .closed) p

/-- `merge`: the later row stays, as long as no tombstone is past its retention. -/
def Profile.merge (p : Profile) (incoming : SpaceMembersRow) : Profile :=
  if (p.row incoming.key).all fun current => 0 < incoming.compare current then
    { p with row := Function.update p.row incoming.key (some incoming) }
  else p

/-! ## Any number of browsers -/

structure World (ι : Type) where
  browsers : ι → Profile
  /-- Every row there is: those at the start and those written since. -/
  issued : List SpaceMembersRow

inductive Change (ι : Type) where
  /-- The user edits a dock; it may also become unreadable. -/
  | dock (i : ι) (space : String) (dock : Option (List SpaceMember))
  /-- The user closes or opens spaces. -/
  | close (i : ι) (closed : List String)
  | arrive (i : ι) (row : SpaceMembersRow)
  | reconcile (i : ι)

variable {ι : Type} [DecidableEq ι]

def World.put (world : World ι) (i : ι) (p : Profile) : World ι :=
  { world with browsers := Function.update world.browsers i p }

inductive World.Moves : World ι → Change ι → World ι → Prop
  | dock (world : World ι) (i : ι) (space : String) (dock : Option (List SpaceMember)) :
      Moves world (.dock i space dock)
        (world.put i
          { world.browsers i with dock := Function.update (world.browsers i).dock space dock })
  | close (world : World ι) (i : ι) (closed : List String) :
      Moves world (.close i closed) (world.put i { world.browsers i with closed })
  | arrive (world : World ι) (i : ι) (row : SpaceMembersRow) (given : row ∈ world.issued) :
      Moves world (.arrive i row) (world.put i ((world.browsers i).merge row))
  | reconcile (world : World ι) (i : ι) (call : Call encode)
      (open_ : ∀ space ∈ call.live, space ∉ (world.browsers i).closed) :
      Moves world (.reconcile i)
        { world.put i ((world.browsers i).reconcileSpaceMembers encode call).1 with
          issued := world.issued ++ ((world.browsers i).reconcileSpaceMembers encode call).2 }

/-- Any docks, baselines and rows. -/
def World.Starts (world : World ι) : Prop :=
  ∀ i space row, (world.browsers i).row space = some row → row ∈ world.issued ∧ row.key = space

end

end AiConfig.Herder.Spaces
