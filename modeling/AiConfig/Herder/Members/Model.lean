import AiConfig.Herder.State.Store
import AiConfig.Lib.Transition

/-! # The members of a space

Transcription of `spaceMembersModel.ts` and of `publish` and `merge` of
`spaceMembersStore.ts` for one live space, run by any number of browsers against one
last-write-wins row.  A dock is what `target.read` lists of it, and `target.add` appends. -/

namespace AiConfig.Herder

open AiConfig.Lib

inductive SpaceMember where
  | agent (name : String)
  | file (root path : String)
  deriving DecidableEq

abbrev SpaceMembersRow := Row (List SpaceMember)

structure SpaceMembersLocal where
  baseline : Option (List SpaceMember)
  /-- The write id of the row applied last. -/
  applied : Option String
  deriving DecidableEq

/-! `encode` is `encodeURIComponent`. -/

section

variable (encode : String → String)

def memberID : SpaceMember → String
  | .agent name => "agent:" ++ name
  | .file root path => "file:" ++ encode root ++ ":" ++ encode path

def memberIDs (members : List SpaceMember) : List String := members.map (memberID encode)

def sameMembers (left right : List SpaceMember) : Bool :=
  memberIDs encode left = memberIDs encode right

/-- The row's members that the dock lacks. -/
def missingMembers (row : SpaceMembersRow) (dock : List SpaceMember) : List SpaceMember :=
  row.value.filter fun member => memberID encode member ∉ memberIDs encode dock

/-- The first of each id. -/
def uniqueMembers (members : List SpaceMember) : List SpaceMember :=
  members.foldl
    (fun unique member =>
      if memberID encode member ∈ memberIDs encode unique then unique else unique ++ [member]) []

structure Browser where
  dock : List SpaceMember
  kept : SpaceMembersLocal
  row : Option SpaceMembersRow

/-- The row is not the one applied last. -/
def Browser.unapplied (browser : Browser) : Bool :=
  browser.row.any fun row => browser.kept.applied ≠ some row.writeID

/-- `publish`. -/
def Browser.publish (browser : Browser) (key : String) (members : List SpaceMember) (now : Int)
    (writeID : String) :
    SpaceMembersRow :=
  ⟨key, uniqueMembers encode members, max now ((browser.row.map (·.updated)).getD 0 + 1), writeID,
    false⟩

/-- `merge`: the later row stays.  A tombstone past its retention, which it drops, and `forget` are
left out. -/
def Browser.merge (browser : Browser) (incoming : SpaceMembersRow) : Browser :=
  if browser.row.all fun current => 0 < incoming.compare current then
    { browser with row := some incoming }
  else browser

/-- The dock and what is kept once a row not yet applied is applied. -/
def Browser.apply (browser : Browser) : List SpaceMember × SpaceMembersLocal :=
  match browser.row with
  | none => (browser.dock, browser.kept)
  | some row =>
    if browser.kept.applied = some row.writeID then (browser.dock, browser.kept)
    else if row.deleted then (browser.dock, { browser.kept with applied := some row.writeID })
    else
      let current := browser.dock ++ missingMembers encode row browser.dock
      -- With no local change pending, the applied dock is the new baseline.
      let baseline :=
        if browser.kept.baseline.any fun baseline => sameMembers encode baseline browser.dock then
          some current
        else browser.kept.baseline
      (current, ⟨baseline, some row.writeID⟩)

/-- Whether the dock is published. -/
def changed (row : Option SpaceMembersRow) (baseline : Option (List SpaceMember))
    (current : List SpaceMember) : Bool :=
  match baseline with
  | some baseline => !sameMembers encode baseline current
  | none => row.all fun row => row.deleted || !sameMembers encode row.value current

/-- `reconcileSpaceMembers`: the browser and the row it published. -/
def Browser.reconcile (browser : Browser) (key : String) (now : Int) (writeID : String) :
    Browser × Option SpaceMembersRow :=
  let (current, kept) := browser.apply encode
  if changed encode browser.row kept.baseline current then
    let written := browser.publish encode key current now writeID
    (⟨current, ⟨some current, some writeID⟩, some written⟩, some written)
  else (⟨current, { kept with baseline := some (kept.baseline.getD current) }, browser.row⟩, none)

/-! ## The browsers and the row they share -/

structure MembersWorld (ι : Type) where
  browsers : ι → Browser
  shared : Option SpaceMembersRow
  /-- Every row so far. -/
  issued : List SpaceMembersRow
  /-- What was added in a browser and not removed in any since. -/
  added : ι → List String

inductive MembersEvent (ι : Type) where
  | edit (browser : ι) (dock : List SpaceMember)
  | reconcile (browser : ι)
  | post (row : SpaceMembersRow)
  | arrive (browser : ι) (row : SpaceMembersRow)

variable {ι : Type} [DecidableEq ι]

def MembersWorld.put (world : MembersWorld ι) (i : ι) (browser : Browser) : MembersWorld ι :=
  { world with browsers := Function.update world.browsers i browser }

/-- An edit of the dock of `i`, with what it adds and what it removes. -/
def MembersWorld.edit (world : MembersWorld ι) (i : ι) (dock : List SpaceMember) : MembersWorld ι :=
  let before := memberIDs encode (world.browsers i).dock
  let after := memberIDs encode dock
  { world.put i { world.browsers i with dock := dock } with
    added := fun j =>
      ((world.added j).filter fun id => ¬ (id ∈ before ∧ id ∉ after)) ++
        if j = i then after.filter fun id => id ∉ before else [] }

inductive MembersWorld.Moves (key : String) : MembersWorld ι → MembersEvent ι → MembersWorld ι →
    Prop
  | edit (world : MembersWorld ι) (i : ι) (dock : List SpaceMember) :
      Moves key world (.edit i dock) (world.edit encode i dock)
  | reconcile (world : MembersWorld ι) (i : ι) (now : Int) (writeID : String)
      (fresh : ∀ row ∈ world.issued, row.writeID ≠ writeID) :
      Moves key world (.reconcile i)
        { world.put i ((world.browsers i).reconcile encode key now writeID).1 with
          issued := world.issued ++ ((world.browsers i).reconcile encode key now writeID).2.toList }
  | post (world : MembersWorld ι) (row : SpaceMembersRow) (given : row ∈ world.issued) :
      Moves key world (.post row) { world with shared := some (later Row.version world.shared row) }
  | arrive (world : MembersWorld ι) (i : ι) (row : SpaceMembersRow) (given : row ∈ world.issued) :
      Moves key world (.arrive i row) (world.put i ((world.browsers i).merge row))

/-- Browsers that run for the first time, over any docks and any shared row. -/
structure MembersWorld.Starts (world : MembersWorld ι) : Prop where
  browsers : ∀ i, (world.browsers i).kept = ⟨none, none⟩ ∧ (world.browsers i).row = none
  issued : world.issued = world.shared.toList
  /-- A deleted row is read without members. -/
  deleted : ∀ row, world.shared = some row → row.deleted = true → row.value = []
  added : ∀ i, world.added i = memberIDs encode (world.browsers i).dock

/-- Runs whose steps all meet `guard`. -/
def membersSystem (ι : Type) [DecidableEq ι] (key : String)
    (guard : MembersWorld ι → MembersEvent ι → Prop) :
    System (MembersWorld ι) (MembersEvent ι) where
  initial := MembersWorld.Starts encode
  step := fun world event world' => MembersWorld.Moves encode key world event world' ∧
    guard world event

/-- No dock edit is pending, and every browser has applied the shared row. -/
structure MembersWorld.Rests (world : MembersWorld ι) (row : SpaceMembersRow) : Prop where
  shared : world.shared = some row
  applied : ∀ i, (world.browsers i).row = some row ∧
    (world.browsers i).kept.applied = some row.writeID
  unedited : ∀ i, ∃ baseline, (world.browsers i).kept.baseline = some baseline ∧
    sameMembers encode baseline (world.browsers i).dock = true

end

end AiConfig.Herder
