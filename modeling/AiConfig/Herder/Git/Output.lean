import Mathlib.Logic.Function.Basic
import AiConfig.Lib.Fields
import AiConfig.Sesh.Surface.Prose

/-! # Git's NUL-separated output

Transcription of `parseStatus` of `internal/gitapi/status.go` and of `parseRaw` and `parseNumstat`
of
`internal/gitapi/diff.go`.  A text is its bytes, and `publicPath` is a parameter.  An error keeps
what
its message quotes. -/

namespace AiConfig.Herder.Git

open AiConfig.Lib
open AiConfig.Sesh.Surface.Prose (bytes isDigit)

abbrev Bytes := List UInt8

inductive ParseError where
  | branchHeader (record : Bytes)
  | aheadBehind (record : Bytes)
  | ordinary (record : Bytes)
  | xy (value : Bytes)
  | rename (record : Bytes)
  | conflict (record : Bytes)
  | untracked (record : Bytes)
  | record (record : Bytes)
  | raw (record : Bytes)
  | emptyRawStatus
  | rawStatus (status : Bytes)
  | rawDestination
  | numstat (record : Bytes)
  | numstatPaths
  | numstatCounts (record : Bytes)

/-- `blank` is the kind "". -/
inductive Kind where
  | blank
  | modified
  | added
  | deleted
  | renamed
  | copied
  | typeChanged
  | conflicted
  | untracked
  | unknown
deriving DecidableEq

structure Repository where
  branch : Bytes
  head : Bytes
  upstream : Bytes
  ahead : Option Int
  behind : Option Int
deriving DecidableEq

structure StatusEntry where
  path : Bytes
  kind : Kind
  oldPath : Bytes
  staged : Bool
  unstaged : Bool
  indexKind : Kind
  worktreeKind : Kind
deriving DecidableEq

structure RawRecord where
  oldPath : Bytes
  kind : Kind
  oldMode : Bytes
  newMode : Bytes
deriving DecidableEq

structure NumstatRecord where
  additions : Int
  deletions : Int
  binary : Bool
deriving DecidableEq

/-- The sign of a number and what comes after it. -/
def signOf : Bytes → Int × Bytes
  | 43 :: digits => (1, digits)
  | 45 :: digits => (-1, digits)
  | digits => (1, digits)

/-- `strconv.Atoi` -/
def atoi (text : Bytes) : Option Int :=
  let (sign, digits) := signOf text
  if digits ≠ [] ∧ digits.all isDigit then
    let value := sign * (AiConfig.Sesh.Surface.Prose.atoi digits : Int)
    if -2 ^ 63 ≤ value ∧ value < 2 ^ 63 then some value else none
  else none

/-! ## The status -/

def statusKind (value : UInt8) : Kind :=
  if value = 46 ∨ value = 32 then .blank
  else if value = 77 then .modified
  else if value = 65 then .added
  else if value = 68 then .deleted
  else if value = 82 then .renamed
  else if value = 67 then .copied
  else if value = 84 then .typeChanged
  else if value = 85 then .conflicted
  else .unknown

def validXY (x y : UInt8) : Bool := statusKind x ≠ .unknown && statusKind y ≠ .unknown

def entryFromXY (path oldPath : Bytes) (x y : UInt8) (conflicted : Bool) : StatusEntry where
  path := path
  kind :=
    -- A move on either side is told first, then the work tree's change.
    if conflicted then .conflicted
    else if statusKind x = .renamed ∨ statusKind y = .renamed then .renamed
    else if statusKind x = .copied ∨ statusKind y = .copied then .copied
    else if statusKind y ≠ .blank then statusKind y
    else statusKind x
  oldPath := oldPath
  staged := statusKind x ≠ .blank
  unstaged := statusKind y ≠ .blank
  indexKind := statusKind x
  worktreeKind := statusKind y

/-- `# branch.ab`, from its third field on. -/
def aheadBehind (repo : Repository) (record : Bytes) : List Bytes → Except ParseError Repository
  | [43 :: plus, 45 :: minus] =>
    match atoi plus, atoi minus with
    | some ahead, some behind => .ok { repo with ahead := some ahead, behind := some behind }
    | _, _ => .error (.aheadBehind record)
  | _ => .error (.aheadBehind record)

def parseBranchHeader (repo : Repository) (record : Bytes) : Except ParseError Repository :=
  match record.splitOn 32 with
  | hash :: name :: first :: more =>
    let value := [32].intercalate (first :: more)
    -- A record that is none of these is refused.
    if hash ≠ bytes "#" then .error (.branchHeader record)
    else if name = bytes "branch.oid" then .ok
      (if value = bytes "(initial)" then repo else { repo with head := value })
    else if name = bytes "branch.head" then .ok
      (if value = bytes "(detached)" then repo else { repo with branch := value })
    else if name = bytes "branch.upstream" then .ok { repo with upstream := value }
    else if name = bytes "branch.ab" then aheadBehind repo record (first :: more)
    else .error (.branchHeader record)
  | _ => .error (.branchHeader record)

section

variable (publicPath : Bytes → Option Bytes)

/-- `publicPath` of an old path, whose flag nobody reads. -/
def publicOld (path : Bytes) : Bytes := (publicPath path).getD []

def ordinaryRecord (record : Bytes) : Except ParseError (Option StatusEntry) :=
  match splitN 32 9 record with
  | [_, [x, y], _, _, _, _, _, _, path] =>
    if validXY x y then .ok ((publicPath path).map fun path => entryFromXY path [] x y false)
    else .error (.xy [x, y])
  | _ => .error (.ordinary record)

def renameRecord (record old : Bytes) : Except ParseError (Option StatusEntry) :=
  match splitN 32 10 record with
  | [_, [x, y], _, _, _, _, _, _, _, path] =>
    if validXY x y then .ok ((publicPath path).map fun path =>
      entryFromXY path (publicOld publicPath old) x y false)
    else .error (.xy [x, y])
  | _ => .error (.rename record)

def conflictRecord (record : Bytes) : Except ParseError (Option StatusEntry) :=
  match splitN 32 11 record with
  | [_, [x, y], _, _, _, _, _, _, _, _, path] =>
    if validXY x y then .ok ((publicPath path).map fun path => entryFromXY path [] x y true)
    else .error (.xy [x, y])
  | _ => .error (.conflict record)

def untrackedRecord : Bytes → Except ParseError (Option StatusEntry)
  | 63 :: 32 :: path => .ok ((publicPath path).map fun path =>
      ⟨path, .untracked, [], false, true, .blank, .blank⟩)
  | record => .error (.untracked record)

/-- The loop of `parseStatus`, at the records that are left. -/
def statusLoop (repo : Repository) (entries : List StatusEntry) :
    List Bytes → Except ParseError (Repository × List StatusEntry)
  | [] => .ok (repo, entries)
  | [] :: rest => statusLoop repo entries rest
  | (mark :: text) :: rest =>
    -- 35 is '#': a header.  Then '1', '2', 'u', '?' and '!', in the order of the source.
    if mark = 35 then do
      let repo ← parseBranchHeader repo (mark :: text)
      statusLoop repo entries rest
    else if mark = 49 then do
      let entry ← ordinaryRecord publicPath (mark :: text)
      statusLoop repo (entries ++ entry.toList) rest
    else if mark = 50 then
      match rest with
      -- The old path of a rename is the next record.
      | [] => .error (.rename (mark :: text))
      | old :: rest => do
        let entry ← renameRecord publicPath (mark :: text) old
        statusLoop repo (entries ++ entry.toList) rest
    else if mark = 117 then do
      let entry ← conflictRecord publicPath (mark :: text)
      statusLoop repo (entries ++ entry.toList) rest
    else if mark = 63 then do
      let entry ← untrackedRecord publicPath (mark :: text)
      statusLoop repo (entries ++ entry.toList) rest
    else if mark = 33 then statusLoop repo entries rest
    else .error (.record (mark :: text))

def Repository.empty : Repository := ⟨[], [], [], none, none⟩

def parseStatus (output : Bytes) : Except ParseError (Repository × List StatusEntry) :=
  statusLoop publicPath .empty [] (output.splitOn 0)

end

/-! ## The diff -/

/-- How long the white space of `strings.Fields` is at the start of a text: the UTF-8 of what
`unicode.IsSpace` accepts. -/
def spaceWidth : Bytes → Nat
  | [] => 0
  | a :: rest =>
    -- The ASCII white space.
    if 9 ≤ a ∧ a ≤ 13 ∨ a = 32 then 1
    -- U+0085 and U+00A0.
    else if a = 0xC2 then
      match rest with
      | b :: _ => if b = 0x85 ∨ b = 0xA0 then 2 else 0
      | _ => 0
    -- U+1680.
    else if a = 0xE1 then
      match rest with
      | b :: c :: _ => if b = 0x9A ∧ c = 0x80 then 3 else 0
      | _ => 0
    -- U+2000 to U+200A, U+2028, U+2029, U+202F and U+205F.
    else if a = 0xE2 then
      match rest with
      | b :: c :: _ =>
        if b = 0x80 ∧ (0x80 ≤ c ∧ c ≤ 0x8A ∨ c = 0xA8 ∨ c = 0xA9 ∨ c = 0xAF) ∨
            b = 0x81 ∧ c = 0x9F then 3
        else 0
      | _ => 0
    -- U+3000.
    else if a = 0xE3 then
      match rest with
      | b :: c :: _ => if b = 0x80 ∧ c = 0x80 then 3 else 0
      | _ => 0
    else 0

def rawKind (status : UInt8) : Option Kind :=
  if status = 77 then some .modified
  else if status = 65 then some .added
  else if status = 68 then some .deleted
  else if status = 82 then some .renamed
  else if status = 67 then some .copied
  else if status = 84 then some .typeChanged
  else none

/-- What the columns of a raw record say; `moved` is whether two paths follow. -/
structure RawHeader where
  kind : Kind
  moved : Bool
  oldMode : Bytes
  newMode : Bytes

def rawHeader (record : Bytes) : Except ParseError RawHeader :=
  match fields spaceWidth record with
  | [58 :: oldMode, newMode, _, _, status] =>
    match status with
    | [] => .error .emptyRawStatus
    | letter :: _ =>
      match rawKind letter with
      | none => .error (.rawStatus status)
      | some kind => .ok ⟨kind, letter = 82 ∨ letter = 67, oldMode, newMode⟩
  | _ => .error (.raw record)

section

variable (publicPath : Bytes → Option Bytes)

def putRaw (header : RawHeader) (oldRepo newRepo : Bytes) (result : Bytes → Option RawRecord) :
    Bytes → Option RawRecord :=
  match publicPath newRepo with
  | none => result
  | some path =>
    let oldPath := if oldRepo = [] then [] else publicOld publicPath oldRepo
    Function.update result path (some ⟨oldPath, header.kind, header.oldMode, header.newMode⟩)

def rawLoop (result : Bytes → Option RawRecord) : List Bytes → Except ParseError
    (Bytes → Option RawRecord)
  | [] => .ok result
  | [] :: rest => rawLoop result rest
  | (mark :: text) :: rest =>
    match rest with
    | [] => .error (.raw (mark :: text))
    | first :: rest => do
      let header ← rawHeader (mark :: text)
      -- Of a rename or a copy both paths follow.
      if header.moved then
        match rest with
        | [] => .error .rawDestination
        | second :: rest => rawLoop (putRaw publicPath header first second result) rest
      else rawLoop (putRaw publicPath header [] first result) rest

def parseRaw (output : Bytes) : Except ParseError (Bytes → Option RawRecord) :=
  rawLoop publicPath (fun _ => none) (output.splitOn 0)

def putNumstat (record added deleted path : Bytes) (result : Bytes → Option NumstatRecord) :
    Except ParseError (Bytes → Option NumstatRecord) :=
  match publicPath path with
  | none => .ok result
  | some inRoot =>
    -- A binary file has no counts.
    if added = bytes "-" ∧ deleted = bytes "-" then
      .ok (Function.update result inRoot (some ⟨0, 0, true⟩))
    else match atoi added, atoi deleted with
      | some additions, some deletions =>
          .ok (Function.update result inRoot (some ⟨additions, deletions, false⟩))
      | _, _ => .error (.numstatCounts record)

def numstatLoop (result : Bytes → Option NumstatRecord) : List Bytes → Except ParseError
    (Bytes → Option NumstatRecord)
  | [] => .ok result
  | [] :: rest => numstatLoop result rest
  | (mark :: text) :: rest =>
    match splitN 9 3 (mark :: text) with
    | [added, deleted, path] =>
      -- An empty path says that the old and the new one follow.
      if path = [] then
        match rest with
        | _ :: new :: rest => do
          let result ← putNumstat publicPath new added deleted new result
          numstatLoop result rest
        | _ => .error .numstatPaths
      else do
        let result ← putNumstat publicPath (mark :: text) added deleted path result
        numstatLoop result rest
    | _ => .error (.numstat (mark :: text))

def parseNumstat (output : Bytes) : Except ParseError (Bytes → Option NumstatRecord) :=
  numstatLoop publicPath (fun _ => none) (output.splitOn 0)

end

end AiConfig.Herder.Git
