import AiConfig.Herder.Git.Output

/-! # Git's output is decoded exactly

What git can print, as `git status --porcelain=v2 -z --branch` and `git diff --raw -z` and
`--numstat -z` document it, and how it is written: every line is one, two or three parts, each ended
by a NUL.

* `StatusLine`, `RawChange`, `NumstatChange` — the lines, their parts and what they tell.
* `decoded_iff` — when the parsers return what the lines tell. -/

namespace AiConfig.Herder.Git

open AiConfig.Lib
open AiConfig.Sesh.Surface.Prose (bytes itoa isDigit)

/-! ## What git prints -/

/-- A path as git prints it under `-z`. -/
structure Path where
  text : Bytes
  nonempty : text ≠ []
  clean : 0 ∉ text

/-- A value of a header. -/
structure Value where
  text : Bytes
  clean : 0 ∉ text

/-- One column: a mode, a hash, a submodule state or a score. -/
structure Column where
  text : Bytes
  clean : 0 ∉ text
  whole : 32 ∉ text

/-- The letters of an XY status. -/
inductive Letter where
  | unchanged
  | modified
  | added
  | deleted
  | renamed
  | copied
  | typeChanged
  | unmerged

def Letter.byte : Letter → UInt8
  | .unchanged => 46
  | .modified => 77
  | .added => 65
  | .deleted => 68
  | .renamed => 82
  | .copied => 67
  | .typeChanged => 84
  | .unmerged => 85

def Letter.kind : Letter → Kind
  | .unchanged => .blank
  | .modified => .modified
  | .added => .added
  | .deleted => .deleted
  | .renamed => .renamed
  | .copied => .copied
  | .typeChanged => .typeChanged
  | .unmerged => .conflicted

inductive Header where
  /-- `# branch.oid <commit> | (initial)` -/
  | oid (commit : Value)
  /-- `# branch.head <branch> | (detached)` -/
  | head (branch : Value)
  /-- `# branch.upstream <upstream-branch>` -/
  | upstream (branch : Value)
  /-- `# branch.ab +<ahead> -<behind>` -/
  | ab (ahead behind : Nat)
  /-- `# stash <N>` -/
  | stash (count : Nat)

inductive StatusLine where
  | header (own : Header)
  /-- `1 <XY> <sub> <mH> <mI> <mW> <hH> <hI> <path>` -/
  | ordinary (x y : Letter) (sub mH mI mW hH hI : Column) (path : Path)
  /-- `2 <XY> <sub> <mH> <mI> <mW> <hH> <hI> <X><score> <path><sep><origPath>` -/
  | moved (x y : Letter) (sub mH mI mW hH hI score : Column) (path origPath : Path)
  /-- `u <XY> <sub> <m1> <m2> <m3> <mW> <h1> <h2> <h3> <path>` -/
  | unmerged (x y : Letter) (sub m1 m2 m3 mW h1 h2 h3 : Column) (path : Path)
  | untracked (path : Path)
  | ignored (path : Path)

/-! ## How it is written -/

def Header.text : Header → Bytes
  | .oid commit => terminated 32 [bytes "#", bytes "branch.oid"] ++ commit.text
  | .head branch => terminated 32 [bytes "#", bytes "branch.head"] ++ branch.text
  | .upstream branch => terminated 32 [bytes "#", bytes "branch.upstream"] ++ branch.text
  | .ab ahead behind => terminated 32 [bytes "#", bytes "branch.ab"] ++
      (43 :: itoa ahead ++ 32 :: 45 :: itoa behind)
  | .stash count => terminated 32 [bytes "#", bytes "stash"] ++ itoa count

def StatusLine.parts : StatusLine → List Bytes
  | .header own => [own.text]
  | .ordinary x y sub mH mI mW hH hI path =>
    [terminated 32 [bytes "1", [x.byte, y.byte], sub.text, mH.text, mI.text, mW.text, hH.text,
      hI.text] ++ path.text]
  | .moved x y sub mH mI mW hH hI score path origPath =>
    [terminated 32 [bytes "2", [x.byte, y.byte], sub.text, mH.text, mI.text, mW.text, hH.text,
      hI.text, score.text] ++
      path.text, origPath.text]
  | .unmerged x y sub m1 m2 m3 mW h1 h2 h3 path =>
    [terminated 32 [bytes "u", [x.byte, y.byte], sub.text, m1.text, m2.text, m3.text, mW.text,
      h1.text, h2.text, h3.text] ++
      path.text]
  | .untracked path => [63 :: 32 :: path.text]
  | .ignored path => [33 :: 32 :: path.text]

/-- The porcelain v2 output under `-z`. -/
def statusOutput (lines : List StatusLine) : Bytes := terminated 0 (lines.flatMap StatusLine.parts)

/-! ## What it tells -/

def Header.tell (repo : Repository) : Header → Repository
  | .oid commit =>
    if commit.text = bytes "(initial)" then repo else { repo with head := commit.text }
  | .head branch =>
    if branch.text = bytes "(detached)" then repo else { repo with branch := branch.text }
  | .upstream branch => { repo with upstream := branch.text }
  | .ab ahead behind => { repo with ahead := some ahead, behind := some behind }
  | .stash _ => repo

def StatusLine.tell (repo : Repository) : StatusLine → Repository
  | .header own => own.tell repo
  | _ => repo

/-- A change is renamed or copied when either side is, and else as the worktree has it, or the
index. -/
def changedKind (x y : Letter) : Kind :=
  match x, y with
  | .renamed, _ => .renamed
  | _, .renamed => .renamed
  | .copied, _ => .copied
  | _, .copied => .copied
  | x, .unchanged => x.kind
  | _, y => y.kind

def entryOf (path oldPath : Bytes) (kind : Kind) (x y : Letter) : StatusEntry :=
  ⟨path, kind, oldPath, x.kind ≠ .blank, y.kind ≠ .blank, x.kind, y.kind⟩

/-- The entry of a change whose new path is in the root; what is ignored is no change. -/
def StatusLine.entry (publicPath : Bytes → Option Bytes) : StatusLine → Option StatusEntry
  | .header _ => none
  | .ordinary x y _ _ _ _ _ _ path => (publicPath path.text).map fun path =>
      entryOf path [] (changedKind x y) x y
  | .moved x y _ _ _ _ _ _ _ path origPath =>
    (publicPath path.text).map fun path =>
      entryOf path ((publicPath origPath.text).getD []) (changedKind x y) x y
  | .unmerged x y _ _ _ _ _ _ _ _ path => (publicPath path.text).map fun path =>
      entryOf path [] .conflicted x y
  | .untracked path => (publicPath path.text).map fun path =>
      ⟨path, .untracked, [], false, true, .blank, .blank⟩
  | .ignored _ => none

/-- What the status tells of the repository and of the root. -/
def statusTold (publicPath : Bytes → Option Bytes) (lines : List StatusLine) :
    Repository × List StatusEntry :=
  (lines.foldl StatusLine.tell .empty, lines.filterMap (StatusLine.entry publicPath))

/-- A number that `int` holds. -/
def fits (n : Nat) : Prop := n < 2 ^ 63

/-- A line that the status parser knows. -/
def StatusLine.Known : StatusLine → Prop
  | .header (.stash _) => False
  | .header (.ab ahead behind) => fits ahead ∧ fits behind
  | _ => True

/-! ## What a diff prints -/

/-- A byte of a mode, a hash or a score. -/
def visible (b : UInt8) : Prop := 33 ≤ b ∧ b ≤ 126

instance : DecidablePred visible := fun b => inferInstanceAs (Decidable (33 ≤ b ∧ b ≤ 126))

structure Word where
  text : Bytes
  nonempty : text ≠ []
  shown : ∀ b ∈ text, visible b

structure Score where
  text : Bytes
  shown : ∀ b ∈ text, visible b

/-- The letters of a raw record with one path. -/
inductive RawStatus where
  | modified
  | added
  | deleted
  | typeChanged
  | unmerged

def RawStatus.byte : RawStatus → UInt8
  | .modified => 77
  | .added => 65
  | .deleted => 68
  | .typeChanged => 84
  | .unmerged => 85

def RawStatus.kind : RawStatus → Kind
  | .modified => .modified
  | .added => .added
  | .deleted => .deleted
  | .typeChanged => .typeChanged
  | .unmerged => .conflicted

/-- `:<mode> <mode> <hash> <hash> <status>[score]` and the path, or the two paths of a rename or a
copy. -/
inductive RawChange where
  | one (oldMode newMode oldHash newHash : Word) (status : RawStatus) (score : Score) (path : Path)
  | moved (copy : Bool) (oldMode newMode oldHash newHash : Word) (score : Score)
      (oldPath path : Path)

def RawChange.path : RawChange → Path
  | .one _ _ _ _ _ _ path => path
  | .moved _ _ _ _ _ _ _ path => path

def rawColumns (oldMode newMode oldHash newHash : Word) (letter : UInt8) (score : Score) : Bytes :=
  [32].intercalate [58 :: oldMode.text, newMode.text, oldHash.text, newHash.text,
    letter :: score.text]

def RawChange.parts : RawChange → List Bytes
  | .one oldMode newMode oldHash newHash status score path =>
    [rawColumns oldMode newMode oldHash newHash status.byte score, path.text]
  | .moved copy oldMode newMode oldHash newHash score oldPath path =>
    [rawColumns oldMode newMode oldHash newHash (if copy then 67 else 82) score, oldPath.text,
      path.text]

def rawOutput (changes : List RawChange) : Bytes := terminated 0 (changes.flatMap RawChange.parts)

def RawChange.record (publicPath : Bytes → Option Bytes) : RawChange → RawRecord
  | .one oldMode newMode _ _ status _ _ => ⟨[], status.kind, oldMode.text, newMode.text⟩
  | .moved copy oldMode newMode _ _ _ oldPath _ =>
    ⟨(publicPath oldPath.text).getD [], if copy then .copied else .renamed, oldMode.text,
      newMode.text⟩

/-- What a list of changes tells of each path of the root: what the last change of it tells. -/
def told {C R : Type} (publicPath : Bytes → Option Bytes) (path : C → Path) (record : C → R)
    (changes : List C) :
    Bytes → Option R :=
  fun name => (changes.reverse.find? fun change => publicPath (path change).text = some name).map
    record

/-- A raw change that the parser knows. -/
def RawChange.Known : RawChange → Prop
  | .one _ _ _ _ .unmerged _ _ => False
  | _ => True

/-- `counts` are the added and the deleted lines, which a binary file has not. -/
structure NumstatChange where
  counts : Option (Nat × Nat)
  /-- The old path of a rename or a copy. -/
  oldPath : Option Path
  path : Path

def countColumns : Option (Nat × Nat) → List Bytes
  | none => [bytes "-", bytes "-"]
  | some (added, deleted) => [itoa added, itoa deleted]

def NumstatChange.parts (change : NumstatChange) : List Bytes :=
  match change.oldPath with
  | none => [terminated 9 (countColumns change.counts) ++ change.path.text]
  | some old => [terminated 9 (countColumns change.counts), old.text, change.path.text]

def numstatOutput (changes : List NumstatChange) : Bytes :=
  terminated 0 (changes.flatMap NumstatChange.parts)

def NumstatChange.record (change : NumstatChange) : NumstatRecord :=
  match change.counts with
  | none => ⟨0, 0, true⟩
  | some (added, deleted) => ⟨added, deleted, false⟩

/-- The counts of a change in the root fit an `int`. -/
def NumstatChange.Known (publicPath : Bytes → Option Bytes) (change : NumstatChange) : Prop :=
  ∀ counts, change.counts = some counts → (publicPath change.path.text).isSome → fits counts.1 ∧
    fits counts.2

/-! ## Fields that are read back -/

section

variable (publicPath : Bytes → Option Bytes)

theorem itoa_clean (n : Nat) : 32 ∉ itoa n ∧ 9 ∉ itoa n ∧ 0 ∉ itoa n := by
  have digits := (AiConfig.Sesh.Surface.Prose.itoa_digits n).2
  exact ⟨fun on => absurd (digits 32 on) (by decide), fun on => absurd (digits 9 on) (by decide),
    fun on => absurd (digits 0 on) (by decide)⟩

theorem atoi_itoa (n : Nat) [Decidable (fits n)] : atoi (itoa n) = if fits n then some
    (n : Int) else none := by
  obtain ⟨some_, digits⟩ := AiConfig.Sesh.Surface.Prose.itoa_digits n
  have unsigned : signOf (itoa n) = (1, itoa n) := by
    unfold signOf
    split
    · next rest same => exact absurd (digits 43 (by simp [same])) (by decide)
    · next rest same => exact absurd (digits 45 (by simp [same])) (by decide)
    · rfl
  have all : (itoa n).all isDigit = true := List.all_eq_true.mpr digits
  unfold atoi
  rw [unsigned]
  simp only [ne_eq, some_, not_false_eq_true, all, and_self, if_true,
    AiConfig.Sesh.Surface.Prose.atoi_itoa, one_mul]
  by_cases small : fits n
  · rw [if_pos small, if_pos]
    unfold fits at small
    omega
  · rw [if_neg small, if_neg]
    unfold fits at small
    omega

@[simp] theorem statusKind_byte (letter : Letter) : statusKind letter.byte = letter.kind := by
  cases letter <;> rfl

theorem validXY_bytes (x y : Letter) : validXY x.byte y.byte = true := by
  cases x <;> cases y <;> rfl

theorem entryFromXY_changed (path oldPath : Bytes) (x y : Letter) :
    entryFromXY path oldPath x.byte y.byte false = entryOf path oldPath (changedKind x y) x y := by
  cases x <;> cases y <;> rfl

theorem entryFromXY_conflicted (path oldPath : Bytes) (x y : Letter) :
    entryFromXY path oldPath x.byte y.byte true = entryOf path oldPath .conflicted x y := by
  simp [entryFromXY, entryOf]

theorem Letter.byte_ne (letter : Letter) : 32 ≠ letter.byte ∧ 0 ≠ letter.byte := by
  cases letter <;> decide

/-- The fields of a header. -/
theorem header_fields {name : Bytes} (whole : 32 ∉ name) (value : Bytes) :
    ∃ first more, (terminated 32 [bytes "#", name] ++ value).splitOn 32 =
      bytes "#" :: name :: first :: more ∧
      value.splitOn 32 = first :: more := by
  cases fields : value.splitOn 32 with
  | nil => exact absurd fields (List.splitOn_ne_nil 32 value)
  | cons first more =>
    refine ⟨first, more, ?_, rfl⟩
    have own : (32 : UInt8) ∉ bytes "#" := by decide
    rw [terminated_cons, terminated_cons, terminated_nil, List.append_assoc, List.cons_append,
      List.append_assoc,
      List.cons_append, List.nil_append, List.splitOn_append_cons_self_of_not_mem own,
      List.splitOn_append_cons_self_of_not_mem whole, fields]

theorem ab_fields (ahead behind : Nat) :
    (43 :: itoa ahead ++ 32 :: 45 :: itoa behind).splitOn 32 =
    [43 :: itoa ahead, 45 :: itoa behind] := by
  have left : (32 : UInt8) ∉ 43 :: itoa ahead := by simp [(itoa_clean ahead).1]
  have right : (32 : UInt8) ∉ 45 :: itoa behind := by simp [(itoa_clean behind).1]
  rw [List.splitOn_append_cons_self_of_not_mem left, List.splitOn_eq_singleton right]

theorem parseBranchHeader_known (repo : Repository) {header : Header}
    (known : StatusLine.Known (.header header)) :
    parseBranchHeader repo header.text = .ok (header.tell repo) := by
  cases header with
  | oid commit =>
    obtain ⟨first, more, cut, value⟩ :=
      header_fields (show 32 ∉ bytes "branch.oid" by decide) commit.text
    rw [Header.text, parseBranchHeader, cut]
    simp only [← value, List.intercalate_splitOn]
    rfl
  | head branch =>
    obtain ⟨first, more, cut, value⟩ :=
      header_fields (show 32 ∉ bytes "branch.head" by decide) branch.text
    rw [Header.text, parseBranchHeader, cut]
    simp only [← value, List.intercalate_splitOn]
    rfl
  | upstream branch =>
    obtain ⟨first, more, cut, value⟩ :=
      header_fields (show 32 ∉ bytes "branch.upstream" by decide) branch.text
    rw [Header.text, parseBranchHeader, cut]
    simp only [← value, List.intercalate_splitOn]
    rfl
  | ab ahead behind =>
    obtain ⟨first, more, cut, value⟩ := header_fields (show 32 ∉ bytes "branch.ab" by decide)
      (43 :: itoa ahead ++ 32 :: 45 :: itoa behind)
    rw [ab_fields] at value
    obtain ⟨rfl, rfl⟩ := List.cons.inj value
    rw [Header.text, parseBranchHeader, cut]
    show aheadBehind repo _ [43 :: itoa ahead, 45 :: itoa behind] = _
    classical
    simp only [aheadBehind, atoi_itoa, if_pos known.1, if_pos known.2]
    rfl
  | stash count => exact known.elim

theorem parseBranchHeader_unknown (repo : Repository) {header : Header}
    (unknown : ¬StatusLine.Known (.header header)) :
    ∃ e, parseBranchHeader repo header.text = .error e := by
  cases header with
  | ab ahead behind =>
    obtain ⟨first, more, cut, value⟩ := header_fields (show 32 ∉ bytes "branch.ab" by decide)
      (43 :: itoa ahead ++ 32 :: 45 :: itoa behind)
    rw [ab_fields] at value
    obtain ⟨rfl, rfl⟩ := List.cons.inj value
    rw [Header.text, parseBranchHeader, cut]
    refine ⟨.aheadBehind (terminated 32 [bytes "#", bytes "branch.ab"] ++
      (43 :: itoa ahead ++ 32 :: 45 :: itoa behind)), ?_⟩
    show aheadBehind repo _ [43 :: itoa ahead, 45 :: itoa behind] = _
    classical
    have some_ : ¬(fits ahead ∧ fits behind) := unknown
    simp only [aheadBehind, atoi_itoa]
    by_cases small : fits ahead
    · simp [small, show ¬fits behind from fun large => some_ ⟨small, large⟩]
    · simp [small]
  | stash count =>
    obtain ⟨first, more, cut, -⟩ := header_fields (show 32 ∉ bytes "stash" by decide) (itoa count)
    rw [Header.text, parseBranchHeader, cut]
    exact ⟨_, rfl⟩
  | _ => exact absurd trivial unknown

/-- The columns of a record and its path, which may hold blanks. -/
theorem columns_cut {parts : List Bytes} {n : Nat} (count : parts.length + 1 = n)
    (whole : ∀ part ∈ parts, 32 ∉ part)
    (path : Bytes) : splitN 32 n (terminated 32 parts ++ path) = parts ++ [path] :=
  count ▸ splitN_terminated whole path

theorem ordinaryRecord_written (x y : Letter) (sub mH mI mW hH hI : Column) (path : Bytes) :
    ordinaryRecord publicPath
        (terminated 32 [bytes "1", [x.byte, y.byte], sub.text, mH.text, mI.text, mW.text, hH.text,
        hI.text] ++ path) =
      .ok ((publicPath path).map fun path => entryOf path [] (changedKind x y) x y) := by
  have mark : (32 : UInt8) ∉ bytes "1" := by decide
  rw [ordinaryRecord, columns_cut]
  · show (if validXY x.byte y.byte then _ else _) = _
    simp only [validXY_bytes, if_true, entryFromXY_changed]
  · rfl
  · simp [mark, x.byte_ne.1, y.byte_ne.1, sub.whole, mH.whole, mI.whole, mW.whole, hH.whole,
      hI.whole]

theorem renameRecord_written (x y : Letter) (sub mH mI mW hH hI score : Column) (path old : Bytes) :
    renameRecord publicPath
        (terminated 32 [bytes "2", [x.byte, y.byte], sub.text, mH.text, mI.text, mW.text, hH.text,
        hI.text, score.text] ++
          path) old =
      .ok ((publicPath path).map fun path =>
        entryOf path ((publicPath old).getD []) (changedKind x y) x y) := by
  have mark : (32 : UInt8) ∉ bytes "2" := by decide
  rw [renameRecord, columns_cut]
  · show (if validXY x.byte y.byte then _ else _) = _
    simp only [validXY_bytes, if_true, entryFromXY_changed, publicOld]
  · rfl
  · simp [mark, x.byte_ne.1, y.byte_ne.1, sub.whole, mH.whole, mI.whole, mW.whole, hH.whole,
      hI.whole, score.whole]

theorem conflictRecord_written (x y : Letter) (sub m1 m2 m3 mW h1 h2 h3 : Column) (path : Bytes) :
    conflictRecord publicPath
        (terminated 32
          [bytes "u", [x.byte, y.byte], sub.text, m1.text, m2.text, m3.text, mW.text, h1.text,
          h2.text, h3.text] ++ path) =
      .ok ((publicPath path).map fun path => entryOf path [] .conflicted x y) := by
  have mark : (32 : UInt8) ∉ bytes "u" := by decide
  rw [conflictRecord, columns_cut]
  · show (if validXY x.byte y.byte then _ else _) = _
    simp only [validXY_bytes, if_true, entryFromXY_conflicted]
  · rfl
  · simp [mark, x.byte_ne.1, y.byte_ne.1, sub.whole, m1.whole, m2.whole, m3.whole, mW.whole,
      h1.whole, h2.whole, h3.whole]

/-! ## The status -/

theorem statusLoop_header (repo : Repository) (entries : List StatusEntry) (own : Header)
    (rest : List Bytes) :
    statusLoop publicPath repo entries (own.text :: rest) =
      (parseBranchHeader repo own.text).bind fun repo =>
      statusLoop publicPath repo entries rest := by
  obtain ⟨text, written⟩ : ∃ text, own.text = 35 :: text := by cases own <;> exact ⟨_, rfl⟩
  rw [written, statusLoop.eq_def]
  rfl

theorem statusLoop_known (repo : Repository) (entries : List StatusEntry) {line : StatusLine}
    (known : line.Known)
    (rest : List Bytes) :
    statusLoop publicPath repo entries (line.parts ++ rest) =
      statusLoop publicPath (line.tell repo) (entries ++ (line.entry publicPath).toList) rest := by
  cases line with
  | header own =>
    show statusLoop publicPath repo entries (own.text :: rest) = _
    rw [statusLoop_header, parseBranchHeader_known repo known]
    show statusLoop publicPath (own.tell repo) entries rest =
      statusLoop publicPath (own.tell repo) (entries ++ []) rest
    rw [List.append_nil]
  | ordinary x y sub mH mI mW hH hI path =>
    have parsed := ordinaryRecord_written publicPath x y sub mH mI mW hH hI path.text
    obtain ⟨text, written⟩ :
      ∃ text, terminated 32 [bytes "1", [x.byte, y.byte], sub.text, mH.text, mI.text, mW.text,
        hH.text, hI.text] ++ path.text = 49 :: text := ⟨_, rfl⟩
    rw [StatusLine.parts, List.singleton_append, written, statusLoop.eq_def]
    rw [written] at parsed
    show (ordinaryRecord publicPath (49 :: text)).bind _ = _
    rw [parsed]
    rfl
  | moved x y sub mH mI mW hH hI score path origPath =>
    have parsed :=
      renameRecord_written publicPath x y sub mH mI mW hH hI score path.text origPath.text
    obtain ⟨text, written⟩ :
      ∃ text, terminated 32 [bytes "2", [x.byte, y.byte], sub.text, mH.text, mI.text, mW.text,
        hH.text, hI.text, score.text] ++ path.text = 50 :: text := ⟨_, rfl⟩
    rw [StatusLine.parts, List.cons_append, List.singleton_append, written, statusLoop.eq_def]
    rw [written] at parsed
    show (renameRecord publicPath (50 :: text) origPath.text).bind _ = _
    rw [parsed]
    rfl
  | unmerged x y sub m1 m2 m3 mW h1 h2 h3 path =>
    have parsed := conflictRecord_written publicPath x y sub m1 m2 m3 mW h1 h2 h3 path.text
    obtain ⟨text, written⟩ :
      ∃ text, terminated 32 [bytes "u", [x.byte, y.byte], sub.text, m1.text, m2.text, m3.text,
        mW.text, h1.text, h2.text, h3.text] ++ path.text = 117 :: text := ⟨_, rfl⟩
    rw [StatusLine.parts, List.singleton_append, written, statusLoop.eq_def]
    rw [written] at parsed
    show (conflictRecord publicPath (117 :: text)).bind _ = _
    rw [parsed]
    rfl
  | untracked path =>
    rw [statusLoop.eq_def]
    rfl
  | ignored path =>
    rw [statusLoop.eq_def]
    show statusLoop publicPath repo entries rest = statusLoop publicPath repo (entries ++ []) rest
    rw [List.append_nil]

theorem statusLoop_unknown (repo : Repository) (entries : List StatusEntry) {line : StatusLine}
    (unknown : ¬line.Known)
    (rest : List Bytes) :
    ∃ e, statusLoop publicPath repo entries (line.parts ++ rest) = .error e := by
  cases line with
  | header own =>
    obtain ⟨e, refused⟩ := parseBranchHeader_unknown repo unknown
    refine ⟨e, ?_⟩
    show statusLoop publicPath repo entries (own.text :: rest) = _
    rw [statusLoop_header, refused]
    rfl
  | _ => exact absurd trivial unknown

theorem statusLoop_lines (repo : Repository) (entries : List StatusEntry)
    (lines : List StatusLine) :
    ((∀ line ∈ lines, line.Known) →
      statusLoop publicPath repo entries (lines.flatMap StatusLine.parts ++ [[]]) =
        .ok (lines.foldl StatusLine.tell repo,
          entries ++ lines.filterMap (StatusLine.entry publicPath))) ∧
    ((¬∀ line ∈ lines, line.Known) →
      ∃ e, statusLoop publicPath repo entries (lines.flatMap StatusLine.parts ++ [[]]) =
        .error e) := by
  induction lines generalizing repo entries with
  | nil => exact ⟨fun _ => by simp [statusLoop], by simp⟩
  | cons line lines inductionHypothesis =>
    rw [List.flatMap_cons, List.append_assoc]
    by_cases known : line.Known
    · rw [statusLoop_known publicPath repo entries known]
      obtain ⟨told, refused⟩ :=
        inductionHypothesis (line.tell repo) (entries ++ (line.entry publicPath).toList)
      constructor
      · intro all
        rw [told fun other inside => all other (List.mem_cons_of_mem _ inside), List.foldl_cons,
          List.append_assoc]
        cases own : line.entry publicPath with
        | none => simp [own]
        | some entry => simp [own]
      · intro some_
        exact refused fun all => some_ (List.forall_mem_cons.mpr ⟨known, all⟩)
    · refine ⟨fun all => absurd (all line List.mem_cons_self) known, fun _ => ?_⟩
      exact statusLoop_unknown publicPath repo entries known _

theorem Header.clean (own : Header) : 0 ∉ own.text := by
  have names : (0 : UInt8) ∉ bytes "#" ∧ 0 ∉ bytes "branch.oid" ∧ 0 ∉ bytes "branch.head" ∧
      0 ∉ bytes "branch.upstream" ∧ 0 ∉ bytes "branch.ab" ∧ 0 ∉ bytes "stash" := by decide
  cases own with
  | oid commit => simp [Header.text, names, commit.clean]
  | head branch => simp [Header.text, names, branch.clean]
  | upstream branch => simp [Header.text, names, branch.clean]
  | ab ahead behind => simp [Header.text, names, (itoa_clean ahead).2.2, (itoa_clean behind).2.2]
  | stash count => simp [Header.text, names, (itoa_clean count).2.2]

theorem parts_clean (line : StatusLine) : ∀ part ∈ line.parts, 0 ∉ part := by
  have marks : (0 : UInt8) ∉ bytes "1" ∧ 0 ∉ bytes "2" ∧ 0 ∉ bytes "u" := by decide
  cases line with
  | header own => simp [StatusLine.parts, own.clean]
  | ordinary x y sub mH mI mW hH hI path =>
    simp [StatusLine.parts, marks, x.byte_ne.2, y.byte_ne.2, sub.clean, mH.clean, mI.clean,
      mW.clean, hH.clean, hI.clean,
      path.clean]
  | moved x y sub mH mI mW hH hI score path origPath =>
    simp [StatusLine.parts, marks, x.byte_ne.2, y.byte_ne.2, sub.clean, mH.clean, mI.clean,
      mW.clean, hH.clean, hI.clean,
      score.clean, path.clean, origPath.clean]
  | unmerged x y sub m1 m2 m3 mW h1 h2 h3 path =>
    simp [StatusLine.parts, marks, x.byte_ne.2, y.byte_ne.2, sub.clean, m1.clean, m2.clean,
      m3.clean, mW.clean, h1.clean,
      h2.clean, h3.clean, path.clean]
  | untracked path => simp [StatusLine.parts, path.clean]
  | ignored path => simp [StatusLine.parts, path.clean]

theorem status_decoded (lines : List StatusLine) :
    parseStatus publicPath (statusOutput lines) = .ok (statusTold publicPath lines) ↔
      ∀ line ∈ lines, line.Known := by
  have cut : (statusOutput lines).splitOn 0 = lines.flatMap StatusLine.parts ++ [[]] :=
    splitOn_terminated fun part inside => by
      obtain ⟨line, -, own⟩ := List.mem_flatMap.mp inside
      exact parts_clean line part own
  rw [parseStatus, cut]
  obtain ⟨told, refused⟩ := statusLoop_lines publicPath .empty [] lines
  constructor
  · intro decoded
    by_contra unknown
    obtain ⟨e, error⟩ := refused unknown
    rw [error] at decoded
    cases decoded
  · intro known
    rw [told known]
    rfl

/-! ## Records by path -/

theorem told_cons {C R : Type} (path : C → Path) (record : C → R) (change : C) (changes : List C)
    (name : Bytes) :
    told publicPath path record (change :: changes) name =
      (told publicPath path record changes name).or
        (if publicPath (path change).text = some name then some (record change) else none) := by
  rw [told, told, List.reverse_cons, List.find?_append]
  cases changes.reverse.find? fun change => publicPath (path change).text = some name with
  | some last => rfl
  | none => by_cases here : publicPath (path change).text = some name <;> simp [here]

/-- A loop that puts the record of each known change where its path is in the root, and refuses the
others. -/
theorem loop_told {C R : Type}
    {loop : (Bytes → Option R) → List Bytes → Except ParseError (Bytes → Option R)}
    {parts : C → List Bytes} {path : C → Path} {record : C → R} {Known : C → Prop}
    (ends : ∀ result, loop result [[]] = .ok result)
    (known : ∀ result change, Known change → ∀ rest, ∃ result', (∀ name, result' name =
      if publicPath (path change).text = some name then some (record change) else result name) ∧
        loop result (parts change ++ rest) = loop result' rest)
    (unknown : ∀ result change, ¬Known change →
    ∀ rest, ∃ e, loop result (parts change ++ rest) = .error e)
    (changes : List C) : loop (fun _ => none) (changes.flatMap parts ++ [[]]) =
    .ok (told publicPath path record changes) ↔
      ∀ change ∈ changes, Known change := by
  have run (result : Bytes → Option R) : ((∀ change ∈ changes, Known change) →
      ∃ final, (∀ name, final name = (told publicPath path record changes name).or (result name)) ∧
        loop result (changes.flatMap parts ++ [[]]) = .ok final) ∧
      ((¬∀ change ∈ changes, Known change) →
          ∃ e, loop result (changes.flatMap parts ++ [[]]) = .error e) := by
    induction changes generalizing result with
    | nil => exact ⟨fun _ => ⟨result, fun _ => rfl, ends result⟩, by simp⟩
    | cons change changes inductionHypothesis =>
      rw [List.flatMap_cons, List.append_assoc]
      by_cases here : Known change
      · obtain ⟨result', put, goes⟩ := known result change here (changes.flatMap parts ++ [[]])
        rw [goes]
        obtain ⟨decoded, refused⟩ := inductionHypothesis result'
        constructor
        · intro all
          obtain ⟨final, tells, done⟩ :=
            decoded fun other inside => all other (List.mem_cons_of_mem _ inside)
          refine ⟨final, fun name => ?_, done⟩
          rw [tells, put, told_cons, Option.or_assoc]
          split <;> simp
        · exact fun some_ => refused fun all => some_ (List.forall_mem_cons.mpr ⟨here, all⟩)
      · exact ⟨fun all => absurd (all change List.mem_cons_self) here, fun _ =>
          unknown result change here _⟩
  obtain ⟨decoded, refused⟩ := run fun _ => none
  constructor
  · intro same
    by_contra some_
    obtain ⟨e, error⟩ := refused some_
    rw [same] at error
    cases error
  · intro all
    obtain ⟨final, tells, done⟩ := decoded all
    rw [done]
    exact congrArg Except.ok (funext fun name => by rw [tells, Option.or_none])

/-! ## The raw diff -/

theorem space_visible {b : UInt8} (shown : visible b) (rest : Bytes) :
    spaceWidth (b :: rest) = 0 := by
  have low : ¬(9 ≤ b ∧ b ≤ 13 ∨ b = 32) := by
    rintro (⟨-, high⟩ | rfl)
    · exact absurd (UInt8.le_trans shown.1 high) (by decide)
    · exact absurd shown.1 (by decide)
  have lead {c : UInt8} (large : ¬c ≤ 126) : b ≠ c := fun same => large (same ▸ shown.2)
  rw [spaceWidth.eq_def]
  show (if _ then _ else _) = 0
  rw [if_neg low, if_neg (lead (by decide)), if_neg (lead (by decide)), if_neg (lead (by decide)),
    if_neg (lead (by decide))]

theorem rawHeader_written (oldMode newMode oldHash newHash : Word) {letter : UInt8}
    (seen : visible letter) (score : Score) :
    rawHeader (rawColumns oldMode newMode oldHash newHash letter score) =
      match rawKind letter with
      | none => .error (.rawStatus (letter :: score.text))
      | some kind => .ok ⟨kind, letter = 82 ∨ letter = 67, oldMode.text, newMode.text⟩ := by
  have cut : fields spaceWidth (rawColumns oldMode newMode oldHash newHash letter score) =
      [58 :: oldMode.text, newMode.text, oldHash.text, newHash.text, letter :: score.text] := by
    refine fields_intercalate (fun rest => rfl) fun word inside => ?_
    have plain (word : Word) : word.text ≠ [] ∧ ∀ a ∈ word.text, ∀ rest,
        spaceWidth (a :: rest) = 0 :=
      ⟨word.nonempty, fun a on => space_visible (word.shown a on)⟩
    simp only [List.mem_cons, List.not_mem_nil, or_false] at inside
    obtain rfl | rfl | rfl | rfl | rfl := inside
    · refine ⟨List.cons_ne_nil _ _, fun a on => space_visible ?_⟩
      obtain rfl | on := List.mem_cons.mp on
      · exact ⟨by decide, by decide⟩
      · exact oldMode.shown a on
    · exact plain newMode
    · exact plain oldHash
    · exact plain newHash
    · refine ⟨List.cons_ne_nil _ _, fun a on => space_visible ?_⟩
      obtain rfl | on := List.mem_cons.mp on
      · exact seen
      · exact score.shown a on
  rw [rawHeader, cut]
  show (match rawKind letter with
    | none => Except.error (ParseError.rawStatus (letter :: score.text))
    | some kind =>
        Except.ok (RawHeader.mk kind (letter = 82 ∨ letter = 67) oldMode.text newMode.text)) = _
  cases rawKind letter <;> rfl

theorem putRaw_told (header : RawHeader) (oldRepo : Bytes) (path : Path)
    (result : Bytes → Option RawRecord) (name : Bytes) :
    putRaw publicPath header oldRepo path.text result name =
      if publicPath path.text = some name then
        some ⟨if oldRepo = [] then [] else publicOld publicPath oldRepo, header.kind,
          header.oldMode, header.newMode⟩
      else result name := by
  unfold putRaw
  cases publicPath path.text with
  | none => simp
  | some inRoot =>
    by_cases same : inRoot = name
    · subst same
      simp
    · simp [same, Function.update_of_ne (Ne.symm same)]

theorem rawColumns_cons (oldMode newMode oldHash newHash : Word) (letter : UInt8) (score : Score) :
    ∃ text, rawColumns oldMode newMode oldHash newHash letter score = 58 :: text := ⟨_, rfl⟩

theorem RawStatus.visible_byte (status : RawStatus) : visible status.byte := by
  cases status <;> decide

theorem rawLoop_record (result : Bytes → Option RawRecord) (text first : Bytes)
    (rest : List Bytes) :
    rawLoop publicPath result ((58 :: text) :: first :: rest) =
      (rawHeader (58 :: text)).bind fun header =>
      if header.moved then
        match rest with
        | [] => .error .rawDestination
        | second :: rest => rawLoop publicPath (putRaw publicPath header first second result) rest
      else rawLoop publicPath (putRaw publicPath header [] first result) rest := by
  rw [rawLoop.eq_def]
  rfl

theorem rawLoop_known (result : Bytes → Option RawRecord) {change : RawChange}
    (known : change.Known) (rest : List Bytes) :
    ∃ result', (∀ name, result' name =
        if publicPath change.path.text = some name then some (change.record publicPath)
        else result name) ∧
      rawLoop publicPath result (change.parts ++ rest) = rawLoop publicPath result' rest := by
  cases change with
  | one oldMode newMode oldHash newHash status score path =>
    have header := rawHeader_written oldMode newMode oldHash newHash status.visible_byte score
    obtain ⟨text, written⟩ := rawColumns_cons oldMode newMode oldHash newHash status.byte score
    have kind : rawKind status.byte = some status.kind ∧
        decide (status.byte = 82 ∨ status.byte = 67) = false := by
      cases status with
      | unmerged => exact known.elim
      | _ => exact ⟨rfl, rfl⟩
    rw [kind.1, kind.2, written] at header
    refine ⟨putRaw publicPath ⟨status.kind, false, oldMode.text, newMode.text⟩ [] path.text result,
      fun name => ?_, ?_⟩
    · rw [putRaw_told]
      rfl
    · show rawLoop publicPath result
        (rawColumns oldMode newMode oldHash newHash status.byte score :: path.text :: rest) = _
      rw [written, rawLoop_record, header]
      rfl
  | moved copy oldMode newMode oldHash newHash score oldPath path =>
    have seen : visible (if copy then 67 else 82) := by cases copy <;> decide
    have header := rawHeader_written oldMode newMode oldHash newHash seen score
    obtain ⟨text, written⟩ :=
      rawColumns_cons oldMode newMode oldHash newHash (if copy then 67 else 82) score
    have kind : rawKind (if copy then 67 else 82) = some (if copy then .copied else .renamed) ∧
        decide ((if copy then (67 : UInt8) else 82) = 82 ∨
            (if copy then (67 : UInt8) else 82) = 67) = true := by
      cases copy <;> exact ⟨rfl, rfl⟩
    rw [kind.1, kind.2, written] at header
    refine ⟨putRaw publicPath ⟨if copy then .copied else .renamed, true, oldMode.text,
      newMode.text⟩ oldPath.text path.text
      result, fun name => ?_, ?_⟩
    · rw [putRaw_told, if_neg oldPath.nonempty]
      rfl
    · show rawLoop publicPath result
        (rawColumns oldMode newMode oldHash newHash (if copy then 67 else 82) score ::
        oldPath.text :: path.text :: rest) = _
      rw [written, rawLoop_record, header]
      rfl

theorem rawLoop_unknown (result : Bytes → Option RawRecord) {change : RawChange}
    (unknown : ¬change.Known)
    (rest : List Bytes) : ∃ e, rawLoop publicPath result (change.parts ++ rest) = .error e := by
  cases change with
  | one oldMode newMode oldHash newHash status score path =>
    cases status with
    | unmerged =>
      have header :=
        rawHeader_written oldMode newMode oldHash newHash RawStatus.unmerged.visible_byte score
      obtain ⟨text, written⟩ :=
        rawColumns_cons oldMode newMode oldHash newHash RawStatus.unmerged.byte score
      rw [show rawKind RawStatus.unmerged.byte = none from rfl, written] at header
      refine ⟨.rawStatus (RawStatus.unmerged.byte :: score.text), ?_⟩
      show rawLoop publicPath result
        (rawColumns oldMode newMode oldHash newHash RawStatus.unmerged.byte score :: path.text ::
          rest) = _
      rw [written, rawLoop_record, header]
      rfl
    | _ => exact absurd trivial unknown
  | moved => exact absurd trivial unknown

theorem raw_clean (change : RawChange) : ∀ part ∈ change.parts, 0 ∉ part := by
  have shown {b : UInt8} (seen : visible b) : b ≠ 0 := fun zero => absurd (zero ▸ seen) (by decide)
  have word (word : Word) : 0 ∉ word.text := fun on => shown (word.shown 0 on) rfl
  have columns (oldMode newMode oldHash newHash : Word) {letter : UInt8} (seen : visible letter)
    (score : Score) :
      0 ∉ rawColumns oldMode newMode oldHash newHash letter score := by
    have last : 0 ∉ score.text := fun on => shown (score.shown 0 on) rfl
    simp [rawColumns, List.intercalate_cons_cons, word, last, (shown seen).symm]
  cases change with
  | one oldMode newMode oldHash newHash status score path =>
    simp [RawChange.parts, columns oldMode newMode oldHash newHash status.visible_byte score,
      path.clean]
  | moved copy oldMode newMode oldHash newHash score oldPath path =>
    have seen : visible (if copy then 67 else 82) := by cases copy <;> decide
    simp [RawChange.parts, columns oldMode newMode oldHash newHash seen score, oldPath.clean,
      path.clean]

theorem raw_decoded (changes : List RawChange) :
    parseRaw publicPath (rawOutput changes) =
      .ok (told publicPath RawChange.path (RawChange.record publicPath) changes) ↔
      ∀ change ∈ changes, change.Known := by
  have cut : (rawOutput changes).splitOn 0 = changes.flatMap RawChange.parts ++ [[]] :=
    splitOn_terminated fun part inside => by
      obtain ⟨change, -, own⟩ := List.mem_flatMap.mp inside
      exact raw_clean change part own
  rw [parseRaw, cut]
  exact loop_told publicPath (fun result => by simp [rawLoop])
    (fun result _ known rest => rawLoop_known publicPath result known rest)
    (fun result _ unknown rest => rawLoop_unknown publicPath result unknown rest) changes

/-! ## The counts -/

theorem count_columns (counts : Option (Nat × Nat)) :
    ∃ added deleted, countColumns counts = [added, deleted] ∧
    ∀ column ∈ [added, deleted], 9 ∉ column ∧ 0 ∉ column ∧ column ≠ [] := by
  cases counts with
  | none => exact ⟨_, _, rfl, by decide⟩
  | some counts =>
    refine ⟨itoa counts.1, itoa counts.2, rfl, ?_⟩
    simp [itoa_clean, (AiConfig.Sesh.Surface.Prose.itoa_digits _).1]

theorem itoa_ne_dash (n : Nat) : itoa n ≠ bytes "-" := by
  intro same
  have digits := (AiConfig.Sesh.Surface.Prose.itoa_digits n).2
  rw [same] at digits
  exact absurd digits (by decide)

/-- A change whose counts are known is put where its path is in the root. -/
theorem putNumstat_known (record : Bytes) {change : NumstatChange} (known : change.Known publicPath)
    {added deleted : Bytes}
    (columns : countColumns change.counts = [added, deleted])
    (result : Bytes → Option NumstatRecord) :
    ∃ result', (∀ name, result' name =
        if publicPath change.path.text = some name then some change.record else result name) ∧
      putNumstat publicPath record added deleted change.path.text result = .ok result' := by
  obtain ⟨counts, oldPath, path⟩ := change
  cases here : publicPath path.text with
  | none => exact ⟨result, by simp, by simp [putNumstat, here]⟩
  | some inRoot =>
    have put (record : NumstatRecord) (name : Bytes) :
      Function.update result inRoot (some record) name =
        if some inRoot = some name then some record else result name := by
      by_cases same : inRoot = name
      · subst same
        simp
      · simp [same, Function.update_of_ne (Ne.symm same)]
    cases counts with
    | none =>
      obtain ⟨rfl, rfl⟩ : added = bytes "-" ∧ deleted = bytes "-" := by
        simpa [countColumns, eq_comm] using columns
      refine ⟨Function.update result inRoot (some ⟨0, 0, true⟩), fun name => ?_, ?_⟩
      · exact put _ name
      · simp [putNumstat, here]
    | some counts =>
      obtain ⟨rfl, rfl⟩ : added = itoa counts.1 ∧ deleted = itoa counts.2 := by
        simpa [countColumns, eq_comm] using columns
      obtain ⟨left, right⟩ := known counts rfl (by simp [here])
      classical
      refine ⟨Function.update result inRoot (some ⟨counts.1, counts.2, false⟩), fun name => ?_, ?_⟩
      · exact put _ name
      · simp [putNumstat, here, itoa_ne_dash, atoi_itoa, left, right]

theorem putNumstat_unknown (record : Bytes) {change : NumstatChange}
    (unknown : ¬change.Known publicPath)
    {added deleted : Bytes} (columns : countColumns change.counts = [added, deleted])
    (result : Bytes → Option NumstatRecord) :
    putNumstat publicPath record added deleted change.path.text result =
      .error (.numstatCounts record) := by
  simp only [NumstatChange.Known, not_forall] at unknown
  obtain ⟨counts, own, inRoot, large⟩ := unknown
  obtain ⟨name, here⟩ := Option.isSome_iff_exists.mp inRoot
  rw [own] at columns
  obtain ⟨rfl, rfl⟩ : added = itoa counts.1 ∧ deleted = itoa counts.2 := by
    simpa [countColumns, eq_comm] using columns
  classical
  by_cases small : fits counts.1
  · simp [putNumstat, here, itoa_ne_dash, atoi_itoa, small, show ¬fits counts.2 from fun fits =>
      large ⟨small, fits⟩]
  · simp [putNumstat, here, itoa_ne_dash, atoi_itoa, small]

theorem numstatLoop_parts (result : Bytes → Option NumstatRecord) (change : NumstatChange)
    (rest : List Bytes) :
    ∃ added deleted record, countColumns change.counts = [added, deleted] ∧
      numstatLoop publicPath result (change.parts ++ rest) =
        (putNumstat publicPath record added deleted change.path.text result).bind fun result =>
          numstatLoop publicPath result rest := by
  obtain ⟨added, deleted, columns, clean⟩ := count_columns change.counts
  have cut (path : Bytes) :
      splitN 9 3 (terminated 9 [added, deleted] ++ path) = [added, deleted, path] :=
    splitN_terminated (fun column inside => (clean column inside).1) path
  obtain ⟨first, more, rfl⟩ := List.exists_cons_of_ne_nil (clean added List.mem_cons_self).2.2
  have opens (path : Bytes) :
    ∃ text, terminated 9 [first :: more, deleted] ++ path = first :: text := ⟨_, rfl⟩
  cases moved : change.oldPath with
  | none =>
    obtain ⟨text, written⟩ := opens change.path.text
    refine ⟨first :: more, deleted, first :: text, columns, ?_⟩
    have fields := cut change.path.text
    rw [written] at fields
    rw [NumstatChange.parts, moved, columns]
    show numstatLoop publicPath result
      ((terminated 9 [first :: more, deleted] ++ change.path.text) :: rest) = _
    rw [written, numstatLoop.eq_def]
    simp only [fields, if_neg change.path.nonempty]
    rfl
  | some old =>
    obtain ⟨text, written⟩ := opens []
    refine ⟨first :: more, deleted, change.path.text, columns, ?_⟩
    have fields := cut []
    rw [written] at fields
    rw [NumstatChange.parts, moved, columns]
    show numstatLoop publicPath result
      (terminated 9 [first :: more, deleted] :: old.text :: change.path.text :: rest) = _
    rw [← List.append_nil (terminated 9 [first :: more, deleted]), written, numstatLoop.eq_def]
    simp only [fields, if_true]
    rfl

theorem numstat_clean (change : NumstatChange) : ∀ part ∈ change.parts, 0 ∉ part := by
  obtain ⟨added, deleted, columns, clean⟩ := count_columns change.counts
  have left := (clean added List.mem_cons_self).2.1
  have right := (clean deleted (List.mem_cons_of_mem _ List.mem_cons_self)).2.1
  cases moved : change.oldPath with
  | none => simp [NumstatChange.parts, moved, columns, left, right, change.path.clean]
  | some old => simp [NumstatChange.parts, moved, columns, left, right, old.clean,
      change.path.clean]

theorem numstat_decoded (changes : List NumstatChange) :
    parseNumstat publicPath (numstatOutput changes) =
        .ok (told publicPath NumstatChange.path NumstatChange.record changes) ↔
      ∀ change ∈ changes, change.Known publicPath := by
  have cut : (numstatOutput changes).splitOn 0 = changes.flatMap NumstatChange.parts ++ [[]] :=
    splitOn_terminated fun part inside => by
      obtain ⟨change, -, own⟩ := List.mem_flatMap.mp inside
      exact numstat_clean change part own
  rw [parseNumstat, cut]
  refine loop_told publicPath (fun result => by simp [numstatLoop])
    (fun result change known rest => ?_)
    (fun result change unknown rest => ?_) changes
  · obtain ⟨added, deleted, record, columns, goes⟩ :=
      numstatLoop_parts publicPath result change rest
    obtain ⟨result', put, parsed⟩ := putNumstat_known publicPath record known columns result
    exact ⟨result', put, by rw [goes, parsed]; rfl⟩
  · obtain ⟨added, deleted, record, columns, goes⟩ :=
      numstatLoop_parts publicPath result change rest
    exact ⟨_, by rw [goes, putNumstat_unknown publicPath record unknown columns result]; rfl⟩

/-! ## The three parsers -/

/-- The parsers return what git's lines tell exactly when they know the lines. -/
theorem decoded_iff :
    (∀ lines, parseStatus publicPath (statusOutput lines) = .ok (statusTold publicPath lines) ↔
      ∀ line ∈ lines, line.Known) ∧
    (∀ changes, parseRaw publicPath (rawOutput changes) =
        .ok (told publicPath RawChange.path (RawChange.record publicPath) changes) ↔
          ∀ change ∈ changes, change.Known) ∧
    ∀ changes, parseNumstat publicPath (numstatOutput changes) =
        .ok (told publicPath NumstatChange.path NumstatChange.record changes) ↔
      ∀ change ∈ changes, change.Known publicPath :=
  ⟨status_decoded publicPath, raw_decoded publicPath, numstat_decoded publicPath⟩

end

/-- A file, and the stash that `status.showStash` tells of. -/
def stashedLines : List StatusLine :=
  [.header (.stash 1), .untracked ⟨bytes "notes.md", by decide, by decide⟩]

/-- A path in conflict. -/
def conflictChanges : List RawChange :=
  let mode : Word := ⟨bytes "000000", by decide, by decide +kernel⟩
  [.one mode mode mode mode .unmerged ⟨[], by decide +kernel⟩
    ⟨bytes "notes.md", by decide, by decide⟩]

/-- A stash hides every entry, and a conflict every raw record. -/
theorem stash_refused :
    (parseStatus some (statusOutput stashedLines) = .error (.branchHeader (bytes "# stash 1")) ∧
      parseStatus some (statusOutput stashedLines) ≠ .ok (statusTold some stashedLines)) ∧
    parseRaw some (rawOutput conflictChanges) = .error (.rawStatus (bytes "U")) ∧
      parseRaw some (rawOutput conflictChanges) ≠
        .ok (told some RawChange.path (RawChange.record some) conflictChanges) := by
  have status :
    parseStatus some (statusOutput stashedLines) = .error (.branchHeader (bytes "# stash 1")) := rfl
  have raw : parseRaw some (rawOutput conflictChanges) = .error (.rawStatus (bytes "U")) := rfl
  rw [status, raw]
  exact ⟨⟨rfl, nofun⟩, rfl, nofun⟩

end AiConfig.Herder.Git
