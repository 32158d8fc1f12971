import Mathlib.Logic.Function.Basic
import Mathlib.Data.List.Forall2
import Mathlib.Data.List.Nodup
import AiConfig.Lib.Folding
import Mathlib.Algebra.GroupWithZero.Nat

/-! # One copy of a file for a repository

Transcription of `foldCheckouts` of `internal/fileresolver/resolver.go`, and of the loop before it
that
drops what nested roots surface twice.

* `foldCheckouts_eq` — a result stands for the copies of its group.
* `folded_iff` — when no copy is lost and the right one is shown. -/

namespace AiConfig.Herder.FileResolver

open AiConfig.Lib

inductive Kind where
  | file
  | dir
deriving DecidableEq

def Kind.text : Kind → String
  | .file => "file"
  | .dir => "dir"

inductive Tier where
  | tierExact
  | tierPrefix
  | tierSuffix
  | tierFuzzy
deriving DecidableEq

/-- A `Result` as a match makes it, with no copies. -/
structure Hit where
  root : String
  path : String
  kind : Kind
  tier : Tier
  score : Int
deriving DecidableEq

structure Result extends Hit where
  also : Nat
  alsoRoots : List String
deriving DecidableEq

structure RankedResult where
  result : Hit
  anchorBand : Int
deriving DecidableEq

structure RootRepo where
  group : String
  main : Bool

structure FoldKey where
  group : String
  path : String
  kind : Kind
deriving DecidableEq

def maxAlsoRoots : Nat := 20

/-! ## The source -/

/-- The first of what has one absolute path and kind; `join` is `filepath.Join`. -/
def uniqueResults (join : String → String → String) : List String → List RankedResult →
    List RankedResult
  | _, [] => []
  | seen, item :: rest =>
    let absolute := join item.result.root item.result.path ++ "\x00" ++ item.result.kind.text
    if absolute ∈ seen then uniqueResults join seen rest
    else item :: uniqueResults join (absolute :: seen) rest

/-- The maps of `foldCheckouts`; a place that nothing folded into has no roots. -/
structure Fold where
  results : List Hit
  folded : Nat → List String
  anchored : Nat → Bool
  index : FoldKey → Option Nat

def Fold.empty : Fold := ⟨[], fun _ => [], fun _ => false, fun _ => none⟩

section

variable (globalBand : Int) (repos : String → Option RootRepo)

def isAnchored (item : RankedResult) : Bool := item.anchorBand < globalBand

/-- The key of an item whose root is in a group. -/
def foldKey (item : RankedResult) : Option FoldKey :=
  match repos item.result.root with
  | some repo =>
    if repo.group ≠ "" then some ⟨repo.group, item.result.path, item.result.kind⟩ else none
  | none => none

/-- `repos[root].Main` -/
def isMain (root : String) : Bool := (repos root).any RootRepo.main

def Fold.place (item : RankedResult) (s : Fold) : Fold where
  results := s.results ++ [item.result]
  folded := s.folded
  anchored := Function.update s.anchored s.results.length (isAnchored globalBand item)
  index :=
    match foldKey repos item with
    | some key =>
      if (s.index key).isNone then Function.update s.index key (some s.results.length)
      else s.index
    | none => s.index

def Fold.step (s : Fold) (item : RankedResult) : Fold :=
  match foldKey repos item with
  | none => s.place globalBand repos item
  | some key =>
    if isAnchored globalBand item then s.place globalBand repos item
    else match s.index key with
      | some found =>
          { s with folded := Function.update s.folded found (s.folded found ++ [item.result.root]) }
      | none => s.place globalBand repos item

/-- The root that is shown and the others, best first. -/
def swapMain (contextRoot : String) (anchored : Bool) (winner : String) (roots : List String) :
    String × List String :=
  if !anchored && winner ≠ contextRoot && !isMain repos winner then
    match roots.find? (isMain repos) with
    | some root => (root, winner :: roots.eraseP (isMain repos))
    | none => (winner, roots)
  else (winner, roots)

def foldWinner (contextRoot : String) (anchored : Bool) (winner : Hit) : List String → Result
  | [] => { winner with also := 0, alsoRoots := [] }
  | roots =>
    let (root, roots) := swapMain repos contextRoot anchored winner.root roots
    { winner with root := root, also := roots.length, alsoRoots := roots.take maxAlsoRoots }

def foldCheckouts (contextRoot : String) (ranked : List RankedResult) : List Result :=
  let s := ranked.foldl (Fold.step globalBand repos) .empty
  s.results.mapIdx fun found winner =>
    foldWinner repos contextRoot (s.anchored found) winner (s.folded found)

end

/-! ## The copies a result stands for -/

section

variable (globalBand : Int) (repos : String → Option RootRepo) (contextRoot : String)

/-- The copies of a file in the checkouts of a repository, with the first one that ranked. -/
def copiesOf (ranked : List RankedResult) : List (Cluster RankedResult) :=
  groupsOf (foldKey repos) (isAnchored globalBand) ranked

def rootsOf (copies : List RankedResult) : List String := copies.map fun copy => copy.result.root

/-- An anchored hit shows itself; else the context root's copy is shown, and else the first one or a
main
checkout's in its place. -/
def shownRoot (group : Cluster RankedResult) : String :=
  if isAnchored globalBand group.first then group.first.result.root
  else if contextRoot ∈ rootsOf group.members then contextRoot
  else if isMain repos group.first.result.root then group.first.result.root
  else ((rootsOf group.more).find? (isMain repos)).getD group.first.result.root

/-- A result stands for the copies of a group. -/
structure Stands (group : Cluster RankedResult) (result : Result) : Prop where
  file : result.path = group.first.result.path ∧ result.kind = group.first.result.kind
  rank : result.tier = group.first.result.tier ∧ result.score = group.first.result.score
  roots : ∃ also, result.also = also.length ∧ result.alsoRoots = also.take maxAlsoRoots ∧
    (result.root :: also).Perm (rootsOf group.members) ∧ (result.root :: also).Nodup

structure LosesNoCopy (ranked : List RankedResult) (groups : List (Cluster RankedResult))
    (results : List Result) : Prop where
  whole : (groups.flatMap Cluster.members).Perm ranked
  copies : ∀ group ∈ groups, ∀ item ∈ group.more, isAnchored globalBand item = false ∧
    ∃ key, foldKey repos item = some key ∧ foldKey repos group.first = some key
  order : (groups.map Cluster.first).Sublist ranked
  anchored : ∀ item ∈ ranked, isAnchored globalBand item = true → ∃ group ∈ groups,
    group.first = item
  one : groups.Pairwise fun a b => ∀ key, foldKey repos a.first = some key →
    foldKey repos b.first = some key →
    isAnchored globalBand b.first = true
  stands : List.Forall₂ Stands groups results
  count : (results.map fun result => 1 + result.also).sum = ranked.length

/-- No copy is lost, and each result shows the root it should. -/
def FoldsWell (ranked : List RankedResult) (results : List Result) : Prop :=
  LosesNoCopy globalBand repos ranked (copiesOf globalBand repos ranked) results ∧
    results.map (fun result => result.root) =
      (copiesOf globalBand repos ranked).map (shownRoot globalBand repos contextRoot)

/-- Where the context root's copy folds into one that is not anchored, it is the first main checkout
of what folds
there, and that one is none. -/
def ContextFirst (ranked : List RankedResult) : Prop :=
  ∀ key first rest, ofKey (foldKey repos) key ranked = first :: rest →
    isAnchored globalBand first = false →
    contextRoot ∈ rootsOf (rest.filter fun item => !isAnchored globalBand item) →
      isMain repos first.result.root = false ∧
        (rootsOf (rest.filter fun item => !isAnchored globalBand item)).find? (isMain repos) =
          some contextRoot

/-! ## The maps hold the groups -/

/-- What the maps have of the groups so far. -/
structure Holds (s : Fold) (groups : List (Cluster RankedResult)) : Prop where
  results : s.results = groups.map fun group => group.first.result
  folded : ∀ i, s.folded i = (groups[i]?.map fun group => rootsOf group.more).getD []
  anchored : ∀ (i : Nat) (group : Cluster RankedResult), groups[i]? = some group →
    s.anchored i = isAnchored globalBand group.first
  index : ∀ key, s.index key = groups.findIdx? fun group => foldKey repos group.first = some key

variable {globalBand repos contextRoot}

theorem Holds.place {s : Fold} {groups : List (Cluster RankedResult)}
    (holds : Holds globalBand repos s groups)
    (item : RankedResult) :
    Holds globalBand repos (s.place globalBand repos item) (groups ++ [⟨item, []⟩]) where
  results := by rw [Fold.place, holds.results, List.map_append]; rfl
  folded i := by
    rw [Fold.place, holds.folded, List.getElem?_append]
    split
    · rfl
    · next high =>
      rw [List.getElem?_eq_none (Nat.le_of_not_lt high)]
      cases i - groups.length <;> rfl
  anchored i group at_ := by
    have size : s.results.length = groups.length := by rw [holds.results, List.length_map]
    show Function.update s.anchored s.results.length (isAnchored globalBand item) i = _
    rw [List.getElem?_append] at at_
    split at at_
    · next low =>
      rw [Function.update_of_ne (by omega), holds.anchored i group at_]
    · next high =>
      have last : i = groups.length := by
        have := (List.getElem?_eq_some_iff.mp at_).1
        simp only [List.length_singleton] at this
        omega
      obtain rfl := List.mem_singleton.mp (List.mem_of_getElem? at_)
      rw [size, last, Function.update_self]
  index key := by
    have size : s.results.length = groups.length := by rw [holds.results, List.length_map]
    rw [List.findIdx?_append, ← holds.index]
    simp only [Fold.place]
    cases own : foldKey repos item with
    | none => simp [own]
    | some key' =>
      by_cases same : key' = key
      · subst same
        cases before : s.index key' <;> simp [own, before, size]
      · cases before :
          s.index key' <;> simp [own, before, same, Function.update_of_ne (Ne.symm same)]

theorem Holds.fold {s : Fold} {groups : List (Cluster RankedResult)}
    (holds : Holds globalBand repos s groups)
    {item : RankedResult} {index : Nat} (inside : index < groups.length) :
    Holds globalBand repos { s with folded := Function.update s.folded index (s.folded index ++
      [item.result.root]) }
      (groups.modify index (Cluster.add item)) where
  results := by
    show s.results = _
    have firsts (groups : List (Cluster RankedResult)) :
        groups.map (fun group => group.first.result) =
            (groups.map Cluster.first).map RankedResult.result := by
      rw [List.map_map]
      rfl
    rw [holds.results, firsts, firsts, first_modify]
  folded i := by
    by_cases same : index = i
    · subst same
      simp [holds.folded, List.getElem?_eq_getElem inside, Cluster.add, rootsOf]
    · simp [holds.folded, same, Function.update_of_ne (Ne.symm same)]
  anchored i group at_ := by
    rw [List.getElem?_modify] at at_
    obtain ⟨old, found, rfl⟩ := Option.map_eq_some_iff.mp at_
    have kept := holds.anchored i old found
    split <;> exact kept
  index key := by
    show s.index key = _
    rw [holds.index]
    have firsts (groups : List (Cluster RankedResult)) :
      (groups.findIdx? fun group => foldKey repos group.first = some key) =
        (groups.map Cluster.first).findIdx? fun first => foldKey repos first = some key := by
      rw [List.findIdx?_map]
      rfl
    rw [firsts, firsts, first_modify]

theorem Holds.step {s : Fold} {groups : List (Cluster RankedResult)}
    (holds : Holds globalBand repos s groups)
    (item : RankedResult) :
    Holds globalBand repos (s.step globalBand repos item)
      (foldIn (foldKey repos) (isAnchored globalBand) groups item) := by
  unfold Fold.step foldIn
  cases own : foldKey repos item with
  | none =>
    simp only [Option.isNone_none, Bool.or_true, if_true]
    exact holds.place item
  | some key =>
    cases anchored : isAnchored globalBand item with
    | true =>
      simp only [Bool.true_or, if_true]
      exact holds.place item
    | false =>
      simp only [Option.isNone_some, Bool.or_self, Bool.false_eq_true, if_false, holds.index]
      cases found : groups.findIdx? fun group => foldKey repos group.first = some key with
      | none => exact holds.place item
      | some index =>
        exact holds.fold (List.findIdx?_eq_some_iff_getElem.mp found).1

theorem holds_groups (ranked : List RankedResult) :
    Holds globalBand repos (ranked.foldl (Fold.step globalBand repos) .empty)
      (copiesOf globalBand repos ranked) := by
  induction ranked using List.reverseRecOn with
  | nil => exact ⟨rfl, fun _ => rfl, by simp [copiesOf, groupsOf], fun _ => rfl⟩
  | append_singleton ranked item inductionHypothesis =>
    rw [copiesOf, groupsOf, List.foldl_append, List.foldl_append]
    exact inductionHypothesis.step item

/-- What becomes of a group of copies. -/
def finish (globalBand : Int) (repos : String → Option RootRepo) (contextRoot : String)
    (group : Cluster RankedResult) : Result :=
  foldWinner repos contextRoot (isAnchored globalBand group.first) group.first.result
    (rootsOf group.more)

theorem foldCheckouts_eq (ranked : List RankedResult) :
    foldCheckouts globalBand repos contextRoot ranked =
      (copiesOf globalBand repos ranked).map (finish globalBand repos contextRoot) := by
  have holds : Holds globalBand repos _ _ := holds_groups ranked
  refine List.ext_getElem? fun i => ?_
  simp only [foldCheckouts, List.getElem?_mapIdx, holds.results, List.getElem?_map, Option.map_map]
  cases at_ : (copiesOf globalBand repos ranked)[i]? with
  | none => rfl
  | some group =>
    have anchored := holds.anchored i group at_
    have folded := holds.folded i
    rw [at_] at folded
    simp [finish, anchored, folded]

/-! ## What a result has of its copies -/

/-- Whose copy is shown instead, the others follow it. -/
theorem swapMain_perm (repos : String → Option RootRepo) (contextRoot : String) (anchored : Bool)
    (winner : String) (roots : List String) :
    ((swapMain repos contextRoot anchored winner roots).1 ::
    (swapMain repos contextRoot anchored winner roots).2).Perm
      (winner :: roots) := by
  unfold swapMain
  split
  · split
    · next root found =>
      have split_ : (root :: roots.eraseP (isMain repos)).Perm roots := by
        obtain ⟨main, before, after, rfl, others⟩ := List.find?_eq_some_iff_append.mp found
        rw [List.eraseP_append_right _ (by simpa using others), List.eraseP_cons_of_pos main]
        exact List.perm_middle.symm
      exact (List.Perm.swap winner root _).trans (split_.cons winner)
    · exact List.Perm.refl _
  · exact List.Perm.refl _

theorem finish_stands {group : Cluster RankedResult} (distinct : (rootsOf group.members).Nodup) :
    Stands group (finish globalBand repos contextRoot group) := by
  unfold finish
  cases roots : rootsOf group.more with
  | nil =>
    have alone : rootsOf group.members = [group.first.result.root] := by
      rw [Cluster.members, rootsOf, List.map_cons, ← rootsOf, roots]
    exact ⟨⟨rfl, rfl⟩, ⟨rfl, rfl⟩, [], rfl, rfl, by rw [alone]; exact List.Perm.refl _, by simp⟩
  | cons root more =>
    have perm :=
      swapMain_perm repos contextRoot (isAnchored globalBand group.first) group.first.result.root
      (root :: more)
    have all : rootsOf group.members = group.first.result.root :: root :: more := by
      rw [Cluster.members, rootsOf, List.map_cons, ← rootsOf, roots]
    rw [← all] at perm
    exact ⟨⟨rfl, rfl⟩, ⟨rfl, rfl⟩, _, rfl, rfl, perm, perm.nodup_iff.mpr distinct⟩

/-- Where the context root's copy is shown as it should. -/
def GroupContextFirst (globalBand : Int) (repos : String → Option RootRepo) (contextRoot : String)
    (group : Cluster RankedResult) : Prop :=
  isAnchored globalBand group.first = false → contextRoot ∈ rootsOf group.more →
    isMain repos group.first.result.root = false ∧
      (rootsOf group.more).find? (isMain repos) = some contextRoot

theorem finish_shown {group : Cluster RankedResult} (distinct : (rootsOf group.members).Nodup) :
    (finish globalBand repos contextRoot group).root =
    shownRoot globalBand repos contextRoot group ↔
      GroupContextFirst globalBand repos contextRoot group := by
  have apart : contextRoot ∈ rootsOf group.more → contextRoot ≠ group.first.result.root := by
    rintro inside rfl
    exact (List.nodup_cons.mp distinct).1 inside
  have members : contextRoot ∈ rootsOf group.members ↔
      contextRoot = group.first.result.root ∨ contextRoot ∈ rootsOf group.more := List.mem_cons
  have root : (finish globalBand repos contextRoot group).root =
      (swapMain repos contextRoot (isAnchored globalBand group.first) group.first.result.root
          (rootsOf group.more)).1 := by
    unfold finish
    cases rootsOf group.more with
    | nil => simp [foldWinner, swapMain]
    | cons => rfl
  rw [root, shownRoot, swapMain, GroupContextFirst]
  simp only [members]
  generalize group.first.result.root = winner at apart
  generalize rootsOf group.more = roots at apart
  cases isAnchored globalBand group.first with
  | true => simp
  | false =>
    by_cases own : winner = contextRoot
    · subst own
      simpa using fun inside => absurd rfl (apart inside)
    · by_cases inside : contextRoot ∈ roots
      · cases main : isMain repos winner with
        | true => simp [own, inside, Ne.symm own]
        | false =>
          cases found : roots.find? (isMain repos) with
          | none => simp [own, inside, Ne.symm own]
          | some root => simp [own, inside]
      · cases main : isMain repos winner with
        | true => simp [own, inside, Ne.symm own]
        | false => cases roots.find? (isMain repos) <;> simp [own, inside, Ne.symm own]

/-! ## Every list -/

/-- What tells two results apart. -/
def identity (item : RankedResult) : String × String × Kind :=
  (item.result.root, item.result.path, item.result.kind)

theorem foldKey_file {item : RankedResult} {key : FoldKey} (own : foldKey repos item = some key) :
    item.result.path = key.path ∧ item.result.kind = key.kind := by
  unfold foldKey at own
  split at own
  · split at own
    · obtain rfl := Option.some.inj own
      exact ⟨rfl, rfl⟩
    · cases own
  · cases own

/-- Copies of one file are in different roots. -/
theorem roots_nodup {ranked : List RankedResult} (distinct : (ranked.map identity).Nodup)
    {group : Cluster RankedResult}
    (on : group ∈ copiesOf globalBand repos ranked) : (rootsOf group.members).Nodup := by
  have grouped : Grouped _ _ ranked (copiesOf globalBand repos ranked) := groupsOf_grouped ranked
  have same : group.members.map identity =
      (rootsOf group.members).map fun root =>
          (root, group.first.result.path, group.first.result.kind) := by
    rw [rootsOf, List.map_map]
    refine List.map_congr_left fun item inside => ?_
    obtain rfl | more := List.mem_cons.mp inside
    · rfl
    · obtain ⟨-, key, own, first⟩ := grouped.folded on more
      obtain ⟨path, kind⟩ := foldKey_file own
      obtain ⟨path', kind'⟩ := foldKey_file first
      simp [identity, path, kind, path', kind']
  have all : ((copiesOf globalBand repos ranked).flatMap Cluster.members |>.map identity).Nodup :=
    (grouped.whole.map identity).nodup_iff.mpr distinct
  have part : (group.members.map identity).Nodup :=
    all.sublist ((List.sublist_flatten_of_mem (List.mem_map_of_mem on)).map identity)
  rw [same] at part
  exact List.Nodup.of_map _ part

theorem loses_no_copy {ranked : List RankedResult} (distinct : (ranked.map identity).Nodup) :
    LosesNoCopy globalBand repos ranked (copiesOf globalBand repos ranked)
      (foldCheckouts globalBand repos contextRoot ranked) := by
  have grouped : Grouped _ _ ranked (copiesOf globalBand repos ranked) := groupsOf_grouped ranked
  have stands : ∀ group ∈ copiesOf globalBand repos ranked,
      Stands group (finish globalBand repos contextRoot group) :=
    fun group on => finish_stands (roots_nodup distinct on)
  rw [foldCheckouts_eq]
  refine ⟨grouped.whole, fun group on item inside => grouped.folded on inside, grouped.order,
    fun item inside anchored => grouped.opened inside (.inl anchored), grouped.later, ?_, ?_⟩
  · exact List.forall₂_map_right_iff.mpr (List.forall₂_same.mpr stands)
  · have sizes : ∀ group ∈ copiesOf globalBand repos ranked,
        1 + (finish globalBand repos contextRoot group).also = group.members.length := by
      intro group on
      obtain ⟨also, count, -, perm, -⟩ := (stands group on).roots
      have size := perm.length_eq
      rw [rootsOf, List.length_map, List.length_cons] at size
      omega
    rw [List.map_map, ← grouped.whole.length_eq, List.length_flatMap]
    exact congrArg List.sum (List.map_congr_left sizes)

/-- The condition on the list is the condition on each of its groups. -/
theorem contextFirst_iff (ranked : List RankedResult) :
    ContextFirst globalBand repos contextRoot ranked ↔
    ∀ group ∈ copiesOf globalBand repos ranked,
      GroupContextFirst globalBand repos contextRoot group := by
  have grouped : Grouped _ _ ranked (copiesOf globalBand repos ranked) := groupsOf_grouped ranked
  constructor
  · intro all group on unanchored inside
    cases key : foldKey repos group.first with
    | none => simp [grouped.alone group on key, rootsOf] at inside
    | some key' =>
      cases own : ofKey (foldKey repos) key' ranked with
      | nil => exact absurd key (grouped.absent key' own group on)
      | cons first rest =>
        obtain ⟨index, here, others⟩ := grouped.present key' first rest own
        obtain ⟨i, at_⟩ := List.mem_iff_getElem?.mp on
        by_cases same : i = index
        · subst same
          obtain rfl := Option.some.inj (at_.symm.trans here)
          exact all key' first rest own unanchored inside
        · simp [(others i group at_ key same).2.2, rootsOf] at inside
  · intro all key first rest own unanchored inside
    obtain ⟨index, here, -⟩ := grouped.present key first rest own
    exact all _ (List.mem_of_getElem? here) unanchored inside

/-- No copy is lost; the right one is shown exactly where the context root's copy may be. -/
theorem folded_iff {ranked : List RankedResult} (distinct : (ranked.map identity).Nodup) :
    FoldsWell globalBand repos contextRoot ranked
      (foldCheckouts globalBand repos contextRoot ranked) ↔
      ContextFirst globalBand repos contextRoot ranked := by
  rw [FoldsWell, contextFirst_iff, and_iff_right (loses_no_copy distinct), foldCheckouts_eq,
    List.map_map, List.map_inj_left]
  exact forall₂_congr fun group on => finish_shown (roots_nodup distinct on)

/-- What the loop before the fold leaves is told apart. -/
theorem uniqueResults_distinct (join : String → String → String) (seen : List String)
    (ranked : List RankedResult) :
    ((uniqueResults join seen ranked).map identity).Nodup := by
  have absolutes (seen : List String) : ((uniqueResults join seen ranked).map fun item =>
      join item.result.root item.result.path ++ "\x00" ++ item.result.kind.text).Nodup ∧
      ∀ item ∈ uniqueResults join seen ranked,
        join item.result.root item.result.path ++ "\x00" ++ item.result.kind.text ∉ seen := by
    induction ranked generalizing seen with
    | nil => simp [uniqueResults]
    | cons item rest inductionHypothesis =>
      rw [uniqueResults]
      split
      · exact inductionHypothesis seen
      · next new =>
        obtain ⟨nodup, fresh⟩ := inductionHypothesis (_ :: seen)
        constructor
        · refine List.nodup_cons.mpr ⟨fun inside => ?_, nodup⟩
          obtain ⟨other, on, same⟩ := List.mem_map.mp inside
          exact fresh other on (same ▸ List.mem_cons_self)
        · intro other inside
          obtain rfl | on := List.mem_cons.mp inside
          · exact new
          · exact fun old => fresh other on (List.mem_cons_of_mem _ old)
  have told : (uniqueResults join seen ranked).map (fun item =>
      join item.result.root item.result.path ++ "\x00" ++ item.result.kind.text) =
      ((uniqueResults join seen ranked).map identity).map fun item =>
          join item.1 item.2.1 ++ "\x00" ++ item.2.2.text := by
    rw [List.map_map]
    rfl
  exact List.Nodup.of_map _ (told ▸ (absolutes seen).1)

end

/-! ## One repository in three checkouts -/

def checkoutRepos : String → Option RootRepo
  | "/repo" => some ⟨"/repo/.git", true⟩
  | "/wt-one" => some ⟨"/repo/.git", false⟩
  | "/wt-two" => some ⟨"/repo/.git", false⟩
  | _ => none

def notesIn (root : String) : RankedResult := ⟨⟨root, "docs/notes.md", .file, .tierExact, 0⟩, 0⟩

/-- A file that two checkouts hold, and another one, of which an anchor names a copy. -/
def contextFirst : List RankedResult :=
  [⟨⟨"/wt-one", "docs/plan.md", .file, .tierExact, 0⟩, -1⟩,
    ⟨⟨"/repo", "docs/plan.md", .file, .tierExact, 0⟩, 0⟩,
    notesIn "/wt-two", notesIn "/wt-one", notesIn "/repo", notesIn "/loose"]

theorem folded_iff_context_first :
    FoldsWell 0 checkoutRepos "/wt-two" contextFirst
      (foldCheckouts 0 checkoutRepos "/wt-two" contextFirst) :=
  (folded_iff (by decide +kernel)).mpr
    ((contextFirst_iff _).mpr (by unfold GroupContextFirst; decide +kernel))

/-- The main checkout takes the place of another one although the context root's copy is there. -/
theorem context_copy_hidden :
    (([notesIn "/wt-one", notesIn "/wt-two", notesIn "/repo"].map identity).Nodup ∧
      foldCheckouts 0 checkoutRepos "/wt-two"
        [notesIn "/wt-one", notesIn "/wt-two", notesIn "/repo"] =
        [⟨⟨"/repo", "docs/notes.md", .file, .tierExact, 0⟩, 2, ["/wt-one", "/wt-two"]⟩]) ∧
    ¬FoldsWell 0 checkoutRepos "/wt-two" [notesIn "/wt-one", notesIn "/wt-two", notesIn "/repo"]
      (foldCheckouts 0 checkoutRepos "/wt-two"
      [notesIn "/wt-one", notesIn "/wt-two", notesIn "/repo"]) :=
  ⟨by decide +kernel, fun well => absurd well.2 (by decide +kernel)⟩

end AiConfig.Herder.FileResolver
