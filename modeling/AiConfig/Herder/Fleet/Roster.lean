import Mathlib
import AiConfig.Herder.Fleet.Join

/-! # The roster cache of the serve

Transcription of `rosterCache` of `serve.go`.  Fetches of the roster begin and land in any order,
and the serve
marks what it has itself changed.  Times are in nanoseconds since `time.Time`'s zero.

* `admitted` — the fetches that did not begin before one that had landed.
* `roster_cached` — after any run, what is served as fresh and what a base name is resolved to. -/

namespace AiConfig.Herder.Fleet

structure RosterCache where
  rows : List BusRow
  initialized : Bool
  at_ : Int
  changed : Int
  remembered : String → Option String
  ambiguous : String → Bool

namespace RosterCache

def empty : RosterCache := ⟨[], false, 0, 0, fun _ => none, fun _ => false⟩

/-- The loop of `setObserved` over the rows. -/
def remember (c : RosterCache) (row : BusRow) : RosterCache :=
  if row.baseName = "" ∨ c.ambiguous row.baseName = true then c
  else if (c.remembered row.baseName).getD "" ≠ "" ∧
    (c.remembered row.baseName).getD "" ≠ row.name then
    { c with remembered := Function.update c.remembered row.baseName none, ambiguous := Function.update c.ambiguous row.baseName true }
  else { c with remembered := Function.update c.remembered row.baseName (some row.name) }

def setObserved (c : RosterCache) (rows : List BusRow) (observed : Int) : RosterCache × Bool :=
  if c.initialized ∧ observed < c.at_ then (c, false)
  else (rows.foldl remember { c with rows, initialized := true, at_ := observed }, true)

def get (c : RosterCache) : List BusRow × Bool := (c.rows, c.initialized)

def fresh (c : RosterCache) (now bound : Int) : Option (List BusRow) :=
  if ¬ c.initialized ∨ bound < now - c.at_ ∨ now < c.at_ ∨ c.at_ < c.changed then none
  else some c.rows

def expire (c : RosterCache) (now : Int) : RosterCache := { c with changed := now }

def resolve (c : RosterCache) (raw : String) : String :=
  match byUniqueBaseName c.rows raw with
  | some row => row.name
  | none =>
    if c.rows.any fun row => row.baseName = raw then raw
    else if ¬ c.ambiguous raw ∧ (c.remembered raw).getD "" ≠ "" then (c.remembered raw).getD ""
    else raw

end RosterCache

/-! ## Runs -/

/-- A fetch of the roster and when it began. -/
structure Landing where
  rows : List BusRow
  observed : Int

inductive RosterStep where
  | landed (landing : Landing)
  | expired (now : Int)

def RosterCache.step (c : RosterCache) : RosterStep → RosterCache
  | .landed landing => (c.setObserved landing.rows landing.observed).1
  | .expired now => c.expire now

def RosterCache.run (steps : List RosterStep) : RosterCache := steps.foldl RosterCache.step .empty

def RosterStep.landing : RosterStep → Option Landing
  | .landed landing => some landing
  | .expired _ => none

def RosterStep.expiry : RosterStep → Option Int
  | .landed _ => none
  | .expired now => some now

def landings (steps : List RosterStep) : List Landing := steps.filterMap RosterStep.landing

/-- When the serve last changed the roster itself. -/
def lastExpired (steps : List RosterStep) : Option Int :=
  (steps.filterMap RosterStep.expiry).getLast?

/-- The fetches that did not begin before one that had landed. -/
def admitted (landings : List Landing) : List Landing :=
  landings.foldl (fun taken landing =>
    if ∀ earlier ∈ taken, earlier.observed ≤ landing.observed then taken ++ [landing]
    else taken) []

/-- The names that some rows give a base name. -/
def namesOf (rows : List BusRow) (baseName : String) : List String :=
  (rows.filter fun row => row.baseName = baseName).map fun row => row.name

/-- The one name among these, but for blank ones at first. -/
def onlyName (names : List String) : Option String :=
  match names.dropWhile (· = "") with
  | [] => none
  | name :: others => if ∀ other ∈ others, other = name then some name else none

/-! ## What is remembered -/

section

/-- The loop, at one base name. -/
def memo (known : Option String × Bool) (name : String) : Option String × Bool :=
  if known.2 = true then known
  else if known.1.getD "" ≠ "" ∧ known.1.getD "" ≠ name then (none, true)
  else (some name, false)

def RosterCache.known (c : RosterCache) (baseName : String) : Option String × Bool :=
  (c.remembered baseName, c.ambiguous baseName)

theorem remember_known (c : RosterCache) (row : BusRow) {baseName : String}
    (some_ : baseName ≠ "") :
    (c.remember row).known baseName =
      if row.baseName = baseName then memo (c.known baseName) row.name else c.known baseName := by
  unfold RosterCache.remember RosterCache.known memo
  by_cases own : row.baseName = baseName
  · subst own
    by_cases told : c.ambiguous row.baseName = true
    · simp [told]
    · rw [if_neg (by simp [some_, told]), if_pos rfl, if_neg told]
      split
      · simp
      · simpa using told
  · rw [if_neg own]
    split
    · rfl
    · split
      · simp [Function.update_of_ne (Ne.symm own)]
      · simp [Function.update_of_ne (Ne.symm own)]

theorem foldl_remember_known (rows : List BusRow) (c : RosterCache) {baseName : String}
    (some_ : baseName ≠ "") :
    (rows.foldl RosterCache.remember c).known baseName =
    (namesOf rows baseName).foldl memo (c.known baseName) := by
  induction rows generalizing c with
  | nil => rfl
  | cons row rows inductionHypothesis =>
    rw [List.foldl_cons, inductionHypothesis, remember_known c row some_]
    unfold namesOf
    split
    · next own => rw [List.filter_cons_of_pos (by simpa using own), List.map_cons, List.foldl_cons]
    · next other => rw [List.filter_cons_of_neg (by simpa using other)]

/-- Nothing else of the cache changes. -/
theorem foldl_remember_rest (rows : List BusRow) (c : RosterCache) :
    (rows.foldl RosterCache.remember c).rows = c.rows ∧
    (rows.foldl RosterCache.remember c).initialized = c.initialized ∧
      (rows.foldl RosterCache.remember c).at_ = c.at_ ∧
      (rows.foldl RosterCache.remember c).changed = c.changed := by
  induction rows generalizing c with
  | nil => exact ⟨rfl, rfl, rfl, rfl⟩
  | cons row rows inductionHypothesis =>
    obtain ⟨rows_, initialized, at_, changed⟩ := inductionHypothesis (c.remember row)
    rw [List.foldl_cons, rows_, initialized, at_, changed]
    unfold RosterCache.remember
    split
    · exact ⟨rfl, rfl, rfl, rfl⟩
    · split <;> exact ⟨rfl, rfl, rfl, rfl⟩

theorem foldl_memo_told (names : List String) (known : Option String) :
    names.foldl memo (known, true) = (known, true) := by
  induction names with
  | nil => rfl
  | cons name names inductionHypothesis => exact inductionHypothesis

theorem foldl_memo_some {name : String} (some_ : name ≠ "") (names : List String) :
    names.foldl memo (some name, false) =
      if ∀ other ∈ names, other = name then (some name, false) else (none, true) := by
  induction names with
  | nil => rfl
  | cons other names inductionHypothesis =>
    rw [List.foldl_cons]
    by_cases same : other = name
    · have stays : memo (some name, false) other = (some name, false) := by simp [memo, same]
      rw [stays, inductionHypothesis]
      simp [same]
    · have told : memo (some name, false) other = (none, true) := by
        simp [memo, some_, Ne.symm same]
      rw [told, foldl_memo_told, if_neg]
      intro all
      exact same (all other List.mem_cons_self)

/-- What is known of a base name is the one name that it was given. -/
theorem foldl_memo (names : List String) (known : Option String) (blank : known.getD "" = "") :
    let ended := names.foldl memo (known, false)
    (if ¬ ended.2 ∧ ended.1.getD "" ≠ "" then some (ended.1.getD "") else none) =
        onlyName names := by
  induction names generalizing known with
  | nil => simp [onlyName, blank]
  | cons name names inductionHypothesis =>
    have first : memo (known, false) name = (some name, false) := by simp [memo, blank]
    rw [List.foldl_cons, first]
    by_cases empty : name = ""
    · have rest := inductionHypothesis (some name) (by simpa using empty)
      unfold onlyName at rest ⊢
      rw [List.dropWhile_cons_of_pos (by simpa using empty)]
      exact rest
    · unfold onlyName
      rw [foldl_memo_some empty, List.dropWhile_cons_of_neg (by simpa using empty)]
      dsimp only
      split
      · simp [empty]
      · simp

end

/-! ## The invariant -/

section

variable {steps : List RosterStep}

theorem admitted_append (earlier : List Landing) (landing : Landing) :
    admitted (earlier ++ [landing]) =
      if ∀ other ∈ admitted earlier, other.observed ≤ landing.observed then admitted earlier ++
        [landing] else admitted earlier := by
  unfold admitted
  rw [List.foldl_append, List.foldl_cons, List.foldl_nil]

theorem admitted_sublist (all : List Landing) : (admitted all).Sublist all := by
  induction all using List.reverseRecOn with
  | nil => exact List.nil_sublist _
  | append_singleton earlier landing inductionHypothesis =>
    rw [admitted_append]
    split
    · exact inductionHypothesis.append (List.Sublist.refl _)
    · exact inductionHypothesis.trans (List.sublist_append_left _ _)

/-- The last of the admitted fetches began last of all. -/
theorem admitted_newest (all : List Landing) :
    (all ≠ [] → admitted all ≠ []) ∧ ∀ last, (admitted all).getLast? = some last → last ∈ all ∧
    ∀ other ∈ all, other.observed ≤ last.observed := by
  induction all using List.reverseRecOn with
  | nil => exact ⟨fun none_ => absurd rfl none_, fun _ own => by cases own⟩
  | append_singleton earlier landing inductionHypothesis =>
    obtain ⟨some_, newest⟩ := inductionHypothesis
    rw [admitted_append]
    split
    · next newer =>
      refine ⟨fun _ => by simp, fun last own => ?_⟩
      have same : landing = last := by simpa using own
      subst same
      refine ⟨by simp, fun other inside => ?_⟩
      rcases List.mem_append.mp inside with early | own
      · have taken := some_ (List.ne_nil_of_mem early)
        obtain ⟨-, all⟩ := newest _ (List.getLast?_eq_some_getLast taken)
        have below := newer _ (List.getLast_mem taken)
        exact (all other early).trans below
      · rw [List.mem_singleton.mp own]
    · next older =>
      push Not at older
      obtain ⟨taken, inside, above⟩ := older
      have any : admitted earlier ≠ [] := List.ne_nil_of_mem inside
      refine ⟨fun _ => any, fun last own => ?_⟩
      obtain ⟨member, all⟩ := newest last own
      refine ⟨List.mem_append_left _ member, fun other inside' => ?_⟩
      rcases List.mem_append.mp inside' with early | same
      · exact all other early
      · have := all taken ((admitted_sublist earlier).subset inside)
        rw [List.mem_singleton.mp same]
        omega

/-- What the cache holds after fetches that were admitted, and a change of the serve. -/
structure Cached (c : RosterCache) (taken : List Landing) (changed : Option Int) : Prop where
  rows : c.rows = (taken.getLast?.map Landing.rows).getD []
  initialized : c.initialized = !taken.isEmpty
  at_ : c.at_ = (taken.getLast?.map Landing.observed).getD 0
  changed : c.changed = changed.getD 0
  known : ∀ baseName, baseName ≠ "" →
    c.known baseName = (namesOf (taken.flatMap Landing.rows) baseName).foldl memo (none, false)

theorem cached_run (steps : List RosterStep) : Cached (RosterCache.run steps)
    (admitted (landings steps)) (lastExpired steps) := by
  induction steps using List.reverseRecOn with
  | nil => exact ⟨rfl, rfl, rfl, rfl, fun _ _ => rfl⟩
  | append_singleton steps step inductionHypothesis =>
    obtain ⟨rows, initialized, at_, changed, known⟩ := inductionHypothesis
    have ran : RosterCache.run (steps ++ [step]) = (RosterCache.run steps).step step := by
      unfold RosterCache.run
      rw [List.foldl_append, List.foldl_cons, List.foldl_nil]
    rw [ran]
    cases step with
    | expired now =>
      have same : landings (steps ++ [.expired now]) = landings steps := by
        simp [landings, RosterStep.landing]
      have last : lastExpired (steps ++ [.expired now]) = some now := by
        simp [lastExpired, RosterStep.expiry]
      rw [same, last]
      exact ⟨rows, initialized, at_, rfl, known⟩
    | landed landing =>
      have more : landings (steps ++ [.landed landing]) = landings steps ++ [landing] := by
        simp [landings, RosterStep.landing]
      have last : lastExpired (steps ++ [.landed landing]) = lastExpired steps := by
        simp [lastExpired, RosterStep.expiry]
      rw [more, last, admitted_append]
      have within := (admitted_sublist (landings steps)).subset
      have newest := (admitted_newest (landings steps)).2
      generalize admitted (landings steps) = taken at *
      -- The newest observation is the last one taken, so it alone decides.
      have refused :
        ((RosterCache.run steps).initialized = true ∧
        landing.observed < (RosterCache.run steps).at_) ↔
          ¬ ∀ other ∈ taken, other.observed ≤ landing.observed := by
        rw [initialized, at_]
        rcases List.eq_nil_or_concat' taken with none_ | ⟨front, latest, some_⟩
        · simp [none_]
        · have latest_ : taken.getLast? = some latest := by simp [some_]
          have all := (newest latest latest_).2
          constructor
          · rintro ⟨-, less⟩ below
            rw [latest_] at less
            have := below latest (List.mem_of_getLast? latest_)
            simp only [Option.map_some, Option.getD_some] at less
            omega
          · intro above
            push Not at above
            obtain ⟨other, inside, later⟩ := above
            have := all other (within inside)
            rw [latest_]
            simp only [Option.map_some, Option.getD_some]
            refine ⟨by simp [some_], by omega⟩
      show Cached ((RosterCache.run steps).setObserved landing.rows landing.observed).1 _ _
      unfold RosterCache.setObserved
      by_cases newer : ∀ other ∈ taken, other.observed ≤ landing.observed
      · rw [if_pos newer, if_neg fun old => refused.mp old newer]
        dsimp only
        generalize started :
          ({ RosterCache.run steps with rows := landing.rows, initialized := true, at_ := landing.observed } : RosterCache) = c
        obtain ⟨rows', initialized', at_', changed'⟩ := foldl_remember_rest landing.rows c
        subst started
        refine ⟨?_, ?_, ?_, changed'.trans changed, fun baseName some_ => ?_⟩
        · rw [rows']
          simp
        · rw [initialized']
          simp
        · rw [at_']
          simp
        · rw [foldl_remember_known _ _ some_]
          have before :
            ({ RosterCache.run steps with rows := landing.rows, initialized := true, at_ := landing.observed } : RosterCache).known
              baseName = (namesOf (taken.flatMap Landing.rows) baseName).foldl memo (none, false) :=
                known baseName some_
          rw [before, ← List.foldl_append]
          simp [namesOf, List.flatMap_append]
      · rw [if_neg newer, if_pos (refused.mpr newer)]
        exact ⟨rows, initialized, at_, changed, known⟩

/-- However fetches land: what is served as fresh is what came of the fetch that began last of all,
within the bound
and not before the serve's own last change.  A base name is resolved to the one row that has it, to
itself where
several do, and else to the one name that the fetches gave it, if they agreed. -/
theorem roster_cached (steps : List RosterStep) :
    (∀ now bound rows, (RosterCache.run steps).fresh now bound = some rows →
      ∃ landing ∈ landings steps, landing.rows = rows ∧
        (∀ other ∈ landings steps, other.observed ≤ landing.observed) ∧
        landing.observed ≤ now ∧ now ≤ landing.observed + bound ∧ ∀ changed ∈ lastExpired steps,
          changed ≤ landing.observed) ∧
      ∀ raw, raw ≠ "" →
        (RosterCache.run steps).resolve raw =
          match ((admitted (landings steps)).getLast?.map
            Landing.rows).getD [] |>.filter fun row => row.baseName = raw with
          | [row] => row.name
          | _ :: _ :: _ => raw
          | [] => (onlyName (namesOf ((admitted (landings steps)).flatMap Landing.rows) raw)).getD
              raw := by
  obtain ⟨rows, initialized, at_, changed, known⟩ := cached_run steps
  constructor
  · intro now bound served fresh
    unfold RosterCache.fresh at fresh
    split at fresh
    · cases fresh
    · next in_ =>
      cases fresh
      push Not at in_
      obtain ⟨some_, short, past, unchanged⟩ := in_
      rw [initialized] at some_
      -- What is served is what the last landing brought that was admitted.
      obtain ⟨front, latest, last⟩ :=
        (List.eq_nil_or_concat' (admitted (landings steps))).resolve_left (by simpa using some_)
      have latest_ : (admitted (landings steps)).getLast? = some latest := by simp [last]
      rw [latest_] at rows at_
      simp only [Option.map_some, Option.getD_some] at rows at_
      obtain ⟨inside, all⟩ := (admitted_newest (landings steps)).2 latest latest_
      refine ⟨latest, inside, rows.symm, all, by omega, by omega, fun time own => ?_⟩
      rw [Option.mem_def.mp own] at changed
      simp only [Option.getD_some] at changed
      omega
  · intro raw some_
    have remembered :=
      foldl_memo (namesOf ((admitted (landings steps)).flatMap Landing.rows) raw) none rfl
    rw [← known raw some_] at remembered
    unfold RosterCache.resolve byUniqueBaseName
    rw [rows]
    generalize ((admitted (landings steps)).getLast?.map Landing.rows).getD [] = cached
    cases found : cached.filter fun row => row.baseName = raw with
    | nil =>
      have none_ : (cached.any fun row => row.baseName = raw) = false := by
        rw [List.any_eq_false]
        exact List.filter_eq_nil_iff.mp found
      dsimp only
      rw [none_, if_neg (by simp), ← remembered]
      unfold RosterCache.known
      split <;> rfl
    | cons row others =>
      have some_ : (cached.any fun row => row.baseName = raw) = true := by
        have inside : row ∈ cached.filter fun row => row.baseName = raw := by simp [found]
        rw [List.any_eq_true]
        exact ⟨row, List.mem_filter.mp inside⟩
      cases others with
      | nil => rfl
      | cons other others =>
        dsimp only
        rw [some_, if_pos rfl]

end

/-- A row of the roster, of which only the names matter here. -/
def cachedRow (name baseName : String) : BusRow where
  name := name
  baseName := baseName
  tool := "claude"
  tag := ""
  sessionID := ""
  parentName := ""
  transcriptPath := ""
  createdAt := .zero
  status := "active"
  paneID := ""

/-- A fetch lands, an older one after it, the serve changes the roster, and a fetch that began later
lands. -/
def fetched : List RosterStep :=
  [.landed ⟨[cachedRow "scout-two" "scout"], 20⟩, .landed ⟨[cachedRow "scout-one" "scout"], 10⟩,
    .expired 25,
    .landed ⟨[cachedRow "riko" "riko"], 30⟩]

/-- What is fresh is of the last fetch; a name that it lacks is still the one that an earlier fetch
gave. -/
theorem roster_cached_sample :
    (∃ landing ∈ landings fetched, landing.rows = [cachedRow "riko" "riko"] ∧
    landing.observed ≤ 31 ∧ 25 ≤ landing.observed) ∧
      (RosterCache.run fetched).resolve "scout" = "scout-two" := by
  obtain ⟨served, resolved⟩ := roster_cached fetched
  obtain ⟨landing, inside, rows, -, before, -, after⟩ := served 31 5 [cachedRow "riko" "riko"] rfl
  refine ⟨⟨landing, inside, rows, before, after 25 rfl⟩, ?_⟩
  rw [resolved "scout" (by decide)]
  decide +kernel

end AiConfig.Herder.Fleet
