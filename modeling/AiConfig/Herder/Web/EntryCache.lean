import Mathlib.Data.List.Nodup
import Mathlib.Logic.Function.Iterate
import Mathlib.Logic.Relation
import AiConfig.Herder.Transcript.Entries

/-! # The transcript cache

Transcription of `loadEntries` of the web client's `queries.ts` against the entries endpoint.  Each
answer is an event, so that a file may grow between the requests of one call.

* `Exact` — a page holds the last of the entries between where its window starts and its
  `nextOffset`.
* `cache_follows` — every cached page is exact, unless a page brings an entry under the identity of
  one
  that is cached; every call ends at the end of the file, once the file does not grow. -/

namespace AiConfig.Herder.SessionEntries

open AiConfig.Lib

open Observer (Bytes newline completeEnd readLines reverseBlockSize)

def entryWindowLimit : Nat := 500

section

variable {Body : Type} (classifier : Classifier Body)

/-! ## The client -/

def entryIdentity (entry : Entry Body) : String :=
  if entry.uuid ≠ "" then entry.uuid else "offset:" ++ toString entry.byteOffset

/-- What a call waits for: the tail, or one more page after an offset. -/
inductive Request (Body : Type) where
  | tail
  | page (current : EntriesPage Body) (offset : Nat) (entries : List (Entry Body))

def Request.query : Request Body → Query
  | .tail => .tail
  | .page current offset _ => .from_ offset current.sessionId

/-- How `loadEntries` starts. -/
def loadEntries (current : Option (EntriesPage Body)) : Request Body :=
  match current with
  | none => .tail
  | some current =>
    if current.sessionId = "" then .tail
    else match current.nextOffset with
      | none => .tail
      | some offset => .page current offset (current.entries.getD [])

inductive Outcome (Body : Type) where
  | again (request : Request Body)
  | done (page : EntriesPage Body)

/-- What `loadEntries` does with an answer. -/
def received (request : Request Body) (page : EntriesPage Body) : Outcome Body :=
  match request with
  | .tail => .done page
  | .page current offset entries =>
    if page.reset.isSome then .again .tail
    else
      let incoming := page.entries.getD []
      let seen := entries.map entryIdentity
      let entries :=
        -- Records that are there already are dropped by identity.
        (entries ++ incoming.filter fun entry => entryIdentity entry ∉ seen).rtake entryWindowLimit
      let latest := { page with windowFrom := current.windowFrom, entries := some entries }
      let advanced := page.nextOffset.getD offset
      -- A short page, or one that does not advance, is the last.
      if incoming.length < entryWindowLimit ∨ advanced = offset then .done latest
      else .again (.page current advanced entries)

/-! ## Runs -/

/-- The sessions' files, the agent's session, the cached page and the call that waits. -/
structure World (Body : Type) where
  files : String → Bytes
  session : String
  cache : Option (EntriesPage Body)
  pending : Option (Request Body)

namespace World

def start (session : String) : World Body := ⟨fun _ => [], session, none, none⟩

/-- What the endpoint answers at this moment. -/
def serve (world : World Body) (request : Request Body) : EntriesPage Body :=
  serveEntries classifier world.session (world.files world.session) entryWindowLimit request.query

/-- The answer to what is waited for arrives. -/
def answer (world : World Body) : World Body :=
  match world.pending with
  | none => world
  | some request =>
    match received request (world.serve classifier request) with
    | .again request => { world with pending := some request }
    | .done page => { world with cache := some page, pending := none }

/-- No entry of the answer has the identity of an entry that is cached. -/
def Fresh (world : World Body) : Prop :=
  ∀ current offset entries, world.pending = some (.page current offset entries) →
    ∀ entry ∈ ((world.serve classifier (.page current offset entries)).entries.getD []),
      entryIdentity entry ∉ entries.map entryIdentity

end World

/-- What happens in any order; a request that fails leaves the cache as it is. -/
inductive Step (admitted : World Body → Prop) (world : World Body) : World Body → Prop
  | grow (session : String) (more : Bytes) :
      Step admitted world
        { world with files := Function.update world.files session (world.files session ++ more) }
  | resume (session : String) : Step admitted world { world with session }
  | load (idle : world.pending = none) :
      Step admitted world { world with pending := some (loadEntries world.cache) }
  | answer (admits : admitted world) : Step admitted world (world.answer classifier)
  | fail : Step admitted world { world with pending := none }

def Run (admitted : World Body → Prop) (world : World Body) : Prop :=
  ∃ session, Relation.ReflTransGen (Step classifier admitted) (World.start session) world

/-- The page holds the last entries between where its window starts and where it has read to. -/
def Exact (file : Bytes) (page : EntriesPage Body) : Prop :=
  ∃ next, page.nextOffset = some next ∧ next ≤ completeEnd reverseBlockSize file ∧
    page.entries = some (((renderable classifier file).filter fun entry =>
      page.windowFrom ≤ entry.byteOffset ∧ entry.byteOffset < next).rtake entryWindowLimit)

/-! ## What is read so far -/

/-- A window read up to the end of a file's first records. -/
def Reads (file : Bytes) (from_ next : Nat) (entries : List (Entry Body)) : Prop :=
  ∃ before after torn, Cut newline file (before ++ after) torn ∧ next = before.flatten.length ∧
    from_ ≤ next ∧
    entries = ((rendered classifier 0 0 before).filter fun entry => from_ ≤ entry.byteOffset).rtake
      entryWindowLimit

theorem entryWindowLimit_pos : 0 < entryWindowLimit := by
  rw [entryWindowLimit]
  omega

variable {classifier}

/-- What is after the first records is not before their end. -/
theorem rendered_split (classifier : Classifier Body) {file torn : Bytes}
    {before after : List Bytes}
    (cut : Cut newline file (before ++ after) torn) :
    (∀ entry ∈ rendered classifier 0 0 before, entry.byteOffset < before.flatten.length) ∧
      ∀ entry ∈ rendered classifier before.length before.flatten.length after,
        before.flatten.length ≤ entry.byteOffset := by
  constructor
  · intro entry on
    have within := (rendered_within classifier cut.front.whole on).2
    rwa [Nat.zero_add] at within
  · intro entry on
    exact (rendered_within classifier cut.drop.whole on).1

theorem rendered_parts (classifier : Classifier Body) (before after : List Bytes) :
    rendered classifier 0 0 (before ++ after) =
      rendered classifier 0 0 before ++
        rendered classifier before.length before.flatten.length after := by
  rw [rendered_append, Nat.zero_add, Nat.zero_add]

namespace Reads

variable {file : Bytes} {from_ next : Nat} {entries : List (Entry Body)}

theorem grow (reads : Reads classifier file from_ next entries) (more : Bytes) :
    Reads classifier (file ++ more) from_ next entries := by
  obtain ⟨before, after, torn, cut, rest⟩ := reads
  obtain ⟨added, torn', cut'⟩ := cut.grow more
  rw [List.append_assoc] at cut'
  exact ⟨before, after ++ added, torn', cut', rest⟩

theorem exact_ (reads : Reads classifier file from_ next entries) (sessionId : String)
    (reset : Option ResetReason) :
    Exact classifier file ⟨sessionId, from_, some entries, some next, reset⟩ := by
  obtain ⟨before, after, torn, cut, rfl, low, are⟩ := reads
  rw [are]
  obtain ⟨earlier, later⟩ := rendered_split classifier cut
  refine ⟨_, rfl, ?_, ?_⟩
  · rw [Observer.completeEnd_eq _ cut, List.flatten_append, List.length_append]
    omega
  · have kept : (rendered classifier 0 0 before).filter
        (fun entry => from_ ≤ entry.byteOffset ∧ entry.byteOffset < before.flatten.length) =
        (rendered classifier 0 0 before).filter fun entry => from_ ≤ entry.byteOffset :=
      List.filter_congr fun entry on => by simpa using fun _ => earlier entry on
    have unread : (rendered classifier before.length before.flatten.length after).filter
        (fun entry => from_ ≤ entry.byteOffset ∧ entry.byteOffset < before.flatten.length) = [] :=
      List.filter_eq_nil_iff.mpr fun entry on => by simpa using fun _ => later entry on
    rw [renderable_eq classifier cut, rendered_parts classifier, List.filter_append, kept, unread,
      List.append_nil]

/-- The tail is a window that has read to the end. -/
theorem ofTail (file : Bytes) :
    Reads classifier file (readTail classifier file entryWindowLimit).2
      (readTail classifier file entryWindowLimit).1.nextOffset
      (readTail classifier file entryWindowLimit).1.entries := by
  obtain ⟨records, torn, cut⟩ := exists_cut newline file
  rw [readTail_eq classifier entryWindowLimit_pos cut]
  have ordered := rendered_ordered classifier cut.whole 0 0
  rw [← List.append_nil records] at cut
  refine ⟨records, [], torn, cut, rfl, ?_⟩
  cases last : (rendered classifier 0 0 records).rtake entryWindowLimit with
  | nil =>
    have none : rendered classifier 0 0 records = [] := by
      have length := congrArg List.length last
      rw [length_rtake, List.length_nil] at length
      have positive := entryWindowLimit_pos
      exact List.eq_nil_of_length_eq_zero (by omega)
    exact ⟨Nat.le_refl _, by simp [none]⟩
  | cons first rest =>
    have on : first ∈ rendered classifier 0 0 records := by
      refine List.mem_of_mem_drop (i :=
        (rendered classifier 0 0 records).length - entryWindowLimit) ?_
      show first ∈ (rendered classifier 0 0 records).rtake entryWindowLimit
      rw [last]
      exact List.mem_cons_self
    refine ⟨Nat.le_of_lt ((rendered_split classifier cut).1 first on), ?_⟩
    show first :: rest = ((rendered classifier 0 0 records).filter fun entry =>
      first.byteOffset ≤ entry.byteOffset).rtake _
    have few :
        ((rendered classifier 0 0 records).rtake entryWindowLimit).length ≤ entryWindowLimit := by
      rw [length_rtake]
      exact Nat.min_le_left ..
    rw [filter_from ordered last, rtake_of_le few, last]

/-- A page's entries follow those that are read; a page that is not full has read to the end. -/
theorem read (reads : Reads classifier file from_ next entries) :
    ∃ page, SessionEntries.read classifier file next entryWindowLimit = some page ∧
      Reads classifier file from_ page.nextOffset
        ((entries ++ page.entries).rtake entryWindowLimit) ∧
      next ≤ page.nextOffset ∧ (page.entries ≠ [] → next < page.nextOffset) ∧
      (page.entries.length < entryWindowLimit →
      page.nextOffset = completeEnd reverseBlockSize file) ∧
      (∀ entry ∈ entries, entry ∈ renderable classifier file ∧ entry.byteOffset < next) ∧
      ∀ entry ∈ page.entries, entry ∈ renderable classifier file ∧ next ≤ entry.byteOffset := by
  obtain ⟨before, after, torn, cut, rfl, low, are⟩ := reads
  rw [are]
  obtain ⟨front, back, rfl, is, fits, all⟩ := read_eq classifier entryWindowLimit cut
  rw [← List.append_assoc] at cut
  obtain ⟨earlier, later⟩ := rendered_split classifier cut.front
  have all' := renderable_eq classifier cut
  have parts := rendered_parts classifier before front
  have longer : before.flatten.length ≤ (before ++ front).flatten.length := by simp
  refine ⟨_, is, ?_, longer, ?_, ?_, ?_, ?_⟩
  · refine ⟨before ++ front, back, torn, cut, rfl, low.trans longer, ?_⟩
    have kept : (rendered classifier before.length before.flatten.length front).filter
      (fun entry => from_ ≤ entry.byteOffset) =
        rendered classifier before.length before.flatten.length front :=
      List.filter_eq_self.mpr fun entry on => by simpa using low.trans (later entry on)
    rw [rtake_rtake_append, parts, List.filter_append, kept]
  · intro some
    obtain ⟨entry, on⟩ := List.exists_mem_of_ne_nil _ some
    have above := later entry on
    have below := (rendered_split classifier cut).1 entry
      (by rw [parts]; exact List.mem_append_right _ on)
    show before.flatten.length < (before ++ front).flatten.length
    omega
  · intro short
    rw [all fun _ => short, List.append_nil] at cut
    rw [Observer.completeEnd_eq _ cut]
  · intro entry on
    have on' := List.mem_of_mem_drop on
    have old := (List.mem_filter.mp on').1
    refine ⟨?_, earlier entry old⟩
    rw [all', rendered_parts classifier, parts]
    exact List.mem_append_left _ (List.mem_append_left _ old)
  · intro entry on
    refine ⟨?_, later entry on⟩
    rw [all', rendered_parts classifier, parts]
    exact List.mem_append_left _ (List.mem_append_right _ on)

end Reads

/-! ## Answers -/

variable {world : World Body}

/-- The page after an offset, from the session that it is asked of. -/
theorem serve_page {current : EntriesPage Body} {offset : Nat} {entries : List (Entry Body)}
    {page : ReadResult Body}
    (same : ¬(current.sessionId ≠ "" ∧ current.sessionId ≠ world.session))
    (reads : read classifier (world.files world.session) offset entryWindowLimit = some page) :
    world.serve classifier (.page current offset entries) =
      ⟨world.session, offset, some page.entries, some page.nextOffset, none⟩ := by
  have inside : ¬(world.files world.session).length < offset := by
    intro beyond
    rw [read, if_pos beyond] at reads
    cases reads
  rw [World.serve, Request.query, serveEntries, tail, if_neg same, if_neg inside, reads]

/-- An answer for another session, or to an offset past the size, is a reset. -/
theorem serve_reset (classifier : Classifier Body) {current : EntriesPage Body} {offset : Nat}
    (entries : List (Entry Body))
    (lost : (current.sessionId ≠ "" ∧ current.sessionId ≠ world.session) ∨
    (world.files world.session).length < offset) :
    ∃ reset, world.serve classifier (.page current offset entries) =
      ⟨world.session, offset, none, none, some reset⟩ := by
  rw [World.serve, Request.query, serveEntries, tail]
  by_cases other : current.sessionId ≠ "" ∧ current.sessionId ≠ world.session
  · exact ⟨.sessionChanged, by rw [if_pos other]⟩
  · have beyond := lost.resolve_left other
    exact ⟨.truncated, by rw [if_neg other, if_pos beyond]⟩

theorem serve_tail : world.serve classifier .tail =
    ⟨world.session, (readTail classifier (world.files world.session) entryWindowLimit).2,
      some (readTail classifier (world.files world.session) entryWindowLimit).1.entries,
      some (readTail classifier (world.files world.session) entryWindowLimit).1.nextOffset, none⟩ :=
  rfl

theorem answer_tail (waits : world.pending = some .tail) :
    world.answer classifier =
      { world with cache := some (world.serve classifier .tail), pending := none } := by
  rw [World.answer, waits]
  rfl

theorem answer_reset {current : EntriesPage Body} {offset : Nat} {entries : List (Entry Body)}
    (waits : world.pending = some (.page current offset entries))
    (lost : (current.sessionId ≠ "" ∧ current.sessionId ≠ world.session) ∨
    (world.files world.session).length < offset) :
    world.answer classifier = { world with pending := some .tail } := by
  obtain ⟨reset, is⟩ := serve_reset classifier entries lost
  rw [World.answer, waits]
  simp only [is, received]
  rfl

/-- What a page does, its entries being filtered. -/
theorem answer_page {current : EntriesPage Body} {offset : Nat} {entries : List (Entry Body)}
    {page : ReadResult Body}
    (waits : world.pending = some (.page current offset entries))
    (same : ¬(current.sessionId ≠ "" ∧ current.sessionId ≠ world.session))
    (reads : read classifier (world.files world.session) offset entryWindowLimit = some page) :
    let kept :=
      (entries ++ page.entries.filter fun entry =>
        entryIdentity entry ∉ entries.map entryIdentity).rtake entryWindowLimit
    world.answer classifier =
      if page.entries.length < entryWindowLimit ∨ page.nextOffset = offset then
        { world with
          cache := some ⟨world.session, current.windowFrom, some kept, some page.nextOffset, none⟩
          pending := none }
      else { world with pending := some (.page current page.nextOffset kept) } := by
  intro kept
  rw [World.answer, waits]
  simp only [serve_page same reads, received]
  split <;> rename_i outcome <;>
    simp only [Option.isSome_none, Bool.false_eq_true, if_false, Option.getD_some] at outcome <;>
    split at outcome
  · cases outcome
  · next more =>
    rw [if_neg more]
    cases outcome
    rfl
  · next ends =>
    rw [if_pos ends]
    cases outcome
    rfl
  · cases outcome

/-! ## Runs -/

/-- The cached page and the call that waits have read windows of their sessions' files. -/
structure Sound (classifier : Classifier Body) (world : World Body) : Prop where
  cached : ∀ page, world.cache = some page → ∃ next entries, page.nextOffset = some next ∧
    page.entries = some entries ∧
    Reads classifier (world.files page.sessionId) page.windowFrom next entries
  waits : ∀ current offset entries, world.pending = some (.page current offset entries) →
    current.sessionId ≠ "" ∧
    Reads classifier (world.files current.sessionId) current.windowFrom offset entries

theorem Sound.start (session : String) : Sound classifier (World.start session : World Body) :=
  ⟨fun _ is => (nomatch is), fun _ _ _ is => nomatch is⟩

theorem Sound.grow (sound : Sound classifier world) (session : String) (more : Bytes) :
    Sound classifier
      { world with files := Function.update world.files session (world.files session ++
      more) } := by
  have kept {id : String} {from_ next : Nat} {entries : List (Entry Body)}
      (reads : Reads classifier (world.files id) from_ next entries) :
      Reads classifier (Function.update world.files session (world.files session ++ more) id) from_
          next entries := by
    by_cases same : id = session
    · subst same
      rw [Function.update_self]
      exact reads.grow more
    · rw [Function.update_of_ne same]
      exact reads
  constructor
  · intro page is
    obtain ⟨next, entries, ends, holds, reads⟩ := sound.cached page is
    exact ⟨next, entries, ends, holds, kept reads⟩
  · intro current offset entries is
    obtain ⟨named, reads⟩ := sound.waits current offset entries is
    exact ⟨named, kept reads⟩

theorem Sound.load (sound : Sound classifier world) :
    Sound classifier { world with pending := some (loadEntries world.cache) } := by
  refine ⟨sound.cached, fun current offset entries is => ?_⟩
  have starts : loadEntries world.cache = .page current offset entries := Option.some.inj is
  cases cached : world.cache with
  | none =>
    rw [cached] at starts
    cases starts
  | some page =>
    obtain ⟨next, held, ends, holds, reads⟩ := sound.cached page cached
    by_cases unnamed : page.sessionId = ""
    · rw [cached, loadEntries, if_pos unnamed] at starts
      cases starts
    · rw [cached, loadEntries, if_neg unnamed, ends, holds] at starts
      cases starts
      exact ⟨unnamed, reads⟩

/-- The entries of a fresh answer are all kept. -/
theorem fresh_filter {current : EntriesPage Body} {offset : Nat} {entries : List (Entry Body)}
    {page : ReadResult Body}
    (fresh : world.Fresh classifier) (waits : world.pending = some (.page current offset entries))
    (same : ¬(current.sessionId ≠ "" ∧ current.sessionId ≠ world.session))
    (reads : read classifier (world.files world.session) offset entryWindowLimit = some page) :
    (page.entries.filter fun entry => entryIdentity entry ∉ entries.map entryIdentity) =
    page.entries := by
  refine List.filter_eq_self.mpr fun entry on => ?_
  have new := fresh current offset entries waits entry
  rw [serve_page same reads] at new
  exact decide_eq_true (new on)

theorem Sound.answer (sound : Sound classifier world) (fresh : world.Fresh classifier) :
    Sound classifier (world.answer classifier) := by
  cases waits : world.pending with
  | none =>
    rw [World.answer, waits]
    exact sound
  | some request =>
    cases request with
    | tail =>
      rw [answer_tail waits]
      refine ⟨fun page is => ?_, fun _ _ _ is => nomatch is⟩
      obtain rfl := Option.some.inj is
      exact ⟨_, _, rfl, rfl, Reads.ofTail (world.files world.session)⟩
    | page current offset entries =>
      obtain ⟨named, reads⟩ := sound.waits current offset entries waits
      by_cases same : current.sessionId = world.session
      · rw [same] at reads
        obtain ⟨page, is, longer, -⟩ := reads.read
        have goes := answer_page waits (fun other => other.2 same) is
        rw [fresh_filter fresh waits (fun other => other.2 same) is] at goes
        rw [goes]
        split
        · refine ⟨fun cached is => ?_, fun _ _ _ is => nomatch is⟩
          obtain rfl := Option.some.inj is
          exact ⟨_, _, rfl, rfl, longer⟩
        · refine ⟨sound.cached, fun current' offset' entries' is => ?_⟩
          cases is
          exact ⟨named, same ▸ longer⟩
      · rw [answer_reset waits (.inl ⟨named, same⟩)]
        exact ⟨sound.cached, fun _ _ _ is => nomatch is⟩

theorem Sound.run (run : Run classifier (World.Fresh classifier) world) :
    Sound classifier world := by
  obtain ⟨session, run⟩ := run
  induction run with
  | refl => exact .start session
  | tail _ last sound =>
    cases last with
    | grow session more => exact sound.grow session more
    | resume session => exact ⟨sound.cached, sound.waits⟩
    | load idle => exact sound.load
    | answer fresh => exact sound.answer fresh
    | fail => exact ⟨sound.cached, fun _ _ _ is => nomatch is⟩

/-! ## Where a call ends -/

/-- A call that ends has read its session's file to the end. -/
theorem Sound.ends (sound : Sound classifier world) {request : Request Body}
    (waits : world.pending = some request)
    (over_ : (world.answer classifier).pending = none) :
    ∃ page, (world.answer classifier).cache = some page ∧ page.sessionId = world.session ∧
      page.nextOffset = some (completeEnd reverseBlockSize (world.files world.session)) := by
  cases request with
  | tail =>
    obtain ⟨records, torn, cut⟩ := exists_cut newline (world.files world.session)
    refine ⟨world.serve classifier .tail, by rw [answer_tail waits], rfl, ?_⟩
    rw [serve_tail, readTail_eq classifier entryWindowLimit_pos cut, Observer.completeEnd_eq _ cut]
  | page current offset entries =>
    obtain ⟨named, reads⟩ := sound.waits current offset entries waits
    by_cases same : current.sessionId = world.session
    · rw [same] at reads
      obtain ⟨page, is, -, -, further, all, -⟩ := reads.read
      rw [answer_page waits (fun other => other.2 same) is] at over_ ⊢
      split at over_
      · next ends =>
        have short : page.entries.length < entryWindowLimit := by
          obtain short | still := ends
          · exact short
          · have none : page.entries = [] := by
              by_contra some
              exact absurd still (Nat.ne_of_gt (further some))
            rw [none]
            exact entryWindowLimit_pos
        rw [if_pos ends]
        exact ⟨_, rfl, rfl, congrArg some (all short)⟩
      · cases over_
    · rw [answer_reset waits (.inl ⟨named, same⟩)] at over_
      cases over_

/-- Entries of different identities are fresh. -/
theorem Sound.fresh (sound : Sound classifier world)
    (distinct : ((renderable classifier (world.files world.session)).map entryIdentity).Nodup) :
    world.Fresh classifier := by
  intro current offset entries waits entry on
  obtain ⟨named, reads⟩ := sound.waits current offset entries waits
  by_cases same : current.sessionId = world.session
  · rw [same] at reads
    obtain ⟨page, is, -, -, -, -, held, brought⟩ := reads.read
    rw [serve_page (fun other => other.2 same) is] at on
    obtain ⟨there, late⟩ := brought entry on
    intro seen
    obtain ⟨other, cached, twice⟩ := List.mem_map.mp seen
    obtain ⟨there', early⟩ := held other cached
    have one := List.inj_on_of_nodup_map distinct there' there twice
    rw [one] at early
    omega
  · obtain ⟨reset, is⟩ := serve_reset classifier entries (.inl ⟨named, same⟩)
    rw [is] at on
    cases on

/-! ## Calls end -/

theorem flatten_readLines (unended text : Bytes) :
    (readLines unended text).flatten = unended ++ text := by
  induction text generalizing unended with
  | nil =>
    rw [readLines]
    split
    · next none => simp [none]
    · simp
  | cons byte text inductionHypothesis =>
    rw [readLines]
    split <;> simp [inductionHypothesis]

/-- A window ends within the lines that it reads. -/
theorem readLoop_bounds (classifier : Classifier Body) (limit line : Nat) (lines : List Bytes)
    (result : ReadResult Body) :
    result.nextOffset ≤ (readLoop classifier limit line lines result).nextOffset ∧
      (readLoop classifier limit line lines result).nextOffset ≤
      result.nextOffset + lines.flatten.length := by
  induction lines generalizing line result with
  | nil => simp [readLoop]
  | cons raw rest inductionHypothesis =>
    rw [readLoop, List.flatten_cons, List.length_append]
    split
    · exact ⟨Nat.le_refl _, Nat.le_add_right ..⟩
    · simp only
      split
      · have bounds :=
          inductionHypothesis (line + 1) ⟨result.entries, result.nextOffset + raw.length⟩
        simp only at bounds
        omega
      · next entry _ =>
        split
        · exact ⟨Nat.le_refl _, Nat.le_add_right ..⟩
        · have bounds :=
            inductionHypothesis (line + 1)
            ⟨result.entries ++ [entry], result.nextOffset + raw.length⟩
          simp only at bounds
          omega

theorem read_bounds {file : Bytes} {offset limit : Nat} {result : ReadResult Body}
    (reads : read classifier file offset limit = some result) :
    offset ≤ result.nextOffset ∧ result.nextOffset ≤ file.length := by
  rw [read] at reads
  split at reads
  · cases reads
  · next inside =>
    cases reads
    have bounds :=
      readLoop_bounds classifier limit (lineAt file offset) (readLines [] (file.drop offset))
      ⟨[], offset⟩
    rw [flatten_readLines, List.nil_append, List.length_drop] at bounds
    simp only at bounds
    omega

/-- While the files do not change, every call ends. -/
theorem ends (classifier : Classifier Body) (world : World Body) :
    ∃ n, ((World.answer classifier)^[n] world).pending = none := by
  have tail (world : World Body) (waits : world.pending = some .tail) :
      ((World.answer classifier)^[1] world).pending = none := by
    rw [Function.iterate_one, answer_tail waits]
  cases waits : world.pending with
  | none => exact ⟨0, waits⟩
  | some request =>
    cases request with
    | tail => exact ⟨1, tail world waits⟩
    | page current offset entries =>
      -- Each full page starts the next one further on, and none starts beyond the file.
      induction left :
          (world.files world.session).length - offset using Nat.strongRecOn generalizing world
          offset entries with
      | _ left inductionHypothesis =>
        by_cases lost : (current.sessionId ≠ "" ∧ current.sessionId ≠ world.session) ∨
            (world.files world.session).length < offset
        · refine ⟨1 + 1, ?_⟩
          rw [Function.iterate_add_apply, Function.iterate_one, answer_reset waits lost]
          exact tail { world with pending := some .tail } rfl
        · obtain ⟨same, inside⟩ := not_or.mp lost
          have is : read classifier (world.files world.session) offset entryWindowLimit = some _ :=
            if_neg inside
          have bounds := read_bounds is
          have goes := answer_page waits same is
          simp only at goes
          split at goes
          · exact ⟨1, by rw [Function.iterate_one, goes]⟩
          · next more =>
            have further := (not_or.mp more).2
            have file : (world.answer classifier).files (world.answer classifier).session =
                world.files world.session := by
              rw [goes]
            obtain ⟨n, stops⟩ :=
              inductionHypothesis _ (by rw [file]; omega) _ _ _ (congrArg World.pending goes) rfl
            exact ⟨n + 1, by rw [Function.iterate_succ_apply]; exact stops⟩

/-! ## What the cache holds -/

/-- In a run whose answers bring no entry under the identity of one that is cached, a cached page
holds
the last entries there are, and a call ends at the end of the file.  A reset leads to the current
tail,
and a call ends once the files do not grow. -/
theorem cache_follows (classifier : Classifier Body) {world : World Body}
    (run : Run classifier (World.Fresh classifier) world) :
    (∀ page, world.cache = some page → Exact classifier (world.files page.sessionId) page) ∧
    (∀ request, world.pending = some request → (world.answer classifier).pending = none →
      ∃ page, (world.answer classifier).cache = some page ∧ page.sessionId = world.session ∧
        page.nextOffset = some (completeEnd reverseBlockSize (world.files world.session))) ∧
    (((renderable classifier (world.files world.session)).map entryIdentity).Nodup →
    world.Fresh classifier) ∧
    (∀ any : World Body, any.pending = some .tail →
    ∃ page, (any.answer classifier).cache = some page ∧
      page.sessionId = any.session ∧ Exact classifier (any.files any.session) page ∧
      page.entries =
        some ((renderable classifier (any.files any.session)).rtake entryWindowLimit)) ∧
    (∀ (any : World Body) current offset entries,
    any.pending = some (.page current offset entries) →
      (current.sessionId ≠ "" ∧ current.sessionId ≠ any.session) ∨
      (any.files any.session).length < offset →
      any.answer classifier = { any with pending := some .tail }) ∧
    ∀ any : World Body, ∃ n, ((World.answer classifier)^[n] any).pending = none := by
  have sound := Sound.run run
  refine ⟨fun page is => ?_, fun request waits => sound.ends waits, sound.fresh, fun any waits =>
    ?_,
    fun any current offset entries => answer_reset, ends classifier⟩
  · obtain ⟨next, entries, ends, holds, reads⟩ := sound.cached page is
    have exact_ := reads.exact_ page.sessionId page.reset
    rw [← ends, ← holds] at exact_
    exact exact_
  · refine ⟨any.serve classifier .tail, by rw [answer_tail waits], rfl, (Reads.ofTail _).exact_ ..,
      ?_⟩
    obtain ⟨records, torn, cut⟩ := exists_cut newline (any.files any.session)
    show some (readTail classifier _ _).1.entries = _
    rw [readTail_eq classifier entryWindowLimit_pos cut, renderable_eq classifier cut]

end

/-! ## A repeated uuid -/

def letterPage : EntriesPage Unit := ⟨"s", 0, some [⟨"a", 0, 0, ()⟩], some 2, none⟩

/-- A session whose first record is cached, and a call that waits for the second. -/
def waiting (second : Bytes) : World Unit :=
  let files := Function.update (fun _ => []) "s" letter
  ⟨Function.update files "s" (files "s" ++ second), "s", some letterPage,
    some (.page letterPage 2 [⟨"a", 0, 0, ()⟩])⟩

theorem run_waiting (admitted : World Unit → Prop) (second : Bytes)
    (admits : ∀ world : World Unit, world.pending = some .tail → admitted world) :
    Run lettered admitted (waiting second) := by
  let begun : World Unit := ⟨Function.update (fun _ => []) "s" letter, "s", none, none⟩
  let loading : World Unit := { begun with pending := some .tail }
  let cached : World Unit := { begun with cache := some letterPage }
  have grows : Step lettered admitted (World.start "s") begun := .grow "s" letter
  have loads : Step lettered admitted begun loading := .load rfl
  have answers : Step lettered admitted loading cached := by
    have served : loading.serve lettered .tail = letterPage := by decide +kernel
    have goes : loading.answer lettered = _ :=
      answer_tail (show loading.pending = some .tail from rfl)
    rw [served] at goes
    have step : Step lettered admitted loading _ := .answer (admits loading rfl)
    rw [goes] at step
    exact step
  let grown : World Unit :=
    { cached with files := Function.update cached.files "s" (cached.files "s" ++ second) }
  have further : Step lettered admitted cached grown := .grow "s" second
  have waits : Step lettered admitted grown (waiting second) := .load rfl
  exact ⟨"s", ((((Relation.ReflTransGen.single grows).tail loads).tail answers).tail further).tail
    waits⟩

theorem cache_follows_waiting : Run lettered (World.Fresh lettered)
    ((waiting [newline]).answer lettered) ∧
    ∀ page, ((waiting [newline]).answer lettered).cache = some page →
      Exact lettered (((waiting [newline]).answer lettered).files page.sessionId) page := by
  have fresh : (waiting [newline]).Fresh lettered := by
    intro current offset entries is
    cases is
    decide +kernel
  obtain ⟨session, run⟩ :=
      run_waiting (World.Fresh lettered) [newline] fun world waits current offset entries is => by
    rw [waits] at is
    cases is
  have answered : Run lettered (World.Fresh lettered) ((waiting [newline]).answer lettered) :=
    ⟨session, run.tail (.answer fresh)⟩
  exact ⟨answered, (cache_follows lettered answered).1⟩

/-- The second record of a uuid is left out where the first is cached. -/
theorem repeated_uuid_left_out : ¬ ∀ (Body : Type) (classifier : Classifier Body)
    (world : World Body),
    Run classifier (fun _ => True) world → ∀ page, world.cache = some page →
      Exact classifier (world.files page.sessionId) page := by
  intro exact_
  obtain ⟨session, run⟩ := run_waiting (fun _ => True) letter fun _ _ => trivial
  have cached : ((waiting letter).answer lettered).cache =
    some { letterPage with nextOffset := some 4 } := by decide +kernel
  obtain ⟨next, ends, -, holds⟩ :=
    exact_ Unit lettered _ ⟨session, run.tail (.answer trivial)⟩ _ cached
  obtain rfl : 4 = next := Option.some.inj ends
  revert holds
  decide +kernel

end AiConfig.Herder.SessionEntries
