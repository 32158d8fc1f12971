import AiConfig.Herder.Observer.Tail

/-! # An observed session

Transcription of `seed`, `advance` and `refresh` in `observer/session.go`, and of what `sync` and
`sweep` in `observer/discover.go` do to one session: a session awaits its file, tails it, and is
seeded again when the file got shorter.

`vitals_agree` says that an observation that leaves a session tailing leaves it with the vitals
that a direct read returns, as long as the file was only appended to since the session read it
last or is shorter than its offset. -/

namespace AiConfig.Herder.Observer

open AiConfig.Lib

variable {Usage : Type}

/-! ## One session -/

inductive Phase where
  | awaitingFile | seeding | tailing | truncated | ended
  deriving DecidableEq

structure Session (Usage : Type) where
  tool : Tool
  subagent : Bool
  /-- Whether `path` is filled. -/
  path : Bool
  phase : Phase
  offset : Nat
  size : Nat
  vitals : Vitals Usage

def Session.new (tool : Tool) (subagent : Bool) : Session Usage :=
  ⟨tool, subagent, false, .awaitingFile, 0, 0, .zero⟩

/-- What there is at the session's path. -/
def Session.opened (s : Session Usage) (file : Option Bytes) : Option Bytes :=
  if s.path then file else none

/-- `ResolvePath` says whether there is a path. -/
def resolve (found : Bool) (s : Session Usage) : Session Usage × Bool :=
  if found then ({ s with path := true }, true)
  else ({ s with path := false, phase := .awaitingFile }, false)

def seed (parsers : Parsers Usage) (file : Option Bytes) (s : Session Usage) : Session Usage :=
  let s := { s with phase := .seeding }
  match Seed parsers s.tool s.subagent (s.opened file) with
  | .error _ => { s with phase := .awaitingFile }
  | .ok (vitals, end_) =>
      { s with vitals := vitals, offset := end_, size := end_, phase := .tailing }

def advance (parsers : Parsers Usage) (file : Option Bytes) (s : Session Usage) :
    Session Usage × Nat :=
  if s.phase ≠ .tailing then (s, 0)
  else
    match Advance parsers s.tool s.subagent (s.opened file) s.offset s.vitals with
    | .error .truncated => (seed parsers file { s with phase := .truncated }, 0)
    | .error .notExist => ({ s with phase := .awaitingFile }, 0)
    | .ok (vitals, end_, read) => ({ s with vitals := vitals, offset := end_, size := end_ }, read)

def refresh (parsers : Parsers Usage) (found : Bool) (file : Option Bytes) (s : Session Usage) :
    Session Usage × Nat :=
  match s.phase with
  | .ended => (s, 0)
  | .awaitingFile =>
    if s.path then (seed parsers file s, 0)
    else
      let (s, resolved) := resolve found s
      if resolved then (seed parsers file s, 0) else (s, 0)
  | _ => advance parsers file s

/-- The session is refreshed if its file has another size. -/
def stat (parsers : Parsers Usage) (found : Bool) (file : Option Bytes) (s : Session Usage) :
    Session Usage × Nat :=
  match s.opened file with
  | none => ({ s with phase := .awaitingFile }, 0)
  | some content => if content.length ≠ s.size then refresh parsers found file s else (s, 0)

/-- The safety pass. -/
def sweep (parsers : Parsers Usage) (found : Bool) (file : Option Bytes) (s : Session Usage) :
    Session Usage × Nat :=
  match s.phase with
  | .ended => (s, 0)
  | .awaitingFile => refresh parsers found file s
  | _ => stat parsers found file s

/-- A session that came back to the roster. -/
def comeBack (parsers : Parsers Usage) (found : Bool) (file : Option Bytes) (s : Session Usage) :
    Session Usage × Nat :=
  if s.phase = .ended then refresh parsers found file { s with phase := .tailing } else (s, 0)

inductive Observation where
  | refresh | sweep | comeBack
  deriving DecidableEq

def observe (parsers : Parsers Usage) (found : Bool) (file : Option Bytes) (s : Session Usage) :
    Observation → Session Usage × Nat
  | .refresh => refresh parsers found file s
  | .sweep => sweep parsers found file s
  | .comeBack => comeBack parsers found file s

/-- A session on the roster all along has not come back. -/
def Looks (s : Session Usage) (observation : Observation) : Prop :=
  observation = .comeBack → s.phase = .ended

/-- The observation goes on from the session's offset. -/
def Continues (s : Session Usage) (observation : Observation) : Prop :=
  s.phase = .tailing ∨ s.phase = .ended ∧ observation = .comeBack

/-! ## The session and its file -/

inductive Change where
  | append (bytes : Bytes)
  | truncate (size : Nat)
  /-- Anything else: the file is written anew, created or removed. -/
  | replace (content : Option Bytes)

def Change.apply : Change → Option Bytes → Option Bytes
  | .append bytes, file => file.map (· ++ bytes)
  | .truncate size, file => file.map (List.take size)
  | .replace content, _ => content

def Change.isAppend : Change → Bool
  | .append _ => true
  | _ => false

structure World (Usage : Type) where
  file : Option Bytes
  session : Session Usage
  /-- Since the session read the file, it was only appended to. -/
  appended : Bool
  /-- What the last seed read, and what was folded since: where it starts, and its bytes. -/
  seeded : Bytes
  folds : List (Nat × Bytes)

def World.new (tool : Tool) (subagent : Bool) (file : Option Bytes) : World Usage :=
  ⟨file, .new tool subagent, false, [], []⟩

def World.change (w : World Usage) (change : Change) : World Usage :=
  { w with file := change.apply w.file, appended := w.appended && change.isAppend }

/-- The session is gone from the roster. -/
def World.end_ (w : World Usage) : World Usage :=
  { w with session := { w.session with phase := .ended } }

/-- The bytes of the file that an observation read from the session's offset. -/
def World.read (w : World Usage) (count : Nat) : Bytes :=
  slice (w.file.getD []) w.session.offset (w.session.offset + count)

/-- A session that awaited its file, or that goes back in it, was seeded. -/
def Reseeded (s s' : Session Usage) : Prop :=
  s'.phase = .tailing ∧ (s.phase = .awaitingFile ∨ s'.offset < s.offset)

instance (s s' : Session Usage) : Decidable (Reseeded s s') := inferInstanceAs (Decidable (_ ∧ _))

def World.after (w : World Usage) (session : Session Usage) (read : Nat) : World Usage where
  file := w.file
  session := session
  appended := session.phase = .tailing || w.appended
  seeded := if Reseeded w.session session then (w.file.getD []).take session.offset else w.seeded
  folds :=
    if Reseeded w.session session then []
    else if read = 0 then w.folds
    else w.folds ++ [(w.session.offset, w.read read)]

def World.observe (parsers : Parsers Usage) (w : World Usage) (observation : Observation)
    (found : Bool) : World Usage :=
  let (session, read) := Observer.observe parsers found w.file w.session observation
  w.after session read

/-- The file was only appended to since the session read it, or is shorter than the session's
offset. -/
def Settled (w : World Usage) (observation : Observation) : Prop :=
  Continues w.session observation → ∀ content, w.file = some content → w.appended = true ∨
    content.length < w.session.offset

inductive Run (parsers : Parsers Usage) : World Usage → Prop where
  | start (tool : Tool) (subagent : Bool) (file : Option Bytes) :
      Run parsers (.new tool subagent file)
  | change {w : World Usage} (run : Run parsers w) (change : Change) : Run parsers (w.change change)
  | end_ {w : World Usage} (run : Run parsers w) : Run parsers w.end_
  | observe {w : World Usage} (run : Run parsers w) (observation : Observation) (found : Bool)
      (looks : Looks w.session observation) (settled : Settled w observation) :
        Run parsers (w.observe parsers observation found)

/-- The session stands at the end of the last complete record, with the vitals of a direct read;
what was folded since the seed stands one after the other and makes up what the seed had not read.
-/
structure Agrees (parsers : Parsers Usage) (w : World Usage) (content : Bytes) : Prop where
  file : w.file = some content
  offset : ∀ records torn, Cut newline content records torn →
    w.session.offset = records.flatten.length
  vitals : readVitals parsers w.session.tool w.session.subagent content =
    (w.session.vitals, w.session.offset)
  disjoint : w.folds.Pairwise fun earlier later => earlier.1 + earlier.2.length ≤ later.1
  contiguous : w.folds = placed w.seeded.length (w.folds.map Prod.snd)
  covers : content.take w.session.offset = w.seeded ++ (w.folds.map Prod.snd).flatten

/-! ## What an observation does -/

/-- A session that differs in its path and phase at most. -/
structure Keeps (s s' : Session Usage) : Prop where
  tool : s'.tool = s.tool
  subagent : s'.subagent = s.subagent
  offset : s'.offset = s.offset
  size : s'.size = s.size
  vitals : s'.vitals = s.vitals

theorem Keeps.refl (s : Session Usage) : Keeps s s := ⟨rfl, rfl, rfl, rfl, rfl⟩

/-- A session that has read the file from its offset or anew. -/
structure Reads (s s' : Session Usage) : Prop where
  tool : s'.tool = s.tool
  subagent : s'.subagent = s.subagent
  phase : s'.phase = .tailing
  size : s'.size = s'.offset

/-- What an observation can do to a session. -/
inductive Observed (parsers : Parsers Usage) (file : Option Bytes) (s : Session Usage)
    (observation : Observation) :
    Session Usage → Nat → Prop where
  | kept {s' : Session Usage} (keeps : Keeps s s') (phase : s'.phase ≠ .tailing) :
      Observed parsers file s observation s' 0
  | seeded {s' : Session Usage} {content : Bytes} (found : file = some content) (reads : Reads s s')
      (anew : s.phase = .awaitingFile ∨ Continues s observation ∧
        completeEnd reverseBlockSize content < s.offset)
      (direct : readVitals parsers s.tool s.subagent content = (s'.vitals, s'.offset)) :
        Observed parsers file s observation s' 0
  | advanced {s' : Session Usage} {content : Bytes} {read : Nat} (found : file = some content)
      (reads : Reads s s')
      (going : Continues s observation)
      (folded : Advance parsers s.tool s.subagent (some content) s.offset s.vitals =
        .ok (s'.vitals, s'.offset, read)) :
      Observed parsers file s observation s' read
  | skipped {content : Bytes} (found : file = some content) (phase : s.phase = .tailing)
      (same : content.length = s.size) :
      Observed parsers file s observation s 0

section

variable {parsers : Parsers Usage} {file : Option Bytes} {s s' : Session Usage}
  {observation : Observation}

theorem opened_some {content : Bytes} (opened : s.opened file = some content) :
    file = some content := by
  unfold Session.opened at opened
  split at opened
  · exact opened
  · cases opened

theorem observed_seed (keeps : Keeps s s')
    (anew : ∀ content, file = some content →
      s.phase = .awaitingFile ∨ Continues s observation ∧
        completeEnd reverseBlockSize content < s.offset) :
    Observed parsers file s observation (seed parsers file s') 0 := by
  unfold seed
  have same : ({ s' with phase := .seeding } : Session Usage).opened file = s'.opened file := rfl
  dsimp only
  rw [same]
  cases opened : s'.opened file with
  | none => exact .kept ⟨keeps.tool, keeps.subagent, keeps.offset, keeps.size, keeps.vitals⟩ nofun
  | some content =>
    have found := opened_some opened
    refine .seeded found ⟨keeps.tool, keeps.subagent, rfl, rfl⟩ (anew content found) ?_
    rw [← keeps.tool, ← keeps.subagent]
    rfl

theorem observed_advance (keeps : Keeps s s') (going : Continues s observation)
    (phase : s'.phase = .tailing) :
    Observed parsers file s observation (advance parsers file s').1
      (advance parsers file s').2 := by
  unfold advance
  rw [if_neg (by simp [phase])]
  cases opened : s'.opened file with
  | none => exact .kept ⟨keeps.tool, keeps.subagent, keeps.offset, keeps.size, keeps.vitals⟩ nofun
  | some content =>
    have found := opened_some opened
    cases folded : Advance parsers s'.tool s'.subagent (some content) s'.offset s'.vitals with
    | error failure =>
      have short : completeEnd reverseBlockSize content < s'.offset ∧ failure = .truncated := by
        unfold Advance at folded
        dsimp only at folded
        split at folded
        · next short => exact ⟨short, (Except.error.inj folded).symm⟩
        · split at folded <;> cases folded
      obtain ⟨short, rfl⟩ := short
      refine observed_seed ⟨keeps.tool, keeps.subagent, keeps.offset, keeps.size, keeps.vitals⟩ ?_
      intro content' found'
      obtain rfl := Option.some.inj (found.symm.trans found')
      exact .inr ⟨going, keeps.offset ▸ short⟩
    | ok result =>
      obtain ⟨vitals, end_, read⟩ := result
      rw [keeps.tool, keeps.subagent, keeps.offset, keeps.vitals] at folded
      exact .advanced found ⟨keeps.tool, keeps.subagent, phase, rfl⟩ going folded

theorem observed_refresh (found : Bool) (keeps : Keeps s s')
    (awaiting : s'.phase = .awaitingFile → s.phase = .awaitingFile)
    (going : s'.phase = .tailing → Continues s observation) :
    Observed parsers file s observation (refresh parsers found file s').1
      (refresh parsers found file s').2 := by
  unfold refresh
  cases phase : s'.phase with
  | ended => exact .kept keeps (by simp [phase])
  | awaitingFile =>
    have anew := fun (content : Bytes) (_ : file = some content) =>
      Or.inl (b := Continues s observation ∧ completeEnd reverseBlockSize content < s.offset)
        (awaiting phase)
    dsimp only
    split
    · exact observed_seed keeps anew
    · cases found with
      | true => exact observed_seed ⟨keeps.tool, keeps.subagent, keeps.offset, keeps.size,
          keeps.vitals⟩ anew
      | false => exact .kept ⟨keeps.tool, keeps.subagent, keeps.offset, keeps.size,
          keeps.vitals⟩ nofun
  | tailing => exact observed_advance keeps (going phase) phase
  | seeding =>
    have nothing : advance parsers file s' = (s', 0) := if_pos (by simp [phase])
    dsimp only
    rw [nothing]
    exact .kept keeps (by simp [phase])
  | truncated =>
    have nothing : advance parsers file s' = (s', 0) := if_pos (by simp [phase])
    dsimp only
    rw [nothing]
    exact .kept keeps (by simp [phase])

/-- Every observation is one of these. -/
theorem observed (found : Bool) (looks : Looks s observation) :
    Observed parsers file s observation (observe parsers found file s observation).1
      (observe parsers found file s observation).2 := by
  have refreshed : Observed parsers file s observation (refresh parsers found file s).1
      (refresh parsers found file s).2 :=
    observed_refresh found (.refl s) id fun tails => .inl tails
  cases observation with
  | refresh => exact refreshed
  | sweep =>
    show Observed parsers file s .sweep (sweep parsers found file s).1
      (sweep parsers found file s).2
    unfold sweep
    have statted : Observed parsers file s .sweep (stat parsers found file s).1
        (stat parsers found file s).2 := by
      unfold stat
      cases opened : s.opened file with
      | none => exact .kept ⟨rfl, rfl, rfl, rfl, rfl⟩ nofun
      | some content =>
        dsimp only
        split
        · exact refreshed
        · next same =>
          by_cases phase : s.phase = .tailing
          · exact .skipped (opened_some opened) phase (by simpa using same)
          · exact .kept (.refl s) phase
    cases phase : s.phase with
    | ended => exact .kept (.refl s) (by simp [phase])
    | awaitingFile => exact refreshed
    | tailing => exact statted
    | seeding => exact statted
    | truncated => exact statted
  | comeBack =>
    show Observed parsers file s .comeBack (comeBack parsers found file s).1
      (comeBack parsers found file s).2
    rw [comeBack, if_pos (looks rfl)]
    exact observed_refresh found ⟨rfl, rfl, rfl, rfl, rfl⟩ nofun fun _ => .inr ⟨looks rfl, rfl⟩

end

/-! ## What a run keeps -/

/-- The session stands at the end of the records of what it has seen, with the latest of each fact.
-/
structure Tracks (parsers : Parsers Usage) (w : World Usage) (seen : Bytes) (records : List Bytes)
    (torn : Bytes) : Prop where
  cut : Cut newline seen records torn
  offset : w.session.offset = records.flatten.length
  size : w.session.size = records.flatten.length
  vitals : w.session.vitals = latest (parsers.facts w.session.tool w.session.subagent) records
  appended : w.appended = true → ∀ content, w.file = some content → seen <+: content
  contiguous : w.folds = placed w.seeded.length (w.folds.map Prod.snd)
  covers : records.flatten = w.seeded ++ (w.folds.map Prod.snd).flatten

theorem placed_append (start : Nat) (records : List Bytes) (record : Bytes) :
    placed start (records ++ [record]) = placed start records ++
      [(start + records.flatten.length, record)] := by
  induction records generalizing start with
  | nil => rfl
  | cons first records inductionHypothesis => simp [placed, inductionHypothesis, Nat.add_assoc]

section

variable {parsers : Parsers Usage} {w : World Usage} {seen : Bytes} {records : List Bytes}
  {torn : Bytes}

theorem Tracks.change (tracks : Tracks parsers w seen records torn) (change : Change) :
    Tracks parsers (w.change change) seen records torn := by
  refine { tracks with appended := ?_ }
  intro appended content file
  obtain ⟨before, isAppend⟩ := (Bool.and_eq_true _ _).mp appended
  cases change with
  | append bytes =>
    obtain ⟨earlier, found, rfl⟩ := Option.map_eq_some_iff.mp file
    exact (tracks.appended before earlier found).trans (List.prefix_append earlier bytes)
  | truncate size => cases isAppend
  | replace content => cases isAppend

theorem Tracks.keep (tracks : Tracks parsers w seen records torn) {session : Session Usage}
    (keeps : Keeps w.session session)
    (phase : session.phase ≠ .tailing) : Tracks parsers (w.after session 0) seen records torn := by
  have same : ¬ Reseeded w.session session := fun reseeded => phase reseeded.1
  constructor
  · exact tracks.cut
  · exact keeps.offset.trans tracks.offset
  · exact keeps.size.trans tracks.size
  · show session.vitals = latest (parsers.facts session.tool session.subagent) records
    rw [keeps.vitals, keeps.tool, keeps.subagent, tracks.vitals]
  · intro appended
    exact tracks.appended (by simpa [World.after, phase] using appended)
  · simp only [World.after, if_neg same, if_true]
    exact tracks.contiguous
  · simp only [World.after, if_neg same, if_true]
    exact tracks.covers

/-- A seed reads all there is. -/
theorem tracks_seed {content : Bytes} {session : Session Usage} (found : w.file = some content)
    (reads : Reads w.session session)
    (reseeded : Reseeded w.session session)
    (direct : readVitals parsers w.session.tool w.session.subagent content =
    (session.vitals, session.offset)) :
    ∃ records torn, Tracks parsers (w.after session 0) content records torn := by
  obtain ⟨records, torn, cut⟩ := exists_cut newline content
  rw [readVitals_eq parsers _ _ cut, Prod.mk.injEq] at direct
  obtain ⟨vitals, offset⟩ := direct
  refine ⟨records, torn, ?_⟩
  constructor
  · exact cut
  · exact offset.symm
  · exact reads.size.trans offset.symm
  · show session.vitals = latest (parsers.facts session.tool session.subagent) records
    rw [reads.tool, reads.subagent, vitals]
  · intro _ other file
    have same := Option.some.inj (found.symm.trans file)
    exact same ▸ List.prefix_rfl
  · simp only [World.after, if_pos reseeded]
    rfl
  · simp only [World.after, if_pos reseeded, found, Option.getD_some, ← offset]
    rw [cut.log, List.take_left]
    simp

/-- Where the file was only appended to, what is read is what came since. -/
theorem Tracks.advance (tracks : Tracks parsers w seen records torn) {content : Bytes}
    {session : Session Usage} {read : Nat}
    (found : w.file = some content) (reads : Reads w.session session)
    (going : w.session.phase ≠ .awaitingFile)
    (grown : seen <+: content)
    (folded : Advance parsers w.session.tool w.session.subagent
    (some content) w.session.offset w.session.vitals =
      .ok (session.vitals, session.offset, read)) :
    ∃ records torn, Tracks parsers (w.after session read) content records torn := by
  obtain ⟨more, rfl⟩ := grown
  obtain ⟨added, torn', cut⟩ := tracks.cut.grow more
  rw [tracks.offset, tracks.vitals, Advance_eq parsers _ _ cut, Except.ok.injEq, Prod.mk.injEq,
    Prod.mk.injEq] at folded
  obtain ⟨vitals, offset, rfl⟩ := folded
  have length :
      (records ++ added).flatten.length = records.flatten.length + added.flatten.length := by
    rw [List.flatten_append, List.length_append]
  -- An advance goes on from the offset; nothing is read again.
  have same : ¬ Reseeded w.session session := by
    rintro ⟨-, awaiting | back⟩
    · exact going awaiting
    · rw [← offset, tracks.offset] at back
      omega
  have bytes : w.read added.flatten.length = added.flatten := by
    rw [World.read, found, Option.getD_some, tracks.offset, ← length, slice, cut.log,
      List.take_left, List.flatten_append,
      List.drop_left]
  have seeded :
      records.flatten.length = w.seeded.length + (w.folds.map Prod.snd).flatten.length := by
    rw [tracks.covers, List.length_append]
  refine ⟨records ++ added, torn', ?_⟩
  constructor
  · exact cut
  · exact offset.symm
  · exact reads.size.trans offset.symm
  · show session.vitals = latest (parsers.facts session.tool session.subagent) (records ++ added)
    rw [reads.tool, reads.subagent, vitals]
  · intro _ other file
    have same := Option.some.inj (found.symm.trans file)
    exact same ▸ List.prefix_rfl
  · simp only [World.after, if_neg same]
    split
    · exact tracks.contiguous
    · rw [List.map_append, List.map_singleton, placed_append, ← tracks.contiguous, tracks.offset,
        seeded]
  · simp only [World.after, if_neg same]
    rw [List.flatten_append, tracks.covers]
    split
    · next none =>
      rw [List.eq_nil_of_length_eq_zero none, List.append_nil]
    · rw [List.map_append, List.map_singleton, List.flatten_append, List.flatten_singleton, bytes,
        List.append_assoc]

/-- A file of the size it had ends where it ended. -/
theorem Tracks.skip (tracks : Tracks parsers w seen records torn) {content : Bytes}
    (grown : seen <+: content) (same : content.length = w.session.size) : seen = content := by
  have length := congrArg List.length tracks.cut.log
  rw [List.length_append] at length
  rw [tracks.size] at same
  exact grown.eq_of_length_le (by omega)

/-- An observation keeps the session with its file, and one that leaves it tailing brings it up to
date. -/
theorem Tracks.observe (tracks : Tracks parsers w seen records torn) {observation : Observation}
    (settled : Settled w observation)
    {session : Session Usage} {read : Nat}
    (outcome : Observed parsers w.file w.session observation session read) :
    ∃ seen' records' torn', Tracks parsers (w.after session read) seen' records' torn' ∧
      (session.phase = .tailing → w.file = some seen') := by
  cases outcome with
  | kept keeps phase => exact ⟨seen, records, torn, tracks.keep keeps phase, fun tails =>
      absurd tails phase⟩
  | @seeded _ content found reads anew direct =>
    have reseeded : Reseeded w.session session := by
      refine ⟨reads.phase, anew.imp id fun short => ?_⟩
      obtain ⟨records', torn', cut⟩ := exists_cut newline content
      rw [readVitals_eq parsers _ _ cut, Prod.mk.injEq] at direct
      rw [← direct.2, ← completeEnd_eq reverseBlockSize cut]
      exact short.2
    obtain ⟨records', torn', tracks'⟩ := tracks_seed found reads reseeded direct
    exact ⟨content, records', torn', tracks', fun _ => found⟩
  | @advanced _ content _ found reads going folded =>
    -- A file that was settled before has only grown since it was last seen.
    have grown : seen <+: content := by
      rcases settled going content found with appended | short
      · exact tracks.appended appended content found
      · rw [Advance_truncated parsers _ _ _ short] at folded
        cases folded
    have notAwaiting : w.session.phase ≠ .awaitingFile := by
      rcases going with tails | ⟨ended, -⟩
      · simp [tails]
      · simp [ended]
    obtain ⟨records', torn', tracks'⟩ := tracks.advance found reads notAwaiting grown folded
    exact ⟨content, records', torn', tracks', fun _ => found⟩
  | @skipped content found phase same =>
    have grown : seen <+: content := by
      rcases settled (.inl phase) content found with appended | short
      · exact tracks.appended appended content found
      · rw [tracks.offset, ← tracks.size, ← same] at short
        exact absurd short (Nat.lt_irrefl _)
    obtain rfl := tracks.skip grown same
    have still : ¬ Reseeded w.session w.session := by
      rintro ⟨tails, awaiting | back⟩
      · rw [tails] at awaiting
        cases awaiting
      · exact absurd back (Nat.lt_irrefl _)
    refine ⟨seen, records, torn, ⟨tracks.cut, tracks.offset, tracks.size, tracks.vitals, ?_, ?_,
      ?_⟩, fun _ => found⟩
    · intro _ other file
      have same := Option.some.inj (found.symm.trans file)
      exact same ▸ List.prefix_rfl
    · simp only [World.after, if_neg still, if_true]
      exact tracks.contiguous
    · simp only [World.after, if_neg still, if_true]
      exact tracks.covers

theorem Run.tracks (run : Run parsers w) :
    ∃ seen records torn, Tracks parsers w seen records torn := by
  induction run with
  | start tool subagent file => exact ⟨[], [], [], .empty, rfl, rfl, rfl, nofun, rfl, rfl⟩
  | change run change inductionHypothesis =>
    obtain ⟨seen, records, torn, tracks⟩ := inductionHypothesis
    exact ⟨seen, records, torn, tracks.change change⟩
  | end_ run inductionHypothesis =>
    obtain ⟨seen, records, torn, tracks⟩ := inductionHypothesis
    exact ⟨seen, records, torn, { tracks with }⟩
  | observe run observation found looks settled inductionHypothesis =>
    obtain ⟨seen, records, torn, tracks⟩ := inductionHypothesis
    obtain ⟨seen', records', torn', tracks', -⟩ := tracks.observe settled (observed found looks)
    exact ⟨seen', records', torn', tracks'⟩

/-- Records that stand one after the other do not overlap. -/
theorem pairwise_placed (start : Nat) (records : List Bytes) :
    (placed start records).Pairwise fun earlier later => earlier.1 + earlier.2.length ≤
    later.1 := by
  induction records generalizing start with
  | nil => exact .nil
  | cons record records inductionHypothesis =>
    refine .cons ?_ (inductionHypothesis _)
    rintro ⟨offset, other⟩ inside
    obtain ⟨before, after, -, rfl⟩ := mem_placed.mp inside
    exact Nat.le_add_right _ _

end

/-- After an observation that leaves a session tailing, it stands at the end of the last complete
record with the vitals that a direct read of the file returns, and what was folded since the seed
are the bytes since, each once: for every run of changes to the file and of observations of it,
each with the file only appended to since the session read it or shorter than its offset. -/
theorem vitals_agree {parsers : Parsers Usage} {w : World Usage} (run : Run parsers w)
    {observation : Observation} {found : Bool}
    (looks : Looks w.session observation) (settled : Settled w observation)
    (tails : (w.observe parsers observation found).session.phase = .tailing) :
    ∃ content, Agrees parsers (w.observe parsers observation found) content := by
  obtain ⟨seen, records, torn, tracks⟩ := run.tracks
  obtain ⟨content, records', torn', after, current⟩ := tracks.observe settled (observed found looks)
  have file : (w.observe parsers observation found).file = some content := current tails
  have tracks' : Tracks parsers (w.observe parsers observation found) content records' torn' :=
    after
  refine ⟨content, file, ?_, ?_, ?_, tracks'.contiguous, ?_⟩
  · intro records'' torn'' cut
    have same := completeEnd_eq reverseBlockSize cut
    rw [completeEnd_eq reverseBlockSize tracks'.cut] at same
    exact tracks'.offset.trans same
  · rw [readVitals_eq parsers _ _ tracks'.cut]
    exact Prod.ext tracks'.vitals.symm tracks'.offset.symm
  · rw [tracks'.contiguous]
    exact pairwise_placed _ _
  · rw [tracks'.offset, ← tracks'.covers, tracks'.cut.log, List.take_left]

/-- Of a line, its first byte. -/
def firstByte : Parsers UInt8 := ⟨fun line _ => ⟨"", line.head?⟩, fun line => ⟨"", line.head?⟩⟩

/-- A file that was seeded with one record, and then got another and part of a third. -/
def appendedTo : World UInt8 :=
  ((World.new .claude false (some [1, newline])).observe firstByte .refresh true).change
    (.append [2, newline, 3])

theorem appendedTo_run : Run firstByte appendedTo :=
  .change (.observe (.start .claude false _) .refresh true nofun nofun) (.append [2, newline, 3])

theorem vitals_agree_appendedTo : Run firstByte appendedTo ∧ Looks appendedTo.session .refresh ∧
    Settled appendedTo .refresh ∧
    (appendedTo.observe firstByte .refresh true).session.phase = .tailing ∧
    ∃ content, Agrees firstByte (appendedTo.observe firstByte .refresh true) content := by
  have settled : Settled appendedTo .refresh := fun _ _ _ => .inl (by decide +kernel)
  have tails : (appendedTo.observe firstByte .refresh true).session.phase = .tailing := by
    decide +kernel
  exact ⟨appendedTo_run, nofun, settled, tails, vitals_agree appendedTo_run nofun settled tails⟩

end AiConfig.Herder.Observer
