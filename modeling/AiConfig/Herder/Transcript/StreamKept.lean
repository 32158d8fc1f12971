import AiConfig.Herder.Transcript.Stream

/-! # The stream of a transcript

* `Followed` — what an agent was sent, as the records of its file between two offsets.
* `Told` — what was sent since the last end that was captured.
* `transcript_streamed` — after any run, an agent was sent the entries from where it was last
  announced, in order. -/

namespace AiConfig.Herder.EventStream

open AiConfig.Lib
open SessionEntries (Entry Classifier Cursor ReadResult tail rendered renderable renderable_eq
  rendered_append rendered_within read_eq
  lettered letter)
open Observer (Bytes newline completeEnd reverseBlockSize)

/-! ## What was read -/

section

variable {Body : Type} {classifier : Classifier Body} {file : Bytes} {from_ offset : Nat}
  {entries : List (Entry Body)}

/-- The entries of the file's whole records between two offsets. -/
def Followed (classifier : Classifier Body) (file : Bytes) (from_ offset : Nat)
    (entries : List (Entry Body)) : Prop :=
  ∃ before sent, Cut newline (file.take offset) (before ++ sent) [] ∧ offset ≤ file.length ∧
    from_ = before.flatten.length ∧
    offset = (before ++ sent).flatten.length ∧
      entries = rendered classifier before.length before.flatten.length sent

theorem Followed.capture (classifier : Classifier Body) (file : Bytes) :
    Followed classifier file (completeEnd reverseBlockSize file) (completeEnd reverseBlockSize file)
      [] := by
  obtain ⟨records, torn, cut⟩ := exists_cut newline file
  have whole := cut.log
  rw [Observer.completeEnd_eq _ cut]
  refine ⟨records, [], ?_, ?_, rfl, by rw [List.append_nil], rfl⟩
  · rw [whole, List.take_left, List.append_nil]
    exact cut.trim
  · rw [whole, List.length_append]
    omega

/-- The file's records: what was there before, what was sent, and the rest. -/
theorem Followed.cut (followed : Followed classifier file from_ offset entries) :
    ∃ before sent records torn, Cut newline file ((before ++ sent) ++ records) torn ∧
      from_ = before.flatten.length ∧
      offset = (before ++ sent).flatten.length ∧
        entries = rendered classifier before.length before.flatten.length sent := by
  obtain ⟨before, sent, cut, inside, begins, ends, are⟩ := followed
  obtain ⟨records, torn, later⟩ := exists_cut newline (file.drop offset)
  have first := cut.log
  rw [List.append_nil] at first
  refine ⟨before, sent, records, torn, ⟨?_, ?_, later.torn⟩, begins, ends, are⟩
  · intro record own
    rcases List.mem_append.mp own with early | late
    · exact cut.whole record early
    · exact later.whole record late
  · rw [List.flatten_append, List.append_assoc, ← later.log, ← first, List.take_append_drop]

/-- More is read, from where the last read ended. -/
theorem Followed.read (followed : Followed classifier file from_ offset entries) (session : String)
    (limit : Nat) :
    ∃ read, tail classifier file session ⟨session, offset⟩ limit = .ok read ∧
      Followed classifier file from_ read.nextOffset (entries ++ read.entries) := by
  have inside : offset ≤ file.length := by
    obtain ⟨-, -, -, inside, -⟩ := followed
    exact inside
  obtain ⟨before, sent, records, torn, whole, begins, ends, are⟩ := followed.cut
  obtain ⟨front, back, rfl, read, -, -⟩ := read_eq classifier limit whole
  rw [← ends] at read
  refine ⟨⟨rendered classifier (before ++ sent).length offset front,
    ((before ++ sent) ++ front).flatten.length⟩, ?_, before, sent ++ front,
    ?_, ?_, begins, ?_, ?_⟩
  · unfold tail
    rw [if_neg (by simp), if_neg (not_lt.mpr inside), read]
  · rw [← List.append_assoc before sent front]
    have split := whole.log
    rw [← List.append_assoc, List.flatten_append, List.append_assoc] at split
    have taken : file.take ((before ++ sent) ++ front).flatten.length =
        ((before ++ sent) ++ front).flatten := by
      rw [split, List.take_left]
    rw [taken]
    rw [← List.append_assoc] at whole
    exact whole.front
  · have split := whole.log
    rw [← List.append_assoc, List.flatten_append, List.append_assoc] at split
    show ((before ++ sent) ++ front).flatten.length ≤ file.length
    rw [split, List.length_append]
    omega
  · rw [List.append_assoc]
  · rw [are, rendered_append, List.length_append, ends, List.flatten_append, List.length_append]

theorem Followed.keep (followed : Followed classifier file from_ offset entries) {content : Bytes}
    (kept : keeps offset file content = true) :
    Followed classifier content from_ offset entries ∨ content.length < offset := by
  unfold keeps at kept
  simp only [Bool.or_eq_true, Bool.and_eq_true, decide_eq_true_eq] at kept
  obtain short | ⟨inside, same⟩ := kept
  · exact Or.inr short
  · obtain ⟨before, sent, cut, -, begins, ends, are⟩ := followed
    by_cases fits : offset ≤ content.length
    · exact Or.inl ⟨before, sent, by rw [same]; exact cut, fits, begins, ends, are⟩
    · exact Or.inr (by omega)

end

/-! ## What was sent -/

section

variable {Body Board : Type} {name : String} {log : List (Act Body Board)}

def entriesFor (name : String) (log : List (Act Body Board)) : List (Entry Body) :=
  log.filterMap fun act =>
    match act with
    | .sent (.entry agent entry) => if agent = name then some entry else none
    | _ => none

/-- The frame tells a client to read the agent's transcript anew. -/
def announces (name : String) : Act Body Board → Bool
  | .sent (.rewindow agent) => agent = name
  | .sent (.subscribed agents) => name ∈ agents
  | _ => false

def captures (name : String) : Act Body Board → Bool
  | .captured agent _ _ => agent = name
  | _ => false

def isEntry (name : String) : Act Body Board → Bool
  | .sent (.entry agent _) => agent = name
  | _ => false

/-- No entry is sent to an agent and no end captured for it. -/
def Spares (name : String) (acts : List (Act Body Board)) : Prop :=
  ∀ act ∈ acts, captures name act = false ∧ isEntry name act = false

theorem entriesFor_append (first second : List (Act Body Board)) :
    entriesFor name (first ++ second) = entriesFor name first ++ entriesFor name second :=
  List.filterMap_append

theorem Spares.entriesFor {acts : List (Act Body Board)} (spares : Spares name acts) :
    EventStream.entriesFor name acts = [] := by
  unfold EventStream.entriesFor
  rw [List.filterMap_eq_nil_iff]
  intro act own
  have := (spares act own).2
  unfold isEntry at this
  split
  · simp only [decide_eq_false_iff_not] at this
    rw [if_neg this]
  · rfl

theorem entriesFor_sent (entries : List (Entry Body)) :
    entriesFor name (entries.map fun entry => (.sent (.entry name entry) : Act Body Board)) =
      entries := by
  induction entries with
  | nil => rfl
  | cons entry rest inductionHypothesis =>
    unfold entriesFor at inductionHypothesis ⊢
    rw [List.map_cons, List.filterMap_cons, inductionHypothesis]
    simp

/-- Since the last end captured for an agent, it was announced and sent these entries; or its
announcement is due. -/
def Told (due : Bool) (log : List (Act Body Board)) (name session : String) (from_ : Nat)
    (entries : List (Entry Body)) : Prop :=
  ∃ earlier later, log = earlier ++ .captured name session from_ :: later ∧
    (∀ act ∈ later, captures name act = false) ∧
    if due then entriesFor name later = [] ∧ entries = []
    else ∃ quiet announcement rest, later = quiet ++ announcement :: rest ∧
      announces name announcement = true ∧
      entriesFor name quiet = [] ∧ entriesFor name rest = entries

variable {due : Bool} {session : String} {from_ : Nat} {entries : List (Entry Body)}

theorem Told.more (told : Told due log name session from_ entries) {acts : List (Act Body Board)}
    (none_ : ∀ act ∈ acts, captures name act = false)
    (silent : due = true → entriesFor name acts = []) :
    Told due (log ++ acts) name session from_ (entries ++ entriesFor name acts) := by
  obtain ⟨earlier, later, rfl, uncaptured, ended⟩ := told
  refine ⟨earlier, later ++ acts, by simp, fun act own => ?_, ?_⟩
  · rcases List.mem_append.mp own with early | late
    · exact uncaptured act early
    · exact none_ act late
  · cases due with
    | true =>
      obtain ⟨before, rfl⟩ := ended
      refine ⟨?_, by rw [silent rfl, List.append_nil]⟩
      rw [entriesFor_append, before, silent rfl, List.append_nil]
    | false =>
      obtain ⟨quiet, announcement, rest, rfl, announced, before, rfl⟩ := ended
      exact ⟨quiet, announcement, rest ++ acts, by simp, announced, before,
        entriesFor_append rest acts⟩

theorem Told.spared (told : Told due log name session from_ entries) {acts : List (Act Body Board)}
    (spares : Spares name acts) :
    Told due (log ++ acts) name session from_ entries := by
  have more := told.more (fun act own => (spares act own).1) fun _ => spares.entriesFor
  rwa [spares.entriesFor, List.append_nil] at more

theorem Told.capture (log : List (Act Body Board)) (name session : String) (from_ : Nat) :
    Told true (log ++ [.captured name session from_]) name session from_ [] :=
  ⟨log, [], rfl, fun _ own => absurd own List.not_mem_nil, rfl, rfl⟩

theorem Told.announce (told : Told true log name session from_ entries)
    (announcement : Act Body Board)
    (announced : announces name announcement = true) :
    Told false (log ++ [announcement]) name session from_ [] := by
  obtain ⟨earlier, later, rfl, uncaptured, before, -⟩ := told
  refine ⟨earlier, later ++ [announcement], by simp, fun act own => ?_, later, announcement, [],
    rfl, announced, before, rfl⟩
  rcases List.mem_append.mp own with early | late
  · exact uncaptured act early
  · rw [List.mem_singleton.mp late]
    cases announcement with
    | sent frame => rfl
    | captured agent session end_ => cases announced

end

/-! ## An agent's turn -/

section

variable {Body Board : Type} {classifier : String → Classifier Body} {c : Connection Body Board}
  {name : String}

/-- What a turn without its changes leaves alone. -/
structure Connection.Rest (c c' : Connection Body Board) : Prop where
  files : c'.files = c.files
  agents : c'.agents = c.agents
  roster : c'.roster = c.roster
  rosterRead : c'.rosterRead = c.rosterRead

/-- What an agent's turn does to it: nothing of note, a capture, or a read. -/
inductive Turned (classifier : String → Classifier Body) (initial : Bool)
    (c : Connection Body Board) (name : String) :
    Option Transcript → List (Act Body Board) → Prop where
  | absent (none_ : c.transcripts name = none) : Turned classifier initial c name none []
  | quiet {state state' : Transcript} {acts : List (Act Body Board)}
      (held : c.transcripts name = some state)
      (spares : ∀ other, Spares other acts) (initialized : state'.initialized = state.initialized)
      (session : state'.session = state.session) (offset : state'.offset = state.offset)
      (missed : state'.missed = state.missed) : Turned classifier initial c name (some state') acts
  | captured {state state' : Transcript} {acts : List (Act Body Board)}
      (held : c.transcripts name = some state)
      (spares : ∀ other, Spares other acts) (initialized : state'.initialized = true)
      (offset : state'.offset = completeEnd reverseBlockSize (c.files state'.session)) :
      Turned classifier initial c name (some state')
        (acts ++ .captured name state'.session state'.offset :: if initial then [] else
          [.sent (.rewindow name)])
  | read {state state' : Transcript} {acts : List (Act Body Board)} {page : ReadResult Body}
      (held : c.transcripts name = some state)
      (later : initial = false) (known : state.initialized = true)
        (spares : ∀ other, Spares other acts)
      (answered : tail (classifier state.session) (c.files state.session) state.session
        ⟨state.session, state.offset⟩ maxEntryWindow = .ok page)
      (initialized : state'.initialized = true) (session : state'.session = state.session)
        (offset : state'.offset = page.nextOffset)
      (missed : state'.missed = state.missed) :
      Turned classifier initial c name (some state')
        (acts ++ page.entries.map fun entry => .sent (.entry name entry))

theorem spares_nil (name : String) : Spares name ([] : List (Act Body Board)) :=
  fun _ own => absurd own List.not_mem_nil

theorem spares_substrate (name source status detail : String) :
    Spares name [(.sent (.substrate source status detail) : Act Body Board)] := by
  intro act own
  rw [List.mem_singleton.mp own]
  exact ⟨rfl, rfl⟩

theorem spares_fleet (name : String) (board : Board) :
    Spares name [(.sent (.fleet board) : Act Body Board)] := by
  intro act own
  rw [List.mem_singleton.mp own]
  exact ⟨rfl, rfl⟩

/-- One agent's transcript changes and the log grows. -/
def Connection.Does (c c' : Connection Body Board) (name : String) (state : Option Transcript)
    (acts : List (Act Body Board)) : Prop :=
  c.Rest c' ∧ c'.transcripts name = state ∧
    (∀ other, other ≠ name → c'.transcripts other = c.transcripts other) ∧ c'.log = c.log ++ acts

theorem fail_does (c : Connection Body Board) (name : String) (initial : Bool) (detail : String)
    (pending : List (Frame Body Board)) :
    ∃ acts, (∀ other, Spares other acts) ∧
      c.Does (c.fail initial name detail pending).1 name (c.transcripts name) acts ∧
      ∃ more, (c.fail initial name detail pending).2 = pending ++ more ∧ ∀ frame ∈ more, ∀ other,
        Spares other [(.sent frame : Act Body Board)] := by
  unfold Connection.fail
  dsimp only
  split
  · exact ⟨[], spares_nil, ⟨⟨rfl, rfl, rfl, rfl⟩, rfl, fun _ _ => rfl, (List.append_nil _).symm⟩, _,
        rfl, fun frame own other => by
      rw [List.mem_singleton.mp own]
      exact spares_substrate other _ _ _⟩
  · split
    · exact ⟨[], spares_nil, ⟨⟨rfl, rfl, rfl, rfl⟩, rfl, fun _ _ => rfl, (List.append_nil _).symm⟩,
        [], (List.append_nil _).symm,
        fun _ own => absurd own List.not_mem_nil⟩
    · exact ⟨_, fun other => spares_substrate other _ _ _,
        ⟨⟨rfl, rfl, rfl, rfl⟩, rfl, fun _ _ => rfl, rfl⟩, [],
        (List.append_nil _).symm, fun _ own => absurd own List.not_mem_nil⟩

theorem recover_does (c : Connection Body Board) (name : String) :
    ∃ acts, (∀ other, Spares other acts) ∧
      c.Does (c.recover name) name (c.transcripts name) acts := by
  unfold Connection.recover
  split
  · exact ⟨_, fun other => spares_substrate other _ _ _, ⟨rfl, rfl, rfl, rfl⟩, rfl, fun _ _ => rfl,
      rfl⟩
  · exact ⟨[], spares_nil, ⟨rfl, rfl, rfl, rfl⟩, rfl, fun _ _ => rfl, (List.append_nil _).symm⟩

theorem Connection.Rest.trans {c' c'' : Connection Body Board} (first : c.Rest c')
    (second : c'.Rest c'') : c.Rest c'' :=
  ⟨second.files.trans first.files, second.agents.trans first.agents,
    second.roster.trans first.roster,
    second.rosterRead.trans first.rosterRead⟩

theorem Connection.Does.trans {c' c'' : Connection Body Board} {state state' : Option Transcript}
    {acts acts' : List (Act Body Board)}
    (first : c.Does c' name state acts) (second : c'.Does c'' name state' acts') :
    c.Does c'' name state' (acts ++ acts') :=
  ⟨first.1.trans second.1, second.2.1, fun other apart =>
    (second.2.2.1 other apart).trans (first.2.2.1 other apart),
    by rw [second.2.2.2, first.2.2.2, List.append_assoc]⟩

theorem put_does (c : Connection Body Board) (name : String) (state : Transcript) :
    c.Does (c.put name state) name (some state) [] :=
  ⟨⟨rfl, rfl, rfl, rfl⟩, Function.update_self .., fun _ apart => Function.update_of_ne apart ..,
    (List.append_nil _).symm⟩

theorem capture_does (c : Connection Body Board) (name : String) (state : Transcript)
    (session : String) :
    let end_ := completeEnd reverseBlockSize (c.files session)
    c.Does (c.capture name state session) name
      (some { state with initialized := true, session, offset := end_, missed := false })
      [.captured name session end_] :=
  ⟨⟨rfl, rfl, rfl, rfl⟩, Function.update_self .., fun _ apart => Function.update_of_ne apart ..,
    rfl⟩

theorem send_does (c : Connection Body Board) (name : String) (frame : Frame Body Board) :
    c.Does (c.send frame) name (c.transcripts name) [.sent frame] :=
  ⟨⟨rfl, rfl, rfl, rfl⟩, rfl, fun _ _ => rfl, rfl⟩

theorem entries_does (c : Connection Body Board) (name : String) (entries : List (Entry Body)) :
    c.Does (entries.foldl (fun c entry => c.send (.entry name entry)) c) name (c.transcripts name)
      (entries.map fun entry => .sent (.entry name entry)) := by
  induction entries generalizing c with
  | nil => exact ⟨⟨rfl, rfl, rfl, rfl⟩, rfl, fun _ _ => rfl, (List.append_nil _).symm⟩
  | cons entry rest inductionHypothesis =>
      exact (send_does c name (.entry name entry)).trans (inductionHypothesis _)

theorem evidence_same {state state' : Transcript} {roster : List StreamRow} {turn : Turn}
    {row : StreamRow}
    (own : Connection.evidence state roster name turn = .ok (state', row)) :
    state'.initialized = state.initialized ∧ state'.session = state.session ∧
      state'.offset = state.offset ∧
      state'.missed = state.missed := by
  unfold Connection.evidence at own
  split at own
  · cases own
    exact ⟨rfl, rfl, rfl, rfl⟩
  · split at own
    · cases own
      exact ⟨rfl, rfl, rfl, rfl⟩
    · split at own
      · cases own
        exact ⟨rfl, rfl, rfl, rfl⟩
      · cases own

/-- A read that fails leaves the agent where it is. -/
theorem fail_turned {initial : Bool} {state state' : Transcript} {c' : Connection Body Board}
    {acts : List (Act Body Board)} (held : c.transcripts name = some state)
    (initialized : state'.initialized = state.initialized)
    (session : state'.session = state.session) (offset : state'.offset = state.offset)
    (missed : state'.missed = state.missed) (spares : ∀ other, Spares other acts)
    (does : c.Does c' name (some state') acts) (detail : String)
    (pending : List (Frame Body Board)) :
    ∃ state acts, Turned classifier initial c name state acts ∧
      c.Does (c'.fail initial name detail pending).1 name state acts ∧
      ∃ more, (c'.fail initial name detail pending).2 = pending ++ more ∧
        ∀ frame ∈ more, ∀ other, Spares other [(.sent frame : Act Body Board)] := by
  obtain ⟨acts', spares', does', more, grown, silent⟩ := fail_does c' name initial detail pending
  rw [does.2.1] at does'
  refine ⟨some state', acts ++ acts',
    .quiet held (fun other act inside => ?_) initialized session offset missed,
    does.trans does', more, grown, silent⟩
  rcases List.mem_append.mp inside with early | late
  · exact spares other act early
  · exact spares' other act late

/-- An agent's turn, after the changes before it. -/
theorem syncAgent_turned (classifier : String → Classifier Body) (initial : Bool)
    (requested : Option (List String)) (roster : List StreamRow)
    (name : String) (turn : Turn) (c : Connection Body Board) (pending : List (Frame Body Board)) :
    let changed := turn.changes.foldl Connection.change c
    ∃ state acts, Turned classifier initial changed name state acts ∧
      changed.Does (c.syncAgent classifier initial requested roster name turn pending).1 name state
        acts ∧
      ∃ more, (c.syncAgent classifier initial requested roster name turn pending).2 = pending ++
        more ∧
        ∀ frame ∈ more, ∀ other, Spares other [(.sent frame : Act Body Board)] := by
  unfold Connection.syncAgent
  generalize turn.changes.foldl Connection.change c = c
  dsimp only
  have nothing : ∀ frame ∈ ([] : List (Frame Body Board)), ∀ other,
      Spares other [(.sent frame : Act Body Board)] :=
    fun _ own => absurd own List.not_mem_nil
  cases held : c.transcripts name with
  | none => exact ⟨none, [], .absent held,
      ⟨⟨rfl, rfl, rfl, rfl⟩, held, fun _ _ => rfl, (List.append_nil _).symm⟩, [],
      (List.append_nil _).symm, nothing⟩
  | some state =>
    dsimp only
    cases own : Connection.evidence state roster name turn with
    | error detail =>
      obtain ⟨acts, spares, does, more, grown, silent⟩ := fail_does c name initial detail pending
      rw [held] at does
      exact ⟨some state, acts, .quiet held spares rfl rfl rfl rfl, does, more, grown, silent⟩
    | ok evidence =>
      obtain ⟨state', row⟩ := evidence
      obtain ⟨initialized, session, offset, missed⟩ := evidence_same own
      -- With a row: the transcript it names is captured afresh, or read on from the offset.
      have stored := put_does c name state'
      dsimp only
      split
      · cases turn.endFault with
        | some detail =>
          exact fail_turned held initialized session offset missed spares_nil stored detail pending
        | none =>
          have taken := stored.trans (capture_does _ name state' (entryTranscriptID row))
          cases initial with
          | true => exact ⟨_, _, .captured held spares_nil rfl rfl, taken, [],
              (List.append_nil _).symm, nothing⟩
          | false =>
            have told := taken.trans (send_does _ name (.rewindow name))
            rw [taken.2.1] at told
            exact ⟨_, _, .captured held spares_nil rfl rfl, told, [], (List.append_nil _).symm,
              nothing⟩
      · next known =>
        split
        · exact ⟨_, [], .quiet held spares_nil initialized session offset missed, stored, [],
            (List.append_nil _).symm, nothing⟩
        · next asked =>
          -- A first turn captures, so from here on one is being read.
          have later : initial = false := by
            cases initial with
            | true => exact absurd (Or.inl rfl) asked
            | false => rfl
          subst later
          have begun : state.initialized = true ∧ state.session = entryTranscriptID row := by
            rw [← initialized, ← session]
            simpa using known
          cases turn.tailFault with
          | some detail =>
            exact fail_turned held initialized session offset missed spares_nil stored detail pending
          | none =>
            obtain ⟨acts, spares, recovered⟩ := recover_does (c.put name state') name
            have up := stored.trans recovered
            rw [stored.2.1] at up
            rw [List.nil_append] at up
            have files : ((c.put name state').recover name).files = c.files := up.1.files
            -- Nothing said so far changes what the tail answers.
            have asks :
              tail (classifier (entryTranscriptID row))
              (((c.put name state').recover name).files (entryTranscriptID row))
                (entryTranscriptID row) ⟨state'.session, state'.offset⟩ maxEntryWindow =
                tail (classifier state.session) (c.files state.session) state.session
                    ⟨state.session, state.offset⟩ maxEntryWindow := by
              rw [files, session, offset, begun.2]
            dsimp only
            rw [asks]
            cases answered : tail (classifier state.session) (c.files state.session) state.session
                ⟨state.session, state.offset⟩ maxEntryWindow with
            | error reason =>
              dsimp only
              cases turn.endFault with
              | some detail =>
                exact fail_turned held initialized session offset missed spares up detail pending
              | none =>
                have taken := up.trans (capture_does _ name state' (entryTranscriptID row))
                have told := taken.trans (send_does _ name (.rewindow name))
                rw [taken.2.1, files, List.append_assoc] at told
                exact ⟨_, _, .captured held spares rfl rfl, told, [], (List.append_nil _).symm,
                  nothing⟩
            | ok page =>
              have sent := up.trans (entries_does _ name page.entries)
              have ended := sent.trans (put_does _ name { state' with offset := page.nextOffset })
              rw [List.append_nil] at ended
              exact ⟨some { state' with offset := page.nextOffset }, _,
                .read held rfl begun.1 spares answered
                (initialized.trans begun.1) session rfl missed,
                ended, [], (List.append_nil _).symm, nothing⟩

theorem Turned.spares {initial : Bool} {state : Option Transcript} {acts : List (Act Body Board)}
    (turned : Turned classifier initial c name state acts)
    {other : String} (apart : other ≠ name) : Spares other acts := by
  cases turned with
  | absent => exact spares_nil other
  | quiet held spares => exact spares other
  | captured held spares =>
    intro act own
    rcases List.mem_append.mp own with early | late
    · exact spares other act early
    · rcases List.mem_cons.mp late with rfl | announced
      · exact ⟨by simpa [captures] using Ne.symm apart, rfl⟩
      · cases initial with
        | true => cases announced
        | false =>
          rw [if_neg (by simp)] at announced
          rw [List.mem_singleton.mp announced]
          exact ⟨rfl, rfl⟩
  | read held later known spares =>
    intro act own
    rcases List.mem_append.mp own with early | late
    · exact spares other act early
    · obtain ⟨entry, -, rfl⟩ := List.mem_map.mp late
      exact ⟨rfl, by simpa [isEntry] using Ne.symm apart⟩

/-! ## The invariant -/

/-- What an agent was sent is what its file has, unless the file was cut since. -/
def Standing (classifier : Classifier Body) (content : Bytes) (from_ offset : Nat)
    (entries : List (Entry Body)) : Prop :=
  Followed classifier content from_ offset entries ∨ content.length < offset ∧ ∃ file,
    Followed classifier file from_ offset entries

/-- Of every agent whose transcript was captured; the announcements of some are due. -/
structure Synced (classifier : String → Classifier Body) (due : List String)
    (c : Connection Body Board) : Prop where
  keys : ∀ name state, c.transcripts name = some state → name ∈ c.agents
  told : ∀ name state, c.transcripts name = some state → state.initialized = true →
    state.missed = false →
    ∃ from_ entries, Standing (classifier state.session)
      (c.files state.session) from_ state.offset entries ∧
      Told (decide (name ∈ due)) c.log name state.session from_ entries

variable {due : List String}

theorem Synced.change (synced : Synced classifier due c) (changed : Change) :
    Synced classifier due (c.change changed) where
  keys := by
    intro name state held
    obtain ⟨before, held, -⟩ := Option.map_eq_some_iff.mp held
    exact synced.keys name before held
  told := by
    intro name state held initialized unmissed
    obtain ⟨before, held', rfl⟩ := Option.map_eq_some_iff.mp held
    have both := Bool.or_eq_false_iff.mp (show (before.missed || _) = false from unmissed)
    obtain ⟨from_, entries, standing, told⟩ := synced.told name before held' initialized both.1
    refine ⟨from_, entries, ?_, told⟩
    show Standing (classifier before.session)
      (Function.update c.files changed.session changed.content before.session) from_
      before.offset entries
    by_cases own : before.session = changed.session
    · have kept := both.2
      rw [own, Function.update_self]
      rw [own] at standing
      have keeps_ : keeps before.offset (c.files changed.session) changed.content = true := by
        simpa [own] using kept
      obtain followed | ⟨short, file, followed⟩ := standing
      · obtain still | short := followed.keep keeps_
        · exact Or.inl still
        · exact Or.inr ⟨short, _, followed⟩
      · refine Or.inr ⟨?_, file, followed⟩
        unfold keeps at keeps_
        simp only [Bool.or_eq_true, Bool.and_eq_true, decide_eq_true_eq] at keeps_
        omega
    · rw [Function.update_of_ne own]
      exact standing

theorem Synced.changes (synced : Synced classifier due c) (changes : List Change) :
    Synced classifier due (changes.foldl Connection.change c) := by
  induction changes generalizing c with
  | nil => exact synced
  | cons changed rest inductionHypothesis => exact inductionHypothesis (synced.change changed)

/-- An agent's turn; an announcement is due exactly in an initial sync. -/
theorem Synced.turned (synced : Synced classifier due c) {c' : Connection Body Board}
    {initial : Bool} {state : Option Transcript}
    {acts : List (Act Body Board)} (turned : Turned classifier initial c name state acts)
    (does : c.Does c' name state acts)
    (first : decide (name ∈ due) = initial) : Synced classifier due c' := by
  obtain ⟨rest, own, others, log⟩ := does
  constructor
  · intro other state' held
    rw [rest.agents]
    by_cases same : other = name
    · subst same
      rw [own] at held
      cases turned with
      | absent => cases held
      | quiet held' | captured held' | read held' => exact synced.keys other _ held'
    · rw [others other same] at held
      exact synced.keys other state' held
  · intro other state' held initialized unmissed
    rw [rest.files, log]
    by_cases same : other = name
    · subst same
      rw [own] at held
      cases turned with
      | absent => cases held
      | quiet held' spares initialized' session offset missed =>
        cases held
        rw [initialized'] at initialized
        rw [missed] at unmissed
        obtain ⟨from_, entries, standing, told⟩ := synced.told other _ held' initialized unmissed
        rw [session, offset]
        exact ⟨from_, entries, standing, told.spared (spares other)⟩
      | @captured earlier _ quiet held' spares initialized' offset =>
        cases held
        refine ⟨_, [], Or.inl (by rw [offset]; exact Followed.capture _ _), ?_⟩
        rw [← offset]
        have taken := Told.capture (c.log ++ quiet) other state'.session state'.offset
        rw [first]
        cases initial with
        | true => simpa using taken
        | false =>
          have told := taken.announce (.sent (.rewindow other)) (by simp [announces])
          simpa using told
      | @read earlier _ quiet page held' later known spares answered initialized' session offset
          missed =>
        cases held
        rw [missed] at unmissed
        obtain ⟨from_, entries, standing, told⟩ := synced.told other _ held' known unmissed
        rw [session, offset]
        -- A file that is short of the offset is not read but captured again.
        obtain followed | ⟨short, -⟩ := standing
        · obtain ⟨page', answered', further⟩ := followed.read earlier.session maxEntryWindow
          rw [answered] at answered'
          cases answered'
          refine ⟨from_, _, Or.inl further, ?_⟩
          have uncaptured : ∀ act ∈ page.entries.map fun entry =>
              (.sent (.entry other entry) : Act Body Board), captures other act = false := by
            intro act inside
            obtain ⟨entry, -, rfl⟩ := List.mem_map.mp inside
            rfl
          have more := (told.spared (spares other)).more uncaptured fun is_ => by
            rw [first, later] at is_
            cases is_
          rwa [entriesFor_sent, List.append_assoc] at more
        · unfold tail at answered
          rw [if_neg (by simp), if_pos short] at answered
          cases answered
    · rw [others other same] at held
      obtain ⟨from_, entries, standing, told⟩ := synced.told other state' held initialized unmissed
      exact ⟨from_, entries, standing, told.spared (turned.spares same)⟩

theorem Synced.send (synced : Synced classifier due c) {frame : Frame Body Board}
    (spares : ∀ other, Spares other [(.sent frame : Act Body Board)]) :
    Synced classifier due (c.send frame) where
  keys := synced.keys
  told := by
    intro name state held initialized unmissed
    obtain ⟨from_, entries, standing, told⟩ := synced.told name state held initialized unmissed
    exact ⟨from_, entries, standing, told.spared (spares name)⟩

theorem Synced.sendAll (synced : Synced classifier due c) (frames : List (Frame Body Board))
    (spares : ∀ frame ∈ frames, ∀ other, Spares other [(.sent frame : Act Body Board)]) :
    Synced classifier due (frames.foldl Connection.send c) := by
  induction frames generalizing c with
  | nil => exact synced
  | cons frame rest inductionHypothesis =>
    exact inductionHypothesis (synced.send (spares frame List.mem_cons_self)) fun other own =>
      spares other (List.mem_cons_of_mem _ own)

theorem Synced.loop {initial : Bool} (requested : Option (List String)) (roster : List StreamRow)
    (turns : String → Turn) (names : List String)
    (first : ∀ name ∈ names, decide (name ∈ due) = initial) (synced : Synced classifier due c)
    (pending : List (Frame Body Board))
    (spares : ∀ frame ∈ pending, ∀ other, Spares other [(.sent frame : Act Body Board)]) :
    Synced classifier due (c.syncLoop classifier initial requested roster turns names pending).1 ∧
      ∀ frame ∈ (c.syncLoop classifier initial requested roster turns names pending).2, ∀ other,
        Spares other [(.sent frame : Act Body Board)] := by
  induction names generalizing c pending with
  | nil => exact ⟨synced, spares⟩
  | cons name rest inductionHypothesis =>
    obtain ⟨state, acts, turned, does, more, grown, silent⟩ :=
      syncAgent_turned classifier initial requested roster name (turns name) c pending
    have own :=
      (synced.changes (turns name).changes).turned turned does (first name List.mem_cons_self)
    have step : c.syncLoop classifier initial requested roster turns (name :: rest) pending =
        (c.syncAgent classifier initial requested roster name (turns name) pending).1.syncLoop
          classifier initial requested roster turns rest
          (c.syncAgent classifier initial requested roster name (turns name) pending).2 := rfl
    rw [step]
    refine inductionHypothesis (fun other inside => first other (List.mem_cons_of_mem _ inside)) own
      _ ?_
    rw [grown]
    intro frame inside
    rcases List.mem_append.mp inside with early | late
    · exact spares frame early
    · exact silent frame late

theorem Synced.sync {initial : Bool} (requested : Option (List String)) (roster : List StreamRow)
    (turns : String → Turn) (names : List String)
    (first : ∀ name ∈ names, decide (name ∈ due) = initial) (synced : Synced classifier due c) :
    Synced classifier due (c.syncTranscripts classifier names roster initial requested turns) := by
  obtain ⟨looped, spares⟩ :=
    synced.loop requested roster turns names first [] fun _ own => absurd own List.not_mem_nil
  exact looped.sendAll _ spares

/-- The announcement of those that were due. -/
theorem Synced.announce (synced : Synced classifier due c) :
    Synced classifier [] (c.send (.subscribed due)) where
  keys := synced.keys
  told := by
    intro name state held initialized unmissed
    obtain ⟨from_, entries, standing, told⟩ := synced.told name state held initialized unmissed
    by_cases own : name ∈ due
    · rw [decide_eq_true own] at told
      have none_ : entries = [] := by
        obtain ⟨-, -, -, -, -, none_⟩ := told
        exact none_
      subst none_
      exact ⟨from_, [], standing, told.announce _ (by simpa [announces] using own)⟩
    · rw [decide_eq_false own] at told
      exact ⟨from_, entries, standing, told.spared fun act inside => by
        rw [List.mem_singleton.mp inside]
        exact ⟨rfl, rfl⟩⟩

theorem synced_serveEvents (classifier : String → Classifier Body) (files : String → Bytes)
    (agents : List String) (board : Option Board)
    (roster : List StreamRow) (turns : String → Turn) :
    Synced classifier [] (Connection.serveEvents classifier files agents board roster turns) := by
  have start :
    ∀ due,
    Synced classifier due (⟨files, agents, fun name => if name ∈ agents then some .new else none,
    fun _ => false, roster, false,
      board, []⟩ : Connection Body Board) := by
    intro due
    constructor
    · intro name state held
      dsimp only at held
      split at held
      · assumption
      · cases held
    · intro name state held initialized _
      dsimp only at held
      split at held
      · cases held
        cases initialized
      · cases held
  unfold Connection.serveEvents
  cases board with
  | none => exact start []
  | some board =>
    dsimp only
    have synced :=
      (start agents).sync (some []) roster turns agents fun name own => decide_eq_true own
    have read : ∀ (c : Connection Body Board) due, Synced classifier due c →
        Synced classifier due ({ c with rosterRead := true }.send (.fleet board)) := by
      intro c due synced
      have same : Synced classifier due { c with rosterRead := true } := ⟨synced.keys, synced.told⟩
      exact same.send fun other => spares_fleet other board
    split
    · exact (read _ _ synced).announce
    · next none_ =>
      have none_ : agents = [] := by simpa using none_
      subst none_
      exact read _ _ synced

variable [DecidableEq Board]

theorem Synced.receive (synced : Synced classifier [] c) (received : Received Board) :
    Synced classifier [] (c.receive classifier received) := by
  have none_ : ∀ names : List String, ∀ name ∈ names, decide (name ∈ ([] : List String)) = false :=
    fun _ _ _ => by simp
  cases received with
  | changed change => exact synced.change change
  | watched names turns => exact synced.sync _ _ _ _ (none_ _)
  | swept turns => exact synced.sync _ _ _ _ (none_ _)
  | board board turns =>
    cases board with
    | none => exact synced
    | some read =>
      obtain ⟨board, roster⟩ := read
      show Synced classifier [] (c.refreshBoard classifier (some (board, roster)) turns)
      unfold Connection.refreshBoard
      dsimp only
      have shown :
          Synced classifier []
            (if c.previous = some board then c
            else { c with previous := some board }.send (.fleet board)) := by
        split
        · exact synced
        · have same : Synced classifier [] { c with previous := some board } :=
            ⟨synced.keys, synced.told⟩
          exact same.send fun other => spares_fleet other board
      generalize (if c.previous = some board then c else { c with previous := some board }.send
        (.fleet board)) = c' at shown ⊢
      have read : Synced classifier [] { c' with roster, rosterRead := true } :=
        ⟨shown.keys, shown.told⟩
      exact read.sync _ _ _ _ (none_ _)
  | subscribed agents turns =>
    show Synced classifier [] (c.applySubscription classifier agents turns)
    unfold Connection.applySubscription
    dsimp only
    generalize new : agents.filter (fun name => (c.transcripts name).isNone) = added
    -- The agents that are followed already keep their transcripts; those that are added have none
    -- yet.
    have started : ∀ due, (∀ name ∈ due, name ∈ added) → Synced classifier due ({ c with
        agents
        transcripts := fun name =>
          if (name ∈ c.agents && name ∉ agents) = true then none
          else if name ∈ added then some .new
          else c.transcripts name
        unreachable := fun name =>
          if (name ∈ c.agents && name ∉ agents) = true then false else c.unreachable name } :
        Connection Body Board) := by
      intro due within
      constructor
      · intro name state held
        dsimp only at held ⊢
        split at held
        · cases held
        · next stays =>
          split at held
          · next own =>
            rw [← new] at own
            exact (List.mem_filter.mp own).1
          · have before := synced.keys name state held
            by_contra gone
            exact stays (by simp [before, gone])
      · intro name state held initialized unmissed
        dsimp only at held ⊢
        split at held
        · cases held
        · split at held
          · cases held
            cases initialized
          · next other =>
            obtain ⟨from_, entries, standing, told⟩ :=
              synced.told name state held initialized unmissed
            have undue : decide (name ∈ due) = decide (name ∈ ([] : List String)) := by
              rw [decide_eq_false fun own => other (within name own),
                decide_eq_false List.not_mem_nil]
            rw [undue]
            exact ⟨from_, entries, standing, told⟩
    split
    · exact ((started added fun _ own => own).sync _ _ _ _ fun name own =>
        decide_eq_true own).announce
    · exact started [] fun _ own => absurd own List.not_mem_nil

theorem Synced.run (synced : Synced classifier [] c) (received : List (Received Board)) :
    Synced classifier [] (c.run classifier received) := by
  induction received generalizing c with
  | nil => exact synced
  | cons first rest inductionHypothesis => exact inductionHypothesis (synced.receive first)

/-- Whatever a connection receives: since the end that was last captured for an agent, it was
announced, and then sent
the entries of its file from that end up to its offset, each once and in order; or the file was cut
since. -/
theorem transcript_streamed (classifier : String → Classifier Body) (files : String → Bytes)
    (agents : List String) (board : Option Board)
    (roster : List StreamRow) (turns : String → Turn) (received : List (Received Board)) :
    let c :=
  (Connection.serveEvents classifier files agents board roster turns).run classifier received
    ∀ name state, c.transcripts name = some state → state.initialized = true →
      state.missed = false →
      ∃ from_ entries, Told false c.log name state.session from_ entries ∧
        Standing (classifier state.session) (c.files state.session) from_ state.offset entries := by
  intro c name state held initialized unmissed
  obtain ⟨from_, entries, standing, told⟩ :=
    ((synced_serveEvents classifier files agents board roster turns).run received).told name state
      held initialized unmissed
  exact ⟨from_, entries, told, standing⟩

end

def rikoRow : StreamRow := ⟨"riko", "claude", "", "s"⟩

def quietTurns : String → Turn := fun _ => .quiet "no live or retained session evidence"

/-- One record that is sent, a cut of the file, and another record. -/
def rikoStream (received : List (Received Unit)) : Connection Unit Unit :=
  (Connection.serveEvents (fun _ => lettered) (Function.update (fun _ => []) "s" letter) ["riko"]
    (some ()) [rikoRow] quietTurns).run
    (fun _ => lettered) received

def rikoReceived : List (Received Unit) :=
  [.changed ⟨"s", letter ++ letter⟩, .watched ["riko"] quietTurns, .changed ⟨"s", []⟩,
    .swept quietTurns, .changed ⟨"s", letter⟩,
    .board (some ((), [rikoRow])) quietTurns, .swept quietTurns]

theorem transcript_streamed_sample : ∃ from_ entries, Told false
    (rikoStream rikoReceived).log "riko" "s" from_ entries ∧
    Standing lettered ((rikoStream rikoReceived).files "s") from_ 2 entries := by
  have held : (rikoStream rikoReceived).transcripts "riko" = some ⟨true, "s", 2, none, false⟩ := by
    decide +kernel
  exact transcript_streamed (fun _ => lettered) _ _ _ _ _ rikoReceived "riko"
    ⟨true, "s", 2, none, false⟩ held rfl rfl

/-! ## Sweeps -/

/-- How many entries a file has from an offset on. -/
def owed {Body : Type} (classifier : Classifier Body) (file : Bytes) (offset : Nat) : Nat :=
  ((renderable classifier file).filter fun entry => offset ≤ entry.byteOffset).length

section

variable {Body : Type} {classifier : Classifier Body} {file : Bytes} {from_ offset : Nat}
  {entries : List (Entry Body)}

theorem renderable_from (classifier : Classifier Body) {first rest : List Bytes} {torn : Bytes}
    (cut : Cut newline file (first ++ rest) torn) :
    ((renderable classifier file).filter fun entry => first.flatten.length ≤ entry.byteOffset) =
      rendered classifier first.length first.flatten.length rest := by
  rw [renderable_eq classifier cut, rendered_append, List.filter_append, Nat.zero_add, Nat.zero_add]
  have early :
      (rendered classifier 0 0 first).filter
      (fun entry => first.flatten.length ≤ entry.byteOffset) = [] := by
    rw [List.filter_eq_nil_iff]
    intro entry on
    have := (rendered_within classifier cut.front.whole on).2
    simp only [decide_eq_true_eq]
    omega
  have late : (rendered classifier first.length first.flatten.length rest).filter
    (fun entry => first.flatten.length ≤ entry.byteOffset) =
      rendered classifier first.length first.flatten.length rest := by
    rw [List.filter_eq_self]
    intro entry on
    simpa using (rendered_within classifier cut.drop.whole on).1
  rw [early, late, List.nil_append]

/-- Nothing is owed any more: everything was sent. -/
theorem Followed.all (followed : Followed classifier file from_ offset entries)
    (paid : owed classifier file offset = 0) :
    entries = (renderable classifier file).filter fun entry => from_ ≤ entry.byteOffset := by
  obtain ⟨before, sent, records, torn, cut, rfl, rfl, rfl⟩ := followed.cut
  unfold owed at paid
  rw [renderable_from classifier cut, List.length_eq_zero_iff] at paid
  rw [List.append_assoc] at cut
  rw [renderable_from classifier cut, rendered_append]
  have rest : rendered classifier (before.length + sent.length)
      (before.flatten.length + sent.flatten.length) records = [] := by
    rw [List.flatten_append, List.length_append, List.length_append] at paid
    exact paid
  rw [rest, List.append_nil]

/-- A read pays what is owed, or a whole window of it. -/
theorem Followed.pays (followed : Followed classifier file from_ offset entries) (session : String)
    {limit : Nat} {page : ReadResult Body}
     (answered : tail classifier file session ⟨session, offset⟩ limit = .ok page) :
    owed classifier file page.nextOffset ≤ owed classifier file offset - limit := by
  have inside : offset ≤ file.length := by
    obtain ⟨-, -, -, inside, -⟩ := followed
    exact inside
  obtain ⟨before, sent, records, torn, cut, rfl, ends, rfl⟩ := followed.cut
  obtain ⟨front, back, rfl, read, fits, all⟩ := read_eq classifier limit cut
  unfold tail at answered
  rw [← ends] at read
  rw [if_neg (by simp), if_neg (not_lt.mpr inside), read] at answered
  cases answered
  have front_ := renderable_from classifier cut
  rw [← List.append_assoc] at cut
  unfold owed
  rw [renderable_from classifier cut, ends, front_, rendered_append, List.length_append]
  by_cases full :
    (rendered classifier (before ++ sent).length (before ++ sent).flatten.length front).length <
    limit
  · rw [all fun _ => full]
    exact Nat.zero_le _
  · simp only [List.flatten_append, List.length_append] at full ⊢
    omega

end

section

variable {Body Board : Type} {classifier : String → Classifier Body} {c : Connection Body Board}
  {name : String}

variable {roster : List StreamRow} {row : StreamRow} {state : Transcript} {turns : String → Turn}

theorem syncAgent_reads {turn : Turn} {page : ReadResult Body}
    (held : c.transcripts name = some state) (known : state.initialized = true)
    (live : (roster.reverse.find? fun row => row.name = name) = some row)
    (same : entryTranscriptID row = state.session)
    (still : turn.changes = []) (readable : turn.tailFault = none)
    (answered : tail (classifier state.session) (c.files state.session) state.session
    ⟨state.session, state.offset⟩ maxEntryWindow = .ok page)
    (pending : List (Frame Body Board)) :
    (c.syncAgent classifier false none roster name turn pending).1.transcripts name =
      some { state with retired := none, offset := page.nextOffset } := by
  have files : ((c.put name { state with retired := none }).recover name).files = c.files := by
    obtain ⟨acts, spares, does⟩ := recover_does (c.put name { state with retired := none }) name
    exact does.1.files
  unfold Connection.syncAgent
  rw [still]
  dsimp only [List.foldl_nil]
  rw [held]
  dsimp only
  unfold Connection.evidence
  rw [live]
  dsimp only
  rw [if_neg (by simp [known, same]), if_neg (by simp), readable]
  dsimp only
  rw [same, files, answered]
  exact Function.update_self ..

theorem syncAgent_captures {turn : Turn} (held : c.transcripts name = some state)
    (live : (roster.reverse.find? fun row => row.name = name) = some row)
    (stale : state.initialized = false ∨ state.session ≠ entryTranscriptID row ∨
      (c.files (entryTranscriptID row)).length < state.offset)
    (still : turn.changes = []) (readable : turn.tailFault = none) (whole : turn.endFault = none)
    (pending : List (Frame Body Board)) :
    (c.syncAgent classifier false none roster name turn pending).1.transcripts name =
      some ⟨true, entryTranscriptID row,
        completeEnd reverseBlockSize (c.files (entryTranscriptID row)), none, false⟩ := by
  have files : ((c.put name { state with retired := none }).recover name).files = c.files := by
    obtain ⟨acts, spares, does⟩ := recover_does (c.put name { state with retired := none }) name
    exact does.1.files
  unfold Connection.syncAgent
  rw [still]
  dsimp only [List.foldl_nil]
  rw [held]
  dsimp only
  unfold Connection.evidence
  rw [live]
  dsimp only
  by_cases new : (!state.initialized) = true ∨ state.session ≠ entryTranscriptID row
  · rw [if_pos new, whole]
    exact Function.update_self ..
  · obtain ⟨known, same⟩ : state.initialized = true ∧ state.session = entryTranscriptID row := by
      simpa using new
    have short : (c.files (entryTranscriptID row)).length < state.offset := by
      simpa [known, same] using stale
    have cut : tail (classifier (entryTranscriptID row)) (c.files (entryTranscriptID row))
      (entryTranscriptID row)
        ⟨state.session, state.offset⟩ maxEntryWindow = .error .truncated := by
      unfold tail
      rw [if_neg (by simp [same]), if_pos short]
    rw [if_neg new, if_neg (by simp), readable]
    dsimp only
    rw [files, cut]
    dsimp only
    rw [whole]
    exact (Function.update_self ..).trans
      (congrArg (fun files : String → Bytes => some (Transcript.mk true (entryTranscriptID row)
      (completeEnd reverseBlockSize (files (entryTranscriptID row))) none false)) files)

/-- An agent was sent its file up to its offset, and is owed at most some entries of it. -/
def Behind (classifier : String → Classifier Body) (c : Connection Body Board)
    (name session : String) (n : Nat) : Prop :=
  ∃ state from_ entries, c.transcripts name = some state ∧ state.initialized = true ∧
    state.session = session ∧
    state.missed = false ∧ Followed (classifier session)
      (c.files session) from_ state.offset entries ∧
    owed (classifier session) (c.files session) state.offset ≤ n

theorem Behind.stays {session : String} {n : Nat} (behind : Behind classifier c name session n)
    {c' : Connection Body Board}
    (files : c'.files = c.files) (same : c'.transcripts name = c.transcripts name) :
    Behind classifier c' name session n := by
  rw [Behind, files, same]
  exact behind

/-- What an end that was captured leaves to be sent is nothing. -/
theorem owed_completeEnd (classifier : Classifier Body) (file : Bytes) :
    owed classifier file (completeEnd reverseBlockSize file) = 0 := by
  obtain ⟨records, torn, cut⟩ := exists_cut newline file
  rw [Observer.completeEnd_eq _ cut, owed]
  have cut' : Cut newline file (records ++ []) torn := by rwa [List.append_nil]
  have none_ := renderable_from classifier cut'
  rw [none_]
  rfl

/-- No file changes, and no read of the agent's file fails. -/
structure Readable (name : String) (turns : String → Turn) : Prop where
  still : ∀ other, (turns other).changes = []
  tail : (turns name).tailFault = none
  end_ : (turns name).endFault = none

/-- What the turns of a sweep send to an agent that can be read. -/
theorem Behind.loop {n : Nat} (names : List String)
    (behind : Behind classifier c name (entryTranscriptID row) n)
    (live : (roster.reverse.find? fun row => row.name = name) = some row)
    (readable : Readable name turns)
    (pending : List (Frame Body Board)) :
    let c' := (c.syncLoop classifier false none roster turns names pending).1
    c.Rest c' ∧ Behind classifier c' name (entryTranscriptID row)
        (n - if name ∈ names then maxEntryWindow else 0) := by
  induction names generalizing c n pending with
  | nil =>
    rw [if_neg List.not_mem_nil, Nat.sub_zero]
    exact ⟨⟨rfl, rfl, rfl, rfl⟩, behind⟩
  | cons first rest inductionHypothesis =>
    obtain ⟨ended, acts, turned, does, -⟩ :=
      syncAgent_turned classifier false none roster first (turns first) c pending
    rw [readable.still first] at does
    generalize ran :
      c.syncAgent classifier false none roster first (turns first) pending = after at does
    obtain ⟨c', pending'⟩ := after
    have step : c.syncLoop classifier false none roster turns (first :: rest) pending =
        c'.syncLoop classifier false none roster turns rest pending' := by
      rw [Connection.syncLoop, ran]
    rw [step]
    have files : c'.files = c.files := does.1.files
    by_cases own : first = name
    · subst own
      obtain ⟨state, from_, entries, held, known, same, unmissed, followed, less⟩ := behind
      rw [← same] at followed less
      obtain ⟨page, answered, further⟩ := followed.read state.session maxEntryWindow
      have reads :=
        syncAgent_reads held known live same.symm
        (readable.still first) readable.tail answered pending
      rw [ran] at reads
      have paid := followed.pays state.session answered
      rw [same] at further paid less
      have next : Behind classifier c' first (entryTranscriptID row) (n - maxEntryWindow) := by
        refine ⟨_, from_, _, reads, known, same, unmissed, files ▸ further, ?_⟩
        rw [files]
        exact paid.trans (Nat.sub_le_sub_right less _)
      obtain ⟨kept, behind'⟩ := inductionHypothesis next pending'
      obtain ⟨state', from', entries', held', known', same', unmissed', followed', less'⟩ := behind'
      refine ⟨does.1.trans kept, state', from', entries', held', known', same', unmissed',
        followed', less'.trans ?_⟩
      rw [if_pos List.mem_cons_self]
      exact Nat.sub_le _ _
    · have next := behind.stays files (does.2.2.1 name (Ne.symm own))
      obtain ⟨kept, behind'⟩ := inductionHypothesis next pending'
      have there : (name ∈ first :: rest) ↔ name ∈ rest := by simp [Ne.symm own]
      refine ⟨does.1.trans kept, ?_⟩
      simpa only [there] using behind'

/-- An agent whose transcript has to be captured is, and then nothing is owed. -/
theorem loop_captures (classifier : String → Classifier Body) {names : List String}
    (held : c.transcripts name = some state) (on : name ∈ names)
    (live : (roster.reverse.find? fun row => row.name = name) = some row)
    (readable : Readable name turns)
    (stale : state.initialized = false ∨ state.session ≠ entryTranscriptID row ∨
      (c.files (entryTranscriptID row)).length < state.offset) (pending : List (Frame Body Board)) :
    let c' := (c.syncLoop classifier false none roster turns names pending).1
    c.Rest c' ∧ Behind classifier c' name (entryTranscriptID row) 0 := by
  induction names generalizing c pending with
  | nil => cases on
  | cons first rest inductionHypothesis =>
    obtain ⟨ended, acts, turned, does, -⟩ :=
      syncAgent_turned classifier false none roster first (turns first) c pending
    rw [readable.still first] at does
    generalize ran :
      c.syncAgent classifier false none roster first (turns first) pending = after at does
    obtain ⟨c', pending'⟩ := after
    have step : c.syncLoop classifier false none roster turns (first :: rest) pending =
        c'.syncLoop classifier false none roster turns rest pending' := by
      rw [Connection.syncLoop, ran]
    rw [step]
    have files : c'.files = c.files := does.1.files
    by_cases own : first = name
    · subst own
      have taken :
          (c.syncAgent classifier false none roster first (turns first) pending).1.transcripts
          first = _ :=
        syncAgent_captures held live stale
          (readable.still first) readable.tail readable.end_ pending
      rw [ran] at taken
      have caught : Behind classifier c' first (entryTranscriptID row) 0 := by
        refine ⟨_, completeEnd reverseBlockSize (c.files (entryTranscriptID row)), [], taken, rfl,
          rfl, rfl, ?_, ?_⟩
        · rw [files]
          exact Followed.capture _ _
        · rw [files, owed_completeEnd]
      obtain ⟨kept, behind⟩ := caught.loop rest live readable pending'
      exact ⟨does.1.trans kept, by simpa using behind⟩
    · have stays : c'.transcripts name = some state := (does.2.2.1 name (Ne.symm own)).trans held
      obtain ⟨kept, behind⟩ :=
        inductionHypothesis stays ((List.mem_cons.mp on).resolve_left (Ne.symm own))
        (by rwa [files]) pending'
      exact ⟨does.1.trans kept, behind⟩

theorem sendAll_rest (frames : List (Frame Body Board)) (c : Connection Body Board) :
    c.Rest (frames.foldl Connection.send c) ∧
      (frames.foldl Connection.send c).transcripts = c.transcripts := by
  induction frames generalizing c with
  | nil => exact ⟨⟨rfl, rfl, rfl, rfl⟩, rfl⟩
  | cons frame rest inductionHypothesis =>
    obtain ⟨kept, same⟩ := inductionHypothesis (c.send frame)
    exact ⟨⟨kept.files, kept.agents, kept.roster, kept.rosterRead⟩, same⟩

variable [DecidableEq Board]

/-- A sweep does what its turns do. -/
theorem swept_of_loop {session : String} {n : Nat}
    (loop : c.Rest (c.syncLoop classifier false none c.roster turns c.agents []).1 ∧
      Behind classifier (c.syncLoop classifier false none c.roster turns c.agents []).1 name session
        n) :
    c.Rest (c.receive classifier (.swept turns)) ∧
      Behind classifier (c.receive classifier (.swept turns)) name session n := by
  obtain ⟨kept, same⟩ :=
    sendAll_rest (c.syncLoop classifier false none c.roster turns c.agents []).2
    (c.syncLoop classifier false none c.roster turns c.agents []).1
  exact ⟨loop.1.trans kept, loop.2.stays kept.files (congrFun same name)⟩

/-- Sweeps pay what is owed, a window at a time. -/
theorem Behind.sweeps {sweeps : List (String → Turn)} {n : Nat} (synced : Synced classifier [] c)
    (behind : Behind classifier c name (entryTranscriptID row) n)
    (live : (c.roster.reverse.find? fun row => row.name = name) = some row)
    (readable : ∀ sweep ∈ sweeps, Readable name sweep)
    (few : n ≤ maxEntryWindow * sweeps.length) :
    c.Rest (c.run classifier (sweeps.map .swept)) ∧
      Behind classifier (c.run classifier (sweeps.map .swept)) name (entryTranscriptID row) 0 := by
  induction sweeps generalizing c n with
  | nil =>
    obtain rfl : n = 0 := Nat.le_zero.mp (by simpa using few)
    exact ⟨⟨rfl, rfl, rfl, rfl⟩, behind⟩
  | cons sweep rest inductionHypothesis =>
    obtain ⟨state, -, -, held, -⟩ := id behind
    have on := synced.keys name state held
    have loop := behind.loop c.agents live (readable sweep List.mem_cons_self) []
    obtain ⟨kept, next⟩ := swept_of_loop loop
    rw [if_pos on] at next
    have ended :=
      inductionHypothesis (synced.receive (.swept sweep)) next (by rw [kept.roster]; exact live)
      (fun other own => readable other (List.mem_cons_of_mem _ own))
        (by rw [List.length_cons, Nat.mul_succ] at few; omega)
    exact ⟨kept.trans ended.1, ended.2⟩

/-- Of an agent that is followed, is on the roster and whose file was not cut and grown past its
offset unread: while
the files stay as they are and it can be read, enough sweeps send it all that its file has.  Since
the end that was
last captured, it was announced, and then sent every entry of its file from that end on. -/
theorem sweeps_send_all (classifier : String → Classifier Body) (files : String → Bytes)
    (agents : List String) (board : Option Board)
    (roster : List StreamRow) (turns : String → Turn) (received : List (Received Board))
    (name : String) (state : Transcript)
    (row : StreamRow) :
    let c :=
  (Connection.serveEvents classifier files agents board roster turns).run classifier received
    let session := entryTranscriptID row
    c.transcripts name = some state → state.missed = false →
    (c.roster.reverse.find? fun row => row.name = name) = some row →
    ∃ few, ∀ sweeps : List (String → Turn), few ≤ sweeps.length →
      (∀ sweep ∈ sweeps, Readable name sweep) →
      ∃ from_, Told false (c.run classifier (sweeps.map .swept)).log name session from_
        ((renderable (classifier session) (c.files session)).filter fun entry =>
            from_ ≤ entry.byteOffset) := by
  intro c session held unmissed live
  have synced : Synced classifier [] c :=
    (synced_serveEvents classifier files agents board roster turns).run received
  clear_value c
  -- An agent that is owed nothing was sent it all.
  have all : ∀ sweeps : List (String → Turn), c.Rest (c.run classifier (sweeps.map .swept)) →
      Behind classifier (c.run classifier (sweeps.map .swept)) name session 0 →
      ∃ from_, Told false (c.run classifier (sweeps.map .swept)).log name session from_
        ((renderable (classifier session) (c.files session)).filter fun entry =>
            from_ ≤ entry.byteOffset) := by
    intro sweeps kept behind
    obtain ⟨state', -, -, held', known', same', unmissed', ⟨-, -, -, inside, -⟩, paid⟩ := behind
    obtain ⟨from_, entries, standing, told⟩ :=
      (synced.run (sweeps.map .swept)).told name state' held' known' unmissed'
    rw [same', kept.files] at standing
    rw [kept.files] at inside paid
    obtain followed | ⟨short, -⟩ := standing
    · rw [followed.all (Nat.le_zero.mp paid), same'] at told
      exact ⟨from_, told⟩
    · omega
  by_cases stale : state.initialized = false ∨ state.session ≠ session ∨
    (c.files session).length < state.offset
  · refine ⟨1, fun sweeps some_ readable => ?_⟩
    cases sweeps with
    | nil => simp at some_
    | cons sweep rest =>
      have loop :=
        loop_captures classifier held (synced.keys name state held) live
        (readable sweep List.mem_cons_self) stale []
      obtain ⟨kept, next⟩ := swept_of_loop loop
      have readable' : ∀ other ∈ rest, Readable name other :=
        fun other own => readable other (List.mem_cons_of_mem _ own)
      obtain ⟨kept', ended⟩ :=
        next.sweeps (synced.receive (.swept sweep)) (by rw [kept.roster]; exact live) readable'
        (Nat.zero_le _)
      exact all (sweep :: rest) (kept.trans kept') ended
  · obtain ⟨known, same, inside⟩ : state.initialized = true ∧ state.session = session ∧
        state.offset ≤ (c.files session).length := by
      simpa using stale
    obtain ⟨from_, entries, standing, told⟩ := synced.told name state held known unmissed
    rw [same] at standing
    obtain followed | ⟨short, -⟩ := standing
    · refine ⟨owed (classifier session) (c.files session) state.offset, fun sweeps few readable =>
        ?_⟩
      have behind :
          Behind classifier c name session
          (owed (classifier session) (c.files session) state.offset) :=
        ⟨state, from_, entries, held, known, same, unmissed, followed, le_rfl⟩
      have window : sweeps.length ≤ maxEntryWindow * sweeps.length :=
        Nat.le_mul_of_pos_left _ (by decide)
      obtain ⟨kept, ended⟩ := behind.sweeps synced live readable (few.trans window)
      exact all sweeps kept ended
    · omega

end

def rikoGrown : List (Received Unit) := rikoReceived ++ [.changed ⟨"s", letter ++ letter⟩]

theorem sweeps_send_all_sample : ∃ few, ∀ sweeps : List (String → Turn), few ≤ sweeps.length →
    (∀ sweep ∈ sweeps, Readable "riko" sweep) →
    ∃ from_, Told false ((rikoStream rikoGrown).run (fun _ => lettered) (sweeps.map .swept)).log
      "riko" "s" from_
      ((renderable lettered ((rikoStream rikoGrown).files "s")).filter fun entry =>
      from_ ≤ entry.byteOffset) := by
  have held : (rikoStream rikoGrown).transcripts "riko" = some ⟨true, "s", 2, none, false⟩ := by
    decide +kernel
  have live : ((rikoStream rikoGrown).roster.reverse.find? fun row => row.name = "riko") =
    some rikoRow := by decide +kernel
  unfold rikoStream at held live ⊢
  exact sweeps_send_all (fun _ => lettered) _ _ _ _ _ rikoGrown "riko"
    ⟨true, "s", 2, none, false⟩ rikoRow held rfl live

end AiConfig.Herder.EventStream
