import AiConfig.Sesh.Index.Lines

/-! # The buffered line reader

`parseComplete` as `internal/index/index.go` runs it: `ReadSlice` over a 64 KiB
buffer, fragments joined by `readCompleteLine`, the ordinal counted in 32 KiB blocks.
`bufferedParse_eq` shows that neither buffer is seen in the rows. -/

namespace AiConfig.Sesh

open AiConfig.Lib AiConfig.Sesh.Wire

/-- `bufio.NewReaderSize(…, 64*1024)`. -/
def readerBytes : Nat := 64 * 1024

/-- The buffer of `lineOrdinalAt`. -/
def ordinalBytes : Nat := 32 * 1024

/-- What `ReadSlice('\n')` returns, with the bytes left unread. -/
inductive Slice where
  | line (fragment unread : Bytes)
  /-- `bufio.ErrBufferFull`. -/
  | full (fragment unread : Bytes)
  | eof

def readSlice (unread : Bytes) : Slice :=
  let buffered := unread.take readerBytes
  let body := buffered.takeWhile (· ≠ newline)
  if body.length < buffered.length then
    .line (unread.take (body.length + 1)) (unread.drop (body.length + 1))
  else if readerBytes ≤ unread.length then .full buffered (unread.drop readerBytes)
  else .eof

/-- A slice of Go: `nil` is apart from the empty slice. -/
abbrev GoBytes := Option Bytes

def GoBytes.len (slice : GoBytes) : Nat := (slice.map List.length).getD 0

/-- Appending nothing to `nil` leaves `nil`; the capacity is not visible in the text. -/
def appendLineFragment (line : GoBytes) (fragment : Bytes) : GoBytes :=
  match line with
  | some text => some (text ++ fragment)
  | none => if fragment = [] then none else some fragment

/-! ## What a slice is -/

theorem takeWhile_newline (bytes : Bytes) : newline ∉ bytes.takeWhile (· ≠ newline) :=
  fun member => by
  simpa using List.all_eq_true.mp List.all_takeWhile _ member

theorem readSlice_line {unread fragment rest : Bytes}
    (read : readSlice unread = .line fragment rest) :
    ∃ body, fragment = body ++ [newline] ∧ newline ∉ body ∧ unread = body ++ newline :: rest := by
  unfold readSlice at read
  dsimp only at read
  split at read
  · rename_i inside
    obtain ⟨rfl, rfl⟩ := Slice.line.inj read
    generalize held : (unread.take readerBytes).takeWhile (· ≠ newline) = body at inside ⊢
    have clean : newline ∉ body := held ▸ takeWhile_newline _
    -- the byte at which the search stopped
    obtain ⟨next, more, beyond⟩ : ∃ next more,
        (unread.take readerBytes).dropWhile (· ≠ newline) = next :: more := by
      cases found : (unread.take readerBytes).dropWhile (· ≠ newline) with
      | nil =>
        have whole :=
          List.takeWhile_append_dropWhile (p := (· ≠ newline)) (l := unread.take readerBytes)
        rw [held, found, List.append_nil] at whole
        rw [← whole] at inside
        exact absurd inside (Nat.lt_irrefl _)
      | cons next more => exact ⟨next, more, rfl⟩
    have stopped : next = newline := by
      have head := List.head?_dropWhile_not (· ≠ newline) (unread.take readerBytes)
      rw [beyond] at head
      simpa using head
    have whole : unread = body ++ newline :: (more ++ unread.drop readerBytes) := by
      calc unread = unread.take readerBytes ++ unread.drop readerBytes := (List.take_append_drop _
        _).symm
        _ = (body ++ next :: more) ++ unread.drop readerBytes := by
          rw [← held, ← beyond, List.takeWhile_append_dropWhile]
        _ = _ := by rw [stopped, List.append_assoc, List.cons_append]
    have cut : unread.take (body.length + 1) = body ++ [newline] := by
      rw [whole, List.take_length_add_append]
      rfl
    have left : unread.drop (body.length + 1) = more ++ unread.drop readerBytes := by
      conv_lhs => rw [whole]
      rw [List.drop_length_add_append]
      rfl
    exact ⟨body, cut, clean, by rw [left]; exact whole⟩
  · split at read <;> cases read

theorem readSlice_full {unread fragment rest : Bytes}
    (read : readSlice unread = .full fragment rest) :
    unread = fragment ++ rest ∧ newline ∉ fragment ∧ fragment.length = readerBytes := by
  unfold readSlice at read
  dsimp only at read
  split at read
  · cases read
  · rename_i searched
    split at read
    · rename_i long
      obtain ⟨rfl, rfl⟩ := Slice.full.inj read
      refine ⟨(List.take_append_drop _ _).symm, ?_, by simp [long]⟩
      have clean := takeWhile_newline (unread.take readerBytes)
      rwa [(List.takeWhile_prefix _).eq_of_length_le (Nat.le_of_not_lt searched)] at clean
    · cases read

theorem readSlice_eof {unread : Bytes} (read : readSlice unread = .eof) : newline ∉ unread := by
  unfold readSlice at read
  dsimp only at read
  split at read
  · cases read
  · rename_i searched
    split at read
    · cases read
    · rename_i short
      have clean := takeWhile_newline (unread.take readerBytes)
      rw [(List.takeWhile_prefix _).eq_of_length_le (Nat.le_of_not_lt searched)] at clean
      rwa [List.take_of_length_le (by omega)] at clean

/-! ## One line -/

/-- The loop of `readCompleteLine`: the line so far (`nil` once it is too long), the
    bytes of it that are read, and what is returned with the bytes left unread. -/
def readFragments (line : GoBytes) (lineBytes : Nat) (tooLong : Bool) (unread : Bytes) :
    Option (GoBytes × Nat × Bytes) :=
  match read : readSlice unread with
  | .line fragment rest =>
    let body := fragment.dropLast
    let lineBytes := lineBytes + (body.length + 1)
    if tooLong ∨ maxIndexedLineBytes < line.len + body.length then some (none, lineBytes, rest)
    else some (appendLineFragment line body, lineBytes, rest)
  | .full fragment rest =>
    -- A line beyond the limit is read on for its length, its bytes dropped.
    if tooLong ∨ maxIndexedLineBytes < line.len + fragment.length then
      readFragments none (lineBytes + fragment.length) true rest
    else readFragments (appendLineFragment line fragment) (lineBytes + fragment.length) false rest
  | .eof => none
termination_by unread.length
decreasing_by
  all_goals
    obtain ⟨split, _, size⟩ := readSlice_full read
    rw [split, List.length_append, size]
    exact Nat.lt_add_of_pos_left (by decide)

def readCompleteLine (unread : Bytes) : Option (GoBytes × Nat × Bytes) :=
  readFragments none 0 false unread

/-- The slice that holds a line once it is read: `nil` for the empty line too. -/
def lineSlice (body : Bytes) : GoBytes :=
  if body = [] ∨ maxIndexedLineBytes < body.length then none else some body

/-- The state of the loop after the fragments of `text`. -/
structure Joined (text : Bytes) (line : GoBytes) (lineBytes : Nat) (tooLong : Bool) : Prop where
  counted : lineBytes = text.length
  long : tooLong = true → maxIndexedLineBytes < text.length
  held : tooLong = false → text.length ≤ maxIndexedLineBytes ∧
    line = if text = [] then none else some text

theorem GoBytes.len_eq (text : Bytes) :
    GoBytes.len (if text = [] then none else some text) = text.length := by
  split
  · rename_i empty
    simp [GoBytes.len, empty]
  · rfl

theorem appendLineFragment_eq (text fragment : Bytes) :
    appendLineFragment (if text = [] then none else some text) fragment =
      if text ++ fragment = [] then none else some (text ++ fragment) := by
  by_cases empty : text = []
  · subst empty
    rfl
  · simp [empty, appendLineFragment]

theorem readFragments_none {unread : Bytes} (unfinished : newline ∉ unread) (line : GoBytes)
    (lineBytes : Nat) (tooLong : Bool) : readFragments line lineBytes tooLong unread = none := by
  fun_induction readFragments line lineBytes tooLong unread with
  | case1 line lineBytes tooLong unread fragment rest read =>
    obtain ⟨body, _, _, split⟩ := readSlice_line read
    exact absurd (by simp [split]) unfinished
  | case2 line lineBytes tooLong unread fragment rest read =>
    obtain ⟨body, _, _, split⟩ := readSlice_line read
    exact absurd (by simp [split]) unfinished
  | case3 line lineBytes tooLong unread fragment rest read _ inductionHypothesis
  | case4 line lineBytes tooLong unread fragment rest read _ inductionHypothesis =>
    obtain ⟨split, _, _⟩ := readSlice_full read
    exact inductionHypothesis fun later =>
      unfinished (by rw [split]; exact List.mem_append_right _ later)
  | case5 => rfl

/-- Two splits of one text at its first newline. -/
theorem first_newline_unique {body body' rest rest' : Bytes} (clean : newline ∉ body)
    (clean' : newline ∉ body')
    (same : body ++ newline :: rest = body' ++ newline :: rest') : body = body' ∧ rest = rest' := by
  induction body generalizing body' with
  | nil =>
    cases body' with
    | nil => exact ⟨rfl, List.tail_eq_of_cons_eq same⟩
    | cons byte body' =>
      obtain ⟨rfl, _⟩ := List.cons.inj same
      exact absurd List.mem_cons_self clean'
  | cons byte body inductionHypothesis =>
    cases body' with
    | nil =>
      obtain ⟨rfl, _⟩ := List.cons.inj same
      exact absurd List.mem_cons_self clean
    | cons byte' body' =>
      obtain ⟨rfl, tails⟩ := List.cons.inj same
      obtain ⟨rfl, rfl⟩ := inductionHypothesis (fun member => clean (List.mem_cons_of_mem _ member))
        (fun member => clean' (List.mem_cons_of_mem _ member)) tails
      exact ⟨rfl, rfl⟩

/-- A full buffer without newline is the front of the line. -/
theorem fragment_of_line {fragment rest body after : Bytes} (clean : newline ∉ fragment)
    (same : fragment ++ rest = body ++ newline :: after) :
    ∃ more, body = fragment ++ more ∧ rest = more ++ newline :: after := by
  rcases List.append_eq_append_iff.mp same with ⟨more, front, back⟩ | ⟨more, front, back⟩
  · exact ⟨more, front, back⟩
  · cases more with
    | nil => exact ⟨[], by rw [front, List.append_nil, List.append_nil], by simpa using back.symm⟩
    | cons byte more =>
      obtain ⟨rfl, _⟩ := List.cons.inj back
      exact absurd (by simp [front]) clean

/-- Fragments of a line join to its text, or to `nil` once they exceed the cap. -/
theorem readFragments_line {text body rest : Bytes} (clean : newline ∉ body) {line : GoBytes}
    {lineBytes : Nat}
    {tooLong : Bool} (joined : Joined text line lineBytes tooLong) {unread : Bytes}
    (split : unread = body ++ newline :: rest) :
    readFragments line lineBytes tooLong unread =
      some (lineSlice (text ++ body), text.length + body.length + 1, rest) := by
  -- While the line is not too long, what is held of it is all of it.
  have measured : tooLong = false → line.len = text.length := fun short => by
    rw [(joined.held short).2, GoBytes.len_eq]
  fun_induction readFragments line lineBytes tooLong unread generalizing text body with
  | case1 line lineBytes tooLong unread fragment rest' read body' =>
    rename_i exceeds
    obtain ⟨found, rfl, clean', split'⟩ := readSlice_line read
    obtain ⟨rfl, rfl⟩ := first_newline_unique clean clean' (split.symm.trans split')
    have shown : body' = body := List.dropLast_concat
    have over_ : maxIndexedLineBytes < (text ++ body).length := by
      rw [List.length_append]
      cases long : tooLong with
      | true =>
        have := joined.long long
        omega
      | false =>
        simp only [long, Bool.false_eq_true, false_or, measured long, shown] at exceeds
        exact exceeds
    rw [lineSlice, if_pos (Or.inr over_), ← joined.counted, ← shown, Nat.add_assoc]
  | case2 line lineBytes tooLong unread fragment rest' read body' =>
    rename_i fits
    obtain ⟨found, rfl, clean', split'⟩ := readSlice_line read
    obtain ⟨rfl, rfl⟩ := first_newline_unique clean clean' (split.symm.trans split')
    have shown : body' = body := List.dropLast_concat
    obtain ⟨short, fits⟩ := not_or.mp fits
    have short : tooLong = false := by simpa using short
    rw [measured short, shown] at fits
    have slice :
        lineSlice (text ++ body) = if text ++ body = [] then none else some (text ++ body) := by
      simp only [lineSlice, List.length_append, fits, or_false]
    rw [slice, ← appendLineFragment_eq, ← (joined.held short).2, ← joined.counted, ← shown,
      Nat.add_assoc]
  | case3 line lineBytes tooLong unread fragment rest' read exceeds inductionHypothesis =>
    obtain ⟨split', clean', _⟩ := readSlice_full read
    obtain ⟨more, rfl, rfl⟩ := fragment_of_line clean' (split'.symm.trans split)
    have over_ : maxIndexedLineBytes < (text ++ fragment).length := by
      rw [List.length_append]
      cases long : tooLong with
      | true =>
        have := joined.long long
        omega
      | false => simpa only [long, Bool.false_eq_true, false_or, measured long] using exceeds
    have joined' : Joined (text ++ fragment) none (lineBytes + fragment.length) true :=
      ⟨by rw [joined.counted, List.length_append], fun _ => over_, fun short => by cases short⟩
    rw [inductionHypothesis (fun member => clean (List.mem_append_right _ member)) joined' rfl
      (fun short => by cases short)]
    simp only [List.append_assoc, List.length_append, Nat.add_assoc]
  | case4 line lineBytes tooLong unread fragment rest' read fits inductionHypothesis =>
    obtain ⟨split', clean', _⟩ := readSlice_full read
    obtain ⟨more, rfl, rfl⟩ := fragment_of_line clean' (split'.symm.trans split)
    obtain ⟨short, fits⟩ := not_or.mp fits
    have short : tooLong = false := by simpa using short
    rw [measured short] at fits
    have held : appendLineFragment line fragment =
        if text ++ fragment = [] then none else some (text ++ fragment) := by
      rw [(joined.held short).2, appendLineFragment_eq]
    have joined' : Joined (text ++ fragment) (appendLineFragment line fragment)
        (lineBytes + fragment.length) false :=
      ⟨by rw [joined.counted, List.length_append], fun long => (by cases long),
        fun _ => ⟨by rw [List.length_append]; omega, held⟩⟩
    rw [inductionHypothesis (fun member => clean (List.mem_append_right _ member)) joined' rfl
      (fun _ => by rw [held, GoBytes.len_eq])]
    simp only [List.append_assoc, List.length_append, Nat.add_assoc]
  | case5 line lineBytes tooLong unread read =>
    exact absurd (by simp [split]) (readSlice_eof read)

theorem completeLines_unfinished {bytes : Bytes} (unfinished : newline ∉ bytes) :
    completeLines bytes = [] := by
  have none := completeLines_length bytes
  rw [List.count_eq_zero_of_not_mem unfinished] at none
  exact List.length_eq_zero_iff.mp none

theorem completeLines_line {body : Bytes} (clean : newline ∉ body) (rest : Bytes) :
    completeLines (body ++ newline :: rest) = body :: completeLines rest := by
  induction body with
  | nil => exact completeLines_newline rest
  | cons byte body inductionHypothesis =>
    have other : byte ≠ newline := fun same => clean (by rw [same]; exact List.mem_cons_self)
    rw [List.cons_append, completeLines_other other,
      inductionHypothesis fun member => clean (List.mem_cons_of_mem _ member)]

theorem readCompleteLine_none {unread : Bytes} (unfinished : newline ∉ unread) :
    readCompleteLine unread = none :=
  readFragments_none unfinished none 0 false

theorem readCompleteLine_line {body : Bytes} (clean : newline ∉ body) (rest : Bytes) :
    readCompleteLine (body ++ newline :: rest) = some (lineSlice body, body.length + 1, rest) := by
  have start : Joined [] none 0 false :=
    ⟨rfl, fun long => (by cases long), fun _ => ⟨Nat.zero_le _, rfl⟩⟩
  have joined := readFragments_line clean start (rfl : body ++ newline :: rest = _)
  rwa [List.nil_append, List.length_nil, Nat.zero_add] at joined

/-- What one read takes, when it returns a line. -/
theorem readCompleteLine_some {unread rest : Bytes} {line : GoBytes} {lineBytes : Nat}
    (read : readCompleteLine unread = some (line, lineBytes, rest)) :
    ∃ body, newline ∉ body ∧ unread = body ++ newline :: rest ∧ line = lineSlice body ∧
      lineBytes = body.length + 1 := by
  by_cases finished : newline ∈ unread
  · obtain ⟨body, more, split, clean⟩ := List.eq_append_cons_of_mem finished
    rw [split, readCompleteLine_line clean] at read
    simp only [Option.some.injEq, Prod.mk.injEq] at read
    obtain ⟨rfl, rfl, rfl⟩ := read
    exact ⟨body, clean, split, rfl, rfl⟩
  · rw [readCompleteLine_none finished] at read
    cases read

/-! ## The lines of an event -/

/-- The row of a line as the loop builds it. -/
def readRow (decoder : Decoder) (gen : GenKey) (ordinal start stop : Nat) (line : GoBytes) :
    IndexedMessage :=
  match line with
  | none => quarantineLine gen "line_too_long" ⟨ordinal, start, stop, []⟩
  | some body => parseLine decoder gen ⟨ordinal, start, stop, body⟩

/-- The loop of `parseComplete`: the rows, and where the last complete line ends. -/
def readRows (decoder : Decoder) (gen : GenKey) (ordinal start : Nat) (unread : Bytes) :
    List IndexedMessage × Nat :=
  match _read : readCompleteLine unread with
  | none => ([], start)
  | some (line, lineBytes, rest) =>
    let later := readRows decoder gen (ordinal + 1) (start + lineBytes) rest
    (readRow decoder gen ordinal start (start + lineBytes) line :: later.1, later.2)
termination_by unread.length
decreasing_by
  obtain ⟨body, _, split, _⟩ := readCompleteLine_some _read
  rw [split, List.length_append, List.length_cons]
  omega

/-- The loop of `lineOrdinalAt`. -/
def countNewlines (mirror : Bytes) (offset read ordinal : Nat) : Nat :=
  if read < offset then
    let want := min ordinalBytes (offset - read)
    countNewlines mirror offset (read + want)
      (ordinal + ((mirror.drop read).take want).count newline)
  else ordinal
termination_by offset - read
decreasing_by
  have positive : 0 < ordinalBytes := by decide
  omega

/-- `parseComplete` through its buffers. -/
def bufferedParse (decoder : Decoder) (store : Store) (ev : AppendEvent) (start : Nat) :
    Except IndexError (List IndexedMessage × Nat) :=
  if ev.byteEnd ≤ start then .ok ([], start)
  else
    let mirror := store.mirrored ev.identity ev.generation
    if mirror.length < ev.byteEnd then .error (.mirrorIncomplete mirror.length ev.byteEnd)
    else .ok (readRows decoder ev.gen (countNewlines mirror start 0 0) start
      ((mirror.take ev.byteEnd).drop start))

theorem readRow_eq (decoder : Decoder) (gen : GenKey) (ordinal start stop : Nat) (body : Bytes) :
    readRow decoder gen ordinal start stop (lineSlice body) =
      indexLine decoder gen ⟨ordinal, start, stop, body⟩ := by
  unfold lineSlice indexLine
  split <;> rfl

theorem readRows_eq (decoder : Decoder) (gen : GenKey) (ordinal start : Nat) (unread : Bytes) :
    readRows decoder gen ordinal start unread =
      ((numbered ordinal start (completeLines unread)).map (indexLine decoder gen),
        start + extent (completeLines unread)) := by
  fun_induction readRows decoder gen ordinal start unread with
  | case1 ordinal start unread read =>
    have unfinished : newline ∉ unread := by
      intro finished
      obtain ⟨body, rest, split, clean⟩ := List.eq_append_cons_of_mem finished
      rw [split, readCompleteLine_line clean] at read
      cases read
    rw [completeLines_unfinished unfinished]
    rfl
  | case2 ordinal start unread line lineBytes rest read later inductionHypothesis =>
    obtain ⟨body, clean, rfl, rfl, rfl⟩ := readCompleteLine_some read
    have ended : later = _ := inductionHypothesis
    rw [ended, completeLines_line clean, numbered, List.map_cons, readRow_eq, extent_cons,
      Nat.add_assoc]

theorem countNewlines_eq (mirror : Bytes) {offset read : Nat} (ordinal : Nat) :
    countNewlines mirror offset read ordinal =
      ordinal + ((mirror.take offset).drop read).count newline := by
  fun_induction countNewlines mirror offset read ordinal with
  | case1 read ordinal more want inductionHypothesis =>
    have within : read + want ≤ offset := by omega
    have split : (mirror.take offset).drop read =
        (mirror.drop read).take want ++ (mirror.take offset).drop (read + want) := by
      calc (mirror.take offset).drop read
          = ((mirror.take offset).drop read).take want ++
              ((mirror.take offset).drop read).drop want :=
            (List.take_append_drop _ _).symm
        _ = _ := by
          rw [List.drop_drop, List.drop_take, List.take_take, Nat.min_eq_left (by omega)]
    rw [inductionHypothesis, split, List.count_append, Nat.add_assoc]
  | case2 read ordinal done =>
    have nothing : (mirror.take offset).drop read = [] :=
      List.drop_eq_nil_of_le (Nat.le_trans (by rw [List.length_take]; exact Nat.min_le_left _ _)
        (Nat.le_of_not_lt done))
    rw [nothing, List.count_nil, Nat.add_zero]

/-- The rows do not depend on how the reader fills its buffers. -/
theorem bufferedParse_eq (decoder : Decoder) (store : Store) (ev : AppendEvent) (start : Nat) :
    bufferedParse decoder store ev start = parseComplete decoder store ev start := by
  unfold bufferedParse parseComplete
  split
  · rfl
  · dsimp only
    split
    · rfl
    · rw [countNewlines_eq, readRows_eq, Nat.zero_add, List.drop_zero, linesBetween, numbered_last,
        lineOrdinalAt]

end AiConfig.Sesh
