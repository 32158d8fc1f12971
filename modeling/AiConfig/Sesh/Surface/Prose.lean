import AiConfig.Lib.Encoding
import Mathlib.Data.List.DropRight
import Mathlib.Data.Nat.Digits.Defs
import Mathlib.Tactic.IntervalCases

/-! # Message text as markup

Transcription of `prose` and `proseInline` of `internal/surface/compact.go`.  A text is a list of
bytes.  The regular expressions name only ASCII characters, so what they match in the runes of a
text,
valid or not, they match in its bytes; each is written out as the scan that finds its leftmost
match. -/

namespace AiConfig.Sesh.Surface.Prose

open AiConfig.Lib

def bytes (text : String) : List UInt8 := text.toUTF8.data.toList

/-- A property of the bytes of a text, checked byte by byte. -/
theorem all_bytes {property : UInt8 → Prop} [DecidablePred property] {text : List UInt8}
    (all : text.all (fun b => decide (property b)) = true) : ∀ b ∈ text, property b := by
  simpa using all

def escapeByte (b : UInt8) : List UInt8 :=
  if b = 38 then bytes "&amp;"
  else if b = 39 then bytes "&#39;"
  else if b = 60 then bytes "&lt;"
  else if b = 62 then bytes "&gt;"
  else if b = 34 then bytes "&#34;"
  else [b]

/-- `html.EscapeString` -/
def escapeString (text : List UInt8) : List UInt8 := text.flatMap escapeByte

/-- `strings.Split` at three backticks. -/
def splitFences : List UInt8 → List (List UInt8)
  | a :: b :: c :: rest =>
    if a = 96 ∧ b = 96 ∧ c = 96 then [] :: splitFences rest
    else (splitFences (b :: c :: rest)).modifyHead (a :: ·)
  | short => [short]

/-- The decimal digits of a number, as `strconv.Itoa` writes them. -/
def itoa (n : Nat) : List UInt8 :=
  if n = 0 then [48] else ((Nat.digits 10 n).map fun digit => 48 + UInt8.ofNat digit).reverse

/-- `strconv.Atoi` of digits; a number that does not fit is no index of anything either way. -/
def atoi (digits : List UInt8) : Nat := digits.foldl (fun n b => 10 * n + (b.toNat - 48)) 0

def isDigit (b : UInt8) : Bool := 48 ≤ b && b ≤ 57

/-- `^#{1,6} +(.+)$` on a line: its marks and its content.  The blanks are all marks unless nothing
else follows them. -/
def headingMatch {α : Type} (hash blank : α → Bool) (line : List α) : Option (List α × List α) :=
  let hashes := line.takeWhile hash
  let rest := line.dropWhile hash
  if 1 ≤ hashes.length ∧ hashes.length ≤ 6 then
    let blanks := rest.takeWhile blank
    let content := rest.dropWhile blank
    if blanks = [] then none
    else if content ≠ [] then some (hashes ++ blanks, content)
    -- The content needs a character: the last blank, if there is more than one.
    else if blanks.length = 1 then none
    else some (hashes ++ blanks.take (blanks.length - 1), blanks.drop (blanks.length - 1))
  else none

inductive Item (α : Type)
  | plain (a : α)
  | bold (run : List α)

/-- `\*\*([^*\n]+?)\*\*` at the start of a text: the run between the stars and what comes after. -/
def boldMatch {α : Type} (star stop : α → Bool) (text : List α) : Option (List α × List α) :=
  match twice star text with
  | none => none
  | some rest =>
    let run := rest.takeWhile fun a => !stop a
    if run = [] then none else (twice star (rest.dropWhile fun a => !stop a)).map fun after =>
      (run, after)

theorem length_twice {α : Type} {mark : α → Bool} {list rest : List α}
    (found : twice mark list = some rest) :
    rest.length < list.length := by
  cases list with
  | nil => cases found
  | cons a list =>
    cases list with
    | nil => cases found
    | cons b list =>
      rw [twice] at found
      split_ifs at found
      obtain rfl := Option.some.inj found
      simp only [List.length_cons]
      omega

theorem length_boldMatch {α : Type} {star stop : α → Bool} {text run after : List α}
    (found : boldMatch star stop text = some (run, after)) : after.length < text.length := by
  rw [boldMatch] at found
  split at found
  · cases found
  · next rest opened =>
    dsimp only at found
    split_ifs at found
    obtain ⟨after', closed, same⟩ := Option.map_eq_some_iff.mp found
    obtain ⟨-, rfl⟩ := Prod.mk.inj same
    have short := length_twice opened
    have shorter := length_twice closed
    have dropped := (List.dropWhile_sublist (l := rest) fun a => !stop a).length_le
    omega

/-- The bold runs of a text, the leftmost first. -/
def items {α : Type} (star stop : α → Bool) : List α → List (Item α)
  | [] => []
  | a :: rest =>
    match _found : boldMatch star stop (a :: rest) with
    | some (run, after) => Item.bold run :: items star stop after
    | none => Item.plain a :: items star stop rest
termination_by text => text.length
decreasing_by
  · exact length_boldMatch _found
  · simp

def opening : List UInt8 := bytes "<strong>"

def closing : List UInt8 := bytes "</strong>"

/-- `proseHeading.ReplaceAllString`, line by line. -/
def headingLine (line : List UInt8) : List UInt8 :=
  match headingMatch (· == 35) (· == 32) line with
  | some (_, content) => opening ++ content ++ closing
  | none => line

def headings (text : List UInt8) : List UInt8 :=
  [10].intercalate ((text.splitOn 10).map headingLine)

def boldItem : Item UInt8 → List UInt8
  | .plain b => [b]
  | .bold run => opening ++ run ++ closing

/-- `proseBold.ReplaceAllString` -/
def bold (text : List UInt8) : List UInt8 :=
  (items (· == 42) (fun b => b == 42 || b == 10) text).flatMap boldItem

/-- `\x00[0-9]+\x00` at the start of a text: the digits and what comes after. -/
def spanMatch : List UInt8 → Option (List UInt8 × List UInt8)
  | [] => none
  | b :: rest =>
    let digits := rest.takeWhile isDigit
    match rest.dropWhile isDigit with
    | c :: after => if b = 0 ∧ digits ≠ [] ∧ c = 0 then some (digits, after) else none
    | [] => none

theorem length_spanMatch {text digits after : List UInt8}
    (found : spanMatch text = some (digits, after)) :
    after.length < text.length := by
  cases text with
  | nil => cases found
  | cons b rest =>
    have dropped := (List.dropWhile_sublist (l := rest) isDigit).length_le
    simp only [spanMatch] at found
    split at found
    · next c after' split_ =>
      split_ifs at found
      obtain ⟨-, rfl⟩ := Prod.mk.inj (Option.some.inj found)
      rw [split_, List.length_cons] at dropped
      rw [List.length_cons]
      omega
    · cases found

/-- `proseSpan.ReplaceAllStringFunc`: an index outside the spans is a panic. -/
def putBack (spans : List (List UInt8)) : List UInt8 → Option (List UInt8)
  | [] => some []
  | b :: rest =>
    match _found : spanMatch (b :: rest) with
    | some (digits, after) => (spans[atoi digits]?).bind fun span =>
        (putBack spans after).map (span ++ ·)
    | none => (putBack spans rest).map (b :: ·)
termination_by text => text.length
decreasing_by
  · exact length_spanMatch _found
  · simp

def codeSpan (content : List UInt8) : List UInt8 :=
  bytes "<code>" ++ escapeString content ++ bytes "</code>"

def placeholder (n : Nat) : List UInt8 := [0] ++ itoa n ++ [0]

/-- The loop that takes the code spans out: the spans and the text that is left. -/
def takeOut : Nat → List (List UInt8) → List (List UInt8) → List UInt8 → List
    (List UInt8) × List UInt8
  | _, [], spans, flat => (spans, flat)
  | i, part :: rest, spans, flat =>
    if i % 2 = 1 then takeOut (i + 1) rest (spans ++ [codeSpan part])
      (flat ++ placeholder spans.length)
    else takeOut (i + 1) rest spans (flat ++ escapeString (part.filter (· ≠ 0)))

def proseInline (text : List UInt8) : Option (List UInt8) :=
  let parts := text.splitOn 96
  let parts := if parts.length % 2 = 0 then [text] else parts
  let (spans, flat) := takeOut 0 parts [] []
  putBack spans (bold (headings flat))

/-- The info string of a fence is dropped with its newline. -/
def dropInfo (part : List UInt8) : List UInt8 :=
  match part.dropWhile (· ≠ 10) with
  | _ :: rest => if (part.takeWhile (· ≠ 10)).any fun b => b = 32 || b = 9 then part else rest
  | [] => part

def fence (part : List UInt8) : List UInt8 :=
  bytes "<code class=\"fence\">" ++ escapeString ((dropInfo part).rdropWhile (· = 10)) ++
    bytes "</code>"

/-- `strings.TrimPrefix` of a newline. -/
def trimNewline : List UInt8 → List UInt8
  | [] => []
  | b :: rest => if b = 10 then rest else b :: rest

def proseParts : Nat → List (List UInt8) → Option (List UInt8)
  | _, [] => some []
  | i, part :: rest =>
    if i % 2 = 1 then (proseParts (i + 1) rest).map (fence part ++ ·)
    else
      (proseInline (if 0 < i then trimNewline part else part)).bind fun html =>
        (proseParts (i + 1) rest).map (html ++ ·)

def prose (text : List UInt8) : Option (List UInt8) :=
  let fences := splitFences text
  proseParts 0 (if fences.length % 2 = 0 then [text] else fences)

/-! ## The scan for bold runs -/

section

variable {α : Type} {star stop : α → Bool}

theorem twice_append {tail : List α} (apart : ∀ b ∈ tail.head?, star b = false) (list : List α) :
    twice star (list ++ tail) = (twice star list).map (· ++ tail) := by
  cases list with
  | nil =>
    cases tail with
    | nil => rfl
    | cons b tail =>
      have plain : star b = false := apart b rfl
      cases tail <;> simp [twice, plain]
  | cons a list =>
    cases list with
    | nil =>
      cases tail with
      | nil => rfl
      | cons b tail =>
        have plain : star b = false := apart b rfl
        simp [twice, plain]
    | cons b list =>
      simp only [List.cons_append, twice]
      split_ifs <;> rfl

theorem boldMatch_plain {a : α} (plain : star a = false) (rest : List α) :
    boldMatch star stop (a :: rest) = none := by
  cases rest <;> simp [boldMatch, twice, plain]

/-- No bold run reaches into what starts without a star and has no end for one. -/
theorem boldMatch_append {tail : List α} (apart : ∀ b ∈ tail.head?, star b = false)
    (open_ : twice star (tail.dropWhile fun a => !stop a) = none) (list : List α) :
    boldMatch star stop (list ++ tail) = (boldMatch star stop list).map fun found =>
      (found.1, found.2 ++ tail) := by
  simp only [boldMatch, twice_append apart]
  cases twice star list with
  | none => rfl
  | some rest =>
    simp only [Option.map_some]
    by_cases inside : ∀ a ∈ rest, (!stop a) = true
    · -- a run that fills the rest has no end, with the tail or without it
      rw [List.takeWhile_append_of_pos inside, List.dropWhile_append_of_pos inside, open_]
      have all : rest.dropWhile (fun a => !stop a) = [] := List.dropWhile_eq_nil_iff.mpr inside
      rw [all]
      simp [twice]
    · have some_ : (rest.dropWhile fun a => !stop a).isEmpty = false := by
        rw [List.isEmpty_eq_false_iff]
        exact fun none => inside (List.dropWhile_eq_nil_iff.mp none)
      have short : (rest.takeWhile fun a => !stop a).length ≠ rest.length := by
        intro same
        have whole :=
          congrArg List.length (@List.takeWhile_append_dropWhile _ (fun a => !stop a) rest)
        rw [List.length_append, same] at whole
        rw [List.isEmpty_eq_false_iff, ← List.length_pos_iff] at some_
        omega
      rw [List.takeWhile_append, if_neg short, List.dropWhile_append, some_]
      simp only [Bool.false_eq_true, if_false, twice_append apart]
      split_ifs
      · rfl
      · rw [Option.map_map, Option.map_map]
        rfl

theorem items_bold {a : α} {rest run after : List α}
    (found : boldMatch star stop (a :: rest) = some (run, after)) :
    items star stop (a :: rest) = Item.bold run :: items star stop after := by
  rw [items]
  split
  · next _ _ found' =>
    rw [found] at found'
    obtain ⟨rfl, rfl⟩ := Prod.mk.inj (Option.some.inj found')
    rfl
  · next none =>
    rw [found] at none
    cases none

theorem items_plain {a : α} {rest : List α} (none : boldMatch star stop (a :: rest) = none) :
    items star stop (a :: rest) = Item.plain a :: items star stop rest := by
  rw [items]
  split
  · next _ _ found =>
    rw [none] at found
    cases found
  · rfl

/-- The scan goes on over what comes after, where no bold run reaches into it. -/
theorem items_append {tail : List α} (apart : ∀ b ∈ tail.head?, star b = false)
    (open_ : twice star (tail.dropWhile fun a => !stop a) = none) (list : List α) :
    items star stop (list ++ tail) = items star stop list ++ items star stop tail := by
  induction list using items.induct star stop with
  | case1 => simp [items]
  | case2 a rest run after found inductionHypothesis =>
    have longer : boldMatch star stop (a :: (rest ++ tail)) = some (run, after ++ tail) := by
      rw [← List.cons_append, boldMatch_append apart open_, found]
      rfl
    rw [List.cons_append, items_bold longer, items_bold found, inductionHypothesis,
      List.cons_append]
  | case3 a rest none inductionHypothesis =>
    have longer : boldMatch star stop (a :: (rest ++ tail)) = Option.none := by
      rw [← List.cons_append, boldMatch_append apart open_, none]
      rfl
    rw [List.cons_append, items_plain longer, items_plain none, inductionHypothesis,
      List.cons_append]

/-- What has no star is passed over. -/
theorem items_passed {list : List α} (plain : ∀ a ∈ list, star a = false) (rest : List α) :
    items star stop (list ++ rest) = list.map Item.plain ++ items star stop rest := by
  induction list with
  | nil => rfl
  | cons a list inductionHypothesis =>
    rw [List.cons_append, items_plain (boldMatch_plain (plain a List.mem_cons_self) _),
      inductionHypothesis fun b on => plain b (List.mem_cons_of_mem _ on)]
    rfl

/-- The runs of a scan end at their stars. -/
theorem mem_items {list run : List α} (on : Item.bold run ∈ items star stop list) :
    run ≠ [] ∧ ∀ a ∈ run, stop a = false := by
  induction list using items.induct star stop with
  | case1 => simp [items] at on
  | case2 a rest run' after found inductionHypothesis =>
    rw [items_bold found] at on
    cases on with
    | tail _ on => exact inductionHypothesis on
    | head =>
      rw [boldMatch] at found
      split at found
      · cases found
      · next rest' _ =>
        dsimp only at found
        split_ifs at found with empty
        obtain ⟨_, _, same⟩ := Option.map_eq_some_iff.mp found
        obtain ⟨rfl, -⟩ := Prod.mk.inj same
        refine ⟨empty, fun b inside => ?_⟩
        simpa using List.mem_takeWhile_imp inside
  | case3 a rest none inductionHypothesis =>
    rw [items_plain none] at on
    cases on with
    | tail _ on => exact inductionHypothesis on

end

/-- What the text has where a scan found an item. -/
def Item.source {α : Type} (star : α) : Item α → List α
  | .plain a => [a]
  | .bold run => [star, star] ++ run ++ [star, star]

theorem twice_some {α : Type} [DecidableEq α] {star : α} {list rest : List α}
    (found : twice (· == star) list = some rest) :
    list = star :: star :: rest := by
  cases list with
  | nil => cases found
  | cons a list =>
    cases list with
    | nil => cases found
    | cons b list =>
      rw [twice] at found
      split_ifs at found with both
      simp only [Bool.and_eq_true, beq_iff_eq] at both
      rw [both.1, both.2, Option.some.inj found]

theorem items_source {α : Type} [DecidableEq α] {star : α} (stop : α → Bool) (list : List α) :
    (items (· == star) stop list).flatMap (Item.source star) = list := by
  induction list using items.induct (· == star) stop with
  | case1 => simp [items]
  | case2 a rest run after found inductionHypothesis =>
    rw [items_bold found, List.flatMap_cons, inductionHypothesis]
    rw [boldMatch] at found
    split at found
    · cases found
    · next rest' opened =>
      dsimp only at found
      split_ifs at found
      obtain ⟨after', closed, same⟩ := Option.map_eq_some_iff.mp found
      obtain ⟨rfl, rfl⟩ := Prod.mk.inj same
      have whole := @List.takeWhile_append_dropWhile _ (fun a => !stop a) rest'
      rw [twice_some closed] at whole
      rw [twice_some opened]
      conv_rhs => rw [← whole]
      simp [Item.source]
  | case3 a rest none inductionHypothesis =>
    rw [items_plain none, List.flatMap_cons, inductionHypothesis]
    rfl

/-! ## The scans of what is written -/

section

variable {α β : Type} {encode : α → List β} {star stop : α → Bool}
  {starLetter stopLetter : β → Bool}

theorem boldMatch_flatMap (leads : Leads encode star starLetter)
    (keeps : Keeps encode stop stopLetter) (list : List α) :
    boldMatch starLetter stopLetter (list.flatMap encode) =
      (boldMatch star stop list).map fun found =>
      (found.1.flatMap encode, found.2.flatMap encode) := by
  simp only [boldMatch, leads.twice]
  cases twice star list with
  | none => rfl
  | some rest =>
    simp only [Option.map_some, keeps.takeWhile, keeps.dropWhile, leads.eq_nil, leads.twice]
    split_ifs
    · rfl
    · rw [Option.map_map, Option.map_map]
      rfl

def Item.write (encode : α → List β) : Item α → List (Item β)
  | .plain a => (encode a).map Item.plain
  | .bold run => [Item.bold (run.flatMap encode)]

theorem items_flatMap (keepsStar : Keeps encode star starLetter)
    (keeps : Keeps encode stop stopLetter) (list : List α) :
    items starLetter stopLetter (list.flatMap encode) =
      (items star stop list).flatMap (Item.write encode) := by
  induction list using items.induct star stop with
  | case1 => simp [items]
  | case2 a rest run after found inductionHypothesis =>
    have written := boldMatch_flatMap keepsStar.toLeads keeps (a :: rest)
    rw [found, Option.map_some] at written
    obtain ⟨b, more, cons⟩ : ∃ b more, (a :: rest).flatMap encode = b :: more :=
      List.exists_cons_of_ne_nil fun none => List.cons_ne_nil a rest (keepsStar.eq_nil.mp none)
    rw [cons] at written ⊢
    rw [items_bold found, List.flatMap_cons, ← inductionHypothesis]
    exact items_bold written
  | case3 a rest none inductionHypothesis =>
    rw [items_plain none, List.flatMap_cons, List.flatMap_cons, ← inductionHypothesis]
    cases own : star a with
    | false => exact items_passed (keepsStar.plain a own) _
    | true =>
      obtain ⟨b, single, -⟩ := keepsStar.marked a own
      have written := boldMatch_flatMap keepsStar.toLeads keeps (a :: rest)
      rw [none, List.flatMap_cons, single, List.singleton_append] at written
      rw [single, List.singleton_append, items_plain written]
      simp [Item.write, single]

theorem headingMatch_flatMap {hash blank : α → Bool} {hashLetter blankLetter : β → Bool}
    (leadsHash : Leads encode hash hashLetter)
    (leadsBlank : Leads encode blank blankLetter) (line : List α) :
    headingMatch hashLetter blankLetter (line.flatMap encode) =
      (headingMatch hash blank line).map fun found =>
      (found.1.flatMap encode, found.2.flatMap encode) := by
  simp only [headingMatch, leadsHash.takeWhile, leadsHash.dropWhile, leadsBlank.takeWhile,
    leadsBlank.dropWhile]
  have hashes : ((line.takeWhile hash).flatMap encode).length = (line.takeWhile hash).length := by
    rw [← leadsHash.takeWhile, leadsHash.length_takeWhile]
  have blanks : (((line.dropWhile hash).takeWhile blank).flatMap encode).length =
      ((line.dropWhile hash).takeWhile blank).length := by
    rw [← leadsBlank.takeWhile, leadsBlank.length_takeWhile]
  have cut :=
    fun n => leadsBlank.take_flatMap
    (fun a on => List.mem_takeWhile_imp (p := blank) (l := line.dropWhile hash) on) n
  rw [hashes, blanks]
  simp only [leadsBlank.eq_nil, ne_eq, (cut _).1, (cut _).2]
  split_ifs <;> simp

end

theorem headingMatch_some {α : Type} {hash blank : α → Bool} {line marks content : List α}
    (found : headingMatch hash blank line = some (marks, content)) :
    marks ++ content = line ∧ content ≠ [] ∧ ∃ hashes blanks, marks = hashes ++ blanks ∧
      1 ≤ hashes.length ∧ hashes.length ≤ 6 ∧
      blanks ≠ [] ∧ (∀ a ∈ hashes, hash a = true) ∧ ∀ a ∈ blanks, blank a = true := by
  simp only [headingMatch] at found
  have hashes := fun a (on : a ∈ line.takeWhile hash) => List.mem_takeWhile_imp on
  have blanks := fun a (on : a ∈ (line.dropWhile hash).takeWhile blank) => List.mem_takeWhile_imp on
  have whole := @List.takeWhile_append_dropWhile _ hash line
  have more := @List.takeWhile_append_dropWhile _ blank (line.dropWhile hash)
  split_ifs at found with bounds none some_ one
  · obtain ⟨rfl, rfl⟩ := Prod.mk.inj (Option.some.inj found)
    refine ⟨by rw [List.append_assoc, more, whole], some_, _, _, rfl, bounds.1, bounds.2, none,
      hashes, blanks⟩
  · obtain ⟨rfl, rfl⟩ := Prod.mk.inj (Option.some.inj found)
    have several : 2 ≤ ((line.dropWhile hash).takeWhile blank).length := by
      have := List.length_pos_iff.mpr none
      omega
    rw [not_not.mp some_, List.append_nil] at more
    refine ⟨by rw [List.append_assoc, List.take_append_drop, more, whole], ?_, _, _, rfl, bounds.1,
      bounds.2, ?_, hashes, ?_⟩
    · rw [← List.length_pos_iff, List.length_drop]
      omega
    · rw [← List.length_pos_iff, List.length_take]
      omega
    · intro a on
      exact blanks a (List.mem_of_mem_take on)

/-! ## The spans that are put back -/

theorem itoa_digits (n : Nat) : itoa n ≠ [] ∧ ∀ b ∈ itoa n, isDigit b = true := by
  rw [itoa]
  split_ifs with zero
  · exact ⟨by simp, all_bytes (by decide)⟩
  · refine ⟨by simpa using Nat.digits_ne_nil_iff_ne_zero.mpr zero, fun b on => ?_⟩
    obtain ⟨digit, inside, rfl⟩ := List.mem_map.mp (List.mem_reverse.mp on)
    have small := Nat.digits_lt_base (by decide) inside
    interval_cases digit <;> decide

theorem atoi_itoa (n : Nat) : atoi (itoa n) = n := by
  rw [itoa, atoi]
  split_ifs with zero
  · rw [zero]
    rfl
  · rw [List.foldl_reverse, List.foldr_map]
    conv_rhs => rw [← Nat.ofDigits_digits 10 n, Nat.ofDigits_eq_foldr]
    have small :=
      fun digit (on : digit ∈ Nat.digits 10 n) => Nat.digits_lt_base (by decide : 1 < 10) on
    revert small
    generalize Nat.digits 10 n = digits
    intro small
    induction digits with
    | nil => rfl
    | cons digit rest inductionHypothesis =>
      have own := small digit List.mem_cons_self
      have value : (48 + UInt8.ofNat digit).toNat - 48 = digit := by
        interval_cases digit <;> rfl
      rw [List.foldr_cons, List.foldr_cons, inductionHypothesis fun other on =>
        small other (List.mem_cons_of_mem _ on), value]
      simp only [Nat.cast_id]
      omega

variable {spans : List (List UInt8)}

/-- A text that is put back by itself, whatever comes after it. -/
def Puts (spans : List (List UInt8)) (text html : List UInt8) : Prop :=
  ∀ rest, putBack spans (text ++ rest) = (putBack spans rest).map (html ++ ·)

theorem Puts.append {text html text' html' : List UInt8} (puts : Puts spans text html)
    (puts' : Puts spans text' html') :
    Puts spans (text ++ text') (html ++ html') := by
  intro rest
  rw [List.append_assoc, puts, puts', Option.map_map]
  simp only [Function.comp_def, List.append_assoc]

theorem Puts.nil : Puts spans [] [] := by
  intro rest
  simp

theorem Puts.flatMap {α : Type} {write render : α → List UInt8} {list : List α}
    (puts : ∀ a ∈ list, Puts spans (write a) (render a)) :
    Puts spans (list.flatMap write) (list.flatMap render) := by
  induction list with
  | nil => exact Puts.nil
  | cons a rest inductionHypothesis =>
    exact (puts a List.mem_cons_self).append
      (inductionHypothesis fun b on => puts b (List.mem_cons_of_mem _ on))

theorem Puts.intercalate {mark : List UInt8} (marked : Puts spans mark mark)
    {texts htmls : List (List UInt8)}
    (puts : List.Forall₂ (Puts spans) texts htmls) :
    Puts spans (mark.intercalate texts) (mark.intercalate htmls) := by
  induction puts with
  | nil => exact Puts.nil
  | cons first more inductionHypothesis =>
    cases more with
    | nil => simpa using first
    | cons second more =>
      rw [List.intercalate_cons_cons, List.intercalate_cons_cons]
      exact (first.append marked).append inductionHypothesis

/-- What has no NUL is left as it is. -/
theorem Puts.plain {text : List UInt8} (plain : ∀ b ∈ text, b ≠ 0) : Puts spans text text := by
  induction text with
  | nil => exact Puts.nil
  | cons b text inductionHypothesis =>
    intro rest
    have apart : spanMatch (b :: (text ++ rest)) = none := by
      rw [spanMatch]
      split
      · simp [plain b List.mem_cons_self]
      · rfl
    rw [List.cons_append, putBack]
    split
    · next found =>
      rw [apart] at found
      cases found
    · rw [inductionHypothesis (fun c on => plain c (List.mem_cons_of_mem _ on)) rest,
        Option.map_map]
      rfl

theorem Puts.placeholder {n : Nat} {span : List UInt8} (known : spans[n]? = some span) :
    Puts spans (placeholder n) span := by
  intro rest
  obtain ⟨some_, digits⟩ := itoa_digits n
  have taken : (itoa n ++ 0 :: rest).takeWhile isDigit = itoa n := by
    rw [List.takeWhile_append_of_pos digits, List.takeWhile_cons_of_neg (by decide),
      List.append_nil]
  have dropped : (itoa n ++ 0 :: rest).dropWhile isDigit = 0 :: rest := by
    rw [List.dropWhile_append_of_pos digits, List.dropWhile_cons_of_neg (by decide)]
  have found : spanMatch (0 :: (itoa n ++ 0 :: rest)) = some (itoa n, rest) := by
    rw [spanMatch, dropped, taken]
    simp [some_]
  have whole : Prose.placeholder n ++ rest = 0 :: (itoa n ++ 0 :: rest) := by
    simp [Prose.placeholder]
  rw [whole, putBack]
  split
  · next digits' after found' =>
    rw [found] at found'
    obtain ⟨rfl, rfl⟩ := Prod.mk.inj (Option.some.inj found')
    rw [atoi_itoa, known]
    rfl
  · next none =>
    rw [found] at none
    cases none

end AiConfig.Sesh.Surface.Prose
