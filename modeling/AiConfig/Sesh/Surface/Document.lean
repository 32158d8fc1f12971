import AiConfig.Sesh.Surface.Prose

/-! # What the markup of a message shows

A text is read as a document: lines of bytes and code spans, with headings and bold runs, between
fenced blocks.  A document knows the text it was read from, the markup it becomes, and what is left
of
the text when its marks are taken away. -/

namespace AiConfig.Sesh.Surface.Prose

open AiConfig.Lib

/-- A byte of a text, or a code span with its number. -/
inductive Atom
  | byte (b : UInt8)
  | code (number : Nat) (content : List UInt8)
  deriving DecidableEq

namespace Atom

def source : Atom → List UInt8
  | byte b => [b]
  | code _ content => [96] ++ content ++ [96]

def html : Atom → List UInt8
  | byte b => escapeByte b
  | code _ content => codeSpan content

def plain : Atom → List UInt8
  | byte b => [b]
  | code _ content => content

/-- What stands for an atom while the regular expressions run. -/
def flat : Atom → List UInt8
  | byte b => escapeByte b
  | code number _ => placeholder number

end Atom

def Item.html : Item Atom → List UInt8
  | .plain a => a.html
  | .bold run => opening ++ run.flatMap Atom.html ++ closing

def Item.shown : Item Atom → List UInt8
  | .plain a => a.plain
  | .bold run => run.flatMap Atom.plain

/-- The marks of a heading: its number signs and blanks. -/
structure Heading where
  hashes : Nat
  blanks : Nat
  few : 1 ≤ hashes ∧ hashes ≤ 6
  some_ : 1 ≤ blanks

structure Line where
  heading : Option Heading
  items : List (Item Atom)
  bolds : ∀ run, Item.bold run ∈ items → run ≠ [] ∧ Atom.byte 42 ∉ run ∧ Atom.byte 10 ∉ run

namespace Line

def marks (line : Line) : List Atom :=
  line.heading.elim [] fun heading => List.replicate heading.hashes (Atom.byte 35) ++
    List.replicate heading.blanks (Atom.byte 32)

def atoms (line : Line) : List Atom := line.marks ++ line.items.flatMap (Item.source (Atom.byte 42))

def html (line : Line) : List UInt8 :=
  if line.heading.isSome then opening ++ line.items.flatMap Item.html ++
    closing else line.items.flatMap Item.html

def plain (line : Line) : List UInt8 := line.items.flatMap Item.shown

end Line

/-- A text without fences: its atoms, and the lines that they make without their NULs. -/
structure Inline where
  atoms : List Atom
  lines : List Line
  read : [Atom.byte 10].intercalate (lines.map Line.atoms) = atoms.filter (· ≠ Atom.byte 0)

namespace Inline

def source (text : Inline) : List UInt8 := text.atoms.flatMap Atom.source

def html (text : Inline) : List UInt8 := [10].intercalate (text.lines.map Line.html)

def plain (text : Inline) : List UInt8 := [10].intercalate (text.lines.map Line.plain)

end Inline

/-- A fenced block: its info line, the newlines that end its content, and whether one follows the
fence. -/
structure Fence where
  info : List UInt8
  content : List UInt8
  newlines : Nat
  hugged : Bool
  infoLine : info = [] ∨ ∃ word, info = word ++ [10] ∧ ∀ b ∈ word, b ≠ 10 ∧ b ≠ 32 ∧ b ≠ 9

namespace Fence

def source (block : Fence) : List UInt8 :=
  [96, 96, 96] ++ (block.info ++ block.content ++ List.replicate block.newlines 10) ++
    [96, 96, 96] ++ if block.hugged then [10] else []

def html (block : Fence) : List UInt8 :=
  bytes "<code class=\"fence\">" ++ escapeString block.content ++ bytes "</code>"

end Fence

inductive Document
  | last (text : Inline)
  | fenced (text : Inline) (block : Fence) (rest : Document)

namespace Document

def source : Document → List UInt8
  | last text => text.source
  | fenced text block rest => text.source ++ block.source ++ rest.source

def html : Document → List UInt8
  | last text => text.html
  | fenced text block rest => text.html ++ block.html ++ rest.html

def plain : Document → List UInt8
  | last text => text.plain
  | fenced text block rest => text.plain ++ block.content ++ rest.plain

end Document

/-- Markup with what it shows: escaped bytes and nested tags of three kinds. -/
inductive Shows : List UInt8 → List UInt8 → Prop
  | empty : Shows [] []
  | byte (b : UInt8) : Shows (escapeByte b) [b]
  | append {html plain html' plain' : List UInt8} : Shows html plain → Shows html' plain' →
      Shows (html ++ html') (plain ++ plain')
  | strong {html plain : List UInt8} :
      Shows html plain → Shows (bytes "<strong>" ++ html ++ bytes "</strong>") plain
  | code {html plain : List UInt8} :
      Shows html plain → Shows (bytes "<code>" ++ html ++ bytes "</code>") plain
  | fence {html plain : List UInt8} :
      Shows html plain → Shows (bytes "<code class=\"fence\">" ++ html ++ bytes "</code>") plain

/-! ## The markup of a document -/

theorem Shows.flatMap {α : Type} {html plain : α → List UInt8}
    (each : ∀ a, Shows (html a) (plain a)) (list : List α) :
    Shows (list.flatMap html) (list.flatMap plain) := by
  induction list with
  | nil => exact Shows.empty
  | cons a rest inductionHypothesis => exact (each a).append inductionHypothesis

theorem Shows.intercalate {α : Type} {html plain : α → List UInt8}
    (each : ∀ a, Shows (html a) (plain a)) (list : List α) :
    Shows ([10].intercalate (list.map html)) ([10].intercalate (list.map plain)) := by
  induction list with
  | nil => exact Shows.empty
  | cons a rest inductionHypothesis =>
    cases rest with
    | nil => simpa using each a
    | cons b rest =>
      rw [List.map_cons, List.map_cons, List.map_cons, List.map_cons, List.intercalate_cons_cons,
        List.intercalate_cons_cons]
      exact ((each a).append (Shows.byte 10)).append inductionHypothesis

theorem Shows.escapeString (text : List UInt8) : Shows (Prose.escapeString text) text := by
  have each := Shows.flatMap Shows.byte text
  rwa [show text.flatMap (fun b => [b]) = text by simp] at each

theorem Atom.shows (a : Atom) : Shows a.html a.plain := by
  cases a with
  | byte b => exact Shows.byte b
  | code _ content => exact (Shows.escapeString content).code

theorem Item.shows (item : Item Atom) : Shows item.html item.shown := by
  cases item with
  | plain a => exact a.shows
  | bold run => exact (Shows.flatMap Atom.shows run).strong

theorem Line.shows (line : Line) : Shows line.html line.plain := by
  have inner := Shows.flatMap Item.shows line.items
  rw [Line.html]
  split
  · exact inner.strong
  · exact inner

theorem Document.shows (document : Document) : Shows document.html document.plain := by
  induction document with
  | last text => exact Shows.intercalate Line.shows text.lines
  | fenced text block rest inductionHypothesis =>
    exact ((Shows.intercalate Line.shows text.lines).append
      (Shows.escapeString block.content).fence).append inductionHypothesis

/-! ## What stands for the atoms -/

/-- The bytes that escapes may add to a text or take from it, and the digits of placeholders. -/
def escapes : List UInt8 := bytes "&'<>\"amplgt#;0123456789"

def reserved : List UInt8 := 0 :: escapes

theorem mem_escapeByte {b c : UInt8} (on : c ∈ escapeByte b) : c = b ∨ c ∈ escapes := by
  rw [escapeByte] at on
  split_ifs at on
  · exact Or.inr ((by decide : bytes "&amp;" ⊆ escapes) on)
  · exact Or.inr ((by decide : bytes "&#39;" ⊆ escapes) on)
  · exact Or.inr ((by decide : bytes "&lt;" ⊆ escapes) on)
  · exact Or.inr ((by decide : bytes "&gt;" ⊆ escapes) on)
  · exact Or.inr ((by decide : bytes "&#34;" ⊆ escapes) on)
  · exact Or.inl (List.mem_singleton.mp on)

/-- What a byte is escaped to starts with the byte or with an ampersand. -/
theorem escapeByte_cons (b : UInt8) : ∃ c rest, escapeByte b = c :: rest ∧ (c = b ∨ c = 38) := by
  rw [escapeByte]
  split_ifs
  · exact ⟨38, _, rfl, Or.inr rfl⟩
  · exact ⟨38, _, rfl, Or.inr rfl⟩
  · exact ⟨38, _, rfl, Or.inr rfl⟩
  · exact ⟨38, _, rfl, Or.inr rfl⟩
  · exact ⟨38, _, rfl, Or.inr rfl⟩
  · exact ⟨b, [], rfl, Or.inl rfl⟩

theorem escapeByte_self {b : UInt8} (apart : b ∉ [38, 39, 60, 62, 34]) : escapeByte b = [b] := by
  simp only [List.mem_cons, List.not_mem_nil, or_false, not_or] at apart
  simp [escapeByte, apart]

theorem mem_placeholder {n : Nat} {c : UInt8} (on : c ∈ placeholder n) : c ∈ reserved := by
  simp only [placeholder, List.mem_append, List.mem_singleton] at on
  obtain (rfl | digit) | rfl := on
  · decide
  · have bounds := (itoa_digits n).2 c digit
    simp only [isDigit, Bool.and_eq_true, decide_eq_true_eq, UInt8.le_iff_toNat_le] at bounds
    have value : c = UInt8.ofNat c.toNat := (UInt8.ofNat_toNat).symm
    rw [value]
    have low : 48 ≤ c.toNat := bounds.1
    have high : c.toNat ≤ 57 := bounds.2
    interval_cases c.toNat <;> decide
  · decide

section

variable {letter : UInt8 → Bool} {mark : Atom → Bool}

theorem leads_flat (bytes_ : ∀ b, mark (Atom.byte b) = letter b)
    (codes : ∀ n content, mark (Atom.code n content) = false)
    (quiet : ∀ b ∈ [0, 38, 39, 60, 62, 34], letter b = false) : Leads Atom.flat mark letter := by
  constructor
  · intro a own
    cases a with
    | byte b =>
      rw [bytes_] at own
      refine ⟨b, escapeByte_self fun special => ?_, own⟩
      rw [quiet b (List.mem_cons_of_mem _ special)] at own
      cases own
    | code n content =>
      rw [codes] at own
      cases own
  · intro a own
    cases a with
    | byte b =>
      obtain ⟨c, rest, written, either⟩ := escapeByte_cons b
      refine ⟨c, rest, written, ?_⟩
      cases either with
      | inl same => rw [same, ← bytes_, own]
      | inr same => exact same ▸ quiet 38 (by decide)
    | code n content => exact ⟨0, itoa n ++ [0], rfl, quiet 0 (by decide)⟩

theorem keeps_flat (bytes_ : ∀ b, mark (Atom.byte b) = letter b)
    (codes : ∀ n content, mark (Atom.code n content) = false)
    (quiet : ∀ b ∈ reserved, letter b = false) : Keeps Atom.flat mark letter := by
  refine ⟨leads_flat bytes_ codes fun b on =>
    quiet b ((by decide : [0, 38, 39, 60, 62, 34] ⊆ reserved) on), ?_⟩
  intro a own c on
  cases a with
  | byte b =>
    cases mem_escapeByte on with
    | inl same => rw [same, ← bytes_, own]
    | inr added => exact quiet c (List.mem_cons_of_mem _ added)
  | code n content => exact quiet c (mem_placeholder on)

end

def isByte (b : UInt8) (a : Atom) : Bool := a == Atom.byte b

theorem isByte_byte (b c : UInt8) : isByte b (Atom.byte c) = (c == b) := by
  rw [Bool.eq_iff_iff]
  simp [isByte]

theorem isByte_code (b : UInt8) (n : Nat) (content : List UInt8) :
    isByte b (Atom.code n content) = false := by
  simp [isByte]

theorem keeps_star : Keeps Atom.flat (isByte 42) (· == 42) :=
  keeps_flat (isByte_byte 42) (isByte_code 42) (all_bytes (by decide))

theorem keeps_newline : Keeps Atom.flat (isByte 10) (· == 10) :=
  keeps_flat (isByte_byte 10) (isByte_code 10) (all_bytes (by decide))

theorem keeps_stop : Keeps Atom.flat (fun a => isByte 42 a || isByte 10 a)
    (fun b => b == 42 || b == 10) :=
  keeps_flat (fun b => by rw [isByte_byte, isByte_byte])
    (fun n content => by rw [isByte_code, isByte_code]; rfl) (all_bytes (by decide))

theorem leads_hash : Leads Atom.flat (isByte 35) (· == 35) :=
  leads_flat (isByte_byte 35) (isByte_code 35) (all_bytes (by decide))

theorem leads_blank : Leads Atom.flat (isByte 32) (· == 32) :=
  leads_flat (isByte_byte 32) (isByte_code 32) (all_bytes (by decide))

/-! ## The atoms of a text -/

/-- The atoms of the parts between backticks, the spans numbered on from `n`. -/
def atomsOf : Nat → Nat → List (List UInt8) → List Atom
  | _, _, [] => []
  | i, n, part :: rest =>
    if i % 2 = 1 then Atom.code n part :: atomsOf (i + 1) (n + 1) rest else part.map Atom.byte ++
      atomsOf (i + 1) n rest

theorem atomsOf_source : ∀ (parts : List (List UInt8)) (i n : Nat), i % 2 = 0 →
    parts.length % 2 = 1 →
    (atomsOf i n parts).flatMap Atom.source = [96].intercalate parts
  | [], _, _, _, odd => by simp at odd
  | [part], i, n, even, _ => by
    simp [atomsOf, even, List.flatMap_map, Atom.source]
  | [_, _], _, _, _, odd => by simp at odd
  | part :: code :: next :: rest, i, n, even, odd => by
    have later :=
      atomsOf_source (next :: rest) (i + 2) (n + 1) (by omega)
      (by simp only [List.length_cons] at odd ⊢; omega)
    rw [atomsOf, if_neg (by omega), atomsOf, if_pos (by omega), List.flatMap_append,
      List.flatMap_cons, later,
      List.intercalate_cons_cons, List.intercalate_cons_cons]
    simp [List.flatMap_map, Atom.source]

theorem takeOut_flat (parts : List (List UInt8)) (i : Nat) (spans : List (List UInt8))
    (flat : List UInt8) :
    (takeOut i parts spans flat).2 =
      flat ++ ((atomsOf i spans.length parts).filter (· ≠ Atom.byte 0)).flatMap Atom.flat := by
  induction parts generalizing i spans flat with
  | nil => simp [takeOut, atomsOf]
  | cons part rest inductionHypothesis =>
    rw [takeOut, atomsOf]
    split
    · rw [inductionHypothesis, List.length_append, List.length_singleton]
      simp [Atom.flat]
    · rw [inductionHypothesis, List.filter_append, List.flatMap_append, List.append_assoc]
      congr 2
      rw [List.filter_map, List.flatMap_map, escapeString]
      congr 1
      exact List.filter_congr fun b _ => by simp

theorem takeOut_prefix (parts : List (List UInt8)) (i : Nat) (spans : List (List UInt8))
    (flat : List UInt8) :
    spans <+: (takeOut i parts spans flat).1 := by
  induction parts generalizing i spans flat with
  | nil => exact List.prefix_refl _
  | cons part rest inductionHypothesis =>
    rw [takeOut]
    split
    · exact (List.prefix_append _ _).trans (inductionHypothesis (i + 1) _ _)
    · exact inductionHypothesis (i + 1) _ _

/-- Every code span is where its number says. -/
theorem takeOut_spans (parts : List (List UInt8)) (i : Nat) (spans : List (List UInt8))
    (flat : List UInt8) {n : Nat}
    {content : List UInt8} (on : Atom.code n content ∈ atomsOf i spans.length parts) :
    (takeOut i parts spans flat).1[n]? = some (codeSpan content) := by
  induction parts generalizing i spans flat with
  | nil => simp [atomsOf] at on
  | cons part rest inductionHypothesis =>
    rw [atomsOf] at on
    rw [takeOut]
    split at on
    · next odd =>
      rw [if_pos odd]
      cases on with
      | head =>
        have kept :=
          takeOut_prefix rest (i + 1) (spans ++ [codeSpan content])
          (flat ++ placeholder spans.length)
        obtain ⟨more, whole⟩ := kept
        rw [← whole]
        simp
      | tail _ on =>
        have length : (spans ++ [codeSpan part]).length = spans.length + 1 := by simp
        rw [← length] at on
        exact inductionHypothesis (i + 1) _ _ on
    · next even =>
      rw [if_neg even]
      cases List.mem_append.mp on with
      | inl plain =>
        obtain ⟨_, -, same⟩ := List.mem_map.mp plain
        cases same
      | inr on => exact inductionHypothesis (i + 1) _ _ on

/-! ## The passes over the lines -/

theorem bold_append_newline (line rest : List UInt8) :
    bold (line ++ 10 :: rest) = bold line ++ 10 :: bold rest := by
  have passed : boldMatch (· == 42) (fun b => b == 42 || b == 10) ((10 : UInt8) :: rest) = none :=
    boldMatch_plain (by decide) _
  have apart : ∀ b ∈ ((10 : UInt8) :: rest).head?, (b == 42) = false := by
    intro b on
    rw [← Option.some.inj on]
    decide
  have open_ :
      twice (· == (42 : UInt8)) (((10 : UInt8) :: rest).dropWhile fun b => !(b == 42 || b == 10)) =
      none := by
    rw [List.dropWhile_cons_of_neg (by decide)]
    cases rest <;> simp [twice]
  rw [bold, items_append apart open_, List.flatMap_append, items_plain passed, List.flatMap_cons]
  rfl

theorem bold_intercalate (lines : List (List UInt8)) :
    bold ([10].intercalate lines) = [10].intercalate (lines.map bold) := by
  induction lines with
  | nil => simp [bold, items]
  | cons line rest inductionHypothesis =>
    cases rest with
    | nil => simp
    | cons next rest =>
      rw [List.map_cons] at inductionHypothesis
      rw [List.map_cons, List.map_cons, List.intercalate_cons_cons, List.intercalate_cons_cons,
        ← inductionHypothesis,
        List.append_assoc, List.append_assoc]
      exact bold_append_newline line _

theorem bold_tagged (text : List UInt8) :
    bold (opening ++ text ++ closing) = opening ++ bold text ++ closing := by
  have before : ∀ b ∈ opening, (b == 42) = false := all_bytes (by decide)
  have after : ∀ b ∈ closing, (b == 42) = false := all_bytes (by decide)
  have apart : ∀ b ∈ closing.head?, (b == 42) = false := by
    intro b on
    rw [← Option.some.inj on]
    decide
  have open_ :
    twice (· == (42 : UInt8)) (closing.dropWhile fun b => !(b == 42 || b == 10)) = none := by decide
  have single : ∀ list : List UInt8, (list.map Item.plain).flatMap boldItem = list := by
    intro list
    simp [List.flatMap_map, boldItem]
  have ended := @items_passed _ (· == (42 : UInt8)) (fun b => b == 42 || b == 10) closing after []
  rw [List.append_nil] at ended
  rw [bold, List.append_assoc, items_passed before, items_append apart open_, ended]
  simp [single, bold, items]

/-- The bold runs of what stands for a line. -/
theorem bold_flat (line : List Atom) :
    bold (line.flatMap Atom.flat) =
      (items (isByte 42) (fun a => isByte 42 a || isByte 10 a) line).flatMap fun item =>
      match item with
      | .plain a => a.flat
      | .bold run => opening ++ run.flatMap Atom.flat ++ closing := by
  rw [bold, items_flatMap keeps_star keeps_stop, List.flatMap_assoc]
  congr 1
  funext item
  cases item with
  | plain a => simp [Item.write, List.flatMap_map, boldItem]
  | bold run => simp [Item.write, boldItem]

/-! ## A text without fences -/

section

variable {spans : List (List UInt8)}

theorem puts_opening : Puts spans opening opening := Puts.plain (all_bytes (by decide))

theorem puts_closing : Puts spans closing closing := Puts.plain (all_bytes (by decide))

/-- The bold runs of a line's atoms, as items of a document. -/
theorem line_items (atoms : List Atom) (puts : ∀ a ∈ atoms, Puts spans a.flat a.html) :
    ∃ list : List (Item Atom), (∀ run, Item.bold run ∈ list → run ≠ [] ∧ Atom.byte 42 ∉ run ∧
      Atom.byte 10 ∉ run) ∧
      list.flatMap (Item.source (Atom.byte 42)) = atoms ∧
      Puts spans (bold (atoms.flatMap Atom.flat)) (list.flatMap Item.html) := by
  have whole := @items_source _ _ (Atom.byte 42) (fun a => isByte 42 a || isByte 10 a) atoms
  refine ⟨items (isByte 42) (fun a => isByte 42 a || isByte 10 a) atoms, fun run on => ?_, whole,
    ?_⟩
  · obtain ⟨some_, free⟩ := mem_items on
    refine ⟨some_, fun star => ?_, fun newline => ?_⟩
    · have stops := free _ star
      simp [isByte] at stops
    · have stops := free _ newline
      simp [isByte] at stops
  · rw [bold_flat]
    refine Puts.flatMap (fun item on => ?_)
    have inside : ∀ a ∈ item.source (Atom.byte 42), Puts spans a.flat a.html := by
      intro a of_
      refine puts a ?_
      rw [← whole]
      exact List.mem_flatMap.mpr ⟨item, on, of_⟩
    cases item with
    | plain a => exact inside a (by simp [Item.source])
    | bold run =>
      have each : ∀ a ∈ run, Puts spans a.flat a.html :=
        fun a of_ => inside a (by simp [Item.source, of_])
      exact (puts_opening.append (Puts.flatMap each)).append puts_closing

theorem eq_replicate {b : UInt8} {list : List Atom} (all : ∀ a ∈ list, isByte b a = true) :
    list = List.replicate list.length (Atom.byte b) :=
  List.eq_replicate_of_mem fun a on => beq_iff_eq.mp (all a on)

/-- What stands for a line is put back as a line of a document that has its atoms. -/
theorem line_puts (atoms : List Atom) (puts : ∀ a ∈ atoms, Puts spans a.flat a.html) :
    ∃ line : Line, line.atoms = atoms ∧
      Puts spans (bold (headingLine (atoms.flatMap Atom.flat))) line.html := by
  have written := headingMatch_flatMap leads_hash leads_blank atoms
  rw [headingLine, written]
  cases found : headingMatch (isByte 35) (isByte 32) atoms with
  | none =>
    obtain ⟨list, bolds, source, back⟩ := line_items atoms puts
    exact ⟨⟨none, list, bolds⟩, by simpa [Line.atoms,
      Line.marks] using source, by simpa [Line.html] using back⟩
  | some found' =>
    obtain ⟨marks, content⟩ := found'
    obtain ⟨whole, -, hashes, blanks, rfl, few, most, some_, allHashes, allBlanks⟩ :=
      headingMatch_some found
    have inside : ∀ a ∈ content, Puts spans a.flat a.html := by
      intro a on
      refine puts a ?_
      rw [← whole]
      exact List.mem_append_right _ on
    obtain ⟨list, bolds, source, back⟩ := line_items content inside
    refine ⟨⟨some ⟨hashes.length, blanks.length, ⟨few, most⟩, List.length_pos_iff.mpr some_⟩, list,
      bolds⟩, ?_, ?_⟩
    · show List.replicate hashes.length (Atom.byte 35) ++
        List.replicate blanks.length (Atom.byte 32) ++
        list.flatMap (Item.source (Atom.byte 42)) = atoms
      rw [← eq_replicate allHashes, ← eq_replicate allBlanks, source, whole]
    · simp only [Option.map_some, bold_tagged]
      exact (puts_opening.append back).append puts_closing

theorem lines_put (list : List (List Atom))
    (puts : ∀ atoms ∈ list, ∀ a ∈ atoms, Puts spans a.flat a.html) :
    ∃ lines : List Line, lines.map Line.atoms = list ∧
      List.Forall₂ (Puts spans) (list.map fun atoms => bold (headingLine (atoms.flatMap Atom.flat)))
        (lines.map Line.html) := by
  induction list with
  | nil => exact ⟨[], rfl, List.Forall₂.nil⟩
  | cons atoms rest inductionHypothesis =>
    obtain ⟨line, own, back⟩ := line_puts atoms (puts atoms List.mem_cons_self)
    obtain ⟨lines, others, backs⟩ :=
      inductionHypothesis fun other on => puts other (List.mem_cons_of_mem _ on)
    exact ⟨line :: lines, by rw [List.map_cons, own, others], List.Forall₂.cons back backs⟩

end

/-- The parts between backticks make a text of a document, whose markup the passes over them write.
-/
theorem parts_shown {parts : List (List UInt8)} (odd : parts.length % 2 = 1) :
    ∃ text : Inline, text.source = [96].intercalate parts ∧
      putBack (takeOut 0 parts [] []).1 (bold (headings (takeOut 0 parts [] []).2)) =
        some text.html := by
  have flat := takeOut_flat parts 0 [] []
  rw [List.nil_append, List.length_nil] at flat
  have puts : ∀ a ∈ (atomsOf 0 0 parts).filter (· ≠ Atom.byte 0),
      Puts (takeOut 0 parts [] []).1 a.flat a.html := by
    intro a on
    obtain ⟨inside, apart⟩ := List.mem_filter.mp on
    cases a with
    | byte b =>
      have some_ : b ≠ 0 := by simpa using apart
      refine Puts.plain (fun c of_ => ?_)
      cases mem_escapeByte of_ with
      | inl same => exact same ▸ some_
      | inr added => exact fun nul => (by decide : (0 : UInt8) ∉ escapes) (nul ▸ added)
    | code n content => exact Puts.placeholder (takeOut_spans parts 0 [] [] inside)
  have cut := keeps_newline.splitOnP ((atomsOf 0 0 parts).filter (· ≠ Atom.byte 0))
  obtain ⟨lines, own, backs⟩ :=
      lines_put (((atomsOf 0 0 parts).filter (· ≠ Atom.byte 0)).splitOn (Atom.byte 10)) (by
    intro atoms on a of_
    exact puts a (mem_of_mem_splitOnP on of_))
  refine ⟨⟨atomsOf 0 0 parts, lines, by rw [own, List.intercalate_splitOn]⟩,
    atomsOf_source parts 0 0 rfl odd, ?_⟩
  have written : bold (headings (takeOut 0 parts [] []).2) = [10].intercalate
      ((((atomsOf 0 0 parts).filter (· ≠ Atom.byte 0)).splitOn (Atom.byte 10)).map fun atoms =>
        bold (headingLine (atoms.flatMap Atom.flat))) := by
    rw [flat, headings, bold_intercalate, List.splitOn_eq_splitOnP, cut, List.map_map, List.map_map]
    rfl
  have back :=
    Puts.intercalate (Puts.plain (all_bytes (by decide) : ∀ b ∈ [(10 : UInt8)], b ≠ 0)) backs []
  rw [List.append_nil] at back
  rw [written, back]
  simp [putBack, Inline.html]

theorem proseInline_shown (text : List UInt8) : ∃ shown : Inline, shown.source = text ∧
    proseInline text = some shown.html := by
  by_cases odd : (text.splitOn 96).length % 2 = 1
  · obtain ⟨shown, source, back⟩ := parts_shown odd
    refine ⟨shown, source.trans (List.intercalate_splitOn 96), ?_⟩
    simp only [proseInline, if_neg (show ¬(text.splitOn 96).length % 2 = 0 by omega)]
    exact back
  · obtain ⟨shown, source, back⟩ := @parts_shown [text] rfl
    refine ⟨shown, source.trans (by simp), ?_⟩
    simp only [proseInline, if_pos (show (text.splitOn 96).length % 2 = 0 by omega)]
    exact back

/-! ## A text with fences -/

theorem dropInfo_source (part : List UInt8) :
    ∃ info, part = info ++ dropInfo part ∧
      (info = [] ∨ ∃ word, info = word ++ [10] ∧ ∀ b ∈ word, b ≠ 10 ∧ b ≠ 32 ∧ b ≠ 9) := by
  have whole := @List.takeWhile_append_dropWhile _ (fun b : UInt8 => decide (b ≠ 10)) part
  rw [dropInfo]
  split
  · next c rest found =>
    have newline : c = 10 := by
      have head := List.head?_dropWhile_not (fun b : UInt8 => decide (b ≠ 10)) part
      rw [found] at head
      simpa using head
    rw [found, newline] at whole
    split_ifs with blank
    · exact ⟨[], rfl, Or.inl rfl⟩
    · refine ⟨part.takeWhile (fun b => decide (b ≠ 10)) ++ [10], by simpa using whole.symm,
        Or.inr ⟨_, rfl, fun b on => ?_⟩⟩
      have apart := List.mem_takeWhile_imp on
      simp only [List.any_eq_true, not_exists, not_and, Bool.or_eq_true, decide_eq_true_eq,
        not_or] at blank
      exact ⟨of_decide_eq_true apart, blank b on⟩
  · exact ⟨[], rfl, Or.inl rfl⟩

theorem rdropWhile_source (part : List UInt8) :
    part.rdropWhile (· = 10) ++ List.replicate (part.rtakeWhile (· = 10)).length 10 = part := by
  have newlines :
      part.rtakeWhile (· = 10) = List.replicate (part.rtakeWhile (· = 10)).length 10 := by
    refine List.eq_replicate_of_mem fun b on => ?_
    have newline := List.mem_rtakeWhile_imp on
    exact of_decide_eq_true newline
  rw [← newlines]
  exact List.rdropWhile_append_rtakeWhile

theorem fence_shown (part : List UInt8) (hugged : Bool) : ∃ block : Fence, block.hugged = hugged ∧
    block.source = [96, 96, 96] ++ part ++ [96, 96, 96] ++ (if hugged then [10] else []) ∧
      fence part = block.html := by
  obtain ⟨info, whole, infoLine⟩ := dropInfo_source part
  refine ⟨⟨info, (dropInfo part).rdropWhile (· = 10), ((dropInfo part).rtakeWhile (· = 10)).length,
    hugged, infoLine⟩, rfl, ?_, rfl⟩
  have more := rdropWhile_source (dropInfo part)
  rw [Fence.source, List.append_assoc info, more, ← whole]

theorem trimNewline_source (part : List UInt8) : ∃ hugged :
    Bool, part = (if hugged then [10] else []) ++ trimNewline part := by
  cases part with
  | nil => exact ⟨false, rfl⟩
  | cons b rest =>
    by_cases newline : b = 10
    · exact ⟨true, by simp [trimNewline, newline]⟩
    · exact ⟨false, by simp [trimNewline, newline]⟩

theorem splitFences_ne_nil (text : List UInt8) : splitFences text ≠ [] := by
  induction text using splitFences.induct with
  | case1 a b c rest all inductionHypothesis => simp [splitFences, all]
  | case2 a b c rest apart inductionHypothesis =>
    obtain ⟨first, more, split_⟩ := List.exists_cons_of_ne_nil inductionHypothesis
    rw [splitFences, if_neg apart, split_]
    simp
  | case3 short long =>
    rw [splitFences]
    · simp
    · exact long

theorem splitFences_source (text : List UInt8) :
    [96, 96, 96].intercalate (splitFences text) = text := by
  induction text using splitFences.induct with
  | case1 a b c rest all inductionHypothesis =>
    obtain ⟨first, more, split_⟩ := List.exists_cons_of_ne_nil (splitFences_ne_nil rest)
    rw [splitFences, if_pos all, split_, List.intercalate_cons_cons, ← split_, inductionHypothesis,
      all.1, all.2.1, all.2.2]
    rfl
  | case2 a b c rest apart inductionHypothesis =>
    obtain ⟨first, more, split_⟩ := List.exists_cons_of_ne_nil (splitFences_ne_nil (b :: c :: rest))
    rw [split_] at inductionHypothesis
    rw [splitFences, if_neg apart, split_, List.modifyHead_cons]
    cases more with
    | nil => simpa using inductionHypothesis
    | cons next more =>
      rw [List.intercalate_cons_cons] at inductionHypothesis ⊢
      rw [List.cons_append, List.cons_append, inductionHypothesis]
  | case3 short long =>
    rw [splitFences]
    · simp
    · exact long

theorem intercalate_head (mark first second : List UInt8) (rest : List (List UInt8)) :
    mark.intercalate ((first ++ second) :: rest) = first ++ mark.intercalate (second :: rest) := by
  cases rest with
  | nil => simp
  | cons third rest => simp only [List.intercalate_cons_cons, List.append_assoc]

/-- What comes after a fence has lost the newline that follows it. -/
theorem proseParts_shown : ∀ (parts : List (List UInt8)) (part : List UInt8) (i : Nat), i % 2 = 0 →
    parts.length % 2 = 0 →
    ∃ document : Document,
      document.source = [96, 96, 96].intercalate
        ((if 0 < i then trimNewline part else part) :: parts) ∧
        proseParts i (part :: parts) = some document.html
  | [], part, i, even, _ => by
    obtain ⟨shown, source, back⟩ := proseInline_shown (if 0 < i then trimNewline part else part)
    refine ⟨Document.last shown, by simpa [Document.source] using source, ?_⟩
    simp [proseParts, even, back, Document.html]
  | [_], _, _, _, odd => by simp at odd
  | block :: next :: parts, part, i, even, odd => by
    obtain ⟨shown, source, back⟩ := proseInline_shown (if 0 < i then trimNewline part else part)
    obtain ⟨hugged, trimmed⟩ := trimNewline_source next
    obtain ⟨fenced, own, around, written⟩ := fence_shown block hugged
    obtain ⟨rest, later, more⟩ :=
      proseParts_shown parts next (i + 2) (by omega) (by simp only [List.length_cons] at odd; omega)
    rw [if_pos (by omega)] at later
    refine ⟨Document.fenced shown fenced rest, ?_, ?_⟩
    · rw [Document.source, source, around, later, List.intercalate_cons_cons,
        List.intercalate_cons_cons]
      conv_rhs => rw [trimmed, intercalate_head]
      simp
    · rw [proseParts, if_neg (by omega), back, Option.bind_some, proseParts, if_pos (by omega),
        more, written]
      simp [Document.html]

theorem prose_shown (text : List UInt8) : ∃ document : Document, document.source = text ∧
    prose text = some document.html := by
  obtain ⟨first, more, split_⟩ := List.exists_cons_of_ne_nil (splitFences_ne_nil text)
  have whole := splitFences_source text
  rw [split_] at whole
  by_cases unclosed : (splitFences text).length % 2 = 0
  · obtain ⟨document, source, written⟩ := proseParts_shown [] text 0 rfl rfl
    refine ⟨document, source.trans (by simp), ?_⟩
    rw [prose, if_pos unclosed, written]
  · rw [split_, List.length_cons] at unclosed
    obtain ⟨document, source, written⟩ := proseParts_shown more first 0 rfl (by omega)
    refine ⟨document, source.trans whole, ?_⟩
    rw [prose, split_, if_neg (by rw [List.length_cons]; exact unclosed), written]

/-! ## Reading the markup back -/

/-- Markup without its tags; the flag says that the text starts inside of one. -/
def untag : Bool → List UInt8 → List UInt8
  | _, [] => []
  | true, b :: rest => untag (b ≠ 62) rest
  | false, b :: rest => if b = 60 then untag true rest else b :: untag false rest

def entities : List (List UInt8 × UInt8) :=
  [(bytes "&amp;", 38), (bytes "&#39;", 39), (bytes "&lt;", 60), (bytes "&gt;", 62),
    (bytes "&#34;", 34)]

def unescape : List UInt8 → List UInt8
  | [] => []
  | b :: rest =>
    match entities.find? fun entity => entity.1.isPrefixOf (b :: rest) with
    | some entity => entity.2 :: unescape (rest.drop (entity.1.length - 1))
    | none => b :: unescape rest
termination_by text => text.length
decreasing_by
  · simp only [List.length_drop, List.length_cons]
    omega
  · simp

theorem untag_free {text : List UInt8} (free : 60 ∉ text) (rest : List UInt8) :
    untag false (text ++ rest) = text ++ untag false rest := by
  induction text with
  | nil => rfl
  | cons b text inductionHypothesis =>
    simp only [List.mem_cons, not_or] at free
    rw [List.cons_append, untag, if_neg (Ne.symm free.1), inductionHypothesis free.2]
    rfl

theorem not_mem_escapeByte (b : UInt8) : 60 ∉ escapeByte b := by
  rw [escapeByte]
  split_ifs with ampersand apostrophe less greater quote
  · decide
  · decide
  · decide
  · decide
  · decide
  · simpa using Ne.symm less

theorem Shows.untag {html plain : List UInt8} (shows : Shows html plain) (rest : List UInt8) :
    Prose.untag false (html ++ rest) = Prose.escapeString plain ++ Prose.untag false rest := by
  have strong : ∀ more, Prose.untag false (bytes "<strong>" ++ more) = Prose.untag false more :=
    fun _ => rfl
  have ofStrong : ∀ more, Prose.untag false (bytes "</strong>" ++ more) = Prose.untag false more :=
    fun _ => rfl
  have code : ∀ more, Prose.untag false (bytes "<code>" ++ more) = Prose.untag false more :=
    fun _ => rfl
  have ofCode : ∀ more, Prose.untag false (bytes "</code>" ++ more) = Prose.untag false more :=
    fun _ => rfl
  have fence : ∀ more, Prose.untag false (bytes "<code class=\"fence\">" ++ more) =
    Prose.untag false more := fun _ => rfl
  induction shows generalizing rest with
  | empty => rfl
  | byte b =>
    rw [untag_free (not_mem_escapeByte b)]
    simp [Prose.escapeString]
  | append _ _ first second =>
    rw [List.append_assoc, first, second]
    simp [Prose.escapeString]
  | strong _ inductionHypothesis =>
      rw [List.append_assoc, List.append_assoc, strong, inductionHypothesis, ofStrong]
  | code _ inductionHypothesis =>
      rw [List.append_assoc, List.append_assoc, code, inductionHypothesis, ofCode]
  | fence _ inductionHypothesis =>
      rw [List.append_assoc, List.append_assoc, fence, inductionHypothesis, ofCode]

theorem unescape_entity {b : UInt8} {rest : List UInt8} {entity : List UInt8 × UInt8}
    (found : entities.find? (fun entity => entity.1.isPrefixOf (b :: rest)) = some entity) :
    unescape (b :: rest) = entity.2 :: unescape (rest.drop (entity.1.length - 1)) := by
  rw [unescape, found]

theorem unescape_plain {b : UInt8} (plain : b ≠ 38) (rest : List UInt8) :
    unescape (b :: rest) = b :: unescape rest := by
  have none : entities.find? (fun entity => entity.1.isPrefixOf (b :: rest)) = Option.none := by
    refine List.find?_eq_none.mpr (fun entity on => ?_)
    have first : entity.1.head? = some 38 := by
      revert entity
      decide
    obtain ⟨more, written⟩ := List.head?_eq_some_iff.mp first
    simp [written, Ne.symm plain]
  rw [unescape, none]

theorem unescape_escapeByte (b : UInt8) (rest : List UInt8) :
    unescape (escapeByte b ++ rest) = b :: unescape rest := by
  rw [escapeByte]
  split_ifs with ampersand apostrophe less greater quote
  · exact (@unescape_entity _ _ (bytes "&amp;", 38) rfl).trans (by rw [ampersand]; rfl)
  · exact (@unescape_entity _ _ (bytes "&#39;", 39) rfl).trans (by rw [apostrophe]; rfl)
  · exact (@unescape_entity _ _ (bytes "&lt;", 60) rfl).trans (by rw [less]; rfl)
  · exact (@unescape_entity _ _ (bytes "&gt;", 62) rfl).trans (by rw [greater]; rfl)
  · exact (@unescape_entity _ _ (bytes "&#34;", 34) rfl).trans (by rw [quote]; rfl)
  · exact unescape_plain ampersand rest

theorem unescape_escapeString (text : List UInt8) : unescape (escapeString text) = text := by
  induction text with
  | nil => simp [escapeString, unescape]
  | cons b text inductionHypothesis =>
    rw [escapeString, List.flatMap_cons, unescape_escapeByte]
    exact congrArg (b :: ·) inductionHypothesis

/-- Every text is rendered, as the markup of a document that it is the text of; the markup has only
the
tags that it is given, nested, around escaped text, and reads back as the text without its marks. -/
theorem prose_shows (text : List UInt8) :
    ∃ document : Document, document.source = text ∧ prose text = some document.html ∧
      Shows document.html document.plain ∧
        unescape (untag false document.html) = document.plain := by
  obtain ⟨document, source, written⟩ := prose_shown text
  refine ⟨document, source, written, document.shows, ?_⟩
  have untagged := document.shows.untag []
  rw [List.append_nil, untag, List.append_nil] at untagged
  rw [untagged, unescape_escapeString]

end AiConfig.Sesh.Surface.Prose
