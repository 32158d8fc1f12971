import Mathlib.Data.List.Basic
import Mathlib.Data.List.Forall2
import Mathlib.Data.List.TakeWhile

/-! # Patterns of runs

An expression that is a row of character classes, each taken once, as often as possible or as
seldom as possible, and read by backtracking: of the ways to match, the one that comes first in
the order of preference.

* `matchPieces` — what each piece takes at the head of a text.
* `matchPieces_sound`, `matchPieces_complete` — a match is found exactly when there is one.
* `matchPieces_once`, `matchPieces_greedy`, `matchPieces_lazy` — the match that is found, a piece at
  a time. -/

namespace AiConfig.Lib

/-- How often a piece is taken: `c`, `c+` or `c+?`. -/
inductive Count where
  | once
  | greedy
  | lazy
  deriving DecidableEq

structure Piece (α : Type) where
  count : Count
  accepts : α → Bool

section

variable {α : Type}

/-- The lengths a piece may take at the head of a text, the preferred first. -/
def Piece.lengths (piece : Piece α) (text : List α) : List Nat :=
  let longest := (text.takeWhile piece.accepts).length
  match piece.count with
  | .once => List.range' 1 (min 1 longest)
  | .greedy => (List.range' 1 longest).reverse
  | .lazy => List.range' 1 longest

/-- What each piece takes at the head of a text. -/
def matchPieces : List (Piece α) → List α → Option (List (List α))
  | [], _ => some []
  | piece :: rest, text =>
    (piece.lengths text).findSome? fun n => (matchPieces rest (text.drop n)).map (text.take n :: ·)

/-- A part that the piece may take. -/
structure Fits (piece : Piece α) (part : List α) : Prop where
  nonempty : part ≠ []
  accepted : ∀ a ∈ part, piece.accepts a = true
  once : piece.count = .once → part.length = 1

end

section

variable {α : Type} {piece : Piece α} {pieces : List (Piece α)} {text : List α}

theorem mem_lengths {n : Nat} :
    n ∈ piece.lengths text ↔ 0 < n ∧ n ≤ (text.takeWhile piece.accepts).length ∧
      (piece.count = .once → n = 1) := by
  unfold Piece.lengths
  cases piece.count with
  | once =>
    simp only [List.mem_range'_1, forall_const]
    omega
  | greedy =>
    simp only [List.mem_reverse, List.mem_range'_1, reduceCtorEq, false_imp_iff, and_true]
    omega
  | lazy =>
    simp only [List.mem_range'_1, reduceCtorEq, false_imp_iff, and_true]
    omega

/-- The lengths a piece may take are those of the parts that fit. -/
theorem mem_lengths_iff_fits {n : Nat} :
    n ∈ piece.lengths text ↔ n ≤ text.length ∧ Fits piece (text.take n) := by
  have within : (text.takeWhile piece.accepts).length ≤ text.length :=
    ( List.takeWhile_prefix piece.accepts).length_le
  rw [mem_lengths]
  constructor
  · rintro ⟨positive, short, once⟩
    have size : (text.take n).length = n := by
      rw [List.length_take]
      omega
    refine ⟨by omega, ?_, ?_, fun isOnce => by rw [size, once isOnce]⟩
    · rw [← List.length_pos_iff, size]
      exact positive
    · intro a inside
      have head : text.take n = (text.takeWhile piece.accepts).take n := by
        conv => lhs; rw [← List.takeWhile_append_dropWhile (p := piece.accepts) (l := text)]
        rw [List.take_append_of_le_length short]
      rw [head] at inside
      exact List.mem_takeWhile_imp (List.mem_of_mem_take inside)
  · rintro ⟨fitting, nonempty, accepted, once⟩
    have size : (text.take n).length = n := by
      rw [List.length_take]
      omega
    refine ⟨by rw [← size]; exact List.length_pos_iff.mpr nonempty, ?_,
      fun isOnce => by rw [← size, once isOnce]⟩
    have head :
        text.takeWhile piece.accepts = text.take n ++ (text.drop n).takeWhile piece.accepts := by
      conv => lhs; rw [← List.take_append_drop n text]
      exact List.takeWhile_append_of_pos accepted
    rw [head, List.length_append, size]
    omega

/-- What is found is a match. -/
theorem matchPieces_sound {parts : List (List α)} (found : matchPieces pieces text = some parts) :
    List.Forall₂ Fits pieces parts ∧ parts.flatten <+: text := by
  induction pieces generalizing text parts with
  | nil =>
    obtain rfl := Option.some.inj found
    exact ⟨.nil, List.nil_prefix⟩
  | cons piece pieces inductionHypothesis =>
    rw [matchPieces, List.findSome?_eq_some_iff] at found
    obtain ⟨before, n, after, lengths, found, -⟩ := found
    obtain ⟨later, ran, rfl⟩ := Option.map_eq_some_iff.mp found
    obtain ⟨fits, here⟩ := inductionHypothesis ran
    have member : n ∈ piece.lengths text := by simp [lengths]
    refine ⟨.cons (mem_lengths_iff_fits.mp member).2 fits, ?_⟩
    rw [List.flatten_cons]
    conv => rhs; rw [← List.take_append_drop n text]
    exact (List.prefix_append_right_inj _).mpr here

/-- Where there is a match, one is found. -/
theorem matchPieces_complete {parts : List (List α)} (fits : List.Forall₂ Fits pieces parts)
    (here : parts.flatten <+: text) :
    (matchPieces pieces text).isSome := by
  induction fits generalizing text with
  | nil => rfl
  | @cons piece part pieces parts fit _ inductionHypothesis =>
    obtain ⟨rest, rfl⟩ := here
    rw [List.flatten_cons, List.append_assoc, matchPieces, List.findSome?_isSome_iff]
    refine ⟨part.length, mem_lengths_iff_fits.mpr ⟨by simp, by simpa using fit⟩, ?_⟩
    rw [Option.isSome_map, List.drop_left]
    exact inductionHypothesis (List.prefix_append _ _)

/-- A match is one whatever follows. -/
theorem matchPieces_append (found : (matchPieces pieces text).isSome) (more : List α) :
    (matchPieces pieces (text ++ more)).isSome := by
  obtain ⟨parts, found⟩ := Option.isSome_iff_exists.mp found
  obtain ⟨fits, here⟩ := matchPieces_sound found
  exact matchPieces_complete fits (here.trans (List.prefix_append _ _))

/-! ## The match that is found -/

theorem matchPieces_once {accepts : α → Bool} {a : α} {rest : List α} {parts : List (List α)}
    (accepted : accepts a = true)
    (later : matchPieces pieces rest = some parts) :
    matchPieces (⟨.once, accepts⟩ :: pieces) (a :: rest) = some ([a] :: parts) := by
  simp [matchPieces, Piece.lengths, accepted, later]

theorem matchPieces_greedy {accepts : α → Bool} {chunk rest : List α} {parts : List (List α)}
    (nonempty : chunk ≠ [])
    (accepted : ∀ a ∈ chunk, accepts a = true) (stops : ∀ a ∈ rest.head?, accepts a = false)
    (later : matchPieces pieces rest = some parts) :
    matchPieces (⟨.greedy, accepts⟩ :: pieces) (chunk ++ rest) = some (chunk :: parts) := by
  have longest : (chunk ++ rest).takeWhile accepts = chunk := by
    rw [List.takeWhile_append_of_pos accepted]
    cases rest with
    | nil => simp
    | cons a rest => rw [List.takeWhile_cons_of_neg (by simp [stops a rfl]), List.append_nil]
  obtain ⟨n, size⟩ : ∃ n, chunk.length = n + 1 :=
    ⟨chunk.length - 1, by have := List.length_pos_iff.mpr nonempty; omega⟩
  have lengths :
      (List.range' 1 chunk.length).reverse = chunk.length :: (List.range' 1 n).reverse := by
    rw [size, List.range'_1_concat, List.reverse_append]
    simp [Nat.add_comm]
  rw [matchPieces, Piece.lengths]
  dsimp only
  rw [longest, lengths, List.findSome?_cons, List.drop_left, later, List.take_left]
  rfl

theorem matchPieces_lazy {accepts : α → Bool} {chunk rest : List α} {parts : List (List α)}
    (nonempty : chunk ≠ [])
    (accepted : ∀ a ∈ chunk, accepts a = true)
    (shorter : ∀ n, 0 < n → n < chunk.length → matchPieces pieces (chunk.drop n ++ rest) = none)
    (later : matchPieces pieces rest = some parts) :
    matchPieces (⟨.lazy, accepts⟩ :: pieces) (chunk ++ rest) = some (chunk :: parts) := by
  have positive := List.length_pos_iff.mpr nonempty
  have longest : chunk.length ≤ ((chunk ++ rest).takeWhile accepts).length := by
    rw [List.takeWhile_append_of_pos accepted, List.length_append]
    omega
  obtain ⟨more, size⟩ := Nat.exists_eq_add_of_le longest
  have lengths : List.range' 1 ((chunk ++ rest).takeWhile accepts).length =
      List.range' 1 (chunk.length - 1) ++ chunk.length :: List.range' (1 + chunk.length) more := by
    rw [size, ← List.range'_append_1, show chunk.length = chunk.length - 1 + 1 by omega,
      List.range'_1_concat]
    simp [Nat.add_comm]
  rw [matchPieces, Piece.lengths]
  dsimp only
  rw [lengths, List.findSome?_append]
  have none : (List.range' 1 (chunk.length - 1)).findSome?
      (fun n => (matchPieces pieces ((chunk ++ rest).drop n)).map ((chunk ++ rest).take n :: ·)) =
          none := by
    rw [List.findSome?_eq_none_iff]
    intro n inside
    rw [List.mem_range'_1] at inside
    rw [List.drop_append_of_le_length (by omega), shorter n (by omega) (by omega)]
    rfl
  rw [none, Option.none_or, List.findSome?_cons, List.drop_left, later, List.take_left]
  rfl

end

end AiConfig.Lib
