import Mathlib.Algebra.Group.Int.Defs
import RubyFormat.Doc.Render

/-!
# The width of indentation

A document has lines, each with its depth and its content, which do not depend on the width of the
indentation.  The writer meets the width early: breaks are written with their blanks, later breaks
look back at what is written, and lines of white space are found only in the end.  Nothing of this
lets the width through.  A break looks back no further than the break before it, whose piece of text
is never a single blank, and blanks in front of a line do not change whether it is white space.
-/

namespace RubyFormat

/-- A line of text and the depth of its indentation. -/
structure Line where
  level : Nat
  content : List Char
  deriving DecidableEq, Repr

namespace Line

/-- The line with its indentation, which a line of white space goes without. -/
def render (width : Int) (line : Line) : List Char :=
  if line.content.all Text.isBlank then []
  else List.replicate (width * line.level).toNat ' ' ++ line.content

/--
The lines that pieces of text make, given last piece first.  A newline inside a piece starts a line
without indentation.
-/
def ofWritten (level : Nat) (written : List String) : List Line :=
  match Text.lines (written.reverse.flatMap String.toList) with
  | [] => []
  | first :: others => ⟨level, first⟩ :: others.map fun content => ⟨0, content⟩

/-- The lines that the pieces make after those written on the present line, last piece first. -/
def ofPieces (level : Nat) (written : List String) : List Piece → List Line
  | [] => ofWritten level written
  | .text value :: rest => ofPieces level (value :: written) rest
  | .newline next :: rest =>
      ofWritten level (written.dropWhile (· == " ")) ++ ofPieces next [] rest

/-- Why the blanks in front of a line cannot be written. -/
def widthError? (width : Int) (line : Line) : Option WidthError :=
  (Piece.newline line.level).widthError? width

end Line

/-- The lines of a document. -/
def Doc.lines (doc : Doc) : List Line :=
  Line.ofPieces 0 [] (doc.pieces 0 true)

/-! ## Lines of a text -/

namespace Text

theorem not_mem_of_mem_lines {text line : List Char} (mem : line ∈ lines text) : '\n' ∉ line := by
  induction text generalizing line with
  | nil =>
    simp [lines, cut] at mem
    simp [mem]
  | cons c rest ih =>
    simp only [lines, cut] at mem ih
    split at mem
    · obtain rfl | mem := List.mem_cons.1 mem
      · exact List.not_mem_nil
      · exact ih mem
    next noBreak =>
      cases pieces : cut (· == '\n') rest with
      | nil => exact absurd pieces (cut_ne_nil _ rest)
      | cons piece others =>
        rw [pieces] at mem ih
        obtain rfl | mem := List.mem_cons.1 mem
        · simp only [List.mem_cons, not_or]
          exact ⟨fun same => noBreak (by simp [← same]), ih List.mem_cons_self⟩
        · exact ih (List.mem_cons_of_mem _ mem)

/-- The first line of a text that does not start with a line break starts with its first letter. -/
theorem lines_cons {c : Char} {rest : List Char} (noBreak : c ≠ '\n') :
    ∃ piece others, lines rest = piece :: others ∧ lines (c :: rest) = (c :: piece) :: others := by
  have other : (c == '\n') = false := by simpa using noBreak
  cases pieces : lines rest with
  | nil => exact absurd pieces (cut_ne_nil _ rest)
  | cons piece others =>
    refine ⟨piece, others, rfl, ?_⟩
    unfold lines at pieces ⊢
    simp [cut, other, pieces]

theorem lines_append_left (left : List Char) (single : '\n' ∉ left) (right : List Char) :
    ∃ first others, lines right = first :: others ∧
      lines (left ++ right) = (left ++ first) :: others := by
  induction left with
  | nil =>
    cases pieces : lines right with
    | nil => exact absurd pieces (cut_ne_nil _ right)
    | cons first others => exact ⟨first, others, rfl, by simp [pieces]⟩
  | cons c rest ih =>
    simp only [List.mem_cons, not_or] at single
    obtain ⟨first, others, own, all⟩ := ih single.2
    obtain ⟨piece, more, restLines, allLines⟩ := @lines_cons c (rest ++ right) (Ne.symm single.1)
    obtain ⟨rfl, rfl⟩ := List.cons.inj (restLines.symm.trans all)
    exact ⟨first, _, own, allLines⟩

theorem lines_break (rest : List Char) : lines ('\n' :: rest) = [] :: lines rest := by
  simp [lines, cut]

/-- The lines of two texts with a line break between them are those of both. -/
theorem lines_append_break (left right : List Char) :
    lines (left ++ '\n' :: right) = lines left ++ lines right := by
  induction left with
  | nil => exact lines_break right
  | cons c rest ih =>
    by_cases isBreak : c = '\n'
    · subst isBreak
      rw [List.cons_append, lines_break, lines_break, ih, List.cons_append]
    · obtain ⟨piece, others, restLines, allLines⟩ := @lines_cons c rest isBreak
      obtain ⟨longer, more, bothLines, all⟩ := @lines_cons c (rest ++ '\n' :: right) isBreak
      rw [ih, restLines] at bothLines
      obtain ⟨rfl, rfl⟩ := List.cons.inj bothLines
      rw [List.cons_append, all, allLines]
      rfl

theorem joined_append (later earlier : List String) :
    joined (later ++ earlier) = joined earlier ++ joined later := by
  simp [joined]

theorem keptLine_replicate_append (count : Nat) (content : List Char) :
    keptLine (List.replicate count ' ' ++ content) =
      if content.all isBlank then [] else List.replicate count ' ' ++ content := by
  have blank : isBlank ' ' = true := by decide
  simp [keptLine, blank]

end Text

/-! ## The writer and the lines -/

open Text (joined)

namespace Piece

/-- What is written at a break is never taken for a single blank. -/
theorem dropWhile_break (width : Int) (level : Nat) (written : List String) :
    (String.ofList ('\n' :: List.replicate (width * level).toNat ' ') :: written).dropWhile
        (· == " ") =
      String.ofList ('\n' :: List.replicate (width * level).toNat ' ') :: written := by
  refine List.dropWhile_cons_of_neg fun same => ?_
  have chars := congrArg String.toList (eq_of_beq same)
  rw [String.toList_ofList] at chars
  cases chars

/-- Nothing that is written changes what stands before a break. -/
theorem joined_foldl_write (width : Int) {before : List String}
    (stops : before.dropWhile (· == " ") = before) (pieces : List Piece) (written : List String) :
    joined (pieces.foldl (write width) (written ++ before)) =
      joined before ++ joined (pieces.foldl (write width) written) := by
  induction pieces generalizing before written with
  | nil => exact Text.joined_append written before
  | cons piece rest ih =>
    cases piece with
    | text value => exact ih stops (value :: written)
    | newline level =>
      have looksBack : (written ++ before).dropWhile (· == " ") =
          written.dropWhile (· == " ") ++ before := by
        rw [List.dropWhile_append]
        split
        next none => rw [List.isEmpty_iff.1 none, stops, List.nil_append]
        next => rfl
      -- Both runs go on from the break, with nothing on the new line yet.
      have longer := ih (dropWhile_break width level (written.dropWhile (· == " ") ++ before)) []
      have shorter := ih (dropWhile_break width level (written.dropWhile (· == " "))) []
      rw [List.nil_append] at longer shorter
      rw [List.foldl_cons, List.foldl_cons, write, write, looksBack, longer, shorter,
        ← List.cons_append, Text.joined_append, List.append_assoc]

end Piece

namespace Line

/-- The lines of what is written on one line, behind its indentation. -/
theorem lines_joined_written (width : Int) (level : Nat) (written : List String) :
    Text.lines (List.replicate (width * level).toNat ' ' ++ joined written) =
      (ofWritten level written).map fun line =>
        List.replicate (width * line.level).toNat ' ' ++ line.content := by
  obtain ⟨first, others, own, all⟩ := Text.lines_append_left
    (List.replicate (width * level).toNat ' ') (by simp) (joined written)
  rw [all, ofWritten, ← joined, own]
  simp [Function.comp_def]

/--
The lines of what is written from the middle of a line on: those that the pieces make, each with its
indentation.
-/
theorem lines_joined_foldl (width : Int) (pieces : List Piece) (level : Nat)
    (written : List String) :
    Text.lines (List.replicate (width * level).toNat ' ' ++
        joined (pieces.foldl (Piece.write width) written)) =
      (ofPieces level written pieces).map fun line =>
        List.replicate (width * line.level).toNat ' ' ++ line.content := by
  induction pieces generalizing level written with
  | nil => exact lines_joined_written width level written
  | cons piece rest ih =>
    cases piece with
    | text value => exact ih level (value :: written)
    | newline next =>
      have behind := Piece.joined_foldl_write width
        (Piece.dropWhile_break width next (written.dropWhile (· == " "))) rest []
      rw [List.nil_append] at behind
      have broken : joined (String.ofList ('\n' :: List.replicate (width * next).toNat ' ')
          :: written.dropWhile (· == " ")) =
            joined (written.dropWhile (· == " ")) ++
              '\n' :: List.replicate (width * next).toNat ' ' := by
        simp [joined]
      rw [List.foldl_cons, Piece.write, behind, broken, List.append_assoc, List.cons_append,
        ← List.append_assoc, Text.lines_append_break, lines_joined_written, ih, ofPieces,
        List.map_append]

end Line

/-- The text of a document has its lines, whatever the width of the indentation. -/
theorem Doc.render_eq_lines (width : Int) (doc : Doc) :
    doc.render width =
      String.ofList (['\n'].intercalate (doc.lines.map (Line.render width))) := by
  have raw := Line.lines_joined_foldl width (doc.pieces 0 true) 0 []
  rw [Int.natCast_zero, Int.mul_zero, Int.toNat_zero, List.replicate_zero, List.nil_append] at raw
  rw [render, raw, List.map_map]
  congr 2
  exact List.map_congr_left fun line _ =>
    Text.keptLine_replicate_append (width * line.level).toNat line.content

/-! ## Which widths are refused -/

theorem WidthError.eq_notCountable : ∀ error : WidthError, error = .notCountable
  | .notCountable => rfl

theorem Piece.widthError?_eq_none_iff {width : Int} {level : Nat} :
    (newline level).widthError? width = none ↔
      -2 ^ 63 ≤ width * level ∧ width * level < 2 ^ 63 := by
  unfold widthError? isCountable
  split <;> simp_all

/-- A line that is not indented can be written with every width. -/
theorem Piece.widthError?_newline_zero (width : Int) : (newline 0).widthError? width = none :=
  widthError?_eq_none_iff.2 (by simp)

namespace Line

theorem widthError?_eq_none_iff {width : Int} {line : Line} :
    line.widthError? width = none ↔
      -2 ^ 63 ≤ width * line.level ∧ width * line.level < 2 ^ 63 :=
  Piece.widthError?_eq_none_iff

/-- Only the first of the lines that pieces of text make is indented. -/
theorem findSome?_ofWritten (width : Int) (level : Nat) (written : List String) :
    (ofWritten level written).findSome? (widthError? width) =
      (Piece.newline level).widthError? width := by
  cases lines : Text.lines (written.reverse.flatMap String.toList) with
  | nil => exact absurd lines (Text.cut_ne_nil _ _)
  | cons first others =>
    have flush : (others.map fun content => Line.mk 0 content).findSome? (widthError? width) =
        none := by
      simp [List.findSome?_eq_none_iff, widthError?, Piece.widthError?_newline_zero]
    rw [ofWritten, lines, List.findSome?_cons, flush]
    cases refused : (mk level first).widthError? width <;> exact refused.symm

/-- The first break that is refused makes the first line that is. -/
theorem findSome?_ofPieces (width : Int) (pieces : List Piece) (level : Nat)
    (written : List String) :
    (ofPieces level written pieces).findSome? (widthError? width) =
      ((Piece.newline level).widthError? width).or
        (pieces.findSome? (Piece.widthError? width)) := by
  induction pieces generalizing level written with
  | nil => simp [ofPieces, findSome?_ofWritten]
  | cons piece rest ih =>
    cases piece with
    | text value => exact ih level (value :: written)
    | newline next =>
      rw [ofPieces, List.findSome?_append, findSome?_ofWritten, ih, List.findSome?_cons]
      cases (Piece.newline next).widthError? width <;> rfl

end Line

namespace Doc

theorem widthError?_eq_lines (width : Int) (doc : Doc) :
    doc.widthError? width = doc.lines.findSome? (Line.widthError? width) := by
  rw [lines, Line.findSome?_ofPieces, Piece.widthError?_newline_zero, Option.none_or, widthError?]

theorem not_mem_of_mem_lines {doc : Doc} {line : Line} (mem : line ∈ doc.lines) :
    '\n' ∉ line.content := by
  -- The contents are the lines of a text, the one that a width of zero gives.
  have raw := Line.lines_joined_foldl 0 (doc.pieces 0 true) 0 []
  simp only [Int.zero_mul, Int.toNat_zero, List.replicate_zero, List.nil_append] at raw
  exact Text.not_mem_of_mem_lines (raw ▸ List.mem_map_of_mem (f := Line.content) mem)

/--
A document has lines that are the same for all widths.  It is written, with any width at all,
exactly if the blanks of each line fit into a word, and then as these lines: those of white space
empty, the others with as many blanks in front as the width gives for their depth.  Otherwise it is
refused, as its blanks cannot be counted.
-/
theorem exists_lines_forall_width (doc : Doc) :
    ∃ lines : List Line, (∀ line ∈ lines, '\n' ∉ line.content) ∧ ∀ width : Int,
      (∀ text, doc.write width = .ok text ↔
        (∀ line ∈ lines, -2 ^ 63 ≤ width * line.level ∧ width * line.level < 2 ^ 63) ∧
          text = String.ofList (['\n'].intercalate (lines.map (Line.render width)))) ∧
      ∀ error, doc.write width = .error error ↔
        ¬ (∀ line ∈ lines, -2 ^ 63 ≤ width * line.level ∧ width * line.level < 2 ^ 63) ∧
          error = .notCountable := by
  refine ⟨doc.lines, fun line mem => not_mem_of_mem_lines mem, fun width => ?_⟩
  simp only [← Line.widthError?_eq_none_iff, ← List.findSome?_eq_none_iff, write,
    widthError?_eq_lines, render_eq_lines]
  cases doc.lines.findSome? (Line.widthError? width) with
  | none => simp [eq_comm]
  | some error => simp [eq_comm, WidthError.eq_notCountable error]

/-- The blanks of a line can be too many to be counted even where none would be written. -/
theorem no_lines_uncountable :
    ¬ ∃ lines : List Line, ∀ width : Int,
      (Doc.indent hardLine).write width =
        .ok (String.ofList (['\n'].intercalate (lines.map (Line.render width)))) := by
  rintro ⟨lines, written⟩
  have refused : (Doc.indent hardLine).write (-2 ^ 63 - 1) = .error .notCountable := rfl
  have text := written (-2 ^ 63 - 1)
  rw [refused] at text
  cases text

end Doc

end RubyFormat
