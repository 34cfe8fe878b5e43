import RubyFormat.Proofs.Indentation
import RubyFormat.Proofs.Written

/-!
# Where rendering trims nothing

Rendering drops blanks at the end of a line and empties lines of white space.  A text is trimmed if
none of its lines ends with white space; a document whose characters are trimmed is rendered to just
them.
-/

namespace RubyFormat

namespace Text

/-- Whether no line of a text ends with white space. -/
def isTrimmed : List Char → Bool
  | [] => true
  | c :: rest =>
      (c == '\n' || !isBlank c || (rest.head?.map (· != '\n')).getD false) && isTrimmed rest

theorem isTrimmed_append {left right : List Char} (leftTrimmed : isTrimmed left = true)
    (rightTrimmed : isTrimmed right = true) : isTrimmed (left ++ right) = true := by
  induction left with
  | nil => exact rightTrimmed
  | cons c rest ih =>
    simp only [isTrimmed, Bool.and_eq_true] at leftTrimmed
    simp only [List.cons_append, isTrimmed, ih leftTrimmed.2, Bool.and_true]
    cases rest with
    | nil =>
      have last : (c == '\n' || !isBlank c) = true := by simpa using leftTrimmed.1
      simp only [last, Bool.true_or]
    | cons d rest => exact leftTrimmed.1

/-- Both parts of a text around a line break are trimmed. -/
theorem isTrimmed_of_break {left right : List Char}
    (trimmed : isTrimmed (left ++ '\n' :: right) = true) :
    isTrimmed left = true ∧ isTrimmed right = true := by
  induction left with
  | nil => simpa [isTrimmed] using trimmed
  | cons c rest ih =>
    simp only [List.cons_append, isTrimmed, Bool.and_eq_true] at trimmed
    obtain ⟨restTrimmed, rightTrimmed⟩ := ih trimmed.2
    refine ⟨?_, rightTrimmed⟩
    simp only [isTrimmed, restTrimmed, Bool.and_true]
    cases rest with
    | nil => simpa using trimmed.1
    | cons d rest => exact trimmed.1

/-- A line of a trimmed text is empty or has more than white space. -/
theorem eq_nil_of_isTrimmed {line : List Char} (trimmed : isTrimmed line = true)
    (single : '\n' ∉ line) (blank : line.all isBlank = true) : line = [] := by
  induction line with
  | nil => rfl
  | cons c rest ih =>
    simp only [isTrimmed, Bool.and_eq_true] at trimmed
    simp only [List.all_cons, Bool.and_eq_true] at blank
    simp only [List.mem_cons, not_or] at single
    have none := ih trimmed.2 single.2 blank.2
    have notBreak : (c == '\n') = false := by simpa using Ne.symm single.1
    simp [none, blank.1, notBreak] at trimmed

/-- Every line of a trimmed text is trimmed. -/
theorem isTrimmed_of_mem_lines {text line : List Char} (trimmed : isTrimmed text = true)
    (mem : line ∈ lines text) : isTrimmed line = true := by
  induction text generalizing line with
  | nil =>
    simp [lines, cut] at mem
    simp [mem, isTrimmed]
  | cons c rest ih =>
    simp only [isTrimmed, Bool.and_eq_true] at trimmed
    have below {line : List Char} (mem : line ∈ lines rest) := ih trimmed.2 mem
    by_cases isBreak : c = '\n'
    · subst isBreak
      rw [lines_break] at mem
      obtain rfl | mem := List.mem_cons.1 mem
      · rfl
      · exact below mem
    · obtain ⟨piece, others, restLines, allLines⟩ := @lines_cons c rest isBreak
      rw [restLines] at below
      rw [allLines] at mem
      obtain rfl | mem := List.mem_cons.1 mem
      · simp only [isTrimmed, below List.mem_cons_self, Bool.and_true]
        cases rest with
        | nil =>
          simp only [lines, cut, List.cons.injEq] at restLines
          simpa [← restLines.1] using trimmed.1
        | cons d rest =>
          by_cases next : d = '\n'
          · have solid : (c == '\n' || !isBlank c) = true := by simpa [next] using trimmed.1
            simp only [solid, Bool.true_or]
          · obtain ⟨inner, more, -, restLines'⟩ := @lines_cons d rest next
            obtain ⟨rfl, -⟩ := List.cons.inj (restLines.symm.trans restLines')
            simpa using trimmed.1
      · exact below (List.mem_cons_of_mem _ mem)

theorem isTrimmed_of_suffix (left : List Char) {right : List Char}
    (trimmed : isTrimmed (left ++ right) = true) : isTrimmed right = true := by
  induction left with
  | nil => exact trimmed
  | cons c rest ih =>
    simp only [List.cons_append, isTrimmed, Bool.and_eq_true] at trimmed
    exact ih trimmed.2

theorem intercalate_append {left right : List (List Char)} (some : left ≠ []) (more : right ≠ []) :
    ['\n'].intercalate (left ++ right) =
      ['\n'].intercalate left ++ '\n' :: ['\n'].intercalate right := by
  induction left with
  | nil => exact absurd rfl some
  | cons line rest ih =>
    cases rest with
    | nil =>
      cases right with
      | nil => exact absurd rfl more
      | cons other right => simp [List.intercalate, List.intersperse]
    | cons next rest =>
      have tail := ih (List.cons_ne_nil _ _)
      simp only [List.intercalate, List.cons_append, List.intersperse, List.flatten_cons] at tail ⊢
      rw [tail]
      simp

end Text

namespace Line

/-- A trimmed line is rendered with its indentation as it is. -/
theorem render_eq {width : Int} {level : Nat} {content : List Char} (single : '\n' ∉ content)
    (trimmed :
      Text.isTrimmed (List.replicate (width * level).toNat ' ' ++ content) = true) :
    (Line.mk level content).render width = List.replicate (width * level).toNat ' ' ++ content := by
  unfold render
  split
  next blank =>
    refine (Text.eq_nil_of_isTrimmed trimmed ?_ ?_).symm
    · simp [single]
    · have indent : Text.isBlank ' ' = true := by decide
      simp [blank, indent]
  · rfl

theorem ofWritten_ne_nil (level : Nat) (written : List String) : ofWritten level written ≠ [] := by
  unfold ofWritten
  split
  next none => exact absurd none (Text.cut_ne_nil _ _)
  next => simp

theorem ofPieces_ne_nil (level : Nat) (written : List String) (pieces : List Piece) :
    ofPieces level written pieces ≠ [] := by
  induction pieces generalizing level written with
  | nil => exact ofWritten_ne_nil level written
  | cons piece pieces ih =>
    cases piece with
    | text value => exact ih level (value :: written)
    | newline next => simp [ofPieces, ofWritten_ne_nil]

/-- The lines of a trimmed text, the first with its indentation. -/
theorem render_ofWritten {width : Int} {level : Nat} {written : List String}
    (trimmed : Text.isTrimmed (List.replicate (width * level).toNat ' ' ++
      written.reverse.flatMap String.toList) = true) :
    ['\n'].intercalate ((ofWritten level written).map (render width)) =
      List.replicate (width * level).toNat ' ' ++ written.reverse.flatMap String.toList := by
  obtain ⟨first, others, own, all⟩ := Text.lines_append_left
    (List.replicate (width * level).toNat ' ') (by simp) (written.reverse.flatMap String.toList)
  have each {line : List Char} (mem : line ∈ _) := Text.isTrimmed_of_mem_lines trimmed mem
  rw [all] at each
  have single {line : List Char} (mem : line ∈ first :: others) : '\n' ∉ line :=
    Text.not_mem_of_mem_lines (own ▸ mem)
  have rest : others.map (render width ∘ fun content => ⟨0, content⟩) = others := by
    refine (List.map_congr_left fun line mem => ?_).trans (List.map_id _)
    have plain := @render_eq width 0 line (single (List.mem_cons_of_mem _ mem))
      (by simpa using each (List.mem_cons_of_mem _ mem))
    simpa using plain
  unfold ofWritten
  rw [own, List.map_cons, List.map_map, rest, render_eq (single List.mem_cons_self)
    (each List.mem_cons_self), ← all, Text.intercalate_lines]

/-- Pieces whose characters are trimmed are rendered to just these. -/
theorem render_ofPieces {width : Int} {pieces : List Piece} {level : Nat} {written : List String}
    (trimmed : Text.isTrimmed (List.replicate (width * level).toNat ' ' ++
      written.reverse.flatMap String.toList ++ pieces.flatMap (Piece.chars width)) = true) :
    ['\n'].intercalate ((ofPieces level written pieces).map (render width)) =
      List.replicate (width * level).toNat ' ' ++ written.reverse.flatMap String.toList ++
        pieces.flatMap (Piece.chars width) := by
  induction pieces generalizing level written with
  | nil =>
    simp only [List.flatMap_nil, List.append_nil] at trimmed ⊢
    exact render_ofWritten trimmed
  | cons piece pieces ih =>
    cases piece with
    | text value =>
      have rest := @ih level (value :: written) (by simpa [Piece.chars] using trimmed)
      simpa [ofPieces, Piece.chars] using rest
    | newline next =>
      simp only [List.flatMap_cons, Piece.chars, List.cons_append] at trimmed ⊢
      obtain ⟨first, rest⟩ := Text.isTrimmed_of_break trimmed
      have kept : written.dropWhile (· == " ") = written := by
        cases written with
        | nil => rfl
        | cons last others =>
          have notBlank : (last == " ") = false := by
            rw [beq_eq_false_iff_ne]
            rintro rfl
            have open_ : Text.isTrimmed [' '] = true :=
              Text.isTrimmed_of_suffix (List.replicate (width * level).toNat ' ' ++
                others.reverse.flatMap String.toList) (by simpa using first)
            exact absurd open_ (by decide)
          simp [notBlank]
      have head := render_ofWritten first
      have tail := @ih next [] (by simpa using rest)
      rw [ofPieces, kept, List.map_append, Text.intercalate_append, head, tail]
      · simp
      · simp [ofWritten_ne_nil]
      · simp [ofPieces_ne_nil]

end Line

/-- A document whose characters are trimmed is rendered to just these. -/
theorem Doc.render_eq_chars {width : Int} {doc : Doc}
    (trimmed : Text.isTrimmed (doc.chars width 0 true) = true) :
    (doc.render width).toList = doc.chars width 0 true := by
  have lines := @Line.render_ofPieces width (doc.pieces 0 true) 0 [] (by simpa [Doc.chars] using trimmed)
  simpa [Doc.render_eq_lines, Doc.lines, Doc.chars] using lines

end RubyFormat
