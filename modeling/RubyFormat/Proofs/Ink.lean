import Mathlib.Algebra.GroupWithZero.Nat
import RubyFormat.Layout.Shape
import RubyFormat.Proofs.Indentation

/-!
# What a document writes besides white space

Rendering decides about white space only: indentation, line breaks and the blanks that stand for
lines.  All other characters of a text are those of the document, in their order.
-/

namespace RubyFormat

namespace Text

/-- The characters of a text that are no white space. -/
def ink (text : List Char) : List Char :=
  text.filter (!isBlank ·)

@[simp]
theorem ink_nil : ink [] = [] := rfl

@[simp]
theorem ink_append (left right : List Char) : ink (left ++ right) = ink left ++ ink right :=
  List.filter_append ..

/-- Blanks leave no trace. -/
theorem ink_eq_nil_of_blank {text : List Char} (blank : text.all isBlank = true) :
    ink text = [] := by
  simpa [ink, List.filter_eq_nil_iff] using blank

theorem ink_replicate (count : Nat) : ink (List.replicate count ' ') = [] :=
  ink_eq_nil_of_blank (by simp [show isBlank ' ' = true by decide])

/-- Only white space stands between the lines of a text. -/
theorem flatMap_ink_cut {divides : Char → Bool} (blank : ∀ c, divides c = true → isBlank c = true)
    (text : List Char) : (cut divides text).flatMap ink = ink text := by
  induction text with
  | nil => rfl
  | cons c rest ih =>
      rw [← List.singleton_append, ink_append, ← ih, List.singleton_append, cut]
      split
      next divided => simp [ink, blank c divided]
      next =>
        cases pieces : cut divides rest with
        | nil => exact absurd pieces (cut_ne_nil _ rest)
        | cons piece others =>
            rw [List.flatMap_cons, List.flatMap_cons, ← List.append_assoc, ← ink_append]
            rfl

theorem flatMap_ink_lines (text : List Char) : (lines text).flatMap ink = ink text := by
  refine flatMap_ink_cut (fun c newline => ?_) text
  rw [eq_of_beq newline]
  decide

end Text

namespace Line

open Text

theorem ink_render (width : Int) (line : Line) : ink (line.render width) = ink line.content := by
  unfold render
  split
  next blank => rw [ink_eq_nil_of_blank blank, ink_nil]
  next => rw [ink_append, ink_replicate, List.nil_append]

theorem flatMap_ink_ofWritten (level : Nat) (written : List String) :
    (ofWritten level written).flatMap (fun line => ink line.content) =
      ink (written.reverse.flatMap String.toList) := by
  rw [← flatMap_ink_lines, ofWritten]
  cases lines (written.reverse.flatMap String.toList) with
  | nil => rfl
  | cons first others => simp [List.flatMap_map]

/-- Dropping single blanks drops nothing else. -/
theorem ink_dropWhile (written : List String) :
    ink ((written.dropWhile (· == " ")).reverse.flatMap String.toList) =
      ink (written.reverse.flatMap String.toList) := by
  induction written with
  | nil => rfl
  | cons first rest ih =>
      rw [List.dropWhile_cons]
      split
      next blank =>
        rw [ih, eq_of_beq blank]
        have gone : ink [' '] = [] := ink_eq_nil_of_blank (by decide)
        simp [gone]
      next => rfl

end Line

/-- The characters of a piece that are no white space. -/
def Piece.ink : Piece → List Char
  | .text value => Text.ink value.toList
  | .newline _ => []

/-- The lines of pieces have the characters of the pieces. -/
theorem Line.flatMap_ink_ofPieces (pieces : List Piece) (level : Nat) (written : List String) :
    (ofPieces level written pieces).flatMap (fun line => Text.ink line.content) =
      Text.ink (written.reverse.flatMap String.toList) ++ pieces.flatMap Piece.ink := by
  induction pieces generalizing level written with
  | nil => simp [ofPieces, flatMap_ink_ofWritten]
  | cons piece rest ih =>
      cases piece with
      | text value => simp [ofPieces, ih, Piece.ink]
      | newline next =>
          simp [ofPieces, ih, Piece.ink, flatMap_ink_ofWritten, ink_dropWhile]

namespace Doc

mutual

/-- The characters of a document that are no white space. -/
def ink : Doc → List Char
  | .text value => Text.ink value.toList
  | .concat parts => inkOfParts parts
  | .group contents => ink contents
  | .indent contents => ink contents
  | .line _ => []

/-- The characters of documents in a row. -/
def inkOfParts : List Doc → List Char
  | [] => []
  | part :: rest => ink part ++ inkOfParts rest

end

@[simp]
theorem inkOfParts_eq_flatMap (parts : List Doc) : inkOfParts parts = parts.flatMap ink := by
  induction parts with
  | nil => rfl
  | cons part rest ih => simp [inkOfParts, ih]

mutual

theorem flatMap_ink_pieces (level : Nat) (broken : Bool) :
    (doc : Doc) → (doc.pieces level broken).flatMap Piece.ink = doc.ink
  | .text value => by simp [pieces, Piece.ink, ink]
  | .concat parts => flatMap_ink_piecesOfParts level broken parts
  | .group contents => flatMap_ink_pieces level contents.hasHardLine contents
  | .indent contents => flatMap_ink_pieces (level + 1) broken contents
  | .line hard => by
      rw [pieces]
      split <;> rfl

theorem flatMap_ink_piecesOfParts (level : Nat) (broken : Bool) :
    (parts : List Doc) → (piecesOfParts level broken parts).flatMap Piece.ink = inkOfParts parts
  | [] => rfl
  | part :: rest => by
      rw [piecesOfParts, inkOfParts, List.flatMap_append, flatMap_ink_pieces,
        flatMap_ink_piecesOfParts]

end

/-- Besides white space, the text of a document has the characters of the document. -/
theorem ink_render (width : Int) (doc : Doc) : Text.ink (doc.render width).toList = doc.ink := by
  have between (lines : List (List Char)) :
      Text.ink (['\n'].intercalate lines) = lines.flatMap Text.ink := by
    have newline : Text.ink ['\n'] = [] := Text.ink_eq_nil_of_blank (by decide)
    induction lines with
    | nil => rfl
    | cons line rest ih =>
        cases rest with
        | nil => simp [List.intercalate]
        | cons next more =>
            rw [List.intercalate_cons_cons, Text.ink_append, Text.ink_append, newline, ih]
            simp
  rw [render_eq_lines, String.toList_ofList, between, List.flatMap_map]
  simp only [Line.ink_render]
  rw [lines, Line.flatMap_ink_ofPieces, flatMap_ink_pieces]
  rfl

/-- The number of characters of a document that are no white space. -/
def inkLength (doc : Doc) : Nat :=
  doc.ink.length

@[simp]
theorem inkLength_concat (parts : List Doc) :
    (Doc.concat parts).inkLength = (parts.map inkLength).sum := by
  rw [inkLength, ink, inkOfParts_eq_flatMap, List.length_flatMap]
  rfl

@[simp]
theorem inkLength_group (contents : Doc) : (Doc.group contents).inkLength = contents.inkLength := rfl

@[simp]
theorem inkLength_indent (contents : Doc) : (Doc.indent contents).inkLength = contents.inkLength :=
  rfl

@[simp]
theorem inkLength_line (hard : Bool) : (Doc.line hard).inkLength = 0 := rfl

@[simp]
theorem inkLength_join (separator : Doc) (parts : List Doc) :
    (Doc.join separator parts).inkLength =
      (parts.map inkLength).sum + (parts.length - 1) * separator.inkLength := by
  rw [join, inkLength_concat]
  induction parts with
  | nil => simp
  | cons first rest ih =>
      cases rest with
      | nil => simp
      | cons second more =>
          rw [List.intersperse_cons_cons, List.map_cons, List.map_cons, List.sum_cons, List.sum_cons, ih]
          simp only [List.map_cons, List.sum_cons, List.length_cons, Nat.add_sub_cancel,
            Nat.add_mul, Nat.one_mul]
          omega

end Doc

/-! ## The ink of the constructs -/

namespace Layout

open Doc

variable (items : List Doc) (left right : Doc) (some? : Option Doc)

/-- The ink of the texts that stand in the constructs. -/
@[simp]
theorem inkLength_words :
    (Doc.text "").inkLength = 0 ∧ (Doc.text " ").inkLength = 0 ∧ (Doc.text "[").inkLength = 1 ∧
    (Doc.text "]").inkLength = 1 ∧ (Doc.text "[]").inkLength = 2 ∧ (Doc.text "(").inkLength = 1 ∧
    (Doc.text ")").inkLength = 1 ∧ (Doc.text "()").inkLength = 2 ∧
    (Doc.text "\x7b").inkLength = 1 ∧ (Doc.text "\x7d").inkLength = 1 ∧
    (Doc.text " \x7d").inkLength = 1 ∧ (Doc.text "\x7b\x7d").inkLength = 2 ∧
    (Doc.text " \x7b\x7d").inkLength = 2 ∧ (Doc.text "|").inkLength = 1 ∧
    (Doc.text "||").inkLength = 2 ∧ (Doc.text ", ").inkLength = 1 ∧
    (Doc.text " =").inkLength = 1 ∧ (Doc.text " = ").inkLength = 1 ∧
    (Doc.text " =>").inkLength = 2 ∧ (Doc.text " => ").inkLength = 2 ∧
    (Doc.text "->").inkLength = 2 ∧ (Doc.text "do").inkLength = 2 ∧
    (Doc.text "end").inkLength = 3 := by
  decide

@[simp]
theorem inkLength_comma : comma.inkLength = 1 := by
  decide

@[simp]
theorem inkLength_listed :
    (listed items).inkLength = (items.map inkLength).sum + (items.length - 1) := by
  simp [listed]

@[simp]
theorem inkLength_stmts : (stmts items).inkLength = (items.map inkLength).sum := by
  simp [stmts, hardLine]

@[simp]
theorem inkLength_indentedStmts :
    (indentedStmts items).inkLength = (items.map inkLength).sum := by
  unfold indentedStmts
  split <;> simp_all [hardLine]

@[simp]
theorem inkLength_program : (program items).inkLength = (items.map inkLength).sum := by
  unfold program
  split <;> simp_all [hardLine]

@[simp]
theorem sum_inkLength_trailing :
    ((trailing items).map inkLength).sum = (items.map inkLength).sum := by
  induction items with
  | nil => rfl
  | cons item rest ih => simpa [trailing] using ih

@[simp]
theorem inkLength_hanging : (hanging left).inkLength = left.inkLength := by
  simp [hanging, softLine]

@[simp]
theorem inkLength_array :
    (array items).inkLength = (items.map inkLength).sum + (items.length - 1) + 2 := by
  unfold array
  split <;> simp_all
  omega

@[simp]
theorem inkLength_hash :
    (hash items).inkLength = (items.map inkLength).sum + (items.length - 1) + 2 := by
  unfold hash
  split <;> simp_all [softLine]
  omega

@[simp]
theorem inkLength_assoc (labelled : Bool) :
    (assoc labelled left right).inkLength =
      left.inkLength + right.inkLength + if labelled then 0 else 2 := by
  unfold assoc
  split <;> simp_all
  omega

@[simp]
theorem inkLength_bracedStmts (hard : Bool) :
    (bracedStmts (.line hard) items).inkLength = (items.map inkLength).sum := by
  simp [bracedStmts]

@[simp]
theorem inkLength_lambda (hard : Bool) :
    (lambda some? (.line hard) items).inkLength =
      (some?.toList.map inkLength).sum + (items.map inkLength).sum
        + if some?.isSome then 6 else 4 := by
  unfold lambda
  cases some? <;> split <;> simp_all [lambdaHead] <;> omega

@[simp]
theorem inkLength_index :
    (index left some?).inkLength = left.inkLength + (some?.toList.map inkLength).sum + 2 := by
  cases some? <;> simp [index]
  omega

@[simp]
theorem inkLength_assign (staysOnLine : Bool) :
    (assign staysOnLine left right).inkLength = left.inkLength + right.inkLength + 1 := by
  unfold assign
  split <;> simp <;> omega

@[simp]
theorem inkLength_operation (op : String) :
    (operation left op right).inkLength =
      left.inkLength + right.inkLength + (Doc.text op).inkLength := by
  simp [operation]
  omega

@[simp]
theorem inkLength_binary (op : String) :
    (binary left op right).inkLength =
      left.inkLength + right.inkLength + (Doc.text op).inkLength := by
  unfold binary
  split <;> simp
  omega

@[simp]
theorem inkLength_unary (op : String) :
    (unary op left).inkLength = left.inkLength + (Doc.text op).inkLength := by
  unfold unary
  split
  next isNot =>
    have word : (Doc.text "not ").inkLength = (Doc.text op).inkLength := by
      rw [isNot]
      decide
    simp [word]
    omega
  next => simp; omega

@[simp]
theorem inkLength_marked (mark : String) :
    (marked mark some?).inkLength =
      (some?.toList.map inkLength).sum + (Doc.text mark).inkLength := by
  cases some? <;> simp [marked]
  omega

@[simp]
theorem inkLength_argParen :
    (argParen some?).inkLength = (some?.toList.map inkLength).sum + 2 := by
  cases some? <;> simp [argParen]
  omega

/-- One more argument takes its own ink and at most a comma. -/
theorem inkLength_argParenWith_le (extra : String) :
    (argParenWith extra some?).inkLength ≤
      (argParen some?).inkLength + (Doc.text extra).inkLength + 1 := by
  cases some? <;> simp [argParenWith] <;> omega

@[simp]
theorem inkLength_call (operator : String) :
    (call left operator right some? items).inkLength =
      left.inkLength + right.inkLength + (some?.toList.map inkLength).sum
        + (items.map inkLength).sum + (Doc.text operator).inkLength := by
  simp [call]
  omega

@[simp]
theorem inkLength_fcall :
    (fcall left some?).inkLength = left.inkLength + (some?.toList.map inkLength).sum := by
  cases some? <;> simp [fcall]

@[simp]
theorem inkLength_blockParams :
    (blockParams some?).inkLength = (some?.toList.map inkLength).sum := by
  cases some? <;> simp [blockParams]

@[simp]
theorem inkLength_blockVar :
    (blockVar some?).inkLength = (some?.toList.map inkLength).sum + 2 := by
  cases some? <;> simp [blockVar]
  omega

@[simp]
theorem inkLength_braceBlock (hard : Bool) :
    (braceBlock some? (.line hard) items).inkLength =
      (some?.toList.map inkLength).sum + (items.map inkLength).sum + 2 := by
  unfold braceBlock
  cases some? <;> split <;> simp_all <;> omega

@[simp]
theorem inkLength_clause (word : String) :
    (clause word items).inkLength = (items.map inkLength).sum + (Doc.text word).inkLength := by
  simp [clause, hardLine]
  omega

@[simp]
theorem inkLength_bodyStmt (elseBody ensure : Option (List Doc)) :
    (bodyStmt items some? elseBody ensure).inkLength =
      (items.map inkLength).sum + (some?.toList.map inkLength).sum
        + ((elseBody.getD []).map inkLength).sum + ((ensure.getD []).map inkLength).sum
        + (if elseBody.isSome then (Doc.text "else").inkLength else 0)
        + if ensure.isSome then (Doc.text "ensure").inkLength else 0 := by
  have stmts : ((if items = [] then [] else [indentedStmts items]).map inkLength).sum =
      (items.map inkLength).sum := by
    cases items <;> simp
  unfold bodyStmt
  cases elseBody <;> cases ensure <;> simp [stmts] <;> omega

@[simp]
theorem inkLength_rescue (exceptions : List Doc) (target next : Option Doc) :
    (rescue exceptions target items next).inkLength =
      (exceptions.map inkLength).sum + (exceptions.length - 1) + (target.toList.map inkLength).sum
        + (items.map inkLength).sum + (next.toList.map inkLength).sum
        + (if target.isSome then 2 else 0) + (Doc.text "rescue").inkLength := by
  have listed : ((exceptionList exceptions).map inkLength).sum =
      (exceptions.map inkLength).sum + (exceptions.length - 1) := by
    cases exceptions <;> simp [exceptionList]
  have held : ((exceptionTarget target).map inkLength).sum =
      (target.toList.map inkLength).sum + if target.isSome then 2 else 0 := by
    cases target <;> simp [exceptionTarget, Nat.add_comm]
  simp [rescue, hardLine, listed, held]
  omega

@[simp]
theorem inkLength_defaulted (separator : String) :
    (defaulted left separator some?).inkLength =
      left.inkLength + (some?.toList.map inkLength).sum
        + if some?.isSome then (Doc.text separator).inkLength else 0 := by
  cases some? <;> simp [defaulted]
  omega

end Layout

end RubyFormat
