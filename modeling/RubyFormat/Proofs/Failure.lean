import RubyFormat.Proofs.Faultless
import RubyFormat.Proofs.Indentation
import RubyFormat.Proofs.Lexed
import RubyFormat.Proofs.Recursion

/-!
# How a parse can fail

The tokens of a source are refused only for a reason that lies in the source: the parser never
reaches its own bounds, it never takes the closing token or a scope that is not there, and the error
is reported for one of the tokens.  With that, formatting fails in three ways only.
-/

namespace RubyFormat

/-- An error that lies in the source: its cause is no bound of the parser, and it is reported for
one of the tokens. -/
structure ParseError.Fair (tokens : List Token) (error : ParseError) : Prop where
  inDepth : error.cause ≠ .exhausted
  inRange : error.cause ≠ .outOfRange
  placed : ∃ token ∈ tokens, error.pos = token.pos

theorem ParseError.covers_fair {tokens : List Token}
    (symbols : ∀ token ∈ tokens, token.kind = .symbol → token.text.isEmpty = false) :
    ParseError.Covers tokens (ParseError.Fair tokens) where
  source mem inDepth inRange := ⟨inDepth, inRange, _, mem, rfl⟩
  unnamed mem isSymbol empty := by
    rw [symbols _ mem isSymbol] at empty
    cases empty

/-! ## Sources -/

/-- The tokens of a source are refused only for a reason that lies in the source. -/
theorem Tokens.fair_of_parse {source : String} {tokens : Tokens} {error : ParseError}
    (lexed : Tokens.ofSource source = .ok tokens) (refused : tokens.parse = .error error) :
    error.Fair tokens.toList := by
  have within := ParseState.Within.start (Tokens.close_of_source lexed)
    (ParseError.covers_fair (Tokens.named_of_symbol lexed))
  have agree := Rules.agree_ofDepth (ParseError.Fair tokens.toList) tokens.toList
    (Nat.le_refl (tokens.body.length + 1)) (Nat.le_refl _)
  exact (Parse.agree_program agree within).permits error (ParseM.run'_error.1 refused)

/-- A source has no tree because a lexeme cannot be read, or because its tokens are refused for a
reason that lies in the source. -/
theorem Node.ofSource_error_iff {source : String} {error : SourceError} :
    Node.ofSource source = .error error ↔
      (∃ cause, Tokens.ofSource source = .error cause ∧ error = .lex cause) ∨
        ∃ tokens cause, Tokens.ofSource source = .ok tokens ∧ tokens.parse = .error cause ∧
          cause.Fair tokens.toList ∧ error = .parse cause := by
  unfold Node.ofSource
  cases lexed : Tokens.ofSource source with
  | error cause => simp [eq_comm]
  | ok tokens =>
      cases parsed : tokens.parse with
      | error cause => simp [parsed, Tokens.fair_of_parse lexed parsed, eq_comm]
      | ok tree => simp [parsed]

/-- A document cannot be written exactly if it has a break whose blanks cannot be counted. -/
theorem Doc.widthError?_eq_some_iff {width : Int} {doc : Doc} {error : WidthError} :
    doc.widthError? width = some error ↔
      error = .notCountable ∧ ∃ level, Piece.newline level ∈ doc.pieces 0 true ∧
        ¬ (-2 ^ 63 ≤ width * level ∧ width * level < 2 ^ 63) := by
  constructor
  · intro refused
    obtain ⟨piece, mem, found⟩ := List.exists_of_findSome?_eq_some refused
    cases piece with
    | text value => cases found
    | newline level =>
        refine ⟨error.eq_notCountable, level, mem, fun within => ?_⟩
        rw [Piece.widthError?_eq_none_iff.2 within] at found
        cases found
  · rintro ⟨rfl, level, mem, tooWide⟩
    cases found : doc.widthError? width with
    | none =>
        have written := List.findSome?_eq_none_iff.1 found _ mem
        exact absurd (Piece.widthError?_eq_none_iff.1 written) tooWide
    | some error => rw [error.eq_notCountable]

/-- Formatting fails where the source has no tree, or where its layout cannot be written. -/
theorem format_eq_error {options : Options} {source : String} {error : FormatError} :
    format options source = .error error ↔
      (Pragmas.ofSource source).skip = false ∧
        ((∃ cause, Node.ofSource source = .error cause ∧ error = .source cause) ∨
          ∃ tree cause, Node.ofSource source = .ok tree ∧
            (tree.layout ((Pragmas.ofSource source).apply options) []).widthError?
              options.indentWidth = some cause ∧ error = .width cause) := by
  cases skips : (Pragmas.ofSource source).skip with
  | true => simp [format, skips]
  | false =>
      cases parsed : Node.ofSource source with
      | error cause => simp [format, skips, Doc.ofSource, parsed, eq_comm]
      | ok tree =>
          rw [format_eq options source skips parsed, Doc.write]
          cases refused : (tree.layout ((Pragmas.ofSource source).apply options) []).widthError?
            options.indentWidth with
          | none => simp [refused, Except.mapError]
          | some cause =>
              constructor
              · rintro ⟨⟩
                exact ⟨rfl, .inr ⟨tree, cause, rfl, refused, rfl⟩⟩
              · rintro ⟨-, ⟨_, ⟨⟩, _⟩ | ⟨_, _, ⟨⟩, found, rfl⟩⟩
                rw [refused] at found
                cases found
                rfl

/--
Formatting fails in three ways only: a lexeme cannot be read; the tokens are refused, for a reason
that lies in the source and at the place of one of them; or some break of the layout would take a
number of blanks that does not fit into a word.  No tree of a source has a fault.
-/
theorem format_error_iff (options : Options) (source : String) (error : FormatError) :
    format options source = .error error ↔
      (Pragmas.ofSource source).skip = false ∧
        ((∃ cause, Tokens.ofSource source = .error cause ∧ error = .source (.lex cause)) ∨
          (∃ tokens cause, Tokens.ofSource source = .ok tokens ∧ tokens.parse = .error cause ∧
            cause.Fair tokens.toList ∧ error = .source (.parse cause)) ∨
          ∃ tree level, Node.ofSource source = .ok tree ∧
            Piece.newline level ∈
              (tree.layout ((Pragmas.ofSource source).apply options) []).pieces 0 true ∧
            ¬ (-2 ^ 63 ≤ options.indentWidth * level ∧ options.indentWidth * level < 2 ^ 63) ∧
            error = .width .notCountable) := by
  rw [format_eq_error]
  refine and_congr_right fun _ => ?_
  constructor
  · rintro (⟨_, refused, rfl⟩ | ⟨tree, cause, parsed, refused, rfl⟩)
    · rcases Node.ofSource_error_iff.1 refused with
        ⟨cause, lexed, rfl⟩ | ⟨tokens, cause, lexed, rejected, fair, rfl⟩
      · exact .inl ⟨cause, lexed, rfl⟩
      · exact .inr (.inl ⟨tokens, cause, lexed, rejected, fair, rfl⟩)
    · obtain ⟨rfl, level, mem, tooWide⟩ := Doc.widthError?_eq_some_iff.1 refused
      exact .inr (.inr ⟨tree, level, parsed, mem, tooWide, rfl⟩)
  · rintro (⟨cause, lexed, rfl⟩ | ⟨tokens, cause, lexed, refused, fair, rfl⟩ |
      ⟨tree, level, parsed, mem, tooWide, rfl⟩)
    · exact .inl ⟨_, Node.ofSource_error_iff.2 (.inl ⟨cause, lexed, rfl⟩), rfl⟩
    · exact .inl ⟨_, Node.ofSource_error_iff.2
        (.inr ⟨tokens, cause, lexed, refused, fair, rfl⟩), rfl⟩
    · exact .inr ⟨tree, _, parsed, Doc.widthError?_eq_some_iff.2 ⟨rfl, level, mem, tooWide⟩, rfl⟩

/-- An indentation that is far too small is refused as well, though no blank would be written. -/
theorem format_countless_indentation :
    format ⟨false, -(2 ^ 63 + 1)⟩ "foo do\n  x\nend\n" = .error (.width .notCountable) := by
  decide +kernel

end RubyFormat
