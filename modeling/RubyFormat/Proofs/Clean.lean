import Mathlib.Control.Monad.Basic
import RubyFormat.Proofs.Firm
import RubyFormat.Proofs.Scanned

/-!
# Formatted text is clean

A clean text is empty or ends with exactly one line break, and its lines are not blank and do not end
with white space.  Every token of a source is firm: a comment has lost the white space at its end, a
string has no line break in it, and the lines inside a regular expression end with backslashes.  The
tree of the source is therefore laid out firmly, statement by statement, and the text that is written
is clean for all options.
-/

namespace RubyFormat

/-! ## Tokens are firm -/

namespace Text

theorem ne_break_of_solid {c : Char} (solid : isBlank c = false) : c ≠ '\n' := by
  rintro rfl
  cases solid

theorem firm_of_solid {text : List Char} (some : text ≠ []) (solid : Solid text) : Firm text := by
  induction text with
  | nil => exact absurd rfl some
  | cons c rest ih =>
      obtain ⟨first, others⟩ := List.forall_mem_cons.1 solid
      rw [Firm, lineEnd?_cons (ne_break_of_solid first), first]
      cases rest with
      | nil => rfl
      | cons d rest => exact (ih (List.cons_ne_nil _ _) others).follows true

/-- A text without line breaks is firm if it ends with ink. -/
theorem firm_of_last {text : List Char} {last : Char} (single : '\n' ∉ text)
    (ends : text.getLast? = some last) (solid : isBlank last = false) : Firm text := by
  induction text with
  | nil => cases ends
  | cons c rest ih =>
      obtain ⟨noBreak, others⟩ := not_or.1 (mt List.mem_cons.2 single)
      cases rest with
      | nil =>
          obtain rfl : c = last := by simpa using ends
          rw [Firm, lineEnd?_cons (Ne.symm noBreak), solid]
          rfl
      | cons d rest => exact (ih others (by simpa using ends)).cons (Ne.symm noBreak)

/-- What is left of a trimmed text ends with ink. -/
theorem solid_of_trimRight {text : List Char} {last : Char}
    (ends : (trimRight text).getLast? = some last) : isBlank last = false := by
  rw [trimRight, List.getLast?_reverse] at ends
  simpa [ends] using List.head?_dropWhile_not isBlank text.reverse

theorem firm_of_comment {line : List Char} (single : '\n' ∉ line) :
    Firm (trimRight ('#' :: line)) := by
  have whole := trimRight_cons (show isBlank '#' = false by decide) line
  obtain ⟨blanks, same, -⟩ := exists_trimRight ('#' :: line)
  have noBreak : '\n' ∉ trimRight ('#' :: line) := by
    intro mem
    have inLine : '\n' ∈ '#' :: line := same ▸ List.mem_append_left blanks mem
    simp [single] at inLine
  cases ends : (trimRight ('#' :: line)).getLast? with
  | none =>
      rw [List.getLast?_eq_none_iff, whole] at ends
      cases ends
  | some last => exact firm_of_last noBreak ends (solid_of_trimRight ends)

end Text

namespace Lexeme

open Text (Firm)

/-- The lines inside a regular expression end with backslashes, and none of them is empty. -/
theorem firm_of_regexpLength? {length : Nat} {text : List Char}
    (found : regexpLength? text = some length) : Firm (text.take length) := by
  fun_induction regexpLength? text generalizing length with
  | case1 | case2 | case5 => cases found
  | case3 c rest ih =>
      obtain ⟨inner, isInner, rfl⟩ := Option.map_eq_some_iff.1 found
      rw [List.take_succ_cons, List.take_succ_cons, Firm, Text.lineEnd?_cons (by decide)]
      have solid : (!Text.isBlank '\\') = true := by decide
      rw [solid, Text.lineEnd?]
      simpa using (ih isInner).follows _
  | case4 rest =>
      cases found
      have flags : Text.Solid (rest.take (rest.takeWhile isRegexpFlag).length) := by
        refine Text.solid_take_takeWhile (fun c isFlag => ?_) rest
        simp only [isRegexpFlag, Bool.or_eq_true, beq_iff_eq] at isFlag
        rcases isFlag with ((rfl | rfl) | rfl) | rfl <;> decide
      rw [Nat.add_comm, List.take_succ_cons]
      exact Text.firm_of_solid (List.cons_ne_nil _ _) (flags.cons (by decide))
  | case6 c rest _ _ _ noBreak ih =>
      obtain ⟨inner, isInner, rfl⟩ := Option.map_eq_some_iff.1 found
      rw [List.take_succ_cons]
      exact (ih isInner).cons noBreak

/-- A lexeme is firm. -/
theorem firm_of_find {previous : Option Token} {first : Char} {text : List Char} {lexeme : Lexeme}
    (found : find previous first text = .ok lexeme) : Firm (first :: text.take lexeme.extra) := by
  obtain ⟨kind, extra⟩ := lexeme
  rcases solid_or_of_find found with solid | ⟨quote, isString⟩ | ⟨rfl, isRegexp⟩
  · exact Text.firm_of_solid (List.cons_ne_nil _ _) solid
  · obtain ⟨closes, single, -⟩ := string_eq_ok.1 isString
    have solid : Text.isBlank first = false := by rcases quote with rfl | rfl <;> decide
    refine Text.firm_of_last ?_ ?_ solid
    · have noBreak : '\n' ∉ text.take extra := by simpa using single
      simp [noBreak, (Text.ne_break_of_solid solid).symm]
    · rw [List.getLast?_cons, getLast?_of_stringLength? closes]
      rfl
  · exact (firm_of_regexpLength? (regexp_eq_ok.1 isRegexp).1).cons (by decide)

/-- The text of a lexeme is firm, also that of a symbol without its colon. -/
theorem firm_text_of_find {previous : Option Token} {first : Char} {body rest : List Char}
    {kind : TokenKind} (found : find previous first (body ++ rest) = .ok ⟨kind, body.length⟩) :
    Firm (Lexeme.text ⟨kind, body.length⟩ first body).toList := by
  unfold Lexeme.text
  split
  next isSymbol =>
    obtain rfl : kind = .symbol := isSymbol
    obtain ⟨-, symbol⟩ := symbol?_of_find found
    have solid := solid_symbol? symbol
    rw [List.take_left] at solid
    rw [String.toList_ofList, List.take_length]
    exact Text.firm_of_solid (List.length_pos_iff.1 (symbol?_bounds symbol).1) solid
  next =>
    have firm := firm_of_find found
    rw [List.take_left] at firm
    rwa [String.toList_ofList, List.take_length]

end Lexeme

namespace Tokens

theorem Scanned.firm {previous : Option Token} {pos : Pos} {spaced : Bool} {text left : List Char}
    {tokens : Tokens} (scanned : Scanned previous pos spaced text tokens left) :
    ∀ token ∈ tokens.body, token.kind ≠ .newline → Text.Firm token.text.toList := by
  induction scanned with
  | done | mark => exact nofun
  | gap _ _ ih | continued _ ih => exact ih
  | newline _ ih => exact List.forall_mem_cons.2 ⟨fun noBreak => absurd rfl noBreak, ih⟩
  | comment single _ _ ih =>
      refine List.forall_mem_cons.2 ⟨fun _ => ?_, ih⟩
      rw [Token.ofComment, String.toList_ofList]
      exact Text.firm_of_comment single
  | lexeme _ found _ ih => exact List.forall_mem_cons.2 ⟨fun _ => Lexeme.firm_text_of_find found, ih⟩

end Tokens

/-- The tree of a source is shaped and has firm texts. -/
theorem Node.printable_of_source {source : String} {tree : Node}
    (parsed : Node.ofSource source = .ok tree) : tree.Printable := by
  obtain ⟨tokens, lexed, ran⟩ := tokens_of_source parsed
  obtain ⟨left, scanned⟩ := Tokens.exists_scanned lexed
  exact ⟨wellShaped_of_source parsed, allTexts_of_parse lexed ran scanned.firm⟩

/-! ## Clean texts -/

namespace Text

/-- A text of which the lines are complete, not blank, and without white space at their ends.  What
stands behind the last line break is no line. -/
structure Clean (text : List Char) : Prop where
  ended : text = [] ∨ ∃ front last, text = front ++ [last, '\n'] ∧ last ≠ '\n'
  filled : ∀ line ∈ (lines text).dropLast, ∃ c ∈ line, isBlank c = false
  trimmed : ∀ line ∈ lines text, trimRight line = line

theorem Firm.exists_last {text : List Char} (firm : Firm text) :
    ∃ front last, text = front ++ [last] ∧ isBlank last = false := by
  rcases List.eq_nil_or_concat text with rfl | ⟨front, last, rfl⟩
  · cases firm
  · refine ⟨front, last, by simp, ?_⟩
    rw [Firm, List.concat_eq_append, lineEnd?_append] at firm
    cases before : lineEnd? false front with
    | none => simp [before] at firm
    | some inked =>
        rw [before, Option.bind_some, lineEnd?] at firm
        split at firm
        · cases firm
        · simpa [lineEnd?] using firm

theorem trimRight_of_solid {front : List Char} {last : Char} (solid : isBlank last = false) :
    trimRight (front ++ [last]) = front ++ [last] := by
  simp [trimRight, solid]

/-- The first line of a text goes on with the line before it, and the others are firm. -/
theorem lines_of_lineEnd? {inked : Bool} {text : List Char}
    (ends : lineEnd? inked text = some true) :
    ∃ first others, lines text = first :: others ∧ lineEnd? inked first = some true ∧
      ∀ line ∈ others, Firm line := by
  induction text generalizing inked with
  | nil => exact ⟨[], [], rfl, ends, nofun⟩
  | cons c rest ih =>
      by_cases isBreak : c = '\n'
      · subst isBreak
        rw [lines_break]
        cases inked with
        | false => cases ends
        | true =>
            obtain ⟨first, others, all, own, firm⟩ := ih ends
            exact ⟨[], lines rest, rfl, rfl, all ▸ List.forall_mem_cons.2 ⟨own, firm⟩⟩
      · rw [lineEnd?_cons isBreak] at ends
        obtain ⟨first, others, all, own, firm⟩ := ih ends
        obtain ⟨piece, more, restLines, allLines⟩ := @lines_cons c rest isBreak
        obtain ⟨rfl, rfl⟩ := List.cons.inj (all.symm.trans restLines)
        exact ⟨c :: first, others, allLines, by rw [lineEnd?_cons isBreak, own], firm⟩

/-- The lines of a firm text are firm. -/
theorem Firm.each_line {text : List Char} (firm : Firm text) : ∀ line ∈ lines text, Firm line := by
  obtain ⟨first, others, all, own, more⟩ := lines_of_lineEnd? firm
  rw [all]
  exact List.forall_mem_cons.2 ⟨own, more⟩

theorem lines_complete (text : List Char) : lines (text ++ ['\n']) = lines text ++ [[]] := by
  induction text with
  | nil => rfl
  | cons c rest ih =>
      by_cases isBreak : c = '\n'
      · subst isBreak
        rw [List.cons_append, lines_break, lines_break, ih]
        rfl
      · obtain ⟨first, others, restLines, allLines⟩ := @lines_cons c rest isBreak
        obtain ⟨piece, more, longer, all⟩ := @lines_cons c (rest ++ ['\n']) isBreak
        rw [ih, restLines] at longer
        obtain ⟨rfl, rfl⟩ := List.cons.inj longer
        rw [List.cons_append, all, allLines]
        rfl

theorem clean_nil : Clean [] where
  ended := .inl rfl
  filled := nofun
  trimmed := by simp [lines, cut, trimRight]

/-- A firm text with a line break behind it is clean. -/
theorem Firm.clean {text : List Char} (firm : Firm text) : Clean (text ++ ['\n']) where
  ended := by
    obtain ⟨front, last, rfl, solid⟩ := firm.exists_last
    exact .inr ⟨front, last, by simp, ne_break_of_solid solid⟩
  filled := by
    rw [lines_complete, List.dropLast_concat]
    intro line mem
    obtain ⟨front, last, rfl, solid⟩ := (firm.each_line line mem).exists_last
    exact ⟨last, by simp, solid⟩
  trimmed := by
    rw [lines_complete]
    intro line mem
    rcases List.mem_append.1 mem with mem | mem
    · obtain ⟨front, last, rfl, solid⟩ := (firm.each_line line mem).exists_last
      exact trimRight_of_solid solid
    · obtain rfl := List.mem_singleton.1 mem
      rfl

/-- A firm text is trimmed. -/
theorem isTrimmed_of_lineEnd? {inked : Bool} {text : List Char}
    (ends : lineEnd? inked text = some true) : isTrimmed text = true := by
  induction text generalizing inked with
  | nil => rfl
  | cons c rest ih =>
      rw [isTrimmed, Bool.and_eq_true]
      by_cases isBreak : c = '\n'
      · subst isBreak
        cases inked with
        | false => cases ends
        | true => exact ⟨rfl, ih ends⟩
      · rw [lineEnd?_cons isBreak] at ends
        refine ⟨?_, ih ends⟩
        cases blank : isBlank c with
        | false => simp
        | true =>
            -- behind white space there is more on the line
            rw [blank] at ends
            cases rest with
            | nil => cases ends
            | cons d rest =>
                have next : d ≠ '\n' := by
                  rintro rfl
                  cases ends
                simp [next]

end Text

/-! ## The text of a source -/

/-- The characters of a program are none, or a firm text with a line break behind it. -/
theorem Node.Printable.chars_program {options : Options} {pos : Pos} {stmts : List Node}
    (printable : (Node.program pos stmts).Printable) (width : Int) :
    ((Node.program pos stmts).layout options []).chars width 0 true = [] ∨
      ∃ front, ((Node.program pos stmts).layout options []).chars width 0 true = front ++ ['\n'] ∧
        Text.Firm front := by
  have here := (wellShaped_iff.1 printable.shaped).1
  simp only [Node.shaped, List.all_eq_true] at here
  have each : ∀ doc ∈ layoutList options [.program pos stmts] stmts, doc.Firm := by
    refine Settled.listOfRole (fun stmt mem => ?_) (fun stmt mem => ?_) _
    · exact (printable.child (by simpa [children, fields, Field.toList] using mem)).settled
    · simp [hasRole, here stmt mem]
  simp only [layout, Layout.program]
  split
  · exact .inl (by simp)
  next some =>
    have firm := Layout.firm_stmts (by simpa using some) each
    refine .inr ⟨_, ?_, firm width 0 true⟩
    simp [Doc.hardLine]

/-- Formatted text is clean, whatever the options are. -/
theorem clean_of_format {options : Options} {source text : String}
    (formatted : format options source = .ok text)
    (formats : (Pragmas.ofSource source).skip = false) : Text.Clean text.toList := by
  cases parsed : Node.ofSource source with
  | error error => simp [format, formats, Doc.ofSource, parsed] at formatted
  | ok tree =>
      have printable := Node.printable_of_source parsed
      rw [format_eq options source formats parsed, Doc.write] at formatted
      split at formatted
      · cases formatted
      next =>
        obtain rfl := Except.ok.inj formatted
        obtain ⟨tokens, -, ran⟩ := Node.tokens_of_source parsed
        obtain ⟨s, reads⟩ := Reads.of_parse ran
        cases reads with
        | program =>
            rcases printable.chars_program options.indentWidth with none | ⟨front, all, firm⟩
            · rw [Doc.render_eq_chars (by rw [none]; rfl), none]
              exact Text.clean_nil
            · have trimmed : Text.isTrimmed (front ++ ['\n']) = true :=
                Text.isTrimmed_append (Text.isTrimmed_of_lineEnd? firm) rfl
              rw [Doc.render_eq_chars (by rw [all]; exact trimmed), all]
              exact firm.clean

/-- Blank lines, white space behind a comment, a broken regular expression and a collapsed block, with
a negative width. -/
theorem clean_of_format_narrow :
    let source := "a # b \t\n\n \nc.d \x7b |e| e.f \x7d\ng do\n\n  @h = /\\\n /\nrescue\n  \nend\n\n"
    let printed := "a # b\nc.d(&:f)\ng do\n@h = /\\\n /\nrescue\nend\n"
    ∃ text, format ⟨true, -1⟩ source = .ok text ∧ text = printed ∧ Text.Clean text.toList := by
  intro source printed
  have formatted : format ⟨true, -1⟩ source = .ok printed := by decide +kernel
  exact ⟨_, formatted, rfl, clean_of_format formatted (by decide +kernel)⟩

end RubyFormat
