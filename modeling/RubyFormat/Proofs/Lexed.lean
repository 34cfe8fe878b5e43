import RubyFormat.Proofs.Relex

/-!
# The tokens of a source

Every token of a source is a line break, a comment, or a lexeme that was found behind the token
before it.  A lexeme stays within the text it is found in, and a symbol has a name.  Each token
stands behind the one before it.
-/

namespace RubyFormat

namespace Lexeme

variable {text : List Char}

/-! ## Lexemes stay within their text -/

theorem nameLength_le (text : List Char) : nameLength text ≤ text.length :=
  (List.takeWhile_sublist _).length_le

theorem digitsLength_le (text : List Char) : digitsLength text ≤ text.length :=
  (List.takeWhile_sublist _).length_le

theorem fractionLength_le (text : List Char) : fractionLength text ≤ text.length := by
  unfold fractionLength
  split
  next digit rest =>
    split
    · have inner := digitsLength_le (digit :: rest)
      simp only [List.length_cons] at inner ⊢
      omega
    · exact Nat.zero_le _
  · exact Nat.zero_le _

theorem signLength_le (text : List Char) : signLength text ≤ text.length := by
  unfold signLength
  split
  · split
    · exact Nat.succ_le_succ (Nat.zero_le _)
    · exact Nat.zero_le _
  · exact Nat.le_refl _

theorem exponentLength?_le {length : Nat} (found : exponentLength? text = some length) :
    length ≤ text.length := by
  cases text with
  | nil =>
      cases found
      exact Nat.le_refl _
  | cons mark text =>
      by_cases isMark : mark = 'e' ∨ mark = 'E'
      · obtain ⟨rfl, -⟩ := (exponentLength?_eq_some isMark).1 found
        have sign := signLength_le text
        have digits :=
          (List.takeWhile_sublist (l := text.drop (signLength text)) Char.isDigit).length_le
        rw [List.length_drop] at digits
        rw [List.length_cons]
        omega
      · rw [exponentLength?_of_not isMark] at found
        cases found
        exact Nat.zero_le _

theorem number_le {kind : TokenKind} {length : Nat} (found : number text = .ok ⟨kind, length⟩) :
    length ≤ text.length := by
  obtain ⟨_, exponent, rfl, isExponent, -, rfl⟩ := number_eq_ok.1 found
  have whole := digitsLength_le text
  have fraction := fractionLength_le (text.drop (digitsLength text))
  have last := exponentLength?_le isExponent
  rw [List.length_drop] at fraction last
  omega

theorem stringLength?_le {quote : Char} {depth length : Nat}
    (found : stringLength? quote depth text = some length) : length ≤ text.length := by
  fun_induction stringLength? quote depth text generalizing length with
  | case1 | case2 => cases found
  | case7 =>
      cases found
      exact Nat.succ_le_succ (Nat.zero_le _)
  | _ =>
      rename_i ih
      obtain ⟨inner, isInner, rfl⟩ := Option.map_eq_some_iff.1 found
      have within := ih isInner
      simp only [List.length_cons] at within ⊢
      omega

theorem regexpLength?_le {length : Nat} (found : regexpLength? text = some length) :
    length ≤ text.length := by
  fun_induction regexpLength? text generalizing length with
  | case1 | case2 | case5 => cases found
  | case4 rest =>
      cases found
      have flags := (List.takeWhile_sublist (l := rest) isRegexpFlag).length_le
      rw [List.length_cons]
      omega
  | _ =>
      rename_i ih
      obtain ⟨inner, isInner, rfl⟩ := Option.map_eq_some_iff.1 found
      have within := ih isInner
      simp only [List.length_cons] at within ⊢
      omega

theorem sigilName_le {sigil : Char} {kind : TokenKind} {length : Nat}
    (found : sigilName sigil text = .ok ⟨kind, length⟩) : length ≤ text.length := by
  rw [sigilName_eq_ok] at found
  split at found
  next isClass =>
    obtain ⟨-, -, rfl⟩ := found
    have name := nameLength_le (text.drop 1)
    rw [List.length_drop] at name
    cases text with
    | nil => cases isClass.2
    | cons first rest =>
        simp only [List.length_cons] at name ⊢
        omega
  · obtain ⟨-, -, rfl⟩ := found
    exact nameLength_le text

theorem symbolMark_le (text : List Char) : symbolMark text ≤ text.length := by
  unfold symbolMark
  split
  · exact Nat.le_refl _
  · dsimp only
    split
    · exact Nat.succ_le_succ (Nat.zero_le _)
    · exact Nat.zero_le _

theorem nameMark_le (text : List Char) : nameMark text ≤ text.length := by
  unfold nameMark
  split
  · exact Nat.le_refl _
  · split
    · exact Nat.succ_le_succ (Nat.zero_le _)
    · exact Nat.zero_le _

theorem wordLength_le (text : List Char) : wordLength text ≤ text.length := by
  have name := nameLength_le text
  have mark := nameMark_le (text.drop (nameLength text))
  rw [List.length_drop] at mark
  unfold wordLength
  omega

theorem word_le (previous : Option Token) (first : Char) (text : List Char) :
    (word previous first text).extra ≤ text.length := by
  have within := wordLength_le text
  rw [word_eq]
  split
  next isLabel =>
    have more : text.drop (wordLength text) ≠ [] := by
      intro none
      rw [none] at isLabel
      cases isLabel
    have shorter := List.length_pos_iff.2 more
    rw [List.length_drop] at shorter
    exact Nat.lt_of_sub_pos shorter
  · exact within

/-- One of the operators that a text starts with is not longer than the text. -/
theorem length_le_of_find? {operators : List String} {operator : String}
    (found : (operators.find? fun operator => operator.toList.isPrefixOf text) = some operator) :
    operator.length ≤ text.length := by
  have starts := List.find?_some found
  rw [List.isPrefixOf_iff_prefix] at starts
  exact starts.length_le

theorem operator_le {first : Char} {lexeme : Lexeme} (found : operator first text = .ok lexeme) :
    lexeme.extra ≤ text.length := by
  unfold operator at found
  split at found
  next isLongest =>
    cases found
    have within := length_le_of_find? isLongest
    rw [List.length_cons] at within
    exact Nat.sub_le_of_le_add within
  · split at found <;> cases found
    exact Nat.zero_le _

/-- A symbol takes at least one character and stays within its text. -/
theorem symbol?_bounds {previous : Option Token} {lexeme : Lexeme}
    (found : symbol? previous text = some lexeme) :
    0 < lexeme.extra ∧ lexeme.extra ≤ text.length := by
  have long : ∀ operator ∈ symbolOperators, 0 < operator.length := by decide
  unfold symbol? at found
  split at found
  · cases found
  next first rest =>
    split at found
    · cases found
    · split at found
      next start =>
        cases found
        have name := nameLength_le (first :: rest)
        have mark := symbolMark_le ((first :: rest).drop (nameLength (first :: rest)))
        have some : 0 < nameLength (first :: rest) := by simp [nameLength, isNameChar, start]
        rw [List.length_drop] at mark
        dsimp only
        omega
      · split at found
        · cases found
        · obtain ⟨operator, isFirst, rfl⟩ := Option.map_eq_some_iff.1 found
          exact ⟨long operator (List.mem_of_find?_eq_some isFirst), length_le_of_find? isFirst⟩

/-- A lexeme stays within the text it is found in. -/
theorem find_le {previous : Option Token} {first : Char} {lexeme : Lexeme}
    (found : find previous first text = .ok lexeme) : lexeme.extra ≤ text.length := by
  obtain ⟨kind, extra⟩ := lexeme
  unfold find at found
  split at found
  · exact number_le found
  split at found
  · exact stringLength?_le (string_eq_ok.1 found).1
  split at found
  · exact sigilName_le found
  split at found
  · split at found
    next isSymbol =>
      cases found
      exact (symbol?_bounds isSymbol).2
    · exact operator_le found
  split at found
  · exact regexpLength?_le (regexp_eq_ok.1 found).1
  unfold wordOrOperator at found
  split at found
  · have within := word_le previous first text
    rw [Except.ok.inj found] at within
    exact within
  · exact operator_le found

/-! ## Kinds -/

theorem kind_of_wordOrOperator {previous : Option Token} {first : Char} {lexeme : Lexeme}
    (found : wordOrOperator previous first text = .ok lexeme) :
    lexeme.kind = .label ∨ lexeme.kind = .keyword ∨ lexeme.kind = .const ∨ lexeme.kind = .ident ∨
      lexeme.kind = .op := by
  unfold wordOrOperator at found
  split at found
  · cases found
    rw [word_eq]
    split
    · exact .inl rfl
    · unfold wordKind
      split
      · exact .inr (.inl rfl)
      · split
        · exact .inr (.inr (.inl rfl))
        · exact .inr (.inr (.inr (.inl rfl)))
  · exact .inr (.inr (.inr (.inr (kind_of_operator found))))

/-- A symbol is only found behind a colon, with a name or an operator. -/
theorem symbol?_of_find {previous : Option Token} {first : Char} {extra : Nat}
    (found : find previous first text = .ok ⟨.symbol, extra⟩) :
    first = ':' ∧ symbol? previous text = some ⟨.symbol, extra⟩ := by
  unfold find at found
  split at found
  · rcases kind_of_number found with same | same <;> cases same
  split at found
  · cases (string_eq_ok.1 found).2.2
  split at found
  · rcases kind_of_sigilName found with same | same | same <;> cases same
  split at found
  next colon =>
    split at found
    next isSymbol =>
      cases found
      exact ⟨colon, isSymbol⟩
    · cases kind_of_operator found
  split at found
  · cases (regexp_eq_ok.1 found).2
  rcases kind_of_wordOrOperator found with same | same | same | same | same <;> cases same

/-- A lexeme is no line break, no comment and not the end of a source. -/
theorem kind_notMem_of_find {previous : Option Token} {first : Char} {lexeme : Lexeme}
    (found : find previous first text = .ok lexeme) :
    lexeme.kind ∉ [.newline, .comment, .eof] := by
  unfold find at found
  split at found
  · rcases kind_of_number found with same | same <;> rw [same] <;> decide
  split at found
  · rw [(string_eq_ok.1 found).2.2]
    decide
  split at found
  · rcases kind_of_sigilName found with same | same | same <;> rw [same] <;> decide
  split at found
  · split at found
    next isSymbol =>
      cases found
      rw [kind_of_symbol? isSymbol]
      decide
    · rw [kind_of_operator found]
      decide
  split at found
  · rw [(regexp_eq_ok.1 found).2]
    decide
  rcases kind_of_wordOrOperator found with same | same | same | same | same <;> rw [same] <;> decide

end Lexeme

/-! ## Tokens -/

/-- One place comes before another in a source. -/
def Pos.Before (pos later : Pos) : Prop :=
  pos.line < later.line ∨ pos.line = later.line ∧ pos.col < later.col

theorem Pos.Before.trans {pos later last : Pos} (first : pos.Before later)
    (second : later.Before last) : pos.Before last := by
  unfold Pos.Before at *
  omega

theorem Pos.Before.ne {pos later : Pos} (before : pos.Before later) : pos ≠ later := by
  rintro rfl
  unfold Pos.Before at before
  omega

theorem Pos.before_right (pos : Pos) (count : Nat) : pos.Before (pos.right (count + 1)) :=
  .inr ⟨rfl, Nat.lt_add_of_pos_right (Nat.succ_pos _)⟩

theorem Pos.before_nextLine (pos : Pos) : pos.Before pos.nextLine :=
  .inl (Nat.lt_succ_self _)

/-- A token that can stand in a source behind another: a line break, a comment or a lexeme. -/
def Token.LexedAfter (previous : Option Token) (token : Token) : Prop :=
  token.kind = .newline ∧ token.text = "\n" ∨ token.kind = .comment ∨
    ∃ first body rest, Lexeme.find previous first (body ++ rest) = .ok ⟨token.kind, body.length⟩ ∧
      token.text = Lexeme.text ⟨token.kind, body.length⟩ first body

namespace Tokens

variable {text : List Char} {tokens : Tokens}

theorem map_cons_ok {token : Token} {found : Except LexError Tokens}
    (ran : found.map (cons token) = .ok tokens) :
    ∃ rest, found = .ok rest ∧ tokens = rest.cons token := by
  cases found with
  | error error => cases ran
  | ok rest => exact ⟨rest, rfl, (Except.ok.inj ran).symm⟩

/-- What holds of the closing token alone, and is carried back over gaps and over each token that
is made, holds of all tokens of a text. -/
theorem scan_induction {motive : Option Token → Pos → Tokens → Prop}
    (close : ∀ {previous pos spaced}, motive previous pos ⟨[], ⟨.eof, "", pos, spaced⟩⟩)
    (gap : ∀ {previous pos later tokens}, pos.Before later → motive previous later tokens →
      motive previous pos tokens)
    (made : ∀ {previous} (token) {later tokens}, token.LexedAfter previous → token.pos.Before later →
      motive (some token) later tokens → motive previous token.pos (tokens.cons token))
    {inside : Nat} {previous : Option Token} {pos : Pos} {spaced : Bool}
    (ran : scan inside previous pos spaced text = .ok tokens) : motive previous pos tokens := by
  induction text generalizing inside previous pos spaced tokens with
  | nil =>
      cases ran
      exact close
  | cons first tail ih =>
      unfold scan at ran
      split at ran
      · exact ih ran
      split at ran
      next =>
        obtain ⟨rest, inner, rfl⟩ := map_cons_ok ran
        exact made ⟨.newline, "\n", pos, spaced⟩ (.inl ⟨rfl, rfl⟩) pos.before_nextLine (ih inner)
      split at ran
      · exact gap (pos.before_right 0) (ih ran)
      split at ran
      · exact gap pos.before_nextLine (ih ran)
      split at ran
      · obtain ⟨rest, inner, rfl⟩ := map_cons_ok ran
        exact made ⟨.comment, _, pos, spaced⟩ (.inr (.inl rfl)) (pos.before_right _) (ih inner)
      split at ran
      · cases ran
        exact close
      split at ran
      · cases ran
      next lexeme found =>
        obtain ⟨rest, inner, rfl⟩ := map_cons_ok ran
        have within := List.length_take_of_le (Lexeme.find_le found)
        refine made ⟨lexeme.kind, lexeme.text first tail, pos, spaced⟩
          (.inr (.inr ⟨first, tail.take lexeme.extra, tail.drop lexeme.extra, ?_, ?_⟩))
          (pos.before_right _) (ih inner)
        · rw [List.take_append_drop, within]
          exact found
        · unfold Lexeme.text
          rw [within, List.take_take, Nat.min_self]

/-- The tokens of a text, each of which can stand behind the one before it. -/
def lexedAfter : Option Token → List Token → Prop
  | _, [] => True
  | previous, token :: rest => token.LexedAfter previous ∧ lexedAfter (some token) rest

theorem lexedAfter_of_source {source : String} (lexed : ofSource source = .ok tokens) :
    lexedAfter none tokens.body := by
  refine scan_induction (motive := fun previous _ tokens => lexedAfter previous tokens.body)
    ?_ ?_ ?_ lexed
  · intro previous pos spaced
    trivial
  · intro previous pos later tokens _ rest
    exact rest
  · intro previous token later tokens found _ rest
    exact ⟨found, rest⟩

theorem close_of_source {source : String} (lexed : ofSource source = .ok tokens) :
    tokens.close.kind = .eof := by
  refine scan_induction (motive := fun _ _ tokens => tokens.close.kind = .eof) ?_ ?_ ?_ lexed
  · intro previous pos spaced
    rfl
  · intro previous pos later tokens _ rest
    exact rest
  · intro previous token later tokens _ _ rest
    exact rest

/-- Each token of a source stands before all tokens behind it. -/
theorem pairwise_before {source : String} (lexed : ofSource source = .ok tokens) :
    tokens.toList.Pairwise fun token later => token.pos.Before later.pos := by
  let ordered (pos : Pos) (tokens : Tokens) : Prop :=
    (∀ token ∈ tokens.toList, pos = token.pos ∨ pos.Before token.pos) ∧
      tokens.toList.Pairwise fun token later => token.pos.Before later.pos
  suffices all : ordered Pos.start tokens from all.2
  refine scan_induction (motive := fun _ pos tokens => ordered pos tokens) ?_ ?_ ?_ lexed
  · intro previous pos spaced
    simp [ordered, toList]
  · intro previous pos later tokens before ⟨behind, pairwise⟩
    refine ⟨fun token mem => ?_, pairwise⟩
    rcases behind token mem with same | further
    · exact .inr (same ▸ before)
    · exact .inr (before.trans further)
  · intro previous token later tokens _ before ⟨behind, pairwise⟩
    have further : ∀ other ∈ tokens.toList, token.pos.Before other.pos := by
      intro other mem
      rcases behind other mem with same | further
      · exact same ▸ before
      · exact before.trans further
    refine ⟨?_, List.pairwise_cons.2 ⟨further, pairwise⟩⟩
    intro other mem
    rcases List.mem_cons.1 mem with rfl | mem
    · exact .inl rfl
    · exact .inr (further other mem)

theorem exists_lexedAfter {previous : Option Token} {body : List Token}
    (lexed : lexedAfter previous body) {token : Token} (mem : token ∈ body) :
    ∃ previous, token.LexedAfter previous := by
  induction body generalizing previous with
  | nil => cases mem
  | cons first rest ih =>
      rcases List.mem_cons.1 mem with rfl | mem
      · exact ⟨previous, lexed.1⟩
      · exact ih lexed.2 mem

/-- No token before the closing one is the end of the source. -/
theorem kind_ne_eof {source : String} (lexed : ofSource source = .ok tokens) :
    ∀ token ∈ tokens.body, token.kind ≠ .eof := by
  intro token mem eof
  obtain ⟨previous, ⟨newline, -⟩ | comment | ⟨first, body, rest, found, -⟩⟩ :=
    exists_lexedAfter (lexedAfter_of_source lexed) mem
  · cases eof.symm.trans newline
  · cases eof.symm.trans comment
  · exact Lexeme.kind_notMem_of_find found (by simp [eof])

/-- Every symbol in a source has a name. -/
theorem named_of_symbol {source : String} (lexed : ofSource source = .ok tokens) :
    ∀ token ∈ tokens.toList, token.kind = .symbol → token.text.isEmpty = false := by
  intro token mem kind
  rcases List.mem_append.1 mem with mem | mem
  · obtain ⟨previous, ⟨newline, -⟩ | comment | ⟨first, body, rest, found, text⟩⟩ :=
      exists_lexedAfter (lexedAfter_of_source lexed) mem
    · cases kind.symm.trans newline
    · cases kind.symm.trans comment
    · rw [kind] at found text
      obtain ⟨-, isSymbol⟩ := Lexeme.symbol?_of_find found
      have some := List.length_pos_iff.1 (Lexeme.symbol?_bounds isSymbol).1
      rw [text, Lexeme.text, List.take_length]
      simpa [String.isEmpty] using some
  · obtain rfl := List.mem_singleton.1 mem
    cases kind.symm.trans (close_of_source lexed)

end Tokens

end RubyFormat
