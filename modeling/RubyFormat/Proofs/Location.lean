import RubyFormat.Proofs.Scanned

/-!
# The places of tokens

The place of a token is the one behind all characters that stand before it, as long as every line
break among them has been seen.  Line breaks are seen between tokens; the only lexeme with a line
break inside is a regular expression with a backslash before it, and there it is counted as one more
character of the line.
-/

namespace RubyFormat

namespace Pos

/-- The place that is reached behind a text. -/
def after (pos : Pos) (text : List Char) : Pos :=
  text.foldl (fun pos c => if c = '\n' then pos.nextLine else pos.right 1) pos

@[simp]
theorem after_nil (pos : Pos) : pos.after [] = pos :=
  rfl

@[simp]
theorem after_cons (pos : Pos) (c : Char) (text : List Char) :
    pos.after (c :: text) = (if c = '\n' then pos.nextLine else pos.right 1).after text :=
  rfl

@[simp]
theorem after_append (pos : Pos) (text more : List Char) :
    pos.after (text ++ more) = (pos.after text).after more :=
  List.foldl_append

theorem right_right (pos : Pos) (count more : Nat) :
    (pos.right count).right more = pos.right (count + more) := by
  simp [right, Nat.add_assoc]

/-- A text without line breaks stays on its line. -/
theorem after_eq_right {text : List Char} (single : '\n' ∉ text) (pos : Pos) :
    pos.after text = pos.right text.length := by
  induction text generalizing pos with
  | nil => rfl
  | cons c text ih =>
      obtain ⟨first, others⟩ := not_or.1 (mt List.mem_cons.2 single)
      rw [after_cons, if_neg (Ne.symm first), ih others, right_right, List.length_cons, Nat.add_comm]

theorem line_after (pos : Pos) (text : List Char) :
    (pos.after text).line = pos.line + text.count '\n' := by
  induction text generalizing pos with
  | nil => rfl
  | cons c text ih =>
      rw [after_cons, ih]
      by_cases isBreak : c = '\n'
      · subst isBreak
        simp only [if_pos, nextLine, List.count_cons_self]
        omega
      · rw [if_neg isBreak, List.count_cons_of_ne isBreak, right]

/-- The place behind the characters of a source that stand before it: the line breaks give the line,
and the characters behind the last of them the column. -/
def behind (before : List Char) : Pos :=
  ⟨1 + before.count '\n', 1 + (before.reverse.takeWhile (· != '\n')).length⟩

theorem after_start (before : List Char) : start.after before = behind before := by
  induction before using List.reverseRecOn with
  | nil => rfl
  | append_singleton before c ih =>
      rw [after_append, ih, after_cons, after_nil]
      by_cases isBreak : c = '\n'
      · simp [isBreak, behind, nextLine, Nat.add_assoc]
      · simp [isBreak, behind, right, Nat.add_comm]

end Pos

/-! ## Where the scanner goes on behind a token -/

/-- The place behind a token.  A regular expression is taken to stay on its line. -/
def Token.endPos (token : Token) : Pos :=
  if token.kind = .regexp then token.pos.right token.spelling.length
  else token.pos.after token.spelling

namespace Slice

/-- Each token stands right behind its gap, which starts where the token before has ended. -/
def Located : Pos → List Slice → Prop
  | _, [] => True
  | pos, slice :: rest =>
      slice.token.pos = pos.after slice.gap ∧ Located slice.token.endPos rest

/-- The characters of a token that are all taken to stay on its line. -/
def flattened (slice : Slice) : List Char :=
  if slice.token.kind = .regexp then slice.token.spelling else []

theorem line_endPos (slice : Slice) :
    slice.token.endPos.line + slice.flattened.count '\n' =
      slice.token.pos.line + slice.token.spelling.count '\n' := by
  unfold Token.endPos flattened
  split
  · rfl
  · rw [Pos.line_after, List.count_nil, Nat.add_zero]

theorem endPos_of_notMem {slice : Slice} (shown : '\n' ∉ slice.flattened) :
    slice.token.endPos = slice.token.pos.after slice.token.spelling := by
  unfold Token.endPos
  unfold flattened at shown
  split
  next isRegexp =>
    rw [if_pos isRegexp] at shown
    rw [Pos.after_eq_right shown]
  · rfl

variable {pos : Pos} {before later : List Slice} {slice : Slice}

/-- The line of a token lacks the line breaks that were not seen before it. -/
theorem Located.line_eq (located : Located pos (before ++ slice :: later)) :
    slice.token.pos.line + (before.flatMap flattened).count '\n' =
      pos.line + (before.flatMap chars ++ slice.gap).count '\n' := by
  induction before generalizing pos with
  | nil =>
      rw [located.1, Pos.line_after]
      rfl
  | cons earlier before ih =>
      have inner := ih located.2
      have line := earlier.line_endPos
      rw [located.1, Pos.line_after] at line
      simp only [List.flatMap_cons, chars, List.count_append] at *
      omega

/-- Where all line breaks were seen, a token stands behind all that is before it. -/
theorem Located.pos_eq (located : Located pos (before ++ slice :: later))
    (shown : '\n' ∉ before.flatMap flattened) :
    slice.token.pos = pos.after (before.flatMap chars ++ slice.gap) := by
  induction before generalizing pos with
  | nil => exact located.1
  | cons earlier before ih =>
      rw [List.flatMap_cons, List.mem_append, not_or] at shown
      rw [ih located.2 shown.2, endPos_of_notMem shown.1, located.1]
      simp [chars]

theorem notMem_flattened :
    '\n' ∉ before.flatMap flattened ↔
      ∀ earlier ∈ before, earlier.token.kind = .regexp → '\n' ∉ earlier.token.spelling := by
  rw [List.mem_flatMap, not_exists]
  refine forall_congr' fun earlier => ?_
  rw [not_and, flattened]
  split
  next isRegexp => simp [isRegexp]
  next other => simp [other]

end Slice

/-- The only lexemes with line breaks are regular expressions. -/
theorem Lexeme.break_notMem_of_find {previous : Option Token} {first : Char} {body tail : List Char}
    {kind : TokenKind} (found : find previous first (body ++ tail) = .ok ⟨kind, body.length⟩)
    (noRegexp : kind ≠ .regexp) : '\n' ∉ first :: body := by
  rcases solid_or_of_find found with solid | ⟨quote, isString⟩ | ⟨-, isRegexp⟩
  · rw [List.take_left] at solid
    intro mem
    cases solid _ mem
  · obtain ⟨-, single, -⟩ := string_eq_ok.1 isString
    rw [List.take_left] at single
    intro mem
    rcases List.mem_cons.1 mem with rfl | inner
    · rcases quote with quote | quote <;> cases quote
    · rw [List.contains_iff_mem.2 inner] at single
      cases single
  · exact absurd (regexp_eq_ok.1 isRegexp).2 noRegexp

namespace Tokens

/-- The scanner puts each token where the one before it and the gap between them end. -/
theorem Scanned.located {previous : Option Token} {pos : Pos} {spaced : Bool} {text left : List Char}
    {tokens : Tokens} (scanned : Scanned previous pos spaced text tokens left) (column : 0 < pos.col)
    {first : Slice} {slices : List Slice} {rest : List Char}
    (cut : CutBehind text tokens first slices rest) : Slice.Located pos (first :: slices) := by
  induction scanned generalizing first slices with
  | done =>
      obtain ⟨rfl, rfl, -⟩ := cut.of_close rfl
      exact ⟨rfl, trivial⟩
  | mark atStart isMark =>
      obtain ⟨rfl, rfl, -⟩ := cut.of_close (startsGap_of_isEndMark isMark)
      exact ⟨rfl, trivial⟩
  | @newline _ pos spaced _ _ _ more ih =>
      obtain ⟨next, others, rfl, rfl, inner⟩ := cut.behind_break
      have ends : (Token.ofBreak pos spaced).endPos = pos.nextLine := by
        rw [Token.endPos, if_neg nofun, spelling_ofBreak]
        rfl
      exact ⟨rfl, ends ▸ ih Nat.one_pos inner⟩
  | @gap _ pos _ c _ _ _ blank more ih =>
      obtain ⟨gap, same, inner⟩ := cut.behind_gap blank more
      obtain ⟨place, others⟩ := ih (Nat.lt_succ_of_lt column) inner
      have noBreak : c ≠ '\n' := by
        rintro rfl
        cases blank
      refine ⟨?_, others⟩
      rw [same, Pos.after_cons, if_neg noBreak]
      exact place
  | @continued _ pos _ _ _ _ more ih =>
      obtain ⟨gap, same, inner⟩ := cut.behind_continued more
      obtain ⟨place, others⟩ := ih Nat.one_pos inner
      refine ⟨?_, others⟩
      rw [same]
      exact place
  | @comment _ pos spaced line _ _ _ single ends more ih =>
      obtain ⟨blanks, token, others, rfl, rfl, whole, inner⟩ :=
        cut.behind_comment single column ends more
      obtain ⟨place, later⟩ := ih (Nat.lt_add_right _ column) inner
      refine ⟨rfl, ?_, later⟩
      have noBreak : '\n' ∉ '#' :: line := by simp [single]
      have lineEnd : (Token.ofComment line pos spaced).endPos.after blanks =
          pos.right (line.length + 1) := by
        rw [Token.endPos, if_neg nofun, spelling_ofComment, ← Pos.after_append, ← whole,
          Pos.after_eq_right noBreak]
        rfl
      exact place.trans lineEnd.symm
  | @lexeme _ pos spaced c body _ _ _ kind noMark found more ih =>
      obtain ⟨next, others, rfl, rfl, inner⟩ := cut.behind_lexeme found
      have ends : (Token.ofLexeme kind c body pos spaced).endPos = pos.right (body.length + 1) := by
        unfold Token.endPos
        rw [spelling_ofLexeme found]
        split
        · rfl
        next noRegexp => exact Pos.after_eq_right (Lexeme.break_notMem_of_find found noRegexp) pos
      exact ⟨rfl, ends ▸ ih (Nat.lt_add_right _ column) inner⟩

theorem Cut.located {source : String} {tokens : Tokens} (lexed : ofSource source = .ok tokens)
    {slices : List Slice} {rest : List Char} (cut : Cut source.toList tokens slices rest) :
    Slice.Located Pos.start slices := by
  obtain ⟨first, more, rfl, behind⟩ := cut.exists_behind
  exact (cut.scanned lexed).located Nat.one_pos behind

/--
The place of a token is the one behind all characters that stand before it, exactly if no regular
expression before it has a line break inside.
-/
theorem pos_eq_behind_iff {source : String} {tokens : Tokens} (lexed : ofSource source = .ok tokens) :
    (∃ slices rest, Cut source.toList tokens slices rest) ∧
      ∀ slices rest, Cut source.toList tokens slices rest →
        ∀ before slice later, slices = before ++ slice :: later →
          (slice.token.pos = Pos.behind (before.flatMap Slice.chars ++ slice.gap) ↔
            ∀ earlier ∈ before, earlier.token.kind = .regexp → '\n' ∉ earlier.token.spelling) := by
  refine ⟨exists_cut lexed, ?_⟩
  rintro slices rest cut before slice later rfl
  have located := cut.located lexed
  rw [← Slice.notMem_flattened]
  constructor
  · intro same
    -- both give the same line, so that no line break is missing
    have line := located.line_eq
    rw [same, Pos.behind, Pos.start, Nat.add_eq_left, List.count_eq_zero] at line
    exact line
  · intro shown
    rw [located.pos_eq shown, Pos.after_start]

/-- A comment, a continued line and a regular expression without line breaks. -/
theorem pos_eq_behind_iff_continued :
    let source := "a = 1 # b\n/c/ \\\n d"
    ∃ tokens, ofSource source = .ok tokens ∧
      (∃ slices rest, Cut source.toList tokens slices rest) ∧
      ∀ slices rest, Cut source.toList tokens slices rest →
        ∀ before slice later, slices = before ++ slice :: later →
          (slice.token.pos = Pos.behind (before.flatMap Slice.chars ++ slice.gap) ↔
            ∀ earlier ∈ before, earlier.token.kind = .regexp → '\n' ∉ earlier.token.spelling) := by
  intro source
  cases lexed : ofSource source with
  | error error =>
      have found : (ofSource source).toOption.isSome = true := by decide +kernel
      rw [lexed] at found
      cases found
  | ok tokens => exact ⟨tokens, rfl, pos_eq_behind_iff lexed⟩

/-- Behind a regular expression with an escaped line break, a token is said to stand on the line on
which the expression started. -/
theorem pos_ne_behind_escaped :
    ∃ tokens, ofSource "/a\\\nb/ c" = .ok tokens ∧
      ∃ before slice later, Cut "/a\\\nb/ c".toList tokens (before ++ slice :: later) [] ∧
        slice.token = ⟨.ident, "c", ⟨1, 8⟩, true⟩ ∧
        Pos.behind (before.flatMap Slice.chars ++ slice.gap) = ⟨2, 4⟩ := by
  refine ⟨⟨[⟨.regexp, "/a\\\nb/", ⟨1, 1⟩, false⟩, ⟨.ident, "c", ⟨1, 8⟩, true⟩],
    ⟨.eof, "", ⟨1, 9⟩, false⟩⟩, by decide +kernel,
    [⟨[], ⟨.regexp, "/a\\\nb/", ⟨1, 1⟩, false⟩⟩], ⟨[' '], ⟨.ident, "c", ⟨1, 8⟩, true⟩⟩,
    [⟨[], ⟨.eof, "", ⟨1, 9⟩, false⟩⟩], ⟨rfl, by decide +kernel, ?_, .inl rfl⟩, rfl, by decide +kernel⟩
  exact ⟨⟨rfl, by decide⟩, ⟨rfl, by decide⟩, ⟨rfl, by decide⟩, trivial⟩

end Tokens

end RubyFormat
