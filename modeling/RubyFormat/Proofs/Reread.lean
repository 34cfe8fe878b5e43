import Mathlib.Tactic.IntervalCases
import RubyFormat.Proofs.Completeness
import RubyFormat.Proofs.Displaced
import RubyFormat.Proofs.Precedence

/-!
# Reading marks again

The marks of a plain tree that binds as its operators do are read to the same tree, up to places,
whatever the variables in scope are.  An operand of some rank is read by the rule of that rank and
of every looser one, as long as the sign behind it binds less tight than the rule; the operations of
one level that chain to the left are read one after the other, each with the rest still to come.
-/

namespace RubyFormat

/-! ## The signs before and behind a value -/

namespace Sign

/-- The highest rank of a value that starts with a sign; a label starts an entry, and nothing starts
with a sign of rank zero. -/
def lead (sign : Sign) : Nat :=
  match sign.kind with
  | .int | .float | .string | .regexp | .symbol | .ivar | .cvar | .gvar | .ident | .const => 19
  | .label => 1
  | .keyword =>
      if sign.text = "not" then 4 else if literalKeywords.contains sign.text then 19 else 0
  | .op =>
      if ["(", "[", "\x7b"].contains sign.text then 19
      else if ["!", "~", "+"].contains sign.text then 18
      else if sign.text = "-" then 16
      else 0
  | _ => 0

/-- The rank of the rule that goes on with a sign behind a value. -/
def trail (sign : Sign) : Nat :=
  match sign.kind with
  | .newline | .eof => 0
  | .keyword => operatorRank sign.text
  | .op =>
      if [")", "]", "\x7d", "=>"].contains sign.text then 0
      else if sign.text = "," then 1
      else if ("=" :: Parse.assignOperators).contains sign.text then 2
      else operatorRank sign.text
  | _ => 20

/-- The rank of the rule that goes on with the first of some signs. -/
def trailOf : List Sign → Nat
  | [] => 0
  | sign :: _ => sign.trail

/-- An operator goes on with the rule of its own rank. -/
theorem trail_operator {text : String} (known : text ∈ Node.binaryOperators) :
    (Mark.operator text).sign.trail = operatorRank text := by
  have table : ∀ text ∈ Node.binaryOperators,
      (Mark.operator text).sign.trail = operatorRank text := by decide
  exact table text known

/-- No rule of the rank of a minus goes on behind a value. -/
theorem trailOf_ne (signs : List Sign) : trailOf signs ≠ 16 := by
  have operators (text : String) : operatorRank text ≠ 16 := by
    unfold operatorRank
    split
    · decide
    split
    · decide
    split
    · decide
    split
    next index found =>
      have short : index < 9 := (List.findIdx?_eq_some_iff_getElem.1 found).1
      omega
    · decide
  cases signs with
  | nil => decide
  | cons sign rest =>
      rw [trailOf, trail]
      split
      · decide
      · decide
      · exact operators _
      · repeat' split
        · decide
        · decide
        · decide
        · exact operators _
      · decide

theorem noGap {sign : Sign} (leads : sign.lead ≠ 0) :
    sign.kind ≠ .newline ∧ sign.kind ≠ .comment := by
  constructor
  · intro kind
    simp [lead, kind] at leads
  · intro kind
    simp [lead, kind] at leads

end Sign

namespace Token

variable {token : Token} {text : String} {rank : Nat}

theorem sign_of_isWord (isWord : token.isWord text = true) :
    token.sign = ⟨.op, text⟩ ∨ token.sign = ⟨.keyword, text⟩ := by
  obtain ⟨kind, text, pos, spaced⟩ := token
  simp only [Token.isWord, Bool.and_eq_true, Bool.or_eq_true, beq_iff_eq] at isWord
  obtain ⟨rfl, rfl | rfl⟩ := isWord
  · exact .inl rfl
  · exact .inr rfl

theorem isWord_of_sign (same : token.sign = (Mark.operator text).sign) :
    token.isWord text = true := by
  obtain ⟨kind, rfl⟩ := Token.kind_of_sign same
  simp only [Mark.operator] at kind
  split at kind
  · simp [isWord, show token.kind = .keyword from kind]
  · simp [isWord, show token.kind = .op from kind]

theorem isOpIn_of_sign {operators : List String} (same : token.sign = ⟨.op, text⟩)
    (mem : text ∈ operators) : token.isOpIn operators = true := by
  obtain ⟨kind, rfl⟩ := Token.kind_of_sign same
  simpa [isOpIn, show token.kind = .op from kind] using mem

theorem isOp_of_sign (same : token.sign = ⟨.op, text⟩) : token.isOp text = true := by
  obtain ⟨kind, rfl⟩ := Token.kind_of_sign same
  simp [isOp, show token.kind = .op from kind]

/-- A word that goes on tighter is not behind a value that stops. -/
theorem not_isWord_of_trail (stops : token.sign.trail < rank)
    (tighter : rank ≤ (Sign.mk .op text).trail ∧ rank ≤ (Sign.mk .keyword text).trail) :
    token.isWord text = false := by
  refine Bool.eq_false_iff.2 fun isWord => ?_
  rcases sign_of_isWord isWord with same | same
  · rw [same] at stops
    omega
  · rw [same] at stops
    omega

theorem not_isOpIn_of_trail {operators : List String} (stops : token.sign.trail < rank)
    (tighter : ∀ text ∈ operators, rank ≤ (Sign.mk .op text).trail) :
    token.isOpIn operators = false := by
  refine Bool.eq_false_iff.2 fun isOp => ?_
  have kind : token.kind = .op := by simpa using (Bool.and_eq_true_iff.1 isOp).1
  have le := tighter token.text (text_of_isOpIn isOp)
  have same : token.sign = ⟨.op, token.text⟩ := by rw [sign, kind]
  rw [same] at stops
  omega

/-- A word that only leads a looser value is not the first one. -/
theorem not_isWord_of_lead (leads : rank ≤ token.sign.lead)
    (looser : (Sign.mk .op text).lead < rank ∧ (Sign.mk .keyword text).lead < rank) :
    token.isWord text = false := by
  refine Bool.eq_false_iff.2 fun isWord => ?_
  rcases sign_of_isWord isWord with same | same
  · rw [same] at leads
    omega
  · rw [same] at leads
    omega

/-- A keyword that starts a value can start a statement. -/
theorem not_isForeignKeyword_of_lead (leads : token.sign.lead ≠ 0) :
    token.isForeignKeyword = false := by
  refine Bool.eq_false_iff.2 fun isForeign => leads ?_
  simp only [isForeignKeyword, Bool.and_eq_true, beq_iff_eq, Bool.not_eq_true', bne_iff_ne] at isForeign
  obtain ⟨⟨kind, noLiteral⟩, noNot⟩ := isForeign
  simp only [Sign.lead, sign, kind, noNot, noLiteral, if_false, Bool.false_eq_true]

end Token

/-! ## Rules by rank -/

/-- The rule that reads expressions of a rank. -/
def Rule.atRank : Nat → Rule
  | 3 => .expression
  | 4 => .negated
  | 5 => .range
  | 16 => .minus
  | 17 => .power
  | 18 => .unary
  | 19 => .operand
  | rank => .operations (OperatorLevel.all.drop (rank - 6))

/-- What is read by a rule is read by the next looser one, unless the sign before or behind it
belongs to that. -/
theorem Derives.step {fits : ParamList → Node → Prop} {rank : Nat} {t t' : ParseState}
    {node : Node} (low : 3 ≤ rank) (high : rank < 19) (leads : rank + 1 ≤ t.current.sign.lead)
    (stops : t'.current.sign.trail < rank)
    (reads : Derives fits (.atRank (rank + 1)) t (.node node) t') :
    Derives fits (.atRank rank) t (.node node) t' := by
  interval_cases rank
  · refine .expression reads (.joinedDone ?_)
    rw [Token.not_isWord_of_trail stops (by decide), Token.not_isWord_of_trail stops (by decide)]
    rfl
  · exact .notNegated (Token.not_isWord_of_lead leads (by decide)) reads
  · refine .notRange reads ?_
    rw [Token.not_isWord_of_trail stops (by decide), Token.not_isWord_of_trail stops (by decide)]
    rfl
  iterate 9 exact .level reads (.chainDone (Token.not_isOpIn_of_trail stops (by decide)))
  · exact .tightest reads
  · exact .notMinus (Token.not_isWord_of_lead leads (by decide)) reads
  · exact .notPower reads (Token.not_isWord_of_trail stops (by decide))
  · refine .notUnary ?_ reads
    rw [Token.not_isWord_of_lead leads (by decide), Token.not_isWord_of_lead leads (by decide),
      Token.not_isWord_of_lead leads (by decide)]
    rfl

/-- What is read by a rule is read by every looser one. -/
theorem Derives.climb {fits : ParamList → Node → Prop} {rank tighter : Nat} {t t' : ParseState}
    {node : Node} (low : 3 ≤ rank) (le : rank ≤ tighter) (high : tighter ≤ 19)
    (leads : tighter ≤ t.current.sign.lead) (stops : t'.current.sign.trail < rank)
    (reads : Derives fits (.atRank tighter) t (.node node) t') :
    Derives fits (.atRank rank) t (.node node) t' := by
  induction tighter, le using Nat.le_induction with
  | base => exact reads
  | succ tighter le ih =>
      refine ih (by omega) (by omega) ?_
      exact .step (low.trans le) high leads (lt_of_lt_of_le stops le) reads

/-! ## States that hold signs -/

namespace ParseState

/-- The tokens ahead have the given signs, none of which is a call operator. -/
structure Holds (t : ParseState) (signs : List Sign) : Prop where
  ahead : t.ahead.map Token.sign = signs
  eof : t.close.kind = .eof
  calm : ∀ sign ∈ signs, sign.Calm
  hasScope : t.scopes ≠ []

namespace Holds

variable {t : ParseState} {sign : Sign} {signs rest : List Sign}

theorem current (holds : t.Holds (sign :: rest)) : t.current.sign = sign := by
  obtain ⟨token, tokens, ahead, same, -⟩ := List.map_eq_cons_iff.1 holds.ahead
  rw [ParseState.current, ahead]
  exact same

theorem next (holds : t.Holds (sign :: rest)) : t.next.Holds rest := by
  obtain ⟨token, tokens, ahead, -, others⟩ := List.map_eq_cons_iff.1 holds.ahead
  refine ⟨?_, holds.eof, fun sign mem => holds.calm sign (List.mem_cons_of_mem _ mem), holds.hasScope⟩
  rw [ParseState.next, ahead]
  exact others

theorem atDepth (holds : t.Holds signs) (depth : Nat) : (t.atDepth depth).Holds signs :=
  ⟨holds.ahead, holds.eof, holds.calm, holds.hasScope⟩

theorem declaring (holds : t.Holds signs) (name : String) : (t.declaring name).Holds signs := by
  refine ⟨holds.ahead, holds.eof, holds.calm, ?_⟩
  have some := holds.hasScope
  cases scopes : t.scopes with
  | nil => exact absurd scopes some
  | cons scope outer => simp [ParseState.declaring, declare, scopes]

/-- The rank of the next token is the one of the first sign. -/
theorem trail (holds : t.Holds signs) : t.current.sign.trail = Sign.trailOf signs := by
  cases signs with
  | nil =>
      rw [ParseState.current, List.map_eq_nil_iff.1 holds.ahead]
      simp [Sign.trail, Token.sign, Sign.trailOf, holds.eof]
  | cons sign rest => rw [holds.current, Sign.trailOf]

theorem noCall (holds : t.Holds signs) : t.current.isOpIn callOperators = false := by
  cases signs with
  | nil =>
      rw [ParseState.current, List.map_eq_nil_iff.1 holds.ahead]
      simp [Token.isOpIn, holds.eof]
  | cons sign rest =>
      have calm := holds.calm sign List.mem_cons_self
      obtain ⟨kind, text⟩ := Token.kind_of_sign holds.current
      rw [Sign.Calm, ← kind, ← text] at calm
      simpa [Token.isOpIn] using calm

/-- Where no line break and no comment is next, none is passed. -/
theorem skips (holds : t.Holds (sign :: rest))
    (noGap : sign.kind ≠ .newline ∧ sign.kind ≠ .comment) : t.Skips t := by
  obtain ⟨token, tokens, ahead, same, -⟩ := List.map_eq_cons_iff.1 holds.ahead
  obtain ⟨kind, -⟩ := Token.kind_of_sign same
  rw [← kind] at noGap
  refine ⟨?_, ?_⟩
  · obtain ⟨ahead', close, scopes, depth⟩ := t
    obtain rfl : ahead' = token :: tokens := ahead
    simp [ParseState.pastNewlines, noGap.1]
  · rw [ParseState.current, ahead]
    exact noGap.2

/-- No call operator continues the line. -/
theorem notContinued (holds : t.Holds signs) : t.isContinued = false := by
  refine isContinued_eq_false ?_
  unfold continued
  split
  · have behind : t.pastNewlines.Holds (t.pastNewlines.ahead.map Token.sign) := by
      refine ⟨rfl, holds.eof, fun sign mem => holds.calm sign ?_, holds.hasScope⟩
      rw [← holds.ahead]
      exact ((List.dropWhile_sublist _).map Token.sign).subset mem
    exact behind.noCall
  · exact holds.noCall

end Holds

end ParseState

/-- An operand that stands alone is read as such. -/
theorem Reads.operand {t t' : ParseState} {node : Node} {rest : List Sign} (holds : t'.Holds rest)
    (stops : Sign.trailOf rest < 19) (reads : Reads .primary t (.node node) t') :
    Reads .operand t (.node node) t' := by
  refine Derives.operand reads (.suffixesDone holds.notContinued holds.noCall ?_)
  rw [← holds.trail] at stops
  have noOp : t'.current.isOpIn ["["] = false := Token.not_isOpIn_of_trail stops (by decide)
  simp only [Token.isOpIn, List.contains_cons, List.contains_nil, Bool.or_false] at noOp
  rw [Token.isIndex, Token.isOp, noOp, Bool.false_and]

/-! ## Rereading -/

open Mark

/-- The marks of a tree are read to the same tree, before signs that do not go on with it. -/
def Rereads (rule : Rule) (stop : Nat) (node : Node) : Prop :=
  ∀ (t : ParseState) (rest : List Sign), t.Holds (signs node.flat ++ rest) →
    Sign.trailOf rest < stop → ∃ again t', again.unplaced = node.unplaced ∧ t'.Holds rest ∧
      Reads rule t (.node again) t'

/-- The rule that goes on with the operations of a rank. -/
def Rule.loopAt (rank : Nat) (left : Node) : Rule :=
  if rank = 3 then .joined left
  else match OperatorLevel.all.drop (rank - 6) with
    | level :: tighter => .chain level tighter left
    | [] => .suffixes left

/-- The ranks whose operations chain to the left. -/
def chainRanks : List Nat :=
  [3, 6, 7, 9, 10, 11, 12, 13, 14]

/-- The marks of a tree are read as the left operand of what may follow. -/
def Extends (rank : Nat) (node : Node) : Prop :=
  ∀ (t : ParseState) (rest : List Sign), t.Holds (signs node.flat ++ rest) →
    Sign.trailOf rest ≤ rank → ∃ again t', again.unplaced = node.unplaced ∧ t'.Holds rest ∧
      ∀ field u, Reads (.loopAt rank again) t' field u → Reads (.atRank rank) t field u

namespace Reads

variable {rank : Nat} {s s₁ s₂ s₃ : ParseState} {left right : Node} {field : Field Node}
  {text : String}

/-- A chain of operations starts with an operand of the next rank. -/
theorem start (isChain : rank ∈ chainRanks) (first : Reads (.atRank (rank + 1)) s (.node left) s₁)
    (others : Reads (.loopAt rank left) s₁ field s₂) : Reads (.atRank rank) s field s₂ := by
  simp only [chainRanks, List.mem_cons, List.not_mem_nil, or_false] at isChain
  rcases isChain with rfl | isChain
  · exact .expression first others
  rcases isChain with rfl | rfl | rfl | rfl | rfl | rfl | rfl | rfl <;> exact .level first others

/-- A chain of operations goes on with an operator of its rank. -/
theorem more (isChain : rank ∈ chainRanks) (known : text ∈ Node.binaryOperators)
    (isRank : operatorRank text = rank) (here : s.current.sign = (operator text).sign)
    (skips : s.next.Skips s₁) (second : Reads (.atRank (rank + 1)) s₁ (.node right) s₂)
    (others : Reads (.loopAt rank (.binary left.pos left text right)) s₂ field s₃) :
    Reads (.loopAt rank left) s field s₃ := by
  have words : ∀ text ∈ Node.binaryOperators, operatorRank text = 3 → text = "and" ∨ text = "or" := by
    decide
  have levels : ∀ rank ∈ chainRanks, ∀ text ∈ Node.binaryOperators, operatorRank text = rank →
      rank ≠ 3 → ∀ level ∈ (OperatorLevel.all.drop (rank - 6)).head?, text ∈ level.operators ∧
        operator text = op text := by decide
  have chain := isChain
  obtain ⟨-, rfl⟩ := Token.kind_of_sign here
  simp only [chainRanks, List.mem_cons, List.not_mem_nil, or_false] at isChain
  rcases isChain with rfl | isChain
  · refine .joinedMore ?_ skips second others
    have isWord := Token.isWord_of_sign here
    rcases words _ known isRank with is | is
    · rw [show s.current.isWord "and" = true from is ▸ isWord, Bool.true_or]
    · rw [show s.current.isWord "or" = true from is ▸ isWord, Bool.or_true]
  rcases isChain with rfl | rfl | rfl | rfl | rfl | rfl | rfl | rfl <;>
  · obtain ⟨mem, isOp⟩ := levels _ chain _ known isRank (by decide) _ rfl
    rw [isOp] at here
    exact .chainMore rfl (Token.isOpIn_of_sign here mem) skips second others

/-- A chain of operations ends before a sign that does not go on with it. -/
theorem done (isChain : rank ∈ chainRanks) (stops : s.current.sign.trail < rank) :
    Reads (.loopAt rank left) s (.node left) s := by
  simp only [chainRanks, List.mem_cons, List.not_mem_nil, or_false] at isChain
  rcases isChain with rfl | isChain
  · refine .joinedDone ?_
    rw [Token.not_isWord_of_trail stops (by decide), Token.not_isWord_of_trail stops (by decide)]
    rfl
  rcases isChain with rfl | rfl | rfl | rfl | rfl | rfl | rfl | rfl <;>
    exact .chainDone (Token.not_isOpIn_of_trail stops (by decide))

/-- An operation that does not chain. -/
theorem once (isRank : operatorRank text ∈ [5, 8, 17]) (known : text ∈ Node.binaryOperators)
    (first : Reads (.atRank (operatorRank text + 1)) s (.node left) s₁)
    (here : s₁.current.sign = (operator text).sign) (skips : s₁.next.Skips s₁.next)
    (second : Reads (.atRank (rightRank text)) s₁.next (.node right) s₂) :
    Reads (.atRank (operatorRank text)) s (.node (.binary left.pos left text right)) s₂ := by
  have table : ∀ text ∈ Node.binaryOperators, operatorRank text ∈ [5, 8, 17] →
      operatorRank text = 5 ∧ rightRank text = 6 ∧ (text = ".." ∨ text = "...") ∨
      operatorRank text = 8 ∧ rightRank text = 9 ∧ operator text = op text ∧
        text ∈ ["==", "!=", "===", "=~", "!~", "<=>"] ∨
      operatorRank text = 17 ∧ rightRank text = 16 ∧ text = "**" := by decide
  have isWord := Token.isWord_of_sign here
  obtain ⟨-, rfl⟩ := Token.kind_of_sign here
  rcases table _ known isRank with ⟨rank, below, is⟩ | ⟨rank, below, isOp, mem⟩ | ⟨rank, below, is⟩
  · rw [rank] at first ⊢
    rw [below] at second
    refine .rangeBetween first ?_ second
    rcases is with is | is
    · rw [show s₁.current.isWord ".." = true from is ▸ isWord, Bool.true_or]
    · rw [show s₁.current.isWord "..." = true from is ▸ isWord, Bool.or_true]
  · rw [rank] at first ⊢
    rw [below] at second
    rw [isOp] at here
    exact .level first (.chainOnce rfl (Token.isOpIn_of_sign here mem) skips second)
  · rw [rank] at first ⊢
    rw [below] at second
    rw [show s₁.current.text = "**" from is] at isWord ⊢
    exact .power first isWord skips second

end Reads

/-! ## Expressions -/

theorem operatorRank_le_leftRank (text : String) : operatorRank text ≤ leftRank text := by
  unfold leftRank
  split <;> omega

namespace Node

theorem signs_binary (pos : Pos) (left right : Node) (text : String) :
    signs (Node.binary pos left text right).flat =
      signs left.flat ++ (operator text).sign :: signs right.flat := by
  have table : ∀ text ∈ Layout.tightOperators, operator text = op text := by decide
  simp only [flat]
  split
  next isTight => simp [table text (List.contains_iff_mem.1 isTight)]
  next => simp

theorem signs_unary {pos : Pos} {operand : Node} {text : String} (known : text ∈ unaryOperators) :
    signs (Node.unary pos text operand).flat = (operator text).sign :: signs operand.flat := by
  have table : ∀ text ∈ unaryOperators, text ≠ "not" → operator text = op text := by decide
  simp only [flat]
  split
  next isNot => simp [isNot, operator, word, keywords, Mark.sign]
  next noNot => simp [table text known noNot]

/-- A target starts like a value that stands alone. -/
theorem lead_target {target : Node} (shaped : target.wellShaped = true)
    (isField : target.isOfKind .varField = true) :
    ∃ first, signs target.flat = [first] ∧ first.lead = 19 := by
  have here := (wellShaped_iff.1 shaped).1
  cases target with
  | varField pos inner =>
      cases inner with
      | none => cases here
      | some inner =>
          cases inner with
          | name kind namePos text =>
              refine ⟨_, rfl, ?_⟩
              cases kind with
              | ident =>
                  change (Sign.mk (NameKind.ident.tokenKind text) text).lead = 19
                  simp only [NameKind.tokenKind]
                  split <;> rfl
              | const | ivar | cvar | gvar => rfl
              | _ => cases here
          | _ => cases here
  | _ => cases isField

/-- The first sign of a value can lead everything that binds as tight as the value. -/
theorem lead_flat {node : Node} (shaped : node.wellShaped = true) (isPlain : node.isPlain = true)
    (isBound : node.isBound = true) (isValue : node.isValue = true) :
    ∃ first more, signs node.flat = first :: more ∧ node.rank ≤ first.lead ∧ first.lead ≠ 0 := by
  induction node using induction_children with
  | step node ih =>
    obtain ⟨here, inside⟩ := wellShaped_iff.1 shaped
    obtain ⟨isFirm, allPlain⟩ := isPlain_iff.1 isPlain
    obtain ⟨binds, allBound⟩ := isBound_iff.1 isBound
    cases node with
    | literal kind pos raw =>
        refine ⟨_, [], rfl, ?_⟩
        cases kind <;> simp [Node.rank, Sign.lead, Mark.sign, LiteralKind.tokenKind]
    | symbolLit pos value => exact ⟨_, [], rfl, by simp [Node.rank, Sign.lead, Mark.sign]⟩
    | array pos elements => exact ⟨_, _, rfl, by simp [Node.rank, Sign.lead, Mark.sign, op]⟩
    | hash pos entries => exact ⟨_, _, rfl, by simp [Node.rank, Sign.lead, Mark.sign, op]⟩
    | paren pos expr => exact ⟨_, _, rfl, by simp [Node.rank, Sign.lead, Mark.sign, op]⟩
    | varRef pos inner =>
        cases inner with
        | name kind namePos text =>
            refine ⟨_, [], rfl, ?_⟩
            cases kind with
            | keyword =>
                have table : ∀ text ∈ literalKeywords, (Sign.mk .keyword text).lead = 19 := by decide
                have lead := table text (List.contains_iff_mem.1 isFirm)
                exact ⟨le_of_eq lead.symm, by simp [Mark.sign, NameKind.tokenKind, lead]⟩
            | ivar | cvar | gvar => simp [Node.rank, Sign.lead, Mark.sign, NameKind.tokenKind]
            | _ => cases isFirm
        | _ => cases isFirm
    | unary pos text operand =>
        simp only [Node.shaped, Bool.and_eq_true] at here
        have known := List.contains_iff_mem.1 here.1
        have table : ∀ text ∈ unaryOperators, unaryRank text ≤ (operator text).sign.lead ∧
            (operator text).sign.lead ≠ 0 := by decide
        exact ⟨_, _, signs_unary known, table text known⟩
    | binary pos left text right =>
        simp only [Node.shaped, Bool.and_eq_true] at here
        have mem : left ∈ (Node.binary pos left text right).children := by
          simp [children, fields, Field.toList]
        obtain ⟨first, more, starts, leads, some⟩ := ih left mem (inside left mem)
          (allPlain left mem) (allBound left mem) (isValue_of_isExpr here.1.2)
        have le : operatorRank text ≤ left.rank := by
          simp only [bound, Bool.and_eq_true, decide_eq_true_eq] at binds
          exact (operatorRank_le_leftRank text).trans binds.1
        rw [signs_binary, starts]
        exact ⟨first, _, rfl, le.trans leads, some⟩
    | assign pos target value | opAssign pos target text value =>
        have shapedTarget := inside target (by simp [children, fields, Field.toList])
        obtain ⟨first, starts, lead⟩ := lead_target shapedTarget isFirm
        simp only [flat, signs_append, starts]
        refine ⟨first, _, rfl, ?_, by simp [lead]⟩
        rw [lead]
        simp only [Node.rank]
        first | decide | (split <;> decide)
    | _ => first | (cases isValue; done) | cases isFirm

end Node

/-- The marks of a node start with one that leads a value or an entry. -/
def Node.Starts (node : Node) : Prop :=
  ∃ first more, signs node.flat = first :: more ∧ first.lead ≠ 0

namespace ParseState.Holds

variable {t : ParseState} {node : Node} {nodes : List Node} {rest : List Sign}

theorem starts (holds : t.Holds (signs node.flat ++ rest)) (starts : node.Starts) :
    t.current.sign.lead ≠ 0 ∧ t.Skips t := by
  obtain ⟨first, more, same, leads⟩ := starts
  rw [same, List.cons_append] at holds
  rw [holds.current]
  exact ⟨leads, holds.skips (Sign.noGap leads)⟩

theorem startsList (holds : t.Holds (signs (inLine ((node :: nodes).map Node.flat)) ++ rest))
    (starts : node.Starts) : t.current.sign.lead ≠ 0 ∧ t.Skips t := by
  rw [List.map_cons, inLine, join, signs_append, List.append_assoc] at holds
  exact holds.starts starts

end ParseState.Holds

theorem Rereads.climb {rank tighter : Nat} {node : Node} {first : Sign} {more : List Sign}
    (low : 3 ≤ rank) (le : rank ≤ tighter) (high : tighter ≤ 19)
    (starts : signs node.flat = first :: more) (leads : tighter ≤ first.lead)
    (rereads : Rereads (.atRank tighter) tighter node) : Rereads (.atRank rank) rank node := by
  intro t rest holds stops
  obtain ⟨again, t', same, held, reads⟩ := rereads t rest holds (lt_of_lt_of_le stops le)
  refine ⟨again, t', same, held, .climb low le high ?_ (held.trail ▸ stops) reads⟩
  rw [starts, List.cons_append] at holds
  rw [holds.current]
  exact leads

namespace Extends

variable {rank : Nat} {node left right : Node}

theorem of_rereads (isChain : rank ∈ chainRanks)
    (rereads : Rereads (.atRank (rank + 1)) (rank + 1) node) : Extends rank node := by
  intro t rest holds stops
  obtain ⟨again, t', same, held, reads⟩ := rereads t rest holds (Nat.lt_succ_of_le stops)
  exact ⟨again, t', same, held, fun field u others => .start isChain reads others⟩

/-- A chain of operations is extended by one more. -/
theorem binary {pos : Pos} {text : String} (known : text ∈ Node.binaryOperators)
    (isRank : operatorRank text = rank) (isChain : rank ∈ chainRanks) (extends_ : Extends rank left)
    (starts : right.Starts) (rereads : Rereads (.atRank (rank + 1)) (rank + 1) right) :
    Extends rank (.binary pos left text right) := by
  intro t rest holds stops
  rw [Node.signs_binary, List.append_assoc, List.cons_append] at holds
  obtain ⟨left', t₁, sameLeft, held, others⟩ :=
    extends_ t _ holds (le_of_eq ((Sign.trail_operator known).trans isRank))
  have behind := held.next
  obtain ⟨right', t₂, sameRight, held₂, second⟩ :=
    rereads t₁.next rest behind (Nat.lt_succ_of_le stops)
  refine ⟨.binary left'.pos left' text right', t₂, ?_, held₂, fun field u more => ?_⟩
  · simp [Node.unplaced, sameLeft, sameRight]
  · exact others field u
      (.more isChain known isRank held.current (behind.starts starts).2 second more)

theorem rereads (isChain : rank ∈ chainRanks) (extends_ : Extends rank node) :
    Rereads (.atRank rank) rank node := by
  intro t rest holds stops
  obtain ⟨again, t', same, held, reads⟩ := extends_ t rest holds (le_of_lt stops)
  exact ⟨again, t', same, held, reads _ _ (.done isChain (held.trail ▸ stops))⟩

end Extends

/-- An operation that does not chain is read again if its operands are. -/
theorem Rereads.once {pos : Pos} {left right : Node} {text : String}
    (isRank : operatorRank text ∈ [5, 8, 17]) (known : text ∈ Node.binaryOperators)
    (rereadsLeft : Rereads (.atRank (operatorRank text + 1)) (operatorRank text + 1) left)
    (starts : right.Starts)
    (rereadsRight : Rereads (.atRank (rightRank text)) (rightRank text) right) :
    Rereads (.atRank (operatorRank text)) (operatorRank text) (.binary pos left text right) := by
  intro t rest holds stops
  rw [Node.signs_binary, List.append_assoc, List.cons_append] at holds
  obtain ⟨left', t₁, sameLeft, held, reads⟩ :=
    rereadsLeft t _ holds (Nat.lt_succ_of_le (le_of_eq (Sign.trail_operator known)))
  have behind := held.next
  have stopsRight : Sign.trailOf rest < rightRank text := by
    have minus := Sign.trailOf_ne rest
    unfold rightRank
    split
    next isPower =>
      rw [isPower, show operatorRank "**" = 17 by decide] at stops
      omega
    next => omega
  obtain ⟨right', t₂, sameRight, held₂, second⟩ := rereadsRight t₁.next rest behind stopsRight
  refine ⟨.binary left'.pos left' text right', t₂, ?_, held₂, ?_⟩
  · simp [Node.unplaced, sameLeft, sameRight]
  · exact .once isRank known reads held.current (behind.starts starts).2 second

/-! ## Operands -/

/-- A tree whose mark is a token that is an operand by itself. -/
theorem Rereads.leaf {node : Node} {sign : Sign} (only : signs node.flat = [sign])
    (found : ∀ token : Token, token.sign = sign →
      ∃ again, token.leaf? = some again ∧ again.unplaced = node.unplaced) :
    Rereads .operand 19 node := by
  intro t rest holds stops
  rw [only, List.singleton_append] at holds
  obtain ⟨again, isLeaf, same⟩ := found t.current holds.current
  exact ⟨again, t.next, same, holds.next, Reads.operand holds.next stops (.leaf isLeaf)⟩

namespace Node

/-- A number, a string or a regular expression is read again. -/
theorem rereads_literal (kind : LiteralKind) (pos : Pos) (raw : String) :
    Rereads .operand 19 (.literal kind pos raw) := by
  refine .leaf rfl fun token same => ⟨.literal kind token.pos raw, ?_, rfl⟩
  obtain ⟨isKind, rfl⟩ : token.kind = kind.tokenKind ∧ token.text = raw := Token.kind_of_sign same
  cases kind <;> simp [Token.leaf?, isKind, LiteralKind.tokenKind]

theorem rereads_symbolLit {pos : Pos} {value : Node} (binds : (Node.symbolLit pos value).bound = true) :
    Rereads .operand 19 (.symbolLit pos value) := by
  simp only [bound, Bool.and_eq_true, Bool.not_eq_true', same_iff] at binds
  refine .leaf rfl fun token same => ?_
  obtain ⟨isKind, isText⟩ : token.kind = .symbol ∧ token.text = value.nameText :=
    Token.kind_of_sign same
  refine ⟨.symbolLit token.pos (Parse.symbolName token.pos token.text), ?_, ?_⟩
  · simp [Token.leaf?, isKind, isText, binds.1]
  · simp only [unplaced, isText, binds.2]
    rfl

theorem rereads_varRef {pos : Pos} {inner : Node} (isFixed : inner.isFixedName = true) :
    Rereads .operand 19 (.varRef pos inner) := by
  cases inner with
  | name kind namePos text =>
      refine .leaf rfl fun token same => ⟨.varRef token.pos (.name kind token.pos text), ?_, rfl⟩
      obtain ⟨isKind, isText⟩ : token.kind = kind.tokenKind text ∧ token.text = text :=
        Token.kind_of_sign same
      cases kind with
      | keyword =>
          have isLiteral : literalKeywords.contains text = true := isFixed
          simp only [Token.leaf?, isKind, isText, NameKind.tokenKind, isLiteral, if_true]
      | ivar | cvar | gvar => simp [Token.leaf?, isKind, isText, NameKind.tokenKind]
      | _ => cases isFixed
  | _ => cases isFixed

/-- A statement in parentheses is read again. -/
theorem rereads_paren {pos : Pos} {expr : Node} (starts : expr.Starts)
    (rereads : Rereads .stmt 1 expr) : Rereads .operand 19 (.paren pos expr) := by
  intro t rest holds stops
  simp only [flat, signs_cons, signs_append, signs_nil, List.cons_append, List.append_assoc,
    List.nil_append] at holds
  have inside := holds.next
  obtain ⟨again, t₁, same, held, reads⟩ := rereads t.next _ inside
    (show (op ")").sign.trail < 1 by decide)
  refine ⟨.paren t.current.pos again, t₁.next, by simp [unplaced, same], held.next,
    Reads.operand held.next stops ?_⟩
  exact .paren (Token.isOp_of_sign holds.current) (inside.starts starts).2 reads
    (held.skips (by simp [Mark.sign, op])) (Token.isWord_of_sign held.current)

/-- The signs of values in a list. -/
theorem signs_inLine_cons (first : List Mark) (second : List Mark) (rest : List (List Mark)) :
    signs (inLine (first :: second :: rest)) =
      signs first ++ (op ",").sign :: signs (inLine (second :: rest)) := by
  simp only [inLine, join, List.flatMap_cons, signs_append, signs_behind, signs_cons,
    List.cons_append, List.nil_append]

theorem signs_inLine_single (first : List Mark) : signs (inLine [first]) = signs first := by
  simp [inLine, join]

/-- The items of an array or a hash are read again up to the closing bracket. -/
theorem reread_entries {item : Rule} {closer : String} (isCloser : closer ∈ ["]", "\x7d"])
    {nodes : List Node} (each : ∀ node ∈ nodes, node.Starts ∧ Rereads item 4 node)
    {t : ParseState} {rest : List Sign}
    (holds : t.Holds (signs (inLine (nodes.map flat)) ++ ⟨.op, closer⟩ :: rest)) :
    ∃ again t', again.map unplaced = nodes.map unplaced ∧ t'.Holds (⟨.op, closer⟩ :: rest) ∧
      Reads (.entries item closer) t (.list again) t' := by
  have table : ∀ closer ∈ ["]", "\x7d"], operator closer = op closer ∧
      (Sign.mk .op closer).trail < 1 ∧ (Sign.mk .op closer).lead < 1 ∧
      (Sign.mk .keyword closer).lead < 1 := by decide
  obtain ⟨isOp, stops, notLead⟩ := table closer isCloser
  have isClosed {u : ParseState} (held : u.Holds (⟨.op, closer⟩ :: rest)) :
      u.current.isWord closer = true :=
    Token.isWord_of_sign (held.current.trans (congrArg Mark.sign isOp).symm)
  induction nodes generalizing t with
  | nil => exact ⟨[], t, rfl, holds, .entriesDone (isClosed holds)⟩
  | cons node nodes ih =>
      obtain ⟨⟨starts, first⟩, others⟩ := List.forall_mem_cons.1 each
      have isOpen : t.current.isWord closer = false :=
        Token.not_isWord_of_lead (Nat.pos_of_ne_zero (holds.startsList starts).1) notLead
      cases nodes with
      | nil =>
          rw [List.map_singleton, signs_inLine_single] at holds
          obtain ⟨again, t₁, same, held, reads⟩ :=
            first t _ holds (lt_of_lt_of_le stops (by decide))
          refine ⟨[again], t₁, by simp [same], held,
            .entriesLast isOpen reads (held.skips (by simp)) ?_⟩
          exact Token.not_isWord_of_trail (held.trail.trans_lt stops) (by decide)
      | cons second nodes =>
          rw [List.map_cons, List.map_cons, signs_inLine_cons, List.append_assoc,
            List.cons_append] at holds
          obtain ⟨again, t₁, same, held, reads⟩ :=
            first t _ holds (show (op ",").sign.trail < 4 by decide)
          obtain ⟨later, t₂, sameOthers, heldOthers, readsOthers⟩ := ih others held.next
          refine ⟨again :: later, t₂, by simp [same, sameOthers], heldOthers, ?_⟩
          exact .entriesMore isOpen reads (held.skips (by simp [Mark.sign, op]))
            (Token.isWord_of_sign held.current)
            (held.next.startsList (others second List.mem_cons_self).1).2 readsOthers

/-- The values of a list are read again. -/
theorem reread_items {nodes : List Node} (nonempty : nodes ≠ [])
    (each : ∀ node ∈ nodes, node.Starts ∧ Rereads (.assignment false) 2 node)
    {t : ParseState} {rest : List Sign} (holds : t.Holds (signs (inLine (nodes.map flat)) ++ rest))
    (stops : Sign.trailOf rest < 1) :
    ∃ again t', again.map unplaced = nodes.map unplaced ∧ t'.Holds rest ∧
      Reads (.items .listedValue none) t (.list again) t' := by
  induction nodes generalizing t with
  | nil => exact absurd rfl nonempty
  | cons node nodes ih =>
      obtain ⟨⟨starts, first⟩, others⟩ := List.forall_mem_cons.1 each
      have noSplat : t.current.isWord "*" = false :=
        Token.not_isWord_of_lead (Nat.pos_of_ne_zero (holds.startsList starts).1) (by decide)
      cases nodes with
      | nil =>
          rw [List.map_singleton, signs_inLine_single] at holds
          obtain ⟨again, t₁, same, held, reads⟩ :=
            first t _ holds (lt_of_lt_of_le stops (by decide))
          refine ⟨[again], t₁, by simp [same], held, .itemsLast (.listedPlain noSplat reads) ?_⟩
          exact Token.not_isWord_of_trail (held.trail.trans_lt stops) (by decide)
      | cons second nodes =>
          rw [List.map_cons, List.map_cons, signs_inLine_cons, List.append_assoc,
            List.cons_append] at holds
          obtain ⟨again, t₁, same, held, reads⟩ :=
            first t _ holds (show (op ",").sign.trail < 2 by decide)
          obtain ⟨later, t₂, sameOthers, heldOthers, readsOthers⟩ :=
            ih (List.cons_ne_nil _ _) others held.next
          refine ⟨again :: later, t₂, by simp [same, sameOthers], heldOthers, ?_⟩
          exact .itemsMore (.listedPlain noSplat reads) (Token.isWord_of_sign held.current)
            (held.next.startsList (others second List.mem_cons_self).1).2 rfl readsOthers

/-- The right side of an assignment is read again. -/
theorem rereads_values {value : Node} {nodes : List Node} (nonempty : nodes ≠ [])
    (each : ∀ node ∈ nodes, node.Starts ∧ Rereads (.assignment false) 2 node)
    (marks : signs value.flat = signs (inLine (nodes.map flat)))
    (made : ofValues value.pos nodes = value) : Rereads .values 1 value := by
  intro t rest holds stops
  rw [marks] at holds
  obtain ⟨again, t', same, held, reads⟩ := reread_items nonempty each holds stops
  refine ⟨_, t', ?_, held, .values reads⟩
  rw [unplaced_ofValues same _ value.pos, made]

/-- An array is read again if its elements are. -/
theorem rereads_array {pos : Pos} {elements : List Node}
    (each : ∀ element ∈ elements, element.Starts ∧ Rereads .element 4 element) :
    Rereads .operand 19 (.array pos elements) := by
  intro t rest holds stops
  simp only [flat, flatList_eq_map, signs_cons, signs_append, signs_nil, List.cons_append,
    List.append_assoc, List.nil_append] at holds
  have inside := holds.next.atDepth 0
  have skips : (t.next.atDepth 0).Skips (t.next.atDepth 0) := by
    cases elements with
    | nil => exact inside.skips (by simp [Mark.sign, op])
    | cons first others => exact (inside.startsList (each first List.mem_cons_self).1).2
  obtain ⟨again, t₁, same, held, reads⟩ := reread_entries (by decide) each inside
  have behind := held.next.atDepth t.commandDepth
  refine ⟨.array t.current.pos again, _, by simp [unplaced, same], behind,
    Reads.operand behind stops ?_⟩
  exact .array (Token.isOp_of_sign holds.current) skips reads (Token.isWord_of_sign held.current)

/-- A hash is read again if its entries are. -/
theorem rereads_hash {pos : Pos} {entries : List Node}
    (each : ∀ entry ∈ entries, entry.Starts ∧ Rereads .entry 4 entry) :
    Rereads .operand 19 (.hash pos entries) := by
  intro t rest holds stops
  have marks : signs (Node.hash pos entries).flat =
      (op "\x7b").sign :: (signs (inLine (entries.map flat)) ++ [(op "\x7d").sign]) := by
    simp only [flat, flatList_eq_map]
    cases entries <;> simp [inLine, join]
  rw [marks, List.cons_append, List.append_assoc, List.singleton_append] at holds
  have inside := holds.next.atDepth 0
  have skips : (t.next.atDepth 0).Skips (t.next.atDepth 0) := by
    cases entries with
    | nil => exact inside.skips (by simp [Mark.sign, op])
    | cons first others => exact (inside.startsList (each first List.mem_cons_self).1).2
  obtain ⟨again, t₁, same, held, reads⟩ := reread_entries (by decide) each inside
  have behind := held.next.atDepth t.commandDepth
  refine ⟨.hash t.current.pos again, _, by simp [unplaced, same], behind,
    Reads.operand behind stops ?_⟩
  exact .hash (Token.isOp_of_sign holds.current) skips reads (Token.isWord_of_sign held.current)

/-- An entry is read again if its key and its value are. -/
theorem rereads_assoc {pos : Pos} {key value : Node}
    (isKey : key.isLabel = false → (∃ first more, signs key.flat = first :: more ∧ 4 ≤ first.lead) ∧
      Rereads .negated 4 key)
    (starts : value.Starts) (rereads : Rereads .negated 4 value) :
    Rereads .entry 4 (.assoc pos key value) := by
  intro t rest holds stops
  by_cases isLabel : key.isLabel = true
  · obtain ⟨keyPos, text, rfl⟩ := name_of_isLabel isLabel
    have marks : signs (Node.assoc pos (.name .label keyPos text) value).flat =
        ⟨.label, text⟩ :: signs value.flat := by
      simp [flat, isLabel, Mark.sign, NameKind.tokenKind]
    rw [marks, List.cons_append] at holds
    obtain ⟨kind, isText⟩ := Token.kind_of_sign holds.current
    obtain ⟨again, t', same, held, reads⟩ := rereads t.next rest holds.next stops
    refine ⟨_, t', ?_, held, .entryLabel kind (holds.next.starts starts).2 reads⟩
    simp [unplaced, same, isText]
  · obtain ⟨⟨first, more, startKey, leads⟩, rereadsKey⟩ := isKey (by simpa using isLabel)
    have marks : signs (Node.assoc pos key value).flat =
        signs key.flat ++ (op "=>").sign :: signs value.flat := by
      simp [flat, isLabel]
    rw [marks, List.append_assoc, List.cons_append] at holds
    obtain ⟨key', t₁, sameKey, held, readsKey⟩ :=
      rereadsKey t _ holds (show (op "=>").sign.trail < 4 by decide)
    obtain ⟨again, t', same, held', reads⟩ := rereads t₁.next rest held.next stops
    rw [startKey, List.cons_append] at holds
    rw [← holds.current] at leads
    refine ⟨.assoc t.current.pos key' again, t', by simp [unplaced, sameKey, same], held', ?_⟩
    refine .entryArrow (Token.not_isWord_of_lead leads (by decide)) ?_ readsKey
      (held.skips (by simp [Mark.sign, op])) (Token.isWord_of_sign held.current)
      (held.next.starts starts).2 reads
    intro isLabelToken
    simp [Sign.lead, Token.sign, isLabelToken] at leads

end Node

/-! ## Assignments -/

/-- The operators behind a target start no argument, no block and no list of arguments. -/
theorem assign_behind {t : ParseState} {text : String} {rest : List Sign}
    (known : text ∈ "=" :: Parse.assignOperators) (holds : t.Holds (⟨.op, text⟩ :: rest)) :
    Parse.isTightParen t.current = false ∧ Parse.startsCommandArgument t = false ∧
      (t.current.isWord "\x7b" || t.isAtDo) = false := by
  have table : ∀ text ∈ "=" :: Parse.assignOperators, text ∉ ["[", "->", "("] ∧
      text ∉ ["*", "**", "&", "-", "!"] ∧ text ≠ "\x7b" ∧ text ≠ "do" := by decide
  obtain ⟨noOpen, noSplat, noBrace, noDo⟩ := table text known
  obtain ⟨kind, rfl⟩ : t.current.kind = .op ∧ t.current.text = text :=
    Token.kind_of_sign holds.current
  refine ⟨?_, ?_, ?_⟩
  · simp only [List.mem_cons, List.not_mem_nil, or_false, not_or] at noOpen
    simp [Parse.isTightParen, Token.isOp, noOpen]
  · simp [Parse.startsCommandArgument, kind, noOpen, noSplat]
  · simp [Token.isWord, ParseState.isAtDo, noBrace, noDo]

/-- A bare name is read again as the target of an assignment. -/
theorem reread_target {target : Node} (shaped : target.wellShaped = true)
    (binds : target.isBound = true) (isField : target.isOfKind .varField = true)
    {t : ParseState} {text : String} {rest : List Sign} (known : text ∈ "=" :: Parse.assignOperators)
    (holds : t.Holds (signs target.flat ++ ⟨.op, text⟩ :: rest)) :
    ∃ expr again t₁ t₂, Reads .expression t (.node expr) t₁ ∧
      (Parse.target expr).run t₁ = .ok (again, t₂) ∧ again.unplaced = target.unplaced ∧
      t₁.Holds (⟨.op, text⟩ :: rest) ∧ t₂.Holds (⟨.op, text⟩ :: rest) := by
  have table : ∀ text ∈ "=" :: Parse.assignOperators, (Sign.mk .op text).trail = 2 := by decide
  obtain ⟨first, marks, lead⟩ := Node.lead_target shaped isField
  have here := (Node.wellShaped_iff.1 shaped).1
  rw [marks, List.singleton_append] at holds
  have behind := holds.next
  obtain ⟨noParen, noArgument, noBlock⟩ := assign_behind known behind
  have stops : t.next.current.sign.trail = 2 := behind.current ▸ table text known
  -- every bare name is a primary, and nothing tighter than an assignment follows it
  suffices primary : ∃ expr again t₂, Reads .primary t (.node expr) t.next ∧
      (Parse.target expr).run t.next = .ok (again, t₂) ∧ again.unplaced = target.unplaced ∧
      t₂.Holds (⟨.op, text⟩ :: rest) by
    obtain ⟨expr, again, t₂, reads, made, same, held⟩ := primary
    refine ⟨expr, again, t.next, t₂, ?_, made, same, behind, held⟩
    have operand := Reads.operand behind (by rw [← behind.trail, stops]; decide) reads
    exact .climb (show 3 ≤ 3 by decide) (show 3 ≤ 19 by decide) (le_refl _)
      (by rw [holds.current, lead]) (by rw [stops]; decide) operand
  cases target with
  | varField pos inner =>
      cases inner with
      | none => cases here
      | some inner =>
          cases inner with
          | name kind namePos name =>
              have marks : [Sign.mk (kind.tokenKind name) name] = [first] := marks
              obtain rfl := List.singleton_inj.1 marks
              obtain ⟨isKind, isText⟩ := Token.kind_of_sign holds.current
              cases kind with
              | ident =>
                  have bound := (Node.isBound_iff.1 ((Node.isBound_iff.1 binds).2 _
                    (by simp [Node.children, Node.fields, Field.toList]; rfl))).1
                  have kind : t.current.kind = .ident := by
                    rw [isKind]
                    simpa [Node.bound] using bound
                  by_cases isLocal : t.isLocal t.current.text = true
                  · exact ⟨_, _, _, .localVar kind noParen isLocal, rfl,
                      by simp [Node.unplaced, isText], behind⟩
                  · refine ⟨_, _, _, .vcall kind noParen (by simpa using isLocal) noArgument noBlock,
                      ParseM.run_bind_ok.2 ⟨_, ParseM.run_declare_ok.2 ⟨behind.hasScope, rfl⟩, rfl⟩,
                      by simp [Node.unplaced, isText], behind.declaring _⟩
              | const =>
                  exact ⟨_, _, _, .constant isKind noParen, rfl, by simp [Node.unplaced, isText],
                    behind⟩
              | ivar | cvar | gvar =>
                  refine ⟨_, _, _, .leaf (by simp [Token.leaf?, isKind, NameKind.tokenKind]; rfl),
                    rfl, by simp [Node.unplaced, isText], behind⟩
              | _ => cases here
          | _ => cases here
  | _ => cases isField

theorem Rereads.weaken {rule : Rule} {stop lower : Nat} {node : Node} (rereads : Rereads rule stop node)
    (le : lower ≤ stop) : Rereads rule lower node :=
  fun t rest holds stops => rereads t rest holds (lt_of_lt_of_le stops le)

namespace Node

variable {pos : Pos} {node target value : Node} {takesList : Bool} {stop : Nat}

/-- An expression is read again where an assignment could stand. -/
theorem rereads_unassigned (rereads : Rereads .expression 3 node) :
    Rereads (.assignment takesList) 2 node := by
  intro t rest holds stops
  obtain ⟨again, t', same, held, reads⟩ := rereads t rest holds (stops.trans (by decide))
  rw [← held.trail] at stops
  refine ⟨again, t', same, held, .unassigned reads ?_ (Token.not_isOpIn_of_trail stops (by decide))⟩
  have noOp : t'.current.isOpIn ["="] = false := Token.not_isOpIn_of_trail stops (by decide)
  simpa only [Token.isOpIn, Token.isOp, List.contains_cons, List.contains_nil, Bool.or_false]
    using noOp

theorem rereads_assign (shaped : target.wellShaped = true) (binds : target.isBound = true)
    (isField : target.isOfKind .varField = true) (starts : value.Starts)
    (rereads : Rereads (.rightSide takesList) stop value) :
    Rereads (.assignment takesList) stop (.assign pos target value) := by
  intro t rest holds stops
  have marks : signs (Node.assign pos target value).flat =
      signs target.flat ++ ⟨.op, "="⟩ :: signs value.flat := by
    simp [flat, Mark.sign, op]
  rw [marks, List.append_assoc, List.cons_append] at holds
  obtain ⟨expr, again, t₁, t₂, reads, made, same, held₁, held₂⟩ :=
    reread_target shaped binds isField (by decide) holds
  obtain ⟨value', t', sameValue, held, right⟩ := rereads t₂.next rest held₂.next stops
  refine ⟨.assign t.current.pos again value', t', by simp [unplaced, same, sameValue], held, ?_⟩
  exact .assign reads (Token.isOp_of_sign held₁.current) made (held₂.next.starts starts).2 right

theorem rereads_opAssign {text : String} (known : text ∈ Parse.assignOperators)
    (shaped : target.wellShaped = true) (binds : target.isBound = true)
    (isField : target.isOfKind .varField = true) (starts : value.Starts)
    (rereads : Rereads (.assignment false) stop value) :
    Rereads (.assignment takesList) stop (.opAssign pos target text value) := by
  intro t rest holds stops
  have marks : signs (Node.opAssign pos target text value).flat =
      signs target.flat ++ ⟨.op, text⟩ :: signs value.flat := by
    simp [flat, Mark.sign, op]
  have table : ∀ text ∈ Parse.assignOperators, text ≠ "=" := by decide
  rw [marks, List.append_assoc, List.cons_append] at holds
  obtain ⟨expr, again, t₁, t₂, reads, made, same, held₁, held₂⟩ :=
    reread_target shaped binds isField (List.mem_cons_of_mem _ known) holds
  obtain ⟨value', t', sameValue, held, right⟩ := rereads t₂.next rest held₂.next stops
  obtain ⟨-, isText⟩ : t₁.current.kind = .op ∧ t₁.current.text = text :=
    Token.kind_of_sign held₁.current
  refine ⟨.opAssign t.current.pos again t₁.current.text value', t',
    by simp [unplaced, same, sameValue, isText], held, ?_⟩
  refine .opAssign reads ?_ (Token.isOpIn_of_sign held₁.current known) made
    (held₂.next.starts starts).2 right
  simp [Token.isOp, isText, table text known]

/-- A statement is read again if it is as an assignment. -/
theorem rereads_stmt (starts : node.Starts) (rereads : Rereads (.assignment true) 1 node) :
    Rereads .stmt 1 node := by
  intro t rest holds stops
  obtain ⟨again, t', same, held, reads⟩ := rereads t rest holds stops
  refine ⟨again, t', same, held, .stmt ?_ reads ?_⟩
  · exact Token.not_isForeignKeyword_of_lead (holds.starts starts).1
  · exact Token.not_isWord_of_trail (held.trail.trans_lt stops) (by decide)

theorem rereads_element (starts : node.Starts) (rereads : Rereads .negated 4 node) :
    Rereads .element 4 node := by
  intro t rest holds stops
  obtain ⟨again, t', same, held, reads⟩ := rereads t rest holds stops
  refine ⟨again, t', same, held, .elementPlain ?_ reads⟩
  exact Token.not_isWord_of_lead (Nat.pos_of_ne_zero (holds.starts starts).1) (by decide)

/-- A unary operation is read again if its operand is. -/
theorem rereads_unary {text : String} (known : text ∈ unaryOperators)
    (rereads : Rereads (.atRank (unaryRank text)) (unaryRank text) node) :
    Rereads (.atRank (unaryRank text)) (unaryRank text) (.unary pos text node) := by
  intro t rest holds stops
  rw [signs_unary known, List.cons_append] at holds
  obtain ⟨again, t', same, held, reads⟩ := rereads t.next rest holds.next stops
  have isWord := Token.isWord_of_sign holds.current
  refine ⟨.unary t.current.pos text again, t', by simp [unplaced, same], held, ?_⟩
  have table : ∀ text ∈ unaryOperators, text = "not" ∨ text = "-" ∨
      unaryRank text = 18 ∧ (text = "!" ∨ text = "~" ∨ text = "+") := by decide
  rcases table text known with rfl | rfl | ⟨rank, is⟩
  · exact .not isWord reads
  · exact .minus isWord reads
  · rw [rank] at reads ⊢
    obtain ⟨-, rfl⟩ := Token.kind_of_sign holds.current
    refine .unary ?_ reads
    rcases is with is | is | is
    · rw [show t.current.isWord "!" = true from is ▸ isWord, Bool.true_or, Bool.true_or]
    · rw [show t.current.isWord "~" = true from is ▸ isWord, Bool.or_true, Bool.true_or]
    · rw [show t.current.isWord "+" = true from is ▸ isWord, Bool.or_true]

/-! ## Plain trees -/

/-- A tree is read again wherever it can stand. -/
structure Again (node : Node) : Prop where
  starts : node.isRight = true → node.Starts
  expr : node.isExpr = true → ∀ rank, 3 ≤ rank → rank ≤ node.rank →
    Rereads (.atRank rank) rank node ∧ (rank ∈ chainRanks → Extends rank node)
  value : node.isValue = true → ∀ takesList, (takesList = false → 2 ≤ node.rank) →
    Rereads (.assignment takesList) (if takesList then 1 else 2) node
  right : node.isRight = true → 2 ≤ node.rank → Rereads .values 1 node
  entry : node.isEntry = true → node.Starts ∧ Rereads .entry 4 node

theorem starts_of_isValue (shaped : node.wellShaped = true) (isPlain : node.isPlain = true)
    (isBound : node.isBound = true) (isValue : node.isValue = true) : node.Starts := by
  obtain ⟨first, more, start, -, some⟩ := lead_flat shaped isPlain isBound isValue
  exact ⟨first, more, start, some⟩

theorem rank_of_isExpr (shaped : node.wellShaped = true) (isExpr : node.isExpr = true) :
    3 ≤ node.rank ∧ node.rank ≤ 19 := by
  have here := (wellShaped_iff.1 shaped).1
  cases node with
  | binary pos left text right =>
      have table : ∀ text ∈ binaryOperators, 3 ≤ operatorRank text ∧ operatorRank text ≤ 19 := by
        decide
      simp only [Node.shaped, Bool.and_eq_true] at here
      exact table text (List.contains_iff_mem.1 here.1.1)
  | unary pos text operand =>
      simp only [rank, unaryRank]
      split
      · decide
      split <;> decide
  | _ => first | (cases isExpr; done) | simp [rank]

/-- What is read again as an assignment is so as a right side. -/
theorem rereads_single (starts : node.Starts) (isValue : node.isValue = true)
    (rereads : Rereads (.assignment false) 2 node) : Rereads .values 1 node := by
  refine rereads_values (List.cons_ne_nil node []) ?_ ?_ ?_
  · simpa using ⟨starts, rereads⟩
  · simp [inLine, join]
  · cases node <;> first | rfl | cases isValue

/-- An expression that is read again at its own rank is so wherever it can stand. -/
theorem Again.of_expr (shaped : node.wellShaped = true) (isPlain : node.isPlain = true)
    (isBound : node.isBound = true) (isExpr : node.isExpr = true)
    (own : Rereads (.atRank node.rank) node.rank node)
    (chain : node.rank ∈ chainRanks → Extends node.rank node) : node.Again := by
  have isValue := isValue_of_isExpr isExpr
  obtain ⟨low, high⟩ := rank_of_isExpr shaped isExpr
  obtain ⟨first, more, start, leads, some⟩ := lead_flat shaped isPlain isBound isValue
  have starts : node.Starts := ⟨first, more, start, some⟩
  have rereads (rank : Nat) (least : 3 ≤ rank) (le : rank ≤ node.rank) :
      Rereads (.atRank rank) rank node := own.climb least le high start leads
  have assigned (takesList : Bool) : Rereads (.assignment takesList) 2 node :=
    rereads_unassigned (rereads 3 (le_refl _) low)
  constructor
  · exact fun _ => starts
  · intro _ rank least le
    refine ⟨rereads rank least le, fun isChain => ?_⟩
    rcases Nat.lt_or_eq_of_le le with lt | rfl
    · exact .of_rereads isChain (rereads (rank + 1) (by omega) lt)
    · exact chain isChain
  · intro _ takesList _
    exact (assigned takesList).weaken (by split <;> decide)
  · intro _ _
    exact rereads_single starts isValue (assigned false)
  · intro isEntry
    cases node <;> first | (cases isExpr; done) | cases isEntry

/-- What begins with the signs of a node starts as the node does. -/
theorem Starts.extend {whole : Node} (starts : node.Starts)
    (begins : signs node.flat <+: signs whole.flat) : whole.Starts := by
  obtain ⟨first, others, start, leads⟩ := starts
  obtain ⟨more, marks⟩ := begins
  exact ⟨first, others ++ more, by rw [← marks, start, List.cons_append], leads⟩

theorem Again.of_assignment (noExpr : node.isExpr = false) (noEntry : node.isEntry = false)
    (isValue : node.isValue = true) (starts : node.Starts)
    (rereads : ∀ takesList, (takesList = false → 2 ≤ node.rank) →
      Rereads (.assignment takesList) (if takesList then 1 else 2) node) : node.Again := by
  constructor
  · exact fun _ => starts
  · exact fun isExpr => absurd (noExpr.symm.trans isExpr) Bool.false_ne_true
  · exact fun _ => rereads
  · exact fun _ rank => rereads_single starts isValue (rereads false fun _ => rank)
  · exact fun isEntry => absurd (noEntry.symm.trans isEntry) Bool.false_ne_true

/-- What is neither a value nor a list of values is read again if it is so as an entry. -/
theorem Again.of_entry (noRight : node.isRight = false) (noExpr : node.isExpr = false)
    (entry : node.isEntry = true → node.Starts ∧ Rereads .entry 4 node) : node.Again := by
  have noValue : node.isValue ≠ true := fun isValue =>
    absurd (noRight.symm.trans (isRight_of_isValue isValue)) Bool.false_ne_true
  constructor
  · exact fun isRight => absurd (noRight.symm.trans isRight) Bool.false_ne_true
  · exact fun isExpr => absurd (noExpr.symm.trans isExpr) Bool.false_ne_true
  · exact fun isValue => absurd isValue noValue
  · exact fun isRight => absurd (noRight.symm.trans isRight) Bool.false_ne_true
  · exact entry

theorem Again.of_list (noValue : node.isValue = false) (noEntry : node.isEntry = false)
    (starts : node.Starts) (rereads : Rereads .values 1 node) : node.Again := by
  constructor
  · exact fun _ => starts
  · exact fun isExpr =>
      absurd (noValue.symm.trans (isValue_of_isExpr isExpr)) Bool.false_ne_true
  · exact fun isValue => absurd (noValue.symm.trans isValue) Bool.false_ne_true
  · exact fun _ _ => rereads
  · exact fun isEntry => absurd (noEntry.symm.trans isEntry) Bool.false_ne_true

/-- A plain right side that is no list is a value. -/
theorem isValue_of_isRight (isRight : node.isRight = true) (isPlain : node.isPlain = true)
    (noList : node.isValueList = false) : node.isValue = true := by
  have here := (isPlain_iff.1 isPlain).1
  cases node <;> first | (cases noList; done) | (cases here; done) | exact isRight

/-- A plain tree that binds as its operators do and whose children are read again. -/
structure PartsAgain (node : Node) : Prop where
  wellShaped : node.wellShaped = true
  isPlain : node.isPlain = true
  isBound : node.isBound = true
  below : ∀ child ∈ node.children, child.Again

namespace PartsAgain

variable {node child : Node}

theorem shaped (parts : node.PartsAgain) : node.shaped = true :=
  (wellShaped_iff.1 parts.wellShaped).1

theorem plain (parts : node.PartsAgain) : node.plain = true :=
  (isPlain_iff.1 parts.isPlain).1

theorem bound (parts : node.PartsAgain) : node.bound = true :=
  (isBound_iff.1 parts.isBound).1

theorem shapedBelow (parts : node.PartsAgain) (mem : child ∈ node.children) :
    child.wellShaped = true :=
  (wellShaped_iff.1 parts.wellShaped).2 child mem

theorem plainBelow (parts : node.PartsAgain) (mem : child ∈ node.children) :
    child.isPlain = true :=
  (isPlain_iff.1 parts.isPlain).2 child mem

theorem boundBelow (parts : node.PartsAgain) (mem : child ∈ node.children) :
    child.isBound = true :=
  (isBound_iff.1 parts.isBound).2 child mem

theorem starts (parts : node.PartsAgain) (isValue : node.isValue = true) : node.Starts :=
  starts_of_isValue parts.wellShaped parts.isPlain parts.isBound isValue

theorem startsBelow (parts : node.PartsAgain) (mem : child ∈ node.children)
    (isValue : child.isValue = true) : child.Starts :=
  starts_of_isValue (parts.shapedBelow mem) (parts.plainBelow mem) (parts.boundBelow mem) isValue

theorem expr (parts : node.PartsAgain) (isExpr : node.isExpr = true)
    (own : Rereads (.atRank node.rank) node.rank node)
    (chain : node.rank ∈ chainRanks → Extends node.rank node) : node.Again :=
  .of_expr parts.wellShaped parts.isPlain parts.isBound isExpr own chain

/-- An operand is read again wherever it can stand. -/
theorem operand (parts : node.PartsAgain) (isExpr : node.isExpr = true) (rank : node.rank = 19)
    (own : Rereads .operand 19 node) : node.Again := by
  refine parts.expr isExpr ?_ ?_
  · rw [rank]
    exact own
  · rw [rank]
    exact fun isChain => absurd isChain (by decide)

end PartsAgain

theorem again_array {elements : List Node} (parts : (Node.array pos elements).PartsAgain) :
    (Node.array pos elements).Again := by
  have here := parts.shaped
  have binds := parts.bound
  simp only [Node.shaped, List.all_eq_true] at here
  simp only [bound, List.all_eq_true, decide_eq_true_eq] at binds
  refine parts.operand rfl rfl (rereads_array fun element isElement => ?_)
  have mem : element ∈ (Node.array pos elements).children := by
    simpa [children, fields, Field.toList] using isElement
  have isExpr := isExpr_of_isElement (here element isElement) (parts.plainBelow mem)
  have start := parts.startsBelow mem (isValue_of_isExpr isExpr)
  exact ⟨start, rereads_element start
    ((parts.below element mem).expr isExpr 4 (by decide) (binds element isElement)).1⟩

theorem again_hash {entries : List Node} (parts : (Node.hash pos entries).PartsAgain) :
    (Node.hash pos entries).Again := by
  have here := parts.shaped
  simp only [Node.shaped, List.all_eq_true] at here
  refine parts.operand rfl rfl (rereads_hash fun entry isEntry => ?_)
  exact (parts.below entry (by simpa [children, fields, Field.toList] using isEntry)).entry
    (here entry isEntry)

theorem again_paren {expr : Node} (parts : (Node.paren pos expr).PartsAgain) :
    (Node.paren pos expr).Again := by
  have isValue : expr.isValue = true := parts.shaped
  have mem : expr ∈ (Node.paren pos expr).children := by simp [children, fields, Field.toList]
  have start := parts.startsBelow mem isValue
  exact parts.operand rfl rfl (rereads_paren start
    (rereads_stmt start ((parts.below expr mem).value isValue true
      (absurd ·.symm Bool.false_ne_true))))

theorem again_unary {text : String} {operand : Node}
    (parts : (Node.unary pos text operand).PartsAgain) : (Node.unary pos text operand).Again := by
  have here := parts.shaped
  have binds := parts.bound
  simp only [Node.shaped, Bool.and_eq_true] at here
  simp only [bound, decide_eq_true_eq] at binds
  have table : ∀ text ∈ unaryOperators, 3 ≤ unaryRank text ∧ unaryRank text ∉ chainRanks := by
    decide
  have known := List.contains_iff_mem.1 here.1
  have inner := (parts.below operand (by simp [children, fields, Field.toList])).expr here.2 _
    (table text known).1 binds
  exact parts.expr rfl (rereads_unary known inner.1) fun isChain =>
    absurd isChain (table text known).2

/-- An operation chains with others of its rank, or takes one operator only. -/
theorem again_binary {text : String} {left right : Node}
    (parts : (Node.binary pos left text right).PartsAgain) :
    (Node.binary pos left text right).Again := by
  have here := parts.shaped
  have binds := parts.bound
  simp only [Node.shaped, Bool.and_eq_true] at here
  simp only [bound, Bool.and_eq_true, decide_eq_true_eq] at binds
  obtain ⟨⟨known, leftExpr⟩, rightExpr⟩ := here
  have known := List.contains_iff_mem.1 known
  have table : ∀ text ∈ binaryOperators, 3 ≤ operatorRank text ∧ 3 ≤ rightRank text ∧
      (operatorRank text ∈ chainRanks ∧ leftRank text = operatorRank text ∧
          rightRank text = operatorRank text + 1 ∨
        operatorRank text ∉ chainRanks ∧ operatorRank text ∈ [5, 8, 17] ∧
          leftRank text = operatorRank text + 1) := by decide
  have rightMem : right ∈ (Node.binary pos left text right).children := by
    simp [children, fields, Field.toList]
  have first := (parts.below left (by simp [children, fields, Field.toList])).expr leftExpr
  have second := (parts.below right rightMem).expr rightExpr
  have start := parts.startsBelow rightMem (isValue_of_isExpr rightExpr)
  obtain ⟨low, lowRight, ranks⟩ := table text known
  rcases ranks with ⟨isChain, leftIs, rightIs⟩ | ⟨noChain, isRank, leftIs⟩
  · have extended : Extends (operatorRank text) (.binary pos left text right) :=
      .binary known rfl isChain ((first _ low (leftIs ▸ binds.1)).2 isChain) start
        (second _ (by omega) (rightIs ▸ binds.2)).1
    exact parts.expr rfl (extended.rereads isChain) fun _ => extended
  · exact parts.expr rfl (.once isRank known (first _ (by omega) (leftIs ▸ binds.1)).1 start
      (second _ lowRight binds.2).1) fun isChain => absurd isChain noChain

theorem again_assoc {key value : Node} (parts : (Node.assoc pos key value).PartsAgain) :
    (Node.assoc pos key value).Again := by
  have here := parts.shaped
  have binds := parts.bound
  simp only [Node.shaped, Bool.and_eq_true] at here
  simp only [bound, Bool.and_eq_true, decide_eq_true_eq] at binds
  have keyMem : key ∈ (Node.assoc pos key value).children := by
    simp [children, fields, Field.toList]
  have valueMem : value ∈ (Node.assoc pos key value).children := by
    simp [children, fields, Field.toList]
  refine .of_entry rfl rfl fun _ => ⟨?_, rereads_assoc (fun noLabel => ?_)
    (parts.startsBelow valueMem (isValue_of_isExpr here.2))
    ((parts.below value valueMem).expr here.2 4 (by decide) binds.2).1⟩
  · have start : key.Starts := by
      by_cases isLabel : key.isLabel = true
      · obtain ⟨keyPos, text, rfl⟩ := name_of_isLabel isLabel
        exact ⟨_, [], rfl, by simp [Sign.lead, Mark.sign, NameKind.tokenKind]⟩
      · exact parts.startsBelow keyMem (isValue_of_isExpr (isExpr_of_isKey here.1 isLabel))
    refine start.extend ?_
    rw [flat, signs_append, signs_append, List.append_assoc]
    exact List.prefix_append ..
  · have isExpr := isExpr_of_isKey here.1 (by simp [noLabel])
    obtain ⟨first, more, start, leads, -⟩ := lead_flat (parts.shapedBelow keyMem)
      (parts.plainBelow keyMem) (parts.boundBelow keyMem) (isValue_of_isExpr isExpr)
    exact ⟨⟨first, more, start, binds.1.trans leads⟩,
      ((parts.below key keyMem).expr isExpr 4 (by decide) binds.1).1⟩

theorem again_assign (parts : (Node.assign pos target value).PartsAgain) :
    (Node.assign pos target value).Again := by
  have here := parts.shaped
  have binds := parts.bound
  simp only [Node.shaped, Bool.and_eq_true] at here
  simp only [bound, decide_eq_true_eq] at binds
  have targetMem : target ∈ (Node.assign pos target value).children := by
    simp [children, fields, Field.toList]
  have valueMem : value ∈ (Node.assign pos target value).children := by
    simp [children, fields, Field.toList]
  have start := (parts.below value valueMem).starts here.2
  refine .of_assignment rfl rfl rfl (parts.starts rfl) fun takesList single =>
    rereads_assign (parts.shapedBelow targetMem) (parts.boundBelow targetMem) parts.plain start ?_
  cases takesList with
  | true => exact (parts.below value valueMem).right here.2 binds
  | false =>
      have noList : value.isValueList = false := by
        have rank := single rfl
        simp only [Node.rank] at rank
        split at rank
        · omega
        next noList => simpa using noList
      have isValue := isValue_of_isRight here.2 (parts.plainBelow valueMem) noList
      exact (parts.below value valueMem).value isValue false fun _ => binds

theorem again_opAssign {text : String} (parts : (Node.opAssign pos target text value).PartsAgain) :
    (Node.opAssign pos target text value).Again := by
  have here := parts.shaped
  have binds := parts.bound
  simp only [Node.shaped, Bool.and_eq_true] at here
  simp only [bound, decide_eq_true_eq] at binds
  obtain ⟨⟨-, known⟩, isValue⟩ := here
  have targetMem : target ∈ (Node.opAssign pos target text value).children := by
    simp [children, fields, Field.toList]
  have valueMem : value ∈ (Node.opAssign pos target text value).children := by
    simp [children, fields, Field.toList]
  refine .of_assignment rfl rfl rfl (parts.starts rfl) fun takesList _ =>
    (rereads_opAssign (List.contains_iff_mem.1 known) (parts.shapedBelow targetMem)
      (parts.boundBelow targetMem) parts.plain (parts.startsBelow valueMem isValue)
      ((parts.below value valueMem).value isValue false fun _ => binds)).weaken ?_
  cases takesList <;> decide

/-- A plain node has no splat among its children. -/
theorem PartsAgain.noSplat {nodes : List Node} (parts : node.PartsAgain)
    (inside : ∀ child ∈ nodes, child ∈ node.children) : nodes.any isSplat = false := by
  rw [List.any_eq_false]
  intro child mem isSplat
  have firm := (isPlain_iff.1 (parts.plainBelow (inside child mem))).1
  cases child <;> first | (cases isSplat; done) | cases firm

theorem again_valueList {values : List Node} (parts : (Node.valueList pos values).PartsAgain) :
    (Node.valueList pos values).Again := by
  have here := parts.shaped
  have binds := parts.bound
  simp only [Node.shaped, Bool.and_eq_true, List.all_eq_true] at here
  simp only [bound, Bool.and_eq_true, List.all_eq_true, decide_eq_true_eq] at binds
  have inside (value : Node) (mem : value ∈ values) :
      value ∈ (Node.valueList pos values).children := by
    simpa [children, fields, Field.toList] using mem
  have each (value : Node) (mem : value ∈ values) :
      value.Starts ∧ Rereads (.assignment false) 2 value := by
    have isChild := inside value mem
    have isValue := isValue_of_isListed (here.2 value mem) (parts.plainBelow isChild)
    exact ⟨parts.startsBelow isChild isValue,
      (parts.below value isChild).value isValue false fun _ => binds.2 value mem⟩
  have noSplat := parts.noSplat inside
  obtain ⟨first, second, others, rfl⟩ : ∃ first second others,
      values = first :: second :: others := by
    cases values with
    | nil => cases binds.1
    | cons first others =>
        cases others with
        | nil => exact absurd binds.1 (Nat.lt_irrefl 1)
        | cons second others => exact ⟨first, second, others, rfl⟩
  refine .of_list rfl rfl ((each first List.mem_cons_self).1.extend ?_)
    (rereads_values (List.cons_ne_nil _ _) each ?_ ?_)
  · rw [flat, flatList_eq_map, List.map_cons, List.map_cons, signs_inLine_cons]
    exact List.prefix_append ..
  · rw [flat, flatList_eq_map]
  · exact if_neg (Bool.not_eq_true _ ▸ noSplat)

/-- Every plain tree that binds as its operators do is read again. -/
theorem again (shaped : node.wellShaped = true) (isPlain : node.isPlain = true)
    (isBound : node.isBound = true) : node.Again := by
  induction node using induction_children with
  | step node ih =>
    have inside := (wellShaped_iff.1 shaped).2
    obtain ⟨isFirm, allPlain⟩ := isPlain_iff.1 isPlain
    have allBound := (isBound_iff.1 isBound).2
    have parts : node.PartsAgain := ⟨shaped, isPlain, isBound, fun child mem =>
      ih child mem (inside child mem) (allPlain child mem) (allBound child mem)⟩
    cases node with
    | literal kind pos raw => exact parts.operand rfl rfl (rereads_literal kind pos raw)
    | symbolLit pos value => exact parts.operand rfl rfl (rereads_symbolLit parts.bound)
    | varRef pos inner => exact parts.operand rfl rfl (rereads_varRef isFirm)
    | array pos elements => exact again_array parts
    | hash pos entries => exact again_hash parts
    | paren pos expr => exact again_paren parts
    | unary pos text operand => exact again_unary parts
    | binary pos left text right => exact again_binary parts
    | assoc pos key value => exact again_assoc parts
    | assign pos target value => exact again_assign parts
    | opAssign pos target text value => exact again_opAssign parts
    | valueList pos values => exact again_valueList parts
    | name | varField => exact .of_entry rfl rfl (absurd · Bool.false_ne_true)
    | _ => cases isFirm

end Node

end RubyFormat
