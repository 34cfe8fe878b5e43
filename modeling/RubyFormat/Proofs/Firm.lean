import RubyFormat.Proofs.Texts
import RubyFormat.Proofs.Trimmed

/-!
# Lines end with ink

A text is read with one bit in mind, whether the line that has been reached ends with a character
that is no white space, and a line may be broken only where it does.  A document leads from the one
state of the line to the other, in broken groups as in flat ones and for every width of indentation.
Most constructs are firm: wherever they are put, they break no line too early and end their own line
with ink.  The others, such as the body of a block, need ink before them.
-/

namespace RubyFormat

namespace Text

/-- Whether the line that a text ends on ends with ink, given whether the line that it starts on does.
There is no answer if the text breaks a line that does not. -/
def lineEnd? : Bool → List Char → Option Bool
  | inked, [] => some inked
  | inked, c :: rest => if c == '\n' && !inked then none else lineEnd? (!isBlank c) rest

theorem lineEnd?_append (inked : Bool) (left right : List Char) :
    lineEnd? inked (left ++ right) = (lineEnd? inked left).bind fun after => lineEnd? after right := by
  induction left generalizing inked with
  | nil => rfl
  | cons c rest ih =>
      rw [List.cons_append, lineEnd?, lineEnd?]
      split
      · rfl
      · exact ih _

theorem lineEnd?_cons {c : Char} (noBreak : c ≠ '\n') (inked : Bool) (rest : List Char) :
    lineEnd? inked (c :: rest) = lineEnd? (!isBlank c) rest := by
  simp [lineEnd?, noBreak]

theorem lineEnd?_blanks (count : Nat) : lineEnd? false (List.replicate count ' ') = some false := by
  induction count with
  | zero => rfl
  | succ count ih =>
      rw [List.replicate_succ, lineEnd?_cons (by decide)]
      exact ih

/-- A text that breaks no line too early and ends with ink. -/
def Firm (text : List Char) : Prop :=
  lineEnd? false text = some true

instance (text : List Char) : Decidable (Firm text) :=
  inferInstanceAs (Decidable (_ = _))

/-- A firm text can follow anything. -/
theorem Firm.follows {text : List Char} (firm : Firm text) (inked : Bool) :
    lineEnd? inked text = some true := by
  cases text with
  | nil => cases firm
  | cons c rest =>
      have noBreak : c ≠ '\n' := by
        rintro rfl
        cases firm
      rw [lineEnd?_cons noBreak, ← lineEnd?_cons noBreak false]
      exact firm

theorem Firm.cons {c : Char} {rest : List Char} (noBreak : c ≠ '\n') (firm : Firm rest) :
    Firm (c :: rest) := by
  rw [Firm, lineEnd?_cons noBreak]
  exact firm.follows _

end Text

namespace Doc

/-- A document that is put on a line leads to a line, each of which ends with ink or does not. -/
def Leads (before : Bool) (doc : Doc) (after : Bool) : Prop :=
  ∀ width level broken, Text.lineEnd? before (doc.chars width level broken) = some after

/-- A document that can be put anywhere and leads to a line that ends with ink. -/
def Firm (doc : Doc) : Prop :=
  doc.Leads false true

theorem Firm.leads {doc : Doc} (firm : doc.Firm) (before : Bool) : doc.Leads before true :=
  fun width level broken => Text.Firm.follows (firm width level broken) before

namespace Leads

variable {before between after : Bool} {doc part : Doc} {parts others : List Doc}

theorem text {value : String} (ends : Text.lineEnd? before value.toList = some after) :
    (Doc.text value).Leads before after := by
  intro width level broken
  rw [chars_text, ends]

theorem nil : (Doc.concat []).Leads before before := by
  intro width level broken
  simp [Text.lineEnd?]

theorem append (first : (Doc.concat parts).Leads before between)
    (second : (Doc.concat others).Leads between after) :
    (Doc.concat (parts ++ others)).Leads before after := by
  intro width level broken
  have first := first width level broken
  have second := second width level broken
  simp only [chars_concat, List.flatMap_append] at first second ⊢
  rw [Text.lineEnd?_append, first, Option.bind_some, second]

theorem cons (first : part.Leads before between) (rest : (Doc.concat parts).Leads between after) :
    (Doc.concat (part :: parts)).Leads before after := by
  intro width level broken
  have rest := rest width level broken
  simp only [chars_concat, List.flatMap_cons] at rest ⊢
  rw [Text.lineEnd?_append, first width level broken, Option.bind_some, rest]

theorem group (inner : doc.Leads before after) : (Doc.group doc).Leads before after := by
  intro width level broken
  rw [chars_group]
  exact inner width level _

theorem indent (inner : doc.Leads before after) : (Doc.indent doc).Leads before after := by
  intro width level broken
  rw [chars_indent]
  exact inner width _ broken

/-- A line is put behind ink, and none stands behind it. -/
theorem line (hard : Bool) : (Doc.line hard).Leads true false := by
  intro width level broken
  rw [chars_line]
  split
  · exact Text.lineEnd?_blanks _
  · rfl

end Leads

theorem firm_text {value : String} (firm : Text.Firm value.toList) : (Doc.text value).Firm :=
  .text firm

/-- Firm parts with a separator between them that leads from ink to none. -/
theorem firm_join {separator : Doc} {parts : List Doc} (between : separator.Leads true false)
    (some : parts ≠ []) (each : ∀ part ∈ parts, part.Firm) : (join separator parts).Firm := by
  unfold join
  induction parts with
  | nil => exact absurd rfl some
  | cons first rest ih =>
      obtain ⟨own, others⟩ := List.forall_mem_cons.1 each
      cases rest with
      | nil => exact .cons own .nil
      | cons second rest =>
          rw [List.intersperse_cons_cons]
          exact .cons own (.cons between (ih (List.cons_ne_nil _ _) others))

theorem leads_join {separator : Doc} {parts : List Doc} (between : separator.Leads true false)
    (each : ∀ part ∈ parts, part.Firm) : (join separator parts).Leads true true := by
  cases parts with
  | nil => exact .nil
  | cons first rest => exact (firm_join between (List.cons_ne_nil _ _) each).leads true

end Doc

/-! ## The constructs -/

namespace Layout

open Doc

variable {items elements comments : List Doc} {part left right receiver message : Doc}
  {args params : Option Doc}

theorem leads_comma : comma.Leads true false :=
  .cons (.text rfl) (.cons (.line _) .nil)

theorem firm_listed (some : items ≠ []) (each : ∀ item ∈ items, item.Firm) : (listed items).Firm :=
  firm_join leads_comma some each

theorem leads_listed (each : ∀ item ∈ items, item.Firm) : (listed items).Leads true true :=
  leads_join leads_comma each

theorem firm_stmts (some : items ≠ []) (each : ∀ item ∈ items, item.Firm) : (stmts items).Firm :=
  firm_join (.line true) some each

theorem leads_indentedStmts (each : ∀ item ∈ items, item.Firm) :
    (indentedStmts items).Leads true true := by
  unfold indentedStmts
  split
  · exact .text rfl
  next some =>
    have stmts := firm_stmts (by simpa using some) each
    exact .indent (.cons (.line _) (.cons stmts .nil))

theorem leads_trailing (each : ∀ comment ∈ comments, comment.Firm) :
    (Doc.concat (trailing comments)).Leads true true := by
  induction comments with
  | nil => exact .nil
  | cons comment rest ih =>
      obtain ⟨own, others⟩ := List.forall_mem_cons.1 each
      exact .cons (.text rfl) (.cons own (ih others))

theorem leads_hanging (firm : part.Firm) : (hanging part).Leads true true :=
  .indent (.cons (.line _) (.cons firm .nil))

/-- A closing brace on a line of its own. -/
theorem leads_brace (hard : Bool) :
    (Doc.concat [Doc.line hard, Doc.text "\x7d"]).Leads true true :=
  .cons (.line hard) (.cons (.text rfl) .nil)

theorem firm_array (each : ∀ element ∈ elements, element.Firm) : (array elements).Firm := by
  unfold array
  split
  · exact .text rfl
  · exact .group (.cons (.text rfl) (.cons (leads_listed each) (.cons (.text rfl) .nil)))

theorem firm_hash (each : ∀ element ∈ elements, element.Firm) : (hash elements).Firm := by
  unfold hash
  split
  · exact .text rfl
  next some =>
    have entries := leads_hanging (firm_listed (by simpa using some) each)
    exact .group (.cons (.text rfl) (.cons entries (leads_brace _)))

theorem firm_assoc (labelled : Bool) (key : left.Firm) (value : right.Firm) :
    (assoc labelled left right).Firm := by
  unfold assoc
  split
  · exact .group (.cons key (.cons (leads_hanging value) .nil))
  · exact .group (.cons key (.cons (.text rfl) (.cons (leads_hanging value) .nil)))

theorem leads_bracedStmts (hard : Bool) (some : items ≠ []) (each : ∀ item ∈ items, item.Firm) :
    (bracedStmts (.line hard) items).Leads true true :=
  .indent (.cons (.line hard) (.cons (firm_stmts some each) .nil))

theorem firm_lambdaHead (each : ∀ inner ∈ params, inner.Leads true true) :
    (Doc.concat (lambdaHead params)).Firm := by
  cases params with
  | none => exact .cons (.text rfl) .nil
  | some params =>
      have enclosed : (Doc.concat [Doc.text "(", params, Doc.text ")"]).Firm :=
        .cons (.text rfl) (.cons (each params rfl) (.cons (.text rfl) .nil))
      exact .cons (.text rfl) (.cons (enclosed.leads true) .nil)

theorem firm_lambda (hard : Bool) (inner : ∀ inner ∈ params, inner.Leads true true)
    (each : ∀ item ∈ items, item.Firm) : (lambda params (.line hard) items).Firm := by
  have head := firm_lambdaHead inner
  unfold lambda
  split
  · exact .append head (.cons (.text rfl) .nil)
  next some =>
    have body := leads_bracedStmts hard (by simpa using some) each
    have front : (Doc.concat (lambdaHead params ++ [Doc.text " "])).Leads false false :=
      .append head (.cons (.text rfl) .nil)
    exact .group (.cons front (.cons (.text rfl) (.cons body (leads_brace hard))))

theorem firm_index (sent : receiver.Firm) (inner : ∀ inner ∈ args, inner.Leads true true) :
    (index receiver args).Firm := by
  cases args with
  | none => exact .cons sent (.cons (.text rfl) .nil)
  | some args =>
      exact .cons sent (.cons (.text rfl)
        (.cons (inner args rfl) (.cons (.text rfl) .nil)))

theorem firm_assign (stays : Bool) (target : left.Firm) (value : right.Firm) :
    (assign stays left right).Firm := by
  unfold assign
  split
  · exact .group (.cons target (.cons (.text rfl) (.cons value .nil)))
  · exact .group (.cons target (.cons (.text rfl) (.cons (leads_hanging value) .nil)))

theorem firm_operation {op : String} (first : left.Firm) (sign : Text.Firm op.toList)
    (second : right.Firm) : (operation left op right).Firm :=
  .group (.cons first (.cons (.text rfl) (.cons (.text sign) (.cons (leads_hanging second) .nil))))

theorem firm_binary {op : String} (first : left.Firm) (sign : Text.Firm op.toList)
    (second : right.Firm) : (binary left op right).Firm := by
  unfold binary
  split
  · exact .cons first (.cons ((firm_text sign).leads true) (.cons (second.leads true) .nil))
  · exact firm_operation first sign second

theorem firm_unary {op : String} (sign : Text.Firm op.toList) (operand : part.Firm) :
    (unary op part).Firm := by
  unfold unary
  split
  · exact .cons (.text rfl) (.cons operand .nil)
  · exact .cons (.text sign) (.cons (operand.leads true) .nil)

theorem firm_marked {mark : String} (sign : Text.Firm mark.toList)
    (inner : ∀ inner ∈ args, inner.Leads true true) : (marked mark args).Firm := by
  cases args with
  | none => exact .text sign
  | some args => exact .cons (.text sign) (.cons (inner args rfl) .nil)

theorem firm_argParen (inner : ∀ inner ∈ args, inner.Leads true true) : (argParen args).Firm := by
  cases args with
  | none => exact .text rfl
  | some args =>
      exact .cons (.text rfl) (.cons (inner args rfl) (.cons (.text rfl) .nil))

theorem firm_argParenWith {extra : String} (sign : Text.Firm extra.toList)
    (inner : ∀ inner ∈ args, inner.Leads true true) : (argParenWith extra args).Firm := by
  have last : (Doc.concat [Doc.text extra, Doc.text ")"]).Firm :=
    .cons (.text sign) (.cons (.text rfl) .nil)
  cases args with
  | none => exact .cons (.text rfl) (last.leads true)
  | some args =>
      exact .cons (.text rfl) (.cons (inner args rfl) (.cons (.text rfl) last))

theorem firm_call {operator : String} (sent : receiver.Firm) (sign : Text.Firm operator.toList)
    (named : message.Leads true true) (inner : ∀ inner ∈ args, inner.Leads true true)
    (each : ∀ comment ∈ comments, comment.Firm) :
    (call receiver operator message args comments).Firm := by
  have behind : (Doc.concat args.toList).Leads true true := by
    cases args with
    | none => exact .nil
    | some args => exact .cons (inner args rfl) .nil
  have front : (Doc.concat [receiver, Doc.text operator, message]).Firm :=
    .cons sent (.cons ((firm_text sign).leads true) (.cons named .nil))
  exact .append (.append front behind) (leads_trailing each)

theorem firm_fcall (named : message.Firm) (inner : ∀ inner ∈ args, inner.Leads true true) :
    (fcall message args).Firm := by
  cases args with
  | none => exact named
  | some args => exact .cons named (.cons (inner args rfl) .nil)

theorem firm_fcallWith {extra : String} (sign : Text.Firm extra.toList) (named : message.Firm)
    (inner : ∀ inner ∈ args, inner.Leads true true) : (fcallWith extra message args).Firm := by
  cases args with
  | none =>
      exact .cons named (.cons (.text rfl)
        (.cons ((firm_text sign).leads true) (.cons (.text rfl) .nil)))
  | some args => exact .cons named (.cons (inner args rfl) .nil)

theorem leads_blockParams (each : ∀ inner ∈ params, inner.Firm) :
    (blockParams params).Leads true true := by
  cases params with
  | none => exact .text rfl
  | some params => exact .cons (.text rfl) (.cons (each params rfl) .nil)

theorem firm_blockVar (inner : ∀ inner ∈ params, inner.Leads true true) :
    (blockVar params).Firm := by
  cases params with
  | none => exact .text rfl
  | some params =>
      exact .cons (.text rfl) (.cons (inner params rfl) (.cons (.text rfl) .nil))

theorem firm_braceBlock (hard : Bool) (inner : ∀ inner ∈ params, inner.Firm)
    (each : ∀ item ∈ items, item.Firm) : (braceBlock params (.line hard) items).Firm := by
  have head := leads_blockParams inner
  unfold braceBlock
  split
  · split
    · exact .text rfl
    · exact .cons (.text rfl) (.cons head (.cons (.text rfl) .nil))
  next some =>
    have body := leads_bracedStmts hard (by simpa using some) each
    exact .group (.cons (.text rfl) (.cons head (.cons body (leads_brace hard))))

theorem leads_clause {word : String} (sign : Text.Firm word.toList)
    (each : ∀ item ∈ items, item.Firm) : (clause word items).Leads true true :=
  .cons (.line _) (.cons (.text sign) (.cons (leads_indentedStmts each) .nil))

theorem leads_bodyStmt {rescue : Option Doc} {elseBody ensure : Option (List Doc)}
    (each : ∀ item ∈ items, item.Firm) (handler : ∀ inner ∈ rescue, inner.Leads true true)
    (otherwise : ∀ items ∈ elseBody, ∀ item ∈ items, item.Firm)
    (last : ∀ items ∈ ensure, ∀ item ∈ items, item.Firm) :
    (bodyStmt items rescue elseBody ensure).Leads true true := by
  have body : (Doc.concat (if items.isEmpty then [] else [indentedStmts items])).Leads true true := by
    split
    · exact .nil
    · exact .cons (leads_indentedStmts each) .nil
  have handlers : (Doc.concat rescue.toList).Leads true true := by
    cases rescue with
    | none => exact .nil
    | some rescue => exact .cons (handler rescue rfl) .nil
  have closing {word : String} {stmts : Option (List Doc)} (sign : Text.Firm word.toList)
      (each : ∀ items ∈ stmts, ∀ item ∈ items, item.Firm) :
      (Doc.concat (stmts.map (clause word)).toList).Leads true true := by
    cases stmts with
    | none => exact .nil
    | some items => exact .cons (leads_clause sign (each items rfl)) .nil
  exact .append (.append (.append body handlers) (closing (by decide) otherwise))
    (closing (by decide) last)

theorem leads_rescue {exceptions : List Doc} {target next : Option Doc}
    (named : ∀ item ∈ exceptions, item.Firm) (held : ∀ inner ∈ target, inner.Firm)
    (each : ∀ item ∈ items, item.Firm) (others : ∀ inner ∈ next, inner.Leads true true) :
    (rescue exceptions target items next).Leads true true := by
  have head : (Doc.concat [hardLine, Doc.text "rescue"]).Leads true true :=
    .cons (.line _) (.cons (.text rfl) .nil)
  have list : (Doc.concat (exceptionList exceptions)).Leads true true := by
    unfold exceptionList
    split
    · exact .nil
    next some =>
      have joined := firm_join (.text rfl : (Doc.text ", ").Leads true false)
        (by simpa using some) named
      exact .cons (.text rfl) (.cons joined .nil)
  have holder : (Doc.concat (exceptionTarget target)).Leads true true := by
    cases target with
    | none => exact .nil
    | some target => exact .cons (.text rfl) (.cons (held target rfl) .nil)
  have chain : (Doc.concat next.toList).Leads true true := by
    cases next with
    | none => exact .nil
    | some next => exact .cons (others next rfl) .nil
  exact .append (.append (.append (.append head list) holder)
    (.cons (leads_indentedStmts each) .nil)) chain

theorem firm_defaulted {separator : String} {default : Option Doc} (named : left.Firm)
    (gap : (Doc.text separator).Leads true false) (value : ∀ inner ∈ default, inner.Firm) :
    (defaulted left separator default).Firm := by
  cases default with
  | none => exact named
  | some default => exact .cons named (.cons gap (.cons (value default rfl) .nil))

end Layout

/-! ## The nodes of a tree -/

namespace Node

/-- A tree as a source gives it: its nodes are shaped and its texts are firm. -/
structure Printable (node : Node) : Prop where
  shaped : node.wellShaped = true
  texts : node.AllTexts fun text => Text.Firm text.toList

theorem Printable.child {node child : Node} (printable : node.Printable)
    (mem : child ∈ node.children) : child.Printable :=
  ⟨(wellShaped_iff.1 printable.shaped).2 child mem, printable.texts.below child mem⟩

/-- The kinds of node that may write nothing, or a line break first. -/
def restless : List Kind := [.callShorthand, .program, .params, .bodyStmt, .rescue, .bare]

/-- Whether a node always starts on the line that it is put on. -/
def isFirm (node : Node) : Bool :=
  !restless.contains node.kind

/-- Whether a node can stand in some place that takes any of several kinds of node. -/
def hasRole (node : Node) : Bool :=
  node.isExpr || node.isValue || node.isStmt || node.isListed || node.isElement || node.isPart ||
    node.isRight || node.isKey || node.isTarget || node.isParam || node.isEntry || node.isName ||
    node.isVariable || node.isAssignable || node.isCallee || node.isBlock

theorem isFirm_of_hasRole {node : Node} (hasRole : node.hasRole = true) : node.isFirm = true := by
  cases node <;> first | rfl | cases hasRole

theorem isFirm_of_isOfKind {node : Node} {kind : Kind} (isKind : node.isOfKind kind = true)
    (other : restless.contains kind = false) : node.isFirm = true := by
  have same : node.kind = kind := by simpa [isOfKind] using isKind
  rw [isFirm, same, other]
  rfl

theorem noProgram_of_isOfKind {node : Node} {kind : Kind} (isKind : node.isOfKind kind = true)
    (other : (kind == .program) = false) : node.isOfKind .program = false := by
  have same : node.kind = kind := by simpa [isOfKind] using isKind
  rw [isOfKind, same, other]

theorem noProgram_of_isFirm {node : Node} (isFirm : node.isFirm = true) :
    node.isOfKind .program = false := by
  cases node <;> first | rfl | cases isFirm

/-- The documents of a node are firm, or need nothing but ink before them. -/
structure Settled (options : Options) (node : Node) : Prop where
  firm : node.isFirm = true → ∀ parents, (node.layout options parents).Firm
  leads : node.isOfKind .program = false →
    ∀ parents, (node.layout options parents).Leads true true

namespace Settled

variable {options : Options} {node : Node} {nodes : List Node} {part : Option Node}

theorem ofRole (settled : node.Settled options) (role : node.hasRole = true)
    (parents : List Node) : (node.layout options parents).Firm :=
  settled.firm (isFirm_of_hasRole role) parents

theorem ofKind {kind : Kind} (settled : node.Settled options) (isKind : node.isOfKind kind = true)
    (other : restless.contains kind = false) (parents : List Node) :
    (node.layout options parents).Firm :=
  settled.firm (isFirm_of_isOfKind isKind other) parents

theorem list (each : ∀ child ∈ nodes, child.Settled options)
    (isFirm : ∀ child ∈ nodes, child.isFirm = true) (parents : List Node) :
    ∀ doc ∈ layoutList options parents nodes, doc.Firm := by
  rw [layoutList_eq_map]
  exact List.forall_mem_map.2 fun child mem => (each child mem).firm (isFirm child mem) parents

theorem listOfRole (each : ∀ child ∈ nodes, child.Settled options)
    (role : ∀ child ∈ nodes, child.hasRole = true) (parents : List Node) :
    ∀ doc ∈ layoutList options parents nodes, doc.Firm :=
  list each (fun child mem => isFirm_of_hasRole (role child mem)) parents

theorem option (each : ∀ child ∈ part, child.Settled options)
    (isFirm : ∀ child ∈ part, child.isFirm = true) (parents : List Node) :
    ∀ doc ∈ layoutOption options parents part, doc.Firm := by
  cases part with
  | none => exact nofun
  | some child =>
      rintro _ ⟨⟩
      exact (each child rfl).firm (isFirm child rfl) parents

theorem optionLeads (each : ∀ child ∈ part, child.Settled options)
    (noProgram : ∀ child ∈ part, child.isOfKind .program = false) (parents : List Node) :
    ∀ doc ∈ layoutOption options parents part, doc.Leads true true := by
  cases part with
  | none => exact nofun
  | some child =>
      rintro _ ⟨⟩
      exact (each child rfl).leads (noProgram child rfl) parents

theorem optionOfKind {kind : Kind} (each : ∀ child ∈ part, child.Settled options)
    (isKind : ∀ child ∈ part, child.isOfKind kind = true) (other : (kind == .program) = false)
    (parents : List Node) :
    ∀ doc ∈ layoutOption options parents part, doc.Leads true true :=
  optionLeads each (fun child mem => noProgram_of_isOfKind (isKind child mem) other) parents

theorem optionList {nodes : Option (List Node)}
    (each : ∀ inner ∈ nodes, ∀ child ∈ inner, child.Settled options)
    (isFirm : ∀ inner ∈ nodes, ∀ child ∈ inner, child.isFirm = true) (parents : List Node) :
    ∀ docs ∈ layoutOptionList options parents nodes, ∀ doc ∈ docs, doc.Firm := by
  cases nodes with
  | none => exact nofun
  | some nodes =>
      rintro _ ⟨⟩
      exact list (each nodes rfl) (isFirm nodes rfl) parents

end Settled

theorem firm_callOperator {operator : String} (known : callOperators.contains operator = true) :
    Text.Firm operator.toList := by
  have table : ∀ operator ∈ callOperators, Text.Firm operator.toList := by decide
  exact table operator (List.contains_iff_mem.1 known)

section Messages

variable {P : String → Prop}

/-- The message that a statement sends is one of its texts. -/
theorem AllTexts.messageTo? {stmt : Node} {holder name : String} (whole : stmt.AllTexts P)
    (found : stmt.messageTo? holder = some name) : P name := by
  unfold Node.messageTo? at found
  split at found
  next operator messagePos message =>
    obtain ⟨-, same⟩ := Option.ite_none_right_eq_some.1 found
    obtain rfl := Option.some.inj same
    have inner := whole.below (.name .ident messagePos message)
      (by simp [children, fields, Field.toList])
    exact (allTexts_iff.1 inner).1 message rfl
  · cases found

theorem AllTexts.blockStmts {block stmt : Node} (whole : block.AllTexts P)
    (mem : stmt ∈ block.blockStmts) : stmt.AllTexts P := by
  unfold Node.blockStmts at mem
  split at mem
  · exact whole.below stmt (by simp [children, fields, Field.toList, mem])
  · exact whole.below stmt (by simp [children, fields, Field.toList, mem])
  next bodyPos body =>
    have inner := whole.below (.bodyStmt bodyPos body none none none)
      (by simp [children, fields, Field.toList])
    exact inner.below stmt (by simp [children, fields, Field.toList, mem])
  · cases mem

theorem AllTexts.soleMessage? {block : Node} {name : String} (whole : block.AllTexts P)
    (found : block.soleMessage? = some name) : P name := by
  unfold Node.soleMessage? at found
  split at found
  next stmt _ only => exact (whole.blockStmts (by simp [only])).messageTo? found
  · cases found

end Messages

variable {options : Options} {node : Node}

/-- What holds of all smaller trees that a source can give holds of the fields of a node. -/
theorem Printable.parts (printable : node.Printable)
    (each : ∀ part : Node, sizeOf part < sizeOf node → part.Printable → part.Settled options) :
    ∀ field ∈ node.fields, field.2.All (Settled options) := by
  intro field inFields child inside
  have mem : child ∈ node.children := List.mem_flatMap.2 ⟨field, inFields, inside⟩
  exact each child (sizeOf_lt_of_mem_children mem) (printable.child mem)

/-- Arguments in parentheses with one more at the end, if the trees inside are settled. -/
theorem Printable.firm_parenWith {extra : String} {paren : Node} (printable : paren.Printable)
    (isParen : paren.isOfKind .argParen = true) (sign : Text.Firm extra.toList)
    (each : ∀ part : Node, sizeOf part < sizeOf paren → part.Printable → part.Settled options)
    (parents : List Node) :
    ∀ doc ∈ layoutParenWith options parents extra (some paren), doc.Firm := by
  have parts := printable.parts each
  have here := (wellShaped_iff.1 printable.shaped).1
  cases paren with
  | argParen pos args =>
      simp only [fields, List.forall_mem_cons, Field.all_optional] at parts
      simp only [Node.shaped, Option.all_eq_true] at here
      rintro _ ⟨⟩
      exact Layout.firm_argParenWith sign (Settled.optionOfKind parts.1 here rfl _)
  | _ => cases isParen

/-- A call with one more argument, if the trees inside are settled. -/
theorem Printable.firm_layoutWith {extra : String} (printable : node.Printable)
    (isCall : node.isBlockCall = true) (sign : Text.Firm extra.toList)
    (each : ∀ part : Node, sizeOf part < sizeOf node → part.Printable → part.Settled options)
    (parents : List Node) : (node.layoutWith options parents extra).Firm := by
  have parts := printable.parts each
  have here := (wellShaped_iff.1 printable.shaped).1
  have paren (args : Option Node) (mem : ∀ paren ∈ args, paren ∈ node.children)
      (isParen : ∀ paren ∈ args, paren.isOfKind .argParen = true) (parents : List Node) :
      ∀ doc ∈ layoutParenWith options parents extra args, doc.Firm := by
    cases args with
    | none => rintro _ ⟨⟩
    | some paren =>
        have inside := mem paren rfl
        exact (printable.child inside).firm_parenWith (isParen paren rfl) sign
          (fun part smaller => each part
            (Nat.lt_trans smaller (sizeOf_lt_of_mem_children inside))) parents
  cases node with
  | call pos receiver operator message args comments =>
      simp only [fields, List.forall_mem_cons, Field.all_node] at parts
      simp only [Node.shaped, Bool.and_eq_true, Option.all_eq_true] at here
      have sent := parts.1.ofRole (by simp [hasRole, here.2])
      have named := parts.2.2.1.leads (loose_of_isMessage here.1.1.1.2).2
      have given := paren args
        (fun paren mem => by simp [children, fields, Field.toList, Option.mem_def.1 mem])
        here.1.1.2
      refine Layout.firm_call (sent _) (firm_callOperator here.1.1.1.1) (named _) ?_
        (List.forall_mem_nil _)
      rintro _ ⟨⟩
      cases found : layoutParenWith options _ extra args with
      | none =>
          have alone : (Layout.argParenWith extra none).Firm :=
            Layout.firm_argParenWith sign (by rintro _ ⟨⟩)
          exact alone.leads true
      | some doc => exact (given _ doc found).leads true
  | fcall pos message args =>
      simp only [fields, List.forall_mem_cons, Field.all_node] at parts
      simp only [Node.shaped, Bool.and_eq_true, Option.all_eq_true] at here
      have given := paren args
        (fun paren mem => by simp [children, fields, Field.toList, Option.mem_def.1 mem]) here.2
      exact Layout.firm_fcallWith sign (parts.1.ofRole (by simp [hasRole, here.1]) _)
        fun doc mem => (given _ doc mem).leads true
  | command pos message args =>
      simp only [fields, List.forall_mem_cons, Field.all_node] at parts
      simp only [Node.shaped, Bool.and_eq_true] at here
      have named := parts.1.ofKind here.1 rfl
      have given := parts.2.1.ofKind here.2 rfl
      exact .cons (named _) (.cons (.text rfl)
        (.cons (given _) (.cons (.text rfl) (.cons (.text sign) .nil))))
  | _ => cases isCall

section Families

variable (parts : ∀ field ∈ node.fields, field.2.All (Settled options)) (here : node.shaped = true)
  (parents : List Node)
include parts here

theorem firm_atoms (family : node.family = .atoms)
    (own : ∀ text ∈ node.ownText?, Text.Firm text.toList) (isFirm : node.isFirm = true) :
    (node.layout options parents).Firm := by
  cases node with
  | callShorthand | bare => cases isFirm
  | name kind pos text | literal kind pos text | comment pos text =>
      exact Doc.firm_text (own text rfl)
  | excessedComma pos => exact .text rfl
  | symbolLit pos value =>
      simp only [fields, List.forall_mem_cons, Field.all_node] at parts
      have named := parts.1.ofRole (by simp [hasRole, show value.isName = true from here])
      exact .cons (.text rfl) (.cons ((named _).leads true) .nil)
  | _ => cases family

theorem firm_statements (family : node.family = .statements) (isFirm : node.isFirm = true) :
    (node.layout options parents).Firm := by
  cases node with
  | program => cases isFirm
  | commented pos stmt comments =>
      simp only [fields, List.forall_mem_cons, Field.all_node, Field.all_list] at parts
      simp only [Node.shaped, Bool.and_eq_true, List.all_eq_true] at here
      have first := parts.1.ofRole (by simp [hasRole, here.2])
      have remarks := Settled.list parts.2.1 fun child mem =>
        isFirm_of_isOfKind (here.1.1 child mem) rfl
      exact .cons (first _) (Layout.leads_trailing (remarks _))
  | _ => cases family

theorem firm_collections (family : node.family = .collections) :
    (node.layout options parents).Firm := by
  cases node with
  | array pos elements =>
      simp only [fields, List.forall_mem_cons, Field.all_list] at parts
      simp only [Node.shaped, List.all_eq_true] at here
      exact Layout.firm_array (Settled.listOfRole parts.1
        (fun child mem => by simp [hasRole, here child mem]) _)
  | hash pos entries =>
      simp only [fields, List.forall_mem_cons, Field.all_list] at parts
      simp only [Node.shaped, List.all_eq_true] at here
      exact Layout.firm_hash (Settled.listOfRole parts.1
        (fun child mem => by simp [hasRole, here child mem]) _)
  | bareAssocHash pos items =>
      simp only [fields, List.forall_mem_cons, Field.all_list] at parts
      simp only [Node.shaped, Bool.and_eq_true, List.all_eq_true] at here
      refine .group (Layout.firm_listed (by simpa using here.1) (Settled.listOfRole parts.1 ?_ _))
      exact fun child mem => by simp [hasRole, here.2 child mem]
  | assoc pos key value =>
      simp only [fields, List.forall_mem_cons, Field.all_node] at parts
      simp only [Node.shaped, Bool.and_eq_true] at here
      exact Layout.firm_assoc _ (parts.1.ofRole (by simp [hasRole, here.1]) _)
        (parts.2.1.ofRole (by simp [hasRole, here.2]) _)
  | _ => cases family

theorem firm_references (family : node.family = .references) :
    (node.layout options parents).Firm := by
  cases node with
  | varRef pos inner =>
      simp only [fields, List.forall_mem_cons, Field.all_node] at parts
      exact parts.1.ofRole (by simp [hasRole, show inner.isVariable = true from here]) _
  | varField pos inner =>
      simp only [fields, List.forall_mem_cons, Field.all_optional] at parts
      cases inner with
      | none => cases here
      | some inner =>
          exact (parts.1 inner rfl).ofRole
            (by simp [hasRole, show inner.isAssignable = true from here]) _
  | constPathRef pos parent ident =>
      simp only [fields, List.forall_mem_cons, Field.all_node] at parts
      simp only [Node.shaped, Bool.and_eq_true] at here
      have left := parts.1.ofRole (by simp [hasRole, here.2])
      have right := parts.2.1.ofKind here.1 rfl
      exact .cons (left _) (.cons (.text rfl) (.cons ((right _).leads true) .nil))
  | field pos receiver operator ident =>
      simp only [fields, List.forall_mem_cons, Field.all_node] at parts
      simp only [Node.shaped, Bool.and_eq_true] at here
      have left := parts.1.ofRole (by simp [hasRole, here.2])
      have right := parts.2.2.1.ofKind here.1.2 rfl
      have sign := Doc.firm_text (firm_callOperator here.1.1)
      exact .cons (left _) (.cons (sign.leads true) (.cons ((right _).leads true) .nil))
  | aref pos receiver args | arefField pos receiver args =>
      simp only [fields, List.forall_mem_cons, Field.all_node, Field.all_optional] at parts
      simp only [Node.shaped, Bool.and_eq_true, Option.all_eq_true] at here
      exact Layout.firm_index (parts.1.ofRole (by simp [hasRole, here.2]) _)
        (Settled.optionOfKind parts.2.1 here.1 rfl _)
  | _ => cases family

theorem firm_assignments (family : node.family = .assignments) :
    (node.layout options parents).Firm := by
  cases node with
  | valueList pos values | splatValueList pos values =>
      simp only [fields, List.forall_mem_cons, Field.all_list] at parts
      simp only [Node.shaped, Bool.and_eq_true, List.all_eq_true] at here
      refine Layout.firm_listed (by simpa using here.1) (Settled.listOfRole parts.1 ?_ _)
      exact fun child mem => by simp [hasRole, here.2 child mem]
  | assign pos target value =>
      simp only [fields, List.forall_mem_cons, Field.all_node] at parts
      simp only [Node.shaped, Bool.and_eq_true] at here
      have right := parts.2.1.ofRole (by simp [hasRole, here.2])
      refine Layout.firm_assign _ (parts.1.ofRole (by simp [hasRole, here.1]) _) ?_
      split
      · exact (right _).group
      · exact right _
  | opAssign pos target operator value =>
      have table : ∀ operator ∈ Parse.assignOperators, Text.Firm operator.toList := by decide
      simp only [fields, List.forall_mem_cons, Field.all_node] at parts
      simp only [Node.shaped, Bool.and_eq_true] at here
      have sign := table operator (List.contains_iff_mem.1 here.1.2)
      exact Layout.firm_operation (parts.1.ofRole (by simp [hasRole, here.1.1]) _) sign
        (parts.2.2.1.ofRole (by simp [hasRole, here.2]) _)
  | _ => cases family

theorem firm_arguments (family : node.family = .arguments) (isFirm : node.isFirm = true) :
    (node.layout options parents).Firm := by
  cases node with
  | args pos items =>
      simp only [fields, List.forall_mem_cons, Field.all_list] at parts
      simp only [Node.shaped, Bool.and_eq_true, List.all_eq_true] at here
      refine .group (Layout.firm_listed (by simpa using here.1) (Settled.listOfRole parts.1 ?_ _))
      exact fun child mem => by simp [hasRole, here.2 child mem]
  | splat pos value | doubleSplat pos value =>
      simp only [fields, List.forall_mem_cons, Field.all_node] at parts
      have inner := parts.1.ofRole (by simp [hasRole, show value.isExpr = true from here])
      exact .cons (.text rfl) (.cons ((inner _).leads true) .nil)
  | argParen pos args =>
      simp only [fields, List.forall_mem_cons, Field.all_optional] at parts
      simp only [Node.shaped, Option.all_eq_true] at here
      exact Layout.firm_argParen (Settled.optionOfKind parts.1 here rfl _)
  | blockArg pos value =>
      simp only [fields, List.forall_mem_cons, Field.all_optional] at parts
      simp only [Node.shaped, Option.all_eq_true] at here
      refine Layout.firm_marked (by decide) (Settled.optionLeads parts.1 (fun child mem => ?_) _)
      exact noProgram_of_isFirm (isFirm_of_hasRole (by simp [hasRole, here child mem]))
  | _ => cases family

theorem firm_calls (family : node.family = .calls) (printable : node.Printable)
    (each : ∀ part : Node, sizeOf part < sizeOf node → part.Printable → part.Settled options) :
    (node.layout options parents).Firm := by
  cases node with
  | call pos receiver operator message args comments =>
      simp only [fields, List.forall_mem_cons, Field.all_node, Field.all_optional,
        Field.all_list] at parts
      simp only [Node.shaped, Bool.and_eq_true, List.all_eq_true, Option.all_eq_true] at here
      have sent := parts.1.ofRole (by simp [hasRole, here.2])
      have named := parts.2.2.1.leads (loose_of_isMessage here.1.1.1.2).2
      have inner := Settled.optionOfKind parts.2.2.2.1 here.1.1.2 rfl
      have remarks := Settled.list parts.2.2.2.2.1 fun child mem =>
        isFirm_of_isOfKind (here.1.2 child mem) rfl
      exact Layout.firm_call (sent _) (firm_callOperator here.1.1.1.1) (named _) (inner _)
        (remarks _)
  | vcall pos message =>
      simp only [fields, List.forall_mem_cons, Field.all_node] at parts
      exact parts.1.ofKind here rfl _
  | fcall pos message args =>
      simp only [fields, List.forall_mem_cons, Field.all_node, Field.all_optional] at parts
      simp only [Node.shaped, Bool.and_eq_true, Option.all_eq_true] at here
      exact Layout.firm_fcall (parts.1.ofRole (by simp [hasRole, here.1]) _)
        (Settled.optionOfKind parts.2.1 here.2 rfl _)
  | command pos message args =>
      simp only [fields, List.forall_mem_cons, Field.all_node] at parts
      simp only [Node.shaped, Bool.and_eq_true] at here
      have named := parts.1.ofKind here.1 rfl
      have inner := parts.2.1.ofKind here.2 rfl
      exact .cons (named _) (.cons (.text rfl) (.cons (inner _) .nil))
  | methodAddBlock pos callee block =>
      simp only [fields, List.forall_mem_cons, Field.all_node] at parts
      simp only [Node.shaped, Bool.and_eq_true] at here
      rw [layout_methodAddBlock]
      cases collapsed : (Node.methodAddBlock pos callee block).extra? options parents with
      | some extra =>
          have mem : callee ∈ (Node.methodAddBlock pos callee block).children := by
            simp [children, fields, Field.toList]
          have inside : block ∈ (Node.methodAddBlock pos callee block).children := by
            simp [children, fields, Field.toList]
          obtain ⟨name, sole, rfl⟩ := exists_of_extra? collapsed
          have message : Text.Firm name.toList := (printable.child inside).texts.soleMessage? sole
          have sign : Text.Firm ("&:" ++ name).toList := by
            rw [String.toList_append]
            exact (message.cons (c := ':') (by decide)).cons (by decide)
          exact (printable.child mem).firm_layoutWith here.1 sign
            (fun part smaller => each part (Nat.lt_trans smaller (sizeOf_lt_of_mem_children mem))) _
      | none =>
          have left := parts.1.ofRole (by simp [hasRole, isExpr_of_isBlockCall here.1])
          have right := parts.2.1.ofRole (by simp [hasRole, here.2])
          exact .cons (left _) (.cons (.text rfl) (.cons (right _) .nil))
  | _ => cases family

theorem firm_parameters (family : node.family = .parameters) (isFirm : node.isFirm = true) :
    (node.layout options parents).Firm := by
  cases node with
  | params => cases isFirm
  | optionalParam pos ident default =>
      simp only [fields, List.forall_mem_cons, Field.all_node] at parts
      simp only [Node.shaped, Bool.and_eq_true] at here
      have value := parts.2.1.ofRole (by simp [hasRole, here.2])
      refine Layout.firm_defaulted (parts.1.ofKind here.1 rfl _) (.text rfl) ?_
      rintro _ ⟨⟩
      exact value _
  | restParam pos ident | keywordRestParam pos ident =>
      simp only [fields, List.forall_mem_cons, Field.all_optional] at parts
      simp only [Node.shaped, Option.all_eq_true] at here
      exact Layout.firm_marked (by decide) (Settled.optionOfKind parts.1 here rfl _)
  | keywordParam pos label default =>
      simp only [fields, List.forall_mem_cons, Field.all_node, Field.all_optional] at parts
      simp only [Node.shaped, Bool.and_eq_true, Option.all_eq_true] at here
      refine Layout.firm_defaulted (parts.1.ofKind here.1 rfl _) (.text rfl)
        (Settled.option parts.2.1 ?_ _)
      exact fun child mem => isFirm_of_hasRole (by simp [hasRole, here.2 child mem])
  | blockParam pos ident =>
      simp only [fields, List.forall_mem_cons, Field.all_node] at parts
      have named := parts.1.ofKind here rfl
      refine Layout.firm_marked (by decide) ?_
      rintro _ ⟨⟩
      exact (named _).leads true
  | blockVar pos params =>
      simp only [fields, List.forall_mem_cons, Field.all_optional] at parts
      simp only [Node.shaped, Option.all_eq_true] at here
      exact Layout.firm_blockVar (Settled.optionOfKind parts.1 here rfl _)
  | _ => cases family

theorem firm_blocks (family : node.family = .blocks) : (node.layout options parents).Firm := by
  cases node with
  | lambda pos params body =>
      simp only [fields, List.forall_mem_cons, Field.all_optional, Field.all_list] at parts
      simp only [Node.shaped, Bool.and_eq_true, Option.all_eq_true, List.all_eq_true] at here
      obtain ⟨hard, around⟩ := lineAround_eq body
      have head := Settled.optionOfKind parts.1 here.1 rfl
      have stmts := Settled.listOfRole parts.2.1 fun child mem => by
        simp [hasRole, here.2 child mem]
      rw [layout, around]
      exact Layout.firm_lambda hard (head _) (stmts _)
  | braceBlock pos params body =>
      simp only [fields, List.forall_mem_cons, Field.all_optional, Field.all_list] at parts
      simp only [Node.shaped, Bool.and_eq_true, Option.all_eq_true, List.all_eq_true] at here
      obtain ⟨hard, around⟩ := lineAround_eq body
      have head := Settled.option parts.1 fun child mem => isFirm_of_isOfKind (here.1 child mem) rfl
      have stmts := Settled.listOfRole parts.2.1 fun child mem => by
        simp [hasRole, here.2 child mem]
      rw [layout, around]
      exact Layout.firm_braceBlock hard (head _) (stmts _)
  | doBlock pos params body =>
      simp only [fields, List.forall_mem_cons, Field.all_node, Field.all_optional] at parts
      simp only [Node.shaped, Bool.and_eq_true, Option.all_eq_true] at here
      have head := Settled.option parts.1 fun child mem => isFirm_of_isOfKind (here.1 child mem) rfl
      have inner := parts.2.1.leads (noProgram_of_isOfKind here.2 rfl)
      exact .cons (.text rfl) (.cons (Layout.leads_blockParams (head _))
        (.cons (inner _) (.cons (.line _) (.cons (.text rfl) .nil))))
  | _ => cases family

theorem firm_operators (family : node.family = .operators) :
    (node.layout options parents).Firm := by
  cases node with
  | binary pos left op right =>
      have table : ∀ operator ∈ binaryOperators, Text.Firm operator.toList := by decide
      simp only [fields, List.forall_mem_cons, Field.all_node] at parts
      simp only [Node.shaped, Bool.and_eq_true] at here
      have sign := table op (List.contains_iff_mem.1 here.1.1)
      exact Layout.firm_binary (parts.1.ofRole (by simp [hasRole, here.1.2]) _) sign
        (parts.2.2.1.ofRole (by simp [hasRole, here.2]) _)
  | unary pos op operand =>
      have table : ∀ operator ∈ unaryOperators, Text.Firm operator.toList := by decide
      simp only [fields, List.forall_mem_cons, Field.all_node] at parts
      simp only [Node.shaped, Bool.and_eq_true] at here
      exact Layout.firm_unary (table op (List.contains_iff_mem.1 here.1))
        (parts.2.1.ofRole (by simp [hasRole, here.2]) _)
  | paren pos expr =>
      simp only [fields, List.forall_mem_cons, Field.all_node] at parts
      have inner := parts.1.ofRole (by simp [hasRole, show expr.isValue = true from here])
      exact .cons (.text rfl) (.cons ((inner _).leads true) (.cons (.text rfl) .nil))
  | _ => cases family

end Families

/-- A node is firm if the trees inside are settled, unless it may write nothing or a line break
first. -/
theorem Printable.firm_layout (printable : node.Printable) (isFirm : node.isFirm = true)
    (each : ∀ part : Node, sizeOf part < sizeOf node → part.Printable → part.Settled options)
    (parents : List Node) : (node.layout options parents).Firm := by
  have parts := printable.parts each
  have here := (wellShaped_iff.1 printable.shaped).1
  have own := (allTexts_iff.1 printable.texts).1
  cases family : node.family with
  | atoms => exact firm_atoms parts here parents family own isFirm
  | statements => exact firm_statements parts here parents family isFirm
  | collections => exact firm_collections parts here parents family
  | references => exact firm_references parts here parents family
  | assignments => exact firm_assignments parts here parents family
  | arguments => exact firm_arguments parts here parents family isFirm
  | calls => exact firm_calls parts here parents family printable each
  | parameters => exact firm_parameters parts here parents family isFirm
  | clauses => cases node <;> first | (cases isFirm; done) | cases family
  | blocks => exact firm_blocks parts here parents family
  | operators => exact firm_operators parts here parents family

/-- A node that is no program needs nothing but ink before it, if the trees inside are settled. -/
theorem Printable.leads_layout (printable : node.Printable)
    (noProgram : node.isOfKind .program = false)
    (each : ∀ part : Node, sizeOf part < sizeOf node → part.Printable → part.Settled options)
    (parents : List Node) : (node.layout options parents).Leads true true := by
  have parts := printable.parts each
  have here := (wellShaped_iff.1 printable.shaped).1
  cases node with
  | program => cases noProgram
  | bare => cases here
  | callShorthand pos => exact .text rfl
  | params pos required optional rest post keywords keywordRest block =>
      have isParams : (Node.params pos required optional rest post keywords keywordRest
        block).isOfKind .params = true := rfl
      generalize Node.params pos required optional rest post keywords keywordRest block = tree
        at *
      have listed : (Doc.join ", " (tree.ordered.map (layout options (tree :: parents)))).Leads
          true true := by
        refine Doc.leads_join (.text rfl) (List.forall_mem_map.2 fun param mem => ?_)
        obtain ⟨inside, isParam⟩ := ordered_shaped here mem
        have settled := each param (sizeOf_lt_of_mem_children inside) (printable.child inside)
        exact settled.ofRole (by simp [hasRole, isParam]) _
      rw [layout_params isParams here]
      split
      · exact .cons listed (.cons (.text rfl) .nil)
      · exact listed
  | rescue pos exceptions target stmts next =>
      simp only [fields, List.forall_mem_cons, Field.all_optional, Field.all_list] at parts
      simp only [Node.shaped, Bool.and_eq_true, Option.all_eq_true, List.all_eq_true] at here
      obtain ⟨named, held, body, others, -⟩ := parts
      refine Layout.leads_rescue
        (Settled.listOfRole named (fun child mem => ?_) _)
        (Settled.option held (fun child mem => isFirm_of_hasRole ?_) _)
        (Settled.listOfRole body (fun child mem => ?_) _)
        (Settled.optionOfKind others here.1.1.2 rfl _)
      · simp [hasRole, here.1.2 child mem]
      · simp [hasRole, here.1.1.1 child mem]
      · simp [hasRole, here.2 child mem]
  | bodyStmt pos stmts handler elseBody ensure =>
      simp only [fields, List.forall_mem_cons, Field.all_optional, Field.all_list,
        Field.all_optionalList] at parts
      simp only [Node.shaped, Bool.and_eq_true, Option.all_eq_true, List.all_eq_true] at here
      obtain ⟨body, handlers, otherwise, last, -⟩ := parts
      refine Layout.leads_bodyStmt
        (Settled.listOfRole body (fun child mem => ?_) _)
        (Settled.optionOfKind handlers here.1.1.1 rfl _)
        (Settled.optionList otherwise (fun nodes some child mem => isFirm_of_hasRole ?_) _)
        (Settled.optionList last (fun nodes some child mem => isFirm_of_hasRole ?_) _)
      · simp [hasRole, here.1.1.2 child mem]
      · simp [hasRole, here.1.2 nodes some child mem]
      · simp [hasRole, here.2 nodes some child mem]
  | _ => exact (printable.firm_layout rfl each parents).leads true

/-- The trees that a source can give are settled. -/
theorem Printable.settled (printable : node.Printable) : node.Settled options := by
  induction node using induction_smaller with
  | step node ih =>
      have each (part : Node) (smaller : sizeOf part < sizeOf node) (printable : part.Printable) :
          part.Settled options := ih part smaller printable
      exact ⟨fun isFirm => printable.firm_layout isFirm each,
        fun noProgram => printable.leads_layout noProgram each⟩

end Node

end RubyFormat
