import RubyFormat.Layout.Shape
import RubyFormat.Options
import RubyFormat.Shorthand

/-!
# From a tree to its document

The document of a node is made from the documents of its parts.  Layout goes down with the list of
the nodes above, nearest first, because a block may be collapsed or not depending on the node
around its call.  What stands for nothing in a source is laid out as nothing.
-/

namespace RubyFormat

namespace Node

/-- Whether the value of an assignment stays on the line of its `=`. -/
def staysOnLine : Node → Bool
  | .array _ _ | .hash _ _ | .lambda _ _ _ | .literal .regexp _ _ => true
  | .call _ receiver _ _ _ _ => staysOnLine receiver
  | _ => false

/-- Whether a node is a label. -/
def isLabel : Node → Bool
  | .name .label _ _ => true
  | _ => false

/-- Whether a node is a list of values. -/
def isValueList : Node → Bool
  | .valueList _ _ | .splatValueList _ _ => true
  | _ => false

/-- Whether a comment follows the statement on its line. -/
def hasTrailingComment : Node → Bool
  | .commented _ _ _ => true
  | .call _ _ _ _ _ (_ :: _) => true
  | _ => false

/-- The line around statements between braces; a comment has to end its line. -/
def lineAround (body : List Node) : Doc :=
  if body.any hasTrailingComment then Doc.hardLine else Doc.softLine

theorem lineAround_eq (body : List Node) : ∃ hard, lineAround body = .line hard := by
  unfold lineAround
  split <;> exact ⟨_, rfl⟩

/-- Whether a node can have a block as its last argument. -/
def takesBlockArgument : Node → Bool
  | .call _ _ _ _ _ _ | .fcall _ _ _ | .command _ _ _ => true
  | _ => false

/-- Whether the parameter stands in the list where it is declared. -/
def isRestParam : Node → Bool
  | .restParam _ _ => true
  | _ => false

/-- Whether the parameter is the comma that closes the list. -/
def isExcessedComma : Node → Bool
  | .excessedComma _ => true
  | _ => false

/-- The parameters of a block or lambda, given the documents of their kinds. -/
def layoutParams (required optional : List Doc) (rest : Option Node) (restDoc : Option Doc)
    (post keywords : List Doc) (keywordRest block : Option Doc) : Doc :=
  let isRest := (rest.map isRestParam).getD false
  let isComma := (rest.map isExcessedComma).getD false
  let list := Doc.join ", " (required ++ optional ++ (if isRest then restDoc.toList else [])
    ++ post ++ keywords ++ keywordRest.toList ++ block.toList)
  if isComma then .concat (list :: restDoc.toList) else list

mutual

/-- The document of a node below the given nodes. -/
def layout (options : Options) (parents : List Node) : Node → Doc
  | .name _ _ text => text
  | .literal _ _ raw => raw
  | .callShorthand _ => ""
  | .comment _ text => text
  | node@(.program _ stmts) => Layout.program (layoutList options (node :: parents) stmts)
  | node@(.commented _ stmt comments) =>
      .concat (layout options (node :: parents) stmt ::
        Layout.trailing (layoutList options (node :: parents) comments))
  | node@(.symbolLit _ value) => .concat [":", layout options (node :: parents) value]
  | node@(.array _ elements) => Layout.array (layoutList options (node :: parents) elements)
  | node@(.assoc _ key value) =>
      Layout.assoc key.isLabel (layout options (node :: parents) key)
        (layout options (node :: parents) value)
  | node@(.hash _ assocs) => Layout.hash (layoutList options (node :: parents) assocs)
  | node@(.bareAssocHash _ assocs) =>
      .group (Layout.listed (layoutList options (node :: parents) assocs))
  | node@(.lambda _ parameters body) =>
      Layout.lambda (layoutOption options (node :: parents) parameters) (lineAround body)
        (layoutList options (node :: parents) body)
  | node@(.varRef _ inner) => layout options (node :: parents) inner
  | node@(.varField _ inner) => (layoutOption options (node :: parents) inner).getD ""
  | node@(.constPathRef _ parent ident) =>
      .concat [layout options (node :: parents) parent, "::",
        layout options (node :: parents) ident]
  | node@(.field _ receiver operator ident) =>
      .concat [layout options (node :: parents) receiver, operator,
        layout options (node :: parents) ident]
  | node@(.aref _ receiver arguments) =>
      Layout.index (layout options (node :: parents) receiver)
        (layoutOption options (node :: parents) arguments)
  | node@(.arefField _ receiver arguments) =>
      Layout.index (layout options (node :: parents) receiver)
        (layoutOption options (node :: parents) arguments)
  | node@(.assign _ target value) =>
      let valueDoc := layout options (node :: parents) value
      Layout.assign value.staysOnLine (layout options (node :: parents) target)
        (if value.isValueList then .group valueDoc else valueDoc)
  | node@(.opAssign _ target operator value) =>
      Layout.operation (layout options (node :: parents) target) operator
        (layout options (node :: parents) value)
  | node@(.valueList _ values) => Layout.listed (layoutList options (node :: parents) values)
  | node@(.splatValueList _ values) => Layout.listed (layoutList options (node :: parents) values)
  | node@(.splat _ value) => .concat ["*", layout options (node :: parents) value]
  | node@(.doubleSplat _ value) => .concat ["**", layout options (node :: parents) value]
  | node@(.args _ parts) => .group (Layout.listed (layoutList options (node :: parents) parts))
  | node@(.argParen _ arguments) =>
      Layout.argParen (layoutOption options (node :: parents) arguments)
  | node@(.blockArg _ value) => Layout.marked "&" (layoutOption options (node :: parents) value)
  | node@(.call _ receiver operator message arguments comments) =>
      Layout.call (layout options (node :: parents) receiver) operator
        (layout options (node :: parents) message)
        (layoutOption options (node :: parents) arguments)
        (layoutList options (node :: parents) comments)
  | node@(.vcall _ message) => layout options (node :: parents) message
  | node@(.fcall _ message arguments) =>
      Layout.fcall (layout options (node :: parents) message)
        (layoutOption options (node :: parents) arguments)
  | node@(.command _ message arguments) =>
      .concat [layout options (node :: parents) message, " ",
        layout options (node :: parents) arguments]
  | node@(.methodAddBlock _ callee block) =>
      let extra? :=
        if options.toProc && callee.takesBlockArgument then node.shorthand? parents block else none
      match extra? with
      | some extra => layoutWith options (node :: parents) extra callee
      | none =>
          .concat [layout options (node :: parents) callee, " ",
            layout options (node :: parents) block]
  | node@(.optionalParam _ ident default) =>
      Layout.defaulted (layout options (node :: parents) ident) " = "
        (some (layout options (node :: parents) default))
  | node@(.restParam _ ident) => Layout.marked "*" (layoutOption options (node :: parents) ident)
  | .excessedComma _ => ","
  | node@(.keywordParam _ label default) =>
      Layout.defaulted (layout options (node :: parents) label) " "
        (layoutOption options (node :: parents) default)
  | node@(.keywordRestParam _ ident) =>
      Layout.marked "**" (layoutOption options (node :: parents) ident)
  | node@(.blockParam _ ident) =>
      Layout.marked "&" (some (layout options (node :: parents) ident))
  | node@(.params _ required optional rest post keywords keywordRest block) =>
      layoutParams (layoutList options (node :: parents) required)
        (layoutList options (node :: parents) optional) rest
        (layoutOption options (node :: parents) rest)
        (layoutList options (node :: parents) post)
        (layoutList options (node :: parents) keywords)
        (layoutOption options (node :: parents) keywordRest)
        (layoutOption options (node :: parents) block)
  | node@(.blockVar _ parameters) =>
      Layout.blockVar (layoutOption options (node :: parents) parameters)
  | node@(.rescue _ exceptions target stmts next) =>
      Layout.rescue (layoutList options (node :: parents) exceptions)
        (layoutOption options (node :: parents) target)
        (layoutList options (node :: parents) stmts)
        (layoutOption options (node :: parents) next)
  | node@(.bodyStmt _ stmts handler elseBody ensure) =>
      Layout.bodyStmt (layoutList options (node :: parents) stmts)
        (layoutOption options (node :: parents) handler)
        (layoutOptionList options (node :: parents) elseBody)
        (layoutOptionList options (node :: parents) ensure)
  | node@(.braceBlock _ parameters body) =>
      Layout.braceBlock (layoutOption options (node :: parents) parameters) (lineAround body)
        (layoutList options (node :: parents) body)
  | node@(.doBlock _ parameters body) =>
      .concat ["do", Layout.blockParams (layoutOption options (node :: parents) parameters),
        layout options (node :: parents) body, Doc.hardLine, "end"]
  | node@(.binary _ left op right) =>
      Layout.binary (layout options (node :: parents) left) op
        (layout options (node :: parents) right)
  | node@(.unary _ op operand) => Layout.unary op (layout options (node :: parents) operand)
  | node@(.paren _ expr) => .concat ["(", layout options (node :: parents) expr, ")"]
  | .bare _ => ""
termination_by structural node => node

/-- The document of a call with one more argument at the end; comments behind it are left out. -/
def layoutWith (options : Options) (parents : List Node) (extra : String) : Node → Doc
  | node@(.call _ receiver operator message arguments _) =>
      Layout.call (layout options (node :: parents) receiver) operator
        (layout options (node :: parents) message)
        (some ((layoutParenWith options (node :: parents) extra arguments).getD
          (Layout.argParenWith extra none)))
        []
  | node@(.fcall _ message arguments) =>
      Layout.fcallWith extra (layout options (node :: parents) message)
        (layoutParenWith options (node :: parents) extra arguments)
  | node@(.command _ message arguments) =>
      .concat [layout options (node :: parents) message, " ",
        layout options (node :: parents) arguments, ", ", extra]
  | _ => ""
termination_by structural node => node

/-- The document of arguments in parentheses, if there are any, with one more at the end. -/
def layoutParenWith (options : Options) (parents : List Node) (extra : String) :
    Option Node → Option Doc
  | none => none
  | some node@(.argParen _ arguments) =>
      some (Layout.argParenWith extra (layoutOption options (node :: parents) arguments))
  | some _ => some ""
termination_by structural node => node

/-- The documents of the nodes of a list. -/
def layoutList (options : Options) (parents : List Node) : List Node → List Doc
  | [] => []
  | node :: rest => layout options parents node :: layoutList options parents rest
termination_by structural nodes => nodes

/-- The document of a node that may be absent. -/
def layoutOption (options : Options) (parents : List Node) : Option Node → Option Doc
  | none => none
  | some node => some (layout options parents node)
termination_by structural node => node

/-- The documents of the nodes of a list that may be absent. -/
def layoutOptionList (options : Options) (parents : List Node) :
    Option (List Node) → Option (List Doc)
  | none => none
  | some nodes => some (layoutList options parents nodes)
termination_by structural nodes => nodes

end

@[simp]
theorem layoutList_eq_map (options : Options) (parents nodes : List Node) :
    layoutList options parents nodes = nodes.map (layout options parents) := by
  induction nodes with
  | nil => rfl
  | cons node rest ih => simp [layoutList, ih]

@[simp]
theorem layoutOption_eq_map (options : Options) (parents : List Node) (node : Option Node) :
    layoutOption options parents node = node.map (layout options parents) := by
  cases node <;> rfl

@[simp]
theorem layoutOptionList_eq_map (options : Options) (parents : List Node)
    (nodes : Option (List Node)) :
    layoutOptionList options parents nodes = nodes.map (List.map (layout options parents)) := by
  cases nodes <;> simp [layoutOptionList]

end Node

end RubyFormat
