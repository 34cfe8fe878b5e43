import RubyFormat.Node.Basic

/-!
# Blocks that a symbol can replace

A block that takes one parameter and only sends a message without arguments to it, as in
`list.map { |item| item.name }`, can be passed as `&:name` instead.  A block in the value of an
option `if:` or `unless:` is left alone, because a symbol there names a method of another object.
-/

namespace RubyFormat

/-- The parameters that a block, a lambda or a pair of bars has. -/
def Node.paramsOf? : Node → Option Node
  | .blockVar _ parameters | .lambda _ parameters _ | .braceBlock _ parameters _
  | .doBlock _ parameters _ => parameters
  | _ => none

/-- The name of the parameter, if there is exactly one and it is plain. -/
def Node.soleName? : Node → Option String
  | .params _ [.name _ _ text] [] none [] [] none none => some text
  | _ => none

/-- The name of the parameter of a block that takes exactly one plain parameter. -/
def Node.soleParam? (block : Node) : Option String :=
  (block.paramsOf?.bind paramsOf?).bind soleName?

/-- The statements of a block; a body with other clauses has none that count. -/
def Node.blockStmts : Node → List Node
  | .braceBlock _ _ body | .lambda _ _ body | .doBlock _ _ (.bodyStmt _ body none none none) =>
      body
  | _ => []

/-- The name of the message that a statement sends to a local variable, without arguments. -/
def Node.messageTo? (holder : String) : Node → Option String
  | .call _ (.varRef _ (.name .ident _ receiver)) operator (.name .ident _ message) none [] =>
      if receiver = holder ∧ (operator = "." ∨ operator = "::") ∧ message ≠ "call" then
        some message
      else
        none
  | _ => none

/-- The message that a block sends to its only parameter, if it does nothing else. -/
def Node.soleMessage? (block : Node) : Option String :=
  match block.soleParam?, block.blockStmts with
  | some holder, [stmt] => stmt.messageTo? holder
  | _, _ => none

/-- Whether a node is an option `if` or `unless`. -/
def Node.isConditionalOption : Node → Bool
  | .assoc _ (.name .label _ text) _ => text == "if:" || text == "unless:"
  | .assoc _ (.symbolLit _ (.name kind _ text)) _ =>
      (kind == .ident || kind == .keyword) && (text == "if" || text == "unless")
  | _ => false

/--
The node whose value the carrier of a block is: the parent of a call with a block, and the parent
of the call to whose arguments a block belongs.
-/
def Node.optionAround? (parents : List Node) : Node → Option Node
  | .methodAddBlock _ _ _ => parents.head?
  | _ => parents.tail.head?

/-- The argument that can replace the block of the node below the given parents. -/
def Node.shorthand? (parents : List Node) (carrier block : Node) : Option String :=
  match block.soleMessage? with
  | none => none
  | some message =>
      if ((carrier.optionAround? parents).map isConditionalOption).getD false then none
      else some ("&:" ++ message)

end RubyFormat
