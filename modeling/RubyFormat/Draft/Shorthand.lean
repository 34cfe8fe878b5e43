import RubyFormat.Draft.Basic
import RubyFormat.Draft.Fault

/-!
# The shorthand of a hand-written block

The block of a draft is read step by step, and each step can find that there is no shorthand or that
the block is faulty.  Names are compared whatever they are, so a block can have a shorthand although
it has a shape that no source has.
-/

namespace RubyFormat.Draft

/-- The content of a field that has to be there. -/
def get (draft : Draft) (name : String) : Except Fault Draft :=
  match draft.field? name with
  | some content => .ok content
  | none => .error (.noField draft.typeName name)

/-- The items of a list, or the characters of a text. -/
def items? : Draft → Option (List Draft)
  | .list items => some items
  | .text value => some (value.toList.map fun c => .text (String.singleton c))
  | .absent | .truth _ | .number _ | .node _ _ _ _ => none

/-- The items of something that has a length. -/
def counted (draft : Draft) : Except Fault (List Draft) :=
  match draft.items? with
  | some items => .ok items
  | none => .error (.noLength draft.typeName)

/-- The items of something that can be gone through. -/
def listed (draft : Draft) : Except Fault (List Draft) :=
  match draft.items? with
  | some items => .ok items
  | none => .error (.notIterable draft.typeName)

/-- What stands in a field that may be empty. -/
def present (draft : Draft) : List Draft :=
  if draft.isAbsent then [] else [draft]

/-- The parameters of a list that are not required leading ones. -/
def otherParams : Draft → Except Fault (List Draft)
  | params@(.node .params _ _ _) => do
      let optional ← (← params.get "optional").listed
      let rest ← params.get "rest"
      let post ← (← params.get "post").listed
      let keywords ← (← params.get "keywords").listed
      let keywordRest ← params.get "keyword_rest"
      let block ← params.get "block"
      return optional ++ rest.present ++ post ++ keywords ++ keywordRest.present ++ block.present
  | draft => .error (.noField draft.typeName "others")

/-- The name of the only parameter of a list. -/
def soleName (params : Draft) : Except Fault (Option Draft) := do
  match ← (← params.get "required").counted with
  | [param] =>
      if (← params.otherParams).isEmpty then return some (← param.get "name") else return none
  | _ => return none

/-- The name of the parameter, if a block takes exactly one. -/
def soleParam (block : Draft) : Except Fault (Option Draft) := do
  let holder ← block.get "params"
  if holder.isAbsent then
    return none
  let params ← holder.get "params"
  if params.isAbsent then
    return none
  params.soleName

/-- The statements of a block; a body with other clauses has none that count. -/
def blockStmts : Draft → Except Fault (List Draft)
  | block@(.node .doBlock _ _ _) => do
      let body ← block.get "body"
      let rescue ← body.get "rescue"
      let elseBody ← body.get "else_body"
      let ensure ← body.get "ensure"
      if rescue.isAbsent && elseBody.isAbsent && ensure.isAbsent then
        (← body.get "stmts").counted
      else
        return []
  | block => do (← block.get "body").counted

/-- The name of the message that a statement sends to the holder of a name, without arguments. -/
def messageTo (holder : Draft) : Draft → Except Fault (Option Draft)
  | .node .call _ _ [(_, receiver), (_, operator), (_, message), (_, arguments), (_, comments)] => do
      if !(← comments.counted).isEmpty then
        return none
      match receiver, operator, message, arguments with
      | .node .varRef _ _ [(_, .node (.name .ident) _ _ [(_, variableName)])], .text mark,
          .node (.name .ident) _ _ [(_, messageName)], .absent =>
          if variableName.same holder && (mark == "." || mark == "::")
              && !messageName.same (.text "call") then
            return some messageName
          else
            return none
      | _, _, _, _ => return none
  | _ => return none

/-- The name of the message that a block sends to its only parameter, if it does nothing else. -/
def soleMessage (block : Draft) : Except Fault (Option Draft) := do
  match ← block.soleParam with
  | none => return none
  | some holder =>
      match ← block.blockStmts with
      | [stmt] => messageTo holder stmt
      | _ => return none

/-- The message that the block of a call sends to its only parameter, if it does nothing else. -/
def blockMessage? : Draft → Option String
  | .node .methodAddBlock _ _ [_, (_, block)] =>
      match block.soleMessage with
      | .ok (some (.text message)) => some message
      | _ => none
  | _ => none

/-- Whether a node is an option `if` or `unless`. -/
def isConditionalOption : Draft → Bool
  | .node .assoc _ _ ((_, .node (.name .label) _ _ [(_, .text word)]) :: _) =>
      word == "if:" || word == "unless:"
  | .node .assoc _ _
      ((_, .node .symbolLit _ _ [(_, .node (.name kind) _ _ [(_, .text word)])]) :: _) =>
      (kind == .ident || kind == .keyword) && (word == "if" || word == "unless")
  | _ => false

/--
The node whose value the carrier of a block is: the parent of a call with a block, and the parent
of the call to whose arguments a block belongs.
-/
def optionAround? (parents : List Draft) : Draft → Option Draft
  | .node .methodAddBlock _ _ _ => parents.head?
  | _ => parents.tail.head?

/-- The argument that can replace the block of the carrier below the given parents. -/
def shorthand (parents : List Draft) (carrier block : Draft) : Except Fault (Option String) := do
  match ← block.soleMessage with
  | none => return none
  | some message =>
      if ((carrier.optionAround? parents).map isConditionalOption).getD false then
        return none
      match message with
      | .text name => return some ("&:" ++ name)
      | other => throw (.notName other.typeName)

end RubyFormat.Draft
