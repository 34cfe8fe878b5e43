import RubyFormat.Parse.Rules

/-!
# Parameters of blocks and lambdas

Parameters are read from left to right and sorted by kind.  Each one is a local variable from then
on, also in the defaults that follow.
-/

namespace RubyFormat

/-- Parameters sorted by kind. -/
structure ParamList where
  required : List Node := []
  optional : List Node := []
  rest : Option Node := none
  post : List Node := []
  keywords : List Node := []
  keywordRest : Option Node := none
  block : Option Node := none
  deriving Repr, Inhabited

namespace ParamList

/-- The parameters as a node. -/
def toNode (list : ParamList) (pos : Pos) : Node :=
  .params pos list.required list.optional list.rest list.post list.keywords list.keywordRest
    list.block

/-- Add a name without default: it is required unless a rest or an optional one comes before. -/
def addName (list : ParamList) (name : Node) : ParamList :=
  if list.rest.isSome || !list.optional.isEmpty then
    { list with post := list.post ++ [name] }
  else
    { list with required := list.required ++ [name] }

/-- Whether a comma may close the list: there are positional parameters only, and no rest. -/
def allowsExcessedComma (list : ParamList) : Bool :=
  list.rest.isNone && list.keywords.isEmpty && list.keywordRest.isNone && list.block.isNone

end ParamList

namespace Parse

open ParseM

/-- The name of a parameter, which becomes a local variable. -/
def paramName : ParseM Node := do
  let token ← current
  if token.kind == .ident then
    discard advance
    declare token.text
    return .name .ident token.pos token.text
  else
    fail (.expectedParamName token)

/-- The name of a parameter that can be nameless. -/
def paramName? : ParseM (Option Node) := do
  if (← current).kind == .ident then
    return some (← paramName)
  else
    return none

/-- One more parameter. -/
def param (rules : Rules) (closer : String) (list : ParamList) : ParseM ParamList := do
  let token ← current
  let pos := token.pos
  if token.isWord "*" then
    discard advance
    return { list with rest := some (.restParam pos (← paramName?)) }
  else if token.isWord "**" then
    discard advance
    return { list with keywordRest := some (.keywordRestParam pos (← paramName?)) }
  else if token.isWord "&" then
    discard advance
    return { list with block := some (.blockParam pos (← paramName)) }
  else if token.kind == .label then
    discard advance
    declare (String.ofList token.text.toList.dropLast)
    let next ← current
    let default ←
      if next.isWord "," || next.isWord closer then
        pure none
      else
        pure (some (← rules.conjunction))
    let keyword := .keywordParam pos (.name .label pos token.text) default
    return { list with keywords := list.keywords ++ [keyword] }
  else if token.kind == .ident then
    let name ← paramName
    if ← isAt "=" then
      discard advance
      let default ← rules.conjunction
      return { list with optional := list.optional ++ [.optionalParam pos name default] }
    else
      return list.addName name
  else
    fail (.unexpectedParam token)

/-- One more parameter behind those read, unless the closing word is next. -/
def paramStep (rules : Rules) (closer : String) (list : ParamList) :
    ParseM (LoopStep ParamList ParamList) := do
  if ← isAt closer then
    return .done list
  else
    let list ← param rules closer list
    skipNewlines
    if ← isAt "," then
      let comma ← advance
      skipNewlines
      let next ← current
      if next.isWord closer then
        if closer == "|" && list.allowsExcessedComma then
          return .done { list with rest := some (.excessedComma comma.pos) }
        else
          fail (.unexpectedAfterComma next)
      else
        return .again list
    else
      return .done list

/-- Parameters up to the closing word, which is not taken. -/
def params (rules : Rules) (closer : String) : ParseM Node := do
  let pos := (← current).pos
  skipNewlines
  let list ← loop (paramStep rules closer) ({} : ParamList)
  return list.toNode pos

end Parse

end RubyFormat
