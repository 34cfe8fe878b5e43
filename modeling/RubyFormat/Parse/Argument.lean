import RubyFormat.Parse.Rules

/-!
# Arguments of calls

Arguments are read one by one.  Neighbouring entries, `key => value` and `**hash`, then become one
hash without braces.
-/

namespace RubyFormat

namespace Node

/-- Whether a node is an entry of a hash. -/
def isEntry : Node → Bool
  | .assoc _ _ _ | .doubleSplat _ _ => true
  | _ => false

/-- Join neighbouring entries of a list of arguments, each run at the place of its first entry. -/
def gatherEntries : List Node → List Node
  | [] => []
  | part :: rest =>
      if part.isEntry then
        match gatherEntries rest with
        | .bareAssocHash _ entries :: others => .bareAssocHash part.pos (part :: entries) :: others
        | others => .bareAssocHash part.pos [part] :: others
      else
        part :: gatherEntries rest

end Node

namespace Parse

open ParseM

/-- One argument: a splat, a block, an entry or a value. -/
def argument (rules : Rules) : ParseM Node := do
  let token ← current
  let pos := token.pos
  if token.isWord "*" then
    discard advance
    return .splat pos (← rules.range)
  else if token.isWord "**" then
    discard advance
    return .doubleSplat pos (← rules.range)
  else if token.isWord "&" then
    discard advance
    let next ← current
    if next.isWord ")" || next.endsStatement then
      return .blockArg pos none
    else
      return .blockArg pos (some (← rules.range))
  else if token.kind == .label then
    discard advance
    skipNewlines
    return .assoc pos (.name .label pos token.text) (← rules.negated)
  else
    let value ← rules.negated
    if ← isAt "=>" then
      discard advance
      skipNewlines
      return .assoc pos value (← rules.negated)
    else
      return value

/-- The arguments of a call; after a comma the closing word, if there is one, ends them. -/
def arguments (rules : Rules) (closer : Option String) : ParseM Node := do
  let pos := (← current).pos
  let parts ← commaList (argument rules) do
    match closer with
    | some word => isAt word
    | none => return false
  return .args pos (Node.gatherEntries parts)

/-- Arguments in parentheses. -/
def parenArguments (rules : Rules) : ParseM Node := do
  let pos := (← current).pos
  expect "("
  let args ← delimited do
    skipNewlines
    if ← isAt ")" then
      discard advance
      return none
    else
      let args ← arguments rules (some ")")
      skipNewlines
      expect ")"
      return some args
  return .argParen pos args

/-- The arguments of an index. -/
def indexArguments (rules : Rules) : ParseM (Option Node) := do
  expect "["
  skipNewlines
  let args ← do
    if ← isAt "]" then
      pure none
    else
      pure (some (← arguments rules (some "]")))
  skipNewlines
  expect "]"
  return args

end Parse

end RubyFormat
