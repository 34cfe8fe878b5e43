import RubyFormat.Parse.Rules

/-!
# Arrays and hashes
-/

namespace RubyFormat.Parse

open ParseM

/-- An element of an array: a splat or a value. -/
def element (rules : Rules) : ParseM Node := do
  let token ← current
  if token.isWord "*" then
    discard advance
    return .splat token.pos (← rules.range)
  else
    rules.negated

/-- An array. -/
def array (rules : Rules) : ParseM Node := do
  let pos := (← current).pos
  expect "["
  return .array pos (← delimited (closedList (element rules) "]"))

/-- An entry of a hash: a double splat, a labelled value, or a key and its value. -/
def entry (rules : Rules) : ParseM Node := do
  let token ← current
  let pos := token.pos
  if token.isWord "**" then
    discard advance
    return .doubleSplat pos (← rules.range)
  else if token.kind == .label then
    discard advance
    skipNewlines
    return .assoc pos (.name .label pos token.text) (← rules.negated)
  else
    let key ← rules.negated
    skipNewlines
    expect "=>"
    skipNewlines
    return .assoc pos key (← rules.negated)

/-- A hash. -/
def hash (rules : Rules) : ParseM Node := do
  let pos := (← current).pos
  expect "\x7b"
  return .hash pos (← delimited (closedList (entry rules) "\x7d"))

end RubyFormat.Parse
