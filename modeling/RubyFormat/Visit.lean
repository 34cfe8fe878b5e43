import RubyFormat.Cursor

/-!
# Visits

A visit works with one cursor, which it moves up and down.  A descent moves the cursor to every node
on a way, lets a visit work on the last one, and moves the cursor up again by as many nodes,
whether the way could be gone to its end or not, and whether the visit came to its end or not.
-/

namespace RubyFormat

namespace Cursor

/-- The cursor on the node right above; nothing is above a root. -/
def up : Cursor → Cursor
  | ⟨_, above :: parents⟩ => ⟨above, parents⟩
  | ⟨root, []⟩ => ⟨root, []⟩

/-- The cursor so many nodes further up. -/
def rise (cursor : Cursor) : Nat → Cursor
  | 0 => cursor
  | count + 1 => cursor.up.rise count

/-- How far a way has been gone. -/
structure Descent where
  cursor : Cursor
  /-- How many nodes the cursor was moved down. -/
  pushed : Nat
  /-- Why the way could not be gone to its end. -/
  fault : Option Fault

/-- Go on from an item that the cursor has reached; the whole way is needed for the message. -/
def descendFrom (way : List Step) (cursor : Cursor) (pushed : Nat) (item : Item) :
    List Step → Descent
  | [] =>
      match item with
      | .content (.node _ _ _ _) => ⟨cursor, pushed, none⟩
      | _ => ⟨cursor, pushed, some (.notNode way)⟩
  | step :: rest =>
      match item.step step with
      | .error fault => ⟨cursor, pushed, some fault⟩
      | .ok (.content (.node kind line col fields)) =>
          let node := Draft.node kind line col fields
          descendFrom way (cursor.down node) (pushed + 1) (.content node) rest
      | .ok next => descendFrom way cursor pushed next rest

/-- Go down a way as far as possible. -/
def descend (cursor : Cursor) (way : List Step) : Descent :=
  descendFrom way cursor 0 (.content cursor.focus) way

end Cursor

/-- Work with a cursor that can fail; the cursor stays where it is then. -/
abbrev Visit := EStateM Fault Cursor

namespace Visit

/-- Visit the node that a descent has reached, and move the cursor up by what was pushed. -/
def under (visit : Visit α) : Cursor.Descent → EStateM.Result Fault Cursor α
  | ⟨cursor, pushed, some fault⟩ => .error fault (cursor.rise pushed)
  | ⟨cursor, pushed, none⟩ =>
      match visit cursor with
      | .ok result after => .ok result (after.rise pushed)
      | .error fault after => .error fault (after.rise pushed)

/-- Visit the node at the end of a way. -/
def call (way : List Step) (visit : Visit α) : Visit α := fun cursor =>
  visit.under (cursor.descend way)

/-- The way to a field, or to an item of a field. -/
def wayTo (name : String) (index : Option Int) : List Step :=
  .field name :: (index.map Step.index).toList

/-- Visit the node in a field, or one of those in a field. -/
def child (name : String) (index : Option Int) (visit : Visit α) : Visit α :=
  call (wayTo name index) visit

/-- Visit each node in a field. -/
def children (name : String) (visit : Visit α) : Visit (List α) := do
  let count ← MonadExcept.ofExcept ((← get).count name)
  (List.range count).mapM fun index => child name (some (Int.ofNat index)) visit

/-- A visit that reports its fault instead of failing. -/
def attempt (visit : Visit α) : Visit (Except Fault α) := fun cursor =>
  match visit cursor with
  | .ok result after => .ok (.ok result) after
  | .error fault after => .ok (.error fault) after

/-- The document of the node under the cursor. -/
def layout (options : Options) : Visit Doc := do
  let cursor ← get
  MonadExcept.ofExcept (cursor.inspect options).verdict
  return cursor.layout options

/--
The documents of the nodes in a field.  All of them are laid out before the first is written, so
the faults that only a document shows come last.
-/
def layouts (options : Options) (name : String) : Visit (List Doc) := do
  let visited ← children name do
    let cursor ← get
    return (cursor.layout options, ← MonadExcept.ofExcept (cursor.inspect options))
  MonadExcept.ofExcept (Inspection.verdict (.ok (visited.flatMap (·.2))))
  return visited.map (·.1)

end Visit

end RubyFormat
