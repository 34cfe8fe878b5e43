import RubyFormat.Draft.Shorthand
import RubyFormat.Options

/-!
# The faults of a hand-written tree

A draft is inspected in the order in which its layout goes through it.  The first fault that the
layout meets is the one that counts.  What should be a text in the document, and is none, is noticed
only when the document is written, so these faults are listed and count only if there is no other.

A block that its shorthand replaces is not laid out, and neither are the comments of its call; their
faults do not count.
-/

namespace RubyFormat

/-- The fault that a layout meets first, or else the faults that only its document shows. -/
abbrev Inspection := Except Fault (List Fault)

/-- The fault that counts, if there is one. -/
def Inspection.verdict : Inspection → Except Fault Unit
  | .error fault => .error fault
  | .ok [] => .ok ()
  | .ok (fault :: _) => .error fault

namespace Draft

/-- Whether a node can have a block as its last argument. -/
def takesBlockArgument : Draft → Bool
  | .node .call _ _ _ | .node .fcall _ _ _ | .node .command _ _ _ => true
  | _ => false

/-- Whether a shorthand replaces the block of a call. -/
def collapses (options : Options) (parents : List Draft) : Draft → Except Fault Bool
  | draft@(.node .methodAddBlock _ _ [(_, callee), (_, block)]) => do
      if options.toProc && callee.takesBlockArgument then
        return (← shorthand parents draft block).isSome
      else
        return false
  | _ => return false

/-- The fields of a call that count when a block becomes one more argument of it. -/
def calleeSchema : Kind → List (String × FieldSort)
  | .call => [
      ("receiver", .node), ("operator", .operator), ("message", .node), ("args", .parenthesised)]
  | .fcall => [("message", .node), ("args", .parenthesised)]
  | kind => kind.schema

/-- What comes of content that can neither be laid out nor gone through, by the name of what it is. -/
def misfit (sort : FieldSort) (way : List Step) (typeName : String) : Inspection :=
  match sort with
  | .text => .ok [.notText typeName]
  | .operator => .ok [.notOperator typeName]
  | .node | .optional | .parenthesised => .error (.notNode way)
  | .rest => .ok []
  | .list | .optionalList => .error (.noLength typeName)

/-- What there is to inspect of a node. -/
inductive Visit where
  /-- Nothing further. -/
  | nothing (shown : List Fault)
  /-- Its fields. -/
  | fields
  /-- The call in the first of its fields, to which its block becomes one more argument. -/
  | callee
  deriving Repr

/-- What there is to inspect of a node that is laid out. -/
def visit (options : Options) (parents : List Draft) (draft : Draft) (kind : Kind) :
    Except Fault Visit := do
  if kind = .bare then
    throw (.unhandled kind.typeName)
  else if ← collapses options parents draft then
    return .callee
  else
    return .fields

/-- What there is to inspect of a node in a field made for the sort. -/
def visitAs (options : Options) (parents : List Draft) (sort : FieldSort) (draft : Draft)
    (kind : Kind) : Except Fault Visit :=
  match sort with
  | .node | .optional => visit options parents draft kind
  | .rest => if kind = .restParam then visit options parents draft kind else .ok (.nothing [])
  | .parenthesised =>
      if kind = .argParen then visit options parents draft kind else .error .notParenthesised
  | .text | .operator | .list | .optionalList =>
      (misfit sort [] kind.typeName).map Visit.nothing

mutual

/-- Inspect what stands below the given nodes, at the end of a way, in a field made for the sort. -/
def inspect (options : Options) (parents : List Draft) (sort : FieldSort) (way : List Step) :
    Draft → Inspection
  | .absent =>
      match sort with
      | .optional | .parenthesised | .optionalList => return []
      | _ => misfit sort way absent.typeName
  | .truth value => misfit sort way (truth value).typeName
  | .number value => misfit sort way (number value).typeName
  | .text value =>
      match sort with
      | .text | .operator => return []
      | .list | .optionalList =>
          if value.isEmpty then return [] else throw (.cannotIndex (text value).typeName)
      | _ => misfit sort way (text value).typeName
  | .list items =>
      match sort with
      | .list | .optionalList => inspectItems options parents way 0 items
      | _ => misfit sort way (list items).typeName
  | .node kind line col fields => do
      let draft := node kind line col fields
      match ← visitAs options parents sort draft kind with
      | .nothing shown => return shown
      | .fields => inspectFields options (draft :: parents) kind.schema fields
      | .callee => inspectCallee options (draft :: parents) fields
termination_by structural draft => draft

/-- Inspect the call in the first of the fields, to which its block becomes one more argument. -/
def inspectCallee (options : Options) (parents : List Draft) : List (String × Draft) → Inspection
  | (_, .node kind line col fields) :: _ =>
      inspectFields options (node kind line col fields :: parents) (calleeSchema kind) fields
  | _ => return []
termination_by structural fields => fields

/-- Inspect the fields of a node. -/
def inspectFields (options : Options) (parents : List Draft) :
    List (String × FieldSort) → List (String × Draft) → Inspection
  | (name, sort) :: schema, (_, content) :: rest => do
      let first ← inspect options parents sort [.field name] content
      return first ++ (← inspectFields options parents schema rest)
  | _, _ => return []
termination_by structural _ fields => fields

/-- Inspect the items of a list, the first of which has the given index. -/
def inspectItems (options : Options) (parents : List Draft) (way : List Step) (index : Nat) :
    List Draft → Inspection
  | [] => return []
  | item :: rest => do
      let first ← inspect options parents .node (way ++ [.index index]) item
      return first ++ (← inspectItems options parents way (index + 1) rest)
termination_by structural items => items

end

end Draft

end RubyFormat
