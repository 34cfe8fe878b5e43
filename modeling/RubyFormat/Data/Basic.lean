/-!
# Plain data

What a dump is made of: null, truth values, integers, texts, lists, and objects whose entries keep
their order.  Equality of data is decidable.
-/

namespace RubyFormat

/-- Plain data. -/
inductive Data where
  | null
  | bool (value : Bool)
  | int (value : Int)
  | text (value : String)
  | list (items : List Data)
  | object (entries : List (String × Data))
  deriving Repr, Inhabited

namespace Data

mutual

/-- Equality of data is decided part by part. -/
def decEq : (left right : Data) → Decidable (left = right)
  | .null, right =>
      match right with
      | .null => isTrue rfl
      | .bool _ | .int _ | .text _ | .list _ | .object _ => isFalse nofun
  | .bool value, right =>
      match right with
      | .bool other => decidable_of_iff (value = other) (by simp)
      | .null | .int _ | .text _ | .list _ | .object _ => isFalse nofun
  | .int value, right =>
      match right with
      | .int other => decidable_of_iff (value = other) (by simp)
      | .null | .bool _ | .text _ | .list _ | .object _ => isFalse nofun
  | .text value, right =>
      match right with
      | .text other => decidable_of_iff (value = other) (by simp)
      | .null | .bool _ | .int _ | .list _ | .object _ => isFalse nofun
  | .list items, right =>
      match right with
      | .list others =>
          match decEqList items others with
          | isTrue same => isTrue (congrArg list same)
          | isFalse differ => isFalse fun same => differ (list.inj same)
      | .null | .bool _ | .int _ | .text _ | .object _ => isFalse nofun
  | .object entries, right =>
      match right with
      | .object others =>
          match decEqEntries entries others with
          | isTrue same => isTrue (congrArg object same)
          | isFalse differ => isFalse fun same => differ (object.inj same)
      | .null | .bool _ | .int _ | .text _ | .list _ => isFalse nofun

/-- Equality of lists of data is decided item by item. -/
def decEqList : (left right : List Data) → Decidable (left = right)
  | [], [] => isTrue rfl
  | [], _ :: _ => isFalse nofun
  | _ :: _, [] => isFalse nofun
  | item :: items, other :: others =>
      match decEq item other, decEqList items others with
      | isTrue sameHead, isTrue sameTail => isTrue (by rw [sameHead, sameTail])
      | isFalse differ, _ => isFalse fun same => differ (List.cons.inj same).1
      | _, isFalse differ => isFalse fun same => differ (List.cons.inj same).2

/-- Equality of the entries of objects is decided entry by entry. -/
def decEqEntries : (left right : List (String × Data)) → Decidable (left = right)
  | [], [] => isTrue rfl
  | [], _ :: _ => isFalse nofun
  | _ :: _, [] => isFalse nofun
  | (key, value) :: entries, (otherKey, otherValue) :: others =>
      match (inferInstance : Decidable (key = otherKey)), decEq value otherValue,
          decEqEntries entries others with
      | isTrue sameKey, isTrue sameValue, isTrue sameTail =>
          isTrue (by rw [sameKey, sameValue, sameTail])
      | isFalse differ, _, _ => isFalse fun same => differ (Prod.mk.inj (List.cons.inj same).1).1
      | _, isFalse differ, _ => isFalse fun same => differ (Prod.mk.inj (List.cons.inj same).1).2
      | _, _, isFalse differ => isFalse fun same => differ (List.cons.inj same).2

end

instance : DecidableEq Data := decEq

/-- Whether data has parts of its own. -/
def isNested : Data → Bool
  | .list _ | .object _ => true
  | _ => false

end Data

/--
Set the value of a key: in its place when the key has an entry, and in a new entry at the end
otherwise.
-/
def setEntry [BEq κ] (key : κ) (value : β) : List (κ × β) → List (κ × β)
  | [] => [(key, value)]
  | (other, old) :: rest =>
      if other == key then (other, value) :: rest else (other, old) :: setEntry key value rest

/-- Entries one after the other; a repeated key keeps its first place and its last value. -/
def mergeEntries [BEq κ] (pairs : List (κ × β)) : List (κ × β) :=
  pairs.foldl (fun entries pair => setEntry pair.1 pair.2 entries) []

end RubyFormat
