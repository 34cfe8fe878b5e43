/-!
# Attributes

Besides its own fields an object has what all objects of its type have: methods, each bound to the
object that it is found on, and a few things more, such as the type itself.  The first attribute of
a name in a table is the one that counts.
-/

namespace RubyFormat

/-- How a method comes about. -/
inductive MethodSort where
  | written
  | slot
  | builtin
  deriving DecidableEq, Repr

/-- The name of what a method is, as messages give it. -/
def MethodSort.typeName : MethodSort → String
  | .written => "method"
  | .slot => "method-wrapper"
  | .builtin => "builtin_function_or_method"

/-- What all objects of a type have under some name. -/
inductive Attribute where
  /-- A method, bound to the object. -/
  | method (sort : MethodSort)
  /-- Something that belongs to no single object, by the name of what it is. -/
  | shared (typeName : String)
  deriving DecidableEq, Repr

namespace Attribute

/-- Methods of the given names. -/
def methods (sort : MethodSort) (names : List String) : List (String × Attribute) :=
  names.map fun name => (name, method sort)

/-- The attributes that every object has. -/
def ofObject : List (String × Attribute) :=
  methods .slot [
    "__delattr__", "__eq__", "__ge__", "__getattribute__", "__gt__", "__hash__", "__init__",
    "__le__", "__lt__", "__ne__", "__repr__", "__setattr__", "__str__"] ++
  methods .builtin [
    "__dir__", "__format__", "__getstate__", "__reduce__", "__reduce_ex__", "__sizeof__"] ++
  [("__class__", shared "type"), ("__doc__", shared "str"),
    ("__init_subclass__", shared "builtin_function_or_method"),
    ("__new__", shared "builtin_function_or_method"),
    ("__subclasshook__", shared "builtin_function_or_method")]

/-- The attributes of a node or a place besides its fields. -/
def ofRecord : List (String × Attribute) :=
  methods .written [
    "__delattr__", "__eq__", "__hash__", "__init__", "__repr__", "__setattr__"] ++
  [("__annotations__", shared "dict"), ("__dataclass_fields__", shared "dict"),
    ("__dataclass_params__", shared "_DataclassParams"), ("__dict__", shared "dict"),
    ("__module__", shared "str"), ("__weakref__", shared "NoneType")] ++
  ofObject

/-- The attributes of a list. -/
def ofList : List (String × Attribute) :=
  methods .slot [
    "__add__", "__contains__", "__getitem__", "__iter__", "__len__", "__mul__", "__rmul__"] ++
  methods .builtin ["__getnewargs__", "count", "index"] ++
  [("__class_getitem__", shared "builtin_function_or_method")] ++ ofObject

/-- The attributes of a text. -/
def ofText : List (String × Attribute) :=
  methods .slot [
    "__add__", "__contains__", "__getitem__", "__iter__", "__len__", "__mod__", "__mul__",
    "__rmod__", "__rmul__"] ++
  methods .builtin [
    "__getnewargs__", "capitalize", "casefold", "center", "count", "encode", "endswith",
    "expandtabs", "find", "format", "format_map", "index", "isalnum", "isalpha", "isascii",
    "isdecimal", "isdigit", "isidentifier", "islower", "isnumeric", "isprintable", "isspace",
    "istitle", "isupper", "join", "ljust", "lower", "lstrip", "partition", "removeprefix",
    "removesuffix", "replace", "rfind", "rindex", "rjust", "rpartition", "rsplit", "rstrip",
    "split", "splitlines", "startswith", "strip", "swapcase", "title", "translate", "upper",
    "zfill"] ++
  [("maketrans", shared "builtin_function_or_method")] ++ ofObject

/-- The attributes of a number or a truth value. -/
def ofNumber : List (String × Attribute) :=
  methods .slot [
    "__abs__", "__add__", "__and__", "__bool__", "__divmod__", "__float__", "__floordiv__",
    "__index__", "__int__", "__invert__", "__lshift__", "__mod__", "__mul__", "__neg__", "__or__",
    "__pos__", "__pow__", "__radd__", "__rand__", "__rdivmod__", "__rfloordiv__", "__rlshift__",
    "__rmod__", "__rmul__", "__ror__", "__rpow__", "__rrshift__", "__rshift__", "__rsub__",
    "__rtruediv__", "__rxor__", "__sub__", "__truediv__", "__xor__"] ++
  methods .builtin [
    "__ceil__", "__floor__", "__getnewargs__", "__round__", "__trunc__", "as_integer_ratio",
    "bit_count", "bit_length", "conjugate", "to_bytes"] ++
  [("from_bytes", shared "builtin_function_or_method")] ++ ofObject

/-- The attributes of what stands for nothing. -/
def ofAbsent : List (String × Attribute) :=
  methods .slot ["__bool__"] ++ [("__doc__", shared "NoneType")] ++ ofObject

/-- The attributes of a method besides the object that it is bound to. -/
def ofMethod : MethodSort → List (String × Attribute)
  | .written =>
      methods .slot ["__call__"] ++ [("__func__", shared "function")] ++
        [("__doc__", shared "NoneType"), ("__name__", shared "str"),
          ("__qualname__", shared "str"), ("__module__", shared "str")] ++ ofObject
  | .slot =>
      methods .slot ["__call__"] ++
        [("__name__", shared "str"), ("__qualname__", shared "str"),
          ("__text_signature__", shared "str"), ("__objclass__", shared "type")] ++ ofObject
  | .builtin =>
      methods .slot ["__call__"] ++
        [("__name__", shared "str"), ("__qualname__", shared "str"),
          ("__text_signature__", shared "str"), ("__module__", shared "NoneType")] ++ ofObject

/-- The attributes of a dictionary. -/
def ofDict : List (String × Attribute) :=
  methods .slot [
    "__delitem__", "__ior__", "__iter__", "__len__", "__or__", "__ror__", "__setitem__"] ++
  methods .builtin [
    "__contains__", "__getitem__", "__reversed__", "clear", "copy", "get", "items", "keys", "pop",
    "popitem", "setdefault", "update", "values"] ++
  [("__class_getitem__", shared "builtin_function_or_method"),
    ("fromkeys", shared "builtin_function_or_method"), ("__hash__", shared "NoneType")] ++ ofObject

/--
The attributes of what belongs to no single object.  Types and functions have more than every object
has, but nothing that leads back to a node.
-/
def ofShared : String → List (String × Attribute)
  | "str" => ofText
  | "dict" => ofDict
  | "NoneType" => ofAbsent
  | "builtin_function_or_method" => ("__self__", shared "type") :: ofMethod .builtin
  | _ => ofObject

end Attribute

end RubyFormat
