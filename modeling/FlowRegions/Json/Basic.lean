import FlowRegions.Number.Shortest
import FlowRegions.Text.Quoted

/-!
# JSON values

Objects keep their fields in the order in which the keys first appear, one field per key.  Values
are shown in messages with quoted texts, `None` for null and capitalised truth values.  A string is
a sequence of characters, and so it cannot keep a surrogate that a document escapes alone: the
reader replaces it, see `Json.charOfUnit`.
-/

namespace FlowRegions

/-- A JSON value.  Integers are unbounded; every other number is floating-point. -/
inductive Json where
  | null
  | bool (value : Bool)
  | int (value : Int)
  | float (value : Binary64)
  | string (value : String)
  | array (items : List Json)
  | object (fields : List (String × Json))

namespace Json

/-- Sets a field: a key that is already there keeps its place and takes the new value. -/
def setField (key : String) (value : Json) : List (String × Json) → List (String × Json)
  | [] => [(key, value)]
  | field :: rest =>
    if field.1 = key then (key, value) :: rest else field :: setField key value rest

def lookup? (key : String) : List (String × Json) → Option Json
  | [] => none
  | field :: rest => if field.1 = key then some field.2 else lookup? key rest

def kindName : Json → String
  | null => "NoneType"
  | bool _ => "bool"
  | int _ => "int"
  | float _ => "float"
  | string _ => "str"
  | array _ => "list"
  | object _ => "dict"

mutual

def shown : Json → String
  | null => "None"
  | bool value => if value then "True" else "False"
  | int value => toString value
  | float value => value.text
  | string value => Text.quoted value
  | array items => "[" ++ ", ".intercalate (shownItems items) ++ "]"
  | object fields => "\x7b" ++ ", ".intercalate (shownFields fields) ++ "\x7d"

def shownItems : List Json → List String
  | [] => []
  | item :: rest => shown item :: shownItems rest

def shownFields : List (String × Json) → List String
  | [] => []
  | (key, value) :: rest => (Text.quoted key ++ ": " ++ shown value) :: shownFields rest

end

/-- A value used as a name: a text stands for itself, anything else for what messages show. -/
def asName : Json → String
  | string value => value
  | other => other.shown

@[simp] theorem lookup?_nil (key : String) : lookup? key [] = none := rfl

@[simp] theorem asName_string (s : String) : asName (string s) = s := rfl

end Json

end FlowRegions
