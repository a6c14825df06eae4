import FlowRegions.Number.Shortest
import FlowRegions.Text.Quoted
import FlowRegions.Text.LowerCase

/-!
# S-expressions

Atoms are symbols, strings and numbers; compound forms are lists in round or square brackets and
forms behind an apostrophe.
-/

namespace FlowRegions

/-- An S-expression. -/
inductive Sexp where
  | symbol (name : String)
  | string (value : String)
  | int (value : Int)
  | float (value : Binary64)
  | list (items : List Sexp)
  | brackets (items : List Sexp)
  | quoted (form : Sexp)

namespace Sexp

def kindName : Sexp → String
  | symbol _ => "Symbol"
  | string _ => "str"
  | int _ => "int"
  | float _ => "float"
  | list _ => "list"
  | brackets _ => "Brackets"
  | quoted _ => "Quoted"

mutual

def shown : Sexp → String
  | symbol name => "Symbol(" ++ Text.quoted name ++ ")"
  | string value => Text.quoted value
  | int value => toString value
  | float value => value.text
  | list items => "[" ++ ", ".intercalate (shownItems items) ++ "]"
  | brackets items => "Brackets(I=[" ++ ", ".intercalate (shownItems items) ++ "])"
  | quoted form => "Quoted(" ++ shown form ++ ")"

def shownItems : List Sexp → List String
  | [] => []
  | item :: rest => shown item :: shownItems rest

end

def head? : Sexp → Option String
  | list (symbol name :: _) => some name
  | _ => none

/-- The name that a form stands for: symbols, strings and integers have one. -/
def name? : Sexp → Option String
  | symbol name => some name
  | string value => some value
  | int value => some (toString value)
  | _ => none

/-- The truth value that a form stands for, in either case of the letters. -/
def truth? : Sexp → Option Bool
  | symbol name =>
    let word := Text.lowerCase name
    if word = "true" || word = "#t" || word = "t" then some true
    else if word = "false" || word = "#f" || word = "nil" then some false
    else none
  | _ => none

@[simp] theorem name?_symbol (name : String) : name? (symbol name) = some name := rfl

@[simp] theorem name?_string (value : String) : name? (string value) = some value := rfl

@[simp] theorem head?_list_symbol (name : String) (items : List Sexp) :
    head? (list (symbol name :: items)) = some name := rfl

end Sexp

end FlowRegions
