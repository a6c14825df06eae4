import FlowRegions.Text.Digit
import FlowRegions.Text.Quoted

/-!
# Command-line arguments

A grammar lists options and operands.  Options may come between operands, may be cut short as long
as they stay unambiguous, and may carry their value behind an equals sign or, with one dash, right
behind the letter.  After a double dash everything is an operand.  A grammar with commands has one
operand, the command, which takes all arguments behind it.  A value that is itself a double dash is
dropped, which leaves nothing.
-/

namespace FlowRegions.Shell

/-- What an option does. -/
inductive OptionEffect where
  | flag
  | value
  | version
  | help
deriving DecidableEq, Repr

/-- An option with its spellings and, for a value, the choices if they are limited. -/
structure OptionRule where
  spellings : List String
  effect : OptionEffect
  choices : List String := []
deriving DecidableEq, Repr

namespace OptionRule

def display (rule : OptionRule) : String := "/".intercalate rule.spellings

def takesValue (rule : OptionRule) : Bool := rule.effect = .value

end OptionRule

/-- What a program, or one of its commands, takes. -/
structure Grammar where
  program : String
  options : List OptionRule
  operands : List String := []
  /-- The names of the commands; if there are any, a command takes the place of the operands. -/
  commands : List String := []
deriving Repr

/-- Why arguments are not taken further. -/
inductive Stop where
  /-- The arguments make no sense to `program`. -/
  | misuse (program reason : String)
  | version
  | help
deriving DecidableEq, Repr

/-- The value of an option or an operand; it is empty if a double dash was dropped in its place. -/
inductive Value where
  | text (s : String)
  | empty
deriving DecidableEq, Repr

namespace Value

def ofText (s : String) : Value := if s = "--" then empty else text s

/-- The value as it is written where a text is needed; the empty one is a pair of brackets. -/
def shown : Value → String
  | text s => s
  | empty => "[]"

/-- The text of a value, if it has any characters. -/
def nonempty? : Value → Option String
  | text s => if s.isEmpty then none else some s
  | empty => none

end Value

/-- Something found among the arguments; the value of an option that takes none is empty. -/
inductive Finding where
  | option (rule : OptionRule) (value : Value)
  | operand (name : String) (value : Value)
  | command (name : String) (arguments : List String)
deriving Repr

/-- An option as it is spelled in an argument; `joined` is the text that it carries. -/
structure Spelled where
  rule : OptionRule
  spelling : String
  joined? : Option String := none
deriving Repr

/-- An argument by its looks; an unknown option has no rule. -/
inductive Argument where
  | doubleDash
  | operand (text : String)
  | option (text : String) (spelled? : Option Spelled)
deriving Repr

def Argument.text : Argument → String
  | doubleDash => "--"
  | operand text => text
  | option text _ => text

def Argument.isOption : Argument → Bool
  | option .. => true
  | _ => false

namespace Grammar

def spellings (g : Grammar) : List (String × OptionRule) :=
  g.options.flatMap fun rule => rule.spellings.map (·, rule)

def rule? (g : Grammar) (spelling : String) : Option OptionRule :=
  g.spellings.lookup spelling

def splitEquals (text : String) : String × Option String :=
  let front := text.toList.takeWhile (· ≠ '=')
  match text.toList.drop front.length with
  | [] => (text, none)
  | _ :: back => (String.ofList front, some (String.ofList back))

/-- The options that a text may be short for. -/
def candidates (g : Grammar) (text : String) : List Spelled :=
  match text.toList with
  | '-' :: '-' :: _ =>
    let (front, joined?) := splitEquals text
    (g.spellings.filter fun entry => front.toList.isPrefixOf entry.1.toList).map fun entry =>
      { rule := entry.2, spelling := entry.1, joined? }
  | '-' :: letter :: rest =>
    g.spellings.filterMap fun entry =>
      if entry.1.toList = ['-', letter] then
        some { rule := entry.2, spelling := entry.1, joined? := some (String.ofList rest) }
      else if text.toList.isPrefixOf entry.1.toList then
        some { rule := entry.2, spelling := entry.1 }
      else none
  | _ => []

/-- Is there a digit, and nothing but digits up to the end or to a last line end? -/
def isDigits (text : List Char) : Bool :=
  let digits := text.takeWhile fun c => (Text.digitValue? c).isSome
  !digits.isEmpty && (text.drop digits.length == [] || text.drop digits.length == ['\n'])

/-- Is a text a dash with a number behind it? -/
def isNegativeNumber (text : String) : Bool :=
  match text.toList with
  | '-' :: number =>
    isDigits number ||
      match number.dropWhile fun c => (Text.digitValue? c).isSome with
      | '.' :: fraction => isDigits fraction
      | _ => false
  | _ => false

/-- What an argument looks like, if no double dash is in front of it. -/
def classifyOne (g : Grammar) (text : String) : Except Stop Argument :=
  if text.toList.head? ≠ some '-' then .ok (.operand text)
  else match g.rule? text with
    | some rule => .ok (.option text (some { rule, spelling := text }))
    | none =>
      if text.length = 1 then .ok (.operand text)
      else
        let (front, joined?) := splitEquals text
        match joined?.bind fun joined => (g.rule? front).map (joined, ·) with
        | some (joined, rule) =>
          .ok (.option text (some { rule, spelling := front, joined? := some joined }))
        | none =>
          match g.candidates text with
          | [spelled] => .ok (.option text (some spelled))
          | [] =>
            if isNegativeNumber text || text.toList.contains ' ' then .ok (.operand text)
            else .ok (.option text none)
          | many => .error (.misuse g.program
              ("ambiguous option: " ++ text ++ " could match " ++
                ", ".intercalate (many.map (·.spelling))))

def classify (g : Grammar) : List String → Except Stop (List Argument)
  | [] => .ok []
  | text :: rest =>
    if text = "--" then .ok (.doubleDash :: rest.map .operand)
    else do
      let argument ← g.classifyOne text
      return argument :: (← classify g rest)

def misuseOf (g : Grammar) (name reason : String) : Stop :=
  .misuse g.program ("argument " ++ name ++ ": " ++ reason)

/-- What is said about a value that is none of the choices. -/
def invalidChoice (value : String) (choices : List String) : String :=
  "invalid choice: " ++ Text.quoted value ++ " (choose from " ++
    ", ".intercalate (choices.map Text.quoted) ++ ")"

/-- An error about text that an option carries and does not take. -/
def ignored (g : Grammar) (rule : OptionRule) (joined : String) : Stop :=
  g.misuseOf rule.display ("ignored explicit argument " ++ Text.quoted joined)

/-- Takes an option with its value; one that takes a value has one. -/
def take (g : Grammar) (rule : OptionRule) (value? : Option String) : Except Stop Finding :=
  match rule.effect with
  | .version => .error .version
  | .help => .error .help
  | .flag => .ok (.option rule .empty)
  | .value =>
    match Value.ofText (value?.getD "") with
    | .empty => .ok (.option rule .empty)
    | .text value =>
      if rule.choices.isEmpty || rule.choices.contains value then
        .ok (.option rule (.text value))
      else .error (g.misuseOf rule.display (invalidChoice value rule.choices))

/-- Several options behind one dash: the given one, and those of the letters that follow.  What
follows one that takes a value is its value. -/
def cluster (g : Grammar) (rule : OptionRule) :
    List Char → Except Stop (List (OptionRule × Option String))
  | [] => .ok [(rule, none)]
  | letter :: rest =>
    let joined := String.ofList (letter :: rest)
    if rule.takesValue then .ok [(rule, some joined)]
    else match g.rule? (String.ofList ['-', letter]) with
      | none => .error (g.ignored rule joined)
      | some next => return (rule, none) :: (← cluster g next rest)

def unpack (g : Grammar) (spelled : Spelled) :
    Except Stop (List (OptionRule × Option String)) :=
  match spelled.joined? with
  | none => .ok [(spelled.rule, none)]
  | some joined =>
    if spelled.rule.takesValue then .ok [(spelled.rule, some joined)]
    else if joined.isEmpty || "--".toList.isPrefixOf spelled.spelling.toList then
      .error (g.ignored spelled.rule joined)
    else g.cluster spelled.rule joined.toList

/-- What was found so far. -/
structure Progress where
  findings : List Finding := []
  /-- The operands that are still missing. -/
  missing : List String
  /-- Arguments that nothing takes. -/
  extras : List String := []

def dropDash : List Argument → List Argument
  | .doubleDash :: rest => rest
  | arguments => arguments

/-- The operand at the front, with a double dash before or after it.  One double dash is dropped:
that one, or else the operand itself. -/
def takeOperand? : List Argument → Option (Value × List Argument)
  | .doubleDash :: .operand value :: rest => some (.text value, rest)
  | .operand value :: rest => some (.ofText value, dropDash rest)
  | _ => none

/-- Takes as many operands from the front as there are missing ones. -/
def takeOperands (missing : List String) (arguments : List Argument) :
    List Finding × List String × List Argument :=
  match missing with
  | [] => ([], [], arguments)
  | name :: others =>
    match takeOperand? arguments with
    | some (value, rest) =>
      let (findings, missing, rest) := takeOperands others rest
      (.operand name value :: findings, missing, rest)
    | none => ([], missing, arguments)

/-- Takes a command with everything behind it, or else operands. -/
def takeFront (g : Grammar) (progress : Progress) (arguments : List Argument) :
    Except Stop (Progress × List Argument) :=
  if g.commands.isEmpty then
    let (findings, missing, rest) := takeOperands progress.missing arguments
    .ok ({ progress with findings := progress.findings ++ findings, missing }, rest)
  else match dropDash arguments with
    | .operand first :: rest =>
      let name := if (arguments.map Argument.text).head? = some "--" then "--" else first
      if g.commands.contains name then
        let found := Finding.command name (rest.map Argument.text)
        .ok ({ progress with findings := progress.findings ++ [found] }, [])
      else .error (g.misuseOf "<command>" (invalidChoice name g.commands))
    | _ => .ok (progress, arguments)

/-- The options of the argument at the front with their values, and what is left.  The last option
may find its value in the next argument. -/
def takeValue (g : Grammar) (options : List (OptionRule × Option String)) (rest : List Argument) :
    Except Stop (List (OptionRule × Option String) × List Argument) :=
  match options.getLast? with
  | some (rule, none) =>
    if rule.takesValue then
      match rest with
      | .operand value :: behind => .ok (options.dropLast ++ [(rule, some value)], behind)
      | _ => .error (g.misuseOf rule.display "expected one argument")
    else .ok (options, rest)
  | _ => .ok (options, rest)

def takeOption (g : Grammar) (progress : Progress) (text : String) (spelled? : Option Spelled)
    (rest : List Argument) : Except Stop (Progress × List Argument) :=
  match spelled? with
  | none => .ok ({ progress with extras := progress.extras ++ [text] }, rest)
  | some spelled => do
    let (options, rest) ← g.takeValue (← g.unpack spelled) rest
    let findings ← options.mapM fun (rule, value?) => g.take rule value?
    return ({ progress with findings := progress.findings ++ findings }, rest)

/-- Takes options and operands in turn.  Every round takes an argument or sees the last option, so
the count of arguments bounds the rounds. -/
def takeAll (g : Grammar) : Nat → Progress → List Argument → Except Stop Progress
  | 0, progress, _ => .ok progress
  | fuel + 1, progress, arguments =>
    match arguments with
    | .option text spelled? :: rest => do
      let (progress, rest) ← g.takeOption progress text spelled? rest
      takeAll g fuel progress rest
    | arguments => do
      let (progress, rest) ← g.takeFront progress arguments
      if rest.length < arguments.length && rest.any (·.isOption) then
        takeAll g fuel progress rest
      else
        let stuck := rest.takeWhile (!·.isOption)
        let progress := { progress with extras := progress.extras ++ stuck.map Argument.text }
        takeAll g fuel progress (rest.drop stuck.length)

/-- Reads arguments into findings and the arguments that nothing takes. -/
def read (g : Grammar) (arguments : List String) : Except Stop (List Finding × List String) := do
  let found ← g.classify arguments
  let missing := if g.commands.isEmpty then g.operands else []
  let progress ← g.takeAll (2 * found.length + 2) { missing } found
  if progress.missing.isEmpty then return (progress.findings, progress.extras)
  else throw (.misuse g.program
    ("the following arguments are required: " ++ ", ".intercalate progress.missing))

end Grammar

end FlowRegions.Shell
