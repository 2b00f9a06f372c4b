import Bindery.Text.Search

/-!
# Options

How the arguments of a command are read as options and operands. An option has a name behind two
dashes and may have a letter behind one; some take a value, which follows in the same argument or in
the next. After a lone double dash all arguments are operands.

A value is accepted only when the argument behind it is read, so an argument that is not known is
refused before a value that is not valid.
-/

namespace Bindery.Options

/-- Why a command line is not carried out. -/
inductive Refusal where
  /-- help is asked for -/
  | help
  /-- the version is asked for -/
  | version
  | missingCommand
  | unknownCommand
  | unknownArgument
  /-- an option or operand has no value, or one that is not valid -/
  | invalidValue
  /-- an option that takes no value has one -/
  | unexpectedValue
  | missingOperand
  | repeatedOption
deriving DecidableEq, Repr

/-- The exit code of the program: zero when what was asked for is a text. -/
def Refusal.exitCode : Refusal → UInt32
  | .help | .version => 0
  | _ => 2

def Refusal.message : Refusal → String
  | .help => "help"
  | .version => "version"
  | .missingCommand => "a command is required"
  | .unknownCommand => "there is no such command"
  | .unknownArgument => "an argument is not known"
  | .invalidValue => "a value is missing or not valid"
  | .unexpectedValue => "an option that takes no value has one"
  | .missingOperand => "an operand is missing"
  | .repeatedOption => "an option is given more than once"

/-- What an option stands for. -/
inductive Kind where
  | help
  | version
  | switch
  | value (accepts : String → Bool)

/-- An option of a command. -/
structure Rule where
  name : String
  letter? : Option Char
  kind : Kind

/-- The operands of a command. -/
structure OperandRule where
  accepts : String → Bool
  /-- whether there may be several -/
  repeated : Bool
  /-- whether there must be one -/
  required : Bool

/-- The arguments that a command takes. -/
structure Grammar where
  options : List Rule
  operand? : Option OperandRule

/-- What was read last and is not yet accepted. -/
inductive Pending where
  | nothing
  /-- an option, and its value if that was read -/
  | option (rule : Rule) (value? : Option String)
  | operands (values : List String)

/-- What was read of the arguments of a command. -/
structure Reading where
  pending : Pending
  switches : List String
  values : List (String × String)
  operands : List String
  /-- whether a lone double dash was read -/
  onlyOperands : Bool

namespace Reading

def start : Reading := ⟨.nothing, [], [], [], false⟩

/-- The value of an option that takes one. -/
def value? (reading : Reading) (option : String) : Option String :=
  reading.values.lookup option

def accept (rule : Rule) (value : String) (reading : Reading) : Except Refusal Reading :=
  if (reading.value? rule.name).isSome then .error .repeatedOption
  else
    match rule.kind with
    | .value accepts =>
        if accepts value then
          .ok { reading with values := reading.values ++ [(rule.name, value)] }
        else .error .invalidValue
    | _ => .error .unexpectedValue

def settle (grammar : Grammar) (reading : Reading) : Except Refusal Reading :=
  let settled := { reading with pending := .nothing }
  match reading.pending with
  | .nothing => .ok settled
  | .option _ none => .error .invalidValue
  | .option rule (some value) => accept rule value settled
  | .operands values =>
      match grammar.operand? with
      | none => .error .unknownArgument
      | some rule =>
          if values.all rule.accepts then
            .ok { settled with operands := settled.operands ++ values }
          else .error .invalidValue

/-- Reads an option, with the value that stands in the same argument. -/
def readOption (grammar : Grammar) (rule : Rule) (attached? : Option String)
    (reading : Reading) : Except Refusal Reading := do
  match rule.kind, attached? with
  | .value _, some value => accept rule value (← settle grammar reading)
  | .value _, none => return { ← settle grammar reading with pending := .option rule none }
  | _, some _ => throw .unexpectedValue
  | .help, none =>
      -- what precedes the request for help may still be refused
      discard (settle grammar reading)
      throw .help
  | .version, none =>
      discard (settle grammar reading)
      throw .version
  | .switch, none =>
      let settled ← settle grammar reading
      if settled.switches.contains rule.name then throw .repeatedOption
      else return { settled with switches := settled.switches ++ [rule.name] }

/-- The value of an option that stands behind its letter; an equals sign may precede it. -/
def attached? : List Char → Option String
  | [] => none
  | '=' :: value => some (String.ofList value)
  | value => some (String.ofList value)

def readLetters (grammar : Grammar) : List Char → Reading → Except Refusal Reading
  | [], reading => .ok reading
  | letter :: rest, reading =>
      match grammar.options.find? (·.letter? = some letter) with
      | none => .error .unknownArgument
      | some rule =>
          match rule.kind with
          | .value _ => readOption grammar rule (attached? rest) reading
          | _ => do readLetters grammar rest (← readOption grammar rule none reading)

/-- Reads an option by its name, which an equals sign and a value may follow. -/
def readName (grammar : Grammar) (text : List Char) (reading : Reading) :
    Except Refusal Reading :=
  let name := String.ofList (text.takeWhile (· ≠ '='))
  match grammar.options.find? (·.name = name) with
  | none => .error .unknownArgument
  | some rule =>
      let attached? :=
        match text.dropWhile (· ≠ '=') with
        | [] => none
        | _ :: value => some (String.ofList value)
      readOption grammar rule attached? reading

def readOperand (grammar : Grammar) (operand : String) (reading : Reading) :
    Except Refusal Reading :=
  match grammar.operand?, reading.pending with
  | none, _ => .error .unknownArgument
  | some rule, .operands values =>
      if rule.repeated then .ok { reading with pending := .operands (values ++ [operand]) }
      else .error .unknownArgument
  | some rule, _ =>
      if rule.repeated || reading.operands.isEmpty then do
        return { ← settle grammar reading with pending := .operands [operand] }
      else .error .unknownArgument

def readArgument (grammar : Grammar) (reading : Reading) (argument : String) :
    Except Refusal Reading :=
  if reading.onlyOperands then readOperand grammar argument reading
  else
    match argument.toList with
    | ['-', '-'] => .ok { reading with onlyOperands := true }
    | '-' :: '-' :: name => readName grammar name reading
    | '-' :: letter :: rest => readLetters grammar (letter :: rest) reading
    | _ =>
        match reading.pending with
        | .option rule none => .ok { reading with pending := .option rule (some argument) }
        | _ => readOperand grammar argument reading

end Reading

def Grammar.read (grammar : Grammar) (arguments : List String) : Except Refusal Reading := do
  let reading ← (← arguments.foldlM (Reading.readArgument grammar) .start).settle grammar
  if reading.operands.isEmpty && grammar.operand?.any OperandRule.required then
    throw .missingOperand
  else return reading

end Bindery.Options
