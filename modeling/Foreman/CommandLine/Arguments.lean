/-!
# Command line arguments

An option has a long name, most have a short one too, and each takes one value. The value is the
next argument, or follows an equals sign, or follows the short name directly. An argument that
begins with a hyphen is no value. After two hyphens every argument is an operand. The arguments are
read in order, and the first thing that is wrong with them, or that asks for help, ends the reading.
-/

namespace Foreman.CommandLine

structure OptionSpec where
  name : String
  short : Option Char := none
  repeatable : Bool := false
  accepts : String → Bool

structure Spec where
  options : List OptionSpec
  acceptsOperand : String → Bool

inductive Refusal
  | usage
  | help
deriving DecidableEq, Repr

structure Arguments where
  values : List (String × String) := []
  operands : List String := []
deriving Repr

namespace Arguments

def all (a : Arguments) (name : String) : List String :=
  (a.values.filter (·.1 = name)).map (·.2)

/-- The value of an option that is given once at most. -/
def get? (a : Arguments) (name : String) : Option String :=
  a.values.lookup name

def addOperand (spec : Spec) (a : Arguments) (operand : String) : Except Refusal Arguments :=
  if spec.acceptsOperand operand then .ok { a with operands := a.operands ++ [operand] }
  else .error .usage

def addValue (a : Arguments) (o : OptionSpec) (value : String) : Except Refusal Arguments :=
  if !o.repeatable && (a.get? o.name).isSome then .error .usage
  else if o.accepts value then .ok { a with values := a.values ++ [(o.name, value)] }
  else .error .usage

end Arguments

/-- Whether an argument can be the value of the option before it. -/
def isValue (arg : String) : Bool :=
  arg = "-" || arg.toList.head? ≠ some '-'

inductive Token
  | operandsFollow
  | operand
  | refused (r : Refusal)
  /-- An option with its value in the same argument. -/
  | valued (o : OptionSpec) (value : String)
  /-- An option whose value is the next argument. -/
  | awaiting (o : OptionSpec)

def Spec.token (spec : Spec) (arg : String) : Token :=
  match arg.toList with
  | ['-', '-'] => .operandsFollow
  | '-' :: '-' :: cs =>
    let name := String.ofList (cs.takeWhile (· ≠ '='))
    match spec.options.find? (·.name = name), cs.dropWhile (· ≠ '=') with
    | some o, _ :: value => .valued o (String.ofList value)
    | some o, [] => .awaiting o
    | none, [] => .refused (if name = "help" || name = "version" then .help else .usage)
    | none, _ => .refused .usage
  | '-' :: c :: cs =>
    match spec.options.find? (·.short = some c), cs with
    | some o, '=' :: value => .valued o (String.ofList value)
    | some o, [] => .awaiting o
    | some o, value => .valued o (String.ofList value)
    | none, _ => .refused (if c = 'h' || c = 'V' then .help else .usage)
  | _ => .operand

namespace Arguments

def readFrom (spec : Spec) (a : Arguments) : List String → Except Refusal Arguments
  | [] => .ok a
  | arg :: rest =>
    match spec.token arg with
    | .operandsFollow => rest.foldlM (addOperand spec) a
    | .operand => (addOperand spec a arg).bind fun a => readFrom spec a rest
    | .refused r => .error r
    | .valued o value => (a.addValue o value).bind fun a => readFrom spec a rest
    | .awaiting o =>
      match rest with
      | [] => .error .usage
      | value :: rest =>
        if isValue value then (a.addValue o value).bind fun a => readFrom spec a rest
        else .error .usage

def read (spec : Spec) (args : List String) : Except Refusal Arguments :=
  readFrom spec {} args

end Arguments
end Foreman.CommandLine
