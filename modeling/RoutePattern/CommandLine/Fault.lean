import RoutePattern.CommandLine.Command
import RoutePattern.Files
import RoutePattern.Text.Quoted

namespace RoutePattern

inductive UsageFault where
  | unknownOption (name : Text) (alike : List Text)
  | noValue (name : Text)
  | needlessValue (name : Text)
  | noCommand
  | unknownCommand (name : Text)
  | noOperand (name : Text)
  | needlessOperands (operands : List Text)
  | directory (path : Text)
  | unreadable (path : Text) (fault : Files.OpenFault)
  | noAssignment (text : Text)
  | noPatterns
deriving DecidableEq, Repr

namespace UsageFault

def hint : List Text → Text
  | [] => []
  | [name] => " Did you mean " ++ name ++ "?"
  | names => " (Possible options: " ++ Text.join ", " (Text.sorted names) ++ ")"

def message : UsageFault → Text
  | unknownOption name alike => "No such option: " ++ name ++ hint alike
  | noValue name => "Option " ++ Text.quoted name ++ " requires an argument."
  | needlessValue name => "Option " ++ Text.quoted name ++ " does not take a value."
  | noCommand => "Missing command."
  | unknownCommand name => "No such command " ++ Text.quoted name ++ "."
  | noOperand name => "Missing argument '" ++ name ++ "'."
  | needlessOperands operands =>
    (if operands.length = 1 then "Got unexpected extra argument (".toList
      else "Got unexpected extra arguments (".toList) ++ Text.join [' '] operands ++ ")"
  | directory path => "Invalid value for '--env-file': File " ++ Text.quoted path ++ " is a directory."
  | unreadable path fault => "Invalid value for '--file' / '-f': '" ++ path ++ "': " ++ fault.message
  | noAssignment text => "Invalid value for -p: expected key=value, got '" ++ text ++ "'"
  | noPatterns => "No patterns given"

/-- Whether the fault is told without the usage of its scope: the value of an option is amiss before
the option is looked at. -/
def isBrief : UsageFault → Bool
  | noValue _ => true
  | needlessValue _ => true
  | _ => false

def report (s : Scope) (f : UsageFault) : Text :=
  let place : Text :=
    if f.isBrief then [] else s.usage ++ "\nTry '" ++ s.path ++ " --help' for help.\n\n"
  place ++ "Error: " ++ f.message

end UsageFault

end RoutePattern
