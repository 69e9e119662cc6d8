import RoutePattern.Text

namespace RoutePattern

/-- What the program can be told to do: match a target, render a path, sort patterns, or show what a
pattern is made of. -/
inductive Command where
  | accept
  | render
  | sort
  | inspect
deriving DecidableEq, Repr

namespace Command

def all : List Command := [accept, render, sort, inspect]

def name : Command → Text
  | accept => "match"
  | render => "interpolate"
  | sort => "sort"
  | inspect => "inspect"

def ofName? (name : Text) : Option Command := all.find? fun c => c.name == name

def operands : Command → List Text
  | accept => ["PATTERN", "TARGET"]
  | render => ["PATTERN"]
  | sort => []
  | inspect => ["PATTERN"]

end Command

inductive Switch where
  | config
  | assignments
  | verbose
  | version
  | help
  | toEnd
  | notToEnd
  | decode
  | param
  | source
deriving DecidableEq, Repr

namespace Switch

def takesValue : Switch → Bool
  | config => true
  | assignments => true
  | param => true
  | source => true
  | _ => false

/-- Whether an option settles the matter before anything else is looked at. -/
def isEager : Switch → Bool
  | version => true
  | help => true
  | _ => false

end Switch

/-- Where an option stands: with the program itself, or with one of its commands. -/
inductive Scope where
  | program
  | command (command : Command)
deriving DecidableEq, Repr

namespace Scope

def options : Scope → List (Text × Switch)
  | program =>
    [("--version", .version), ("--config", .config), ("--env-file", .assignments),
      ("--verbose", .verbose), ("-v", .verbose), ("--help", .help)]
  | command .accept =>
    [("--end", .toEnd), ("--no-end", .notToEnd), ("--decode", .decode), ("--help", .help)]
  | command .render => [("--param", .param), ("-p", .param), ("--help", .help)]
  | command .sort => [("--file", .source), ("-f", .source), ("--help", .help)]
  | command .inspect => [("--end", .toEnd), ("--no-end", .notToEnd), ("--help", .help)]

def isMixed : Scope → Bool
  | program => false
  | command _ => true

/-- What is typed to get here. -/
def path : Scope → Text
  | program => "biroute"
  | command c => "biroute " ++ c.name

def synopsis : Scope → Text
  | program => "COMMAND [ARGS]..."
  | command .sort => "[PATTERNS]..."
  | command c => Text.join [' '] c.operands

def usage (s : Scope) : Text := "Usage: " ++ s.path ++ " [OPTIONS] " ++ s.synopsis

end Scope

end RoutePattern
