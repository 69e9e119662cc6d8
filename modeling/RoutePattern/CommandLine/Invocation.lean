import RoutePattern.CommandLine.Fault
import RoutePattern.Text.Similarity

/-!
Invocations: the arguments of the program or of a command, cut into options and operands.
-/

namespace RoutePattern

/-- The options that were given, in order, each with its value, and the operands. -/
structure Invocation where
  given : List (Switch × Text)
  operands : List Text
deriving DecidableEq, Repr

namespace Invocation

def withOptions (options : List (Switch × Text)) (i : Invocation) : Invocation :=
  ⟨options ++ i.given, i.operands⟩

def withOperand (operand : Text) (i : Invocation) : Invocation :=
  ⟨i.given, operand :: i.operands⟩

def values (s : Switch) (i : Invocation) : List Text :=
  i.given.filterMap fun option => if option.1 = s then some option.2 else none

def value? (s : Switch) (i : Invocation) : Option Text := (i.values s).getLast?

def has (s : Switch) (i : Invocation) : Bool := (i.value? s).isSome

def eager? (i : Invocation) : Option Switch := (i.given.map (·.1)).find? Switch.isEager

/-- Whether a match has to take the whole path, if one of the two options says so. -/
def atEnd? (i : Invocation) : Option Bool :=
  ((i.given.map (·.1)).filterMap fun
    | .toEnd => some true
    | .notToEnd => some false
    | _ => none).getLast?

/-- The operands of a command, neither more nor fewer than it takes. -/
def exactly (names : List Text) (i : Invocation) : Except UsageFault (List Text) :=
  match names.drop i.operands.length, i.operands.drop names.length with
  | name :: _, _ => .error (.noOperand name)
  | [], [] => .ok i.operands
  | [], extra => .error (.needlessOperands extra)

end Invocation

namespace Scope

/-- What one argument says: options, and the name of one that takes the next argument as its
value. -/
abbrev Reading := List (Switch × Text) × Option (Text × Switch)

/-- Reads options of one letter that share a dash. The rest of the argument is the value of one that
takes a value. -/
def readLetters (s : Scope) : Text → Except UsageFault Reading
  | [] => .ok ([], none)
  | c :: rest =>
    match Table.get? ['-', c] s.options with
    | none => .error (.unknownOption ['-', c] [])
    | some option =>
      if option.takesValue then
        .ok (if rest.isEmpty then ([], some (['-', c], option)) else ([(option, rest)], none))
      else (s.readLetters rest).map fun (options, pending) => ((option, []) :: options, pending)

def longNames (s : Scope) : List Text :=
  (s.options.map (·.1)).filter fun name => "--".toList.isPrefixOf name

/-- Reads an argument that begins with a dash. A value may stand behind an equals sign. -/
def readOption (s : Scope) (arg : Text) : Except UsageFault Reading :=
  let (name, value) :=
    match Text.cut '=' arg with
    | some (name, value) => (name, some value)
    | none => (arg, none)
  match if s.longNames.contains name then Table.get? name s.options else none, value with
  | some option, some v =>
    if option.takesValue then .ok ([(option, v)], none) else .error (.needlessValue name)
  | some option, none =>
    .ok (if option.takesValue then ([], some (name, option)) else ([(option, [])], none))
  | none, _ =>
    if "--".toList.isPrefixOf arg then
      .error (.unknownOption name (Text.closest name s.longNames))
    else s.readLetters (arg.drop 1)

/-- Whether an argument is read for options. A lone dash is an operand. -/
def isOption : Text → Bool
  | '-' :: _ :: _ => true
  | _ => false

/-- Cuts arguments into options and operands. Two dashes end the options, and so does the first
operand where options may not follow one. -/
def invocation (s : Scope) : List Text → Except UsageFault Invocation
  | [] => .ok ⟨[], []⟩
  | arg :: rest =>
    if arg = "--".toList then .ok ⟨[], rest⟩
    else if isOption arg then
      match s.readOption arg with
      | .error fault => .error fault
      | .ok (options, none) => (s.invocation rest).map (Invocation.withOptions options)
      | .ok (options, some (name, option)) =>
        match rest with
        | [] => .error (.noValue name)
        | value :: rest =>
          (s.invocation rest).map (Invocation.withOptions (options ++ [(option, value)]))
    else if s.isMixed then (s.invocation rest).map (Invocation.withOperand arg)
    else .ok ⟨[], arg :: rest⟩

end Scope

end RoutePattern
