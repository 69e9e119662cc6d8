import RoutePattern.Text

namespace RoutePattern
namespace Log

inductive Level where
  | debug
  | info
  | warning
  | error
  | critical
deriving DecidableEq, Repr

namespace Level

def all : List Level := [debug, info, warning, error, critical]

def name : Level → Text
  | debug => "DEBUG"
  | info => "INFO"
  | warning => "WARNING"
  | error => "ERROR"
  | critical => "CRITICAL"

def ofName? (name : Text) : Option Level := all.find? fun level => level.name == name

def rank : Level → Nat
  | debug => 10
  | info => 20
  | warning => 30
  | error => 40
  | critical => 50

end Level

inductive Source where
  | commandLine
  | compiler
  | settings
  | route
  | schema
deriving DecidableEq, Repr

namespace Source

def name : Source → Text
  | commandLine => "biroute.cli"
  | compiler => "biroute.compiler"
  | settings => "biroute.config"
  | route => "biroute.route"
  | schema => "biroute.schema"

end Source

structure Record where
  level : Level
  source : Source
  message : Text
deriving DecidableEq, Repr

namespace Record

def reaches (threshold : Level) (r : Record) : Bool := threshold.rank ≤ r.level.rank

def line (r : Record) : Text := r.level.name ++ " " ++ r.source.name ++ ": " ++ r.message

end Record

end Log
end RoutePattern
