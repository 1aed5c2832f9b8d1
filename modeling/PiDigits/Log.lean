namespace PiDigits.Log

inductive Level
  | error
  | warn
  | info
  | debug
  | trace
  deriving DecidableEq, Repr

def Level.name : Level → String
  | error => "ERROR"
  | warn => "WARN"
  | info => "INFO"
  | debug => "DEBUG"
  | trace => "TRACE"

inductive Value
  | number (n : Int)
  | text (s : String)
  deriving DecidableEq, Repr

structure Record where
  level : Level
  message : String
  values : List (String × Value)
  deriving DecidableEq, Repr

end PiDigits.Log
