/-
  TexEngine.Event

  What the engine reports while it works: messages, streams that are opened and
  closed, files that are looked for, and diagnostics of three levels.
-/
import TexEngine.Locator
import TexEngine.Token.Basic

namespace TexEngine

/-- How important a diagnostic is. -/
inductive TraceLevel where
  | error
  | info
  | debug
  deriving DecidableEq, Repr, Inhabited

namespace TraceLevel

/-- The name of a level. -/
def text : TraceLevel → String
  | error => "error"
  | info => "info"
  | debug => "debug"

/-- A larger number means more output. -/
def rank : TraceLevel → Nat
  | error => 0
  | info => 1
  | debug => 2

end TraceLevel

/-- The part of the engine that a diagnostic is about. -/
inductive Tracer where
  | engine
  | environment
  | input
  deriving DecidableEq, Repr, Inhabited

/-- The name under which the diagnostics of a part are known. -/
def Tracer.text : Tracer → String
  | engine => "tex.interp"
  | environment => "tex.state"
  | input => "tex.tokenizer"

/-- Something that happened. -/
inductive Event where
  | message (text : String)
  | write (stream : Int64) (text : String)
  | undefined (token : Token) (locator : Locator)
  | opened (name : String) (isFile : Bool)
  | closed (name : String) (isFile : Bool)
  | sought (path : String)
  | dumped (job : String)
  | trace (level : TraceLevel) (tracer : Tracer) (text : String)
  deriving DecidableEq, Repr, Inhabited

end TexEngine
