/-!
# Events

What the program reports about its work while it runs. Events are values; which of them are shown
is decided at the end, by their level and origin.

* `Event`: a text with its level and origin.
* `Logged`: a result together with the events on the way to it.
-/

namespace ShaderModules

/-- How important an event is. -/
inductive Level where
  | error
  | warn
  | info
  | debug
  | trace
  deriving DecidableEq, Repr

/-- The rank of a level: more important levels come first. -/
def Level.rank : Level → Nat
  | .error => 1
  | .warn => 2
  | .info => 3
  | .debug => 4
  | .trace => 5

/-- The name of a level. -/
def Level.name : Level → String
  | .error => "error"
  | .warn => "warn"
  | .info => "info"
  | .debug => "debug"
  | .trace => "trace"

/-- The name of a level with a capital letter. -/
def Level.title (l : Level) : String := l.name.capitalize

/-- All levels. -/
def Level.all : List Level := [.error, .warn, .info, .debug, .trace]

/-- Something that is reported. -/
structure Event where
  level : Level
  /-- The part of the program that reports it. -/
  origin : String
  text : String
  deriving DecidableEq, Repr

/-- A result and the events on the way to it, in order. -/
structure Logged (α : Type) where
  value : α
  events : List Event := []
  deriving Repr

namespace Logged

variable {α β : Type}

/-- Goes on with a result, after the events that led to it. -/
def bind (x : Logged α) (f : α → Logged β) : Logged β :=
  let y := f x.value
  ⟨y.value, x.events ++ y.events⟩

instance : Monad Logged where
  pure a := ⟨a, []⟩
  bind := bind

theorem value_bind (x : Logged α) (k : α → Logged β) : (x >>= k).value = (k x.value).value := rfl

/-- Reports an event. -/
def report (e : Event) : Logged Unit := ⟨(), [e]⟩

end Logged

end ShaderModules
