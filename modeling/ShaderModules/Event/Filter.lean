import ShaderModules.Event
import ShaderModules.Text.Blank
import ShaderModules.Text.Search

/-!
# Which events are shown

A filter is written as rules between commas. A rule is a level, an origin, or an origin and a level
with an equals sign between them. A rule with an origin holds for every origin that starts with
its text, and of several the one with the longest text decides. Behind a slash stands a text that
shown events contain.

* `EventFilter.parse`: the filter of a text, and what is wrong with it.
* `EventFilter.shows`: whether an event is shown.
* `Event.line`: how an event is shown.
-/

namespace ShaderModules

/-- What is shown of the events whose origin starts with a text. -/
structure EventRule where
  origin : String := ""
  /-- The least important level that is shown; without one nothing is. -/
  limit : Option Level
  deriving DecidableEq, Repr

/-- A choice of events. -/
structure EventFilter where
  rules : List EventRule
  /-- What shown events contain. -/
  part : String := ""
  deriving DecidableEq, Repr

namespace EventRule

/-- The limit with a name, in letters of either case. -/
def limit? (s : String) : Option (Option Level) :=
  let lower := String.ofList (s.toList.map Char.toLower)
  if lower = "off" then some none
  else (Level.all.find? fun l => l.name = lower).map some

/-- The rule between two commas. -/
def parse (s : String) : Except String EventRule :=
  match (Text.splitAt '=' s.toList).map String.ofList with
  | [only] =>
    match limit? only with
    | some limit => .ok ⟨"", limit⟩
    | none => .ok ⟨only, some .trace⟩
  | [origin, level] =>
    let level := Text.trim level
    if level = "" then .ok ⟨origin, some .trace⟩
    else match limit? level with
      | some limit => .ok ⟨origin, limit⟩
      | none => .error ("invalid logging spec '" ++ level ++ "'")
  | _ => .error ("invalid logging spec '" ++ s ++ "'")

/-- Rules after one more rule, which replaces the one for the same origin. -/
def insert (rules : List EventRule) (r : EventRule) : List EventRule :=
  if rules.any (·.origin == r.origin) then
    rules.map fun old => if old.origin = r.origin then r else old
  else rules ++ [r]

/-- Whether a rule shows events of a level. -/
def admits (r : EventRule) (l : Level) : Bool :=
  match r.limit with
  | some limit => decide (l.rank ≤ limit.rank)
  | none => false

end EventRule

namespace EventFilter

/-- The filter that shows errors only. -/
def errors : EventFilter := ⟨[⟨"", some .error⟩], ""⟩

/-- The filter of rules; no rules show errors only. -/
def ofRules (rules : List EventRule) (part : String) : EventFilter :=
  ⟨if rules.isEmpty then errors.rules else rules, part⟩

/-- The rules of a text, and what is wrong with those that cannot be read. -/
def parseRules (s : List Char) : List EventRule × List String :=
  ((Text.splitAt ',' s).map fun p => String.ofList (Text.trimmed p)).foldl (fun (rules, faults) p =>
    if p = "" then (rules, faults)
    else match EventRule.parse p with
      | .ok r => (EventRule.insert rules r, faults)
      | .error e => (rules, faults ++ [e])) ([], [])

/-- The filter of a text, and what is wrong with the text. -/
def parse (s : String) : EventFilter × List String :=
  match Text.splitAt '/' s.toList with
  | [rules] =>
    let (rules, faults) := parseRules rules
    (ofRules rules "", faults)
  | [rules, part] =>
    let (rules, faults) := parseRules rules
    (ofRules rules (String.ofList part), faults)
  | _ => (errors, ["invalid logging spec '" ++ s ++ "' (too many '/'s)"])

/-- Of the rules for an origin the one with the longest text, and the last of several. -/
def ruleFor? (f : EventFilter) (origin : String) : Option EventRule :=
  f.rules.foldl (fun best r =>
    if !origin.startsWith r.origin then best
    else match best with
      | some b => if b.origin.utf8ByteSize ≤ r.origin.utf8ByteSize then some r else best
      | none => some r) none

/-- Whether an event is shown. -/
def shows (f : EventFilter) (e : Event) : Bool :=
  (match f.ruleFor? e.origin with
    | some r => r.admits e.level
    | none => false) &&
    (f.part = "" || decide (1 < (Text.splitOn f.part.toList e.text.toList).length))

end EventFilter

/-- The name of a level in capital letters, as wide as the longest. -/
def Level.label (l : Level) : String :=
  let name := l.name.toList.map Char.toUpper
  String.ofList (name ++ List.replicate (5 - name.length) ' ')

/-- How an event is shown. The further lines of its text are indented. -/
def Event.line (e : Event) : String :=
  "[" ++ e.level.label ++ " " ++ e.origin ++ "] " ++ Text.replace e.text "\n" "\n    " ++ "\n"

end ShaderModules
