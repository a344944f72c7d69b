import ShaderModules.Host.FileTree
import ShaderModules.Shell.Formatted

/-!
# Standard programs

The small programs that scripts are made of. A program sees the file tree, its arguments and its
input, and is done with a status, what it wrote and the input it left.

* `standard?`: the standard programs by name.
* `conditionHolds`: the conditions of `test`.
-/

namespace ShaderModules.Shell

/-- What a program did. -/
structure Ran where
  status : Nat := 0
  output : List UInt8 := []
  diagnostics : List UInt8 := []
  /-- The input that was not read. -/
  rest : List UInt8 := []

/-- A program: what it does in a tree, on arguments and input. -/
abbrev Program := FileTree → List String → List UInt8 → Ran

/-- The text of an error without its number. -/
def plainMessage (e : OsError) : String :=
  match e.message.splitOn " (os error" with
  | text :: _ => text
  | [] => e.message

/-- The inputs that the operands of a program name, with the messages about those it cannot
read. -/
def readOperands (tree : FileTree) (program : String) (input : List UInt8) :
    List String → List UInt8 × List UInt8
  | [] => ([], [])
  | name :: rest =>
    let (out, err) := readOperands tree program input rest
    if name = "-" then (input ++ out, err)
    else match tree.read name with
      | .ok contents => (contents.toList ++ out, err)
      | .error e =>
        (out, (program ++ ": " ++ name ++ ": " ++ plainMessage e ++ "\n").toUTF8.toList ++ err)

/-- A program that makes an output of its whole input, which its operands name. -/
def filter (program : String) (operands : List String) (tree : FileTree) (input : List UInt8)
    (f : List UInt8 → List UInt8) : Ran :=
  let (read, err) :=
    readOperands tree program input (if operands.isEmpty then ["-"] else operands)
  { status := if err.isEmpty then 0 else 1
    output := f read
    diagnostics := err
    rest := if operands.isEmpty || operands.contains "-" then [] else input }

/-! ## Lines and counts -/

/-- The first lines of bytes. -/
def takeLines : Nat → List UInt8 → List UInt8
  | 0, _ => []
  | _, [] => []
  | n + 1, b :: rest => b :: takeLines (if b = 10 then n else n + 1) rest

/-- What follows the first lines of bytes. -/
def dropLines : Nat → List UInt8 → List UInt8
  | 0, s => s
  | _, [] => []
  | n + 1, b :: rest => dropLines (if b = 10 then n else n + 1) rest

/-- The number of lines, a last one without an end included. -/
def lineCount (s : List UInt8) : Nat :=
  s.count 10 + (if s.getLast?.any (· ≠ 10) then 1 else 0)

/-- How much of its input a program takes. -/
structure Portion where
  bytes : Bool := false
  count : Nat := 10
  /-- Whether the count is from the start, for a program that takes from the end. -/
  fromStart : Bool := false

/-- The portion that arguments ask for, and the operands. -/
def portionOf (p : Portion) : List String → Portion × List String
  | [] => (p, [])
  | arg :: rest =>
    let number (s : List Char) : Portion :=
      match s with
      | '+' :: digits => { p with count := digitsValue 10 digits, fromStart := true }
      | digits => { p with count := digitsValue 10 digits }
    match arg.toList, rest with
    | ['-', 'n'], n :: rest => portionOf { number n.toList with bytes := false } rest
    | ['-', 'c'], n :: rest => portionOf { number n.toList with bytes := true } rest
    | '-' :: 'n' :: n, rest => portionOf { number n with bytes := false } rest
    | '-' :: 'c' :: n, rest => portionOf { number n with bytes := true } rest
    | '-' :: c :: n, rest =>
      if c.isDigit then portionOf { number (c :: n) with bytes := false } rest
      else portionOf p rest
    | _, rest =>
      let (p, operands) := portionOf p rest
      (p, arg :: operands)

/-- The first part of the input. -/
def head : Program := fun tree args input =>
  let (p, operands) := portionOf {} args
  filter "head" operands tree input fun s =>
    if p.bytes then s.take p.count else takeLines p.count s

/-- The last part of the input. -/
def tail : Program := fun tree args input =>
  let (p, operands) := portionOf {} args
  filter "tail" operands tree input fun s =>
    let size := if p.bytes then s.length else lineCount s
    let skipped := if p.fromStart then p.count - 1 else size - p.count
    if p.bytes then s.drop skipped else dropLines skipped s

/-- The number of runs of bytes other than white space. -/
def wordCount (inWord : Bool) : List UInt8 → Nat
  | [] => 0
  | b :: rest =>
    let blank := b = 32 || (9 ≤ b && b ≤ 13)
    (if !blank && !inWord then 1 else 0) + wordCount (!blank) rest

/-- A number at the right of a field. -/
def padNumber (width n : Nat) : List Char :=
  let digits := (toString n).toList
  List.replicate (width - digits.length) ' ' ++ digits

/-- Counts lines, words and bytes. -/
def count : Program := fun tree args input =>
  let flags := (args.filter (·.startsWith "-")).flatMap (·.toList.drop 1)
  let operands := args.filter fun a => !a.startsWith "-"
  filter "wc" operands tree input fun s =>
    let wanted (c : Char) : Bool := flags.isEmpty || flags.contains c
    let counts := (if wanted 'l' then [s.count 10] else []) ++
      (if wanted 'w' then [wordCount false s] else []) ++
      (if wanted 'c' then [s.length] else []) ++
      (if flags.contains 'm' then [(s.filter fun b => b < 0x80 || 0xC0 ≤ b).length] else [])
    let width := if counts.length = 1 then 0 else 7
    let names := operands.map fun n => ' ' :: n.toList
    bytesOf ([' '].intercalate (counts.map (padNumber width)) ++ names.flatten ++ ['\n'])

/-! ## Sets of characters -/

/-- The members of a named class of characters. -/
def classMembers : String → List UInt8
  | "upper" => (List.range 26).map fun n => (n + 65).toUInt8
  | "lower" => (List.range 26).map fun n => (n + 97).toUInt8
  | "digit" => (List.range 10).map fun n => (n + 48).toUInt8
  | "space" => [9, 10, 11, 12, 13, 32]
  | "blank" => [9, 32]
  | "alpha" => (List.range 26).flatMap fun n => [(n + 65).toUInt8, (n + 97).toUInt8]
  | "alnum" => (List.range 26).flatMap (fun n => [(n + 65).toUInt8, (n + 97).toUInt8]) ++
      (List.range 10).map fun n => (n + 48).toUInt8
  | _ => []

/-- The bytes from one to another. -/
def byteRange (a b : UInt8) : List UInt8 :=
  (List.range (b.toNat + 1 - a.toNat)).map fun n => (n + a.toNat).toUInt8

/-- The characters of a set, with its escapes resolved. -/
def setCharacters (s : List Char) : List UInt8 :=
  match s with
  | [] => []
  | '\\' :: c :: rest =>
    match letterEscape? c with
    | some b => b :: setCharacters rest
    | none =>
      let digits := octalDigits 3 (c :: rest)
      if digits.isEmpty then bytesOf [c] ++ setCharacters rest
      else (digitsValue 8 digits).toUInt8 :: setCharacters (rest.drop (digits.length - 1))
  | c :: rest => bytesOf [c] ++ setCharacters rest
termination_by s.length
decreasing_by all_goals simp only [List.length_cons, List.length_drop]; omega

/-- The set with its ranges written out. -/
def expandRanges : List UInt8 → List UInt8
  | a :: 45 :: b :: rest => byteRange a b ++ expandRanges rest
  | a :: rest => a :: expandRanges rest
  | [] => []

/-- The members of a set in order. -/
def setMembers (set : String) : List UInt8 :=
  match set.toList with
  | '[' :: ':' :: rest => classMembers (String.ofList (rest.takeWhile (· ≠ ':')))
  | s => expandRanges (setCharacters s)

/-- Leaves one of several equal neighbours that are in a set. -/
def squeeze (set : List UInt8) : List UInt8 → List UInt8
  | a :: b :: rest =>
    if a = b && set.contains a then squeeze set (b :: rest) else a :: squeeze set (b :: rest)
  | s => s

/-- The image of a byte of the first set in the second, whose last member goes on. -/
def imageOf (source image : List UInt8) (b : UInt8) : UInt8 :=
  match source.reverse.idxOf? b with
  | some i => (image[source.length - 1 - i]?.orElse fun _ => image.getLast?).getD b
  | none => b

/-- Replaces, deletes or squeezes bytes. -/
def exchange : Program := fun _ args input =>
  let flags := (args.takeWhile fun a => a.startsWith "-" && a.length != 1).flatMap (·.toList.drop 1)
  let sets := (args.dropWhile fun a => a.startsWith "-" && a.length != 1).map setMembers
  let first := sets.head?.getD []
  let first := if flags.contains 'c' || flags.contains 'C' then
    (byteRange 0 255).filter fun b => !first.contains b else first
  let second := sets.tail.head?.getD []
  let deleted := flags.contains 'd'
  let out := if deleted then input.filter fun b => !first.contains b
    else if second.isEmpty then input else input.map (imageOf first second)
  let squeezed := if second.isEmpty then first else second
  { output := if flags.contains 's' then squeeze squeezed out else out }

/-! ## Conditions -/

/-- The relations between numbers that `test` knows. -/
def numberRelation? : String → Option (Int → Int → Bool)
  | "-eq" => some (· == ·)
  | "-ne" => some (· != ·)
  | "-lt" => some (decide <| · < ·)
  | "-le" => some (decide <| · ≤ ·)
  | "-gt" => some (decide <| · > ·)
  | "-ge" => some (decide <| · ≥ ·)
  | _ => none

/-- Whether the condition that `test` is given holds. -/
def conditionHolds (tree : FileTree) : List String → Bool
  | [] => false
  | [s] => s ≠ ""
  | ["!", s] => s = ""
  | ["-n", s] => s ≠ ""
  | ["-z", s] => s = ""
  | ["-e", p] => tree.isFile p || tree.isDirectory p
  | ["-f", p] => tree.isFile p
  | ["-r", p] => tree.isFile p || tree.isDirectory p
  | ["-d", p] => tree.isDirectory p
  | ["-s", p] => match tree.read p with
    | .ok contents => contents.size ≠ 0
    | .error _ => false
  | [a, "=", b] => a = b
  | [a, "!=", b] => a ≠ b
  | [a, op, b] =>
    match numberRelation? op with
    | some r => r (argumentNumber a) (argumentNumber b)
    | none => a = "!" && !conditionHolds tree [op, b]
  | "!" :: rest => !conditionHolds tree rest
  | _ => false

/-- The program `test`. -/
def test : Program := fun tree args input =>
  { status := if conditionHolds tree args then 0 else 1, rest := input }

/-! ## All programs -/

/-- A program that only writes. -/
def writer (f : List String → List UInt8) : Program := fun _ args input =>
  { output := f args, rest := input }

/-- The program `printf`. -/
def printf : Program := writer fun
  | format :: args => formatted format args
  | [] => []

/-- The standard programs by name. -/
def standard? : String → Option Program
  | "cat" => some fun tree args input => filter "cat" args tree input id
  | "head" => some head
  | "tail" => some tail
  | "wc" => some count
  | "tr" => some exchange
  | "printf" => some printf
  | "echo" => some (writer echoedPlain)
  | "true" => some (writer fun _ => [])
  | "false" => some fun _ _ input => { status := 1, rest := input }
  | "sleep" => some (writer fun _ => [])
  | "test" => some test
  | "pwd" => some fun tree _ input =>
    { output := bytesOf (FileTree.pathOf tree.workDir ++ "\n").toList, rest := input }
  | _ => none

end ShaderModules.Shell
