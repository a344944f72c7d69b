/-!
# Formatted output

What `echo` and `printf` write. Both know escapes, which start with a backslash and may stand for
any byte.

* `echoed`: the arguments of `echo`.
* `formatted`: a format applied to its arguments, again and again until none is left.
-/

namespace ShaderModules.Shell

/-- The bytes of characters. -/
def bytesOf (s : List Char) : List UInt8 := (String.ofList s).toUTF8.toList

/-- The byte of an escape that is a single letter. -/
def letterEscape? : Char → Option UInt8
  | 'a' => some 7
  | 'b' => some 8
  | 'f' => some 12
  | 'n' => some 10
  | 'r' => some 13
  | 't' => some 9
  | 'v' => some 11
  | '\\' => some 92
  | _ => none

/-- The octal digits, at most `count`, that a text starts with. -/
def octalDigits (count : Nat) (s : List Char) : List Char :=
  (s.take count).takeWhile fun c => '0' ≤ c && c ≤ '7'

/-- The number that digits spell to a base. -/
def digitsValue (base : Nat) (digits : List Char) : Nat :=
  digits.foldl (fun n c => n * base + (c.toNat - '0'.toNat)) 0

/-! ## Echo -/

/-- The bytes of a text with its escapes resolved, and whether an escape ends the output. In it,
an escape by number starts with a zero. -/
def unescaped (s : List Char) : List UInt8 × Bool :=
  match s with
  | [] => ([], false)
  | '\\' :: 'c' :: _ => ([], true)
  | '\\' :: '0' :: rest =>
    let digits := octalDigits 3 rest
    let (out, stop) := unescaped (rest.drop digits.length)
    ((digitsValue 8 digits).toUInt8 :: out, stop)
  | '\\' :: c :: rest =>
    match letterEscape? c with
    | some b => let (out, stop) := unescaped rest; (b :: out, stop)
    | none => let (out, stop) := unescaped (c :: rest); (92 :: out, stop)
  | c :: rest => let (out, stop) := unescaped rest; (bytesOf [c] ++ out, stop)
termination_by s.length
decreasing_by all_goals simp only [List.length_cons, List.length_drop]; omega

/-- What `echo` writes as a command of the shell. -/
def echoed (args : List String) : List UInt8 :=
  let (args, newline) := match args with
    | "-n" :: rest => (rest, false)
    | args => (args, true)
  let (out, stop) := unescaped (" ".intercalate args).toList
  if stop || !newline then out else out ++ [10]

/-- What `echo` writes as a program of its own. -/
def echoedPlain (args : List String) : List UInt8 :=
  match args with
  | "-n" :: rest => (" ".intercalate rest).toUTF8.toList
  | args => (" ".intercalate args ++ "\n").toUTF8.toList

/-! ## Formats -/

/-- A conversion of a format. -/
structure Conversion where
  left : Bool := false
  zero : Bool := false
  width : Nat := 0
  precision : Option Nat := none
  kind : Char
  deriving Repr

/-- A part of a format. -/
inductive FormatPart where
  | bytes (b : List UInt8)
  | conversion (c : Conversion)
  /-- Nothing more is written. -/
  | stop
  deriving Repr

/-- The conversion that the text behind a percent sign starts with, and what follows it. -/
def conversion? (s : List Char) : Option (Conversion × List Char) :=
  let flags := s.takeWhile fun c => "-0+ #".toList.contains c
  let s := s.drop flags.length
  let width := s.takeWhile Char.isDigit
  let s := s.drop width.length
  let (precision, s) := match s with
    | '.' :: rest =>
      let digits := rest.takeWhile Char.isDigit
      (some (digitsValue 10 digits), rest.drop digits.length)
    | s => (none, s)
  match s with
  | kind :: rest =>
    some (⟨flags.contains '-', flags.contains '0', digitsValue 10 width, precision, kind⟩, rest)
  | [] => none

theorem conversion?_length {s rest : List Char} {c : Conversion}
    (h : conversion? s = some (c, rest)) : rest.length < s.length := by
  unfold conversion? at h
  dsimp only at h
  split at h
  · rename_i kind tail heq
    simp only [Option.some.injEq, Prod.mk.injEq] at h
    obtain ⟨_, rfl⟩ := h
    revert heq
    split
    · rename_i more hmore
      intro heq
      have h1 := congrArg List.length hmore
      have h2 := congrArg List.length heq
      simp only [List.length_drop, List.length_cons] at h1 h2
      omega
    · intro heq
      have h2 := congrArg List.length heq
      simp only [List.length_drop, List.length_cons] at h2
      omega
  · cases h

/-- The parts of a format. -/
def formatParts (s : List Char) : List FormatPart :=
  match s with
  | [] => []
  | '\\' :: 'c' :: _ => [.stop]
  | '\\' :: '"' :: rest => .bytes [34] :: formatParts rest
  | '\\' :: c :: rest =>
    match letterEscape? c with
    | some b => .bytes [b] :: formatParts rest
    | none =>
      let digits := octalDigits 3 (c :: rest)
      if digits.isEmpty then .bytes [92] :: formatParts (c :: rest)
      else .bytes [(digitsValue 8 digits).toUInt8] :: formatParts (rest.drop (digits.length - 1))
  | '%' :: '%' :: rest => .bytes [37] :: formatParts rest
  | '%' :: rest =>
    match _h : conversion? rest with
    | some (c, after) => .conversion c :: formatParts after
    | none => .bytes [37] :: formatParts rest
  | c :: rest => .bytes (bytesOf [c]) :: formatParts rest
termination_by s.length
decreasing_by
  all_goals first
    | (have hlt := conversion?_length _h; simp only [List.length_cons]; omega)
    | (simp only [List.length_cons, List.length_drop]; omega)

/-- A field of at least the width of a conversion. -/
def Conversion.pad (c : Conversion) (b : List UInt8) : List UInt8 :=
  let fill := c.width - b.length
  if c.left then b ++ List.replicate fill 32
  else if c.zero && c.kind ≠ 's' then List.replicate fill 48 ++ b
  else List.replicate fill 32 ++ b

/-- The whole number that an argument spells, or zero. -/
def argumentNumber (arg : String) : Int :=
  match arg.toList with
  | '-' :: digits => - Int.ofNat (digitsValue 10 (digits.takeWhile Char.isDigit))
  | '+' :: digits => Int.ofNat (digitsValue 10 (digits.takeWhile Char.isDigit))
  | '\x27' :: c :: _ => Int.ofNat c.toNat
  | '"' :: c :: _ => Int.ofNat c.toNat
  | digits => Int.ofNat (digitsValue 10 (digits.takeWhile Char.isDigit))

/-- What a conversion makes of an argument, and whether the output ends with it. -/
def Conversion.apply (c : Conversion) (arg : String) : List UInt8 × Bool :=
  let number := argumentNumber arg
  let digits (base : Nat) := (String.ofList (Nat.toDigits base number.toNat)).toUTF8.toList
  match c.kind with
  | 'd' | 'i' => (c.pad (toString number).toUTF8.toList, false)
  | 'u' => (c.pad (digits 10), false)
  | 'o' => (c.pad (digits 8), false)
  | 'x' => (c.pad (digits 16), false)
  | 'X' => (c.pad ((digits 16).map fun b => if 97 ≤ b then b - 32 else b), false)
  | 'c' => (c.pad (arg.toUTF8.toList.take 1), false)
  | 'b' => let (out, stop) := unescaped arg.toList; (c.pad out, stop)
  | _ =>
    let b := arg.toUTF8.toList
    (c.pad (match c.precision with | some n => b.take n | none => b), false)

/-- The parts of a format applied to arguments: what is written, the arguments left, and whether
the output ends. -/
def applyParts (args : List String) : List FormatPart → List UInt8 × List String × Bool
  | [] => ([], args, false)
  | .stop :: _ => ([], args, true)
  | .bytes b :: rest =>
    let (out, args, stop) := applyParts args rest
    (b ++ out, args, stop)
  | .conversion c :: rest =>
    match c.apply (args.head?.getD "") with
    | (b, true) => (b, args.tail, true)
    | (b, false) =>
      let (out, args, stop) := applyParts args.tail rest
      (b ++ out, args, stop)

/-- A format applied as often as there are arguments for, `rounds` times at most. -/
def applyRounds (parts : List FormatPart) (rounds : Nat) (args : List String) : List UInt8 :=
  match rounds with
  | 0 => []
  | rounds + 1 =>
    let (out, rest, stop) := applyParts args parts
    if stop || rest.isEmpty || rest.length = args.length then out
    else out ++ applyRounds parts rounds rest

/-- What `printf` writes. -/
def formatted (format : String) (args : List String) : List UInt8 :=
  applyRounds (formatParts format.toList) (args.length + 1) args

end ShaderModules.Shell
