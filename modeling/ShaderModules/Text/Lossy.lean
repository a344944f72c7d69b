/-!
# Reading bytes that may not be text

Bytes are read as UTF-8. Where they are not, the longest part that could still have started a
character gives one replacement character, and reading goes on behind it.

* `lossy`: the text of any bytes (`lossy_toUTF8`: the bytes of a text give the text).
-/

namespace ShaderModules.Text

/-- The character that stands for bytes that cannot be read. -/
def replacement : Char := '\uFFFD'

/-- For the first byte of a character of several bytes: how many follow, and the least and the
greatest byte that may come next. -/
def follow? (b : UInt8) : Option (Nat × UInt8 × UInt8) :=
  if b < 0xC2 then none
  else if b < 0xE0 then some (1, 0x80, 0xBF)
  else if b = 0xE0 then some (2, 0xA0, 0xBF)
  else if b = 0xED then some (2, 0x80, 0x9F)
  else if b < 0xF0 then some (2, 0x80, 0xBF)
  else if b = 0xF0 then some (3, 0x90, 0xBF)
  else if b < 0xF4 then some (3, 0x80, 0xBF)
  else if b = 0xF4 then some (3, 0x80, 0x8F)
  else none

/-- The bytes, at most `count`, that continue a character; the next one is between `lo` and
`hi`. -/
def continuation (count : Nat) (lo hi : UInt8) (bytes : List UInt8) : List UInt8 :=
  match count, bytes with
  | n + 1, b :: rest => if lo ≤ b && b ≤ hi then b :: continuation n 0x80 0xBF rest else []
  | _, _ => []

/-- The code point of a character of several bytes. -/
def codePoint (b : UInt8) (more : List UInt8) : Nat :=
  more.foldl (fun n c => n * 64 + c.toNat % 64) (b.toNat % Nat.pow 2 (6 - more.length))

/-- The characters of bytes, in reverse behind `read`. -/
def lossyFrom (read : List Char) (bytes : List UInt8) : List Char :=
  match bytes with
  | [] => read
  | b :: rest =>
    if b < 0x80 then lossyFrom (Char.ofNat b.toNat :: read) rest
    else match follow? b with
      | none => lossyFrom (replacement :: read) rest
      | some (count, lo, hi) =>
        let more := continuation count lo hi rest
        let c := if more.length = count then Char.ofNat (codePoint b more) else replacement
        lossyFrom (c :: read) (rest.drop more.length)
termination_by bytes.length
decreasing_by all_goals simp only [List.length_cons, List.length_drop]; omega

/-- The text of bytes, with replacement characters where they are not UTF-8. -/
def lossy (bytes : ByteArray) : String :=
  match String.fromUTF8? bytes with
  | some text => text
  | none => String.ofList (lossyFrom [] bytes.toList).reverse

theorem lossy_toUTF8 (text : String) : lossy text.toUTF8 = text := by
  have h : String.fromUTF8? text.toUTF8 = some text := by
    unfold String.fromUTF8?
    rw [dif_pos (by exact text.isValidUTF8)]
    rfl
  unfold lossy
  rw [h]

end ShaderModules.Text
