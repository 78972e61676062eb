/-!
# Strings in JSON

The characters of a string and the text between its quotes. Writing escapes the quote, the
backslash and the controls, and nothing else. Reading knows every escape of the format, and
puts two code units of a surrogate pair together; an escape that is half of a pair stands
for no character and is refused.

## Main definitions

* `encodeChar`, `encode`: The text between the quotes.
* `decode?`: The characters that a text between quotes stands for.

## Theorems

* `decode?_encode`: A string that was written is read back.
-/

namespace MessagePlan.Json

/-- A hexadecimal digit. -/
def hexDigit (n : Nat) : Char := (Nat.toDigits 16 (n % 16)).headD '0'

/-- A character between quotes. -/
def encodeChar (c : Char) : List Char :=
  if c = '"' then ['\\', '"']
  else if c = '\\' then ['\\', '\\']
  else if c = '\x08' then ['\\', 'b']
  else if c = '\x0c' then ['\\', 'f']
  else if c = '\n' then ['\\', 'n']
  else if c = '\r' then ['\\', 'r']
  else if c = '\t' then ['\\', 't']
  else if c.toNat < 0x20 then ['\\', 'u', '0', '0', hexDigit (c.toNat / 16), hexDigit c.toNat]
  else [c]

/-- The text between the quotes of a string. -/
def encode (s : String) : String := String.ofList (s.toList.flatMap encodeChar)

/-- The value of a hexadecimal digit. -/
def hexValue? (c : Char) : Option Nat :=
  if '0' ≤ c ∧ c ≤ '9' then some (c.toNat - '0'.toNat)
  else if 'a' ≤ c ∧ c ≤ 'f' then some (c.toNat - 'a'.toNat + 10)
  else if 'A' ≤ c ∧ c ≤ 'F' then some (c.toNat - 'A'.toNat + 10)
  else none

/-- The code unit of four hexadecimal digits. -/
def codeUnit? (a b c d : Char) : Option Nat := do
  return (((← hexValue? a) * 16 + (← hexValue? b)) * 16 + (← hexValue? c)) * 16 + (← hexValue? d)

/-- The character of an escape of two characters. -/
def shortEscape? (c : Char) : Option Char :=
  if c = '"' ∨ c = '\\' ∨ c = '/' then some c
  else if c = 'b' then some '\x08'
  else if c = 'f' then some '\x0c'
  else if c = 'n' then some '\n'
  else if c = 'r' then some '\r'
  else if c = 't' then some '\t'
  else none

/-- Whether a code unit begins a surrogate pair. -/
def isHighSurrogate (n : Nat) : Bool := decide (0xd800 ≤ n ∧ n ≤ 0xdbff)

/-- Whether a code unit ends a surrogate pair. -/
def isLowSurrogate (n : Nat) : Bool := decide (0xdc00 ≤ n ∧ n ≤ 0xdfff)

/-- The character of a code unit alone. -/
def loneUnit? (n : Nat) : Option Char :=
  if isHighSurrogate n || isLowSurrogate n then none else some (Char.ofNat n)

/-- The character of two code units. -/
def surrogatePair? (high low : Nat) : Option Char :=
  if isHighSurrogate high && isLowSurrogate low then
    some (Char.ofNat (0x10000 + (high - 0xd800) * 0x400 + (low - 0xdc00)))
  else none

/-- Read the characters of a text between quotes, behind those read so far, last first. -/
def decodeFrom (read : List Char) : List Char → Option (List Char)
  | [] => some read.reverse
  | '\\' :: 'u' :: a :: b :: c :: d :: rest =>
    match codeUnit? a b c d with
    | none => none
    | some n =>
      if isHighSurrogate n then
        match rest with
        | '\\' :: 'u' :: e :: f :: g :: h :: rest =>
          match (codeUnit? e f g h).bind (surrogatePair? n) with
          | some x => decodeFrom (x :: read) rest
          | none => none
        | _ => none
      else
        match loneUnit? n with
        | some x => decodeFrom (x :: read) rest
        | none => none
  | '\\' :: c :: rest =>
    match shortEscape? c with
    | some x => decodeFrom (x :: read) rest
    | none => none
  | c :: rest => if c = '\\' then none else decodeFrom (c :: read) rest

/-- The string that a text between quotes stands for, if every escape in it stands for a
    character. -/
def decode? (raw : String) : Option String := (decodeFrom [] raw.toList).map String.ofList

/-- The four digits of a control stand for it. -/
theorem codeUnit?_hexDigit : ∀ n < 0x20, isHighSurrogate n = false ∧
    codeUnit? '0' '0' (hexDigit (n / 16)) (hexDigit n) = some n ∧
    loneUnit? n = some (Char.ofNat n) := by
  decide

/-- A character other than the backslash is read as itself. -/
theorem decodeFrom_cons {read rest : List Char} {c : Char} (h : c ≠ '\\') :
    decodeFrom read (c :: rest) = decodeFrom (c :: read) rest := by
  rw [decodeFrom.eq_def]
  split <;> simp_all

/-- A character that was written is read back, whatever follows. -/
theorem decodeFrom_encodeChar (read : List Char) (c : Char) (rest : List Char) :
    decodeFrom read (encodeChar c ++ rest) = decodeFrom (c :: read) rest := by
  unfold encodeChar
  -- The short escapes, each of which names its character.
  split
  · rename_i h; subst h; rfl
  split
  · rename_i h; subst h; rfl
  rename_i hb
  split
  · rename_i h; subst h; rfl
  split
  · rename_i h; subst h; rfl
  split
  · rename_i h; subst h; rfl
  split
  · rename_i h; subst h; rfl
  split
  · rename_i h; subst h; rfl
  -- The other controls, then what stands for itself.
  split
  · rename_i h
    obtain ⟨h₁, h₂, h₃⟩ := codeUnit?_hexDigit c.toNat h
    simp only [List.cons_append, List.nil_append, decodeFrom, h₁, h₂, h₃, Bool.false_eq_true,
      if_false, Char.ofNat_toNat]
  · exact decodeFrom_cons hb

/-- What was written is read behind what was read before. -/
theorem decodeFrom_flatMap (read cs : List Char) :
    decodeFrom read (cs.flatMap encodeChar) = some (read.reverse ++ cs) := by
  induction cs generalizing read with
  | nil => simp [decodeFrom]
  | cons c cs ih =>
    rw [List.flatMap_cons, decodeFrom_encodeChar, ih]
    simp

/-- A string that was written is read back. -/
theorem decode?_encode (s : String) : decode? (encode s) = some s := by
  simp [decode?, encode, decodeFrom_flatMap]

end MessagePlan.Json
